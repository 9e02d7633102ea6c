import M5.Mem.Packet

/-!
# Miss status holding registers

`MSHR` of `mem/cache/mshr.cc`: the targets of a miss, those that are deferred until the response to the request that is
out, and the flags that sum them up. Calls on the MSHR of the upper-level cache, which the sender state of a packet
names, are recorded in `upstream`. `ntargets` is an `unsigned short`.
-/

namespace M5.Mem

open M5.Lib Except

namespace MSHR

inductive Source
  | FromCPU | FromSnoop | FromPrefetcher
deriving DecidableEq

/-- A target; `upstreamMSHR` is the sender state of the packet, if that is an MSHR. -/
structure Target where
  readyTime : Nat
  order : Nat
  pkt : Packet
  upstreamMSHR : Option Nat
  source : Source
  markedPending : Bool

structure TargetList where
  list : List Target := []
  needsExclusive : Bool := false
  hasUpgrade : Bool := false

/-- A call on the MSHR of an upper-level cache. -/
inductive UpstreamCall
  | setDownstreamPending (m : Nat)
  | clearDownstreamPending (m : Nat)
deriving DecidableEq

namespace TargetList

variable (l : TargetList)

def resetFlags : TargetList := { l with needsExclusive := false, hasUpgrade := false }

def isReset : Bool := !l.needsExclusive && !l.hasUpgrade

def add (t : Target) : TargetList :=
  let l := if t.source ≠ .FromSnoop then
      { l with
        needsExclusive := l.needsExclusive || t.pkt.needsExclusive,
        hasUpgrade := l.hasUpgrade || decide (t.pkt.cmd = .UpgradeReq) }
    else l
  { l with list := l.list ++ [t] }

def replaceUpgrades : TargetList :=
  if !l.hasUpgrade then l
  else
    { l with
      list := l.list.map fun t =>
        if t.pkt.cmd = .UpgradeReq then { t with pkt := { t.pkt with cmd := .ReadExReq } } else t,
      hasUpgrade := false }

def clearDownstreamPending : List UpstreamCall :=
  l.list.filterMap fun t => if t.markedPending then t.upstreamMSHR.map .clearDownstreamPending else none

end TargetList

/-- What `add` does to the MSHR of the upper-level cache. -/
def Target.calls (t : Target) : List UpstreamCall :=
  if t.markedPending then (t.upstreamMSHR.map .setDownstreamPending).toList else []

/-- Where the MSHR is in the order of calls: free, with targets, or answered, with its targets being popped. -/
inductive Phase
  | free | busy | answered
deriving DecidableEq

end MSHR

open MSHR

structure MSHR where
  readyTime : Nat := 0
  order : Nat := 0
  inService : Bool := false
  downstreamPending : Bool := false
  pendingInvalidate : Bool := false
  pendingShared : Bool := false
  ntargets : Nat := 0
  targets : TargetList := {}
  deferredTargets : TargetList := {}
  phase : Phase := .free
  upstream : List UpstreamCall := []

namespace MSHR

variable (m : MSHR)

/-- A target is put on the regular list. -/
def addTarget (t : Target) : MSHR := { m with targets := m.targets.add t, upstream := m.upstream ++ t.calls }

def incTargets : MSHR := { m with ntargets := (m.ntargets + 1) % 2 ^ 16 }

variable (pkt : Packet) (up : Option Nat)

def allocate (whenReady order : Nat) : Except Fault MSHR := do
  ensure .assert m.targets.isReset
  let source := if pkt.cmd = .HardPFReq then .FromPrefetcher else .FromCPU
  ensure .assert m.deferredTargets.isReset
  .ok (addTarget { m with
    readyTime := whenReady, order := order, inService := false, downstreamPending := false, ntargets := 1,
    pendingInvalidate := false, pendingShared := false, phase := .busy } ⟨whenReady, order, pkt, up, source, true⟩)

/-- `clearDownstreamPending`, called by the cache below. -/
def clearDownstreamPending : Except Fault MSHR := do
  ensure .assert m.downstreamPending
  .ok { m with downstreamPending := false, upstream := m.upstream ++ m.targets.clearDownstreamPending }

def popTarget : MSHR :=
  { m with ntargets := (m.ntargets + (2 ^ 16 - 1)) % 2 ^ 16, targets := { m.targets with list := m.targets.list.tail } }

/-- `isForwardNoResponse`, with the assertion of `getTarget`. -/
def isForwardNoResponse : Except Fault Bool :=
  if m.ntargets ≠ 1 then .ok false
  else
    match m.targets.list with
    | [] => .error .assert
    | t :: _ => .ok (decide (t.source = .FromCPU) && !t.pkt.needsResponse)

def markInService : Except Fault (Bool × MSHR) := do
  ensure .assert (m.inService = false)
  if ← m.isForwardNoResponse then
    ensure .assert (m.ntargets = 1)
    .ok (true, m.popTarget)
  else
    .ok (false, { m with
      inService := true,
      upstream := if m.downstreamPending then m.upstream else m.upstream ++ m.targets.clearDownstreamPending })

def deallocate : Except Fault MSHR := do
  ensure .assert (m.targets.list = [])
  let m := { m with targets := m.targets.resetFlags }
  ensure .assert m.deferredTargets.isReset
  ensure .assert (m.ntargets = 0)
  .ok { m with inService := false, phase := .free }

def allocateTarget (whenReady order : Nat) : Except Fault MSHR := do
  ensure .assert (pkt.cmd ≠ .HardPFReq)
  if m.inService && (!m.deferredTargets.list.isEmpty || m.pendingInvalidate ||
      (!m.targets.needsExclusive && pkt.needsExclusive)) then
    let t : Target := ⟨whenReady, order, pkt, up, .FromCPU, true⟩
    .ok (incTargets { m with deferredTargets := m.deferredTargets.add t, upstream := m.upstream ++ t.calls })
  else .ok (m.addTarget ⟨whenReady, order, pkt, up, .FromCPU, !m.inService⟩).incTargets

/-- `new Packet(pkt, true)`. -/
def copyCleared : Packet :=
  { pkt with shared := false, expressSnoop := false, supplyExclusive := false, memInhibit := false }

/-- `handleSnoop`: whether the snoop is deferred, and the packet with its flags. -/
def handleSnoop (curTick order : Nat) : Bool × Packet × MSHR :=
  if !m.inService || (pkt.expressSnoop && m.downstreamPending) then
    (false, pkt, if pkt.needsExclusive then
        { m with targets := m.targets.replaceUpgrades, deferredTargets := m.deferredTargets.replaceUpgrades }
      else m)
  else
    let m := if pkt.needsExclusive then { m with deferredTargets := m.deferredTargets.replaceUpgrades } else m
    if m.pendingInvalidate then (true, pkt, m)
    else if m.targets.needsExclusive || pkt.needsExclusive then
      let owner := m.targets.needsExclusive
      let m := (m.addTarget ⟨curTick, order, copyCleared pkt, up, .FromSnoop, m.downstreamPending && owner⟩).incTargets
      (true, if owner then { pkt with memInhibit := true, supplyExclusive := true } else pkt,
        if pkt.needsExclusive then { m with pendingInvalidate := true } else m)
    else (true, { pkt with shared := true }, { m with pendingShared := true })

def promoteDeferredTargets (curTick : Nat) : Except Fault (Bool × MSHR) := do
  ensure .assert (m.targets.list = [])
  match m.deferredTargets.list with
  | [] => .ok (false, m)
  | t :: _ => do
    let m := { m with targets := m.deferredTargets, deferredTargets := m.targets }
    ensure .assert (m.targets.list.length = m.ntargets)
    .ok (true, { m with
      deferredTargets := m.deferredTargets.resetFlags, pendingInvalidate := false, pendingShared := false,
      order := t.order, readyTime := max curTick t.readyTime })

/-- `handleFill`: the packet with the shared line asserted on behalf of other readers. -/
def handleFill : Except Fault (Packet × MSHR) :=
  let pkt := if m.pendingShared then { pkt with shared := true } else pkt
  if !pkt.shared && !m.pendingInvalidate && m.deferredTargets.needsExclusive then do
    ensure .assert (m.targets.needsExclusive = false)
    ensure .assert (m.downstreamPending = false)
    .ok (pkt, { m with
      upstream := m.upstream ++ m.deferredTargets.clearDownstreamPending,
      targets := { m.targets with list := m.targets.list ++ m.deferredTargets.list, needsExclusive := true },
      deferredTargets := { m.deferredTargets with list := [] }.resetFlags })
  else .ok (pkt, m)

/-! ## The order of the calls -/

/-- The calls: those of the cache, with `markPending` and `deallocate` of the queue where they follow, and the cache
below marking the request as pending there. A response that is not a fill does not call `handleFill`. -/
inductive Act
  | allocate (pkt : Packet) (up : Option Nat) (whenReady order : Nat)
  | allocateTarget (pkt : Packet) (up : Option Nat) (whenReady order : Nat)
  | snoop (pkt : Packet) (up : Option Nat) (curTick order : Nat)
  | setDownstreamPending
  | clearDownstreamPending
  | markInService
  | response (fill : Option Packet)
  | popTarget
  | promoteDeferredTargets (curTick : Nat)

/-- The order in which the calls are made. -/
def Act.Allowed (m : MSHR) : Act → Prop
  | allocate .. => m.phase = .free
  | allocateTarget pkt .. => m.phase = .busy ∧ pkt.cmd ≠ .HardPFReq
  | snoop .. => m.phase = .busy
  -- while the request is being sent
  | setDownstreamPending => m.phase = .busy ∧ m.inService = false ∧ m.downstreamPending = false
  | clearDownstreamPending => m.phase = .busy ∧ m.downstreamPending
  | markInService => m.phase = .busy ∧ m.inService = false
  -- the cache below has sent the request on before it responds
  | response _ => m.phase = .busy ∧ m.inService ∧ m.downstreamPending = false
  | popTarget => m.phase = .answered ∧ m.targets.list ≠ []
  | promoteDeferredTargets _ => m.phase = .answered ∧ m.targets.list = []

/-- The calls of the cache and of the cache below. -/
def handle : Act → Except Fault MSHR
  | .allocate pkt up whenReady order => m.allocate pkt up whenReady order
  | .allocateTarget pkt up whenReady order => m.allocateTarget pkt up whenReady order
  | .snoop pkt up curTick order => .ok (m.handleSnoop pkt up curTick order).2.2
  | .setDownstreamPending => .ok { m with downstreamPending := true }
  | .clearDownstreamPending => m.clearDownstreamPending
  | .markInService => do
    let (done, m) ← m.markInService
    if done then m.deallocate else .ok m
  | .response none => .ok { m with phase := .answered }
  | .response (some pkt) => do
    let (_, m) ← m.handleFill pkt
    .ok { m with phase := .answered }
  | .popTarget => .ok m.popTarget
  | .promoteDeferredTargets curTick => do
    let (again, m) ← m.promoteDeferredTargets curTick
    if again then
      -- `MSHRQueue::markPending`
      ensure .assert m.inService
      .ok { m with inService := false, phase := .busy }
    else m.deallocate

def Step (m : MSHR) (a : Act) (m' : MSHR) : Prop := a.Allowed m ∧ m.handle a = .ok m'

/-! ## Calls that end -/

section

variable {m m' : MSHR}

theorem allocate_eq_ok {pkt : Packet} {up : Option Nat} {whenReady order : Nat}
    (h : m.allocate pkt up whenReady order = .ok m') : m' = addTarget { m with
      readyTime := whenReady, order := order, inService := false, downstreamPending := false, ntargets := 1,
      pendingInvalidate := false, pendingShared := false, phase := .busy }
        ⟨whenReady, order, pkt, up, if pkt.cmd = .HardPFReq then .FromPrefetcher else .FromCPU, true⟩ := by
  obtain ⟨-, h⟩ := of_ensure h
  obtain ⟨-, h⟩ := of_ensure h
  exact (ok.inj h).symm

/-- A snoop replaces upgrades, and may then record a target. -/
theorem handleSnoop_rule {P Q : MSHR → Prop} (h : P m)
    (hdeferred : ∀ {n}, P n → P { n with deferredTargets := n.deferredTargets.replaceUpgrades })
    (htargets : ∀ {n}, P n → P { n with targets := n.targets.replaceUpgrades }) (hsame : ∀ {n}, P n → Q n)
    (hshared : ∀ {n}, P n → Q { n with pendingShared := true })
    (hadd : ∀ {n} {t : Target} (inv : Bool), P n → t.source = .FromSnoop →
      Q { (n.addTarget t).incTargets with pendingInvalidate := n.pendingInvalidate || inv })
    (pkt : Packet) (up : Option Nat) (curTick order : Nat) : Q (m.handleSnoop pkt up curTick order).2.2 := by
  unfold handleSnoop
  split
  · split
    · exact hsame (htargets (hdeferred h))
    · exact hsame h
  · -- the request precedes the snoop, which is recorded unless the block is to be invalidated already
    obtain ⟨n, hn, he⟩ : ∃ n, P n ∧
        (if pkt.needsExclusive then { m with deferredTargets := m.deferredTargets.replaceUpgrades } else m) = n := by
      refine ⟨_, ?_, rfl⟩
      split
      · exact hdeferred h
      · exact h
    simp only [he]
    split
    · exact hsame hn
    · split
      · have ht := fun inv => hadd (t := ⟨curTick, order, copyCleared pkt, up, .FromSnoop,
          n.downstreamPending && n.targets.needsExclusive⟩) inv hn rfl
        dsimp only
        split
        · have ht := ht true
          rwa [Bool.or_true] at ht
        · have ht := ht false
          rwa [Bool.or_false] at ht
      · exact hshared hn

theorem deallocate_eq_ok (h : m.deallocate = .ok m') : m.targets.list = [] ∧ m.deferredTargets.isReset ∧
    m.ntargets = 0 ∧ m' = { m with targets := m.targets.resetFlags, inService := false, phase := .free } := by
  obtain ⟨ht, h⟩ := of_ensure h
  obtain ⟨hd, h⟩ := of_ensure h
  obtain ⟨hn, h⟩ := of_ensure h
  exact ⟨ht, hd, hn, (ok.inj h).symm⟩

theorem markInService_eq_ok {done : Bool} (h : m.markInService = .ok (done, m')) : m.inService = false ∧
    (done ∧ m' = m.popTarget ∨ done = false ∧ ∃ u, m' = { m with inService := true, upstream := u }) := by
  obtain ⟨hs, h⟩ := of_ensure h
  obtain ⟨fwd, -, h⟩ := of_bind h
  refine ⟨hs, ?_⟩
  cases fwd with
  | true =>
    obtain ⟨-, h⟩ := of_ensure h
    obtain ⟨rfl, rfl⟩ := Prod.mk.inj (ok.inj h)
    exact .inl ⟨rfl, rfl⟩
  | false =>
    obtain ⟨rfl, rfl⟩ := Prod.mk.inj (ok.inj h)
    exact .inr ⟨rfl, _, rfl⟩

theorem promoteDeferredTargets_eq_ok {curTick : Nat} {again : Bool}
    (h : m.promoteDeferredTargets curTick = .ok (again, m')) : m.targets.list = [] ∧
      (again = false ∧ m.deferredTargets.list = [] ∧ m' = m ∨
        again ∧ ∃ t rest, m.deferredTargets.list = t :: rest ∧ m.deferredTargets.list.length = m.ntargets ∧
          m' = { m with
            targets := m.deferredTargets, deferredTargets := m.targets.resetFlags, pendingInvalidate := false,
            pendingShared := false, order := t.order, readyTime := max curTick t.readyTime }) := by
  obtain ⟨ht, h⟩ := of_ensure h
  refine ⟨ht, ?_⟩
  split at h
  · next hd =>
    obtain ⟨rfl, rfl⟩ := Prod.mk.inj (ok.inj h)
    exact .inl ⟨rfl, hd, rfl⟩
  · next t rest hd =>
    obtain ⟨hn, h⟩ := of_ensure h
    obtain ⟨rfl, rfl⟩ := Prod.mk.inj (ok.inj h)
    exact .inr ⟨rfl, t, rest, hd, hn, rfl⟩

end

end MSHR

end M5.Mem
