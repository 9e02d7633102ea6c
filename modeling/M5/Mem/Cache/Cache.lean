import M5.Mem.Cache.Tags
import Mathlib.Tactic.SplitIfs

/-!
# The cache

The functions of `mem/cache/cache_impl.hh` that work on the blocks of one cache: looking up and satisfying a request of
the CPU side, allocating and filling a block, building the packet for the bus, and snooping. A cache allocates through
its MSHR queue only to avoid a victim with an outstanding upgrade, so `allocateBlock` and `handleFill` take the look-up
of outstanding misses as a function `mshrs` from block addresses: `some e` where there is one, with `e` saying whether
it needs an exclusive copy. Latencies and statistics are left out.
-/

namespace M5.Mem

open M5.Lib Function Except

/-- The blocks of a cache, the replacement state of its tag store, and the block used when no frame can be given up. -/
structure Cache (T : TagStore) where
  repl : T.Repl
  blks : Blks
  tempBlock : CacheBlk

/-- The block a function of the cache works on. -/
inductive BlkPtr
  | frame (f : Frame)
  | temp
deriving DecidableEq

namespace Cache

variable {T : TagStore}

def init (T : TagStore) : Cache T := { repl := T.initRepl, blks := T.initBlks, tempBlock := {} }

variable (c : Cache T) (mshrs : Addr → Option Bool) (pkt : Packet)

def get : BlkPtr → CacheBlk
  | .frame f => c.blks f
  | .temp => c.tempBlock

def set (p : BlkPtr) (blk : CacheBlk) : Cache T :=
  match p with
  | .frame f => { c with blks := update c.blks f blk }
  | .temp => { c with tempBlock := blk }

@[simp] theorem get_set_self {c : Cache T} {p : BlkPtr} {b : CacheBlk} : (c.set p b).get p = b := by
  cases p <;> simp [set, get]

theorem get_set_of_ne {c : Cache T} {p q : BlkPtr} {b : CacheBlk} (h : q ≠ p) : (c.set p b).get q = c.get q := by
  cases p with
  | temp =>
    cases q with
    | temp => exact absurd rfl h
    | frame g => rfl
  | frame f =>
    cases q with
    | temp => rfl
    | frame g =>
      have hg : g ≠ f := fun hgf => h (by rw [hgf])
      simp [set, get, hg]

def findBlock (addr : Addr) : Option Frame := T.findBlock c.repl c.blks addr

/-- `Cache::writebackBlk`: the block without its dirty bit, and the packet with its bytes. -/
def writebackBlk (T : TagStore) (blk : CacheBlk) : Except Fault (CacheBlk × Packet) := do
  ensure .assert (blk.isValid ∧ blk.isDirty)
  .ok ({ blk with status := { blk.status with dirty := false } },
    { cmd := .Writeback, addr := T.blkAddr blk, size := T.blkSize, data := blk.data })

/-- `Cache::allocateBlock`: the frame given up, unless its block has an upgrade outstanding, and the writebacks. -/
def allocateBlock (addr : Addr) (writebacks : List Packet) : Except Fault (Option Frame × Cache T × List Packet) :=
  let f := T.findVictim c.repl c.blks addr
  let blk := c.blks f
  if blk.isValid then
    match mshrs (T.blkAddr blk) with
    | some needsExclusive => do
      ensure .assert (¬ blk.isWritable)
      ensure .assert needsExclusive
      .ok (none, c, writebacks)
    | none =>
      if blk.isDirty then do
        let (blk', wbPkt) ← writebackBlk T blk
        .ok (some f, c.set (.frame f) blk', writebacks ++ [wbPkt])
      else .ok (some f, c, writebacks)
  else .ok (some f, c, writebacks)

/-- `LRU::insertBlock` on the frame and on the replacement state. -/
def insertBlock (addr : Addr) (f : Frame) : Cache T :=
  { c with
    blks := update c.blks f { c.blks f with tag := T.extractTag addr }
    repl := T.insertBlock c.repl addr f }

/-- The part of `Cache::handleFill` that finds the block to fill. -/
def fillTarget (blk : Option Frame) (writebacks : List Packet) : Except Fault (BlkPtr × Cache T × List Packet) :=
  match blk with
  | none => do
    ensure .assert pkt.cmd.hasData
    let (f, c, writebacks) ← c.allocateBlock mshrs pkt.addr writebacks
    match f with
    | none => do
      ensure .assert (¬ c.tempBlock.isValid)
      .ok (.temp, { c with tempBlock :=
        { c.tempBlock with set := T.extractSet pkt.addr, tag := T.extractTag pkt.addr } }, writebacks)
    | some f => .ok (.frame f, c.insertBlock pkt.addr f, writebacks)
  | some f => do
    -- an existing block, most likely an upgrade
    ensure .assert ((c.blks f).tag = T.extractTag pkt.addr)
    ensure .assert (pkt.cmd.hasData ∨ (c.blks f).isValid)
    .ok (.frame f, c, writebacks)

/-- The block after `handleFill`: a new status, and the packet's data where it has some. -/
def fillBlk (T : TagStore) (pkt : Packet) (blk : CacheBlk) : CacheBlk :=
  { blk with
    status := { valid := true, readable := true, writable := !pkt.shared }
    data := if pkt.isRead then blit blk.data 0 T.blkSize pkt.data else blk.data }

def handleFill (blk : Option Frame) (writebacks : List Packet) : Except Fault (BlkPtr × Cache T × List Packet) := do
  let (p, c, writebacks) ← c.fillTarget mshrs pkt blk writebacks
  ensure .assert (pkt.shared → ¬ pkt.needsExclusive)
  .ok (p, c.set p (fillBlk T pkt (c.get p)), writebacks)

/-- The frame that `allocateBlock` gives up for the address. -/
def victim (addr : Addr) : Frame := T.findVictim c.repl c.blks addr

/-- The writebacks of giving up a block. -/
def evictions (T : TagStore) (blk : CacheBlk) : List Packet :=
  if blk.isValid && blk.isDirty then
    [{ cmd := .Writeback, addr := T.blkAddr blk, size := T.blkSize, data := blk.data }]
  else []

/-- A block that is given up, after its writeback. -/
def cleaned (blk : CacheBlk) : CacheBlk :=
  if blk.isValid && blk.isDirty then { blk with status := { blk.status with dirty := false } } else blk

/-- The cache after a fill of the frame that `allocateBlock` gives up. -/
def fillVictim : Cache T :=
  { c with
    repl := T.insertBlock c.repl pkt.addr (c.victim pkt.addr)
    blks := update c.blks (c.victim pkt.addr)
      (fillBlk T pkt { c.blks (c.victim pkt.addr) with tag := T.extractTag pkt.addr }) }

/-- The cache after a fill of the temporary block. -/
def fillTemp : Cache T :=
  let blk := { c.tempBlock with set := T.extractSet pkt.addr, tag := T.extractTag pkt.addr }
  { c with tempBlock := fillBlk T pkt blk }

section Fill

variable {c : Cache T} {mshrs : Addr → Option Bool} {addr : Addr} {pkt : Packet} {wbs : List Packet}

theorem allocateBlock_eq_ok {r : Option Frame × Cache T × List Packet} : c.allocateBlock mshrs addr wbs = .ok r ↔
      ((c.blks (c.victim addr)).isValid ∧ mshrs (T.blkAddr (c.blks (c.victim addr))) = some true ∧
        ¬ (c.blks (c.victim addr)).isWritable ∧ r = (none, c, wbs)) ∨
      (((c.blks (c.victim addr)).isValid → mshrs (T.blkAddr (c.blks (c.victim addr))) = none) ∧
        r = (some (c.victim addr), c.set (.frame (c.victim addr)) (cleaned (c.blks (c.victim addr))),
          wbs ++ evictions T (c.blks (c.victim addr)))) := by
  have hself : c.set (.frame (c.victim addr)) (c.blks (c.victim addr)) = c := by simp [set]
  have hunf : c.allocateBlock mshrs addr wbs =
      if (c.blks (c.victim addr)).isValid then
        match mshrs (T.blkAddr (c.blks (c.victim addr))) with
        | some needsExclusive => do
          ensure .assert (¬ (c.blks (c.victim addr)).isWritable)
          ensure .assert needsExclusive
          .ok (none, c, wbs)
        | none =>
          if (c.blks (c.victim addr)).isDirty then do
            let (blk', wbPkt) ← writebackBlk T (c.blks (c.victim addr))
            .ok (some (c.victim addr), c.set (.frame (c.victim addr)) blk', wbs ++ [wbPkt])
          else .ok (some (c.victim addr), c, wbs)
      else .ok (some (c.victim addr), c, wbs) := rfl
  rw [hunf]
  by_cases hv : (c.blks (c.victim addr)).isValid
  · rw [if_pos hv]
    cases hm : mshrs (T.blkAddr (c.blks (c.victim addr))) with
    | some ex =>
      simp only [ensure_bind_eq_ok]
      constructor
      · rintro ⟨h1, h2, h3⟩
        cases h3
        exact .inl ⟨hv, by rw [h2], h1, rfl⟩
      · rintro (⟨-, h1, h2, rfl⟩ | ⟨h1, -⟩)
        · exact ⟨h2, Option.some.inj h1, rfl⟩
        · cases h1 hv
    | none =>
      by_cases hd : (c.blks (c.victim addr)).isDirty
      · have hwb : (c.blks (c.victim addr)).isValid ∧ (c.blks (c.victim addr)).isDirty := ⟨hv, hd⟩
        simp only [if_pos hd, writebackBlk, ensure_of hwb]
        simp only [ok_bind, cleaned, evictions, hv, hd, Bool.and_self, if_true, reduceCtorEq, false_and, and_false,
          false_or, implies_true, true_and]
        exact ⟨fun h => (ok.inj h).symm, fun h => congrArg _ h.symm⟩
      · simp only [cleaned, evictions, hv, hd, Bool.and_false, hself, List.append_nil, reduceCtorEq, false_and,
          and_false, false_or, implies_true, true_and, Bool.false_eq_true, if_false]
        exact ⟨fun h => (ok.inj h).symm, fun h => congrArg _ h.symm⟩
  · simp only [cleaned, evictions, hv, Bool.false_and, hself, List.append_nil, false_and, false_or, false_implies,
      true_and, Bool.false_eq_true, if_false]
    exact ⟨fun h => (ok.inj h).symm, fun h => congrArg _ h.symm⟩

theorem handleFill_some {f : Frame} {r : BlkPtr × Cache T × List Packet} :
    c.handleFill mshrs pkt (some f) wbs = .ok r ↔ (c.blks f).tag = T.extractTag pkt.addr ∧
      (pkt.cmd.hasData ∨ (c.blks f).isValid) ∧ (pkt.shared → ¬ pkt.needsExclusive) ∧
      r = (.frame f, c.set (.frame f) (fillBlk T pkt (c.blks f)), wbs) := by
  rw [handleFill, fillTarget]
  simp only [bind_assoc, ensure_bind_eq_ok, ok_bind]
  refine and_congr_right fun _ => and_congr_right fun _ => and_congr_right fun _ => ?_
  exact ⟨fun h => (ok.inj h).symm, fun h => congrArg _ h.symm⟩

theorem handleFill_none {r : BlkPtr × Cache T × List Packet} :
    c.handleFill mshrs pkt none wbs = .ok r ↔ pkt.cmd.hasData ∧ (pkt.shared → ¬ pkt.needsExclusive) ∧
      (((c.blks (c.victim pkt.addr)).isValid ∧ mshrs (T.blkAddr (c.blks (c.victim pkt.addr))) = some true ∧
        ¬ (c.blks (c.victim pkt.addr)).isWritable ∧ ¬ c.tempBlock.isValid ∧
        r = (.temp, c.fillTemp pkt, wbs)) ∨
      (((c.blks (c.victim pkt.addr)).isValid → mshrs (T.blkAddr (c.blks (c.victim pkt.addr))) = none) ∧
        r = (.frame (c.victim pkt.addr), c.fillVictim pkt, wbs ++ evictions T (c.blks (c.victim pkt.addr))))) := by
  have hvic : ∀ blk, ((c.set (.frame (c.victim pkt.addr)) (cleaned blk)).insertBlock pkt.addr (c.victim pkt.addr)).set
      (.frame (c.victim pkt.addr)) (fillBlk T pkt (((c.set (.frame (c.victim pkt.addr)) (cleaned blk)).insertBlock
        pkt.addr (c.victim pkt.addr)).get (.frame (c.victim pkt.addr)))) =
      { c with
        repl := T.insertBlock c.repl pkt.addr (c.victim pkt.addr)
        blks := update c.blks (c.victim pkt.addr) (fillBlk T pkt { blk with tag := T.extractTag pkt.addr }) } := by
    intro blk
    have hc : ∀ t, fillBlk T pkt { cleaned blk with tag := t } = fillBlk T pkt { blk with tag := t } := by
      intro t
      unfold cleaned
      split <;> rfl
    simp [set, get, insertBlock, hc]
  rw [handleFill, bind_eq_ok]
  constructor
  · rintro ⟨⟨p, c', wbs'⟩, h1, h2⟩
    obtain ⟨hs, h2⟩ := of_ensure h2
    rw [fillTarget, ensure_bind_eq_ok, bind_eq_ok] at h1
    obtain ⟨hd, ⟨f, c1, wbs1⟩, ha, h1⟩ := h1
    refine ⟨hd, hs, ?_⟩
    rcases allocateBlock_eq_ok.1 ha with ⟨hv, hm, hw, hr⟩ | ⟨hm, hr⟩
    · cases hr
      obtain ⟨ht, h1⟩ := of_ensure h1
      cases h1
      cases h2
      exact .inl ⟨hv, hm, hw, ht, rfl⟩
    · cases hr
      cases h1
      cases h2
      exact .inr ⟨hm, by rw [hvic]; rfl⟩
  · rintro ⟨hd, hs, h⟩
    rcases h with ⟨hv, hm, hw, ht, rfl⟩ | ⟨hm, rfl⟩
    · have ha : c.allocateBlock mshrs pkt.addr wbs = .ok (none, c, wbs) :=
        allocateBlock_eq_ok.2 (.inl ⟨hv, hm, hw, rfl⟩)
      have hft : c.fillTarget mshrs pkt none wbs = .ok (.temp, { c with tempBlock :=
          { c.tempBlock with set := T.extractSet pkt.addr, tag := T.extractTag pkt.addr } }, wbs) := by
        rw [fillTarget, ensure_bind hd, ha]
        exact ensure_bind_eq_ok.2 ⟨ht, rfl⟩
      exact ⟨_, hft, ensure_bind_eq_ok.2 ⟨hs, rfl⟩⟩
    · have ha : c.allocateBlock mshrs pkt.addr wbs = .ok (some (c.victim pkt.addr),
          c.set (.frame (c.victim pkt.addr)) (cleaned (c.blks (c.victim pkt.addr))),
          wbs ++ evictions T (c.blks (c.victim pkt.addr))) := allocateBlock_eq_ok.2 (.inr ⟨hm, rfl⟩)
      have hft : c.fillTarget mshrs pkt none wbs = .ok (.frame (c.victim pkt.addr),
          (c.set (.frame (c.victim pkt.addr)) (cleaned (c.blks (c.victim pkt.addr)))).insertBlock pkt.addr
            (c.victim pkt.addr), wbs ++ evictions T (c.blks (c.victim pkt.addr))) := by
        rw [fillTarget, ensure_bind hd, ha, ok_bind]
      refine ⟨_, hft, ensure_bind_eq_ok.2 ⟨hs, ?_⟩⟩
      rw [hvic]
      rfl

end Fill

/-- A request of a processor that fits in a block. -/
structure CpuRequest (blkSize : Nat) (pkt : Packet) : Prop where
  cmd : pkt.cmd = .ReadReq ∨ pkt.cmd = .WriteReq ∨ pkt.cmd = .LoadLockedReq ∨ pkt.cmd = .StoreCondReq ∨
    pkt.cmd = .SwapReq
  fits : 0 < pkt.size ∧ pkt.addr % blkSize + pkt.size ≤ blkSize
  cacheable : pkt.req.isUncacheable = false
  swap : pkt.cmd = .SwapReq → pkt.size ≤ 8 ∧ (pkt.req.isCondSwap → pkt.size = 8 ∨ pkt.size = 4)

structure AccessResult (T : TagStore) where
  satisfied : Bool
  blk : Option Frame
  cache : Cache T
  pkt : Packet
  writebacks : List Packet

variable (c : Cache T)

/-- The part of `Cache::access` for a writeback that no writable block takes. -/
def accessWriteback (mshrs : Addr → Option Bool) (pkt : Packet) (blk : Option Frame) :
    Except Fault (AccessResult T) := do
  ensure .assert (T.blkSize = pkt.size)
  let write (c : Cache T) (f : Frame) (blk : CacheBlk) : Cache T :=
    c.set (.frame f)
      { blk with data := blit blk.data 0 T.blkSize pkt.data, status := { blk.status with dirty := true } }
  match blk with
  | some f => .ok ⟨true, some f, write c f (c.blks f), pkt, []⟩
  | none => do
    let (f, c, writebacks) ← c.allocateBlock mshrs pkt.addr []
    match f with
    | none => .ok ⟨false, none, c, pkt, writebacks⟩
    | some f =>
      let c := c.insertBlock pkt.addr f
      .ok ⟨true, some f, write c f { c.blks f with status := { valid := true, readable := true } }, pkt, writebacks⟩

/-- The block lets the request be satisfied. -/
def permits (blk : CacheBlk) (pkt : Packet) : Bool :=
  if pkt.needsExclusive then blk.isWritable else blk.isReadable

def access (mshrs : Addr → Option Bool) (pkt : Packet) : Except Fault (AccessResult T) :=
  if pkt.req.isUncacheable then .ok ⟨false, none, c, pkt, []⟩
  else
    let (repl, blk) := T.accessBlock c.repl c.blks pkt.addr
    let c := { c with repl }
    let miss : Except Fault (AccessResult T) :=
      if pkt.cmd = .Writeback then c.accessWriteback mshrs pkt blk
      else if blk = none ∧ pkt.isLLSC ∧ pkt.isWrite then
        -- a complete miss of a store conditional gives up
        .ok ⟨true, none, c, pkt.setExtraData 0, []⟩
      else .ok ⟨false, blk, c, pkt, []⟩
    match blk with
    | some f =>
      if permits (c.blks f) pkt then do
        let (b, pkt) ← (c.blks f).satisfyCpuSideRequest T.blkSize pkt
        .ok ⟨true, some f, c.set (.frame f) b, pkt, []⟩
      else miss
    | none => miss

/-- The cache after `accessBlock`, which changes the replacement state only. -/
def touch (addr : Addr) : Cache T := { c with repl := (T.accessBlock c.repl c.blks addr).1 }

theorem access_eq_ok {c : Cache T} {mshrs : Addr → Option Bool} {n : Nat} {pkt : Packet} {r : AccessResult T}
    {o : Option Frame} (hp : CpuRequest n pkt) (ho : (T.accessBlock c.repl c.blks pkt.addr).2 = o) :
    c.access mshrs pkt = .ok r ↔
      (∃ f b pkt', o = some f ∧ permits (c.blks f) pkt ∧
        (c.blks f).satisfyCpuSideRequest T.blkSize pkt = .ok (b, pkt') ∧
        r = ⟨true, some f, (c.touch pkt.addr).set (.frame f) b, pkt', []⟩) ∨
      (o = none ∧ (pkt.isLLSC ∧ pkt.isWrite) ∧ r = ⟨true, none, c.touch pkt.addr, pkt.setExtraData 0, []⟩) ∨
      ((∀ f, o = some f → ¬ permits (c.blks f) pkt) ∧ (o = none → ¬ (pkt.isLLSC ∧ pkt.isWrite)) ∧
        r = ⟨false, o, c.touch pkt.addr, pkt, []⟩) := by
  have hw : pkt.cmd ≠ .Writeback := by
    rcases hp.cmd with hc | hc | hc | hc | hc <;> rw [hc] <;> decide
  rw [access, if_neg (by simp [hp.cacheable])]
  simp only [if_neg hw, ho]
  cases o with
  | none =>
    simp only [reduceCtorEq, false_and, exists_false, false_or, false_implies, implies_true, true_and,
      forall_const]
    split_ifs with h
    · constructor
      · exact fun hr => .inl ⟨h, (ok.inj hr).symm⟩
      · rintro (⟨-, rfl⟩ | ⟨h', -⟩)
        · rfl
        · exact absurd h h'
    · constructor
      · exact fun hr => .inr ⟨h, (ok.inj hr).symm⟩
      · rintro (⟨h', -⟩ | ⟨-, rfl⟩)
        · exact absurd h' h
        · rfl
  | some f =>
    simp only [reduceCtorEq, false_and, false_or, Option.some.injEq, false_implies, true_and, forall_eq']
    by_cases hperm : permits (c.blks f) pkt
    · rw [if_pos hperm, bind_eq_ok]
      constructor
      · rintro ⟨⟨b, pkt'⟩, h1, h2⟩
        exact .inl ⟨f, b, pkt', rfl, hperm, h1, (ok.inj h2).symm⟩
      · rintro (⟨f', b, pkt', rfl, -, h1, rfl⟩ | ⟨h', -⟩)
        · exact ⟨(b, pkt'), h1, rfl⟩
        · exact absurd hperm h'
    · rw [if_neg hperm]
      constructor
      · exact fun hr => .inr ⟨hperm, (ok.inj hr).symm⟩
      · rintro (⟨f', b, pkt', rfl, h', -⟩ | ⟨-, rfl⟩)
        · exact absurd h' hperm
        · rfl

/-- `Cache::getBusPacket`; `none` is `NULL`, where the packet itself is passed on. -/
def getBusPacket (cpuPkt : Packet) (blk : Option Frame) (needsExclusive : Bool) : Except Fault (Option Packet) :=
  let valid (f : Frame) : Bool := (c.blks f).isValid
  if cpuPkt.req.isUncacheable then do
    ensure .assert (blk = none)
    .ok none
  else if !(blk.any valid) && (cpuPkt.cmd = .Writeback || cpuPkt.cmd = .UpgradeReq) then .ok none
  else do
    ensure .assert cpuPkt.needsResponse
    let cmd ← (match blk.filter valid with
      | some f => do
        ensure .assert (needsExclusive ∧ ¬ (c.blks f).isWritable)
        .ok .UpgradeReq
      | none => .ok (if needsExclusive then .ReadExReq else .ReadReq) : Except Fault MemCmd)
    .ok (some { cmd, addr := T.blkAlign cpuPkt.addr, size := T.blkSize, req := cpuPkt.req })

/-- `Cache::snoopAtomic`. The CPU behind the cache ignores a forwarded snoop. -/
def snoopAtomic (pkt : Packet) : Except Fault (Cache T × Packet) :=
  if pkt.req.isUncacheable || pkt.cmd = .Writeback then .ok (c, pkt)
  else
    match c.findBlock pkt.addr with
    | none => do
      ensure .assert pkt.isRequest
      .ok (c, pkt)
    | some f => do
      let (blk, pkt, _) ← (c.blks f).handleSnoop T.blkSize pkt false false false
      .ok (c.set (.frame f) blk, pkt)

end Cache

/-! ## The calls on the tag store

A call is recorded with the block and with whether that was valid. -/

/-- A call on the tag store. If `allocateBlock` gives the victim up, `findVictim` is followed by the `insertBlock` of a
new block in its place, with a context. -/
inductive TagCall
  | findVictim (f : Frame) (valid : Bool) (inserted : Option (Option Nat))
  | invalidateBlk (p : BlkPtr) (valid : Bool)
deriving DecidableEq

/-- The context of a request; `none` is `-1`. -/
def Packet.contextSrc (pkt : Packet) : Option Nat := if pkt.req.hasContextId then some pkt.req.contextId else none

/-- Satisfying the request takes the block away from this cache. -/
def Packet.takesBlk (blkSize : Nat) (pkt : Packet) : Bool :=
  pkt.cmd ≠ .SwapReq && !pkt.isWrite && (!pkt.isRead || (pkt.size = blkSize && pkt.needsExclusive))

namespace Cache

variable {T : TagStore} (c : Cache T)

variable (mshrs : Addr → Option Bool) (p : BlkPtr) (pkt : Packet)

def satisfyCalls : List TagCall :=
  if pkt.takesBlk T.blkSize then [.invalidateBlk p (c.get p).isValid] else []

/-- The calls of `allocateBlock`, and of `insertBlock` if there is a block. -/
def replaceCalls : List TagCall :=
  let f := c.victim pkt.addr
  let blk := c.blks f
  if blk.isValid && (mshrs (T.blkAddr blk)).isSome then [.findVictim f true none]
  else [.findVictim f blk.isValid (some pkt.contextSrc)]

def fillCalls : Option Frame → List TagCall
  | none => c.replaceCalls mshrs pkt
  | some _ => []

def accessCalls : List TagCall :=
  if pkt.req.isUncacheable then []
  else
    match (T.accessBlock c.repl c.blks pkt.addr).2 with
    | some f => if permits (c.blks f) pkt then c.satisfyCalls (.frame f) pkt else []
    | none => if pkt.cmd = .Writeback then (c.touch pkt.addr).replaceCalls mshrs pkt else []

def snoopCalls : List TagCall :=
  if (c.get p).isValid && pkt.isInvalidate then [.invalidateBlk p true] else []

/-- `invalidateBlk` of a tag store on a block of the cache, with its call. -/
def invalidateBlk : Cache T × List TagCall :=
  (c.set p (c.get p).invalidate, [.invalidateBlk p (c.get p).isValid])

end Cache

end M5.Mem
