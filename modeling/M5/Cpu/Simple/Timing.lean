import M5.Lib.Check
import M5.Lib.Custody
import M5.Lib.Run
import Mathlib.Data.Fin.Basic
import Mathlib.Logic.Function.Basic

/-!
# Split data accesses of the timing CPU

`TimingSimpleCPU` of `cpu/simple/timing.cc`, from the end of the translation of a load or store that crosses a block
boundary to `completeAcc`. The access has two fragments, the packets of index 0 and 1. The memory system accepts or
refuses a packet that is sent; it owes a retry after it has refused one; and it answers or nacks what it has accepted.
A bridge and a port of Ruby put a sender state of their own into a packet that they accept, and take it out again before
they answer.

The CPU has the fragments in custody: each is still to be sent, or in the memory system, or answered. `waiting` is what
the CPU will send, by `dcache_pkt` and the fragments that the main sender state has.
-/

namespace M5.Cpu.Simple

open M5.Lib List Option

/-- A failed assertion, or the use of a null pointer. -/
inductive Stop
  | assert | null
deriving DecidableEq

/-- The values of `_status` while a data access is under way, and `Running` for the CPU that goes on. -/
inductive Status
  | Running | DTBWaitResponse | DcacheRetry | DcacheWaitResponse
deriving DecidableEq

structure Config where
  clock : Nat
  phase : Nat
  clock_pos : 0 < clock

def Config.nextCycle (cfg : Config) (beginTick : Nat) : Nat :=
  (if beginTick % cfg.clock ≠ 0 then beginTick - beginTick % cfg.clock + cfg.clock else beginTick) + cfg.phase

/-- What `sendTiming` returns; `replaced` is whether the packet has another sender state after it. -/
inductive Answer
  | refused
  | accepted (replaced : Bool)
deriving DecidableEq

/-- The CPU, with the memory system that it sends to. -/
structure TimingCPU where
  curTick : Nat := 0
  status : Status := .DTBWaitResponse
  dcachePkt : Option (Fin 2) := none
  /-- The command of the whole access. -/
  isRead : Bool := true
  /-- `fragments` of the main sender state: what has not been accepted. -/
  fragments : Fin 2 → Bool := fun _ => false
  outstanding : Nat := 2
  /-- The packet of `tickEvent` and its time, while it is scheduled. -/
  tickEvent : Option (Fin 2 × Nat) := none
  /-- How the memory system will answer the next packets that are sent; after these it refuses. -/
  answers : List Answer := []
  /-- The packets in which `senderState` is not that of the CPU. -/
  replaced : Fin 2 → Bool := fun _ => false
  /-- The memory system owes a retry. -/
  refused : Bool := false
  inFlight : List (Fin 2) := []
  accepted : List (Fin 2) := []
  nacked : List (Fin 2) := []
  answered : List (Fin 2) := []
  /-- The calls of `completeAcc`. -/
  completed : Nat := 0

scoped instance neZero_two : NeZero 2 := ⟨by decide⟩

namespace TimingCPU

variable (cfg : Config) (pkt : Fin 2) (s : TimingCPU)

def sendTiming : Bool × TimingCPU :=
  match s.answers with
  | .accepted replaced :: as => (true, { s with
      answers := as, replaced := Function.update s.replaced pkt replaced
      inFlight := s.inFlight ++ [pkt], accepted := s.accepted ++ [pkt] })
  | as => (false, { s with answers := as.tail, refused := true })

/-- `handleReadPacket`. The fragments are not memory-mapped registers. -/
def handleReadPacket : Bool × TimingCPU :=
  let (ok, s) := s.sendTiming pkt
  if !ok then (false, { s with status := .DcacheRetry, dcachePkt := some pkt })
  else (true, { s with status := .DcacheWaitResponse, dcachePkt := none })

def handleWritePacket : Except Stop (Bool × TimingCPU) :=
  match s.dcachePkt with
  | none => .error .null
  | some pkt =>
    let (ok, s) := s.sendTiming pkt
    if !ok then .ok (false, { s with status := .DcacheRetry })
    else .ok (true, { s with status := .DcacheWaitResponse, dcachePkt := none })

def clearFromParent (index : Fin 2) (s : TimingCPU) : TimingCPU :=
  { s with fragments := Function.update s.fragments index false }

/-- The cast of the sender state of the first packet in `sendSplitData`, and `clearFromParent`. -/
def clearFirst : Except Stop TimingCPU := do
  ensure .null (s.replaced 0 = false)
  .ok (s.clearFromParent 0)

def getPendingFragment : Int := if s.fragments 0 then 0 else if s.fragments 1 then 1 else -1

/-- The end of `completeDataAccess`: the CPU goes on to the next instruction. -/
def completeAcc : Except Stop TimingCPU := do
  ensure .assert (s.status = .DcacheWaitResponse ∨ s.status = .DTBWaitResponse)
  .ok { s with status := .Running, completed := s.completed + 1 }

def completeDataAccess : Except Stop TimingCPU := do
  ensure .assert (s.outstanding ≠ 0)
  let s := { s with outstanding := s.outstanding - 1 }
  if s.outstanding ≠ 0 then .ok s else s.completeAcc

/-- `sendSplitData`, with `buildSplitPacket`. -/
def sendSplitData (isRead noAccess mmapedIpr : Bool) (s : TimingCPU) : Except Stop TimingCPU := do
  ensure .assert (mmapedIpr = false)
  if noAccess then
    ensure .assert (s.dcachePkt = none)
    s.completeAcc
  else
    let s := { s with isRead := isRead, fragments := fun _ => true, outstanding := 2 }
    if isRead then
      let (ok, s) := s.handleReadPacket 0
      if ok then
        let s ← s.clearFirst
        let (ok, s) := s.handleReadPacket 1
        -- the sender state is that of the first packet again
        if ok then s.clearFirst else .ok s
      else .ok s
    else
      let (ok, s) ← { s with dcachePkt := some 0 }.handleWritePacket
      if ok then
        let s ← s.clearFirst
        let (ok, s) ← { s with dcachePkt := some 1 }.handleWritePacket
        if ok then s.clearFirst else .ok s
      else .ok s

/-- `recvTiming` for the response to a fragment. -/
def recvResponse : Except Stop TimingCPU :=
  let nextTick := cfg.nextCycle s.curTick
  if nextTick = s.curTick then s.completeDataAccess
  else do
    ensure .assert (s.curTick ≤ nextTick ∧ s.tickEvent = none)
    .ok { s with tickEvent := some (pkt, nextTick) }

/-- `recvTiming` for a nacked fragment. -/
def recvNack : Except Stop TimingCPU := do
  ensure .assert (s.status = .DcacheWaitResponse)
  let (ok, s) := s.sendTiming pkt
  .ok (if !ok then { s with status := .DcacheRetry, dcachePkt := some pkt } else s)

def recvRetry : Except Stop TimingCPU :=
  match s.dcachePkt with
  | none => .error .assert
  | some tmp => do
    ensure .assert (s.status = .DcacheRetry)
    let (ok, s) := s.sendTiming tmp
    if ok then
      let s := s.clearFromParent tmp
      if 0 < s.getPendingFragment then
        let s := { s with dcachePkt := some 1 }
        let (ok, s) ← if s.isRead then .ok (s.handleReadPacket 1) else s.handleWritePacket
        .ok (if ok then s.clearFromParent 1 else s)
      else .ok { s with status := .DcacheWaitResponse, dcachePkt := none }
    else .ok s

/-- What happens: the translation ends, the memory system calls, or `tickEvent` is due. -/
inductive Act
  | access (isRead noAccess mmapedIpr : Bool) (answers : List Answer)
  | response (pkt : Fin 2)
  | nack (pkt : Fin 2) (answers : List Answer)
  | retry (answers : List Answer)
  | tick
  | time (t : Nat)

/-- The calls that the memory system and the event queue can make. -/
def Act.Allowed : Act → Prop
  | access .. => s.status = .DTBWaitResponse
  | response pkt => pkt ∈ s.inFlight
  | nack pkt _ => pkt ∈ s.inFlight
  | retry _ => s.refused
  | tick => s.tickEvent.map Prod.snd = some s.curTick
  -- an event that is scheduled comes before later times
  | time t => s.curTick ≤ t ∧ ∀ e ∈ s.tickEvent, t ≤ e.2

def handle : Act → Except Stop TimingCPU
  | .access isRead noAccess mmapedIpr answers =>
    sendSplitData isRead noAccess mmapedIpr { s with answers := answers, status := .Running }
  | .response pkt => recvResponse cfg pkt { s with inFlight := s.inFlight.erase pkt, answered := s.answered ++ [pkt] }
  | .nack pkt answers =>
    recvNack pkt { s with answers := answers, inFlight := s.inFlight.erase pkt, nacked := s.nacked ++ [pkt] }
  | .retry answers => recvRetry { s with answers := answers, refused := false }
  | .tick => completeDataAccess { s with tickEvent := none }
  | .time t => .ok { s with curTick := t }

def Step (a : Act) (t : TimingCPU) : Prop := a.Allowed s ∧ s.handle cfg a = .ok t

end TimingCPU

/-! ## What is sent -/

namespace TimingCPU

section send

variable {s : TimingCPU} {pkt : Fin 2}

section

variable (pkt : Fin 2) (s : TimingCPU)

/-- The memory system puts its own sender state into the next packet that it gets. -/
def Replaces : Prop := s.answers.head? = some (.accepted true)

instance : Decidable s.Replaces := inferInstanceAs (Decidable (_ = _))

def taken : TimingCPU :=
  { s with
    answers := s.answers.tail, replaced := Function.update s.replaced pkt s.Replaces
    inFlight := s.inFlight ++ [pkt], accepted := s.accepted ++ [pkt] }

def denied : TimingCPU := { s with answers := s.answers.tail, refused := true }

def sent : TimingCPU :=
  { s.taken pkt with status := .DcacheWaitResponse, dcachePkt := none }

def kept : TimingCPU := { s.denied with status := .DcacheRetry, dcachePkt := some pkt }

def Accepts : Prop := s.Replaces ∨ s.answers.head? = some (.accepted false)

instance (s : TimingCPU) : Decidable s.Accepts := inferInstanceAs (Decidable (_ ∨ _))

/-- The packet is sent: the CPU waits for the response, or for a retry. -/
def offered : Bool × TimingCPU :=
  if s.Accepts then (true, s.sent pkt) else (false, s.kept pkt)

end

theorem sendTiming_eq : s.sendTiming pkt = if s.Accepts then (true, s.taken pkt) else (false, s.denied) := by
  unfold sendTiming
  split
  · next r as has => cases r <;> simp [Accepts, Replaces, taken, has]
  · next hne =>
    rw [if_neg]
    · rfl
    · rintro (h | h) <;> obtain ⟨as, has⟩ := head?_eq_some_iff.1 h <;> exact hne _ as has

theorem handleReadPacket_eq : s.handleReadPacket pkt = s.offered pkt := by
  rw [handleReadPacket, sendTiming_eq, offered]
  by_cases h : s.Accepts <;> simp only [h] <;> rfl

theorem handleReadPacket_put : { s with dcachePkt := some pkt }.handleReadPacket pkt = s.offered pkt :=
  handleReadPacket_eq

theorem handleWritePacket_put : { s with dcachePkt := some pkt }.handleWritePacket = .ok (s.offered pkt) := by
  rw [handleWritePacket, offered]
  dsimp only
  rw [sendTiming_eq]
  by_cases h : s.Accepts
  · rw [if_pos h, if_pos (show Accepts { s with dcachePkt := some pkt } from h)]
    rfl
  · rw [if_neg h, if_neg (show ¬ Accepts { s with dcachePkt := some pkt } from h)]
    rfl

/-- The packets of an access have been made. -/
def started (isRead : Bool) (s : TimingCPU) : TimingCPU :=
  { s with isRead := isRead, fragments := fun _ => true, outstanding := 2 }

theorem clearFirst_sent : (s.sent 0).clearFirst =
    if s.Replaces then .error .null else .ok ((s.sent 0).clearFromParent 0) := by
  by_cases h : s.Replaces
  · rw [if_pos h, clearFirst, ensure, if_neg (by simp [sent, taken, h])]
    rfl
  · rw [if_neg h, clearFirst, ensure_bind (by simp [sent, taken, h])]

/-- The first packet keeps its sender state, unless the memory system replaces it at once. -/
theorem sendSplitData_eq (isRead : Bool) (s : TimingCPU) : s.sendSplitData isRead false false =
    if s.Replaces then .error .null else .ok (
      let s := s.started isRead
      if s.Accepts then
        let s := (s.sent 0).clearFromParent 0
        if s.Accepts then (s.sent 1).clearFromParent 0 else s.kept 1
      else s.kept 0) := by
  rw [sendSplitData, ensure_bind rfl]
  obtain ⟨t, ht⟩ : ∃ t, t = s.started isRead := ⟨_, rfl⟩
  have hw : handleWritePacket { s.started isRead with dcachePkt := some 0 } = .ok (t.offered 0) :=
    ht ▸ handleWritePacket_put
  rw [← ht]
  have hr : t.Replaces ↔ s.Replaces := by rw [ht]; exact .rfl
  rw [started] at ht hw
  simp only [← ht, hw, handleReadPacket_eq, handleWritePacket_put, ok_bind, ite_self, offered, ← hr]
  by_cases hrep : t.Replaces
  · have h0 : t.Accepts := .inl hrep
    simp only [h0, hrep, clearFirst_sent, if_true]
    rfl
  · by_cases h0 : t.Accepts
    · have hkept : (((t.sent 0).clearFromParent 0).sent 1).replaced 0 = false := by
        simp [sent, taken, clearFromParent, hrep]
      have hsecond : (((t.sent 0).clearFromParent 0).sent 1).clearFirst = .ok _ := ensure_bind hkept
      by_cases h1 : ((t.sent 0).clearFromParent 0).Accepts <;> simp [h0, h1, hrep, clearFirst_sent, hsecond]
    · simp [h0, hrep]

theorem recvNack_eq (hs : s.status = .DcacheWaitResponse) :
    s.recvNack pkt = .ok (if s.Accepts then s.taken pkt else s.kept pkt) := by
  rw [recvNack, ensure_bind hs, sendTiming_eq]
  by_cases h : s.Accepts <;> simp only [h] <;> rfl

theorem recvRetry_eq (hp : s.dcachePkt = some pkt) (hs : s.status = .DcacheRetry) : s.recvRetry = .ok (
    let t := (s.taken pkt).clearFromParent pkt
    if s.Accepts then
      if 0 < t.getPendingFragment then if t.Accepts then (t.sent 1).clearFromParent 1 else t.kept 1
      else (s.sent pkt).clearFromParent pkt
    else s.denied) := by
  rw [recvRetry, hp]
  dsimp only
  rw [ensure_bind hs, sendTiming_eq]
  by_cases h : s.Accepts
  · rw [if_pos h]
    rw [if_pos rfl]
    split
    · rw [handleReadPacket_put, handleWritePacket_put, ok_bind, offered]
      by_cases h1 : ((s.taken pkt).clearFromParent pkt).Accepts <;> simp [h1]
    · rfl
  · rw [if_neg h, if_neg h]
    rfl

end send

/-! ## Where the fragments are -/

/-- What the CPU will send. -/
def waiting (s : TimingCPU) : List (Fin 2) :=
  if s.status = .DTBWaitResponse then [0, 1]
  else
    match s.dcachePkt with
    | none => []
    | some pkt => if pkt = 0 ∧ s.fragments 1 then [0, 1] else [pkt]

def custody (s : TimingCPU) : Custody (Fin 2) where
  created := [0, 1]
  waiting := s.waiting
  out := s.inFlight
  done := s.answered
  accepted := s.accepted
  returned := s.nacked

/-- Each fragment is in one place, and was accepted once and once more for each nack, unless it is still to be sent;
then a retry is to come. The access completes once, with the second answer. -/
structure Exact (s : TimingCPU) : Prop where
  custody : s.custody.Exact
  retry : s.waiting ≠ [] → s.status = .DTBWaitResponse ∨ s.refused
  completed : s.completed = if s.answered.length = 2 ∧ s.tickEvent = none then 1 else 0

structure Inv (s : TimingCPU) : Prop where
  custody : s.custody.Exact
  start : s.status = .DTBWaitResponse → s.dcachePkt = none ∧ s.outstanding = 2
  retry : s.status = .DcacheRetry ↔ s.dcachePkt ≠ none
  refused : s.refused ↔ s.dcachePkt ≠ none
  running : s.status = .Running ↔ s.outstanding = 0
  count : s.outstanding + s.answered.length = 2 + if s.tickEvent = none then 0 else 1
  done : s.completed = if s.outstanding = 0 then 1 else 0

theorem le_nextCycle (cfg : Config) (t : Nat) : t ≤ cfg.nextCycle t := by
  unfold Config.nextCycle
  split
  · have := Nat.mod_lt t cfg.clock_pos
    omega
  · omega

section inv

variable {s : TimingCPU} {pkt : Fin 2}

theorem waiting_start (h : s.status = .DTBWaitResponse) : s.waiting = [0, 1] := if_pos h

theorem waiting_of_none (hs : s.status ≠ .DTBWaitResponse) (h : s.dcachePkt = none) : s.waiting = [] := by
  rw [waiting, if_neg hs, h]

theorem waiting_of_some (hs : s.status ≠ .DTBWaitResponse) (h : s.dcachePkt = some pkt) :
    s.waiting = if pkt = 0 ∧ s.fragments 1 then [0, 1] else [pkt] := by
  rw [waiting, if_neg hs, h]

theorem custody_of {w : List (Fin 2)} (h : s.waiting = w) :
    s.custody = ⟨[0, 1], w, s.inFlight, s.answered, s.accepted, s.nacked⟩ := by
  rw [custody, h]

theorem Inv.init : Inv {} where
  custody := ⟨by decide, by decide, by decide⟩
  start := fun _ => ⟨rfl, rfl⟩
  retry := by decide
  refused := by decide
  running := by decide
  count := rfl
  done := rfl

theorem length_of_exact (h : s.custody.Exact) : s.waiting.length + s.inFlight.length + s.answered.length = 2 := by
  have hperm := h.perm.length_eq
  rw [length_append, length_append] at hperm
  exact hperm.symm

theorem Inv.exact (h : s.Inv) : s.Exact where
  custody := h.custody
  retry := by
    intro hw
    by_cases hs : s.status = .DTBWaitResponse
    · exact .inl hs
    · refine .inr (h.refused.2 fun hn => hw (waiting_of_none hs hn))
  completed := by
    have hlen := length_of_exact h.custody
    have hcount := h.count
    rw [h.done]
    by_cases ht : s.tickEvent = none
    · rw [if_pos ht] at hcount
      simp only [ht, and_true]
      split_ifs <;> omega
    · rw [if_neg ht] at hcount
      rw [if_neg (show s.outstanding ≠ 0 by omega), if_neg fun h => ht h.2]

theorem Inv.of_sends (h : s.Inv) (hout : s.outstanding ≠ 0) {t : TimingCPU} (hc : t.custody.Exact)
    (hst : (t.status = .DcacheWaitResponse ∧ t.dcachePkt = none ∧ t.refused = false) ∨
      (t.status = .DcacheRetry ∧ t.dcachePkt ≠ none ∧ t.refused))
    (ho : t.outstanding = s.outstanding) (ha : t.answered = s.answered) (htick : t.tickEvent = s.tickEvent)
    (hd : t.completed = s.completed) : t.Inv := by
  refine ⟨hc, ?_, ?_, ?_, ?_, ?_, ?_⟩
  · rcases hst with ⟨h1, -⟩ | ⟨h1, -⟩ <;> (rw [h1]; nofun)
  · rcases hst with ⟨h1, h2, -⟩ | ⟨h1, h2, -⟩
    · rw [h1]
      exact ⟨nofun, absurd h2⟩
    · exact ⟨fun _ => h2, fun _ => h1⟩
  · rcases hst with ⟨-, h2, h3⟩ | ⟨-, h2, h3⟩
    · rw [h3]
      exact ⟨nofun, absurd h2⟩
    · exact ⟨fun _ => h2, fun _ => h3⟩
  · rw [ho]
    refine ⟨fun hr => ?_, fun h0 => absurd h0 hout⟩
    rcases hst with ⟨h1, -⟩ | ⟨h1, -⟩ <;> cases h1.symm.trans hr
  · rw [ho, ha, htick]
    exact h.count
  · rw [ho, hd]
    exact h.done

theorem Inv.refused_eq (h : s.Inv) (hp : s.dcachePkt = none) : s.refused = false :=
  Bool.eq_false_iff.2 fun hr => h.refused.1 hr hp

theorem Inv.access (h : s.Inv) (hs : s.status = .DTBWaitResponse) (isRead : Bool) {answers : List Answer}
    (ha : answers.head? ≠ some (.accepted true)) :
    ∃ t, sendSplitData isRead false false { s with answers := answers, status := .Running } = .ok t ∧ t.Inv := by
  obtain ⟨hp, hout⟩ := h.start hs
  have hne : s.outstanding ≠ 0 := by omega
  have href := h.refused_eq hp
  have hc := h.custody
  rw [custody_of (waiting_start hs)] at hc
  have h0 := hc.accept mem_cons_self
  have h1 := h0.accept (mem_singleton_self 1)
  rw [sendSplitData_eq, if_neg (show ¬ Replaces { s with answers := answers, status := .Running } from ha)]
  dsimp only
  split
  · split
    · exact ⟨_, rfl, h.of_sends hne h1 (.inl ⟨rfl, rfl, href⟩) hout.symm rfl rfl rfl⟩
    · exact ⟨_, rfl, h.of_sends hne h0 (.inr ⟨rfl, some_ne_none _, rfl⟩) hout.symm rfl rfl rfl⟩
  · exact ⟨_, rfl, h.of_sends hne hc (.inr ⟨rfl, some_ne_none _, rfl⟩) hout.symm rfl rfl rfl⟩

theorem Inv.of_waits (h : s.Inv) (hs : s.status = .DcacheWaitResponse) :
    s.dcachePkt = none ∧ s.waiting = [] ∧ s.outstanding ≠ 0 := by
  have hp : s.dcachePkt = none := by
    by_contra hne
    cases hs.symm.trans (h.retry.2 hne)
  refine ⟨hp, waiting_of_none (by rw [hs]; exact Status.noConfusion) hp, fun h0 => ?_⟩
  cases hs.symm.trans (h.running.2 h0)

theorem Inv.nack (h : s.Inv) (hs : s.status = .DcacheWaitResponse) (hm : pkt ∈ s.inFlight) {answers : List Answer}
    (ha : pkt = 0 ∧ s.fragments 1 → Accepts { s with answers := answers }) :
    ∃ t, recvNack pkt { s with answers := answers, inFlight := s.inFlight.erase pkt, nacked := s.nacked ++ [pkt] } =
      .ok t ∧ t.Inv := by
  obtain ⟨hp, hw, hne⟩ := h.of_waits hs
  have hg := h.custody.giveBack hm
  rw [custody_of hw] at hg
  refine ⟨_, recvNack_eq hs, ?_⟩
  split
  · have hg := hg.accept mem_cons_self
    simp only [Custody.accept, Custody.giveBack, erase_cons_head] at hg
    refine h.of_sends hne ?_ (.inl ⟨hs, hp, h.refused_eq hp⟩) rfl rfl rfl rfl
    rw [custody_of]
    · exact hg
    · exact hw
  · next hacc =>
    refine h.of_sends hne ?_ (.inr ⟨rfl, some_ne_none _, rfl⟩) rfl rfl rfl rfl
    rw [custody_of]
    · exact hg
    · exact if_neg fun hb => hacc (ha hb)

theorem pending_iff : 0 < ((s.taken pkt).clearFromParent pkt).getPendingFragment ↔ pkt = 0 ∧ s.fragments 1 := by
  have hpkt : pkt = 0 ∨ pkt = 1 := by omega
  rcases hpkt with rfl | rfl
  · cases h1 : s.fragments 1 <;> simp [getPendingFragment, clearFromParent, taken, h1]
  · cases h0 : s.fragments 0 <;> simp [getPendingFragment, clearFromParent, taken, h0]

theorem Inv.retries (h : s.Inv) (hr : s.refused) (answers : List Answer) :
    ∃ t, recvRetry { s with answers := answers, refused := false } = .ok t ∧ t.Inv := by
  obtain ⟨pkt, hp⟩ := ne_none_iff_exists'.1 (h.refused.1 hr)
  have hs := h.retry.2 (h.refused.1 hr)
  have hne : s.outstanding ≠ 0 := fun h0 => by cases hs.symm.trans (h.running.2 h0)
  have hw := waiting_of_some (by rw [hs]; exact Status.noConfusion) hp
  have hc := h.custody
  rw [custody_of hw] at hc
  refine ⟨_, recvRetry_eq hp hs, ?_⟩
  dsimp only
  split
  · split
    · next hlt =>
      obtain ⟨rfl, hf⟩ := pending_iff.1 hlt
      rw [if_pos ⟨rfl, hf⟩] at hc
      have h0 := hc.accept mem_cons_self
      split
      · exact h.of_sends hne (h0.accept (mem_singleton_self 1)) (.inl ⟨rfl, rfl, rfl⟩) rfl rfl rfl rfl
      · exact h.of_sends hne h0 (.inr ⟨rfl, some_ne_none _, rfl⟩) rfl rfl rfl rfl
    · next hlt =>
      rw [if_neg fun hf => hlt (pending_iff.2 hf)] at hc
      have h0 := hc.accept mem_cons_self
      simp only [Custody.accept, erase_cons_head] at h0
      exact h.of_sends hne h0 (.inl ⟨rfl, rfl, rfl⟩) rfl rfl rfl rfl
  · refine h.of_sends hne ?_ (.inr ⟨hs, h.refused.1 hr, rfl⟩) rfl rfl rfl rfl
    rw [custody_of]
    · exact hc
    · exact hw

/-- A response has come that `completeDataAccess` has not seen. -/
structure Due (s : TimingCPU) : Prop where
  custody : s.custody.Exact
  start : s.status = .DTBWaitResponse → s.outstanding = 2
  retry : s.status = .DcacheRetry ↔ s.dcachePkt ≠ none
  refused : s.refused ↔ s.dcachePkt ≠ none
  running : s.status = .Running ↔ s.outstanding = 0
  count : s.outstanding + s.answered.length = 3 + if s.tickEvent = none then 0 else 1
  done : s.completed = if s.outstanding = 0 then 1 else 0

theorem Due.complete (h : s.Due) : ∃ t, s.completeDataAccess = .ok t ∧ t.Inv := by
  have hlen := length_of_exact h.custody
  have hcount := h.count
  have hdtb : s.status ≠ .DTBWaitResponse := by
    intro hs
    have hout := h.start hs
    rw [waiting_start hs, length_cons, length_singleton] at hlen
    split at hcount <;> omega
  have hne : s.outstanding ≠ 0 := by
    split at hcount <;> omega
  rw [completeDataAccess, ensure_bind hne]
  by_cases hone : s.outstanding - 1 ≠ 0
  · rw [if_pos hone]
    refine ⟨_, rfl, h.custody, fun hs => absurd hs hdtb, h.retry, h.refused, ?_, ?_, ?_⟩
    · exact ⟨fun hr => absurd (h.running.1 hr) hne, fun h0 => absurd h0 hone⟩
    · dsimp only
      omega
    · rw [h.done, if_neg hne, if_neg hone]
  · -- the second response: nothing waits, so that the CPU waits for no retry
    rw [if_neg hone]
    have hw : s.waiting = [] := length_eq_zero_iff.1 (by omega)
    have hp : s.dcachePkt = none := by
      cases hp : s.dcachePkt with
      | none => rfl
      | some pkt =>
        rw [waiting_of_some hdtb hp] at hw
        split at hw <;> cases hw
    have hs : s.status = .DcacheWaitResponse := by
      cases hs : s.status with
      | Running => exact absurd (h.running.1 hs) hne
      | DTBWaitResponse => exact absurd hs hdtb
      | DcacheRetry => exact absurd hp (h.retry.1 hs)
      | DcacheWaitResponse => rfl
    rw [completeAcc, ensure_bind (.inl hs)]
    refine ⟨_, rfl, ?_, nofun, ?_, h.refused, ?_, ?_, ?_⟩
    · have hc := h.custody
      rw [custody_of hw] at hc
      rw [custody_of]
      · exact hc
      · exact waiting_of_none Status.noConfusion hp
    · exact ⟨nofun, absurd hp⟩
    · exact ⟨fun _ => not_not.1 hone, fun _ => rfl⟩
    · dsimp only
      omega
    · rw [if_pos (not_not.1 hone), h.done, if_neg hne]

theorem Inv.response (h : s.Inv) (hm : pkt ∈ s.inFlight) (cfg : Config)
    (hs : cfg.nextCycle s.curTick = s.curTick ∨ s.tickEvent = none) :
    ∃ t, recvResponse cfg pkt { s with inFlight := s.inFlight.erase pkt, answered := s.answered ++ [pkt] } = .ok t ∧
      t.Inv := by
  have hf : Custody.Exact (TimingCPU.custody { s with
      inFlight := s.inFlight.erase pkt, answered := s.answered ++ [pkt] }) :=
    h.custody.finish hm
  have hlen : (s.answered ++ [pkt]).length = s.answered.length + 1 := length_append
  have hcount := h.count
  unfold recvResponse
  dsimp only
  split
  · refine Due.complete ⟨hf, fun hd => (h.start hd).2, h.retry, h.refused, h.running, ?_, h.done⟩
    dsimp only
    omega
  · next hnext =>
    have htick := hs.resolve_left hnext
    have hle : s.curTick ≤ cfg.nextCycle s.curTick := le_nextCycle ..
    rw [ensure_bind ⟨hle, htick⟩]
    refine ⟨_, rfl, hf, h.start, h.retry, h.refused, h.running, ?_, h.done⟩
    rw [if_pos htick] at hcount
    rw [if_neg (some_ne_none _)]
    dsimp only
    omega

theorem Inv.tick (h : s.Inv) (ht : s.tickEvent ≠ none) :
    ∃ t, completeDataAccess { s with tickEvent := none } = .ok t ∧ t.Inv := by
  refine Due.complete ⟨h.custody, fun hd => (h.start hd).2, h.retry, h.refused, h.running, ?_, h.done⟩
  have hcount := h.count
  rw [if_neg ht] at hcount
  rw [if_pos rfl]
  omega

end inv

/-! ## Runs -/

/-- The access reads or writes memory, and the first fragment has its sender state if it is accepted; a response between
clock edges finds no other that waits for the edge; and a nack comes while no fragment waits for a retry, and after it
the first fragment is refused only if the second was refused before. -/
def Act.Sound (cfg : Config) (s : TimingCPU) : Act → Prop
  | access _ noAccess mmapedIpr answers =>
    (noAccess = false ∧ mmapedIpr = false) ∧ answers.head? ≠ some (.accepted true)
  | response _ => cfg.nextCycle s.curTick = s.curTick ∨ s.tickEvent = none
  | nack pkt answers =>
    s.status = .DcacheWaitResponse ∧ (pkt = 0 ∧ s.fragments 1 → Accepts { s with answers := answers })
  | retry _ | tick | time _ => True

section runs

variable {s t : TimingCPU} {cfg : Config} {a : Act}

/-- Every allowed and sound call ends, in order. -/
theorem Inv.step (h : s.Inv) (ha : a.Allowed s) (hs : a.Sound cfg s) : ∃ t, s.handle cfg a = .ok t ∧ t.Inv := by
  cases a with
  | access isRead noAccess mmapedIpr answers =>
    obtain ⟨⟨rfl, rfl⟩, hs⟩ := hs
    exact h.access ha isRead hs
  | response pkt => exact h.response ha cfg hs
  | nack pkt answers => exact h.nack hs.1 ha hs.2
  | retry answers => exact h.retries ha answers
  | tick =>
    refine h.tick fun hn => ?_
    have ha : s.tickEvent.map Prod.snd = some s.curTick := ha
    rw [hn] at ha
    cases ha
  | time t => exact ⟨_, rfl, h.custody, h.start, h.retry, h.refused, h.running, h.count, h.done⟩

theorem recvResponse_eq_error {pkt : Fin 2} (h1 : cfg.nextCycle s.curTick ≠ s.curTick) (h2 : s.tickEvent ≠ none) :
    s.recvResponse cfg pkt = .error .assert := by
  rw [recvResponse, if_neg h1, ensure, if_neg fun h => h2 h.2]
  rfl

theorem Inv.not_exact_nack (h : s.Inv) (hs : s.status = .DcacheWaitResponse) (hf : s.fragments 1)
    {answers : List Answer} (hm : 0 ∈ s.inFlight) :
    ¬ Exact (kept 0 { s with answers := answers, inFlight := s.inFlight.erase 0, nacked := s.nacked ++ [0] }) := by
  intro ht
  have hlen := length_of_exact h.custody
  have hlen' := length_of_exact ht.custody
  rw [(h.of_waits hs).2.1] at hlen
  rw [waiting_of_some Status.noConfusion rfl, if_pos ⟨rfl, hf⟩] at hlen'
  have herase := length_erase_of_mem hm
  have hin : (kept 0 { s with
      answers := answers, inFlight := s.inFlight.erase 0, nacked := s.nacked ++ [0] }).inFlight =
    s.inFlight.erase 0 := rfl
  have hans : (kept 0 { s with
      answers := answers, inFlight := s.inFlight.erase 0, nacked := s.nacked ++ [0] }).answered =
    s.answered := rfl
  rw [hin, hans] at hlen'
  simp only [length_nil, length_cons] at hlen hlen'
  omega

theorem Inv.not_exact (h : s.Inv) (ha : a.Allowed s) (hs : ¬ a.Sound cfg s) (ht : s.handle cfg a = .ok t) :
    ¬ t.Exact := by
  cases a with
  | access isRead noAccess mmapedIpr answers =>
    obtain ⟨hipr, hacc⟩ := of_ensure ht
    cases noAccess with
    | false =>
      have hrep : answers.head? = some (.accepted true) := not_not.1 fun hr => hs ⟨⟨rfl, hipr⟩, hr⟩
      rw [hipr, handle, sendSplitData_eq,
        if_pos (show Replaces { s with answers := answers, status := .Running } from hrep)] at ht
      cases ht
    | true =>
      rcases (of_ensure (of_ensure hacc).2).1 with hst | hst <;> cases hst
  | response pkt =>
    obtain ⟨h1, h2⟩ := not_or.1 hs
    cases (recvResponse_eq_error (s := { s with inFlight := s.inFlight.erase pkt, answered := s.answered ++ [pkt] })
      h1 h2).symm.trans ht
  | nack pkt answers =>
    rw [handle] at ht
    by_cases hst : s.status = .DcacheWaitResponse
    · by_cases hacc : Accepts { s with
          answers := answers, inFlight := s.inFlight.erase pkt, nacked := s.nacked ++ [pkt] }
      · exact absurd ⟨hst, fun _ => hacc⟩ hs
      · by_cases hf : pkt = 0 ∧ s.fragments 1
        · obtain ⟨rfl, hf⟩ := hf
          rw [recvNack_eq (by exact hst), if_neg hacc] at ht
          cases ht
          exact h.not_exact_nack hst hf ha
        · exact absurd ⟨hst, fun h => absurd h hf⟩ hs
    · exact absurd (of_ensure ht).1 hst
  | retry _ | tick | time _ => exact absurd trivial hs

end runs

/-- In every run of sound steps each fragment is in one place, and the next step keeps this iff it is sound. -/
theorem split_exact_iff (cfg : Config) {as : List Act} {s : TimingCPU}
    (h : Run (fun s a t => a.Sound cfg s ∧ Step cfg s a t) {} as s) :
    s.Exact ∧ ∀ a : Act, a.Allowed s → ((∃ t, s.handle cfg a = .ok t ∧ t.Exact) ↔ a.Sound cfg s) := by
  have hinv : s.Inv := by
    refine h.invariant .init ?_
    rintro s a t hs ⟨hsound, ha, ht⟩
    obtain ⟨t', ht', hinv⟩ := hs.step ha hsound
    cases ht.symm.trans ht'
    exact hinv
  refine ⟨hinv.exact, fun a ha => ⟨fun ⟨t, ht, hexact⟩ => ?_, fun hs => ?_⟩⟩
  · by_contra hs
    exact hinv.not_exact ha hs ht hexact
  · obtain ⟨t, ht, hinv'⟩ := hinv.step ha hs
    exact ⟨t, ht, hinv'.exact⟩

def stepIf (cfg : Config) (P : TimingCPU → Act → Prop) [∀ s a, Decidable (P s a)] (s : TimingCPU) (a : Act) :
    Except Stop TimingCPU := do
  ensure .assert (P s a)
  s.handle cfg a

instance (s : TimingCPU) : (a : Act) → Decidable (a.Allowed s)
  | .access .. | .retry _ | .tick => inferInstanceAs (Decidable (_ = _))
  | .response _ | .nack _ _ => inferInstanceAs (Decidable (_ ∈ _))
  | .time _ => inferInstanceAs (Decidable (_ ∧ _))

instance (cfg : Config) (s : TimingCPU) : (a : Act) → Decidable (a.Sound cfg s)
  | .access .. | .nack _ _ => inferInstanceAs (Decidable (_ ∧ _))
  | .response _ => inferInstanceAs (Decidable (_ ∨ _))
  | .retry _ | .tick | .time _ => .isTrue trivial

def clock500 : Config := ⟨500, 0, by decide⟩

/-- A load whose first fragment is refused at first. Its second fragment is nacked, refused and sent again; the
responses come in two cycles. -/
def slowLoad : List Act :=
  [.access true false false [], .time 100, .retry [.accepted true, .accepted false], .time 700, .nack 1 [.refused],
    .response 0, .time 1000, .tick, .retry [.accepted true], .time 1500, .response 1]

/-- Both fragments are answered and the load completes. -/
theorem exact_slowLoad : ∃ s, Run (fun s a t => a.Sound clock500 s ∧ Step clock500 s a t) {} slowLoad s ∧
    s.completed = 1 ∧ s.accepted = [0, 1, 1] ∧ s.Exact := by
  obtain ⟨s, hrun, h1, h2⟩ := Run.exists_of_check (stepIf clock500 fun s a => a.Sound clock500 s ∧ a.Allowed s)
    (fun h => and_assoc.1 (of_ensure h)) {} slowLoad (fun s => s.completed = 1 ∧ s.accepted = [0, 1, 1])
    (by decide +kernel)
  exact ⟨s, hrun, h1, h2, (split_exact_iff clock500 hrun).1⟩

/-- A load whose first fragment is nacked and then refused, after both were accepted. -/
def nackedLoad : List Act :=
  [.access true false false [.accepted false, .accepted false], .nack 0 [.refused],
    .retry [.accepted false, .accepted false]]

/-- The second fragment is sent twice without a nack; both responses in one cycle fail an assertion; and a load over a
bridge uses a null pointer. -/
theorem not_exact_nackedLoad :
    (∃ s, Run (Step clock500) {} nackedLoad s ∧ s.accepted = [0, 1, 0, 1] ∧ s.nacked = [0]) ∧
    (∃ s, Run (Step clock500) {} [.access true false false [.accepted false, .accepted false], .time 100,
        .response 0] s ∧
      (Act.response 1).Allowed s ∧ s.handle clock500 (.response 1) = .error .assert) ∧
    handle clock500 {} (.access true false false [.accepted true, .accepted true]) = .error .null := by
  refine ⟨?_, ?_, rfl⟩
  · exact Run.exists_of_check (stepIf clock500 fun s a => a.Allowed s) of_ensure _ _ _ (by decide +kernel)
  · exact Run.exists_of_check (stepIf clock500 fun s a => a.Allowed s) of_ensure _ _ _ (by decide +kernel)

end TimingCPU

end M5.Cpu.Simple
