import M5.Mem.Packet
import Mathlib.Data.List.Pairwise

/-!
# Ports that send packets later

`SimpleTimingPort` of `mem/tport.cc`: packets wait on `transmitList`, earliest first, and an event sends the one in
front. After a refusal the port waits for a retry and schedules nothing.
-/

namespace M5.Mem

open M5.Lib List

abbrev Tick := Nat

structure DeferredPacket where
  tick : Tick
  pkt : Packet

structure SimpleTimingPort where
  transmitList : List DeferredPacket := []
  /-- The time for which `sendEvent` is scheduled. -/
  sendEvent : Option Tick := none
  waitingOnRetry : Bool := false

namespace SimpleTimingPort

variable (p : SimpleTimingPort)

variable (curTick time : Tick) (success : Bool)

def deferredPacketReady : Bool :=
  match p.transmitList with
  | [] => false
  | d :: _ => decide (d.tick ≤ curTick)

/-- `deferredPacketReadyTime`; `none` is `MaxTick`. -/
def deferredPacketReadyTime : Option Tick := p.transmitList.head?.map DeferredPacket.tick

/-- `schedule(sendEvent, when)`, with the assertions of the event queue. -/
def schedule : Except Fault SimpleTimingPort := do
  ensure .assert (curTick ≤ time)
  ensure .assert (p.sendEvent = none)
  .ok { p with sendEvent := some time }

def schedSendEvent : Except Fault SimpleTimingPort :=
  if p.waitingOnRetry then do
    ensure .assert (p.sendEvent = none)
    .ok p
  else
    match p.sendEvent with
    | none => p.schedule curTick time
    | some t =>
      -- `reschedule`
      if t > time then schedule { p with sendEvent := none } curTick time else .ok p

/-- The loop of `schedSendTiming`, from the second packet on. -/
def insertDeferred (d : DeferredPacket) : List DeferredPacket → Except Fault (List DeferredPacket)
  | [] => .error .assert
  | x :: xs =>
    if d.tick < x.tick then .ok (d :: x :: xs)
    else do
      let xs ← insertDeferred d xs
      .ok (x :: xs)

/-- `schedSendTiming`; `ms` is the number of ticks in a millisecond. -/
def schedSendTiming (ms curTick : Tick) (pkt : Packet) (time : Tick) : Except Fault SimpleTimingPort := do
  ensure .assert (time > curTick)
  ensure .assert (time < curTick + ms)
  match p.transmitList with
  | [] => schedSendEvent { p with transmitList := [⟨time, pkt⟩] } curTick time
  | x :: xs =>
    if time < x.tick then schedSendEvent { p with transmitList := ⟨time, pkt⟩ :: x :: xs } curTick time
    else if time ≥ ((x :: xs).getLast nofun).tick then .ok { p with transmitList := x :: xs ++ [⟨time, pkt⟩] }
    else do
      let xs ← insertDeferred ⟨time, pkt⟩ xs
      .ok { p with transmitList := x :: xs }

/-- `sendDeferredPacket`; the peer accepts the packet or refuses it. -/
def sendDeferredPacket : Except Fault SimpleTimingPort := do
  ensure .assert (p.deferredPacketReady curTick)
  if success then
    let p := { p with transmitList := p.transmitList.tail, waitingOnRetry := false }
    match p.transmitList, p.sendEvent with
    | d :: _, none => p.schedule curTick (if d.tick ≤ curTick then curTick + 1 else d.tick)
    | _, _ => .ok p
  else do
    ensure .assert (p.sendEvent = none)
    .ok { p with waitingOnRetry := true }

def recvRetry : Except Fault SimpleTimingPort := do
  ensure .assert p.waitingOnRetry
  p.sendDeferredPacket curTick success

/-- `SimpleTimingPort::processSendEvent`, of the event that is no longer scheduled. -/
def processSendEvent : Except Fault SimpleTimingPort := do
  ensure .assert (¬ p.waitingOnRetry)
  sendDeferredPacket { p with sendEvent := none } curTick success

/-! ## What holds between the calls -/

/-- A port that waits has nothing scheduled, and an event is not in the past. -/
structure Ok (curTick : Tick) (p : SimpleTimingPort) : Prop where
  waiting : p.waitingOnRetry → p.sendEvent = none
  event : ∀ t, p.sendEvent = some t → curTick ≤ t

variable {p : SimpleTimingPort} {curTick time ms : Tick} {pkt : Packet}

theorem Ok.init : Ok curTick {} := ⟨nofun, nofun⟩

/-- The event after `schedSendEvent`: the earlier of the one scheduled and the one asked for, none while waiting. -/
def earliest (p : SimpleTimingPort) (time : Tick) : Option Tick :=
  if p.waitingOnRetry then p.sendEvent
  else
    match p.sendEvent with
    | none => some time
    | some t => some (min t time)

theorem schedSendEvent_spec (h : p.Ok curTick) (ht : curTick ≤ time) :
    p.schedSendEvent curTick time = .ok { p with sendEvent := p.earliest time } := by
  unfold schedSendEvent earliest
  split
  · next hw => rw [ensure_bind (h.waiting hw)]
  · cases he : p.sendEvent with
    | none =>
      rw [schedule, ensure_bind ht, ensure_bind he]
    | some t =>
      dsimp only
      by_cases hlt : t > time
      · rw [if_pos hlt, Nat.min_eq_right (Nat.le_of_lt hlt), schedule, ensure_bind ht, ensure_bind rfl]
      · rw [if_neg hlt, Nat.min_eq_left (Nat.le_of_not_lt hlt), ← he]

variable {p' : SimpleTimingPort} {success : Bool}

theorem schedSendEvent_eq_ok (h : p.schedSendEvent curTick time = .ok p') :
    p' = { p with sendEvent := p.earliest time } ∧ (p.Ok curTick → p'.Ok curTick) := by
  unfold schedSendEvent at h
  unfold earliest
  split at h
  · next hw =>
    obtain ⟨-, rfl⟩ := of_check h
    rw [if_pos hw]
    exact ⟨rfl, id⟩
  · next hw =>
    have hok : curTick ≤ time → ∀ e, e = some time → p.Ok curTick → Ok curTick { p with sendEvent := e } := by
      rintro ht e rfl -
      refine ⟨fun hw' => absurd hw' hw, fun t hs => ?_⟩
      cases hs
      exact ht
    rw [if_neg hw]
    split at h
    · next he =>
      obtain ⟨ht, h⟩ := of_ensure h
      obtain ⟨-, rfl⟩ := of_check h
      exact ⟨rfl, hok ht _ rfl⟩
    · next t he =>
      split at h
      · next hlt =>
        obtain ⟨ht, h⟩ := of_ensure h
        obtain ⟨-, rfl⟩ := of_check h
        refine ⟨?_, hok ht _ rfl⟩
        rw [Nat.min_eq_right (Nat.le_of_lt hlt)]
      · next hlt =>
        cases h
        refine ⟨?_, id⟩
        rw [Nat.min_eq_left (Nat.le_of_not_lt hlt), ← he]

/-- The packet is put behind those that are not later, and before the others. -/
def Placed (d : DeferredPacket) (l l' : List DeferredPacket) : Prop :=
  ∃ l₁ l₂, l = l₁ ++ l₂ ∧ l' = l₁ ++ d :: l₂ ∧ (∀ x ∈ l₁, x.tick ≤ d.tick) ∧ ∀ x ∈ l₂, d.tick < x.tick

variable {x d : DeferredPacket} {l l' : List DeferredPacket}

theorem Placed.cons (hx : x.tick ≤ d.tick) (h : Placed d l l') : Placed d (x :: l) (x :: l') := by
  obtain ⟨l₁, l₂, rfl, rfl, h₁, h₂⟩ := h
  exact ⟨x :: l₁, l₂, rfl, rfl, forall_mem_cons.2 ⟨hx, h₁⟩, h₂⟩

theorem Placed.front (hs : (x :: l).Pairwise fun x y => x.tick ≤ y.tick) (hx : d.tick < x.tick) :
    Placed d (x :: l) (d :: x :: l) := by
  refine ⟨[], _, rfl, rfl, forall_mem_nil _, forall_mem_cons.2 ⟨hx, fun y hy => ?_⟩⟩
  exact Nat.lt_of_lt_of_le hx ((pairwise_cons.1 hs).1 y hy)

/-- The loop puts the packet in its place, if there is a later one. -/
theorem insertDeferred_spec : ∀ {l : List DeferredPacket},
    (l.Pairwise fun x y => x.tick ≤ y.tick) → (∃ x ∈ l, d.tick < x.tick) →
      ∃ l', insertDeferred d l = .ok l' ∧ Placed d l l'
  | [], _, ⟨_, hx, _⟩ => by cases hx
  | x :: xs, hs, ⟨y, hy, hlt⟩ => by
    unfold insertDeferred
    split
    · next hx => exact ⟨_, rfl, .front hs hx⟩
    · next hx =>
      rcases mem_cons.1 hy with rfl | hy
      · exact absurd hlt hx
      · obtain ⟨l', hl', hp⟩ := insertDeferred_spec (pairwise_cons.1 hs).2 ⟨y, hy, hlt⟩
        rw [hl']
        exact ⟨_, rfl, hp.cons (Nat.le_of_not_lt hx)⟩

/-- A packet sent within the next millisecond is put in its place on the list. -/
theorem schedSendTiming_spec (h : p.Ok curTick)
    (hs : p.transmitList.Pairwise fun x y => x.tick ≤ y.tick) (hlo : curTick < d.tick) (hhi : d.tick < curTick + ms) :
    ∃ l' e, p.schedSendTiming ms curTick d.pkt d.tick = .ok { p with transmitList := l', sendEvent := e } ∧
      Placed d p.transmitList l' ∧
      ((l'.head? = some d ∧ e = p.earliest d.tick ∧ ∀ x, p.transmitList.head? = some x → d.tick < x.tick) ∨
        ∃ x, p.transmitList.head? = some x ∧ l'.head? = some x ∧ e = p.sendEvent) := by
  have hev : ∀ l, schedSendEvent { p with transmitList := l } curTick d.tick =
      .ok { p with transmitList := l, sendEvent := p.earliest d.tick } := fun l =>
    schedSendEvent_spec ⟨h.waiting, h.event⟩ (Nat.le_of_lt hlo)
  rw [schedSendTiming, ensure_bind hlo, ensure_bind hhi]
  split
  · next hl =>
    rw [hl]
    exact ⟨_, _, hev _, ⟨[], [], rfl, rfl, forall_mem_nil _, forall_mem_nil _⟩, .inl ⟨rfl, rfl, fun _ h => nomatch h⟩⟩
  · next x xs hl =>
    rw [hl] at hs ⊢
    split
    · next hx => exact ⟨_, _, hev _, .front hs hx, .inl ⟨rfl, rfl, fun y hy => by cases hy; exact hx⟩⟩
    · next hx =>
      split
      · next hback =>
        refine ⟨_, _, rfl, ⟨x :: xs, [], (append_nil _).symm, rfl, fun y hy => ?_, forall_mem_nil _⟩,
          .inr ⟨x, rfl, rfl, rfl⟩⟩
        exact Nat.le_trans (hs.rel_getLast_of_rel_getLast_getLast hy (Nat.le_refl _)) hback
      · next hback =>
        -- the last packet is later, and it is not the first
        have hlast : ∃ y ∈ xs, d.tick < y.tick := by
          have hmem : (x :: xs).getLast nofun ∈ x :: xs := getLast_mem _
          rcases mem_cons.1 hmem with he | hmem
          · rw [he] at hback
            exact absurd (Nat.le_of_not_lt hx) hback
          · exact ⟨_, hmem, Nat.lt_of_not_le hback⟩
        obtain ⟨l', hl', hp⟩ := insertDeferred_spec (pairwise_cons.1 hs).2 hlast
        rw [hl', ok_bind]
        exact ⟨_, _, rfl, hp.cons (Nat.le_of_not_lt hx), .inr ⟨x, rfl, rfl, rfl⟩⟩

def Due (p : SimpleTimingPort) (t : Tick) : Prop := ∃ d, p.transmitList.head? = some d ∧ d.tick ≤ t

theorem deferredPacketReady_iff : p.deferredPacketReady curTick ↔ p.Due curTick := by
  unfold deferredPacketReady Due
  cases p.transmitList with
  | nil => simp
  | cons d l => simp

/-- What putting packets on the list does to a port. -/
structure Responds (curTick : Tick) (p p' : SimpleTimingPort) : Prop where
  waiting : p'.waitingOnRetry = p.waitingOnRetry
  /-- A new event is for a packet that is due then. -/
  event : ∀ t, p'.sendEvent = some t → p.sendEvent = some t ∨ p'.Due t
  due : ∀ t, p.Due t → p'.Due t
  ok : p.Ok curTick → p'.Ok curTick

theorem Responds.refl (curTick : Tick) (p : SimpleTimingPort) : Responds curTick p p :=
  ⟨rfl, fun _ => .inl, fun _ => id, id⟩

theorem Responds.trans {p₁ p₂ p₃ : SimpleTimingPort} (h : Responds curTick p₁ p₂) (h' : Responds curTick p₂ p₃) :
    Responds curTick p₁ p₃ := by
  refine ⟨h'.waiting.trans h.waiting, fun t ht => ?_, fun t ht => h'.due t (h.due t ht), fun ho => h'.ok (h.ok ho)⟩
  rcases h'.event t ht with ht | ht
  · exact (h.event t ht).imp_right (h'.due t)
  · exact .inr ht

theorem responds_front (hd : ∀ t, p.Due t → time ≤ t)
    (h : schedSendEvent { p with transmitList := ⟨time, pkt⟩ :: l } curTick time = .ok p') :
    Responds curTick p p' := by
  obtain ⟨rfl, hok⟩ := schedSendEvent_eq_ok h
  refine ⟨rfl, fun t ht => ?_, fun t ht => ⟨_, rfl, hd t ht⟩, fun ho => hok ⟨ho.waiting, ho.event⟩⟩
  unfold earliest at ht
  split at ht
  · exact .inl ht
  · split at ht
    · cases ht
      exact .inr ⟨_, rfl, Nat.le_refl _⟩
    · next t' he =>
      cases ht
      rcases Nat.le_total t' time with hle | hle
      · rw [Nat.min_eq_left hle]
        exact .inl he
      · rw [Nat.min_eq_right hle]
        exact .inr ⟨_, rfl, Nat.le_refl _⟩

theorem responds_back (hl : p.transmitList = d :: l) : Responds curTick p { p with transmitList := d :: l' } := by
  refine ⟨rfl, fun t => .inl, fun t ht => ?_, fun ho => ⟨ho.waiting, ho.event⟩⟩
  obtain ⟨d', hd', hle⟩ := ht
  rw [hl] at hd'
  exact ⟨d', hd', hle⟩

theorem schedSendTiming_eq_ok (h : p.schedSendTiming ms curTick pkt time = .ok p') :
    Responds curTick p p' ∧ curTick < time ∧ time < curTick + ms := by
  obtain ⟨hlo, h⟩ := of_ensure h
  obtain ⟨hhi, h⟩ := of_ensure h
  refine ⟨?_, hlo, hhi⟩
  split at h
  · next hl =>
    refine responds_front (fun t ht => ?_) h
    obtain ⟨d, hd, -⟩ := ht
    rw [hl] at hd
    cases hd
  · next x xs hl =>
    split at h
    · next hx =>
      refine responds_front (fun t ht => ?_) h
      obtain ⟨d, hd, hle⟩ := ht
      rw [hl] at hd
      cases hd
      exact Nat.le_trans (Nat.le_of_lt hx) hle
    · split at h
      · cases h
        exact responds_back hl
      · obtain ⟨xs', -, rfl⟩ := of_map h
        exact responds_back hl

theorem Ok.sendDeferredPacket (he : p.sendEvent = none)
    (h : p.sendDeferredPacket curTick success = .ok p') : p'.Ok curTick := by
  obtain ⟨-, h⟩ := of_ensure h
  split at h
  · dsimp only at h
    split at h
    · obtain ⟨ht, h⟩ := of_ensure h
      obtain ⟨-, rfl⟩ := of_check h
      refine ⟨nofun, fun t hs => ?_⟩
      cases hs
      exact ht
    · cases h
      refine ⟨nofun, fun t hs => ?_⟩
      cases he.symm.trans hs
  · obtain ⟨-, rfl⟩ := of_check h
    refine ⟨fun _ => he, fun t hs => ?_⟩
    cases he.symm.trans hs

theorem Ok.recvRetry (h : p.Ok curTick) (hr : p.recvRetry curTick success = .ok p') : p'.Ok curTick := by
  obtain ⟨hw, hr⟩ := of_ensure hr
  exact sendDeferredPacket (h.waiting hw) hr

theorem Ok.processSendEvent (h : p.processSendEvent curTick success = .ok p') : p'.Ok curTick := by
  obtain ⟨-, h⟩ := of_ensure h
  exact sendDeferredPacket rfl h

end SimpleTimingPort

end M5.Mem
