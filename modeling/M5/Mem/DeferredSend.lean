import M5.Lib.Run
import M5.Mem.TimingPort

/-!
# Deferred sends over whole runs

A `SimpleTimingPort` with its peer, which accepts or refuses a packet and may call back into `schedSendTiming` before it
answers. The packets are numbered in the order in which they were scheduled.
-/

namespace M5.Mem

open M5.Lib List

/-- How the peer takes a packet: the calls it makes, and its answer. -/
structure Reply where
  success : Bool
  calls : List DeferredPacket := []

namespace SimpleTimingPort

/-- `sendDeferredPacket`, with the calls the peer makes meanwhile. -/
def sendDeferredPacketTo (p : SimpleTimingPort) (ms curTick : Tick) (r : Reply) : Except Fault SimpleTimingPort := do
  ensure .assert (p.deferredPacketReady curTick)
  let q ← r.calls.foldlM (fun q d => q.schedSendTiming ms curTick d.pkt d.tick)
    { p with transmitList := p.transmitList.tail }
  if r.success then
    let q := { q with waitingOnRetry := false }
    match q.transmitList, q.sendEvent with
    | d :: _, none => q.schedule curTick (if d.tick ≤ curTick then curTick + 1 else d.tick)
    | _, _ => .ok q
  else do
    ensure .assert (q.sendEvent = none)
    .ok { q with transmitList := p.transmitList.head?.toList ++ q.transmitList, waitingOnRetry := true }

/-- A port that waits has nothing scheduled, and an event is for the packet in front: at its time, or on the next tick
if that has passed. -/
structure Timely (curTick : Tick) (p : SimpleTimingPort) : Prop extends Ok curTick p where
  front : ∀ e, p.sendEvent = some e → ∃ d, p.transmitList.head? = some d ∧ d.tick ≤ e ∧ e ≤ max d.tick (curTick + 1)

/-- Whatever waits will be sent. -/
structure Live (curTick : Tick) (p : SimpleTimingPort) : Prop extends Timely curTick p where
  due : p.waitingOnRetry → p.Due curTick
  idle : p.waitingOnRetry = false → p.sendEvent = none → p.transmitList = []

end SimpleTimingPort

/-! ## The order of the packets -/

abbrev Numbered := DeferredPacket × Nat

def Numbered.Before (x y : Numbered) : Prop := x.1.tick < y.1.tick ∨ x.1.tick = y.1.tick ∧ x.2 < y.2

/-- Of the numbered packets `all`, those in `done` are sent, those in `flight` are being sent, and the others wait in
order. -/
def Queued (all done flight : List Numbered) (l : List DeferredPacket) : Prop :=
  ∃ pend, (done ++ (flight ++ pend)).Perm all ∧ l = pend.map Prod.fst ∧ (flight ++ pend).Pairwise Numbered.Before

variable {all done flight : List Numbered} {l l' sched : List DeferredPacket} {d : DeferredPacket} {x : Numbered}

theorem Queued.sorted (h : Queued all done flight l) : l.Pairwise fun x y => x.tick ≤ y.tick := by
  obtain ⟨pend, -, rfl, hp⟩ := h
  refine pairwise_map.2 ((pairwise_append.1 hp).2.1.imp fun h => ?_)
  exact h.elim Nat.le_of_lt fun h => Nat.le_of_eq h.1

theorem Queued.place (h : Queued sched.zipIdx done flight l) (hp : SimpleTimingPort.Placed d l l')
    (hf : ∀ x ∈ flight, x.1.tick < d.tick) : Queued (sched ++ [d]).zipIdx done flight l' := by
  obtain ⟨pend, hperm, hl, hs⟩ := h
  obtain ⟨l₁, l₂, rfl, rfl, h₁, h₂⟩ := hp
  obtain ⟨p₁, p₂, rfl, rfl, rfl⟩ := map_eq_append_iff.1 hl.symm
  have hnew : (sched ++ [d]).zipIdx = sched.zipIdx ++ [(d, sched.length)] := by simp [zipIdx_append]
  have hnum : ∀ x ∈ p₁, x.2 < sched.length := fun x hx => by
    have := snd_lt_of_mem_zipIdx (hperm.subset (show x ∈ done ++ (flight ++ (p₁ ++ p₂)) by simp [hx]))
    simpa using this
  refine ⟨p₁ ++ (d, sched.length) :: p₂, ?_, by simp, ?_⟩
  · rw [hnew]
    refine .trans ?_ (hperm.append_right _)
    simp only [append_assoc]
    exact ((@perm_append_comm _ [_] _).append_left _).append_left _ |>.append_left _
  · rw [← append_assoc] at hs ⊢
    obtain ⟨hs₁, hs₂, hs₃⟩ := pairwise_append.1 hs
    refine pairwise_append.2 ⟨hs₁, pairwise_cons.2 ⟨fun y hy => .inl (h₂ y.1 (mem_map_of_mem hy)), hs₂⟩, fun x hx => ?_⟩
    refine forall_mem_cons.2 ⟨?_, hs₃ x hx⟩
    rcases mem_append.1 hx with hx | hx
    · exact .inl (hf x hx)
    · exact (Nat.lt_or_eq_of_le (h₁ x.1 (mem_map_of_mem hx))).imp_right fun h => ⟨h, hnum x hx⟩

/-! ## One call -/

namespace SimpleTimingPort

variable {p : SimpleTimingPort} {ms curTick : Tick}

theorem Timely.schedSendTiming (h : Timely curTick p) (hq : Queued sched.zipIdx done flight p.transmitList)
    (hf : ∀ x ∈ flight, x.1.tick ≤ curTick) (hd : curTick < d.tick ∧ d.tick < curTick + ms) :
    ∃ q, p.schedSendTiming ms curTick d.pkt d.tick = .ok q ∧ Timely curTick q ∧
      Queued (sched ++ [d]).zipIdx done flight q.transmitList ∧ q.waitingOnRetry = p.waitingOnRetry ∧
      (Live curTick p → Live curTick q) ∧ ∀ x, p.transmitList.head? = some x → x.tick ≤ d.tick →
        q.transmitList.head? = some x ∧ q.sendEvent = p.sendEvent := by
  obtain ⟨l', e, hok, hp, hpos⟩ := schedSendTiming_spec h.toOk hq.sorted hd.1 hd.2
  have hqu := hq.place hp fun x hx => Nat.lt_of_le_of_lt (hf x hx) hd.1
  refine ⟨_, hok, ?_⟩
  rcases hpos with ⟨hl', rfl, hx⟩ | ⟨x, hx, hl', rfl⟩
  · -- in front: the event, if any, is the packet's
    have hev : p.earliest d.tick = if p.waitingOnRetry then none else some d.tick := by
      unfold earliest
      split
      · next hw => exact h.waiting hw
      · split
        · rfl
        · next e he =>
          obtain ⟨x, hhead, hle, -⟩ := h.front e he
          rw [Nat.min_eq_right (Nat.le_trans (Nat.le_of_lt (hx x hhead)) hle)]
    have hno : ∀ x, p.transmitList.head? = some x → ¬ x.tick ≤ d.tick := fun x hhead => Nat.not_le_of_lt (hx x hhead)
    rw [hev]
    cases hw : p.waitingOnRetry with
    | true =>
      refine ⟨⟨⟨fun _ => rfl, nofun⟩, nofun⟩, hqu, rfl, fun hL => ?_, fun x hhead hle => absurd hle (hno x hhead)⟩
      obtain ⟨x, hhead, hle⟩ := hL.due hw
      exact absurd (Nat.lt_of_lt_of_le (hx x hhead) hle) (Nat.not_lt_of_gt hd.1)
    | false =>
      have ht : Timely curTick { transmitList := l', sendEvent := some d.tick } := by
        refine ⟨⟨nofun, ?_⟩, ?_⟩
        · rintro _ ⟨⟩
          exact Nat.le_of_lt hd.1
        · rintro _ ⟨⟩
          exact ⟨d, hl', Nat.le_refl _, Nat.le_max_left _ _⟩
      exact ⟨ht, hqu, rfl, fun _ => ⟨ht, nofun, nofun⟩, fun x hhead hle => absurd hle (hno x hhead)⟩
  · have ht : Timely curTick { p with transmitList := l', sendEvent := p.sendEvent } := by
      refine ⟨⟨h.waiting, h.event⟩, fun t ht => ?_⟩
      obtain ⟨y, hy, hle⟩ := h.front t ht
      exact ⟨x, hl', Option.some.inj (hx.symm.trans hy) ▸ hle⟩
    refine ⟨ht, hqu, rfl, fun hL => ⟨ht, fun hw => ?_, fun hw hn => ?_⟩,
      fun y hy _ => ⟨hl'.trans (hx.symm.trans hy), rfl⟩⟩
    · obtain ⟨y, hy, hle⟩ := hL.due hw
      exact ⟨y, hl'.trans (hx.symm.trans hy), hle⟩
    · rw [hL.idle hw hn] at hx
      cases hx

theorem Timely.calls : ∀ {calls sched : List DeferredPacket} {p : SimpleTimingPort}, Timely curTick p →
    Queued sched.zipIdx done flight p.transmitList → (∀ x ∈ flight, x.1.tick ≤ curTick) →
    (∀ d ∈ calls, curTick < d.tick ∧ d.tick < curTick + ms) →
    ∃ q, calls.foldlM (fun q d => q.schedSendTiming ms curTick d.pkt d.tick) p = .ok q ∧ Timely curTick q ∧
      Queued (sched ++ calls).zipIdx done flight q.transmitList ∧ q.waitingOnRetry = p.waitingOnRetry ∧
      ((∀ d ∈ calls, ∃ x, p.transmitList.head? = some x ∧ x.tick ≤ d.tick) → q.sendEvent = p.sendEvent)
  | [], sched, p, h, hq, _, _ => ⟨p, rfl, h, by rwa [append_nil], rfl, fun _ => rfl⟩
  | d :: calls, sched, p, h, hq, hf, hd => by
    obtain ⟨p₁, h₁, ht, hq₁, hw, -, hkeep⟩ := h.schedSendTiming hq hf (forall_mem_cons.1 hd).1
    obtain ⟨q, hok, htq, hqq, hwq, hev⟩ := Timely.calls ht hq₁ hf (forall_mem_cons.1 hd).2
    rw [append_assoc] at hqq
    refine ⟨q, by rw [foldlM_cons, h₁, ok_bind, hok], htq, hqq, hwq.trans hw, fun hb => ?_⟩
    obtain ⟨⟨x, hx, hle⟩, hb⟩ := forall_mem_cons.1 hb
    obtain ⟨hx₁, he⟩ := hkeep x hx hle
    refine (hev fun c hc => ?_).trans he
    obtain ⟨y, hy, hle⟩ := hb c hc
    exact ⟨y, hx₁.trans (hx.symm.trans hy), hle⟩

/-- The packet goes behind the first of those that are left when the one in front is sent. -/
def Left (p : SimpleTimingPort) (d : DeferredPacket) : Prop :=
  ∃ x, p.transmitList.tail.head? = some x ∧ x.tick ≤ d.tick

/-- The packet in front is accepted, or is in front again; the calls of the peer are in their places. -/
theorem sendDeferredPacketTo_spec {r : Reply} (he : p.sendEvent = none) (hd : p.Due curTick)
    (hq : Queued sched.zipIdx done [] p.transmitList) (hc : ∀ d ∈ r.calls, curTick < d.tick ∧ d.tick < curTick + ms)
    (hr : r.success = false → p.waitingOnRetry = false → ∀ d ∈ r.calls, p.Left d) :
    ∃ q done', p.sendDeferredPacketTo ms curTick r = .ok q ∧ Live curTick q ∧
      Queued (sched ++ r.calls).zipIdx done' [] q.transmitList ∧
      done'.map Prod.fst = done.map Prod.fst ++ if r.success then p.transmitList.head?.toList else [] := by
  obtain ⟨pend, hperm, hl, hs⟩ := hq
  obtain ⟨dp, hhead, hle⟩ := hd
  have hready : p.deferredPacketReady curTick := deferredPacketReady_iff.2 ⟨dp, hhead, hle⟩
  cases pend with
  | nil =>
    rw [hl] at hhead
    cases hhead
  | cons x pend =>
    rw [hl] at hhead
    cases hhead
    -- while the peer is called the packet is in flight
    have hmid : Queued sched.zipIdx done [x] p.transmitList.tail := ⟨pend, hperm, by rw [hl]; rfl, hs⟩
    have ht : Timely curTick { p with transmitList := p.transmitList.tail } :=
      ⟨⟨fun _ => he, fun t h => absurd (he.symm.trans h) (by simp)⟩, fun t h => absurd (he.symm.trans h) (by simp)⟩
    obtain ⟨q, hok, htq, ⟨pend', hperm', hl', hs'⟩, hw, hkeep⟩ :=
      ht.calls hmid (forall_mem_singleton.2 hle) hc
    unfold sendDeferredPacketTo
    rw [ensure_bind hready, hok, ok_bind]
    cases hrs : r.success with
    | true =>
      have hdone : Queued (sched ++ r.calls).zipIdx (done ++ [x]) [] q.transmitList :=
        ⟨pend', by rwa [append_assoc], hl', (pairwise_cons.1 hs').2⟩
      rw [if_pos rfl]
      dsimp only
      split
      · next d l hql hqe =>
        obtain ⟨t, ht, hlo, hhi, hmax⟩ : ∃ t, (if d.tick ≤ curTick then curTick + 1 else d.tick) = t ∧ curTick ≤ t ∧
            d.tick ≤ t ∧ t ≤ max d.tick (curTick + 1) := by
          split
          · next h => exact ⟨_, rfl, Nat.le_succ _, Nat.le_succ_of_le h, Nat.le_max_right _ _⟩
          · next h => exact ⟨_, rfl, Nat.le_of_not_le h, Nat.le_refl _, Nat.le_max_left _ _⟩
        refine ⟨{ q with sendEvent := some t, waitingOnRetry := false }, done ++ [x], ?_,
          ⟨⟨⟨by simp, ?_⟩, ?_⟩, by simp, by simp⟩,
          hdone, by simp [hl]⟩
        · rw [ht, schedule, ensure_bind hlo, ensure_bind hqe]
        · rintro _ ⟨⟩
          exact hlo
        · rintro _ ⟨⟩
          exact ⟨d, by rw [hql]; rfl, hhi, hmax⟩
      · next hno =>
        refine ⟨_, done ++ [x], rfl, ⟨⟨⟨by simp, htq.event⟩, htq.front⟩, by simp, fun _ hn => ?_⟩, hdone, by simp [hl]⟩
        cases hql : q.transmitList with
        | nil => rfl
        | cons d l => exact absurd hn (hno d l hql)
    | false =>
      have hqe : q.sendEvent = none := by
        cases hpw : p.waitingOnRetry with
        | true => exact htq.waiting (hw.trans hpw)
        | false => exact (hkeep (hr hrs hpw)).trans he
      rw [ensure_bind hqe]
      refine ⟨_, done, rfl, ⟨⟨⟨fun _ => hqe, fun t h => absurd (hqe.symm.trans h) (by simp)⟩,
        fun t h => absurd (hqe.symm.trans h) (by simp)⟩, fun _ => ⟨x.1, by rw [hl]; rfl, hle⟩, by simp⟩,
        ⟨x :: pend', hperm', ?_, hs'⟩, by simp⟩
      rw [hl, hl']
      rfl

end SimpleTimingPort

/-! ## Runs -/

/-- The port at a time, with all packets scheduled and accepted so far. -/
structure DeferredSend where
  curTick : Tick := 0
  port : SimpleTimingPort := {}
  scheduled : List DeferredPacket := []
  accepted : List DeferredPacket := []

namespace DeferredSend

inductive Act
  | schedSendTiming (d : DeferredPacket)
  | processSendEvent (r : Reply)
  | recvRetry (r : Reply)
  | advance (t : Tick)

variable (ms : Tick) (s : DeferredSend)

/-- A send by the port `p`, which is the one of `s` but for its event. -/
def send (ms : Tick) (p : SimpleTimingPort) (r : Reply) : Except Fault DeferredSend := do
  let port ← p.sendDeferredPacketTo ms s.curTick r
  .ok { s with
    port
    scheduled := s.scheduled ++ r.calls
    accepted := s.accepted ++ if r.success then s.port.transmitList.head?.toList else [] }

def step : Act → Except Fault DeferredSend
  | .schedSendTiming d => do
    let port ← s.port.schedSendTiming ms s.curTick d.pkt d.tick
    .ok { s with port, scheduled := s.scheduled ++ [d] }
  | .processSendEvent r => do
    ensure .assert (¬ s.port.waitingOnRetry)
    s.send ms { s.port with sendEvent := none } r
  | .recvRetry r => do
    ensure .assert s.port.waitingOnRetry
    s.send ms s.port r
  | .advance t => .ok { s with curTick := t }

/-- Packets are scheduled for later, the event fires at its time, and a retry is for a port that waits. -/
def Allowed : Act → Prop
  | .schedSendTiming d => s.curTick < d.tick
  | .processSendEvent r => s.port.sendEvent = some s.curTick ∧ ∀ d ∈ r.calls, s.curTick < d.tick
  | .recvRetry r => s.port.waitingOnRetry ∧ ∀ d ∈ r.calls, s.curTick < d.tick
  | .advance t => s.curTick ≤ t ∧ ∀ e, s.port.sendEvent = some e → t ≤ e

/-- Packets are scheduled for the next millisecond, and a peer that refuses a packet the event has sent schedules none
in front of those that are left. -/
def Mannered : Act → Prop
  | .schedSendTiming d => d.tick < s.curTick + ms
  | .processSendEvent r => (∀ d ∈ r.calls, d.tick < s.curTick + ms) ∧ (r.success = false → ∀ d ∈ r.calls, s.port.Left d)
  | .recvRetry r => ∀ d ∈ r.calls, d.tick < s.curTick + ms
  | .advance _ => True

/-- The packets that wait are in order, the others have been accepted, and whatever waits will be sent. -/
def Exact : Prop :=
  s.port.Live s.curTick ∧
    ∃ done, s.accepted = done.map Prod.fst ∧ Queued s.scheduled.zipIdx done [] s.port.transmitList

variable {s t : DeferredSend} {ms : Tick}

theorem Exact.send {p : SimpleTimingPort} {r : Reply} (h : s.Exact) (hp : p.transmitList = s.port.transmitList)
    (he : p.sendEvent = none) (hd : p.Due s.curTick)
    (hc : ∀ d ∈ r.calls, s.curTick < d.tick ∧ d.tick < s.curTick + ms)
    (hr : r.success = false → p.waitingOnRetry = false → ∀ d ∈ r.calls, p.Left d) :
    ∃ t, s.send ms p r = .ok t ∧ t.Exact := by
  obtain ⟨-, done, hacc, hq⟩ := h
  rw [← hp] at hq
  obtain ⟨q, done', hok, hlive, hq', hdone⟩ := SimpleTimingPort.sendDeferredPacketTo_spec he hd hq hc hr
  rw [DeferredSend.send, hok]
  exact ⟨_, rfl, hlive, done', by rw [hdone, hacc, hp], hq'⟩

/-- A call ends, with every packet in its place. -/
theorem Exact.step (h : s.Exact) {a : Act} (ha : s.Allowed a) (hm : s.Mannered ms a) :
    ∃ t, s.step ms a = .ok t ∧ t.Exact := by
  cases a with
  | schedSendTiming d =>
    obtain ⟨hlive, done, hacc, hq⟩ := h
    obtain ⟨q, hok, -, hq', -, hl, -⟩ := hlive.toTimely.schedSendTiming hq (forall_mem_nil _) ⟨ha, hm⟩
    rw [DeferredSend.step, hok]
    exact ⟨_, rfl, hl hlive, done, hacc, hq'⟩
  | processSendEvent r =>
    have hw : s.port.waitingOnRetry = false := Bool.eq_false_iff.2 fun hw => by cases (h.1.waiting hw).symm.trans ha.1
    obtain ⟨d, hd, hle, -⟩ := h.1.front _ ha.1
    rw [DeferredSend.step, ensure_bind (by rw [hw]; exact Bool.false_ne_true)]
    exact h.send rfl rfl ⟨d, hd, hle⟩ (fun d hd => ⟨ha.2 d hd, hm.1 d hd⟩) fun hs _ => hm.2 hs
  | recvRetry r =>
    rw [DeferredSend.step, ensure_bind ha.1]
    refine h.send rfl (h.1.waiting ha.1) (h.1.due ha.1) (fun d hd => ⟨ha.2 d hd, hm d hd⟩) fun _ hw => ?_
    cases ha.1.symm.trans hw
  | advance t =>
    obtain ⟨hlive, hq⟩ := h
    refine ⟨_, rfl, ⟨⟨⟨hlive.waiting, ha.2⟩, fun e he => ?_⟩, fun hw => ?_, hlive.idle⟩, hq⟩
    · obtain ⟨d, hd, hle, hmax⟩ := hlive.front e he
      exact ⟨d, hd, hle, Nat.le_trans hmax (Nat.max_le.2 ⟨Nat.le_max_left _ _,
        Nat.le_trans (Nat.succ_le_succ ha.1) (Nat.le_max_right _ _)⟩)⟩
    · obtain ⟨d, hd, hle⟩ := hlive.due hw
      exact ⟨d, hd, Nat.le_trans hle ha.1⟩

/-- In every run the packets that wait are those scheduled and not yet accepted, in the order of their times and among
equal ones in the order in which they were scheduled; no packet is accepted twice; while packets wait and no retry is
awaited, the event is scheduled for the time of the first, or for the next tick at the latest; and no call fails. -/
theorem deferredSend_exact {as : List Act}
    (h : Run (fun s a t => s.Allowed a ∧ s.Mannered ms a ∧ s.step ms a = .ok t) {} as s) :
    (∃ done pend : List Numbered, (done ++ pend).Perm s.scheduled.zipIdx ∧ s.accepted = done.map Prod.fst ∧
      s.port.transmitList = pend.map Prod.fst ∧ pend.Pairwise Numbered.Before) ∧
    (∀ d, s.port.transmitList.head? = some d → s.port.waitingOnRetry = false →
      ∃ e, s.port.sendEvent = some e ∧ e ≤ max d.tick (s.curTick + 1)) ∧
    ∀ a, s.Allowed a → s.Mannered ms a → ∃ t, s.step ms a = .ok t := by
  have hinv : s.Exact := by
    refine h.invariant ⟨⟨⟨.init, nofun⟩, nofun, fun _ _ => rfl⟩, [], rfl, [], .nil, rfl, .nil⟩ ?_
    intro x a y hx ⟨ha, hm, hs⟩
    obtain ⟨t, ht, hI⟩ := hx.step ha hm
    cases hs.symm.trans ht
    exact hI
  have ⟨hlive, done, hacc, pend, hperm, hl, hs⟩ := hinv
  refine ⟨⟨done, pend, hperm, hacc, hl, hs⟩, fun d hd hw => ?_, fun a ha hm => ?_⟩
  · cases he : s.port.sendEvent with
    | none =>
      rw [hlive.idle hw he] at hd
      cases hd
    | some e =>
      obtain ⟨d', hd', -, hmax⟩ := hlive.front e he
      exact ⟨e, rfl, Option.some.inj (hd.symm.trans hd') ▸ hmax⟩
  · obtain ⟨t, ht, -⟩ := hinv.step ha hm
    exact ⟨t, ht⟩

def response (addr : Addr) : Packet := { cmd := .ReadResp, addr, size := 1 }

/-- A packet and another one for the same time are scheduled. The first is refused by a peer that schedules a third, and
accepted on a retry. -/
def refusedOnce : List Act := [.schedSendTiming ⟨1, response 0⟩, .schedSendTiming ⟨1, response 1⟩, .advance 1,
  .processSendEvent ⟨false, [⟨2, response 2⟩]⟩, .recvRetry ⟨true, []⟩]

theorem deferredSend_exact_refusedOnce : ∃ s : DeferredSend,
    Run (fun s a t => s.Allowed a ∧ s.Mannered 10 a ∧ s.step 10 a = .ok t) {} refusedOnce s ∧
    s.accepted = [⟨1, response 0⟩] ∧ s.port.transmitList = [⟨1, response 1⟩, ⟨2, response 2⟩] ∧
    ∃ e, s.port.sendEvent = some e ∧ e ≤ 2 := by
  have hrun : Run (fun (s : DeferredSend) a t => s.Allowed a ∧ s.Mannered 10 a ∧ s.step 10 a = .ok t)
    {} refusedOnce _ :=
    .cons ⟨Nat.one_pos, (by decide : 1 < 0 + 10), rfl⟩ <| .cons ⟨Nat.one_pos, (by decide : 1 < 0 + 10), rfl⟩ <|
    .cons ⟨⟨Nat.zero_le 1, fun e he => by cases he; exact Nat.le_refl 1⟩, trivial, rfl⟩ <|
    .cons ⟨⟨rfl, forall_mem_singleton.2 (by decide)⟩, ⟨forall_mem_singleton.2 (by decide),
      fun _ => forall_mem_singleton.2 ⟨_, rfl, by decide⟩⟩, rfl⟩ <|
    .cons ⟨⟨rfl, forall_mem_nil _⟩, forall_mem_nil _, rfl⟩ .nil
  exact ⟨_, hrun, rfl, rfl, (deferredSend_exact hrun).2.1 _ rfl rfl⟩

/-- A packet for time 1, at which its event is due. -/
def oneDue : DeferredSend :=
  { curTick := 1, port := { transmitList := [⟨1, response 0⟩], sendEvent := some 1 }, scheduled := [⟨1, response 0⟩] }

/-- The assertions fail for a packet of later than a millisecond, and when the peer schedules a packet in front of those
that are left and refuses the one it is sent. -/
theorem deferredSend_asserts :
    ({} : DeferredSend).step 10 (.schedSendTiming ⟨11, response 0⟩) = .error .assert ∧
    Run (fun (s : DeferredSend) a t => s.Allowed a ∧ s.step 10 a = .ok t) {}
      [.schedSendTiming ⟨1, response 0⟩, .advance 1] oneDue ∧
    oneDue.Allowed (.processSendEvent ⟨false, [⟨2, response 2⟩]⟩) ∧
    oneDue.step 10 (.processSendEvent ⟨false, [⟨2, response 2⟩]⟩) = .error .assert :=
  ⟨rfl, .cons ⟨Nat.one_pos, rfl⟩ (.cons ⟨⟨Nat.zero_le 1, fun e he => by cases he; exact Nat.le_refl 1⟩, rfl⟩ .nil),
    ⟨rfl, forall_mem_singleton.2 (by decide)⟩, rfl⟩

end DeferredSend

end M5.Mem
