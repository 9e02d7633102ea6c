import M5.Sim.EventQueueRefine

/-!
# The simulation loop

`simulate()` of `sim/simulate.cc` over the main event queue. A round of the loop is cut where `process()` is entered, as
`serviceOne` is. Owners of events may call the queue at any time: before and between the calls of `simulate()`, from
`process()`, and from the handlers of asynchronous events at the end of a round.
-/

namespace M5.Sim

open M5.Lib List

def maxTick : Tick := 2 ^ 63 - 1

/-- A sum of two `Tick`s, in 64 bits with sign. -/
def addTick (a b : Tick) : Tick := (a + b + 2 ^ 63) % 2 ^ 64 - 2 ^ 63

def simExitPri : Int := 100

/-- The queue, the limit event of the `simulate()` that is running, and the values that `curTick` has been given. -/
structure Loop where
  queue : State
  limit : Option EventPtr
  ticks : List Tick

def Loop.init (t : Tick) : Loop := ⟨.init true t, none, []⟩

inductive Stop
  | fault (f : Fault)
  | fatal
  | empty       -- `assert(!mainEventQueue.empty())`
  | past        -- "event scheduled in the past"
  | bogus       -- "Bogus exit event class!"
  | misuse      -- nothing of the kind can happen here
deriving DecidableEq

inductive Act
  | call (c : Call)
  /-- `simulate()` up to its loop; the limit event is constructed at the pointer. -/
  | simulate (numCycles : Tick) (limitEvent : EventPtr)
  /-- A round of the loop, up to the call of `process()`. -/
  | iterate
  /-- The rest of the round; the flag tells that an exit event is a `SimLoopExitEvent`. -/
  | processed (isSimLoopExit : Bool)
  /-- `simulate()` returns because of an exception. -/
  | asyncException
deriving DecidableEq

/-- What owners of events call. -/
def Call.isOwner : Call → Bool
  | .setCurTick _ | .serviceOne | .processed => false
  | _ => true

namespace Loop

variable (l : Loop)

def call (c : Call) : Except Stop Loop :=
  match exec l.queue c with
  | .ok q => .ok { l with queue := q }
  | .error f => .error (.fault f)

/-- The tick at which `simulate()` is to stop. -/
def limitTick (numCycles : Tick) : Tick :=
  if addTick l.queue.curTick numCycles < 0 then maxTick else addTick l.queue.curTick numCycles

/-- `simulate()` up to its loop. -/
def simulate (numCycles : Tick) (limitEvent : EventPtr) : Except Stop Loop := do
  ensure .misuse (l.limit = none)
  ensure .fatal (0 ≤ numCycles)
  let when := l.limitTick numCycles
  let l ← l.call (.construct limitEvent simExitPri)
  let l ← l.call (.setFlags limitEvent { isExitEvent := true })
  let l ← l.call (.schedule limitEvent when)
  .ok { l with limit := some limitEvent }

/-- A round of the loop, up to the call of `process()`. -/
def iterate : Except Stop Loop := do
  ensure .misuse (l.limit ≠ none ∧ l.queue.inProcess = [])
  match l.queue.head with
  | none => .error .empty
  | some e =>
    let nextTick := (l.queue.mem e).when
    ensure .past (l.queue.curTick ≤ nextTick)
    { l with queue := { l.queue with curTick := nextTick }, ticks := l.ticks ++ [nextTick] }.call .serviceOne

/-- The rest of the round. -/
def processed (isSimLoopExit : Bool) : Except Stop Loop := do
  let l ← l.call .processed
  match l.queue.returned with
  | none => .ok l
  | some e =>
    ensure .bogus isSimLoopExit
    match l.limit with
    | none => .error .misuse
    | some limitEvent =>
      if e = limitEvent then .ok { l with limit := none }
      else do
        ensure (.fault .assert) (l.queue.mem limitEvent).flags.scheduled
        let l ← l.call (.setFlags limitEvent { squashed := true })
        .ok { l with limit := none }

/-- What can happen in the loop. -/
def exec : Act → Except Stop Loop
  | .call c => do
    ensure .misuse c.isOwner
    l.call c
  | .simulate numCycles limitEvent => l.simulate numCycles limitEvent
  | .iterate => l.iterate
  | .processed isSimLoopExit => l.processed isSimLoopExit
  | .asyncException => .ok { l with limit := none }

end Loop

/-! ## What calls do to the time -/

variable {s s' : State} {sp : Spec} {l l' : Loop}

theorem curTick_exec {c : Call} (hc : ∀ t, c ≠ .setCurTick t) (h : exec s c = .ok s') : s'.curTick = s.curTick := by
  have hdestroy : ∀ {x y : State} {e : EventPtr}, x.destroy e = .ok y → y.curTick = x.curTick := by
    intro x y e h
    cases (of_ensure h).2
    rfl
  have hreap : ∀ {x y : State} {e : EventPtr}, x.reap e = .ok y → y.curTick = x.curTick := by
    intro x y e h
    obtain ⟨z, hz, rfl⟩ := of_map h
    show z.curTick = x.curTick
    split_ifs at hz
    · exact hdestroy hz
    · cases hz
      rfl
  cases c with
  | construct e p =>
    cases (of_ensure h).2
    rfl
  | destroy e => exact hdestroy (of_ensure h).2
  | setFlags e f | clearFlags e f =>
    cases (of_ensure (of_ensure h).2).2
    rfl
  | setCurTick t => exact absurd rfl (hc t)
  | schedule e t =>
    obtain ⟨-, h⟩ := of_ensure h
    obtain ⟨-, h⟩ := of_ensure h
    obtain ⟨-, h⟩ := of_ensure h
    obtain ⟨x, hx, rfl⟩ := of_map h
    exact (State.curTick_insertEvent hx : x.curTick = _)
  | deschedule e =>
    obtain ⟨-, h⟩ := of_ensure h
    obtain ⟨-, h⟩ := of_ensure h
    obtain ⟨x, hx, h⟩ := of_bind h
    have h1 := State.curTick_removeEvent hx
    dsimp only at h
    split_ifs at h
    · exact (hdestroy h).trans h1
    · cases h
      exact h1
  | reschedule e t a =>
    obtain ⟨-, h⟩ := of_ensure h
    obtain ⟨-, h⟩ := of_ensure h
    obtain ⟨-, h⟩ := of_ensure h
    obtain ⟨x, hx, h⟩ := of_bind h
    obtain ⟨y, hy, rfl⟩ := of_map h
    refine (State.curTick_insertEvent hy : y.curTick = _).trans ?_
    show x.curTick = s.curTick
    split_ifs at hx
    · exact State.curTick_removeEvent hx
    · cases hx
      rfl
  | serviceOne =>
    have hpop : ∀ e, (s.popHead e).curTick = s.curTick := by
      intro e
      unfold State.popHead
      dsimp only
      split <;> rfl
    rw [exec, State.serviceOne] at h
    split at h
    · cases h
    · next e _ =>
      dsimp only at h
      split_ifs at h
      · exact (hreap h).trans (hpop e)
      · cases h
        exact hpop e
  | processed =>
    rw [exec, State.processed] at h
    split at h
    · cases h
    · next e rest _ =>
      dsimp only at h
      split_ifs at h
      · cases (of_ensure h).2
        rfl
      · exact (hreap h : s'.curTick = _)

/-! ## Nothing lies in the past -/

def IsTime (t : Tick) : Prop := 0 ≤ t ∧ t < 2 ^ 63

/-- The current tick is a time, and everything that is pending lies at a time that is not before it. -/
structure Ahead (s : State) : Prop where
  now : IsTime s.curTick
  pending : ∃ sp, Refines s sp ∧ ∀ a ∈ sp.log, s.curTick ≤ (ofLex a.1).1 ∧ IsTime (ofLex a.1).1

theorem utick_of_isTime {t : Tick} (h : IsTime t) : State.utick t = t := by
  exact Int.emod_eq_of_lt h.1 (lt_trans h.2 (by decide))

/-- The times that a call gives to events. -/
def Call.AtTimes : Call → Prop
  | .schedule _ when => IsTime when
  | .reschedule _ when _ => when < 2 ^ 63
  | _ => True

theorem Ahead.exec {c : Call} (h : Ahead s) (hc : ∀ t, c ≠ .setCurTick t) (ht : c.AtTimes) (hx : exec s c = .ok s') :
    Ahead s' := by
  obtain ⟨sp, hR, hlog⟩ := h.pending
  obtain ⟨s'', hx', hR'⟩ := hR.exec (exec_legal hx)
  rw [hx] at hx'
  cases hx'
  have hnow := curTick_exec hc hx
  refine ⟨by rw [hnow]; exact h.now, sp.step c, hR', ?_⟩
  rw [hnow]
  have hsub : ∀ e, ∀ a ∈ Log.remove sp.log e, s.curTick ≤ (ofLex a.1).1 ∧ IsTime (ofLex a.1).1 := by
    intro e a ha
    exact hlog a (mem_filter.1 ha).1
  cases c with
  | construct | destroy | setFlags | clearFlags | processed => exact hlog
  | setCurTick t => exact absurd rfl (hc t)
  | schedule e when =>
    have hle := (exec_legal hx).1
    rw [utick_of_isTime h.now, utick_of_isTime ht] at hle
    intro a ha
    rcases mem_cons.1 ha with rfl | ha
    · exact ⟨hle, ht⟩
    · exact hlog a ha
  | deschedule e => exact hsub e
  | reschedule e when always =>
    have hle : s.curTick ≤ when := (exec_legal hx).1
    intro a ha
    rcases mem_cons.1 ha with rfl | ha
    · exact ⟨hle, le_trans h.now.1 hle, ht⟩
    · exact hsub e a ha
  | serviceOne =>
    rw [Spec.step]
    split
    · exact hsub _
    · exact hlog

theorem Ahead.advance {e : EventPtr} (h : Ahead s) (he : s.head = some e) :
    s.curTick ≤ (s.mem e).when ∧ Ahead { s with curTick := (s.mem e).when } := by
  obtain ⟨sp, hR, hlog⟩ := h.pending
  obtain ⟨bs, hb, hA⟩ := hR.bins
  obtain ⟨⟨t, bs', rfl⟩, -⟩ := hb.popHead he
  have htop := hA.top hb.wf
  have hmem := hlog _ (mem_of_find?_eq_some htop)
  refine ⟨hmem.1, hmem.2, sp, hR.congr rfl rfl rfl, fun a ha => ⟨?_, (hlog a ha).2⟩⟩
  have hle := Log.le_of_top htop a ha
  exact Prod.Lex.monotone_fst _ _ hle

/-! ## Runs -/

/-- What holds of the loop after the values `ticks` of the current tick, the first of which was `t`. -/
structure Loop.Good (t : Tick) (l : Loop) : Prop where
  ahead : Ahead l.queue
  sorted : (t :: l.ticks).Pairwise (· ≤ ·)
  le_now : ∀ u ∈ t :: l.ticks, u ≤ l.queue.curTick

/-- The times that are given to events; of `simulate()` only that its argument is a `Tick`. -/
def Act.AtTimes : Act → Prop
  | .call c => c.AtTimes
  | .simulate numCycles _ => numCycles < 2 ^ 63
  | _ => True

variable {t : Tick}

theorem Loop.Good.call {c : Call} (h : l.Good t) (hx : l.call c = .ok l') (hc : ∀ t, c ≠ .setCurTick t)
    (ht : c.AtTimes) : l'.Good t := by
  unfold Loop.call at hx
  split at hx
  · next q hq =>
    cases hx
    refine ⟨h.ahead.exec hc ht hq, h.sorted, ?_⟩
    rw [curTick_exec hc hq]
    exact h.le_now
  · cases hx

theorem isTime_limitTick {n : Tick} (h : IsTime l.queue.curTick) (hn : 0 ≤ n) (hn' : n < 2 ^ 63) :
    IsTime (l.limitTick n) := by
  -- of two times the sum is a time, or has become negative
  have hsum : ∀ a b : Int, 0 ≤ a → a < 2 ^ 63 → 0 ≤ b → b < 2 ^ 63 →
      let c := (a + b + 2 ^ 63) % 2 ^ 64 - 2 ^ 63
      0 ≤ (if c < 0 then 2 ^ 63 - 1 else c) ∧ (if c < 0 then 2 ^ 63 - 1 else c) < 2 ^ 63 := by
    intro a b h1 h2 h3 h4 c
    constructor <;> split <;> omega
  exact hsum _ _ h.1 h.2 hn hn'

theorem Loop.Good.simulate {n : Tick} {e : EventPtr} (h : l.Good t) (hn : n < 2 ^ 63) (hx : l.simulate n e = .ok l') :
    l'.Good t := by
  obtain ⟨-, hx⟩ := of_ensure hx
  obtain ⟨h0, hx⟩ := of_ensure hx
  obtain ⟨l1, hx1, hx⟩ := of_bind hx
  obtain ⟨l2, hx2, hx⟩ := of_bind hx
  obtain ⟨l3, hx3, rfl⟩ := of_map hx
  have h1 := h.call hx1 nofun trivial
  have h2 := h1.call hx2 nofun trivial
  have h3 := h2.call hx3 nofun (isTime_limitTick h.ahead.now h0 hn)
  exact ⟨h3.ahead, h3.sorted, h3.le_now⟩

theorem Loop.Good.iterate (h : l.Good t) (hx : l.iterate = .ok l') : l'.Good t := by
  obtain ⟨-, hx⟩ := of_ensure hx
  split at hx
  · cases hx
  · next e he =>
    obtain ⟨hle, hx⟩ := of_ensure hx
    refine call ⟨(h.ahead.advance he).2, ?_, ?_⟩ hx nofun trivial
    · rw [← cons_append, pairwise_append]
      refine ⟨h.sorted, pairwise_singleton .., fun u hu v hv => ?_⟩
      rw [mem_singleton.1 hv]
      exact le_trans (h.le_now u hu) hle
    · intro u hu
      rw [← cons_append, mem_append, mem_singleton] at hu
      rcases hu with hu | rfl
      · exact le_trans (h.le_now u hu) hle
      · exact le_rfl

theorem Loop.Good.processed {b : Bool} (h : l.Good t) (hx : l.processed b = .ok l') : l'.Good t := by
  obtain ⟨l1, hx1, hx⟩ := of_bind hx
  have h1 := h.call hx1 (by simp) trivial
  split at hx
  · cases hx
    exact h1
  · obtain ⟨-, hx⟩ := of_ensure hx
    split at hx
    · cases hx
    · split_ifs at hx
      · cases hx
        exact ⟨h1.ahead, h1.sorted, h1.le_now⟩
      · obtain ⟨-, hx⟩ := of_ensure hx
        obtain ⟨l2, hx2, rfl⟩ := of_map hx
        have h2 := h1.call hx2 (by simp) trivial
        exact ⟨h2.ahead, h2.sorted, h2.le_now⟩

theorem Loop.Good.exec {a : Act} (h : l.Good t) (ht : a.AtTimes) (hx : l.exec a = .ok l') : l'.Good t := by
  cases a with
  | call c =>
    obtain ⟨hc, hx⟩ := of_ensure hx
    refine h.call hx (fun u hu => ?_) ht
    rw [hu] at hc
    cases hc
  | simulate n e => exact h.simulate ht hx
  | iterate => exact h.iterate hx
  | processed b => exact h.processed hx
  | asyncException =>
    cases hx
    exact ⟨h.ahead, h.sorted, h.le_now⟩

/-- In every run, from a simulator at the time `t`, in which every time given to `schedule` is not negative: the values
of the current tick do not decrease, and no event is found to lie in the past. -/
theorem time_never_runs_backwards {as : List Act} (ht : IsTime t)
    (h : Run (fun l a l' => a.AtTimes ∧ l.exec a = .ok l') (.init t) as l) :
    (t :: l.ticks).Pairwise (· ≤ ·) ∧ l.exec .iterate ≠ .error .past := by
  have hg : l.Good t := by
    refine h.invariant ⟨⟨ht, .init, .init true t, ?_⟩, ?_, ?_⟩ ?_
    · intro a ha
      cases ha
    · exact pairwise_singleton ..
    · intro u hu
      rw [mem_singleton.1 hu]
      exact le_rfl
    · exact fun hx hs => hx.exec hs.1 hs.2
  refine ⟨hg.sorted, fun hp => ?_⟩
  rw [Loop.exec, Loop.iterate, ensure] at hp
  split_ifs at hp
  · split at hp
    · cases hp
    · next e he =>
      have hle := (hg.ahead.advance he).1
      rw [ensure_bind hle] at hp
      unfold Loop.call at hp
      split at hp <;> cases hp
  · cases hp

/-- An event at tick 5 whose `process()` schedules another one at the given tick. -/
def chainedEvents (when : Tick) : List Act :=
  [.call (.construct 1 0), .call (.construct 2 0), .call (.schedule 1 5), .simulate 100 3, .iterate,
    .call (.schedule 2 when), .processed true]

theorem time_never_runs_backwards_chainedEvents : ∃ l : Loop,
    Run (fun l a l' => a.AtTimes ∧ l.exec a = .ok l') (.init 0) (chainedEvents 8) l ∧ l.ticks = [5] ∧
      (0 :: l.ticks).Pairwise (· ≤ ·) ∧ l.exec .iterate ≠ .error .past := by
  obtain ⟨l, h, hl⟩ : ∃ l : Loop, Run (fun l a l' => l.exec a = .ok l') (.init 0) (chainedEvents 8) l ∧
      l.ticks = [5] := ⟨_, .of_foldlM rfl, rfl⟩
  have ht : ∀ a ∈ chainedEvents 8, a.AtTimes := by
    simp [chainedEvents, Act.AtTimes, Call.AtTimes, IsTime]
  have hr := h.restrict ht
  exact ⟨l, hr, hl, time_never_runs_backwards (by unfold IsTime; decide) hr⟩

/-- A tick of -1 passes the check of `schedule`, which compares without sign, and lies in the past. -/
theorem schedule_in_the_past : ∃ l : Loop, Run (fun l a l' => l.exec a = .ok l') (.init 0) (chainedEvents (-1)) l ∧
    l.queue.curTick = 5 ∧ l.exec .iterate = .error .past := ⟨_, .of_foldlM rfl, rfl, rfl⟩

end M5.Sim
