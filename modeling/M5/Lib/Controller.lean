import Mathlib.Logic.Basic

/-!
# Table-driven controllers

A controller is a state machine given by rules: in these states, on these events, perform these actions and go to this
state. An event without a rule is a fault. An event whose rule stalls leaves everything as it is: it is tried again.
-/

namespace M5.Lib

universe u

/-- One rule, `transition(states, events, next) { actions }` in the source; without a next state the controller
stays in its state. -/
structure Rule (State Event Action : Type) where
  states : List State
  events : List Event
  next : Option State := none
  actions : List Action

/-- A controller over the states `σ` of the system, with faults `ε`. -/
structure Controller (σ : Type u) (ε State Event Action : Type) where
  rules : List (Rule State Event Action)
  getState : σ → Except ε State
  setState : σ → State → Except ε σ
  act : Action → σ → Except ε σ
  /-- The action of rules that stall. -/
  stall : Action → Bool
  /-- The fault of an event without a rule. -/
  invalid : ε

namespace Controller

variable {σ : Type u} {ε State Event Action : Type}

def perform (c : Controller σ ε State Event Action) : List Action → σ → Except ε σ
  | [], s => .ok s
  | a :: as, s =>
    match c.act a s with
    | .ok s' => c.perform as s'
    | .error f => .error f

variable {c : Controller σ ε State Event Action} {e : Event} {s : σ} {q : State} {r : Rule State Event Action}

/-- What each of the actions keeps, the list of them keeps. -/
theorem perform_invariant {I : σ → Prop} : ∀ {as : List Action} {s s' : σ},
    (∀ {a s s'}, a ∈ as → c.act a s = .ok s' → I s → I s') → I s → c.perform as s = .ok s' → I s'
  | [], _, _, _, hi, hp => by
    cases hp
    exact hi
  | a :: as, s, s', hact, hi, hp => by
    rw [perform] at hp
    match ha : c.act a s with
    | .error g => rw [ha] at hp; cases hp
    | .ok s1 =>
      rw [ha] at hp
      exact perform_invariant (fun hm => hact (List.mem_cons_of_mem _ hm)) (hact List.mem_cons_self ha hi) hp

/-- Let `R x s` say that the state `s` is as the abstract value `x` tells, and let `f` tell what an action does to
abstract values. What `f` tells about a list of actions is then so. -/
theorem perform_sound {α : Type} {R : α → σ → Prop} {f : α → Action → Option α}
    (hf : ∀ {x a y s s'}, f x a = some y → R x s → c.act a s = .ok s' → R y s') :
    ∀ {as : List Action} {x y : α} {s s' : σ}, as.foldlM f x = some y → R x s → c.perform as s = .ok s' → R y s'
  | [], _, _, _, _, hx, hr, hp => by
    cases hx
    cases hp
    exact hr
  | a :: as, x, y, s, s', hx, hr, hp => by
    rw [List.foldlM_cons] at hx
    rw [perform] at hp
    match hfa : f x a with
    | none => rw [hfa] at hx; cases hx
    | some z =>
      match ha : c.act a s with
      | .error g => rw [ha] at hp; cases hp
      | .ok s1 =>
        rw [hfa] at hx
        rw [ha] at hp
        exact perform_sound hf hx (hf hfa hr ha) hp

variable [DecidableEq State] [DecidableEq Event]

def find (c : Controller σ ε State Event Action) (q : State) (e : Event) : Option (Rule State Event Action) :=
  c.rules.find? fun r => r.states.contains q && r.events.contains e

/-- An event happens in the state `q`. -/
def fire (c : Controller σ ε State Event Action) (e : Event) (q : State) (s : σ) : Except ε σ :=
  match c.find q e with
  | none => .error c.invalid
  | some r =>
    if r.actions.any c.stall then .ok s
    else (c.perform r.actions s).bind fun s' => c.setState s' (r.next.getD q)

def trigger (c : Controller σ ε State Event Action) (e : Event) (s : σ) : Except ε σ :=
  (c.getState s).bind fun q => c.fire e q s

/-- An event whose rule stalls changes nothing. -/
theorem trigger_stall (hq : c.getState s = .ok q) (hr : c.find q e = some r) (hs : r.actions.any c.stall) :
    c.trigger e s = .ok s := by
  rw [trigger, hq, Except.bind, fire, hr]
  simp only [hs, if_true]

/-- What an event does, by the rule that is found. -/
theorem trigger_rule (hq : c.getState s = .ok q) (hr : c.find q e = some r) (hs : r.actions.any c.stall = false) :
    c.trigger e s = (c.perform r.actions s).bind fun s' => c.setState s' (r.next.getD q) := by
  rw [trigger, hq, Except.bind, fire, hr]
  simp only [hs, Bool.false_eq_true, if_false]

/-- An event that ends has followed a rule, or has been put off. -/
theorem trigger_eq_ok {s' : σ} (h : c.trigger e s = .ok s') : ∃ q r, c.getState s = .ok q ∧ r ∈ c.rules ∧
    q ∈ r.states ∧ e ∈ r.events ∧
    (s' = s ∨ ∃ s1, c.perform r.actions s = .ok s1 ∧ c.setState s1 (r.next.getD q) = .ok s') := by
  rw [trigger] at h
  match hq : c.getState s with
  | .error f => rw [hq] at h; cases h
  | .ok q =>
    rw [hq, Except.bind, fire] at h
    match hr : c.find q e with
    | none => rw [hr] at h; cases h
    | some r =>
      rw [hr] at h
      have hm := List.find?_some hr
      simp only [Bool.and_eq_true, List.contains_iff_mem] at hm
      refine ⟨q, r, rfl, List.mem_of_find?_eq_some hr, hm.1, hm.2, ?_⟩
      by_cases hs : r.actions.any c.stall
      · simp only [hs, if_true] at h
        exact .inl (Except.ok.inj h).symm
      · simp only [hs] at h
        match hp : c.perform r.actions s with
        | .error f => rw [hp] at h; cases h
        | .ok s1 => rw [hp] at h; exact .inr ⟨s1, rfl, h⟩

/-- The analysis of a rule's actions, from what is known at its `start`, ends in a value that is right for the next
state. -/
def passes {α : Type} (start : State → Event → α) (f : α → Action → Option α) (fin : α → State → Bool)
    (r : Rule State Event Action) (q : State) (e : Event) : Bool :=
  (r.actions.foldlM f (start q e)).any fun y => fin y (r.next.getD q)

/-- If the rules pass, an event keeps what the analysis is about. -/
theorem trigger_sound {α : Type} {R : α → σ → Prop} {start : State → Event → α} {f : α → Action → Option α}
    {fin : α → State → Bool} {I : σ → Prop} {s' : σ}
    (hf : ∀ {x a y s s'}, f x a = some y → R x s → c.act a s = .ok s' → R y s')
    (hc : ∀ {r q}, c.getState s = .ok q → r ∈ c.rules → q ∈ r.states → e ∈ r.events → passes start f fin r q e)
    (h0 : ∀ {q}, c.getState s = .ok q → R (start q e) s)
    (hfin : ∀ {y q s1}, R y s1 → fin y q → c.setState s1 q = .ok s' → I s') (hs : I s)
    (h : c.trigger e s = .ok s') : I s' := by
  obtain ⟨q, r, hq, hr, hqr, her, rfl | ⟨s1, hp, h⟩⟩ := trigger_eq_ok h
  · exact hs
  · obtain ⟨y, hy, hfy⟩ := (Option.any_eq_true _ _).1 (hc hq hr hqr her)
    exact hfin (perform_sound hf hy (h0 hq) hp) hfy h

end Controller

end M5.Lib
