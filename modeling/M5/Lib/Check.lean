import Mathlib.Algebra.Order.Ring.Int

/-!
# Checked computations

Code that stops on a failed assertion is a computation in `Except ε`. `ensure f p` is the assertion of `p`, which stops
with `f`. The lemmas turn "the computation ends in `r`" into the conditions met on the way.
-/

namespace M5.Lib

section

universe u v

variable {ε : Type u} {α β : Type v}

/-- Go on if `p` holds, stop with the fault `f` otherwise. -/
def ensure (f : ε) (p : Prop) [Decidable p] : Except ε PUnit :=
  if p then .ok ⟨⟩ else .error f

/-- Whether a computation stops with the fault `f` is decided without a comparison of values. -/
instance decidableEqError [DecidableEq ε] (f : ε) : ∀ x : Except ε α, Decidable (x = .error f)
  | .ok _ => .isFalse nofun
  | .error e => decidable_of_iff (e = f) ⟨congrArg _, Except.error.inj⟩

variable {x : Except ε α} {g : α → Except ε β} {r : β} {f : ε} {p : Prop}

theorem bind_eq_ok : (x >>= g) = .ok r ↔ ∃ a, x = .ok a ∧ g a = .ok r := by
  cases x with
  | error e => exact ⟨fun h => (by cases h), by rintro ⟨a, h, -⟩; cases h⟩
  | ok a => exact ⟨fun h => ⟨a, rfl, h⟩, by rintro ⟨a', h, h'⟩; cases h; exact h'⟩

/-- What has ended has ended at every step. -/
theorem of_bind (h : (x >>= g) = .ok r) : ∃ a, x = .ok a ∧ g a = .ok r :=
  bind_eq_ok.1 h

/-- The same for a last step that cannot fail. -/
theorem of_map {g : α → β} (h : (x >>= fun a => .ok (g a)) = .ok r) : ∃ a, x = .ok a ∧ g a = r := by
  obtain ⟨a, hx, h⟩ := of_bind h
  exact ⟨a, hx, Except.ok.inj h⟩

@[simp] theorem ok_bind (a : α) (g : α → Except ε β) : ((.ok a : Except ε α) >>= g) = g a := rfl

theorem ensure_of [Decidable p] (h : p) : (ensure f p : Except ε PUnit.{v + 1}) = .ok ⟨⟩ := if_pos h

theorem ensure_bind [Decidable p] {g : PUnit → Except ε β} (h : p) : (ensure f p >>= g) = g ⟨⟩ := by
  rw [ensure_of h, ok_bind]

/-- A checked computation ends in `r` iff the assertion holds and the rest ends in `r`. -/
theorem ensure_bind_eq_ok [Decidable p] {g : PUnit → Except ε β} : (ensure f p >>= g) = .ok r ↔ p ∧ g ⟨⟩ = .ok r := by
  by_cases h : p
  · rw [ensure_bind h]
    exact ⟨fun h' => ⟨h, h'⟩, And.right⟩
  · rw [ensure, if_neg h]
    exact ⟨fun h' => (by cases h'), fun h' => absurd h'.1 h⟩

theorem of_ensure [Decidable p] {g : PUnit → Except ε β} (h : (ensure f p >>= g) = .ok r) : p ∧ g ⟨⟩ = .ok r :=
  ensure_bind_eq_ok.1 h

theorem of_check [Decidable p] {a : β} (h : (ensure f p >>= fun _ => .ok a) = .ok r) : p ∧ a = r := by
  obtain ⟨hp, h⟩ := of_ensure h
  exact ⟨hp, Except.ok.inj h⟩

/-- If the computation ends, it ends in a value with `I`. -/
structure Ends (I : α → Prop) (x : Except ε α) : Prop where
  of_eq : ∀ {r}, x = .ok r → I r

section ends

variable {I : β → Prop}

theorem Ends.ok {r : β} (h : I r) : Ends I (.ok r : Except ε β) := ⟨fun he => Except.ok.inj he ▸ h⟩

theorem Ends.bind {x : Except ε α} {g : α → Except ε β} (h : ∀ a, Ends I (g a)) : Ends I (x >>= g) := by
  refine ⟨fun hr => ?_⟩
  obtain ⟨a, -, hr⟩ := of_bind hr
  exact (h a).of_eq hr

theorem Ends.mono {J : β → Prop} {x : Except ε β} (h : Ends J x) (hi : ∀ r, J r → I r) : Ends I x :=
  ⟨fun hr => hi _ (h.of_eq hr)⟩

theorem Ends.ite {p : Prop} [Decidable p] {x y : Except ε β} (hx : Ends I x) (hy : Ends I y) :
    Ends I (if p then x else y) := by
  split
  · exact hx
  · exact hy

end ends

/-- A loop that succeeds: `I` holds of the elements done and the state, and each turn ends and keeps it. -/
theorem foldlM_ok {σ : Type v} {I : List α → σ → Prop} {f : σ → α → Except ε σ} {l : List α} {s : σ} (h0 : I [] s)
    (hstep : ∀ {done a rest s}, done ++ a :: rest = l → I done s → ∃ s', f s a = .ok s' ∧ I (done ++ [a]) s') :
    ∃ s', l.foldlM f s = .ok s' ∧ I l s' := by
  suffices H : ∀ rest done s, done ++ rest = l → I done s → ∃ s', rest.foldlM f s = .ok s' ∧ I l s' from
    H l [] s rfl h0
  intro rest
  induction rest with
  | nil =>
    intro done s hl hs
    rw [List.append_nil] at hl
    exact ⟨s, rfl, hl ▸ hs⟩
  | cons a rest ih =>
    intro done s hl hs
    obtain ⟨s1, h1, hs1⟩ := hstep hl hs
    rw [List.foldlM_cons, h1]
    exact ih (done ++ [a]) s1 (by rw [List.append_assoc]; exact hl) hs1

end

/-! ## Outcomes -/

universe u v

variable {ε : Type u} {α β σ : Type v} {safe : ε → Prop}

/-- The computation ends in a value with `Q`, or stops with a safe fault. -/
def Yields (safe : ε → Prop) (Q : α → Prop) : Except ε α → Prop
  | .ok a => Q a
  | .error e => safe e

variable {x : Except ε α}
  {Q : α → Prop}

section

variable (h : Yields safe Q x)

include h

theorem Yields.of_eq {a : α} (hx : x = .ok a) : Q a := by
  rw [hx] at h
  exact h

theorem Yields.error {e : ε} (hx : x = .error e) : safe e := by
  rw [hx] at h
  exact h

theorem Yields.mono {Q' : α → Prop} (hq : ∀ a, Q a → Q' a) : Yields safe Q' x := by
  cases x with
  | ok a => exact hq a h
  | error e => exact h

theorem Yields.weaken {safe' : ε → Prop} (hs : ∀ e, safe e → safe' e) : Yields safe' Q x := by
  cases x with
  | ok a => exact h
  | error e => exact hs e h

theorem Yields.with_eq : Yields safe (fun a => Q a ∧ x = .ok a) x := by
  cases x with
  | ok a => exact ⟨h, rfl⟩
  | error e => exact h

end

theorem yields_eq (x : Except ε α) : Yields (fun _ => True) (fun a => x = .ok a) x := by
  cases x with
  | ok a => exact rfl
  | error e => trivial

theorem Yields.bind {P : α → Prop} {Q : β → Prop} {g : α → Except ε β} (h : Yields safe P x)
    (hg : ∀ a, P a → Yields safe Q (g a)) : Yields safe Q (x >>= g) := by
  cases x with
  | ok a => exact hg a h
  | error e => exact h

theorem Yields.ite {p : Prop} [Decidable p] {y : Except ε α} (hx : p → Yields safe Q x)
    (hy : ¬ p → Yields safe Q y) : Yields safe Q (if p then x else y) := by
  split
  · next h => exact hx h
  · next h => exact hy h

theorem Yields.ensure {f : ε} {p : Prop} [Decidable p] {Q : β → Prop} {g : PUnit → Except ε β} (hf : ¬ p → safe f)
    (hg : p → Yields safe Q (g ⟨⟩)) : Yields safe Q (Lib.ensure f p >>= g) := by
  by_cases h : p
  · rw [ensure_bind h]
    exact hg h
  · rw [Lib.ensure, if_neg h]
    exact hf h

theorem Yields.foldlM {I : σ → Prop} {f : σ → α → Except ε σ} (hstep : ∀ s a, I s → Yields safe I (f s a)) :
    ∀ {l : List α} {s : σ}, I s → Yields safe I (l.foldlM f s)
  | [], _, hs => hs
  | a :: l, s, hs => by
    exact (hstep s a hs).bind fun _ h => Yields.foldlM hstep h

/-! ## Computations with fewer faults -/

section lift

universe w

variable {φ : Type w}

/-- A computation with the faults `φ` among those with more. -/
def lift (f : φ → ε) : Except φ α → Except ε α
  | .ok a => .ok a
  | .error e => .error (f e)

@[simp] theorem lift_eq_ok {f : φ → ε} {x : Except φ α} {a : α} : lift f x = .ok a ↔ x = .ok a := by
  cases x with
  | ok b => exact ⟨fun h => congrArg _ (Except.ok.inj h), fun h => congrArg _ (Except.ok.inj h)⟩
  | error e => exact ⟨nofun, nofun⟩

theorem Yields.lift {f : φ → ε} (hf : ∀ e, safe (f e)) (x : Except φ α) :
    Yields safe (fun a => x = .ok a) (Lib.lift f x) := by
  cases x with
  | ok a => exact rfl
  | error e => exact hf e

end lift

end M5.Lib
