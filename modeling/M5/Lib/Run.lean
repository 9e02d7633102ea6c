import Mathlib.Logic.Function.Basic
import Mathlib.Data.List.Basic

/-!
# Runs of labelled systems

A system is a relation `step : σ → α → σ → Prop`: from a state, under a label, to a state. `Run step s as t` says that
the labels `as`, taken in order, lead from `s` to `t`.
-/

namespace M5.Lib

open List

section

universe u v w

variable {σ : Type u} {α : Type v} {τ : Type w} {step : σ → α → σ → Prop}

/-- The labels `as`, taken in order from `s`, lead to the last argument. -/
inductive Run (step : σ → α → σ → Prop) (s : σ) : List α → σ → Prop
  | nil : Run step s [] s
  | snoc {as : List α} {t u : σ} {a : α} (h : Run step s as t) (hs : step t a u) : Run step s (as ++ [a]) u

variable {as : List α} {s t : σ}

section

variable (h : Run step s as t)

include h

/-- What holds at the start and is kept by every step holds along every run. -/
theorem Run.invariant {I : σ → Prop} (h0 : I s) (hstep : ∀ {x a y}, I x → step x a y → I y) : I t := by
  induction h with
  | nil => exact h0
  | snoc _ hs ih => exact hstep ih hs

/-- The same for a property of the state and of the labels that led to it. -/
theorem Run.history {I : List α → σ → Prop} (h0 : I [] s)
    (hstep : ∀ {bs x a y}, I bs x → step x a y → I (bs ++ [a]) y) : I as t := by
  induction h with
  | nil => exact h0
  | snoc _ hs ih => exact hstep ih hs

/-- A relation that every step keeps, against one step of the deterministic system `f`, relates the ends of runs. -/
theorem Run.refines {R : σ → τ → Prop} {f : τ → α → τ} {b : τ}
    (h0 : R s b) (hstep : ∀ {x a y c}, R x c → step x a y → R y (f c a)) : R t (as.foldl f b) := by
  induction h with
  | nil => exact h0
  | snoc _ hs ih => rw [foldl_append]; exact hstep ih hs

omit h in
theorem Run.cons {u : σ} {a : α} (hs : step s a t) (h : Run step t as u) : Run step s (a :: as) u := by
  induction h with
  | nil => exact (nil.snoc hs : Run step s ([] ++ [a]) _)
  | snoc _ hs' ih => exact snoc ih hs'

theorem Run.append {u : σ} {bs : List α} (h' : Run step t bs u) : Run step s (as ++ bs) u := by
  induction h' with
  | nil =>
    rw [append_nil]
    exact h
  | snoc _ hs ih =>
    rw [← append_assoc]
    exact ih.snoc hs

theorem Run.mono {step' : σ → α → σ → Prop} (hs : ∀ {x a y}, step x a y → step' x a y) : Run step' s as t := by
  induction h with
  | nil => exact nil
  | snoc _ h ih => exact snoc ih (hs h)

/-- A condition on the labels of a run is one on its steps. -/
theorem Run.restrict {P : α → Prop} (hP : ∀ a ∈ as, P a) : Run (fun x a y => P a ∧ step x a y) s as t := by
  induction h with
  | nil => exact nil
  | snoc _ hs ih =>
    rw [forall_mem_append] at hP
    exact snoc (ih hP.1) ⟨hP.2 _ (mem_singleton_self _), hs⟩

end

/-- Running a fallible step function over the labels gives a run. -/
theorem Run.of_foldlM {ε : Type w} {f : σ → α → Except ε σ} : ∀ {as : List α} {s t : σ}, as.foldlM f s = .ok t →
    Run (fun x a y => f x a = .ok y) s as t
  | [], s, t, h => by
    cases h
    exact nil
  | a :: as, s, t, h => by
    rw [foldlM_cons] at h
    match hx : f s a with
    | .error e => rw [hx] at h; cases h
    | .ok x =>
      rw [hx] at h
      exact cons hx (Run.of_foldlM h)

/-- The computation ends in a value with `P`. -/
def endsIn {ε : Type w} (P : σ → Prop) [∀ t, Decidable (P t)] : Except ε σ → Bool
  | .ok t => P t
  | .error _ => false

/-- Running a fallible step function gives a run to a state that passes the check. -/
theorem Run.exists_of_check {ε : Type w} (f : σ → α → Except ε σ) (hf : ∀ {x a y}, f x a = .ok y → step x a y) (s : σ)
    (as : List α) (P : σ → Prop) [∀ t, Decidable (P t)] (h : endsIn P (as.foldlM f s)) :
    ∃ t, Run step s as t ∧ P t := by
  match hx : as.foldlM f s with
  | .error e => rw [hx] at h; cases h
  | .ok t =>
    rw [hx] at h
    exact ⟨t, (of_foldlM hx).mono hf, of_decide_eq_true h⟩

end

/-! ## Since -/

universe u

variable {α : Type u} {p q p' q' : α → Prop} {l : List α} {x : α}

/-- Some entry satisfies `p`, and all entries after it satisfy `q`. -/
def Since (p q : α → Prop) (l : List α) : Prop :=
  ∃ pre x post, l = pre ++ x :: post ∧ p x ∧ ∀ y ∈ post, q y

theorem since_nil : ¬ Since p q [] := by
  rintro ⟨pre, x, post, h, -⟩
  simp at h

/-- The newest entry is the one, or it satisfies `q` and an older one is. -/
theorem since_snoc : Since p q (l ++ [x]) ↔ p x ∨ (q x ∧ Since p q l) := by
  constructor
  · rintro ⟨pre, y, post, h, hp, hq⟩
    rcases eq_nil_or_concat post with rfl | ⟨post, z, rfl⟩
    · obtain ⟨-, h2⟩ := append_inj' h rfl
      cases h2
      exact .inl hp
    · rw [concat_eq_append, ← cons_append, ← append_assoc] at h
      obtain ⟨h1, h2⟩ := append_inj' h rfl
      cases h2
      exact .inr ⟨hq x (by simp), pre, y, post, h1, hp, fun z hz => hq z (by simp [hz])⟩
  · rintro (hp | ⟨hq, pre, y, post, rfl, hp, hq'⟩)
    · exact ⟨l, x, [], rfl, hp, by simp⟩
    · refine ⟨pre, y, post ++ [x], by simp, hp, fun z hz => ?_⟩
      rcases mem_append.1 hz with hz | hz
      · exact hq' z hz
      · rw [mem_singleton.1 hz]; exact hq

end M5.Lib
