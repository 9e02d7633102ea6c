import Mathlib.Data.List.Basic
import Mathlib.Data.List.Nodup
import Mathlib.Data.List.Perm.Basic
import Mathlib.Algebra.BigOperators.Group.List.Basic
import Mathlib.Algebra.Order.Ring.Int

/-!
# Lists
-/

namespace M5.Lib

open List

/-! ## Who comes next in a line -/

section

universe u

variable {ι : Type u} [DecidableEq ι] {i j : ι} {l : List ι}

/-- The party after `i` in the line. -/
def after : List ι → ι → Option ι
  | a :: b :: l, i => if i = a then some b else after (b :: l) i
  | _, _ => none

@[simp] theorem after_nil : after [] i = none := rfl

@[simp] theorem after_singleton {a : ι} : after [a] i = none := rfl

@[simp] theorem after_head {b : ι} : after (i :: b :: l) i = some b := by simp [after]

theorem after_cons_of_ne {a : ι} (h : i ≠ a) : after (a :: l) i = after l i := by
  cases l with
  | nil => rfl
  | cons b l => simp [after, h]

theorem after_of_notMem : ∀ {l : List ι}, i ∉ l → after l i = none
  | [], _ => rfl
  | a :: l, h => by
    rw [mem_cons, not_or] at h
    rw [after_cons_of_ne h.1, after_of_notMem h.2]

theorem after_concat : ∀ {l : List ι}, l.Nodup → after (l ++ [j]) i = if l.getLast? = some i then some j else after l i
  | [], _ => by simp
  | [a], _ => by simp [after, eq_comm]
  | a :: b :: l, h => by
    have ih := after_concat (nodup_cons.1 h).2
    rw [getLast?_cons_cons]
    rcases eq_or_ne i a with rfl | hne
    · have hl : (b :: l).getLast? ≠ some i := fun hl => (nodup_cons.1 h).1 (mem_of_getLast? hl)
      simp [hl]
    · rw [cons_append, after_cons_of_ne hne, ih, after_cons_of_ne hne]

theorem after_getLast : ∀ {l : List ι}, l.Nodup → l.getLast? = some i → after l i = none
  | [], _, _ => rfl
  | [_], _, _ => rfl
  | a :: b :: l, h, hl => by
    have hne : i ≠ a := fun e => (nodup_cons.1 h).1 (e ▸ mem_of_getLast? hl)
    rw [after_cons_of_ne hne, after_getLast (nodup_cons.1 h).2 hl]

end

/-! ## Taking a message out of turn -/

section

/-- The message number `k`, if there is one, comes to the front. -/
def pick {α : Type} (k : Nat) (l : List α) : Option (α × List α) := l[k]?.map fun a => (a, a :: l.eraseIdx k)

theorem pick_eq {α : Type} {k : Nat} {a : α} {l l' : List α} (h : pick k l = some (a, l')) :
    l'.head? = some a ∧ l'.Perm l := by
  obtain ⟨b, hb, he⟩ := Option.map_eq_some_iff.1 h
  obtain ⟨hk, rfl⟩ := List.getElem?_eq_some_iff.1 hb
  cases he
  exact ⟨rfl, getElem_cons_eraseIdx_perm hk⟩

end

/-! ## Exactly one -/

universe u

variable {α : Type u} {f : α → Bool} {l : List α}

/-- In a list in which one element passes a test, every other one that does is the same. -/
theorem exists_of_countP_eq_one (h : l.countP f = 1) : ∃ x ∈ l, f x ∧ ∀ y ∈ l, f y → y = x := by
  rw [countP_eq_length_filter, length_eq_one_iff] at h
  obtain ⟨x, hx⟩ := h
  have hmem : ∀ {y}, y ∈ l ∧ f y ↔ y = x := by
    intro y
    rw [← mem_filter, hx, mem_singleton]
  obtain ⟨hl, hf⟩ := hmem.2 rfl
  exact ⟨x, hl, hf, fun y hy hfy => hmem.1 ⟨hy, hfy⟩⟩

theorem sum_toInt (f : α → Bool) : ∀ l : List α, (l.map fun a => (f a).toInt).sum = l.countP f
  | [] => rfl
  | a :: l => by
    rw [map_cons, sum_cons, sum_toInt f l, countP_cons]
    cases f a
    · simp
    · simp [Int.add_comm]

theorem countP_range (f : α → Bool) : ∀ l : List α,
    (range l.length).countP (fun k => l[k]?.elim false f) = l.countP f
  | [] => rfl
  | a :: l => by
    rw [length_cons, range_succ_eq_map, countP_cons, countP_map, countP_cons,
      ← countP_range f l]
    rfl

end M5.Lib
