import Mathlib.Data.List.Perm.Basic
import Mathlib.Data.List.Nodup

/-!
# Items that are handed over

Items are created, wait, are accepted by another party, and are there until that party either gives them back, to wait
again, or is done with them. `Custody` records where the items are and what has happened to them.
-/

namespace M5.Lib

open List

universe u

variable {α : Type u}

structure Custody (α : Type u) where
  created : List α
  waiting : List α
  out : List α
  done : List α
  accepted : List α
  returned : List α

namespace Custody

variable [DecidableEq α]

/-- Every item is in exactly one place, and has been accepted once more than it was given back, unless it waits. -/
structure Exact (c : Custody α) : Prop where
  nodup : c.created.Nodup
  place : ∀ p, c.created.count p = c.waiting.count p + c.out.count p + c.done.count p
  account : ∀ p, c.accepted.count p = c.returned.count p + c.out.count p + c.done.count p

variable (c : Custody α) (p : α)

/-- A new item waits behind the others. -/
def create : Custody α := { c with created := c.created ++ [p], waiting := c.waiting ++ [p] }

/-- A waiting item is accepted. -/
def accept : Custody α :=
  { c with waiting := c.waiting.erase p, out := c.out ++ [p], accepted := c.accepted ++ [p] }

/-- An item comes back, and waits before the others. -/
def giveBack : Custody α :=
  { c with waiting := p :: c.waiting, out := c.out.erase p, returned := c.returned ++ [p] }

/-- The other party is done with an item. -/
def finish : Custody α := { c with out := c.out.erase p, done := c.done ++ [p] }

namespace Exact

variable {c : Custody α} {p : α}

theorem count_erase_add {l : List α} (h : p ∈ l) (q : α) : (l.erase p).count q + [p].count q = l.count q := by
  rw [Nat.add_comm, ← count_append]
  exact (perm_cons_erase h).symm.count_eq q

section

variable (h : c.Exact)

include h

theorem create (hp : p ∉ c.created) : (c.create p).Exact where
  nodup := nodup_append.2 ⟨h.nodup, nodup_singleton p, by
    intro a ha b hb hab
    rw [mem_singleton.1 hb] at hab
    exact hp (hab ▸ ha)⟩
  place := by
    intro q
    have := h.place q
    simp only [Custody.create, count_append]
    omega
  account := h.account

theorem accept (hp : p ∈ c.waiting) : (c.accept p).Exact where
  nodup := h.nodup
  place := by
    intro q
    have := h.place q
    have := count_erase_add hp q
    simp only [Custody.accept, count_append]
    omega
  account := by
    intro q
    have := h.account q
    simp only [Custody.accept, count_append]
    omega

theorem giveBack (hp : p ∈ c.out) : (c.giveBack p).Exact where
  nodup := h.nodup
  place := by
    intro q
    have := h.place q
    have := count_erase_add hp q
    have hc : (p :: c.waiting).count q = [p].count q + c.waiting.count q := by
      rw [← count_append, singleton_append]
    simp only [Custody.giveBack, hc]
    omega
  account := by
    intro q
    have := h.account q
    have := count_erase_add hp q
    simp only [Custody.giveBack, count_append]
    omega

theorem finish (hp : p ∈ c.out) : (c.finish p).Exact where
  nodup := h.nodup
  place := by
    intro q
    have := h.place q
    have := count_erase_add hp q
    simp only [Custody.finish, count_append]
    omega
  account := by
    intro q
    have := h.account q
    have := count_erase_add hp q
    simp only [Custody.finish, count_append]
    omega

theorem perm : c.created.Perm (c.waiting ++ c.out ++ c.done) := by
  rw [perm_iff_count]
  intro q
  rw [count_append, count_append]
  exact h.place q

theorem count_eq_one (hp : p ∈ c.created) : c.waiting.count p + c.out.count p + c.done.count p = 1 := by
  rw [← h.place p]
  exact count_eq_one_of_mem h.nodup hp

/-- An item was accepted once, and once more for each time that it came back; but it may wait. -/
theorem accepted_eq (hp : p ∈ c.created) :
    c.accepted.count p = c.returned.count p + if p ∈ c.waiting then 0 else 1 := by
  have h1 := h.count_eq_one hp
  have h2 := h.account p
  split
  · next hw =>
    have := count_pos_iff.2 hw
    omega
  · next hw =>
    have := count_eq_zero_of_not_mem hw
    omega

end

end Exact

end Custody

end M5.Lib
