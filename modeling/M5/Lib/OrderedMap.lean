import Mathlib.Data.List.TakeWhile
import Mathlib.Order.Lattice

/-!
# Ordered maps

A `std::map` is the list of its elements in the order of their keys, no two of them with one key.
-/

namespace M5.Lib.OrderedMap

open List

universe u v

variable {α : Type u} {K : Type v} [LinearOrder K] (key : α → K)

/-- The elements are in the order of their keys. -/
def Sorted (l : List α) : Prop := l.Pairwise (fun a b => key a < key b)

/-- The elements before `upper_bound(k)`. -/
def upTo (k : K) (l : List α) : List α := l.takeWhile (fun a => decide (key a ≤ k))

/-- The elements from `upper_bound(k)` on. -/
def after (k : K) (l : List α) : List α := l.dropWhile (fun a => decide (key a ≤ k))

/-- Insertion, which leaves a map with an element of the same key as it is. -/
def put (a : α) (l : List α) : List α :=
  if ∃ b ∈ l, key b = key a then l else upTo key (key a) l ++ a :: after key (key a) l

variable {key} {k : K} {l : List α} {a b : α}

theorem upTo_append_after : upTo key k l ++ after key k l = l := takeWhile_append_dropWhile

theorem key_le_of_mem_upTo (h : a ∈ upTo key k l) : key a ≤ k :=
  of_decide_eq_true (mem_takeWhile_imp (p := fun a => decide (key a ≤ k)) h)

theorem Sorted.lt_of_mem_after : ∀ {l : List α}, Sorted key l → a ∈ after key k l → k < key a
  | [], _, h => nomatch h
  | b :: l, hs, h => by
    obtain ⟨hb, hl⟩ := pairwise_cons.1 hs
    unfold after at h
    by_cases hk : key b ≤ k
    · rw [dropWhile_cons_of_pos (by simpa using hk)] at h
      exact Sorted.lt_of_mem_after hl h
    · rw [dropWhile_cons_of_neg (by simpa using hk)] at h
      rcases mem_cons.1 h with rfl | h
      · exact not_le.1 hk
      · exact (not_le.1 hk).trans (hb a h)

theorem mem_of_mem_upTo (h : a ∈ upTo key k l) : a ∈ l := (takeWhile_sublist _).subset h

theorem mem_of_mem_after (h : a ∈ after key k l) : a ∈ l := (dropWhile_sublist _).subset h

theorem mem_upTo_or_after (h : a ∈ l) : a ∈ upTo key k l ∨ a ∈ after key k l := by
  have hl : upTo key k l ++ after key k l = l := upTo_append_after
  rw [← hl] at h
  exact mem_append.1 h

section

variable (hs : Sorted key l)

include hs

theorem Sorted.mem_upTo_iff : a ∈ upTo key k l ↔ a ∈ l ∧ key a ≤ k := by
  refine ⟨fun h => ⟨mem_of_mem_upTo h, key_le_of_mem_upTo h⟩, fun ⟨h, hk⟩ => ?_⟩
  exact (mem_upTo_or_after h).resolve_right fun h' => absurd (hs.lt_of_mem_after h') (not_lt.2 hk)

theorem Sorted.mem_after_iff : a ∈ after key k l ↔ a ∈ l ∧ k < key a := by
  refine ⟨fun h => ⟨mem_of_mem_after h, hs.lt_of_mem_after h⟩, fun ⟨h, hk⟩ => ?_⟩
  exact (mem_upTo_or_after h).resolve_left fun h' => absurd (key_le_of_mem_upTo h') (not_le.2 hk)

/-- The last element before `upper_bound` has the greatest key of those up to `k`. -/
theorem Sorted.le_last (h : (upTo key k l).getLast? = some b) (ha : a ∈ l) (hk : key a ≤ k) :
    a = b ∨ key a < key b := by
  have hmem := hs.mem_upTo_iff.2 ⟨ha, hk⟩
  have hsu : Sorted key (upTo key k l) := .sublist (takeWhile_sublist _) hs
  obtain ⟨l', hl'⟩ := getLast?_eq_some_iff.1 h
  rw [hl'] at hmem hsu
  rcases mem_append.1 hmem with h | h
  · exact .inr ((pairwise_append.1 hsu).2.2 a h b (mem_singleton.2 rfl))
  · exact .inl (mem_singleton.1 h)

/-- The first element from `upper_bound` on has the least key of those after `k`. -/
theorem Sorted.head_le {m : List α} (h : after key k l = b :: m) (ha : a ∈ l) (hk : k < key a) :
    a = b ∨ key b < key a := by
  have hmem := hs.mem_after_iff.2 ⟨ha, hk⟩
  have hsa : Sorted key (after key k l) := .sublist (dropWhile_sublist _) hs
  rw [h] at hmem hsa
  rcases mem_cons.1 hmem with h | h
  · exact .inl h
  · exact .inr ((pairwise_cons.1 hsa).1 a h)

omit hs in
theorem mem_put (hn : ¬ ∃ b ∈ l, key b = key a) : b ∈ put key a l ↔ b = a ∨ b ∈ l := by
  unfold put
  rw [if_neg hn, mem_append, mem_cons]
  constructor
  · rintro (h | h | h)
    · exact .inr (mem_of_mem_upTo h)
    · exact .inl h
    · exact .inr (mem_of_mem_after h)
  · rintro (h | h)
    · exact .inr (.inl h)
    · exact (mem_upTo_or_after h).imp_right .inr

theorem Sorted.put : Sorted key (put key a l) := by
  unfold OrderedMap.put
  split
  · exact hs
  · rename_i hn
    refine pairwise_append.2 ⟨hs.sublist (takeWhile_sublist _),
      pairwise_cons.2 ⟨fun b hb => hs.lt_of_mem_after hb, hs.sublist (dropWhile_sublist _)⟩, ?_⟩
    intro b hb c hc
    have hba : key b < key a :=
      lt_of_le_of_ne (key_le_of_mem_upTo hb) fun he => hn ⟨b, mem_of_mem_upTo hb, he⟩
    rcases mem_cons.1 hc with rfl | hc
    · exact hba
    · exact hba.trans (hs.lt_of_mem_after hc)

end

end M5.Lib.OrderedMap
