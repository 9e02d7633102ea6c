import M5.Lib.Recency

/-!
# Doubly linked lists

The nodes of a doubly linked list in their order, and what moving one node to the front does to the links.
-/

namespace M5.Lib.LinkedList

open Recency

universe u

variable {ι : Type u} [DecidableEq ι] {l : List ι} {b x y : ι} {m i j : Nat}

/-- The links of every node lead to its neighbours. -/
structure Links (prev next : ι → Option ι) (l : List ι) : Prop where
  nodup : l.Nodup
  next_eq : ∀ {k x}, l[k]? = some x → next x = l[k + 1]?
  prev_eq : ∀ {k x}, l[k]? = some x → prev x = if k = 0 then none else l[k - 1]?

omit [DecidableEq ι] in
theorem eq_iff_index (hd : l.Nodup) (hx : l[i]? = some x) (hy : l[j]? = some y) : x = y ↔ i = j := by
  refine ⟨fun he => index_unique hd hx (he ▸ hy), fun he => ?_⟩
  subst he
  exact Option.some.inj (hx.symm.trans hy)

/-- The links of the four nodes concerned, and the list after them. -/
theorem Links.front {prev next prev' next' : ι → Option ι} {a head : ι} (h : Links prev next l)
    (hb : l[m + 1]? = some b) (ha : l[m]? = some a) (h0 : l[0]? = some head)
    (hn : ∀ x, next' x = if x = b then some head else if x = a then next b else next x)
    (hp : ∀ x, prev' x = if x = head then some b else if x = b then none else
      if next b = some x then some a else prev x) : Links prev' next' (front b l) := by
  have hget := getElem?_front h.nodup hb
  have hne : ∀ {i j x y}, l[i]? = some x → l[j]? = some y → i ≠ j → x ≠ y := fun hx hy hij he =>
    hij ((eq_iff_index h.nodup hx hy).1 he)
  have hnb : ∀ {i x}, l[i]? = some x → (next b = some x ↔ i = m + 2) := by
    intro i x hx
    rw [h.next_eq hb]
    exact ⟨index_unique h.nodup hx, fun he => he ▸ hx⟩
  refine ⟨(front_perm (List.mem_of_getElem? hb)).nodup_iff.2 h.nodup, fun {k x} hx => ?_, fun {k x} hx => ?_⟩
  · rw [hget] at hx
    rw [hget, if_neg (Nat.succ_ne_zero k), Nat.add_sub_cancel, hn]
    by_cases hk : k = 0
    · rw [if_pos hk, Option.some_inj] at hx
      rw [if_pos hx.symm, hk, if_pos (by omega), h0]
    · rw [if_neg hk] at hx
      by_cases hkm : k ≤ m + 1
      · -- before the node: it moves back by one, and the last of these is linked to what was behind the node
        rw [if_pos hkm] at hx
        rw [if_neg (hne hx hb (by omega))]
        by_cases hlast : k = m + 1
        · rw [if_pos ((eq_iff_index h.nodup hx ha).2 (by omega)), h.next_eq hb, hlast, if_neg (by omega)]
        · rw [if_neg (hne hx ha (by omega)), h.next_eq hx, if_pos (by omega),
            Nat.sub_add_cancel (by omega)]
      · rw [if_neg hkm] at hx
        rw [if_neg (hne hx hb (by omega)),
          if_neg (hne hx ha (by omega)), h.next_eq hx, if_neg (by omega)]
  · rw [hget] at hx
    rw [hp]
    by_cases hk : k = 0
    · rw [if_pos hk, Option.some_inj] at hx
      rw [if_neg (hx ▸ hne hb h0 (by omega)), if_pos hx.symm, if_pos hk]
    · rw [if_neg hk] at hx
      rw [if_neg hk, hget]
      by_cases hkm : k ≤ m + 1
      · rw [if_pos hkm] at hx
        by_cases hfst : k = 1
        · rw [if_pos ((eq_iff_index h.nodup hx h0).2 (by omega)), if_pos (by omega)]
        · rw [if_neg (hne hx h0 (by omega)),
            if_neg (hne hx hb (by omega)),
            if_neg fun he => by have := (hnb hx).1 he; omega, h.prev_eq hx, if_neg (by omega), if_neg (by omega),
            if_pos (by omega)]
      · rw [if_neg hkm] at hx
        rw [if_neg (hne hx h0 (by omega)),
          if_neg (hne hx hb (by omega))]
        by_cases hnext : k = m + 2
        · rw [if_pos ((hnb hx).2 hnext), hnext, if_neg (by omega), if_pos (by omega), ← ha]
          rfl
        · rw [if_neg fun he => hnext ((hnb hx).1 he), h.prev_eq hx, if_neg hk, if_neg (by omega), if_neg (by omega)]

end M5.Lib.LinkedList
