import M5.Lib.Run
import Mathlib.Data.List.InsertIdx
import Mathlib.Data.List.Nodup

/-!
# Lists in the order of recency

A list is kept with the item moved last in front.
-/

namespace M5.Lib.Recency

open List

universe u v

section Front

variable {β : Type v} [DecidableEq β] {l : List β} {b x : β} {m n : Nat}

/-- The item at the front, the others in their order. -/
def front (b : β) (l : List β) : List β := b :: l.erase b

omit [DecidableEq β] in
theorem index_unique (hd : l.Nodup) (hm : l[m]? = some x) (hn : l[n]? = some x) : m = n := by
  have hlt : m < l.length := (List.getElem?_eq_some_iff.1 hm).1
  exact (getElem?_inj hlt hd).1 (hm.trans hn.symm)

omit [DecidableEq β] in
theorem mem_take_iff (hd : l.Nodup) (hm : l[m]? = some x) : x ∈ l.take n ↔ m < n := by
  rw [mem_iff_getElem?]
  constructor
  · rintro ⟨k, hk⟩
    rw [getElem?_take] at hk
    split_ifs at hk with hlt
    exact index_unique hd hm hk ▸ hlt
  · intro hlt
    exact ⟨m, by rw [getElem?_take, if_pos hlt, hm]⟩

theorem erase_eq_eraseIdx (hd : l.Nodup) (hm : l[m]? = some b) : l.erase b = l.eraseIdx m := by
  obtain ⟨hlt, rfl⟩ := List.getElem?_eq_some_iff.1 hm
  rw [erase_eq_eraseIdx_of_idxOf (hd.idxOf_getElem m hlt)]

theorem getElem?_front (hd : l.Nodup) (hm : l[m]? = some b) (k : Nat) :
    (front b l)[k]? = if k = 0 then some b else if k ≤ m then l[k - 1]? else l[k]? := by
  unfold front
  rw [erase_eq_eraseIdx hd hm]
  cases k with
  | zero => rfl
  | succ k =>
    rw [getElem?_cons_succ, getElem?_eraseIdx]
    rfl

theorem front_perm (hb : b ∈ l) : (front b l).Perm l := (perm_cons_erase hb).symm

theorem front_of_head (h : l[0]? = some b) : front b l = l := by
  cases l with
  | nil => cases h
  | cons y l =>
    cases Option.some.inj h
    unfold front
    rw [erase_cons_head]

theorem mem_front : x ∈ front b l ↔ x = b ∨ x ∈ l := by
  unfold front
  by_cases hx : x = b
  · simp [hx]
  · simp [hx, mem_erase_of_ne hx]

/-- A map that tells the items of the list apart goes with the move. -/
theorem map_front {γ : Type u} [DecidableEq γ] {f : β → γ} (hd : (l.map f).Nodup) (hb : b ∈ l) :
    (front b l).map f = front (f b) (l.map f) := by
  obtain ⟨m, hm⟩ := mem_iff_getElem?.1 hb
  have hf : (l.map f)[m]? = some (f b) := by rw [getElem?_map, hm]; rfl
  rw [front, front, map_cons, erase_eq_eraseIdx (.of_map f hd) hm, erase_eq_eraseIdx hd hf, eraseIdx_map]

theorem take_erase (l : List β) (b : β) (n : Nat) : (l.erase b).take n = ((l.take (n + 1)).erase b).take n := by
  induction l generalizing n with
  | nil => rfl
  | cons x l ih =>
    rw [take_succ_cons]
    by_cases hx : x = b
    · rw [hx, erase_cons_head, erase_cons_head, take_take, Nat.min_self]
    · rw [erase_cons_tail (by simpa using hx), erase_cons_tail (by simpa using hx)]
      cases n with
      | zero => rfl
      | succ n => rw [take_succ_cons, take_succ_cons, ← ih n]

/-- The first items of a list change as a list of that many items does: what moves to the front of the one moves to the
front of the other, which gives up its last item for it. -/
theorem take_front (l : List β) (b : β) (n : Nat) : (front b l).take n = (front b (l.take n)).take n := by
  cases n with
  | zero => rfl
  | succ n =>
    unfold front
    rw [take_succ_cons, take_succ_cons, ← take_erase]

/-- Moving an item to the front leaves the order of the others, and those behind a part stay behind it. -/
theorem front_append {r : List β} (hd : (l ++ r).Nodup) : front b (l ++ r) = front b l ++ r.erase b := by
  unfold front
  rw [erase_append, cons_append]
  split
  · rename_i hb
    have hr : b ∉ r := fun hr => (nodup_append.1 hd).2.2 b hb b hr rfl
    rw [erase_of_not_mem hr]
  · rename_i hb
    rw [erase_of_not_mem hb]

end Front

section Ordered

variable {α : Type u} {β : Type v} (moves : α → β → Prop)

/-- No item has been moved since the last move of an item before it. -/
def Ordered (h : List α) (l : List β) : Prop :=
  l.Pairwise fun x y => ¬ Since (fun e => moves e y) (fun e => ¬ moves e x) h

variable {moves} {h : List α} {l : List β} {e : α} {b x : β}

theorem Ordered.init (l : List β) : Ordered moves [] l :=
  pairwise_of_forall fun _ _ => since_nil

theorem Ordered.skip (ho : Ordered moves h l) (hn : ∀ x ∈ l, ¬ moves e x) : Ordered moves (h ++ [e]) l := by
  refine .imp_of_mem (fun {x y} _ hy hxy => ?_) ho
  rw [since_snoc, not_or]
  exact ⟨hn y hy, fun hs => hxy hs.2⟩

theorem Ordered.front [DecidableEq β] (ho : Ordered moves h l) (hd : l.Nodup) (hm : ∀ x, moves e x ↔ x = b) :
    Ordered moves (h ++ [e]) (front b l) := by
  have hne : ∀ y ∈ l.erase b, y ≠ b := fun y hy => (hd.mem_erase_iff.1 hy).1
  refine pairwise_cons.2 ⟨fun y hy => ?_, ?_⟩
  · rw [since_snoc, not_or]
    exact ⟨fun h' => hne y hy ((hm y).1 h'), fun h' => h'.1 ((hm b).2 rfl)⟩
  · have hrest : Ordered moves h (l.erase b) := .sublist erase_sublist ho
    exact hrest.skip fun x hx h' => hne x hx ((hm x).1 h')

theorem Ordered.last (ho : Ordered moves h l) (hl : l.getLast? = some b) (hx : x ∈ l) (hne : x ≠ b) :
    ¬ Since (fun e => moves e b) (fun e => ¬ moves e x) h := by
  obtain ⟨l', rfl⟩ := getLast?_eq_some_iff.1 hl
  rcases mem_append.1 hx with hx | hx
  · exact (pairwise_append.1 ho).2.2 x hx b (mem_singleton.2 rfl)
  · exact absurd (mem_singleton.1 hx) hne

end Ordered

end M5.Lib.Recency
