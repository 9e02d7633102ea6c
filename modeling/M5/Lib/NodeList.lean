import Mathlib.Data.List.Perm.Basic
import Mathlib.Data.List.Nodup

/-!
# Lists of nodes

A `std::list` whose iterators are kept elsewhere: every node has an identity, which is what an iterator denotes. New
nodes get fresh identities, so the identities also say which node is older.
-/

namespace M5.Lib

open List

universe u

structure Node (α : Type u) where
  id : Nat
  val : α

namespace NodeList

variable {α : Type u}

/-- Removal through an iterator, which must denote a node of the list. -/
def erase (l : List (Node α)) (it : Nat) : Option (List (Node α)) :=
  if ∃ n ∈ l, n.id = it then some (l.filter fun n => decide (n.id ≠ it)) else none

/-- A loop that inserts before the first node that satisfies `p`. -/
def insertBefore (p : Node α → Bool) (n : Node α) : List (Node α) → Option (List (Node α))
  | [] => none
  | x :: l => if p x then some (n :: x :: l) else (insertBefore p n l).map (x :: ·)

variable {l : List (Node α)} {n : Node α} {p : Node α → Bool}

/-- The nodes have different identities. -/
def Distinct (l : List (Node α)) : Prop := (l.map Node.id).Nodup

theorem Distinct.perm_erase : ∀ {l : List (Node α)}, Distinct l → n ∈ l →
    l.Perm (n :: l.filter fun x => decide (x.id ≠ n.id))
  | x :: l, hd, hn => by
    obtain ⟨hx, hl⟩ := nodup_cons.1 (hd : ((x :: l).map Node.id).Nodup)
    have hne : ∀ y ∈ l, y.id ≠ x.id := fun y hy he => hx (he ▸ mem_map_of_mem hy)
    rcases mem_cons.1 hn with rfl | hn
    · have hall : l.filter (fun y => decide (y.id ≠ n.id)) = l :=
        filter_eq_self.2 fun y hy => decide_eq_true (hne y hy)
      rw [filter_cons_of_neg (by simp), hall]
    · rw [filter_cons_of_pos (by simpa using (hne n hn).symm)]
      exact ((Distinct.perm_erase hl hn).cons x).trans (.swap n x _)

theorem Distinct.filter (hd : Distinct l) (q : Node α → Bool) : Distinct (l.filter q) :=
  (Sublist.map Node.id filter_sublist).nodup hd

theorem insertBefore_eq : ∀ {l : List (Node α)}, (∃ x ∈ l, p x) → ∃ l₁ x l₂, l = l₁ ++ x :: l₂ ∧
    (∀ y ∈ l₁, p y = false) ∧ p x ∧ insertBefore p n l = some (l₁ ++ n :: x :: l₂)
  | [], h => by
    obtain ⟨x, hx, -⟩ := h
    cases hx
  | x :: l, h => by
    rw [insertBefore]
    cases hp : p x with
    | true => exact ⟨[], x, l, rfl, nofun, hp, rfl⟩
    | false =>
      have hl : ∃ y ∈ l, p y := by
        obtain ⟨y, hy, hpy⟩ := h
        rcases mem_cons.1 hy with rfl | hy
        · rw [hp] at hpy
          cases hpy
        · exact ⟨y, hy, hpy⟩
      obtain ⟨l₁, z, l₂, rfl, h₁, hz, he⟩ := insertBefore_eq hl
      refine ⟨x :: l₁, z, l₂, rfl, fun y hy => ?_, hz, by rw [he]; rfl⟩
      rcases mem_cons.1 hy with rfl | hy
      · exact hp
      · exact h₁ y hy

/-- The iterators kept with the values denote their own nodes; `next` is the next fresh identity. -/
structure Tracked (iter : α → Nat) (next : Nat) (l : List (Node α)) : Prop where
  distinct : Distinct l
  iter : ∀ n ∈ l, iter n.val = n.id
  fresh : ∀ n ∈ l, n.id < next

section Tracked

variable {iter iter' : α → Nat} {next next' : Nat} {l₁ l₂ : List (Node α)} {a : α}

theorem Tracked.nil : Tracked iter next ([] : List (Node α)) := ⟨nodup_nil, nofun, nofun⟩

theorem Tracked.congr (h : Tracked iter next l) (hi : ∀ n ∈ l, iter' n.val = iter n.val) (hn : next ≤ next') :
    Tracked iter' next' l :=
  ⟨h.distinct, fun n hl => (hi n hl).trans (h.iter n hl), fun n hl => Nat.lt_of_lt_of_le (h.fresh n hl) hn⟩

theorem Tracked.insert (h : Tracked iter next (l₁ ++ l₂)) (ha : iter a = next) :
    Tracked iter (next + 1) (l₁ ++ ⟨next, a⟩ :: l₂) := by
  have hp : (l₁ ++ ⟨next, a⟩ :: l₂).Perm (⟨next, a⟩ :: (l₁ ++ l₂)) := perm_middle
  refine ⟨?_, fun n hn => ?_, fun n hn => ?_⟩
  · refine (hp.map Node.id).nodup_iff.2 (nodup_cons.2 ⟨fun hm => ?_, h.distinct⟩)
    obtain ⟨n, hn, he⟩ := mem_map.1 hm
    exact absurd (h.fresh n hn) (he ▸ Nat.lt_irrefl next)
  · rcases mem_cons.1 (hp.mem_iff.1 hn) with rfl | hn
    · exact ha
    · exact h.iter n hn
  · rcases mem_cons.1 (hp.mem_iff.1 hn) with rfl | hn
    · exact Nat.lt_succ_self next
    · exact Nat.lt_succ_of_lt (h.fresh n hn)

theorem Tracked.erase (h : Tracked iter next l) (ha : a ∈ l.map Node.val) : ∃ l', erase l (iter a) = some l' ∧
    (l.map Node.val).Perm (a :: l'.map Node.val) ∧ l'.Sublist l ∧ Tracked iter next l' := by
  obtain ⟨n, hn, rfl⟩ := mem_map.1 ha
  have hs : (l.filter fun x => decide (x.id ≠ n.id)).Sublist l := filter_sublist
  refine ⟨_, by rw [h.iter n hn]; exact if_pos ⟨n, hn, rfl⟩, ?_, hs, ?_⟩
  · exact (h.distinct.perm_erase hn).map Node.val
  · exact ⟨h.distinct.filter _, fun m hm => h.iter m (hs.subset hm), fun m hm => h.fresh m (hs.subset hm)⟩

end Tracked

end NodeList

end M5.Lib
