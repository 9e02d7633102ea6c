import Mathlib.Data.List.Basic

/-!
# Linked lists in a heap

A heap of nodes is seen only through its link functions. `Chain next p l` says that following `next` from the pointer
`p` visits exactly the nodes `l`, in order, and then meets the null pointer. `Grid across down p bs` is the list of
lists: the tops of the lists `bs` are linked by `across`, and below each top the rest of its list hangs on `down`.
Only the `across` links of the tops are read, so the links of the other nodes may be anything.
-/

namespace M5.Lib

universe u

variable {P : Type u} {next next' across across' down down' : P → Option P} {p : Option P}

/-- Following `next` from `p` visits exactly the list, in order, and then ends. -/
def Chain (next : P → Option P) : Option P → List P → Prop
  | p, [] => p = none
  | p, x :: l => p = some x ∧ Chain next (next x) l

theorem Chain.congr : ∀ {l : List P} {p : Option P}, Chain next p l → (∀ x ∈ l, next' x = next x) → Chain next' p l
  | [], _, h, _ => h
  | x :: l, _, h, he => by
    refine ⟨h.1, ?_⟩
    rw [he x (by simp)]
    exact Chain.congr h.2 (fun y hy => he y (by simp [hy]))

/-- Tops linked by `across`, each list hanging on `down` below its top. -/
def Grid (across down : P → Option P) : Option P → List (List P) → Prop
  | p, [] => p = none
  | _, [] :: _ => False
  | p, (x :: l) :: bs => p = some x ∧ Chain down (down x) l ∧ Grid across down (across x) bs

@[simp] theorem grid_nil : Grid across down p [] ↔ p = none := by unfold Grid; rfl

@[simp] theorem grid_nil_cons {bs : List (List P)} : Grid across down p ([] :: bs) ↔ False := by unfold Grid; rfl

@[simp] theorem grid_cons {x : P} {l : List P} {bs : List (List P)} :
    Grid across down p ((x :: l) :: bs) ↔ p = some x ∧ Chain down (down x) l ∧ Grid across down (across x) bs := by
  conv_lhs => unfold Grid

theorem Grid.congr : ∀ {bs : List (List P)} {p : Option P}, Grid across down p bs →
    (∀ x ∈ bs.flatten, across' x = across x ∧ down' x = down x) → Grid across' down' p bs
  | [], _, h, _ => by simpa using h
  | [] :: _, _, h, _ => by simp at h
  | (x :: l) :: bs, _, h, he => by
    have hx := he x (by simp)
    refine ⟨h.1, ?_, ?_⟩
    · rw [hx.2]
      exact h.2.1.congr (fun y hy => (he y (by simp [hy])).2)
    · rw [hx.1]
      exact Grid.congr h.2.2 (fun y hy => he y (by simp only [List.flatten_cons, List.mem_append]; exact .inr hy))

end M5.Lib
