import M5.Lib.OrderedMap
import M5.Lib.Run
import Mathlib.Data.Prod.Lex

/-!
# Range maps

Model of `range_map` of `base/range_map.hh` over the `Range` of `base/range.hh`.

The map is a `std::map` ordered by `operator<` on ranges, which compares starts only. An iterator to
an element is the element and `end()` is `none`. `find` looks at one neighbour of `upper_bound`:
the last range that starts at or before the query or, when there is none, the first range of all.
-/

namespace M5.Base

open Lib Lib.OrderedMap List Option

universe u v

structure Range (T : Type u) where
  start : T
  end_ : T
deriving DecidableEq

namespace Range

variable {T : Type u} [LinearOrder T]

def Proper (r : Range T) : Prop := r.start ≤ r.end_

instance (r : Range T) : Decidable r.Proper := inferInstanceAs (Decidable (_ ≤ _))

def Overlaps (x r : Range T) : Prop := ∃ p, (x.start ≤ p ∧ p ≤ x.end_) ∧ (r.start ≤ p ∧ p ≤ r.end_)

/-- The test `i->first.start <= r.end && i->first.end >= r.start`. -/
def meets (x r : Range T) : Bool := decide (x.start ≤ r.end_) && decide (x.end_ ≥ r.start)

variable {x r : Range T}

theorem meets_iff : x.meets r ↔ x.start ≤ r.end_ ∧ r.start ≤ x.end_ := by
  simp only [meets, Bool.and_eq_true, decide_eq_true_eq, ge_iff_le]

theorem overlaps_iff (hx : x.Proper) (hr : r.Proper) : x.Overlaps r ↔ x.meets r := by
  rw [meets_iff]
  constructor
  · rintro ⟨p, ⟨h1, h2⟩, h3, h4⟩
    exact ⟨h1.trans h4, h3.trans h2⟩
  · rintro ⟨h1, h2⟩
    exact ⟨max x.start r.start, ⟨le_max_left _ _, max_le hx h2⟩, le_max_right _ _, max_le h1 hr⟩

theorem Overlaps.symm : x.Overlaps r → r.Overlaps x := fun ⟨p, hx, hr⟩ => ⟨p, hr, hx⟩

end Range

/-- The tree of a `range_map`: its elements in the order of their starts. -/
structure RangeMap (T : Type u) (V : Type v) [LinearOrder T] where
  tree : List (Range T × V)
  sorted : Sorted (fun x => x.1.start) tree

namespace RangeMap

variable {T : Type u} {V : Type v} [LinearOrder T]

def empty : RangeMap T V := ⟨[], .nil⟩

variable (past : Range T) (m : RangeMap T V) (r : Range T)

/-- The element before `tree.upper_bound(r)`, none when that is `tree.begin()`. -/
def before : Option (Range T × V) :=
  (upTo (fun x => x.1.start) r.start m.tree).getLast?

/-- On an empty tree `begin()` is `end()` and the source reads through it; `past` is what it reads. -/
def find : Option (Range T × V) :=
  match m.before r with
  | none =>
    match after (fun x => x.1.start) r.start m.tree with
    | [] => if past.meets r then none else none
    | i :: _ => if i.1.meets r then some i else none
  | some i => if i.1.meets r then some i else none

def intersect : Bool := (m.find past r).isSome

/-- The iterator returned and the map left; `tree.insert` gives the element of the same start when there is one. -/
def insert (d : V) : Option (Range T × V) × RangeMap T V :=
  if m.intersect past r then (none, m)
  else
    ((m.tree.find? fun x => decide (x.1.start = r.start)).or (some (r, d)),
      ⟨put (fun x => x.1.start) (r, d) m.tree, m.sorted.put⟩)

theorem erased_sublist {α : Type u} (l : List α) (i j : Nat) : (l.take i ++ l.drop (max i j)).Sublist l := by
  have h : (l.take i ++ l.drop (max i j)).Sublist (l.take (max i j) ++ l.drop (max i j)) :=
    (take_sublist_take_left (le_max_left i j)).append (.refl _)
  rwa [take_append_drop] at h

/-- `erase(p, q)` for the iterators at positions `i` and `j`; `erase(p)` is `erase(p, p + 1)`, and `clear()`
goes from `begin()` to `end()`. -/
def erase (i j : Nat) : RangeMap T V :=
  ⟨m.tree.take i ++ m.tree.drop (max i j), m.sorted.sublist (erased_sublist _ _ _)⟩

inductive Act (T : Type u) (V : Type v) where
  | insert (r : Range T) (d : V)
  | erase (i j : Nat)

def exec : Act T V → RangeMap T V
  | .insert r d => (m.insert past r d).2
  | .erase i j => m.erase i j

/-- The stored ranges are not empty and no two of them overlap. -/
structure Good (m : RangeMap T V) : Prop where
  proper : ∀ x ∈ m.tree, x.1.Proper
  disjoint : ∀ x ∈ m.tree, ∀ y ∈ m.tree, x ≠ y → ¬ x.1.Overlaps y.1

/-- The query is after the end of the last range that starts at or before it, and another range starts inside it. -/
def Straddling : Prop :=
  (∃ b, m.before r = some b ∧ b.1.meets r = false) ∧ ∃ x ∈ m.tree, r.start < x.1.start ∧ x.1.start ≤ r.end_

instance (m : RangeMap T V) (r : Range T) : Decidable (m.Straddling r) :=
  decidable_of_iff ((m.before r).any (fun b => !b.1.meets r) ∧
    ∃ x ∈ m.tree, r.start < x.1.start ∧ x.1.start ≤ r.end_) (by simp [Straddling, Option.any_eq_true])

/-- The range of an insertion is not empty. -/
def Act.Proper : Act T V → Prop
  | .insert r _ => r.Proper
  | .erase _ _ => True

/-- The insertion is not of a straddling range. -/
def Act.Sound : Act T V → Prop
  | .insert r _ => ¬ m.Straddling r
  | .erase _ _ => True

/-- `find` returns an overlapping element, and one exactly when there is one. -/
def FindsOverlap : Prop :=
  (∀ x, m.find past r = some x → x ∈ m.tree ∧ x.1.Overlaps r) ∧
    ((m.find past r).isSome ↔ ∃ x ∈ m.tree, x.1.Overlaps r)

/-- `insert` refuses a range exactly when it overlaps a stored one, and otherwise adds it. -/
def RefusesOverlap (d : V) : Prop :=
  ((m.insert past r d).1 = none ↔ ∃ x ∈ m.tree, x.1.Overlaps r) ∧
    ((m.insert past r d).1 = none → (m.insert past r d).2 = m) ∧
    ((m.insert past r d).1 ≠ none → ∀ x, x ∈ (m.insert past r d).2.tree ↔ x = (r, d) ∨ x ∈ m.tree) ∧
    (m.insert past r d).2.Good

variable {past : Range T} {m : RangeMap T V} {r : Range T} {d : V} {x b : Range T × V}

theorem mem_of_before (h : m.before r = some b) : b ∈ m.tree ∧ b.1.start ≤ r.start :=
  m.sorted.mem_upTo_iff.1 (mem_of_getLast? h)

theorem find_of_before (h : m.before r = some b) : m.find past r = if b.1.meets r then some b else none := by
  unfold find
  rw [h]

theorem find_of_first {l : List (Range T × V)} (h : m.before r = none)
    (ha : after (fun x => x.1.start) r.start m.tree = b :: l) :
    m.find past r = if b.1.meets r then some b else none := by
  unfold find
  rw [h, ha]

/-- What `find` returns is stored and overlaps the query. -/
theorem find_some (h : m.find past r = some x) : x ∈ m.tree ∧ x.1.meets r := by
  cases hb : m.before r with
  | some b =>
    rw [find_of_before hb, ite_none_right_eq_some, some_inj] at h
    exact h.2 ▸ ⟨(mem_of_before hb).1, h.1⟩
  | none =>
    cases ha : after (fun x => x.1.start) r.start m.tree with
    | nil =>
      unfold find at h
      rw [hb, ha] at h
      simp at h
    | cons b l =>
      rw [find_of_first hb ha, ite_none_right_eq_some, some_inj] at h
      have hm : b ∈ m.tree := mem_of_mem_after (ha ▸ mem_cons_self)
      exact h.2 ▸ ⟨hm, h.1⟩

theorem before_isSome (hx : x ∈ m.tree) (h : x.1.start ≤ r.start) : ∃ b, m.before r = some b := by
  have hmem := m.sorted.mem_upTo_iff.2 ⟨hx, h⟩
  exact ⟨_, getLast?_eq_some_getLast (ne_nil_of_mem hmem)⟩

theorem Good.before_eq (hg : m.Good) (hx : x ∈ m.tree) (hs : x.1.start ≤ r.start) (he : r.start ≤ x.1.end_) :
    m.before r = some x := by
  obtain ⟨b, hb⟩ := before_isSome hx hs
  obtain ⟨hbm, hbs⟩ := mem_of_before hb
  rcases m.sorted.le_last hb hx hs with rfl | hlt
  · exact hb
  · have ho : x.1.Overlaps b.1 := ⟨b.1.start, ⟨le_of_lt hlt, hbs.trans he⟩, le_refl _, hg.proper b hbm⟩
    have hne : x ≠ b := fun h => absurd hlt (h ▸ lt_irrefl _)
    exact absurd ho (hg.disjoint x hx b hbm hne)

/-- In a map of disjoint ranges it finds an overlap unless the query is `Straddling`. -/
theorem Good.find_isSome (hg : m.Good) (hn : ¬ m.Straddling r) (hx : x ∈ m.tree)
    (ho : x.1.meets r) : (m.find past r).isSome := by
  obtain ⟨hxr, hrx⟩ := Range.meets_iff.1 ho
  rcases le_or_gt x.1.start r.start with hs | hs
  · rw [find_of_before (hg.before_eq hx hs hrx), if_pos ho]
    rfl
  · cases hb : m.before r with
    | some b =>
      cases hm : b.1.meets r with
      | true =>
        rw [find_of_before hb, if_pos hm]
        rfl
      | false => exact absurd ⟨⟨b, hb, hm⟩, x, hx, hs, hxr⟩ hn
    | none =>
      have hmem := m.sorted.mem_after_iff.2 ⟨hx, hs⟩
      obtain ⟨f, l, ha⟩ := exists_cons_of_ne_nil (ne_nil_of_mem hmem)
      obtain ⟨hf, hfs⟩ := m.sorted.mem_after_iff.1 (ha ▸ mem_cons_self : f ∈ after _ r.start m.tree)
      have hle : f.1.start ≤ x.1.start := by
        rcases m.sorted.head_le ha hx hs with h | h
        · exact h ▸ le_refl _
        · exact le_of_lt h
      have hmeet : f.1.meets r :=
        Range.meets_iff.2 ⟨hle.trans hxr, (le_of_lt hfs).trans (hg.proper f hf)⟩
      rw [find_of_first hb ha, if_pos hmeet]
      rfl

theorem Straddling.find_eq_none (h : m.Straddling r) : m.find past r = none := by
  obtain ⟨⟨b, hb, hm⟩, -⟩ := h
  rw [find_of_before hb, hm]
  rfl

theorem Good.exists_of_straddling (hg : m.Good) (h : m.Straddling r) : ∃ x ∈ m.tree, x.1.meets r := by
  obtain ⟨-, x, hx, hs, he⟩ := h
  exact ⟨x, hx, Range.meets_iff.2 ⟨he, (le_of_lt hs).trans (hg.proper x hx)⟩⟩

theorem Good.exists_overlaps (hg : m.Good) (hr : r.Proper) :
    (∃ x ∈ m.tree, x.1.Overlaps r) ↔ ∃ x ∈ m.tree, x.1.meets r :=
  exists_congr fun x => and_congr_right fun hx => Range.overlaps_iff (hg.proper x hx) hr

/-- In a map of disjoint ranges `find` misses an overlap exactly when the query is straddling. -/
theorem Good.find_isSome_iff (hg : m.Good) (hr : r.Proper) :
    ((m.find past r).isSome ↔ ∃ x ∈ m.tree, x.1.Overlaps r) ↔ ¬ m.Straddling r := by
  rw [hg.exists_overlaps hr]
  constructor
  · intro h hst
    have := h.2 (hg.exists_of_straddling hst)
    rw [hst.find_eq_none] at this
    exact absurd this (by simp)
  · intro hn
    refine ⟨fun h => ?_, fun ⟨x, hx, ho⟩ => hg.find_isSome hn hx ho⟩
    obtain ⟨x, hx⟩ := isSome_iff_exists.1 h
    exact ⟨x, find_some hx⟩

theorem insert_of_some (h : (m.find past r).isSome) : m.insert past r d = (none, m) := by
  unfold insert intersect
  rw [if_pos h]

theorem insert_fst_eq_none : (m.insert past r d).1 = none ↔ (m.find past r).isSome := by
  unfold insert intersect
  split
  · rename_i h
    exact iff_of_true rfl h
  · rename_i h
    refine iff_of_false (fun hn => ?_) h
    exact absurd (or_eq_none_iff.1 hn).2 nofun

theorem insert_of_disjoint (hn : ¬ ∃ x ∈ m.tree, x.1.meets r) (hg : m.Good) (hr : r.Proper) :
    ∀ x, x ∈ (m.insert past r d).2.tree ↔ x = (r, d) ∨ x ∈ m.tree := by
  have hf : ¬ (m.find past r).isSome := by
    intro h
    obtain ⟨x, hx⟩ := isSome_iff_exists.1 h
    exact hn ⟨x, find_some hx⟩
  intro x
  unfold insert intersect
  rw [if_neg hf]
  refine mem_put ?_
  rintro ⟨b, hb, he⟩
  have hp := hg.proper b hb
  refine hn ⟨b, hb, Range.meets_iff.2 ⟨?_, ?_⟩⟩
  · exact (le_of_eq he).trans hr
  · exact (le_of_eq he.symm).trans hp

theorem Good.empty : (empty : RangeMap T V).Good := ⟨nofun, nofun⟩

theorem Good.erase (hg : m.Good) (i j : Nat) : (m.erase i j).Good := by
  have hsub : ∀ x ∈ (m.erase i j).tree, x ∈ m.tree := fun x hx => (erased_sublist _ i j).subset hx
  exact ⟨fun x hx => hg.proper x (hsub x hx), fun x hx y hy => hg.disjoint x (hsub x hx) y (hsub y hy)⟩

theorem Good.insert (hg : m.Good) (hr : r.Proper) (hn : ¬ m.Straddling r) : (m.insert past r d).2.Good := by
  by_cases ho : ∃ x ∈ m.tree, x.1.meets r
  · obtain ⟨x, hx, ho⟩ := ho
    rw [insert_of_some (hg.find_isSome hn hx ho)]
    exact hg
  · have hmem : ∀ x, x ∈ (m.insert past r d).2.tree ↔ x = (r, d) ∨ x ∈ m.tree := insert_of_disjoint ho hg hr
    have hno : ∀ x ∈ m.tree, ¬ x.1.Overlaps r := fun x hx h =>
      ho ((hg.exists_overlaps hr).1 ⟨x, hx, h⟩)
    constructor
    · intro x hx
      rcases (hmem x).1 hx with rfl | hx
      · exact hr
      · exact hg.proper x hx
    · intro x hx y hy hne
      rcases (hmem x).1 hx with rfl | hx <;> rcases (hmem y).1 hy with rfl | hy
      · exact absurd rfl hne
      · exact fun h => hno y hy h.symm
      · exact hno x hx
      · exact hg.disjoint x hx y hy hne

theorem Good.exec (hg : m.Good) {a : Act T V} (hp : a.Proper) (ha : a.Sound m) : (m.exec past a).Good := by
  cases a with
  | insert r d => exact hg.insert hp ha
  | erase i j => exact hg.erase i j

theorem Good.findsOverlap_iff (hg : m.Good) (hr : r.Proper) : FindsOverlap past m r ↔ ¬ m.Straddling r := by
  unfold FindsOverlap
  rw [hg.find_isSome_iff hr]
  refine and_iff_right fun x hx => ?_
  obtain ⟨hm, ho⟩ := find_some hx
  exact ⟨hm, (Range.overlaps_iff (hg.proper x hm) hr).2 ho⟩

theorem Good.refusesOverlap_iff (hg : m.Good) (hr : r.Proper) : RefusesOverlap past m r d ↔ ¬ m.Straddling r := by
  unfold RefusesOverlap
  rw [insert_fst_eq_none, hg.find_isSome_iff hr]
  refine ⟨And.left, fun hn => ⟨hn, fun h => ?_, fun h => ?_, hg.insert hr hn⟩⟩
  · rw [insert_of_some h]
  · have hno := fun ho => h (insert_fst_eq_none.2 (((hg.find_isSome_iff hr).2 hn).2 ho))
    exact insert_of_disjoint (fun ho => hno ((hg.exists_overlaps hr).2 ho)) hg hr

/-- As long as no straddling range is inserted the stored ranges are disjoint; there `find` and `insert` see every
overlap of a range exactly when it is not straddling. -/
theorem disjoint_found_iff (past : Range T) {as : List (Act T V)} {m : RangeMap T V}
    (run : Run (fun m a m' => a.Proper ∧ a.Sound m ∧ m' = exec past m a) empty as m) :
    m.Good ∧ ∀ r : Range T, r.Proper →
      (FindsOverlap past m r ↔ ¬ m.Straddling r) ∧ ∀ d, (RefusesOverlap past m r d ↔ ¬ m.Straddling r) := by
  have hg : m.Good := run.invariant .empty fun hg ⟨hp, ha, he⟩ => he ▸ hg.exec hp ha
  exact ⟨hg, fun r hr => ⟨hg.findsOverlap_iff hr, fun d => hg.refusesOverlap_iff hr⟩⟩

def twoRanges : RangeMap Nat Unit :=
  exec ⟨0, 0⟩ (exec ⟨0, 0⟩ empty (.insert ⟨10, 40⟩ ())) (.insert ⟨60, 90⟩ ())

theorem twoRanges_run : Run (fun m a m' => a.Proper ∧ a.Sound m ∧ m' = exec ⟨0, 0⟩ m a) empty
    [.insert ⟨10, 40⟩ (), .insert ⟨60, 90⟩ ()] twoRanges := by
  refine .cons ⟨(by decide : Range.Proper _), ?_, rfl⟩ (.cons ⟨(by decide : Range.Proper _), ?_, rfl⟩ .nil)
  · show ¬ Straddling (empty : RangeMap Nat Unit) ⟨10, 40⟩
    decide
  · show ¬ Straddling (exec ⟨0, 0⟩ (empty : RangeMap Nat Unit) (.insert ⟨10, 40⟩ ())) ⟨60, 90⟩
    decide

theorem found_twoRanges : twoRanges.Good ∧ FindsOverlap ⟨0, 0⟩ twoRanges ⟨30, 70⟩ := by
  obtain ⟨hg, h⟩ := disjoint_found_iff ⟨0, 0⟩ twoRanges_run
  exact ⟨hg, (h ⟨30, 70⟩ (by decide)).1.2 (by decide)⟩

/-- The range of 50 to 70 overlaps that of 60 to 90; it is not found, and it is stored. -/
theorem not_found_twoRanges :
    ∃ as m, Run (fun m a m' => Act.Proper a ∧ m' = exec (⟨0, 0⟩ : Range Nat) m a) empty as m ∧ m.Good ∧
      ¬ FindsOverlap ⟨0, 0⟩ m ⟨50, 70⟩ ∧ ¬ (insert ⟨0, 0⟩ m ⟨50, 70⟩ ()).2.Good := by
  have hg : twoRanges.Good := twoRanges_run.invariant .empty fun hg ⟨hp, ha, he⟩ => he ▸ hg.exec hp ha
  refine ⟨_, twoRanges, twoRanges_run.mono fun h => ⟨h.1, h.2.2⟩, hg, ?_, ?_⟩
  · rw [hg.findsOverlap_iff (by decide)]
    exact not_not_intro (by decide)
  · intro h
    exact h.disjoint (⟨50, 70⟩, ()) (by decide) (⟨60, 90⟩, ()) (by decide) (by decide) ⟨60, by decide⟩

end RangeMap

end M5.Base
