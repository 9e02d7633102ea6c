import M5.Lib.Check
import M5.Lib.OrderedMap

/-!
# Symbol tables

`SymbolTable` maps addresses to symbols; the nearest-symbol lookups start from `upper_bound` in that map.  The overloads
that also return the address of the following symbol read the element there, which is `end()` when no symbol lies above
the address.
-/

namespace M5.Base

open Lib Lib.OrderedMap List

/-- `addrTable`, in the order of its addresses. -/
structure SymbolTable where
  addrTable : List (Nat × String)
  sorted : Sorted Prod.fst addrTable

namespace SymbolTable

inductive Fault
  | endDereferenced

/-- An iterator: the elements before it and those from it on, none of the latter at `end()`. -/
abbrev Iter := List (Nat × String) × List (Nat × String)

def Iter.deref (i : Iter) : Except Fault (Nat × String) :=
  match i.2 with
  | e :: _ => .ok e
  | [] => .error .endDereferenced

def Iter.prev (i : Iter) : Iter := (i.1.dropLast, i.1.getLast?.toList ++ i.2)

variable {α : Type} (t : SymbolTable) (addr : Nat)

def bound : Iter := (upTo Prod.fst addr t.addrTable, after Prod.fst addr t.addrTable)

def upperBound : Option Iter := if (t.bound addr).1 = [] then none else some (t.bound addr)

/-- The frame of the four lookups: `false` without a bound, else what `f` reads at the iterator. -/
def lookup (f : Iter → Except Fault α) : Except Fault (Option α) :=
  match t.upperBound addr with
  | none => .ok none
  | some i => some <$> f i

/-- `findNearestSymbol` with `nextaddr`: the symbol, its address and the following address. -/
def findNearestSymbolNext : Except Fault (Option (String × Nat × Nat)) := t.lookup addr fun i => do
  let next ← i.deref
  let e ← i.prev.deref
  .ok (e.2, e.1, next.1)

def findNearestSymbol : Except Fault (Option (String × Nat)) := t.lookup addr fun i => do
  let e ← i.prev.deref
  .ok (e.2, e.1)

def findNearestAddrNext : Except Fault (Option (Nat × Nat)) := t.lookup addr fun i => do
  let next ← i.deref
  let e ← i.prev.deref
  .ok (e.1, next.1)

def findNearestAddr : Except Fault (Option Nat) := t.lookup addr fun i => do
  let e ← i.prev.deref
  .ok e.1

/-- `e` is the greatest element at or below `addr`. -/
def Nearest (e : Nat × String) : Prop :=
  e ∈ t.addrTable ∧ e.1 ≤ addr ∧ ∀ x ∈ t.addrTable, x.1 ≤ addr → x.1 ≤ e.1

/-- `e` is the least element above `addr`. -/
def Following (e : Nat × String) : Prop :=
  e ∈ t.addrTable ∧ addr < e.1 ∧ ∀ x ∈ t.addrTable, addr < x.1 → e.1 ≤ x.1

/-- The lookup returns `false` exactly when all symbols lie above, and else a result with `P`. -/
def Right (r : Except Fault (Option α)) (P : α → Prop) : Prop :=
  if ∃ x ∈ t.addrTable, x.1 ≤ addr then ∃ a, r = .ok (some a) ∧ P a else r = .ok none

variable {t addr} {f : Iter → Except Fault α} {P : α → Prop}

theorem bound_eq_nil_iff : (t.bound addr).1 = [] ↔ ¬ ∃ x ∈ t.addrTable, x.1 ≤ addr := by
  rw [eq_nil_iff_forall_not_mem, not_exists]
  exact forall_congr' fun x => not_congr t.sorted.mem_upTo_iff

theorem lookup_of_mem (h : ∃ x ∈ t.addrTable, x.1 ≤ addr) : t.lookup addr f = some <$> f (t.bound addr) := by
  rw [lookup, upperBound, if_neg (mt bound_eq_nil_iff.1 (not_not.2 h))]

theorem exists_nearest (h : ∃ x ∈ t.addrTable, x.1 ≤ addr) :
    ∃ e, (t.bound addr).prev.deref = .ok e ∧ t.Nearest addr e := by
  obtain ⟨e, he⟩ := Option.isSome_iff_exists.1 (getLast?_isSome.2 (mt bound_eq_nil_iff.1 (not_not.2 h)))
  obtain ⟨hmem, hk⟩ := t.sorted.mem_upTo_iff.1 (mem_of_getLast? he)
  refine ⟨e, by rw [Iter.prev, he]; rfl, hmem, hk, fun y hy hyk => ?_⟩
  rcases t.sorted.le_last he hy hyk with rfl | hlt
  · exact le_rfl
  · exact hlt.le

theorem exists_following (h : ∃ x ∈ t.addrTable, addr < x.1) :
    ∃ e, (t.bound addr).deref = .ok e ∧ t.Following addr e := by
  obtain ⟨x, hx, hlt⟩ := h
  cases hl : after Prod.fst addr t.addrTable with
  | nil => exact nomatch hl ▸ t.sorted.mem_after_iff.2 ⟨hx, hlt⟩
  | cons e m =>
    obtain ⟨hm, hk⟩ := t.sorted.mem_after_iff.1 (hl ▸ mem_cons_self : e ∈ after Prod.fst addr t.addrTable)
    refine ⟨e, by rw [Iter.deref, bound, hl], hm, hk, fun y hy hyk => ?_⟩
    rcases t.sorted.head_le hl hy hyk with rfl | hlt
    · exact le_rfl
    · exact hlt.le

theorem right_lookup (h : (∃ x ∈ t.addrTable, x.1 ≤ addr) → ∃ a, f (t.bound addr) = .ok a ∧ P a) :
    t.Right addr (t.lookup addr f) P := by
  unfold Right
  split
  · next hx =>
    obtain ⟨a, ha, hP⟩ := h hx
    exact ⟨a, by rw [lookup_of_mem hx, ha]; rfl, hP⟩
  · next hx => rw [lookup, upperBound, if_pos (bound_eq_nil_iff.2 hx)]

theorem right_next_iff (out : Nat × String → Nat → α)
    (hout : ∀ e n, t.Nearest addr e → t.Following addr n → P (out e n.1)) :
    t.Right addr (t.lookup addr fun i => do
      let next ← i.deref
      let e ← i.prev.deref
      .ok (out e next.1)) P ↔ t.addrTable = [] ∨ ∃ x ∈ t.addrTable, addr < x.1 := by
  constructor
  · intro h
    by_contra hc
    obtain ⟨hne, hend⟩ := not_or.1 hc
    obtain ⟨x, hx⟩ := exists_mem_of_ne_nil _ hne
    have hle : ∃ x ∈ t.addrTable, x.1 ≤ addr := ⟨x, hx, not_lt.1 fun hlt => hend ⟨x, hx, hlt⟩⟩
    have hnil : after Prod.fst addr t.addrTable = [] :=
      eq_nil_iff_forall_not_mem.2 fun y hy => hend ⟨y, t.sorted.mem_after_iff.1 hy⟩
    have hread : (t.bound addr).deref = .error .endDereferenced := by rw [Iter.deref, bound, hnil]
    rw [Right, if_pos hle, lookup_of_mem hle, hread] at h
    obtain ⟨a, ha, -⟩ := h
    cases ha
  · refine fun hc => right_lookup fun hx => ?_
    obtain ⟨n, hn, hfol⟩ := exists_following (hc.resolve_left (ne_nil_of_mem hx.choose_spec.1))
    obtain ⟨e, he, hnear⟩ := exists_nearest hx
    exact ⟨_, by rw [hn, ok_bind, he, ok_bind], hout e n hnear hfol⟩

/-- The four lookups, for every table and address. -/
theorem findNearest_iff (t : SymbolTable) (addr : Nat) :
    t.Right addr (t.findNearestSymbol addr) (fun r => t.Nearest addr (r.2, r.1)) ∧
      t.Right addr (t.findNearestAddr addr) (fun a => ∃ s, t.Nearest addr (a, s)) ∧
      (t.Right addr (t.findNearestSymbolNext addr)
          (fun r => t.Nearest addr (r.2.1, r.1) ∧ ∃ s, t.Following addr (r.2.2, s)) ↔
        t.addrTable = [] ∨ ∃ x ∈ t.addrTable, addr < x.1) ∧
      (t.Right addr (t.findNearestAddrNext addr)
          (fun r => (∃ s, t.Nearest addr (r.1, s)) ∧ ∃ s, t.Following addr (r.2, s)) ↔
        t.addrTable = [] ∨ ∃ x ∈ t.addrTable, addr < x.1) := by
  refine ⟨right_lookup fun hx => ?_, right_lookup fun hx => ?_,
    right_next_iff (fun e n => (e.2, e.1, n)) fun e n he hn => ⟨he, n.2, hn⟩,
    right_next_iff (fun e n => (e.1, n)) fun e n he hn => ⟨⟨e.2, he⟩, n.2, hn⟩⟩
  · obtain ⟨e, he, hnear⟩ := exists_nearest hx
    exact ⟨_, by rw [he, ok_bind], hnear⟩
  · obtain ⟨e, he, hnear⟩ := exists_nearest hx
    exact ⟨_, by rw [he, ok_bind], e.2, hnear⟩

/-- Both overloads with `nextaddr` dereference `end()` for an address past the last symbol. -/
theorem findNearest_past_last :
    let t : SymbolTable := ⟨[(4096, "main")], pairwise_singleton _ _⟩
    t.findNearestSymbolNext 5000 = .error .endDereferenced ∧ t.findNearestAddrNext 5000 = .error .endDereferenced :=
  ⟨rfl, rfl⟩

end SymbolTable
end M5.Base
