import Mathlib.Algebra.BigOperators.Fin
import Mathlib.Algebra.Order.BigOperators.Group.Finset
import Mathlib.Tactic.Abel
import Mathlib.Tactic.Ring
import Mathlib.Data.Multiset.AddSub

/-!
# Names that are bound to items from a pool

Parties bind names to items. A new binding takes an item from the pool, which is shared, and notes the item that the
name was bound to before. A party either undoes its latest binding, or forgets what its oldest note says; the item that
is no longer needed goes back to the pool if it is one to keep.
-/

namespace M5.Lib

/-! ## Totals over finitely many parties -/

section

open Finset

section change

variable {ι M : Type} [Fintype ι] [DecidableEq ι]

theorem sum_add_change [AddCommMonoid M] {f g : ι → M} (i : ι) (h : ∀ j, j ≠ i → g j = f j) :
    ∑ j, g j + f i = ∑ j, f j + g i := by
  have hrest : ∑ j ∈ univ.erase i, g j = ∑ j ∈ univ.erase i, f j :=
    sum_congr rfl fun j hj => h j (ne_of_mem_erase hj)
  rw [← add_sum_erase univ g (mem_univ i), ← add_sum_erase univ f (mem_univ i), hrest]
  abel

end change

theorem sum_blocks (start w q : Nat) : ∀ n : Nat,
    ∑ t : Fin n, (if start + t * w ≤ q ∧ q < start + t * w + w then 1 else 0) =
      if start ≤ q ∧ q < start + n * w then 1 else 0
  | 0 => by
    rw [Fin.sum_univ_zero, if_neg (by omega)]
  | n + 1 => by
    rw [Fin.sum_univ_castSucc]
    simp only [Fin.val_castSucc, Fin.val_last]
    rw [sum_blocks start w q n, Nat.add_mul]
    split_ifs <;> omega

end

open Function List

/-- A name was bound to `new`, and to `old` before. -/
structure Change (κ α : Type) where
  key : κ
  new : α
  old : α

/-- The bindings are those after the changes, of which the last comes first. -/
def Linked {κ α : Type} [DecidableEq κ] (f : κ → α) : List (Change κ α) → Prop
  | [] => True
  | e :: es => f e.key = e.new ∧ Linked (update f e.key e.old) es

theorem Linked.of_append {κ α : Type} [DecidableEq κ] :
    ∀ {f : κ → α} {es es' : List (Change κ α)}, Linked f (es ++ es') →
    Linked f es
  | _, [], _, _ => trivial
  | _, _ :: _, _, h => ⟨h.1, h.2.of_append⟩

theorem Linked.cons {κ α : Type} [DecidableEq κ] {f : κ → α} {es : List (Change κ α)} (h : Linked f es) (k : κ)
    (x : α) :
    Linked (update f k x) (⟨k, x, f k⟩ :: es) := by
  refine ⟨update_self .., ?_⟩
  rw [update_idem, update_eq_self]
  exact h

structure Renaming (ι κ α : Type) where
  pool : Multiset α
  map : ι → κ → α
  log : ι → List (Change κ α)

namespace Renaming

variable {ι κ α : Type} [Fintype ι] [DecidableEq ι] [DecidableEq κ] [DecidableEq α]

/-- The places of an item that are of one party. -/
def share (keys : List κ) (s : Renaming ι κ α) (i : ι) (r : α) : Nat :=
  (keys.map (s.map i)).count r + ((s.log i).map Change.old).count r

def places (keys : List κ) (s : Renaming ι κ α) (r : α) : Nat := s.pool.count r + ∑ i, s.share keys i r

variable (s : Renaming ι κ α) (keep : α → Prop)

/-- Give back an item if it is one to keep. -/
def give [DecidablePred keep] (pool : Multiset α) (x : α) : Multiset α :=
  if keep x then x ::ₘ pool else pool

def assign (i : ι) (k : κ) (x : α) : Renaming ι κ α where
  pool := s.pool.erase x
  map := update s.map i (update (s.map i) k x)
  log := update s.log i (⟨k, x, s.map i k⟩ :: s.log i)

def undo [DecidablePred keep] (s : Renaming ι κ α) (i : ι) (e : Change κ α) (es : List (Change κ α)) :
    Renaming ι κ α where
  pool := give keep s.pool e.new
  map := update s.map i (update (s.map i) e.key e.old)
  log := update s.log i es

def forget [DecidablePred keep] (s : Renaming ι κ α) (i : ι) (e : Change κ α)
    (es : List (Change κ α)) : Renaming ι κ α where
  pool := give keep s.pool e.old
  map := s.map
  log := update s.log i es

section places

variable {keys : List κ} {s : Renaming ι κ α} {i : ι} {k : κ} {x r : α} {e : Change κ α} {es : List (Change κ α)}
  {keep : α → Prop} [DecidablePred keep]

theorem count_map_update (hn : keys.Nodup) (hk : k ∈ keys) (f : κ → α) (x r : α) :
    (keys.map (update f k x)).count r + [f k].count r = (keys.map f).count r + [x].count r := by
  have hrest : (keys.erase k).map (update f k x) = (keys.erase k).map f := by
    refine map_congr_left fun j hj => update_of_ne ?_ ..
    rintro rfl
    exact hn.not_mem_erase hj
  have h1 := ((perm_cons_erase hk).map (update f k x)).count_eq r
  have h2 := ((perm_cons_erase hk).map f).count_eq r
  rw [map_cons, update_self, hrest, ← singleton_append, count_append] at h1
  rw [map_cons, ← singleton_append, count_append] at h2
  omega

theorem count_cons_pool (pool : Multiset α) (x r : α) : (x ::ₘ pool).count r = pool.count r + [x].count r := by
  rw [← Multiset.singleton_add, Multiset.count_add, Nat.add_comm, ← Multiset.coe_singleton, Multiset.coe_count]

theorem count_give (pool : Multiset α) (hr : keep r) : (give keep pool x).count r = pool.count r + [x].count r := by
  unfold give
  split
  · exact count_cons_pool ..
  · next hx =>
    have : x ≠ r := by
      rintro rfl
      exact hx hr
    simp [this]

omit [DecidableEq κ] in
theorem places_eq {s' : Renaming ι κ α} (hmap : ∀ j, j ≠ i → s'.map j = s.map j)
    (hlog : ∀ j, j ≠ i → s'.log j = s.log j)
    (h : s'.pool.count r + s'.share keys i r = s.pool.count r + s.share keys i r) :
    s'.places keys r = s.places keys r := by
  have hsum := sum_add_change i (g := fun j => s'.share keys j r) (f := fun j => s.share keys j r) fun j hj => by
    rw [share, share, hmap j hj, hlog j hj]
  unfold places
  omega

/-- An item to keep stays in as many places as before. -/
theorem places_assign (hn : keys.Nodup) (hk : k ∈ keys) (hx : x ∈ s.pool) :
    (s.assign i k x).places keys r = s.places keys r := by
  refine places_eq (fun j hj => update_of_ne hj ..) (fun j hj => update_of_ne hj ..) ?_
  have hpool : s.pool.count r = (s.pool.erase x).count r + [x].count r := by
    rw [← count_cons_pool, Multiset.cons_erase hx]
  have hmap := count_map_update hn hk (s.map i) x r
  have hlog : ((⟨k, x, s.map i k⟩ :: s.log i).map Change.old).count r =
      [s.map i k].count r + ((s.log i).map Change.old).count r := by
    rw [map_cons, ← singleton_append, count_append]
  simp only [share, assign, update_self]
  omega

theorem places_undo (hn : keys.Nodup) (hk : e.key ∈ keys) (hlog : s.log i = e :: es) (hl : Linked (s.map i) (s.log i))
    (hr : keep r) : (s.undo keep i e es).places keys r = s.places keys r := by
  refine places_eq (fun j hj => update_of_ne hj ..) (fun j hj => update_of_ne hj ..) ?_
  rw [hlog] at hl
  have hmap := count_map_update hn hk (s.map i) e.old r
  rw [hl.1] at hmap
  have hlog : ((s.log i).map Change.old).count r = [e.old].count r + (es.map Change.old).count r := by
    rw [hlog, map_cons, ← singleton_append, count_append]
  simp only [share, undo, update_self, count_give _ hr]
  omega

omit [DecidableEq κ] in
theorem places_forget (hlog : s.log i = es ++ [e]) (hr : keep r) :
    (s.forget keep i e es).places keys r = s.places keys r := by
  refine places_eq (fun j _ => rfl) (fun j hj => update_of_ne hj ..) ?_
  simp only [share, forget, update_self, count_give _ hr, hlog, map_append, count_append,
    map_singleton]
  omega

omit [DecidableEq ι] [DecidableEq κ] in
theorem places_give (hr : keep r) :
    ({ s with pool := give keep s.pool x } : Renaming ι κ α).places keys r = s.places keys r + [x].count r := by
  unfold places
  rw [count_give _ hr, Nat.add_right_comm]
  rfl

end places

end Renaming

end M5.Lib
