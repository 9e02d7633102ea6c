import M5.Lib.Check
import M5.Lib.Run
import M5.Ruby.Common
import Mathlib.Tactic.SplitIfs

/-!
# Tree pseudo-LRU replacement

The policy keeps a perfect binary tree of bits for every set, packed as a heap into a word: the children of node `n` are
`2n + 1` and `2n + 2`.  `touch` walks towards the way and points every node at it; `getVictim` walks away from where the
nodes point.  `Tree` is the tree itself.
-/

namespace M5.Ruby

open M5.Lib List

/-! ## The tree -/

/-- A perfect tree; the bit of a node is set if it points at its second half. -/
inductive Tree : Nat → Type
  | leaf : Tree 0
  | node {l : Nat} (upper : Bool) (x y : Tree l) : Tree (l + 1)

namespace Tree

def victim : {l : Nat} → Tree l → Nat
  | _, leaf => 0
  | l + 1, node upper x y => if upper then x.victim else 2 ^ l + y.victim

def touch (way : Nat) : {l : Nat} → Tree l → Tree l
  | _, leaf => leaf
  | l + 1, node _ x y => if way.testBit l then node true x (y.touch way) else node false (x.touch way) y

/-- The victims of `k` turns that each touch the victim. -/
def victims {l : Nat} : Nat → Tree l → List Nat
  | 0, _ => []
  | k + 1, t => t.victim :: victims k (t.touch t.victim)

variable {l k : Nat} {x y : Tree l} {upper : Bool}

theorem victim_lt (t : Tree l) : t.victim < 2 ^ l := by
  induction t with
  | leaf => exact Nat.one_pos
  | node upper x y hx hy =>
    rw [victim]
    split <;> omega

theorem touch_add (w : Nat) (h : l ≤ k) : x.touch (2 ^ k + w) = x.touch w := by
  induction x with
  | leaf => rfl
  | node upper x y hx hy => rw [touch, touch, Nat.testBit_two_pow_add_gt (by omega), hx (by omega), hy (by omega)]

@[simp] theorem touch_lower : (node true x y).touch x.victim = node false (x.touch x.victim) y := by
  simp [touch, Nat.testBit_lt_two_pow x.victim_lt]

@[simp] theorem touch_upper : (node false x y).touch (2 ^ l + y.victim) = node true x (y.touch y.victim) := by
  simp [touch, Nat.testBit_two_pow_add_eq, Nat.testBit_lt_two_pow y.victim_lt, touch_add]

/-- Two turns take one victim from each half and leave the root as it was. -/
theorem victims_node : victims (2 * k) (node upper x y) ~ victims k x ++ (victims k y).map (2 ^ l + ·) := by
  induction k generalizing x y with
  | zero => exact .nil
  | succ k ih =>
    refine .trans ?_ (((ih.cons _).trans perm_middle.symm).cons _)
    cases upper with
    | true => simp [Nat.mul_succ, victims, victim]
    | false => simpa [Nat.mul_succ, victims, victim] using .swap ..

/-- Replacing the victim again and again goes once through all the leaves. -/
theorem victims_perm (t : Tree l) : victims (2 ^ l) t ~ range (2 ^ l) := by
  induction t with
  | leaf => exact .refl _
  | node upper x y hx hy =>
    rw [Nat.pow_succ', Nat.two_mul (2 ^ _), range_add, ← Nat.two_mul]
    exact victims_node.trans (hx.append (hy.map _))

/-- The root points at the half with the way touched, and the victim is in the other. -/
theorem victim_touch {t : Tree (l + 1)} {w : Nat} (hw : w < 2 ^ (l + 1)) :
    (t.touch w).victim < 2 ^ l ∧ 2 ^ l ≤ w ∨ w < 2 ^ l ∧ 2 ^ l ≤ (t.touch w).victim := by
  cases t with
  | node upper x y =>
    rw [touch]
    split
    case isTrue h => exact .inl ⟨x.victim_lt, Nat.ge_two_pow_of_testBit h⟩
    case isFalse h =>
      refine .inr ⟨?_, Nat.le_add_right ..⟩
      by_contra hge
      obtain ⟨v, rfl⟩ := Nat.exists_eq_add_of_le (Nat.not_lt.1 hge)
      rw [Nat.testBit_two_pow_add_eq, Nat.testBit_lt_two_pow (by omega)] at h
      exact h rfl

/-- The tree with `l` levels below node `n` of a heap. -/
def ofHeap (f : Nat → Bool) : (l : Nat) → Nat → Tree l
  | 0, _ => leaf
  | l + 1, n => node (f n) (ofHeap f l (2 * n + 1)) (ofHeap f l (2 * n + 2))

/-- Node `m` of a heap is node `n` or below it. -/
def Below (n m : Nat) : Prop := ∃ j, (m + 1) / 2 ^ j = n + 1

theorem Below.child {n m c : Nat} (h : Below c m) (hc : (c + 1) / 2 = n + 1) : Below n m := by
  obtain ⟨j, hj⟩ := h
  exact ⟨j + 1, by rw [Nat.pow_succ, ← Nat.div_div_eq_div_mul, hj, hc]⟩

theorem below_disjoint {n m : Nat} (h : Below (2 * n + 1) m) : ¬Below (2 * n + 2) m := by
  rintro ⟨j, hj⟩
  obtain ⟨i, hi⟩ := h
  rcases Nat.lt_or_ge j i with hlt | hge
  · have hle := Nat.div_le_div_left (a := m + 1) (Nat.pow_le_pow_right Nat.two_pos hlt) (Nat.two_pow_pos _)
    rw [Nat.pow_succ, ← Nat.div_div_eq_div_mul] at hle
    omega
  · have hle := Nat.div_le_div_left (a := m + 1) (Nat.pow_le_pow_right Nat.two_pos hge) (Nat.two_pow_pos _)
    omega

theorem not_below {n c : Nat} (h : n < c) : ¬Below c n := by
  rintro ⟨j, hj⟩
  have hle := Nat.div_le_self (n + 1) (2 ^ j)
  omega

theorem ofHeap_congr {f g : Nat → Bool} {n : Nat} (h : ∀ m, Below n m → f m = g m) : ofHeap f l n = ofHeap g l n := by
  induction l generalizing n with
  | zero => rfl
  | succ l ih =>
    rw [ofHeap, ofHeap, h n ⟨0, by omega⟩, ih fun m hm => h m (hm.child (by omega)),
      ih fun m hm => h m (hm.child (by omega))]

end Tree

/-! ## The policy -/

/-- The number of turns of `while (m_effective_assoc < assoc)` is at most the width of the counter. -/
def effectiveAssoc (assoc : Nat) : Nat := (range 32).foldl (fun e _ => if e < assoc then 2 * e else e) 1

/-- The loop that halves the effective associativity until it is 0. -/
def halvings : Nat → Nat → Nat
  | 0, _ => 0
  | fuel + 1, assoc => if assoc / 2 = 0 then 0 else halvings fuel (assoc / 2) + 1

def numLevels (assoc : Nat) : Nat := halvings 32 (effectiveAssoc assoc)

namespace PseudoLRUPolicy

def mark (t : BitVec 64) (treeIndex : Nat) (nodeVal : Bool) : BitVec 64 :=
  if nodeVal then t ||| 1#64 <<< treeIndex else t &&& ~~~(1#64 <<< treeIndex)

/-- The loop of `touch`, from level `i - 1` down. -/
def touchLoop (index : Nat) : Nat → Nat → BitVec 64 → BitVec 64
  | 0, _, t => t
  | i + 1, treeIndex, t =>
    let nodeVal := index.testBit i
    touchLoop index i (if nodeVal then 2 * treeIndex + 2 else 2 * treeIndex + 1) (mark t treeIndex nodeVal)

/-- The loop of `getVictim`, with the turns left and the counter `i`. -/
def victimLoop (effective : Nat) (t : BitVec 64) : Nat → Nat → Nat → Nat → Nat
  | 0, _, _, index => index
  | left + 1, i, treeIndex, index =>
    if t.getLsbD treeIndex then victimLoop effective t left (i + 1) (2 * treeIndex + 1) index
    else victimLoop effective t left (i + 1) (2 * treeIndex + 2) (index + effective >>> (i + 1))

abbrev Trees := Nat → BitVec 64

section

variable (numSets assoc set : Nat) (trees : Trees)

def touch (a : Nat × Nat) : Except Fault Trees := do
  ensure .assert (a.2 < assoc)
  ensure .assert (a.1 < numSets)
  .ok (Function.update trees a.1 (touchLoop a.2 (numLevels assoc) 0 (trees a.1)))

def getVictim : Except Fault Nat := do
  let index := victimLoop (effectiveAssoc assoc) (trees set) (numLevels assoc) 0 0 0
  ensure .assert (index < effectiveAssoc assoc)
  .ok (if assoc - 1 < index then assoc - 1 else index)

/-- The ways of `k` turns that each touch the victim. -/
def fill : Nat → Trees → Except Fault (List Nat)
  | 0, _ => .ok []
  | k + 1, trees => do
    let victim ← getVictim assoc set trees
    let trees ← touch numSets assoc trees (set, victim)
    let rest ← fill k trees
    .ok (victim :: rest)

end

variable {numSets assoc set l n m w : Nat} {trees : Trees} {t : BitVec 64} {b : Bool}

open Ruby.Tree

theorem getLsbD_mark : (mark t n b).getLsbD m = if m = n ∧ n < 64 then b else t.getLsbD m := by
  cases b with
  | true => simp [mark, ← BitVec.twoPow_eq]; grind
  | false => simp [mark, ← BitVec.twoPow_eq]; grind

theorem touchLoop_frame (hm : ¬Below n m) : (touchLoop w l n t).getLsbD m = t.getLsbD m := by
  induction l generalizing n t with
  | zero => rfl
  | succ l ih =>
    rw [touchLoop, ih fun hb => hm (hb.child (by split <;> omega)), getLsbD_mark,
      if_neg fun he => hm ⟨0, by omega⟩]

/-- The walk of `touch` changes only nodes on its path, so the sibling's tree stays as it is. -/
theorem ofHeap_touchLoop (h : (n + 2) * 2 ^ l ≤ 64) :
    ofHeap (touchLoop w l n t).getLsbD l n = (ofHeap t.getLsbD l n).touch w := by
  induction l generalizing n t with
  | zero => rfl
  | succ l ih =>
    rw [Nat.pow_succ', ← Nat.mul_assoc] at h
    have hn : n < 64 := by
      have hle := Nat.le_mul_of_pos_right ((n + 2) * 2) (Nat.two_pow_pos l)
      omega
    have hroot : ∀ {b c}, n < c → (touchLoop w l c (mark t n b)).getLsbD n = b := fun hc => by
      rw [touchLoop_frame (not_below hc), getLsbD_mark, if_pos ⟨rfl, hn⟩]
    have hmark : ∀ {b c}, n < c → ofHeap (mark t n b).getLsbD l c = ofHeap t.getLsbD l c := fun {b c} hc =>
      ofHeap_congr fun m hm => by rw [getLsbD_mark, if_neg (by rintro ⟨rfl, -⟩; exact not_below hc hm)]
    rw [touchLoop, ofHeap, ofHeap, Tree.touch]
    cases w.testBit l with
    | true =>
      rw [if_pos rfl, if_pos rfl, hroot (by omega), ih (Nat.le_trans (Nat.mul_le_mul_right _ (by omega)) h),
        hmark (by omega),
        ofHeap_congr fun m hm => touchLoop_frame (below_disjoint hm), hmark (by omega)]
    | false =>
      rw [if_neg nofun, if_neg nofun, hroot (by omega), ih (Nat.le_trans (Nat.mul_le_mul_right _ (by omega)) h),
        hmark (by omega),
        ofHeap_congr fun m hm => touchLoop_frame fun hb => below_disjoint hb hm, hmark (by omega)]

theorem victimLoop_eq {e i index : Nat} (he : e = 2 ^ (i + l)) :
    victimLoop e t l i n index = index + (ofHeap t.getLsbD l n).victim := by
  induction l generalizing i n index with
  | zero => rfl
  | succ l ih =>
    have hs : e >>> (i + 1) = 2 ^ l := by
      rw [he, Nat.shiftRight_eq_div_pow, Nat.pow_div (by omega) Nat.two_pos]
      congr 1
      omega
    rw [victimLoop, ih (by rw [he]; congr 1; omega), ih (by rw [he]; congr 1; omega), ofHeap, victim]
    split
    · rfl
    · omega

/-- What the constructor computes: `l + 1` levels for the least power of two that is not below the associativity. -/
abbrev Sized (assoc l : Nat) : Prop :=
  numLevels assoc = l + 1 ∧ effectiveAssoc assoc = 2 ^ (l + 1) ∧ 2 ^ l < assoc ∧ assoc ≤ 2 ^ (l + 1)

theorem exists_sized : ∀ a < 33, 2 ≤ a → ∃ l < 5, Sized a l := by decide +kernel

def tree (t : BitVec 64) (l : Nat) : Tree l := ofHeap t.getLsbD l 0

theorem Sized.getVictim_eq (h : Sized assoc l) :
    getVictim assoc set trees = .ok (min (tree (trees set) (l + 1)).victim (assoc - 1)) := by
  have hv : victimLoop (2 ^ (l + 1)) (trees set) (l + 1) 0 0 0 = (tree (trees set) (l + 1)).victim := by
    rw [victimLoop_eq (by rw [Nat.zero_add]), Nat.zero_add, tree]
  rw [getVictim, h.1, h.2.1, hv, ensure_bind (victim_lt _), Nat.min_def]
  split_ifs <;> first | rfl | omega

theorem Sized.tree_touchLoop (h : Sized assoc l) (hl : l < 5) :
    tree (touchLoop w (numLevels assoc) 0 t) (l + 1) = (tree t (l + 1)).touch w := by
  rw [h.1]
  exact ofHeap_touchLoop (Nat.mul_le_mul_left 2 (Nat.pow_le_pow_right Nat.two_pos hl))

theorem Sized.fill_eq (h : Sized assoc l) (hl : l < 5) (ha : assoc = 2 ^ (l + 1)) (hs : set < numSets) (k : Nat) :
    fill numSets assoc set k trees = .ok (victims k (tree (trees set) (l + 1))) := by
  induction k generalizing trees with
  | zero => rfl
  | succ k ih =>
    have hlt := (tree (trees set) (l + 1)).victim_lt
    rw [fill, h.getVictim_eq, ok_bind, Nat.min_eq_left (by omega), touch, ensure_bind (by omega), ensure_bind hs,
      ok_bind,
      ih, Function.update_self, h.tree_touchLoop hl]
    rfl

def lastTouched (as : List (Nat × Nat)) (set : Nat) : Option Nat := (as.reverse.find? (·.1 = set)).map Prod.snd

/-- Every tree is as the last touch of its set has left it. -/
def Follows (assoc : Nat) (as : List (Nat × Nat)) (trees : Trees) : Prop :=
  ∀ set w, lastTouched as set = some w → w < assoc ∧ ∃ t, trees set = touchLoop w (numLevels assoc) 0 t

theorem Follows.step {as : List (Nat × Nat)} {a : Nat × Nat} {trees' : Trees} (h : Follows assoc as trees)
    (hs : touch numSets assoc trees a = .ok trees') : Follows assoc (as ++ [a]) trees' := by
  obtain ⟨hw, hs⟩ := of_ensure hs
  obtain ⟨-, rfl⟩ := of_check hs
  intro set w hlast
  rw [lastTouched, reverse_append, reverse_singleton, singleton_append, find?_cons] at hlast
  split at hlast
  case h_1 hset =>
    obtain rfl := of_decide_eq_true hset
    obtain rfl := Option.some.inj hlast
    exact ⟨hw, _, Function.update_self ..⟩
  case h_2 hset =>
    rw [Function.update_of_ne (.symm (of_decide_eq_false hset))]
    exact h set w hlast

/-- No victim is the way touched last, and replacing the victim again and again goes once through all the ways. -/
theorem getVictim_spec (h2 : 2 ≤ assoc) (h32 : assoc ≤ 32) :
    (∀ as trees, Run (fun t a t' => touch numSets assoc t a = .ok t') (fun _ => 0) as trees → ∀ set < numSets,
      ∃ v < assoc, getVictim assoc set trees = .ok v ∧ lastTouched as set ≠ some v) ∧
    ∀ l, assoc = 2 ^ l → ∀ trees, ∀ set < numSets,
      ∃ ways, fill numSets assoc set assoc trees = .ok ways ∧ ways ~ range assoc := by
  obtain ⟨l, hl, h⟩ := exists_sized assoc (by omega) h2
  refine ⟨fun as trees hr set _ => ⟨_, by omega, h.getVictim_eq, fun hlast => ?_⟩, fun k hk trees set hs => ?_⟩
  · have hf : Follows assoc as trees := hr.history nofun .step
    generalize hv : min (tree (trees set) (l + 1)).victim (assoc - 1) = w at hlast
    obtain ⟨hw, t, ht⟩ := hf set w hlast
    rw [ht, h.tree_touchLoop hl] at hv
    -- the half without the way has a way below the associativity, so the bound does not lead back to it
    obtain ⟨-, -, hlt, hle⟩ := h
    have hne := victim_touch (t := tree t (l + 1)) (Nat.lt_of_lt_of_le hw hle)
    omega
  · obtain rfl : k = l + 1 := by
      have h1 := (Nat.pow_lt_pow_iff_right Nat.one_lt_two).1 (hk ▸ h.2.2.1)
      have h2 := (Nat.pow_le_pow_iff_right Nat.one_lt_two).1 (hk ▸ h.2.2.2)
      omega
    refine ⟨_, h.fill_eq hl hk hs _, ?_⟩
    rw [hk]
    exact victims_perm _

theorem getVictim_four : ∃ ways, fill 1 4 0 4 (fun _ => 5) = .ok ways ∧ ways ~ range 4 :=
  (getVictim_spec (by decide) (by decide)).2 2 rfl _ 0 Nat.one_pos

end PseudoLRUPolicy

end M5.Ruby
