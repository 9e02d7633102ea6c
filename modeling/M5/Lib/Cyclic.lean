import Mathlib.Data.ZMod.Basic

/-!
# Maps on a circle

A partial map on the numbers modulo `N`, and operations on the `n` places from `a` on. Each operation is described at
once for all places, and the lemmas peel off the first place: a loop over the places does the same.
-/

namespace M5.Lib

open Function Nat

universe u

namespace Cyclic

variable {N : Nat} {V : Type u} {m : ZMod N → Option V} {a b p : ZMod N} {n : Nat}

/-- `p` is one of the `n` places from `a` on. -/
def Within (a : ZMod N) (n : Nat) (p : ZMod N) : Prop := (p - a).val < n

instance : Decidable (Within a n p) := inferInstanceAs (Decidable (_ < _))

/-- Give every place a value. -/
def fill (m : ZMod N → Option V) (a : ZMod N) (n : Nat) (f : Nat → V) (p : ZMod N) : Option V :=
  if Within a n p then some (f (p - a).val) else m p

/-- Give no place a value. -/
def clear (m : ZMod N → Option V) (a : ZMod N) (n : Nat) (p : ZMod N) : Option V :=
  if Within a n p then none else m p

/-- Carry the values over to the places from `b` on. A loop does so only if `b` is not among the places that it still
has to read, which is the hypothesis of `move_succ`. -/
def move (m : ZMod N → Option V) (a : ZMod N) (n : Nat) (b p : ZMod N) : Option V :=
  if Within b n p then m (a + (p - b)) else if Within a n p then none else m p

theorem within_self (h : 0 < n) : Within a n a := by
  rw [Within, sub_self, ZMod.val_zero]
  exact h

variable [NeZero N]

theorem val_add_one {x : ZMod N} (h : x + 1 ≠ 0) : (x + 1).val = x.val + 1 := by
  rcases eq_or_ne N 1 with rfl | hN
  · exact absurd (Subsingleton.elim _ _) h
  · have hlt : x.val + 1 < N := by
      refine lt_of_le_of_ne (ZMod.val_lt x) fun he => h ?_
      rw [← ZMod.natCast_zmod_val x, ← cast_succ, succ_eq_add_one, he, ZMod.natCast_self]
    rw [← ZMod.val_one'' hN] at hlt ⊢
    exact ZMod.val_add_of_lt hlt

theorem val_sub_succ (h : p ≠ a) : (p - a).val = (p - (a + 1)).val + 1 := by
  have he : p - a = p - (a + 1) + 1 := by rw [sub_add_eq_sub_sub, sub_add_cancel]
  rw [he, val_add_one]
  rw [← he]
  exact sub_ne_zero.2 h

theorem not_within_succ (h : n < N) : ¬ Within (a + 1) n a := by
  rw [Within, sub_add_cancel_left]
  have h0 : (-1 : ZMod N).val + 1 = N := by
    by_contra hne
    have hlt : (-1 : ZMod N).val + 1 < N := lt_of_le_of_ne (ZMod.val_lt _) hne
    have hN : 1 < N := lt_of_le_of_lt (le_add_left 1 _) hlt
    have hz : ((-1 : ZMod N) + 1).val = (-1 : ZMod N).val + 1 := by
      rw [ZMod.val_add, ZMod.val_one'' hN.ne', mod_eq_of_lt hlt]
    rw [neg_add_cancel, ZMod.val_zero] at hz
    exact absurd hz (succ_ne_zero _).symm
  omega

theorem within_succ_of_ne (h : p ≠ a) : Within a (n + 1) p ↔ Within (a + 1) n p := by
  rw [Within, Within, val_sub_succ h, add_lt_add_iff_right]

/-- The first turn of a loop that fills. -/
theorem fill_succ (f : Nat → V) (h : n < N) :
    fill m a (n + 1) f = fill (update m a (some (f 0))) (a + 1) n fun i => f (i + 1) := by
  funext p
  by_cases hp : p = a
  · subst hp
    rw [fill, fill, if_pos (within_self (succ_pos n)), if_neg (not_within_succ h), sub_self, ZMod.val_zero,
      update_self]
  · simp only [fill, within_succ_of_ne hp, val_sub_succ hp, update_of_ne hp]

theorem clear_succ (h : n < N) : clear m a (n + 1) = clear (update m a none) (a + 1) n := by
  funext p
  by_cases hp : p = a
  · subst hp
    rw [clear, clear, if_pos (within_self (succ_pos n)), if_neg (not_within_succ h), update_self]
  · simp only [clear, within_succ_of_ne hp, update_of_ne hp]

/-- The first turn of a loop that moves. -/
theorem move_succ (h : n < N) (hab : n + 1 ≤ (b - a).val) :
    move m a (n + 1) b = move (update (update m b (m a)) a none) (a + 1) n (b + 1) := by
  have hne : b ≠ a := by
    rintro rfl
    rw [sub_self, ZMod.val_zero] at hab
    exact absurd hab (not_succ_le_zero n)
  funext p
  by_cases hb : p = b
  · subst hb
    have ha : ¬ Within (a + 1) n p := by
      rw [← within_succ_of_ne hne]
      exact not_lt.2 hab
    rw [move, move, if_pos (within_self (succ_pos n)), if_neg (not_within_succ h), if_neg ha, sub_self, add_zero,
      update_of_ne hne, update_self]
  · have hw : Within b (n + 1) p ↔ Within (b + 1) n p := within_succ_of_ne hb
    by_cases hbn : Within (b + 1) n p
    · -- the values read later are not those at `a` and `b`
      have hlt : (p - (b + 1)).val < n := hbn
      have hsum : a + 1 + (p - (b + 1)) = a + (p - b) := by rw [sub_add_eq_sub_sub, add_assoc, add_sub_cancel]
      have hna : a + (p - b) ≠ a := fun he => hb (sub_eq_zero.1 (add_eq_left.1 he))
      have hnb : a + (p - b) ≠ b := by
        intro he
        have : p - b = b - a := eq_sub_of_add_eq' he
        rw [← this, val_sub_succ hb] at hab
        omega
      rw [move, move, if_pos (hw.2 hbn), if_pos hbn, hsum, update_of_ne hna, update_of_ne hnb]
    · rw [move, move, if_neg (hw.not.2 hbn), if_neg hbn]
      by_cases ha : p = a
      · subst ha
        rw [if_pos (within_self (succ_pos n)), if_neg (not_within_succ h), update_self]
      · simp only [within_succ_of_ne ha, update_of_ne ha, update_of_ne hb]

end Cyclic

end M5.Lib
