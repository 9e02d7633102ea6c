import Mathlib.Data.Set.Function
import Mathlib.Data.Nat.Bitwise

/-!
# Fields of a bit vector

Masks of ones, shifted, cut a field out of a bit vector. The lemmas turn each of them into arithmetic on the number that
the bit vector stands for.
-/

namespace M5.Lib

open Nat BitVec

variable {w : Nat} (a : BitVec w) (k : Nat)

theorem toNat_lowBits : (a &&& ~~~(allOnes w <<< k)).toNat = a.toNat % 2 ^ k := by
  refine eq_of_testBit_eq fun i => ?_
  rw [testBit_toNat, testBit_mod_two_pow, testBit_toNat]
  by_cases hi : i < w
  · by_cases hk : i < k
    · simp [hi, hk]
    · simp [hi, hk]
  · simp [getLsbD_of_ge _ _ (Nat.le_of_not_lt hi)]

theorem toNat_highBits : (a &&& (allOnes w <<< k)).toNat = a.toNat / 2 ^ k * 2 ^ k := by
  refine eq_of_testBit_eq fun i => ?_
  rw [testBit_toNat, testBit_mul_two_pow, testBit_div_two_pow, testBit_toNat]
  by_cases hi : i < w
  · by_cases hk : k ≤ i
    · simp [hi, hk, Nat.not_lt.2 hk]
    · simp [hi, hk, Nat.lt_of_not_le hk]
  · by_cases hk : k ≤ i
    · simp [hk, getLsbD_of_ge _ _ (Nat.le_of_not_lt hi)]
    · simp [hk, getLsbD_of_ge _ _ (Nat.le_of_not_lt hi)]

theorem toNat_restBits : (a &&& (allOnes w >>> k)).toNat = a.toNat % 2 ^ (w - k) := by
  refine eq_of_testBit_eq fun i => ?_
  by_cases hi : k + i < w
  · simp [hi, show i < w - k by omega]
  · simp [hi, show ¬ i < w - k by omega]

/-- The multiples of `2 ^ b` below `2 ^ (s + d)` are told apart by their bits from `s` on and those between `b` and
`s`, and all combinations occur. -/
theorem bijOn_fields {b s d : Nat} (h : b ≤ s) :
    Set.BijOn (fun x => (x / 2 ^ s, x % 2 ^ s / 2 ^ b)) {x | x < 2 ^ (s + d) ∧ 2 ^ b ∣ x}
      {y | y.1 < 2 ^ d ∧ y.2 < 2 ^ (s - b)} := by
  have hs : 2 ^ s = 2 ^ b * 2 ^ (s - b) := by rw [← Nat.pow_add, Nat.add_sub_cancel' h]
  have hb : 0 < 2 ^ b := Nat.two_pow_pos b
  refine ⟨?_, ?_, ?_⟩
  · rintro x ⟨hx, -⟩
    refine ⟨Nat.div_lt_of_lt_mul (Nat.pow_add 2 s d ▸ hx), Nat.div_lt_of_lt_mul ?_⟩
    rw [← hs]
    exact mod_lt _ (Nat.two_pow_pos s)
  · rintro x ⟨-, hx⟩ y ⟨-, hy⟩ he
    obtain ⟨h1, h2⟩ := Prod.mk.inj he
    have hd : ∀ {z}, 2 ^ b ∣ z → 2 ^ b ∣ z % 2 ^ s := fun hz => (dvd_mod_iff ⟨_, hs⟩).2 hz
    have h3 : x % 2 ^ s = y % 2 ^ s := by rw [← Nat.mul_div_cancel' (hd hx), ← Nat.mul_div_cancel' (hd hy), h2]
    rw [← div_add_mod x (2 ^ s), ← div_add_mod y (2 ^ s), h1, h3]
  · rintro ⟨v, i⟩ ⟨hv, hi⟩
    have hi' : 2 ^ b * i < 2 ^ s := hs ▸ Nat.mul_lt_mul_of_pos_left hi hb
    refine ⟨2 ^ s * v + 2 ^ b * i, ⟨?_, ?_⟩, Prod.ext ?_ ?_⟩
    · calc 2 ^ s * v + 2 ^ b * i < 2 ^ s * v + 2 ^ s := Nat.add_lt_add_left hi' _
        _ = 2 ^ s * (v + 1) := rfl
        _ ≤ 2 ^ s * 2 ^ d := Nat.mul_le_mul_left _ hv
        _ = 2 ^ (s + d) := (Nat.pow_add 2 s d).symm
    · exact Nat.dvd_add (Nat.dvd_mul_right_of_dvd ⟨_, hs⟩ v) (Nat.dvd_mul_right _ i)
    · show (2 ^ s * v + 2 ^ b * i) / 2 ^ s = v
      rw [mul_add_div (Nat.two_pow_pos s), div_eq_of_lt hi', Nat.add_zero]
    · show (2 ^ s * v + 2 ^ b * i) % 2 ^ s / 2 ^ b = i
      rw [mul_add_mod, mod_eq_of_lt hi', Nat.mul_div_cancel_left _ hb]

theorem and_shiftLeft_ones (v w l : Nat) : v &&& ((2 ^ w - 1) <<< l) = v / 2 ^ l % 2 ^ w * 2 ^ l := by
  refine eq_of_testBit_eq fun i => ?_
  rw [testBit_and, testBit_shiftLeft, testBit_mul_two_pow, testBit_two_pow_sub_one,
    testBit_mod_two_pow, testBit_div_two_pow]
  by_cases h : l ≤ i
  · simp [h, Bool.and_comm]
  · simp [h]

end M5.Lib
