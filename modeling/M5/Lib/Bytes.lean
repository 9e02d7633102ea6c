import Mathlib.Algebra.Order.Ring.Int

/-!
# Bytes

A buffer is a function from offsets to bytes. `blit m a n d` is `m` with the first `n` bytes of `d` copied to the
offsets from `a` on; every `memcpy` is one. `leValue m a n` is the number that `n` bytes from `a` on spell.
-/

namespace M5.Lib

universe u

variable {β : Type u} {m m' d d' : Nat → β} {a n x : Nat}

/-- Copy the first `n` bytes of `d` to `a`. -/
def blit (m : Nat → β) (a n : Nat) (d : Nat → β) : Nat → β :=
  fun x => if a ≤ x ∧ x < a + n then d (x - a) else m x

theorem blit_of_mem (h1 : a ≤ x) (h2 : x < a + n) : blit m a n d x = d (x - a) := if_pos ⟨h1, h2⟩

theorem blit_of_not_mem (h : ¬ (a ≤ x ∧ x < a + n)) : blit m a n d x = m x := if_neg h

theorem blit_congr (h : m x = m' x) : blit m a n d x = blit m' a n d x := by
  unfold blit
  rw [h]

theorem blit_add {c : Nat} : blit m (c + a) n d (c + x) = blit (fun y => m (c + y)) a n d x := by
  by_cases h : a ≤ x ∧ x < a + n
  · rw [blit_of_mem h.1 h.2, blit_of_mem (by omega) (by omega), Nat.add_sub_add_left]
  · rw [blit_of_not_mem h, blit_of_not_mem (by omega)]

/-- Byte `i` of a number in little-endian order. -/
def leByte (v i : Nat) : UInt8 := .ofNat (v / 256 ^ i)

/-! ## Numbers in little-endian order -/

section numbers

variable {m m' : Nat → UInt8}

/-- The number in the `n` bytes from `a` on. -/
def leValue (m : Nat → UInt8) (a : Nat) : Nat → Nat
  | 0 => 0
  | n + 1 => (m a).toNat + 256 * leValue m (a + 1) n

theorem leValue_lt (m : Nat → UInt8) : ∀ a n, leValue m a n < 256 ^ n
  | _, 0 => Nat.one_pos
  | a, n + 1 => by
    have hb := (m a).toNat_lt
    have h := leValue_lt m (a + 1) n
    rw [leValue]
    omega

theorem leValue_congr : ∀ {a n : Nat}, (∀ x, a ≤ x → x < a + n → m x = m' x) → leValue m a n = leValue m' a n
  | _, 0, _ => rfl
  | a, n + 1, h => by
    rw [leValue, leValue, h a (Nat.le_refl a) (by omega), leValue_congr fun x h1 h2 => h x (by omega) (by omega)]

theorem leByte_succ (v i : Nat) : leByte v (i + 1) = leByte (v / 256) i := by
  unfold leByte
  rw [Nat.pow_succ', Nat.div_div_eq_div_mul]

theorem leValue_eq : ∀ {a n v : Nat}, (∀ i < n, m (a + i) = leByte v i) → leValue m a n = v % 256 ^ n
  | _, 0, v, _ => by rw [leValue, Nat.pow_zero, Nat.mod_one]
  | a, n + 1, v, h => by
    have hrest : leValue m (a + 1) n = v / 256 % 256 ^ n := by
      refine leValue_eq fun i hi => ?_
      rw [Nat.add_assoc, Nat.add_comm 1 i, h (i + 1) (by omega), leByte_succ]
    have h0 : (m a).toNat = v % 256 := by
      rw [show m a = leByte v 0 from h 0 (by omega), leByte, Nat.pow_zero, Nat.div_one, UInt8.toNat_ofNat']
    rw [leValue, hrest, h0, Nat.pow_succ', Nat.mod_mul]

/-- What is written is read back. -/
theorem leValue_blit {v : Nat} (h : v < 256 ^ n) : leValue (blit m a n (leByte v)) a n = v := by
  rw [leValue_eq, Nat.mod_eq_of_lt h]
  intro i hi
  rw [blit_of_mem (by omega) (by omega), Nat.add_sub_cancel_left]

theorem leValue_blit_of_disjoint {b k : Nat} {d : Nat → UInt8} (h : b + k ≤ a ∨ a + n ≤ b) :
    leValue (blit m a n d) b k = leValue m b k :=
  leValue_congr fun _ _ _ => blit_of_not_mem (by omega)

end numbers

end M5.Lib
