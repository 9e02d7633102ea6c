import Mathlib.Order.Lattice

/-!
# The options of IP and TCP headers

`base/inet.cc`, with `IpOpt::len` and `TcpOpt::len` of `base/inet.hh`. A header is the bytes from its first one on, so
that what `options` reads behind the header is there too, and an option is its offset.
-/

namespace M5.Base.Inet

open List

/-- The bytes from the first one of a header on. -/
abbrev Header := Nat → BitVec 8

variable (b : Header)

/-- `IpOpt::len`, `TcpOpt::len`: of types with no more than a type the length is 1 (`EOL` and `NOP`, 0 and 1 in both
protocols). -/
def optLen (data : Nat) : Nat := if b data = 0 ∨ b data = 1 then 1 else (b (data + 1)).toNat

/-- `while (all > 0)` of `options`: what it returns and `vec`, if it ends within so many turns. -/
def loop : Nat → Int → Nat → List Nat → Option (Bool × List Nat)
  | 0, _, _, _ => none
  | k + 1, all, data, vec =>
    if 0 < all then
      if all < optLen b data then some (false, vec)
      else loop k (all - optLen b data) (data + optLen b data) (vec ++ [data])
    else some (true, vec)

/-- `ip_hl`, the low half of the first byte. -/
def IpHdr.ip_hl : Nat := (b 0).toNat % 16

def IpHdr.hlen : Nat := ip_hl b * 4

/-- `IpHdr::options`, if it ends within `k` turns. The difference of unsigned numbers is negative as an `int` where the
header is too short. -/
def IpHdr.options (k : Nat) : Option (Bool × List Nat) := loop b k (hlen b - 20) 20 []

/-- `th_off`, the high half of the thirteenth byte: the length of the header in words. -/
def TcpHdr.th_off : Nat := (b 12).toNat / 16

def TcpHdr.off : Nat := th_off b

/-- `TcpHdr::options`, if it ends within `k` turns. -/
def TcpHdr.options (k : Nat) : Option (Bool × List Nat) := loop b k (off b - 20) 20 []

/-! ## Options in a row -/

/-- The options `vec` stand one behind the other from `start` to `stop`. -/
inductive Covers : Nat → Nat → List Nat → Prop
  | nil {a : Nat} : Covers a a []
  | cons {a stop : Nat} {vec : List Nat} (h : Covers (a + optLen b a) stop vec) : Covers a stop (a :: vec)

/-- Parsing ends, and where it returns true the options cover the area behind the fixed part of a header of `len`
bytes. -/
structure Parses (len : Nat) (options : Nat → Option (Bool × List Nat)) : Prop where
  ends : ∃ k r, options k = some r
  covers : ∀ k vec, options k = some (true, vec) → Covers b 20 (max 20 len) vec

variable {b} {a c stop k : Nat} {v vec : List Nat}

theorem Covers.le (h : Covers b a c vec) : a ≤ c := by
  induction h with
  | nil => exact le_rfl
  | cons _ ih => exact (Nat.le_add_right _ _).trans ih

theorem Covers.snoc (h : Covers b a c vec) : Covers b a (c + optLen b c) (vec ++ [c]) := by
  induction h with
  | nil => exact .cons .nil
  | cons _ ih => exact .cons ih

theorem loop_succ (h : a < stop) (hl : a + optLen b a ≤ stop) :
    loop b (k + 1) (stop - a) a v = loop b k (stop - (a + optLen b a : Nat)) (a + optLen b a) (v ++ [a]) := by
  rw [loop, if_pos (by omega), if_neg (by omega)]
  congr 1
  omega

/-- Where the loop returns true, its options cover the area. -/
theorem loop_covers : ∀ {k a : Nat} {v : List Nat}, loop b k (stop - a) a v = some (true, vec) →
    ∃ w, vec = v ++ w ∧ Covers b a (max a stop) w
  | 0, _, _, h => by cases h
  | k + 1, a, v, h => by
    by_cases ha : a < stop
    · by_cases hl : a + optLen b a ≤ stop
      · rw [loop_succ ha hl] at h
        obtain ⟨w, rfl, hw⟩ := loop_covers h
        rw [max_eq_right hl] at hw
        exact ⟨a :: w, by simp, by rw [max_eq_right ha.le]; exact hw.cons⟩
      · rw [loop, if_pos (by omega), if_pos (by omega)] at h
        cases h
    · rw [loop, if_neg (by omega)] at h
      cases h
      exact ⟨[], by simp, by rw [max_eq_left (not_lt.1 ha)]; exact .nil⟩

/-- The loop ends unless it comes to an option of length zero. -/
theorem loop_ends {start : Nat} (h0 : ∀ c w, Covers b start c w → c < stop → optLen b c ≠ 0) :
    ∀ {k a : Nat} {w v : List Nat}, Covers b start a w → stop ≤ a + k → ∃ r, loop b (k + 1) (stop - a) a v = some r
  | 0, _, _, v, _, hk => ⟨(true, v), by rw [loop, if_neg (by omega)]⟩
  | k + 1, a, w, v, hw, hk => by
    by_cases ha : a < stop
    · by_cases hl : a + optLen b a ≤ stop
      · have := h0 a w hw ha
        rw [loop_succ ha hl]
        exact loop_ends h0 hw.snoc (by omega)
      · exact ⟨(false, v), by rw [loop, if_pos (by omega), if_pos (by omega)]⟩
    · exact ⟨(true, v), by rw [loop, if_neg (by omega)]⟩

/-- At an option of length zero the loop stays. -/
theorem loop_stays (ha : a < stop) (h0 : optLen b a = 0) : ∀ {k : Nat} {v : List Nat}, loop b k (stop - a) a v = none
  | 0, _ => rfl
  | k + 1, v => by
    rw [loop_succ ha (by omega), h0]
    exact loop_stays ha h0

theorem Covers.reaches (h : Covers b a c vec) (hc : c < stop) :
    ∀ {k : Nat} {v : List Nat} {r : Bool × List Nat}, loop b k (stop - a) a v = some r →
      ∃ k v, loop b k (stop - c) c v = some r := by
  induction h with
  | nil => exact fun h => ⟨_, _, h⟩
  | cons h ih =>
    intro k v r hr
    have hl := h.le
    cases k with
    | zero => cases hr
    | succ k =>
      rw [loop_succ (by omega) (by omega)] at hr
      exact ih hc hr

theorem not_ends (h : Covers b a c vec) (hc : c < stop) (h0 : optLen b c = 0) (r : Bool × List Nat) :
    loop b k (stop - a) a v ≠ some r := by
  intro hr
  obtain ⟨k, v, hr⟩ := h.reaches hc hr
  rw [loop_stays hc h0] at hr
  cases hr

variable (b)

theorem tcp_options (k : Nat) : TcpHdr.options b (k + 1) = some (true, []) := by
  rw [TcpHdr.options, loop, if_neg]
  simp only [TcpHdr.off, TcpHdr.th_off]
  omega

/-- IP options are parsed unless one of length zero is reached. TCP options are parsed only where there are none: `off`
gives words, so it is always less than the length of the fixed part. -/
theorem parses_options_iff :
    (Parses b (IpHdr.hlen b) (IpHdr.options b) ↔
      ∀ c vec, Covers b 20 c vec → c < IpHdr.hlen b → optLen b c ≠ 0) ∧
    (Parses b (TcpHdr.th_off b * 4) (TcpHdr.options b) ↔ TcpHdr.th_off b ≤ 5) := by
  refine ⟨⟨fun h c vec hc hlt h0 => ?_, fun h => ⟨?_, ?_⟩⟩, ⟨fun h => ?_, fun h => ⟨⟨1, _, tcp_options b 0⟩, ?_⟩⟩⟩
  · obtain ⟨k, r, hr⟩ := h.ends
    exact not_ends hc hlt h0 r hr
  · exact ⟨_, loop_ends h .nil (Nat.le_add_left _ 20)⟩
  · intro k vec hv
    obtain ⟨w, rfl, hw⟩ := loop_covers hv
    exact hw
  · have hc := h.covers 1 [] (tcp_options b 0)
    generalize hm : max 20 (TcpHdr.th_off b * 4) = m at hc
    cases hc
    omega
  · intro k vec hv
    cases k with
    | zero => cases hv
    | succ k =>
      cases (tcp_options b k).symm.trans hv
      rw [max_eq_left (by omega)]
      exact .nil

/-- A record route option of length zero, in an IP header of six words. -/
def zeroLength : Header := fun i => if i = 0 then 0x46 else if i = 20 then 7 else 0

/-- A TCP header of six words with four times `NOP`. -/
def fourNops : Header := fun i => if i = 12 then 0x60 else 1

/-- The parser never ends on the one, and finds no option in the other. -/
theorem not_parses_options : ¬ Parses zeroLength (IpHdr.hlen zeroLength) (IpHdr.options zeroLength) ∧
    ¬ Parses fourNops (TcpHdr.th_off fourNops * 4) (TcpHdr.options fourNops) := by
  refine ⟨fun h => ?_, fun h => ?_⟩
  · obtain ⟨k, r, hr⟩ := h.ends
    exact not_ends .nil (by decide) (by decide) r hr
  · cases h.covers 1 [] (tcp_options _ 0)

end M5.Base.Inet
