import Mathlib.Data.List.Chain
import Mathlib.Data.List.DropRight
import Mathlib.Data.List.Infix
import Mathlib.Data.Nat.Digits.Defs

/-!
# Texts and numbers

`base/str.cc` and `base/str.hh`, with the integer types of the host. A value of a type carries its range, and arithmetic
on it wraps. A text is the list of its characters, read one after the other; behind its end `value[i]` is the
terminator.
-/

namespace M5.Base

open List Nat Bool Int Option

abbrev Text := List Char

/-! ## Blanks -/

variable (s : Text)

/-- `eat_lead_white`: a text of blanks only stays as it is. -/
def eatLeadWhite : Text := if s.all (· == ' ') then s else s.dropWhile (· == ' ')

def eatEndWhite : Text := if s.all (· == ' ') then s else s.rdropWhile (· == ' ')

def eatWhite : Text := eatEndWhite (eatLeadWhite s)

def toLower : Text := s.map .toLower

/-! ## Tokens -/

/-- The loops of `tokenize`, one character at a time: `none` stands for the search for the start of a token. -/
def tokenizeLoop (token : Char) (ignore : Bool) : Option Text → Text → List Text
  | none, [] => []
  | some w, [] => [w]
  | none, c :: s => if c = token then tokenizeLoop token ignore none s else tokenizeLoop token ignore (some [c]) s
  | some w, c :: s =>
    if c = token then w :: tokenizeLoop token ignore (if ignore then none else some []) s
    else tokenizeLoop token ignore (some (w ++ [c])) s

def tokenize (token : Char) (ignore : Bool) : List Text :=
  if s.isEmpty then [] else tokenizeLoop token ignore (if ignore then none else some []) s

/-! ## Integer types -/

/-- The integer types for which `to_number` is instantiated. -/
inductive IntType
  | signedChar | unsignedChar | signedShort | unsignedShort | signedInt | unsignedInt | signedLong | unsignedLong
  | signedLongLong | unsignedLongLong
deriving DecidableEq

namespace IntType

/-- `sizeof(T) * 8`, on a 64-bit host. -/
def bits : IntType → Nat
  | signedChar | unsignedChar => 8
  | signedShort | unsignedShort => 16
  | signedInt | unsignedInt => 32
  | signedLong | unsignedLong | signedLongLong | unsignedLongLong => 64

def signed : IntType → Bool
  | signedChar | signedShort | signedInt | signedLong | signedLongLong => true
  | unsignedChar | unsignedShort | unsignedInt | unsignedLong | unsignedLongLong => false

def digits (T : IntType) : Nat := if T.signed then T.bits - 1 else T.bits

def min (T : IntType) : Int := if T.signed then -2 ^ (T.bits - 1) else 0

def max (T : IntType) : Int := 2 ^ T.digits - 1

theorem max_eq (T : IntType) : T.max = T.min + 2 ^ T.bits - 1 := by cases T <;> decide

theorem bounds (T : IntType) : T.min ≤ 0 ∧ 127 ≤ T.max := by cases T <;> decide

structure Value (T : IntType) where
  val : Int
  ge : T.min ≤ val
  le : val ≤ T.max
deriving DecidableEq

variable {T : IntType}

theorem Value.ext : ∀ {v w : T.Value}, v.val = w.val → v = w
  | ⟨_, _, _⟩, ⟨_, _, _⟩, rfl => rfl

/-- Conversion to the type: the value that is equal modulo `2 ^ bits`. -/
def cast (T : IntType) (x : Int) : T.Value where
  val := (x - T.min) % 2 ^ T.bits + T.min
  ge := by
    omega
  le := by
    rw [max_eq]
    omega

theorem cast_val {x : Int} (h1 : T.min ≤ x) (h2 : x ≤ T.max) : (T.cast x).val = x := by
  rw [max_eq] at h2
  show (x - T.min) % 2 ^ T.bits + T.min = x
  rw [emod_eq_of_lt (by omega) (by omega)]
  omega

theorem cast_small {x : Int} (h0 : 0 ≤ x) (h : x ≤ 127) : (T.cast x).val = x := by
  have hb := T.bounds
  exact cast_val (by omega) (by omega)

@[simp] theorem cast_val_self (v : T.Value) : T.cast v.val = v := Value.ext (cast_val v.ge v.le)

theorem cast_val_of_gt {x : Int} (h1 : T.max < x) (h2 : x ≤ T.max + 10) : (T.cast x).val < 10 := by
  have hm := T.bounds
  have he := T.max_eq
  show (x - T.min) % 2 ^ T.bits + T.min < 10
  have hmod : (x - T.min) % 2 ^ T.bits = x - T.min - 2 ^ T.bits := by
    rw [← sub_emod_right, emod_eq_of_lt (by omega) (by omega)]
  omega

end IntType

/-! ## Reading numbers -/

variable (c : Char)

def isDec : Bool := '0' ≤ c && c ≤ '9'

def isOct : Bool := '0' ≤ c && c ≤ '7'

def isHex : Bool := ('0' ≤ c && c ≤ '9') || ('A' ≤ c && c ≤ 'F') || ('a' ≤ c && c ≤ 'f')

def digit : Int := (c.toNat : Int) - 48

def hex2Int : Int :=
  if '0' ≤ c && c ≤ '9' then c.toNat - 48
  else if 'A' ≤ c && c ≤ 'F' then c.toNat - 65 + 10
  else if 'a' ≤ c && c ≤ 'f' then c.toNat - 97 + 10
  else 0

namespace IntType

variable (T : IntType)

def hexmax : Int := 2 ^ (T.digits - 4) - 1

def octmax : Int := 2 ^ (T.digits - 3) - 1

def decmax : Int := T.max / 10

variable (negative : Bool) (retval : T.Value) (c : Char)

def push (base d : Int) : T.Value := T.cast ((T.cast (retval.val * base)).val + d)

/-- `retval & ((T)1 << (sizeof(T) * 8 - 1))`. -/
def top : Bool := decide (2 ^ (T.bits - 1) ≤ retval.val % 2 ^ T.bits)

/-- The loops for hexadecimal and for octal numbers. -/
def baseLoop (base bound : Int) (isDigit : Char → Bool) (toInt : Char → Int) : T.Value → Text → Option T.Value
  | retval, [] => some retval
  | retval, c :: s =>
    if !isDigit c then none
    else if retval.val > bound then none
    else baseLoop base bound isDigit toInt (T.push retval base (toInt c)) s

def hexLoop : T.Value → Text → Option T.Value := T.baseLoop 16 T.hexmax isHex hex2Int

def octLoop : T.Value → Text → Option T.Value := T.baseLoop 8 T.octmax isOct digit

def finish : Option T.Value :=
  if T.signed && negative then
    if T.top retval && decide (retval.val ≥ (T.cast (-T.max)).val) then none else some (T.cast (-retval.val))
  else if T.signed && T.top retval then none
  else some retval

def exponent : signedLongLong.Value → Text → Option signedLongLong.Value
  | mult, [] => some mult
  | mult, c :: s => if !isDec c then none else exponent (signedLongLong.push mult 10 (digit c)) s

/-- `for (i = 0; i < mult; i++)`. -/
def scale : Nat → T.Value → Option T.Value
  | 0, retval => some retval
  | n + 1, retval =>
    if retval.val > T.max / 10 then none
    else
      let retval := T.cast (retval.val * 10)
      if T.signed && T.top retval then none else scale n retval

/-- The factor of a suffix. -/
def multiplier : Option Int :=
  if c = 'k' ∨ c = 'K' then some 1024
  else if c = 'm' ∨ c = 'M' then some (1024 * 1024)
  else if c = 'g' ∨ c = 'G' then some (1024 * 1024 * 1024)
  else none

/-- From the label `multiply` on, at the character `c` with `s` behind it. -/
def multiply (s : Text) : Option T.Value :=
  match multiplier c with
  | some mult =>
    if !s.isEmpty then none
    else if T.signed && negative then none
    else if mult > T.max then none
    else if retval.val > (T.cast (T.max / mult)).val then none
    else some (T.cast (retval.val * mult))
  | none =>
    if c = 'e' ∨ c = 'E' then
      if s.isEmpty then none
      else do
        let mult ← exponent (signedLongLong.cast 0) s
        let retval ← T.scale mult.val.toNat retval
        T.finish negative retval
    else none

/-- One more decimal digit, with the test for overflow. -/
def decDigit : Option T.Value :=
  if retval.val > T.decmax then none
  else
    let atmax := retval.val == T.decmax
    let retval := T.push retval 10 (digit c)
    if atmax && retval.val < T.decmax then none else some retval

/-- The decimal loop from the third character on; the last character is treated apart. -/
def decLoop (negative : Bool) : T.Value → Text → Option T.Value
  | _, [] => none
  | retval, [c] => if isDec c then (T.decDigit retval c).bind (T.finish negative) else T.multiply negative retval c []
  | retval, c :: s =>
    if isDec c then do
      let retval ← T.decDigit retval c
      if T.signed && T.top retval then none else decLoop negative retval s
    else T.multiply negative retval c s

def afterZero : Text → Option T.Value
  | [] => none
  | c :: s =>
    if isOct c then T.octLoop (T.cast (digit c)) s
    else if c = 'X' ∨ c = 'x' then if s.isEmpty then none else T.hexLoop (T.cast 0) s
    else none

def second : Text → Option T.Value
  -- a sign and nothing else: the terminator is no suffix
  | [] => none
  | c :: s =>
    if !isDec c then T.multiply negative retval c s
    else if T.signed && negative && c == '0' then none
    else
      let retval := T.push retval 10 (digit c)
      if s.isEmpty then some (if T.signed && negative then T.cast (-retval.val) else retval)
      else T.decLoop negative retval s

/-- `__to_number`, with the decimal, octal and hexadecimal forms, and the suffixes k, m, g and e. -/
def toNumber (value : Text) : Option T.Value :=
  match eatWhite value with
  | [] => none
  | c :: s =>
    if isDec c then
      if s.isEmpty then some (T.cast (digit c))
      else if c = '0' then T.afterZero s
      else T.second false (T.cast (digit c)) s
    else if c = '-' ∧ T.signed then T.second true (T.cast 0) s
    else none

end IntType

def showInt (v : Int) : Text :=
  if v < 0 then '-' :: toDigits 10 v.natAbs else toDigits 10 v.natAbs

/-! ## Texts without blanks at their ends -/

theorem eatLeadWhite_eq : ∀ {s : Text}, s.head? ≠ some ' ' → eatLeadWhite s = s
  | [], _ => rfl
  | c :: s, h => by
    have hc : (c == ' ') = false := beq_false_of_ne fun hc => h (congrArg some hc)
    rw [eatLeadWhite, dropWhile_cons, hc]
    split <;> rfl

variable {s : Text} {c : Char}

theorem eatEndWhite_eq (h : s.getLast? ≠ some ' ') : eatEndWhite s = s := by
  rw [eatEndWhite]
  split
  · rfl
  · refine rdropWhile_eq_self_iff.2 fun hs hb => h ?_
    rw [getLast?_eq_getLast_of_ne_nil hs, beq_iff_eq.1 hb]

theorem eatWhite_eq (h1 : s.head? ≠ some ' ') (h2 : s.getLast? ≠ some ' ') : eatWhite s = s := by
  rw [eatWhite, eatLeadWhite_eq h1, eatEndWhite_eq h2]

theorem eatWhite_of_notMem (h : ' ' ∉ s) : eatWhite s = s :=
  eatWhite_eq (fun he => h (mem_of_mem_head? he)) fun he => h (mem_of_getLast? he)

/-! ## Decimal numbers -/

/-- The number that the digits give, `r` standing before them. -/
def reads (r : Int) (s : Text) : Int := s.foldl (fun r c => r * 10 + digit c) r

theorem digit_bounds (h : isDec c) : 0 ≤ digit c ∧ digit c ≤ 9 := by
  obtain ⟨h0, h9⟩ := and_eq_true_iff.1 h
  have h0 : (48 : Nat) ≤ c.toNat := of_decide_eq_true h0
  have h9 : c.toNat ≤ (57 : Nat) := of_decide_eq_true h9
  rw [digit]
  omega

theorem reads_single (r : Int) (s : Text) (c : Char) : reads r (s ++ [c]) = reads r s * 10 + digit c := by
  rw [reads, foldl_append]
  rfl

theorem le_reads : ∀ {r : Int} {s : Text}, 0 ≤ r → (∀ c ∈ s, isDec c) → r ≤ reads r s
  | _, [], _, _ => le_refl _
  | r, c :: s, hr, h => by
    have hc := digit_bounds (h c mem_cons_self)
    have ih := le_reads (r := r * 10 + digit c) (by omega) fun c hc => h c (mem_cons_of_mem _ hc)
    show r ≤ reads (r * 10 + digit c) s
    omega

namespace IntType

variable {T : IntType} {r : T.Value} {negative : Bool}

def signedResult (T : IntType) (negative : Bool) (x : Int) : Option T.Value :=
  if x ≤ T.max then some (T.cast (if T.signed && negative then -x else x)) else none

theorem push_eq {base d : Int} (h0 : 0 ≤ r.val * base) (h1 : r.val * base ≤ T.max) :
    T.push r base d = T.cast (r.val * base + d) := by
  have hm := T.bounds
  rw [push, cast_val (by omega) h1]

theorem decDigit_eq {c : Char} (hr : 0 ≤ r.val) (hc : isDec c) :
    T.decDigit r c = if r.val * 10 + digit c ≤ T.max then some (T.cast (r.val * 10 + digit c)) else none := by
  have hd := digit_bounds hc
  have hb := T.bounds
  rw [decDigit]
  by_cases hgt : r.val > T.decmax
  · have : ¬ r.val * 10 + digit c ≤ T.max := by
      rw [decmax] at hgt
      omega
    rw [if_pos hgt, if_neg this]
  · rw [if_neg hgt]
    have hle : r.val * 10 ≤ T.max := by
      rw [decmax] at hgt
      omega
    simp only [push_eq (by omega) hle]
    by_cases hm : r.val * 10 + digit c ≤ T.max
    · -- no overflow, so the number has grown
      have hv := cast_val (by omega) hm
      have hno : ¬ (r.val == T.decmax && decide ((T.cast (r.val * 10 + digit c)).val < T.decmax)) := by
        rw [and_eq_true, beq_iff_eq, decide_eq_true_eq]
        omega
      rw [if_neg hno, if_pos hm]
    · have hat : r.val = T.decmax := by
        rw [decmax] at hgt ⊢
        omega
      have hlt : (T.cast (r.val * 10 + digit c)).val < T.decmax := by
        have := cast_val_of_gt (T := T) (x := r.val * 10 + digit c) (by omega) (by omega)
        omega
      rw [if_neg hm, if_pos]
      rw [and_eq_true, beq_iff_eq, decide_eq_true_eq]
      exact ⟨hat, hlt⟩

theorem top_eq_false (hs : T.signed) (hr : 0 ≤ r.val) : T.top r = false := by
  have hb : (2 : Int) ^ (T.bits - 1) ≤ 2 ^ T.bits := by cases T <;> decide
  have hm : T.max = 2 ^ (T.bits - 1) - 1 := by rw [max, digits, if_pos hs]
  have hle := r.le
  rw [top, emod_eq_of_lt hr (by omega)]
  exact decide_eq_false (by omega)

theorem signed_top (hr : 0 ≤ r.val) : (T.signed && T.top r) = false := by
  cases hs : T.signed with
  | false => rfl
  | true => rw [top_eq_false hs hr, Bool.and_false]

theorem finish_eq (hr : 0 ≤ r.val) : T.finish negative r = T.signedResult negative r.val := by
  rw [finish, signedResult, if_pos r.le, signed_top hr]
  cases hn : (T.signed && negative) with
  | false => simp
  | true =>
    rw [top_eq_false (and_eq_true_iff.1 hn).1 hr]
    simp

theorem decLoop_eq : ∀ {r : T.Value} {s : Text}, s ≠ [] → 0 ≤ r.val → (∀ c ∈ s, isDec c) →
    T.decLoop negative r s = T.signedResult negative (reads r.val s)
  | r, [c], _, hr, h => by
    have hc := h c mem_cons_self
    have h0 := digit_bounds hc
    have hb := T.bounds
    rw [decLoop, if_pos hc, decDigit_eq hr hc]
    show _ = T.signedResult negative (r.val * 10 + digit c)
    split
    case isTrue hm =>
      have hv := cast_val (by omega) hm
      rw [bind_some, finish_eq (by omega), hv]
    case isFalse hm => rw [signedResult, if_neg hm, bind_none]
  | r, c :: d :: s, _, hr, h => by
    have hc := h c mem_cons_self
    have hs : ∀ e ∈ d :: s, isDec e := fun e he => h e (mem_cons_of_mem _ he)
    have h0 := digit_bounds hc
    have hb := T.bounds
    rw [decLoop, if_pos hc, decDigit_eq hr hc]
    · show _ = T.signedResult negative (reads (r.val * 10 + digit c) (d :: s))
      split
      case isTrue hm =>
        have hv := cast_val (by omega) hm
        show (if _ then _ else _) = _
        rw [signed_top (by omega), if_neg nofun, decLoop_eq (s := d :: s) nofun (by omega) hs, hv]
      case isFalse hm =>
        -- the number only grows
        have hle := le_reads (r := r.val * 10 + digit c) (by omega) hs
        rw [signedResult, if_neg (by omega)]
        rfl
    · exact nofun

theorem second_eq {c : Char} {s : Text} (h0 : 0 ≤ r.val) (h9 : r.val ≤ 9) (h : ∀ d ∈ c :: s, isDec d)
    (hc : negative → c ≠ '0') :
    T.second negative r (c :: s) = T.signedResult negative (reads r.val (c :: s)) := by
  have hd := h c mem_cons_self
  have hb := digit_bounds hd
  have hmax := T.bounds
  have hv := cast_small (T := T) (x := r.val * 10 + digit c) (by omega) (by omega)
  have hno : ¬ (T.signed && negative && c == '0') := by
    intro hn
    rw [and_eq_true, and_eq_true, beq_iff_eq] at hn
    exact hc hn.1.2 hn.2
  rw [second, hd, if_neg hno]
  have hpush : T.push r 10 (digit c) = T.cast (r.val * 10 + digit c) := push_eq (by omega) (by omega)
  simp only [hpush]
  cases s with
  | nil =>
    show some (if _ then _ else _) = T.signedResult negative (r.val * 10 + digit c)
    rw [signedResult, if_pos (show r.val * 10 + digit c ≤ T.max by omega), hv, apply_ite T.cast]
  | cons d s =>
    rw [decLoop_eq (s := d :: s) nofun (by omega) fun e he => h e (mem_cons_of_mem _ he), hv]
    rfl

end IntType

/-! ## Printed numbers -/

theorem isDec_digitChar : ∀ {d : Nat}, d < 10 → isDec d.digitChar := by decide

theorem digit_digitChar : ∀ {d : Nat}, d < 10 → digit d.digitChar = d := by decide

theorem digitChar_ne_zero : ∀ {d : Nat}, d < 10 → d ≠ 0 → d.digitChar ≠ '0' := by decide

theorem toDigits_rec {P : Nat → Text → Prop} (h1 : ∀ {d : Nat}, d < 10 → P d [d.digitChar])
    (h2 : ∀ {n d : Nat}, 0 < n → d < 10 → P n (toDigits 10 n) → P (n * 10 + d) (toDigits 10 n ++ [d.digitChar]))
    (n : Nat) : P n (toDigits 10 n) := by
  induction n using Nat.strongRecOn with
  | ind n ih =>
    rw [toDigits_eq_if (by decide)]
    split
    case isTrue h => exact h1 h
    case isFalse h =>
      have hn : n = n / 10 * 10 + n % 10 := by omega
      have h := h2 (n := n / 10) (by omega) (mod_lt n (by decide)) (ih _ (by omega))
      rwa [← hn] at h

theorem reads_toDigits (n : Nat) : reads 0 (toDigits 10 n) = n := by
  refine toDigits_rec (P := fun n s => reads 0 s = n) (fun {d} hd => ?_) (fun {n d} _ hd ih => ?_) n
  · show 0 * 10 + digit d.digitChar = d
    rw [digit_digitChar hd]
    omega
  · rw [reads_single, digit_digitChar hd]
    omega

theorem isDec_toDigits (n : Nat) : ∀ c ∈ toDigits 10 n, isDec c := by
  refine toDigits_rec (P := fun _ s => ∀ c ∈ s, isDec c) (fun {d} hd c hc => ?_) (fun {n d} _ hd ih c hc => ?_) n
  · rw [mem_singleton.1 hc]
    exact isDec_digitChar hd
  · rcases mem_append.1 hc with hc | hc
    · exact ih c hc
    · rw [mem_singleton.1 hc]
      exact isDec_digitChar hd

theorem toDigits_head {n : Nat} (hn : 0 < n) : ∃ c s, toDigits 10 n = c :: s ∧ c ≠ '0' := by
  refine toDigits_rec (P := fun n s => 0 < n → ∃ c t, s = c :: t ∧ c ≠ '0') (fun {d} hd hn => ?_)
    (fun {n d} hn hd ih _ => ?_) n hn
  · exact ⟨_, [], rfl, digitChar_ne_zero hd (by omega)⟩
  · obtain ⟨c, s, hs, hc⟩ := ih hn
    exact ⟨c, s ++ [d.digitChar], by rw [hs]; rfl, hc⟩

theorem not_isDec_blank : ¬ isDec ' ' := by decide

namespace IntType

variable {T : IntType}

theorem toNumber_toDigits (n : Nat) : T.toNumber (toDigits 10 n) = T.signedResult false n := by
  have hdec := isDec_toDigits n
  have hr := reads_toDigits n
  have hmax := T.bounds
  rw [toNumber, eatWhite_of_notMem fun h => not_isDec_blank (hdec _ h)]
  rcases Nat.eq_zero_or_pos n with rfl | hn
  · rw [signedResult, if_pos (by omega), Bool.and_false]
    rfl
  · obtain ⟨c, s, hs, hc⟩ := toDigits_head hn
    rw [hs] at hdec hr ⊢
    have hd := hdec c mem_cons_self
    obtain ⟨hd0, hd9⟩ := digit_bounds hd
    have hv := cast_small (T := T) hd0 (by omega)
    have hr : reads (digit c) s = n := by
      rw [← hr]
      show _ = reads (0 * 10 + digit c) s
      rw [zero_mul, zero_add]
    show (if isDec c then _ else _) = _
    rw [if_pos hd, if_neg hc]
    cases s with
    | nil =>
      rw [← hr, signedResult, if_pos (show reads (digit c) [] ≤ T.max from le_trans hd9 (by omega)), Bool.and_false]
      rfl
    | cons d s =>
      rw [if_neg (by simp), second_eq (by omega) (by omega)
        (fun e he => hdec e (mem_cons_of_mem _ he)) (fun h => absurd h false_ne_true), hv, hr]

theorem toNumber_neg {n : Nat} (hs : T.signed) (hn : 0 < n) :
    T.toNumber ('-' :: toDigits 10 n) = T.signedResult true n := by
  have hdec := isDec_toDigits n
  have hb : ' ' ∉ '-' :: toDigits 10 n := by
    intro h
    rcases mem_cons.1 h with h | h
    · cases h
    · exact not_isDec_blank (hdec _ h)
  rw [toNumber, eatWhite_of_notMem hb]
  show (if isDec '-' then _ else _) = _
  rw [if_neg (by decide), if_pos ⟨rfl, hs⟩]
  have hv := cast_small (T := T) (le_refl 0) (by decide)
  obtain ⟨c, s, he, hc⟩ := toDigits_head hn
  have hr := reads_toDigits n
  rw [he] at hdec hr ⊢
  rw [second_eq (by omega) (by omega) hdec (fun _ => hc), hv, hr]

def IsSmallest (T : IntType) (v : T.Value) : Prop := T.signed ∧ v.val = T.min

instance (v : T.Value) : Decidable (T.IsSmallest v) := inferInstanceAs (Decidable (_ ∧ _))

/-- A printed value is read back, but not the smallest value of a signed type. -/
theorem toNumber_showInt (v : T.Value) : T.toNumber (showInt v.val) = if T.IsSmallest v then none else some v := by
  have hge := v.ge
  have hle := v.le
  rw [showInt]
  split
  case isTrue hneg =>
    have hs : T.signed := by
      by_contra hs
      rw [min, if_neg hs] at hge
      omega
    have hm : T.max = -T.min - 1 := by
      rw [min, if_pos hs, max, digits, if_pos hs]
      omega
    have hn : (v.val.natAbs : Int) = -v.val := by omega
    rw [toNumber_neg hs (by omega), signedResult, hn, hs, Bool.true_and, if_pos rfl, neg_neg, cast_val_self]
    by_cases hv : v.val = T.min
    · rw [if_neg (by omega), if_pos ⟨hs, hv⟩]
    · rw [if_pos (by omega), if_neg fun h => hv h.2]
  case isFalse hneg =>
    have hn : (v.val.natAbs : Int) = v.val := by omega
    rw [toNumber_toDigits, signedResult, hn, if_pos hle, Bool.and_false, if_neg nofun, cast_val_self,
      if_neg]
    rintro ⟨hs, hv⟩
    rw [min, if_pos hs] at hv
    have : (0 : Int) < 2 ^ (T.bits - 1) := by positivity
    omega

end IntType

/-! ## Words and runs -/

/-- Words, with the separator before each but the first. -/
def joinWords (token : Char) : List Text → Text
  | [] => []
  | w :: ws => w ++ ws.flatMap (token :: ·)

section tokens

variable {token : Char} {ignore : Bool}

theorem tokenizeLoop_append : ∀ {w v s : Text}, token ∉ v →
    tokenizeLoop token ignore (some w) (v ++ s) = tokenizeLoop token ignore (some (w ++ v)) s
  | w, [], s, _ => by rw [append_nil, nil_append]
  | w, c :: v, s, h => by
    rw [cons_append, tokenizeLoop, if_neg fun (hc : c = token) => h (hc ▸ mem_cons_self),
      tokenizeLoop_append fun hv => h (mem_cons_of_mem _ hv), append_assoc, singleton_append]

theorem tokenizeLoop_word {v : Text} (s : Text) (hv : v ≠ []) (ht : token ∉ v) :
    tokenizeLoop token ignore none (v ++ s) = tokenizeLoop token ignore (some v) s := by
  cases v with
  | nil => exact absurd rfl hv
  | cons c v =>
    rw [cons_append, tokenizeLoop, if_neg fun (hc : c = token) => ht (hc ▸ mem_cons_self),
      tokenizeLoop_append fun h => ht (mem_cons_of_mem _ h), singleton_append]

/-- The maximal non-empty runs of characters different from `c`, in their order. -/
inductive Runs (c : Char) : Text → List Text → Prop
  | nil : Runs c [] []
  | sep {s ts} : Runs c s ts → Runs c (c :: s) ts
  | run {t s ts} : t ≠ [] → c ∉ t → (∀ d ∈ s.head?, d = c) → Runs c s ts → Runs c (t ++ s) (t :: ts)

theorem runs_tokenizeLoop : ∀ (s : Text), Runs token s (tokenizeLoop token true none s) ∧
    ∀ {w}, w ≠ [] → token ∉ w → Runs token (w ++ s) (tokenizeLoop token true (some w) s)
  | [] => ⟨.nil, fun hw ht => .run hw ht (by simp) .nil⟩
  | c :: s => by
    obtain ⟨hnone, hsome⟩ := runs_tokenizeLoop s
    simp only [tokenizeLoop]
    by_cases hc : c = token
    · rw [if_pos hc, hc]
      refine ⟨.sep hnone, fun hw ht => ?_⟩
      rw [if_pos rfl]
      exact .run hw ht (by simp) (.sep hnone)
    · rw [if_neg hc]
      refine ⟨hsome (w := [c]) (by simp) (by simp [Ne.symm hc]), fun {w} hw ht => ?_⟩
      have := hsome (w := w ++ [c]) (by simp) (by simp [ht, Ne.symm hc])
      rw [append_assoc] at this
      rwa [if_neg hc]

theorem tokenize_true {s : Text} : tokenize s token true = tokenizeLoop token true none s := by
  cases s <;> rfl

theorem runs_tokenize (s : Text) : Runs token s (tokenize s token true) := by
  rw [tokenize_true]
  exact (runs_tokenizeLoop s).1

/-- The runs are determined. -/
theorem Runs.tokenize {s : Text} {ts : List Text} (h : Runs token s ts) : tokenize s token true = ts := by
  rw [tokenize_true]
  induction h with
  | nil => rfl
  | sep _ ih => rw [tokenizeLoop, if_pos rfl, ih]
  | @run t s ts ht hc hs _ ih =>
    rw [tokenizeLoop_word s ht hc, ← ih]
    cases s with
    | nil => rfl
    | cons d s => rw [hs d rfl, tokenizeLoop, tokenizeLoop, if_pos rfl, if_pos rfl, if_pos rfl]

theorem Runs.part {s t : Text} {ts : List Text} (h : Runs token s ts) (ht : t ∈ ts) : t <:+: s := by
  induction h with
  | nil => cases ht
  | sep _ ih => exact (ih ht).trans (suffix_cons _ _).isInfix
  | run _ _ _ _ ih =>
    rcases mem_cons.1 ht with rfl | ht
    · exact (prefix_append _ _).isInfix
    · exact (ih ht).trans (suffix_append _ _).isInfix

theorem part_of_mem_tokenize {s t : Text} (h : t ∈ tokenize s token true) : t <:+: s :=
  (runs_tokenize s).part h

theorem runs_flatMap : ∀ {ws : List Text}, (∀ v ∈ ws, v ≠ [] ∧ token ∉ v) → Runs token (ws.flatMap (token :: ·)) ws
  | [], _ => .nil
  | v :: ws, h => by
    obtain ⟨hv, ht⟩ := h v mem_cons_self
    exact .sep (.run hv ht (by cases ws <;> simp) (runs_flatMap fun u hu => h u (mem_cons_of_mem _ hu)))

theorem tokenize_joinWords {ws : List Text} (h : ∀ v ∈ ws, v ≠ [] ∧ token ∉ v) :
    tokenize (joinWords token ws) token true = ws := by
  refine Runs.tokenize ?_
  cases ws with
  | nil => exact .nil
  | cons w ws =>
    obtain ⟨hw, ht⟩ := h w mem_cons_self
    exact .run hw ht (by cases ws <;> simp) (runs_flatMap fun v hv => h v (mem_cons_of_mem _ hv))

theorem joinWords_cons_cons (w v : Text) (ws : List Text) :
    joinWords token (w :: v :: ws) = w ++ token :: joinWords token (v :: ws) := by
  simp [joinWords]

theorem mem_joinWords {c : Char} : ∀ {ws : List Text}, c ∈ joinWords token ws → c = token ∨ ∃ w ∈ ws, c ∈ w
  | [], h => by cases h
  | [w], h => .inr ⟨w, mem_cons_self, by simpa [joinWords] using h⟩
  | w :: v :: ws, h => by
    rcases mem_append.1 h with h | h
    · exact .inr ⟨w, mem_cons_self, h⟩
    · rcases mem_cons.1 h with h | h
      · exact .inl h
      · exact (mem_joinWords h).imp_right fun ⟨u, hu, hc⟩ => ⟨u, mem_cons_of_mem _ hu, hc⟩

theorem head_joinWords {ws : List Text} (h : ∀ v ∈ ws, v ≠ [] ∧ token ∉ v) :
    (joinWords token ws).head? ≠ some token := by
  cases ws with
  | nil => exact nofun
  | cons w ws =>
    obtain ⟨hw, ht⟩ := h w mem_cons_self
    intro he
    rw [joinWords, head?_append_of_ne_nil _ hw] at he
    exact ht (mem_of_mem_head? he)

theorem getLast_joinWords : ∀ {ws : List Text}, (∀ v ∈ ws, v ≠ [] ∧ token ∉ v) →
    (joinWords token ws).getLast? ≠ some token
  | [], _ => nofun
  | [w], h => by
    intro he
    rw [joinWords, flatMap_nil, append_nil] at he
    exact (h w mem_cons_self).2 (mem_of_getLast? he)
  | w :: v :: ws, h => by
    have hs : ∀ u ∈ v :: ws, u ≠ [] ∧ token ∉ u := fun u hu => h u (mem_cons_of_mem _ hu)
    have hne : joinWords token (v :: ws) ≠ [] := fun he => (hs v mem_cons_self).1 (append_eq_nil_iff.1 he).1
    rw [joinWords_cons_cons, getLast?_append_of_ne_nil _ (cons_ne_nil _ _), getLast?_cons_of_ne_nil hne]
    exact getLast_joinWords hs

end tokens

/-! ## The scanning loops of `tokenize` -/

/-- The search from `pos` on for a character with `q`: `find_first_of` and `find_first_not_of`. `none` is `npos`. -/
def findFirst (q : Char → Bool) (s : Text) (pos : Nat) : Option Nat := ((s.drop pos).findIdx? q).map (pos + ·)

/-- `s.substr(pos, n)`, which throws behind the end. -/
def substr (s : Text) (pos n : Nat) : Option Text := if pos ≤ s.length then some ((s.drop pos).take n) else none

section scan

variable {token : Char} {ignore : Bool} {q : Char → Bool} {s : Text} {pos k : Nat} {v : List Text}

theorem of_findFirst (h : findFirst q s pos = some k) : ∃ (w : Text) (hk : k < s.length),
    k = pos + w.length ∧ s.drop pos = w ++ s.drop k ∧ q s[k] ∧ ∀ x ∈ w, ¬ q x := by
  obtain ⟨i, hi, rfl⟩ := map_eq_some_iff.1 h
  obtain ⟨hlt, hq, hno⟩ := findIdx?_eq_some_iff_getElem.1 hi
  have hlen : (take i (s.drop pos)).length = i := length_take_of_le hlt.le
  rw [length_drop] at hlt
  refine ⟨take i (s.drop pos), by omega, by rw [hlen], ?_, by rwa [getElem_drop] at hq, fun x hx => ?_⟩
  · rw [← drop_drop, take_append_drop]
  · obtain ⟨j, hj, rfl⟩ := mem_iff_getElem.1 hx
    rw [getElem_take]
    exact hno j (hlen ▸ hj)

theorem of_findFirst_none (h : findFirst q s pos = none) : ∀ x ∈ s.drop pos, q x = false :=
  findIdx?_eq_none_iff.1 (map_eq_none_iff.1 h)

theorem ne_of_findFirst (hlt : pos < s.length) (h : findFirst (· == token) s pos ≠ some pos) : s[pos] ≠ token := by
  intro hc
  rw [findFirst, drop_eq_getElem_cons hlt, findIdx?_cons, hc, beq_self_eq_true] at h
  exact h rfl

/-- The loop over the leading separators. At each test `last` is `find_first_of(token, first)`. -/
def skipTokens (s : Text) (token : Char) (first : Nat) : Nat :=
  if h : findFirst (· == token) s first = some first then skipTokens s token (first + 1) else first
termination_by s.length - first
decreasing_by
  obtain ⟨-, hlt, -⟩ := of_findFirst h
  omega

/-- The loop over the words, which appends them to `v`. At each test `last` is `find_first_of(token, first)`. -/
def scanTokens (s : Text) (token : Char) (ignore : Bool) (first : Nat) (v : List Text) : Option (List Text) :=
  match h : findFirst (· == token) s first with
  | none => (substr s first s.length).map fun t => v ++ [t]
  | some last => (substr s first (last - first)).bind fun t =>
    if ignore then
      match _h : findFirst (· != token) s (last + 1) with
      | none => some (v ++ [t])
      | some next => scanTokens s token ignore next (v ++ [t])
    else scanTokens s token ignore (last + 1) (v ++ [t])
termination_by s.length - first
decreasing_by
  · obtain ⟨w, hlt, hk, -⟩ := of_findFirst h
    obtain ⟨w', -, hk', -⟩ := of_findFirst _h
    omega
  · obtain ⟨w, hlt, hk, -⟩ := of_findFirst h
    omega

/-- `tokenize`, with the positions of the code. -/
def tokenizeInto (v : List Text) (s : Text) (token : Char) (ignore : Bool) : Option (List Text) :=
  if s.isEmpty then some v
  else if ignore && findFirst (· == token) s 0 == some 0 then
    let first := skipTokens s token 0
    if findFirst (· == token) s first = none then
      if first ≠ s.length then (substr s first s.length).map fun t => v ++ [t] else some v
    else scanTokens s token ignore first v
  else scanTokens s token ignore 0 v

theorem tokenizeLoop_seps : ∀ {w : Text} (t : Text), (∀ x ∈ w, x = token) →
    tokenizeLoop token ignore none (w ++ t) = tokenizeLoop token ignore none t
  | [], _, _ => rfl
  | c :: w, t, h => by
    rw [cons_append, tokenizeLoop, if_pos (h c mem_cons_self),
      tokenizeLoop_seps t fun x hx => h x (mem_cons_of_mem _ hx)]

/-- In front of a word it does not matter whether the word has begun. -/
theorem tokenizeLoop_none (hlt : pos < s.length) (hc : s[pos] ≠ token) :
    tokenizeLoop token ignore none (s.drop pos) = tokenizeLoop token ignore (some []) (s.drop pos) := by
  rw [drop_eq_getElem_cons hlt, tokenizeLoop, tokenizeLoop, if_neg hc, if_neg hc, nil_append]

theorem scanTokens_eq (hle : pos ≤ s.length) :
    scanTokens s token ignore pos v = some (v ++ tokenizeLoop token ignore (some []) (s.drop pos)) := by
  -- on the length of the text that is left
  induction hm : s.length - pos using Nat.strong_induction_on generalizing pos v with | _ m ih
  rw [scanTokens, substr, if_pos hle]
  split
  case h_1 hn =>
    have hno : token ∉ s.drop pos := fun hm => by simpa using of_findFirst_none hn _ hm
    rw [← append_nil (s.drop pos), tokenizeLoop_append hno, append_nil, take_of_length_le (by rw [length_drop]; omega)]
    rfl
  case h_2 last hl =>
    obtain ⟨w, hlt, hk, hd, hq, hno⟩ := of_findFirst hl
    have hw : token ∉ w := fun hm => hno _ hm (beq_self_eq_true _)
    rw [substr, if_pos hle, hd, tokenizeLoop_append hw, nil_append, drop_eq_getElem_cons hlt, tokenizeLoop,
      if_pos (beq_iff_eq.1 hq), take_left' (by omega), bind_some]
    cases ignore with
    | false => rw [if_neg (by simp), if_neg (by simp), ih _ (by omega) hlt rfl, append_assoc, singleton_append]
    | true =>
      rw [if_pos rfl, if_pos rfl]
      split
      case h_1 hn =>
        have hall : ∀ x ∈ s.drop (last + 1), x = token := fun x hx => by simpa using of_findFirst_none hn x hx
        rw [← append_nil (s.drop (last + 1)), tokenizeLoop_seps [] hall, tokenizeLoop]
      case h_2 next hn =>
        obtain ⟨w', hlt', hk', hd', hq', hno'⟩ := of_findFirst hn
        have hall : ∀ x ∈ w', x = token := fun x hx => by simpa using hno' x hx
        rw [ih _ (by omega) hlt'.le rfl, append_assoc, singleton_append, hd', tokenizeLoop_seps _ hall,
          tokenizeLoop_none hlt' (by simpa using hq')]

theorem skipTokens_spec (token : Char) (hle : pos ≤ s.length) : skipTokens s token pos ≤ s.length ∧
    findFirst (· == token) s (skipTokens s token pos) ≠ some (skipTokens s token pos) ∧
    tokenizeLoop token true none (s.drop pos) = tokenizeLoop token true none (s.drop (skipTokens s token pos)) := by
  induction pos using skipTokens.induct s token with
  | case1 pos h ih =>
    obtain ⟨-, hlt, -, -, hq, -⟩ := of_findFirst h
    rw [skipTokens, dif_pos h, drop_eq_getElem_cons hlt, tokenizeLoop, if_pos (beq_iff_eq.1 hq)]
    exact ih hlt
  | case2 pos h =>
    rw [skipTokens, dif_neg h]
    exact ⟨hle, h, rfl⟩

theorem scanTokens_none (h : findFirst (· == token) s pos = none) :
    scanTokens s token ignore pos v = (substr s pos s.length).map fun t => v ++ [t] := by
  rw [scanTokens]
  split
  case h_1 => rfl
  case h_2 h' =>
    rw [h] at h'
    cases h'

/-- The code appends the tokens found one character at a time. -/
theorem tokenizeInto_eq : tokenizeInto v s token ignore = some (v ++ tokenize s token ignore) := by
  rw [tokenizeInto, tokenize]
  split
  · rw [append_nil]
  case isFalse hne =>
    have hpos : 0 < s.length := length_pos_of_ne_nil fun he => hne (List.isEmpty_iff.2 he)
    cases ignore with
    | false => exact scanTokens_eq hpos.le
    | true =>
      -- past the leading separators, in front of a word
      have hword : ∀ {first}, first < s.length → findFirst (· == token) s first ≠ some first →
          scanTokens s token true first v = some (v ++ tokenizeLoop token true none (s.drop first)) := fun hlt hno => by
        rw [tokenizeLoop_none hlt (ne_of_findFirst hlt hno), scanTokens_eq hlt.le]
      rw [if_pos rfl]
      split
      case isFalse h0 => exact hword hpos fun he => h0 (beq_iff_eq.2 he)
      obtain ⟨hle, hno, he⟩ := skipTokens_spec token hpos.le
      generalize skipTokens s token 0 = first at hle hno he
      rw [show tokenizeLoop token true none s = _ from he]
      dsimp only
      by_cases hf : first = s.length
      · have hn : findFirst (· == token) s first = none := by
          rw [findFirst, hf, drop_length]
          rfl
        rw [if_pos hn, if_neg (not_not.2 hf), hf, drop_length, tokenizeLoop, append_nil]
      · rw [← hword (by omega) hno]
        split
        case isTrue hn => rw [scanTokens_none hn]
        · rfl

theorem tokenizeLoop_false : ∀ (s w : Text), (tokenizeLoop token false (some w) s).length = s.count token + 1 ∧
    [token].intercalate (tokenizeLoop token false (some w) s) = w ++ s
  | [], w => ⟨rfl, by simp [tokenizeLoop]⟩
  | c :: s, w => by
    rw [tokenizeLoop]
    by_cases hc : c = token
    · obtain ⟨hlen, hjoin⟩ := tokenizeLoop_false s []
      rw [if_pos hc, if_neg (by simp), length_cons, hlen, hc, count_cons_self]
      refine ⟨rfl, ?_⟩
      cases hts : tokenizeLoop token false (some []) s with
      | nil => rw [hts] at hlen; cases hlen
      | cons t ts => rw [intercalate_cons_cons, ← hts, hjoin, append_assoc, singleton_append, nil_append]
    · obtain ⟨hlen, hjoin⟩ := tokenizeLoop_false s (w ++ [c])
      rw [if_neg hc, hlen, hjoin, count_cons_of_ne hc, append_assoc]
      exact ⟨rfl, rfl⟩

/-- The tokens are the runs between separators, or, with the empty ones, the parts that the separators join. -/
theorem tokenize_exact (v : List Text) (s : Text) (token : Char) :
    (∃ ts, tokenizeInto v s token true = some (v ++ ts) ∧ Runs token s ts) ∧
    (s ≠ [] → ∃ ts, tokenizeInto v s token false = some (v ++ ts) ∧ ts.length = s.count token + 1 ∧
      [token].intercalate ts = s) := by
  refine ⟨⟨_, tokenizeInto_eq, ?_⟩, fun hs => ⟨_, tokenizeInto_eq, ?_⟩⟩
  · exact runs_tokenize s
  · rw [tokenize, if_neg fun he => hs (List.isEmpty_iff.1 he)]
    exact tokenizeLoop_false s []

theorem tokenize_exact_tokens : ∃ ts, tokenizeInto [] [',', 'a', ','] ',' false = some ts ∧ ts.length = 3 ∧
    [','].intercalate ts = [',', 'a', ','] :=
  (tokenize_exact [] [',', 'a', ','] ',').2 (by decide)

end scan

/-! ## Single characters -/

/-- No two characters other than blanks side by side. -/
def Spaced (s : Text) : Prop := s.IsChain fun a b => a = ' ' ∨ b = ' '

theorem Spaced.part {t : Text} (hs : Spaced s) (h : t <:+: s) : Spaced t := List.IsChain.infix hs h

theorem Spaced.cons_blank (h : Spaced s) : Spaced (' ' :: s) := by
  cases s with
  | nil => exact isChain_singleton _
  | cons c s => exact isChain_cons_cons.2 ⟨.inl rfl, h⟩

theorem Spaced.append {t : Text} (hs : Spaced s) (ht : Spaced t) : Spaced (s ++ ' ' :: t) := by
  refine isChain_append.2 ⟨hs, ht.cons_blank, ?_⟩
  intro a _ b hb
  rw [head?_cons, mem_some_iff] at hb
  exact .inr hb.symm

theorem spaced_joinWords : ∀ {ws : List Text}, (∀ w ∈ ws, Spaced w) → Spaced (joinWords ' ' ws)
  | [], _ => isChain_nil
  | [w], h => by simpa [joinWords] using h w mem_cons_self
  | w :: v :: ws, h => by
    exact (h w mem_cons_self).append (spaced_joinWords fun u hu => h u (mem_cons_of_mem _ hu))

theorem eatLeadWhite_end (s : Text) : eatLeadWhite s <:+ s := by
  rw [eatLeadWhite]
  split
  · exact suffix_rfl
  · exact dropWhile_suffix _

theorem eatEndWhite_start (s : Text) : eatEndWhite s <+: s := by
  rw [eatEndWhite]
  split
  · exact prefix_rfl
  · exact rdropWhile_prefix _ _

theorem eatWhite_part (s : Text) : eatWhite s <:+: s :=
  (eatEndWhite_start _).isInfix.trans (eatLeadWhite_end s).isInfix

theorem eatWhite_single (c : Char) : eatWhite [c] = [c] := by
  by_cases hc : c = ' '
  · subst hc
    decide
  · exact eatWhite_of_notMem fun h => hc (mem_singleton.1 h).symm

theorem IntType.toNumber_single {T : IntType} (hc : ¬ isDec c) : T.toNumber [c] = none := by
  rw [toNumber, eatWhite_single]
  show (if isDec c then _ else _) = _
  rw [if_neg hc]
  split <;> rfl

theorem IntType.toNumber_spaced {T : IntType} {v : T.Value} (hs : Spaced s) (h : T.toNumber s = some v) :
    0 ≤ v.val ∧ v.val ≤ 9 := by
  have hs := hs.part (eatWhite_part s)
  rw [toNumber] at h
  generalize eatWhite s = t at h hs
  -- behind the first character comes a blank, which is neither a digit nor a suffix
  have hblank : ∀ {c d : Char} {u : Text}, Spaced (c :: d :: u) → c ≠ ' ' → d = ' ' := fun hs hc =>
    (isChain_cons_cons.1 hs).1.resolve_left hc
  match t, h, hs with
  | [c], h, _ =>
    dsimp only at h
    split at h
    · next hd =>
      have hb := digit_bounds hd
      rwa [← some.inj h, cast_small hb.1 (by omega)]
    · split at h <;> cases h
  | c :: d :: u, h, hs =>
    dsimp only at h
    split at h
    · next hd =>
      obtain rfl := hblank hs fun hc => not_isDec_blank (hc ▸ hd)
      rw [if_neg (by simp)] at h
      split at h <;> cases h
    · split at h
      · next hc =>
        obtain rfl := hblank hs (by rw [hc.1]; decide)
        cases h
      · cases h

end M5.Base
