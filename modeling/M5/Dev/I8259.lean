import Mathlib.Algebra.Order.Ring.Int

/-!
# The 8259 interrupt controller

`I8259` of `dev/x86/i8259.cc`, without a slave. Raising the output pin calls `getVector` before `raise` returns, as the
I/O APIC does in the ExtInt mode; `getVector` may end the interrupt at once and raise the pin again for the next one.
-/

namespace M5.Dev

/-- `findMsbSet` of `base/bitfield.hh`, for 8-bit numbers. -/
def findMsbSet (val : BitVec 8) : Nat :=
  let (msb, val) := if val >>> 4 ≠ 0 then (4, val >>> 4) else (0, val)
  let (msb, val) := if val >>> 2 ≠ 0 then (msb + 2, val >>> 2) else (msb, val)
  if val >>> 1 ≠ 0 then msb + 1 else msb

structure I8259 where
  IRR : BitVec 8
  ISR : BitVec 8
  IMR : BitVec 8
  vectorOffset : BitVec 8
  cascadeMode : Bool
  cascadeBits : BitVec 8
  edgeTriggered : Bool
  readIRR : Bool
  expectICW4 : Bool
  initControlWord : Nat
  autoEOI : Bool
  /-- The calls of `getVector`: `IRR` and `ISR` before, and the vector. -/
  accepted : List (BitVec 8 × BitVec 8 × BitVec 8)

namespace I8259

section

variable (raise : I8259 → Option I8259) (s : I8259) (line : Nat)

def requestInterrupt : Option I8259 := if s.ISR >>> line = 0 then raise s else some s

def handleEOI : Option I8259 :=
  let s := { s with ISR := s.ISR &&& ~~~.twoPow 8 line }
  if s.IRR ≠ 0 then requestInterrupt raise s (findMsbSet s.IRR) else some s

end

/-- The fuel bounds the depth of the recursion. -/
def getVector : Nat → I8259 → Option I8259
  | 0, _ => none
  | n + 1, s =>
    let line := findMsbSet s.IRR
    let t := { s with
      IRR := s.IRR &&& ~~~.twoPow 8 line, accepted := s.accepted ++ [(s.IRR, s.ISR, .ofNat 8 line ||| s.vectorOffset)] }
    if s.autoEOI then handleEOI (getVector n) t line else some { t with ISR := t.ISR ||| .twoPow 8 line }

variable (s : I8259)

/-- A line that does not exist is fatal. -/
def signalInterrupt (line : Nat) : Option I8259 :=
  if line ≥ 8 then none else if s.IMR.getLsbD line then some s
  else requestInterrupt (getVector 8) { s with IRR := s.IRR ||| .twoPow 8 line } line

/-- A write to the command register: the first initialization word, or an operation word. -/
def writeCommand (val : BitVec 8) : Option I8259 :=
  if val.getLsbD 4 then some { s with
    IMR := 0, edgeTriggered := val.getLsbD 3, cascadeMode := !val.getLsbD 1, expectICW4 := val.getLsbD 0,
    autoEOI := val.getLsbD 0 && s.autoEOI, initControlWord := 1 }
  else if val.getLsbD 3 = false then
    match (val >>> 5).toNat with
    | 1 => handleEOI (getVector 8) s (findMsbSet s.ISR)
    | 3 => handleEOI (getVector 8) s (val &&& 7).toNat
    | _ => some s
  else some { s with readIRR := if val.getLsbD 1 then val.getLsbD 0 else s.readIRR }

/-- A write to the data register: the mask, or the next initialization word. -/
def writeData (master : Bool) (val : BitVec 8) : I8259 :=
  match s.initControlWord with
  | 0 => { s with IMR := val }
  | 1 => { s with
      vectorOffset := val &&& ~~~7, cascadeBits := if s.cascadeMode then s.cascadeBits else 0,
      initControlWord := if s.cascadeMode then 2 else 0 }
  | 2 => { s with
      cascadeBits := if master then val else val &&& 7, initControlWord := if s.expectICW4 then 3 else 0 }
  | 3 => { s with autoEOI := val.getLsbD 1, initControlWord := 0 }
  | _ => s

inductive Op
  | signalInterrupt (line : Fin 8)
  | writeCommand (val : BitVec 8)
  | writeData (val : BitVec 8)

def handle (master : Bool) : Op → Option I8259
  | .signalInterrupt line => s.signalInterrupt line
  | .writeCommand val => s.writeCommand val
  | .writeData val => some (s.writeData master val)

/-! ## Lines -/

def Above (line : Nat) (v : BitVec 8) : Prop := ∀ i : Fin 8, v.getLsbD i → i < line

theorem above_iff : ∀ {v : BitVec 8} {l : Fin 8}, v >>> l.val = 0 ↔ Above l v := by
  unfold Above
  decide +kernel

theorem msb_lt : ∀ v : BitVec 8, findMsbSet v < 8 := by decide +kernel

theorem two_pow_msb_le : ∀ {v : BitVec 8}, v ≠ 0 → 2 ^ findMsbSet v ≤ v.toNat := by decide +kernel

theorem clear_msb_lt : ∀ v : BitVec 8, (v &&& ~~~.twoPow 8 (findMsbSet v)).toNat < 2 ^ findMsbSet v := by
  decide +kernel

theorem msb_or : ∀ (v : BitVec 8) (l : Fin 8), findMsbSet (v ||| .twoPow 8 l) = max (findMsbSet v) l := by
  decide +kernel

theorem or_ne_zero : ∀ (v : BitVec 8) (l : Fin 8), v ||| .twoPow 8 l ≠ 0 := by decide +kernel

theorem getLsbD_or : ∀ (v : BitVec 8) (l : Fin 8), (v ||| .twoPow 8 l).getLsbD l := by decide +kernel

/-- Each accepted line was pending and above the lines in service. -/
def Ordered (s : I8259) : Prop := ∀ c ∈ s.accepted, c.1 ≠ 0 ∧ Above (findMsbSet c.1) c.2.1

/-- Moreover, no pending line is above the lines in service. -/
structure Nested (s : I8259) : Prop where
  ordered : s.Ordered
  calm : s.IRR ≠ 0 → ¬ Above (findMsbSet s.IRR) s.ISR

/-- Raising the pin ends in a nested state if there is a line to accept. -/
structure Accepts (n : Nat) (raise : I8259 → Option I8259) : Prop where
  accept : ∀ {s : I8259}, s.Ordered → s.IRR ≠ 0 → s.IRR.toNat < 2 ^ n → Above (findMsbSet s.IRR) s.ISR →
    ∃ t, raise s = some t ∧ t.Nested

variable {s : I8259} {n : Nat} {raise : I8259 → Option I8259}

/-- The pin is raised for `line`, the highest pending line or one above the lines in service. -/
theorem Accepts.requestInterrupt (h : Accepts n raise) (ho : s.Ordered) (hirr : s.IRR ≠ 0) (hn : s.IRR.toNat < 2 ^ n)
    (line : Fin 8) (hup : line ≤ findMsbSet s.IRR) (hdown : Above (findMsbSet s.IRR) s.ISR → Above line s.ISR) :
    ∃ t, requestInterrupt raise s line = some t ∧ t.Nested := by
  unfold I8259.requestInterrupt
  split
  · next hab => exact h.accept ho hirr hn fun i hi => lt_of_lt_of_le (above_iff.1 hab i hi) hup
  · next hab => exact ⟨s, rfl, ho, fun _ habove => hab (above_iff.2 (hdown habove))⟩

theorem Accepts.handleEOI (h : Accepts n raise) (ho : s.Ordered) (hn : s.IRR.toNat < 2 ^ n) (line : Nat) :
    ∃ t, handleEOI raise s line = some t ∧ t.Nested := by
  unfold I8259.handleEOI
  dsimp only
  split
  · next hirr =>
    exact h.requestInterrupt (s := { s with ISR := s.ISR &&& ~~~.twoPow 8 line }) ho hirr hn ⟨_, msb_lt s.IRR⟩
      (le_refl _) id
  · next hirr => exact ⟨_, rfl, ho, fun h => absurd h hirr⟩

theorem accepts_getVector (n : Nat) : Accepts n (getVector n) := by
  refine ⟨fun {s} ho hirr hn hab => ?_⟩
  have hmsb := two_pow_msb_le hirr
  induction n generalizing s with
  | zero =>
    have := Nat.two_pow_pos (findMsbSet s.IRR)
    omega
  | succ n ih =>
    have hord : ∀ {t : I8259} {v : BitVec 8}, t.accepted = s.accepted ++ [(s.IRR, s.ISR, v)] → t.Ordered := by
      intro t v ht c hc
      rw [ht] at hc
      rcases List.mem_append.1 hc with hc | hc
      · exact ho c hc
      · rw [List.mem_singleton.1 hc]
        exact ⟨hirr, hab⟩
    have hlt := clear_msb_lt s.IRR
    unfold getVector
    split
    · have hle : findMsbSet s.IRR ≤ n := by
        have := (Nat.pow_lt_pow_iff_right Nat.one_lt_two).1 (lt_of_le_of_lt hmsb hn)
        omega
      exact Accepts.handleEOI ⟨fun ho hi hn ha => ih ho hi hn ha (two_pow_msb_le hi)⟩ (hord rfl)
        (lt_of_lt_of_le hlt (Nat.pow_le_pow_right Nat.two_pos hle)) _
    · -- the line is in service, and the rest is below
      refine ⟨_, rfl, hord rfl, fun hne habove => ?_⟩
      have hbelow := (Nat.pow_lt_pow_iff_right Nat.one_lt_two).1 (lt_of_le_of_lt (two_pow_msb_le hne) hlt)
      have hself := habove ⟨_, msb_lt s.IRR⟩ (getLsbD_or _ ⟨_, msb_lt s.IRR⟩)
      exact absurd hself (Nat.lt_asymm hbelow)

theorem Nested.signalInterrupt (h : s.Nested) (line : Fin 8) : ∃ t, s.signalInterrupt line = some t ∧ t.Nested := by
  rw [I8259.signalInterrupt, if_neg (not_le.2 line.isLt)]
  split
  · exact ⟨s, rfl, h⟩
  refine (accepts_getVector 8).requestInterrupt (s := { s with IRR := s.IRR ||| .twoPow 8 line }) h.ordered
    (or_ne_zero s.IRR line) (BitVec.isLt _) line ?_ fun habove => ?_
  · rw [msb_or]
    exact le_max_right ..
  · rw [msb_or] at habove
    rcases le_or_gt (findMsbSet s.IRR) line with hle | hlt
    · rwa [max_eq_right hle] at habove
    · -- a higher line is pending, so that one above it is in service
      rw [max_eq_left hlt.le] at habove
      refine absurd habove (h.calm ?_)
      intro h0
      rw [h0] at hlt
      exact absurd hlt (Nat.not_lt_zero _)

/-- Every operation ends in a nested state. -/
theorem Nested.handle (h : s.Nested) (master : Bool) (a : Op) : ∃ t, s.handle master a = some t ∧ t.Nested := by
  have heoi := (accepts_getVector 8).handleEOI h.ordered s.IRR.isLt
  cases a with
  | signalInterrupt line => exact h.signalInterrupt line
  | writeCommand val =>
    show ∃ t, s.writeCommand val = some t ∧ _
    unfold writeCommand
    split
    · exact ⟨_, rfl, h.ordered, h.calm⟩
    split
    · split
      · exact heoi _
      · exact heoi _
      · exact ⟨s, rfl, h⟩
    · exact ⟨_, rfl, h.ordered, h.calm⟩
  | writeData val =>
    refine ⟨_, rfl, ?_⟩
    unfold writeData
    split <;> exact ⟨h.ordered, h.calm⟩

def idle : I8259 := ⟨0, 0, 0, 8, false, 0, false, true, false, 0, false, []⟩

end I8259

end M5.Dev
