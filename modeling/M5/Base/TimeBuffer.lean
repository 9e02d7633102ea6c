import M5.Lib.Check
import M5.Lib.Run
import Mathlib.Logic.Function.Basic
import Mathlib.Tactic.SplitIfs

/-!
# Time buffers

`TimeBuffer` holds a value for each cycle from `past` cycles ago to `future` cycles ahead, in a vector used as a ring.
The position in the vector is computed in `int`, from an `unsigned` sum.
-/

namespace M5.Base

open Lib Function

/-- The arguments of the constructor; `size` is an `int` sum, which does not overflow. -/
structure Window where
  past : Nat
  future : Nat
  fits : past + future + 1 < 2 ^ 31

structure TimeBuffer (α : Type) where
  index : Int → α
  base : Nat := 0

namespace TimeBuffer

inductive Fault
  | assert
  | outOfBounds

inductive Act (α : Type)
  | write (idx : Int) (x : α)
  | advance

variable {α : Type} (w : Window) (fresh : α) (b : TimeBuffer α)

def size : Nat := w.past + w.future + 1

def toInt (x : Int) : Int := x.bmod (2 ^ 32)

abbrev Valid (idx : Int) : Prop := -w.past ≤ idx ∧ idx ≤ w.future

abbrev InBounds (i : Int) : Prop := 0 ≤ i ∧ i < size w

/-- The position that `access` and `operator[]` compute. -/
def vectorIndex (idx : Int) : Except Fault Int := do
  ensure .assert (Valid w idx)
  let v := toInt (idx + b.base)
  let v := if size w ≤ v then toInt (v - size w) else if v < 0 then toInt (v + size w) else v
  ensure .outOfBounds (InBounds w v)
  .ok v

def next : Nat := if size w ≤ b.base + 1 then 0 else b.base + 1

def call : Act α → Except Fault (TimeBuffer α)
  | .write idx x => do
    let v ← b.vectorIndex w idx
    .ok { b with index := update b.index v x }
  | .advance => do
    let ptr := toInt (b.next w + w.future)
    let ptr := if size w ≤ ptr then toInt (ptr - size w) else ptr
    ensure .outOfBounds (InBounds w ptr)
    .ok ⟨update b.index ptr fresh, b.next w⟩

/-- The values of all cycles, and the current one. -/
structure Cycles (α : Type) where
  value : Int → α
  now : Int := 0

def Cycles.step (c : Cycles α) : Act α → Cycles α
  | .write idx x => { c with value := update c.value (c.now + idx) x }
  | .advance => { c with now := c.now + 1 }

/-- The place of an index, without overflow. -/
def place (base idx : Int) : Int :=
  if size w ≤ idx + base then idx + base - size w else if idx + base < 0 then idx + base + size w else idx + base

/-- The window shows the values of its cycles, and no later cycle has a value yet. -/
structure Shows (c : Cycles α) : Prop where
  lt : b.base < size w
  top : b.base + w.future < 2 ^ 31
  value : ∀ i ≥ (-w.past : Int), c.value (c.now + i) = if i ≤ w.future then b.index (place w b.base i) else fresh

variable {w fresh b} {c : Cycles α} {base : Nat} {i j x : Int}

theorem toInt_eq (h : -2 ^ 31 ≤ x) (h' : x < 2 ^ 31) : toInt x = x := Int.bmod_eq_of_le (by omega) (by omega)

theorem place_inBounds (hb : base < size w) (hi : Valid w i) : InBounds w (place w base i) := by
  unfold Valid InBounds place size at *
  split_ifs <;> omega

theorem place_injective (hi : Valid w i) (hj : Valid w j) (h : place w x i = place w x j) : i = j := by
  unfold Valid place size at *
  split_ifs at h <;> omega

theorem next_lt : b.next w < size w := by
  unfold next size
  split_ifs <;> omega

theorem place_next (hb : b.base < size w) (hi : -w.past ≤ i) (hf : i < w.future) :
    place w (b.next w) i = place w b.base (i + 1) := by
  unfold place next size at *
  split_ifs <;> omega

theorem Shows.write (h : b.Shows w fresh c) (hi : Valid w i) (x : α) :
    Shows w fresh { b with index := update b.index (place w b.base i) x } (c.step (.write i x)) := by
  refine ⟨h.lt, h.top, fun j hj => ?_⟩
  by_cases hij : j = i
  · subst hij
    simp [Cycles.step, hi.2]
  · rw [Cycles.step]
    dsimp only
    rw [update_of_ne (fun he => hij (Int.add_left_cancel he)), h.value j hj]
    split_ifs with hf
    · rw [update_of_ne fun he => hij (place_injective ⟨hj, hf⟩ hi he)]
    · rfl

theorem Shows.advance (h : b.Shows w fresh c) (htop : b.next w + w.future < 2 ^ 31) :
    Shows w fresh ⟨update b.index (place w (b.next w) w.future) fresh, b.next w⟩ (c.step .advance) := by
  refine ⟨next_lt, htop, fun i hi => ?_⟩
  have hv := h.value (i + 1) (by omega)
  rw [Cycles.step, Int.add_assoc, Int.add_comm 1, hv]
  dsimp only
  rcases Int.lt_trichotomy i w.future with hlt | rfl | hgt
  · have hne : place w (b.next w) i ≠ place w (b.next w) w.future := fun he =>
      Int.ne_of_lt hlt (place_injective ⟨hi, by omega⟩ ⟨by omega, by omega⟩ he)
    rw [if_pos (by omega), if_pos (by omega), update_of_ne hne, place_next h.lt hi hlt]
  · rw [if_neg (by omega), if_pos (by omega), update_self]
  · rw [if_neg (by omega), if_neg (by omega)]

theorem Shows.vectorIndex_eq (h : b.Shows w fresh c) (hi : Valid w i) : b.vectorIndex w i = .ok (place w b.base i) := by
  have htop := h.top
  have hfits := w.fits
  have hp : (if size w ≤ i + b.base then toInt (i + b.base - size w) else
      if i + b.base < 0 then toInt (i + b.base + size w) else i + b.base) = place w b.base i := by
    unfold place size
    split_ifs
    · exact toInt_eq (by omega) (by omega)
    · exact toInt_eq (by omega) (by omega)
    · rfl
  rw [vectorIndex, ensure_bind hi]
  dsimp only
  rw [toInt_eq (by omega) (by omega), hp, ensure_bind (place_inBounds h.lt hi)]

theorem call_advance (htop : b.next w + w.future < 2 ^ 31) :
    b.call w fresh .advance = .ok ⟨update b.index (place w (b.next w) w.future) fresh, b.next w⟩ := by
  have hfits := w.fits
  have hp : (if (size w : Int) ≤ b.next w + w.future then toInt (b.next w + w.future - size w) else
      b.next w + w.future) = place w (b.next w) w.future := by
    rw [place, Int.add_comm w.future, if_neg (show ¬ (b.next w + w.future : Int) < 0 by omega)]
    split_ifs
    · exact toInt_eq (by unfold size; omega) (by omega)
    · rfl
  rw [call, toInt_eq (by omega) (by omega), hp, ensure_bind (place_inBounds next_lt ⟨by omega, by omega⟩)]

theorem not_call_advance (htop : ¬ b.next w + w.future < 2 ^ 31) : b.call w fresh .advance = .error .outOfBounds := by
  have hfits := w.fits
  have hnext : b.next w < w.past + w.future + 1 := next_lt
  have hneg : toInt (b.next w + w.future) < 0 := by
    rw [toInt, Int.bmod_def]
    split <;> omega
  rw [call, ensure, if_neg fun hin => by omega]
  rfl

/-- A write or an `advance` keeps the window in step with the cycles. -/
theorem Shows.step {a : Act α} {b' : TimeBuffer α} (h : b.Shows w fresh c) (hs : b.call w fresh a = .ok b') :
    b'.Shows w fresh (c.step a) := by
  cases a with
  | write i x =>
    obtain ⟨v, hv, rfl⟩ := of_map hs
    have hi := (of_ensure hv).1
    cases (h.vectorIndex_eq hi).symm.trans hv
    exact h.write hi x
  | advance =>
    by_cases htop : b.next w + w.future < 2 ^ 31
    · cases (call_advance htop).symm.trans hs
      exact h.advance htop
    · cases (not_call_advance htop).symm.trans hs

/-- In every state the window shows the values of its cycles, each in a place of its own, and the next `advance` goes
wrong iff `base + future` does not fit into an `int` then. -/
theorem window_iff {as : List (Act α)}
    (h : Run (fun b a b' => b.call w fresh a = .ok b') ⟨fun _ => fresh, 0⟩ as b) :
    let c := as.foldl Cycles.step ⟨fun _ => fresh, 0⟩
    (∀ i, Valid w i → ∃ v, b.vectorIndex w i = .ok v ∧ b.index v = c.value (c.now + i)) ∧
      (∀ i > (w.future : Int), c.value (c.now + i) = fresh) ∧
      (∀ i j, Valid w i → Valid w j → b.vectorIndex w i = b.vectorIndex w j → i = j) ∧
      ((∃ b', b.call w fresh .advance = .ok b') ↔ b.next w + w.future < 2 ^ 31) := by
  have hfits := w.fits
  have hshows : b.Shows w fresh (as.foldl .step ⟨fun _ => fresh, 0⟩) :=
    h.refines
      ⟨Nat.succ_pos _, show 0 + w.future < 2 ^ 31 by omega, fun i _ => (ite_self _).symm⟩ fun hx hs => hx.step hs
  refine ⟨fun i hi => ⟨_, hshows.vectorIndex_eq hi, ?_⟩, fun i hi => ?_, fun i j hi hj he => ?_, fun ⟨b', hb⟩ => ?_,
    fun htop => ⟨_, call_advance htop⟩⟩
  · rw [hshows.value i hi.1, if_pos hi.2]
  · rw [hshows.value i (by omega), if_neg (by omega)]
  · rw [hshows.vectorIndex_eq hi, hshows.vectorIndex_eq hj] at he
    exact place_injective hi hj (Except.ok.inj he)
  · by_contra htop
    cases (not_call_advance htop).symm.trans hb

/-- What is written for the next cycle is there after one `advance`. -/
theorem delivers_nextCycle : let w : Window := ⟨1, 1, by decide⟩
    ∃ (b : TimeBuffer Nat) (v : Int),
      Run (fun b a b' => b.call w 0 a = .ok b') ⟨fun _ => 0, 0⟩ [.write 1 5, .advance] b ∧
      b.vectorIndex w 0 = .ok v ∧ b.index v = 5 := by
  obtain ⟨b, hrun, -⟩ := Run.exists_of_check (call ⟨1, 1, by decide⟩ 0) id ⟨fun _ => 0, 0⟩ [.write 1 5, .advance]
    (fun _ => True) (by decide)
  obtain ⟨v, hv, hx⟩ := (window_iff hrun).1 0 (by decide)
  exact ⟨b, v, hrun, hv, hx⟩

/-- The second `advance` of a buffer of 2^31 - 1 places computes the position -2^31. -/
theorem not_delivers : let w : Window := ⟨0, 2 ^ 31 - 2, by decide⟩
    (call w 0 ⟨fun _ => 0, 0⟩ .advance >>= fun b => b.call w 0 .advance) = .error .outOfBounds := rfl

end TimeBuffer
end M5.Base
