import M5.Cpu.Pred.Tournament
import Mathlib.Data.List.DropRight

/-!
# The branch prediction unit

`BPredUnit` of `cpu/o3/bpred_unit_impl.hh` over `LocalBP`, `DefaultBTB` and `ReturnAddrStack` of `cpu/pred`. A record of
each prediction is kept, the youngest first: `update` trains the predictor with it, and a squash undoes it.
-/

namespace M5.Cpu.Pred

open M5.Lib Function List

structure LocalBP where
  localCtrBits : Nat
  indexMask : Nat
  instShiftAmt : Nat
  localCtrs : Nat → SatCounter

namespace LocalBP

variable (bp : LocalBP) (addr : Nat)

def getLocalIndex : Nat := (addr >>> bp.instShiftAmt) &&& bp.indexMask

def lookup : Bool := decide ((bp.localCtrs (bp.getLocalIndex addr)).counter >>> (bp.localCtrBits - 1) ≠ 0)

def update (taken : Bool) : LocalBP :=
  { bp with localCtrs := adjust (bp.getLocalIndex addr) (.train taken) bp.localCtrs }

end LocalBP

/-- The predictor that the unit was built with. -/
inductive Predictor
  | Local (bp : LocalBP)
  | Tournament (bp : TournamentBP)

namespace Predictor

def BPUncond : Predictor → Option BPHistory × Predictor
  | Local bp => (none, Local bp)
  | Tournament bp => (some bp.uncondBr.1, Tournament bp.uncondBr.2)

def BPLookup (addr : Nat) : Predictor → Except Stop (Bool × Option BPHistory × Predictor)
  | Local bp => .ok (bp.lookup addr, none, Local bp)
  | Tournament bp => do
    let (taken, history, bp) ← bp.lookup addr
    .ok (taken, some history, Tournament bp)

def BPUpdate (addr : Nat) (taken : Bool) (history : Option BPHistory) : Predictor → Except Stop Predictor
  | Local bp => do
    ensure .assert (history = none)
    .ok (Local (bp.update addr taken))
  | Tournament bp => do
    let bp ← bp.update addr taken history
    .ok (Tournament bp)

def BPSquash (history : Option BPHistory) : Predictor → Except Stop Predictor
  | Local bp => do
    ensure .assert (history = none)
    .ok (Local bp)
  | Tournament bp => history.elim (.error .dangling) fun h => .ok (Tournament (bp.squash h))

end Predictor

structure ReturnAddrStack where
  numEntries : Nat
  usedEntries : Nat := 0
  tos : Nat := 0
  addrStack : Nat → Nat := fun _ => 0

namespace ReturnAddrStack

variable (r : ReturnAddrStack)

def top : Nat := r.addrStack r.tos

def incrTos : Nat := if r.tos + 1 = r.numEntries then 0 else r.tos + 1

def decrTos : Nat := if r.tos = 0 then r.numEntries - 1 else r.tos - 1

def push (addr : Nat) : ReturnAddrStack :=
  { r with
    tos := r.incrTos
    addrStack := update r.addrStack r.incrTos addr
    usedEntries := if r.usedEntries ≠ r.numEntries then r.usedEntries + 1 else r.usedEntries }

def pop : ReturnAddrStack := { r with usedEntries := r.usedEntries - 1, tos := r.decrTos }

def restore (idx target : Nat) : ReturnAddrStack := { r with tos := idx, addrStack := update r.addrStack idx target }

end ReturnAddrStack

structure BTBEntry where
  tag : Nat := 0
  target : Nat := 0
  tid : Nat := 0
  valid : Bool := false

structure DefaultBTB where
  numEntries : Nat
  tagBits : Nat
  instShiftAmt : Nat
  btb : Nat → BTBEntry := fun _ => {}

namespace DefaultBTB

variable (b : DefaultBTB) (pc : Nat)

def getIndex : Nat := (pc >>> b.instShiftAmt) &&& (b.numEntries - 1)

def getTag : Nat := (pc >>> (b.instShiftAmt + b.numEntries.log2)) &&& (2 ^ b.tagBits - 1)

def valid (tid : Nat) : Bool :=
  let e := b.btb (b.getIndex pc)
  e.valid && b.getTag pc = e.tag && e.tid = tid

def lookup (tid : Nat) : Nat := if b.valid pc tid then (b.btb (b.getIndex pc)).target else 0

def update (target tid : Nat) : DefaultBTB :=
  { b with btb := Function.update b.btb (b.getIndex pc) { tag := b.getTag pc, target, tid, valid := true } }

end DefaultBTB

structure DynInst where
  seqNum : Nat
  isUncondCtrl : Bool := false
  isReturn : Bool := false
  isCall : Bool := false

/-- The record of a prediction. The source does not have `returned`, the direction that `predict` returned. -/
structure PredictorHistory where
  seqNum : Nat
  PC : Nat
  RASTarget : Nat := 0
  RASIndex : Nat := 0
  predTaken : Bool
  usedRAS : Bool := false
  wasCall : Bool := false
  bpHistory : Option BPHistory
  returned : Bool := false

/-- The unit, for any number of threads; the return address of a call is `rasOffset` behind it. -/
structure BPredUnit where
  predictor : Predictor
  BTB : DefaultBTB
  RAS : Nat → ReturnAddrStack
  predHist : Nat → List PredictorHistory := fun _ => []
  rasOffset : Nat

namespace BPredUnit

variable (u : BPredUnit) (inst : DynInst) (PC tid : Nat)

/-- The direction and the history of a branch, at the start of `predict`. -/
def direction : Except Stop (Bool × Option BPHistory × Predictor) :=
  if inst.isUncondCtrl then .ok (true, u.predictor.BPUncond) else u.predictor.BPLookup PC

/-- The part of `predict` that looks in the BTB or the RAS: the direction to return, the target, the record and the
RAS. -/
def findTarget (e : PredictorHistory) : Except Stop (Bool × Nat × PredictorHistory × ReturnAddrStack) :=
  let ras := u.RAS tid
  if e.predTaken then
    if inst.isReturn then do
      ensure .assert (ras.tos < 16)
      .ok (true, ras.top, { e with usedRAS := true, RASIndex := ras.tos, RASTarget := ras.top }, ras.pop)
    else
      let ras := if inst.isCall then ras.push (PC + u.rasOffset) else ras
      let e := { e with wasCall := inst.isCall }
      if u.BTB.valid PC tid then .ok (true, u.BTB.lookup PC tid, e, ras) else .ok (false, PC, e, ras)
  else .ok (false, PC, e, ras)

def predict : Except Stop (Bool × Nat × BPredUnit) := do
  let (predTaken, bpHistory, predictor) ← u.direction inst PC
  let (taken, target, e, ras) ← u.findTarget inst PC tid { seqNum := inst.seqNum, PC, predTaken, bpHistory }
  .ok (taken, target, { u with
    predictor
    RAS := update u.RAS tid ras
    predHist := update u.predHist tid ({ e with returned := taken } :: u.predHist tid) })

/-- The records that `update` takes from the back, from the last on. -/
def retired (doneSN : Nat) : List PredictorHistory :=
  ((u.predHist tid).rtakeWhile fun e => decide (e.seqNum ≤ doneSN)).reverse

def update (doneSN : Nat) : Except Stop BPredUnit := do
  let predictor ← (u.retired tid doneSN).foldlM (fun p e => p.BPUpdate e.PC e.predTaken e.bpHistory) u.predictor
  .ok { u with
    predictor, predHist :=
      Function.update u.predHist tid ((u.predHist tid).rdropWhile fun e => decide (e.seqNum ≤ doneSN)) }

def undo (e : PredictorHistory) : Except Stop BPredUnit := do
  let ras := u.RAS tid
  let predictor ← u.predictor.BPSquash e.bpHistory
  .ok { u with
    predictor
    RAS := Function.update u.RAS tid
      (if e.usedRAS then ras.restore e.RASIndex e.RASTarget else if e.wasCall then ras.pop else ras)
    predHist := Function.update u.predHist tid (u.predHist tid).tail }

def squash (squashedSN : Nat) : Except Stop BPredUnit :=
  ((u.predHist tid).takeWhile fun e => decide (squashedSN < e.seqNum)).foldlM (fun u e => u.undo tid e) u

/-- `squash` after a branch was mispredicted. -/
def squashMispredict (squashedSN corrTarget : Nat) (actuallyTaken : Bool) : Except Stop BPredUnit := do
  let u ← u.squash tid squashedSN
  match u.predHist tid with
  | [] => .ok u
  | e :: rest =>
    ensure .assert (e.seqNum = squashedSN)
    let predictor ← u.predictor.BPUpdate e.PC actuallyTaken e.bpHistory
    .ok { u with predictor, BTB := u.BTB.update e.PC corrTarget tid, predHist := Function.update u.predHist tid rest }

end BPredUnit

inductive Act
  | predict (inst : DynInst) (PC tid : Nat)
  | update (doneSN tid : Nat)
  | squash (squashedSN tid : Nat)
  | mispredict (squashedSN corrTarget : Nat) (actuallyTaken : Bool) (tid : Nat)

namespace BPredUnit

variable {u u' : BPredUnit} {tid : Nat}

def call (u : BPredUnit) : Act → Except Stop BPredUnit
  | .predict inst PC tid => do
    let (_, _, u) ← u.predict inst PC tid
    .ok u
  | .update doneSN tid => u.update tid doneSN
  | .squash squashedSN tid => u.squash tid squashedSN
  | .mispredict squashedSN corrTarget actuallyTaken tid => u.squashMispredict tid squashedSN corrTarget actuallyTaken

/-! ## The directions that the predictor is trained with -/

/-- A branch that is predicted taken and is not a return misses in the BTB. -/
def Misses (u : BPredUnit) : Act → Prop
  | .predict inst PC tid =>
    (∃ r, u.direction inst PC = .ok (true, r)) ∧ inst.isReturn = false ∧ u.BTB.valid PC tid = false
  | _ => False

/-- The records have the directions that were returned. -/
def Agrees (u : BPredUnit) : Prop := ∀ tid, ∀ e ∈ u.predHist tid, e.predTaken = e.returned

theorem findTarget_eq_ok {inst : DynInst} {PC target : Nat} {e e' : PredictorHistory} {taken : Bool}
    {ras : ReturnAddrStack} (h : u.findTarget inst PC tid e = .ok (taken, target, e', ras)) :
    e'.seqNum = e.seqNum ∧ e'.predTaken = e.predTaken ∧ e'.bpHistory = e.bpHistory ∧
      (e.predTaken = taken ↔ ¬ (e.predTaken ∧ inst.isReturn = false ∧ u.BTB.valid PC tid = false)) := by
  unfold findTarget at h
  dsimp only at h
  split at h
  · next hp =>
    split at h
    · next hr =>
      obtain ⟨-, h⟩ := of_ensure h
      cases h
      simp [hp, hr]
    · next hr =>
      split at h
      · next hv =>
        cases h
        simp [hp, hv]
      · next hv =>
        cases h
        simp [hp, hr, hv]
  · next hp =>
    cases h
    simp [hp]

theorem sublist_update {l : List PredictorHistory} (h : l <+ u.predHist tid) (t : Nat) :
    Function.update u.predHist tid l t <+ u.predHist t :=
  (forall_update_iff u.predHist fun t l => l <+ u.predHist t).2 ⟨h, fun _ _ => .refl _⟩ t

/-- A unit with a tournament predictor, before it is used. -/
def fresh : BPredUnit where
  predictor := .Tournament {
    localPredictorSize := 4, localPredictorMask := 3, localHistoryTableSize := 4, globalPredictorSize := 4
    globalHistoryMask := 3, instShiftAmt := 2, threshold := 1
    localCtrs := fun _ => .setBits 2, globalCtrs := fun _ => .setBits 2, choiceCtrs := fun _ => .setBits 2 }
  BTB := { numEntries := 4, tagBits := 16, instShiftAmt := 2 }
  RAS := fun _ => { numEntries := 16 }
  rasOffset := 4

end BPredUnit

end M5.Cpu.Pred
