import M5.Lib.Check
import Mathlib.Logic.Function.Basic

/-!
# The memory dependence unit of the out-of-order CPU

`MemDepUnit` of `cpu/o3/mem_dep_unit_impl.hh`, for one thread. It holds memory instructions back until the store or
barrier that they depend on is done, and hands them to the instruction queue.

An entry of the unit is reference counted: it lives on in the lists of dependents after it has left the hash. Entries
are kept by sequence number here, and `memDepHash` says which of them are in the hash.
-/

namespace M5.Cpu.O3

open M5.Lib Function

inductive Stop
  | assert | panic
deriving DecidableEq

abbrev InstSeqNum := Nat

structure DynInst where
  seqNum : InstSeqNum
  isLoad : Bool := false
  isStore : Bool := false
  isMemBarrier : Bool := false
  isWriteBarrier : Bool := false
deriving DecidableEq

/-- The call that brought an instruction into the unit; the source does not keep it. -/
inductive Via
  | insert | insertNonSpec | insertBarrier
deriving DecidableEq

structure MemDepEntry where
  inst : DynInst
  via : Via
  dependInsts : List InstSeqNum := []
  regsReady : Bool := false
  memDepReady : Bool := false
  squashed : Bool := false

structure MemDepUnit where
  /-- Every entry that was ever made. -/
  entries : InstSeqNum → Option MemDepEntry := fun _ => none
  memDepHash : InstSeqNum → Bool := fun _ => false
  /-- The youngest instruction first. -/
  instList : List InstSeqNum := []
  loadBarrier : Bool := false
  loadBarrierSN : InstSeqNum := 0
  storeBarrier : Bool := false
  storeBarrierSN : InstSeqNum := 0

namespace MemDepUnit

variable (u : MemDepUnit)

variable (inst : DynInst) (n : InstSeqNum)

def modify (f : MemDepEntry → MemDepEntry) : MemDepUnit :=
  { u with entries := update u.entries n ((u.entries n).map f) }

def findInHash : Except Stop MemDepEntry :=
  match u.memDepHash n, u.entries n with
  | true, some e => .ok e
  | _, _ => .error .assert

/-- `MemDepUnit::moveToReady`: the instruction goes to the queue. -/
def moveToReady (e : MemDepEntry) : Except Stop (List InstSeqNum) := do
  ensure .assert (e.squashed = false)
  return [e.inst.seqNum]

def addEntry (via : Via) : MemDepUnit :=
  { u with
    entries := update u.entries inst.seqNum (some { inst, via })
    memDepHash := update u.memDepHash inst.seqNum true
    instList := inst.seqNum :: u.instList }

/-- The producer that an instruction waits for, zero for none. -/
def producingStore (predicted : InstSeqNum) : InstSeqNum :=
  if inst.isLoad && u.loadBarrier then u.loadBarrierSN
  else if inst.isStore && u.storeBarrier then u.storeBarrierSN
  else predicted

/-- The last part of `insert` and `insertNonSpec`. -/
def checkType : Except Stop Unit := ensure .panic (inst.isStore ∨ inst.isLoad)

/-- `MemDepUnit::insert`, with what the predictor says and whether the registers are ready. -/
def insert (predicted : InstSeqNum) (readyToIssue : Bool) : Except Stop (MemDepUnit × List InstSeqNum) := do
  let u' := u.addEntry inst .insert
  let producing := u.producingStore inst predicted
  checkType inst
  if producing ≠ 0 ∧ u'.memDepHash producing then
    let u' := u'.modify inst.seqNum fun e => { e with regsReady := readyToIssue }
    return (u'.modify producing fun e => { e with dependInsts := e.dependInsts ++ [inst.seqNum] }, [])
  else
    let u' := u'.modify inst.seqNum fun e => { e with memDepReady := true, regsReady := readyToIssue }
    return (u', if readyToIssue then [inst.seqNum] else [])

def insertNonSpec : Except Stop (MemDepUnit × List InstSeqNum) := do
  checkType inst
  return (u.addEntry inst .insertNonSpec, [])

def insertBarrier : MemDepUnit :=
  let n := inst.seqNum
  let u :=
    if inst.isMemBarrier then
      { u with loadBarrier := true, loadBarrierSN := n, storeBarrier := true, storeBarrierSN := n }
    else if inst.isWriteBarrier then { u with storeBarrier := true, storeBarrierSN := n }
    else u
  u.addEntry inst .insertBarrier

def regsReady : Except Stop (MemDepUnit × List InstSeqNum) := do
  let e ← u.findInHash n
  let u := u.modify n fun e => { e with regsReady := true }
  if e.memDepReady then
    let r ← moveToReady e
    return (u, r)
  else
    return (u, [])

def wakeLoop : List InstSeqNum → MemDepUnit → Except Stop (MemDepUnit × List InstSeqNum)
  | [], u => return (u, [])
  | n :: ns, u =>
    match u.entries n with
    | none => wakeLoop ns u
    | some e =>
      if e.regsReady && !e.squashed then do
        let (u, r) ← wakeLoop ns u
        return (u, n :: r)
      else
        wakeLoop ns (u.modify n fun e => { e with memDepReady := true })

def wakeDependents : Except Stop (MemDepUnit × List InstSeqNum) :=
  if !inst.isStore && !inst.isMemBarrier && !inst.isWriteBarrier then .ok (u, [])
  else do
    let e ← u.findInHash inst.seqNum
    let (u, r) ← wakeLoop e.dependInsts u
    return (u.modify inst.seqNum fun e => { e with dependInsts := [] }, r)

def completed : Except Stop MemDepUnit := do
  ensure .assert (u.memDepHash n)
  return { u with memDepHash := update u.memDepHash n false, instList := u.instList.filter (· != n) }

/-- The barriers that a completed barrier was the last of. -/
def clearBarriers : Except Stop MemDepUnit :=
  if inst.isMemBarrier then do
    ensure .assert (u.loadBarrier ∧ u.storeBarrier)
    return { u with
      loadBarrier := u.loadBarrier && u.loadBarrierSN != inst.seqNum
      storeBarrier := u.storeBarrier && u.storeBarrierSN != inst.seqNum }
  else if inst.isWriteBarrier then do
    ensure .assert u.storeBarrier
    return { u with storeBarrier := u.storeBarrier && u.storeBarrierSN != inst.seqNum }
  else
    return u

def completeBarrier : Except Stop (MemDepUnit × List InstSeqNum) := do
  let (u, r) ← u.wakeDependents inst
  let u ← u.completed inst.seqNum
  let u ← u.clearBarriers inst
  return (u, r)

/-- The loop of `MemDepUnit::squash`, from the end of the list. -/
def squashLoop (squashedNum : InstSeqNum) : List InstSeqNum → MemDepUnit → Except Stop MemDepUnit
  | [], u => return { u with instList := [] }
  | n :: ns, u =>
    if squashedNum < n then do
      ensure .assert (u.memDepHash n)
      let u := u.modify n fun e => { e with squashed := true }
      squashLoop squashedNum ns { u with memDepHash := update u.memDepHash n false }
    else
      return { u with instList := n :: ns }

def squash (squashedNum : InstSeqNum) : Except Stop MemDepUnit := squashLoop squashedNum u.instList u

end MemDepUnit

inductive Call
  | insert (inst : DynInst) (predicted : InstSeqNum) (readyToIssue : Bool)
  | insertNonSpec (inst : DynInst)
  | insertBarrier (inst : DynInst)
  | regsReady (inst : DynInst)
  | wakeDependents (inst : DynInst)
  | completeBarrier (inst : DynInst)
  | completed (inst : DynInst)
  | squash (squashedNum : InstSeqNum)

/-- A call: the unit after it, and the instructions that it hands to `addReadyMemInst`. -/
def MemDepUnit.step (u : MemDepUnit) : Call → Except Stop (MemDepUnit × List InstSeqNum)
  | .insert inst predicted readyToIssue => u.insert inst predicted readyToIssue
  | .insertNonSpec inst => u.insertNonSpec inst
  | .insertBarrier inst => .ok (u.insertBarrier inst, [])
  | .regsReady inst => u.regsReady inst.seqNum
  | .wakeDependents inst => u.wakeDependents inst
  | .completeBarrier inst => u.completeBarrier inst
  | .completed inst => do return (← u.completed inst.seqNum, [])
  | .squash squashedNum => do return (← u.squash squashedNum, [])

end M5.Cpu.O3
