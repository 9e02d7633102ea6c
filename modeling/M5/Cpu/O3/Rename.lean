import M5.Cpu.O3.MemDepUnit

/-!
# Register renaming of the out-of-order CPU

The free list, the rename maps of the threads and the history buffers of `cpu/o3`: `free_list.hh`, `rename_map.cc`,
`scoreboard.cc`, and of `rename_impl.hh` what renames, undoes renames and commits them. The indices of the physical
registers are those of the integer registers, then of the floating-point registers and then of the miscellaneous
registers, which are not renamed.

* `Rename.init`: what the constructor of the CPU makes.
-/

namespace M5.Cpu.O3

open M5.Lib Function

structure ISA where
  isAlpha : Bool
  numIntRegs : Nat
  numFloatRegs : Nat
  numMiscRegs : Nat
  fpBaseDepTag : Nat
  zeroReg : Nat
  zeroReg_lt : zeroReg < numIntRegs
  numMiscRegs_le : numMiscRegs ≤ 2 ^ 15

/-- Parameters of the CPU. It asserts that there are enough registers, and no more of them can be listed than have an
index. -/
structure RenameConfig extends ISA where
  numThreads : Nat
  activeThreads : Nat
  numPhysIntRegs : Nat
  numPhysFloatRegs : Nat
  int_le : numThreads * numIntRegs ≤ numPhysIntRegs
  float_le : numThreads * numFloatRegs ≤ numPhysFloatRegs
  index_lt : numPhysIntRegs + numPhysFloatRegs < 2 ^ 15

/-- A `PhysRegIndex`, which is a `short int`. -/
def toPhysRegIndex (i : Int) : Int := i.bmod (2 ^ 16)

namespace RenameConfig

variable (c : RenameConfig)

def numLogicalRegs : Nat := c.numIntRegs + c.numFloatRegs

def numPhysicalRegs : Nat := c.numPhysIntRegs + c.numPhysFloatRegs

/-- The zero registers as the ISA sees them by physical index. -/
def HardWired (r : Int) : Prop := r = c.zeroReg ∨ (c.isAlpha ∧ r = c.zeroReg + c.numPhysIntRegs)

instance (r : Int) : Decidable (c.HardWired r) := inferInstanceAs (Decidable (_ ∨ _))

end RenameConfig

/-! ## The free list -/

structure FreeList where
  freeIntRegs : List Int
  freeFloatRegs : List Int

namespace FreeList

def init (c : RenameConfig) : FreeList where
  freeIntRegs := (List.range' (c.numIntRegs * c.numThreads) (c.numPhysIntRegs - c.numIntRegs * c.numThreads)).map
    Nat.cast
  freeFloatRegs := (List.range' (c.numPhysIntRegs + c.numFloatRegs * c.numThreads)
    (c.numPhysFloatRegs - c.numFloatRegs * c.numThreads)).map Nat.cast

def getIntReg (fl : FreeList) : Except Stop (Int × FreeList) :=
  match fl.freeIntRegs with
  | [] => .error .panic
  | r :: rs => .ok (r, { fl with freeIntRegs := rs })

def getFloatReg (fl : FreeList) : Except Stop (Int × FreeList) :=
  match fl.freeFloatRegs with
  | [] => .error .panic
  | r :: rs => .ok (r, { fl with freeFloatRegs := rs })

def addReg (c : RenameConfig) (fl : FreeList) (freed : Int) : FreeList :=
  if freed < c.numPhysIntRegs then
    if freed ≠ c.zeroReg then { fl with freeIntRegs := fl.freeIntRegs ++ [freed] } else fl
  else if freed < c.numPhysicalRegs then
    if c.isAlpha ∧ freed = c.zeroReg + c.numPhysIntRegs then fl
    else { fl with freeFloatRegs := fl.freeFloatRegs ++ [freed] }
  else fl

end FreeList

/-! ## The rename map -/

/-- The rename map of a thread. Floating-point registers come after the integer registers. -/
structure RenameMap where
  intRenameMap : Nat → Int
  floatRenameMap : Nat → Int

namespace RenameMap

variable (c : RenameConfig)

def init (iregIdx fregIdx : Nat) : RenameMap where
  intRenameMap := fun index => iregIdx + index
  floatRenameMap := fun index => fregIdx + (index - c.numIntRegs : Nat)

variable (m : RenameMap)

def lookup (archReg : Nat) : Int :=
  if archReg < c.numIntRegs then m.intRenameMap archReg
  else if archReg < c.numLogicalRegs then m.floatRenameMap archReg
  else toPhysRegIndex (c.numPhysicalRegs + (archReg - c.numLogicalRegs : Nat))

def setEntry (archReg : Nat) (renamed : Int) : RenameMap :=
  if archReg < c.numIntRegs then { m with intRenameMap := update m.intRenameMap archReg renamed }
  else if archReg < c.numIntRegs + c.numFloatRegs then
    { m with floatRenameMap := update m.floatRenameMap archReg renamed }
  else m

def rename (fl : FreeList) (archReg : Nat) : Except Stop ((Int × Int) × RenameMap × FreeList) :=
  if archReg < c.numIntRegs then
    let prev := m.intRenameMap archReg
    if archReg ≠ c.zeroReg then do
      let (renamed, fl) ← fl.getIntReg
      let m := { m with intRenameMap := update m.intRenameMap archReg renamed }
      ensure .assert (0 ≤ renamed ∧ renamed < c.numPhysIntRegs)
      .ok ((renamed, prev), m, fl)
    else .ok ((c.zeroReg, prev), m, fl)
  else if archReg < c.numLogicalRegs then
    let prev := m.floatRenameMap archReg
    -- `floatZeroReg` is initialised with `ZeroReg` too
    if c.isAlpha = false ∨ archReg ≠ c.zeroReg then do
      let (renamed, fl) ← fl.getFloatReg
      let m := { m with floatRenameMap := update m.floatRenameMap archReg renamed }
      ensure .assert (renamed < c.numPhysicalRegs ∧ c.numPhysIntRegs ≤ renamed)
      .ok ((renamed, prev), m, fl)
    else .ok ((c.zeroReg, prev), m, fl)
  else
    let renamed := toPhysRegIndex (c.numPhysicalRegs + (archReg - c.numLogicalRegs : Nat))
    .ok ((renamed, renamed), m, fl)

end RenameMap

/-! ## The scoreboard -/

abbrev Scoreboard := Int → Bool

namespace Scoreboard

variable (c : RenameConfig)

/-- The length of `regScoreBoard`; the CPU passes `NumMiscRegs * numThreads` for the number of miscellaneous
registers. -/
def size : Nat := c.numPhysicalRegs + c.numMiscRegs * c.numThreads * c.numThreads

def init : Scoreboard := fun r =>
  decide (0 ≤ r ∧ r < c.numIntRegs * c.numThreads) ||
    decide (c.numPhysIntRegs ≤ r ∧ r < c.numPhysIntRegs + c.numFloatRegs * c.numThreads) ||
    decide (c.numPhysicalRegs ≤ r ∧ r < size c)

/-- `setReg`. An access outside of the vector, which has no meaning in the source, stops. -/
def setReg (sb : Scoreboard) (r : Int) : Except Stop Scoreboard := do
  ensure .assert (0 ≤ r ∧ r < size c)
  .ok (update sb r true)

def unsetReg (sb : Scoreboard) (r : Int) : Except Stop Scoreboard :=
  if c.HardWired r then .ok sb
  else do
    ensure .assert (0 ≤ r ∧ r < size c)
    .ok (update sb r false)

end Scoreboard

/-! ## The rename stage -/

structure RenameHistory where
  instSeqNum : InstSeqNum
  archReg : Nat
  newPhysReg : Int
  prevPhysReg : Int
deriving DecidableEq

/-- What the rename stage works on. The latest rename is first in a history buffer. -/
structure Rename (c : RenameConfig) where
  freeList : FreeList
  scoreboard : Scoreboard
  renameMap : Fin c.numThreads → RenameMap
  historyBuffer : Fin c.numThreads → List RenameHistory

namespace Rename

variable {c : RenameConfig}

/-- `lreg_idx`, or `freg_idx`, when the map of the thread is made: `width` registers have been bound for each thread
before it that is active. -/
def regIdx (c : RenameConfig) (start width : Nat) : Nat → Nat
  | 0 => start
  | tid + 1 => if tid < c.activeThreads then regIdx c start width tid + width else regIdx c start width tid

def init (c : RenameConfig) : Rename c where
  freeList := .init c
  scoreboard := .init c
  renameMap := fun tid => .init c (regIdx c 0 c.numIntRegs tid) (regIdx c c.numPhysIntRegs c.numFloatRegs tid)
  historyBuffer := fun _ => []

def flatDestReg (c : RenameConfig) (flattenIntIndex : Nat → Nat) (dest : Nat) : Nat :=
  if dest < c.fpBaseDepTag then flattenIntIndex dest else dest - c.fpBaseDepTag + c.numIntRegs

variable (s : Rename c) (tid : Fin c.numThreads)

/-- One turn of the loop of `renameDestRegs`. -/
def renameDestReg (seqNum : InstSeqNum) (s : Rename c) (flat : Nat) : Except Stop (Rename c) := do
  let ((renamed, prev), m, fl) ← (s.renameMap tid).rename c s.freeList flat
  let sb ← s.scoreboard.unsetReg c renamed
  .ok {
    freeList := fl, scoreboard := sb, renameMap := update s.renameMap tid m,
    historyBuffer := update s.historyBuffer tid (⟨seqNum, flat, renamed, prev⟩ :: s.historyBuffer tid) }

def renameDestRegs (seqNum : InstSeqNum) (flattenIntIndex : Nat → Nat) (dests : List Nat) : Except Stop (Rename c) :=
  (dests.map (flatDestReg c flattenIntIndex)).foldlM (renameDestReg tid seqNum) s

/-- One turn of the loop of `doSquash`, for the first entry. -/
def undoEntry (e : RenameHistory) (rest : List RenameHistory) : Except Stop (Rename c) := do
  let sb ← if c.numPhysicalRegs ≤ e.newPhysReg then s.scoreboard.setReg c e.newPhysReg else .ok s.scoreboard
  .ok {
    freeList := s.freeList.addReg c e.newPhysReg, scoreboard := sb,
    renameMap := update s.renameMap tid ((s.renameMap tid).setEntry c e.archReg e.prevPhysReg),
    historyBuffer := update s.historyBuffer tid rest }

def squashLoop (tid : Fin c.numThreads) (squashed : InstSeqNum) : List RenameHistory → Rename c → Except Stop (Rename c)
  | [], s => .ok s
  | e :: rest, s =>
    if squashed < e.instSeqNum then do squashLoop tid squashed rest (← s.undoEntry tid e rest) else .ok s

def doSquash (squashed : InstSeqNum) (tid : Fin c.numThreads) : Except Stop (Rename c) :=
  squashLoop tid squashed (s.historyBuffer tid) s

/-- One turn of the loop of `removeFromHistory`, for the last entry. -/
def releaseEntry (e : RenameHistory) (rest : List RenameHistory) : Rename c :=
  { s with
    freeList := s.freeList.addReg c e.prevPhysReg,
    historyBuffer := update s.historyBuffer tid rest.reverse }

/-- The loop of `removeFromHistory`, over the entries from the last one on. -/
def releaseLoop (tid : Fin c.numThreads) (done : InstSeqNum) : List RenameHistory → Rename c → Rename c
  | [], s => s
  | e :: rest, s => if e.instSeqNum ≤ done then releaseLoop tid done rest (s.releaseEntry tid e rest) else s

def removeFromHistory (done : InstSeqNum) (tid : Fin c.numThreads) : Rename c :=
  releaseLoop tid done (s.historyBuffer tid).reverse s

inductive Act (c : RenameConfig)
  | renameDestRegs (tid : Fin c.numThreads) (seqNum : InstSeqNum) (flattenIntIndex : Nat → Nat)
      (dests : List Nat)
  | doSquash (squashed : InstSeqNum) (tid : Fin c.numThreads)
  | removeFromHistory (done : InstSeqNum) (tid : Fin c.numThreads)

/-- The destination registers are registers of the ISA. -/
def Act.Allowed : Act c → Prop
  | renameDestRegs _ _ flattenIntIndex dests =>
    ∀ d ∈ dests, flatDestReg c flattenIntIndex d < c.numLogicalRegs + c.numMiscRegs
  | doSquash .. | removeFromHistory .. => True

def handle : Act c → Except Stop (Rename c)
  | .renameDestRegs tid seqNum flattenIntIndex dests => s.renameDestRegs tid seqNum flattenIntIndex dests
  | .doSquash squashed tid => s.doSquash squashed tid
  | .removeFromHistory done tid => .ok (s.removeFromHistory done tid)

def Step (a : Act c) (t : Rename c) : Prop := a.Allowed ∧ s.handle a = .ok t

end Rename

end M5.Cpu.O3
