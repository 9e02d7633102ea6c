import M5.Lib.RadixTable
import M5.Lib.BitField
import M5.Lib.Bytes
import M5.Lib.Check

/-!
# The page table walker and the TLB of x86

The formats of the page tables are those of the architecture: four levels in long mode, three with physical address
extension, and two in 32-bit mode, each level indexed by its own field of the virtual address. In the levels that are
called directories an entry may map a large page. The entries of a page directory pointer table of the extension have no
permission bits.

`Walker` of `arch/x86/pagetable_walker.cc` in atomic mode. Physical memory is a function from addresses to bytes. The
walker reads an entry, `doNext` handles it according to the state, and the entry is written back with its accessed bit
if the walk goes on and the bit was clear; `write->set<uint64_t>` asserts that the packet has eight bytes. The entry
that `doNext` puts into the TLB is part of its result.

`TLB` of `arch/x86/tlb.cc` in full-system mode. `entryList` holds the entries in use, the latest first; the free list is
what is left of `size`. `vaddr + size` is a 64-bit number.
-/

namespace M5.X86

open M5.Lib.Radix M5.Lib

/-! ## Entries -/

namespace PTE

variable (e : Nat)

def p : Bool := e.testBit 0
def w : Bool := e.testBit 1
def u : Bool := e.testBit 2
def pcd : Bool := e.testBit 4
def a : Bool := e.testBit 5
def ps : Bool := e.testBit 7
def g : Bool := e.testBit 8
def nx : Bool := e.testBit 63

end PTE

/-- What an entry says about permissions: nothing, all that is known, or something besides the entries before it. -/
inductive Say
  | nothing | first | further
deriving DecidableEq

/-- The base of a table or page of 4 KB, of `w` bits from bit 12 on. -/
def frame (w e : Nat) : Nat := e / 2 ^ 12 % 2 ^ w * 2 ^ 12

variable (fw e : Nat)

def page2M : Page := ⟨21, e / 2 ^ 21 % 2 ^ 31 * 2 ^ 21⟩

/-- A page of 4 MB: bits 20 to 13 are the high bits of its base. -/
def page4M : Page := ⟨22, e / 2 ^ 13 % 2 ^ 8 * 2 ^ 32 + e / 2 ^ 22 % 2 ^ 10 * 2 ^ 22⟩

def pointer : Verdict := if PTE.p e then .table (frame fw e) else .absent

/-- Entries that map a large page or give the base of a table. -/
def directory (large : Nat → Page) (e : Nat) : Verdict :=
  if PTE.p e then if PTE.ps e then .page (large e) else .table (frame fw e) else .absent

def leaf : Verdict := if PTE.p e then .page ⟨12, frame fw e⟩ else .absent

section verdicts

variable {fw e b : Nat} {large : Nat → Page} {p : Page}

theorem of_pointer_eq_table (h : pointer fw e = .table b) : PTE.p e ∧ b = frame fw e := by
  unfold pointer at h
  split at h
  · cases h
    exact ⟨‹_›, rfl⟩
  · cases h

theorem of_pointer_eq_absent (h : pointer fw e = .absent) : PTE.p e = false := by
  unfold pointer at h
  split at h
  · cases h
  · exact Bool.eq_false_iff.2 ‹_›

theorem pointer_ne_page : pointer fw e ≠ .page p := by
  unfold pointer
  split <;> nofun

theorem of_directory_eq_table (h : directory fw large e = .table b) : PTE.p e ∧ PTE.ps e = false ∧ b = frame fw e := by
  unfold directory at h
  split at h
  · split at h
    · cases h
    · cases h
      exact ⟨‹_›, Bool.eq_false_iff.2 ‹_›, rfl⟩
  · cases h

theorem of_directory_eq_page (h : directory fw large e = .page p) : PTE.p e ∧ PTE.ps e ∧ p = large e := by
  unfold directory at h
  split at h
  · split at h
    · cases h
      exact ⟨‹_›, ‹_›, rfl⟩
    · cases h
  · cases h

theorem of_directory_eq_absent (h : directory fw large e = .absent) : PTE.p e = false := by
  unfold directory at h
  split at h
  · split at h <;> cases h
  · exact Bool.eq_false_iff.2 ‹_›

theorem of_leaf_eq_absent (h : leaf fw e = .absent) : PTE.p e = false := by
  unfold leaf at h
  split at h
  · cases h
  · exact Bool.eq_false_iff.2 ‹_›

theorem of_leaf_eq_page (h : leaf fw e = .page p) : PTE.p e ∧ p = ⟨12, frame fw e⟩ := by
  unfold leaf at h
  split at h
  · cases h
    exact ⟨‹_›, rfl⟩
  · cases h

theorem leaf_ne_table : leaf fw e ≠ .table b := by
  unfold leaf
  split <;> nofun

theorem leaf_eq_iff {e' : Nat} : leaf fw e = leaf fw e' ↔ (leaf fw e).toPage = (leaf fw e').toPage := by
  refine ⟨congrArg _, fun h => ?_⟩
  unfold leaf at h ⊢
  split at h <;> split at h
  · rw [if_pos ‹_›, if_pos ‹_›, Option.some.inj h]
  · cases h
  · cases h
  · rw [if_neg ‹_›, if_neg ‹_›]

theorem dvd_frame {n : Nat} (hn : n ∣ 2 ^ 12) (h : b = frame fw e) : n ∣ b := h ▸ Nat.dvd_mul_left_of_dvd hn _

end verdicts

/-! ## Formats -/

def longLevels : List (Level Say) :=
  [⟨.first, 39, 9, 8, pointer 40⟩, ⟨.further, 30, 9, 8, pointer 40⟩, ⟨.further, 21, 9, 8, directory 40 page2M⟩,
    ⟨.further, 12, 9, 8, leaf 40⟩]

def paeLevels : List (Level Say) :=
  [⟨.nothing, 30, 2, 8, pointer 40⟩, ⟨.first, 21, 9, 8, directory 40 page2M⟩, ⟨.further, 12, 9, 8, leaf 40⟩]

def normDirectory (pse : Bool) : Level Say :=
  ⟨.first, 22, 10, 4, if pse then directory 20 page4M else pointer 20⟩

def normLevels (pse : Bool) : List (Level Say) := [normDirectory pse, ⟨.further, 12, 10, 4, leaf 20⟩]

/-- The registers that select the mode and the top table. -/
structure ControlRegs where
  cr3 : Nat
  cr4 : Nat
  efer : Nat

namespace ControlRegs

variable (r : ControlRegs)

def lma : Bool := r.efer.testBit 10
def nxe : Bool := r.efer.testBit 11
def pse : Bool := r.cr4.testBit 4
def pae : Bool := r.cr4.testBit 5

/-- One of the modes with entries of eight bytes, which have the NX bit. -/
def wide : Bool := r.lma || r.pae

def levels : List (Level Say) :=
  if r.lma then longLevels else if r.pae then paeLevels else normLevels r.pse

def root : Nat :=
  if r.lma then frame 40 r.cr3 else if r.pae then r.cr3 / 2 ^ 5 % 2 ^ 27 * 2 ^ 5 else frame 20 r.cr3

def entrySize : Nat := if r.wide then 8 else 4

/-- NX bits count. -/
def enableNX : Bool := r.wide && r.nxe

/-- The entries of an address and its page, if all of them are present. -/
def path (read : Nat → Nat) (v : Nat) : Option (List (Say × Nat) × Page) := walk read v r.levels r.root

end ControlRegs

/-- Every entry of the path that has permission bits has the bit. -/
def All (bit : Nat → Bool) (path : List (Say × Nat)) : Prop := ∀ x ∈ path, x.1 ≠ .nothing → bit x.2

instance (bit : Nat → Bool) (path : List (Say × Nat)) : Decidable (All bit path) :=
  inferInstanceAs (Decidable (∀ x ∈ path, _))

/-- No entry of the path forbids execution. -/
def Executable (path : List (Say × Nat)) : Prop := All (fun e => !PTE.nx e) path

instance (path : List (Say × Nat)) : Decidable (Executable path) := inferInstanceAs (Decidable (All _ _))

/-! ## The walker -/

abbrev Memory := Nat → UInt8

def mask (nbits : Nat) : Nat := 2 ^ nbits - 1

def bits (val first last : Nat) : Nat := (val >>> last) &&& mask (first - last + 1)

namespace VAddr

section

variable (v : Nat)

def longl1 : Nat := bits v 20 12
def longl2 : Nat := bits v 29 21
def longl3 : Nat := bits v 38 30
def longl4 : Nat := bits v 47 39
def pael1 : Nat := bits v 20 12
def pael2 : Nat := bits v 29 21
def pael3 : Nat := bits v 31 30
def norml2 : Nat := bits v 31 22

end

end VAddr

namespace CR3

def longPdtb (c : Nat) : Nat := bits c 51 12
def pdtb (c : Nat) : Nat := bits c 31 12
def paePdtb (c : Nat) : Nat := bits c 31 5
def pcd (c : Nat) : Bool := c.testBit 4

end CR3

inductive Mode
  | Read | Write | Execute
deriving DecidableEq

structure PageFault where
  addr : Nat
  present : Bool
  mode : Mode
  user : Bool
  reserved : Bool
deriving DecidableEq

structure TlbEntry where
  paddr : Nat := 0
  vaddr : Nat := 0
  size : Nat := 0
  writable : Bool := false
  user : Bool := false
  uncacheable : Bool := false
  global : Bool := false
  patBit : Bool := false
  noExec : Bool := false
deriving DecidableEq

inductive Stop
  | assert | panic | fuel
deriving DecidableEq

namespace Walker

inductive State
  | Ready | Waiting | LongPML4 | LongPDP | LongPD | LongPTE | PAEPDP | PAEPD | PAEPTE | PSEPD | PD | PTE
deriving DecidableEq

structure ReadPkt where
  addr : Nat
  uncacheable : Bool
deriving DecidableEq

end Walker

open Walker

/-- `cpl` is that of the thread context. -/
structure Walker where
  state : State := .Ready
  nextState : State := .Waiting
  size : Nat := 8
  enableNX : Bool := false
  mode : Mode := .Read
  entry : TlbEntry := {}
  read : Option ReadPkt := none
  cpl : Nat := 0
deriving DecidableEq

namespace Walker

structure Next where
  walker : Walker
  fault : Option PageFault := none
  write : Option (Nat × Nat) := none
  inserted : Option TlbEntry := none
deriving DecidableEq

variable (w : Walker) (pte : Nat)

def stop : Walker := { w with nextState := .Ready, read := none }

/-- `stop`, and the fault of `pageFault`. -/
def pageFault : Next :=
  let mode := if w.mode = .Execute ∧ w.enableNX = false then .Read else w.mode
  { walker := { w.stop with mode := mode }, fault := some ⟨w.entry.vaddr, PTE.p pte, mode, decide (w.cpl = 3), false⟩ }

/-- The permissions of the entry alone. -/
def setPerms : Walker := { w with entry := { w.entry with writable := PTE.w pte, user := PTE.u pte } }

/-- The permissions of the entry and of those before it. -/
def andPerms : Walker :=
  { w with entry := { w.entry with writable := w.entry.writable && PTE.w pte, user := w.entry.user && PTE.u pte } }

/-- The page is known: insert it and stop. `bit` is the number of the PAT bit, and pages have `2 ^ k` bytes. -/
def insert (k paddr bit : Nat) : Next :=
  let e := { w.entry with
    paddr := paddr, uncacheable := PTE.pcd pte, global := PTE.g pte, patBit := pte.testBit bit,
    vaddr := w.entry.vaddr - w.entry.vaddr % 2 ^ k }
  { walker := { w with entry := e }.stop, inserted := some e }

/-- Set up another read, and write the entry back if `doWrite`. -/
def readNext (next : State) (nextRead : Nat) (doWrite : Bool) : Except Stop Next :=
  match w.read with
  | none => .error .assert
  | some oldRead =>
    let w := { w with nextState := next, read := some ⟨nextRead, PTE.pcd pte⟩ }
    if doWrite then do
      ensure .assert (8 ≤ w.size)
      .ok { walker := w, write := some (oldRead.addr, pte ||| 2 ^ 5) }
    else .ok { walker := w }

def smallPages : Walker := { w with entry := { w.entry with size := 4 * 2 ^ 10 } }

/-- The entry maps a page of 2 MB. -/
def insert2M : Next :=
  insert { w with entry := { w.entry with size := 2 * 2 ^ 20 } } pte 21 (pte &&& mask 31 <<< 21) 12

def badNX : Bool := PTE.nx pte && decide (w.mode = .Execute) && w.enableNX

def doNext : Except Stop Next :=
  let vaddr := w.entry.vaddr
  let doWrite := !PTE.a pte
  match w.state with
  | .LongPML4 =>
    let w := w.setPerms pte
    if w.badNX pte || !PTE.p pte then .ok (w.pageFault pte)
    else readNext { w with entry := { w.entry with noExec := PTE.nx pte } } pte .LongPDP
      ((pte &&& mask 40 <<< 12) + VAddr.longl3 vaddr * w.size) doWrite
  | .LongPDP =>
    let w := w.andPerms pte
    if w.badNX pte || !PTE.p pte then .ok (w.pageFault pte)
    else w.readNext pte .LongPD ((pte &&& mask 40 <<< 12) + VAddr.longl2 vaddr * w.size) doWrite
  | .LongPD =>
    let w := w.andPerms pte
    if w.badNX pte || !PTE.p pte then .ok (w.pageFault pte)
    else if !PTE.ps pte then
      w.smallPages.readNext pte .LongPTE ((pte &&& mask 40 <<< 12) + VAddr.longl1 vaddr * w.size) doWrite
    else .ok (w.insert2M pte)
  | .LongPTE =>
    let w := w.andPerms pte
    if w.badNX pte || !PTE.p pte then .ok (w.pageFault pte)
    else .ok (w.insert pte 12 (pte &&& mask 40 <<< 12) 12)
  | .PAEPDP =>
    if !PTE.p pte then .ok (w.pageFault pte)
    -- the accessed bit is left alone
    else w.readNext pte .PAEPD ((pte &&& mask 40 <<< 12) + VAddr.pael2 vaddr * w.size) false
  | .PAEPD =>
    let w := w.setPerms pte
    if w.badNX pte || !PTE.p pte then .ok (w.pageFault pte)
    else if !PTE.ps pte then
      w.smallPages.readNext pte .PAEPTE ((pte &&& mask 40 <<< 12) + VAddr.pael1 vaddr * w.size) doWrite
    else .ok (w.insert2M pte)
  | .PAEPTE =>
    let w := w.andPerms pte
    if w.badNX pte || !PTE.p pte then .ok (w.pageFault pte)
    else .ok (w.insert pte 12 (pte &&& mask 40 <<< 12) 7)
  | .PSEPD =>
    let w := w.setPerms pte
    if !PTE.p pte then .ok (w.pageFault pte)
    else if !PTE.ps pte then
      w.smallPages.readNext pte .PTE ((pte &&& mask 20 <<< 12) + VAddr.norml2 vaddr * w.size) doWrite
    else .ok (insert { w with entry := { w.entry with size := 4 * 2 ^ 20 } } pte 22
      (bits pte 20 13 <<< 32 ||| bits pte 31 22 <<< 22) 12)
  | .PD =>
    let w := w.setPerms pte
    if !PTE.p pte then .ok (w.pageFault pte)
    else w.smallPages.readNext pte .PTE ((pte &&& mask 20 <<< 12) + VAddr.norml2 vaddr * w.size) doWrite
  | .PTE =>
    let w := w.setPerms pte
    if !PTE.p pte then .ok (w.pageFault pte)
    else .ok (w.insert pte 12 (pte &&& mask 20 <<< 12) 7)
  | .Ready | .Waiting => .error .assert

/-! ## A walk in atomic mode -/

structure Result where
  walker : Walker
  mem : Memory
  fault : Option PageFault
  inserted : Option TlbEntry

/-- The loop of `start`, with the number of turns bounded. -/
def loop : Nat → Walker → Memory → Except Stop Result
  | 0, _, _ => .error .fuel
  | n + 1, w, mem =>
    match w.read with
    | none => .error .assert
    | some pkt => do
      let x ← w.doNext (leValue mem pkt.addr w.size)
      ensure .assert (x.fault = none ∨ x.walker.read = none)
      let w' := { x.walker with state := x.walker.nextState, nextState := .Ready }
      let mem' := match x.write with
        | some (addr, data) => blit mem addr w'.size (leByte data)
        | none => mem
      if w'.read.isSome then loop n w' mem'
      else .ok ⟨{ w' with state := .Ready, nextState := .Waiting }, mem', x.fault, x.inserted⟩

def setUp (r : ControlRegs) (cpl vaddr : Nat) (mode : Mode) : Walker :=
  let (state, size, top, enableNX) :=
    if r.lma then (.LongPML4, 8, CR3.longPdtb r.cr3 <<< 12 + VAddr.longl4 vaddr * 8, r.nxe)
    else if r.pae then (.PAEPDP, 8, CR3.paePdtb r.cr3 <<< 5 + VAddr.pael3 vaddr * 8, r.nxe)
    else (if r.pse then .PSEPD else .PD, 4, CR3.pdtb r.cr3 <<< 12 + VAddr.norml2 vaddr * 4, false)
  { w with
    state := state, nextState := .Ready, size := size, enableNX := enableNX, mode := mode, cpl := cpl,
    entry := { w.entry with vaddr := vaddr }, read := some ⟨top, CR3.pcd r.cr3⟩ }

/-- `start`. No walk has more than four turns. -/
def start (r : ControlRegs) (cpl vaddr : Nat) (mode : Mode) (mem : Memory) : Except Stop Result := do
  ensure .assert (w.state = .Ready)
  loop 4 (w.setUp r cpl vaddr mode) mem

end Walker

/-! ## The TLB -/

def TlbEntry.covers (e : TlbEntry) (va : Nat) : Bool :=
  decide (e.vaddr ≤ va) && decide (va < (e.vaddr + e.size) % 2 ^ 64)

structure TLB where
  size : Nat
  size_pos : 0 < size
  entryList : List TlbEntry := []

namespace TLB

variable (t : TLB)

/-- `insert`: the new entry takes a free one, or the place of the last. -/
def insert (vpn : Nat) (e : TlbEntry) : TLB :=
  let rest := if t.entryList.length < t.size then t.entryList else t.entryList.dropLast
  { t with entryList := { e with vaddr := vpn } :: rest }

/-- `lookup`, with `update_lru`: the entry found goes to the front. -/
def lookup (va : Nat) : Option TlbEntry × TLB :=
  match t.entryList.find? (·.covers va) with
  | none => (none, t)
  | some e => (some e, { t with entryList := e :: t.entryList.eraseP (·.covers va) })

def invalidateAll : TLB := { t with entryList := [] }

def invalidateNonGlobal : TLB := { t with entryList := t.entryList.filter (·.global) }

def demapPage (va : Nat) : TLB := { t with entryList := t.entryList.eraseP (·.covers va) }

end TLB

/-- A request, with the privilege level of the thread and the flags that `translate` reads. -/
structure Request where
  vaddr : BitVec 64
  mode : Mode
  storeCheck : Bool := false
  cpl : Nat := 0
  cpl0 : Bool := false

namespace Request

variable (q : Request)

def va : Nat := q.vaddr.toNat

def inUser : Bool := decide (q.cpl = 3) && !q.cpl0

/-- The paging protection checks, and the physical address. -/
def check (e : TlbEntry) : Except PageFault Nat :=
  if (q.inUser && !e.user) || (decide (q.mode = .Write) && !e.writable) then
    .error ⟨q.va, true, q.mode, q.inUser, false⟩
  else if q.storeCheck && !e.writable then .error ⟨q.va, true, .Write, q.inUser, false⟩
  else .ok (e.paddr ||| (q.va &&& (e.size - 1)))

end Request

structure MMU where
  tlb : TLB
  walker : Walker := {}
  mem : Memory

namespace MMU

variable (s : MMU)

/-- The end of a walk: the entry found is in the TLB. -/
def afterWalk (res : Result) : MMU :=
  { tlb := match res.inserted with
      | some e => s.tlb.insert e.vaddr e
      | none => s.tlb
    walker := res.walker
    mem := res.mem }

/-- Lookup again, with the assertion that the entry is there. -/
def hit (q : Request) : Except Stop (Except PageFault Nat × MMU) :=
  match s.tlb.lookup q.va with
  | (none, _) => .error .assert
  | (some e, tlb) => .ok (q.check e, { s with tlb := tlb })

/-- `translate`, with paging: a fault or the physical address. -/
def translate (r : ControlRegs) (q : Request) : Except Stop (Except PageFault Nat × MMU) :=
  match s.tlb.lookup q.va with
  | (some e, tlb) => .ok (q.check e, { s with tlb := tlb })
  | (none, _) => do
    let res ← s.walker.start r q.cpl q.va q.mode s.mem
    match res.fault with
    | some f => .ok (.error f, s.afterWalk res)
    | none => (s.afterWalk res).hit q

inductive Act
  | translate (q : Request)
  | invalidateAll
  | invalidateNonGlobal
  | demapPage (va : Nat)

/-- Translations and the operations that take entries out. -/
def handle (r : ControlRegs) : Act → Except Stop MMU
  | .translate q => do
    let (_, s) ← s.translate r q
    .ok s
  | .invalidateAll => .ok { s with tlb := s.tlb.invalidateAll }
  | .invalidateNonGlobal => .ok { s with tlb := s.tlb.invalidateNonGlobal }
  | .demapPage va => .ok { s with tlb := s.tlb.demapPage va }

def Step (r : ControlRegs) (s : MMU) (a : Act) (t : MMU) : Prop := s.handle r a = .ok t

def init (size : Nat) (h : 0 < size) (mem : Memory) : MMU := { tlb := { size := size, size_pos := h }, mem := mem }

end MMU

end M5.X86
