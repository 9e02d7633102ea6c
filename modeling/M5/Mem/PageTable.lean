import M5.Lib.Lookaside
import M5.Lib.Run
import M5.Mem.Packet

/-!
# The page table of a process

`PageTable` of `mem/page_table.cc`, for system-call emulation. A process maps pages to physical pages that it takes from
the system, and translates addresses through a list of the three pages mapped or looked up last. Addresses are 64 bits
wide; a loop over the pages of a range goes round at their end.
-/

namespace M5.Mem

open M5.Lib

inductive Stop
  | assert | fatal | panic
deriving DecidableEq

/-- An architecture: its `TlbEntry`, with the constructors, and the size of a page. -/
structure Isa where
  TlbEntry : Type
  /-- `TlbEntry(asn, vaddr, paddr)` -/
  entry : Nat → Addr → Addr → TlbEntry
  /-- `TlbEntry()` -/
  blank : TlbEntry
  /-- Some architectures panic. -/
  updateVaddr : TlbEntry → Addr → Except Stop TlbEntry
  pageStart : TlbEntry → Addr
  logVMPageSize : Nat
  log_lt : logVMPageSize < 31
  pageStart_entry : ∀ asn vaddr paddr, pageStart (entry asn vaddr paddr) = paddr
  pageStart_updateVaddr : ∀ {e e' vaddr}, updateVaddr e vaddr = .ok e' → pageStart e' = pageStart e

/-- `VMPageSize`, which is the `pageSize` of a page table. -/
def Isa.pageSize (I : Isa) : Nat := 2 ^ I.logVMPageSize

/-- The process and the system that it runs on. The physical memory is memory of the host, which has not nearly all
addresses. -/
structure Host where
  pid : Nat
  physmemSize : Nat
  size_le : physmemSize ≤ 2 ^ 64 - 2 ^ 31

variable {I : Isa}

/-- The page table of a process, and the `page_ptr` of the system. -/
structure AddressSpace (I : Isa) where
  pTable : Addr → Option I.TlbEntry
  pTableCache : List (Addr × I.TlbEntry)
  pagePtr : Int

namespace AddressSpace

section

variable (I : Isa) (a : Addr)

/-- The constructor `PageTable::PageTable`, in a system of which no page is taken. -/
def new : AddressSpace I where
  pTable _ := none
  pTableCache := .replicate 3 (0, I.blank)
  pagePtr := 0

def pageAlign : Addr := a - a % I.pageSize

def pageOffset : Addr := a % I.pageSize

/-- The next page, at the end of the address space the first one. -/
def nextPage : Addr := (a + I.pageSize) % 2 ^ 64

/-- How often `for (; size > 0; size -= pageSize)` goes round. -/
def pages (size : Int) : Nat := ((size + I.pageSize - 1) / I.pageSize).toNat

end

variable (s : AddressSpace I)

variable (h : Host) (vaddr : Addr) (size : Int)

/-- `System::new_page`: the shift is done in an `int`. -/
def newPage : Except Stop (Addr × AddressSpace I) := do
  let returnAddr := ((s.pagePtr * I.pageSize).bmod (2 ^ 32) % 2 ^ 64).toNat
  ensure .fatal (returnAddr < h.physmemSize)
  return (returnAddr, { s with pagePtr := s.pagePtr + 1 })

def updateCache (e : I.TlbEntry) : AddressSpace I :=
  { s with pTableCache := Lookaside.push s.pTableCache vaddr e }

def set (e : I.TlbEntry) : AddressSpace I := { s with pTable := Function.update s.pTable vaddr (some e) }

def erase : AddressSpace I := { s with pTable := Function.update s.pTable vaddr none }

def allocatePage : Except Stop (AddressSpace I) := do
  ensure .fatal ((s.pTable vaddr).isNone)
  let (paddr, s) ← s.newPage h
  let e := I.entry h.pid vaddr paddr
  return (s.set vaddr e).updateCache vaddr e

def allocateLoop (h : Host) : Nat → AddressSpace I → Addr → Except Stop (AddressSpace I)
  | 0, s, _ => return s
  | n + 1, s, vaddr => do
    let s ← s.allocatePage h vaddr
    allocateLoop h n s (nextPage I vaddr)

def allocate : Except Stop (AddressSpace I) := do
  ensure .assert (pageOffset I vaddr = 0)
  allocateLoop h (pages I size) s vaddr

/-- One turn of the loop of `PageTable::remap`. If the page is moved to itself, it is erased before `pTable[new_vaddr]`
is read again, which then makes a new entry. -/
def remapPage (newVaddr : Addr) : Except Stop (AddressSpace I) := do
  ensure .assert ((s.pTable vaddr).isSome)
  let s := s.set newVaddr ((s.pTable vaddr).getD I.blank)
  let s := s.erase vaddr
  let e ← I.updateVaddr ((s.pTable newVaddr).getD I.blank) newVaddr
  return (s.set newVaddr e).updateCache newVaddr e

def remapLoop : Nat → AddressSpace I → Addr → Addr → Except Stop (AddressSpace I)
  | 0, s, _, _ => return s
  | n + 1, s, vaddr, newVaddr => do
    let s ← s.remapPage vaddr newVaddr
    remapLoop n s (nextPage I vaddr) (nextPage I newVaddr)

def remap (newVaddr : Addr) : Except Stop (AddressSpace I) := do
  ensure .assert (pageOffset I vaddr = 0)
  ensure .assert (pageOffset I newVaddr = 0)
  remapLoop (pages I size) s vaddr newVaddr

def deallocatePage : Except Stop (AddressSpace I) := do
  ensure .assert ((s.pTable vaddr).isSome)
  return s.erase vaddr

def deallocateLoop : Nat → AddressSpace I → Addr → Except Stop (AddressSpace I)
  | 0, s, _ => return s
  | n + 1, s, vaddr => do
    let s ← s.deallocatePage vaddr
    deallocateLoop n s (nextPage I vaddr)

def deallocate : Except Stop (AddressSpace I) := do
  ensure .assert (pageOffset I vaddr = 0)
  deallocateLoop (pages I size) s vaddr

def lookup (vaddr : Addr) : Option I.TlbEntry × AddressSpace I :=
  let pageAddr := pageAlign I vaddr
  match s.pTableCache.lookup pageAddr with
  | some e => (some e, s)
  | none =>
    match s.pTable pageAddr with
    | none => (none, s)
    | some e => (some e, s.updateCache pageAddr e)

def translate : Option Addr × AddressSpace I :=
  let (e, s) := s.lookup vaddr
  (e.map fun e => (pageOffset I vaddr + I.pageStart e) % 2 ^ 64, s)

/-- `PageTable::translate(RequestPtr)`: the physical address, or a page-table fault. -/
def translateReq (size : Nat) : Except Stop (Option Addr × AddressSpace I) := do
  ensure .assert (pageAlign I ((vaddr + size + (2 ^ 64 - 1)) % 2 ^ 64) = pageAlign I vaddr)
  match s.translate vaddr with
  | (none, s) => return (none, s)
  | (some paddr, s) =>
    ensure .panic (paddr % I.pageSize + size ≤ I.pageSize)
    return (some paddr, s)

end AddressSpace

inductive Call
  | allocate (vaddr : UInt64) (size : Int64)
  | remap (vaddr : UInt64) (size : Int64) (newVaddr : UInt64)
  | deallocate (vaddr : UInt64) (size : Int64)
  | lookup (vaddr : UInt64)
  | translate (vaddr : UInt64)
  | translateReq (vaddr : UInt64) (size : Nat)
  /-- Another process takes a page. -/
  | newPage

def AddressSpace.step (h : Host) (s : AddressSpace I) : Call → Except Stop (AddressSpace I)
  | .allocate vaddr size => s.allocate h vaddr.toNat size.toInt
  | .remap vaddr size newVaddr => s.remap vaddr.toNat size.toInt newVaddr.toNat
  | .deallocate vaddr size => s.deallocate vaddr.toNat size.toInt
  | .lookup vaddr => return (s.lookup vaddr.toNat).2
  | .translate vaddr => return (s.translate vaddr.toNat).2
  | .translateReq vaddr size => (s.translateReq vaddr.toNat size).map Prod.snd
  | .newPage => (s.newPage h).map Prod.snd

end M5.Mem
