import M5.Lib.Run
import M5.Mem.Packet

/-!
# Physical memory

`PhysicalMemory` of `mem/physical.cc` and `mem/physical.hh`: the bytes, indexed by physical address, and the list of
load-locked reservations, with the atomic access that reads and updates both.
-/

namespace M5.Mem

open M5.Lib

structure LockedAddr where
  addr : Addr
  contextId : Nat
deriving DecidableEq

/-- `LockedAddr::mask`: `paddr & ~0xf`. -/
def LockedAddr.mask (paddr : Addr) : Addr := paddr - paddr % 16

structure PhysicalMemory where
  start : Addr
  size : Nat
  pmem : Addr → UInt8
  lockedAddrList : List LockedAddr

namespace PhysicalMemory

/-- The loop of `trackLoadLocked`: move the first record of the context, if it has one. -/
def moveRecord (c : Nat) (paddr : Addr) : List LockedAddr → Option (List LockedAddr)
  | [] => none
  | r :: rs =>
    if r.contextId = c then some ({ r with addr := paddr } :: rs)
    else (moveRecord c paddr rs).map (r :: ·)

section

variable (m : PhysicalMemory) (pkt : Packet)

def trackLoadLocked : PhysicalMemory :=
  let paddr := LockedAddr.mask pkt.addr
  let c := pkt.req.contextId
  match moveRecord c paddr m.lockedAddrList with
  | some rs => { m with lockedAddrList := rs }
  | none => { m with lockedAddrList := { addr := paddr, contextId := c } :: m.lockedAddrList }

/-- The loop of `checkLockedAddrList`: `success` so far, and the records that stay. -/
def checkLoop (isLLSC : Bool) (c : Nat) (paddr : Addr) : Bool → List LockedAddr → Bool × List LockedAddr
  | success, [] => (success, [])
  | success, r :: rs =>
    if r.addr = paddr then
      -- the record goes, whether or not the write is performed
      checkLoop isLLSC c paddr (success || (isLLSC && r.contextId = c)) rs
    else
      let (success', rs') := checkLoop isLLSC c paddr success rs
      (success', r :: rs')

def checkLockedAddrList : Bool × PhysicalMemory × Packet :=
  let (success, rs) := checkLoop pkt.isLLSC pkt.req.contextId (LockedAddr.mask pkt.addr) (!pkt.isLLSC) m.lockedAddrList
  (success, { m with lockedAddrList := rs }, if pkt.isLLSC then pkt.setExtraData (if success then 1 else 0) else pkt)

def writeOK : Bool × PhysicalMemory × Packet :=
  if m.lockedAddrList = [] then
    (!pkt.isLLSC, m, if pkt.isLLSC then pkt.setExtraData 0 else pkt)
  else m.checkLockedAddrList pkt

/-- The bytes of the packet's range in memory. -/
def hostBytes : Nat → UInt8 := fun i => m.pmem (pkt.addr + i)

def overwriteMem : Except Fault Bool := pkt.overwriteMem (m.hostBytes pkt)

def store : PhysicalMemory :=
  { m with pmem := blit m.pmem pkt.addr pkt.size pkt.data }

/-- The part of `doAtomicAccess` that depends on the command. -/
def accessCmd : Except Fault (PhysicalMemory × Packet) :=
  if pkt.cmd = .SwapReq then do
    ensure .assert (pkt.size ≤ 8)
    let overwrite ← m.overwriteMem pkt
    ensure .assert (¬ pkt.req.isInstFetch)
    .ok (if overwrite then m.store pkt else m, pkt.setData (m.hostBytes pkt))
  else if pkt.isRead then do
    ensure .assert (¬ pkt.isWrite)
    let m' := if pkt.isLLSC then m.trackLoadLocked pkt else m
    .ok (m', pkt.setData (m.hostBytes pkt))
  else if pkt.isWrite then
    let (ok, m', pkt') := m.writeOK pkt
    if ok then do
      ensure .assert (¬ pkt.req.isInstFetch)
      .ok (m'.store pkt', pkt')
    else .ok (m', pkt')
  else if pkt.isInvalidate then do
    let pkt' ← (if pkt.needsResponse then pkt.makeResponse else .ok pkt : Except Fault Packet)
    .ok (m, pkt')
  else .error .panic

/-- `PhysicalMemory::doAtomicAccess`, without the latency it returns. -/
def doAtomicAccess : Except Fault (PhysicalMemory × Packet) := do
  ensure .assert (m.start ≤ pkt.addr ∧ pkt.addr + pkt.size ≤ m.start + m.size)
  if pkt.memInhibit then .ok (m, pkt)
  else do
    let (m, pkt) ← m.accessCmd pkt
    let pkt ← (if pkt.needsResponse then pkt.makeResponse else .ok pkt : Except Fault Packet)
    .ok (m, pkt)

end

end PhysicalMemory

end M5.Mem
