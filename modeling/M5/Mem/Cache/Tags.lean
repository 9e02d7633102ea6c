import M5.Mem.Packet
import M5.Lib.Run
import Mathlib.Logic.Function.Basic

/-!
# Cache blocks and tag stores

`CacheBlk` of `mem/cache/blk.hh`, with the functions of `mem/cache/cache_impl.hh` that act on one block and one packet:
`cmpAndSwap`, `satisfyCpuSideRequest` and `handleSnoop`. The load locks live in the block frame and carry no address.

The template parameter `TagStore` of `Cache`: where a block may be, which frame is given up for a new block, and how an
address is taken apart. `LawfulTagStore` is what the cache relies on: a block address is found in the one valid frame
that carries it, and the frame offered for a missing block can take it.
-/

namespace M5.Mem

section

open M5.Lib

/-- The status bits of a block; `status = 0` is the default value. -/
structure BlkStatus where
  valid : Bool := false
  writable : Bool := false
  readable : Bool := false
  dirty : Bool := false
  hwPrefetched : Bool := false
deriving DecidableEq

structure CacheBlk where
  tag : Addr := 0
  set : Nat := 0
  status : BlkStatus := {}
  data : Nat → UInt8 := fun _ => 0
  /-- Contexts that have performed a load-locked on the block since the last store. -/
  lockList : List Nat := []

namespace CacheBlk

variable (blkSize : Nat) (blk : CacheBlk) (pkt : Packet)

def isValid : Bool := blk.status.valid
def isWritable : Bool := blk.status.writable && blk.status.valid
def isReadable : Bool := blk.status.readable && blk.status.valid
def isDirty : Bool := blk.status.dirty
def wasPrefetched : Bool := blk.status.hwPrefetched

def trackLoadLocked : CacheBlk :=
  { blk with lockList := pkt.req.contextId :: blk.lockList }

def clearLoadLocks : CacheBlk := { blk with lockList := [] }

/-- `CacheBlk::checkWrite`: whether the write proceeds; a store conditional learns the outcome in `extraData`. -/
def checkWrite : Bool × CacheBlk × Packet :=
  if pkt.isLLSC then
    let success := blk.lockList.contains pkt.req.contextId
    (success, blk.clearLoadLocks, pkt.setExtraData (if success then 1 else 0))
  else (true, blk.clearLoadLocks, pkt)

/-- What `invalidateBlk` of a tag store does to the block. -/
def invalidate : CacheBlk := { blk with status := {}, lockList := [] }

/-- The bytes of the block from the packet's offset on. -/
def bytesAt (blkSize : Nat) (pkt : Packet) : Nat → UInt8 :=
  fun i => blk.data (pkt.getOffset blkSize + i)

def writeData (blkSize : Nat) (pkt : Packet) : CacheBlk :=
  { blk with data := blit blk.data (pkt.getOffset blkSize) pkt.size pkt.data }

def setDirty : CacheBlk := { blk with status := { blk.status with dirty := true } }

def clearWritable : CacheBlk := { blk with status := { blk.status with writable := false } }

def clearReadable : CacheBlk := { blk with status := { blk.status with readable := false } }

def setPrefetched : CacheBlk := { blk with status := { blk.status with hwPrefetched := true } }

def clearPrefetched : CacheBlk := { blk with status := { blk.status with hwPrefetched := false } }

def cmpAndSwap : Except Fault (CacheBlk × Packet) := do
  ensure .assert (pkt.size ≤ 8)
  let overwrite ← pkt.overwriteMem (blk.bytesAt blkSize pkt)
  let blk' := if overwrite then (blk.writeData blkSize pkt).setDirty else blk
  .ok (blk', pkt.setData (blk.bytesAt blkSize pkt))

def satisfyCpuSideRequest : Except Fault (CacheBlk × Packet) := do
  ensure .assert (pkt.getOffset blkSize + pkt.size ≤ blkSize)
  if pkt.cmd = .SwapReq then blk.cmpAndSwap blkSize pkt
  else if pkt.isWrite then
    let (ok, blk', pkt') := blk.setDirty.checkWrite pkt
    .ok (if ok then blk'.writeData blkSize pkt' else blk', pkt')
  else if pkt.isRead then
    let blk' := if pkt.isLLSC then blk.trackLoadLocked pkt else blk
    let pkt' := pkt.setData (blk.bytesAt blkSize pkt)
    if pkt.size = blkSize then
      -- a block request of an upper-level cache
      if pkt.needsExclusive then .ok (blk'.invalidate, pkt')
      else .ok (blk'.clearWritable, { pkt' with shared := true })
    else .ok (blk', pkt')
  else do
    ensure .assert (pkt.cmd = .UpgradeReq)
    .ok (blk.invalidate, pkt)

/-- `Cache::doTimingSupplyResponse`: the packet sent back on the memory side. -/
def doTimingSupplyResponse (data : Nat → UInt8) (reqPkt : Packet) (alreadyCopied pendingInval : Bool) :
    Except Fault Packet := do
  let pkt := if alreadyCopied then reqPkt
    else { reqPkt with shared := false, expressSnoop := false, supplyExclusive := false, memInhibit := false }
  let pkt := if reqPkt.isInvalidate then pkt else { pkt with shared := true }
  let pkt ← pkt.makeResponse
  let pkt := if pkt.isRead then pkt.setData (fun i => data (pkt.getOffset blkSize + i)) else pkt
  .ok (if pkt.cmd = .ReadResp && pendingInval then { pkt with cmd := .ReadRespWithInvalidate } else pkt)

/-- `Cache::handleSnoop` on a block, after the forwarding to the CPU side: the block, the packet, and the response a
timing snoop sends. A cache in atomic mode responds in the packet itself. -/
def handleSnoop (isTiming isDeferred pendingInval : Bool) : Except Fault (CacheBlk × Packet × Option Packet) := do
  ensure .assert (¬ (isDeferred ∧ ¬ isTiming))
  ensure .assert (¬ (pendingInval ∧ ¬ isDeferred))
  ensure .assert pkt.isRequest
  if !blk.isValid then .ok (blk, pkt, none)
  else do
    let respond := blk.isDirty && pkt.needsResponse
    let haveExclusive := blk.isWritable
    let invalidate := pkt.isInvalidate
    let readOnly := pkt.isRead && !pkt.isInvalidate
    ensure .assert (readOnly → ¬ pkt.needsExclusive)
    -- ownership state: the dirty bit stays
    let blk' := if readOnly then blk.clearWritable else blk
    let pkt := if readOnly then { pkt with shared := true } else pkt
    let (pkt, resp) ← (if respond then do
        ensure .assert (¬ pkt.memInhibit)
        let pkt := { pkt with memInhibit := true }
        let pkt := if haveExclusive then { pkt with supplyExclusive := true } else pkt
        if isTiming then do
          let resp ← doTimingSupplyResponse blkSize blk.data pkt isDeferred pendingInval
          .ok (pkt, some resp)
        else do
          let pkt ← pkt.makeResponse
          .ok (pkt.setData (blk.bytesAt blkSize pkt), none)
      else .ok (pkt, none) : Except Fault (Packet × Option Packet))
    .ok (if invalidate then blk'.invalidate else blk', pkt, resp)

end CacheBlk

end

/-! ## Tag stores -/

/-- A block frame, `BlkType *`. -/
abbrev Frame := Nat

abbrev Blks := Frame → CacheBlk

/-- The functions of a tag store that the cache calls; `Repl` is its replacement state. -/
structure TagStore where
  Repl : Type
  blkSize : Nat
  extractTag : Addr → Addr
  extractSet : Addr → Nat
  regenerateBlkAddr : Addr → Nat → Addr
  initRepl : Repl
  initBlks : Blks
  findBlock : Repl → Blks → Addr → Option Frame
  accessBlock : Repl → Blks → Addr → Repl × Option Frame
  findVictim : Repl → Blks → Addr → Frame
  insertBlock : Repl → Addr → Frame → Repl

namespace TagStore

/-- The address of the block with this byte. -/
def blkAlign (T : TagStore) (addr : Addr) : Addr := addr - addr % T.blkSize

def blkAddr (T : TagStore) (blk : CacheBlk) : Addr := T.regenerateBlkAddr blk.tag blk.set

end TagStore

/-- What a tag store promises. -/
class LawfulTagStore (T : TagStore) where
  /-- What holds of the frames and the replacement state between calls. -/
  Inv : T.Repl → Blks → Prop
  blkSize_pos : 0 < T.blkSize
  regenerate_extract (a : Addr) : T.regenerateBlkAddr (T.extractTag a) (T.extractSet a) = T.blkAlign a
  init_inv : Inv T.initRepl T.initBlks
  init_blk (f : Frame) : (T.initBlks f).status = {} ∧ (T.initBlks f).lockList = []
  /-- An address is found in the one valid frame that carries its block. -/
  find_iff {r : T.Repl} {blks : Blks} (h : Inv r blks) (a : Addr) (f : Frame) :
    T.findBlock r blks a = some f ↔ (blks f).isValid ∧ T.blkAddr (blks f) = T.blkAlign a
  /-- The blocks of valid frames are aligned. -/
  align_blkAddr {r : T.Repl} {blks : Blks} (h : Inv r blks) {f : Frame} (hv : (blks f).isValid) :
    T.blkAlign (T.blkAddr (blks f)) = T.blkAddr (blks f)
  find_tag {r : T.Repl} {blks : Blks} (h : Inv r blks) {a : Addr} {f : Frame} (hf : T.findBlock r blks a = some f) :
    (blks f).tag = T.extractTag a
  /-- An access finds what `findBlock` finds, and only the replacement state changes. -/
  access_find {r : T.Repl} {blks : Blks} (h : Inv r blks) (a : Addr) :
    (T.accessBlock r blks a).2 = T.findBlock r blks a
  access_inv {r : T.Repl} {blks : Blks} (h : Inv r blks) (a : Addr) : Inv (T.accessBlock r blks a).1 blks
  /-- Any change to a frame that neither moves its block nor makes it valid. -/
  update_inv {r : T.Repl} {blks : Blks} (h : Inv r blks) {f : Frame} {b : CacheBlk} (ht : b.tag = (blks f).tag)
    (hs : b.set = (blks f).set) (hv : b.isValid → (blks f).isValid) : Inv r (Function.update blks f b)
  victim_set {r : T.Repl} {blks : Blks} (h : Inv r blks) (a : Addr) :
    (blks (T.findVictim r blks a)).set = T.extractSet a
  /-- The victim can take a block that is not there. -/
  insert_inv {r : T.Repl} {blks : Blks} (h : Inv r blks) {a : Addr} (hn : T.findBlock r blks a = none) {b : CacheBlk}
    (ht : b.tag = T.extractTag a) (hs : b.set = T.extractSet a) :
    Inv (T.insertBlock r a (T.findVictim r blks a)) (Function.update blks (T.findVictim r blks a) b)

namespace LawfulTagStore

variable {T : TagStore} [LawfulTagStore T] {r : T.Repl} {blks : Blks} {f g : Frame}

theorem find_self (h : Inv r blks) (hv : (blks f).isValid) : T.findBlock r blks (T.blkAddr (blks f)) = some f :=
  (find_iff h _ f).2 ⟨hv, (align_blkAddr h hv).symm⟩

theorem frame_unique (h : Inv r blks) (hf : (blks f).isValid) (hg : (blks g).isValid)
    (he : T.blkAddr (blks f) = T.blkAddr (blks g)) : f = g := by
  have h1 := find_self h hf
  rw [he, find_self h hg] at h1
  exact (Option.some.inj h1).symm

end LawfulTagStore

/-! ## The calls a cache makes to its tag store, as a history -/

open Lib

/-- A call to the tag store, with the frame it found, chose or was given. -/
inductive Event where
  | access (addr : Addr) (found : Option Frame)
  | insert (addr : Addr) (blk : Frame)
  | invalidate (blk : Frame)
deriving DecidableEq

namespace Event

/-- The event moves the frame to the head of its set. -/
def moves : Event → Frame → Prop
  | .access _ found, f => found = some f
  | .insert _ blk, f => blk = f
  | .invalidate _, _ => False

/-- The event puts the block of the address into the frame. -/
def inserts (align : Addr → Addr) (addr : Addr) (f : Frame) : Event → Prop
  | .insert addr' blk => blk = f ∧ align addr' = align addr
  | _ => False

/-- The event evicts or invalidates what the frame holds. -/
def ends (f : Frame) : Event → Prop
  | .access _ _ => False
  | .insert _ blk => blk = f
  | .invalidate blk => blk = f

end Event

/-- The block of the address was put into the frame and has not been evicted or invalidated since. -/
def Resident (align : Addr → Addr) (h : List Event) (addr : Addr) (f : Frame) : Prop :=
  Since (Event.inserts align addr f) (fun e => ¬ e.ends f) h

section Resident

variable {align : Addr → Addr} {h : List Event} {e : Event} {f : Frame} {addr a : Addr}

theorem not_resident_nil : ¬ Resident align [] addr f := since_nil

theorem Event.ends_of_inserts (hi : e.inserts align addr f) : e.ends f := by
  cases e with
  | insert a g => exact hi.1
  | access a g => exact hi
  | invalidate g => exact hi.elim

theorem resident_skip (hn : ¬ e.ends f) : Resident align (h ++ [e]) addr f ↔ Resident align h addr f := by
  unfold Resident
  rw [since_snoc]
  exact ⟨fun h' => (h'.resolve_left fun hi => hn (Event.ends_of_inserts hi)).2, fun h' => .inr ⟨hn, h'⟩⟩

theorem resident_insert : Resident align (h ++ [.insert addr f]) a f ↔ align addr = align a := by
  unfold Resident
  rw [since_snoc]
  constructor
  · rintro (h' | h')
    · exact h'.2
    · exact absurd rfl h'.1
  · intro h'
    exact .inl ⟨rfl, h'⟩

theorem not_resident_invalidate : ¬ Resident align (h ++ [.invalidate f]) addr f := by
  unfold Resident
  rw [since_snoc]
  rintro (h' | h')
  · exact h'
  · exact h'.1 rfl

end Resident

end M5.Mem
