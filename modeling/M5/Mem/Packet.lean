import M5.Lib.Bytes
import M5.Lib.Check

/-!
# Commands, requests and packets

`MemCmd`, `Request` and `Packet` of `mem/packet.hh`, `mem/packet.cc` and `mem/request.hh`: the command table with its
attributes and responses, and the members of a packet that caches, buses and memories read and write. A packet's data
are the bytes from offset 0 on; the bytes from `size` on are never read.
-/

namespace M5.Mem

open M5.Lib

abbrev Addr := Nat

inductive MemCmd
  | InvalidCmd | ReadReq | ReadResp | ReadRespWithInvalidate | WriteReq | WriteResp | Writeback
  | SoftPFReq | HardPFReq | SoftPFResp | HardPFResp | WriteInvalidateReq | WriteInvalidateResp
  | UpgradeReq | UpgradeResp | ReadExReq | ReadExResp | LoadLockedReq | StoreCondReq | StoreCondResp
  | SwapReq | SwapResp | MessageReq | MessageResp | NetworkNackError | InvalidDestError | BadAddressError | PrintReq
deriving DecidableEq

inductive Attribute
  | IsRead | IsWrite | IsPrefetch | IsInvalidate | NeedsExclusive | IsRequest | IsResponse | NeedsResponse
  | IsSWPrefetch | IsHWPrefetch | IsLlsc | HasData | IsError | IsPrint
deriving DecidableEq

open Attribute in
/-- `MemCmd::commandInfo`: the attributes of a command and the command of its response. -/
def commandInfo : MemCmd → List Attribute × MemCmd
  | .InvalidCmd => ([], .InvalidCmd)
  | .ReadReq => ([IsRead, IsRequest, NeedsResponse], .ReadResp)
  | .ReadResp => ([IsRead, IsResponse, HasData], .InvalidCmd)
  | .ReadRespWithInvalidate => ([IsRead, IsResponse, HasData, IsInvalidate], .InvalidCmd)
  | .WriteReq => ([IsWrite, NeedsExclusive, IsRequest, NeedsResponse, HasData], .WriteResp)
  | .WriteResp => ([IsWrite, NeedsExclusive, IsResponse], .InvalidCmd)
  | .Writeback => ([IsWrite, NeedsExclusive, IsRequest, HasData], .InvalidCmd)
  | .SoftPFReq => ([IsRead, IsRequest, IsSWPrefetch, NeedsResponse], .SoftPFResp)
  | .HardPFReq => ([IsRead, IsRequest, IsHWPrefetch, NeedsResponse], .HardPFResp)
  | .SoftPFResp => ([IsRead, IsResponse, IsSWPrefetch, HasData], .InvalidCmd)
  | .HardPFResp => ([IsRead, IsResponse, IsHWPrefetch, HasData], .InvalidCmd)
  | .WriteInvalidateReq =>
    ([IsWrite, NeedsExclusive, IsInvalidate, IsRequest, HasData, NeedsResponse], .WriteInvalidateResp)
  | .WriteInvalidateResp => ([IsWrite, NeedsExclusive, IsResponse], .InvalidCmd)
  | .UpgradeReq => ([IsInvalidate, NeedsExclusive, IsRequest, NeedsResponse], .UpgradeResp)
  | .UpgradeResp => ([NeedsExclusive, IsResponse], .InvalidCmd)
  | .ReadExReq => ([IsRead, NeedsExclusive, IsInvalidate, IsRequest, NeedsResponse], .ReadExResp)
  | .ReadExResp => ([IsRead, NeedsExclusive, IsResponse, HasData], .InvalidCmd)
  | .LoadLockedReq => ([IsRead, IsLlsc, IsRequest, NeedsResponse], .ReadResp)
  | .StoreCondReq => ([IsWrite, NeedsExclusive, IsLlsc, IsRequest, NeedsResponse, HasData], .StoreCondResp)
  | .StoreCondResp => ([IsWrite, NeedsExclusive, IsLlsc, IsResponse], .InvalidCmd)
  | .SwapReq => ([IsRead, IsWrite, NeedsExclusive, IsRequest, HasData, NeedsResponse], .SwapResp)
  | .SwapResp => ([IsRead, IsWrite, NeedsExclusive, IsResponse, HasData], .InvalidCmd)
  | .MessageReq => ([IsWrite, IsRequest, NeedsResponse, HasData], .MessageResp)
  | .MessageResp => ([IsWrite, IsResponse], .InvalidCmd)
  | .NetworkNackError | .InvalidDestError | .BadAddressError => ([IsResponse, IsError], .InvalidCmd)
  | .PrintReq => ([IsRequest, IsPrint], .InvalidCmd)

namespace MemCmd

variable (c : MemCmd)

def testCmdAttrib (a : Attribute) : Bool := (commandInfo c).1.contains a

def isRead : Bool := c.testCmdAttrib .IsRead
def isWrite : Bool := c.testCmdAttrib .IsWrite
def isRequest : Bool := c.testCmdAttrib .IsRequest
def isResponse : Bool := c.testCmdAttrib .IsResponse
def needsExclusive : Bool := c.testCmdAttrib .NeedsExclusive
def needsResponse : Bool := c.testCmdAttrib .NeedsResponse
def isInvalidate : Bool := c.testCmdAttrib .IsInvalidate
def hasData : Bool := c.testCmdAttrib .HasData
def isLLSC : Bool := c.testCmdAttrib .IsLlsc
def isError : Bool := c.testCmdAttrib .IsError
def responseCommand : MemCmd := (commandInfo c).2

end MemCmd

/-- The members of `Request` that the memory system reads, and `extraData`, which it also writes. -/
structure Request where
  hasContextId : Bool := false
  contextId : Nat := 0
  extraData : Nat := 0
  isCondSwap : Bool := false
  isInstFetch : Bool := false
  isUncacheable : Bool := false
deriving DecidableEq

/-- The members of `Packet` that matter here; `shared` to `memInhibit` are its `COPY_FLAGS`. -/
structure Packet where
  cmd : MemCmd
  addr : Addr
  size : Nat
  data : Nat → UInt8 := fun _ => 0
  req : Request := {}
  shared : Bool := false
  expressSnoop : Bool := false
  supplyExclusive : Bool := false
  memInhibit : Bool := false

inductive Fault
  | assert    -- a failed `assert`
  | panic     -- a `panic` or `fatal`
deriving DecidableEq

namespace Packet

variable (pkt : Packet) (p : Nat → UInt8)

def isRead : Bool := pkt.cmd.isRead
def isWrite : Bool := pkt.cmd.isWrite
def isRequest : Bool := pkt.cmd.isRequest
def isResponse : Bool := pkt.cmd.isResponse
def needsExclusive : Bool := pkt.cmd.needsExclusive
def needsResponse : Bool := pkt.cmd.needsResponse
def isInvalidate : Bool := pkt.cmd.isInvalidate
def isLLSC : Bool := pkt.cmd.isLLSC

def setExtraData (v : Nat) : Packet := { pkt with req := { pkt.req with extraData := v } }

/-- `Packet::getOffset`, for a block size that is a power of two. -/
def getOffset (blkSize : Nat) : Nat := pkt.addr % blkSize

/-- `Packet::setData`: fill the packet from a buffer. -/
def setData : Packet := { pkt with data := blit pkt.data 0 pkt.size p }

/-- `memcmp` of the condition value of a conditional swap with a buffer. -/
def condMatches : Bool :=
  (List.range pkt.size).all (fun i => leByte pkt.req.extraData i = p i)

/-- `overwrite_mem` of a swap on the bytes of a buffer: a conditional swap must be 4 or 8 bytes wide. -/
def overwriteMem : Except Fault Bool :=
  if pkt.req.isCondSwap then
    if pkt.size = 8 ∨ pkt.size = 4 then .ok (pkt.condMatches p) else .error .panic
  else .ok true

/-- `Packet::makeResponse`, which `makeAtomicResponse` and `makeTimingResponse` call. -/
def makeResponse : Except Fault Packet := do
  ensure .assert pkt.needsResponse
  ensure .assert pkt.isRequest
  .ok { pkt with cmd := pkt.cmd.responseCommand }

end Packet

end M5.Mem
