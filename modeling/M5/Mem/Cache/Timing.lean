import M5.Lib.Check
import M5.Mem.TimingPort
import M5.Mem.Cache.MSHRQueue
import M5.Mem.Cache.Cache

/-!
# The cache in timing mode

`Cache` of `mem/cache/cache_impl.hh` and `BaseCache` of `mem/cache/base.hh` as a system that takes packets from both
sides: `timingAccess`, `handleResponse`, `snoopTiming` and `sendPacket`, with the two queues of MSHRs, the causes for
which the CPU side is blocked, and the two ports. What other components answer during one operation (whether the bus
takes a packet, what the caches above say to a snoop, what the prefetcher offers) is in `World`.
-/

namespace M5.Mem

open M5.Lib Function

/-! ## Looking up entries of a queue -/

namespace MSHRQueue

variable (q : MSHRQueue)

def isFull : Bool := decide (q.allocated > (q.numEntries : Int) - q.numReserve)

def findMatch (addr : Addr) : Option Nat := q.entries.find? fun i => (q.registers i).addr = addr

def findMatches (addr : Addr) : List Nat := q.entries.filter fun i => (q.registers i).addr = addr

def findPending (addr : Addr) (size : Nat) : Option Nat :=
  (q.readyList.map Node.val).find? fun i =>
    let e := q.registers i
    if e.addr < addr then e.addr + e.size > addr else addr + size > e.addr

def getNextMSHR (curTick : Tick) : Option Nat :=
  match q.readyList with
  | [] => none
  | n :: _ => if q.readyTime n > curTick then none else some n.val

/-- `nextMSHRReadyTime`; `none` is `MaxTick`. -/
def nextMSHRReadyTime : Option Tick := q.readyList.head?.map q.readyTime

end MSHRQueue

/-! ## The state -/

/-- The ways a cache stops: a failed assertion or a panic, the assertions of `CachePort::setBlocked` and `clearBlocked`,
and the use of a prefetcher or of a block that is `NULL`. -/
inductive TimingFault
  | fault (f : Fault)
  | portBlocked
  | nullPrefetcher
  | nullBlock
deriving DecidableEq

inductive QueueIndex
  | MSHRs | WriteBuffer
deriving DecidableEq

inductive BlockedCause
  | NoMSHRs | NoWBBuffers | NoTargets
deriving DecidableEq

/-- `(BlockedCause)mq->index`. -/
def QueueIndex.cause : QueueIndex → BlockedCause
  | MSHRs => .NoMSHRs
  | WriteBuffer => .NoWBBuffers

/-- An `MSHR *`: an entry of one of the queues. -/
structure MSHRPtr where
  queue : QueueIndex
  idx : Nat
deriving DecidableEq

/-- The parameters of a cache; `ms` is the number of ticks in a millisecond. -/
structure TimingParams where
  mshrs : Nat
  writeBuffers : Nat
  numTarget : Nat
  hitLatency : Nat
  forwardSnoops : Bool
  /-- The cache has a prefetcher; the pointer is `NULL` otherwise. -/
  prefetcher : Bool
  prefetchOnAccess : Bool
  ms : Nat

/-- `BaseCache::CachePort`; `retries` are the times for which a retry has been scheduled. -/
structure CachePort where
  out : SimpleTimingPort := {}
  blocked : Bool := false
  mustSendRetry : Bool := false
  retries : List Tick := []

namespace CachePort

def setBlocked (port : CachePort) : Except TimingFault CachePort := do
  ensure .portBlocked (port.blocked = false)
  .ok { port with blocked := true, mustSendRetry := false }

def clearBlocked (port : CachePort) (curTick : Tick) : Except TimingFault CachePort := do
  ensure .portBlocked port.blocked
  .ok { port with
    blocked := false, mustSendRetry := false,
    retries := if port.mustSendRetry then port.retries ++ [curTick + 1] else port.retries }

end CachePort

structure TimingCache (T : TagStore) where
  cache : Cache T
  queues : QueueIndex → MSHRQueue
  blocked : BlockedCause → Bool := fun _ => false
  noTargetMSHR : Option Nat := none
  order : Nat
  cpuSidePort : CachePort := {}
  memSidePort : CachePort := {}
  curTick : Tick
  tagCalls : List TagCall := []

/-- What the caches above answer to a forwarded snoop. -/
structure Above where
  memInhibit : Bool := false
  shared : Bool := false

/-- What the world answers during one operation. `lat` is the latency of an access, which depends on when its block was
filled; `above` is by the order of the snoop; `notify`, `prefetch` and `prefetchReady` are of the prefetcher; and
`accepted` says that the bus takes a packet, with `downstream` if a cache below then holds it back. -/
structure World where
  lat : Nat := 1
  above : Nat → Above := fun _ => {}
  notify : Tick := 0
  prefetch : Option Packet := none
  prefetchReady : Option Tick := none
  accepted : Bool := true
  downstream : Bool := false

namespace TimingCache

variable {T : TagStore}

/-- A cache as it is built; the constructor leaves `order` as it is. -/
def init (T : TagStore) (p : TimingParams) (order : Nat) (curTick : Tick) : TimingCache T where
  cache := .init T
  queues
    | .MSHRs => .create p.mshrs 4
    | .WriteBuffer => .create p.writeBuffers (p.mshrs + 1000)
  order := order
  curTick := curTick

section

variable (s : TimingCache T)

def mshrQueue : MSHRQueue := s.queues .MSHRs

def writeBuffer : MSHRQueue := s.queues .WriteBuffer

def entry (m : MSHRPtr) : MSHREntry := (s.queues m.queue).registers m.idx

def mshr (m : MSHRPtr) : MSHR := (s.entry m).mshr

def setQueue (i : QueueIndex) (q : MSHRQueue) : TimingCache T := { s with queues := update s.queues i q }

def setMSHR (ptr : MSHRPtr) (m : MSHR) : TimingCache T :=
  s.setQueue ptr.queue ((s.queues ptr.queue).setMSHR ptr.idx m)

def setForward (ptr : MSHRPtr) (b : Bool) : TimingCache T :=
  s.setQueue ptr.queue ((s.queues ptr.queue).setEntry ptr.idx { s.entry ptr with isForward := b })

def setCpuOut (out : SimpleTimingPort) : TimingCache T := { s with cpuSidePort := { s.cpuSidePort with out } }

def setMemOut (out : SimpleTimingPort) : TimingCache T := { s with memSidePort := { s.memSidePort with out } }

def setCache (c : Cache T) (calls : List TagCall) : TimingCache T :=
  { s with cache := c, tagCalls := s.tagCalls ++ calls }

/-- The misses that are outstanding, as `allocateBlock` looks them up. -/
def outstanding (addr : Addr) : Option Bool :=
  (s.mshrQueue.findMatch addr).map fun i => (s.mshrQueue.registers i).mshr.targets.needsExclusive

/-! ## Blocking, and requests for the bus -/

def isBlocked : Bool := s.blocked .NoMSHRs || s.blocked .NoWBBuffers || s.blocked .NoTargets

def setBlocked (cause : BlockedCause) : Except TimingFault (TimingCache T) :=
  if s.isBlocked then .ok { s with blocked := update s.blocked cause true }
  else do
    let port ← s.cpuSidePort.setBlocked
    .ok { s with cpuSidePort := port, blocked := update s.blocked cause true }

def clearBlocked (cause : BlockedCause) : Except TimingFault (TimingCache T) :=
  let s := { s with blocked := update s.blocked cause false }
  if s.isBlocked then .ok s
  else do
    let port ← s.cpuSidePort.clearBlocked s.curTick
    .ok { s with cpuSidePort := port }

def blockIfFull (i : QueueIndex) : Except TimingFault (TimingCache T) :=
  if (s.queues i).isFull then s.setBlocked i.cause else .ok s

/-- `clearBlocked` after an entry may have been freed. -/
def clearIfFreed (i : QueueIndex) (wasFull : Bool) : Except TimingFault (TimingCache T) :=
  if wasFull && !(s.queues i).isFull then s.clearBlocked i.cause else .ok s

variable (pkt : Packet) (up : Option Nat) (time : Tick)

def requestMemSideBus : Except TimingFault (TimingCache T) :=
  if s.memSidePort.out.waitingOnRetry then .ok s
  else do
    let out ← lift .fault (s.memSidePort.out.schedSendEvent s.curTick time)
    .ok (s.setMemOut out)

/-- The part of `allocateBufferInternal` that asks for the bus. -/
def requestIf (requestBus : Bool) (time : Tick) : Except TimingFault (TimingCache T) :=
  if requestBus then s.requestMemSideBus time else .ok s

def allocateBufferInternal (qi : QueueIndex) (addr : Addr) (size : Nat) (pkt : Packet) (up : Option Nat) (time : Tick)
    (requestBus : Bool) : Except TimingFault (Nat × TimingCache T) := do
  let (i, q) ← lift .fault ((s.queues qi).allocate addr size pkt up time s.order)
  let s ← blockIfFull { s.setQueue qi q with order := s.order + 1 } qi
  let s ← s.requestIf requestBus time
  .ok (i, s)

def allocateMissBuffer (requestBus : Bool) : Except TimingFault (Nat × TimingCache T) := do
  ensure (.fault .assert) (pkt.req.isUncacheable = false)
  s.allocateBufferInternal .MSHRs (T.blkAlign pkt.addr) T.blkSize pkt up time requestBus

def allocateWriteBuffer : Except TimingFault (TimingCache T) := do
  ensure (.fault .assert) (pkt.isWrite ∧ ¬ pkt.isRead)
  let (_, s) ← s.allocateBufferInternal .WriteBuffer pkt.addr pkt.size pkt up time true
  .ok s

def allocateUncachedReadBuffer : Except TimingFault (TimingCache T) := do
  ensure (.fault .assert) pkt.req.isUncacheable
  ensure (.fault .assert) pkt.isRead
  let (_, s) ← s.allocateBufferInternal .MSHRs pkt.addr pkt.size pkt up time true
  .ok s

def markInServiceInternal (m : MSHRPtr) : Except TimingFault (TimingCache T) := do
  let q ← lift .fault ((s.queues m.queue).markInService m.idx)
  (s.setQueue m.queue q).clearIfFreed m.queue (s.queues m.queue).isFull

def respondCpu (p : TimingParams) (pkt : Packet) (time : Tick) : Except TimingFault (TimingCache T) := do
  let out ← lift .fault (s.cpuSidePort.out.schedSendTiming p.ms s.curTick pkt time)
  .ok (s.setCpuOut out)

def respondMem (p : TimingParams) (pkt : Packet) (time : Tick) : Except TimingFault (TimingCache T) := do
  let out ← lift .fault (s.memSidePort.out.schedSendTiming p.ms s.curTick pkt time)
  .ok (s.setMemOut out)

def bufferWritebacks (wbs : List Packet) (time : Tick) : Except TimingFault (TimingCache T) :=
  wbs.foldlM (fun s wb => s.allocateWriteBuffer wb none time) s

end

/-! ## Requests from the CPU side -/

section

variable (p : TimingParams) (w : World) (s : TimingCache T)

/-- Ask for the bus when the prefetcher has something to send. -/
def requestPrefetch (time : Tick) : Except TimingFault (TimingCache T) :=
  if w.notify ≠ 0 then s.requestMemSideBus (max time w.notify) else .ok s

variable (pkt : Packet) (up : Option Nat) (blk : Option Frame)

variable (time : Tick)

/-- Uncacheable writes go in the write buffer, reads use an MSHR. -/
def bufferUncacheable : Except TimingFault (TimingCache T) :=
  if pkt.isWrite ∧ ¬ pkt.isRead then s.allocateWriteBuffer pkt up time
  else s.allocateUncachedReadBuffer pkt up time

/-- The part of `timingAccess` for uncacheable requests. -/
def accessUncacheable : Except TimingFault (TimingCache T) := do
  let s ← s.bufferUncacheable pkt up time
  ensure (.fault .assert) pkt.needsResponse
  .ok s

/-- The response to a request that is satisfied. -/
def accessRespond : Except TimingFault (TimingCache T) :=
  if pkt.needsResponse then do
    let pkt ← lift .fault pkt.makeResponse
    s.respondCpu p pkt (s.curTick + w.lat)
  else .ok s

/-- The prefetcher is told of an access on request, or when the block had been prefetched. -/
def accessNotify : Except TimingFault (TimingCache T) :=
  if p.prefetcher && (p.prefetchOnAccess || blk.any fun f => (s.cache.blks f).wasPrefetched) then
    let unmark (f : Frame) : Cache T := s.cache.set (.frame f) (s.cache.blks f).clearPrefetched
    requestPrefetch w (s.setCache (blk.elim s.cache unmark) []) time
  else .ok s

def accessHit : Except TimingFault (TimingCache T) := do
  let s ← accessRespond p w s pkt
  accessNotify p w s blk time

/-- A miss on a block with an MSHR. -/
def accessTarget (i : Nat) (pkt : Packet) (up : Option Nat) (time : Tick) : Except TimingFault (TimingCache T) := do
  let m ← lift .fault ((s.mshr ⟨.MSHRs, i⟩).allocateTarget pkt up time s.order)
  let s := { s.setMSHR ⟨.MSHRs, i⟩ m with order := s.order + 1 }
  if m.ntargets = p.numTarget then setBlocked { s with noTargetMSHR := some i } .NoTargets else .ok s

/-- A miss that goes to a buffer; a block without write permission must not be read while the write is outstanding. -/
def accessBuffer : Except TimingFault (TimingCache T) :=
  if pkt.cmd = .Writeback then s.allocateWriteBuffer pkt up time
  else
    match blk.filter fun f => (s.cache.blks f).isValid with
    | some f => do
      ensure (.fault .assert) (pkt.needsExclusive ∧ ¬ (s.cache.blks f).isWritable)
      let (_, s) ← (s.setCache (s.cache.set (.frame f) (s.cache.blks f).clearReadable) []).allocateMissBuffer pkt up
        time true
      .ok s
    | none => do
      let (_, s) ← s.allocateMissBuffer pkt up time true
      .ok s

def accessMiss : Except TimingFault (TimingCache T) :=
  match s.mshrQueue.findMatch (T.blkAlign pkt.addr) with
  | some i => s.accessTarget p i pkt up time
  | none => do
    let s ← s.accessBuffer pkt up blk time
    if p.prefetcher then s.requestPrefetch w time else .ok s

/-- The part of `timingAccess` between the access and the writebacks. -/
def accessResult (r : Cache.AccessResult T) (up : Option Nat) (time : Tick) : Except TimingFault (TimingCache T) :=
  if r.satisfied then s.accessHit p w r.pkt r.blk time else s.accessMiss p w r.pkt up r.blk time

/-- The part of `timingAccess` for a cacheable request. -/
def accessCacheable : Except TimingFault (TimingCache T) := do
  let r ← lift .fault (s.cache.access s.outstanding pkt)
  let s ← (s.setCache r.cache (s.cache.accessCalls s.outstanding pkt)).accessResult p w r up time
  s.bufferWritebacks r.writebacks time

/-- `Cache::timingAccess`. A response is one of an upper-level cache to a snoop that was forwarded to it. A request that
another cache answers is sent on as an express snoop, if at all. -/
def timingAccess : Except TimingFault (TimingCache T) :=
  let time := s.curTick + p.hitLatency
  if pkt.isResponse then s.respondMem p pkt time
  else do
    ensure (.fault .assert) pkt.isRequest
    if pkt.memInhibit then do
      ensure (.fault .assert) (pkt.req.isUncacheable = false)
      .ok s
    else if pkt.req.isUncacheable then s.accessUncacheable pkt up time
    else s.accessCacheable p w pkt up time

/-! ## Snoops -/

/-- The part of `handleSnoop` that propagates the snoop upward. -/
def forwardSnoop (p : TimingParams) (above : Above) (pkt : Packet) : Except Fault Packet :=
  if p.forwardSnoops then do
    ensure .assert (above.memInhibit → ¬ pkt.memInhibit)
    .ok { pkt with memInhibit := pkt.memInhibit || above.memInhibit, shared := pkt.shared || above.shared }
  else .ok pkt

/-- `Cache::handleSnoop` in timing mode, with the response for the memory side. -/
def handleSnoop (c : Cache T) (above : Above) (pkt : Packet) (blk : Option BlkPtr) (isDeferred pendingInval : Bool) :
    Except Fault (Cache T × Option Packet × List TagCall) := do
  ensure .assert (¬ (pendingInval ∧ ¬ isDeferred))
  ensure .assert pkt.isRequest
  let pkt ← forwardSnoop p above pkt
  match blk with
  | none => .ok (c, none, [])
  | some b => do
    let (blk', _, resp) ← (c.get b).handleSnoop T.blkSize pkt true isDeferred pendingInval
    .ok (c.set b blk', resp, c.snoopCalls b pkt)

def respondOpt : Option Packet → Except TimingFault (TimingCache T)
  | none => .ok s
  | some pkt => s.respondMem p pkt (s.curTick + p.hitLatency)

/-- Invalidation trumps a writeback, which is discarded. -/
def discardIf (invalidate : Bool) (j : Nat) : Except TimingFault (TimingCache T) :=
  if invalidate then s.markInServiceInternal ⟨.WriteBuffer, j⟩ else .ok s

/-- The part of `snoopTiming` for a block with a writeback in the write buffer: it supplies the data, and an
invalidation discards it. -/
def snoopWriteback (j : Nat) (pkt : Packet) : Except TimingFault (Packet × TimingCache T) :=
  match (s.mshr ⟨.WriteBuffer, j⟩).targets.list with
  | [] => .error (.fault .assert)
  | t :: _ => do
    ensure (.fault .assert) (t.pkt.req.isUncacheable = false)
    ensure (.fault .assert) ((s.mshr ⟨.WriteBuffer, j⟩).ntargets = 1)
    ensure (.fault .assert) (t.pkt.cmd = .Writeback)
    ensure (.fault .assert) (¬ pkt.memInhibit)
    ensure (.fault .assert) (pkt.needsExclusive → pkt.isInvalidate)
    let pkt := { pkt with memInhibit := true, shared := pkt.shared || !pkt.needsExclusive }
    let resp ← lift .fault (CacheBlk.doTimingSupplyResponse T.blkSize t.pkt.data pkt false false)
    let s ← s.respondOpt p (some resp)
    let s ← s.discardIf pkt.isInvalidate j
    .ok (pkt, s)

def snoopWriteBuffer : Except TimingFault (Packet × TimingCache T) :=
  match s.writeBuffer.findMatches (T.blkAlign pkt.addr) with
  | [] => .ok (pkt, s)
  | j :: _ => s.snoopWriteback p j pkt

/-- The part of `snoopTiming` after the MSHR: the write buffer, then the blocks. -/
def snoopBlocks (order : Nat) : Except TimingFault (TimingCache T) := do
  let (pkt, s) ← s.snoopWriteBuffer p pkt
  let (c, resp, calls) ← lift .fault (handleSnoop p s.cache (w.above order) pkt
    ((s.cache.findBlock pkt.addr).map .frame) false false)
  (s.setCache c calls).respondOpt p resp

def snoopTiming : Except TimingFault (TimingCache T) :=
  if pkt.req.isUncacheable || pkt.cmd = .Writeback then .ok s
  else
    match s.mshrQueue.findMatch (T.blkAlign pkt.addr) with
    | none => s.snoopBlocks p w pkt s.order
    | some i =>
      let (deferred, pkt, m) := (s.mshr ⟨.MSHRs, i⟩).handleSnoop pkt up s.curTick s.order
      let s' := { s.setMSHR ⟨.MSHRs, i⟩ m with order := s.order + 1 }
      if deferred then .ok s' else s'.snoopBlocks p w pkt s.order

end

/-! ## Responses -/

/-- A response: the packet with its times, the block, if there is one, whether the block was filled, and the offset of
the first target. -/
structure Reply where
  pkt : Packet
  firstWordTime : Tick
  finishTime : Tick
  isFill : Bool
  blk : Option BlkPtr
  initialOffset : Nat

/-- What the loop over the targets in `handleResponse` works on. -/
structure Served (T : TagStore) where
  cache : Cache T
  mshr : MSHR
  cpu : SimpleTimingPort
  mem : SimpleTimingPort
  calls : List TagCall := []

section

variable (p : TimingParams) (w : World) (curTick : Tick) (r : Reply)

variable (pkt : Packet) (v : Served T)

/-- A response with an invalidation is passed on as such. -/
def passInvalidate : Except Fault Packet :=
  if r.pkt.isInvalidate then do
    ensure .assert (pkt.cmd = .ReadResp)
    ensure .assert (r.pkt.cmd = .ReadRespWithInvalidate)
    .ok { pkt with cmd := .ReadRespWithInvalidate }
  else .ok pkt

/-- The answer to a target of the CPU side. -/
def answerTarget (time : Tick) (v : Served T) : Except Fault (Served T) := do
  let pkt ← pkt.makeResponse
  let pkt ← passInvalidate r (if r.pkt.cmd.isError then { pkt with cmd := r.pkt.cmd } else pkt)
  let cpu ← v.cpu.schedSendTiming p.ms curTick pkt time
  .ok { v with cpu }

/-- A target of the CPU side; the critical word comes first. -/
def serveCPU : Except Fault (Served T) :=
  if r.isFill then
    match r.blk with
    | none => .error .assert
    | some b => do
      let (blk, pkt') ← (v.cache.get b).satisfyCpuSideRequest T.blkSize pkt
      ensure .assert (pkt.req.isUncacheable = false)
      answerTarget p curTick r pkt'
        (p.hitLatency + if pkt.getOffset T.blkSize ≠ r.initialOffset then r.finishTime else r.firstWordTime)
        { v with cache := v.cache.set b blk, calls := v.calls ++ v.cache.satisfyCalls b pkt }
  else
    -- just forwarding a response
    let pkt := if r.pkt.isRead && !r.pkt.cmd.isError then pkt.setData r.pkt.data else pkt
    answerTarget p curTick r pkt (p.hitLatency + r.finishTime) v

def servePrefetcher : Except Fault (Served T) := do
  ensure .assert (pkt.cmd = .HardPFReq)
  match r.blk with
  | none => .ok v
  | some b => .ok { v with cache := v.cache.set b (v.cache.get b).setPrefetched }

def serveSnoop (order : Nat) (v : Served T) : Except Fault (Served T) := do
  ensure .assert (r.pkt.cmd.isError = false)
  let (c, resp, calls) ← handleSnoop p v.cache (w.above order) pkt r.blk true
    (v.mshr.pendingInvalidate || r.pkt.isInvalidate)
  let v := { v with cache := c, calls := v.calls ++ calls }
  match resp with
  | none => .ok v
  | some pkt => do
    let mem ← v.mem.schedSendTiming p.ms curTick pkt (curTick + p.hitLatency)
    .ok { v with mem }

def serveTarget (t : MSHR.Target) (v : Served T) : Except Fault (Served T) :=
  match t.source with
  | .FromCPU => serveCPU p curTick r t.pkt v
  | .FromPrefetcher => servePrefetcher r t.pkt v
  | .FromSnoop => serveSnoop p w curTick r t.pkt t.order v

def serveTargets (ts : List MSHR.Target) (v : Served T) : Except Fault (Served T) :=
  ts.foldlM (fun v t => do
    let v ← serveTarget p w curTick r t v
    .ok { v with mshr := v.mshr.popTarget }) v

end

section

variable (p : TimingParams) (w : World) (s : TimingCache T)

variable (m : MSHRPtr) (pkt : Packet) (firstWordTime : Tick)

/-- The cache is no longer blocked for want of targets of this MSHR. -/
def releaseTargets : Except TimingFault (TimingCache T) :=
  if m.queue = .MSHRs ∧ s.noTargetMSHR = some m.idx then do
    let s ← s.clearBlocked .NoTargets
    .ok { s with noTargetMSHR := none }
  else .ok s

/-- What the loop over the targets starts with. -/
def served : Served T :=
  { cache := s.cache, mshr := s.mshr m, cpu := s.cpuSidePort.out, mem := s.memSidePort.out }

variable (finishTime : Tick) (v : Served T)

def Served.initialOffset : Nat :=
  v.mshr.targets.list.head?.elim 0 fun t => t.pkt.getOffset T.blkSize

/-- The part of `handleResponse` that fills the block, with the writebacks of that. -/
def fillBlock : Except Fault (Reply × List Packet × Served T) :=
  let blk := s.cache.findBlock pkt.addr
  let isFill := !(s.entry m).isForward && (pkt.isRead || pkt.cmd = .UpgradeResp)
  if isFill && !pkt.cmd.isError then do
    let (pkt, mshr) ← (s.mshr m).handleFill pkt
    let mshrs := (s.setMSHR m mshr).outstanding
    let (b, c, wbs) ← s.cache.handleFill mshrs pkt blk []
    let v := { s.served m with cache := c, mshr, calls := s.cache.fillCalls mshrs pkt blk }
    .ok (⟨pkt, firstWordTime, finishTime, isFill, some b, v.initialOffset⟩, wbs, v)
  else .ok (⟨pkt, firstWordTime, finishTime, isFill, blk.map .frame, (s.served m).initialOffset⟩, [], s.served m)

/-- The invalidation after the loop over the targets. -/
def Served.invalidateAfter (r : Reply) (v : Served T) : Served T :=
  match r.blk with
  | none => v
  | some b =>
    if r.pkt.isInvalidate then
      { v with cache := (v.cache.invalidateBlk b).1, calls := v.calls ++ (v.cache.invalidateBlk b).2 }
    else v

/-- The part of `handleResponse` that works on the blocks, the targets and the two ports. -/
def serveMSHR : Except Fault (Reply × List Packet × Served T) := do
  ensure .assert ((s.mshr m).targets.list ≠ [])
  let (r, wbs, v) ← s.fillBlock m pkt firstWordTime finishTime
  let v ← serveTargets p w s.curTick r v.mshr.targets.list { v with mshr := { v.mshr with phase := .answered } }
  .ok (r, wbs, v.invalidateAfter r)

def putServed : TimingCache T :=
  (((s.setCache v.cache v.calls).setMSHR m v.mshr).setCpuOut v.cpu).setMemOut v.mem

/-- The deferred targets become the targets, and the MSHR is sent again; or it is freed. -/
def finishMSHR (wasFull : Bool) (r : Reply) : Except TimingFault (TimingCache T) := do
  let (again, mshr) ← lift .fault ((s.mshr m).promoteDeferredTargets s.curTick)
  if again then
    match r.blk with
    | none => .error .nullBlock
    | some b => do
      let q ← lift .fault (((s.queues m.queue).setMSHR m.idx mshr).markPending m.idx)
      ((s.setCache (s.cache.set b (s.cache.get b).clearReadable) []).setQueue m.queue q).requestMemSideBus r.finishTime
  else do
    let q ← lift .fault (((s.queues m.queue).setMSHR m.idx mshr).deallocate m.idx)
    (s.setQueue m.queue q).clearIfFreed m.queue wasFull

/-- The temporary block is written back and cleared. -/
def clearTemp (blk : Option BlkPtr) (time : Tick) : Except TimingFault (TimingCache T) :=
  if blk = some .temp then
    if s.cache.tempBlock.isDirty then do
      let (b, wb) ← lift .fault (Cache.writebackBlk T s.cache.tempBlock)
      let s ← (s.setCache (s.cache.set .temp b) []).allocateWriteBuffer wb none time
      .ok (s.setCache (s.cache.invalidateBlk .temp).1 (s.cache.invalidateBlk .temp).2)
    else .ok (s.setCache (s.cache.invalidateBlk .temp).1 (s.cache.invalidateBlk .temp).2)
  else .ok s

/-- `Cache::handleResponse`, for a response with the MSHR as its sender state. -/
def handleResponse : Except TimingFault (TimingCache T) :=
  if pkt.cmd = .NetworkNackError then .ok s
  else do
    let wasFull := (s.queues m.queue).isFull
    let s ← s.releaseTargets m
    let (r, wbs, v) ← lift .fault (s.serveMSHR p w m pkt firstWordTime finishTime)
    let s ← (s.putServed m v).finishMSHR m wasFull r
    let s ← s.bufferWritebacks wbs (s.curTick + p.hitLatency)
    s.clearTemp r.blk (s.curTick + p.hitLatency)

end

/-! ## Sending on the memory side -/

section

variable (p : TimingParams) (w : World) (s : TimingCache T)

/-- The choice of `getNextMSHR` between a miss and a write: the miss, unless the write buffer is full or holds an
earlier writeback in its way. -/
def favour (i j : Nat) : MSHRPtr :=
  let miss := s.entry ⟨.MSHRs, i⟩
  let write := s.entry ⟨.WriteBuffer, j⟩
  if s.writeBuffer.isFull && s.writeBuffer.inServiceEntries = 0 then
    match s.mshrQueue.findPending write.addr write.size with
    | some k => if (s.mshr ⟨.MSHRs, k⟩).order < write.mshr.order then ⟨.MSHRs, k⟩ else ⟨.WriteBuffer, j⟩
    | none => ⟨.WriteBuffer, j⟩
  else
    match s.writeBuffer.findPending miss.addr miss.size with
    | some k => ⟨.WriteBuffer, k⟩
    | none => ⟨.MSHRs, i⟩

/-- The part of `getNextMSHR` for when no request is ready. -/
def tryPrefetch : Except TimingFault (Option MSHRPtr × TimingCache T) :=
  if s.mshrQueue.isFull then .ok (none, s)
  else if !p.prefetcher then .error .nullPrefetcher
  else
    match w.prefetch with
    | none => .ok (none, s)
    | some pkt =>
      let addr := T.blkAlign pkt.addr
      if (s.cache.findBlock addr).isNone && (s.mshrQueue.findMatch addr).isNone then do
        -- the bus is not requested, since we already have it
        let (i, s) ← s.allocateMissBuffer pkt none s.curTick false
        .ok (some ⟨.MSHRs, i⟩, s)
      else .ok (none, s)

def getNextMSHR : Except TimingFault (Option MSHRPtr × TimingCache T) :=
  match s.mshrQueue.getNextMSHR s.curTick, s.writeBuffer.getNextMSHR s.curTick with
  | some i, none => .ok (some ⟨.MSHRs, i⟩, s)
  | none, some j => .ok (some ⟨.WriteBuffer, j⟩, s)
  | some i, some j => .ok (some (s.favour i j), s)
  | none, none => s.tryPrefetch p w

variable (pkt : Packet) (m : MSHRPtr)

/-- The packet for an MSHR: that of its first target if no response is expected, or one for the bus. -/
def busPacket : Except TimingFault (Packet × TimingCache T) :=
  match (s.mshr m).targets.list with
  | [] => .error (.fault .assert)
  | t :: _ => do
    let noResponse ← lift .fault (s.mshr m).isForwardNoResponse
    let blk := s.cache.findBlock (s.entry m).addr
    if noResponse then do
      ensure (.fault .assert) (blk = none)
      .ok (t.pkt, s)
    else do
      let pkt ← lift .fault (s.cache.getBusPacket t.pkt blk (s.mshr m).targets.needsExclusive)
      .ok (pkt.getD t.pkt, s.setForward m pkt.isNone)

/-- `Cache::getTimingPacket`, with the MSHR that is the sender state of the packet. -/
def getTimingPacket : Except TimingFault (Option (MSHRPtr × Packet) × TimingCache T) := do
  let (next, s) ← s.getNextMSHR p w
  match next with
  | none => .ok (none, s)
  | some m => do
    let (pkt, s) ← s.busPacket m
    .ok (some (m, pkt), s)

/-- The earlier of two times; `none` is `MaxTick`. -/
def earlier : Option Tick → Option Tick → Option Tick
  | none, t => t
  | t, none => t
  | some t, some t' => some (min t t')

def nextMSHRReadyTime : Option Tick :=
  let t := earlier s.mshrQueue.nextMSHRReadyTime s.writeBuffer.nextMSHRReadyTime
  if p.prefetcher then earlier t w.prefetchReady else t

def setWaiting (b : Bool) : TimingCache T := s.setMemOut { s.memSidePort.out with waitingOnRetry := b }

/-- The end of `sendPacket`: see if the bus is needed again. -/
def reschedule : Except TimingFault (TimingCache T) :=
  if s.memSidePort.out.waitingOnRetry then .ok s
  else
    match earlier s.memSidePort.out.deferredPacketReadyTime (s.nextMSHRReadyTime p w) with
    | none => .ok s
    | some t => do
      let out ← lift .fault (s.memSidePort.out.schedule s.curTick (max t (s.curTick + 1)))
      .ok (s.setMemOut out)

/-- A cache below marks the MSHR whose request it takes and holds back. -/
def setDownstream (b : Bool) : TimingCache T :=
  if b then s.setMSHR m { s.mshr m with downstreamPending := true } else s

/-- The part of `sendPacket` for a response that is ready. -/
def sendResponse : TimingCache T :=
  let out := s.memSidePort.out
  s.setMemOut { out with
    transmitList := if w.accepted then out.transmitList.tail else out.transmitList, waitingOnRetry := !w.accepted }

/-- The part of `sendPacket` for requests and writebacks. A packet can be missing if a writeback was refused and has
been eliminated before the retry. -/
def sendRequest : Except TimingFault (TimingCache T) := do
  let (next, s) ← s.getTimingPacket p w
  match next with
  | none => .ok (s.setWaiting false)
  | some (m, _) =>
    if w.accepted then ((s.setWaiting false).setDownstream m w.downstream).markInServiceInternal m
    else .ok (s.setWaiting true)

def sendPacket : Except TimingFault (TimingCache T) :=
  if s.memSidePort.out.deferredPacketReady s.curTick then (s.sendResponse w).reschedule p w
  else do
    let s ← s.sendRequest p w
    s.reschedule p w

def recvRetry : Except TimingFault (TimingCache T) := do
  ensure (.fault .assert) s.memSidePort.out.waitingOnRetry
  s.sendPacket p w

/-- `MemSidePort::processSendEvent`, of the event that is no longer scheduled. -/
def processSendEvent : Except TimingFault (TimingCache T) := do
  ensure (.fault .assert) (¬ s.memSidePort.out.waitingOnRetry)
  (s.setMemOut { s.memSidePort.out with sendEvent := none }).sendPacket p w

/-! ## The ports, and the operations -/

def refuses : Bool := pkt.isRequest && !pkt.memInhibit && s.cpuSidePort.blocked

def cpuRecvTiming (up : Option Nat) : Except TimingFault (TimingCache T) :=
  if s.refuses pkt then .ok { s with cpuSidePort := { s.cpuSidePort with mustSendRetry := true } }
  else s.timingAccess p w pkt up

/-- `MemSidePort::recvTiming`; a response has `m` as its sender state. -/
def memRecvTiming (up : Option Nat) (firstWordTime finishTime : Tick) : Except TimingFault (TimingCache T) :=
  if pkt.cmd = .NetworkNackError then .error (.fault .panic)
  else if pkt.isRequest && s.memSidePort.blocked then
    .ok { s with memSidePort := { s.memSidePort with mustSendRetry := true } }
  else if pkt.isResponse then s.handleResponse p w m pkt firstWordTime finishTime
  else s.snoopTiming p w pkt up

end

/-- The operations: packets from either side, send events and retries of the two ports, a call of the cache below, and
the passing of time. -/
inductive Act
  | cpuRecvTiming (pkt : Packet) (up : Option Nat)
  | memRecvTiming (pkt : Packet) (m : MSHRPtr) (up : Option Nat) (firstWordTime finishTime : Tick)
  | memSendEvent
  | memRetry
  | cpuSendEvent
  | cpuRetry
  | clearDownstreamPending (m : MSHRPtr)
  | advance (t : Tick)

/-- A response is to a request that is out and that no cache below holds back; an event is processed at its time, and
time does not pass it. -/
def Act.Allowed (s : TimingCache T) : Act → Prop
  | cpuRecvTiming .. | memRetry | cpuRetry => True
  | memRecvTiming pkt m _ _ _ => pkt.isResponse →
      m.idx ∈ (s.queues m.queue).entries ∧ (s.mshr m).inService ∧ (s.mshr m).downstreamPending = false
  | memSendEvent => s.memSidePort.out.sendEvent = some s.curTick
  | cpuSendEvent => s.cpuSidePort.out.sendEvent = some s.curTick
  | clearDownstreamPending m => m.idx ∈ (s.queues m.queue).entries ∧ (s.mshr m).downstreamPending
  | advance t => s.curTick ≤ t ∧ (∀ e, s.memSidePort.out.sendEvent = some e → t ≤ e) ∧
      ∀ e, s.cpuSidePort.out.sendEvent = some e → t ≤ e

section

variable (p : TimingParams) (w : World) (s : TimingCache T)

def handle : Act → Except TimingFault (TimingCache T)
  | .cpuRecvTiming pkt up => s.cpuRecvTiming p w pkt up
  | .memRecvTiming pkt m up firstWordTime finishTime => s.memRecvTiming p w pkt m up firstWordTime finishTime
  | .memSendEvent => s.processSendEvent p w
  | .memRetry => s.recvRetry p w
  | .cpuSendEvent => do
    let out ← lift .fault (s.cpuSidePort.out.processSendEvent s.curTick w.accepted)
    .ok (s.setCpuOut out)
  | .cpuRetry => do
    let out ← lift .fault (s.cpuSidePort.out.recvRetry s.curTick w.accepted)
    .ok (s.setCpuOut out)
  | .clearDownstreamPending m => do
    let mshr ← lift .fault (s.mshr m).clearDownstreamPending
    .ok (s.setMSHR m mshr)
  | .advance t => .ok { s with curTick := t }

end

/-- A step: an operation that is allowed, with what the world answers. -/
def Step (p : TimingParams) (s : TimingCache T) (a : World × Act) (s' : TimingCache T) : Prop :=
  a.2.Allowed s ∧ s.handle p a.1 a.2 = .ok s'

instance (s : TimingCache T) : (a : Act) → Decidable (a.Allowed s)
  | .cpuRecvTiming .. | .memRetry | .cpuRetry => .isTrue trivial
  | .memRecvTiming pkt m .. => inferInstanceAs (Decidable (pkt.isResponse →
      m.idx ∈ (s.queues m.queue).entries ∧ (s.mshr m).inService ∧ (s.mshr m).downstreamPending = false))
  | .memSendEvent => inferInstanceAs (Decidable (s.memSidePort.out.sendEvent = some s.curTick))
  | .cpuSendEvent => inferInstanceAs (Decidable (s.cpuSidePort.out.sendEvent = some s.curTick))
  | .clearDownstreamPending m =>
    inferInstanceAs (Decidable (m.idx ∈ (s.queues m.queue).entries ∧ (s.mshr m).downstreamPending))
  | .advance t => inferInstanceAs (Decidable (s.curTick ≤ t ∧ (∀ e ∈ s.memSidePort.out.sendEvent, t ≤ e) ∧
      ∀ e ∈ s.cpuSidePort.out.sendEvent, t ≤ e))

def exec (p : TimingParams) (s : TimingCache T) (a : World × Act) : Except TimingFault (TimingCache T) := do
  ensure (.fault .assert) (a.2.Allowed s)
  s.handle p a.1 a.2

end TimingCache

end M5.Mem
