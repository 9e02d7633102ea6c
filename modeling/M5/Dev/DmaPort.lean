import M5.Base.ChunkGenerator
import M5.Lib.Custody

/-!
# The DMA port of a device

`DmaPort` of `dev/io_device.cc` in timing mode, with the memory system at the other end. A packet goes by the number of
its allocation, and a `DmaReqState` by that of its `dmaAction`. The memory system answers each `sendTiming` as it likes;
later it calls `recvRetry` if it refused one, and it answers or nacks the packets it has accepted in any order.
-/

namespace M5.Dev

open M5.Lib M5.Base

inductive Fault
  | assert | dangling
deriving DecidableEq

/-- The parameters: `peerBlockSize` and the bounds of the backoff delay. -/
structure Config where
  blockSize : Nat
  minBackoffDelay : Nat
  maxBackoffDelay : Nat
  power : blockSize = 0 ∨ ∃ k < 32, blockSize = 2 ^ k

inductive Command
  | ReadReq | WriteReq
deriving DecidableEq

/-- A packet with its request; `data` is the pointer that it is given. -/
structure Packet where
  id : Nat
  cmd : Command
  addr : Nat
  size : Nat
  data : Option Nat
  senderState : Nat
deriving DecidableEq

structure DmaReqState where
  completionEvent : Nat
  totBytes : Nat
  numBytes : Nat
  delay : Nat
deriving DecidableEq

structure Call where
  cmd : Command
  addr : Nat
  size : Nat
  event : Nat
  data : Option Nat
  delay : Nat
deriving DecidableEq

/-- A completion event that was triggered: for which call, and for when. -/
structure Completion where
  call : Nat
  event : Nat
  when : Nat
deriving DecidableEq

structure System where
  -- the port
  transmitList : List Packet := []
  pendingCount : Int := 0
  drainEvent : Option Nat := none
  backoffTime : Nat := 0
  inRetry : Bool := false
  /-- When the backoff event is scheduled. -/
  backoffEvent : Option Nat := none
  states : Nat → Option DmaReqState := fun _ => none
  curTick : Nat := 0
  -- the memory system: its next answers, the packets it has, and whether it is to call `recvRetry`
  answers : List Bool := []
  outstanding : List Packet := []
  owesRetry : Bool := false
  -- what has happened
  calls : List Call := []
  created : List Packet := []
  accepted : List Packet := []
  nacked : List Packet := []
  answered : List Packet := []
  completed : List Completion := []
  drained : List Nat := []

namespace System

variable (c : Call) (s : System)

/-- `sendTiming`. Where there is no answer left, the packet is refused. -/
def sendTiming (pkt : Packet) : Bool × System :=
  match s.answers with
  | true :: as =>
    (true, { s with answers := as, outstanding := s.outstanding ++ [pkt], accepted := s.accepted ++ [pkt] })
  | as => (false, { s with answers := as.tail, owesRetry := true })

/-- The loop of `sendDma`: the packet is the one that was at the front before the loop. Each turn that goes on takes one
packet off the list. -/
def sendLoop (pkt : Packet) : Nat → System → System
  | 0, s => s
  | fuel + 1, s =>
    match s.sendTiming pkt with
    | (true, s) =>
      let s := { s with transmitList := s.transmitList.tail }
      if s.backoffTime = 0 ∧ s.transmitList ≠ [] then sendLoop pkt fuel s else s
    | (false, s) => { s with inRetry := true }

def sendDma : Except Fault System :=
  match s.transmitList with
  | [] => .error .assert
  | pkt :: _ =>
    if s.backoffEvent.isSome ∨ s.inRetry then .ok s
    else
      let s := sendLoop pkt s.transmitList.length s
      .ok (if s.transmitList ≠ [] ∧ s.backoffTime ≠ 0 ∧ s.inRetry = false ∧ s.backoffEvent = none then
        { s with backoffEvent := some (s.backoffTime + s.curTick) } else s)

def queueDma (pkt : Packet) (front : Bool) : Except Fault System :=
  sendDma { s with transmitList := if front then pkt :: s.transmitList else s.transmitList ++ [pkt] }

def newPacket (c : Call) (k : ChunkGenerator.Chunk) : Packet where
  id := s.created.length
  cmd := c.cmd
  addr := k.addr
  size := k.size
  data := c.data.map (· + k.complete)
  senderState := s.calls.length - 1

def queueChunk (k : ChunkGenerator.Chunk) : Except Fault System := do
  let pkt := s.newPacket c k
  ensure .assert (0 ≤ s.pendingCount)
  queueDma { s with pendingCount := s.pendingCount + 1, created := s.created ++ [pkt] } pkt false

def dmaAction (cfg : Config) (s : System) (c : Call) : Except Fault System :=
  let state := { completionEvent := c.event, totBytes := c.size, numBytes := 0, delay := c.delay }
  let s := { s with states := Function.update s.states s.calls.length (some state), calls := s.calls ++ [c] }
  (ChunkGenerator.chunks c.addr c.size cfg.blockSize).foldlM (queueChunk c) s

/-- `recvTiming` of a packet that was nacked. -/
def recvNack (cfg : Config) (s : System) (pkt : Packet) : Except Fault System :=
  let backoffTime :=
    if s.backoffTime < cfg.minBackoffDelay then cfg.minBackoffDelay
    else if s.backoffTime < cfg.maxBackoffDelay then s.backoffTime * 2
    else s.backoffTime
  queueDma { s with backoffTime, backoffEvent := some (s.curTick + backoffTime) } pkt true

/-- The event that waits for the packets to be answered. -/
def signalDrain : System :=
  match s.drainEvent with
  | some de => if s.pendingCount = 0 then { s with drainEvent := none, drained := s.drained ++ [de] } else s
  | none => s

/-- `recvTiming` of a response. -/
def recvResponse (pkt : Packet) : Except Fault System := do
  let s := { s with backoffTime := s.backoffTime / 4, pendingCount := s.pendingCount - 1 }
  ensure .assert (0 ≤ s.pendingCount)
  match s.states pkt.senderState with
  | none => .error .dangling
  | some state => do
    let state := { state with numBytes := state.numBytes + pkt.size }
    ensure .assert (state.numBytes ≤ state.totBytes)
    let s : System :=
      if state.totBytes = state.numBytes then
        { s with
          states := Function.update s.states pkt.senderState none,
          -- without a delay the event is processed at once
          completed := s.completed ++ [⟨pkt.senderState, state.completionEvent, s.curTick + state.delay⟩] }
      else { s with states := Function.update s.states pkt.senderState (some state) }
    .ok s.signalDrain

/-- The loop of `recvRetry`: here the packet is the one at the front. -/
def retryLoop : Nat → System → System
  | 0, s => s
  | fuel + 1, s =>
    match s.transmitList with
    | [] => s
    | pkt :: rest =>
      match s.sendTiming pkt with
      | (true, s) =>
        let s := { s with transmitList := rest, inRetry := false }
        if s.backoffTime = 0 ∧ s.transmitList ≠ [] then retryLoop fuel s else s
      | (false, s) => { s with inRetry := true }

def recvRetry : Except Fault System := do
  ensure .assert (s.transmitList ≠ [])
  let s := retryLoop s.transmitList.length s
  .ok (if s.transmitList ≠ [] ∧ s.backoffTime ≠ 0 ∧ s.inRetry = false ∧ s.backoffEvent = none then
    { s with backoffEvent := some (s.backoffTime + s.curTick) } else s)

def drain (de : Nat) : System := if s.pendingCount = 0 then s else { s with drainEvent := some de }

end System

/-! ## What happens -/

/-- A call of `dmaAction`, a response or a nack for a packet, a retry, the backoff event, time that passes, and a
drain. -/
inductive Act
  | dmaAction (c : Call) (answers : List Bool)
  | response (pkt : Packet)
  | nack (pkt : Packet)
  | retry (answers : List Bool)
  | backoff (answers : List Bool)
  | time (t : Nat)
  | drain (de : Nat)

/-- What the device and the memory system may do next. -/
def Act.Allowed (s : System) : Act → Prop
  | dmaAction c _ => c.addr < 2 ^ 64 ∧ 0 < c.size ∧ c.size < 2 ^ 31
  | response pkt => pkt ∈ s.outstanding
  | nack pkt => pkt ∈ s.outstanding
  | retry _ => s.owesRetry
  | backoff _ => s.backoffEvent = some s.curTick
  | time t => s.curTick ≤ t ∧ s.backoffEvent.all (fun w => decide (t ≤ w))
  | drain _ => True

instance (s : System) : ∀ a : Act, Decidable (a.Allowed s)
  | .dmaAction _ _ | .time _ => inferInstanceAs (Decidable (_ ∧ _))
  | .response _ | .nack _ => inferInstanceAs (Decidable (_ ∈ _))
  | .retry _ | .backoff _ => inferInstanceAs (Decidable (_ = _))
  | .drain _ => inferInstanceAs (Decidable True)

def System.handle (cfg : Config) (s : System) : Act → Except Fault System
  | .dmaAction c answers => dmaAction cfg { s with answers } c
  | .response pkt =>
    recvResponse { s with outstanding := s.outstanding.erase pkt, answered := s.answered ++ [pkt] } pkt
  | .nack pkt => recvNack cfg { s with outstanding := s.outstanding.erase pkt, nacked := s.nacked ++ [pkt] } pkt
  | .retry answers => recvRetry { s with answers, owesRetry := false }
  | .backoff answers => sendDma { s with answers, backoffEvent := none }
  | .time t => .ok { s with curTick := t }
  | .drain de => .ok (s.drain de)

def Step (cfg : Config) (s : System) (a : Act) (t : System) : Prop := a.Allowed s ∧ s.handle cfg a = .ok t

end M5.Dev
