import M5.Lib.Check
import M5.Lib.Controller
import M5.Ruby.Common
import Mathlib.Data.Finset.Card
import Mathlib.Data.List.Perm.Basic
import Mathlib.Logic.Function.Basic

/-!
# The protocol MI_example

`MI_example-cache.sm`, `MI_example-dir.sm` and `MI_example-msg.sm`, for one block: the L1 caches, the directory, and the
messages between them. The rules and actions are the source's, in its order. A message for the block is in the buffer
of its destination; the forwarded requests of a cache stay in order, and all other buffers may be reordered at any time.
The queues of the source hold the messages of all blocks; split by block they admit every interleaving of the source.

The sequencer's completed loads and stores are logged.
-/

namespace M5.Ruby

open M5.Lib Function

namespace MIExample

/-! ## Messages -/

inductive MachineID (ι : Type)
  | L1Cache (i : ι)
  | Directory
deriving DecidableEq

inductive CoherenceRequestType
  | GETX | GETS | PUTX | PUTO | WB_ACK | WB_NACK | INV | FWD
deriving DecidableEq

structure RequestMsg (ι : Type) where
  type : CoherenceRequestType
  requestor : MachineID ι
  dataBlk : DataBlock := fun _ => 0

inductive CoherenceResponseType
  | ACK | DATA | DATA_EXCLUSIVE_CLEAN | DATA_EXCLUSIVE_DIRTY | UNBLOCK | UNBLOCK_EXCLUSIVE
  | WRITEBACK_CLEAN | WRITEBACK_DIRTY | WRITEBACK
deriving DecidableEq

structure ResponseMsg where
  type : CoherenceResponseType
  dataBlk : DataBlock

inductive MemoryRequestType
  | MEMORY_READ | MEMORY_WB
deriving DecidableEq

structure MemoryMsg (ι : Type) where
  type : MemoryRequestType
  originalRequestorMachId : Option (MachineID ι) := none
  dataBlk : DataBlock

/-! ## The state of a block -/

namespace L1

inductive State
  | I | II | M | MI | MII | IS | IM
deriving DecidableEq

inductive Event
  | Load | Ifetch | Store | Data | Fwd_GETX | Inv | Replacement | Writeback_Ack | Writeback_Nack
deriving DecidableEq

inductive Action
  | a_issueRequest | b_issuePUT | e_sendData | ee_sendDataFromTBE | i_allocateL1CacheBlock | h_deallocateL1CacheBlock
  | m_popMandatoryQueue | n_popResponseQueue | o_popForwardedRequestQueue | p_profileMiss | r_load_hit | s_store_hit
  | u_writeDataToCache | v_allocateTBE | w_deallocateTBE | x_copyDataFromCacheToTBE | z_stall
deriving DecidableEq

structure Entry where
  cacheState : State := .I
  dataBlk : DataBlock := fun _ => 0

structure TBE where
  tbeState : State := .I
  dataBlk : DataBlock := fun _ => 0

open State Event L1.Action in
def rules : List (Rule State Event Action) :=
  [ ⟨[IS, IM, MI, II], [Load, Ifetch, Store, Replacement], none, [z_stall]⟩,
    ⟨[IS, IM], [Fwd_GETX, Inv], none, [z_stall]⟩,
    ⟨[MI], [Inv], none, [o_popForwardedRequestQueue]⟩,
    ⟨[M], [Store], none, [s_store_hit, m_popMandatoryQueue]⟩,
    ⟨[M], [Load, Ifetch], none, [r_load_hit, m_popMandatoryQueue]⟩,
    ⟨[I], [Inv], none, [o_popForwardedRequestQueue]⟩,
    ⟨[I], [Store], IM, [v_allocateTBE, i_allocateL1CacheBlock, a_issueRequest, p_profileMiss, m_popMandatoryQueue]⟩,
    ⟨[I], [Load, Ifetch], IS, [v_allocateTBE, i_allocateL1CacheBlock, a_issueRequest, p_profileMiss,
      m_popMandatoryQueue]⟩,
    ⟨[IS], [Data], M, [u_writeDataToCache, r_load_hit, w_deallocateTBE, n_popResponseQueue]⟩,
    ⟨[IM], [Data], M, [u_writeDataToCache, s_store_hit, w_deallocateTBE, n_popResponseQueue]⟩,
    ⟨[M], [Fwd_GETX], I, [e_sendData, o_popForwardedRequestQueue]⟩,
    ⟨[I], [Replacement], none, [h_deallocateL1CacheBlock]⟩,
    ⟨[M], [Replacement, Inv], MI, [v_allocateTBE, b_issuePUT, x_copyDataFromCacheToTBE, h_deallocateL1CacheBlock]⟩,
    ⟨[MI], [Writeback_Ack], I, [w_deallocateTBE, o_popForwardedRequestQueue]⟩,
    ⟨[MI], [Fwd_GETX], II, [ee_sendDataFromTBE, o_popForwardedRequestQueue]⟩,
    ⟨[MI], [Writeback_Nack], MII, [o_popForwardedRequestQueue]⟩,
    ⟨[MII], [Fwd_GETX], I, [ee_sendDataFromTBE, w_deallocateTBE, o_popForwardedRequestQueue]⟩,
    ⟨[II], [Writeback_Nack], I, [w_deallocateTBE, o_popForwardedRequestQueue]⟩ ]

end L1

structure L1 where
  entry : Option L1.Entry := none
  tbe : Option L1.TBE := none

def L1.getState (l : L1) : State :=
  match l.tbe, l.entry with
  | some t, _ => t.tbeState
  | none, some e => e.cacheState
  | none, none => .I

def L1.setState (l : L1) (q : State) : L1 where
  entry := l.entry.map fun e => { e with cacheState := q }
  tbe := l.tbe.map fun t => { t with tbeState := q }

namespace Dir

inductive State
  | I | M | M_DRD | M_DWR | M_DWRI | M_DRDI | IM | MI | ID | ID_W
deriving DecidableEq

inductive Event
  | GETX | GETS | PUTX | PUTX_NotOwner | DMA_READ | DMA_WRITE | Memory_Data | Memory_Ack
deriving DecidableEq

inductive Action
  | a_sendWriteBackAck | l_sendWriteBackAck | b_sendWriteBackNack | c_clearOwner | d_sendData | dr_sendDMAData
  | drp_sendDMAData | da_sendDMAAck | e_ownerIsRequestor | f_forwardRequest | inv_sendCacheInvalidate
  | i_popIncomingRequestQueue | p_popIncomingDMARequestQueue | l_writeDataToMemory | dwt_writeDMADataFromTBE
  | v_allocateTBE | r_allocateTbeForDmaRead | v_allocateTBEFromRequestNet | w_deallocateTBE | z_recycleRequestQueue
  | y_recycleDMARequestQueue | qf_queueMemoryFetchRequest | qf_queueMemoryFetchRequestDMA
  | qw_queueMemoryWBRequest_partial | qw_queueMemoryWBRequest_partialTBE | l_queueMemoryWBRequest | l_popMemQueue
  | w_writeDataToMemoryFromTBE
deriving DecidableEq

structure TBE where
  physicalAddress : Nat := 0
  tbeState : State := .I
  dataBlk : DataBlock := fun _ => 0
  len : Nat := 0
  dmaRequestor : Nat := 0

open State Event Dir.Action in
def rules : List (Rule State Event Action) :=
  [ ⟨[M_DRD, M_DWR, M_DWRI, M_DRDI], [GETX], none, [z_recycleRequestQueue]⟩,
    ⟨[IM, MI, ID, ID_W], [GETX, GETS, PUTX, PUTX_NotOwner], none, [z_recycleRequestQueue]⟩,
    ⟨[IM, MI, ID, ID_W], [DMA_READ, DMA_WRITE], none, [y_recycleDMARequestQueue]⟩,
    ⟨[I], [GETX], IM, [qf_queueMemoryFetchRequest, e_ownerIsRequestor, i_popIncomingRequestQueue]⟩,
    ⟨[IM], [Memory_Data], M, [d_sendData, l_popMemQueue]⟩,
    ⟨[I], [DMA_READ], ID, [r_allocateTbeForDmaRead, qf_queueMemoryFetchRequestDMA, p_popIncomingDMARequestQueue]⟩,
    ⟨[ID], [Memory_Data], I, [dr_sendDMAData, w_deallocateTBE, l_popMemQueue]⟩,
    ⟨[I], [DMA_WRITE], ID_W, [v_allocateTBE, qw_queueMemoryWBRequest_partial, p_popIncomingDMARequestQueue]⟩,
    ⟨[ID_W], [Memory_Ack], I, [dwt_writeDMADataFromTBE, da_sendDMAAck, w_deallocateTBE, l_popMemQueue]⟩,
    ⟨[M], [DMA_READ], M_DRD, [v_allocateTBE, inv_sendCacheInvalidate, p_popIncomingDMARequestQueue]⟩,
    ⟨[M_DRD], [PUTX], M_DRDI, [l_writeDataToMemory, drp_sendDMAData, c_clearOwner, l_queueMemoryWBRequest,
      i_popIncomingRequestQueue]⟩,
    ⟨[M_DRDI], [Memory_Ack], I, [l_sendWriteBackAck, w_deallocateTBE, l_popMemQueue]⟩,
    ⟨[M], [DMA_WRITE], M_DWR, [v_allocateTBE, inv_sendCacheInvalidate, p_popIncomingDMARequestQueue]⟩,
    ⟨[M_DWR], [PUTX], M_DWRI, [l_writeDataToMemory, qw_queueMemoryWBRequest_partialTBE, c_clearOwner,
      i_popIncomingRequestQueue]⟩,
    ⟨[M_DWRI], [Memory_Ack], I, [w_writeDataToMemoryFromTBE, l_sendWriteBackAck, da_sendDMAAck, w_deallocateTBE,
      l_popMemQueue]⟩,
    ⟨[M], [GETX], M, [f_forwardRequest, e_ownerIsRequestor, i_popIncomingRequestQueue]⟩,
    ⟨[M], [PUTX], MI, [l_writeDataToMemory, c_clearOwner, v_allocateTBEFromRequestNet, l_queueMemoryWBRequest,
      i_popIncomingRequestQueue]⟩,
    ⟨[MI], [Memory_Ack], I, [w_writeDataToMemoryFromTBE, l_sendWriteBackAck, w_deallocateTBE, l_popMemQueue]⟩,
    ⟨[M], [PUTX_NotOwner], M, [b_sendWriteBackNack, i_popIncomingRequestQueue]⟩,
    ⟨[I], [PUTX_NotOwner], I, [b_sendWriteBackNack, i_popIncomingRequestQueue]⟩ ]

end Dir

/-- The entry of the directory, and its TBE. -/
structure Directory (ι : Type) where
  directoryState : Dir.State := .I
  dataBlk : DataBlock
  sharers : Finset (MachineID ι) := ∅
  owner : Finset (MachineID ι) := ∅
  tbe : Option Dir.TBE := none

/-- Everything about one block; `useMap` is `m_use_map` of the memory of the directory. -/
structure Block (ι : Type) where
  useMap : Bool
  l1 : ι → L1
  dir : Directory ι
  requestToDir : List (RequestMsg ι)
  forwardToCache : ι → List (RequestMsg ι)
  responseToCache : ι → List ResponseMsg
  memBuffer : List (MemoryMsg ι)
  dmaRequestToDir : List DMARequestMsg
  dmaResponseFromDir : List DMAResponseMsg
  log : List (Access ι)

/-- Whether the directory keeps its entries in a map, and what the memory of the system has. -/
structure Start where
  useMap : Bool := false
  ram : DataBlock

/-- A new entry of the map is cleared; other entries point into the memory of the system. -/
def Start.dataBlk (d : Start) : DataBlock := if d.useMap then fun _ => 0 else d.ram

namespace Block

variable {ι : Type} [DecidableEq ι]

def init (d : Start) : Block ι where
  useMap := d.useMap
  l1 := fun _ => {}
  dir := { dataBlk := d.dataBlk }
  requestToDir := []
  forwardToCache := fun _ => []
  responseToCache := fun _ => []
  memBuffer := []
  dmaRequestToDir := []
  dmaResponseFromDir := []
  log := []

def setL1 (s : Block ι) (i : ι) (l : L1) : Block ι := { s with l1 := update s.l1 i l }

/-- Send to caches on the forward network. -/
def enqueueForward (s : Block ι) (dest : Finset (MachineID ι)) (m : RequestMsg ι) : Block ι :=
  { s with forwardToCache := fun j => if .L1Cache j ∈ dest then s.forwardToCache j ++ [m] else s.forwardToCache j }

/-- Send to a cache on the response network; the directory has no response buffer. -/
def enqueueResponse (s : Block ι) (dest : MachineID ι) (m : ResponseMsg) : Except Fault (Block ι) :=
  match dest with
  | .L1Cache j => .ok { s with responseToCache := update s.responseToCache j (s.responseToCache j ++ [m]) }
  | .Directory => .error .error

/-! ## The L1 cache -/

open L1.Action in
/-- The actions of the L1 cache `i`; `write` is what the sequencer writes into the block when its store completes. -/
def l1Act (i : ι) (write : DataBlock → DataBlock) (a : L1.Action) (s : Block ι) : Except Fault (Block ι) :=
  let l := s.l1 i
  match a with
  | a_issueRequest => .ok { s with requestToDir := s.requestToDir ++ [{ type := .GETX, requestor := .L1Cache i }] }
  | b_issuePUT => do
    let e ← present l.entry
    .ok { s with requestToDir :=
      s.requestToDir ++ [{ type := .PUTX, requestor := .L1Cache i, dataBlk := e.dataBlk }] }
  | e_sendData => do
    let m ← present (s.forwardToCache i).head?
    let e ← present l.entry
    s.enqueueResponse m.requestor { type := .DATA, dataBlk := e.dataBlk }
  | ee_sendDataFromTBE => do
    let m ← present (s.forwardToCache i).head?
    let t ← present l.tbe
    s.enqueueResponse m.requestor { type := .DATA, dataBlk := t.dataBlk }
  | i_allocateL1CacheBlock => .ok (s.setL1 i { l with entry := some (l.entry.getD {}) })
  | h_deallocateL1CacheBlock => .ok (s.setL1 i { l with entry := none })
  | n_popResponseQueue =>
    .ok { s with responseToCache := update s.responseToCache i (s.responseToCache i).tail }
  | o_popForwardedRequestQueue =>
    .ok { s with forwardToCache := update s.forwardToCache i (s.forwardToCache i).tail }
  | r_load_hit => do
    let e ← present l.entry
    .ok { s with log := s.log ++ [.load i e.dataBlk] }
  | s_store_hit => do
    let e ← present l.entry
    .ok { s.setL1 i { l with entry := some { e with dataBlk := write e.dataBlk } } with
      log := s.log ++ [.store i (write e.dataBlk)] }
  | u_writeDataToCache => do
    let m ← present (s.responseToCache i).head?
    let e ← present l.entry
    .ok (s.setL1 i { l with entry := some { e with dataBlk := m.dataBlk } })
  | v_allocateTBE => do
    ensure .assert l.tbe.isNone
    .ok (s.setL1 i { l with tbe := some {} })
  | w_deallocateTBE => do
    ensure .assert l.tbe.isSome
    .ok (s.setL1 i { l with tbe := none })
  | x_copyDataFromCacheToTBE => do
    let t ← present l.tbe
    let e ← present l.entry
    .ok (s.setL1 i { l with tbe := some { t with dataBlk := e.dataBlk } })
  -- the mandatory queue is the environment's, and profiling has no effect
  | m_popMandatoryQueue | p_profileMiss | z_stall => .ok s

def l1Cache (i : ι) (write : DataBlock → DataBlock) : Controller (Block ι) Fault L1.State L1.Event L1.Action where
  rules := L1.rules
  getState s := .ok (s.l1 i).getState
  setState s q := .ok (s.setL1 i ((s.l1 i).setState q))
  act := l1Act i write
  stall a := a = .z_stall
  invalid := .invalidTransition

/-! ## The directory -/

def dirState (s : Block ι) : Dir.State :=
  match s.dir.tbe with
  | some t => t.tbeState
  | none => s.dir.directoryState

/-- `DirectoryMemory::invalidateBlock`: the map loses the entry with its data, and the next lookup makes a new one. -/
def invalidateBlock (s : Block ι) : Block ι :=
  if s.useMap then { s with dir := { dataBlk := fun _ => 0, tbe := s.dir.tbe } } else s

def setDirState (s : Block ι) (q : Dir.State) : Except Fault (Block ι) := do
  ensure .assert (q = .M → s.dir.owner.card = 1 ∧ s.dir.sharers.card = 0)
  ensure .assert (q = .I → s.dir.owner.card = 0 ∧ s.dir.sharers.card = 0)
  let s := { s with dir := { s.dir with
    directoryState := q
    tbe := s.dir.tbe.map fun t => { t with tbeState := q } } }
  .ok (if q = .I then s.invalidateBlock else s)

def setDirTBE (s : Block ι) (t : Option Dir.TBE) : Block ι := { s with dir := { s.dir with tbe := t } }

open Dir.Action in
def dirAct (a : Dir.Action) (s : Block ι) : Except Fault (Block ι) :=
  let d := s.dir
  match a with
  | a_sendWriteBackAck => do
    let m ← present s.requestToDir.head?
    .ok (s.enqueueForward {m.requestor} { type := .WB_ACK, requestor := m.requestor })
  | l_sendWriteBackAck => do
    let m ← present s.memBuffer.head?
    let r ← present m.originalRequestorMachId
    .ok (s.enqueueForward {r} { type := .WB_ACK, requestor := r })
  | b_sendWriteBackNack => do
    let m ← present s.requestToDir.head?
    .ok (s.enqueueForward {m.requestor} { type := .WB_NACK, requestor := m.requestor })
  | c_clearOwner => .ok { s with dir := { d with owner := ∅ } }
  | d_sendData => do
    let m ← present s.memBuffer.head?
    let r ← present m.originalRequestorMachId
    s.enqueueResponse r { type := .DATA, dataBlk := m.dataBlk }
  | dr_sendDMAData => do
    let m ← present s.memBuffer.head?
    let t ← present d.tbe
    .ok { s with dmaResponseFromDir := s.dmaResponseFromDir ++
      [{ type := .DATA, dataBlk := m.dataBlk, destination := t.dmaRequestor }] }
  | drp_sendDMAData => do
    let m ← present s.requestToDir.head?
    let t ← present d.tbe
    .ok { s with dmaResponseFromDir := s.dmaResponseFromDir ++
      [{ type := .DATA, dataBlk := m.dataBlk, destination := t.dmaRequestor }] }
  | da_sendDMAAck => do
    let t ← present d.tbe
    .ok { s with dmaResponseFromDir := s.dmaResponseFromDir ++ [{ type := .ACK, destination := t.dmaRequestor }] }
  | e_ownerIsRequestor => do
    let m ← present s.requestToDir.head?
    .ok { s with dir := { d with owner := {m.requestor} } }
  | f_forwardRequest => do
    let m ← present s.requestToDir.head?
    .ok (s.enqueueForward d.owner { type := m.type, requestor := m.requestor })
  | inv_sendCacheInvalidate => do
    let _ ← present s.dmaRequestToDir.head?
    .ok (s.enqueueForward d.owner { type := .INV, requestor := .Directory })
  | i_popIncomingRequestQueue => .ok { s with requestToDir := s.requestToDir.tail }
  | p_popIncomingDMARequestQueue => .ok { s with dmaRequestToDir := s.dmaRequestToDir.tail }
  | l_writeDataToMemory => do
    let m ← present s.requestToDir.head?
    .ok { s with dir := { d with dataBlk := m.dataBlk } }
  | dwt_writeDMADataFromTBE | w_writeDataToMemoryFromTBE => do
    let t ← present d.tbe
    .ok { s with dir := { d with dataBlk := d.dataBlk.copyPartial t.dataBlk t.physicalAddress t.len } }
  | v_allocateTBE => do
    let m ← present s.dmaRequestToDir.head?
    ensure .assert d.tbe.isNone
    .ok <| s.setDirTBE <| some
      { dataBlk := m.dataBlk, physicalAddress := m.physicalAddress, len := m.len, dmaRequestor := m.requestor }
  | r_allocateTbeForDmaRead => do
    let m ← present s.dmaRequestToDir.head?
    ensure .assert d.tbe.isNone
    .ok (s.setDirTBE (some { dmaRequestor := m.requestor }))
  | v_allocateTBEFromRequestNet => do
    let m ← present s.requestToDir.head?
    ensure .assert d.tbe.isNone
    -- the address and the length keep their default values
    .ok (s.setDirTBE (some { dataBlk := m.dataBlk }))
  | w_deallocateTBE => do
    ensure .assert d.tbe.isSome
    .ok (s.setDirTBE none)
  | z_recycleRequestQueue => .ok { s with requestToDir := s.requestToDir.tail ++ s.requestToDir.head?.toList }
  | y_recycleDMARequestQueue =>
    .ok { s with dmaRequestToDir := s.dmaRequestToDir.tail ++ s.dmaRequestToDir.head?.toList }
  | qf_queueMemoryFetchRequest => do
    let m ← present s.requestToDir.head?
    .ok { s with memBuffer := s.memBuffer ++
      [{ type := .MEMORY_READ, originalRequestorMachId := m.requestor, dataBlk := d.dataBlk }] }
  | qf_queueMemoryFetchRequestDMA =>
    .ok { s with memBuffer := s.memBuffer ++ [{ type := .MEMORY_READ, dataBlk := d.dataBlk }] }
  | qw_queueMemoryWBRequest_partial => do
    let m ← present s.dmaRequestToDir.head?
    let b := .copyPartial (fun _ => 0) m.dataBlk m.physicalAddress m.len
    .ok { s with memBuffer := s.memBuffer ++ [{ type := .MEMORY_WB, dataBlk := b }] }
  | qw_queueMemoryWBRequest_partialTBE => do
    let m ← present s.requestToDir.head?
    let t ← present d.tbe
    let b := .copyPartial (fun _ => 0) t.dataBlk t.physicalAddress t.len
    .ok { s with memBuffer := s.memBuffer ++
      [{ type := .MEMORY_WB, originalRequestorMachId := m.requestor, dataBlk := b }] }
  | l_queueMemoryWBRequest => do
    let m ← present s.requestToDir.head?
    .ok { s with memBuffer := s.memBuffer ++
      [{ type := .MEMORY_WB, originalRequestorMachId := m.requestor, dataBlk := m.dataBlk }] }
  | l_popMemQueue => .ok { s with memBuffer := s.memBuffer.tail }

def directory : Controller (Block ι) Fault Dir.State Dir.Event Dir.Action where
  rules := Dir.rules
  getState s := .ok s.dirState
  setState := setDirState
  act := dirAct
  stall _ := false
  invalid := .invalidTransition

/-! ## Input ports -/

def forwardRequestNetworkIn (i : ι) (write : DataBlock → DataBlock) (s : Block ι) : Except Fault (Block ι) :=
  match s.forwardToCache i with
  | [] => .ok s
  | m :: _ =>
    match m.type with
    | .GETX => (l1Cache i write).trigger .Fwd_GETX s
    | .WB_ACK => (l1Cache i write).trigger .Writeback_Ack s
    | .WB_NACK => (l1Cache i write).trigger .Writeback_Nack s
    | .INV => (l1Cache i write).trigger .Inv s
    | _ => .error .error

def responseNetworkIn (i : ι) (write : DataBlock → DataBlock) (s : Block ι) : Except Fault (Block ι) :=
  match s.responseToCache i with
  | [] => .ok s
  | m :: _ => if m.type = .DATA then (l1Cache i write).trigger .Data s else .error .error

def requestQueueIn (s : Block ι) : Except Fault (Block ι) :=
  match s.requestToDir with
  | [] => .ok s
  | m :: _ =>
    match m.type with
    | .GETS => directory.trigger .GETS s
    | .GETX => directory.trigger .GETX s
    | .PUTX => directory.trigger (if m.requestor ∈ s.dir.owner then .PUTX else .PUTX_NotOwner) s
    | _ => .error .error

def memQueueIn (s : Block ι) : Except Fault (Block ι) :=
  match s.memBuffer with
  | [] => .ok s
  | m :: _ =>
    match m.type with
    | .MEMORY_READ => directory.trigger .Memory_Data s
    | .MEMORY_WB => directory.trigger .Memory_Ack s

def dmaRequestQueueIn (s : Block ι) : Except Fault (Block ι) :=
  match s.dmaRequestToDir with
  | [] => .ok s
  | m :: _ =>
    match m.type with
    | .READ => directory.trigger .DMA_READ s
    | .WRITE => directory.trigger .DMA_WRITE s
    | .NULL => .error .error

end Block

/-! ## Steps -/

/-- What a processor and the replacement policy ask of an L1 cache. -/
inductive Mandatory
  | Load | Ifetch | Store | Replacement
deriving DecidableEq

def Mandatory.event : Mandatory → L1.Event
  | .Load => .Load
  | .Ifetch => .Ifetch
  | .Store => .Store
  | .Replacement => .Replacement

/-- The input ports, and what the networks and the memory do. -/
inductive Label (ι : Type)
  | mandatory (i : ι) (e : Mandatory) (write : DataBlock → DataBlock)
  | forward (i : ι) (write : DataBlock → DataBlock)
  | response (i : ι) (write : DataBlock → DataBlock)
  | request
  | memory
  | dmaRequest
  /-- Messages arrive in another order. -/
  | reorderRequests (l : List (RequestMsg ι))
  | reorderResponses (i : ι) (l : List ResponseMsg)
  | reorderMemory (l : List (MemoryMsg ι))

variable {ι : Type} [DecidableEq ι]

namespace Block

def handle (s : Block ι) : Label ι → Except Fault (Block ι)
  | .mandatory i e write => (l1Cache i write).trigger e.event s
  | .forward i write => s.forwardRequestNetworkIn i write
  | .response i write => s.responseNetworkIn i write
  | .request => s.requestQueueIn
  | .memory => s.memQueueIn
  | .dmaRequest => s.dmaRequestQueueIn
  | .reorderRequests l => .ok { s with requestToDir := l }
  | .reorderResponses i l => .ok { s with responseToCache := update s.responseToCache i l }
  | .reorderMemory l => .ok { s with memBuffer := l }

/-- Reordering neither loses nor makes up messages. -/
def Admits (s : Block ι) : Label ι → Prop
  | .reorderRequests l => l.Perm s.requestToDir
  | .reorderResponses i l => l.Perm (s.responseToCache i)
  | .reorderMemory l => l.Perm s.memBuffer
  | _ => True

def Step (s : Block ι) (l : Label ι) (s' : Block ι) : Prop := s.Admits l ∧ s.handle l = .ok s'

end Block

abbrev System (ι : Type) := Nat → Block ι

/-- One step of the system: at the block of this address. -/
def Step (s : System ι) (l : Nat × Label ι) (s' : System ι) : Prop :=
  ∃ b, (s l.1).Step l.2 b ∧ s' = update s l.1 b

end MIExample

end M5.Ruby
