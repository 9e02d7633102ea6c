import M5.Lib.Check
import M5.Ruby.Common
import Mathlib.Data.Finset.Basic
import Mathlib.Data.List.FinRange
import Mathlib.Logic.Function.Basic

/-!
# MOESI_CMP_token: messages and the state of a block

`MOESI_CMP_token-msg.sm` and `PersistentTable.cc`. There are `n` L1 caches, one L2 bank and, for every block, one
directory. The networks for requests and responses deliver in any order; persistent requests stay in order between two
machines. The message that is handled is the first of its list; sent messages are added at the end.

A processor and the directory issue one persistent request at a time, over all blocks: `l1Starving` and `dirStarving`
are loaded when a block takes a step. The table of persistent requests of a machine is kept for each block on its own.
-/

namespace M5.Ruby.Token

open M5.Lib Function

inductive MachineID (n : Nat)
  | L1Cache (i : Fin n)
  | L2Cache
  | Directory
deriving DecidableEq

/-- `machineIDToNodeID`. -/
def MachineID.nodeID {n : Nat} : MachineID n → Nat
  | L1Cache i => i
  | L2Cache | Directory => 0

/-! ## Messages -/

inductive CoherenceRequestType
  | GETX | GETS
deriving DecidableEq

inductive PersistentRequestType
  | GETX_PERSISTENT | GETS_PERSISTENT | DEACTIVATE_PERSISTENT
deriving DecidableEq

inductive CoherenceResponseType
  | DATA_OWNER | ACK_OWNER | DATA_SHARED | ACK | WB_TOKENS | WB_SHARED_DATA | WB_OWNED | INV
deriving DecidableEq

inductive MessageSizeType
  | Writeback_Data | Writeback_Control | Response_Data | Response_Control | ResponseLocal_Data | ResponseL2hit_Data
deriving DecidableEq

structure PersistentMsg (n : Nat) where
  type : PersistentRequestType
  requestor : MachineID n

structure RequestMsg (n : Nat) where
  type : CoherenceRequestType
  requestor : MachineID n
  isLocal : Bool := false
  retryNum : Nat := 0

/-- The size of a data response to the request. -/
def RequestMsg.dataSize {n : Nat} (r : RequestMsg n) : MessageSizeType :=
  if r.isLocal then .ResponseLocal_Data else .Response_Data

structure ResponseMsg (n : Nat) where
  type : CoherenceResponseType
  sender : MachineID n
  destination : MachineID n
  tokens : Int
  dataBlk : DataBlock := fun _ => 0
  dirty : Bool := false
  messageSize : MessageSizeType

inductive MemoryRequestType
  | MEMORY_READ | MEMORY_WB
deriving DecidableEq

/-- Without a requestor when it is a DMA controller, or when nobody waits. -/
structure MemoryMsg (n : Nat) where
  type : MemoryRequestType
  originalRequestorMachId : Option (MachineID n) := none
  dataBlk : DataBlock := fun _ => 0

/-! ## Persistent requests -/

inductive AccessType
  | Read | Write
deriving DecidableEq

def smallestElement {n : Nat} (s : Finset (MachineID n)) : Except Fault (MachineID n) :=
  let machines : List (MachineID n) := (List.finRange n).map .L1Cache ++ [.L2Cache, .Directory]
  present (machines.find? fun m => decide (m ∈ s))

structure PersistentTableEntry (n : Nat) where
  starving : Finset (MachineID n)
  marked : Finset (MachineID n) := ∅
  requestToWrite : Finset (MachineID n) := ∅

/-- The entry of a block, if there is one. -/
abbrev PersistentTable (n : Nat) := Option (PersistentTableEntry n)

namespace PersistentTable

variable {n : Nat}

section

variable (t : PersistentTable n)

def persistentRequestLock (locker : MachineID n) (type : AccessType) : Except Fault (PersistentTable n) :=
  match t with
  | none => .ok (some { starving := {locker}, requestToWrite := if type = .Write then {locker} else ∅ })
  | some e => do
    ensure .assert (locker ∉ e.starving)
    let e' := { e with
      starving := insert locker e.starving
      requestToWrite := if type = .Write then insert locker e.requestToWrite else e.requestToWrite }
    ensure .assert (e'.marked ⊆ e'.starving)
    .ok (some e')

def persistentRequestUnlock (unlocker : MachineID n) : Except Fault (PersistentTable n) := do
  let e ← present t
  ensure .assert (unlocker ∈ e.starving)
  ensure .assert (e.marked ⊆ e.starving)
  let e' := { e with
    starving := e.starving.erase unlocker
    marked := e.marked.erase unlocker
    requestToWrite := e.requestToWrite.erase unlocker }
  ensure .assert (e'.marked ⊆ e'.starving)
  if e'.starving = ∅ then do
    ensure .assert (e'.marked = ∅)
    .ok none
  else
    .ok (some e')

def okToIssueStarving (m : MachineID n) : Bool :=
  match t with
  | none => true
  | some e => decide (m ∉ e.starving ∧ e.marked = ∅)

def findSmallest : Except Fault (MachineID n) := do
  let e ← present t
  smallestElement e.starving

def typeOfSmallest : Except Fault AccessType := do
  let e ← present t
  let m ← smallestElement e.starving
  .ok (if m ∈ e.requestToWrite then .Write else .Read)

def markEntries : Except Fault (PersistentTable n) :=
  match t with
  | none => .ok none
  | some e => do
    ensure .assert (e.marked = ∅)
    .ok (some { e with marked := e.starving })

def isLocked : Bool := t.isSome

/-- What the input ports for persistent messages do to the table. -/
def update (m : PersistentMsg n) : Except Fault (PersistentTable n) :=
  match m.type with
  | .GETX_PERSISTENT => t.persistentRequestLock m.requestor .Write
  | .GETS_PERSISTENT => t.persistentRequestLock m.requestor .Read
  | .DEACTIVATE_PERSISTENT => t.persistentRequestUnlock m.requestor

end

end PersistentTable

/-! ## The state of a block -/

structure Params where
  maxTokens : Int
  nTokens : Int
  blockSize : Nat := 64
  retryThreshold : Nat := 1
  filteringEnabled : Bool := true
  distributedPersistent : Bool := true

/-- `Entry` of the L1 and L2 caches. -/
structure Entry (State : Type) where
  cacheState : State
  dirty : Bool := false
  tokens : Int := 0
  dataBlk : DataBlock := fun _ => 0

/-- A message with the data of an entry. -/
def Entry.msg {State : Type} {n : Nat} (e : Entry State) (type : CoherenceResponseType) (sender dest : MachineID n)
    (tokens : Int) (dirty : Bool) (size : MessageSizeType) : ResponseMsg n :=
  { type, sender, destination := dest, tokens, dataBlk := e.dataBlk, dirty, messageSize := size }

/-- A message with tokens only. -/
def ack {n : Nat} (sender dest : MachineID n) (tokens : Int) (size : MessageSizeType) : ResponseMsg n :=
  { type := .ACK, sender, destination := dest, tokens, messageSize := size }

namespace L1

inductive State
  | NP | I | S | O | M | MM | M_W | MM_W | IM | SM | OM | IS | I_L | S_L | IM_L | SM_L | IS_L
deriving DecidableEq

structure TBE where
  tbeState : State := .I
  issueCount : Nat := 0
  wentPersistent : Bool := false

end L1

structure L1 (n : Nat) where
  dcache : Option (Entry L1.State) := none
  icache : Option (Entry L1.State) := none
  tbe : Option L1.TBE := none
  persistentTable : PersistentTable n := none
  useTimer : Bool := false
  reissueTimer : Bool := false

namespace L2

inductive State
  | NP | I | S | O | M | I_L | S_L
deriving DecidableEq

structure DirEntry where
  sharers : Finset Nat := ∅
  exclusive : Bool := false

end L2

structure L2 (n : Nat) where
  entry : Option (Entry L2.State) := none
  localDirectory : Option L2.DirEntry := none
  persistentTable : PersistentTable n := none

namespace Dir

inductive State
  | O | NO | L | O_W | L_O_W | L_NO_W | DR_L_W | NO_W | O_DW_W | O_DR_W | O_DW | NO_DW | NO_DR | DW_L | DR_L
deriving DecidableEq

structure TBE where
  physicalAddress : Nat := 0
  tbeState : State := .O
  dmaDataBlk : DataBlock := fun _ => 0
  dataBlk : DataBlock := fun _ => 0
  len : Nat := 0
  dmaRequestor : Nat := 0
  wentPersistent : Bool := false

end Dir

structure Directory (n : Nat) where
  directoryState : Dir.State := .O
  dataBlk : DataBlock
  tokens : Int
  tbe : Option Dir.TBE := none
  persistentTable : PersistentTable n := none
  reissueTimer : Bool := false

structure Block (n : Nat) where
  l1 : Fin n → L1 n
  l2 : L2 n
  dir : Directory n
  /-- Virtual network 4. -/
  responses : List (ResponseMsg n)
  /-- Virtual network 1, with the destinations. -/
  requests : List (MachineID n × RequestMsg n)
  /-- Virtual network 2, with the destinations. -/
  globalRequests : List (MachineID n × RequestMsg n)
  /-- Virtual network 3, by source and destination. -/
  persistent : MachineID n → MachineID n → List (PersistentMsg n)
  memBuffer : List (MemoryMsg n)
  dmaRequestToDir : List DMARequestMsg
  dmaResponseFromDir : List DMAResponseMsg
  l1Starving : Fin n → Bool
  dirStarving : Bool
  log : List (Access (Fin n))

namespace Block

variable {n : Nat}

/-- The directory has all tokens, and memory has `d`. -/
def init (p : Params) (d : DataBlock) : Block n where
  l1 := fun _ => {}
  l2 := {}
  dir := { dataBlk := d, tokens := p.maxTokens }
  responses := []
  requests := []
  globalRequests := []
  persistent := fun _ _ => []
  memBuffer := []
  dmaRequestToDir := []
  dmaResponseFromDir := []
  l1Starving := fun _ => false
  dirStarving := false
  log := []

section

variable (s : Block n)

def setL1 (i : Fin n) (l : L1 n) : Block n := { s with l1 := update s.l1 i l }

def setL2 (l : L2 n) : Block n := { s with l2 := l }

def setDir (d : Directory n) : Block n := { s with dir := d }

/-- Send on the response network. -/
def respond (m : ResponseMsg n) : Block n := { s with responses := s.responses ++ [m] }

/-- Send on the request network to several machines. -/
def broadcast (dest : List (MachineID n)) (m : RequestMsg n) : Block n :=
  { s with requests := s.requests ++ dest.map (·, m) }

/-- Send a persistent request of `src` to all machines. -/
def broadcastPersistent (src : MachineID n) (t : PersistentRequestType) : Block n :=
  { s with persistent := update s.persistent src fun dst => s.persistent src dst ++ [⟨t, src⟩] }

/-- The message that is handled. -/
def inResponse : Except Fault (ResponseMsg n) := present s.responses.head?

def inRequest : Except Fault (RequestMsg n) := present (s.requests.head?.map (·.2))

def inGlobalRequest : Except Fault (RequestMsg n) := present (s.globalRequests.head?.map (·.2))

def inDMARequest : Except Fault DMARequestMsg := present s.dmaRequestToDir.head?

def inMemory : Except Fault (MemoryMsg n) := present s.memBuffer.head?

def popResponse : Block n := { s with responses := s.responses.tail }

def popRequest : Block n := { s with requests := s.requests.tail }

def popGlobalRequest : Block n := { s with globalRequests := s.globalRequests.tail }

def popMemory : Block n := { s with memBuffer := s.memBuffer.tail }

def popDMARequest : Block n := { s with dmaRequestToDir := s.dmaRequestToDir.tail }

def popPersistent (src dst : MachineID n) : Block n :=
  let q := update (s.persistent src) dst (s.persistent src dst).tail
  { s with persistent := update s.persistent src q }

end

end Block

end M5.Ruby.Token
