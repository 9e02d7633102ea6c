import M5.Lib.Controller
import M5.Ruby.Token.State

/-!
# MOESI_CMP_token: the directory

`MOESI_CMP_token-dir.sm`. The rules and the actions are the source's, in its order.
-/

namespace M5.Ruby.Token

open M5.Lib

namespace Dir

inductive Event
  | GETX | GETS | Lockdown | Unlockdown | Own_Lock_or_Unlock
  | Data_Owner | Data_All_Tokens | Ack_Owner | Ack_Owner_All_Tokens | Tokens | Ack_All_Tokens | Request_Timeout
  | Memory_Data | Memory_Ack | DMA_READ | DMA_WRITE | DMA_WRITE_All_Tokens
deriving DecidableEq

inductive Action
  | a_sendTokens | px_tryIssuingPersistentGETXRequest | bw_broadcastWrite | ps_tryIssuingPersistentGETSRequest
  | br_broadcastRead | aa_sendTokensToStarver | d_sendMemoryDataWithAllTokens | dd_sendDataWithAllTokensToStarver
  | qf_queueMemoryFetchRequest | qp_queueMemoryForPersistent | fd_memoryDma | lq_queueMemoryWbRequest
  | ld_queueMemoryDmaWriteFromTbe | lr_queueMemoryDmaReadWriteback | vd_allocateDmaRequestInTBE | s_deallocateTBE
  | rd_recordDataInTbe | cd_writeCleanDataToTbe | dwt_writeDmaDataFromTBE | f_incrementTokens
  | j_popIncomingRequestQueue | z_recycleRequest | k_popIncomingResponseQueue | kz_recycleResponse
  | l_popIncomingPersistentQueue | p_popDmaRequestQueue | y_recycleDmaRequestQueue | l_popMemQueue
  | m_writeDataToMemory | n_checkData | r_bounceResponse | st_scheduleTimeout | ut_unsetReissueTimer
  | bd_bounceDatalessOwnerToken | da_sendDmaAck | dm_sendMemoryDataToDma | dd_sendDmaData
deriving DecidableEq

open State Event Dir.Action in
def rules : List (Rule State Event Action) :=
  [ -- O
    ⟨[O], [GETX], NO_W, [qf_queueMemoryFetchRequest, j_popIncomingRequestQueue]⟩,
    ⟨[O], [DMA_WRITE], O_DW, [vd_allocateDmaRequestInTBE, bw_broadcastWrite, st_scheduleTimeout,
      p_popDmaRequestQueue]⟩,
    ⟨[O], [DMA_WRITE_All_Tokens], O_DW_W, [vd_allocateDmaRequestInTBE, cd_writeCleanDataToTbe,
      dwt_writeDmaDataFromTBE, ld_queueMemoryDmaWriteFromTbe, p_popDmaRequestQueue]⟩,
    ⟨[O], [GETS], NO_W, [qf_queueMemoryFetchRequest, j_popIncomingRequestQueue]⟩,
    ⟨[O], [DMA_READ], O_DR_W, [vd_allocateDmaRequestInTBE, fd_memoryDma, st_scheduleTimeout, p_popDmaRequestQueue]⟩,
    ⟨[O], [Lockdown], L_O_W, [qp_queueMemoryForPersistent, l_popIncomingPersistentQueue]⟩,
    ⟨[O], [Tokens, Ack_All_Tokens], none, [f_incrementTokens, k_popIncomingResponseQueue]⟩,
    ⟨[O], [Data_Owner, Data_All_Tokens], none, [n_checkData, f_incrementTokens, k_popIncomingResponseQueue]⟩,
    ⟨[O_DR_W], [Memory_Data], O, [dm_sendMemoryDataToDma, ut_unsetReissueTimer, s_deallocateTBE, l_popMemQueue]⟩,
    -- O_DW
    ⟨[O_DW], [Tokens], none, [f_incrementTokens, k_popIncomingResponseQueue]⟩,
    ⟨[O_DW], [Data_Owner], none, [f_incrementTokens, rd_recordDataInTbe, k_popIncomingResponseQueue]⟩,
    ⟨[O_DW], [Ack_Owner], none, [f_incrementTokens, cd_writeCleanDataToTbe, k_popIncomingResponseQueue]⟩,
    ⟨[O_DW], [Lockdown], DW_L, [l_popIncomingPersistentQueue]⟩,
    ⟨[NO_DW, O_DW], [Data_All_Tokens], O_DW_W, [f_incrementTokens, rd_recordDataInTbe, dwt_writeDmaDataFromTBE,
      ld_queueMemoryDmaWriteFromTbe, ut_unsetReissueTimer, k_popIncomingResponseQueue]⟩,
    ⟨[O_DW], [Ack_All_Tokens], O_DW_W, [f_incrementTokens, dwt_writeDmaDataFromTBE, ld_queueMemoryDmaWriteFromTbe,
      ut_unsetReissueTimer, k_popIncomingResponseQueue]⟩,
    ⟨[O_DW], [Ack_Owner_All_Tokens], O_DW_W, [f_incrementTokens, cd_writeCleanDataToTbe, dwt_writeDmaDataFromTBE,
      ld_queueMemoryDmaWriteFromTbe, ut_unsetReissueTimer, k_popIncomingResponseQueue]⟩,
    ⟨[O_DW_W], [Memory_Ack], O, [da_sendDmaAck, s_deallocateTBE, l_popMemQueue]⟩,
    -- NO
    ⟨[NO], [GETX], none, [a_sendTokens, j_popIncomingRequestQueue]⟩,
    ⟨[NO], [DMA_WRITE], NO_DW, [vd_allocateDmaRequestInTBE, bw_broadcastWrite, st_scheduleTimeout,
      p_popDmaRequestQueue]⟩,
    ⟨[NO], [GETS], none, [j_popIncomingRequestQueue]⟩,
    ⟨[NO], [DMA_READ], NO_DR, [vd_allocateDmaRequestInTBE, br_broadcastRead, st_scheduleTimeout,
      p_popDmaRequestQueue]⟩,
    ⟨[NO], [Lockdown], L, [aa_sendTokensToStarver, l_popIncomingPersistentQueue]⟩,
    ⟨[NO], [Data_Owner, Data_All_Tokens], O_W, [m_writeDataToMemory, f_incrementTokens, lq_queueMemoryWbRequest,
      k_popIncomingResponseQueue]⟩,
    ⟨[NO], [Ack_Owner, Ack_Owner_All_Tokens], O, [n_checkData, f_incrementTokens, k_popIncomingResponseQueue]⟩,
    ⟨[NO], [Tokens], none, [f_incrementTokens, k_popIncomingResponseQueue]⟩,
    ⟨[NO_W], [Memory_Data], NO, [d_sendMemoryDataWithAllTokens, l_popMemQueue]⟩,
    -- NO_DW
    ⟨[NO_DW], [Request_Timeout], none, [ut_unsetReissueTimer, px_tryIssuingPersistentGETXRequest]⟩,
    ⟨[NO_DW], [Lockdown], DW_L, [aa_sendTokensToStarver, l_popIncomingPersistentQueue]⟩,
    ⟨[NO_DW], [Data_Owner], O_DW, [f_incrementTokens, rd_recordDataInTbe, lq_queueMemoryWbRequest,
      k_popIncomingResponseQueue]⟩,
    ⟨[NO_DW, NO_DR], [Tokens], none, [f_incrementTokens, k_popIncomingResponseQueue]⟩,
    -- NO_DR
    ⟨[NO_DR], [Request_Timeout], none, [ut_unsetReissueTimer, ps_tryIssuingPersistentGETSRequest]⟩,
    ⟨[NO_DR], [Lockdown], DR_L, [aa_sendTokensToStarver, l_popIncomingPersistentQueue]⟩,
    ⟨[NO_DR], [Data_Owner, Data_All_Tokens], O_W, [m_writeDataToMemory, f_incrementTokens, dd_sendDmaData,
      lr_queueMemoryDmaReadWriteback, ut_unsetReissueTimer, s_deallocateTBE, k_popIncomingResponseQueue]⟩,
    -- L
    ⟨[L, DW_L, DR_L], [GETX, GETS], none, [j_popIncomingRequestQueue]⟩,
    ⟨[L, DW_L, DR_L, L_O_W, L_NO_W, DR_L_W], [Lockdown], none, [l_popIncomingPersistentQueue]⟩,
    ⟨[DW_L, DR_L, L], [Data_Owner, Data_All_Tokens], none, [r_bounceResponse, k_popIncomingResponseQueue]⟩,
    ⟨[DW_L, DR_L, L], [Tokens], none, [r_bounceResponse, k_popIncomingResponseQueue]⟩,
    ⟨[DW_L, DR_L, L], [Ack_Owner_All_Tokens, Ack_Owner], none, [bd_bounceDatalessOwnerToken,
      k_popIncomingResponseQueue]⟩,
    ⟨[L], [Unlockdown], NO, [l_popIncomingPersistentQueue]⟩,
    ⟨[L_NO_W, L_O_W], [Memory_Data], L, [dd_sendDataWithAllTokensToStarver, l_popMemQueue]⟩,
    ⟨[L_O_W], [Memory_Ack], none, [qp_queueMemoryForPersistent, l_popMemQueue]⟩,
    ⟨[L_O_W], [Unlockdown, Own_Lock_or_Unlock], O_W, [l_popIncomingPersistentQueue]⟩,
    ⟨[L_NO_W], [Unlockdown, Own_Lock_or_Unlock], NO_W, [l_popIncomingPersistentQueue]⟩,
    ⟨[DR_L_W], [Memory_Data], DR_L, [dd_sendDataWithAllTokensToStarver, l_popMemQueue]⟩,
    ⟨[DW_L], [Unlockdown, Own_Lock_or_Unlock], NO_DW, [l_popIncomingPersistentQueue]⟩,
    ⟨[DR_L_W], [Unlockdown, Own_Lock_or_Unlock], O_DR_W, [l_popIncomingPersistentQueue]⟩,
    ⟨[DW_L, DR_L_W], [Request_Timeout], none, [ut_unsetReissueTimer, px_tryIssuingPersistentGETXRequest]⟩,
    ⟨[DR_L], [Unlockdown, Own_Lock_or_Unlock], NO_DR, [l_popIncomingPersistentQueue]⟩,
    ⟨[DR_L], [Request_Timeout], none, [ut_unsetReissueTimer, ps_tryIssuingPersistentGETSRequest]⟩,
    ⟨[O_W], [Memory_Ack, Memory_Data], O, [l_popMemQueue]⟩,
    ⟨[O, NO, L, O_DW, NO_DW, NO_DR], [Own_Lock_or_Unlock], none, [l_popIncomingPersistentQueue]⟩,
    -- blocked states
    ⟨[NO_W, O_W, L_O_W, L_NO_W, DR_L_W, O_DW_W, O_DR_W, O_DW, NO_DW, NO_DR], [GETX, GETS], none, [z_recycleRequest]⟩,
    ⟨[NO_W, O_W, L_O_W, L_NO_W, DR_L_W, O_DW_W, O_DR_W, O_DW, NO_DW, NO_DR, L, DW_L, DR_L], [DMA_READ, DMA_WRITE],
      none, [y_recycleDmaRequestQueue]⟩,
    ⟨[NO_W, O_W, L_O_W, L_NO_W, DR_L_W, O_DW_W, O_DR_W], [Data_Owner, Ack_Owner, Tokens, Ack_All_Tokens], none,
      [kz_recycleResponse]⟩,
    ⟨[NO_W], [Lockdown], L_NO_W, [l_popIncomingPersistentQueue]⟩,
    ⟨[O_W], [Lockdown], L_O_W, [l_popIncomingPersistentQueue]⟩,
    ⟨[O_DR_W], [Lockdown], DR_L_W, [l_popIncomingPersistentQueue]⟩,
    ⟨[NO_W, O_W, O_DR_W], [Unlockdown, Own_Lock_or_Unlock], none, [l_popIncomingPersistentQueue]⟩ ]

/-- The block that a DMA write leaves: the TBE's view of memory with the bytes of the write. -/
def TBE.written (t : TBE) : DataBlock := t.dataBlk.copyPartial t.dmaDataBlk t.physicalAddress t.len

end Dir

namespace Directory

variable {n : Nat}

def getState (d : Directory n) : Dir.State :=
  match d.tbe with
  | some t => t.tbeState
  | none => d.directoryState

def setState (p : Params) (d : Directory n) (q : Dir.State) : Except Fault (Directory n) := do
  ensure .assert (q = .L → d.tokens = 0)
  ensure .assert (0 ≤ d.tokens)
  ensure .assert (d.tokens ≤ p.maxTokens)
  ensure .assert (q = .O → 1 ≤ d.tokens)
  .ok { d with directoryState := q, tbe := d.tbe.map fun t => { t with tbeState := q } }

end Directory

namespace Block

variable {n : Nat}

variable (s : Block n)

/-- The directory sends `m`, and `k` tokens are left. -/
def dirSend (m : ResponseMsg n) (k : Int) : Block n :=
  (s.setDir { s.dir with tokens := k }).respond m

/-- Data of the directory's memory, clean. -/
def dirData (dest : MachineID n) (tokens : Int) : ResponseMsg n where
  type := .DATA_OWNER
  sender := .Directory
  destination := dest
  tokens := tokens
  dataBlk := s.dir.dataBlk
  messageSize := .Response_Data

def dirSetReissueTimer : Except Fault (Block n) := do
  ensure .assert (s.dir.reissueTimer = false)
  .ok (s.setDir { s.dir with reissueTimer := true })

/-- What `px_tryIssuingPersistentGETXRequest` and `ps_tryIssuingPersistentGETSRequest` have in common. -/
def dirTryIssuingPersistent (t : PersistentRequestType) : Except Fault (Block n) := do
  if s.dir.persistentTable.okToIssueStarving .Directory ∧ s.dirStarving = false then do
    let table ← s.dir.persistentTable.markEntries
    let tbe ← present s.dir.tbe
    let s := s.broadcastPersistent .Directory t
    let s := s.setDir { s.dir with persistentTable := table, tbe := some { tbe with wentPersistent := true } }
    .ok { s with dirStarving := true }
  else
    s.dirSetReissueTimer

/-- What `bw_broadcastWrite` and `br_broadcastRead` have in common. -/
def dirBroadcast (t : CoherenceRequestType) : Block n :=
  s.broadcast ((List.finRange n).map .L1Cache ++ [.L2Cache]) { type := t, requestor := .Directory }

/-- Queue a message to the memory controller. -/
def queueMemory (m : MemoryMsg n) : Block n := { s with memBuffer := s.memBuffer ++ [m] }

def respondDMA (m : DMAResponseMsg) : Block n :=
  { s with dmaResponseFromDir := s.dmaResponseFromDir ++ [m] }

open Dir.Action in
/-- The actions of the directory. A persistent request that is handled has come from `src`. -/
def dirAct (p : Params) (src : MachineID n) (a : Dir.Action) (s : Block n) : Except Fault (Block n) :=
  let d := s.dir
  match a with
  | a_sendTokens =>
    if d.tokens > 0 then do
      let r ← s.inGlobalRequest
      .ok (s.dirSend (ack .Directory r.requestor d.tokens .Response_Control) 0)
    else
      .ok s
  | px_tryIssuingPersistentGETXRequest => s.dirTryIssuingPersistent .GETX_PERSISTENT
  | bw_broadcastWrite => do
    let _ ← s.inDMARequest
    ensure .assert (d.tokens ≠ p.maxTokens)
    .ok (s.dirBroadcast .GETX)
  | ps_tryIssuingPersistentGETSRequest => s.dirTryIssuingPersistent .GETS_PERSISTENT
  | br_broadcastRead => do
    let _ ← s.inDMARequest
    .ok (s.dirBroadcast .GETS)
  | aa_sendTokensToStarver =>
    if d.tokens > 0 then do
      let starver ← d.persistentTable.findSmallest
      .ok (s.dirSend (ack .Directory starver d.tokens .Response_Control) 0)
    else
      .ok s
  | d_sendMemoryDataWithAllTokens => do
    let m ← s.inMemory
    let dest ← present m.originalRequestorMachId
    ensure .assert (0 < d.tokens)
    .ok (s.dirSend (s.dirData dest d.tokens) 0)
  | dd_sendDataWithAllTokensToStarver => do
    let _ ← s.inMemory
    let starver ← d.persistentTable.findSmallest
    ensure .assert (0 < d.tokens)
    .ok (s.dirSend (s.dirData starver d.tokens) 0)
  | qf_queueMemoryFetchRequest => do
    let r ← s.inGlobalRequest
    .ok (s.queueMemory ⟨.MEMORY_READ, some r.requestor, d.dataBlk⟩)
  | qp_queueMemoryForPersistent => do
    let starver ← d.persistentTable.findSmallest
    .ok (s.queueMemory ⟨.MEMORY_READ, some starver, d.dataBlk⟩)
  | fd_memoryDma => do
    let _ ← s.inDMARequest
    .ok (s.queueMemory ⟨.MEMORY_READ, none, d.dataBlk⟩)
  | lq_queueMemoryWbRequest => .ok (s.queueMemory { type := .MEMORY_WB })
  | ld_queueMemoryDmaWriteFromTbe => do
    let t ← present d.tbe
    .ok (s.queueMemory ⟨.MEMORY_WB, none, t.written⟩)
  | lr_queueMemoryDmaReadWriteback => do
    let t ← present d.tbe
    .ok (s.queueMemory ⟨.MEMORY_WB, none, t.dataBlk⟩)
  | vd_allocateDmaRequestInTBE => do
    let m ← s.inDMARequest
    ensure .assert d.tbe.isNone
    let t : Dir.TBE :=
      { dmaDataBlk := m.dataBlk, physicalAddress := m.physicalAddress, len := m.len, dmaRequestor := m.requestor }
    .ok (s.setDir { d with tbe := some t })
  | s_deallocateTBE => do
    let t ← present d.tbe
    let s := s.setDir { d with tbe := none }
    if t.wentPersistent then do
      ensure .assert s.dirStarving
      .ok { s.broadcastPersistent .Directory .DEACTIVATE_PERSISTENT with dirStarving := false }
    else
      .ok s
  | rd_recordDataInTbe => do
    let m ← s.inResponse
    let t ← present d.tbe
    .ok (s.setDir { d with tbe := some { t with dataBlk := m.dataBlk } })
  | cd_writeCleanDataToTbe => do
    let t ← present d.tbe
    .ok (s.setDir { d with tbe := some { t with dataBlk := d.dataBlk } })
  | dwt_writeDmaDataFromTBE => do
    let t ← present d.tbe
    .ok (s.setDir { d with dataBlk := t.written })
  | f_incrementTokens => do
    let m ← s.inResponse
    ensure .assert (1 ≤ m.tokens)
    .ok (s.setDir { d with tokens := d.tokens + m.tokens })
  | j_popIncomingRequestQueue => .ok s.popGlobalRequest
  | z_recycleRequest => .ok { s with globalRequests := s.globalRequests.tail ++ s.globalRequests.head?.toList }
  | k_popIncomingResponseQueue => .ok s.popResponse
  | kz_recycleResponse => .ok { s with responses := s.responses.tail ++ s.responses.head?.toList }
  | l_popIncomingPersistentQueue => .ok (s.popPersistent src .Directory)
  | p_popDmaRequestQueue => .ok s.popDMARequest
  | y_recycleDmaRequestQueue =>
    .ok { s with dmaRequestToDir := s.dmaRequestToDir.tail ++ s.dmaRequestToDir.head?.toList }
  | l_popMemQueue => .ok s.popMemory
  | m_writeDataToMemory => do
    let m ← s.inResponse
    .ok (s.setDir { d with dataBlk := m.dataBlk })
  | n_checkData => do
    let m ← s.inResponse
    ensure .assert (d.dataBlk.equal p.blockSize m.dataBlk)
    .ok s
  | r_bounceResponse => do
    let m ← s.inResponse
    let starver ← d.persistentTable.findSmallest
    .ok (s.respond { m with sender := .Directory, destination := starver })
  | st_scheduleTimeout => s.dirSetReissueTimer
  | ut_unsetReissueTimer => .ok (s.setDir { d with reissueTimer := false })
  | bd_bounceDatalessOwnerToken => do
    let m ← s.inResponse
    ensure .assert (m.type = .ACK_OWNER)
    ensure .assert (m.dirty = false)
    ensure .assert (m.messageSize = .Writeback_Control)
    ensure .assert (d.dataBlk.equal p.blockSize m.dataBlk)
    let starver ← d.persistentTable.findSmallest
    .ok (s.respond { s.dirData starver m.tokens with dirty := m.dirty })
  | da_sendDmaAck => do
    let t ← present d.tbe
    .ok (s.respondDMA { type := .ACK, destination := t.dmaRequestor })
  | dm_sendMemoryDataToDma => do
    let m ← s.inMemory
    let t ← present d.tbe
    .ok (s.respondDMA { type := .DATA, dataBlk := m.dataBlk, destination := t.dmaRequestor })
  | dd_sendDmaData => do
    let m ← s.inResponse
    let t ← present d.tbe
    .ok (s.respondDMA { type := .DATA, dataBlk := m.dataBlk, destination := t.dmaRequestor })

def directory (p : Params) (src : MachineID n) : Controller (Block n) Fault Dir.State Dir.Event Dir.Action where
  rules := Dir.rules
  getState s := .ok s.dir.getState
  setState s q := do
    let d ← s.dir.setState p q
    .ok (s.setDir d)
  act := dirAct p src
  stall _ := false
  invalid := .invalidTransition

/-! ## Input ports of the directory -/

section ports

variable (p : Params) (s : Block n)

/-- An event that is not about a persistent request. -/
def dirTrigger (e : Dir.Event) : Except Fault (Block n) := (directory p .Directory).trigger e s

def memQueueIn (m : MemoryMsg n) : Except Fault (Block n) :=
  match m.type with
  | .MEMORY_READ => s.dirTrigger p .Memory_Data
  | .MEMORY_WB => s.dirTrigger p .Memory_Ack

def dirReissueTimerTableIn : Except Fault (Block n) :=
  if s.dir.reissueTimer then s.dirTrigger p .Request_Timeout else .ok s

/-- What a response means to the directory. -/
def dirResponseEvent (m : ResponseMsg n) : Except Fault Dir.Event :=
  if s.dir.tokens + m.tokens = p.maxTokens then
    match m.type with
    | .DATA_OWNER | .DATA_SHARED => .ok .Data_All_Tokens
    | .ACK_OWNER => .ok .Ack_Owner_All_Tokens
    | .ACK => .ok .Ack_All_Tokens
    | _ => .error .error
  else
    match m.type with
    | .DATA_OWNER => .ok .Data_Owner
    | .ACK | .DATA_SHARED => .ok .Tokens
    | .ACK_OWNER => .ok .Ack_Owner
    | _ => .error .error

def dirResponseNetworkIn (m : ResponseMsg n) : Except Fault (Block n) := do
  let e ← dirResponseEvent p s m
  s.dirTrigger p e

/-- `persistentNetwork_in`, for a message from `src`. -/
def dirPersistentNetworkIn (src : MachineID n) : Except Fault (Block n) :=
  match s.persistent src .Directory with
  | [] => .ok s
  | m :: _ =>
    if p.distributedPersistent then do
      let t ← s.dir.persistentTable.update m
      (directory p src).trigger (if t.isLocked then .Lockdown else .Unlockdown)
        (s.setDir { s.dir with persistentTable := t })
    else
      (directory p src).trigger (if m.type = .DEACTIVATE_PERSISTENT then .Unlockdown else .Lockdown) s

def dirRequestNetworkIn (r : RequestMsg n) : Except Fault (Block n) :=
  match r.type with
  | .GETS => s.dirTrigger p .GETS
  | .GETX => s.dirTrigger p .GETX

def dmaRequestQueueIn : Except Fault (Block n) :=
  match s.dmaRequestToDir with
  | [] => .ok s
  | m :: _ =>
    match m.type with
    | .READ => s.dirTrigger p .DMA_READ
    | .WRITE => s.dirTrigger p (if s.dir.tokens = p.maxTokens then .DMA_WRITE_All_Tokens else .DMA_WRITE)
    | .NULL => .error .error

end ports

end Block

end M5.Ruby.Token
