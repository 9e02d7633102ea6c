import M5.Lib.Controller
import M5.Ruby.Token.State

/-!
# MOESI_CMP_token: the L2 bank

`MOESI_CMP_token-L2cache.sm`. The rules and the actions are the source's, in its order.
-/

namespace M5.Ruby.Token

open M5.Lib

namespace L2

inductive Event
  | L1_GETS | L1_GETS_Last_Token | L1_GETX | L1_INV | Transient_GETX | Transient_GETS | Transient_GETS_Last_Token
  | L2_Replacement
  | Writeback_Tokens | Writeback_Shared_Data | Writeback_All_Tokens | Writeback_Owned
  | Data_Shared | Data_Owner | Data_All_Tokens | Ack | Ack_All_Tokens
  | Persistent_GETX | Persistent_GETS | Own_Lock_or_Unlock
deriving DecidableEq

inductive Action
  | a_broadcastLocalRequest | bb_bounceResponse | c_cleanReplacement | cc_dirtyReplacement | d_sendDataWithTokens
  | dd_sendDataWithAllTokens | e_sendAckWithCollectedTokens | ee_sendDataWithAllTokens | f_sendAckWithAllButOneTokens
  | ff_sendDataWithAllButOneTokens | gg_bounceResponseToStarver | gg_bounceWBSharedToStarver | gg_bounceWBOwnedToStarver
  | h_updateFilterFromL1HintOrWB | j_forwardTransientRequestToLocalSharers | k_dataFromL2CacheToL1Requestor
  | k_dataOwnerFromL2CacheToL1Requestor | k_dataAndAllTokensFromL2CacheToL1Requestor | l_popPersistentQueue
  | m_popRequestQueue | n_popResponseQueue | o_popL1RequestQueue | q_updateTokensFromResponse | r_markNewSharer
  | r_clearExclusive | r_setMRU | t_sendAckWithCollectedTokens | tt_sendLocalAckWithCollectedTokens
  | u_writeDataToCache | vv_allocateL2CacheBlock | rr_deallocateL2CacheBlock | w_assertIncomingDataAndCacheDataMatch
deriving DecidableEq

open State Event L2.Action in
def rules : List (Rule State Event Action) :=
  [ ⟨[NP, I, S, O, M, I_L, S_L], [L1_INV], none, [h_updateFilterFromL1HintOrWB, n_popResponseQueue]⟩,
    ⟨[NP, I, S, O, M], [Own_Lock_or_Unlock], none, [l_popPersistentQueue]⟩,
    -- NP
    ⟨[NP], [Transient_GETX, Transient_GETS], none, [r_clearExclusive, j_forwardTransientRequestToLocalSharers,
      m_popRequestQueue]⟩,
    ⟨[NP], [L1_GETS, L1_GETX], none, [a_broadcastLocalRequest, r_markNewSharer, o_popL1RequestQueue]⟩,
    ⟨[NP], [Ack, Data_Shared, Data_Owner, Data_All_Tokens], none, [bb_bounceResponse, n_popResponseQueue]⟩,
    ⟨[NP], [Writeback_Shared_Data], S, [vv_allocateL2CacheBlock, u_writeDataToCache, q_updateTokensFromResponse,
      h_updateFilterFromL1HintOrWB, n_popResponseQueue]⟩,
    ⟨[NP], [Writeback_Tokens], I, [vv_allocateL2CacheBlock, q_updateTokensFromResponse, h_updateFilterFromL1HintOrWB,
      n_popResponseQueue]⟩,
    ⟨[NP], [Writeback_All_Tokens], M, [vv_allocateL2CacheBlock, u_writeDataToCache, q_updateTokensFromResponse,
      h_updateFilterFromL1HintOrWB, n_popResponseQueue]⟩,
    ⟨[NP], [Writeback_Owned], O, [vv_allocateL2CacheBlock, u_writeDataToCache, q_updateTokensFromResponse,
      h_updateFilterFromL1HintOrWB, n_popResponseQueue]⟩,
    ⟨[NP], [Persistent_GETX, Persistent_GETS], I_L, [l_popPersistentQueue]⟩,
    -- I
    ⟨[I], [L1_GETS, L1_GETS_Last_Token], none, [a_broadcastLocalRequest, tt_sendLocalAckWithCollectedTokens,
      r_markNewSharer, o_popL1RequestQueue]⟩,
    ⟨[I], [L1_GETX], none, [a_broadcastLocalRequest, tt_sendLocalAckWithCollectedTokens, r_markNewSharer,
      o_popL1RequestQueue]⟩,
    ⟨[I], [L2_Replacement], none, [c_cleanReplacement, rr_deallocateL2CacheBlock]⟩,
    ⟨[I], [Transient_GETX, Transient_GETS, Transient_GETS_Last_Token], none, [r_clearExclusive,
      t_sendAckWithCollectedTokens, j_forwardTransientRequestToLocalSharers, m_popRequestQueue]⟩,
    ⟨[I], [Persistent_GETX, Persistent_GETS], I_L, [e_sendAckWithCollectedTokens, l_popPersistentQueue]⟩,
    ⟨[I], [Ack], none, [q_updateTokensFromResponse, n_popResponseQueue]⟩,
    ⟨[I], [Data_Shared], S, [u_writeDataToCache, q_updateTokensFromResponse, n_popResponseQueue]⟩,
    ⟨[I], [Writeback_Shared_Data], S, [u_writeDataToCache, q_updateTokensFromResponse, h_updateFilterFromL1HintOrWB,
      n_popResponseQueue]⟩,
    ⟨[I], [Writeback_Tokens], none, [q_updateTokensFromResponse, h_updateFilterFromL1HintOrWB, n_popResponseQueue]⟩,
    ⟨[I], [Data_Owner], O, [u_writeDataToCache, q_updateTokensFromResponse, n_popResponseQueue]⟩,
    ⟨[I], [Writeback_Owned], O, [u_writeDataToCache, q_updateTokensFromResponse, h_updateFilterFromL1HintOrWB,
      n_popResponseQueue]⟩,
    ⟨[I], [Data_All_Tokens], M, [u_writeDataToCache, q_updateTokensFromResponse, n_popResponseQueue]⟩,
    ⟨[I], [Writeback_All_Tokens], M, [u_writeDataToCache, q_updateTokensFromResponse, h_updateFilterFromL1HintOrWB,
      n_popResponseQueue]⟩,
    -- S
    ⟨[S], [L2_Replacement], I, [c_cleanReplacement, rr_deallocateL2CacheBlock]⟩,
    ⟨[S], [Transient_GETX], I, [r_clearExclusive, t_sendAckWithCollectedTokens,
      j_forwardTransientRequestToLocalSharers, m_popRequestQueue]⟩,
    ⟨[S], [Transient_GETS, Transient_GETS_Last_Token], none, [j_forwardTransientRequestToLocalSharers,
      r_clearExclusive, m_popRequestQueue]⟩,
    ⟨[S], [Persistent_GETX], I_L, [e_sendAckWithCollectedTokens, l_popPersistentQueue]⟩,
    ⟨[S], [Persistent_GETS], S_L, [f_sendAckWithAllButOneTokens, l_popPersistentQueue]⟩,
    ⟨[S], [Ack], none, [q_updateTokensFromResponse, n_popResponseQueue]⟩,
    ⟨[S], [Data_Shared], none, [w_assertIncomingDataAndCacheDataMatch, q_updateTokensFromResponse,
      n_popResponseQueue]⟩,
    ⟨[S], [Writeback_Tokens], none, [q_updateTokensFromResponse, h_updateFilterFromL1HintOrWB, n_popResponseQueue]⟩,
    ⟨[S], [Writeback_Shared_Data], none, [w_assertIncomingDataAndCacheDataMatch, q_updateTokensFromResponse,
      h_updateFilterFromL1HintOrWB, n_popResponseQueue]⟩,
    ⟨[S], [Data_Owner], O, [w_assertIncomingDataAndCacheDataMatch, q_updateTokensFromResponse, n_popResponseQueue]⟩,
    ⟨[S], [Writeback_Owned], O, [w_assertIncomingDataAndCacheDataMatch, q_updateTokensFromResponse,
      h_updateFilterFromL1HintOrWB, n_popResponseQueue]⟩,
    ⟨[S], [Data_All_Tokens], M, [w_assertIncomingDataAndCacheDataMatch, q_updateTokensFromResponse,
      n_popResponseQueue]⟩,
    ⟨[S], [Writeback_All_Tokens], M, [w_assertIncomingDataAndCacheDataMatch, q_updateTokensFromResponse,
      h_updateFilterFromL1HintOrWB, n_popResponseQueue]⟩,
    ⟨[S], [L1_GETX], I, [a_broadcastLocalRequest, tt_sendLocalAckWithCollectedTokens, r_markNewSharer, r_setMRU,
      o_popL1RequestQueue]⟩,
    ⟨[S], [L1_GETS], none, [k_dataFromL2CacheToL1Requestor, r_markNewSharer, r_setMRU, o_popL1RequestQueue]⟩,
    ⟨[S], [L1_GETS_Last_Token], I, [k_dataFromL2CacheToL1Requestor, r_markNewSharer, r_setMRU, o_popL1RequestQueue]⟩,
    -- O
    ⟨[O], [L2_Replacement], I, [cc_dirtyReplacement, rr_deallocateL2CacheBlock]⟩,
    ⟨[O], [Transient_GETX], I, [r_clearExclusive, dd_sendDataWithAllTokens, j_forwardTransientRequestToLocalSharers,
      m_popRequestQueue]⟩,
    ⟨[O], [Persistent_GETX], I_L, [ee_sendDataWithAllTokens, l_popPersistentQueue]⟩,
    ⟨[O], [Persistent_GETS], S_L, [ff_sendDataWithAllButOneTokens, l_popPersistentQueue]⟩,
    ⟨[O], [Transient_GETS], none, [r_clearExclusive, d_sendDataWithTokens, m_popRequestQueue]⟩,
    ⟨[O], [Transient_GETS_Last_Token], none, [r_clearExclusive, m_popRequestQueue]⟩,
    ⟨[O], [Ack], none, [q_updateTokensFromResponse, n_popResponseQueue]⟩,
    ⟨[O], [Ack_All_Tokens], M, [q_updateTokensFromResponse, n_popResponseQueue]⟩,
    ⟨[O], [Data_Shared], none, [w_assertIncomingDataAndCacheDataMatch, q_updateTokensFromResponse,
      n_popResponseQueue]⟩,
    ⟨[O], [Writeback_Tokens, Writeback_Shared_Data], none, [w_assertIncomingDataAndCacheDataMatch,
      q_updateTokensFromResponse, h_updateFilterFromL1HintOrWB, n_popResponseQueue]⟩,
    ⟨[O], [Data_All_Tokens], M, [w_assertIncomingDataAndCacheDataMatch, q_updateTokensFromResponse,
      n_popResponseQueue]⟩,
    ⟨[O], [Writeback_All_Tokens], M, [w_assertIncomingDataAndCacheDataMatch, q_updateTokensFromResponse,
      h_updateFilterFromL1HintOrWB, n_popResponseQueue]⟩,
    ⟨[O], [L1_GETS], none, [k_dataFromL2CacheToL1Requestor, r_markNewSharer, r_setMRU, o_popL1RequestQueue]⟩,
    ⟨[O], [L1_GETS_Last_Token], I, [k_dataOwnerFromL2CacheToL1Requestor, r_markNewSharer, r_setMRU,
      o_popL1RequestQueue]⟩,
    ⟨[O], [L1_GETX], I, [a_broadcastLocalRequest, k_dataAndAllTokensFromL2CacheToL1Requestor, r_markNewSharer,
      r_setMRU, o_popL1RequestQueue]⟩,
    -- M
    ⟨[M], [L2_Replacement], I, [cc_dirtyReplacement, rr_deallocateL2CacheBlock]⟩,
    ⟨[M], [Transient_GETX, Transient_GETS], I, [r_clearExclusive, dd_sendDataWithAllTokens, m_popRequestQueue]⟩,
    ⟨[M], [Persistent_GETS, Persistent_GETX], I_L, [ee_sendDataWithAllTokens, l_popPersistentQueue]⟩,
    ⟨[M], [L1_GETS], O, [k_dataFromL2CacheToL1Requestor, r_markNewSharer, r_setMRU, o_popL1RequestQueue]⟩,
    ⟨[M], [L1_GETX], I, [k_dataAndAllTokensFromL2CacheToL1Requestor, r_markNewSharer, r_setMRU, o_popL1RequestQueue]⟩,
    -- locked states
    ⟨[I_L, S_L], [Ack], none, [gg_bounceResponseToStarver, n_popResponseQueue]⟩,
    ⟨[I_L, S_L], [Data_Shared, Data_Owner, Data_All_Tokens], none, [gg_bounceResponseToStarver, n_popResponseQueue]⟩,
    ⟨[I_L, S_L], [Writeback_Tokens, Writeback_Shared_Data], none, [gg_bounceWBSharedToStarver,
      h_updateFilterFromL1HintOrWB, n_popResponseQueue]⟩,
    ⟨[I_L, S_L], [Writeback_Owned, Writeback_All_Tokens], none, [gg_bounceWBOwnedToStarver,
      h_updateFilterFromL1HintOrWB, n_popResponseQueue]⟩,
    ⟨[S_L], [L2_Replacement], I, [c_cleanReplacement, rr_deallocateL2CacheBlock]⟩,
    ⟨[I_L], [L2_Replacement], I, [rr_deallocateL2CacheBlock]⟩,
    ⟨[I_L], [Own_Lock_or_Unlock], I, [l_popPersistentQueue]⟩,
    ⟨[S_L], [Own_Lock_or_Unlock], S, [l_popPersistentQueue]⟩,
    ⟨[I_L, S_L], [Transient_GETS_Last_Token, Transient_GETS, Transient_GETX], none, [r_clearExclusive,
      m_popRequestQueue]⟩,
    ⟨[I_L], [L1_GETX, L1_GETS], none, [a_broadcastLocalRequest, r_markNewSharer, o_popL1RequestQueue]⟩,
    ⟨[S_L], [L1_GETX], I_L, [a_broadcastLocalRequest, tt_sendLocalAckWithCollectedTokens, r_markNewSharer, r_setMRU,
      o_popL1RequestQueue]⟩,
    ⟨[S_L], [L1_GETS], none, [k_dataFromL2CacheToL1Requestor, r_markNewSharer, r_setMRU, o_popL1RequestQueue]⟩,
    ⟨[S_L], [L1_GETS_Last_Token], I_L, [k_dataFromL2CacheToL1Requestor, r_markNewSharer, r_setMRU,
      o_popL1RequestQueue]⟩,
    ⟨[S_L], [Persistent_GETX], I_L, [e_sendAckWithCollectedTokens, l_popPersistentQueue]⟩,
    ⟨[S_L], [Persistent_GETS], none, [l_popPersistentQueue]⟩,
    ⟨[I_L], [Persistent_GETX, Persistent_GETS], none, [l_popPersistentQueue]⟩ ]

variable {n : Nat}

variable (l : L2 n) (id : Nat)

def getL2CacheEntry : Except Fault (Entry State) := present l.entry

def getTokens : Int :=
  match l.entry with
  | some e => e.tokens
  | none => 0

def getState : State :=
  match l.entry with
  | some e => e.cacheState
  | none => if l.persistentTable.isLocked then .I_L else .NP

def setState (p : Params) (l : L2 n) (q : State) : Except Fault (L2 n) :=
  match l.entry with
  | none => .ok l
  | some e => do
    ensure .assert (0 ≤ e.tokens)
    ensure .assert (e.tokens ≤ p.maxTokens)
    ensure .assert (q = .I_L → e.tokens = 0)
    ensure .assert (q = .M → e.tokens = p.maxTokens)
    ensure .assert (q = .NP → e.tokens = 0)
    ensure .assert (q = .S → 0 < e.tokens)
    ensure .assert (q = .O → 1 ≤ e.tokens)
    .ok { l with entry := some { e with cacheState := q } }

/-! ## The sharers -/

def removeSharer : L2 n :=
  match l.localDirectory with
  | none => l
  | some d =>
    let sharers := d.sharers.erase id
    { l with localDirectory := if sharers = ∅ then none else some { d with sharers } }

def sharersExist : Bool :=
  match l.localDirectory with
  | none => false
  | some d => decide (d.sharers ≠ ∅)

def setNewWriter : L2 n := { l with localDirectory := some { sharers := {id}, exclusive := true } }

def addNewSharer : L2 n :=
  let d := l.localDirectory.getD {}
  { l with localDirectory := some { d with sharers := insert id d.sharers } }

def clearExclusiveBitIfExists : L2 n :=
  { l with localDirectory := l.localDirectory.map fun d => { d with exclusive := false } }

end L2

namespace Block

variable {n : Nat}

/-- The entry `e` of the L2 bank sends `m`, and `k` tokens are left. -/
def l2Send (s : Block n) (e : Entry L2.State) (m : ResponseMsg n) (k : Int) : Block n :=
  (s.setL2 { s.l2 with entry := some { e with tokens := k } }).respond m

/-- The entry of the L2 bank has `k` tokens. -/
def l2SetTokens (s : Block n) (e : Entry L2.State) (k : Int) : Block n :=
  s.setL2 { s.l2 with entry := some { e with tokens := k } }

open L2.Action in
/-- The actions of the L2 bank. A persistent request that is handled has come from `src`. -/
def l2Act (p : Params) (src : MachineID n) (a : L2.Action) (s : Block n) : Except Fault (Block n) :=
  let l := s.l2
  match a with
  | a_broadcastLocalRequest => do
    let r ← s.inRequest
    .ok { s with globalRequests := s.globalRequests ++ [(.Directory, { r with isLocal := false })] }
  | bb_bounceResponse => do
    let m ← s.inResponse
    .ok (s.respond { m with sender := .L2Cache, destination := .Directory })
  | c_cleanReplacement => do
    let e ← l.getL2CacheEntry
    if e.tokens > 0 then
      .ok (s.l2Send e (ack .L2Cache .Directory e.tokens .Writeback_Control) 0)
    else
      .ok s
  | cc_dirtyReplacement => do
    let e ← l.getL2CacheEntry
    if e.dirty then
      .ok (s.l2Send e (e.msg .DATA_OWNER .L2Cache .Directory e.tokens e.dirty .Writeback_Data) 0)
    else
      .ok (s.l2Send e (e.msg .ACK_OWNER .L2Cache .Directory e.tokens e.dirty .Writeback_Control) 0)
  | d_sendDataWithTokens => do
    let r ← s.inGlobalRequest
    let e ← l.getL2CacheEntry
    if e.tokens > p.nTokens then
      .ok (s.l2Send e (e.msg .DATA_SHARED .L2Cache r.requestor p.nTokens false .Response_Data) (e.tokens - p.nTokens))
    else
      .ok (s.l2Send e (e.msg .DATA_SHARED .L2Cache r.requestor 1 false .Response_Data) (e.tokens - 1))
  | dd_sendDataWithAllTokens => do
    let r ← s.inGlobalRequest
    let e ← l.getL2CacheEntry
    ensure .assert (1 ≤ e.tokens)
    .ok (s.l2Send e (e.msg .DATA_OWNER .L2Cache r.requestor e.tokens e.dirty .Response_Data) 0)
  | e_sendAckWithCollectedTokens => do
    let e ← l.getL2CacheEntry
    if e.tokens > 0 then do
      let starver ← l.persistentTable.findSmallest
      .ok (s.l2Send e (ack .L2Cache starver e.tokens .Response_Control) 0)
    else
      .ok (s.l2SetTokens e 0)
  | ee_sendDataWithAllTokens => do
    let e ← l.getL2CacheEntry
    let starver ← l.persistentTable.findSmallest
    ensure .assert (1 ≤ e.tokens)
    .ok (s.l2Send e (e.msg .DATA_OWNER .L2Cache starver e.tokens e.dirty .Response_Data) 0)
  | f_sendAckWithAllButOneTokens => do
    let e ← l.getL2CacheEntry
    ensure .assert (0 < e.tokens)
    if e.tokens > 1 then do
      let starver ← l.persistentTable.findSmallest
      .ok (s.l2Send e (ack .L2Cache starver (e.tokens - 1) .Response_Control) 1)
    else
      .ok (s.l2SetTokens e 1)
  | ff_sendDataWithAllButOneTokens => do
    let e ← l.getL2CacheEntry
    ensure .assert (0 < e.tokens)
    if e.tokens > 1 then do
      let starver ← l.persistentTable.findSmallest
      .ok (s.l2Send e (e.msg .DATA_OWNER .L2Cache starver (e.tokens - 1) e.dirty .Response_Data) 1)
    else
      .ok s
  | gg_bounceResponseToStarver => do
    let m ← s.inResponse
    let starver ← l.persistentTable.findSmallest
    .ok (s.respond { m with sender := .L2Cache, destination := starver })
  | gg_bounceWBSharedToStarver => do
    let m ← s.inResponse
    let starver ← l.persistentTable.findSmallest
    let type := if m.type = .WB_SHARED_DATA then .DATA_SHARED else .ACK
    .ok (s.respond { m with type, sender := .L2Cache, destination := starver })
  | gg_bounceWBOwnedToStarver => do
    let m ← s.inResponse
    let starver ← l.persistentTable.findSmallest
    .ok (s.respond { m with type := .DATA_OWNER, sender := .L2Cache, destination := starver })
  | h_updateFilterFromL1HintOrWB => do
    let m ← s.inResponse
    .ok (s.setL2 (l.removeSharer m.sender.nodeID))
  | j_forwardTransientRequestToLocalSharers => do
    let r ← s.inGlobalRequest
    if p.filteringEnabled ∧ r.retryNum = 0 ∧ l.sharersExist = false then
      .ok s
    else
      let caches := (List.finRange n).map MachineID.L1Cache
      .ok (s.broadcast (caches.filter (· ≠ r.requestor)) { type := r.type, requestor := r.requestor })
  | k_dataFromL2CacheToL1Requestor => do
    let r ← s.inRequest
    let e ← l.getL2CacheEntry
    ensure .assert (0 < e.tokens)
    .ok (s.l2Send e (e.msg .DATA_SHARED .L2Cache r.requestor 1 false .ResponseL2hit_Data) (e.tokens - 1))
  | k_dataOwnerFromL2CacheToL1Requestor => do
    let r ← s.inRequest
    let e ← l.getL2CacheEntry
    ensure .assert (0 < e.tokens)
    .ok (s.l2Send e (e.msg .DATA_OWNER .L2Cache r.requestor 1 e.dirty .ResponseL2hit_Data) (e.tokens - 1))
  | k_dataAndAllTokensFromL2CacheToL1Requestor => do
    let r ← s.inRequest
    let e ← l.getL2CacheEntry
    .ok (s.l2Send e (e.msg .DATA_OWNER .L2Cache r.requestor e.tokens e.dirty .ResponseL2hit_Data) 0)
  | l_popPersistentQueue => .ok (s.popPersistent src .L2Cache)
  | m_popRequestQueue => .ok s.popGlobalRequest
  | n_popResponseQueue => .ok s.popResponse
  | o_popL1RequestQueue => .ok s.popRequest
  | q_updateTokensFromResponse => do
    let m ← s.inResponse
    ensure .assert (m.tokens ≠ 0)
    let e ← l.getL2CacheEntry
    let dirty := e.dirty || ((m.type == .DATA_OWNER || m.type == .WB_OWNED) && m.dirty)
    .ok (s.setL2 { l with entry := some { e with tokens := e.tokens + m.tokens, dirty } })
  | r_markNewSharer => do
    let r ← s.inRequest
    match r.requestor with
    | .L1Cache i =>
      match r.type with
      | .GETX => .ok (s.setL2 (l.setNewWriter i))
      | .GETS => .ok (s.setL2 (l.addNewSharer i))
    | _ => .ok s
  | r_clearExclusive => .ok (s.setL2 l.clearExclusiveBitIfExists)
  | t_sendAckWithCollectedTokens => do
    let e ← l.getL2CacheEntry
    if e.tokens > 0 then do
      let r ← s.inGlobalRequest
      .ok (s.l2Send e (ack .L2Cache r.requestor e.tokens .Response_Control) 0)
    else
      .ok (s.l2SetTokens e 0)
  | tt_sendLocalAckWithCollectedTokens => do
    let e ← l.getL2CacheEntry
    if e.tokens > 0 then do
      let r ← s.inRequest
      .ok (s.l2Send e (ack .L2Cache r.requestor e.tokens .Response_Control) 0)
    else
      .ok (s.l2SetTokens e 0)
  | u_writeDataToCache => do
    let m ← s.inResponse
    let e ← l.getL2CacheEntry
    .ok (s.setL2 { l with entry := some { e with dataBlk := m.dataBlk, dirty := e.dirty || m.dirty } })
  | vv_allocateL2CacheBlock => do
    ensure .assert l.entry.isNone
    .ok (s.setL2 { l with entry := some { cacheState := .I } })
  | rr_deallocateL2CacheBlock => do
    ensure .assert l.entry.isSome
    .ok (s.setL2 { l with entry := none })
  | w_assertIncomingDataAndCacheDataMatch => do
    let m ← s.inResponse
    let e ← l.getL2CacheEntry
    ensure .assert (e.dataBlk.equal p.blockSize m.dataBlk)
    .ok s
  | r_setMRU => .ok s

def l2Cache (p : Params) (src : MachineID n) : Controller (Block n) Fault L2.State L2.Event L2.Action where
  rules := L2.rules
  getState s := .ok s.l2.getState
  setState s q := do
    let l ← s.l2.setState p q
    .ok (s.setL2 l)
  act := l2Act p src
  stall _ := false
  invalid := .invalidTransition

/-! ## Input ports of the L2 bank -/

section ports

variable (p : Params) (s : Block n)

/-- An event that is not about a persistent request. -/
def l2Trigger (e : L2.Event) : Except Fault (Block n) := (l2Cache p .L2Cache).trigger e s

/-- What a persistent request means to the L2 bank, by its table. -/
def l2PersistentEvent (t : PersistentTable n) : Except Fault L2.Event :=
  if t.isLocked then do
    let type ← t.typeOfSmallest
    .ok (if type = .Read then .Persistent_GETS else .Persistent_GETX)
  else
    .ok .Own_Lock_or_Unlock

/-- `persistentNetwork_in`, for a message from `src`. -/
def l2PersistentNetworkIn (src : MachineID n) : Except Fault (Block n) :=
  match s.persistent src .L2Cache with
  | [] => .ok s
  | m :: _ => do
    let t ← s.l2.persistentTable.update m
    let e ← l2PersistentEvent t
    (l2Cache p src).trigger e (s.setL2 { s.l2 with persistentTable := t })

variable (m : ResponseMsg n) (r : RequestMsg n)

def l2RequestNetworkIn : Except Fault (Block n) :=
  match r.type with
  | .GETX => s.l2Trigger p .Transient_GETX
  | .GETS =>
    s.l2Trigger p (if s.l2.entry.isSome ∧ s.l2.getTokens = 1 then .Transient_GETS_Last_Token else .Transient_GETS)

/-- What a request of an L1 cache means to the L2 bank. -/
def l1RequestL2Event : L2.Event :=
  match r.type with
  | .GETX => .L1_GETX
  | .GETS => if s.l2.entry.isSome ∧ s.l2.getTokens = 1 then .L1_GETS_Last_Token else .L1_GETS

def l1RequestNetworkL2In : Except Fault (Block n) := s.l2Trigger p (l1RequestL2Event s r)

/-- What a writeback means to the L2 bank, when there is room for the block. -/
def l2WritebackEvent : Except Fault L2.Event :=
  if s.l2.getTokens + m.tokens ≠ p.maxTokens then
    match m.type with
    | .WB_TOKENS => do
      ensure .assert (m.dirty = false)
      .ok .Writeback_Tokens
    | .WB_SHARED_DATA => do
      ensure .assert (m.dirty = false)
      .ok .Writeback_Shared_Data
    | _ => .ok .Writeback_Owned
  else
    match m.type with
    | .WB_TOKENS => do
      ensure .assert (m.dirty = false)
      ensure .assert (s.l2.getState ≠ .NP ∧ s.l2.getState ≠ .I)
      .ok .Writeback_All_Tokens
    | .WB_SHARED_DATA => do
      ensure .assert (m.dirty = false)
      .ok .Writeback_All_Tokens
    | _ => .ok .Writeback_All_Tokens

/-- What any other response means to the L2 bank. -/
def l2ResponseEvent : Except Fault L2.Event :=
  let all := s.l2.getTokens + m.tokens = p.maxTokens
  match m.type with
  | .ACK => .ok (if all then .Ack_All_Tokens else .Ack)
  | .DATA_OWNER => .ok (if all then .Data_All_Tokens else .Data_Owner)
  | .DATA_SHARED => .ok (if all then .Data_All_Tokens else .Data_Shared)
  | .INV => .ok .L1_INV
  | _ => .error .error

/-- `responseNetwork_in`; `avail` is the answer of `cacheAvail`. Without room another block is replaced. -/
def l2ResponseNetworkIn (avail : Bool) (m : ResponseMsg n) : Except Fault (Block n) :=
  if m.type = .WB_TOKENS ∨ m.type = .WB_OWNED ∨ m.type = .WB_SHARED_DATA then
    if avail ∨ s.l2.entry.isSome then do
      let e ← l2WritebackEvent p s m
      s.l2Trigger p e
    else
      .ok s
  else do
    let e ← l2ResponseEvent p s m
    s.l2Trigger p e

end ports

end Block

end M5.Ruby.Token
