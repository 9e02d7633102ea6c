import M5.Lib.Controller
import M5.Ruby.Token.State

/-!
# MOESI_CMP_token: the L1 cache

`MOESI_CMP_token-L1cache.sm`. The rules and the actions are the source's, in its order.
-/

namespace M5.Ruby.Token

open M5.Lib

namespace L1

inductive Event
  | Load | Ifetch | Store | L1_Replacement
  | Data_Shared | Data_Owner | Data_All_Tokens | Ack | Ack_All_Tokens
  | Transient_GETX | Transient_Local_GETX | Transient_GETS | Transient_Local_GETS | Transient_GETS_Last_Token
  | Transient_Local_GETS_Last_Token
  | Persistent_GETX | Persistent_GETS | Own_Lock_or_Unlock
  | Request_Timeout | Use_TimeoutStarverX | Use_TimeoutStarverS | Use_TimeoutNoStarvers
deriving DecidableEq

inductive Action
  | a_issueReadRequest | b_issueWriteRequest | bb_bounceResponse | c_ownedReplacement | cc_sharedReplacement
  | d_sendDataWithToken | d_sendDataWithNTokenIfAvail | dd_sendDataWithAllTokens | e_sendAckWithCollectedTokens
  | ee_sendDataWithAllTokens | f_sendAckWithAllButNorOneTokens | ff_sendDataWithAllButNorOneTokens
  | g_bounceResponseToStarver | h_load_hit | x_external_load_hit | hh_store_hit | xx_external_store_hit | i_allocateTBE
  | j_unsetReissueTimer | jj_unsetUseTimer | k_popMandatoryQueue | l_popPersistentQueue | m_popRequestQueue
  | n_popResponseQueue | o_scheduleUseTimeout | p_informL2AboutTokenLoss | q_updateTokensFromResponse | s_deallocateTBE
  | t_sendAckWithCollectedTokens | u_writeDataToCache | gg_deallocateL1CacheBlock | ii_allocateL1DCacheBlock
  | pp_allocateL1ICacheBlock | uu_profileMiss | w_assertIncomingDataAndCacheDataMatch | zz_recycleMandatoryQueue
deriving DecidableEq

open State Event L1.Action in
/-- The transitions from the base states. -/
def baseRules : List (Rule State Event Action) :=
  [ -- transient states
    ⟨[IM, SM, OM, IS, IM_L, IS_L, I_L, S_L, SM_L, M_W, MM_W], [L1_Replacement], none, [zz_recycleMandatoryQueue]⟩,
    ⟨[IM, SM, OM, IS, IM_L, IS_L, SM_L], [Store], none, [zz_recycleMandatoryQueue]⟩,
    ⟨[IM, IS, IM_L, IS_L], [Load, Ifetch], none, [zz_recycleMandatoryQueue]⟩,
    -- lockdowns
    ⟨[NP, I, S, O, M, MM, M_W, MM_W, IM, SM, OM, IS], [Own_Lock_or_Unlock], none, [l_popPersistentQueue]⟩,
    -- NP
    ⟨[NP], [Load], IS, [ii_allocateL1DCacheBlock, i_allocateTBE, a_issueReadRequest, uu_profileMiss,
      k_popMandatoryQueue]⟩,
    ⟨[NP], [Ifetch], IS, [pp_allocateL1ICacheBlock, i_allocateTBE, a_issueReadRequest, uu_profileMiss,
      k_popMandatoryQueue]⟩,
    ⟨[NP], [Store], IM, [ii_allocateL1DCacheBlock, i_allocateTBE, b_issueWriteRequest, uu_profileMiss,
      k_popMandatoryQueue]⟩,
    ⟨[NP], [Ack, Data_Shared, Data_Owner, Data_All_Tokens], none, [bb_bounceResponse, n_popResponseQueue]⟩,
    ⟨[NP], [Transient_GETX, Transient_Local_GETX, Transient_GETS, Transient_Local_GETS], none, [m_popRequestQueue]⟩,
    ⟨[NP], [Persistent_GETX, Persistent_GETS], I_L, [l_popPersistentQueue]⟩,
    -- I
    ⟨[I], [Load], IS, [i_allocateTBE, a_issueReadRequest, uu_profileMiss, k_popMandatoryQueue]⟩,
    ⟨[I], [Ifetch], IS, [i_allocateTBE, a_issueReadRequest, uu_profileMiss, k_popMandatoryQueue]⟩,
    ⟨[I], [Store], IM, [i_allocateTBE, b_issueWriteRequest, uu_profileMiss, k_popMandatoryQueue]⟩,
    ⟨[I], [L1_Replacement], none, [cc_sharedReplacement, gg_deallocateL1CacheBlock]⟩,
    ⟨[I], [Transient_GETX, Transient_Local_GETX], none, [t_sendAckWithCollectedTokens, m_popRequestQueue]⟩,
    ⟨[I], [Transient_GETS, Transient_GETS_Last_Token, Transient_Local_GETS_Last_Token, Transient_Local_GETS], none,
      [m_popRequestQueue]⟩,
    ⟨[I], [Persistent_GETX, Persistent_GETS], I_L, [e_sendAckWithCollectedTokens, l_popPersistentQueue]⟩,
    ⟨[I_L], [Persistent_GETX, Persistent_GETS], none, [l_popPersistentQueue]⟩,
    ⟨[I], [Ack], none, [q_updateTokensFromResponse, n_popResponseQueue]⟩,
    ⟨[I], [Data_Shared], S, [u_writeDataToCache, q_updateTokensFromResponse, n_popResponseQueue]⟩,
    ⟨[I], [Data_Owner], O, [u_writeDataToCache, q_updateTokensFromResponse, n_popResponseQueue]⟩,
    ⟨[I], [Data_All_Tokens], M, [u_writeDataToCache, q_updateTokensFromResponse, n_popResponseQueue]⟩,
    -- S
    ⟨[S, SM, S_L, SM_L], [Load, Ifetch], none, [h_load_hit, k_popMandatoryQueue]⟩,
    ⟨[S], [Store], SM, [i_allocateTBE, b_issueWriteRequest, uu_profileMiss, k_popMandatoryQueue]⟩,
    ⟨[S], [L1_Replacement], I, [cc_sharedReplacement, gg_deallocateL1CacheBlock]⟩,
    ⟨[S], [Transient_GETX, Transient_Local_GETX], I, [t_sendAckWithCollectedTokens, p_informL2AboutTokenLoss,
      m_popRequestQueue]⟩,
    ⟨[S], [Transient_GETS], none, [m_popRequestQueue]⟩,
    ⟨[S], [Transient_Local_GETS], none, [d_sendDataWithToken, m_popRequestQueue]⟩,
    ⟨[S], [Transient_GETS_Last_Token, Transient_Local_GETS_Last_Token], none, [m_popRequestQueue]⟩,
    ⟨[S, S_L], [Persistent_GETX], I_L, [e_sendAckWithCollectedTokens, p_informL2AboutTokenLoss, l_popPersistentQueue]⟩,
    ⟨[S], [Persistent_GETS], S_L, [f_sendAckWithAllButNorOneTokens, l_popPersistentQueue]⟩,
    ⟨[S_L], [Persistent_GETS], none, [l_popPersistentQueue]⟩,
    ⟨[S], [Ack], none, [q_updateTokensFromResponse, n_popResponseQueue]⟩,
    ⟨[S], [Data_Shared], none, [w_assertIncomingDataAndCacheDataMatch, q_updateTokensFromResponse,
      n_popResponseQueue]⟩,
    ⟨[S], [Data_Owner], O, [w_assertIncomingDataAndCacheDataMatch, q_updateTokensFromResponse, n_popResponseQueue]⟩,
    ⟨[S], [Data_All_Tokens], M, [w_assertIncomingDataAndCacheDataMatch, q_updateTokensFromResponse,
      n_popResponseQueue]⟩,
    -- O
    ⟨[O, OM], [Load, Ifetch], none, [h_load_hit, k_popMandatoryQueue]⟩,
    ⟨[O], [Store], OM, [i_allocateTBE, b_issueWriteRequest, uu_profileMiss, k_popMandatoryQueue]⟩,
    ⟨[O], [L1_Replacement], I, [c_ownedReplacement, gg_deallocateL1CacheBlock]⟩,
    ⟨[O], [Transient_GETX, Transient_Local_GETX], I, [dd_sendDataWithAllTokens, p_informL2AboutTokenLoss,
      m_popRequestQueue]⟩,
    ⟨[O], [Persistent_GETX], I_L, [ee_sendDataWithAllTokens, p_informL2AboutTokenLoss, l_popPersistentQueue]⟩,
    ⟨[O], [Persistent_GETS], S_L, [ff_sendDataWithAllButNorOneTokens, l_popPersistentQueue]⟩,
    ⟨[O], [Transient_GETS], none, [d_sendDataWithToken, m_popRequestQueue]⟩,
    ⟨[O], [Transient_Local_GETS], none, [d_sendDataWithToken, m_popRequestQueue]⟩,
    ⟨[O], [Transient_GETS_Last_Token, Transient_Local_GETS_Last_Token], none, [m_popRequestQueue]⟩,
    ⟨[O], [Ack], none, [q_updateTokensFromResponse, n_popResponseQueue]⟩,
    ⟨[O], [Ack_All_Tokens], M, [q_updateTokensFromResponse, n_popResponseQueue]⟩,
    ⟨[O], [Data_Shared], none, [w_assertIncomingDataAndCacheDataMatch, q_updateTokensFromResponse,
      n_popResponseQueue]⟩,
    ⟨[O], [Data_All_Tokens], M, [w_assertIncomingDataAndCacheDataMatch, q_updateTokensFromResponse,
      n_popResponseQueue]⟩,
    -- MM
    ⟨[MM, MM_W], [Load, Ifetch], none, [h_load_hit, k_popMandatoryQueue]⟩,
    ⟨[MM, MM_W], [Store], none, [hh_store_hit, k_popMandatoryQueue]⟩,
    ⟨[MM], [L1_Replacement], I, [c_ownedReplacement, gg_deallocateL1CacheBlock]⟩,
    ⟨[MM], [Transient_GETX, Transient_Local_GETX, Transient_GETS, Transient_Local_GETS], I, [dd_sendDataWithAllTokens,
      p_informL2AboutTokenLoss, m_popRequestQueue]⟩,
    ⟨[MM_W], [Transient_GETX, Transient_Local_GETX, Transient_GETS, Transient_Local_GETS], none, [m_popRequestQueue]⟩,
    ⟨[MM], [Persistent_GETX, Persistent_GETS], I_L, [ee_sendDataWithAllTokens, p_informL2AboutTokenLoss,
      l_popPersistentQueue]⟩,
    ⟨[MM_W], [Persistent_GETX, Persistent_GETS], none, [l_popPersistentQueue]⟩,
    ⟨[MM_W], [Use_TimeoutNoStarvers], MM, [s_deallocateTBE, jj_unsetUseTimer]⟩,
    -- M
    ⟨[M, M_W], [Load, Ifetch], none, [h_load_hit, k_popMandatoryQueue]⟩,
    ⟨[M], [Store], MM, [hh_store_hit, k_popMandatoryQueue]⟩,
    ⟨[M_W], [Store], MM_W, [hh_store_hit, k_popMandatoryQueue]⟩,
    ⟨[M], [L1_Replacement], I, [c_ownedReplacement, gg_deallocateL1CacheBlock]⟩,
    ⟨[M], [Transient_GETX, Transient_Local_GETX], I, [dd_sendDataWithAllTokens, p_informL2AboutTokenLoss,
      m_popRequestQueue]⟩,
    ⟨[M], [Transient_Local_GETS], O, [d_sendDataWithToken, m_popRequestQueue]⟩,
    ⟨[M], [Transient_GETS], O, [d_sendDataWithNTokenIfAvail, m_popRequestQueue]⟩,
    ⟨[M_W], [Transient_GETX, Transient_Local_GETX, Transient_GETS, Transient_Local_GETS], none, [m_popRequestQueue]⟩,
    ⟨[M], [Persistent_GETX], I_L, [ee_sendDataWithAllTokens, p_informL2AboutTokenLoss, l_popPersistentQueue]⟩,
    ⟨[M], [Persistent_GETS], S_L, [ff_sendDataWithAllButNorOneTokens, l_popPersistentQueue]⟩,
    ⟨[M_W], [Persistent_GETX, Persistent_GETS], none, [l_popPersistentQueue]⟩,
    ⟨[M_W], [Use_TimeoutStarverS], S_L, [s_deallocateTBE, ff_sendDataWithAllButNorOneTokens, jj_unsetUseTimer]⟩,
    ⟨[M_W], [Use_TimeoutNoStarvers], M, [s_deallocateTBE, jj_unsetUseTimer]⟩,
    ⟨[M_W], [Use_TimeoutStarverX], I_L, [s_deallocateTBE, ee_sendDataWithAllTokens, p_informL2AboutTokenLoss,
      jj_unsetUseTimer]⟩,
    ⟨[MM_W], [Use_TimeoutStarverX, Use_TimeoutStarverS], I_L, [s_deallocateTBE, ee_sendDataWithAllTokens,
      p_informL2AboutTokenLoss, jj_unsetUseTimer]⟩ ]

open State Event L1.Action in
/-- The transitions from the transient and the locked states. -/
def transientRules : List (Rule State Event Action) :=
  [ ⟨[OM], [Transient_GETX, Transient_Local_GETX, Transient_GETS, Transient_GETS_Last_Token,
      Transient_Local_GETS_Last_Token, Transient_Local_GETS], none, [m_popRequestQueue]⟩,
    ⟨[IS], [Transient_GETX, Transient_Local_GETX], none, [t_sendAckWithCollectedTokens, m_popRequestQueue]⟩,
    ⟨[IS], [Transient_GETS, Transient_GETS_Last_Token, Transient_Local_GETS_Last_Token, Transient_Local_GETS], none,
      [m_popRequestQueue]⟩,
    ⟨[IS], [Persistent_GETX, Persistent_GETS], IS_L, [e_sendAckWithCollectedTokens, l_popPersistentQueue]⟩,
    ⟨[IS_L], [Persistent_GETX, Persistent_GETS], none, [l_popPersistentQueue]⟩,
    ⟨[IM], [Persistent_GETX, Persistent_GETS], IM_L, [e_sendAckWithCollectedTokens, l_popPersistentQueue]⟩,
    ⟨[IM_L], [Persistent_GETX, Persistent_GETS], none, [l_popPersistentQueue]⟩,
    ⟨[SM, SM_L], [Persistent_GETX], IM_L, [e_sendAckWithCollectedTokens, l_popPersistentQueue]⟩,
    ⟨[SM], [Persistent_GETS], SM_L, [f_sendAckWithAllButNorOneTokens, l_popPersistentQueue]⟩,
    ⟨[SM_L], [Persistent_GETS], none, [l_popPersistentQueue]⟩,
    ⟨[OM], [Persistent_GETX], IM_L, [ee_sendDataWithAllTokens, l_popPersistentQueue]⟩,
    ⟨[OM], [Persistent_GETS], SM_L, [ff_sendDataWithAllButNorOneTokens, l_popPersistentQueue]⟩,
    -- IM, SM
    ⟨[IM, SM], [Ack], none, [q_updateTokensFromResponse, n_popResponseQueue]⟩,
    ⟨[IM], [Data_Shared], SM, [u_writeDataToCache, q_updateTokensFromResponse, n_popResponseQueue]⟩,
    ⟨[IM], [Data_Owner], OM, [u_writeDataToCache, q_updateTokensFromResponse, n_popResponseQueue]⟩,
    ⟨[IM], [Data_All_Tokens], MM_W, [u_writeDataToCache, q_updateTokensFromResponse, xx_external_store_hit,
      o_scheduleUseTimeout, j_unsetReissueTimer, n_popResponseQueue]⟩,
    ⟨[SM], [Data_Shared], none, [w_assertIncomingDataAndCacheDataMatch, q_updateTokensFromResponse,
      n_popResponseQueue]⟩,
    ⟨[SM], [Data_Owner], OM, [w_assertIncomingDataAndCacheDataMatch, q_updateTokensFromResponse, n_popResponseQueue]⟩,
    ⟨[SM], [Data_All_Tokens], MM_W, [w_assertIncomingDataAndCacheDataMatch, q_updateTokensFromResponse,
      xx_external_store_hit, o_scheduleUseTimeout, j_unsetReissueTimer, n_popResponseQueue]⟩,
    ⟨[IM, SM], [Transient_GETX, Transient_Local_GETX], IM, [t_sendAckWithCollectedTokens, m_popRequestQueue]⟩,
    ⟨[IM, SM], [Transient_GETS, Transient_GETS_Last_Token, Transient_Local_GETS_Last_Token, Transient_Local_GETS],
      none, [m_popRequestQueue]⟩,
    ⟨[IM, SM], [Request_Timeout], none, [j_unsetReissueTimer, b_issueWriteRequest]⟩,
    -- OM
    ⟨[OM], [Ack], none, [q_updateTokensFromResponse, n_popResponseQueue]⟩,
    ⟨[OM], [Ack_All_Tokens], MM_W, [q_updateTokensFromResponse, xx_external_store_hit, o_scheduleUseTimeout,
      j_unsetReissueTimer, n_popResponseQueue]⟩,
    ⟨[OM], [Data_Shared], none, [w_assertIncomingDataAndCacheDataMatch, q_updateTokensFromResponse,
      n_popResponseQueue]⟩,
    ⟨[OM], [Data_All_Tokens], MM_W, [w_assertIncomingDataAndCacheDataMatch, q_updateTokensFromResponse,
      xx_external_store_hit, o_scheduleUseTimeout, j_unsetReissueTimer, n_popResponseQueue]⟩,
    ⟨[OM], [Request_Timeout], none, [j_unsetReissueTimer, b_issueWriteRequest]⟩,
    -- IS
    ⟨[IS], [Ack], none, [q_updateTokensFromResponse, n_popResponseQueue]⟩,
    ⟨[IS], [Data_Shared], S, [u_writeDataToCache, q_updateTokensFromResponse, x_external_load_hit, s_deallocateTBE,
      j_unsetReissueTimer, n_popResponseQueue]⟩,
    ⟨[IS], [Data_Owner], O, [u_writeDataToCache, q_updateTokensFromResponse, x_external_load_hit, s_deallocateTBE,
      j_unsetReissueTimer, n_popResponseQueue]⟩,
    ⟨[IS], [Data_All_Tokens], M_W, [u_writeDataToCache, q_updateTokensFromResponse, x_external_load_hit,
      o_scheduleUseTimeout, j_unsetReissueTimer, n_popResponseQueue]⟩,
    ⟨[IS], [Request_Timeout], none, [j_unsetReissueTimer, a_issueReadRequest]⟩,
    -- I_L, S_L
    ⟨[I_L], [Load], IS_L, [ii_allocateL1DCacheBlock, i_allocateTBE, a_issueReadRequest, uu_profileMiss,
      k_popMandatoryQueue]⟩,
    ⟨[I_L], [Ifetch], IS_L, [pp_allocateL1ICacheBlock, i_allocateTBE, a_issueReadRequest, uu_profileMiss,
      k_popMandatoryQueue]⟩,
    ⟨[I_L], [Store], IM_L, [ii_allocateL1DCacheBlock, i_allocateTBE, b_issueWriteRequest, uu_profileMiss,
      k_popMandatoryQueue]⟩,
    ⟨[S_L], [Store], SM_L, [i_allocateTBE, b_issueWriteRequest, uu_profileMiss, k_popMandatoryQueue]⟩,
    -- the other locked states
    ⟨[I_L, IM_L, IS_L, S_L, SM_L], [Transient_GETS, Transient_GETS_Last_Token, Transient_Local_GETS_Last_Token,
      Transient_Local_GETS, Transient_GETX, Transient_Local_GETX], none, [m_popRequestQueue]⟩,
    ⟨[I_L, IM_L, IS_L, S_L, SM_L], [Ack], none, [g_bounceResponseToStarver, n_popResponseQueue]⟩,
    ⟨[I_L, IM_L, S_L, SM_L], [Data_Shared, Data_Owner], none, [g_bounceResponseToStarver, n_popResponseQueue]⟩,
    ⟨[I_L, S_L], [Data_All_Tokens], none, [g_bounceResponseToStarver, n_popResponseQueue]⟩,
    ⟨[IS_L], [Request_Timeout], none, [j_unsetReissueTimer, a_issueReadRequest]⟩,
    ⟨[IM_L, SM_L], [Request_Timeout], none, [j_unsetReissueTimer, b_issueWriteRequest]⟩,
    ⟨[IM_L], [Data_All_Tokens], MM_W, [u_writeDataToCache, q_updateTokensFromResponse, xx_external_store_hit,
      j_unsetReissueTimer, o_scheduleUseTimeout, n_popResponseQueue]⟩,
    ⟨[SM_L], [Data_All_Tokens], S_L, [u_writeDataToCache, q_updateTokensFromResponse, xx_external_store_hit,
      ff_sendDataWithAllButNorOneTokens, s_deallocateTBE, j_unsetReissueTimer, n_popResponseQueue]⟩,
    ⟨[IS_L], [Data_Shared], I_L, [u_writeDataToCache, q_updateTokensFromResponse, x_external_load_hit,
      s_deallocateTBE, e_sendAckWithCollectedTokens, p_informL2AboutTokenLoss, j_unsetReissueTimer,
      n_popResponseQueue]⟩,
    ⟨[IS_L], [Data_Owner], I_L, [u_writeDataToCache, q_updateTokensFromResponse, x_external_load_hit,
      ee_sendDataWithAllTokens, s_deallocateTBE, p_informL2AboutTokenLoss, j_unsetReissueTimer, n_popResponseQueue]⟩,
    ⟨[IS_L], [Data_All_Tokens], M_W, [u_writeDataToCache, q_updateTokensFromResponse, x_external_load_hit,
      j_unsetReissueTimer, o_scheduleUseTimeout, n_popResponseQueue]⟩,
    -- unlocking
    ⟨[I_L], [Own_Lock_or_Unlock], I, [l_popPersistentQueue]⟩,
    ⟨[S_L], [Own_Lock_or_Unlock], S, [l_popPersistentQueue]⟩,
    ⟨[IM_L], [Own_Lock_or_Unlock], IM, [l_popPersistentQueue]⟩,
    ⟨[IS_L], [Own_Lock_or_Unlock], IS, [l_popPersistentQueue]⟩,
    ⟨[SM_L], [Own_Lock_or_Unlock], SM, [l_popPersistentQueue]⟩ ]

def rules : List (Rule State Event Action) := baseRules ++ transientRules

variable {n : Nat}

variable (l : L1 n)

def isCacheTagPresent : Bool := l.dcache.isSome || l.icache.isSome

/-- `getCacheEntry`: the lookup asserts presence. -/
def getCacheEntry : Except Fault (Entry State) := present (l.dcache.or l.icache)

/-- Change the entry that `getCacheEntry` returns. -/
def setCacheEntry (e : Entry State) : L1 n :=
  if l.dcache.isSome then { l with dcache := some e } else { l with icache := l.icache.map fun _ => e }

def getTokens : Int :=
  match l.dcache.or l.icache with
  | some e => e.tokens
  | none => 0

def getState (i : Fin n) : Except Fault State := do
  ensure .assert (¬ (l.dcache.isSome ∧ l.icache.isSome))
  match l.tbe, l.dcache.or l.icache with
  | some t, _ => .ok t.tbeState
  | none, some e => .ok e.cacheState
  | none, none =>
    if l.persistentTable.isLocked then do
      let m ← l.persistentTable.findSmallest
      .ok (if m ≠ .L1Cache i then .I_L else .NP)
    else
      .ok .NP

def setState (p : Params) (l : L1 n) (q : State) : Except Fault (L1 n) := do
  ensure .assert (¬ (l.dcache.isSome ∧ l.icache.isSome))
  ensure .assert (l.tbe.isSome → q ∉ [.I, .S, .O, .MM, .M])
  let l : L1 n := { l with tbe := l.tbe.map fun t => { t with tbeState := q } }
  match l.dcache.or l.icache with
  | none => .ok l
  | some e => do
    ensure .assert (0 ≤ e.tokens)
    ensure .assert (e.tokens ≤ p.maxTokens)
    ensure .assert (q ∈ [.I_L, .IM_L, .IS_L] → e.tokens = 0)
    ensure .assert (q ∈ [.S_L, .SM_L] → 1 ≤ e.tokens)
    ensure .assert (q ∈ [.MM, .M, .MM_W, .M_W] → e.tokens = p.maxTokens)
    ensure .assert (q = .NP → e.tokens = 0)
    ensure .assert (q ∈ [.S, .SM] → 0 < e.tokens)
    -- no state is both O and OM
    ensure .assert (q = .O ∧ q = .OM → 1 ≤ e.tokens ∧ p.maxTokens / 2 ≤ e.tokens)
    .ok (l.setCacheEntry { e with cacheState := q })

end L1

namespace Block

variable {n : Nat}

/-- The entry `e` of the L1 cache `i` sends `m`, and `k` tokens are left. -/
def l1Send (s : Block n) (i : Fin n) (e : Entry L1.State) (m : ResponseMsg n) (k : Int) : Block n :=
  (s.setL1 i ((s.l1 i).setCacheEntry { e with tokens := k })).respond m

def l1SetReissueTimer (s : Block n) (i : Fin n) : Except Fault (Block n) := do
  ensure .assert ((s.l1 i).reissueTimer = false)
  .ok (s.setL1 i { s.l1 i with reissueTimer := true })

/-- What `a_issueReadRequest` and `b_issueWriteRequest` have in common. -/
def l1Issue (p : Params) (s : Block n) (i : Fin n) (t : CoherenceRequestType) (pt : PersistentRequestType) :
    Except Fault (Block n) := do
  let l := s.l1 i
  let tbe ← present l.tbe
  if tbe.issueCount ≥ p.retryThreshold then
    if l.persistentTable.okToIssueStarving (.L1Cache i) ∧ s.l1Starving i = false then do
      let table ← l.persistentTable.markEntries
      let tbe := { tbe with issueCount := tbe.issueCount + 1, wentPersistent := true }
      let s := s.broadcastPersistent (.L1Cache i) pt
      let s := s.setL1 i { l with persistentTable := table, tbe := some tbe }
      .ok { s with l1Starving := Function.update s.l1Starving i true }
    else
      s.l1SetReissueTimer i
  else do
    let m : RequestMsg n := { type := t, requestor := .L1Cache i, retryNum := tbe.issueCount }
    let others := (List.finRange n).filter (· ≠ i)
    let s := s.broadcast [.L2Cache] m
    let s := s.broadcast (others.map .L1Cache) { m with isLocal := true }
    let s := s.setL1 i { l with tbe := some { tbe with issueCount := tbe.issueCount + 1 } }
    s.l1SetReissueTimer i

open L1.Action in
/-- The actions of the L1 cache `i`. A persistent request that is handled has come from `src`; `write` is what the
sequencer writes into the block when a store completes. -/
def l1Act (p : Params) (i : Fin n) (src : MachineID n) (write : DataBlock → DataBlock) (a : L1.Action) (s : Block n) :
    Except Fault (Block n) :=
  let me : MachineID n := .L1Cache i
  let l := s.l1 i
  match a with
  | a_issueReadRequest => s.l1Issue p i .GETS .GETS_PERSISTENT
  | b_issueWriteRequest => s.l1Issue p i .GETX .GETX_PERSISTENT
  | bb_bounceResponse => do
    let m ← s.inResponse
    .ok (s.respond { m with sender := me, destination := .Directory })
  | c_ownedReplacement => do
    let e ← l.getCacheEntry
    .ok (s.l1Send i e (e.msg .WB_OWNED me .L2Cache e.tokens e.dirty .Writeback_Data) 0)
  | cc_sharedReplacement => do
    let e ← l.getCacheEntry
    if e.tokens ≠ 0 then
      if e.tokens > 1 then
        .ok (s.l1Send i e (e.msg .WB_SHARED_DATA me .L2Cache e.tokens false .Writeback_Data) 0)
      else
        .ok (s.l1Send i e (e.msg .WB_TOKENS me .L2Cache e.tokens false .Writeback_Control) 0)
    else
      .ok s
  | d_sendDataWithToken => do
    let r ← s.inRequest
    let e ← l.getCacheEntry
    ensure .assert (1 ≤ e.tokens - 1)
    .ok (s.l1Send i e (e.msg .DATA_SHARED me r.requestor 1 false r.dataSize) (e.tokens - 1))
  | d_sendDataWithNTokenIfAvail => do
    let r ← s.inRequest
    let e ← l.getCacheEntry
    if e.tokens > p.nTokens then
      .ok (s.l1Send i e (e.msg .DATA_SHARED me r.requestor p.nTokens false r.dataSize) (e.tokens - p.nTokens))
    else if e.tokens > 1 then
      .ok (s.l1Send i e (e.msg .DATA_SHARED me r.requestor 1 false r.dataSize) (e.tokens - 1))
    else
      .ok s
  | dd_sendDataWithAllTokens => do
    let r ← s.inRequest
    let e ← l.getCacheEntry
    ensure .assert (1 ≤ e.tokens)
    .ok (s.l1Send i e (e.msg .DATA_OWNER me r.requestor e.tokens e.dirty r.dataSize) 0)
  | e_sendAckWithCollectedTokens => do
    let e ← l.getCacheEntry
    if e.tokens > 0 then do
      let starver ← l.persistentTable.findSmallest
      .ok (s.l1Send i e (ack me starver e.tokens .Response_Control) 0)
    else
      .ok (s.setL1 i (l.setCacheEntry { e with tokens := 0 }))
  | ee_sendDataWithAllTokens => do
    let e ← l.getCacheEntry
    ensure .assert (0 < e.tokens)
    let starver ← l.persistentTable.findSmallest
    .ok (s.l1Send i e (e.msg .DATA_OWNER me starver e.tokens e.dirty .Response_Data) 0)
  | f_sendAckWithAllButNorOneTokens => do
    let e ← l.getCacheEntry
    ensure .assert (0 < e.tokens)
    let left := if e.tokens > p.nTokens then p.nTokens else 1
    if e.tokens > 1 then do
      let starver ← l.persistentTable.findSmallest
      .ok (s.l1Send i e (ack me starver (e.tokens - left) .Response_Control) left)
    else
      .ok (s.setL1 i (l.setCacheEntry { e with tokens := left }))
  | ff_sendDataWithAllButNorOneTokens => do
    let e ← l.getCacheEntry
    ensure .assert (0 < e.tokens)
    let left := if e.tokens > p.nTokens then p.nTokens else 1
    if e.tokens > 1 then do
      let starver ← l.persistentTable.findSmallest
      .ok (s.l1Send i e (e.msg .DATA_OWNER me starver (e.tokens - left) e.dirty .Response_Data) left)
    else
      .ok s
  | g_bounceResponseToStarver => do
    let m ← s.inResponse
    let starver ← l.persistentTable.findSmallest
    .ok (s.respond { m with sender := me, destination := starver })
  | h_load_hit => do
    let e ← l.getCacheEntry
    .ok { s with log := s.log ++ [.load i e.dataBlk] }
  | x_external_load_hit => do
    let e ← l.getCacheEntry
    let _ ← s.inResponse
    .ok { s with log := s.log ++ [.load i e.dataBlk] }
  | hh_store_hit => do
    let e ← l.getCacheEntry
    let s := s.setL1 i (l.setCacheEntry { e with dataBlk := write e.dataBlk, dirty := true })
    .ok { s with log := s.log ++ [.store i (write e.dataBlk)] }
  | xx_external_store_hit => do
    let e ← l.getCacheEntry
    let _ ← s.inResponse
    let s := s.setL1 i (l.setCacheEntry { e with dataBlk := write e.dataBlk, dirty := true })
    .ok { s with log := s.log ++ [.store i (write e.dataBlk)] }
  | i_allocateTBE => do
    ensure .assert l.tbe.isNone
    .ok (s.setL1 i { l with tbe := some {} })
  | j_unsetReissueTimer => .ok (s.setL1 i { l with reissueTimer := false })
  | jj_unsetUseTimer => do
    ensure .assert l.useTimer
    .ok (s.setL1 i { l with useTimer := false })
  | l_popPersistentQueue => .ok (s.popPersistent src me)
  | m_popRequestQueue => .ok s.popRequest
  | n_popResponseQueue => .ok s.popResponse
  | o_scheduleUseTimeout => do
    ensure .assert (l.useTimer = false)
    .ok (s.setL1 i { l with useTimer := true })
  | p_informL2AboutTokenLoss =>
    .ok (s.respond { ack me .L2Cache 0 .Response_Control with type := .INV })
  | q_updateTokensFromResponse => do
    let m ← s.inResponse
    ensure .assert (m.tokens ≠ 0)
    let e ← l.getCacheEntry
    .ok (s.setL1 i (l.setCacheEntry { e with tokens := e.tokens + m.tokens, dirty := e.dirty || m.dirty }))
  | s_deallocateTBE => do
    let t ← present l.tbe
    let s := s.setL1 i { l with tbe := none }
    if t.wentPersistent then
      let s := s.broadcastPersistent me .DEACTIVATE_PERSISTENT
      .ok { s with l1Starving := Function.update s.l1Starving i false }
    else
      .ok s
  | t_sendAckWithCollectedTokens => do
    let e ← l.getCacheEntry
    if e.tokens > 0 then do
      let r ← s.inRequest
      .ok (s.l1Send i e (ack me r.requestor e.tokens .Response_Control) 0)
    else
      .ok (s.setL1 i (l.setCacheEntry { e with tokens := 0 }))
  | u_writeDataToCache => do
    let m ← s.inResponse
    let e ← l.getCacheEntry
    .ok (s.setL1 i (l.setCacheEntry { e with dataBlk := m.dataBlk, dirty := e.dirty || m.dirty }))
  | gg_deallocateL1CacheBlock => do
    ensure .assert l.isCacheTagPresent
    .ok (s.setL1 i (if l.dcache.isSome then { l with dcache := none } else { l with icache := none }))
  | ii_allocateL1DCacheBlock => .ok (s.setL1 i { l with dcache := some (l.dcache.getD { cacheState := .I }) })
  | pp_allocateL1ICacheBlock => .ok (s.setL1 i { l with icache := some (l.icache.getD { cacheState := .I }) })
  | w_assertIncomingDataAndCacheDataMatch => do
    let m ← s.inResponse
    let e ← l.getCacheEntry
    ensure .assert (e.dataBlk.equal p.blockSize m.dataBlk)
    .ok s
  -- the mandatory queue is the environment's
  | k_popMandatoryQueue | uu_profileMiss | zz_recycleMandatoryQueue => .ok s

def l1Cache (p : Params) (i : Fin n) (src : MachineID n) (write : DataBlock → DataBlock) :
    Controller (Block n) Fault L1.State L1.Event L1.Action where
  rules := L1.rules
  getState s := (s.l1 i).getState i
  setState s q := do
    let l ← (s.l1 i).setState p q
    .ok (s.setL1 i l)
  act := l1Act p i src write
  stall _ := false
  invalid := .invalidTransition

/-! ## Input ports of the L1 cache -/

section ports

variable (p : Params) (i : Fin n) (write : DataBlock → DataBlock) (s : Block n)

/-- An event that is not about a persistent request. -/
def l1Trigger (e : L1.Event) : Except Fault (Block n) := (l1Cache p i (.L1Cache i) write).trigger e s

def l1UseTimerTableIn : Except Fault (Block n) := do
  let t := (s.l1 i).persistentTable
  if (s.l1 i).useTimer then
    if t.isLocked then do
      let m ← t.findSmallest
      if m ≠ .L1Cache i then do
        let type ← t.typeOfSmallest
        s.l1Trigger p i write (if type = .Write then .Use_TimeoutStarverX else .Use_TimeoutStarverS)
      else
        s.l1Trigger p i write .Use_TimeoutNoStarvers
    else
      s.l1Trigger p i write .Use_TimeoutNoStarvers
  else
    .ok s

def l1ReissueTimerTableIn : Except Fault (Block n) :=
  if (s.l1 i).reissueTimer then s.l1Trigger p i write .Request_Timeout else .ok s

/-- What a persistent request means to the L1 cache, by its table. -/
def l1PersistentEvent (t : PersistentTable n) : Except Fault L1.Event := do
  if t.isLocked then do
    let m ← t.findSmallest
    if m = .L1Cache i then
      .ok .Own_Lock_or_Unlock
    else do
      let type ← t.typeOfSmallest
      .ok (if type = .Read then .Persistent_GETS else .Persistent_GETX)
  else
    .ok .Own_Lock_or_Unlock

/-- `persistentNetwork_in`, for a message from `src`. -/
def l1PersistentNetworkIn (src : MachineID n) : Except Fault (Block n) :=
  match s.persistent src (.L1Cache i) with
  | [] => .ok s
  | m :: _ => do
    let t ← (s.l1 i).persistentTable.update m
    let e ← l1PersistentEvent i t
    (l1Cache p i src write).trigger e (s.setL1 i { s.l1 i with persistentTable := t })

/-- What a request means to the L1 cache. -/
def l1RequestEvent (r : RequestMsg n) : L1.Event :=
  match r.type with
  | .GETX => if r.isLocal then .Transient_Local_GETX else .Transient_GETX
  | .GETS =>
    if (s.l1 i).isCacheTagPresent ∧ (s.l1 i).getTokens = 1 then
      if r.isLocal then .Transient_Local_GETS_Last_Token else .Transient_GETS_Last_Token
    else
      if r.isLocal then .Transient_Local_GETS else .Transient_GETS

def l1RequestNetworkIn (r : RequestMsg n) : Except Fault (Block n) := s.l1Trigger p i write (l1RequestEvent i s r)

/-- What a response means to the L1 cache. -/
def l1ResponseEvent (m : ResponseMsg n) : Except Fault L1.Event :=
  if (s.l1 i).getTokens + m.tokens ≠ p.maxTokens then
    match m.type with
    | .ACK => .ok .Ack
    | .DATA_OWNER => .ok .Data_Owner
    | .DATA_SHARED => .ok .Data_Shared
    | _ => .error .error
  else
    match m.type with
    | .ACK => .ok .Ack_All_Tokens
    | .DATA_OWNER | .DATA_SHARED => .ok .Data_All_Tokens
    | _ => .error .error

def l1ResponseNetworkIn (m : ResponseMsg n) : Except Fault (Block n) := do
  let e ← l1ResponseEvent p i s m
  s.l1Trigger p i write e

end ports

/-- What a processor asks for. -/
inductive CacheRequestType
  | LD | IFETCH | ST | ATOMIC
deriving DecidableEq

/-- `mandatory_request_type_to_event`. -/
def CacheRequestType.event : CacheRequestType → L1.Event
  | .LD => .Load
  | .IFETCH => .Ifetch
  | .ST | .ATOMIC => .Store

/-- `mandatoryQueue_in`; `avail` is the answer of `cacheAvail`. Without room another block is replaced. -/
def l1MandatoryQueueIn (p : Params) (i : Fin n) (write : DataBlock → DataBlock) (type : CacheRequestType) (avail : Bool)
    (s : Block n) : Except Fault (Block n) :=
  let here := if type = .IFETCH then (s.l1 i).icache else (s.l1 i).dcache
  let other := if type = .IFETCH then (s.l1 i).dcache else (s.l1 i).icache
  if other.isSome then s.l1Trigger p i write .L1_Replacement
  else if here.isSome ∨ avail then s.l1Trigger p i write type.event
  else .ok s

end Block

end M5.Ruby.Token
