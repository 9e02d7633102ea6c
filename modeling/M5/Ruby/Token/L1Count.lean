import M5.Ruby.Token.Count

/-!
# MOESI_CMP_token: the L1 cache keeps the tokens
-/

namespace M5.Ruby.Token

open M5.Lib Function Option

variable {n : Nat}

namespace L1

variable {l : L1 n} {e e' : Entry State}

/-! ## Entries -/

section

variable (h : l.getCacheEntry = .ok e)

include h

theorem getTokens_of_entry : l.getTokens = e.tokens := by
  rw [getTokens, present_eq_ok.1 h]

theorem entry_cases :
    (l.dcache = some e ∧ ∀ e', l.setCacheEntry e' = { l with dcache := some e' }) ∨
    (l.dcache = none ∧ l.icache = some e ∧ ∀ e', l.setCacheEntry e' = { l with icache := some e' }) := by
  have ho := present_eq_ok.1 h
  cases hd : l.dcache with
  | some a =>
    rw [hd] at ho
    cases ho
    exact .inl ⟨rfl, fun e' => by simp [setCacheEntry, hd]⟩
  | none =>
    rw [hd, none_or] at ho
    exact .inr ⟨rfl, ho, fun e' => by simp [setCacheEntry, hd, ho]⟩

theorem getTokens_setCacheEntry : (l.setCacheEntry e').getTokens = e'.tokens := by
  rcases entry_cases h with ⟨_, hs⟩ | ⟨hd, _, hs⟩
  · rw [hs]; rfl
  · rw [hs, hd]; rfl

theorem tokens_setCacheEntry : (l.setCacheEntry e').tokens = l.tokens - e.tokens + e'.tokens := by
  rcases entry_cases h with ⟨hd, hs⟩ | ⟨hd, hi, hs⟩
  · simp only [hs, tokens, hd, elim_some]
    omega
  · simp only [hs, tokens, hd, hi, elim_some, elim_none]
    omega

end

end L1

/-! ## Actions that touch neither entries nor responses -/

/-- Nothing that counts has changed. -/
structure L1.Quiet (i : Fin n) (s s' : Block n) : Prop extends Block.Beside (.L1Cache i) s s' where
  dcache : (s'.l1 i).dcache = (s.l1 i).dcache
  icache : (s'.l1 i).icache = (s.l1 i).icache
  log : s'.log = s.log

namespace L1

variable {p : Params} {i : Fin n} {src : MachineID n} {write : DataBlock → DataBlock} {a : Action} {s s' s'' : Block n}

theorem Quiet.refl : Quiet i s s := ⟨.refl, rfl, rfl, rfl⟩

theorem Quiet.trans (h : Quiet i s s') (h' : Quiet i s' s'') : Quiet i s s'' :=
  ⟨⟨h.toElsewhere.trans h'.toElsewhere, h'.responses.trans h.responses⟩, h'.dcache.trans h.dcache,
    h'.icache.trans h.icache, h'.log.trans h.log⟩

theorem beside_of_eq (h1 : s'.l1 = s.l1) (h2 : s'.l2 = s.l2) (hd : s'.dir = s.dir)
    (hm : s'.dmaRequestToDir = s.dmaRequestToDir) (hr : s'.responses = s.responses) : s.Beside (.L1Cache i) s' :=
  ⟨⟨fun j _ => congrFun h1 j, fun _ => h2, fun _ => hd, fun _ => hm⟩, hr⟩

theorem Quiet.of_eq {l : L1 n} (h1 : s'.l1 = update s.l1 i l) (h2 : s'.l2 = s.l2) (hd : s'.dir = s.dir)
    (hm : s'.dmaRequestToDir = s.dmaRequestToDir) (hr : s'.responses = s.responses) (hl : s'.log = s.log)
    (hdc : l.dcache = (s.l1 i).dcache) (hic : l.icache = (s.l1 i).icache) : Quiet i s s' := by
  refine ⟨⟨⟨fun j hj => ?_, fun _ => h2, fun _ => hd, fun _ => hm⟩, hr⟩, ?_, ?_, hl⟩
  · rw [h1, update_of_ne fun h => hj (congrArg _ h)]
  · rw [h1, update_self, hdc]
  · rw [h1, update_self, hic]

theorem quiet_setReissueTimer : Ends (Quiet i s) (s.l1SetReissueTimer i) :=
  .bind fun _ => .ok (.of_eq rfl rfl rfl rfl rfl rfl rfl rfl)

theorem quiet_issue {t : CoherenceRequestType} {pt : PersistentRequestType} :
    Ends (Quiet i s) (s.l1Issue p i t pt) := by
  refine .bind fun tbe => .ite (.ite (.bind fun table => .ok ?_) quiet_setReissueTimer)
    (quiet_setReissueTimer.mono fun _ h => .trans ?_ h)
  · exact .of_eq rfl rfl rfl rfl rfl rfl rfl rfl
  · exact .of_eq rfl rfl rfl rfl rfl rfl rfl rfl

/-- Actions about requests, timers, TBEs and queues. -/
def Action.quiet : Action → Bool
  | a_issueReadRequest | b_issueWriteRequest | i_allocateTBE | j_unsetReissueTimer | jj_unsetUseTimer
  | k_popMandatoryQueue | l_popPersistentQueue | m_popRequestQueue | o_scheduleUseTimeout | s_deallocateTBE |
    uu_profileMiss
  | w_assertIncomingDataAndCacheDataMatch | zz_recycleMandatoryQueue => true
  | _ => false

theorem quiet_act (ha : a.quiet) : Ends (Quiet i s) (Block.l1Act p i src write a s) := by
  cases a <;> cases ha
  case a_issueReadRequest | b_issueWriteRequest => exact quiet_issue
  case i_allocateTBE | jj_unsetUseTimer | o_scheduleUseTimeout =>
    exact .bind fun _ => .ok (.of_eq rfl rfl rfl rfl rfl rfl rfl rfl)
  case j_unsetReissueTimer => exact .ok (.of_eq rfl rfl rfl rfl rfl rfl rfl rfl)
  case k_popMandatoryQueue | uu_profileMiss | zz_recycleMandatoryQueue => exact .ok .refl
  case l_popPersistentQueue | m_popRequestQueue => exact .ok ⟨beside_of_eq rfl rfl rfl rfl rfl, rfl, rfl, rfl⟩
  case s_deallocateTBE =>
    exact .bind fun _ => .ite (.ok (.of_eq rfl rfl rfl rfl rfl rfl rfl rfl))
      (.ok (.of_eq rfl rfl rfl rfl rfl rfl rfl rfl))
  case w_assertIncomingDataAndCacheDataMatch => exact .bind fun _ => .bind fun _ => .bind fun _ => .ok .refl

/-! ## Actions that send tokens of the entry -/

section sends

open L1.Action

/-- Actions that send tokens of the entry. -/
def Action.sends : Action → Bool
  | c_ownedReplacement | cc_sharedReplacement | d_sendDataWithToken | d_sendDataWithNTokenIfAvail
  | dd_sendDataWithAllTokens | e_sendAckWithCollectedTokens | ee_sendDataWithAllTokens | f_sendAckWithAllButNorOneTokens
  | ff_sendDataWithAllButNorOneTokens | t_sendAckWithCollectedTokens => true
  | _ => false

def Action.types : Action → List CoherenceResponseType
  | c_ownedReplacement => [.WB_OWNED]
  | cc_sharedReplacement => [.WB_SHARED_DATA, .WB_TOKENS]
  | d_sendDataWithToken | d_sendDataWithNTokenIfAvail => [.DATA_SHARED]
  | dd_sendDataWithAllTokens | ee_sendDataWithAllTokens | ff_sendDataWithAllButNorOneTokens => [.DATA_OWNER]
  | e_sendAckWithCollectedTokens | f_sendAckWithAllButNorOneTokens | t_sendAckWithCollectedTokens => [.ACK]
  | _ => []

theorem inv_notMem_types (a : Action) : .INV ∉ a.types := by cases a <;> decide

/-- How many tokens they leave of `k`. -/
def Action.left (p : Params) (k : Int) : Action → Int
  | d_sendDataWithToken => k - 1
  | d_sendDataWithNTokenIfAvail => if k > p.nTokens then k - p.nTokens else if k > 1 then k - 1 else k
  | f_sendAckWithAllButNorOneTokens | ff_sendDataWithAllButNorOneTokens => if k > p.nTokens then p.nTokens else 1
  | _ => 0

/-- How many tokens they ask for. -/
def Action.asks : Action → Int
  | d_sendDataWithToken => 2
  | dd_sendDataWithAllTokens | ee_sendDataWithAllTokens | f_sendAckWithAllButNorOneTokens
  | ff_sendDataWithAllButNorOneTokens => 1
  | _ => 0

theorem left_nonneg {k : Int} (hN : 1 ≤ p.nTokens) (hk : 0 ≤ k) (ha : a.asks ≤ k) :
    0 ≤ a.left p k ∧ a.left p k ≤ k := by
  cases a <;> simp only [left, asks] at ha ⊢ <;> omega

/-- The block with the entry `e` in the L1 cache `i`. -/
abbrev put (s : Block n) (i : Fin n) (e : Entry State) : Block n := s.setL1 i ((s.l1 i).setCacheEntry e)

theorem put_self {e : Entry State} (he : (s.l1 i).getCacheEntry = .ok e) : put s i e = s := by
  have h : (s.l1 i).setCacheEntry e = s.l1 i := by
    rcases entry_cases he with ⟨hd, hs⟩ | ⟨_, hi, hs⟩
    · rw [hs, ← hd]
    · rw [hs, ← hi]
  rw [put, h, Block.setL1, update_eq_self]

theorem sends_act (hN : 1 ≤ p.nTokens) (hs : a.sends) (h0 : ∀ e, (s.l1 i).getCacheEntry = .ok e → 0 ≤ e.tokens)
    (ha : Block.l1Act p i src write a s = .ok s') : ∃ e, (s.l1 i).getCacheEntry = .ok e ∧ a.asks ≤ e.tokens ∧
      Gives s e (put s i) a.types (a.left p e.tokens) s' := by
  cases a <;> cases hs
  case c_ownedReplacement =>
    obtain ⟨e, he, rfl⟩ := of_map ha
    exact ⟨e, he, h0 e he, .inr ⟨_, .owner (by decide) (Int.sub_zero _).symm (by simp), id, rfl⟩⟩
  case cc_sharedReplacement =>
    obtain ⟨e, he, ha⟩ := of_bind ha
    refine ⟨e, he, h0 e he, ?_⟩
    split at ha
    · split at ha <;> cases ha <;> exact .inr ⟨_, .shared (by decide) (Int.sub_zero _).symm rfl, id, rfl⟩
    case isFalse hk =>
      cases ha
      exact .inl ⟨not_not.1 hk, rfl⟩
  case d_sendDataWithToken =>
    obtain ⟨r, -, ha⟩ := of_bind ha
    obtain ⟨e, he, ha⟩ := of_bind ha
    obtain ⟨hk, rfl⟩ := of_check ha
    refine ⟨e, he, by simp only [asks]; omega, .inr ⟨_, ?_, fun _ => by simp only [left]; omega, rfl⟩⟩
    exact .shared (by decide) (by simp only [left]; omega) rfl
  case d_sendDataWithNTokenIfAvail =>
    obtain ⟨r, -, ha⟩ := of_bind ha
    obtain ⟨e, he, ha⟩ := of_bind ha
    refine ⟨e, he, h0 e he, ?_⟩
    simp only [left]
    split at ha
    case isTrue hk =>
      cases ha
      rw [if_pos hk]
      exact .inr ⟨_, .shared (by decide) (by omega) rfl, fun _ => by omega, rfl⟩
    case isFalse hk =>
      rw [if_neg hk]
      split at ha
      case isTrue h1 =>
        cases ha
        rw [if_pos h1]
        exact .inr ⟨_, .shared (by decide) (by omega) rfl, fun _ => by omega, rfl⟩
      case isFalse h1 =>
        cases ha
        rw [if_neg h1]
        exact .inl ⟨rfl, rfl⟩
  case dd_sendDataWithAllTokens =>
    obtain ⟨r, -, ha⟩ := of_bind ha
    obtain ⟨e, he, ha⟩ := of_bind ha
    obtain ⟨hk, rfl⟩ := of_check ha
    exact ⟨e, he, hk, .inr ⟨_, .owner (by decide) (Int.sub_zero _).symm (by simp), id, rfl⟩⟩
  case ee_sendDataWithAllTokens =>
    obtain ⟨e, he, ha⟩ := of_bind ha
    obtain ⟨hk, ha⟩ := of_ensure ha
    obtain ⟨v, -, rfl⟩ := of_map ha
    exact ⟨e, he, hk, .inr ⟨_, .owner (by decide) (Int.sub_zero _).symm (by simp), id, rfl⟩⟩
  case e_sendAckWithCollectedTokens | t_sendAckWithCollectedTokens =>
    obtain ⟨e, he, ha⟩ := of_bind ha
    refine ⟨e, he, h0 e he, ?_⟩
    split at ha
    · obtain ⟨v, -, rfl⟩ := of_map ha
      exact .inr ⟨_, .ack (by decide) (Int.sub_zero _).symm, id, rfl⟩
    case isFalse hk =>
      have hk' : e.tokens = 0 := by have := h0 e he; omega
      cases ha
      refine .inl ⟨hk', ?_⟩
      rw [← hk']
      exact put_self he
  case f_sendAckWithAllButNorOneTokens =>
    obtain ⟨e, he, ha⟩ := of_bind ha
    obtain ⟨hk, ha⟩ := of_ensure ha
    refine ⟨e, he, hk, ?_⟩
    dsimp only at ha
    split at ha
    case isTrue h1 =>
      obtain ⟨v, -, rfl⟩ := of_map ha
      exact .inr ⟨_, .ack (by decide) rfl, fun _ => by simp only [left]; omega, rfl⟩
    case isFalse h1 =>
      have hk' : e.tokens = if e.tokens > p.nTokens then p.nTokens else 1 := by split <;> omega
      cases ha
      refine .inl ⟨hk', ?_⟩
      rw [← hk']
      exact put_self he
  case ff_sendDataWithAllButNorOneTokens =>
    obtain ⟨e, he, ha⟩ := of_bind ha
    obtain ⟨hk, ha⟩ := of_ensure ha
    refine ⟨e, he, hk, ?_⟩
    dsimp only at ha
    split at ha
    case isTrue h1 =>
      obtain ⟨v, -, rfl⟩ := of_map ha
      exact .inr ⟨_, .owner (by decide) rfl (by simp), fun _ => by simp only [left]; omega, rfl⟩
    case isFalse h1 =>
      cases ha
      exact .inl ⟨by simp only [left]; split <;> omega, rfl⟩

end sends

/-! ## Following the tokens -/

section follow

open L1.Action

/-- What an action does to the tokens. -/
def follow (x : Abs) : Action → Option Abs
  | bb_bounceResponse | g_bounceResponseToStarver => x.settle x.count
  | q_updateTokensFromResponse => x.settle x.count.succ
  | n_popResponseQueue => x.drop
  | c_ownedReplacement | cc_sharedReplacement | dd_sendDataWithAllTokens | e_sendAckWithCollectedTokens
  | ee_sendDataWithAllTokens | t_sendAckWithCollectedTokens => some { x with count := .zero }
  | d_sendDataWithToken | f_sendAckWithAllButNorOneTokens | ff_sendDataWithAllButNorOneTokens =>
    some { x with count := .pos }
  | d_sendDataWithNTokenIfAvail => if x.count.some then some { x with count := .pos } else none
  | gg_deallocateL1CacheBlock => if x.count = .zero then some { x with count := .any } else none
  | ii_allocateL1DCacheBlock | pp_allocateL1ICacheBlock => some { x with count := .any }
  | _ => some x

end follow

abbrev Sees (p : Params) (i : Fin n) (m : ResponseMsg n) (s0 : Block n) (x : Abs) (s : Block n) : Prop :=
  Token.Sees p (.L1Cache i) m s0 x s

section sees

variable {m m' : ResponseMsg n} {s0 t : Block n} {x y : Abs} {e e' : Entry State} {k : Int} {c : Count}

theorem setL1_self {l : L1 n} : (t.setL1 i l).l1 i = l := update_self ..

theorem weighAt_setL1 {l : L1 n} : (t.setL1 i l).weighAt Token.tokens (.L1Cache i) = l.tokens := by
  rw [Block.weighAt, setL1_self, tokens_l1]

theorem entryTokens_setL1 {l : L1 n} : (t.setL1 i l).entryTokens (.L1Cache i) = l.getTokens := by
  rw [Block.entryTokens, setL1_self]

theorem nonnegAt_setL1 {l : L1 n} (hd : 0 ≤ l.dcache.elim 0 (·.tokens)) (hi : 0 ≤ l.icache.elim 0 (·.tokens)) :
    (t.setL1 i l).NonnegAt (.L1Cache i) := by
  rw [Block.NonnegAt, setL1_self]
  exact ⟨hd, hi⟩

theorem hasEntry (he : (s.l1 i).getCacheEntry = .ok e) : HasEntry (.L1Cache i) s e (put s i) where
  beside _ := .setL1 _
  count := getTokens_of_entry he
  count_put _ := by rw [entryTokens_setL1, getTokens_setCacheEntry he]
  weigh_put _ := by rw [weighAt_setL1, tokens_setCacheEntry he, Block.weighAt, tokens_l1]
  nonneg h := by
    rcases entry_cases he with ⟨hd, _⟩ | ⟨_, hi, _⟩
    · simpa only [hd, elim_some] using h.1
    · simpa only [hi, elim_some] using h.2
  nonneg_put h _ h0 := by
    rcases entry_cases he with ⟨_, hs⟩ | ⟨_, _, hs⟩
    · rw [put, hs]
      exact nonnegAt_setL1 h0 h.2
    · rw [put, hs]
      exact nonnegAt_setL1 h.1 h0

theorem Sees.same (h : Sees p i m s0 x s) (hb : s.Beside (.L1Cache i) s') (hd : (s'.l1 i).dcache = (s.l1 i).dcache)
    (hi : (s'.l1 i).icache = (s.l1 i).icache) : Sees p i m s0 x s' := by
  have hc := h.count
  have hn := h.nonneg.machine (.L1Cache i)
  simp only [Block.entryTokens, Block.NonnegAt, getTokens, ← hd, ← hi] at hc hn
  refine h.change hb hn hc rfl ?_
  simp only [Block.weighAt, tokens_l1, tokens, hd, hi]

theorem Sees.store (h : Sees p i m s0 x s) (he : (s.l1 i).getCacheEntry = .ok e) {v : DataBlock}
    {log : List (Access (Fin n))} :
    Sees p i m s0 x { put s i { e with dataBlk := v, dirty := true } with log } := by
  have hk : Sees p i m s0 x (put s i { e with dataBlk := v, dirty := true }) := h.keep (hasEntry he) rfl
  exact hk.same (beside_of_eq rfl rfl rfl rfl rfl) rfl rfl

theorem follow_quiet (ha : a.quiet) : follow x a = some x := by
  cases a <;> first | rfl | cases ha

theorem follow_sends {k : Int} (hN : 1 ≤ p.nTokens) (hs : a.sends) (hf : follow x a = some y)
    (hk : a.asks ≤ k) (hx : x.count.Holds k) : ∃ c, y = { x with count := c } ∧ c.Holds (a.left p k) := by
  cases a <;> cases hs <;> simp only [follow, Action.asks, Action.left] at hf hk ⊢
  case d_sendDataWithNTokenIfAvail =>
    split at hf
    case isFalse => cases hf
    case isTrue hc =>
      cases hf
      refine ⟨.pos, rfl, ?_⟩
      have := hx.one_le hc
      simp only [Count.Holds]
      omega
  all_goals
    cases hf
    refine ⟨_, rfl, ?_⟩
    first | rfl | (simp only [Count.Holds]; omega)

theorem Sees.sends (hN : 1 ≤ p.nTokens) (hs : a.sends) (hf : follow x a = some y) (h : Sees p i m s0 x s)
    (ha : Block.l1Act p i src write a s = .ok s') : Sees p i m s0 y s' := by
  obtain ⟨e, he, hk, hg⟩ := sends_act hN hs (fun _ he => h.entry_nonneg (hasEntry he)) ha
  obtain ⟨c, rfl, hc⟩ := follow_sends hN hs hf hk (h.entry_count (hasEntry he))
  exact h.gives (hasEntry he) hg (inv_notMem_types a) (left_nonneg hN (h.entry_nonneg (hasEntry he)) hk) hc

theorem Sees.replace {l : L1 n} (h : Sees p i m s0 x s)
    (hd : l.dcache.elim 0 (·.tokens) = (s.l1 i).dcache.elim 0 (·.tokens))
    (hi : l.icache.elim 0 (·.tokens) = (s.l1 i).icache.elim 0 (·.tokens)) :
    Sees p i m s0 { x with count := .any } (s.setL1 i l) := by
  refine h.change (.setL1 l) (nonnegAt_setL1 ?_ ?_) trivial rfl ?_
  · rw [hd]
    exact h.nonneg.dcache i
  · rw [hi]
    exact h.nonneg.icache i
  · rw [weighAt_setL1, tokens, hd, hi]
    rfl

theorem Sees.deallocate (h : Sees p i m s0 x s) (hx : x.count = .zero) :
    Sees p i m s0 { x with count := .any }
      (s.setL1 i
        (if (s.l1 i).dcache.isSome then { s.l1 i with dcache := none } else { s.l1 i with icache := none })) := by
  have hc : x.count.Holds (s.l1 i).getTokens := h.count
  rw [hx] at hc
  cases hd : (s.l1 i).dcache with
  | some e =>
    refine h.replace ?_ rfl
    simp only [getTokens, hd, some_or, Count.Holds] at hc
    simp [hd, hc]
  | none =>
    refine h.replace (by simp [hd]) ?_
    cases hi : (s.l1 i).icache with
    | none => rfl
    | some e =>
      simp only [getTokens, hd, hi, none_or, Count.Holds] at hc
      simp [hc]

theorem Sees.act (hN : 1 ≤ p.nTokens) (hf : follow x a = some y) (h : Sees p i m s0 x s)
    (ha : Block.l1Act p i src write a s = .ok s') : Sees p i m s0 y s' := by
  by_cases hq : a.quiet
  · obtain rfl : x = y := some.inj ((follow_quiet hq).symm.trans hf)
    have hs := (quiet_act hq).of_eq ha
    exact h.same hs.toBeside hs.dcache hs.icache
  by_cases hs : a.sends
  · exact h.sends hN hs hf ha
  cases a <;> first | exact absurd rfl hq | exact absurd rfl hs | skip
  case bb_bounceResponse =>
    obtain ⟨m1, hm, rfl⟩ := of_map ha
    exact h.bounce hf hm rfl id
  case g_bounceResponseToStarver =>
    obtain ⟨m1, hm, ha⟩ := of_bind ha
    obtain ⟨v, -, rfl⟩ := of_map ha
    exact h.bounce hf hm rfl id
  case h_load_hit =>
    cases hf
    obtain ⟨e, -, rfl⟩ := of_map ha
    exact h.same (beside_of_eq rfl rfl rfl rfl rfl) rfl rfl
  case x_external_load_hit =>
    cases hf
    obtain ⟨e, -, ha⟩ := of_bind ha
    obtain ⟨m1, -, rfl⟩ := of_map ha
    exact h.same (beside_of_eq rfl rfl rfl rfl rfl) rfl rfl
  case hh_store_hit =>
    cases hf
    obtain ⟨e, he, rfl⟩ := of_map ha
    exact h.store he
  case xx_external_store_hit =>
    cases hf
    obtain ⟨e, he, ha⟩ := of_bind ha
    obtain ⟨m1, -, rfl⟩ := of_map ha
    exact h.store he
  case n_popResponseQueue =>
    cases ha
    exact h.pop hf
  case p_informL2AboutTokenLoss =>
    cases hf
    cases ha
    exact h.inform rfl
  case q_updateTokensFromResponse =>
    obtain ⟨m1, hm, ha⟩ := of_bind ha
    obtain ⟨hm0, ha⟩ := of_ensure ha
    obtain ⟨e, he, rfl⟩ := of_map ha
    cases h.inResponse (Abs.settle_eq hf).1 hm
    exact h.take (hasEntry he) hf hm0 rfl
  case u_writeDataToCache =>
    cases hf
    obtain ⟨m1, hm, ha⟩ := of_bind ha
    obtain ⟨e, he, rfl⟩ := of_map ha
    exact h.keep (hasEntry he) rfl
  case gg_deallocateL1CacheBlock =>
    simp only [follow] at hf
    split at hf
    case isFalse => cases hf
    case isTrue hx =>
      cases hf
      obtain ⟨-, rfl⟩ := of_check ha
      exact h.deallocate hx
  case ii_allocateL1DCacheBlock =>
    cases hf
    cases ha
    refine h.replace ?_ rfl
    cases hd : (s.l1 i).dcache <;> rfl
  case pp_allocateL1ICacheBlock =>
    cases hf
    cases ha
    refine h.replace rfl ?_
    cases hd : (s.l1 i).icache <;> rfl

end sees

/-! ## Rules -/

def Event.response : Event → Bool
  | .Data_Shared | .Data_Owner | .Data_All_Tokens | .Ack | .Ack_All_Tokens => true
  | _ => false

/-- What is known when the event `e` happens in the state `q`. -/
def start (q : State) (e : Event) : Abs where
  count := if q.readable then .pos else .any
  hand := e.response
  owed := e.response

/-- Every rule passes, so a transition neither makes nor loses tokens, and every state in which the block can be read
has one. -/
theorem checked : ∀ r ∈ rules, ∀ q ∈ r.states, ∀ e ∈ r.events,
    Controller.passes start follow (fun y q => y.settled q.readable) r q e := by
  decide +kernel

/-! ## The next state -/

/-- The TBE, if there is one, is in the state `q`. -/
def setTBE (l : L1 n) (q : State) : L1 n := { l with tbe := l.tbe.map fun t => { t with tbeState := q } }

section setState

variable {l l' : L1 n} {q q' : State}

theorem mem_of_exclusive (h : q.exclusive) : q ∈ [.MM, .M, .MM_W, .M_W] := by
  revert h
  cases q <;> decide

theorem readable_of_exclusive (h : q.exclusive) : q.readable := by
  revert h
  cases q <;> decide

section

variable (h : l.setState p q = .ok l')

include h

theorem setState_cases :
    (l.dcache = none ∧ l.icache = none ∧ l' = l.setTBE q) ∨
    ∃ e, l.getCacheEntry = .ok e ∧ (q.exclusive → e.tokens = p.maxTokens) ∧
      l' = (l.setTBE q).setCacheEntry { e with cacheState := q } := by
  obtain ⟨-, h⟩ := of_ensure h
  obtain ⟨-, h⟩ := of_ensure h
  dsimp only at h
  split at h
  case h_1 ho =>
    cases h
    obtain ⟨hd, hi⟩ := or_eq_none_iff.1 ho
    exact .inl ⟨hd, hi, rfl⟩
  case h_2 e ho =>
    obtain ⟨-, h⟩ := of_ensure h
    obtain ⟨-, h⟩ := of_ensure h
    obtain ⟨-, h⟩ := of_ensure h
    obtain ⟨-, h⟩ := of_ensure h
    obtain ⟨hx, h⟩ := of_ensure h
    obtain ⟨-, h⟩ := of_ensure h
    obtain ⟨-, h⟩ := of_ensure h
    obtain ⟨-, rfl⟩ := of_check h
    exact .inr ⟨e, by rw [getCacheEntry, ho]; rfl, fun hq => hx (mem_of_exclusive hq), rfl⟩

omit h in
theorem getState_of_none (hd : l.dcache = none) (hi : l.icache = none) (ht : l.tbe = none)
    (hq : l.getState i = .ok q') :
    q' = .NP ∨ q' = .I_L := by
  obtain ⟨-, hq⟩ := of_ensure hq
  simp only [hd, hi, ht, none_or] at hq
  split at hq
  · obtain ⟨v, -, rfl⟩ := of_map hq
    split
    · exact .inr rfl
    · exact .inl rfl
  · cases hq
    exact .inl rfl

theorem getState_setState (hq : l'.getState i = .ok q') : q' = q ∨ q' = .NP ∨ q' = .I_L := by
  have htbe : l'.tbe = (l.setTBE q).tbe ∧ (l'.dcache.or l'.icache = none ∨ ∃ e, l'.dcache.or l'.icache = some e ∧
      e.cacheState = q) := by
    rcases setState_cases h with ⟨hd, hi, rfl⟩ | ⟨e, he, -, rfl⟩
    · exact ⟨rfl, .inl (by simp [setTBE, hd, hi])⟩
    · rcases entry_cases (l := l.setTBE q) he with ⟨_, hs⟩ | ⟨hd, _, hs⟩
      · rw [hs]
        exact ⟨rfl, .inr ⟨_, rfl, rfl⟩⟩
      · rw [hs]
        exact ⟨rfl, .inr ⟨_, by rw [hd]; rfl, rfl⟩⟩
  obtain ⟨ht, he⟩ := htbe
  cases hl : l.tbe with
  | some t =>
    obtain ⟨-, hq⟩ := of_ensure hq
    rw [setTBE, hl] at ht
    simp only [ht] at hq
    cases hq
    exact .inl rfl
  | none =>
    rw [setTBE, hl] at ht
    rcases he with he | ⟨e, he, hs⟩
    · obtain ⟨hd, hi⟩ := or_eq_none_iff.1 he
      exact .inr (getState_of_none hd hi ht hq)
    · obtain ⟨-, hq⟩ := of_ensure hq
      simp only [ht, he] at hq
      cases hq
      exact .inl hs

theorem tokens_setState : l'.getTokens = l.getTokens ∧
    l'.dcache.elim 0 (·.tokens) = l.dcache.elim 0 (·.tokens) ∧
      l'.icache.elim 0 (·.tokens) = l.icache.elim 0 (·.tokens) := by
  rcases setState_cases h with ⟨-, -, rfl⟩ | ⟨e, he, -, rfl⟩
  · exact ⟨rfl, rfl, rfl⟩
  · refine ⟨?_, ?_⟩
    · rw [getTokens_setCacheEntry (l := l.setTBE q) he, getTokens_of_entry he]
    · rcases entry_cases (l := l.setTBE q) he with ⟨hd, hs⟩ | ⟨_, hi, hs⟩
      · rw [hs]
        exact ⟨by rw [show l.dcache = some e from hd]; rfl, rfl⟩
      · rw [hs]
        exact ⟨rfl, by rw [show l.icache = some e from hi]; rfl⟩

theorem counted_setState (hr : q.readable → 1 ≤ l.getTokens) : l'.Counted p i := by
  constructor
  · intro q' hq hq'
    rcases getState_setState h hq with rfl | rfl | rfl
    · rw [(tokens_setState h).1]
      exact hr hq'
    all_goals cases hq'
  · intro q' hq hq'
    rcases getState_setState h hq with rfl | rfl | rfl
    · rcases setState_cases h with ⟨hd, hi, -⟩ | ⟨e, he, hx, -⟩
      · have h1 := hr (readable_of_exclusive hq')
        simp [getTokens, hd, hi] at h1
      · rw [(tokens_setState h).1, getTokens_of_entry he]
        exact hx hq'
    all_goals cases hq'

end

end setState

/-! ## Events -/

section trigger

variable {e : Event} {m : ResponseMsg n} {s0 : Block n} {y : Abs} {l : L1 n} {q : State}

theorem Sees.start (hs : s.Conserved p) (hq : (s.l1 i).getState i = .ok q)
    (hm : e.response → s.responses.head? = some m)
    (hm0 : m.Fair) : Sees p i m s (start q e) s := by
  have hc : (L1.start q e).count.Holds (s.l1 i).getTokens := by
    rw [L1.start]
    by_cases hr : q.readable
    · simpa only [hr, if_true, Count.Holds] using (hs.l1 i).readable hq hr
    · simp only [hr, if_false, Count.Holds, Bool.false_eq_true]
  exact Token.Sees.start hs rfl hm hm0 hc

theorem Sees.finish (h : Sees p i m s0 y s) (hs : s0.Conserved p) (hy : y.settled q.readable)
    (hl : (s.l1 i).setState p q = .ok l) : (s.setL1 i l).Conserved p := by
  obtain ⟨-, hd, hi⟩ := tokens_setState hl
  obtain ⟨hy, hr⟩ := Abs.settled_iff.1 hy
  refine Token.Sees.finish h hs hy (.setL1 l) (nonnegAt_setL1 ?_ ?_) ?_ (fun j hj => ?_) nofun nofun
  · rw [hd]
    exact h.nonneg.dcache i
  · rw [hi]
    exact h.nonneg.icache i
  · rw [weighAt_setL1, tokens, hd, hi]
    rfl
  · cases hj
    rw [setL1_self]
    exact counted_setState hl fun hq => h.count.one_le (hr hq)

theorem responses_ne_nil (ho : Occurs p i s e) (he : e.response) : s.responses ≠ [] := by
  cases e <;> cases he
  all_goals exact Block.Responds.ne_nil ho

theorem conserved_trigger (hN : 1 ≤ p.nTokens) (hs : s.Conserved p) (hoc : Occurs p i s e)
    (h : (Block.l1Cache p i src write).trigger e s = .ok s') : s'.Conserved p := by
  obtain ⟨m, hm, hm0⟩ := hs.nonneg.exists_head
  refine Controller.trigger_sound (R := Sees p i m s) (fun hf h ha => h.act hN hf ha)
    (fun _ hr hq he => checked _ hr _ hq _ he) (fun hq => .start hs hq (fun he => hm (responses_ne_nil hoc he)) hm0)
    (fun h1 hy h => ?_) hs h
  obtain ⟨l, hl, rfl⟩ := of_map h
  exact h1.finish hs hy hl

end trigger

end L1

end M5.Ruby.Token
