import M5.Ruby.Token.Count

/-!
# MOESI_CMP_token: the L2 bank keeps the tokens

The counterpart of the analysis of the L1 caches. Here some actions rest on the event: the L2 bank gives one of its
tokens only when it has another.
-/

namespace M5.Ruby.Token

open M5.Lib Int

variable {n : Nat}

/-- Nothing that counts has changed. -/
structure L2.Quiet (s s' : Block n) : Prop extends Block.Beside .L2Cache s s' where
  entry : s'.l2.entry = s.l2.entry
  log : s'.log = s.log

namespace L2

variable {p : Params} {src : MachineID n} {a : Action} {s s' s'' : Block n}

theorem Quiet.of_eq (h1 : s'.l1 = s.l1) (hd : s'.dir = s.dir) (hm : s'.dmaRequestToDir = s.dmaRequestToDir)
    (hr : s'.responses = s.responses) (he : s'.l2.entry = s.l2.entry) (hl : s'.log = s.log) : Quiet s s' :=
  ⟨⟨⟨fun j _ => congrFun h1 j, absurd rfl, fun _ => hd, fun _ => hm⟩, hr⟩, he, hl⟩

theorem getTokens_of_entry {l : L2 n} {e : Entry State} (h : l.getL2CacheEntry = .ok e) : l.getTokens = e.tokens := by
  rw [getTokens, present_eq_ok.1 h]

theorem entry_eq {l : L2 n} {e : Entry State} (h : l.getL2CacheEntry = .ok e) : l.entry = some e := present_eq_ok.1 h

/-! ## Actions that touch neither entries nor responses -/

open L2.Action in
/-- Actions about requests, sharers and queues. -/
def Action.quiet : Action → Bool
  | a_broadcastLocalRequest | h_updateFilterFromL1HintOrWB | j_forwardTransientRequestToLocalSharers
  | l_popPersistentQueue | m_popRequestQueue | o_popL1RequestQueue | r_markNewSharer | r_clearExclusive | r_setMRU
  | w_assertIncomingDataAndCacheDataMatch => true
  | _ => false

theorem entry_removeSharer {l : L2 n} {k : Nat} : (l.removeSharer k).entry = l.entry := by
  rw [removeSharer]
  split <;> rfl

theorem quiet_act (ha : a.quiet) : Ends (Quiet s) (Block.l2Act p src a s) := by
  cases a <;> cases ha
  case a_broadcastLocalRequest => exact .bind fun _ => .ok (.of_eq rfl rfl rfl rfl rfl rfl)
  case h_updateFilterFromL1HintOrWB => exact .bind fun _ => .ok (.of_eq rfl rfl rfl rfl entry_removeSharer rfl)
  case j_forwardTransientRequestToLocalSharers =>
    exact .bind fun _ => .ite (.ok (.of_eq rfl rfl rfl rfl rfl rfl)) (.ok (.of_eq rfl rfl rfl rfl rfl rfl))
  case r_markNewSharer =>
    refine .bind fun r => ?_
    split
    · split <;> exact .ok (.of_eq rfl rfl rfl rfl rfl rfl)
    · exact .ok (.of_eq rfl rfl rfl rfl rfl rfl)
  case w_assertIncomingDataAndCacheDataMatch =>
    exact .bind fun _ => .bind fun _ => .bind fun _ => .ok (.of_eq rfl rfl rfl rfl rfl rfl)
  all_goals exact .ok (.of_eq rfl rfl rfl rfl rfl rfl)

/-! ## Actions that send tokens of the entry -/

section sends

open L2.Action

/-- Actions that send tokens of the entry. -/
def Action.sends : Action → Bool
  | c_cleanReplacement | cc_dirtyReplacement | d_sendDataWithTokens | dd_sendDataWithAllTokens
  | e_sendAckWithCollectedTokens | ee_sendDataWithAllTokens | f_sendAckWithAllButOneTokens
  | ff_sendDataWithAllButOneTokens | k_dataFromL2CacheToL1Requestor | k_dataOwnerFromL2CacheToL1Requestor
  | k_dataAndAllTokensFromL2CacheToL1Requestor | t_sendAckWithCollectedTokens
  | tt_sendLocalAckWithCollectedTokens => true
  | _ => false

def Action.types : Action → List CoherenceResponseType
  | cc_dirtyReplacement => [.DATA_OWNER, .ACK_OWNER]
  | d_sendDataWithTokens | k_dataFromL2CacheToL1Requestor => [.DATA_SHARED]
  | dd_sendDataWithAllTokens | ee_sendDataWithAllTokens | ff_sendDataWithAllButOneTokens
  | k_dataOwnerFromL2CacheToL1Requestor | k_dataAndAllTokensFromL2CacheToL1Requestor => [.DATA_OWNER]
  | c_cleanReplacement | e_sendAckWithCollectedTokens | f_sendAckWithAllButOneTokens | t_sendAckWithCollectedTokens
  | tt_sendLocalAckWithCollectedTokens => [.ACK]
  | _ => []

theorem inv_notMem_types (a : Action) : .INV ∉ a.types := by cases a <;> decide

/-- How many tokens they leave of `k`. -/
def Action.left (p : Params) (k : Int) : Action → Int
  | d_sendDataWithTokens => if k > p.nTokens then k - p.nTokens else k - 1
  | k_dataFromL2CacheToL1Requestor | k_dataOwnerFromL2CacheToL1Requestor => k - 1
  | f_sendAckWithAllButOneTokens | ff_sendDataWithAllButOneTokens => 1
  | _ => 0

/-- How many tokens they ask for. -/
def Action.asks : Action → Int
  | dd_sendDataWithAllTokens | ee_sendDataWithAllTokens | f_sendAckWithAllButOneTokens | ff_sendDataWithAllButOneTokens
  | k_dataFromL2CacheToL1Requestor | k_dataOwnerFromL2CacheToL1Requestor => 1
  | _ => 0

/-- The block with the entry `e` in the L2 bank. -/
abbrev put (s : Block n) (e : Entry State) : Block n := s.setL2 { s.l2 with entry := some e }

theorem put_self {e : Entry State} (he : s.l2.getL2CacheEntry = .ok e) : put s e = s := by
  rw [put, ← entry_eq he, Block.setL2]

theorem sends_act (hN : 1 ≤ p.nTokens) (hs : a.sends) (h0 : ∀ e, s.l2.getL2CacheEntry = .ok e → 0 ≤ e.tokens)
    (ha : Block.l2Act p src a s = .ok s') : ∃ e, s.l2.getL2CacheEntry = .ok e ∧ a.asks ≤ e.tokens ∧
      Gives s e (put s) a.types (a.left p e.tokens) s' := by
  cases a <;> cases hs
  case c_cleanReplacement =>
    obtain ⟨e, he, ha⟩ := of_bind ha
    refine ⟨e, he, h0 e he, ?_⟩
    split at ha
    · cases ha
      exact .inr ⟨_, .ack (by decide) (sub_zero _).symm, id, rfl⟩
    case isFalse hk =>
      cases ha
      exact .inl ⟨by have := h0 e he; simp only [left]; omega, rfl⟩
  case cc_dirtyReplacement =>
    obtain ⟨e, he, ha⟩ := of_bind ha
    refine ⟨e, he, h0 e he, .inr ?_⟩
    split at ha
    · cases ha
      exact ⟨_, .owner (by decide) (sub_zero _).symm (by simp), id, rfl⟩
    case isFalse hd =>
      cases ha
      exact ⟨_, .owner (by decide) (sub_zero _).symm (fun _ => Bool.eq_false_iff.2 hd), id, rfl⟩
  case d_sendDataWithTokens =>
    obtain ⟨r, -, ha⟩ := of_bind ha
    obtain ⟨e, he, ha⟩ := of_bind ha
    refine ⟨e, he, h0 e he, .inr ?_⟩
    simp only [left]
    split at ha
    case isTrue hk =>
      cases ha
      rw [if_pos hk]
      exact ⟨_, .shared (by decide) (by omega) rfl, fun _ => by omega, rfl⟩
    case isFalse hk =>
      cases ha
      rw [if_neg hk]
      exact ⟨_, .shared (by decide) (by omega) rfl, fun _ => by omega, rfl⟩
  case dd_sendDataWithAllTokens =>
    obtain ⟨r, -, ha⟩ := of_bind ha
    obtain ⟨e, he, ha⟩ := of_bind ha
    obtain ⟨hk, rfl⟩ := of_check ha
    exact ⟨e, he, hk, .inr ⟨_, .owner (by decide) (sub_zero _).symm (by simp), id, rfl⟩⟩
  case e_sendAckWithCollectedTokens | t_sendAckWithCollectedTokens | tt_sendLocalAckWithCollectedTokens =>
    obtain ⟨e, he, ha⟩ := of_bind ha
    refine ⟨e, he, h0 e he, ?_⟩
    split at ha
    · obtain ⟨v, -, rfl⟩ := of_map ha
      exact .inr ⟨_, .ack (by decide) (sub_zero _).symm, id, rfl⟩
    case isFalse hk =>
      have hk' : e.tokens = 0 := by have := h0 e he; omega
      cases ha
      refine .inl ⟨hk', ?_⟩
      rw [← hk']
      exact put_self he
  case ee_sendDataWithAllTokens =>
    obtain ⟨e, he, ha⟩ := of_bind ha
    obtain ⟨v, -, ha⟩ := of_bind ha
    obtain ⟨hk, rfl⟩ := of_check ha
    exact ⟨e, he, hk, .inr ⟨_, .owner (by decide) (sub_zero _).symm (by simp), id, rfl⟩⟩
  case f_sendAckWithAllButOneTokens =>
    obtain ⟨e, he, ha⟩ := of_bind ha
    obtain ⟨hk, ha⟩ := of_ensure ha
    refine ⟨e, he, hk, ?_⟩
    split at ha
    case isTrue h1 =>
      obtain ⟨v, -, rfl⟩ := of_map ha
      exact .inr ⟨_, .ack (by decide) rfl, fun _ => h1, rfl⟩
    case isFalse h1 =>
      have hk' : e.tokens = 1 := by omega
      cases ha
      refine .inl ⟨hk', ?_⟩
      rw [← hk']
      exact put_self he
  case ff_sendDataWithAllButOneTokens =>
    obtain ⟨e, he, ha⟩ := of_bind ha
    obtain ⟨hk, ha⟩ := of_ensure ha
    refine ⟨e, he, hk, ?_⟩
    split at ha
    case isTrue h1 =>
      obtain ⟨v, -, rfl⟩ := of_map ha
      exact .inr ⟨_, .owner (by decide) rfl (by simp), fun _ => h1, rfl⟩
    case isFalse h1 =>
      cases ha
      exact .inl ⟨by simp only [left]; omega, rfl⟩
  case k_dataFromL2CacheToL1Requestor =>
    obtain ⟨r, -, ha⟩ := of_bind ha
    obtain ⟨e, he, ha⟩ := of_bind ha
    obtain ⟨hk, rfl⟩ := of_check ha
    exact ⟨e, he, hk, .inr ⟨_, .shared (by decide) (by simp only [left]; omega) rfl,
      fun _ => by simp only [left]; omega, rfl⟩⟩
  case k_dataOwnerFromL2CacheToL1Requestor =>
    obtain ⟨r, -, ha⟩ := of_bind ha
    obtain ⟨e, he, ha⟩ := of_bind ha
    obtain ⟨hk, rfl⟩ := of_check ha
    exact ⟨e, he, hk, .inr ⟨_, .owner (by decide) (by simp only [left]; omega) (by simp),
      fun _ => by simp only [left]; omega, rfl⟩⟩
  case k_dataAndAllTokensFromL2CacheToL1Requestor =>
    obtain ⟨r, -, ha⟩ := of_bind ha
    obtain ⟨e, he, rfl⟩ := of_map ha
    exact ⟨e, he, h0 e he, .inr ⟨_, .owner (by decide) (sub_zero _).symm (by simp), id, rfl⟩⟩

end sends

/-! ## Following the tokens -/

section follow

open L2.Action

/-- What an action does to the tokens. -/
def follow (x : Abs) : Action → Option Abs
  | bb_bounceResponse | gg_bounceResponseToStarver | gg_bounceWBSharedToStarver | gg_bounceWBOwnedToStarver =>
    x.settle x.count
  | q_updateTokensFromResponse => x.settle x.count.succ
  | n_popResponseQueue => x.drop
  | c_cleanReplacement | cc_dirtyReplacement | dd_sendDataWithAllTokens | e_sendAckWithCollectedTokens
  | ee_sendDataWithAllTokens | k_dataAndAllTokensFromL2CacheToL1Requestor | t_sendAckWithCollectedTokens
  | tt_sendLocalAckWithCollectedTokens => some { x with count := .zero }
  | f_sendAckWithAllButOneTokens | ff_sendDataWithAllButOneTokens => some { x with count := .pos }
  | d_sendDataWithTokens => if x.count = .two then some { x with count := .pos } else none
  | k_dataFromL2CacheToL1Requestor | k_dataOwnerFromL2CacheToL1Requestor => some { x with count := .pred x.count }
  | rr_deallocateL2CacheBlock => if x.count = .zero then some x else none
  | vv_allocateL2CacheBlock => some { x with count := .zero }
  | _ => some x

end follow

abbrev Sees (p : Params) (m : ResponseMsg n) (s0 : Block n) (x : Abs) (s : Block n) : Prop :=
  Token.Sees p .L2Cache m s0 x s

section sees

variable {m m' : ResponseMsg n} {s0 t : Block n} {x y : Abs} {e e' : Entry State} {k : Int} {c : Count} {l : L2 n}

theorem hasEntry (he : s.l2.getL2CacheEntry = .ok e) : HasEntry .L2Cache s e (put s) where
  beside _ := .setL2 _
  count := getTokens_of_entry he
  count_put _ := rfl
  weigh_put e' := by
    show e'.tokens = s.l2.getTokens - e.tokens + e'.tokens
    rw [getTokens_of_entry he]
    omega
  nonneg h := getTokens_of_entry he ▸ h
  nonneg_put _ _ h0 := h0

theorem Sees.same (h : Sees p m s0 x s) (hq : Quiet s s') : Sees p m s0 x s' := by
  have hk : s'.l2.getTokens = s.l2.getTokens := by rw [getTokens, hq.entry, getTokens]
  refine h.change hq.toBeside ?_ ?_ rfl ?_ <;> simp only [Block.NonnegAt, Block.entryTokens, Block.weighAt, tokens_l2,
    hk]
  · exact h.nonneg.l2
  · exact h.count

theorem follow_quiet (ha : a.quiet) : follow x a = some x := by
  cases a <;> first | rfl | cases ha

theorem follow_sends (hN : 1 ≤ p.nTokens) (hs : a.sends) (hf : follow x a = some y) (h0 : 0 ≤ k)
    (hk : a.asks ≤ k) (hx : x.count.Holds k) :
    ∃ c, y = { x with count := c } ∧ c.Holds (a.left p k) ∧ 0 ≤ a.left p k ∧ a.left p k ≤ k := by
  cases a <;> cases hs <;> simp only [follow, Action.asks, Action.left] at hf hk ⊢
  case d_sendDataWithTokens =>
    split at hf
    case isFalse => cases hf
    case isTrue hc =>
      cases hf
      rw [hc] at hx
      simp only [Count.Holds] at hx
      refine ⟨.pos, rfl, ?_⟩
      simp only [Count.Holds]
      omega
  case k_dataFromL2CacheToL1Requestor | k_dataOwnerFromL2CacheToL1Requestor =>
    cases hf
    refine ⟨_, rfl, ?_, by omega⟩
    cases hc : x.count with
    | two =>
      rw [hc] at hx
      simp only [Count.Holds, Count.pred] at hx ⊢
      omega
    | _ => trivial
  all_goals
    cases hf
    refine ⟨_, rfl, ?_, by omega⟩
    first | rfl | (simp only [Count.Holds]; omega)

theorem Sees.sends (hN : 1 ≤ p.nTokens) (hs : a.sends) (hf : follow x a = some y) (h : Sees p m s0 x s)
    (ha : Block.l2Act p src a s = .ok s') : Sees p m s0 y s' := by
  obtain ⟨e, he, hk, hg⟩ := sends_act hN hs (fun _ he => h.entry_nonneg (hasEntry he)) ha
  obtain ⟨c, rfl, hc, hl⟩ := follow_sends hN hs hf (h.entry_nonneg (hasEntry he)) hk (h.entry_count (hasEntry he))
  exact h.gives (hasEntry he) hg (inv_notMem_types a) hl hc

/-- One action of a rule. -/
theorem Sees.act (hN : 1 ≤ p.nTokens) (hf : follow x a = some y) (h : Sees p m s0 x s)
    (ha : Block.l2Act p src a s = .ok s') : Sees p m s0 y s' := by
  by_cases hq : a.quiet
  · obtain rfl : x = y := Option.some.inj ((follow_quiet hq).symm.trans hf)
    exact h.same ((quiet_act hq).of_eq ha)
  by_cases hs : a.sends
  · exact h.sends hN hs hf ha
  cases a <;> first | exact absurd rfl hq | exact absurd rfl hs | skip
  case bb_bounceResponse =>
    obtain ⟨m1, hm, rfl⟩ := of_map ha
    exact h.bounce hf hm rfl id
  case gg_bounceResponseToStarver =>
    obtain ⟨m1, hm, ha⟩ := of_bind ha
    obtain ⟨v, -, rfl⟩ := of_map ha
    exact h.bounce hf hm rfl id
  case gg_bounceWBSharedToStarver =>
    obtain ⟨m1, hm, ha⟩ := of_bind ha
    obtain ⟨v, -, rfl⟩ := of_map ha
    refine h.bounce hf hm rfl ?_
    split <;> exact nofun
  case gg_bounceWBOwnedToStarver =>
    obtain ⟨m1, hm, ha⟩ := of_bind ha
    obtain ⟨v, -, rfl⟩ := of_map ha
    exact h.bounce hf hm rfl nofun
  case n_popResponseQueue =>
    cases ha
    exact h.pop hf
  case q_updateTokensFromResponse =>
    obtain ⟨m1, hm, ha⟩ := of_bind ha
    obtain ⟨hm0, ha⟩ := of_ensure ha
    obtain ⟨e, he, rfl⟩ := of_map ha
    cases h.inResponse (Abs.settle_eq hf).1 hm
    exact h.take (hasEntry he) hf hm0 rfl
  case u_writeDataToCache =>
    cases hf
    obtain ⟨m1, hm, ha⟩ := of_bind ha
    obtain ⟨e, he, rfl⟩ := of_map ha
    exact h.keep (hasEntry he) rfl
  case vv_allocateL2CacheBlock =>
    cases hf
    obtain ⟨he, rfl⟩ := of_check ha
    have h0 : s.l2.getTokens = 0 := by rw [getTokens, Option.isNone_iff_eq_none.1 he]
    exact h.change (.setL2 _) le_rfl rfl rfl (congrArg _ h0.symm)
  case rr_deallocateL2CacheBlock =>
    simp only [follow] at hf
    split at hf
    case isFalse => cases hf
    case isTrue hx =>
      cases hf
      obtain ⟨-, rfl⟩ := of_check ha
      have hc := h.count
      rw [hx] at hc
      exact h.change (.setL2 _) le_rfl (by rw [hx]; rfl) rfl (congrArg _ hc.symm)

end sees

/-! ## Rules -/

def Event.response : Event → Bool
  | .L1_INV | .Writeback_Tokens | .Writeback_Shared_Data | .Writeback_All_Tokens | .Writeback_Owned
  | .Data_Shared | .Data_Owner | .Data_All_Tokens | .Ack | .Ack_All_Tokens => true
  | _ => false

/-- What is known of the count when the event `e` happens in the state `q`. -/
def startCount (q : State) (e : Event) : Count :=
  if q.readable then if e = .L1_GETS ∨ e = .Transient_GETS then .two else .pos
  else if q = .NP ∨ q = .I_L then .zero else .any

/-- What is known when the event `e` happens in the state `q`; a hint has no tokens. -/
def start (q : State) (e : Event) : Abs where
  count := startCount q e
  hand := e.response
  owed := e.response && e != .L1_INV

/-- The analysis passes every rule of the table. -/
theorem checked : ∀ r ∈ rules, ∀ q ∈ r.states, ∀ e ∈ r.events,
    Controller.passes start follow (fun y q => y.settled q.readable) r q e := by
  decide +kernel

/-! ## Events -/

section trigger

variable {e : Event} {m : ResponseMsg n} {s0 : Block n} {y : Abs} {l l' : L2 n} {q q' : State}

theorem setState_cases (h : l.setState p q = .ok l') :
    (l.entry = none ∧ l' = l) ∨
    ∃ e, l.entry = some e ∧ (q = .M → e.tokens = p.maxTokens) ∧ (q = .I_L → e.tokens = 0) ∧
      (q = .NP → e.tokens = 0) ∧ l' = { l with entry := some { e with cacheState := q } } := by
  rw [setState] at h
  split at h
  · cases h
    exact .inl ⟨‹_›, rfl⟩
  case h_2 e he =>
    obtain ⟨-, h⟩ := of_ensure h
    obtain ⟨-, h⟩ := of_ensure h
    obtain ⟨hl, h⟩ := of_ensure h
    obtain ⟨hx, h⟩ := of_ensure h
    obtain ⟨hn, h⟩ := of_ensure h
    obtain ⟨-, h⟩ := of_ensure h
    obtain ⟨-, rfl⟩ := of_check h
    exact .inr ⟨e, he, hx, hl, hn, rfl⟩

theorem getState_of_none (h : l.entry = none) : l.getState = .I_L ∨ l.getState = .NP := by
  rw [getState, h]
  dsimp only
  split
  · exact .inl rfl
  · exact .inr rfl

theorem tokens_setState (h : l.setState p q = .ok l') : l'.getTokens = l.getTokens := by
  rcases setState_cases h with ⟨-, rfl⟩ | ⟨e, he, -, -, -, rfl⟩
  · rfl
  · rw [getTokens, getTokens, he]

theorem counted_setState (h : l.setState p q = .ok l') (hr : q.readable → 1 ≤ l.getTokens) : l'.Counted p := by
  rcases setState_cases h with ⟨he, rfl⟩ | ⟨e, he, hx, hl, hn, rfl⟩
  · have hk : l'.getTokens = 0 := by rw [getTokens, he]
    rcases getState_of_none he with hq | hq
    all_goals
      refine ⟨fun h => ?_, fun h => ?_, fun _ => hk⟩
      · rw [hq] at h
        cases h
      · rw [hq] at h
        cases h
  · rw [getTokens, he] at hr
    exact ⟨hr, hx, fun h => h.elim hl hn⟩

theorem isSome_of_readable (h : l.getState.readable) : l.entry.isSome := by
  cases he : l.entry with
  | some e => rfl
  | none => rcases getState_of_none he with hq | hq <;> rw [hq] at h <;> cases h

theorem startCount_holds (hs : s.l2.Counted p) (ho : Occurs p s e) :
    (startCount s.l2.getState e).Holds s.l2.getTokens := by
  rw [startCount]
  split
  case isTrue hr =>
    have h1 := hs.readable hr
    split
    case isTrue he =>
      have hne : ¬ (s.l2.entry.isSome ∧ s.l2.getTokens = 1) := by rcases he with rfl | rfl <;> exact ho
      have hk : s.l2.getTokens ≠ 1 := fun hk => hne ⟨isSome_of_readable hr, hk⟩
      simp only [Count.Holds]
      omega
    case isFalse => exact h1
  case isFalse =>
    split
    case isTrue hq => exact hs.empty hq.symm
    case isFalse => trivial

theorem responses_ne_nil (ho : Occurs p s e) (he : e.response) : s.responses ≠ [] := by
  cases e <;> cases he
  all_goals exact Block.Responds.ne_nil ho

theorem Sees.start (hs : s.Conserved p) (ho : Occurs p s e) (hm : e.response → s.responses.head? = some m)
    (hm0 : m.Fair) : Sees p m s (start s.l2.getState e) s := by
  have hx : (if (L2.start s.l2.getState e).owed then m.tokens else 0) =
      if (L2.start s.l2.getState e).hand then m.tokens else 0 := by
    by_cases he : e = .L1_INV
    · obtain ⟨m', hm', ht⟩ : s.Responds fun m => m.type = .INV := by rw [he] at ho; exact ho
      obtain rfl : m' = m := Option.some.inj (hm'.symm.trans (hm (by rw [he]; rfl)))
      simp [L2.start, hm0.hint ht]
    · rw [show (L2.start s.l2.getState e).owed = (L2.start s.l2.getState e).hand by simp [L2.start, he]]
  exact Token.Sees.start hs hx hm hm0 (startCount_holds hs.l2 ho)

theorem Sees.finish (h : Sees p m s0 y s) (hs : s0.Conserved p) (hy : y.settled q.readable)
    (hl : s.l2.setState p q = .ok l) : (s.setL2 l).Conserved p := by
  have hk := tokens_setState hl
  obtain ⟨hy, hr⟩ := Abs.settled_iff.1 hy
  refine Token.Sees.finish h hs hy (.setL2 l) (hk ▸ h.nonneg.l2 : 0 ≤ l.getTokens) hk nofun (fun _ => ?_) nofun
  exact counted_setState hl fun hq => h.count.one_le (hr hq)

/-- A whole rule, by its actions. -/
theorem conserved_trigger (hN : 1 ≤ p.nTokens) (hs : s.Conserved p) (hoc : Occurs p s e)
    (h : (Block.l2Cache p src).trigger e s = .ok s') : s'.Conserved p := by
  obtain ⟨m, hm, hm0⟩ := hs.nonneg.exists_head
  refine Controller.trigger_sound (R := Sees p m s) (fun hf h ha => h.act hN hf ha)
    (fun _ hr hq he => checked _ hr _ hq _ he) (fun hq => ?_) (fun h1 hy h => ?_) hs h
  · cases hq
    exact .start hs hoc (fun he => hm (responses_ne_nil hoc he)) hm0
  · obtain ⟨l, hl, rfl⟩ := of_map h
    exact h1.finish hs hy hl

end trigger

end L2

end M5.Ruby.Token
