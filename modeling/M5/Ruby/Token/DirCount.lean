import M5.Ruby.Token.Count

/-!
# MOESI_CMP_token: the directory keeps the tokens

The counterpart of the analysis of the caches. What the directory has in its states is checked by `setState` alone.
-/

namespace M5.Ruby.Token

open M5.Lib

variable {n : Nat}

/-- Nothing that counts has changed. -/
structure Dir.Quiet (s s' : Block n) : Prop extends Block.Beside .Directory s s' where
  tokens : s'.dir.tokens = s.dir.tokens
  dataBlk : s'.dir.dataBlk = s.dir.dataBlk
  log : s'.log = s.log

namespace Dir

variable {p : Params} {src : MachineID n} {a : Action} {s s' s'' : Block n}

theorem beside_of_eq (h1 : s'.l1 = s.l1) (h2 : s'.l2 = s.l2) (hr : s'.responses = s.responses) :
    s.Beside .Directory s' :=
  ⟨⟨fun j _ => congrFun h1 j, fun _ => h2, absurd rfl, absurd rfl⟩, hr⟩

/-! ## Actions that touch neither tokens nor responses -/

open Dir.Action in
/-- Actions about requests, TBEs, timers and queues. -/
def Action.quiet : Action → Bool
  | a_sendTokens | aa_sendTokensToStarver | d_sendMemoryDataWithAllTokens | dd_sendDataWithAllTokensToStarver
  | dwt_writeDmaDataFromTBE | f_incrementTokens | k_popIncomingResponseQueue | kz_recycleResponse | m_writeDataToMemory
  | r_bounceResponse | bd_bounceDatalessOwnerToken => false
  | _ => true

theorem Quiet.of_eq (h1 : s'.l1 = s.l1) (h2 : s'.l2 = s.l2) (hr : s'.responses = s.responses)
    (hk : s'.dir.tokens = s.dir.tokens) (hd : s'.dir.dataBlk = s.dir.dataBlk) (hl : s'.log = s.log) : Quiet s s' :=
  ⟨beside_of_eq h1 h2 hr, hk, hd, hl⟩

theorem quiet_setReissueTimer : Ends (Quiet s) s.dirSetReissueTimer :=
  .bind fun _ => .ok (.of_eq rfl rfl rfl rfl rfl rfl)

theorem quiet_tryIssuingPersistent {t : PersistentRequestType} : Ends (Quiet s) (s.dirTryIssuingPersistent t) :=
  .ite (.bind fun _ => .bind fun _ => .ok (.of_eq rfl rfl rfl rfl rfl rfl)) quiet_setReissueTimer

theorem quiet_act (ha : a.quiet) : Ends (Quiet s) (Block.dirAct p src a s) := by
  cases a <;> cases ha
  case px_tryIssuingPersistentGETXRequest | ps_tryIssuingPersistentGETSRequest => exact quiet_tryIssuingPersistent
  case st_scheduleTimeout => exact quiet_setReissueTimer
  case br_broadcastRead | qf_queueMemoryFetchRequest | qp_queueMemoryForPersistent | fd_memoryDma
      | ld_queueMemoryDmaWriteFromTbe | lr_queueMemoryDmaReadWriteback | cd_writeCleanDataToTbe | da_sendDmaAck =>
    exact .bind fun _ => .ok (.of_eq rfl rfl rfl rfl rfl rfl)
  case bw_broadcastWrite | vd_allocateDmaRequestInTBE | n_checkData | rd_recordDataInTbe | dm_sendMemoryDataToDma
      | dd_sendDmaData =>
    exact .bind fun _ => .bind fun _ => .ok (.of_eq rfl rfl rfl rfl rfl rfl)
  case s_deallocateTBE =>
    refine .bind fun _ => .ite (.bind fun _ => .ok ?_) (.ok ?_) <;> exact .of_eq rfl rfl rfl rfl rfl rfl
  all_goals exact .ok (.of_eq rfl rfl rfl rfl rfl rfl)

/-! ## Following the tokens -/

section follow

open Dir.Action

/-- What an action does to the tokens. -/
def follow (x : Abs) : Action → Option Abs
  | f_incrementTokens | r_bounceResponse | bd_bounceDatalessOwnerToken => x.settle x.count
  | k_popIncomingResponseQueue => x.drop
  | kz_recycleResponse => (x.settle x.count).bind Abs.drop
  | _ => some x

end follow

abbrev Sees (p : Params) (m : ResponseMsg n) (s0 : Block n) (x : Abs) (s : Block n) : Prop :=
  Token.Sees p .Directory m s0 x s

section sees

variable {m m' : ResponseMsg n} {s0 t : Block n} {x y : Abs} {k : Int} {c : Count} {d : Directory n}

theorem Sees.send (h : Sees p m s0 x s) (hk : m'.tokens = s.dir.tokens) (ht' : m'.type ≠ .INV) :
    Sees p m s0 x (s.dirSend m' 0) := by
  refine h.respond (.setDir { s.dir with tokens := 0 }) le_rfl h.count rfl ?_ ?_
  · exact ⟨hk ▸ h.nonneg.dir, fun hi => absurd hi ht'⟩
  · simp only [Block.weighAt, tokens_dir, Block.setDir, hk]
    omega

theorem Sees.same (h : Sees p m s0 x s) (hb : s.Beside .Directory s') (hk : s'.dir.tokens = s.dir.tokens) :
    Sees p m s0 x s' :=
  h.change hb (hk ▸ h.nonneg.dir : 0 ≤ s'.dir.tokens) h.count rfl (congrArg _ hk)

theorem follow_quiet (ha : a.quiet) : follow x a = some x := by
  cases a <;> first | rfl | cases ha

theorem Sees.recycle (h : Sees p m s0 x s) (hx : (x.settle x.count).bind Abs.drop = some y) :
    Sees p m s0 y { s with responses := s.responses.tail ++ s.responses.head?.toList } := by
  obtain ⟨z, hz, hy⟩ := Option.bind_eq_some_iff.1 hx
  obtain ⟨t, ht⟩ := h.follows
  have hs : s = t.hold (some m) := by rw [ht.state, if_pos (Abs.settle_eq hz).1]
  have hm : Sees p m s0 z (s.respond m) := h.bounce hz (ht.inResponse (Abs.settle_eq hz).1) rfl id
  have h' := hm.pop hy
  subst hs
  exact h'

/-- One action of a rule. -/
theorem Sees.act (hf : follow x a = some y) (h : Sees p m s0 x s) (ha : Block.dirAct p src a s = .ok s') :
    Sees p m s0 y s' := by
  by_cases hq : a.quiet
  · obtain rfl : x = y := Option.some.inj ((follow_quiet hq).symm.trans hf)
    have hs := (quiet_act hq).of_eq ha
    exact h.same hs.toBeside hs.tokens
  cases a <;> first | exact absurd rfl hq | skip
  case a_sendTokens | aa_sendTokensToStarver =>
    cases hf
    simp only [Block.dirAct] at ha
    split at ha
    · obtain ⟨r, -, rfl⟩ := of_map ha
      exact h.send rfl (by rintro ⟨⟩)
    · cases ha
      exact h
  case d_sendMemoryDataWithAllTokens | dd_sendDataWithAllTokensToStarver =>
    cases hf
    obtain ⟨m1, -, ha⟩ := of_bind ha
    obtain ⟨v, -, ha⟩ := of_bind ha
    obtain ⟨-, rfl⟩ := of_check ha
    exact h.send rfl (by rintro ⟨⟩)
  case dwt_writeDmaDataFromTBE | m_writeDataToMemory =>
    cases hf
    obtain ⟨t, -, rfl⟩ := of_map ha
    exact h.same (beside_of_eq rfl rfl rfl) rfl
  case f_incrementTokens =>
    obtain ⟨m1, hm, ha⟩ := of_bind ha
    obtain ⟨hk, rfl⟩ := of_check ha
    obtain ⟨hx, ho, rfl⟩ := Abs.settle_eq hf
    cases h.inResponse hx hm
    have h0 := h.nonneg.dir
    refine h.change (.setDir { s.dir with tokens := s.dir.tokens + m.tokens }) ?_ h.count rfl ?_
    · simp only [Block.NonnegAt, Block.setDir]
      omega
    · simp only [Block.weighAt, tokens_dir, Block.setDir, ho, if_true, Bool.false_eq_true, if_false]
      omega
  case r_bounceResponse =>
    obtain ⟨m1, hm, ha⟩ := of_bind ha
    obtain ⟨v, -, rfl⟩ := of_map ha
    exact h.bounce hf hm rfl id
  case bd_bounceDatalessOwnerToken =>
    obtain ⟨m1, hm, ha⟩ := of_bind ha
    obtain ⟨-, ha⟩ := of_ensure ha
    obtain ⟨-, ha⟩ := of_ensure ha
    obtain ⟨-, ha⟩ := of_ensure ha
    obtain ⟨-, ha⟩ := of_ensure ha
    obtain ⟨v, -, rfl⟩ := of_map ha
    exact h.bounce hf hm rfl (by rintro ⟨⟩)
  case k_popIncomingResponseQueue =>
    cases ha
    exact h.pop hf
  case kz_recycleResponse =>
    cases ha
    exact h.recycle hf

end sees

/-! ## Rules and events -/

def Event.response : Event → Bool
  | .Data_Owner | .Data_All_Tokens | .Ack_Owner | .Ack_Owner_All_Tokens | .Tokens | .Ack_All_Tokens => true
  | _ => false

/-- What is known when the event `e` happens. -/
def start (e : Event) : Abs where
  count := .any
  hand := e.response
  owed := e.response

/-- The analysis passes every rule of the table. -/
theorem checked : ∀ r ∈ rules, ∀ q ∈ r.states, ∀ e ∈ r.events,
    Controller.passes (fun _ => start) follow (fun y _ => y.done) r q e := by
  decide +kernel

section trigger

variable {e : Event} {m : ResponseMsg n} {s0 : Block n} {y : Abs} {d : Directory n} {q : State}

theorem responses_ne_nil (ho : Occurs p s e) (he : e.response) : s.responses ≠ [] := by
  cases e <;> cases he
  all_goals exact Block.Responds.ne_nil ho

theorem getState_setState (d : Directory n) (q : State) :
    Directory.getState { d with directoryState := q, tbe := d.tbe.map fun t => { t with tbeState := q } } = q := by
  cases d.tbe <;> simp [Directory.getState]

theorem Sees.finish (h : Sees p m s0 y s) (hs : s0.Conserved p) (hy : y.done) (hd : s.dir.setState p q = .ok d) :
    (s.setDir d).Conserved p := by
  obtain ⟨-, hd⟩ := of_ensure hd
  obtain ⟨-, hd⟩ := of_ensure hd
  obtain ⟨-, hd⟩ := of_ensure hd
  obtain ⟨hO, rfl⟩ := of_check hd
  refine Token.Sees.finish h hs hy (.setDir _) h.nonneg.dir rfl nofun nofun fun _ hq => hO ?_
  rw [← hq]
  exact (getState_setState s.dir q).symm

/-- A whole rule, by its actions. -/
theorem conserved_trigger (hs : s.Conserved p) (hoc : Occurs p s e) (h : (Block.directory p src).trigger e s = .ok s') :
    s'.Conserved p := by
  obtain ⟨m, hm, hm0⟩ := hs.nonneg.exists_head
  refine Controller.trigger_sound (R := Sees p m s) (fun hf h ha => h.act hf ha)
    (fun _ hr hq he => checked _ hr _ hq _ he)
    (fun _ => .start hs rfl (fun he => hm (responses_ne_nil hoc he)) hm0 trivial)
    (fun h1 hy h => ?_) hs h
  obtain ⟨d, hd, rfl⟩ := of_map h
  exact h1.finish hs hy hd

end trigger

end Dir

end M5.Ruby.Token
