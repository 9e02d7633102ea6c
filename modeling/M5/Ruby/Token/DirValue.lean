import M5.Ruby.Token.DirCount
import M5.Ruby.Token.Value

/-!
# MOESI_CMP_token: the directory keeps the owner and the value

The counterpart of the analysis of the caches; the copy of the directory is memory. Only what happens without DMA is
followed.
-/

namespace M5.Ruby.Token

open M5.Lib

variable {n : Nat}

namespace Dir

variable {p : Params} {src : MachineID n} {a : Action} {s s' : Block n}

/-! ## Following the owner and the value -/

/-- What is known between two actions; `some` says that the directory has a token, and the copy is memory. -/
structure Know extends Token.Know where
  some : Bool

section track

open Dir.Action

/-- Actions about requests, queues and memory, without DMA. -/
def Action.plain : Action → Bool
  | qf_queueMemoryFetchRequest | qp_queueMemoryForPersistent | lq_queueMemoryWbRequest | j_popIncomingRequestQueue
  | z_recycleRequest | l_popIncomingPersistentQueue | l_popMemQueue | n_checkData => true
  | _ => false

/-- What the action asks for. -/
def Know.allows (x : Know) : Action → Bool
  | f_incrementTokens => !(x.own && x.mo) && (!x.mo || x.valid)
  | m_writeDataToMemory => x.hand && x.owed && x.md
  | d_sendMemoryDataWithAllTokens | dd_sendDataWithAllTokensToStarver => x.own
  | a_sendTokens | aa_sendTokensToStarver => !x.own
  | r_bounceResponse | bd_bounceDatalessOwnerToken | k_popIncomingResponseQueue | kz_recycleResponse => true
  | a => a.plain

/-- What is known after the action, which leaves the tokens as `y` tells. -/
def Know.after (x : Know) (y : Abs) : Action → Know
  | f_incrementTokens => { x with toAbs := y, own := x.own || x.mo, some := true }
  | m_writeDataToMemory => { x with toAbs := y, valid := true }
  | d_sendMemoryDataWithAllTokens | dd_sendDataWithAllTokensToStarver =>
    { x with toAbs := y, own := false, some := false }
  | a_sendTokens | aa_sendTokensToStarver => { x with toAbs := y, some := false }
  | _ => { x with toAbs := y }

/-- What an action does to the tokens, the owner and the value. -/
def track (x : Know) (a : Action) : Option Know :=
  if x.allows a then (follow x.toAbs a).map fun y => x.after y a else none

end track

theorem after_toAbs {x : Know} {y : Abs} : (x.after y a).toAbs = y := by cases a <;> rfl

/-- The state `s` in the middle of a rule that began in `s0` is as `x` tells. -/
structure Knows (p : Params) (m : ResponseMsg n) (d : DataBlock) (s0 : Block n) (x : Know) (s : Block n) : Prop where
  sees : Sees p m s0 x.toAbs s
  within : Within .Directory m d x.toKnow (some ⟨s.dir.dataBlk, false⟩) s
  some : x.some → 1 ≤ s.dir.tokens
  tbe : s.dir.tbe = none

section knows

variable {m m' : ResponseMsg n} {d : DataBlock} {s0 : Block n} {x y : Know} {z : Abs} {k : Int}

section

variable (h : Knows p m d s0 x s)

include h

theorem Knows.memory (hx : x.own) : s.dir.dataBlk = lastStore d s.log := by
  obtain ⟨c, hc, hd⟩ := h.within.held.owner hx
  cases hc
  exact hd.resolve_left nofun

theorem Knows.setDir {l : Directory n} (hl : l.dataBlk = s.dir.dataBlk) {y : Token.Know}
    (hxy : x.toKnow.Later y) (ho : y.owners = x.owners) (hv : y.valid → x.valid)
    (hown : y.own → x.own ∨ x.valid) :
    Within .Directory m d y (.some ⟨l.dataBlk, false⟩) (s.setDir l) := by
  have hh := h.within.held
  refine h.within.change (.setDir l) rfl hl hxy ho ⟨fun hy => ?_, fun hy => ?_⟩
  · rw [hl]
    exact hh.data (hv hy)
  · rcases hown hy with hx | hx
    · exact ⟨_, rfl, .inr (h.memory hx)⟩
    · obtain ⟨c, hc, hd⟩ := hh.data hx
      cases hc
      exact ⟨_, rfl, .inr hd⟩

theorem Knows.send {y : Token.Know} (hm : m'.Good (lastStore d s.log) s.dir.dataBlk)
    (hxy : x.toKnow.Later y) (ho : y.owners + m'.type.owner.toInt = x.owners) (hv : y.valid → x.valid)
    (hown : y.own → x.own) :
    Within .Directory m d y (.some ⟨s.dir.dataBlk, false⟩) (s.dirSend m' 0) := by
  have hh := h.within.held
  have hr : Within .Directory m d y (.some ⟨s.dir.dataBlk, false⟩) (s.respond m') :=
    h.within.respond hm hxy ho (hh.mono hv hown)
  exact hr.change (.setDir { s.dir with tokens := 0 }) rfl rfl .refl rfl (hh.mono hv hown)

theorem Knows.give (hx : x.own) (hk : 0 < s.dir.tokens) {dest : MachineID n} :
    Within .Directory m d { x.toKnow with own := false } (.some ⟨s.dir.dataBlk, false⟩)
      (s.dirSend (s.dirData dest s.dir.tokens) 0) := by
  refine h.send ⟨fun _ => hk, fun _ => h.memory hx, fun _ => .inr (h.memory hx)⟩ ⟨rfl, id, rfl, rfl⟩ ?_ id fun _ => hx
  simp only [Know.owners, Block.dirData, CoherenceResponseType.owner, hx, Bool.toInt_true, Bool.toInt_false]
  omega

end

theorem plain_tbe (hp : a.plain) : Ends (·.dir.tbe = s.dir.tbe) (Block.dirAct p src a s) := by
  cases a <;> cases hp
  case n_checkData => exact .bind fun _ => .bind fun _ => .ok rfl
  case qf_queueMemoryFetchRequest | qp_queueMemoryForPersistent => exact .bind fun _ => .ok rfl
  all_goals exact .ok rfl

theorem quiet_of_plain (hp : a.plain) : a.quiet := by
  cases a <;> first | rfl | cases hp

theorem after_plain (hp : a.plain) : x.after x.toAbs a = x := by
  cases a <;> first | rfl | cases hp

theorem Knows.quiet (hq : Quiet s s') (ht : s'.dir.tbe = s.dir.tbe) (hs : Sees p m s0 x.toAbs s')
    (h : Knows p m d s0 x s) :
    Knows p m d s0 x s' := by
  refine ⟨hs, ?_, fun hx => hq.tokens ▸ h.some hx, ht.trans h.tbe⟩
  rw [hq.dataBlk]
  exact h.within.change hq.toBeside (by rw [hq.log]) hq.dataBlk .refl rfl h.within.held

theorem Knows.act (hf : track x a = .some y) (h : Knows p m d s0 x s) (ha : Block.dirAct p src a s = .ok s') :
    Knows p m d s0 y s' := by
  obtain ⟨hx, z, hz, rfl⟩ := eq_some_of_allowed hf
  have hsees : Sees p m s0 (x.after z a).toAbs s' := by
    rw [after_toAbs]
    exact h.sees.act hz ha
  by_cases hp : a.plain
  · obtain rfl : x.toAbs = z := Option.some.inj ((follow_quiet (quiet_of_plain hp)).symm.trans hz)
    rw [after_plain hp] at hsees ⊢
    exact h.quiet ((quiet_act (quiet_of_plain hp)).of_eq ha) ((plain_tbe hp).of_eq ha) hsees
  cases a <;> first | contradiction | skip
  case a_sendTokens | aa_sendTokensToStarver =>
    cases hz
    simp only [Block.dirAct] at ha
    split at ha
    · obtain ⟨r, -, rfl⟩ := of_map ha
      exact ⟨hsees, h.send (.of_plain rfl rfl) .refl (Int.add_zero _) id id, by rintro ⟨⟩, h.tbe⟩
    · cases ha
      exact ⟨hsees, h.within, by rintro ⟨⟩, h.tbe⟩
  case d_sendMemoryDataWithAllTokens | dd_sendDataWithAllTokensToStarver =>
    cases hz
    obtain ⟨m1, -, ha⟩ := of_bind ha
    obtain ⟨v, -, ha⟩ := of_bind ha
    obtain ⟨hk, rfl⟩ := of_check ha
    exact ⟨hsees, h.give hx hk, by rintro ⟨⟩, h.tbe⟩
  case f_incrementTokens =>
    obtain ⟨m1, hm, ha⟩ := of_bind ha
    obtain ⟨hk, rfl⟩ := of_check ha
    obtain ⟨hh, ho, rfl⟩ := Abs.settle_eq hz
    cases h.sees.inResponse hh hm
    simp only [Know.allows, Bool.and_eq_true, Bool.not_eq_true', Bool.and_eq_false_imp, Bool.or_eq_true] at hx
    have h0 := h.sees.nonneg.dir
    refine ⟨hsees, h.setDir (l := { s.dir with tokens := s.dir.tokens + m.tokens }) rfl ⟨rfl, by rintro ⟨⟩, rfl, rfl⟩
      (Know.owners_take hx.1 ho) id ?_, fun _ => ?_, h.tbe⟩
    · intro hy
      rcases Bool.or_eq_true_iff.1 hy with hy | hy
      · exact .inl hy
      · exact .inr (hx.2.resolve_left fun hmo => by cases hmo.symm.trans hy)
    · show 1 ≤ s.dir.tokens + m.tokens
      omega
  case m_writeDataToMemory =>
    cases hz
    obtain ⟨m1, hm, rfl⟩ := of_map ha
    simp only [Know.allows, Bool.and_eq_true] at hx
    cases h.sees.inResponse hx.1.1 hm
    have hmd := (h.within.response hx.1.2).data ((h.within.kind hx.1.2).2 hx.2)
    exact ⟨hsees, h.within.memory hmd, h.some, h.tbe⟩
  case r_bounceResponse =>
    obtain ⟨m1, hm, ha⟩ := of_bind ha
    obtain ⟨v, -, rfl⟩ := of_map ha
    exact ⟨hsees, h.within.bounce hz hm (fun hm => ⟨hm.tokens, hm.data, hm.owner⟩) rfl, h.some, h.tbe⟩
  case bd_bounceDatalessOwnerToken =>
    obtain ⟨m1, hm, ha⟩ := of_bind ha
    obtain ⟨ht, ha⟩ := of_ensure ha
    obtain ⟨-, ha⟩ := of_ensure ha
    obtain ⟨-, ha⟩ := of_ensure ha
    obtain ⟨-, ha⟩ := of_ensure ha
    obtain ⟨v, -, rfl⟩ := of_map ha
    -- a dataless owner token is only sent when memory has the value
    refine ⟨hsees, h.within.bounce hz hm (fun hm => ?_) (by rw [ht]; rfl), h.some, h.tbe⟩
    have hmem := (hm.owner (by rw [ht]; rfl)).resolve_left fun hd => hd.2 ht
    exact ⟨fun _ => hm.tokens (.inr (by rw [ht]; rfl)), fun _ => hmem, fun _ => .inr hmem⟩
  case k_popIncomingResponseQueue =>
    cases ha
    exact ⟨hsees, h.within.pop hz, h.some, h.tbe⟩
  case kz_recycleResponse =>
    cases ha
    obtain ⟨w, hw, hz⟩ := Option.bind_eq_some_iff.1 hz
    obtain ⟨t, ht⟩ := h.sees.follows
    have hs : s = t.hold (.some m) := by rw [ht.state, if_pos (Abs.settle_eq hw).1]
    have hm : Within _ m _ _ _ (s.respond m) := h.within.bounce hw (ht.inResponse (Abs.settle_eq hw).1) id rfl
    have hb := hm.pop hz
    refine ⟨hsees, ?_, h.some, h.tbe⟩
    subst hs
    exact hb

end knows

/-! ## Rules -/

/-- Events of DMA requests. -/
def Event.dma : Event → Bool
  | .DMA_READ | .DMA_WRITE | .DMA_WRITE_All_Tokens => true
  | _ => false

/-- What is known when the event `e` happens in the state `q`. -/
def knowStart (q : State) (e : Event) : Know where
  toAbs := start e
  own := q.owner
  valid := q.owner || e == .Ack_Owner || e == .Ack_Owner_All_Tokens
  mo := e == .Data_Owner || e == .Ack_Owner || e == .Ack_Owner_All_Tokens || (e == .Data_All_Tokens && !q.owner)
  md := e == .Data_Owner || e == .Data_All_Tokens
  some := q.owner

/-- All is done, with the owner token in the states for it, and with a token. -/
def Know.settled (y : Know) (q : State) : Bool := y.done && y.own == q.owner && (!q.owner || y.some) && q.base

/-- Without DMA, and unless there are two owners, all rules keep the owner token in the states for it. -/
theorem trackChecked : ∀ r ∈ rules, ∀ q ∈ r.states, ∀ e ∈ r.events, q.base → e.dma = false →
    ¬ ((knowStart q e).own ∧ (knowStart q e).mo) →
    Controller.passes knowStart track Know.settled r q e := by
  decide +kernel

/-! ## Events -/

theorem dma_act (hs : s.dmaRequestToDir = []) : Ends (·.dmaRequestToDir = []) (Block.dirAct p src a s) := by
  have hset : Ends (·.dmaRequestToDir = []) s.dirSetReissueTimer := .bind fun _ => .ok hs
  have hissue : ∀ t, Ends (·.dmaRequestToDir = []) (s.dirTryIssuingPersistent t) :=
    fun t => .ite (.bind fun _ => .bind fun _ => .ok hs) hset
  cases a
  case px_tryIssuingPersistentGETXRequest | ps_tryIssuingPersistentGETSRequest => exact hissue _
  case st_scheduleTimeout => exact hset
  case a_sendTokens | aa_sendTokensToStarver => exact .ite (.bind fun _ => .ok hs) (.ok hs)
  case d_sendMemoryDataWithAllTokens | dd_sendDataWithAllTokensToStarver =>
    exact .bind fun _ => .bind fun _ => .bind fun _ => .ok hs
  case s_deallocateTBE => exact .bind fun _ => .ite (.bind fun _ => .ok hs) (.ok hs)
  case bd_bounceDatalessOwnerToken =>
    exact .bind fun _ => .bind fun _ => .bind fun _ => .bind fun _ => .bind fun _ => .bind fun _ => .ok hs
  case bw_broadcastWrite | vd_allocateDmaRequestInTBE | rd_recordDataInTbe | f_incrementTokens | n_checkData
      | r_bounceResponse | dm_sendMemoryDataToDma | dd_sendDmaData =>
    exact .bind fun _ => .bind fun _ => .ok hs
  case br_broadcastRead | qf_queueMemoryFetchRequest | qp_queueMemoryForPersistent | fd_memoryDma
      | ld_queueMemoryDmaWriteFromTbe | lr_queueMemoryDmaReadWriteback | cd_writeCleanDataToTbe
      | dwt_writeDmaDataFromTBE | m_writeDataToMemory | da_sendDmaAck =>
    exact .bind fun _ => .ok hs
  case p_popDmaRequestQueue => exact .ok (congrArg List.tail hs)
  case y_recycleDmaRequestQueue =>
    refine .ok ?_
    simp only [hs, List.tail_nil, List.head?_nil, Option.toList_none, List.append_nil]
  all_goals exact .ok hs

section trigger

variable {e : Event} {m : ResponseMsg n} {d : DataBlock} {s0 : Block n} {y : Know} {l : Directory n} {q : State}

theorem getState_of_tbe (h : l.tbe = none) : l.getState = l.directoryState := by rw [Directory.getState, h]

theorem kind_of_event (hs : s.Conserved p) (hv : s.Valued d) (ho : Occurs p s e) (he : e.response)
    (hm : s.responses.head? = some m) : m.type.owner = (knowStart s.dir.getState e).mo ∧
      ((knowStart s.dir.getState e).md → m.type.hasData) ∧
      (e = .Ack_Owner ∨ e = .Ack_Owner_All_Tokens → m.type = .ACK_OWNER) := by
  cases e <;> cases he
  case Data_All_Tokens =>
    obtain ⟨ht, hk⟩ := Block.Responds.head ho hm
    refine ⟨hv.owner_of_all hs hm (k := .Directory) hk.ge rfl, fun _ => ?_, by rintro (h | h) <;> cases h⟩
    rcases ht with ht | ht <;> rw [ht] <;> rfl
  case Tokens =>
    obtain ⟨ht, -⟩ := Block.Responds.head ho hm
    rcases ht with ht | ht <;> rw [ht] <;> exact ⟨rfl, nofun, by rintro (h | h) <;> cases h⟩
  case Data_Owner | Ack_All_Tokens =>
    obtain ⟨ht, -⟩ := Block.Responds.head ho hm
    rw [ht]
    exact ⟨rfl, fun h => h, by rintro (h | h) <;> cases h⟩
  case Ack_Owner | Ack_Owner_All_Tokens =>
    obtain ⟨ht, -⟩ := Block.Responds.head ho hm
    rw [ht]
    exact ⟨rfl, fun h => h, fun _ => rfl⟩

theorem held_start (hs : s.Conserved p) (hv : s.Valued d) (ho : Occurs p s e)
    (hm : e.response → s.responses.head? = some m) :
    Held (lastStore d s.log) s.dir.dataBlk (knowStart s.dir.getState e).valid (knowStart s.dir.getState e).own
      (some ⟨s.dir.dataBlk, false⟩) := by
  refine ⟨fun h => ⟨_, rfl, ?_⟩, fun h => ⟨_, rfl, .inr (hv.dir h).1⟩⟩
  simp only [knowStart, Bool.or_eq_true, beq_iff_eq, or_assoc] at h
  rcases h with h | h
  · exact (hv.dir h).1
  · have he : e.response := by rcases h with rfl | rfl <;> rfl
    have ht := (kind_of_event hs hv ho he (hm he)).2.2 h
    have hmem := hv.response m (List.mem_of_mem_head? (hm he))
    exact (hmem.owner (by rw [ht]; rfl)).resolve_left fun hd => hd.2 ht

theorem Knows.start (hs : s.Conserved p) (hv : s.Valued d) (ho : Occurs p s e)
    (hm : e.response → s.responses.head? = .some m) (hm0 : m.Fair) :
    Knows p m d s (knowStart s.dir.getState e) s := by
  refine ⟨.start hs rfl hm hm0 trivial, ?_, fun h => (hv.dir h).2, hv.base.2⟩
  refine .start hv id hm rfl (fun he => ?_) (fun he => ?_) (held_start hs hv ho hm)
  · have he' : e.response := he
    rw [show (knowStart s.dir.getState e).owed from he]
    exact (kind_of_event hs hv ho he' (hm he')).1
  · exact (kind_of_event hs hv ho he (hm he)).2.1

theorem Knows.finish (h : Knows p m d s0 y s) (hdma : s.dmaRequestToDir = []) (hy : y.settled q)
    (hl : s.dir.setState p q = .ok l) : (s.setDir l).Valued d := by
  obtain ⟨hy, hown, hsome, hbase⟩ : y.done ∧ y.own = q.owner ∧ (q.owner → y.some) ∧
      q.base := by simpa [Know.settled, and_assoc, or_iff_not_imp_left] using hy
  obtain ⟨-, hl⟩ := of_ensure hl
  obtain ⟨-, hl⟩ := of_ensure hl
  obtain ⟨-, hl⟩ := of_ensure hl
  obtain ⟨-, hl⟩ := of_ensure hl
  have htbe : l.tbe = none := by
    cases hl
    rw [h.tbe]
    rfl
  have hq : l.getState = q := by
    cases hl
    exact getState_setState s.dir q
  have hdata : l.dataBlk = s.dir.dataBlk ∧ l.tokens = s.dir.tokens ∧ l.directoryState = q := by
    cases hl
    exact ⟨rfl, rfl, rfl⟩
  have hat : (s.setDir l).weighAt owners .Directory = y.own.toInt := by
    rw [hown, ← hq]
    rfl
  obtain ⟨hone, hr⟩ := h.within.finish hy (.setDir l) hdata.1 hat
  refine ⟨hone, fun j => hr.l1 j nofun, hr.l2 nofun, fun hq' => ?_, hr.response, ⟨?_, htbe⟩, hdma⟩
  · have hq'' : q.owner := hq ▸ hq'
    exact ⟨hdata.1.trans (h.memory (hown.trans hq'')), hdata.2.1 ▸ h.some (hsome hq'')⟩
  · show l.directoryState.base
    rw [hdata.2.2]
    exact hbase

/-- What the directory does without DMA keeps the owner and the value. -/
theorem valued_trigger (hs : s.Conserved p) (hv : s.Valued d) (hoc : Occurs p s e)
    (h : (Block.directory p src).trigger e s = .ok s') : s'.Valued d := by
  have hbase : s.dir.getState.base := by
    rw [getState_of_tbe hv.base.2]
    exact hv.base.1
  have hnodma : e.dma = false := by
    refine Bool.eq_false_iff.2 fun hd => ?_
    cases e <;> cases hd <;> exact hoc hv.dma
  obtain ⟨m, hm, hm0⟩ := hs.nonneg.exists_head
  have h0 : Knows p m d s (knowStart s.dir.getState e) s :=
    .start hs hv hoc (fun he => hm (responses_ne_nil hoc he)) hm0
  have htwo : ¬ ((knowStart s.dir.getState e).own ∧ (knowStart s.dir.getState e).mo) := by
    intro ⟨hown, hmo⟩
    have he : e.response := by
      revert hmo
      cases e <;> simp [knowStart, Event.response]
    exact h0.within.not_two he ⟨hown, hmo⟩
  have hc : ∀ {r q}, (Block.directory p src).getState s = .ok q → r ∈ rules → q ∈ r.states → e ∈ r.events →
      Controller.passes knowStart track Know.settled r q e := by
    intro r q hq hr hqr her
    cases hq
    exact trackChecked _ hr _ hqr _ her hbase hnodma htwo
  refine Controller.trigger_sound (R := fun y x => Knows p m d s y x ∧ x.dmaRequestToDir = [])
    (fun hf h ha => ⟨h.1.act hf ha, (dma_act h.2).of_eq ha⟩) hc (fun hq => ?_) (fun h1 hy h => ?_) hv h
  · cases hq
    exact ⟨h0, hv.dma⟩
  · obtain ⟨l, hl, rfl⟩ := of_map h
    exact h1.1.finish h1.2 hy hl

end trigger

end Dir

end M5.Ruby.Token
