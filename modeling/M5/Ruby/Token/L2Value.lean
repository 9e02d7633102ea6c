import M5.Ruby.Token.L2Count
import M5.Ruby.Token.Value

/-!
# MOESI_CMP_token: the L2 bank keeps the owner and the value

The counterpart of the analysis of the L1 caches. Nothing is written at the L2 bank, and the writebacks of the L1 caches
are sent on under other types when the block is locked.
-/

namespace M5.Ruby.Token

open M5.Lib Bool

variable {n : Nat}

namespace L2

variable {p : Params} {src : MachineID n} {a : Action} {s s' : Block n}

/-! ## Following the owner and the value -/

section track

open L2.Action

/-- What the action asks for. -/
def allows (x : Know) : Action → Bool
  | q_updateTokensFromResponse => !(x.own && x.mo)
  | u_writeDataToCache => x.hand && x.owed && x.md
  | cc_dirtyReplacement | dd_sendDataWithAllTokens | ee_sendDataWithAllTokens | k_dataOwnerFromL2CacheToL1Requestor
  | k_dataAndAllTokensFromL2CacheToL1Requestor => x.own && x.valid && x.count.some
  | ff_sendDataWithAllButOneTokens => x.own && x.valid && x.count = .two
  | d_sendDataWithTokens | k_dataFromL2CacheToL1Requestor => x.valid && x.count.some
  | c_cleanReplacement | e_sendAckWithCollectedTokens | f_sendAckWithAllButOneTokens | t_sendAckWithCollectedTokens
  | tt_sendLocalAckWithCollectedTokens | rr_deallocateL2CacheBlock | vv_allocateL2CacheBlock => !x.own
  | gg_bounceWBSharedToStarver => !x.mo
  | gg_bounceWBOwnedToStarver => x.mo && x.md
  | _ => true

/-- What is known after the action, which leaves the tokens as `y` tells. -/
def after (x : Know) (y : Abs) : Action → Know
  | q_updateTokensFromResponse => { x with toAbs := y, own := x.own || x.mo }
  | u_writeDataToCache => { x with toAbs := y, valid := true }
  | cc_dirtyReplacement | dd_sendDataWithAllTokens | ee_sendDataWithAllTokens | k_dataOwnerFromL2CacheToL1Requestor
  | k_dataAndAllTokensFromL2CacheToL1Requestor | ff_sendDataWithAllButOneTokens => { x with toAbs := y, own := false }
  | rr_deallocateL2CacheBlock | vv_allocateL2CacheBlock => { x with toAbs := y, valid := false }
  | _ => { x with toAbs := y }

/-- What an action does to the tokens, the owner and the value. -/
def track (x : Know) (a : Action) : Option Know :=
  if allows x a then (follow x.toAbs a).map fun y => after x y a else none

end track

theorem after_toAbs {x : Know} {y : Abs} : (after x y a).toAbs = y := by cases a <;> rfl

structure Knows (p : Params) (m : ResponseMsg n) (d : DataBlock) (s0 : Block n) (x : Know) (s : Block n) : Prop where
  sees : Sees p m s0 x.toAbs s
  within : Within .L2Cache m d x s.l2.copy s

section knows

variable {m m' : ResponseMsg n} {d v mem : DataBlock} {s0 : Block n} {x y : Know} {z : Abs} {e e' : Entry State}
  {k : Int}

theorem hasCopy (he : s.l2.getL2CacheEntry = .ok e) : HasCopy .L2Cache s e (put s) where
  toHasEntry := hasEntry he
  copy := copy_of_entry he
  copy_put _ := rfl
  log _ := rfl
  dataBlk _ := rfl

section

variable (h : Knows p m d s0 x s)

include h

omit h in
theorem sends_allows (hs : a.sends) (hx : allows x a) (hc : x.count.Holds k) : ∃ own,
    (∀ t ∈ a.types, t.owner = own ∧ (t.hasData → x.valid ∧ 0 < k)) ∧
    (own → x.own ∧ x.valid ∧ a.left p k < k) ∧
    after x z a = { x with toAbs := z, own := x.own && !own } := by
  cases a <;> cases hs <;> simp only [allows, and_eq_true, decide_eq_true_eq, not_eq_true'] at hx
  case ff_sendDataWithAllButOneTokens =>
    rw [hx.2] at hc
    simp only [Count.Holds] at hc
    refine ⟨true, ?_, fun _ => ⟨hx.1.1, hx.1.2, by simp only [Action.left]; omega⟩, ?_⟩
    · exact List.forall_mem_singleton.2 ⟨rfl, fun _ => ⟨hx.1.2, by omega⟩⟩
    · simp only [after, Bool.not_true, Bool.and_false]
  case cc_dirtyReplacement | dd_sendDataWithAllTokens | ee_sendDataWithAllTokens | k_dataOwnerFromL2CacheToL1Requestor
      | k_dataAndAllTokensFromL2CacheToL1Requestor =>
    have := hc.one_le hx.2
    refine ⟨true, fun t ht => ⟨?_, fun _ => ⟨hx.1.2, this⟩⟩,
      fun _ => ⟨hx.1.1, hx.1.2, by simp only [Action.left]; omega⟩, ?_⟩
    · revert t
      decide
    · simp only [after, Bool.not_true, Bool.and_false]
  case d_sendDataWithTokens | k_dataFromL2CacheToL1Requestor =>
    refine ⟨false, List.forall_mem_singleton.2 ⟨rfl, fun _ => ⟨hx.1, hc.one_le hx.2⟩⟩, by simp, ?_⟩
    simp only [after, Bool.not_false, Bool.and_true]
  all_goals
    refine ⟨false, List.forall_mem_singleton.2 ⟨rfl, by rintro ⟨⟩⟩, by rintro ⟨⟩, ?_⟩
    simp only [after, Bool.not_false, Bool.and_true]

theorem Knows.sends (hN : 1 ≤ p.nTokens) (hs : a.sends) (hx : allows x a) (hf : follow x.toAbs a = some z)
    (ha : Block.l2Act p src a s = .ok s') : Within .L2Cache m d (after x z a) s'.l2.copy s' := by
  obtain ⟨e, he, hk, hg⟩ := sends_act hN hs (fun _ he => h.sees.entry_nonneg (hasEntry he)) ha
  have hc := h.sees.entry_count (hasEntry he)
  obtain ⟨own, htypes, hgive, hafter⟩ := sends_allows (p := p) (z := z) hs hx hc
  obtain ⟨c, rfl, -⟩ := follow_sends hN hs hf (h.sees.entry_nonneg (hasEntry he)) hk hc
  rw [hafter]
  exact h.within.gives (hasCopy he) hg htypes hgive

theorem Knows.quiet (hq : Quiet s s') : Within .L2Cache m d x s'.l2.copy s' := by
  have hc : s'.l2.copy = s.l2.copy := by rw [copy, hq.entry, copy]
  rw [hc]
  exact h.within.change hq.toBeside (by rw [hq.log]) (by rw [hq.dir (by simp)]) .refl rfl h.within.held

theorem Knows.take (hx : allows x .q_updateTokensFromResponse) {c : Count}
    (hz : x.settle c = some z) (he : s.l2.getL2CacheEntry = .ok e) :
    let dirty := e.dirty || ((m.type == .DATA_OWNER || m.type == .WB_OWNED) && m.dirty)
    let s' := put s { e with tokens := e.tokens + m.tokens, dirty }
    Within .L2Cache m d { x with toAbs := z, own := x.own || x.mo } s'.l2.copy s' := by
  refine h.within.take (hasCopy he) hx hz rfl (fun hd => by rw [hd]; rfl) fun ht hd => ?_
  have htype : (m.type == .DATA_OWNER || m.type == .WB_OWNED) := by
    revert hd ht
    cases m.type <;> simp [CoherenceResponseType.owner]
  rw [htype, hd.1]
  exact or_true _

theorem Knows.bounceShared (hx : allows x .gg_bounceWBSharedToStarver)
    (hz : x.settle x.count = some z) (hi : s.inResponse = .ok m) {dest : MachineID n} :
    let type := if m.type = .WB_SHARED_DATA then .DATA_SHARED else .ACK
    Within .L2Cache m d { x with toAbs := z } s.l2.copy
      (s.respond { m with type, sender := .L2Cache, destination := dest }) := by
  obtain ⟨-, ho, -⟩ := Abs.settle_eq hz
  have hmo : m.type.owner = false := (h.within.kind ho).1.trans (by simpa [allows] using hx)
  refine h.within.bounce hz hi (fun hm => ?_) ?_
  · split
    case isTrue ht =>
      have hd : m.type.hasData := by rw [ht]; rfl
      exact ⟨fun _ => hm.tokens (.inl hd), fun _ => hm.data hd, nofun⟩
    case isFalse => exact .of_plain rfl rfl
  · rw [hmo]
    split <;> rfl

theorem Knows.bounceOwned (hx : allows x .gg_bounceWBOwnedToStarver)
    (hz : x.settle x.count = some z) (hi : s.inResponse = .ok m) {dest : MachineID n} :
    Within .L2Cache m d { x with toAbs := z } s.l2.copy
      (s.respond { m with type := .DATA_OWNER, sender := .L2Cache, destination := dest }) := by
  obtain ⟨-, ho, -⟩ := Abs.settle_eq hz
  simp only [allows, and_eq_true] at hx
  obtain ⟨hmo, hmd⟩ := h.within.kind ho
  refine h.within.bounce hz hi (fun hm => ⟨fun _ => hm.tokens (.inl (hmd hx.2)), fun _ => hm.data (hmd hx.2),
    fun _ => ?_⟩) ?_
  · exact (hm.owner (hmo.trans hx.1)).imp_left fun hd => ⟨hd.1, nofun⟩
  · rw [hmo, hx.1]
    rfl

omit h in
theorem after_quiet (hq : a.quiet) : after x x.toAbs a = x := by
  cases a <;> first | rfl | cases hq

theorem Knows.act (hN : 1 ≤ p.nTokens) (hf : track x a = some y)
    (ha : Block.l2Act p src a s = .ok s') : Knows p m d s0 y s' := by
  obtain ⟨hx, z, hz, rfl⟩ := eq_some_of_allowed hf
  have hsees : Sees p m s0 (after x z a).toAbs s' := by
    rw [after_toAbs]
    exact h.sees.act hN hz ha
  refine ⟨hsees, ?_⟩
  by_cases hq : a.quiet
  · obtain rfl : x.toAbs = z := Option.some.inj ((follow_quiet hq).symm.trans hz)
    rw [after_quiet hq]
    exact h.quiet ((quiet_act hq).of_eq ha)
  by_cases hs : a.sends
  · exact h.sends hN hs hx hz ha
  cases a <;> first | contradiction | skip
  case bb_bounceResponse =>
    obtain ⟨m1, hm, rfl⟩ := of_map ha
    exact h.within.bounce hz hm (fun hm => ⟨hm.tokens, hm.data, hm.owner⟩) rfl
  case gg_bounceResponseToStarver =>
    obtain ⟨m1, hm, ha⟩ := of_bind ha
    obtain ⟨v, -, rfl⟩ := of_map ha
    exact h.within.bounce hz hm (fun hm => ⟨hm.tokens, hm.data, hm.owner⟩) rfl
  case gg_bounceWBSharedToStarver =>
    obtain ⟨m1, hm, ha⟩ := of_bind ha
    obtain ⟨v, -, rfl⟩ := of_map ha
    cases h.sees.inResponse (Abs.settle_eq hz).1 hm
    exact h.bounceShared hx hz hm
  case gg_bounceWBOwnedToStarver =>
    obtain ⟨m1, hm, ha⟩ := of_bind ha
    obtain ⟨v, -, rfl⟩ := of_map ha
    cases h.sees.inResponse (Abs.settle_eq hz).1 hm
    exact h.bounceOwned hx hz hm
  case n_popResponseQueue =>
    cases ha
    exact h.within.pop hz
  case q_updateTokensFromResponse =>
    obtain ⟨m1, hm, ha⟩ := of_bind ha
    obtain ⟨-, ha⟩ := of_ensure ha
    obtain ⟨e, he, rfl⟩ := of_map ha
    cases h.sees.inResponse (Abs.settle_eq hz).1 hm
    exact h.take hx hz he
  case u_writeDataToCache =>
    cases hz
    obtain ⟨m1, hm, ha⟩ := of_bind ha
    obtain ⟨e, he, rfl⟩ := of_map ha
    have hx' := hx
    simp only [allows, and_eq_true] at hx'
    cases h.sees.inResponse hx'.1.1 hm
    exact h.within.fill (hasCopy he) hx
  case vv_allocateL2CacheBlock =>
    cases hz
    obtain ⟨-, rfl⟩ := of_check ha
    exact h.within.forget (a := { x.toAbs with count := .zero }) (by simpa [allows] using hx)
      ⟨rfl, rfl⟩ (.setL2 _) rfl rfl
  case rr_deallocateL2CacheBlock =>
    simp only [follow] at hz
    split at hz
    case isFalse => cases hz
    case isTrue =>
      cases hz
      obtain ⟨-, rfl⟩ := of_check ha
      exact h.within.forget (by simpa [allows] using hx) ⟨rfl, rfl⟩ (.setL2 _) rfl rfl

end

end knows

/-! ## Rules -/

/-- What is known when the event `e` happens in the state `q`, without a slip. -/
def knowStart (q : State) (e : Event) : Know where
  toAbs := { start q e with count := if q == .O && e == .Persistent_GETS then .two else (start q e).count }
  own := q.owner
  valid := q.readable
  mo := e == .Data_Owner || e == .Writeback_Owned || ((e == .Data_All_Tokens || e == .Writeback_All_Tokens) && !q.owner)
  md := e == .Data_Owner || e == .Data_Shared || e == .Data_All_Tokens || e == .Writeback_Owned ||
    e == .Writeback_Shared_Data || (e == .Writeback_All_Tokens && !q.owner)

theorem trackChecked : ∀ r ∈ rules, ∀ q ∈ r.states, ∀ e ∈ r.events,
    Controller.passes knowStart track (fun y q => y.settled q.owner q.readable) r q e := by
  decide +kernel

/-! ## The next state -/

section setState

variable {l l' : L2 n} {q : State} {v mem : DataBlock}

theorem copy_setState (h : l.setState p q = .ok l') : l'.copy = l.copy := by
  rcases setState_cases h with ⟨-, rfl⟩ | ⟨e, he, -, -, -, rfl⟩
  · rfl
  · rw [copy, copy, he]
    rfl

theorem good_setState (h : l.setState p q = .ok l') (hc : Held v mem q.readable q.owner l.copy) : l'.Good v mem := by
  rw [Good, copy_setState h]
  rcases setState_cases h with ⟨he, rfl⟩ | ⟨e, he, -, -, -, rfl⟩
  · rcases getState_of_none he with hq | hq <;> rw [hq] <;> exact ⟨nofun, nofun⟩
  · exact hc

theorem owner_setState (h : l.setState p q = .ok l') (hc : Held v mem q.readable q.owner l.copy) :
    l'.getState.owner = q.owner := by
  rcases setState_cases h with ⟨he, rfl⟩ | ⟨e, he, -, -, -, rfl⟩
  · have ho : q.owner = false := by
      refine eq_false_iff.2 fun ho => ?_
      obtain ⟨c, hl, -⟩ := hc.owner ho
      rw [copy, he] at hl
      cases hl
    rcases getState_of_none he with hq | hq <;> rw [hq, ho] <;> rfl
  · rfl

end setState

/-! ## Events -/

section trigger

variable {e : Event} {m : ResponseMsg n} {d : DataBlock} {s0 : Block n} {y : Know} {l : L2 n} {q : State}

theorem kind_of_event (hs : s.Conserved p) (hv : s.Valued d) (ho : Occurs p s e) (he : e.response)
    (hm : s.responses.head? = some m) : m.type.owner = (knowStart s.l2.getState e).mo ∧
      ((knowStart s.l2.getState e).md → m.type.hasData) := by
  have hall : s.l2.getTokens + m.tokens = p.maxTokens → m.type.owner = !s.l2.getState.owner :=
    fun hk => hv.owner_of_all hs hm (k := .L2Cache) hk.ge rfl
  cases e <;> cases he
  case Data_All_Tokens =>
    obtain ⟨ht, hk⟩ := Block.Responds.head ho hm
    exact ⟨hall hk, fun _ => by rcases ht with ht | ht <;> rw [ht] <;> rfl⟩
  case Writeback_All_Tokens =>
    obtain ⟨hk, ht⟩ := Block.Responds.head ho hm
    refine ⟨hall hk, fun hmd => ?_⟩
    -- without the owner token in the bank the writeback has it, and so data
    have hown : m.type.owner := (hall hk).trans hmd
    rcases ht with ht | ht | ht
    · rw [ht]
      rfl
    · rw [ht]
      rfl
    · rw [ht.1] at hown
      cases hown
  case L1_INV =>
    rw [show m.type = .INV from Block.Responds.head ho hm]
    exact ⟨rfl, fun h => h⟩
  all_goals
    obtain ⟨ht, -⟩ := Block.Responds.head ho hm
    rw [ht]
    exact ⟨rfl, fun h => h⟩

theorem Knows.start (hs : s.Conserved p) (hv : s.Valued d) (ho : Occurs p s e) (hsl : slips s e = false)
    (hm : e.response → s.responses.head? = some m) (hm0 : m.Fair) :
    Knows p m d s (knowStart s.l2.getState e) s := by
  have hsees : Sees p m s (L2.start s.l2.getState e) s := .start hs ho hm hm0
  refine ⟨hsees.learn ?_, ?_⟩
  · split
    case isTrue hst =>
      simp only [and_eq_true, beq_iff_eq] at hst
      have h1 := hs.l2.readable (by rw [hst.1]; rfl)
      have hne : s.l2.getTokens ≠ 1 := by
        intro hk
        rw [slips, hst.1, hst.2, hk] at hsl
        cases hsl
      simp only [Count.Holds, Block.entryTokens]
      omega
    case isFalse => exact hsees.count
  · have howed : (knowStart s.l2.getState e).owed = (e.response && e != .L1_INV) := rfl
    refine .start hv (fun h => ?_) hm rfl (fun he => ?_) (fun h => ?_) hv.l2
    · rw [howed, and_eq_true] at h
      exact h.1
    · have he' : e.response := he
      rw [howed, he']
      have hmo := (kind_of_event hs hv ho he' (hm he')).1
      by_cases hi : e = .L1_INV
      · rw [hmo, hi]
        rfl
      · rw [hmo]
        simp [hi]
    · rw [howed, and_eq_true] at h
      exact (kind_of_event hs hv ho h.1 (hm h.1)).2

theorem Knows.finish (h : Knows p m d s0 y s) (hv : s0.Valued d) (hy : y.settled q.owner q.readable)
    (hl : s.l2.setState p q = .ok l) : (s.setL2 l).Valued d := by
  obtain ⟨hy, hown, hvalid⟩ := Know.settled_iff.1 hy
  have hc : Held (lastStore d s.log) s.dir.dataBlk q.readable q.owner s.l2.copy := h.within.held.mono hvalid (hown ▸ id)
  have hat : (s.setL2 l).weighAt owners .L2Cache = y.own.toInt :=
    congrArg toInt ((owner_setState hl hc).trans hown.symm)
  obtain ⟨hone, hr⟩ := h.within.finish hy (.setL2 l) rfl hat
  refine ⟨hone, fun j => hr.l1 j nofun, good_setState hl hc, hr.dir nofun, hr.response, ?_,
    (h.sees.elsewhere.dma nofun).trans hv.dma⟩
  · show s.dir.directoryState.base ∧ s.dir.tbe = none
    rw [h.sees.elsewhere.dir nofun]
    exact hv.base

/-- What the L2 bank does without a slip keeps the owner and the value. -/
theorem valued_trigger (hN : 1 ≤ p.nTokens) (hs : s.Conserved p) (hv : s.Valued d) (hoc : Occurs p s e)
    (hsl : slips s e = false) (h : (Block.l2Cache p src).trigger e s = .ok s') : s'.Valued d := by
  obtain ⟨m, hm, hm0⟩ := hs.nonneg.exists_head
  refine Controller.trigger_sound (R := Knows p m d s) (fun hf h ha => h.act hN hf ha)
    (fun _ hr hq he => trackChecked _ hr _ hq _ he) (fun hq => ?_) (fun h1 hy h => ?_) hv h
  · cases hq
    exact .start hs hv hoc hsl (fun he => hm (responses_ne_nil hoc he)) hm0
  · obtain ⟨l, hl, rfl⟩ := of_map h
    exact h1.finish hv hy hl

end trigger

end L2

end M5.Ruby.Token
