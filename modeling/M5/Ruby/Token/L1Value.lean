import M5.Ruby.Token.L1Count
import M5.Ruby.Token.Value

/-!
# MOESI_CMP_token: the L1 cache keeps the owner and the value

A second analysis of the actions of an L1 cache, over that of the tokens: it follows the owner token and the validity of
the copy.
-/

namespace M5.Ruby.Token

open M5.Lib Bool List

variable {n : Nat}

namespace L1

variable {p : Params} {i : Fin n} {src : MachineID n} {write : DataBlock → DataBlock} {a : Action} {s s' : Block n}

/-! ## Following the owner and the value -/

/-- What is known between two actions; `all` says that the cache and the response have all tokens, `few` that the cache
has at most one. -/
structure Know extends Token.Know where
  all : Bool
  few : Bool

section track

open L1.Action

/-- What the action asks for. -/
def Know.allows (x : Know) : Action → Bool
  | q_updateTokensFromResponse => !(x.own && x.mo)
  | u_writeDataToCache => x.hand && x.owed && x.md
  | c_ownedReplacement | dd_sendDataWithAllTokens | ee_sendDataWithAllTokens => x.own && x.valid && x.count.some
  | ff_sendDataWithAllButNorOneTokens => x.own && x.valid && x.count = .two
  | cc_sharedReplacement => !x.own && (x.valid || x.few)
  | d_sendDataWithToken | d_sendDataWithNTokenIfAvail => x.valid
  | e_sendAckWithCollectedTokens | f_sendAckWithAllButNorOneTokens | t_sendAckWithCollectedTokens => !x.own
  | hh_store_hit | xx_external_store_hit => x.all && !x.owed
  | gg_deallocateL1CacheBlock | ii_allocateL1DCacheBlock | pp_allocateL1ICacheBlock => !x.own
  | _ => true

/-- What is known after the action, which leaves the tokens as `y` tells. -/
def Know.after (x : Know) (y : Abs) : Action → Know
  | q_updateTokensFromResponse => { x with toAbs := y, own := x.own || x.mo, few := false }
  | u_writeDataToCache | hh_store_hit | xx_external_store_hit => { x with toAbs := y, valid := true }
  | c_ownedReplacement | dd_sendDataWithAllTokens | ee_sendDataWithAllTokens | ff_sendDataWithAllButNorOneTokens =>
    { x with toAbs := y, own := false, all := false, few := false }
  | cc_sharedReplacement | d_sendDataWithToken | d_sendDataWithNTokenIfAvail | e_sendAckWithCollectedTokens
  | f_sendAckWithAllButNorOneTokens | t_sendAckWithCollectedTokens | bb_bounceResponse | g_bounceResponseToStarver =>
    { x with toAbs := y, all := false, few := false }
  | gg_deallocateL1CacheBlock | ii_allocateL1DCacheBlock | pp_allocateL1ICacheBlock =>
    { x with toAbs := y, valid := false, all := false, few := false }
  | _ => { x with toAbs := y }

/-- What an action does to the tokens, the owner and the value. -/
def track (x : Know) (a : Action) : Option Know :=
  if x.allows a then (follow x.toAbs a).map fun y => x.after y a else none

end track

theorem after_toAbs {x : Know} {y : Abs} : (x.after y a).toAbs = y := by cases a <;> rfl

structure Knows (p : Params) (i : Fin n) (m : ResponseMsg n) (d : DataBlock) (s0 : Block n) (x : Know) (s : Block n) :
    Prop where
  sees : Sees p i m s0 x.toAbs s
  within : Within (.L1Cache i) m d x.toKnow (s.l1 i).copy s
  all : x.all → (s.l1 i).getTokens + (if x.owed then m.tokens else 0) = p.maxTokens
  few : x.few → (s.l1 i).getTokens ≤ 1

section knows

variable {m m' : ResponseMsg n} {d v mem : DataBlock} {s0 : Block n} {x y : Know} {z : Abs} {e e' : Entry State}
  {k : Int}

theorem copy_setCacheEntry {l : L1 n} (h : l.getCacheEntry = .ok e) : (l.setCacheEntry e').copy = some e'.copy := by
  rcases entry_cases h with ⟨_, hs⟩ | ⟨hd, _, hs⟩
  · rw [hs]
    rfl
  · rw [hs, hd]
    rfl

theorem hasCopy (he : (s.l1 i).getCacheEntry = .ok e) : HasCopy (.L1Cache i) s e (put s i) where
  toHasEntry := hasEntry he
  copy := copy_of_entry he
  copy_put _ := (congrArg copy setL1_self).trans (copy_setCacheEntry he)
  log _ := rfl
  dataBlk _ := rfl

section

variable (h : Knows p i m d s0 x s)

include h

omit h in
theorem sends_allows (hs : a.sends) (hne : a ≠ .cc_sharedReplacement) (hx : x.allows a)
    (hf : follow x.toAbs a = some z) (hk : a.asks ≤ k) (hc : x.count.Holds k) : ∃ own,
      (∀ t ∈ a.types, t.owner = own ∧ (t.hasData → x.valid ∧ 0 < k)) ∧
      (own → x.own ∧ x.valid ∧ a.left p k < k) ∧
      (x.after z a).toKnow = { x.toKnow with toAbs := z, own := x.own && !own } := by
  cases a <;> cases hs <;> simp only [Know.allows, and_eq_true, decide_eq_true_eq, not_eq_true'] at hx
  case cc_sharedReplacement => exact absurd rfl hne
  case c_ownedReplacement | dd_sendDataWithAllTokens | ee_sendDataWithAllTokens =>
    have := hc.one_le hx.2
    refine ⟨true, ?_, fun _ => ⟨hx.1.1, hx.1.2, this⟩, ?_⟩
    · exact forall_mem_singleton.2 ⟨rfl, fun _ => ⟨hx.1.2, this⟩⟩
    · simp only [Know.after, Bool.not_true, Bool.and_false]
  case ff_sendDataWithAllButNorOneTokens =>
    rw [hx.2] at hc
    simp only [Count.Holds] at hc
    refine ⟨true, ?_, fun _ => ⟨hx.1.1, hx.1.2, by simp only [Action.left]; omega⟩, ?_⟩
    · exact forall_mem_singleton.2 ⟨rfl, fun _ => ⟨hx.1.2, by omega⟩⟩
    · simp only [Know.after, Bool.not_true, Bool.and_false]
  case d_sendDataWithToken | d_sendDataWithNTokenIfAvail =>
    have hpos : 0 < k := by
      simp only [Action.asks, follow] at hk hf
      first
        | omega
        | split at hf
          · next hsome => exact hc.one_le hsome
          · cases hf
    refine ⟨false, forall_mem_singleton.2 ⟨rfl, fun _ => ⟨hx, hpos⟩⟩, by simp, ?_⟩
    simp only [Know.after, Bool.not_false, Bool.and_true]
  all_goals
    refine ⟨false, forall_mem_singleton.2 ⟨rfl, by rintro ⟨⟩⟩, by rintro ⟨⟩, ?_⟩
    simp only [Know.after, Bool.not_false, Bool.and_true]

theorem Knows.sends (hN : 1 ≤ p.nTokens) (hs : a.sends) (hne : a ≠ .cc_sharedReplacement) (hx : x.allows a)
    (hf : follow x.toAbs a = some z) (ha : Block.l1Act p i src write a s = .ok s') :
    Within (.L1Cache i) m d (x.after z a).toKnow (s'.l1 i).copy s' := by
  obtain ⟨e, he, hk, hg⟩ := sends_act hN hs (fun _ he => h.sees.entry_nonneg (hasEntry he)) ha
  have hc := h.sees.entry_count (hasEntry he)
  obtain ⟨own, htypes, hgive, hafter⟩ := sends_allows (p := p) hs hne hx hf hk hc
  obtain ⟨c, rfl, -⟩ := follow_sends hN hs hf hk hc
  rw [hafter]
  exact h.within.gives (hasCopy he) hg htypes hgive

theorem Knows.sharedReplacement (hx : x.allows .cc_sharedReplacement)
    (ha : Block.l1Act p i src write .cc_sharedReplacement s = .ok s') {c : Count} :
    Within (.L1Cache i) m d { x.toKnow with count := c } (s'.l1 i).copy s' := by
  simp only [Know.allows, and_eq_true, or_eq_true] at hx
  have hkeep : Within (.L1Cache i) m d { x.toKnow with count := c, own := x.own && !false } (s'.l1 i).copy s' →
      Within (.L1Cache i) m d { x.toKnow with count := c } (s'.l1 i).copy s' := fun hw => by
    rwa [Bool.not_false, Bool.and_true] at hw
  obtain ⟨e, he, ha⟩ := of_bind ha
  split at ha
  · split at ha
    case isTrue hk =>
      cases ha
      have hvalid : x.valid := by
        refine hx.2.resolve_right fun hf => ?_
        have := h.few hf
        rw [getTokens_of_entry he] at this
        omega
      exact hkeep (h.within.sent (hasCopy he) (.shared (mem_singleton.2 rfl) (Int.sub_zero _).symm rfl)
        (fun _ => ⟨hvalid, by omega⟩) nofun)
    case isFalse =>
      cases ha
      exact hkeep (h.within.sent (hasCopy he) (.shared (mem_singleton.2 rfl) (Int.sub_zero _).symm rfl)
        (by rintro (hp | hp) <;> cases hp)
        nofun)
  · cases ha
    exact h.within.mono ⟨rfl, id, rfl, rfl⟩ rfl id id

theorem Knows.quiet (hq : Quiet i s s') :
    Within (.L1Cache i) m d x.toKnow (s'.l1 i).copy s' ∧ (s'.l1 i).getTokens = (s.l1 i).getTokens := by
  have hc : (s'.l1 i).copy = (s.l1 i).copy := by rw [copy, hq.dcache, hq.icache, copy]
  refine ⟨?_, by rw [getTokens, getTokens, hq.dcache, hq.icache]⟩
  rw [hc]
  exact h.within.change hq.toBeside (by rw [hq.log]) (by rw [hq.dir (by simp)]) .refl rfl h.within.held

theorem Knows.rest_of_all (hs : s0.Conserved p) (hall : x.all) (howed : x.owed = false)
    (v : DataBlock) {t : Block n} (ht : s = t.hold (if x.hand then some m else none))
    (hr : t.Rest (.L1Cache i) (lastStore d t.log)) : t.Rest (.L1Cache i) v := by
  obtain ⟨t', hf⟩ := h.sees.follows
  obtain rfl : t' = t := Block.hold_inj (hf.state.symm.trans ht)
  have htotal := hf.total
  have hk := h.all hall
  have hl : s.l1 = t'.l1 := by rw [ht]; rfl
  have hle := hf.nonneg.getTokens_le i
  rw [howed] at htotal hk
  rw [hl] at hk
  simp only [false_eq_true, if_false, Int.add_zero] at htotal hk
  have ha : t'.Alone (.L1Cache i) := by
    refine hf.nonneg.alone ?_
    rw [htotal, ← hk]
    exact hle
  have hc : t'.CountedBut p (.L1Cache i) := by
    refine ⟨fun j hj => ?_, fun _ => ?_⟩
    · have := h.sees.elsewhere.l1 j hj
      rw [hl] at this
      rw [this]
      exact hs.l1 j
    · have : t'.l2 = s.l2 := by rw [ht]; rfl
      rw [this, h.sees.elsewhere.l2 nofun]
      exact hs.l2
  exact ha.rest hf.nonneg hc hr v

omit h in
theorem getTokens_kept (he : (s.l1 i).getCacheEntry = .ok e) (f : Entry State) (hk : e.tokens = f.tokens) :
    (s.l1 i).getTokens = ((put s i f).l1 i).getTokens := by
  rw [setL1_self, getTokens_setCacheEntry he, ← hk, getTokens_of_entry he]

theorem Knows.store (hs : s0.Conserved p) (hx : x.all && !x.owed) (he : (s.l1 i).getCacheEntry = .ok e) :
    Knows p i m d s0 { x with valid := true }
      { put s i { e with dataBlk := v, dirty := true } with log := s.log ++ [.store i v] } := by
  simp only [and_eq_true, not_eq_true'] at hx
  have hv : lastStore d (s.log ++ [.store i v]) = v := lastStore_append d s.log _
  have hk := getTokens_kept he { e with dataBlk := v, dirty := true } rfl
  refine ⟨h.sees.store he, .store h.within hx.2 ?_ rfl (fun t ht hr => ?_) ?_, fun h' => hk ▸ h.all h',
    fun h' => hk ▸ h.few h'⟩
  · obtain ⟨⟨h1, h2, h3, h4⟩, h5⟩ := (hasEntry he).beside { e with dataBlk := v, dirty := true }
    exact ⟨⟨h1, h2, h3, h4⟩, h5⟩
  · exact h.rest_of_all hs hx.1 hx.2 _ ht hr
  · rw [setL1_self, copy_setCacheEntry he]
    exact held_entry.2 ⟨fun _ => hv.symm, fun _ => .inl rfl⟩

omit h in
theorem after_quiet (hq : a.quiet) : x.after x.toAbs a = x := by
  cases a <;> first | rfl | cases hq

theorem Knows.load : Within (.L1Cache i) m d x.toKnow (s.l1 i).copy { s with log := s.log ++ [.load i v] } :=
  h.within.change (beside_of_eq rfl rfl rfl rfl rfl) (lastStore_append d s.log _) rfl .refl rfl
    h.within.held

theorem Knows.act (hN : 1 ≤ p.nTokens) (hs0 : s0.Conserved p) (hf : track x a = some y)
    (ha : Block.l1Act p i src write a s = .ok s') : Knows p i m d s0 y s' := by
  obtain ⟨hx, z, hz, rfl⟩ := eq_some_of_allowed hf
  have hsees : Sees p i m s0 (x.after z a).toAbs s' := by
    rw [after_toAbs]
    exact h.sees.act hN hz ha
  by_cases hq : a.quiet
  · obtain rfl : x.toAbs = z := Option.some.inj ((follow_quiet hq).symm.trans hz)
    obtain ⟨hw, hk⟩ := h.quiet ((quiet_act hq).of_eq ha)
    rw [after_quiet hq] at hsees ⊢
    exact ⟨hsees, hw, fun h' => hk ▸ h.all h', fun h' => hk ▸ h.few h'⟩
  by_cases hcc : a = .cc_sharedReplacement
  · subst hcc
    cases hz
    exact ⟨hsees, h.sharedReplacement hx ha, by rintro ⟨⟩, by rintro ⟨⟩⟩
  by_cases hs : a.sends
  · refine ⟨hsees, h.sends hN hs hcc hx hz ha, ?_, ?_⟩ <;> cases a <;> cases hs <;> rintro ⟨⟩
  cases a <;> first | exact absurd rfl hq | exact absurd rfl hs | skip
  case bb_bounceResponse =>
    obtain ⟨m1, hm, rfl⟩ := of_map ha
    exact ⟨hsees, h.within.bounce hz hm (fun hm => ⟨hm.tokens, hm.data, hm.owner⟩) rfl, by rintro ⟨⟩, by rintro ⟨⟩⟩
  case g_bounceResponseToStarver =>
    obtain ⟨m1, hm, ha⟩ := of_bind ha
    obtain ⟨v, -, rfl⟩ := of_map ha
    exact ⟨hsees, h.within.bounce hz hm (fun hm => ⟨hm.tokens, hm.data, hm.owner⟩) rfl, by rintro ⟨⟩, by rintro ⟨⟩⟩
  case h_load_hit =>
    cases hz
    obtain ⟨e, -, rfl⟩ := of_map ha
    exact ⟨hsees, h.load, h.all, h.few⟩
  case x_external_load_hit =>
    cases hz
    obtain ⟨e, -, ha⟩ := of_bind ha
    obtain ⟨m1, -, rfl⟩ := of_map ha
    exact ⟨hsees, h.load, h.all, h.few⟩
  case hh_store_hit =>
    cases hz
    obtain ⟨e, he, rfl⟩ := of_map ha
    exact h.store hs0 hx he
  case xx_external_store_hit =>
    cases hz
    obtain ⟨e, he, ha⟩ := of_bind ha
    obtain ⟨m1, -, rfl⟩ := of_map ha
    exact h.store hs0 hx he
  case n_popResponseQueue =>
    cases ha
    have ho : z.owed = x.owed := Abs.owed_of_drop hz
    refine ⟨hsees, h.within.pop hz, fun h' => ?_, h.few⟩
    show (s.l1 i).getTokens + (if z.owed then m.tokens else 0) = p.maxTokens
    rw [ho]
    exact h.all h'
  case p_informL2AboutTokenLoss =>
    cases hz
    cases ha
    exact ⟨hsees, h.within.inform rfl rfl, h.all, h.few⟩
  case q_updateTokensFromResponse =>
    obtain ⟨m1, hm, ha⟩ := of_bind ha
    obtain ⟨hm0, ha⟩ := of_ensure ha
    obtain ⟨e, he, rfl⟩ := of_map ha
    cases h.sees.inResponse (Abs.settle_eq hz).1 hm
    obtain ⟨-, ho, rfl⟩ := Abs.settle_eq hz
    refine ⟨hsees, h.within.take (hasCopy he) hx hz rfl (fun hd => by rw [hd]; rfl)
      (fun _ hd => by rw [hd.1, Bool.or_true]), fun h' => ?_, by rintro ⟨⟩⟩
    have hk := h.all h'
    rw [ho, getTokens_of_entry he] at hk
    show (((s.setL1 i _).l1 i).getTokens : Int) + 0 = p.maxTokens
    rw [setL1_self, getTokens_setCacheEntry he]
    simpa only [if_true, Int.add_zero] using hk
  case u_writeDataToCache =>
    cases hz
    obtain ⟨m1, hm, ha⟩ := of_bind ha
    obtain ⟨e, he, rfl⟩ := of_map ha
    have hx' := hx
    simp only [Know.allows, and_eq_true] at hx'
    cases h.sees.inResponse hx'.1.1 hm
    have hk := getTokens_kept he { e with dataBlk := m.dataBlk, dirty := e.dirty || m.dirty } rfl
    exact ⟨hsees, h.within.fill (hasCopy he) hx, fun h' => hk ▸ h.all h', fun h' => hk ▸ h.few h'⟩
  case gg_deallocateL1CacheBlock =>
    simp only [follow] at hz
    split at hz
    case isFalse => cases hz
    case isTrue =>
      cases hz
      obtain ⟨-, rfl⟩ := of_check ha
      exact ⟨hsees, h.within.forget (a := { x.toAbs with count := .any }) (by simpa [Know.allows] using hx)
        ⟨rfl, rfl⟩ (.setL1 _) rfl rfl,
        (by rintro ⟨⟩), by rintro ⟨⟩⟩
  case ii_allocateL1DCacheBlock | pp_allocateL1ICacheBlock =>
    cases hz
    cases ha
    exact ⟨hsees, h.within.forget (a := { x.toAbs with count := .any }) (by simpa [Know.allows] using hx)
      ⟨rfl, rfl⟩ (.setL1 _) rfl rfl,
        (by rintro ⟨⟩), by rintro ⟨⟩⟩

end

end knows

/-! ## Rules -/

/-- On this event the cache keeps a copy and gives the owner token away. -/
def Event.strips (e : Event) (q : State) : Bool :=
  (e == .Persistent_GETS || e == .Use_TimeoutStarverS) && (q == .O || q == .OM || q == .M || q == .M_W)

/-- What is known when the event `e` happens in the state `q`, without a slip. -/
def knowStart (q : State) (e : Event) : Know where
  toAbs := { start q e with count := if e.strips q then .two else (start q e).count }
  own := q.owner
  valid := q.readable
  mo := e == .Data_Owner || (e == .Data_All_Tokens && !q.owner)
  md := e == .Data_Owner || e == .Data_Shared || e == .Data_All_Tokens
  all := e == .Data_All_Tokens || e == .Ack_All_Tokens || (q.exclusive && !e.response)
  few := q == .I && e == .L1_Replacement

/-- Every rule passes, unless it slips. -/
theorem trackChecked : ∀ r ∈ rules, ∀ q ∈ r.states, ∀ e ∈ r.events,
    Controller.passes knowStart track (fun y q => y.settled q.owner q.readable) r q e := by
  decide +kernel

/-! ## The next state -/

section setState

variable {l l' : L1 n} {q : State} {e : Entry State}

section

variable (h : l.setState p q = .ok l')

include h

theorem copy_setState : l'.copy = l.copy := by
  rcases setState_cases h with ⟨-, -, rfl⟩ | ⟨e, he, -, rfl⟩
  · rfl
  · rw [copy_setCacheEntry (l := l.setTBE q) he, copy_of_entry he]
    rfl

theorem getState_setState_of_entry (he : l.getCacheEntry = .ok e) : l'.getState i = .ok q := by
  obtain ⟨hb, -⟩ := of_ensure h
  rcases setState_cases h with ⟨hd, hi, -⟩ | ⟨e', he', -, rfl⟩
  · rw [getCacheEntry, hd, hi] at he
    cases he
  · rcases entry_cases (l := l.setTBE q) he' with ⟨hd, hs⟩ | ⟨hd, hi, hs⟩
    · rw [hs]
      refine ensure_bind_eq_ok.2 ⟨fun hx => hb ⟨?_, hx.2⟩, ?_⟩
      · rw [show l.dcache = some e' from hd]
        rfl
      · cases ht : l.tbe <;> simp [setTBE, ht]
    · rw [hs]
      refine ensure_bind_eq_ok.2 ⟨fun hx => ?_, ?_⟩
      · rw [hd] at hx
        cases hx.1
      · cases ht : l.tbe <;> simp [setTBE, ht, show l.dcache = none from hd]

theorem good_setState {v mem : DataBlock} (hc : Held v mem q.readable q.owner l.copy) : l'.Good v mem i := by
  intro q' hq'
  rw [copy_setState h]
  rcases getState_setState h hq' with rfl | rfl | rfl
  · exact hc
  all_goals exact ⟨nofun, nofun⟩

theorem owner_setState {v mem : DataBlock} (hc : Held v mem q.readable q.owner l.copy) : l'.owner i = q.owner := by
  cases ho : q.owner with
  | true =>
    obtain ⟨c, hl, -⟩ := hc.owner ho
    obtain ⟨e, he, -⟩ := Option.map_eq_some_iff.1 hl
    rw [owner_of_state (getState_setState_of_entry h (present_eq_ok.2 he)), ho]
  | false =>
    refine eq_false_iff.2 fun ho' => ?_
    obtain ⟨q', hq', ho'⟩ := owner_eq_true ho'
    rcases getState_setState h hq' with rfl | rfl | rfl
    · nomatch ho.symm.trans ho'
    all_goals cases ho'

end

end setState

/-! ## Events -/

section trigger

variable {e : Event} {m : ResponseMsg n} {d : DataBlock} {s0 : Block n} {y : Know} {l : L1 n} {q : State}

theorem count_of_strips (hs : s.Conserved p) (hq : (s.l1 i).getState i = .ok q) (hsl : slips i s e = false)
    (he : e.strips q) : 2 ≤ (s.l1 i).getTokens := by
  simp only [Event.strips, and_eq_true, or_eq_true, beq_iff_eq] at he
  have hr : q.readable := by rcases he.2 with ((rfl | rfl) | rfl) | rfl <;> rfl
  have h1 := (hs.l1 i).readable hq hr
  have hne : (s.l1 i).getTokens ≠ 1 := by
    intro hk
    rw [slips, hq, hk] at hsl
    rcases he with ⟨rfl | rfl, ((rfl | rfl) | rfl) | rfl⟩ <;> cases hsl
  omega

theorem few_of_slips (hq : (s.l1 i).getState i = .ok .I) (hsl : slips i s .L1_Replacement = false) :
    (s.l1 i).getTokens ≤ 1 := by
  rw [slips, hq] at hsl
  simpa using hsl

theorem kind_of_event (hs : s.Conserved p) (hv : s.Valued d) (hq : (s.l1 i).getState i = .ok q) (ho : Occurs p i s e)
    (he : e.response) (hm : s.responses.head? = some m) :
    m.type.owner = (knowStart q e).mo ∧ ((knowStart q e).md → m.type.hasData) := by
  cases e <;> cases he
  case Data_All_Tokens =>
    obtain ⟨ht, hk⟩ := ho.head hm
    have hown : s.weighAt owners (.L1Cache i) = q.owner.toInt := congrArg toInt (owner_of_state hq)
    have hall : p.maxTokens ≤ s.weighAt Token.tokens (.L1Cache i) + m.tokens := by
      have := hs.nonneg.getTokens_le i
      simp only [Block.weighAt, tokens_l1]
      omega
    exact ⟨hv.owner_of_all hs hm hall hown, fun _ => by rcases ht with ht | ht <;> rw [ht] <;> rfl⟩
  all_goals
    obtain ⟨ht, -⟩ := Block.Responds.head ho hm
    rw [ht]
    exact ⟨rfl, fun h => h⟩

theorem Knows.start (hs : s.Conserved p) (hv : s.Valued d) (hq : (s.l1 i).getState i = .ok q) (ho : Occurs p i s e)
    (hsl : slips i s e = false) (hm : e.response → s.responses.head? = some m) (hm0 : m.Fair) :
    Knows p i m d s (knowStart q e) s := by
  have hsees : Sees p i m s (L1.start q e) s := .start hs hq hm hm0
  refine ⟨hsees.learn ?_, ?_, fun hall => ?_, fun hfew => ?_⟩
  · split
    case isTrue hst => exact count_of_strips hs hq hsl hst
    case isFalse => exact hsees.count
  · refine .start hv id hm (congrArg toInt (owner_of_state hq)) (fun he => ?_) (fun he => ?_) (hv.l1 i q hq)
    · have he' : e.response := he
      rw [show (knowStart q e).owed from he]
      exact (kind_of_event hs hv hq ho he' (hm he')).1
    · exact (kind_of_event hs hv hq ho he (hm he)).2
  · simp only [knowStart, or_eq_true, and_eq_true, beq_iff_eq, not_eq_true'] at hall
    rcases hall with (rfl | rfl) | ⟨hx, hr⟩
    · exact (Block.Responds.head ho (hm rfl)).2
    · exact (Block.Responds.head ho (hm rfl)).2
    · show (s.l1 i).getTokens + (if e.response then m.tokens else 0) = p.maxTokens
      rw [hr, (hs.l1 i).exclusive hq hx]
      exact Int.add_zero _
  · simp only [knowStart, and_eq_true, beq_iff_eq] at hfew
    obtain ⟨rfl, rfl⟩ := hfew
    exact few_of_slips hq hsl

theorem Knows.finish (h : Knows p i m d s0 y s) (hv : s0.Valued d) (hy : y.settled q.owner q.readable)
    (hl : (s.l1 i).setState p q = .ok l) : (s.setL1 i l).Valued d := by
  obtain ⟨hy, hown, hvalid⟩ := Know.settled_iff.1 hy
  have hc : Held (lastStore d s.log) s.dir.dataBlk q.readable q.owner (s.l1 i).copy :=
    h.within.held.mono hvalid (hown ▸ id)
  have hat : (s.setL1 i l).weighAt owners (.L1Cache i) = y.own.toInt := by
    show ((s.setL1 i l).l1 i |>.owner i).toInt = _
    rw [setL1_self, owner_setState hl hc, hown]
  obtain ⟨hone, hr⟩ := h.within.finish hy (.setL1 l) rfl hat
  refine ⟨hone, fun j => ?_, hr.l2 nofun, hr.dir nofun, hr.response, ?_, (h.sees.elsewhere.dma nofun).trans hv.dma⟩
  · rcases eq_or_ne j i with rfl | hj
    · rw [setL1_self]
      exact good_setState hl hc
    · exact hr.l1 j fun he => hj (MachineID.L1Cache.inj he)
  · show s.dir.directoryState.base ∧ s.dir.tbe = none
    rw [h.sees.elsewhere.dir nofun]
    exact hv.base

/-- What an L1 cache does without a slip keeps the owner and the value. -/
theorem valued_trigger (hN : 1 ≤ p.nTokens) (hs : s.Conserved p) (hv : s.Valued d) (hoc : Occurs p i s e)
    (hsl : slips i s e = false) (h : (Block.l1Cache p i src write).trigger e s = .ok s') : s'.Valued d := by
  obtain ⟨m, hm, hm0⟩ := hs.nonneg.exists_head
  refine Controller.trigger_sound (R := Knows p i m d s) (fun hf h ha => h.act hN hs hf ha)
    (fun _ hr hq he => trackChecked _ hr _ hq _ he)
    (fun hq => .start hs hv hq hoc hsl (fun he => hm (responses_ne_nil hoc he)) hm0) (fun h1 hy h => ?_) hv h
  obtain ⟨l, hl, rfl⟩ := of_map h
  exact h1.finish hv hy hl

end trigger

end L1

end M5.Ruby.Token
