import M5.Ruby.MISequencer

/-!
# Store conditionals over MI_example

A store conditional is issued if the line is locked, and performed later. Between the two nothing but its cache can hold
the block, unless the cache gives the block up in between.
-/

namespace M5.Ruby

open M5.Lib Function List

/-! ## Locks and requests of one line -/

namespace Sequencer

variable {q q' : Sequencer} {r : RubyRequest} {a line : Nat}

section

variable (q : Sequencer) (a : Nat)

def Locked : Prop := q.dataCache a = some q.version

def Armed : Prop := ∃ r, (a, r) ∈ q.writeRequestTable ∧ r.type = .Locked_Write

/-- The line is locked, or a store conditional for it has been issued. -/
def Held : Prop := q.Locked a ∨ q.Armed a

end

theorem Armed.of_filter {p : Nat × RubyRequest → Bool} (h : q'.Armed a)
    (hq : q'.writeRequestTable = q.writeRequestTable.filter p) : q.Armed a := by
  obtain ⟨r, hr, ht⟩ := h
  rw [hq] at hr
  exact ⟨r, mem_of_mem_filter hr, ht⟩

theorem makeRequest_held {status : RequestStatus} (h : q.makeRequest r = .ok (status, q')) (hh : q'.Held a) :
    q.Held a := by
  rcases makeRequest_eq_ok h with ⟨-, rfl⟩ | ⟨q₁, h₁, h⟩
  · exact hh
  have hlock : ∀ {a}, q₁.Locked a → q.Locked a := by
    rcases insertRequest_eq_ok h₁ with ⟨-, -, rfl⟩ | ⟨-, -, rfl⟩ <;> exact id
  have hmem : ∀ {r'}, (a, r') ∈ q₁.writeRequestTable → r' = r ∧ a = q₁.lineAddress r.paddr ∨
      (a, r') ∈ q.writeRequestTable := by
    rcases insertRequest_eq_ok h₁ with ⟨-, -, rfl⟩ | ⟨-, -, rfl⟩
    · intro r' hr'
      refine (mem_cons.1 hr').imp_left fun heq => ?_
      cases heq
      exact ⟨rfl, rfl⟩
    · exact .inr
  rcases h with ⟨-, ht, rfl⟩ | ⟨-, hl, rfl⟩ | ⟨-, ht, h₂⟩
  · rcases hh with hh | ⟨r', hr', ht'⟩
    · exact .inl (hlock hh)
    · rcases hmem hr' with ⟨rfl, -⟩ | hr'
      · exact absurd ht' ht
      · exact .inr ⟨r', hr', ht'⟩
  · by_cases ha : a = q₁.lineAddress r.paddr
    · exact .inl (hlock (ha ▸ hl))
    · rcases hh with hh | ⟨r', hr', ht'⟩
      · rw [Locked] at hh
        simp only [issueRequest, if_neg ha] at hh
        exact .inl (hlock hh)
      · rcases hmem hr' with ⟨-, heq⟩ | hr'
        · exact absurd heq ha
        · exact .inr ⟨r', hr', ht'⟩
  · rcases removeRequest_eq_ok h₂ with ⟨-, rfl⟩ | ⟨hw, -⟩
    · rcases hh with hh | ⟨r', hr', ht'⟩
      · exact .inl (hlock hh)
      · rcases hmem (mem_of_mem_filter hr') with ⟨-, heq⟩ | hr''
        · have hne := of_mem_filter hr'
          rw [bne_iff_ne] at hne
          exact absurd heq hne
        · exact .inr ⟨r', hr'', ht'⟩
    · rw [ht.1] at hw
      cases hw

theorem removeRequest_version (h : q.removeRequest r = .ok q') :
    q'.version = q.version ∧ q'.dataCache = q.dataCache := by
  rcases removeRequest_eq_ok h with ⟨-, rfl⟩ | ⟨-, rfl⟩ <;> exact ⟨rfl, rfl⟩

theorem makeRequest_version {status : RequestStatus} (h : q.makeRequest r = .ok (status, q')) :
    q'.version = q.version := by
  rcases makeRequest_eq_ok h with ⟨-, rfl⟩ | ⟨q₁, h₁, h⟩
  · rfl
  have hv : q₁.version = q.version := by
    rcases insertRequest_eq_ok h₁ with ⟨-, -, rfl⟩ | ⟨-, -, rfl⟩ <;> rfl
  rcases h with ⟨-, -, rfl⟩ | ⟨-, -, rfl⟩ | ⟨-, -, h₂⟩
  · exact hv
  · exact hv
  · exact (removeRequest_version h₂).1.trans hv

/-- What a callback does to locks and store conditionals; `r` is the request that it completes. -/
structure Called (q : Sequencer) (line : Nat) (r : RubyRequest) (q' : Sequencer) : Prop where
  version : q'.version = q.version
  armed : ∀ {a}, q'.Armed a → q.Armed a
  locked : ∀ {a}, q'.Locked a → q.Locked a ∨ a = line ∧ r.type = .Locked_Read
  storeCond : r.type = .Locked_Write → q.Armed line

theorem removeRequest_armed (h : q.removeRequest r = .ok q') (ha : q'.Armed a) : q.Armed a := by
  rcases removeRequest_eq_ok h with ⟨-, rfl⟩ | ⟨-, rfl⟩
  · exact ha.of_filter rfl
  · exact ha

theorem writeCallback_called (h : q.writeCallback line = .ok (r, q')) : Called q line r q' := by
  obtain ⟨hr, q₁, h₁, h₂⟩ := writeCallback_eq_ok h
  obtain ⟨hv, hd⟩ := removeRequest_version h₁
  obtain ⟨d, b, rfl, hd₂⟩ := finishWrite_eq_ok h₂
  refine ⟨hv, fun ha => removeRequest_armed h₁ ha, fun {a} ha => ?_, fun ht => ⟨r, hr, ht⟩⟩
  rcases hd₂ a with hda | hda
  · exact .inl ((congrFun hd a).symm.trans (hda.symm.trans (ha.trans (congrArg some hv))))
  · exact .inr hda

theorem readCallback_called (h : q.readCallback line = .ok (r, q')) : Called q line r q' := by
  obtain ⟨-, h₁, ht⟩ := readCallback_eq_ok h
  obtain ⟨hv, hd⟩ := removeRequest_version h₁
  refine ⟨hv, removeRequest_armed h₁, fun {a} ha => .inl ?_, fun heq => ?_⟩
  · rwa [Locked, hd, hv] at ha
  · rw [heq] at ht
    rcases ht with ht | ht | ht <;> cases ht

theorem callback_spec {ι : Type} {g : List (Access ι)} {o : Option RubyRequest} (h : q.callback line g = .ok (o, q')) :
    g = [] ∧ o = none ∧ q' = q ∨ ∃ r, o = some r ∧ Called q line r q' := by
  cases g with
  | nil =>
    cases h
    exact .inl ⟨rfl, rfl, rfl⟩
  | cons x g =>
    cases x with
    | store i d =>
      obtain ⟨⟨r, q₁⟩, h₁, h⟩ := of_bind h
      cases h
      exact .inr ⟨r, rfl, writeCallback_called h₁⟩
    | load i d =>
      obtain ⟨⟨r, q₁⟩, h₁, h⟩ := of_bind h
      cases h
      exact .inr ⟨r, rfl, readCallback_called h₁⟩

end Sequencer

/-! ## What a step of a block leaves alone -/

namespace MIExample

variable {ι : Type} [DecidableEq ι] {b b' : Block ι} {i j k : ι} {w : DataBlock → DataBlock} {d : Start} {v : DataBlock}

namespace Block

theorem enqueueResponse_l1 {dest : MachineID ι} {m : ResponseMsg} (h : b.enqueueResponse dest m = .ok b') :
    b'.l1 = b.l1 ∧ b'.log = b.log := by
  cases dest with
  | L1Cache j =>
    cases h
    exact ⟨rfl, rfl⟩
  | Directory => cases h

theorem dirAct_l1 {a : Dir.Action} (h : dirAct a b = .ok b') : b'.l1 = b.l1 := by
  cases a
  case d_sendData =>
    obtain ⟨m, -, h⟩ := of_bind h
    obtain ⟨r, -, h⟩ := of_bind h
    exact (enqueueResponse_l1 h).1
  case c_clearOwner | i_popIncomingRequestQueue | p_popIncomingDMARequestQueue | z_recycleRequestQueue |
      y_recycleDMARequestQueue | qf_queueMemoryFetchRequestDMA | l_popMemQueue =>
    cases h
    rfl
  case l_sendWriteBackAck | dr_sendDMAData | drp_sendDMAData | qw_queueMemoryWBRequest_partialTBE =>
    obtain ⟨m, -, h⟩ := of_bind h
    obtain ⟨r, -, rfl⟩ := of_map h
    rfl
  case v_allocateTBE | r_allocateTbeForDmaRead | v_allocateTBEFromRequestNet =>
    obtain ⟨m, -, h⟩ := of_bind h
    obtain ⟨-, rfl⟩ := of_check h
    rfl
  case w_deallocateTBE =>
    obtain ⟨-, rfl⟩ := of_check h
    rfl
  all_goals
    obtain ⟨m, -, rfl⟩ := of_map h
    rfl

omit [DecidableEq ι] in
theorem invalidateBlock_l1 (b : Block ι) : b.invalidateBlock.l1 = b.l1 := by
  unfold invalidateBlock
  split <;> rfl

theorem directory_l1 {e : Dir.Event} (h : directory.trigger e b = .ok b') : b'.l1 = b.l1 := by
  obtain ⟨q, r, -, -, -, -, rfl | ⟨b₁, hp, hs⟩⟩ := Controller.trigger_eq_ok h
  · rfl
  · have h₁ : b₁.l1 = b.l1 :=
      Controller.perform_invariant (I := fun x => x.l1 = b.l1) (fun _ ha hi => (dirAct_l1 ha).trans hi) rfl hp
    obtain ⟨-, hs⟩ := of_ensure hs
    obtain ⟨-, rfl⟩ := of_check hs
    split
    · exact (invalidateBlock_l1 _).trans h₁
    · exact h₁

theorem setL1_of_ne {l : L1} (hk : k ≠ i) : (b.setL1 i l).l1 k = b.l1 k := update_of_ne hk ..

theorem l1Act_frame {a : L1.Action} (h : l1Act i w a b = .ok b') :
    (∀ k, k ≠ i → b'.l1 k = b.l1 k) ∧ (a ≠ .r_load_hit → a ≠ .s_store_hit → b'.log = b.log) := by
  cases a
  case a_issueRequest | n_popResponseQueue | o_popForwardedRequestQueue | m_popMandatoryQueue | p_profileMiss |
    z_stall =>
    cases h
    exact ⟨fun _ _ => rfl, fun _ _ => rfl⟩
  case i_allocateL1CacheBlock | h_deallocateL1CacheBlock =>
    cases h
    exact ⟨fun _ => setL1_of_ne, fun _ _ => rfl⟩
  case b_issuePUT =>
    obtain ⟨e, -, rfl⟩ := of_map h
    exact ⟨fun _ _ => rfl, fun _ _ => rfl⟩
  case e_sendData | ee_sendDataFromTBE =>
    obtain ⟨m, -, h⟩ := of_bind h
    obtain ⟨e, -, h⟩ := of_bind h
    obtain ⟨hl, hlog⟩ := enqueueResponse_l1 h
    exact ⟨fun k _ => congrFun hl k, fun _ _ => hlog⟩
  case r_load_hit =>
    obtain ⟨e, -, rfl⟩ := of_map h
    exact ⟨fun _ _ => rfl, absurd rfl⟩
  case s_store_hit =>
    obtain ⟨e, -, rfl⟩ := of_map h
    exact ⟨fun _ => setL1_of_ne, fun _ hne => absurd rfl hne⟩
  case u_writeDataToCache | x_copyDataFromCacheToTBE =>
    obtain ⟨m, -, h⟩ := of_bind h
    obtain ⟨e, -, rfl⟩ := of_map h
    exact ⟨fun _ => setL1_of_ne, fun _ _ => rfl⟩
  case v_allocateTBE | w_deallocateTBE =>
    obtain ⟨-, rfl⟩ := of_check h
    exact ⟨fun _ => setL1_of_ne, fun _ _ => rfl⟩

theorem l1Cache_frame {e : L1.Event} (h : (l1Cache i w).trigger e b = .ok b') (hk : k ≠ i) : b'.l1 k = b.l1 k := by
  obtain ⟨q, r, -, -, -, -, rfl | ⟨b₁, hp, hs⟩⟩ := Controller.trigger_eq_ok h
  · rfl
  · have h₁ : b₁.l1 k = b.l1 k := Controller.perform_invariant (I := fun x => x.l1 k = b.l1 k)
      (fun _ ha hi => ((l1Act_frame ha).1 k hk).trans hi) rfl hp
    cases hs
    exact (setL1_of_ne hk).trans h₁

theorem l1Cache_log {e : L1.Event} (h : (l1Cache i w).trigger e b = .ok b') (hd : e ≠ .Data)
    (hM : b.state i = .M → e ∉ [.Load, .Ifetch, .Store]) : b'.log = b.log := by
  have hrules : ∀ r ∈ L1.rules, ∀ q ∈ r.states, ∀ e ∈ r.events, e ≠ .Data →
      (q = .M → e ∉ [.Load, .Ifetch, .Store]) → ∀ a ∈ r.actions, a ≠ .r_load_hit ∧ a ≠ .s_store_hit := by
    decide
  obtain ⟨q, r, hq, hr, hqr, her, rfl | ⟨b₁, hp, hs⟩⟩ := Controller.trigger_eq_ok h
  · rfl
  · cases hq
    have h₁ : b₁.log = b.log := by
      refine Controller.perform_invariant (I := fun x => x.log = b.log) (fun {a _ _} hm ha hi => ?_) rfl hp
      obtain ⟨h1, h2⟩ := hrules r hr _ hqr e her hd hM a hm
      exact ((l1Act_frame ha).2 h1 h2).trans hi
    cases hs
    exact h₁

theorem handle_l1 {l : Label ι} (h : b.handle l = .ok b') (hl : l.isCachePort = false) : b'.l1 = b.l1 := by
  cases l with
  | mandatory | forward | response => cases hl
  | reorderRequests l | reorderResponses i l | reorderMemory l =>
    cases h
    rfl
  | request =>
    rw [handle, requestQueueIn] at h
    split at h
    · cases h
      rfl
    · split at h
      · exact directory_l1 h
      · exact directory_l1 h
      · exact directory_l1 h
      · cases h
  | memory =>
    rw [handle, memQueueIn] at h
    split at h
    · cases h
      rfl
    · split at h
      · exact directory_l1 h
      · exact directory_l1 h
  | dmaRequest =>
    rw [handle, dmaRequestQueueIn] at h
    split at h
    · cases h
      rfl
    · split at h
      · exact directory_l1 h
      · exact directory_l1 h
      · cases h

theorem forward_frame (h : b.forwardRequestNetworkIn i w = .ok b') :
    (∀ k, k ≠ i → b'.l1 k = b.l1 k) ∧ b'.log = b.log := by
  have hev : ∀ {e : L1.Event}, (l1Cache i w).trigger e b = .ok b' → e ≠ .Data → e ∉ [.Load, .Ifetch, .Store] →
      (∀ k, k ≠ i → b'.l1 k = b.l1 k) ∧ b'.log = b.log :=
    fun h hd he => ⟨fun _ => l1Cache_frame h, l1Cache_log h hd fun _ => he⟩
  unfold forwardRequestNetworkIn at h
  split at h
  · cases h
    exact ⟨fun _ _ => rfl, rfl⟩
  · split at h
    · exact hev h (by decide) (by decide)
    · exact hev h (by decide) (by decide)
    · exact hev h (by decide) (by decide)
    · exact hev h (by decide) (by decide)
    · cases h

theorem response_frame (h : b.responseNetworkIn i w = .ok b') : ∀ k, k ≠ i → b'.l1 k = b.l1 k := by
  unfold responseNetworkIn at h
  split at h
  · cases h
    exact fun _ _ => rfl
  · split at h
    · exact fun _ => l1Cache_frame h
    · cases h

end Block

theorem Good.silent (hg : Good d b) (hM : b.state k = .M) (hk : k ≠ i) : b.state i ≠ .M ∧ b.responseToCache i = [] := by
  obtain ⟨v, st, out, h⟩ := hg
  obtain ⟨rest, rfl⟩ := h.stage_of_M hM
  refine ⟨fun hi => ?_, h.responses_of_holding i⟩
  obtain ⟨rest', heq⟩ := h.stage_of_M hi
  cases heq
  exact hk rfl

theorem Good.holding (hg : Good d b) (hM : b.state i = .M) : ∃ v, b.l1 i = { entry := some ⟨.M, v⟩ } := by
  obtain ⟨v, st, out, h⟩ := hg
  have hc := h.cache i
  rw [hc.eq_holding hM] at hc
  exact ⟨v, hc.has⟩

/-! ## The history of a line -/

/-- A store of another processor to the line. -/
def Done.StoresOther (p : ι) (a : Nat) (e : Done ι) : Prop := e.line = a ∧ e.cpu ≠ p ∧ e.type.isRead = false

/-- No other processor has stored to the line since the last load linked of `p`. -/
def Undisturbed (p : ι) (a : Nat) (l : List (Done ι)) : Prop :=
  ∃ before since, l = before ++ ⟨p, a, .Locked_Read⟩ :: since ∧
    ∀ e ∈ since, e ≠ ⟨p, a, .Locked_Read⟩ ∧ ¬ e.StoresOther p a

variable {p : ι} {a line : Nat} {l : List (Done ι)} {e : Done ι}

omit [DecidableEq ι] in
theorem undisturbed_lockedRead : Undisturbed p a (l ++ [⟨p, a, .Locked_Read⟩]) := ⟨l, [], rfl, fun _ h => (nomatch h)⟩

theorem Undisturbed.snoc (h : Undisturbed p a l) (he : ¬ e.StoresOther p a) : Undisturbed p a (l ++ [e]) := by
  by_cases heq : e = ⟨p, a, .Locked_Read⟩
  · rw [heq]
    exact undisturbed_lockedRead
  · obtain ⟨before, since, rfl, hs⟩ := h
    refine ⟨before, since ++ [e], by simp, fun e' he' => ?_⟩
    rcases mem_append.1 he' with he' | he'
    · exact hs e' he'
    · rw [mem_singleton.1 he']
      exact ⟨heq, he⟩

namespace SeqSystem

variable {s s' : SeqSystem ι} {dd : Nat → Start}

/-! ## The invariant -/

structure Inv (dd : Nat → Start) (s : SeqSystem ι) : Prop where
  good : ∀ a, Good (dd a) (s.block a)
  version : ∀ i, (s.seq i).version ≠ -1
  held : ∀ {p a}, (s.seq p).Held a → (s.block a).state p = .M ∧ Undisturbed p a s.done
  atomic : ∀ {before p a after}, s.done = before ++ ⟨p, a, .Locked_Write⟩ :: after → Undisturbed p a before

theorem Inv.init (h : s.Init dd) : s.Inv dd := by
  refine ⟨fun a => ?_, fun i hv => ?_, fun {p a} hh => ?_, fun {before p a after} hd => ?_⟩
  · rw [h.block]
    exact ⟨_, _, _, .init (dd a)⟩
  · have := h.version i
    omega
  · rcases hh with hh | ⟨r, hr, -⟩
    · rw [Sequencer.Locked, h.dataCache] at hh
      cases hh
    · rw [h.write] at hr
      cases hr
  · rw [h.done] at hd
    simp at hd

theorem Inv.of_seq (hi : s.Inv dd) (hb : s'.block = s.block) (hd : s'.done = s.done)
    (hv : ∀ i, (s'.seq i).version = (s.seq i).version) (hh : ∀ {p a}, (s'.seq p).Held a → (s.seq p).Held a) :
    s'.Inv dd := by
  refine ⟨hb ▸ hi.good, fun i => hv i ▸ hi.version i, fun h => ?_, fun h => hi.atomic (hd ▸ h)⟩
  rw [hb, hd]
  exact hi.held (hh h)

theorem Inv.setSeq {q : Sequencer} {i : ι} (hi : s.Inv dd) (hv : q.version = (s.seq i).version)
    (hh : ∀ {a}, q.Held a → (s.seq i).Held a) : ({ s with seq := update s.seq i q } : SeqSystem ι).Inv dd := by
  refine hi.of_seq rfl rfl ?_ fun {p a} => ?_
  · exact (forall_update_iff s.seq fun k q => q.version = (s.seq k).version).2 ⟨hv, fun _ _ => rfl⟩
  · exact (forall_update_iff s.seq fun k q => q.Held a → (s.seq k).Held a).2 ⟨hh, fun _ _ => id⟩ p

theorem setPermission_locked {q : Sequencer} {l : L1} (hv : q.version ≠ -1) (h : (q.setPermission line l).Locked a) :
    q.Locked a ∧ (a = line → l.getState = .M) := by
  rw [Sequencer.Locked, Sequencer.setPermission] at h
  dsimp only at h
  split at h
  · next ha =>
    unfold relock at h
    split at h
    · cases h
    · split at h
      · next hM =>
        cases hc : q.dataCache a with
        | none =>
          rw [hc] at h
          exact absurd (Option.some.inj h).symm hv
        | some c =>
          rw [hc] at h
          exact ⟨hc.trans h, fun _ => hM⟩
      · exact absurd (Option.some.inj h).symm hv
  · next ha => exact ⟨h, fun heq => absurd heq ha⟩

/-- What the controller of the cache `i` does to a block, as far as the locks depend on it. -/
structure Ported (dd : Nat → Start) (s : SeqSystem ι) (i : ι) (line : Nat) (b : Block ι) : Prop where
  good : Good (dd line) b
  others : ∀ k, k ≠ i → b.l1 k = (s.block line).l1 k
  silent : ∀ k, k ≠ i → (s.block line).state k = .M → b.log = (s.block line).log
  armed : (s.seq i).Armed line → b.state i = .M

theorem Inv.cacheStep {i : ι} {f : (DataBlock → DataBlock) → Block ι → Except Fault (Block ι)} (hi : s.Inv dd)
    (h : s.cacheStep i line f = .ok s') (hf : ∀ w b, f w (s.block line) = .ok b → Ported dd s i line b) :
    s'.Inv dd := by
  obtain ⟨b, hb, h⟩ := of_bind h
  obtain ⟨⟨o, q⟩, hq, h⟩ := of_bind h
  cases h
  have hport := hf _ _ hb
  have hcall := Sequencer.callback_spec hq
  have hv : q.version = (s.seq i).version := by
    rcases hcall with ⟨-, -, rfl⟩ | ⟨r, -, hc⟩
    · rfl
    · exact hc.version
  -- an access of `i` does not disturb `i`, nor any processor on another line
  have hown : ∀ {p a}, (p = i ∨ a ≠ line) → Undisturbed p a s.done →
      Undisturbed p a (s.done ++ o.toList.map fun r => { cpu := i, line, type := r.type }) := by
    intro p a hpa hu
    cases o with
    | none => simpa using hu
    | some r =>
      refine hu.snoc fun hst => ?_
      rcases hpa with rfl | ha
      · exact hst.2.1 rfl
      · exact ha hst.1.symm
  have hstate : ∀ {p a}, (p = i → a ≠ line) → (s.block a).state p = .M →
      (update s.block line b a).state p = .M := by
    intro p a
    refine (forall_update_iff s.block fun a b => (p = i → a ≠ line) → (s.block a).state p = .M → b.state p = .M).2
      ⟨fun hpa hM => ?_, fun _ _ _ => id⟩ a
    rw [Block.state, hport.others p fun heq => hpa heq rfl]
    exact hM
  refine ⟨?_, ?_, fun {p a} hh => ?_, fun {before p a after} hd => ?_⟩
  · exact (forall_update_iff s.block fun a b => Good (dd a) b).2 ⟨hport.good, fun a _ => hi.good a⟩
  · exact (forall_update_iff s.seq fun _ q => q.version ≠ -1).2 ⟨hv.symm ▸ hi.version i, fun k _ => hi.version k⟩
  · dsimp only at hh ⊢
    by_cases hp : p = i
    · subst hp
      rw [update_self] at hh
      have hkept : (s.seq p).Held a → (a = line → b.state p = .M) →
          (update s.block line b a).state p = .M ∧
          Undisturbed p a (s.done ++ o.toList.map fun r => { cpu := p, line, type := r.type }) := by
        intro hh hM
        obtain ⟨hM₀, hu⟩ := hi.held hh
        refine ⟨?_, hown (.inl rfl) hu⟩
        by_cases ha : a = line
        · subst ha
          rw [update_self]
          exact hM rfl
        · exact hstate (fun _ => ha) hM₀
      rcases hh with hl | ha
      · obtain ⟨hl, hM⟩ := setPermission_locked (hv.symm ▸ hi.version p) hl
        rcases hcall with ⟨-, -, rfl⟩ | ⟨r, rfl, hc⟩
        · exact hkept (.inl hl) hM
        · rcases hc.locked hl with hl | ⟨rfl, ht⟩
          · exact hkept (.inl hl) hM
          · refine ⟨?_, ?_⟩
            · rw [update_self]
              exact hM rfl
            · simp only [Option.toList_some, map_cons, map_nil, ht]
              exact undisturbed_lockedRead
      · have ha : (s.seq p).Armed a := by
          rcases hcall with ⟨-, -, rfl⟩ | ⟨r, rfl, hc⟩
          · exact ha
          · exact hc.armed ha
        exact hkept (.inr ha) fun heq => hport.armed (heq ▸ ha)
    · rw [update_of_ne hp] at hh
      obtain ⟨hM, hu⟩ := hi.held hh
      refine ⟨hstate (fun heq => absurd heq hp) hM, ?_⟩
      by_cases ha : a = line
      · subst ha
        rw [hport.silent p hp hM, drop_length] at hq
        cases hq
        simpa using hu
      · exact hown (.inr ha) hu
  · cases o with
    | none => exact hi.atomic (by simpa using hd)
    | some r =>
      rcases eq_nil_or_concat after with rfl | ⟨after, e, rfl⟩
      · obtain ⟨rfl, hl⟩ := append_inj' hd rfl
        obtain ⟨rfl, rfl, ht⟩ := Done.mk.inj (singleton_inj.1 hl)
        rcases hcall with ⟨-, ho, -⟩ | ⟨r, ho, hc⟩
        · cases ho
        · cases ho
          exact (hi.held (.inr (hc.storeCond ht))).2
      · have hd' : s.done ++ [{ cpu := i, line, type := r.type }] =
            (before ++ ⟨p, a, .Locked_Write⟩ :: after) ++ [e] := by simpa using hd
        exact hi.atomic (append_inj' hd' rfl).1

/-! ## The input ports -/

section ports

variable {i : ι} {b : Block ι} {w : DataBlock → DataBlock}

theorem good_of_handle (hi : s.Inv dd) {l : MIExample.Label ι} (hl : (s.block line).Admits l)
    (h : (s.block line).handle l = .ok b) : Good (dd line) b := by
  obtain ⟨v, st, out, hinv⟩ := hi.good line
  obtain ⟨b', hb', hg⟩ := hinv.step hl
  cases hb'.symm.trans h
  exact hg

theorem state_of_hit {e : Mandatory} (hg : Good d b) (hM : b.state i = .M) (he : e ≠ .Replacement) {b' : Block ι}
    (h : (Block.l1Cache i w).trigger e.event b = .ok b') : b'.state i = .M := by
  obtain ⟨v, hl⟩ := hg.holding hM
  have hM' : ∀ {x : DataBlock} {log : List (Access ι)},
      ({ b.setL1 i { entry := some ⟨.M, x⟩ } with log := log } : Block ι).state i = .M := by
    intro x log
    rw [Block.state, Block.setL1]
    dsimp only
    rw [update_self]
    rfl
  cases e with
  | Replacement => exact absurd rfl he
  | Store =>
    cases (Block.trigger_storeHit hl).symm.trans h
    exact hM'
  | Load | Ifetch =>
    cases (Block.trigger_loadHit hl (by decide)).symm.trans h
    exact hM'

theorem Inv.ported_mandatory {e : Mandatory} (hi : s.Inv dd)
    (h : (Block.l1Cache i w).trigger e.event (s.block line) = .ok b) (he : e = .Replacement → ¬ (s.seq i).Armed line) :
    Ported dd s i line b where
  good := good_of_handle hi (l := .mandatory i e w) trivial h
  others _ hk := Block.l1Cache_frame h hk
  silent k hk hM := by
    refine Block.l1Cache_log h (by cases e <;> decide) fun hM' => absurd hM' ((hi.good line).silent hM hk).1
  armed ha := state_of_hit (hi.good line) (hi.held (.inr ha)).1 (fun heq => he heq ha) h

theorem Inv.ported_forward (hi : s.Inv dd) (h : (s.block line).forwardRequestNetworkIn i w = .ok b)
    (hc : ¬ (s.seq i).Armed line) : Ported dd s i line b where
  good := good_of_handle hi (l := .forward i w) trivial h
  others := (Block.forward_frame h).1
  silent _ _ _ := (Block.forward_frame h).2
  armed ha := absurd ha hc

theorem Inv.ported_response (hi : s.Inv dd) (h : (s.block line).responseNetworkIn i w = .ok b) :
    Ported dd s i line b where
  good := good_of_handle hi (l := .response i w) trivial h
  others := Block.response_frame h
  silent k hk hM := by
    rw [Block.responseNetworkIn, ((hi.good line).silent hM hk).2] at h
    cases h
    rfl
  armed ha := by
    have hM := (hi.held (.inr ha)).1
    obtain ⟨v, st, out, hinv⟩ := hi.good line
    obtain ⟨rest, rfl⟩ := hinv.stage_of_M hM
    rw [Block.responseNetworkIn, hinv.responses_of_holding i] at h
    cases h
    exact hM

end ports

/-- The cache does not give up a block with a store conditional under way. -/
def Careful (s : SeqSystem ι) : Label ι → Prop
  | .forward i line | .replacement i line => ¬ (s.seq i).Armed line
  | .makeRequest .. | .mandatory .. | .response .. | .directory .. => True

theorem popMandatory_held {q : Sequencer} {m : CacheMsg} {l : L1} (h : (q.popMandatory m l).Held a) : q.Held a := by
  unfold Sequencer.popMandatory at h
  split at h
  · exact h
  · exact h

theorem popMandatory_version {q : Sequencer} {m : CacheMsg} {l : L1} : (q.popMandatory m l).version = q.version := by
  unfold Sequencer.popMandatory
  split
  · rfl
  · rfl

/-- A careful step keeps the locks with the blocks. -/
theorem Inv.step {l : Label ι} (hi : s.Inv dd) (hc : s.Careful l) (h : Step s l s') : s'.Inv dd := by
  obtain ⟨hadm, h⟩ := h
  cases l with
  | makeRequest i r =>
    obtain ⟨⟨status, q⟩, hq, h⟩ := of_bind h
    cases h
    exact hi.setSeq (Sequencer.makeRequest_version hq) (Sequencer.makeRequest_held hq)
  | mandatory i m =>
    obtain ⟨s₁, h₁, rfl⟩ := of_map h
    have hi₁ : s₁.Inv dd := hi.cacheStep h₁ fun w b hb => hi.ported_mandatory hb fun he => by
      cases hm : m.type <;> rw [hm] at he <;> cases he
    exact hi₁.setSeq popMandatory_version popMandatory_held
  | replacement i line =>
    have h : s.cacheStep i line (fun w => (Block.l1Cache i w).trigger Mandatory.Replacement.event) = .ok s' := h
    exact hi.cacheStep h fun w b hb => hi.ported_mandatory hb fun _ => hc
  | forward i line => exact hi.cacheStep h fun w b hb => hi.ported_forward hb hc
  | response i line => exact hi.cacheStep h fun w b hb => hi.ported_response hb
  | directory line l =>
    obtain ⟨b, hb, rfl⟩ := of_map h
    have hl1 := Block.handle_l1 hb hadm.2
    refine ⟨?_, hi.version, fun {p a} hh => ?_, hi.atomic⟩
    · exact (forall_update_iff s.block fun a b => Good (dd a) b).2 ⟨good_of_handle hi hadm.1 hb, fun a _ => hi.good a⟩
    · obtain ⟨hM, hu⟩ := hi.held hh
      have hst : (b.l1 p).getState = ((s.block line).l1 p).getState := by rw [hl1]
      exact ⟨(forall_update_iff s.block fun a b => (s.block a).state p = .M → b.state p = .M).2
        ⟨hst.trans, fun _ _ => id⟩ a hM, hu⟩

/-- If no cache gives up a block with a store conditional under way: when a store conditional completes, no other
processor has stored to the line since the last load linked before it. -/
theorem storeCond_atomic {s₀ : SeqSystem ι} {ls : List (Label ι)} {before after : List (Done ι)} (h₀ : s₀.Init dd)
    (h : Run (fun s l s' => s.Careful l ∧ Step s l s') s₀ ls s)
    (hd : s.done = before ++ ⟨p, a, .Locked_Write⟩ :: after) : Undisturbed p a before := by
  have hi : s.Inv dd := h.invariant (.init h₀) fun hi hs => hi.step hs.1 hs.2
  exact hi.atomic hd

/-! ## Runs of two processors -/

def twoCPUs : SeqSystem Bool where
  seq := fun _ => { maxOutstandingRequests := 16, blockSizeBytes := 64, dataCache := fun _ => none }
  block := System.init fun _ => { ram := fun _ => 0 }
  done := []

theorem twoCPUs_init : twoCPUs.Init fun _ => { ram := fun _ => 0 } :=
  ⟨fun _ => rfl, fun _ => rfl, fun _ => Int.le_refl 0, fun _ => rfl, rfl, rfl⟩

def wordRequest (type : RubyRequestType) : RubyRequest := { paddr := 0, data := fun _ => 1, len := 4, type, pkt := 0 }

def wordMsg (type : CacheRequestType) : CacheMsg := { lineAddress := 0, physicalAddress := 0, type, size := 4 }

/-- The labels that need no look at the whole state. -/
def admits (s : SeqSystem Bool) : Label Bool → Bool
  | .mandatory i m => (s.seq i).mandatoryQueue.contains m
  | .directory _ .request | .directory _ .memory => true
  | .makeRequest .. | .forward .. | .response .. => true
  | .directory .. | .replacement .. => false

def checked (s : SeqSystem Bool) (l : Label Bool) : Except Fault (SeqSystem Bool) :=
  if s.admits l then s.handle l else .error .error

theorem step_of_checked {s s' : SeqSystem Bool} {l : Label Bool} (h : s.checked l = .ok s') : Step s l s' := by
  unfold checked at h
  split at h
  · next ha =>
    refine ⟨?_, h⟩
    cases l with
    | mandatory i m => exact contains_iff_mem.1 ha
    | directory line l => cases l <;> first | exact ⟨trivial, rfl⟩ | cases ha
    | makeRequest | forward | response | replacement => trivial
  · cases h

/-- The first processor gets the block by a load linked. -/
def loadLinked : List (Label Bool) :=
  [.makeRequest false (wordRequest .Locked_Read), .mandatory false (wordMsg .ATOMIC), .directory 0 .request,
    .directory 0 .memory, .response false 0]

/-- A processor alone: a load linked, and the store conditional after it. -/
theorem storeCond_atomic_alone : ∃ (s₀ s : SeqSystem Bool) (ls : List (Label Bool)),
    s₀.Init (fun _ => { ram := fun _ => 0 }) ∧ Run (fun s l s' => s.Careful l ∧ Step s l s') s₀ ls s ∧
    s.done = [⟨false, 0, .Locked_Read⟩] ++ [⟨false, 0, .Locked_Write⟩] ∧
    Undisturbed false 0 [⟨false, 0, .Locked_Read⟩] := by
  let ls : List (Label Bool) :=
    loadLinked ++ [.makeRequest false (wordRequest .Locked_Write), .mandatory false (wordMsg .ATOMIC)]
  obtain ⟨s, hrun, hd⟩ := Run.exists_of_check checked step_of_checked twoCPUs ls
    (fun s => s.done = [⟨false, 0, .Locked_Read⟩] ++ [⟨false, 0, .Locked_Write⟩]) (by decide +kernel)
  have hcalm : ∀ l ∈ ls, ∀ s : SeqSystem Bool, s.Careful l := by
    intro l hl s
    simp only [ls, loadLinked, cons_append, nil_append, mem_cons, not_mem_nil, or_false] at hl
    rcases hl with rfl | rfl | rfl | rfl | rfl | rfl | rfl <;> trivial
  have hrun : Run (fun s l s' => s.Careful l ∧ Step s l s') twoCPUs ls s :=
    (hrun.restrict hcalm).mono fun h => ⟨h.1 _, h.2⟩
  exact ⟨twoCPUs, s, ls, twoCPUs_init, hrun, hd, storeCond_atomic twoCPUs_init hrun hd⟩

/-- The second one asks for the block to store; the store conditional of the first is issued before its cache handles
that, and is performed after it has the block back. -/
def disturbed : List (Label Bool) :=
  loadLinked ++ [.makeRequest true (wordRequest .ST), .mandatory true (wordMsg .ST), .directory 0 .request,
    .makeRequest false (wordRequest .Locked_Write), .forward false 0, .response true 0,
    .mandatory false (wordMsg .ATOMIC), .directory 0 .request, .forward true 0, .response false 0]

theorem storeCond_disturbed : ∃ (s₀ s : SeqSystem Bool) (ls : List (Label Bool)) (before : List (Done Bool)),
    s₀.Init (fun _ => { ram := fun _ => 0 }) ∧ Run Step s₀ ls s ∧ s.done = before ++ [⟨false, 0, .Locked_Write⟩] ∧
    ¬ Undisturbed false 0 before := by
  obtain ⟨s, hrun, hs⟩ := Run.exists_of_check checked step_of_checked twoCPUs disturbed
    (fun s => s.done = [⟨false, 0, .Locked_Read⟩, ⟨true, 0, .ST⟩, ⟨false, 0, .Locked_Write⟩]) (by decide +kernel)
  refine ⟨twoCPUs, s, disturbed, [⟨false, 0, .Locked_Read⟩, ⟨true, 0, .ST⟩], twoCPUs_init, hrun, hs, ?_⟩
  rintro ⟨before, since, heq, hsince⟩
  match before with
  | [] =>
    cases heq
    exact (hsince _ mem_cons_self).2 ⟨rfl, Bool.noConfusion, rfl⟩
  | [_] => cases heq
  | _ :: _ :: before => simp at heq

end SeqSystem

end MIExample

end M5.Ruby
