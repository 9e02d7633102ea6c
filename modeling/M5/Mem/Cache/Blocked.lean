import M5.Mem.Cache.LRU
import M5.Mem.Cache.TimingInv

/-!
# The causes for which a cache is blocked

The bits of `BaseCache::blocked` are set and cleared where a queue becomes full or is full no longer, and the port of
the CPU side is told of the first cause and of the last. After any operations they agree with the queues, and a request
that was refused gets its retry.
-/

namespace M5.Mem.TimingCache

open M5.Lib

variable {T : TagStore} {p : TimingParams} {s₀ s s' : TimingCache T} {a : Act}

/-! ## The sizes of the queues -/

theorem hasRoom_update {qi : QueueIndex} {q : MSHRQueue} (h : ∀ qi, HasRoom (s.queues qi))
    (hne : q.numEntries = (s.queues qi).numEntries) (hnr : q.numReserve = (s.queues qi).numReserve) (qi' : QueueIndex) :
    HasRoom (Function.update s.queues qi q qi') := by
  by_cases hqi : qi' = qi
  · subst hqi
    rw [Function.update_self]
    have := h qi'
    unfold HasRoom at this ⊢
    omega
  · rw [Function.update_of_ne hqi]
    exact h qi'

theorem Part.hasRoom (h : Part p s₀ a s s') (hroom : ∀ qi, HasRoom (s.queues qi)) : ∀ qi, HasRoom (s'.queues qi) := by
  cases h with
  | cache | cpuOut | memOut | refused | memRefused | fired | idle | wait | advance => exact hroom
  | allocate hq hb =>
    obtain ⟨b, port, rfl, -⟩ := hb
    have ht := (MSHRQueue.allocate_eq_ok hq).1
    exact hasRoom_update hroom ht.numEntries ht.numReserve
  | request _ h =>
    obtain ⟨out, rfl, -⟩ := requestMemSideBus_eq_ok h
    exact hroom
  | target _ _ h =>
    obtain ⟨m, b, port, n, -, rfl, -⟩ := accessTarget_eq_ok h
    exact hasRoom_update hroom rfl rfl
  | snooped | forward | downstream => exact hasRoom_update hroom rfl rfl
  | mark _ _ h =>
    obtain ⟨q, hq, b, port, rfl, -⟩ := markInServiceInternal_eq_ok h
    obtain ⟨_, _, -, ht, -⟩ := MSHRQueue.markInService_eq_ok hq
    exact hasRoom_update hroom ht.numEntries ht.numReserve
  | answer _ _ _ _ _ h₁ _ _ _ _ h =>
    obtain ⟨b, port, n, rfl, -⟩ := releaseTargets_eq_ok h₁
    obtain ⟨again, mshr, q, -, h⟩ := finishMSHR_spec.of_eq h
    cases again with
    | true =>
      obtain ⟨hq, c, -, h⟩ := h
      obtain ⟨out, rfl, -⟩ := requestMemSideBus_eq_ok h
      have ht := (MSHRQueue.markPending_eq_ok hq).1
      exact hasRoom_update hroom ht.numEntries ht.numReserve
    | false =>
      obtain ⟨hq, b', port', rfl, -⟩ := h
      have ht := (MSHRQueue.deallocate_eq_ok hq).1
      exact hasRoom_update hroom ht.numEntries ht.numReserve
  | reschedule _ _ h =>
    obtain ⟨out, rfl, -⟩ := reschedule_eq_ok h
    exact hroom

theorem init_hasRoom (hm : 0 < p.mshrs) (hw : 0 < p.writeBuffers) (order : Nat) (curTick : Tick) (qi : QueueIndex) :
    HasRoom ((init T p order curTick).queues qi) := by
  cases qi with
  | MSHRs =>
    show 4 ≤ p.mshrs + 4 - 1
    omega
  | WriteBuffer =>
    show p.mshrs + 1000 ≤ p.writeBuffers + (p.mshrs + 1000) - 1
    omega

/-! ## The retry -/

/-- A request was refused at time `t₀`, when `retries` had been scheduled: the port is still blocked and remembers it,
or one more retry has been scheduled, for a later time. -/
def Owed (retries : List Tick) (t₀ : Tick) (port : CachePort) (curTick : Tick) : Prop :=
  t₀ ≤ curTick ∧ (port.blocked ∧ port.mustSendRetry ∧ port.retries = retries ∨
    ∃ t l, port.retries = retries ++ t :: l ∧ t₀ < t)

section

variable {retries : List Tick} {t₀ curTick : Tick} {port port' : CachePort}

theorem Owed.moves (h : Owed retries t₀ port curTick) (hm : PortMoves curTick port port') :
    Owed retries t₀ port' curTick := by
  obtain ⟨hle, h⟩ := h
  refine ⟨hle, ?_⟩
  cases hm with
  | same => exact h
  | set hb =>
    rcases h with ⟨hb', -, -⟩ | h
    · cases hb.symm.trans hb'
    · exact .inr h
  | clear hb =>
    rcases h with ⟨-, hmust, hr⟩ | ⟨t, l, hr, ht⟩
    · refine .inr ⟨curTick + 1, [], ?_, Nat.lt_succ_of_le hle⟩
      rw [hmust, if_pos rfl, hr]
    · by_cases hmust : port.mustSendRetry
      · refine .inr ⟨t, l ++ [curTick + 1], ?_, ht⟩
        rw [if_pos hmust, hr, List.append_assoc, List.cons_append]
      · refine .inr ⟨t, l, ?_, ht⟩
        rw [if_neg hmust, hr]

theorem Owed.later (h : Owed retries t₀ port curTick) {t : Tick} (ht : curTick ≤ t) : Owed retries t₀ port t :=
  ⟨h.1.trans ht, h.2⟩

theorem Part.owed (h : Part p s₀ a s s') (ho : Owed retries t₀ s.cpuSidePort s.curTick) :
    Owed retries t₀ s'.cpuSidePort s'.curTick := by
  cases h with
  | cache | cpuOut | memOut | memRefused | fired | idle | wait | snooped | forward | downstream => exact ho
  | refused hb => exact ⟨ho.1, ho.2.imp (fun h => ⟨h.1, rfl, h.2.2⟩) id⟩
  | allocate _ hb =>
    obtain ⟨b, port, rfl, hmove⟩ := hb
    exact ho.moves hmove
  | request _ h =>
    obtain ⟨out, rfl, -⟩ := requestMemSideBus_eq_ok h
    exact ho
  | target _ _ h =>
    obtain ⟨m, b, port, n, -, rfl, hmove, -⟩ := accessTarget_eq_ok h
    exact ho.moves hmove
  | mark _ _ h =>
    obtain ⟨q, -, b, port, rfl, hmove⟩ := markInServiceInternal_eq_ok h
    exact ho.moves hmove
  | @answer pkt m up t t' s₁ s' ls v r _ _ _ _ _ h₁ _ _ _ _ h =>
    obtain ⟨b, port, n, rfl, hmove, -⟩ := releaseTargets_eq_ok h₁
    -- the packets that were scheduled do not matter
    have ho₁ := ho.moves hmove
    have ho' : Owed retries t₀ { port with out := v.cpu } s.curTick := ho₁
    obtain ⟨again, mshr, q, -, h⟩ := finishMSHR_spec.of_eq h
    cases again with
    | true =>
      obtain ⟨-, c, -, h⟩ := h
      obtain ⟨out, rfl, -⟩ := requestMemSideBus_eq_ok h
      exact ho'
    | false =>
      obtain ⟨-, b', port', rfl, hmove'⟩ := h
      exact ho'.moves hmove'
  | reschedule _ _ h =>
    obtain ⟨out, rfl, -⟩ := reschedule_eq_ok h
    exact ho
  | advance ht _ => exact ho.later ht

end

/-- In every state that a cache with room in its queues reaches, a cause is set exactly when it is there: a queue is
full, or an MSHR has no room for targets; the port is blocked exactly when there is a cause; no operation runs into the
assertions of the port; and a request that is refused gets a retry when the port is not blocked any more. -/
theorem blocked_agrees {order : Nat} {curTick : Tick} {as : List (World × Act)} (hm : 0 < p.mshrs)
    (hw : 0 < p.writeBuffers) (run : Run (Step p) (init T p order curTick) as s) :
    (s.blocked .NoMSHRs ↔ s.mshrQueue.isFull) ∧
    (s.blocked .NoWBBuffers ↔ s.writeBuffer.isFull) ∧
    (s.blocked .NoTargets ↔ s.noTargetMSHR ≠ none) ∧
    (s.cpuSidePort.blocked ↔ ∃ cause, s.blocked cause) ∧
    (∀ w a, a.Allowed s → s.handle p w a ≠ .error .portBlocked) ∧
    ∀ w pkt up s₁ bs s₂, s.refuses pkt → Step p s (w, .cpuRecvTiming pkt up) s₁ → Run (Step p) s₁ bs s₂ →
      s₂.cpuSidePort.blocked ∧ s₂.cpuSidePort.mustSendRetry ∨
        ∃ t l, s₂.cpuSidePort.retries = s.cpuSidePort.retries ++ t :: l ∧ s.curTick < t := by
  obtain ⟨hinv, hroom⟩ := of_run run (.init T p order curTick) (init_hasRoom hm hw order curTick) fun _ _ h => h.hasRoom
  have hq : ∀ qi : QueueIndex, s.blocked qi.cause = (s.queues qi).isFull := fun qi => hinv.queue qi (hroom qi)
  refine ⟨?_, ?_, ?_, ?_, fun w a ha he => ?_, ?_⟩
  · exact (Bool.eq_iff_iff).1 (hq .MSHRs)
  · exact (Bool.eq_iff_iff).1 (hq .WriteBuffer)
  · rw [hinv.targets, Option.isSome_iff_ne_none]
  · rw [hinv.port, isBlocked_iff]
  · exact (handle_yields hinv ha w).error he
  · intro w pkt up s₁ bs s₂ hrefuse hs run'
    have hb : s.cpuSidePort.blocked := (Bool.and_eq_true_iff.1 hrefuse).2
    have h₁ := (reach_of_step hinv hs).inv
    obtain ⟨-, hs⟩ := hs
    have hs : s.cpuRecvTiming p w pkt up = .ok s₁ := hs
    rw [cpuRecvTiming, if_pos hrefuse] at hs
    cases hs
    have howed : Owed s.cpuSidePort.retries s.curTick { s.cpuSidePort with mustSendRetry := true } s.curTick :=
      ⟨Nat.le_refl _, .inl ⟨hb, rfl, rfl⟩⟩
    obtain ⟨-, ho⟩ := of_run run' h₁ howed
      fun _ _ h => h.owed
    exact ho.2.imp (fun h => ⟨h.1, h.2.1⟩) id

/-- A cache without a prefetcher, with the given numbers of MSHRs and of targets in one. -/
def plain (mshrs numTarget : Nat) : TimingParams where
  mshrs
  writeBuffers := 8
  numTarget
  hitLatency := 10
  forwardSnoops := true
  prefetcher := false
  prefetchOnAccess := false
  ms := 1000

/-- The only MSHR is taken by a miss, and the next request is refused. -/
theorem blocked_agrees_oneMSHR :
    ∃ s, Run (Step (plain 1 20)) (init (LRU oneFrame) (plain 1 20) 0 0)
      [({}, .cpuRecvTiming { cmd := .ReadReq, addr := 0, size := 8 } none)] s ∧
      s.refuses { cmd := .ReadReq, addr := 8, size := 8 } ∧ s.mshrQueue.isFull := by
  have run : Run (Step (plain 1 20)) (init (LRU oneFrame) (plain 1 20) 0 0)
      [({}, .cpuRecvTiming { cmd := .ReadReq, addr := 0, size := 8 } none)] _ := .cons ⟨trivial, rfl⟩ .nil
  obtain ⟨hfull, -⟩ := blocked_agrees (by decide) (by decide) run
  exact ⟨_, run, rfl, hfull.1 rfl⟩

/-- A cache without MSHRs, after a snoop: the queue is full from the start, which no call of `setBlocked` has
noticed. -/
theorem full_unblocked_noMSHRs :
    ∃ s, Run (Step (plain 0 20)) (init (LRU oneFrame) (plain 0 20) 0 0)
      [({}, .memRecvTiming { cmd := .ReadReq, addr := 0, size := 8 } ⟨.MSHRs, 0⟩ none 0 0)] s ∧
      s.mshrQueue.isFull ∧ s.blocked .NoMSHRs = false :=
  ⟨_, .cons ⟨nofun, rfl⟩ .nil, rfl, rfl⟩

end M5.Mem.TimingCache
