import M5.Mem.Cache.QueueSteps
import M5.Mem.Cache.Timing

/-!
# The invariant rule of the cache in timing mode

An operation of the cache is a sequence of a few kinds of change: to the blocks, to the ports, to an MSHR, and calls on
the queues with the blocking that follows them. `Keeps` says that each of them keeps a property of the state and stops
with a safe fault at most; `Keeps.handle` is the rule that then every operation does.
-/

namespace M5.Mem

open M5.Lib Function List Bool

variable {T : TagStore}

/-- What one function does to the blocks, with its calls on the tag store. -/
inductive CacheStep : Cache T → List TagCall → Cache T → Prop
  | access {c : Cache T} {mshrs : Addr → Option Bool} {pkt : Packet} {r : Cache.AccessResult T}
      (h : c.access mshrs pkt = .ok r) : CacheStep c (c.accessCalls mshrs pkt) r.cache
  | fill {c c' : Cache T} {mshrs : Addr → Option Bool} {pkt : Packet} {b : BlkPtr} {wbs : List Packet}
      (h : c.handleFill mshrs pkt (c.findBlock pkt.addr) [] = .ok (b, c', wbs)) :
      CacheStep c (c.fillCalls mshrs pkt (c.findBlock pkt.addr)) c'
  | satisfy {c : Cache T} {b : BlkPtr} {pkt pkt' : Packet} {blk : CacheBlk}
      (h : (c.get b).satisfyCpuSideRequest T.blkSize pkt = .ok (blk, pkt')) :
      CacheStep c (c.satisfyCalls b pkt) (c.set b blk)
  | snoop {c : Cache T} {b : BlkPtr} {pkt pkt' : Packet} {isDeferred pendingInval : Bool} {blk : CacheBlk}
      {resp : Option Packet}
      (h : (c.get b).handleSnoop T.blkSize pkt true isDeferred pendingInval = .ok (blk, pkt', resp)) :
      CacheStep c (c.snoopCalls b pkt) (c.set b blk)
  | invalidate (c : Cache T) (b : BlkPtr) : CacheStep c (c.invalidateBlk b).2 (c.invalidateBlk b).1
  | status {c : Cache T} {b : BlkPtr} {st : BlkStatus} (hv : st.valid = (c.get b).status.valid) :
      CacheStep c [] (c.set b { c.get b with status := st })

namespace TimingCache

section

variable {s s' : TimingCache T} {cause : BlockedCause} {qi : QueueIndex}

/-! ## Calls that leave most of the state -/

theorem setCache_self (s : TimingCache T) : s.setCache s.cache [] = s := by
  unfold setCache
  rw [append_nil]

/-- What `setBlocked` and `clearBlocked` do to the port. -/
inductive PortMoves (curTick : Tick) (port : CachePort) : CachePort → Prop
  | same : PortMoves curTick port port
  | set (h : port.blocked = false) : PortMoves curTick port { port with blocked := true, mustSendRetry := false }
  | clear (h : port.blocked) : PortMoves curTick port { port with
      blocked := false, mustSendRetry := false,
      retries := if port.mustSendRetry then port.retries ++ [curTick + 1] else port.retries }

theorem PortMoves.out {curTick : Tick} {port port' : CachePort} (h : PortMoves curTick port port') :
    port'.out = port.out := by
  cases h <;> rfl

/-- `s'` is `s` but for the blocking of the CPU side. -/
def Blocks (s s' : TimingCache T) : Prop :=
  ∃ b port, s' = { s with blocked := b, cpuSidePort := port } ∧ PortMoves s.curTick s.cpuSidePort port

theorem Blocks.refl (s : TimingCache T) : Blocks s s := ⟨_, _, rfl, .same⟩

theorem setBlocked_blocks : Yields (fun _ => True) (Blocks s) (s.setBlocked cause) :=
  .ite (fun _ => ⟨_, _, rfl, .same⟩) fun _ => .bind
    (.ensure (fun _ => trivial) .set) fun _ hp => ⟨_, _, rfl, hp⟩

theorem clearBlocked_blocks : Yields (fun _ => True) (Blocks s) (s.clearBlocked cause) :=
  .ite (fun _ => ⟨_, _, rfl, .same⟩) fun _ => .bind
    (.ensure (fun _ => trivial) .clear) fun _ hp => ⟨_, _, rfl, hp⟩

theorem blockIfFull_blocks : Yields (fun _ => True) (Blocks s) (s.blockIfFull qi) :=
  .ite (fun _ => setBlocked_blocks) fun _ => .refl s

theorem clearIfFreed_blocks {wasFull : Bool} : Yields (fun _ => True) (Blocks s) (s.clearIfFreed qi wasFull) :=
  .ite (fun _ => clearBlocked_blocks) fun _ => .refl s

/-- A request for the bus schedules the send event at most. -/
theorem requestMemSideBus_eq_ok (h : s.requestMemSideBus time = .ok s') :
    ∃ out, s' = s.setMemOut out ∧ (out = s.memSidePort.out ∨
      s.memSidePort.out.waitingOnRetry = false ∧ s.memSidePort.out.schedSendEvent s.curTick time = .ok out) := by
  unfold requestMemSideBus at h
  split at h
  · cases h
    exact ⟨_, rfl, .inl rfl⟩
  · next hw =>
    obtain ⟨out, ho, rfl⟩ := of_map h
    exact ⟨out, rfl, .inr ⟨eq_false_iff.2 hw, lift_eq_ok.1 ho⟩⟩

/-- An allocation: the queue, the blocking, and the request for the bus. -/
theorem allocateBufferInternal_eq_ok {addr : Addr} {size : Nat} {requestBus : Bool} {i : Nat}
    (h : s.allocateBufferInternal qi addr size pkt up time requestBus = .ok (i, s')) :
    ∃ q s₁, (s.queues qi).allocate addr size pkt up time s.order = .ok (i, q) ∧
      Blocks { s.setQueue qi q with order := s.order + 1 } s₁ ∧ s₁.requestIf requestBus time = .ok s' := by
  obtain ⟨⟨k, q⟩, hq, h⟩ := of_bind h
  obtain ⟨s₁, h₁, h⟩ := of_bind h
  obtain ⟨s₂, h₂, h⟩ := of_bind h
  obtain ⟨rfl, rfl⟩ := Prod.mk.inj (Except.ok.inj h)
  exact ⟨q, s₁, lift_eq_ok.1 hq, blockIfFull_blocks.of_eq h₁, h₂⟩

theorem markInServiceInternal_eq_ok {m : MSHRPtr} (h : s.markInServiceInternal m = .ok s') :
    ∃ q, (s.queues m.queue).markInService m.idx = .ok q ∧ Blocks (s.setQueue m.queue q) s' := by
  obtain ⟨q, hq, h⟩ := of_bind h
  exact ⟨q, lift_eq_ok.1 hq, clearIfFreed_blocks.of_eq h⟩

theorem accessTarget_eq_ok {p : TimingParams} {i : Nat} (h : s.accessTarget p i pkt up time = .ok s') :
    ∃ m b port n, (s.mshr ⟨.MSHRs, i⟩).allocateTarget pkt up time s.order = .ok m ∧
      s' = { s.setMSHR ⟨.MSHRs, i⟩ m with order := s.order + 1, blocked := b, cpuSidePort := port, noTargetMSHR := n } ∧
      PortMoves s.curTick s.cpuSidePort port ∧ n = if m.ntargets = p.numTarget then some i else s.noTargetMSHR := by
  obtain ⟨m, hm, h⟩ := of_bind h
  refine ⟨m, ?_⟩
  split at h
  · next hn =>
    obtain ⟨b, port, rfl, hmove⟩ := setBlocked_blocks.of_eq h
    exact ⟨b, port, some i, lift_eq_ok.1 hm, rfl, hmove, (if_pos hn).symm⟩
  · next hn =>
    cases h
    exact ⟨_, _, _, lift_eq_ok.1 hm, rfl, .same, (if_neg hn).symm⟩

end

theorem reschedule_eq_ok {p : TimingParams} {w : World} {s s' : TimingCache T} (h : s.reschedule p w = .ok s') :
    ∃ out, s' = s.setMemOut out ∧ (out = s.memSidePort.out ∨
      ∃ t, earlier s.memSidePort.out.deferredPacketReadyTime (s.nextMSHRReadyTime p w) = some t ∧
        out = { s.memSidePort.out with sendEvent := some (max t (s.curTick + 1)) }) := by
  unfold reschedule at h
  split at h
  · cases h
    exact ⟨_, rfl, .inl rfl⟩
  · split at h
    · cases h
      exact ⟨_, rfl, .inl rfl⟩
    · next t ht =>
      obtain ⟨out, ho, rfl⟩ := of_map h
      obtain ⟨-, ho⟩ := of_ensure (lift_eq_ok.1 ho)
      obtain ⟨-, ho⟩ := of_ensure ho
      exact ⟨out, rfl, .inr ⟨t, ht, (Except.ok.inj ho).symm⟩⟩

/-- The state after the loop over the targets, apart from the MSHR. -/
def putData (s : TimingCache T) (v : Served T) : TimingCache T :=
  ((s.setCache v.cache v.calls).setCpuOut v.cpu).setMemOut v.mem

theorem setMSHR_setMSHR (q : MSHRQueue) (i : Nat) (m m' : MSHR) : (q.setMSHR i m).setMSHR i m' = q.setMSHR i m' := by
  unfold MSHRQueue.setMSHR MSHRQueue.setEntry
  simp

theorem finishMSHR_eq (s : TimingCache T) (m : MSHRPtr) (v : Served T) (wasFull : Bool) (r : Reply) :
    (s.putServed m v).finishMSHR m wasFull r = (do
      let (again, mshr) ← lift .fault (v.mshr.promoteDeferredTargets s.curTick)
      if again then
        match r.blk with
        | none => .error .nullBlock
        | some b => do
          let q ← lift .fault (((s.queues m.queue).setMSHR m.idx mshr).markPending m.idx)
          (((s.putData v).setCache (v.cache.set b (v.cache.get b).clearReadable) []).setQueue m.queue
            q).requestMemSideBus
            r.finishTime
      else do
        let q ← lift .fault (((s.queues m.queue).setMSHR m.idx mshr).deallocate m.idx)
        ((s.putData v).setQueue m.queue q).clearIfFreed m.queue wasFull) := by
  have hself : (s.putServed m v).queues m.queue = (s.queues m.queue).setMSHR m.idx v.mshr := update_self _ _ _
  have hmshr : (s.putServed m v).mshr m = v.mshr := by
    unfold mshr entry
    rw [hself, MSHRQueue.setMSHR_self]
  have hput : ∀ q, (s.putServed m v).setQueue m.queue q = (s.putData v).setQueue m.queue q := by
    intro q
    simp only [putServed, putData, setQueue, setMSHR, setCache, setCpuOut, setMemOut, update_idem]
  have hputc : ∀ c q, ((s.putServed m v).setCache c []).setQueue m.queue q =
      ((s.putData v).setCache c []).setQueue m.queue q :=
    fun c q => congrArg (·.setCache c []) (hput q)
  unfold finishMSHR
  rw [hmshr, hself]
  simp only [setMSHR_setMSHR, hput, hputc]
  rfl

/-- The two ways to finish: the MSHR is sent again, or freed. -/
theorem finishMSHR_yields {safe : TimingFault → Prop} {Q : TimingCache T → Prop} {s : TimingCache T} {m : MSHRPtr}
    {v : Served T} {wasFull : Bool} {r : Reply} (hf : ∀ f, safe (.fault f)) (hnull : safe .nullBlock)
    (again : ∀ mshr q c, v.mshr.promoteDeferredTargets s.curTick = .ok (true, mshr) →
      ((s.queues m.queue).setMSHR m.idx mshr).markPending m.idx = .ok q → CacheStep v.cache [] c →
      Yields safe Q ((((s.putData v).setCache c []).setQueue m.queue q).requestMemSideBus r.finishTime))
    (done : ∀ mshr q, v.mshr.promoteDeferredTargets s.curTick = .ok (false, mshr) →
      ((s.queues m.queue).setMSHR m.idx mshr).deallocate m.idx = .ok q →
      Yields safe Q (((s.putData v).setQueue m.queue q).clearIfFreed m.queue wasFull)) :
    Yields safe Q ((s.putServed m v).finishMSHR m wasFull r) := by
  rw [finishMSHR_eq]
  refine (Yields.lift hf _).bind fun x hx => ?_
  obtain ⟨promoted, mshr⟩ := x
  cases promoted with
  | true =>
    dsimp only
    rw [if_pos rfl]
    split
    · exact hnull
    · next b _ => exact (Yields.lift hf _).bind fun q hq => again mshr q _ hx hq (.status rfl)
  | false => exact (Yields.lift hf _).bind fun q hq => done mshr q hx hq

theorem finishMSHR_spec {s : TimingCache T} {m : MSHRPtr} {v : Served T} {wasFull : Bool} {r : Reply} :
    Yields (fun _ => True) (fun s' => ∃ again mshr q,
      v.mshr.promoteDeferredTargets s.curTick = .ok (again, mshr) ∧ if again then
        ((s.queues m.queue).setMSHR m.idx mshr).markPending m.idx = .ok q ∧ ∃ c, CacheStep v.cache [] c ∧
          (((s.putData v).setCache c []).setQueue m.queue q).requestMemSideBus r.finishTime = .ok s'
      else ((s.queues m.queue).setMSHR m.idx mshr).deallocate m.idx = .ok q ∧
        Blocks ((s.putData v).setQueue m.queue q) s') ((s.putServed m v).finishMSHR m wasFull r) := by
  refine finishMSHR_yields (fun _ => trivial) trivial (fun mshr q c hx hq hc => ?_) fun mshr q hx hq => ?_
  · exact (yields_eq _).mono fun s' hs' => ⟨true, mshr, q, hx, hq, c, hc, hs'⟩
  · exact clearIfFreed_blocks.mono fun s' hs' => ⟨false, mshr, q, hx, hq, hs'⟩

/-! ## Responses and what can be sent -/

section

variable {p : TimingParams} {w : World} {s : TimingCache T} {pkt : Packet} {t' : Tick} {v : Served T} {r : Reply}

/-- Something can be sent at time `t`: a response, or an entry of one of the queues. -/
def Due (s : TimingCache T) (t : Tick) : Prop :=
  s.memSidePort.out.Due t ∨ ∃ qi, ∃ n ∈ (s.queues qi).readyList, (s.queues qi).readyTime n ≤ t

theorem handleSnoop_pkt (m : MSHR) (pkt : Packet) (up : Option Nat) (curTick order : Nat) :
    (m.handleSnoop pkt up curTick order).2.1.cmd = pkt.cmd ∧
      (m.handleSnoop pkt up curTick order).2.1.addr = pkt.addr := by
  unfold MSHR.handleSnoop
  split
  · exact ⟨rfl, rfl⟩
  · generalize (if pkt.needsExclusive then { m with deferredTargets := m.deferredTargets.replaceUpgrades } else m) = n
    dsimp only
    split
    · exact ⟨rfl, rfl⟩
    · split
      · split <;> exact ⟨rfl, rfl⟩
      · exact ⟨rfl, rfl⟩

/-- What serving targets does: steps on the blocks, and packets for the two ports. -/
def Serves (curTick : Tick) (v v' : Served T) : Prop :=
  (∃ ls, Run CacheStep v.cache ls v'.cache ∧ v'.calls = v.calls ++ ls.flatten) ∧
    (v.cpu.Ok curTick → v'.cpu.Ok curTick) ∧ v.mem.Responds curTick v'.mem ∧ v'.mshr = v.mshr

theorem Serves.refl (curTick : Tick) (v : Served T) : Serves curTick v v :=
  ⟨⟨[], .nil, (append_nil _).symm⟩, id, .refl _ _, rfl⟩

variable {curTick t : Tick} {v' : Served T} {m : MSHRPtr} {q : MSHRQueue}

theorem Serves.trans {v₁ v₂ v₃ : Served T} (h : Serves curTick v₁ v₂) (h' : Serves curTick v₂ v₃) :
    Serves curTick v₁ v₃ := by
  obtain ⟨⟨ls, hrun, hc⟩, hcpu, hmem, hm⟩ := h
  obtain ⟨⟨ls', hrun', hc'⟩, hcpu', hmem', hm'⟩ := h'
  refine ⟨⟨ls ++ ls', hrun.append hrun', ?_⟩, fun ho => hcpu' (hcpu ho), hmem.trans hmem', hm'.trans hm⟩
  rw [hc', hc, flatten_append, append_assoc]

theorem Serves.step {c : Cache T} {calls : List TagCall}
    (h : CacheStep v.cache calls c) : Serves curTick v { v with cache := c, calls := v.calls ++ calls } :=
  ⟨⟨[calls], .cons h .nil, by rw [flatten_singleton]⟩, id, .refl _ _, rfl⟩

theorem answerTarget_serves {time : Tick} (h : answerTarget p curTick r pkt time v = .ok v') : Serves curTick v v' := by
  obtain ⟨pkt₁, -, h⟩ := of_bind h
  obtain ⟨pkt₂, -, h⟩ := of_bind h
  obtain ⟨cpu, hcpu, rfl⟩ := of_map h
  exact ⟨⟨[], .nil, (append_nil _).symm⟩, (SimpleTimingPort.schedSendTiming_eq_ok hcpu).1.ok, .refl _ _, rfl⟩

theorem serveTarget_serves {t : MSHR.Target} (h : serveTarget p w curTick r t v = .ok v') : Serves curTick v v' := by
  unfold serveTarget at h
  split at h
  · unfold serveCPU at h
    split at h
    · split at h
      · cases h
      · obtain ⟨⟨blk, pkt'⟩, hb, h⟩ := of_bind h
        obtain ⟨-, h⟩ := of_ensure h
        exact (Serves.step (.satisfy hb)).trans (answerTarget_serves h)
    · exact answerTarget_serves h
  · obtain ⟨-, h⟩ := of_ensure h
    split at h
    · cases h
      exact .refl _ _
    · next b _ =>
      cases h
      have hstep : CacheStep v.cache [] (v.cache.set b (v.cache.get b).setPrefetched) := .status rfl
      have hs : Serves curTick v _ := .step hstep
      rw [append_nil] at hs
      exact hs
  · obtain ⟨-, h⟩ := of_ensure h
    obtain ⟨⟨c, resp, calls⟩, hx, h⟩ := of_bind h
    have hs : Serves curTick v { v with cache := c, calls := v.calls ++ calls } := by
      obtain ⟨-, hx⟩ := of_ensure hx
      obtain ⟨-, hx⟩ := of_ensure hx
      obtain ⟨pkt', -, hx⟩ := of_bind hx
      split at hx
      · cases hx
        rw [append_nil]
        exact .refl _ _
      · obtain ⟨⟨blk, pkt'', resp'⟩, hb, hx⟩ := of_bind hx
        cases hx
        exact .step (.snoop hb)
    dsimp only at h
    split at h
    · cases h
      exact hs
    · obtain ⟨mem, hmem, rfl⟩ := of_map h
      exact hs.trans ⟨⟨[], .nil, (append_nil _).symm⟩, id, (SimpleTimingPort.schedSendTiming_eq_ok hmem).1, rfl⟩

/-- The loop over the targets, target by target. -/
theorem serveTargets_serves : ∀ {ts : List MSHR.Target} {v v' : Served T},
    serveTargets p w curTick r ts v = .ok v' →
      Serves curTick v { v' with mshr := v.mshr } ∧ v'.mshr = ts.foldl (fun m _ => m.popTarget) v.mshr
  | [], v, v', h => by
    cases h
    exact ⟨.refl _ _, rfl⟩
  | t :: ts, v, v', h => by
    obtain ⟨v₁, h₁, h⟩ := of_bind h
    obtain ⟨v₂, h₂, rfl⟩ := of_map h₁
    have hs := serveTarget_serves h₂
    obtain ⟨m₂, hm₂⟩ : ∃ m₂, m₂ = v₂.mshr.popTarget := ⟨_, rfl⟩
    rw [← hm₂] at h
    obtain ⟨hrec, hm⟩ := serveTargets_serves h
    refine ⟨hs.trans ⟨hrec.1, hrec.2.1, hrec.2.2.1, hs.2.2.2.symm⟩, ?_⟩
    rw [foldl_cons, ← hs.2.2.2, ← hm₂]
    exact hm

theorem invalidateAfter_serves (curTick : Tick) (r : Reply) (v : Served T) :
    Serves curTick v (v.invalidateAfter r) := by
  unfold Served.invalidateAfter
  split
  · exact .refl _ _
  · split
    · exact .step (.invalidate _ _)
    · exact .refl _ _

/-- What a response does to the blocks, the ports and the MSHR. -/
theorem serveMSHR_eq_ok {wbs : List Packet}
    (h : s.serveMSHR p w m pkt t t' = .ok (r, wbs, v)) : (∃ ls, Run CacheStep s.cache ls v.cache ∧
      v.calls = ls.flatten) ∧ (s.cpuSidePort.out.Ok s.curTick → v.cpu.Ok s.curTick) ∧
      s.memSidePort.out.Responds s.curTick v.mem ∧ (s.mshr m).Answered v.mshr := by
  obtain ⟨-, h⟩ := of_ensure h
  obtain ⟨⟨r₀, wbs₀, v₀⟩, hf, h⟩ := of_bind h
  obtain ⟨v₁, hv₁, h⟩ := of_bind h
  cases h
  have hfill : Serves s.curTick (s.served m) { v₀ with mshr := s.mshr m } ∧
      ∃ fill, (s.mshr m).handle (.response fill) = .ok { v₀.mshr with phase := .answered } := by
    unfold fillBlock at hf
    dsimp only at hf
    split at hf
    · obtain ⟨⟨pkt', mshr⟩, hm, hf⟩ := of_bind hf
      obtain ⟨⟨b, c, wbs₁⟩, hc, hf⟩ := of_bind hf
      cases hf
      have haddr : pkt'.addr = pkt.addr := by
        unfold MSHR.handleFill at hm
        dsimp only at hm
        generalize hp : (if (s.mshr m).pendingShared then { pkt with shared := true } else pkt) = q at hm
        have hq : q.addr = pkt.addr := by
          rw [← hp]
          split <;> rfl
        split at hm
        · obtain ⟨-, hm⟩ := of_ensure hm
          obtain ⟨-, hm⟩ := of_ensure hm
          rw [← (Prod.mk.inj (Except.ok.inj hm)).1, hq]
        · rw [← (Prod.mk.inj (Except.ok.inj hm)).1, hq]
      rw [← haddr] at hc ⊢
      refine ⟨.step (.fill hc), some pkt, ?_⟩
      rw [MSHR.handle, hm, ok_bind]
    · cases hf
      exact ⟨.refl _ _, none, rfl⟩
  obtain ⟨hs₀, fill, hfill⟩ := hfill
  obtain ⟨hs₁, hm⟩ := serveTargets_serves hv₁
  have hinv := invalidateAfter_serves s.curTick r v₁
  have hs : Serves s.curTick (s.served m) { v₁ with mshr := s.mshr m } :=
    hs₀.trans ⟨hs₁.1, hs₁.2.1, hs₁.2.2.1, rfl⟩
  have hs' : Serves s.curTick (s.served m) { v₁.invalidateAfter r with mshr := s.mshr m } :=
    hs.trans ⟨hinv.1, hinv.2.1, hinv.2.2.1, rfl⟩
  obtain ⟨⟨ls, hrun, hcalls⟩, hcpu, hmem, -⟩ := hs'
  exact ⟨⟨ls, hrun, hcalls⟩, hcpu, hmem, fill, _, hfill, hinv.2.2.2.trans hm⟩

theorem releaseTargets_eq_ok {s₁ : TimingCache T} (h : s.releaseTargets m = .ok s₁) :
    ∃ b port n, s₁ = { s with blocked := b, cpuSidePort := port, noTargetMSHR := n } ∧
      PortMoves s.curTick s.cpuSidePort port ∧
      n = if m.queue = .MSHRs ∧ s.noTargetMSHR = some m.idx then none else s.noTargetMSHR := by
  unfold releaseTargets at h
  split at h
  · next hm =>
    obtain ⟨s₂, h₂, h⟩ := of_bind h
    obtain ⟨b, port, rfl, hmove⟩ := clearBlocked_blocks.of_eq h₂
    cases h
    exact ⟨b, port, none, rfl, hmove, (if_pos hm).symm⟩
  · next hm =>
    cases h
    exact ⟨_, _, _, rfl, .same, (if_neg hm).symm⟩

theorem getNextMSHR_eq_some {i : Nat} (h : q.getNextMSHR t = some i) :
    ∃ n ∈ q.readyList, n.val = i ∧ q.readyTime n ≤ t := by
  unfold MSHRQueue.getNextMSHR at h
  split at h
  · cases h
  · next n l hl =>
    split at h
    · cases h
    · next hle =>
      refine ⟨n, ?_, Option.some.inj h, Nat.le_of_not_lt hle⟩
      rw [hl]
      exact mem_cons_self

theorem getNextMSHR_eq_none (hq : q.Sane) (h : q.getNextMSHR t = none) : ∀ n ∈ q.readyList, t < q.readyTime n := by
  unfold MSHRQueue.getNextMSHR at h
  have hsorted := hq.consistent.sorted
  split at h
  · next hl =>
    rw [hl]
    nofun
  · next n l hl =>
    rw [hl] at hsorted ⊢
    split at h
    · next hlt =>
      intro x hx
      rcases mem_cons.1 hx with rfl | hx
      · exact hlt
      · exact Nat.lt_of_lt_of_le hlt ((pairwise_cons.1 hsorted).1 x hx).le
    · cases h

/-- The entry that is favoured is ready. -/
theorem favour_ready {i j : Nat} (hi : i ∈ s.mshrQueue.readyList.map Node.val)
    (hj : j ∈ s.writeBuffer.readyList.map Node.val) :
    (s.favour i j).idx ∈ (s.queues (s.favour i j).queue).readyList.map Node.val := by
  unfold favour
  dsimp only
  split
  · split
    · next k hk =>
      split
      · exact mem_of_find?_eq_some hk
      · exact hj
    · exact hj
  · split
    · next k hk => exact mem_of_find?_eq_some hk
    · exact hi

theorem setForward_queues (m : MSHRPtr) (b : Bool) (qi : QueueIndex) :
    ((s.setForward m b).queues qi).readyList = (s.queues qi).readyList ∧
      ∀ n, ((s.setForward m b).queues qi).readyTime n = (s.queues qi).readyTime n := by
  unfold setForward setQueue
  dsimp only
  by_cases hq : qi = m.queue
  · subst hq
    rw [update_self]
    refine ⟨rfl, fun n => ?_⟩
    unfold MSHRQueue.readyTime MSHRQueue.setEntry
    dsimp only
    by_cases hn : n.val = m.idx
    · rw [hn, update_self]
      rfl
    · rw [update_of_ne hn]
  · rw [update_of_ne hq]
    exact ⟨rfl, fun _ => rfl⟩

theorem due_setForward (m : MSHRPtr) (b : Bool) (h : s.Due t) : (s.setForward m b).Due t := by
  rcases h with hport | ⟨qi, n, hn, hle⟩
  · exact .inl hport
  · refine .inr ⟨qi, n, ?_, ?_⟩
    · rw [(setForward_queues m b qi).1]
      exact hn
    · rw [(setForward_queues m b qi).2]
      exact hle

end

/-! ## The rule -/

/-- The parts of the operations keep `I` and stop with safe faults only; `D` is what is asked of an operation. -/
structure Keeps (p : TimingParams) (safe : TimingFault → Prop) (D : TimingCache T → Act → Prop)
    (I : TimingCache T → Prop) : Prop where
  fault (f : Fault) : safe (.fault f)
  nullBlock : safe .nullBlock
  sane {s} (qi) : I s → (s.queues qi).Sane
  cache {s c calls} : I s → CacheStep s.cache calls c → I (s.setCache c calls)
  cpuOut {s out} : I s → (s.cpuSidePort.out.Ok s.curTick → out.Ok s.curTick) → I (s.setCpuOut out)
  memOut {s out} : I s → s.memSidePort.out.Responds s.curTick out → I (s.setMemOut out)
  refused {s} : I s → s.cpuSidePort.blocked →
    I { s with cpuSidePort := { s.cpuSidePort with mustSendRetry := true } }
  memRefused {s} : I s → s.memSidePort.blocked →
    I { s with memSidePort := { s.memSidePort with mustSendRetry := true } }
  allocate {s} (qi addr size pkt up time requestBus) : I s →
    Yields safe (fun r => I r.2) (s.allocateBufferInternal qi addr size pkt up time requestBus)
  target {s addr i} (pkt up time) : I s → s.cpuSidePort.blocked = false → s.mshrQueue.findMatch addr = some i →
    Yields safe I (s.accessTarget p i pkt up time)
  request {s} (time) : I s → p.prefetcher → Yields safe I (s.requestMemSideBus time)
  snooped {s pkt m up t t' i} : I s → D s (.memRecvTiming pkt m up t t') → pkt.isResponse = false →
    (pkt.req.isUncacheable || pkt.cmd = .Writeback) = false →
    s.mshrQueue.findMatch (T.blkAlign pkt.addr) = some i →
    I { s.setMSHR ⟨.MSHRs, i⟩ ((s.mshr ⟨.MSHRs, i⟩).handleSnoop pkt up s.curTick s.order).2.2 with
      order := s.order + 1 }
  discard {s₀ s pkt m up t t' j} : D s₀ (.memRecvTiming pkt m up t t') → pkt.isResponse = false →
    pkt.isInvalidate → s₀.writeBuffer.findMatches (T.blkAlign pkt.addr) ≠ [] → I s →
    j ∈ s.writeBuffer.entries → Yields safe I (s.markInServiceInternal ⟨.WriteBuffer, j⟩)
  response {s pkt m up t t'} : I s → D s (.memRecvTiming pkt m up t t') → pkt.isResponse →
    m.idx ∈ (s.queues m.queue).entries → (s.mshr m).inService → (s.mshr m).downstreamPending = false →
    Yields safe (fun s₁ => ∀ ls v r, Run CacheStep s.cache ls v.cache → v.calls = ls.flatten →
        (s.cpuSidePort.out.Ok s.curTick → v.cpu.Ok s.curTick) → s.memSidePort.out.Responds s.curTick v.mem →
        (s.mshr m).Answered v.mshr →
        Yields safe I ((s₁.putServed m v).finishMSHR m (s.queues m.queue).isFull r))
      (s.releaseTargets m)
  waiting {s} : I s → s.memSidePort.out.waitingOnRetry → s.memSidePort.out.sendEvent = none
  due {s a} : D s a → a = .memSendEvent ∨ a = .memRetry ∧ s.memSidePort.out.waitingOnRetry →
    p.prefetcher = false → safe .nullPrefetcher ∨ s.Due s.curTick ∨ s.mshrQueue.isFull
  fired {s} : I s → I (s.setMemOut { s.memSidePort.out with sendEvent := none })
  idle {s} (l) : I s → s.memSidePort.out.sendEvent = none →
    I (s.setMemOut { s.memSidePort.out with transmitList := l, waitingOnRetry := false })
  wait {s} : I s → s.memSidePort.out.sendEvent = none → s.Due s.curTick → I (s.setWaiting true)
  forward {s} (m b) : I s → I (s.setForward m b)
  sent {s m} (b) : I s → s.memSidePort.out.sendEvent = none → s.memSidePort.out.waitingOnRetry = false →
    m.idx ∈ (s.queues m.queue).readyList.map Node.val →
    Yields safe I ((s.setDownstream m b).markInServiceInternal m)
  reschedule {s} (w) : I s → s.memSidePort.out.sendEvent = none → s.memSidePort.out.waitingOnRetry = false →
    Yields safe I (s.reschedule p w)
  clearDownstream {s m mshr} : I s → m.idx ∈ (s.queues m.queue).entries →
    (s.mshr m).clearDownstreamPending = .ok mshr → I (s.setMSHR m mshr)
  advance {s t} : I s → s.curTick ≤ t → (∀ e, s.memSidePort.out.sendEvent = some e → t ≤ e) →
    (∀ e, s.cpuSidePort.out.sendEvent = some e → t ≤ e) → I { s with curTick := t }

namespace Keeps

variable {p : TimingParams} {safe : TimingFault → Prop} {D : TimingCache T → Act → Prop} {I : TimingCache T → Prop}
  (K : Keeps p safe D I) {s : TimingCache T}

include K

theorem check {f : Fault} {c : Prop} [Decidable c] {Q : α → Prop} {g : PUnit → Except TimingFault α}
    (hg : c → Yields safe Q (g ⟨⟩)) : Yields safe Q (ensure (.fault f) c >>= g) :=
  .ensure (fun _ => K.fault f) hg

theorem lifted {x : Except Fault α} {Q : β → Prop} {g : α → Except TimingFault β}
    (hg : ∀ a, x = .ok a → Yields safe Q (g a)) : Yields safe Q (lift .fault x >>= g) :=
  (Yields.lift K.fault x).bind hg

/-! ### Buffers and ports -/

section

variable (h : I s)

include h

theorem allocateMissBuffer (pkt : Packet) (up : Option Nat) (time : Tick) (requestBus : Bool) :
    Yields safe (fun r => I r.2) (s.allocateMissBuffer pkt up time requestBus) :=
  K.check fun _ => K.allocate _ _ _ _ _ _ _ h

theorem allocateWriteBuffer (pkt : Packet) (up : Option Nat) (time : Tick) :
    Yields safe I (s.allocateWriteBuffer pkt up time) :=
  K.check fun _ => (K.allocate _ _ _ _ _ _ _ h).bind fun _ hr => hr

theorem allocateUncachedReadBuffer (pkt : Packet) (up : Option Nat) (time : Tick) :
    Yields safe I (s.allocateUncachedReadBuffer pkt up time) :=
  K.check fun _ => K.check fun _ =>
    (K.allocate _ _ _ _ _ _ _ h).bind fun _ hr => hr

theorem bufferWritebacks (wbs : List Packet) (time : Tick) : Yields safe I (s.bufferWritebacks wbs time) :=
  .foldlM (fun _ _ hs => K.allocateWriteBuffer hs _ _ _) h

theorem respondCpu (pkt : Packet) (time : Tick) : Yields safe I (s.respondCpu p pkt time) :=
  K.lifted fun _ ho => K.cpuOut h (SimpleTimingPort.schedSendTiming_eq_ok ho).1.ok

theorem respondMem (pkt : Packet) (time : Tick) : Yields safe I (s.respondMem p pkt time) :=
  K.lifted fun _ ho => K.memOut h (SimpleTimingPort.schedSendTiming_eq_ok ho).1

theorem respondOpt (resp : Option Packet) : Yields safe I (s.respondOpt p resp) := by
  cases resp with
  | none => exact h
  | some pkt => exact K.respondMem h pkt _

theorem requestPrefetch (hp : p.prefetcher) (w : World) (time : Tick) :
    Yields safe I (s.requestPrefetch w time) :=
  .ite (fun _ => K.request _ h hp) fun _ => h

theorem setStatus (b : BlkPtr) (st : BlkStatus) (hv : st.valid = (s.cache.get b).status.valid) :
    I (s.setCache (s.cache.set b { s.cache.get b with status := st }) []) :=
  K.cache h (.status hv)

/-! ### Requests -/

theorem accessUncacheable (pkt : Packet) (up : Option Nat) (time : Tick) :
    Yields safe I (s.accessUncacheable pkt up time) := by
  have hbuf : Yields safe I (s.bufferUncacheable pkt up time) :=
    .ite (fun _ => K.allocateWriteBuffer h pkt up time) fun _ => K.allocateUncachedReadBuffer h pkt up time
  exact hbuf.bind fun _ hs => K.check fun _ => hs

theorem accessHit (w : World) (pkt : Packet) (blk : Option Frame) (time : Tick) :
    Yields safe I (s.accessHit p w pkt blk time) := by
  have hresp : Yields safe I (s.accessRespond p w pkt) :=
    .ite (fun _ => K.lifted fun _ _ => K.respondCpu h _ _) fun _ => h
  refine hresp.bind fun s₁ h₁ => .ite (fun hc => ?_) fun _ => h₁
  have hp : p.prefetcher := (and_eq_true_iff.1 hc).1
  refine K.requestPrefetch ?_ hp w time
  cases blk with
  | none =>
    show I (s₁.setCache s₁.cache [])
    rw [setCache_self]
    exact h₁
  | some f => exact K.setStatus h₁ (.frame f) { (s₁.cache.blks f).status with hwPrefetched := false } rfl

theorem accessBuffer (pkt : Packet) (up : Option Nat) (blk : Option Frame) (time : Tick) :
    Yields safe I (s.accessBuffer pkt up blk time) := by
  refine .ite (fun _ => K.allocateWriteBuffer h pkt up time) fun _ => ?_
  split
  · next f _ =>
    refine K.check fun _ => ?_
    have hs := K.setStatus h (.frame f) { (s.cache.blks f).status with readable := false } rfl
    exact (K.allocateMissBuffer hs pkt up time true).bind fun _ hr => hr
  · exact (K.allocateMissBuffer h pkt up time true).bind fun _ hr => hr

theorem accessMiss (hb : s.cpuSidePort.blocked = false) (w : World) (pkt : Packet) (up : Option Nat)
    (blk : Option Frame) (time : Tick) : Yields safe I (s.accessMiss p w pkt up blk time) := by
  unfold TimingCache.accessMiss
  split
  · next i hi => exact K.target pkt up time h hb hi
  · exact (K.accessBuffer h pkt up blk time).bind fun s₁ h₁ =>
      .ite (fun hp => K.requestPrefetch h₁ hp w time) fun _ => h₁

theorem accessCacheable (hb : s.cpuSidePort.blocked = false) (w : World) (pkt : Packet) (up : Option Nat)
    (time : Tick) : Yields safe I (s.accessCacheable p w pkt up time) := by
  refine K.lifted fun r hr => ?_
  have hs := K.cache h (.access hr)
  refine .bind (.ite (fun _ => ?_) fun _ => ?_) fun s₂ h₂ => K.bufferWritebacks h₂ _ _
  · exact K.accessHit hs w _ _ time
  · exact K.accessMiss hs hb w _ up _ time

end

variable {pkt : Packet} {t' : Tick} {up : Option Nat} {v : Served T} {r : Reply} {w : World}

/-- A packet of the CPU side. -/
theorem timingAccess (h : I s) (hb : s.refuses pkt = false) (w : World) (up : Option Nat) :
    Yields safe I (s.timingAccess p w pkt up) := by
  refine .ite (fun _ => K.respondMem h _ _) fun _ => ?_
  refine K.check fun hreq => .ite (fun _ => ?_) fun hm => .ite (fun _ => ?_) fun _ => ?_
  · exact K.check fun _ => h
  · exact K.accessUncacheable h _ _ _
  · refine K.accessCacheable h ?_ w _ _ _
    unfold refuses at hb
    rw [hreq, eq_false_iff.2 hm] at hb
    exact hb

/-! ### Snoops -/

variable {m : MSHRPtr} {t : Tick}

section

variable (h : I s)

include h

theorem snoopBlocks {s₀ : TimingCache T} {pkt₀ : Packet}
    (hD : D s₀ (.memRecvTiming pkt₀ m up t t')) (hr : pkt₀.isResponse = false)
    (hpkt : pkt.cmd = pkt₀.cmd ∧ pkt.addr = pkt₀.addr) (hwb : s.writeBuffer = s₀.writeBuffer) (w : World)
    (order : Nat) :
    Yields safe I (s.snoopBlocks p w pkt order) := by
  have hbuf : Yields safe (fun r => I r.2) (s.snoopWriteBuffer p pkt) := by
    unfold snoopWriteBuffer
    split
    · exact h
    · next j js hj =>
      have hmem : j ∈ s.writeBuffer.entries := by
        have : j ∈ s.writeBuffer.findMatches (T.blkAlign pkt.addr) := by
          rw [hj]
          exact mem_cons_self
        exact mem_of_mem_filter this
      unfold snoopWriteback
      split
      · exact K.fault _
      · refine K.check fun _ => K.check fun _ =>
          K.check fun _ => K.check fun _ =>
          K.check fun _ => ?_
        refine K.lifted fun resp _ => ?_
        have hresp : Yields safe (fun s₁ => I s₁ ∧ s₁.writeBuffer = s.writeBuffer) (s.respondOpt p (some resp)) := by
          refine ((K.respondOpt h (some resp)).with_eq).mono fun s₁ h₁ => ⟨h₁.1, ?_⟩
          obtain ⟨out, -, rfl⟩ := of_map h₁.2
          rfl
        refine hresp.bind fun s₁ h₁ => .bind (.ite (fun hinv => ?_) fun _ => h₁.1) fun _ h₂ => h₂
        refine K.discard hD hr ?_ ?_ h₁.1 (h₁.2 ▸ hmem)
        · unfold Packet.isInvalidate at hinv ⊢
          rw [← hpkt.1]
          exact hinv
        · rw [← hwb, ← hpkt.2, hj]
          exact cons_ne_nil _ _
  refine hbuf.bind fun r hs => K.lifted fun x hx => K.respondOpt ?_ _
  obtain ⟨-, hx⟩ := of_ensure hx
  obtain ⟨-, hx⟩ := of_ensure hx
  obtain ⟨pkt', -, hx⟩ := of_bind hx
  split at hx
  · cases hx
    rw [setCache_self]
    exact hs
  · obtain ⟨⟨blk, pkt'', resp⟩, hb, hx⟩ := of_bind hx
    cases hx
    exact K.cache hs (.snoop hb)

/-- A snoop. -/
theorem snoopTiming
    (hD : D s (.memRecvTiming pkt m up t t')) (hr : pkt.isResponse = false) (w : World) :
    Yields safe I (s.snoopTiming p w pkt up) := by
  refine .ite (fun _ => h) fun hc => ?_
  split
  · exact K.snoopBlocks h hD hr ⟨rfl, rfl⟩ rfl w _
  · next i hi =>
    have hs := K.snooped h hD hr (eq_false_iff.2 hc) hi
    dsimp only
    split
    · exact hs
    · exact K.snoopBlocks hs hD hr (handleSnoop_pkt _ _ _ _ _) rfl w _

/-! ### Responses -/

theorem clearTemp (blk : Option BlkPtr) (time : Tick) : Yields safe I (s.clearTemp blk time) := by
  refine .ite (fun _ => .ite (fun _ => ?_) fun _ => K.cache h (.invalidate _ _)) fun _ => h
  refine K.lifted fun x hx => ?_
  obtain ⟨-, rfl⟩ := of_check hx
  have hs := K.setStatus h .temp { s.cache.tempBlock.status with dirty := false } rfl
  exact (K.allocateWriteBuffer hs _ _ _).bind fun s₁ h₁ => K.cache h₁ (.invalidate _ _)

/-- A response. -/
theorem handleResponse
    (hD : D s (.memRecvTiming pkt m up t t')) (hr : pkt.isResponse) (hm : m.idx ∈ (s.queues m.queue).entries)
    (hs : (s.mshr m).inService) (hp : (s.mshr m).downstreamPending = false) (w : World) :
    Yields safe I (s.handleResponse p w m pkt t t') := by
  refine .ite (fun _ => h) fun _ => ?_
  refine (K.response h hD hr hm hs hp).with_eq.bind fun s₁ hs₁ => K.lifted fun x hx => ?_
  obtain ⟨b, port, n, rfl, hmove, -⟩ := releaseTargets_eq_ok hs₁.2
  obtain ⟨⟨ls, hrun, hcalls⟩, hcpu, hmem, hans⟩ := serveMSHR_eq_ok hx
  replace hcpu : s.cpuSidePort.out.Ok s.curTick → x.2.2.cpu.Ok s.curTick := fun ho => hcpu (hmove.out ▸ ho)
  refine (hs₁.1 ls x.2.2 x.1 hrun hcalls hcpu hmem hans).bind fun s₂ h₂ => ?_
  exact (K.bufferWritebacks h₂ _ _).bind fun s₃ h₃ => K.clearTemp h₃ _ _

/-! ### Sending -/

/-- The MSHR that is chosen is on the ready list. -/
theorem getNextMSHR (hd : ¬ s.memSidePort.out.Due s.curTick)
    (hdue : p.prefetcher = false → safe .nullPrefetcher ∨ s.Due s.curTick ∨ s.mshrQueue.isFull) (w : World) :
    Yields safe (fun r => I r.2 ∧ r.2.memSidePort = s.memSidePort ∧ ∀ m, r.1 = some m →
      m.idx ∈ (r.2.queues m.queue).readyList.map Node.val ∧ r.2.Due r.2.curTick) (s.getNextMSHR p w) := by
  have hready : ∀ {qi i}, (s.queues qi).getNextMSHR s.curTick = some i →
      i ∈ (s.queues qi).readyList.map Node.val ∧ s.Due s.curTick := by
    intro qi i hi
    obtain ⟨n, hn, hv, hle⟩ := getNextMSHR_eq_some hi
    exact ⟨hv ▸ mem_map_of_mem hn, .inr ⟨qi, n, hn, hle⟩⟩
  unfold TimingCache.getNextMSHR
  split
  · next i hi _ => exact ⟨h, rfl, fun m hm => Option.some.inj hm ▸ hready hi⟩
  · next j _ hj => exact ⟨h, rfl, fun m hm => Option.some.inj hm ▸ hready hj⟩
  · next i j hi hj =>
    refine ⟨h, rfl, fun m hm => Option.some.inj hm ▸ ⟨?_, (hready hi).2⟩⟩
    exact favour_ready (hready hi).1 (hready hj).1
  · next hi hj =>
    refine .ite (fun _ => ⟨h, rfl, nofun⟩) fun hfull => .ite (fun hpf => ?_) fun _ => ?_
    · -- nothing is ready, so nothing is due
      rcases hdue (by simpa using hpf) with hsafe | (hport | ⟨qi, n, hn, hle⟩) | hfull'
      · exact hsafe
      · exact absurd hport hd
      · cases qi with
        | MSHRs => exact absurd hle (Nat.not_le_of_lt (getNextMSHR_eq_none (K.sane .MSHRs h) hi n hn))
        | WriteBuffer => exact absurd hle (Nat.not_le_of_lt (getNextMSHR_eq_none (K.sane .WriteBuffer h) hj n hn))
      · exact absurd hfull' hfull
    · split
      · exact ⟨h, rfl, nofun⟩
      · refine .ite (fun _ => ?_) fun _ => ⟨h, rfl, nofun⟩
        refine (K.allocateMissBuffer h _ none s.curTick false).with_eq.bind fun r hr => ?_
        obtain ⟨i, s'⟩ := r
        obtain ⟨-, hok⟩ := of_ensure hr.2
        obtain ⟨q, s₁, hq, ⟨b, port, rfl, -⟩, hs₁⟩ := allocateBufferInternal_eq_ok hok
        cases hs₁
        have hqs : update s.queues .MSHRs q .MSHRs = q := update_self _ _ _
        have hsane : q.Sane := hqs ▸ K.sane .MSHRs hr.1
        obtain ⟨n, hn, hv, hle⟩ := hsane.allocate_ready hq
        refine ⟨hr.1, rfl, fun m hmm => ?_⟩
        cases hmm
        refine ⟨?_, .inr ⟨.MSHRs, n, ?_, ?_⟩⟩
        · show i ∈ (update s.queues .MSHRs q .MSHRs).readyList.map Node.val
          rw [← hv]
          exact mem_map_of_mem hn
        · exact hn
        · exact Nat.le_of_eq hle

section

variable (he : s.memSidePort.out.sendEvent = none)

include he

theorem sendRequest (hd : ¬ s.memSidePort.out.Due s.curTick)
    (hdue : p.prefetcher = false → safe .nullPrefetcher ∨ s.Due s.curTick ∨ s.mshrQueue.isFull) (w : World) :
    Yields safe (fun s' => I s' ∧ s'.memSidePort.out.sendEvent = none) (s.sendRequest p w) := by
  have hpkt : Yields safe (fun r => I r.2 ∧ r.2.memSidePort = s.memSidePort ∧ ∀ m, r.1.map Prod.fst = some m →
      m.idx ∈ (r.2.queues m.queue).readyList.map Node.val ∧ r.2.Due r.2.curTick) (s.getTimingPacket p w) := by
    refine (K.getNextMSHR h hd hdue w).bind fun r hr => ?_
    obtain ⟨next, s₁⟩ := r
    cases next with
    | none => exact ⟨hr.1, hr.2.1, nofun⟩
    | some m =>
      have hm := hr.2.2 m rfl
      refine .bind (P := fun x => I x.2 ∧ x.2.memSidePort = s.memSidePort ∧
        m.idx ∈ (x.2.queues m.queue).readyList.map Node.val ∧ x.2.Due x.2.curTick) ?_ fun x hx => ?_
      · unfold busPacket
        split
        · exact K.fault _
        · refine K.lifted fun noResp _ => .ite (fun _ => ?_) fun _ => ?_
          · exact K.check fun _ => ⟨hr.1, hr.2.1, hm⟩
          · refine K.lifted fun pkt _ => ⟨K.forward m _ hr.1, hr.2.1, ?_, ?_⟩
            · rw [(setForward_queues m _ m.queue).1]
              exact hm.1
            · exact due_setForward m _ hm.2
      · refine ⟨hx.1, hx.2.1, fun m' hm' => ?_⟩
        cases hm'
        exact hx.2.2
  refine hpkt.bind fun r hr => ?_
  obtain ⟨next, s₁⟩ := r
  have her : s₁.memSidePort.out.sendEvent = none := hr.2.1 ▸ he
  cases next with
  | none => exact ⟨K.idle _ hr.1 her, her⟩
  | some x =>
    obtain ⟨m, pkt⟩ := x
    have hmr := hr.2.2 m rfl
    refine .ite (fun _ => ?_) fun _ => ⟨K.wait hr.1 her hmr.2, her⟩
    refine (K.sent w.downstream (K.idle _ hr.1 her) her rfl hmr.1).with_eq.mono fun s' hs' => ⟨hs'.1, ?_⟩
    obtain ⟨q, -, b, port, rfl, -⟩ := markInServiceInternal_eq_ok hs'.2
    unfold setDownstream
    split <;> exact her

theorem rescheduled (w : World) :
    Yields safe I (s.reschedule p w) := by
  by_cases hw : s.memSidePort.out.waitingOnRetry
  · unfold TimingCache.reschedule
    rw [if_pos hw]
    exact h
  · exact K.reschedule w h he (eq_false_iff.2 hw)

/-- A send by the memory side. -/
theorem sendPacket
    (hdue : p.prefetcher = false → safe .nullPrefetcher ∨ s.Due s.curTick ∨ s.mshrQueue.isFull) (w : World) :
    Yields safe I (s.sendPacket p w) := by
  refine .ite (fun hd => ?_) fun hd => ?_
  · refine K.rescheduled (s := s.sendResponse w) ?_ he w
    have hd := SimpleTimingPort.deferredPacketReady_iff.1 hd
    unfold sendResponse
    cases w.accepted with
    | true => exact K.idle _ h he
    | false => exact K.wait h he (.inl hd)
  · rw [SimpleTimingPort.deferredPacketReady_iff] at hd
    exact (K.sendRequest h he hd hdue w).bind fun s' hs' => K.rescheduled hs'.1 hs'.2 w

end

/-! ### Operations -/

/-- An operation keeps what its parts keep. -/
theorem handle {a : Act} (ha : a.Allowed s) (hD : D s a) (w : World) : Yields safe I (s.handle p w a) := by
  cases a with
  | cpuRecvTiming pkt up =>
    refine .ite (fun hr => K.refused h ?_) fun hr => K.timingAccess h (eq_false_iff.2 hr) w up
    exact (and_eq_true_iff.1 hr).2
  | memRecvTiming pkt m up t t' =>
    refine .ite (fun _ => K.fault _) fun _ => .ite (fun hb => ?_) fun _ => .ite (fun hr => ?_) fun hr => ?_
    · exact K.memRefused h (and_eq_true_iff.1 hb).2
    · obtain ⟨hm, hs, hp⟩ := ha hr
      exact K.handleResponse h hD hr hm hs hp w
    · exact K.snoopTiming h hD (eq_false_iff.2 hr) w
  | memSendEvent =>
    have hdue : p.prefetcher = false → safe .nullPrefetcher ∨ s.Due s.curTick ∨ s.mshrQueue.isFull :=
      K.due hD (.inl rfl)
    exact K.check fun _ => K.sendPacket (K.fired h) rfl hdue w
  | memRetry =>
    exact K.check fun hw => K.sendPacket h (K.waiting h hw) (K.due hD (.inr ⟨rfl, hw⟩)) w
  | cpuSendEvent =>
    exact K.lifted fun out ho => K.cpuOut h fun _ => .processSendEvent ho
  | cpuRetry => exact K.lifted fun out ho => K.cpuOut h fun hok => hok.recvRetry ho
  | clearDownstreamPending m => exact K.lifted fun mshr hm => K.clearDownstream h ha.1 hm
  | advance t => exact K.advance h ha.1 ha.2.1 ha.2.2

end

end Keeps

end TimingCache

end M5.Mem
