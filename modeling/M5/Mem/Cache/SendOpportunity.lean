import M5.Mem.Cache.Blocked

/-!
# Sending without a prefetcher

`Cache::getNextMSHR` asks the prefetcher when no request is ready, also in a cache that has none. A cache without a
prefetcher is safe as long as every opportunity to send finds something to send.
-/

namespace M5.Mem.TimingCache

open M5.Lib Function List Nat

variable {T : TagStore} {p : TimingParams} {s₀ s s' : TimingCache T} {a : Act} {k : QueueIndex} {q q' : MSHRQueue}
  {t : Tick}

/-- A request of the queue can be sent at time `t`. -/
def Pending (q : MSHRQueue) (t : Tick) : Prop :=
  ∃ i ∈ q.entries, (q.registers i).mshr.inService = false ∧ (q.registers i).mshr.readyTime ≤ t

/-- Something is due at the time of a send event, and now if a packet waits for a retry. -/
structure OnTime (s : TimingCache T) : Prop where
  waiting : s.memSidePort.out.waitingOnRetry → s.Due s.curTick
  event : ∀ t, s.memSidePort.out.sendEvent = some t → s.Due t

/-- A snoop that discards a writeback, or the response to a request with deferred targets. -/
def Act.Risky (s : TimingCache T) (a : Act) : Prop :=
  a.Discards s ∨ ∃ pkt m up t t', a = .memRecvTiming pkt m up t t' ∧ pkt.isResponse ∧
    (s.mshr m).deferredTargets.list ≠ []

/-! ## What is due stays due -/

theorem pending_iff (h : q.Sane) : Pending q t ↔ ∃ n ∈ q.readyList, q.readyTime n ≤ t := by
  constructor
  · rintro ⟨i, hi, hs, ht⟩
    obtain ⟨n, hn, rfl⟩ := mem_map.1 (h.consistent.mem_ready.2 ⟨hi, hs⟩)
    exact ⟨n, hn, ht⟩
  · rintro ⟨n, hn, ht⟩
    obtain ⟨hi, hs⟩ := h.consistent.mem_ready.1 (mem_map_of_mem hn)
    exact ⟨n.val, hi, hs, ht⟩

theorem Due.later {t' : Tick} (h : s.Due t) (ht : t ≤ t') : s.Due t' := by
  rcases h with ⟨d, hd, hle⟩ | ⟨k, n, hn, hle⟩
  · exact .inl ⟨d, hd, hle.trans ht⟩
  · exact .inr ⟨k, n, hn, hle.trans ht⟩

theorem Due.replace (h : s.Due t) (hi : s.Inv) (hi' : s'.Inv) (hq : s'.queues = update s.queues k q)
    (hp : Pending (s.queues k) t → Pending q t) (ho : s.memSidePort.out.Due t → s'.memSidePort.out.Due t) :
    s'.Due t := by
  rcases h with h | ⟨k', h⟩
  · exact .inl (ho h)
  · refine .inr ⟨k', (pending_iff (hi'.sane k')).1 ?_⟩
    have h := (pending_iff (hi.sane k')).2 h
    rw [hq]
    by_cases hqi : k' = k
    · subst hqi
      rw [update_self]
      exact hp h
    · rw [update_of_ne hqi]
      exact h

theorem OnTime.of_due (h : s.OnTime) (hc : s'.curTick = s.curTick) (hd : ∀ t, s.Due t → s'.Due t)
    (hw : s'.memSidePort.out.waitingOnRetry = s.memSidePort.out.waitingOnRetry)
    (he : ∀ t, s'.memSidePort.out.sendEvent = some t → s.memSidePort.out.sendEvent = some t ∨ s'.Due t) :
    s'.OnTime where
  waiting hwait := hc ▸ hd _ (h.waiting (hw ▸ hwait))
  event t ht := (he t ht).elim (fun ht => hd t (h.event t ht)) id

theorem OnTime.replace (h : s.OnTime) (hi : s.Inv) (hi' : s'.Inv) (hc : s'.curTick = s.curTick)
    (hm : s'.memSidePort = s.memSidePort) (hq : s'.queues = update s.queues k q)
    (hp : ∀ t, Pending (s.queues k) t → Pending q t) : s'.OnTime :=
  h.of_due hc (fun t hd => hd.replace hi hi' hq (hp t) (hm ▸ id)) (hm ▸ rfl) (hm ▸ fun _ => .inl)

theorem Pending.congr (h : Pending q t) (he : q'.entries = q.entries)
    (hs : ∀ i, (q'.registers i).mshr.inService = (q.registers i).mshr.inService)
    (hr : ∀ i, (q'.registers i).mshr.readyTime = (q.registers i).mshr.readyTime) : Pending q' t := by
  obtain ⟨i, hi, hserv, ht⟩ := h
  refine ⟨i, he ▸ hi, (hs i).trans hserv, ?_⟩
  rw [hr i]
  exact ht

theorem Pending.setMSHR (h : Pending q t) {i : Nat} {m : MSHR} (hs : m.inService = (q.registers i).mshr.inService)
    (hr : m.readyTime = (q.registers i).mshr.readyTime) : Pending (q.setMSHR i m) t := by
  refine h.congr rfl (fun j => ?_) fun j => ?_ <;> by_cases hj : j = i
  · rw [hj, MSHRQueue.setMSHR_self, hs]
  · rw [MSHRQueue.setMSHR_of_ne m hj]
  · rw [hj, MSHRQueue.setMSHR_self, hr]
  · rw [MSHRQueue.setMSHR_of_ne m hj]

theorem Pending.allocate (h : Pending q t) (hq : q.Sane) {addr : Addr} {size : Nat} {pkt : Packet} {up : Option Nat}
    {time order i : Nat} (hok : q.allocate addr size pkt up time order = .ok (i, q')) : Pending q' t := by
  obtain ⟨ht, hf, he, -⟩ := MSHRQueue.allocate_eq_ok hok
  obtain ⟨j, hj, hs, hr⟩ := h
  have hji : j ≠ i := by
    rintro rfl
    refine hq.not_free hj ?_
    rw [hf]
    exact mem_cons_self
  refine ⟨j, ?_, ?_, ?_⟩
  · rw [he]
    exact mem_append_left _ hj
  · rw [ht.others j hji]
    exact hs
  · rw [ht.others j hji]
    exact hr

theorem Pending.deallocate (h : Pending q t) (hq : q.Sane) (hq' : q'.Sane) {i : Nat} {m : MSHR}
    (hs : (q.registers i).mshr.inService) (hok : (q.setMSHR i m).deallocate i = .ok q') : Pending q' t := by
  obtain ⟨ht, hf, -⟩ := MSHRQueue.deallocate_eq_ok hok
  replace ht := (MSHRQueue.Touches.setMSHR q i m).trans ht
  obtain ⟨j, hj, hserv, hr⟩ := h
  have hji : j ≠ i := by
    rintro rfl
    cases hserv.symm.trans hs
  refine ⟨j, ?_, ?_, ?_⟩
  · have hlt : j ∈ range q.numEntries := hq.consistent.partition.mem_iff.1 (mem_append_right _ hj)
    rw [← ht.numEntries, ← hq'.consistent.partition.mem_iff, hf] at hlt
    rcases mem_append.1 hlt with hfree | hmem
    · rcases mem_cons.1 hfree with hji' | hfree
      · exact absurd hji' hji
      · exact absurd hfree (hq.not_free hj)
    · exact hmem
  · rw [ht.others j hji]
    exact hserv
  · rw [ht.others j hji]
    exact hr

/-! ## The parts of an operation -/

theorem earlier_eq_some {x y : Option Tick} (h : earlier x y = some t) : x = some t ∨ y = some t := by
  match x, y with
  | none, _ => exact .inr h
  | some _, none => exact .inl h
  | some t₁, some t₂ =>
    rcases le_total t₁ t₂ with hle | hle
    · exact .inl (min_eq_left hle ▸ h)
    · exact .inr (min_eq_right hle ▸ h)

theorem due_of_nextMSHRReadyTime (h : (s.queues k).nextMSHRReadyTime = some t) : s.Due t := by
  obtain ⟨n, hn, ht⟩ := Option.map_eq_some_iff.1 h
  exact .inr ⟨k, n, mem_of_mem_head? hn, le_of_eq ht⟩

theorem OnTime.request (h : s.OnTime) (hd : s.Due t) (hok : s.requestMemSideBus t = .ok s') : s'.OnTime := by
  obtain ⟨out, rfl, rfl | ⟨-, hout⟩⟩ := requestMemSideBus_eq_ok hok
  · exact ⟨h.waiting, h.event⟩
  · obtain ⟨rfl, -⟩ := SimpleTimingPort.schedSendEvent_eq_ok hout
    refine ⟨h.waiting, fun t' ht' => ?_⟩
    unfold SimpleTimingPort.earliest at ht'
    split at ht'
    · exact h.event t' ht'
    · split at ht'
      · cases ht'
        exact hd
      · next t₁ he =>
        cases ht'
        rcases le_total t₁ t with hle | hle
        · rw [min_eq_left hle]
          exact h.event t₁ he
        · rw [min_eq_right hle]
          exact hd

theorem OnTime.reschedule {w : World} (h : s.OnTime) (hp : p.prefetcher = false) (hok : s.reschedule p w = .ok s') :
    s'.OnTime := by
  obtain ⟨out, rfl, rfl | ⟨t, ht, rfl⟩⟩ := reschedule_eq_ok hok
  · exact ⟨h.waiting, h.event⟩
  · refine ⟨h.waiting, fun t' ht' => ?_⟩
    cases ht'
    have hd : s.Due t := by
      rcases earlier_eq_some ht with ht | ht
      · obtain ⟨d, hd, hdt⟩ := Option.map_eq_some_iff.1 ht
        exact .inl ⟨d, hd, le_of_eq hdt⟩
      · unfold nextMSHRReadyTime at ht
        rw [hp] at ht
        exact (earlier_eq_some ht).elim due_of_nextMSHRReadyTime due_of_nextMSHRReadyTime
    exact .later hd (le_max_left _ _)

theorem OnTime.answer {m : MSHRPtr} {s₁ : TimingCache T} {v : Served T} {r : Reply} (h : s.OnTime) (hi : s.Inv)
    (hi' : s'.Inv) (hs : (s.mshr m).inService) (hd : (s.mshr m).downstreamPending = false)
    (hn : (s.mshr m).deferredTargets.list = []) (h₁ : s.releaseTargets m = .ok s₁)
    (hmem : s.memSidePort.out.Responds s.curTick v.mem) (hans : (s.mshr m).Answered v.mshr)
    (hok : (s₁.putServed m v).finishMSHR m (s.queues m.queue).isFull r = .ok s') : s'.OnTime := by
  obtain ⟨b, port, n, rfl, -⟩ := releaseTargets_eq_ok h₁
  obtain ⟨again, mshr, q, hx, hok⟩ := finishMSHR_spec.of_eq hok
  have hdef := (hans.emptied ((hi.sane m.queue).inv m.idx) ((hi.sane m.queue).sources m.idx) hs hd).2
  rw [hn, or_self] at hdef
  obtain ⟨-, ⟨rfl, -, -⟩ | ⟨-, t, rest, hne, -⟩⟩ := MSHR.promoteDeferredTargets_eq_ok hx
  · obtain ⟨hq, b', port', rfl, -⟩ := hok
    have hself : update s.queues m.queue q m.queue = q := update_self _ _ _
    have hq' : q.Sane := hself ▸ hi'.sane m.queue
    exact h.of_due rfl (fun t hd => hd.replace hi hi' rfl
      (fun hp => hp.deallocate (hi.sane m.queue) hq' hs hq) (hmem.due t)) hmem.waiting fun t ht =>
        (hmem.event t ht).imp_right .inl
  · rw [hdef] at hne
    cases hne

/-- The parts of an operation keep `OnTime`, but for a snoop that discards a writeback and for a response after which
deferred targets get their turn. -/
theorem Part.onTime (h : Part p s₀ a s s') (hi : s.Inv) (hi' : s'.Inv) (hp : p.prefetcher = false) (hr : ¬ a.Risky s₀)
    (ho : s.OnTime) : s'.OnTime := by
  cases h with
  | cache | cpuOut | refused | memRefused => exact ⟨ho.waiting, ho.event⟩
  | memOut hout =>
    refine ho.of_due rfl (fun t hd => ?_) hout.waiting fun t ht => (hout.event t ht).imp_right .inl
    exact hd.imp_left (hout.due t)
  | @allocate k _ _ _ _ _ _ q _ hq hb =>
    obtain ⟨b, port, rfl, -⟩ := hb
    exact ho.replace hi hi' rfl rfl rfl fun t hp => hp.allocate (hi.sane k) hq
  | request hd h =>
    rcases hd with hd | hd
    · cases hp.symm.trans hd
    · exact ho.request hd h
  | target _ _ h =>
    obtain ⟨m, b, port, n, hm, rfl, -⟩ := accessTarget_eq_ok h
    have hsame := MSHRQueue.allocateTarget_same hm
    exact ho.replace hi hi' rfl rfl rfl fun t hp => hp.setMSHR hsame.1 hsame.2
  | @snooped pkt m up _ _ i _ _ _ _ =>
    have hsame := MSHRQueue.handleSnoop_same (s.mshr ⟨.MSHRs, i⟩) pkt up s.curTick s.order
    exact ho.replace hi hi' rfl rfl rfl fun t hp => hp.setMSHR hsame.1 hsame.2.1
  | mark _ hw h =>
    obtain ⟨q, -, b, port, rfl, -⟩ := markInServiceInternal_eq_ok h
    rcases hw with hw | ⟨he, hw⟩
    · exact absurd (.inl hw) hr
    · refine ⟨fun hwait => ?_, fun t ht => ?_⟩
      · cases hw.symm.trans hwait
      · cases he.symm.trans ht
  | @answer pkt m up t t' s₁ s' ls v r ha hresp hm hs hd h₁ hrun hcalls hmem hans h =>
    obtain ⟨rfl, rfl⟩ := ha
    have hn : (s.mshr m).deferredTargets.list = [] := by
      by_contra hne
      exact hr (.inr ⟨pkt, m, up, t, t', rfl, hresp, hne⟩)
    exact ho.answer hi hi' hs hd hn h₁ hmem hans h
  | fired => exact ⟨ho.waiting, nofun⟩
  | idle _ he => exact ⟨nofun, fun t ht => by cases he.symm.trans ht⟩
  | wait he hd => exact ⟨fun _ => hd, fun t ht => by cases he.symm.trans ht⟩
  | forward m b => exact ho.of_due rfl (fun t => due_setForward m b) rfl fun _ => .inl
  | @downstream m _ _ _ => exact ho.replace hi hi' rfl rfl rfl fun t hp => hp.setMSHR rfl rfl
  | reschedule _ _ h => exact ho.reschedule hp h
  | advance ht _ => exact ⟨fun hw => (ho.waiting hw).later ht, ho.event⟩

/-! ## Runs -/

/-- A step; if it is a risky one, something is still due at every opportunity to send after it. -/
def SendsOnTime (p : TimingParams) (s : TimingCache T) (a : World × Act) (s' : TimingCache T) : Prop :=
  Step p s a s' ∧ (a.2.Risky s → s'.OnTime)

theorem onTime_of_run {order : Nat} {curTick : Tick} {as : List (World × Act)} (hp : p.prefetcher = false)
    (run : Run (SendsOnTime p) (init T p order curTick) as s) : s.Inv ∧ s.OnTime := by
  refine run.invariant (I := fun x => x.Inv ∧ x.OnTime) ⟨.init T p order curTick, nofun, nofun⟩ fun {x a y} hx hs => ?_
  have hr := reach_of_step hx.1 hs.1
  refine ⟨hr.inv, ?_⟩
  by_cases hrisk : a.2.Risky x
  · exact hs.2 hrisk
  · exact hr.invariant hx.2 fun hi hi' hpart => hpart.onTime hi hi' hp hrisk

theorem Act.Sends.due (h : a.Sends s) (ha : a.Allowed s) (ho : s.OnTime) : s.Due s.curTick := by
  rcases h with rfl | ⟨rfl, hw⟩
  · exact ho.event _ ha
  · exact ho.waiting hw

theorem sendPacket_eq_error (hp : p.prefetcher = false) (hd : ¬ s.Due s.curTick) (hf : s.mshrQueue.isFull = false)
    (w : World) : s.sendPacket p w = .error .nullPrefetcher := by
  have hport : ¬ s.memSidePort.out.deferredPacketReady s.curTick :=
    fun h => hd (.inl (SimpleTimingPort.deferredPacketReady_iff.1 h))
  have hnone : ∀ k, (s.queues k).getNextMSHR s.curTick = none := by
    intro k
    by_contra hne
    obtain ⟨i, hi⟩ := Option.ne_none_iff_exists'.1 hne
    obtain ⟨n, hn, -, ht⟩ := getNextMSHR_eq_some hi
    exact hd (.inr ⟨k, n, hn, ht⟩)
  have hnext : s.getNextMSHR p w = .error .nullPrefetcher := by
    unfold getNextMSHR mshrQueue writeBuffer
    rw [hnone, hnone]
    rw [tryPrefetch, if_neg (Bool.eq_false_iff.1 hf), hp]
    rfl
  rw [sendPacket, if_neg hport, sendRequest, getTimingPacket, hnext]
  rfl

theorem handle_nullPrefetcher_iff (hi : s.Inv) (hp : p.prefetcher = false) (ha : a.Allowed s) (w : World) :
    s.handle p w a = .error .nullPrefetcher ↔ a.Sends s ∧ ¬ s.Due s.curTick ∧ s.mshrQueue.isFull = false := by
  constructor
  · exact (handle_yields hi ha w).error
  · rintro ⟨rfl | ⟨rfl, hw⟩, hd, hf⟩
    · have hw : ¬ s.memSidePort.out.waitingOnRetry := by
        intro hw
        cases (hi.mem.waiting hw).symm.trans ha
      rw [handle, processSendEvent, ensure_bind hw]
      exact sendPacket_eq_error (s := s.setMemOut { s.memSidePort.out with sendEvent := none }) hp hd hf w
    · rw [handle, recvRetry, ensure_bind hw]
      exact sendPacket_eq_error hp hd hf w

/-- A cache without a prefetcher does not use it in a run in which something is still due at every opportunity to send
after a snoop that discards a writeback and after a response to a request with deferred targets. In any run, an
operation uses it exactly when it is to send, nothing is due, and an MSHR is free for a prefetch. -/
theorem prefetcher_unused {order : Nat} {curTick : Tick} (hp : p.prefetcher = false) :
    (∀ as (s : TimingCache T), Run (SendsOnTime p) (init T p order curTick) as s →
      ∀ w a, a.Allowed s → s.handle p w a ≠ .error .nullPrefetcher) ∧
    ∀ as (s : TimingCache T), Run (Step p) (init T p order curTick) as s → ∀ w a, a.Allowed s →
      (s.handle p w a = .error .nullPrefetcher ↔
        a.Sends s ∧ ¬ s.Due s.curTick ∧ s.mshrQueue.isFull = false) := by
  refine ⟨fun as s run w a ha he => ?_, fun as s run w a ha => handle_nullPrefetcher_iff ?_ hp ha w⟩
  · obtain ⟨hi, ho⟩ := onTime_of_run hp run
    obtain ⟨hs, hd, -⟩ := (handle_nullPrefetcher_iff hi hp ha w).1 he
    exact hd (hs.due ha ho)
  · exact run.invariant (.init T p order curTick) fun h hs => (reach_of_step h hs).inv

/-- A miss is sent on at the time of its event. -/
theorem prefetcher_unused_miss : ∃ s, Run (SendsOnTime (plain 4 20)) (init (LRU oneFrame) (plain 4 20) 0 0)
      [({}, .cpuRecvTiming { cmd := .ReadReq, addr := 0, size := 8 } none), ({}, .advance 10)] s ∧
    Act.Allowed s .memSendEvent ∧ s.handle (plain 4 20) {} .memSendEvent ≠ .error .nullPrefetcher := by
  obtain ⟨s, run, hs⟩ := Run.exists_of_check (exec (plain 4 20)) of_ensure (init (LRU oneFrame) (plain 4 20) 0 0)
    [({}, .cpuRecvTiming { cmd := .ReadReq, addr := 0, size := 8 } none), ({}, .advance 10)]
    (fun s => Act.Allowed s .memSendEvent) (by decide +kernel)
  have hsafe := run.restrict (P := fun a => ∀ s : TimingCache (LRU oneFrame), ¬ a.2.Risky s) (by
    simp [Act.Risky, Act.Discards])
  have run' : Run (SendsOnTime (plain 4 20)) _ _ s := hsafe.mono fun hs => ⟨hs.2, fun hr => absurd hr (hs.1 _)⟩
  exact ⟨s, run', hs, (prefetcher_unused rfl).1 _ _ run' {} _ hs⟩

/-- A block is written and then replaced by another one, and the bus refuses its writeback; before the retry, a snoop
for the block discards the writeback. -/
def refusedWriteback : List (World × Act) :=
  [({}, .cpuRecvTiming { cmd := .WriteReq, addr := 0, size := 8 } none), ({}, .advance 10), ({}, .memSendEvent),
    ({}, .memRecvTiming { cmd := .ReadExResp, addr := 0, size := 8 } ⟨.MSHRs, 0⟩ none 11 11),
    ({}, .cpuRecvTiming { cmd := .ReadReq, addr := 8, size := 8 } none), ({}, .advance 20), ({}, .memSendEvent),
    ({}, .memRecvTiming { cmd := .ReadResp, addr := 8, size := 8 } ⟨.MSHRs, 0⟩ none 21 21),
    ({}, .advance 21), ({}, .cpuSendEvent), ({}, .advance 30), ({ accepted := false }, .memSendEvent),
    ({}, .memRecvTiming { cmd := .ReadExReq, addr := 0, size := 8 } ⟨.MSHRs, 0⟩ none 30 30)]

theorem nullPrefetcher_refusedWriteback :
    ∃ s, Run (Step (plain 4 20)) (init (LRU oneFrame) (plain 4 20) 0 0) refusedWriteback s ∧
      s.handle (plain 4 20) {} .memRetry = .error .nullPrefetcher := by
  exact Run.exists_of_check (exec (plain 4 20)) of_ensure _ _ _ (by decide +kernel)

end M5.Mem.TimingCache
