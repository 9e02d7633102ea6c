import M5.Mem.Cache.Blocked

/-!
# The number of targets of an MSHR

A request that misses on a block with an MSHR becomes one of its targets, and the cache blocks when the counter of the
MSHR is then `numTarget`. Snoops that are deferred move the same counter. As long as none of them brings it to the
limit, no MSHR has more than `numTarget` targets from the CPU side.
-/

namespace M5.Mem

open M5.Lib Function List Nat

namespace MSHR

variable {m m' : MSHR}

def cpuTargets (m : MSHR) : Nat := ((m.targets.list ++ m.deferredTargets.list).map Target.source).count .FromCPU

theorem cpuTargets_le (m : MSHR) : m.cpuTargets ≤ m.total := by
  refine count_le_length.trans ?_
  rw [length_map, length_append, total]

theorem TargetList.sources_replaceUpgrades (l : TargetList) :
    l.replaceUpgrades.list.map Target.source = l.list.map Target.source := by
  unfold replaceUpgrades
  split
  · rfl
  · rw [map_map]
    refine map_congr_left fun t _ => ?_
    show (if t.pkt.cmd = .UpgradeReq then { t with pkt := { t.pkt with cmd := .ReadExReq } } else t).source = t.source
    split <;> rfl

theorem allocateTarget_total {pkt : Packet} {up : Option Nat} {whenReady order : Nat}
    (h : m.allocateTarget pkt up whenReady order = .ok m') : m'.total = m.total + 1 := by
  obtain ⟨-, h⟩ := of_ensure h
  split at h <;> rw [← Except.ok.inj h] <;>
    simp only [total, addTarget, incTargets, TargetList.list_add, length_append, length_singleton]
  · exact (add_assoc _ _ _).symm
  · exact add_right_comm _ _ _

theorem handleSnoop_targets (m : MSHR) (pkt : Packet) (up : Option Nat) (curTick order : Nat) :
    (m.handleSnoop pkt up curTick order).2.2.cpuTargets = m.cpuTargets ∧
      (m.handleSnoop pkt up curTick order).2.2.deferredTargets.list.length = m.deferredTargets.list.length ∧
      (m.handleSnoop pkt up curTick order).2.2.total ≤ m.total + 1 := by
  refine handleSnoop_rule (P := fun n => n.cpuTargets = m.cpuTargets ∧
    n.deferredTargets.list.length = m.deferredTargets.list.length ∧ n.total = m.total) (Q := fun n =>
    n.cpuTargets = m.cpuTargets ∧ n.deferredTargets.list.length = m.deferredTargets.list.length ∧ n.total ≤ m.total + 1)
    ⟨rfl, rfl, rfl⟩ (fun h => ?_) (fun h => ?_) (fun h => ?_) (fun h => ?_) (fun {n t} inv h hs => ?_) ..
  · simpa only [cpuTargets, total, map_append, TargetList.sources_replaceUpgrades, TargetList.length_replaceUpgrades]
      using h
  · simpa only [cpuTargets, total, map_append, TargetList.sources_replaceUpgrades, TargetList.length_replaceUpgrades]
      using h
  · exact ⟨h.1, h.2.1, le_succ_of_le (le_of_eq h.2.2)⟩
  · exact ⟨h.1, h.2.1, le_succ_of_le (le_of_eq h.2.2)⟩
  · obtain ⟨hc, hd, ht⟩ := h
    refine ⟨hc ▸ ?_, hd, ?_⟩
    · simp only [cpuTargets, addTarget, incTargets, TargetList.list_add, map_append, count_append, map_cons, map_nil,
        hs]
      rfl
    · rw [← ht]
      simp only [total, addTarget, incTargets, TargetList.list_add, length_append, length_singleton]
      omega

/-- A snoop that becomes a target. -/
def Defers (m : MSHR) (pkt : Packet) : Bool :=
  m.inService && !(pkt.expressSnoop && m.downstreamPending) && !m.pendingInvalidate &&
    (m.targets.needsExclusive || pkt.needsExclusive)

theorem handleSnoop_total {pkt : Packet} (h : m.Defers pkt = false) (up : Option Nat) (curTick order : Nat) :
    (m.handleSnoop pkt up curTick order).2.2.total = m.total := by
  by_cases hs : (!m.inService || pkt.expressSnoop && m.downstreamPending) = true
  · rw [handleSnoop, if_pos hs]
    dsimp only
    split <;> simp [total]
  · rw [handleSnoop, if_neg hs]
    cases hp : m.pendingInvalidate with
    | true => cases hx : pkt.needsExclusive <;> simp [total, hp]
    | false =>
      obtain ⟨hin, hdown⟩ := Bool.or_eq_false_iff.1 (Bool.eq_false_iff.2 hs)
      have hin : m.inService = true := by simpa using hin
      rw [Defers, hin, hdown, hp] at h
      obtain ⟨ht, hx⟩ := Bool.or_eq_false_iff.1 (show (m.targets.needsExclusive || pkt.needsExclusive) = false from h)
      simp [total, hp, ht, hx]

/-- The targets of an MSHR with the limit `N`; `full` says that the cache is blocked for want of targets of this
MSHR. -/
structure Fits (N : Nat) (full : Prop) (m : MSHR) : Prop where
  ofFull : full → m.cpuTargets ≤ N ∧ m.deferredTargets.list.length < N
  ofNot : ¬ full → m.total < N

variable {N : Nat} {full : Prop}

theorem Fits.of_total (h : m.total < N) : Fits N full m :=
  ⟨fun _ => ⟨(cpuTargets_le m).trans h.le, lt_of_le_of_lt (le_add_left _ _) h⟩, fun _ => h⟩

theorem Fits.cpu (h : Fits N full m) : m.cpuTargets ≤ N := by
  by_cases hf : full
  · exact (h.ofFull hf).1
  · exact (cpuTargets_le m).trans (h.ofNot hf).le

theorem Fits.deferred (h : Fits N full m) : m.deferredTargets.list.length < N := by
  by_cases hf : full
  · exact (h.ofFull hf).2
  · exact lt_of_le_of_lt (le_add_left _ _) (h.ofNot hf)

theorem Fits.congr (h : Fits N full m) (ht : m'.targets.list = m.targets.list)
    (hd : m'.deferredTargets.list = m.deferredTargets.list) : Fits N full m' := by
  obtain ⟨hf, hn⟩ := h
  unfold cpuTargets total at *
  rw [← ht, ← hd] at hf hn
  exact ⟨hf, hn⟩

end MSHR

theorem MSHRQueue.Sane.total_of_free {q : MSHRQueue} (h : q.Sane) {i : Nat} (hi : i ∈ q.freeList) :
    (q.registers i).mshr.total = 0 := by
  obtain ⟨ht, -, hd⟩ := (h.inv i).free (h.free i hi)
  rw [MSHR.total, ht, hd]
  rfl

namespace TimingCache

variable {T : TagStore} {p : TimingParams} {s₀ s s' : TimingCache T} {a : Act} {k : QueueIndex} {q : MSHRQueue}

/-- The cache is blocked for want of targets of this MSHR. -/
def NoRoom (s : TimingCache T) (m : MSHRPtr) : Prop := m.queue = .MSHRs ∧ s.noTargetMSHR = some m.idx

/-- The limit, with the MSHR for which the cache is blocked set apart. -/
def Limited (N : Nat) (s : TimingCache T) : Prop := ∀ m, (s.mshr m).Fits N (s.NoRoom m)

/-- A snoop that becomes a target finds room for another one, unless the cache is blocked for the targets of the
MSHR. -/
def Act.LeavesRoom (p : TimingParams) (s : TimingCache T) (a : Act) : Prop :=
  ∀ pkt m up t t' i, a = .memRecvTiming pkt m up t t' → pkt.isResponse = false →
    (pkt.req.isUncacheable || pkt.cmd = .Writeback) = false →
    s.mshrQueue.findMatch (T.blkAlign pkt.addr) = some i → s.noTargetMSHR ≠ some i →
    (s.mshr ⟨.MSHRs, i⟩).Defers pkt → (s.mshr ⟨.MSHRs, i⟩).ntargets + 1 < p.numTarget

theorem mshr_update (hq : s'.queues = update s.queues k q) {i : Nat} (ht : MSHRQueue.Touches i (s.queues k) q) :
    s'.mshr ⟨k, i⟩ = (q.registers i).mshr ∧ ∀ m, m ≠ ⟨k, i⟩ → s'.mshr m = s.mshr m := by
  unfold mshr entry
  rw [hq]
  refine ⟨by rw [update_self], fun m hm => ?_⟩
  by_cases hqi : m.queue = k
  · subst hqi
    rw [update_self, ht.others]
    rintro rfl
    exact hm rfl
  · rw [update_of_ne hqi]

theorem Limited.replace {N : Nat} (h : s.Limited N) (hn : s'.noTargetMSHR = s.noTargetMSHR)
    (hq : s'.queues = update s.queues k q) {i : Nat} (ht : MSHRQueue.Touches i (s.queues k) q)
    (hi : MSHR.Fits N (s.NoRoom ⟨k, i⟩) (q.registers i).mshr) : s'.Limited N := by
  obtain ⟨hself, hother⟩ := mshr_update hq ht
  intro m
  unfold NoRoom at *
  rw [hn]
  by_cases hm : m = ⟨k, i⟩
  · subst hm
    rw [hself]
    exact hi
  · rw [hother m hm]
    exact h m

theorem Limited.target {i : Nat} {pkt : Packet} {up : Option Nat} {time : Tick} (h : s.Limited p.numTarget) (hi : s.Inv)
    (hi' : s'.Inv) (hN : p.numTarget < 2 ^ 16) (hb : s.cpuSidePort.blocked = false) (hmem : i ∈ s.mshrQueue.entries)
    (hok : s.accessTarget p i pkt up time = .ok s') : s'.Limited p.numTarget := by
  have hnone : s.noTargetMSHR = none := by
    have hbit : s.blocked .NoTargets = false := by
      rw [Bool.eq_false_iff]
      intro hbit
      cases hb.symm.trans (hi.port.trans (isBlocked_iff.2 ⟨_, hbit⟩))
    rw [hi.targets] at hbit
    exact Option.isSome_eq_false_iff.1 hbit |> Option.isNone_iff_eq_none.1
  obtain ⟨m, b, port, n, hm, rfl, -, hn⟩ := accessTarget_eq_ok hok
  have hq : queues { s.setMSHR ⟨.MSHRs, i⟩ m with
      order := s.order + 1, blocked := b, cpuSidePort := port, noTargetMSHR := n } =
      update s.queues .MSHRs (s.mshrQueue.setMSHR i m) := rfl
  obtain ⟨hself, hother⟩ := mshr_update hq (.setMSHR _ i m)
  rw [MSHRQueue.setMSHR_self] at hself
  have hroom : ∀ m', (s.mshr m').total < p.numTarget := by
    refine fun m' => (h m').ofNot fun hfull => ?_
    cases hnone.symm.trans hfull.2
  intro m'
  by_cases hm' : m' = ⟨.MSHRs, i⟩
  · subst hm'
    rw [hself]
    have hinv : m.Inv := hself ▸ (hi'.sane .MSHRs).inv i
    have hph : m.phase = .busy := hself ▸ (hi'.sane .MSHRs).busy i (show i ∈ MSHRQueue.entries _ by
      exact hmem)
    have hlen := length_pos_of_ne_nil (hinv.busy hph)
    have htot : m.total = (s.mshr ⟨.MSHRs, i⟩).total + 1 := MSHR.allocateTarget_total hm
    have hlt := hroom ⟨.MSHRs, i⟩
    refine ⟨fun _ => ⟨(MSHR.cpuTargets_le m).trans (by omega), ?_⟩, fun hfull => ?_⟩
    · unfold MSHR.total at htot hlt
      omega
    · -- the counter is not at the limit
      have hcount := hinv.count
      have hne : m.ntargets ≠ p.numTarget := fun he => hfull ⟨rfl, by rw [hn, if_pos he]⟩
      omega
  · rw [hother m' hm']
    exact .of_total (hroom m')

theorem Limited.answer {N : Nat} {m : MSHRPtr} {s₁ : TimingCache T} {v : Served T} {r : Reply} (h : s.Limited N)
    (hi : s.Inv) (hi' : s'.Inv) (hN : 0 < N) (hs : (s.mshr m).inService)
    (hd : (s.mshr m).downstreamPending = false) (h₁ : s.releaseTargets m = .ok s₁)
    (hans : (s.mshr m).Answered v.mshr)
    (hok : (s₁.putServed m v).finishMSHR m (s.queues m.queue).isFull r = .ok s') : s'.Limited N := by
  obtain ⟨b, port, n, rfl, -, hn⟩ := releaseTargets_eq_ok h₁
  obtain ⟨again, mshr, q, hx, hok⟩ := finishMSHR_spec.of_eq hok
  obtain ⟨ht, hcase⟩ := MSHR.promoteDeferredTargets_eq_ok hx
  -- the queue, and the number of targets that are left
  have hq : s'.queues = update s.queues m.queue q ∧ s'.noTargetMSHR = n ∧
      MSHRQueue.Touches m.idx (s.queues m.queue) q ∧ (q.registers m.idx).mshr.total < N := by
    cases again with
    | true =>
      obtain ⟨hq, c, -, hok⟩ := hok
      obtain ⟨out, rfl, -⟩ := requestMemSideBus_eq_ok hok
      obtain ⟨htouch, -, -, -, -, -, hmshr⟩ := MSHRQueue.markPending_eq_ok hq
      refine ⟨rfl, rfl, (MSHRQueue.Touches.setMSHR _ _ _).trans htouch, ?_⟩
      rw [MSHRQueue.setMSHR_self] at hmshr
      obtain ⟨hf, -⟩ | ⟨-, t, rest, -, -, rfl⟩ := hcase
      · cases hf
      · rw [hmshr]
        have hdef := (hans.emptied ((hi.sane m.queue).inv m.idx) ((hi.sane m.queue).sources m.idx) hs hd).2
        have hlt := (h m).deferred
        simp only [MSHR.total, MSHR.TargetList.resetFlags, ht, length_nil, add_zero]
        rcases hdef with hdef | hdef <;> rw [hdef]
        · exact hlt
        · exact hN
    | false =>
      obtain ⟨hq, b', port', rfl, -⟩ := hok
      obtain ⟨htouch, hfree, -⟩ := MSHRQueue.deallocate_eq_ok hq
      refine ⟨rfl, rfl, (MSHRQueue.Touches.setMSHR _ _ _).trans htouch, ?_⟩
      have hself : update s.queues m.queue q m.queue = q := update_self _ _ _
      have hsane : q.Sane := hself ▸ hi'.sane m.queue
      rw [hsane.total_of_free (by rw [hfree]; exact mem_cons_self)]
      exact hN
  obtain ⟨hqueues, hno, htouch, hlt⟩ := hq
  obtain ⟨hself, hother⟩ := mshr_update hqueues htouch
  intro m'
  by_cases hm' : m' = m
  · subst hm'
    rw [hself]
    exact .of_total hlt
  · rw [hother m' hm']
    have hiff : s'.NoRoom m' ↔ s.NoRoom m' := by
      unfold NoRoom
      rw [hno, hn]
      split
      · next hm =>
        -- the cache was blocked for `m`, not for `m'`
        refine ⟨by simp, fun hfull => absurd ?_ hm'⟩
        have hidx : m.idx = m'.idx := Option.some.inj (hm.2.symm.trans hfull.2)
        cases m
        cases m'
        cases hm.1
        cases hfull.1
        cases hidx
        rfl
      · exact .rfl
    rw [hiff]
    exact h m'

theorem Part.limited (h : Part p s₀ a s s') (hi : s.Inv) (hi' : s'.Inv) (h2 : 2 ≤ p.numTarget)
    (hN : p.numTarget < 2 ^ 16)
    (hr : a.LeavesRoom p s₀) (hl : s.Limited p.numTarget) : s'.Limited p.numTarget := by
  cases h with
  | cache | cpuOut | memOut | refused | memRefused | fired | idle | wait | advance => exact hl
  | @allocate k _ _ _ _ _ i q _ hq hb =>
    obtain ⟨b, port, rfl, -⟩ := hb
    obtain ⟨htouch, hf, -, -, -, hm⟩ := MSHRQueue.allocate_eq_ok hq
    refine hl.replace rfl rfl htouch (.of_total ?_)
    have hfree := (hi.sane k).total_of_free (by rw [hf]; exact mem_cons_self)
    rw [MSHR.allocate_eq_ok hm]
    simp only [MSHR.total, MSHR.addTarget, MSHR.TargetList.list_add, length_append, length_singleton] at hfree ⊢
    omega
  | request _ h =>
    obtain ⟨out, rfl, -⟩ := requestMemSideBus_eq_ok h
    exact hl
  | target hb hm h => exact hl.target hi hi' hN hb (findMatch_mem hm) h
  | @snooped pkt m up t t' i ha hresp hc hm =>
    obtain ⟨rfl, rfl⟩ := ha
    refine hl.replace rfl rfl (.setMSHR _ i _) ?_
    rw [MSHRQueue.setMSHR_self]
    obtain ⟨hcpu, hdef, htot⟩ := MSHR.handleSnoop_targets (s.mshr ⟨.MSHRs, i⟩) pkt up s.curTick s.order
    obtain ⟨hfull, hnot⟩ := hl ⟨.MSHRs, i⟩
    refine ⟨fun hf => ?_, fun hf => ?_⟩
    · rw [hcpu, hdef]
      exact hfull hf
    · have hroom := hnot hf
      cases hd : (s.mshr ⟨.MSHRs, i⟩).Defers pkt with
      | true =>
        have hlt := hr pkt m up t t' i rfl hresp hc hm (fun hno => hf ⟨rfl, hno⟩) hd
        have hcount : (s.mshr ⟨.MSHRs, i⟩).ntargets = (s.mshr ⟨.MSHRs, i⟩).total % 2 ^ 16 :=
          ((hi.sane .MSHRs).inv i).count
        omega
      | false =>
        rw [MSHR.handleSnoop_total hd]
        exact hroom
  | @mark m _ hm _ h =>
    obtain ⟨q, hq, b, port, rfl, -⟩ := markInServiceInternal_eq_ok h
    obtain ⟨done, m', hm', htouch, -, hcase⟩ := MSHRQueue.markInService_eq_ok hq
    refine hl.replace rfl rfl htouch ?_
    rcases hcase with ⟨-, hf, -⟩ | ⟨hdone, -, -, -, hmshr⟩
    · have hself : update s.queues m.queue q m.queue = q := update_self _ _ _
      have hsane : q.Sane := hself ▸ hi'.sane m.queue
      refine .of_total ?_
      rw [hsane.total_of_free (by rw [hf]; exact mem_cons_self)]
      omega
    · rw [hmshr]
      obtain ⟨-, ⟨hd, -⟩ | ⟨-, u, rfl⟩⟩ := MSHR.markInService_eq_ok hm'
      · cases hd.symm.trans hdone
      · exact (hl m).congr rfl rfl
  | answer ha _ hm hs hd h₁ _ _ _ hans h =>
    exact hl.answer hi hi' (by omega) hs hd h₁ hans h
  | forward m b =>
    refine hl.replace rfl rfl ⟨fun j hj => update_of_ne hj _ _, rfl, rfl⟩ ?_
    show MSHR.Fits _ _ (update (s.queues m.queue).registers m.idx _ m.idx).mshr
    rw [update_self]
    exact hl m
  | @downstream m _ b u =>
    refine hl.replace rfl rfl (.setMSHR _ m.idx _) ?_
    rw [MSHRQueue.setMSHR_self]
    exact (hl m).congr rfl rfl
  | reschedule _ _ h =>
    obtain ⟨out, rfl, -⟩ := reschedule_eq_ok h
    exact hl

theorem Limited.init {N : Nat} (hN : 0 < N) (order : Nat) (curTick : Tick) :
    (TimingCache.init T p order curTick).Limited N := by
  rintro ⟨k, i⟩
  cases k <;> exact .of_total hN

def RoomyStep (p : TimingParams) (s : TimingCache T) (a : World × Act) (s' : TimingCache T) : Prop :=
  Step p s a s' ∧ a.2.LeavesRoom p s

/-- With a limit of at least two that the counter can reach, no MSHR has more targets from the CPU side, along every run
in which every snoop that becomes a target leaves room for another one. -/
theorem targets_bounded {order : Nat} {curTick : Tick} {as : List (World × Act)} (h2 : 2 ≤ p.numTarget)
    (hN : p.numTarget < 2 ^ 16) (run : Run (RoomyStep p) (init T p order curTick) as s) (m : MSHRPtr) :
    (s.mshr m).cpuTargets ≤ p.numTarget := by
  have hl : s.Inv ∧ s.Limited p.numTarget := by
    refine run.invariant (I := fun x => x.Inv ∧ x.Limited p.numTarget)
      ⟨.init T p order curTick, .init (by omega) order curTick⟩ fun hx hs => ?_
    have hr := reach_of_step hx.1 hs.1
    exact ⟨hr.inv, hr.invariant hx.2 fun hi hi' hpart => hpart.limited hi hi' h2 hN hs.2⟩
  exact (hl.2 m).cpu

/-- A write and a read of a block that is missing. -/
theorem targets_bounded_twoTargets :
    ∃ s, Run (RoomyStep (plain 4 2)) (init (LRU oneFrame) (plain 4 2) 0 0)
      [({}, .cpuRecvTiming { cmd := .WriteReq, addr := 0, size := 8 } none),
        ({}, .cpuRecvTiming { cmd := .ReadReq, addr := 0, size := 8 } none)] s ∧
      s.noTargetMSHR = some 0 ∧ (s.mshr ⟨.MSHRs, 0⟩).cpuTargets ≤ 2 := by
  obtain ⟨s, run, hs⟩ := Run.exists_of_check (exec (plain 4 2)) of_ensure (init (LRU oneFrame) (plain 4 2) 0 0)
    [({}, .cpuRecvTiming { cmd := .WriteReq, addr := 0, size := 8 } none),
      ({}, .cpuRecvTiming { cmd := .ReadReq, addr := 0, size := 8 } none)]
    (fun s => s.noTargetMSHR = some 0) (by decide +kernel)
  have hroom := run.restrict (P := fun a => ∀ s : TimingCache (LRU oneFrame), a.2.LeavesRoom (plain 4 2) s) (by
    simp [Act.LeavesRoom])
  have run' : Run (RoomyStep (plain 4 2)) _ _ s := hroom.mono fun hs => ⟨hs.2, hs.1 _⟩
  exact ⟨s, run', hs, targets_bounded (by decide) (by decide) run' _⟩

/-- A write misses; a snoop of the block takes the counter to the limit of two, and two reads take it beyond. -/
def snoopThenReads : List (World × Act) :=
  [({}, .cpuRecvTiming { cmd := .WriteReq, addr := 0, size := 8 } none), ({}, .advance 10), ({}, .memSendEvent),
    ({}, .memRecvTiming { cmd := .ReadReq, addr := 0, size := 8 } ⟨.MSHRs, 0⟩ none 10 10),
    ({}, .cpuRecvTiming { cmd := .ReadReq, addr := 0, size := 8 } none),
    ({}, .cpuRecvTiming { cmd := .ReadReq, addr := 0, size := 8 } none)]

theorem targets_exceed_snoopThenReads :
    ∃ s, Run (Step (plain 4 2)) (init (LRU oneFrame) (plain 4 2) 0 0) snoopThenReads s ∧
      (s.mshr ⟨.MSHRs, 0⟩).cpuTargets = 3 ∧ s.cpuSidePort.blocked = false := by
  exact Run.exists_of_check (exec (plain 4 2)) of_ensure _ _ _ (by decide +kernel)

end TimingCache

end M5.Mem
