import Mathlib.Logic.Relation
import M5.Mem.Cache.TimingRule

/-!
# The invariant of the cache in timing mode
-/

namespace M5.Mem

open M5.Lib Function Bool

variable {T : TagStore}

namespace TimingCache

/-- An empty queue is not full. -/
def HasRoom (q : MSHRQueue) : Prop := q.numReserve ≤ q.numEntries

/-- The causes agree with the rest of the state. A queue without room for one entry is full from the start. -/
structure Agrees (s : TimingCache T) : Prop where
  queue (qi : QueueIndex) : HasRoom (s.queues qi) → s.blocked qi.cause = (s.queues qi).isFull
  targets : s.blocked .NoTargets = s.noTargetMSHR.isSome
  port : s.cpuSidePort.blocked = s.isBlocked
  retry : s.cpuSidePort.mustSendRetry → s.cpuSidePort.blocked

/-- The causes agree, ports schedule nothing while they wait, and the MSHRs of the queues are used in order. -/
structure Inv (s : TimingCache T) : Prop extends Agrees s where
  cpu : s.cpuSidePort.out.Ok s.curTick
  mem : s.memSidePort.out.Ok s.curTick
  sane (qi : QueueIndex) : (s.queues qi).Sane

variable {s s' : TimingCache T} {qi : QueueIndex} {q : MSHRQueue} {cause : BlockedCause}

theorem Inv.init (T : TagStore) (p : TimingParams) (order : Nat) (curTick : Tick) :
    (init T p order curTick).Inv where
  queue qi hr := by
    cases qi <;>
    · simp only [HasRoom, TimingCache.init, MSHRQueue.create] at hr
      simp only [QueueIndex.cause, TimingCache.init, MSHRQueue.create, MSHRQueue.isFull]
      exact (decide_eq_false (by omega)).symm
  targets := rfl
  port := rfl
  retry := nofun
  cpu := .init
  mem := .init
  sane qi := by cases qi <;> exact .create _ _

/-! ## Blocking -/

theorem isBlocked_iff : s.isBlocked ↔ ∃ c, s.blocked c := by
  unfold isBlocked
  constructor
  · intro h
    rcases or_eq_true_iff.1 h with h | h
    · rcases or_eq_true_iff.1 h with h | h
      · exact ⟨_, h⟩
      · exact ⟨_, h⟩
    · exact ⟨_, h⟩
  · rintro ⟨c, hc⟩
    cases c <;> simp [hc]

theorem update_isBlocked_true (s : TimingCache T) (cause : BlockedCause) :
    isBlocked { s with blocked := update s.blocked cause true } :=
  isBlocked_iff.2 ⟨cause, update_self _ _ _⟩

theorem setBlocked_spec (hp : s.cpuSidePort.blocked = s.isBlocked)
    (hr : s.cpuSidePort.mustSendRetry → s.cpuSidePort.blocked) (cause : BlockedCause) :
    s.setBlocked cause = .ok { s with
      blocked := update s.blocked cause true, cpuSidePort := { s.cpuSidePort with blocked := true } } := by
  unfold setBlocked
  by_cases hb : s.isBlocked
  · have hport : { s.cpuSidePort with blocked := true } = s.cpuSidePort := by
      rw [← hb, ← hp]
    rw [if_pos hb, hport]
  · have hfalse : s.cpuSidePort.blocked = false := by rw [hp]; exact eq_false_iff.2 hb
    have hretry : s.cpuSidePort.mustSendRetry = false := by
      rw [eq_false_iff]
      intro h
      rw [hr h] at hfalse
      cases hfalse
    rw [if_neg hb, CachePort.setBlocked, ensure_of hfalse]
    simp only [ok_bind, hretry.symm]

/-- The port after a cause has gone, `blocked` if there is another one. -/
def unblocked (port : CachePort) (curTick : Tick) (blocked : Bool) : CachePort :=
  if blocked then port
  else { port with
    blocked := false, mustSendRetry := false,
    retries := if port.mustSendRetry then port.retries ++ [curTick + 1] else port.retries }

theorem clearBlocked_spec (hp : s.cpuSidePort.blocked = s.isBlocked) (hc : s.blocked cause) :
    s.clearBlocked cause = .ok { s with
      blocked := update s.blocked cause false,
      cpuSidePort := unblocked s.cpuSidePort s.curTick
        (isBlocked { s with blocked := update s.blocked cause false }) } := by
  have hport : s.cpuSidePort.blocked := hp.trans (isBlocked_iff.2 ⟨cause, hc⟩)
  unfold clearBlocked unblocked
  dsimp only
  split
  · rfl
  · rw [CachePort.clearBlocked, ensure_of hport]
    rfl

theorem Agrees.unblocked (h : s.Agrees) (hc : s.blocked cause) {b : Bool} :
    (unblocked s.cpuSidePort s.curTick b).blocked = b ∧
      ((TimingCache.unblocked s.cpuSidePort s.curTick b).mustSendRetry →
        (TimingCache.unblocked s.cpuSidePort s.curTick b).blocked) := by
  cases b with
  | true => exact ⟨h.port.trans (isBlocked_iff.2 ⟨cause, hc⟩), h.retry⟩
  | false => exact ⟨rfl, nofun⟩

theorem cause_injective {qi qi' : QueueIndex} (h : qi'.cause = qi.cause) : qi' = qi := by
  cases qi <;> cases qi' <;> first | rfl | cases h

theorem Agrees.replace {b : Bool} (h : s.Agrees) (hq : s'.queues = update s.queues qi q)
    (hbit : s'.blocked = update s.blocked qi.cause b) (hb : HasRoom q → b = q.isFull)
    (ht : s'.noTargetMSHR = s.noTargetMSHR) (hp : s'.cpuSidePort.blocked = s'.isBlocked)
    (hr : s'.cpuSidePort.mustSendRetry → s'.cpuSidePort.blocked) : s'.Agrees := by
  refine ⟨fun qi' hroom => ?_, ?_, hp, hr⟩
  · rw [hq] at hroom ⊢
    rw [hbit]
    by_cases hqi : qi' = qi
    · subst hqi
      rw [update_self] at hroom ⊢
      rw [update_self]
      exact hb hroom
    · rw [update_of_ne hqi] at hroom ⊢
      rw [update_of_ne fun hc => hqi (cause_injective hc)]
      exact h.queue qi' hroom
  · rw [hbit, update_of_ne (by cases qi <;> nofun), ht]
    exact h.targets

theorem Agrees.blockIfFull (h : s.Agrees) (hne : q.numEntries = (s.queues qi).numEntries)
    (hnr : q.numReserve = (s.queues qi).numReserve) (ha : q.allocated = (s.queues qi).allocated + 1) (order : Nat) :
    ∃ s', blockIfFull { s.setQueue qi q with order } qi = .ok s' ∧ s'.Agrees := by
  have hself : ({ s.setQueue qi q with order } : TimingCache T).queues qi = q := update_self _ _ _
  unfold TimingCache.blockIfFull
  rw [hself]
  split
  · next hfull =>
    refine ⟨_, setBlocked_spec (s := { s.setQueue qi q with order }) h.port h.retry qi.cause, ?_⟩
    exact h.replace rfl rfl (fun _ => hfull.symm) rfl (update_isBlocked_true _ _).symm fun _ => rfl
  · next hfull =>
    refine ⟨_, rfl, h.replace rfl (update_eq_self _ _).symm (fun hroom => ?_) rfl h.port h.retry⟩
    have hroom : HasRoom (s.queues qi) := by
      unfold HasRoom at hroom ⊢
      omega
    rw [eq_false_iff.2 hfull]
    refine (h.queue qi hroom).trans (decide_eq_false ?_)
    have hfull := of_decide_eq_false (eq_false_iff.2 hfull)
    omega

theorem Agrees.clearIfFreed (h : s.Agrees) (hne : q.numEntries = (s.queues qi).numEntries)
    (hnr : q.numReserve = (s.queues qi).numReserve) (ha : q.allocated ≤ (s.queues qi).allocated)
    (h0 : 0 ≤ q.allocated) :
    ∃ s', (s.setQueue qi q).clearIfFreed qi (s.queues qi).isFull = .ok s' ∧ s'.Agrees := by
  have hself : (s.setQueue qi q).queues qi = q := update_self _ _ _
  have hroom_iff : HasRoom q ↔ HasRoom (s.queues qi) := by
    unfold HasRoom
    rw [hne, hnr]
  unfold TimingCache.clearIfFreed
  rw [hself]
  split
  · next hfreed =>
    obtain ⟨hwas, hnot⟩ := and_eq_true_iff.1 hfreed
    have hnot : q.isFull = false := by simpa using hnot
    have hroom : HasRoom q := by
      have := of_decide_eq_false hnot
      unfold HasRoom
      omega
    have hbit : s.blocked qi.cause := (h.queue qi (hroom_iff.1 hroom)).trans hwas
    have hport := h.unblocked hbit
      (b := isBlocked { s.setQueue qi q with blocked := update s.blocked qi.cause false })
    refine ⟨_, clearBlocked_spec h.port hbit, ?_⟩
    exact h.replace rfl rfl (fun _ => hnot.symm) rfl hport.1 hport.2
  · next hfreed =>
    refine ⟨_, rfl, h.replace rfl (update_eq_self _ _).symm (fun hroom => ?_) rfl h.port h.retry⟩
    refine (h.queue qi (hroom_iff.1 hroom)).trans ?_
    -- the queue is as full as it was
    cases hwas : (s.queues qi).isFull with
    | true =>
      rw [hwas] at hfreed
      exact (by simpa using hfreed : q.isFull).symm
    | false =>
      refine (decide_eq_false ?_).symm
      have := of_decide_eq_false hwas
      omega

/-! ## The parts of the operations -/

theorem Inv.setQueue (h : s.Inv) (hq : q.Sane) (hne : q.numEntries = (s.queues qi).numEntries)
    (hnr : q.numReserve = (s.queues qi).numReserve) (ha : q.allocated = (s.queues qi).allocated) :
    (s.setQueue qi q).Inv := by
  have hfull : q.isFull = (s.queues qi).isFull := by
    unfold MSHRQueue.isFull
    rw [ha, hne, hnr]
  refine ⟨h.toAgrees.replace rfl (update_eq_self _ _).symm (fun hroom => ?_) rfl h.port h.retry, h.cpu, h.mem,
    (forall_update_iff s.queues fun _ q => q.Sane).2 ⟨hq, fun qi' _ => h.sane qi'⟩⟩
  rw [hfull]
  refine h.queue qi ?_
  unfold HasRoom at hroom ⊢
  omega

variable {m : MSHRPtr} {addr : Addr} {i : Nat} {v : Served T}

theorem Inv.setMSHR (h : s.Inv) {mshr : MSHR} (hq : ((s.queues m.queue).setMSHR m.idx mshr).Sane) :
    (s.setMSHR m mshr).Inv := h.setQueue hq rfl rfl rfl

theorem Inv.of_blocks {s₀ : TimingCache T} (h : s.Inv) (hb : Blocks s₀ s') (ha : s'.Agrees) (hq : q.Sane)
    (hs : s₀.queues = update s.queues qi q) (hc : s₀.cpuSidePort.out = s.cpuSidePort.out)
    (hm : s₀.memSidePort = s.memSidePort) (ht : s₀.curTick = s.curTick) : s'.Inv := by
  obtain ⟨b, port, rfl, hmove⟩ := hb
  refine ⟨ha, ?_, ?_, ?_⟩
  · rw [hmove.out, hc, ht]
    exact h.cpu
  · rw [hm, ht]
    exact h.mem
  · rw [hs]
    exact (forall_update_iff s.queues fun _ q => q.Sane).2 ⟨hq, fun qi' _ => h.sane qi'⟩

theorem Inv.setMemOut (h : s.Inv) {out : SimpleTimingPort} (ho : out.Ok s.curTick) : (s.setMemOut out).Inv :=
  ⟨⟨h.queue, h.targets, h.port, h.retry⟩, h.cpu, ho, h.sane⟩

/-- The faults that say nothing about the port or the prefetcher. -/
def Ordinary : TimingFault → Prop
  | .fault _ | .nullBlock => True
  | .portBlocked | .nullPrefetcher => False

theorem Inv.requestMemSideBus (h : s.Inv) (time : Tick) : Yields Ordinary Inv (s.requestMemSideBus time) := by
  refine .ite (fun _ => h) fun _ => ?_
  exact (Yields.lift (fun _ => trivial) _).bind fun out ho =>
    h.setMemOut ((SimpleTimingPort.schedSendEvent_eq_ok ho).2 h.mem)

/-- An allocation, which may block the cache. -/
theorem Inv.allocate (h : s.Inv) {size : Nat} {pkt : Packet} {up : Option Nat} {time : Tick}
    (hq : (s.queues qi).allocate addr size pkt up time s.order = .ok (i, q)) :
    ∃ s', blockIfFull { s.setQueue qi q with order := s.order + 1 } qi = .ok s' ∧ s'.Inv := by
  obtain ⟨ht, -, -, ha, -, -⟩ := MSHRQueue.allocate_eq_ok hq
  obtain ⟨s', hs', hag⟩ := h.toAgrees.blockIfFull ht.numEntries ht.numReserve ha (s.order + 1)
  exact ⟨s', hs', h.of_blocks (blockIfFull_blocks.of_eq hs') hag ((h.sane qi).allocate hq) rfl rfl rfl rfl⟩

theorem Inv.markInServiceInternal (h : s.Inv) (hm : m.idx ∈ (s.queues m.queue).entries) :
    Yields Ordinary Inv (s.markInServiceInternal m) := by
  refine (Yields.lift (fun _ => trivial) _).bind fun q hq => ?_
  have hsane := (h.sane m.queue).markInService hm hq
  obtain ⟨_, _, -, ht, -, hcase⟩ := MSHRQueue.markInService_eq_ok hq
  have hle : q.allocated ≤ (s.queues m.queue).allocated := by
    rcases hcase with ⟨-, -, ha, -⟩ | ⟨-, -, ha, -⟩ <;> omega
  have h0 : 0 ≤ q.allocated := by
    rw [hsane.consistent.allocated]
    exact Int.natCast_nonneg _
  obtain ⟨s', hs', hag⟩ := h.toAgrees.clearIfFreed ht.numEntries ht.numReserve hle h0
  rw [hs']
  exact h.of_blocks (clearIfFreed_blocks.of_eq hs') hag hsane rfl rfl rfl rfl

theorem findMatch_mem (h : q.findMatch addr = some i) : i ∈ q.entries :=
  List.mem_of_find?_eq_some h

theorem Inv.accessTarget (h : s.Inv) (p : TimingParams) (hi : i ∈ s.mshrQueue.entries) (pkt : Packet)
    (up : Option Nat) (time : Tick) : Yields Ordinary Inv (s.accessTarget p i pkt up time) := by
  refine (Yields.lift (fun _ => trivial) _).bind fun m hm => ?_
  have hbusy : (s.mshr ⟨.MSHRs, i⟩).phase = .busy := (h.sane .MSHRs).busy i hi
  have hcmd : pkt.cmd ≠ .HardPFReq := (of_ensure hm).1
  obtain ⟨m', hm', hinv⟩ : ∃ m', (s.mshr ⟨.MSHRs, i⟩).allocateTarget pkt up time s.order = .ok m' ∧ m'.Inv :=
    ((h.sane .MSHRs).inv i).allocateTarget hbusy hcmd time s.order
  obtain rfl : m' = m := Except.ok.inj (hm'.symm.trans hm)
  have hsame := MSHRQueue.allocateTarget_same hm
  have hph : m'.phase = .busy := by
    rw [← hbusy]
    obtain ⟨-, hm⟩ := of_ensure hm
    split at hm <;> rw [← Except.ok.inj hm] <;> rfl
  have hs : ({ s.setMSHR ⟨.MSHRs, i⟩ m' with order := s.order + 1 } : TimingCache T).Inv := by
    have := h.setMSHR (m := ⟨.MSHRs, i⟩) ((h.sane .MSHRs).change hi hinv
      (((h.sane .MSHRs).sources i).allocateTarget hm) hph hsame.1 fun _ => hsame.2)
    exact ⟨⟨this.queue, this.targets, this.port, this.retry⟩, this.cpu, this.mem, this.sane⟩
  refine .ite (fun _ => ?_) fun _ => hs
  have hset := setBlocked_spec (s := { s.setMSHR ⟨.MSHRs, i⟩ m' with order := s.order + 1, noTargetMSHR := some i })
    hs.port hs.retry .NoTargets
  rw [hset]
  refine ⟨⟨fun qi hroom => ?_, ?_, (update_isBlocked_true _ _).symm, fun _ => rfl⟩, hs.cpu, hs.mem, hs.sane⟩
  · refine .trans ?_ (hs.queue qi hroom)
    show update s.blocked .NoTargets true qi.cause = s.blocked qi.cause
    rw [update_of_ne (by cases qi <;> nofun)]
  · show update s.blocked .NoTargets true .NoTargets
    rw [update_self]

theorem Inv.releaseTargets (h : s.Inv) (m : MSHRPtr) : ∃ s₁, s.releaseTargets m = .ok s₁ ∧ s₁.Inv := by
  unfold TimingCache.releaseTargets
  split
  · next hm =>
    have hbit : s.blocked .NoTargets := by rw [h.targets, hm.2]; rfl
    have hport := h.unblocked hbit (b := isBlocked { s with blocked := update s.blocked .NoTargets false })
    rw [clearBlocked_spec h.port hbit]
    refine ⟨_, rfl, ⟨fun qi hroom => ?_, ?_, hport.1, hport.2⟩, ?_, h.mem, h.sane⟩
    · show update s.blocked .NoTargets false qi.cause = (s.queues qi).isFull
      rw [update_of_ne (by cases qi <;> nofun)]
      exact h.queue qi hroom
    · show update s.blocked .NoTargets false .NoTargets = false
      rw [update_self]
    · unfold unblocked
      split <;> exact h.cpu
  · exact ⟨s, rfl, h⟩

theorem Inv.putData (h : s.Inv) (hc : v.cpu.Ok s.curTick) (hm : v.mem.Ok s.curTick) : (s.putData v).Inv :=
  ⟨⟨h.queue, h.targets, h.port, h.retry⟩, hc, hm, h.sane⟩

/-- The end of a response. -/
theorem Inv.finishMSHR (h : s.Inv) (hm : m.idx ∈ (s.queues m.queue).entries)
    (hs : (s.mshr m).inService) (hd : (s.mshr m).downstreamPending = false) (hc : v.cpu.Ok s.curTick)
    (hmem : v.mem.Ok s.curTick) (hans : (s.mshr m).Answered v.mshr) (r : Reply) :
    Yields Ordinary Inv ((s.putServed m v).finishMSHR m (s.queues m.queue).isFull r) := by
  obtain ⟨⟨m₀, hemp⟩, -⟩ := hans.emptied ((h.sane m.queue).inv m.idx) ((h.sane m.queue).sources m.idx) hs hd
  have hdata := h.putData hc hmem
  refine finishMSHR_yields (fun _ => trivial) trivial (fun mshr q c hx hq _ => ?_) fun mshr q hx hq => ?_
  · have hq' := (h.sane m.queue).requeue hm hs hemp hx hq
    obtain ⟨ht, -, ha, -, -, -, -⟩ := MSHRQueue.markPending_eq_ok hq
    have hcache : ((s.putData v).setCache c []).Inv :=
      ⟨⟨hdata.queue, hdata.targets, hdata.port, hdata.retry⟩, hdata.cpu, hdata.mem, hdata.sane⟩
    exact (hcache.setQueue hq' ht.numEntries ht.numReserve ha).requestMemSideBus _
  · have hq' := (h.sane m.queue).release hm hs hemp hx hq
    obtain ⟨ht, -, ha, -, -, -⟩ := MSHRQueue.deallocate_eq_ok hq
    have hle : q.allocated ≤ (s.queues m.queue).allocated := by
      rw [ha]
      exact Int.sub_le_self _ (by decide)
    have h0 : 0 ≤ q.allocated := by
      rw [hq'.consistent.allocated]
      exact Int.natCast_nonneg _
    obtain ⟨s', hs', hag⟩ := hdata.toAgrees.clearIfFreed ht.numEntries ht.numReserve hle h0
    replace hs' : ((s.putData v).setQueue m.queue q).clearIfFreed m.queue (s.queues m.queue).isFull = .ok s' := hs'
    rw [hs']
    exact hdata.of_blocks (clearIfFreed_blocks.of_eq hs') hag hq' rfl rfl rfl rfl

theorem Inv.setDownstream (h : s.Inv) (hm : m.idx ∈ (s.queues m.queue).entries) (b : Bool)
    (u : List MSHR.UpstreamCall) : (s.setMSHR m { s.mshr m with downstreamPending := b, upstream := u }).Inv := by
  have hi := (h.sane m.queue).inv m.idx
  refine h.setMSHR ((h.sane m.queue).change hm ?_ (((h.sane m.queue).sources m.idx).congr rfl rfl)
    ((h.sane m.queue).busy _ hm) rfl fun _ => rfl)
  exact ⟨hi.count, hi.free, hi.busy, hi.answered, hi.reset, hi.deferred, hi.upgrade, hi.upgradeDeferred⟩

/-! ## What an operation does -/

section

variable (s : TimingCache T)

/-- The memory side is to send something. -/
def Act.Sends (a : Act) : Prop :=
  a = .memSendEvent ∨ a = .memRetry ∧ s.memSidePort.out.waitingOnRetry

/-- How an operation can stop: not at an assertion about the port, and at the prefetcher only when it is to send
something, nothing is due, and there is an MSHR for a prefetch. -/
def Safe (a : Act) : TimingFault → Prop
  | .fault _ | .nullBlock => True
  | .portBlocked => False
  | .nullPrefetcher => a.Sends s ∧ ¬ s.Due s.curTick ∧ s.mshrQueue.isFull = false

/-- A snoop that invalidates a block with a writeback in the write buffer. -/
def Act.Discards : Act → Prop
  | memRecvTiming pkt _ _ _ _ =>
    pkt.isResponse = false ∧ pkt.isInvalidate ∧ s.writeBuffer.findMatches (T.blkAlign pkt.addr) ≠ []
  | _ => False

end

/-- One part of the operation `a` on `s₀`. -/
inductive Part (p : TimingParams) (s₀ : TimingCache T) (a : Act) (s : TimingCache T) : TimingCache T → Prop
  | cache {c : Cache T} {calls : List TagCall} (h : CacheStep s.cache calls c) : Part p s₀ a s (s.setCache c calls)
  | cpuOut (out : SimpleTimingPort) : Part p s₀ a s (s.setCpuOut out)
  | memOut {out : SimpleTimingPort} (h : s.memSidePort.out.Responds s.curTick out) : Part p s₀ a s (s.setMemOut out)
  | refused (h : s.cpuSidePort.blocked) :
    Part p s₀ a s { s with cpuSidePort := { s.cpuSidePort with mustSendRetry := true } }
  | memRefused : Part p s₀ a s { s with memSidePort := { s.memSidePort with mustSendRetry := true } }
  | allocate {qi : QueueIndex} {addr : Addr} {size : Nat} {pkt : Packet} {up : Option Nat} {time : Tick} {i : Nat}
      {q : MSHRQueue} {s' : TimingCache T} (hq : (s.queues qi).allocate addr size pkt up time s.order = .ok (i, q))
      (h : Blocks { s.setQueue qi q with order := s.order + 1 } s') : Part p s₀ a s s'
  | request {time : Tick} {s' : TimingCache T} (hd : p.prefetcher ∨ s.Due time)
      (h : s.requestMemSideBus time = .ok s') : Part p s₀ a s s'
  | target {addr : Addr} {i : Nat} {pkt : Packet} {up : Option Nat} {time : Tick} {s' : TimingCache T}
      (hb : s.cpuSidePort.blocked = false) (hi : s.mshrQueue.findMatch addr = some i)
      (h : s.accessTarget p i pkt up time = .ok s') : Part p s₀ a s s'
  | snooped {pkt : Packet} {m : MSHRPtr} {up : Option Nat} {t t' : Tick} {i : Nat}
      (ha : s = s₀ ∧ a = .memRecvTiming pkt m up t t') (hr : pkt.isResponse = false)
      (hc : (pkt.req.isUncacheable || pkt.cmd = .Writeback) = false)
      (hi : s.mshrQueue.findMatch (T.blkAlign pkt.addr) = some i) :
    Part p s₀ a s { s.setMSHR ⟨.MSHRs, i⟩ ((s.mshr ⟨.MSHRs, i⟩).handleSnoop pkt up s.curTick s.order).2.2 with
      order := s.order + 1 }
  | mark {m : MSHRPtr} {s' : TimingCache T} (hm : m.idx ∈ (s.queues m.queue).entries)
      (hw : a.Discards s₀ ∨ s.memSidePort.out.sendEvent = none ∧ s.memSidePort.out.waitingOnRetry = false)
      (h : s.markInServiceInternal m = .ok s') : Part p s₀ a s s'
  | answer {pkt : Packet} {m : MSHRPtr} {up : Option Nat} {t t' : Tick} {s₁ s' : TimingCache T}
      {ls : List (List TagCall)} {v : Served T} {r : Reply} (ha : s = s₀ ∧ a = .memRecvTiming pkt m up t t')
      (hr : pkt.isResponse) (hm : m.idx ∈ (s.queues m.queue).entries) (hs : (s.mshr m).inService)
      (hd : (s.mshr m).downstreamPending = false) (h₁ : s.releaseTargets m = .ok s₁)
      (hrun : Run CacheStep s.cache ls v.cache) (hcalls : v.calls = ls.flatten)
      (hmem : s.memSidePort.out.Responds s.curTick v.mem) (hans : (s.mshr m).Answered v.mshr)
      (h : (s₁.putServed m v).finishMSHR m (s.queues m.queue).isFull r = .ok s') : Part p s₀ a s s'
  | fired : Part p s₀ a s (s.setMemOut { s.memSidePort.out with sendEvent := none })
  | idle (l : List DeferredPacket) (he : s.memSidePort.out.sendEvent = none) :
    Part p s₀ a s (s.setMemOut { s.memSidePort.out with transmitList := l, waitingOnRetry := false })
  | wait (he : s.memSidePort.out.sendEvent = none) (hd : s.Due s.curTick) : Part p s₀ a s (s.setWaiting true)
  | forward (m : MSHRPtr) (b : Bool) : Part p s₀ a s (s.setForward m b)
  | downstream {m : MSHRPtr} (hm : m.idx ∈ (s.queues m.queue).entries) (b : Bool) (u : List MSHR.UpstreamCall) :
    Part p s₀ a s (s.setMSHR m { s.mshr m with downstreamPending := b, upstream := u })
  | reschedule {w : World} {s' : TimingCache T} (he : s.memSidePort.out.sendEvent = none)
      (hw : s.memSidePort.out.waitingOnRetry = false) (h : s.reschedule p w = .ok s') : Part p s₀ a s s'
  | advance {t : Tick} (ht : s.curTick ≤ t) (he : ∀ e, s.memSidePort.out.sendEvent = some e → t ≤ e) :
    Part p s₀ a s { s with curTick := t }

/-- Parts of the operation `a` lead from `s₀` to `s`, with the invariant on the way. -/
structure Reach (p : TimingParams) (s₀ : TimingCache T) (a : Act) (s : TimingCache T) : Prop where
  inv : s.Inv
  parts : Relation.ReflTransGen (fun x y => x.Inv ∧ y.Inv ∧ Part p s₀ a x y) s₀ s

section

variable {p : TimingParams} {s₀ : TimingCache T} {a : Act}

section

variable (h : Reach p s₀ a s)

include h

/-- Induction over the parts of an operation. -/
theorem Reach.invariant {J : TimingCache T → Prop} (h0 : J s₀)
    (hstep : ∀ {x y}, x.Inv → y.Inv → Part p s₀ a x y → J x → J y) : J s := by
  obtain ⟨-, hparts⟩ := h
  induction hparts with
  | refl => exact h0
  | tail _ hp ih => exact hstep hp.1 hp.2.1 hp.2.2 ih

theorem Reach.snoc (hi : s'.Inv) (hp : Part p s₀ a s s') : Reach p s₀ a s' :=
  ⟨hi, h.parts.tail ⟨h.inv, hi, hp⟩⟩

omit h in
theorem Ordinary.safe (s₀ : TimingCache T) (a : Act) : ∀ e, Ordinary e → Safe s₀ a e
  | .fault _, _ | .nullBlock, _ => trivial

theorem Reach.yields {x : Except TimingFault (TimingCache T)} (hx : Yields Ordinary Inv x)
    (hp : ∀ s', x = .ok s' → Part p s₀ a s s') : Yields (Safe s₀ a) (Reach p s₀ a) x :=
  (hx.weaken (Ordinary.safe s₀ a)).with_eq.mono fun s' hs' => h.snoc hs'.1 (hp s' hs'.2)

theorem Reach.request (time : Tick) (hd : p.prefetcher ∨ s.Due time) :
    Yields (Safe s₀ a) (Reach p s₀ a) (s.requestMemSideBus time) :=
  h.yields (h.inv.requestMemSideBus time) fun _ hs' => .request hd hs'

theorem Reach.allocate (qi : QueueIndex) (addr : Addr) (size : Nat) (pkt : Packet)
    (up : Option Nat) (time : Tick) (requestBus : Bool) : Yields (Safe s₀ a) (fun r => Reach p s₀ a r.2)
      (s.allocateBufferInternal qi addr size pkt up time requestBus) := by
  refine (Yields.lift (fun _ => trivial) _).bind fun r hr => ?_
  obtain ⟨s₁, hs₁, h₁⟩ := h.inv.allocate hr
  have hblocks := blockIfFull_blocks.of_eq hs₁
  have hr₁ : Reach p s₀ a s₁ := h.snoc h₁ (.allocate hr hblocks)
  have hdue : s₁.Due time := by
    obtain ⟨b, port, rfl, -⟩ := hblocks
    have hq : update s.queues qi r.2 qi = r.2 := update_self _ _ _
    obtain ⟨n, hn, -, ht⟩ := MSHRQueue.Sane.allocate_ready (hq ▸ h₁.sane qi) hr
    refine .inr ⟨qi, n, ?_, ?_⟩
    · show n ∈ (update s.queues qi r.2 qi).readyList
      rw [hq]
      exact hn
    · show (update s.queues qi r.2 qi).readyTime n ≤ time
      rw [hq]
      exact Nat.le_of_eq ht
  dsimp only
  rw [hs₁, ok_bind]
  exact .bind (.ite (fun _ => hr₁.request time (.inr hdue)) fun _ => hr₁) fun _ h₂ => h₂

end

/-- Every function of the cache is made of parts. -/
theorem keeps_reach (p : TimingParams) (s₀ : TimingCache T) (a : Act) :
    Keeps p (Safe s₀ a) (fun s b => s = s₀ ∧ a = b) (Reach p s₀ a) where
  fault _ := trivial
  nullBlock := trivial
  sane qi h := h.inv.sane qi
  cache h hc :=
    h.snoc ⟨⟨h.inv.queue, h.inv.targets, h.inv.port, h.inv.retry⟩, h.inv.cpu, h.inv.mem, h.inv.sane⟩ (.cache hc)
  cpuOut h ho :=
    h.snoc ⟨⟨h.inv.queue, h.inv.targets, h.inv.port, h.inv.retry⟩, ho h.inv.cpu, h.inv.mem, h.inv.sane⟩ (.cpuOut _)
  memOut h ho := h.snoc (h.inv.setMemOut (ho.ok h.inv.mem)) (.memOut ho)
  refused h hb :=
    h.snoc ⟨⟨h.inv.queue, h.inv.targets, h.inv.port, fun _ => hb⟩, h.inv.cpu, h.inv.mem, h.inv.sane⟩ (.refused hb)
  memRefused h _ :=
    h.snoc ⟨⟨h.inv.queue, h.inv.targets, h.inv.port, h.inv.retry⟩, h.inv.cpu, h.inv.mem, h.inv.sane⟩ .memRefused
  allocate qi addr size pkt up time requestBus h := h.allocate qi addr size pkt up time requestBus
  target pkt up time h hb hi :=
    h.yields (h.inv.accessTarget p (findMatch_mem hi) pkt up time) fun _ hs' => .target hb hi hs'
  request time h hp := h.request time (.inl hp)
  snooped {s pkt m up t t' i} h hD hr hc hi := by
    have hs := h.inv.sane .MSHRs
    have hmem := findMatch_mem hi
    have hsame := MSHRQueue.handleSnoop_same (s.mshr ⟨.MSHRs, i⟩) pkt up s.curTick s.order
    have hset := h.inv.setMSHR (m := ⟨.MSHRs, i⟩) (hs.change hmem
      ((hs.inv i).handleSnoop (hs.busy i hmem) s.curTick s.order) ((hs.sources i).handleSnoop pkt up s.curTick s.order)
      (hsame.2.2.trans (hs.busy i hmem)) hsame.1 fun _ => hsame.2.1)
    exact h.snoc ⟨⟨hset.queue, hset.targets, hset.port, hset.retry⟩, hset.cpu, hset.mem,
      hset.sane⟩ (.snooped hD hr hc hi)
  discard hD hr hinv hwb h hj := by
    obtain ⟨rfl, rfl⟩ := hD
    exact h.yields (h.inv.markInServiceInternal hj) fun _ hs' => .mark hj (.inl ⟨hr, hinv, hwb⟩) hs'
  response {s pkt m up t t'} h hD hr hm hs hd := by
    obtain ⟨s₁, hs₁, h₁⟩ := h.inv.releaseTargets m
    obtain ⟨b, port, n, hrel, -⟩ := releaseTargets_eq_ok hs₁
    rw [hs₁]
    intro ls v r hrun hcalls hcpu hmem hans
    refine h.yields ?_ fun s' hs' => .answer hD hr hm hs hd hs₁ hrun hcalls hmem hans hs'
    subst hrel
    exact h₁.finishMSHR hm hs hd (hcpu h.inv.cpu) (hmem.ok h.inv.mem) hans r
  waiting h := h.inv.mem.waiting
  due {s b} hD hsend _ := by
    obtain ⟨rfl, rfl⟩ := hD
    by_cases hdue : s.Due s.curTick
    · exact .inr (.inl hdue)
    · cases hfull : s.mshrQueue.isFull with
      | true => exact .inr (.inr rfl)
      | false => exact .inl ⟨hsend, hdue, hfull⟩
  fired h := h.snoc (h.inv.setMemOut ⟨fun _ => rfl, nofun⟩) .fired
  idle l h he := h.snoc (h.inv.setMemOut ⟨nofun, h.inv.mem.event⟩) (.idle l he)
  wait h he hd := h.snoc (h.inv.setMemOut ⟨fun _ => he, h.inv.mem.event⟩) (.wait he hd)
  forward {s} m b h := by
    refine h.snoc (h.inv.setQueue ((h.inv.sane m.queue).congr (fun j => ?_) (fun j => ?_) fun j => ?_) rfl rfl rfl)
      (.forward m b) <;>
    · by_cases hj : j = m.idx
      · rw [hj, update_self]
        rfl
      · rw [update_of_ne hj]
  sent {s m} b h he hw hm := by
    have hm := ((h.inv.sane m.queue).consistent.mem_ready.1 hm).1
    unfold setDownstream
    split
    · have hset := h.snoc (h.inv.setDownstream hm true _) (.downstream hm true (s.mshr m).upstream)
      have hm' : m.idx ∈ ((s.setMSHR m { s.mshr m with downstreamPending := true }).queues m.queue).entries := by
        rw [setMSHR, setQueue]
        dsimp only
        rw [update_self]
        exact hm
      exact hset.yields (hset.inv.markInServiceInternal hm') fun _ hs' => .mark hm' (.inr ⟨he, hw⟩) hs'
    · exact h.yields (h.inv.markInServiceInternal hm) fun _ hs' => .mark hm (.inr ⟨he, hw⟩) hs'
  reschedule {s} w h he hw := by
    refine h.yields ?_ fun _ hs' => .reschedule he hw hs'
    refine .ite (fun _ => h.inv) fun _ => ?_
    split
    · exact h.inv
    · refine (Yields.lift (fun _ => trivial) _).bind fun out ho => h.inv.setMemOut ?_
      obtain ⟨hle, ho⟩ := of_ensure ho
      obtain ⟨-, rfl⟩ := of_check ho
      refine ⟨fun hw' => ?_, fun t ht => ?_⟩
      · cases hw.symm.trans hw'
      · cases ht
        exact hle
  clearDownstream {s m mshr} h hm hok := by
    obtain ⟨-, rfl⟩ := of_check hok
    exact h.snoc (h.inv.setDownstream hm false _) (.downstream hm false _)
  advance h ht hmem hcpu :=
    h.snoc ⟨⟨h.inv.queue, h.inv.targets, h.inv.port, h.inv.retry⟩, ⟨h.inv.cpu.waiting, hcpu⟩,
      ⟨h.inv.mem.waiting, hmem⟩, h.inv.sane⟩ (.advance ht hmem)

/-- An operation is a sequence of parts that keep the invariant; the assertions of `CachePort::setBlocked` and
`clearBlocked` hold, and the prefetcher is asked only when nothing is due. -/
theorem handle_yields (h : s.Inv) (ha : a.Allowed s) (w : World) : Yields (Safe s a) (Reach p s a) (s.handle p w a) :=
  (keeps_reach p s a).handle ⟨h, .refl⟩ ha ⟨rfl, rfl⟩ w

/-- An operation is made of parts. -/
theorem reach_of_step {w : World} (h : s.Inv) (hs : Step p s (w, a) s') : Reach p s a s' :=
  (handle_yields h hs.1 w).of_eq hs.2

/-- What the parts of operations keep, and the invariant, hold on every run from a state where they do. -/
theorem of_run {J : TimingCache T → Prop} {as : List (World × Act)} (run : Run (Step p) s as s') (h : s.Inv) (h0 : J s)
    (hstep : ∀ {s₀ a x y}, x.Inv → y.Inv → Part p s₀ a x y → J x → J y) : s'.Inv ∧ J s' :=
  run.invariant (I := fun x => x.Inv ∧ J x) ⟨h, h0⟩ fun hx hs =>
    have hr := reach_of_step hx.1 hs
    ⟨hr.inv, hr.invariant hx.2 hstep⟩

end

end TimingCache

end M5.Mem
