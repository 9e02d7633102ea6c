import M5.Mem.Cache.MSHRQueue
import M5.Mem.Cache.MSHRTargets

/-!
# What the calls on a queue do to its entries

Each call that ends, in terms of the entries and their MSHRs, and what holds of a queue whose MSHRs are used in order:
-/

namespace M5.Mem

open Lib Lib.NodeList List Except

namespace MSHR

variable {m m' : MSHR}

theorem Inv.not_deferred (h : m.Inv) (hs : m.inService = false) : m.deferredTargets.list = [] := by
  by_contra hne
  cases hs.symm.trans (h.deferred hne).1

theorem Inv.of_deallocate (hd : m.deferredTargets.list = []) (hok : m.deallocate = .ok m') : m'.Inv := by
  obtain ⟨ht, hr, hn, -⟩ := deallocate_eq_ok hok
  obtain ⟨m₁, hm₁, hinv⟩ := deallocate ht hd hr hn
  cases hok.symm.trans hm₁
  exact hinv

/-- An MSHR that is sent: done if it awaits no response. -/
theorem Inv.of_markInService {done : Bool} (h : m.Inv) (hok : m.markInService = .ok (done, m')) :
    if done then ∀ m'', m'.deallocate = .ok m'' → m''.Inv else m'.Inv := by
  obtain ⟨hs, ⟨rfl, rfl⟩ | ⟨rfl, u, rfl⟩⟩ := markInService_eq_ok hok
  · refine fun _ hd => of_deallocate ?_ hd
    exact h.not_deferred hs
  · exact ⟨h.count, h.free, h.busy, fun _ => rfl, h.reset, fun hne => absurd (h.not_deferred hs) hne, h.upgrade,
      h.upgradeDeferred⟩

/-- The deferred targets are sent as a new request. -/
theorem Inv.requeued {curTick : Nat} (h : m.Inv)
    (hok : m.promoteDeferredTargets curTick = .ok (true, m')) : Inv { m' with inService := false, phase := .busy } := by
  obtain ⟨ht, ⟨hf, -⟩ | ⟨-, t, rest, hd, hn, rfl⟩⟩ := promoteDeferredTargets_eq_ok hok
  · cases hf
  · refine ⟨?_, nofun, fun _ => ?_, nofun, fun _ => rfl, absurd ht, fun _ => h.upgradeDeferred,
      TargetList.flagged_nil ht⟩
    · have hc := h.count
      simp only [total, TargetList.resetFlags] at hc ⊢
      rw [hc, Nat.add_comm]
    · rw [hd]
      exact cons_ne_nil _ _

/-! ## Where targets come from -/

/-- Deferred targets are from the CPU side, and those from the prefetcher are its requests. -/
structure Sources (m : MSHR) : Prop where
  deferred : ∀ t ∈ m.deferredTargets.list, t.source = .FromCPU
  prefetcher : ∀ t ∈ m.targets.list, t.source = .FromPrefetcher → t.pkt.cmd = .HardPFReq

theorem Sources.init : Sources {} :=
  ⟨fun _ ht => absurd ht not_mem_nil, fun _ ht => absurd ht not_mem_nil⟩

variable {l : TargetList} {pkt : Packet}

theorem TargetList.mem_add {t u : Target} : u ∈ (l.add t).list ↔ u ∈ l.list ∨ u = t := by
  rw [list_add, mem_append, mem_singleton]

theorem TargetList.mem_replaceUpgrades {u : Target} (h : u ∈ l.replaceUpgrades.list) :
    ∃ t ∈ l.list, u.source = t.source ∧ (t.pkt.cmd = .HardPFReq → u.pkt.cmd = .HardPFReq) := by
  unfold replaceUpgrades at h
  split at h
  · exact ⟨u, h, rfl, id⟩
  · obtain ⟨t, ht, rfl⟩ := mem_map.1 h
    refine ⟨t, ht, ?_⟩
    split
    · next hup =>
      refine ⟨rfl, fun hpf => ?_⟩
      rw [hup] at hpf
      cases hpf
    · exact ⟨rfl, id⟩

section

variable (h : m.Sources)

include h

theorem Sources.replaceDeferred :
    Sources { m with deferredTargets := m.deferredTargets.replaceUpgrades } where
  deferred u hu := by
    obtain ⟨t, ht, hs, -⟩ := TargetList.mem_replaceUpgrades hu
    exact hs.trans (h.deferred t ht)
  prefetcher := h.prefetcher

theorem Sources.replaceTargets : Sources { m with targets := m.targets.replaceUpgrades } where
  deferred := h.deferred
  prefetcher u hu hp := by
    obtain ⟨t, ht, hs, hc⟩ := TargetList.mem_replaceUpgrades hu
    exact hc (h.prefetcher t ht (hs.symm.trans hp))

theorem Sources.addTarget {t : Target} (ht : t.source = .FromPrefetcher → t.pkt.cmd = .HardPFReq)
    (hl : l = m.targets.add t) : Sources { m with targets := l } where
  deferred := h.deferred
  prefetcher u hu hp := by
    have hu : u ∈ (m.targets.add t).list := hl ▸ hu
    rcases TargetList.mem_add.1 hu with hu | rfl
    · exact h.prefetcher u hu hp
    · exact ht hp

theorem Sources.congr (ht : m'.targets.list = m.targets.list)
    (hd : m'.deferredTargets.list = m.deferredTargets.list) : m'.Sources :=
  ⟨fun t hm => h.deferred t (hd ▸ hm), fun t hm => h.prefetcher t (ht ▸ hm)⟩

variable {up : Option Nat} {whenReady order : Nat}

theorem Sources.allocate (hok : m.allocate pkt up whenReady order = .ok m') : m'.Sources := by
  obtain ⟨-, hok⟩ := of_ensure hok
  obtain ⟨-, hok⟩ := of_ensure hok
  rw [← ok.inj hok]
  refine (h.addTarget
    (fun hp => ?_) rfl).congr rfl rfl
  by_contra hne
  rw [if_neg hne] at hp
  cases hp

theorem Sources.allocateTarget (hok : m.allocateTarget pkt up whenReady order = .ok m') : m'.Sources := by
  obtain ⟨-, hok⟩ := of_ensure hok
  split at hok
  · rw [← ok.inj hok]
    refine ⟨fun u hu => ?_, h.prefetcher⟩
    rcases TargetList.mem_add.1 hu with hu | rfl
    · exact h.deferred u hu
    · rfl
  · rw [← ok.inj hok]
    exact (h.addTarget (t := ⟨whenReady, order, pkt, up, .FromCPU, !m.inService⟩) nofun rfl).congr rfl rfl

theorem Sources.handleSnoop (pkt : Packet) (up : Option Nat) (curTick order : Nat) :
    (m.handleSnoop pkt up curTick order).2.2.Sources := by
  refine handleSnoop_rule h (fun h => h.replaceDeferred) (fun h => h.replaceTargets) id (fun h => h.congr rfl rfl)
    (fun inv h ht => ?_) ..
  exact (h.addTarget (fun hp => by cases ht.symm.trans hp) rfl).congr rfl rfl

theorem Sources.handleFill {pkt' : Packet} (hok : m.handleFill pkt = .ok (pkt', m')) :
    m'.Sources ∧ (m'.deferredTargets.list = m.deferredTargets.list ∨ m'.deferredTargets.list = []) := by
  unfold MSHR.handleFill at hok
  generalize (if m.pendingShared then { pkt with shared := true } else pkt) = p at hok
  dsimp only at hok
  split at hok
  · obtain ⟨-, hok⟩ := of_ensure hok
    obtain ⟨-, hok⟩ := of_ensure hok
    rw [← (Prod.mk.inj (ok.inj hok)).2]
    refine ⟨⟨fun u hu => absurd hu not_mem_nil, fun u hu hp => ?_⟩, .inr rfl⟩
    rcases mem_append.1 hu with hu | hu
    · exact h.prefetcher u hu hp
    · cases (h.deferred u hu).symm.trans hp
  · rw [← (Prod.mk.inj (ok.inj hok)).2]
    exact ⟨h, .inl rfl⟩

theorem Sources.promoteDeferredTargets {curTick : Nat} {again : Bool}
    (hok : m.promoteDeferredTargets curTick = .ok (again, m')) : m'.Sources := by
  obtain ⟨ht, ⟨-, -, rfl⟩ | ⟨-, t, rest, -, -, rfl⟩⟩ := promoteDeferredTargets_eq_ok hok
  · exact h
  · refine ⟨fun u hu => ?_, fun u hu hp => ?_⟩
    · replace hu : u ∈ m.targets.list := hu
      rw [ht] at hu
      cases hu
    · cases (h.deferred u hu).symm.trans hp

theorem Sources.popTarget : m.popTarget.Sources := by
  exact ⟨h.deferred, fun t ht => h.prefetcher t (mem_of_mem_tail ht)⟩

end

/-! ## The response to an MSHR -/

/-- The MSHR after its targets have been served. -/
def popTargets (m : MSHR) : MSHR := m.targets.list.foldl (fun m _ => m.popTarget) m

/-- The MSHR `m'` is what a response leaves of `m`, before its deferred targets get their turn. -/
def Answered (m m' : MSHR) : Prop :=
  ∃ fill m₀, m.handle (.response fill) = .ok m₀ ∧ m' = m₀.popTargets

/-- What holds of an MSHR when the response has been handled. -/
structure Emptied (m m' : MSHR) : Prop where
  inv : m'.Inv
  sources : m'.Sources
  phase : m'.phase = .answered
  inService : m'.inService
  targets : m'.targets.list = []
  deferred : m'.deferredTargets.list = m.deferredTargets.list

/-- The loop pops all targets. -/
theorem emptied_popTargets : ∀ {ts : List Target} {m : MSHR}, m.targets.list = ts → m.Inv → m.Sources →
    m.phase = .answered → Emptied m (ts.foldl (fun m _ => m.popTarget) m)
  | [], m, hl, hi, hs, hp => ⟨hi, hs, hp, hi.answered hp, hl, rfl⟩
  | t :: ts, m, hl, hi, hs, hp => by
    have hpop := hi.popTarget hp (by rw [hl]; exact cons_ne_nil _ _)
    have hnext : m.popTarget.targets.list = ts ∧ m.popTarget.phase = m.phase ∧
        m.popTarget.deferredTargets = m.deferredTargets := by
      unfold popTarget
      rw [hl]
      exact ⟨rfl, rfl, rfl⟩
    have hrec := emptied_popTargets hnext.1 hpop hs.popTarget (hnext.2.1.trans hp)
    rw [foldl_cons]
    exact ⟨hrec.inv, hrec.sources, hrec.phase, hrec.inService, hrec.targets, by rw [hrec.deferred, hnext.2.2]⟩

/-- After the response no target is left. -/
theorem Answered.emptied (h : Answered m m') (hi : m.Inv) (hsrc : m.Sources) (hs : m.inService)
    (hp : m.downstreamPending = false) : (∃ m₀, Emptied m₀ m') ∧
      (m'.deferredTargets.list = m.deferredTargets.list ∨ m'.deferredTargets.list = []) := by
  obtain ⟨fill, m₀, hok, rfl⟩ := h
  obtain ⟨m₁, hm₁, hinv⟩ := hi.response hs hp fill
  cases hok.symm.trans hm₁
  have hfacts : m₀.Sources ∧ m₀.phase = .answered ∧
      (m₀.deferredTargets.list = m.deferredTargets.list ∨ m₀.deferredTargets.list = []) := by
    cases fill with
    | none =>
      rw [← ok.inj hok]
      exact ⟨hsrc.congr rfl rfl, rfl, .inl rfl⟩
    | some pkt =>
      obtain ⟨⟨pkt', n⟩, hn, hok⟩ := of_bind hok
      rw [← ok.inj hok]
      obtain ⟨hn, hd⟩ := hsrc.handleFill hn
      exact ⟨hn.congr rfl rfl, rfl, hd⟩
  have hemp := emptied_popTargets rfl hinv hfacts.1 hfacts.2.1
  refine ⟨⟨_, hemp⟩, ?_⟩
  unfold popTargets
  rw [hemp.deferred]
  exact hfacts.2.2

end MSHR

/-! ## Calls on a queue that end -/

namespace MSHRQueue

variable {q q' : MSHRQueue} {i : Nat}

/-- Only entry `i` changes. -/
structure Touches (i : Nat) (q q' : MSHRQueue) : Prop where
  others : ∀ j, j ≠ i → q'.registers j = q.registers j
  numEntries : q'.numEntries = q.numEntries
  numReserve : q'.numReserve = q.numReserve

theorem Touches.setMSHR (q : MSHRQueue) (i : Nat) (m : MSHR) : Touches i q (q.setMSHR i m) :=
  ⟨fun _ hj => setMSHR_of_ne m hj, rfl, rfl⟩

theorem Touches.trans {q'' : MSHRQueue} (h : Touches i q q') (h' : Touches i q' q'') : Touches i q q'' :=
  ⟨fun j hj => (h'.others j hj).trans (h.others j hj), h'.numEntries.trans h.numEntries,
    h'.numReserve.trans h.numReserve⟩

theorem addToReadyList_eq_ok {it : Nat} (h : q.addToReadyList i = .ok (it, q')) :
    ∃ l, q' = { q with nextNode := q.nextNode + 1, readyList := l } := by
  unfold addToReadyList at h
  dsimp only at h
  have hok : ∀ {l}, ok (q.nextNode, { q with nextNode := q.nextNode + 1, readyList := l }) =
    (ok (it, q') : Except Fault _) →
      ∃ l, q' = { q with nextNode := q.nextNode + 1, readyList := l } := fun h => ⟨_, (Prod.mk.inj (ok.inj h)).2.symm⟩
  split at h
  · exact hok h
  · split at h
    · exact hok h
    · split at h
      · exact hok h
      · cases h

theorem makeReady_eq_ok (h : q.makeReady i = .ok q') : Touches i q q' ∧ q'.allocatedList = q.allocatedList ∧
    q'.freeList = q.freeList ∧ q'.allocated = q.allocated ∧
      ∃ it, q'.registers i = { q.registers i with readyIter := it } := by
  obtain ⟨⟨it, q₁⟩, h₁, h⟩ := of_bind h
  obtain ⟨l, rfl⟩ := addToReadyList_eq_ok h₁
  cases h
  exact ⟨⟨fun j hj => registers_of_ne hj, rfl, rfl⟩, rfl, rfl, rfl, it, registers_self⟩

variable {addr : Addr} {order size whenReady : Nat} {pkt : Packet} {up : Option Nat}

/-- The first free entry is taken, and goes to the end of the entries. -/
theorem allocate_eq_ok
    (h : q.allocate addr size pkt up whenReady order = .ok (i, q')) : Touches i q q' ∧ q.freeList = i :: q'.freeList ∧
      q'.entries = q.entries ++ [i] ∧ q'.allocated = q.allocated + 1 ∧ (q'.registers i).addr = addr ∧
      (q.registers i).mshr.allocate pkt up whenReady order = .ok (q'.registers i).mshr := by
  unfold allocate at h
  split at h
  · cases h
  · next k free hf =>
    obtain ⟨-, h⟩ := of_ensure h
    obtain ⟨m, hm, h⟩ := of_bind h
    obtain ⟨q₂, h₂, h⟩ := of_bind h
    obtain ⟨rfl, rfl⟩ := Prod.mk.inj (ok.inj h)
    obtain ⟨ht, hal, hfr, hn, it, hr⟩ := makeReady_eq_ok h₂
    simp only [setEntry, Function.update_self] at hr
    refine ⟨⟨fun j hj => ?_, ht.numEntries, ht.numReserve⟩, ?_, ?_, ?_, ?_, ?_⟩
    · exact (ht.others j hj).trans (Function.update_of_ne hj _ _)
    · exact hf.trans (congrArg _ hfr.symm)
    · show q₂.allocatedList.map Node.val = _
      rw [hal, map_append]
      rfl
    · rw [hn]
      rfl
    · rw [hr]
    · rw [hr]
      exact hm

theorem eraseNode_eq_ok {l l' : List (Node Nat)} {it : Nat} (h : eraseNode l it = .ok l') :
    l' = l.filter fun n => decide (n.id ≠ it) := by
  unfold eraseNode erase at h
  split at h
  · next hl =>
    split at hl
    · rw [← ok.inj h, ← Option.some.inj hl]
    · cases hl
  · cases h

/-- The entry goes to the front of the free ones. -/
theorem deallocate_eq_ok (h : q.deallocate i = .ok q') : Touches i q q' ∧ q'.freeList = i :: q.freeList ∧
    q'.allocated = q.allocated - 1 ∧ (∀ j ∈ q'.entries, j ∈ q.entries) ∧ (q'.registers i).addr = (q.registers i).addr ∧
      (q.registers i).mshr.deallocate = .ok (q'.registers i).mshr := by
  obtain ⟨l, hl, h⟩ := of_bind h
  have hsub : ∀ j ∈ l.map Node.val, j ∈ q.entries := by
    intro j hj
    obtain ⟨n, hn, rfl⟩ := mem_map.1 hj
    rw [eraseNode_eq_ok hl] at hn
    exact mem_map_of_mem (mem_of_mem_filter hn)
  -- the ready list and the count of entries in service apart, the queue is the same in both cases
  have hq₁ : ∃ q₁ : MSHRQueue, (do
      let m ← (q₁.registers i).mshr.deallocate
      .ok (q₁.setMSHR i m) : Except Fault MSHRQueue) = .ok q' ∧
      q₁.registers = q.registers ∧ q₁.allocatedList = l ∧ q₁.freeList = i :: q.freeList ∧
      q₁.allocated = q.allocated - 1 ∧ q₁.numEntries = q.numEntries ∧ q₁.numReserve = q.numReserve := by
    dsimp only at h
    split at h
    · exact ⟨_, h, rfl, rfl, rfl, rfl, rfl, rfl⟩
    · obtain ⟨lr, -, h⟩ := of_bind h
      exact ⟨_, h, rfl, rfl, rfl, rfl, rfl, rfl⟩
  obtain ⟨q₁, h, hr, hal, hf, hn, hne, hnr⟩ := hq₁
  obtain ⟨m, hm, rfl⟩ := of_map h
  refine ⟨⟨fun j hj => ?_, hne, hnr⟩, hf, hn, ?_, ?_, ?_⟩
  · rw [setMSHR_of_ne m hj, hr]
  · show ∀ j ∈ q₁.allocatedList.map Node.val, _
    rw [hal]
    exact hsub
  · rw [setMSHR, registers_self, hr]
  · rw [setMSHR_self, ← hr]
    exact hm

/-- The entry leaves the ready list, and the queue if it is done. -/
theorem markInService_eq_ok (h : q.markInService i = .ok q') : ∃ done m,
    (q.registers i).mshr.markInService = .ok (done, m) ∧ Touches i q q' ∧ (q'.registers i).addr = (q.registers i).addr ∧
      (done ∧ q'.freeList = i :: q.freeList ∧ q'.allocated = q.allocated - 1 ∧
          (∀ j ∈ q'.entries, j ∈ q.entries) ∧ m.deallocate = .ok (q'.registers i).mshr ∨
        done = false ∧ q'.freeList = q.freeList ∧ q'.allocated = q.allocated ∧ q'.entries = q.entries ∧
          (q'.registers i).mshr = m) := by
  obtain ⟨⟨done, m⟩, hm, h⟩ := of_bind h
  refine ⟨done, m, hm, ?_⟩
  have hset := Touches.setMSHR q i m
  dsimp only at h
  split at h
  · next hdone =>
    obtain ⟨ht, hf, hn, he, ha, hd⟩ := deallocate_eq_ok h
    rw [setMSHR_self] at hd
    rw [setMSHR, registers_self] at ha
    exact ⟨hset.trans ht, ha, .inl ⟨hdone, hf, hn, he, hd⟩⟩
  · next hdone =>
    obtain ⟨l, -, rfl⟩ := of_map h
    refine ⟨⟨hset.others, rfl, rfl⟩, ?_, .inr ⟨Bool.eq_false_iff.2 hdone, rfl, rfl, rfl, setMSHR_self m⟩⟩
    rw [setMSHR, registers_self]

/-- The entry goes back to the ready list. -/
theorem markPending_eq_ok (h : q.markPending i = .ok q') : Touches i q q' ∧ q'.freeList = q.freeList ∧
    q'.allocated = q.allocated ∧ q'.entries = q.entries ∧ (q'.registers i).addr = (q.registers i).addr ∧
      (q.registers i).mshr.inService ∧
      (q'.registers i).mshr = { (q.registers i).mshr with inService := false, phase := .busy } := by
  obtain ⟨hs, h⟩ := of_ensure h
  obtain ⟨ht, hal, hf, hn, it, hr⟩ := makeReady_eq_ok h
  have hself : (q.setMSHR i { (q.registers i).mshr with inService := false, phase := .busy }).registers i =
      { q.registers i with mshr := { (q.registers i).mshr with inService := false, phase := .busy } } := registers_self
  rw [hself] at hr
  refine ⟨⟨fun j hj => ?_, ht.numEntries, ht.numReserve⟩, hf, hn, ?_, ?_, hs, ?_⟩
  · exact (ht.others j hj).trans (setMSHR_of_ne _ hj)
  · show q'.allocatedList.map Node.val = _
    rw [hal]
    rfl
  · rw [hr]
  · rw [hr]

/-! ## Queues whose MSHRs are used in order -/

/-- The queue is consistent, its free entries are free and its allocated entries are busy, and its MSHRs are in
order. -/
structure Sane (q : MSHRQueue) : Prop where
  consistent : q.Consistent
  inv : ∀ i, (q.registers i).mshr.Inv
  sources : ∀ i, (q.registers i).mshr.Sources
  busy : ∀ i ∈ q.entries, (q.registers i).mshr.phase = .busy
  free : ∀ i ∈ q.freeList, (q.registers i).mshr.phase = .free

theorem Sane.create (numEntries reserve : Nat) : (create numEntries reserve).Sane :=
  ⟨.create numEntries reserve, fun _ => .init, fun _ => .init, nofun, fun _ _ => rfl⟩

theorem Sane.not_free (h : q.Sane) (hi : i ∈ q.entries) : i ∉ q.freeList := by
  intro hf
  cases (h.busy i hi).symm.trans (h.free i hf)

/-- Only the entry that is touched needs to be looked at. -/
theorem Sane.of_touches (h : q.Sane) (ht : Touches i q q') (hc : q'.Consistent)
    (hinv : (q'.registers i).mshr.Inv) (hsrc : (q'.registers i).mshr.Sources)
    (hb : i ∈ q'.entries → (q'.registers i).mshr.phase = .busy)
    (hf : i ∈ q'.freeList → (q'.registers i).mshr.phase = .free)
    (he : ∀ j, j ≠ i → (j ∈ q'.entries → j ∈ q.entries) ∧ (j ∈ q'.freeList → j ∈ q.freeList)) : q'.Sane := by
  refine ⟨hc, fun j => ?_, fun j => ?_, fun j hj => ?_, fun j hj => ?_⟩ <;> by_cases hji : j = i
  · exact hji ▸ hinv
  · rw [ht.others j hji]
    exact h.inv j
  · exact hji ▸ hsrc
  · rw [ht.others j hji]
    exact h.sources j
  · subst hji
    exact hb hj
  · rw [ht.others j hji]
    exact h.busy j ((he j hji).1 hj)
  · subst hji
    exact hf hj
  · rw [ht.others j hji]
    exact h.free j ((he j hji).2 hj)

theorem Sane.of_kept (h : q.Sane) (hi : i ∈ q.entries) (ht : Touches i q q') (hc : q'.Consistent)
    (hinv : (q'.registers i).mshr.Inv) (hsrc : (q'.registers i).mshr.Sources) (hb : (q'.registers i).mshr.phase = .busy)
    (hf : q'.freeList = q.freeList) (he : q'.entries = q.entries) : q'.Sane := by
  refine h.of_touches ht hc hinv hsrc (fun _ => hb) (fun hf' => ?_) fun j _ => ⟨fun hj => he ▸ hj, fun hj => hf ▸ hj⟩
  rw [hf] at hf'
  exact absurd hf' (h.not_free hi)

theorem Sane.of_released (h : q.Sane) {m : MSHR} (ht : Touches i q q') (hc : q'.Consistent)
    (hinv : (q'.registers i).mshr.Inv) (hsrc : m.Sources) (hd : m.deallocate = .ok (q'.registers i).mshr)
    (hf : q'.freeList = i :: q.freeList) (he : ∀ j ∈ q'.entries, j ∈ q.entries) : q'.Sane := by
  obtain ⟨-, -, -, hfree⟩ := MSHR.deallocate_eq_ok hd
  refine h.of_touches ht hc hinv ?_ (fun hi => ?_) (fun _ => ?_) fun j hj => ⟨he j, fun hj' => ?_⟩
  · rw [hfree]
    exact hsrc.congr rfl rfl
  · exact absurd rfl ((nodup_append.1 hc.nodup).2.2 i (by rw [hf]; exact mem_cons_self) i hi)
  · rw [hfree]
  · rw [hf] at hj'
    exact (mem_cons.1 hj').resolve_left hj

theorem Sane.allocate (h : q.Sane) (hok : q.allocate addr size pkt up whenReady order = .ok (i, q')) : q'.Sane := by
  obtain ⟨ht, hf, he, -, -, hm⟩ := allocate_eq_ok hok
  have hfree : i ∈ q.freeList := by
    rw [hf]
    exact mem_cons_self
  obtain ⟨i', q'', hok', hc⟩ := h.consistent.allocate (by rw [hf]; exact cons_ne_nil _ _) addr size pkt up
    whenReady order
  obtain ⟨rfl, rfl⟩ := Prod.mk.inj (ok.inj (hok.symm.trans hok'))
  obtain ⟨m, hm', hinv⟩ : ∃ m, (q.registers i).mshr.allocate pkt up whenReady order = .ok m ∧ m.Inv :=
    (h.inv i).allocate (h.free i hfree) whenReady order
  have hmi : m = (q'.registers i).mshr := ok.inj (hm'.symm.trans hm)
  refine h.of_touches ht hc (hmi ▸ hinv) ((h.sources i).allocate hm) (fun _ => ?_) (fun hi => ?_) fun j hj => ⟨?_, ?_⟩
  · rw [MSHR.allocate_eq_ok hm]
    rfl
  · -- the free list has the entry once
    have hd := (nodup_append.1 h.consistent.nodup).1
    rw [hf] at hd
    exact absurd hi (nodup_cons.1 hd).1
  · rw [he]
    intro hj'
    rcases mem_append.1 hj' with hj' | hj'
    · exact hj'
    · exact absurd (mem_singleton.1 hj') hj
  · rw [hf]
    exact mem_cons_of_mem _

theorem Sane.allocate_ready (h : q'.Sane)
    (hok : q.allocate addr size pkt up whenReady order = .ok (i, q')) :
    ∃ n ∈ q'.readyList, n.val = i ∧ q'.readyTime n = whenReady := by
  obtain ⟨-, -, he, -, -, hm⟩ := allocate_eq_ok hok
  have hnew := MSHR.allocate_eq_ok hm
  have hready : i ∈ q'.readyList.map Node.val := by
    refine h.consistent.mem_ready.2 ⟨?_, ?_⟩
    · rw [he]
      exact mem_append_right _ (mem_singleton_self _)
    · rw [hnew]
      rfl
  obtain ⟨n, hn, hv⟩ := mem_map.1 hready
  refine ⟨n, hn, hv, ?_⟩
  rw [readyTime, hv, hnew]
  rfl

/-- The MSHR of an entry may change, but not whether it is sent and when it is ready. -/
theorem Sane.change (h : q.Sane) (hi : i ∈ q.entries) {m : MSHR} (hinv : m.Inv) (hsrc : m.Sources)
    (hb : m.phase = .busy) (hs : m.inService = (q.registers i).mshr.inService)
    (hr : m.inService = false → m.readyTime = (q.registers i).mshr.readyTime) : (q.setMSHR i m).Sane := by
  refine h.of_kept hi (.setMSHR q i m) (h.consistent.change hi hs hr) ?_ ?_ ?_ rfl rfl
  all_goals rwa [setMSHR_self]

theorem Sane.congr (h : q.Sane) {regs : Nat → MSHREntry} (hm : ∀ j, (regs j).mshr = (q.registers j).mshr)
    (ha : ∀ j, (regs j).allocIter = (q.registers j).allocIter)
    (hr : ∀ j, (regs j).readyIter = (q.registers j).readyIter) : Sane { q with registers := regs } := by
  refine ⟨⟨h.consistent.partition, ?_, ?_, ?_, ?_, h.consistent.allocated, ?_, fun i hi => ?_⟩, fun i => ?_,
    fun i => ?_,
    fun i hi => ?_, fun i hi => ?_⟩
  · exact h.consistent.alloc.congr (fun n _ => ha n.val) (Nat.le_refl _)
  · exact h.consistent.ready.congr (fun n _ => hr n.val) (Nat.le_refl _)
  · simp only [hm]
    exact h.consistent.readyEntries
  · exact sorted_congr h.consistent.sorted fun n _ => by rw [hm]
  · simp only [hm]
    exact h.consistent.inService
  · rw [hm]
    exact h.consistent.clean i hi
  all_goals dsimp only; rw [hm]
  · exact h.inv i
  · exact h.sources i
  · exact h.busy i hi
  · exact h.free i hi

theorem Sane.markInService (h : q.Sane) (hi : i ∈ q.entries) (hok : q.markInService i = .ok q') : q'.Sane := by
  obtain ⟨done, m, hm, ht, -, hcase⟩ := markInService_eq_ok hok
  have hinv := (h.inv i).of_markInService hm
  have hsrc : m.Sources := by
    obtain ⟨-, ⟨-, rfl⟩ | ⟨-, u, rfl⟩⟩ := MSHR.markInService_eq_ok hm
    · exact (h.sources i).popTarget
    · exact (h.sources i).congr rfl rfl
  rcases hcase with ⟨rfl, hf, -, he, hd⟩ | ⟨rfl, hf, -, he, hmi⟩
  · obtain ⟨q'', hok', hc⟩ := h.consistent.markInService hi (by
      rw [MSHR.handle, hm]
      exact hd)
    cases hok.symm.trans hok'
    exact h.of_released ht hc (hinv _ hd) hsrc hd hf he
  · obtain ⟨q'', hok', hc⟩ := h.consistent.markInService hi (by
      rw [MSHR.handle, hm, ok_bind]
      exact if_neg (by simp))
    cases hok.symm.trans hok'
    refine h.of_kept hi ht hc ?_ (hmi ▸ hsrc) ?_ hf he
    · rw [hmi]
      exact hinv
    · obtain ⟨-, ⟨hd, -⟩ | ⟨-, u, rfl⟩⟩ := MSHR.markInService_eq_ok hm
      · cases hd
      · rw [hmi]
        exact h.busy i hi

section Response

variable {m m₁ m₂ : MSHR} {curTick : Nat}

/-- An answered MSHR with deferred targets is sent again. -/
theorem Sane.requeue (h : q.Sane) (hi : i ∈ q.entries) (hs : (q.registers i).mshr.inService)
    (hm : MSHR.Emptied m m₁) (hp : m₁.promoteDeferredTargets curTick = .ok (true, m₂))
    (hok : (q.setMSHR i m₂).markPending i = .ok q') : q'.Sane := by
  have hsame : m₂.inService = (q.registers i).mshr.inService := by
    rw [promoteDeferredTargets_same hp, hm.inService, hs]
  have hc₂ : (q.setMSHR i m₂).Consistent := h.consistent.change hi hsame fun hout => by
    rw [hsame, hs] at hout
    cases hout
  obtain ⟨q'', hok', hc⟩ := hc₂.markPending hi (by rw [setMSHR_self, hsame, hs])
  cases hok.symm.trans hok'
  obtain ⟨ht, hf, -, he, -, -, hmi⟩ := markPending_eq_ok hok
  rw [setMSHR_self] at hmi
  refine h.of_kept hi ((Touches.setMSHR q i m₂).trans ht) hc ?_ ?_ ?_ hf he
  · rw [hmi]
    exact hm.inv.requeued hp
  · rw [hmi]
    exact (hm.sources.promoteDeferredTargets hp).congr rfl rfl
  · rw [hmi]

/-- An answered MSHR without them is freed. -/
theorem Sane.release (h : q.Sane) (hi : i ∈ q.entries) (hs : (q.registers i).mshr.inService)
    (hm : MSHR.Emptied m m₁) (hp : m₁.promoteDeferredTargets curTick = .ok (false, m₂))
    (hok : (q.setMSHR i m₂).deallocate i = .ok q') : q'.Sane := by
  obtain ⟨ht, hf, -, he, -, hd⟩ := deallocate_eq_ok hok
  rw [setMSHR_self] at hd
  obtain ⟨-, ⟨-, hdef, rfl⟩ | ⟨hf, -⟩⟩ := MSHR.promoteDeferredTargets_eq_ok hp
  swap
  · cases hf
  have hc₂ : (q.setMSHR i m₂).Consistent := h.consistent.change hi (hm.inService.trans hs.symm) fun hout => by
    rw [hm.inService] at hout
    cases hout
  obtain ⟨q'', hok', hc⟩ := hc₂.deallocate hi (by rw [setMSHR_self]; exact hd)
  cases hok.symm.trans hok'
  exact h.of_released ((Touches.setMSHR q i m₂).trans ht) hc (.of_deallocate hdef hd) hm.sources hd hf he

end Response

end MSHRQueue

end M5.Mem
