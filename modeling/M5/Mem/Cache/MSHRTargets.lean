import M5.Lib.Run
import M5.Mem.Cache.MSHR

/-!
# The targets of an MSHR

The flags of the two lists, the count of the targets and the reason for which targets are deferred, over all sequences
of calls in the order in which the cache makes them.
-/

namespace M5.Mem.MSHR

open M5.Lib List TargetList Nat Bool

/-! ## Lists with their flags -/

namespace TargetList

variable {l : TargetList} {t : Target}

/-- An upgrade that is not from a snoop is in the flag. -/
def Flagged (l : TargetList) : Prop :=
  (∃ t ∈ l.list, t.source ≠ .FromSnoop ∧ t.pkt.cmd = .UpgradeReq) → l.hasUpgrade

@[simp] theorem list_add (l : TargetList) (t : Target) : (l.add t).list = l.list ++ [t] := by
  unfold add
  split <;> rfl

theorem hasUpgrade_add (h : l.hasUpgrade) (t : Target) : (l.add t).hasUpgrade := by
  unfold add
  split <;> simp [h]

theorem Flagged.add (h : l.Flagged) (t : Target) : (l.add t).Flagged := by
  rintro ⟨u, hu, hsource, hcmd⟩
  rw [list_add] at hu
  rcases mem_append.1 hu with hu | hu
  · exact hasUpgrade_add (h ⟨u, hu, hsource, hcmd⟩) t
  · obtain rfl := mem_singleton.1 hu
    unfold TargetList.add
    simp [hsource, hcmd]

theorem needsExclusive_add_snoop (h : t.source = .FromSnoop) : (l.add t).needsExclusive = l.needsExclusive := by
  simp [add, h]

theorem Flagged.replaceUpgrades (h : l.Flagged) : l.replaceUpgrades.Flagged := by
  unfold TargetList.replaceUpgrades
  split
  · exact h
  · rintro ⟨u, hu, -, hcmd⟩
    obtain ⟨t, -, rfl⟩ := mem_map.1 hu
    split at hcmd
    · cases hcmd
    · contradiction

@[simp] theorem length_replaceUpgrades (l : TargetList) : l.replaceUpgrades.list.length = l.list.length := by
  unfold replaceUpgrades
  split <;> simp

@[simp] theorem replaceUpgrades_eq_nil : l.replaceUpgrades.list = [] ↔ l.list = [] := by
  rw [← length_eq_zero_iff, length_replaceUpgrades, length_eq_zero_iff]

@[simp] theorem needsExclusive_replaceUpgrades (l : TargetList) :
    l.replaceUpgrades.needsExclusive = l.needsExclusive := by
  unfold replaceUpgrades
  split <;> rfl

theorem isReset_replaceUpgrades (h : l.isReset) : l.replaceUpgrades.isReset := by
  unfold replaceUpgrades
  split
  · exact h
  · simp_all [isReset]

theorem flagged_nil (h : l.list = []) : l.Flagged := by
  rintro ⟨t, ht, -⟩
  rw [h] at ht
  cases ht

end TargetList

/-! ## The invariant -/

def total (m : MSHR) : Nat := m.targets.list.length + m.deferredTargets.list.length

structure Inv (m : MSHR) : Prop where
  count : m.ntargets = m.total % 2 ^ 16
  free : m.phase = .free → m.targets.list = [] ∧ m.targets.isReset ∧ m.deferredTargets.list = []
  busy : m.phase = .busy → m.targets.list ≠ []
  answered : m.phase = .answered → m.inService
  reset : m.deferredTargets.list = [] → m.deferredTargets.isReset
  deferred : m.deferredTargets.list ≠ [] →
    m.inService ∧ (m.pendingInvalidate ∨ m.targets.needsExclusive = false)
  upgrade : m.phase = .busy → m.targets.Flagged
  upgradeDeferred : m.deferredTargets.Flagged

theorem Inv.init : Inv {} where
  count := rfl
  free := fun _ => ⟨rfl, rfl, rfl⟩
  busy := nofun
  answered := nofun
  reset := fun _ => rfl
  deferred := absurd rfl
  upgrade := nofun
  upgradeDeferred := flagged_nil rfl

theorem pred_mod {k : Nat} (hk : 0 < k) (n : Nat) : ((n + 1) % k + (k - 1)) % k = n % k := by
  rw [mod_add_mod, show n + 1 + (k - 1) = n + k by omega, add_mod_right]

section steps

variable {m : MSHR} {pkt : Packet} {up : Option Nat}

section

variable (h : m.Inv)

include h

theorem Inv.allocate (hf : m.phase = .free) (whenReady order : Nat) :
    ∃ m', m.allocate pkt up whenReady order = .ok m' ∧ m'.Inv := by
  obtain ⟨ht, hreset, hd⟩ := h.free hf
  rw [MSHR.allocate, ensure_bind hreset, ensure_bind (h.reset hd)]
  refine ⟨_, rfl, ?_, nofun, ?_, nofun, h.reset, absurd hd, fun _ => ?_, h.upgradeDeferred⟩
  · simp [total, addTarget, ht, hd]
  · simp [addTarget]
  · exact (flagged_nil ht).add _

omit h in
theorem Inv.deallocate (hf : m.targets.list = []) (hd : m.deferredTargets.list = [])
    (hr : m.deferredTargets.isReset) (hn : m.ntargets = 0) : ∃ m', m.deallocate = .ok m' ∧ m'.Inv := by
  rw [MSHR.deallocate, ensure_bind hf]
  rw [ensure_bind hr, ensure_bind hn]
  refine ⟨_, rfl, ?_, fun _ => ⟨hf, rfl, hd⟩, nofun, nofun, fun _ => hr, absurd hd, nofun,
    flagged_nil hd⟩
  simp [total, resetFlags, hf, hd, hn]

theorem Inv.allocateTarget (hb : m.phase = .busy) (hcmd : pkt.cmd ≠ .HardPFReq) (whenReady order : Nat) :
    ∃ m', m.allocateTarget pkt up whenReady order = .ok m' ∧ m'.Inv := by
  have hcount := h.count
  rw [MSHR.allocateTarget, ensure_bind hcmd]
  split
  · next hdefer =>
    simp only [and_eq_true, or_eq_true, not_eq_true', isEmpty_eq_false_iff] at hdefer
    obtain ⟨hs, hwhy⟩ := hdefer
    refine ⟨_, rfl, ?_, ?_, h.busy, h.answered, ?_, fun _ => ⟨hs, ?_⟩, h.upgrade, h.upgradeDeferred.add _⟩
    · simp only [total, incTargets, list_add, length_append, length_singleton]
      rw [hcount, total]
      omega
    · intro hf
      cases hb.symm.trans hf
    · simp [incTargets]
    · -- the reasons to defer a target
      rcases hwhy with (hne | hinv) | hex
      · exact (h.deferred hne).2
      · exact .inl hinv
      · exact .inr hex.1
  · next hno =>
    refine ⟨_, rfl, ?_, ?_, ?_, h.answered, h.reset, fun hne => ?_, fun _ => (h.upgrade hb).add _, h.upgradeDeferred⟩
    · simp only [total, addTarget, incTargets, list_add, length_append, length_singleton]
      rw [hcount, total]
      omega
    · intro hf
      cases hb.symm.trans hf
    · simp [addTarget, incTargets]
    · have hne : m.deferredTargets.list ≠ [] := hne
      exact absurd (by simp [(h.deferred hne).1, hne]) hno

theorem Inv.replaceDeferred : Inv { m with deferredTargets := m.deferredTargets.replaceUpgrades } where
  count := by
    rw [total, length_replaceUpgrades]
    exact h.count
  free := fun hf => ⟨(h.free hf).1, (h.free hf).2.1, replaceUpgrades_eq_nil.2 (h.free hf).2.2⟩
  busy := h.busy
  answered := h.answered
  reset := fun hd => isReset_replaceUpgrades (h.reset (replaceUpgrades_eq_nil.1 hd))
  deferred := fun hd => h.deferred fun h0 => hd (replaceUpgrades_eq_nil.2 h0)
  upgrade := h.upgrade
  upgradeDeferred := h.upgradeDeferred.replaceUpgrades

theorem Inv.replaceTargets : Inv { m with targets := m.targets.replaceUpgrades } where
  count := by
    rw [total, length_replaceUpgrades]
    exact h.count
  free := fun hf => ⟨replaceUpgrades_eq_nil.2 (h.free hf).1, isReset_replaceUpgrades (h.free hf).2.1,
    (h.free hf).2.2⟩
  busy := fun hb h0 => h.busy hb (replaceUpgrades_eq_nil.1 h0)
  answered := h.answered
  reset := h.reset
  deferred := by
    rw [needsExclusive_replaceUpgrades]
    exact h.deferred
  upgrade := fun hb => (h.upgrade hb).replaceUpgrades
  upgradeDeferred := h.upgradeDeferred

theorem Inv.addSnoop (hb : m.phase = .busy) {t : Target} (ht : t.source = .FromSnoop) (inv : Bool) :
    Inv { (m.addTarget t).incTargets with pendingInvalidate := m.pendingInvalidate || inv } where
  count := by
    have hcount := h.count
    simp only [total, addTarget, incTargets, list_add, length_append, length_singleton]
    rw [hcount, total]
    omega
  free := fun hf => by cases hb.symm.trans hf
  busy := fun _ => by simp [addTarget, incTargets]
  answered := h.answered
  reset := h.reset
  deferred := by
    intro hd
    obtain ⟨hs, hwhy⟩ := h.deferred hd
    refine ⟨hs, ?_⟩
    simp only [addTarget, incTargets, needsExclusive_add_snoop ht, or_eq_true]
    exact hwhy.imp_left .inl
  upgrade := fun _ => (h.upgrade hb).add t
  upgradeDeferred := h.upgradeDeferred

theorem Inv.handleSnoop (hb : m.phase = .busy) (curTick order : Nat) :
    (m.handleSnoop pkt up curTick order).2.2.Inv := by
  refine handleSnoop_rule (P := fun n => n.Inv ∧ n.phase = .busy) ⟨h, hb⟩ (fun h => ⟨h.1.replaceDeferred, h.2⟩)
    (fun h => ⟨h.1.replaceTargets, h.2⟩) And.left (fun h => ?_) (fun inv h ht => h.1.addSnoop h.2 ht inv) ..
  obtain ⟨h, -⟩ := h
  exact ⟨h.count, h.free, h.busy, h.answered, h.reset, h.deferred, h.upgrade, h.upgradeDeferred⟩

theorem Inv.markInService (hb : m.phase = .busy) (hs : m.inService = false) (hlt : m.total < 2 ^ 16) :
    ∃ m', m.handle .markInService = .ok m' ∧ m'.Inv := by
  have hd : m.deferredTargets.list = [] := by
    by_contra hne
    cases hs.symm.trans (h.deferred hne).1
  have hcount : m.ntargets = m.targets.list.length := by
    rw [h.count, mod_eq_of_lt hlt, total, hd, length_nil, Nat.add_zero]
  have hbusy : ∀ u : List UpstreamCall, Inv { m with inService := true, upstream := u } := fun u =>
    ⟨h.count, h.free, h.busy, fun _ => rfl, h.reset, absurd hd, h.upgrade, h.upgradeDeferred⟩
  rw [handle, MSHR.markInService, ensure_bind hs]
  cases hl : m.targets.list with
  | nil => exact absurd hl (h.busy hb)
  | cons t rest =>
    unfold isForwardNoResponse
    split
    · exact ⟨_, rfl, hbusy _⟩
    · next hone =>
      have hone : m.ntargets = 1 := not_not.1 hone
      have hrest : rest = [] := by
        rw [hl, length_cons] at hcount
        exact length_eq_zero_iff.1 (by omega)
      simp only [hl, ok_bind]
      split
      · rw [ensure_bind hone]
        unfold popTarget
        refine deallocate ?_ hd (h.reset hd) ?_
        · rw [hl, hrest, tail_cons]
        · simp [hone]
      · exact ⟨_, rfl, hbusy _⟩

theorem Inv.response (hs : m.inService) (hp : m.downstreamPending = false) (fill : Option Packet) :
    ∃ m', m.handle (.response fill) = .ok m' ∧ m'.Inv := by
  have hans : ∀ {n : MSHR}, n.Inv → n.inService → Inv { n with phase := .answered } := fun hn hs =>
    ⟨hn.count, nofun, nofun, fun _ => hs, hn.reset, hn.deferred, nofun, hn.upgradeDeferred⟩
  cases fill with
  | none => exact ⟨_, rfl, hans h hs⟩
  | some pkt =>
    rw [handle, handleFill]
    generalize (if m.pendingShared then { pkt with shared := true } else pkt) = p
    split
    · next hex =>
      simp only [and_eq_true, not_eq_true'] at hex
      obtain ⟨⟨-, hinv⟩, hex⟩ := hex
      have hne : m.deferredTargets.list ≠ [] := by
        intro h0
        have := h.reset h0
        simp [isReset, hex] at this
      have hshared : m.targets.needsExclusive = false :=
        (h.deferred hne).2.resolve_left (by simp [hinv])
      rw [ensure_bind hshared, ensure_bind hp]
      refine ⟨_, rfl, ?_, nofun, nofun, fun _ => hs, fun _ => rfl, absurd rfl, nofun,
        flagged_nil rfl⟩
      simp only [total, resetFlags, length_append, length_nil]
      exact h.count
    · exact ⟨_, rfl, hans h hs⟩

theorem Inv.popTarget (ha : m.phase = .answered) (hne : m.targets.list ≠ []) : m.popTarget.Inv := by
  obtain ⟨t, rest, hl⟩ := exists_cons_of_ne_nil hne
  have hcount := h.count
  rw [total, hl, length_cons, Nat.add_right_comm] at hcount
  unfold MSHR.popTarget
  refine ⟨?_, fun hf => ?_, fun hb => ?_, h.answered, h.reset, h.deferred, fun hb => ?_, h.upgradeDeferred⟩
  · rw [total, hl, tail_cons, hcount, pred_mod (Nat.two_pow_pos 16)]
  · cases ha.symm.trans hf
  · cases ha.symm.trans hb
  · cases ha.symm.trans hb

theorem Inv.promoteDeferredTargets (ha : m.phase = .answered) (ht : m.targets.list = [])
    (hlt : m.total < 2 ^ 16) (curTick : Nat) : ∃ m', m.handle (.promoteDeferredTargets curTick) = .ok m' ∧ m'.Inv := by
  have hcount : m.deferredTargets.list.length = m.ntargets := by
    rw [h.count, mod_eq_of_lt hlt, total, ht, length_nil, Nat.zero_add]
  rw [handle, MSHR.promoteDeferredTargets, ensure_bind ht]
  split
  · next hd =>
    rw [hd] at hcount
    exact deallocate ht hd (h.reset hd) hcount.symm
  · next t rest hd =>
    dsimp only
    rw [ensure_bind hcount, ok_bind]
    rw [ensure_bind (h.answered ha)]
    refine ⟨_, rfl, ?_, nofun, fun _ => ?_, nofun, fun _ => rfl, absurd ht,
      fun _ => h.upgradeDeferred, flagged_nil ht⟩
    · have hc := h.count
      simp only [total, resetFlags] at hc ⊢
      rw [hc, Nat.add_comm]
    · rw [hd]
      exact cons_ne_nil _ _

/-- Every allowed call ends, unless the count of targets overflows. -/
theorem Inv.step (hlt : m.total < 2 ^ 16) {a : Act} (ha : a.Allowed m) : ∃ m', m.handle a = .ok m' ∧ m'.Inv := by
  cases a with
  | allocate pkt up whenReady order => exact h.allocate ha whenReady order
  | allocateTarget pkt up whenReady order => exact h.allocateTarget ha.1 ha.2 whenReady order
  | snoop pkt up curTick order => exact ⟨_, rfl, h.handleSnoop ha curTick order⟩
  | setDownstreamPending =>
    exact ⟨_, rfl, h.count, h.free, h.busy, h.answered, h.reset, h.deferred, h.upgrade, h.upgradeDeferred⟩
  | clearDownstreamPending =>
    rw [handle, clearDownstreamPending, ensure_bind ha.2]
    exact ⟨_, rfl, h.count, h.free, h.busy, h.answered, h.reset, h.deferred, h.upgrade, h.upgradeDeferred⟩
  | markInService => exact h.markInService ha.1 ha.2 hlt
  | response fill => exact h.response ha.2.1 ha.2.2 fill
  | popTarget => exact ⟨_, rfl, h.popTarget ha.1 ha.2⟩
  | promoteDeferredTargets curTick => exact h.promoteDeferredTargets ha.1 ha.2 hlt curTick

end

end steps

/-! ## Runs -/

/-- What the flags and the count say about the lists. -/
structure Sound (m : MSHR) : Prop where
  count : m.ntargets = m.targets.list.length + m.deferredTargets.list.length
  upgrade : m.phase = .busy → m.targets.Flagged
  upgradeDeferred : m.deferredTargets.Flagged
  deferred : m.deferredTargets.list ≠ [] →
    m.inService ∧ (m.pendingInvalidate ∨ m.targets.needsExclusive = false)

/-- As long as there are fewer than 2^16 targets, no assertion fails. -/
theorem targets_sound {as : List Act} {m : MSHR}
    (h : Run (fun m a m' => Step m a m' ∧ m'.total < 2 ^ 16) {} as m) :
    m.Sound ∧ ∀ a : Act, a.Allowed m → ∃ m', m.handle a = .ok m' := by
  have hinv : m.Inv ∧ m.total < 2 ^ 16 := by
    refine h.invariant (I := fun m => m.Inv ∧ m.total < 2 ^ 16) ⟨.init, Nat.two_pow_pos 16⟩ ?_
    rintro m a m' ⟨hm, hlt⟩ ⟨⟨ha, hok⟩, hlt'⟩
    obtain ⟨m'', hok', hm'⟩ := hm.step hlt ha
    cases hok.symm.trans hok'
    exact ⟨hm', hlt'⟩
  obtain ⟨hm, hlt⟩ := hinv
  refine ⟨⟨?_, hm.upgrade, hm.upgradeDeferred, hm.deferred⟩, fun a ha => ?_⟩
  · rw [hm.count, mod_eq_of_lt hlt, total]
  · obtain ⟨m', hok, -⟩ := hm.step hlt ha
    exact ⟨m', hok⟩

instance (m : MSHR) : (a : Act) → Decidable (a.Allowed m)
  | .allocate .. | .snoop .. => inferInstanceAs (Decidable (_ = _))
  | .allocateTarget .. | .setDownstreamPending | .clearDownstreamPending | .markInService | .response _ | .popTarget
  | .promoteDeferredTargets _ => inferInstanceAs (Decidable (_ ∧ _))

/-- A call that is allowed and keeps the number of targets small. -/
def stepBounded (m : MSHR) (a : Act) : Except Fault MSHR := do
  ensure .assert (a.Allowed m)
  let m' ← m.handle a
  ensure .assert (m'.total < 2 ^ 16)
  .ok m'

theorem step_of_bounded {m m' : MSHR} {a : Act} (h : m.stepBounded a = .ok m') : Step m a m' ∧ m'.total < 2 ^ 16 := by
  obtain ⟨ha, h⟩ := of_ensure h
  obtain ⟨m'', hok, h⟩ := of_bind h
  obtain ⟨hlt, rfl⟩ := of_check h
  exact ⟨⟨ha, hok⟩, hlt⟩

/-- A read is out when an upgrade comes, which is deferred, replaced on a snoop and sent on after the response. -/
def deferredUpgrade : List Act :=
  [.allocate ⟨.ReadReq, 0, 64, fun _ => 0, {}, false, false, false, false⟩ none 0 0, .markInService,
    .allocateTarget ⟨.UpgradeReq, 0, 64, fun _ => 0, {}, false, false, false, false⟩ (some 3) 5 1,
    .snoop ⟨.ReadExReq, 0, 64, fun _ => 0, {}, false, false, false, false⟩ none 7 2,
    .response (some ⟨.ReadResp, 0, 64, fun _ => 0, {}, true, false, false, false⟩), .popTarget, .popTarget,
    .promoteDeferredTargets 20]

theorem sound_deferredUpgrade :
    ∃ m, Run (fun m a m' => Step m a m' ∧ m'.total < 2 ^ 16) {} deferredUpgrade m ∧
      m.ntargets = 1 ∧ m.targets.needsExclusive ∧ m.Sound := by
  obtain ⟨m, hrun, h1, h2⟩ := Run.exists_of_check stepBounded step_of_bounded {} deferredUpgrade
    (fun m => m.ntargets = 1 ∧ m.targets.needsExclusive) (by decide +kernel)
  exact ⟨m, hrun, h1, h2, (targets_sound hrun).1⟩

/-! ### Too many targets -/

def readSnoop : Packet := { cmd := .ReadReq, addr := 0, size := 64 }

def writeOut : List Act := [.allocate { cmd := .ReadExReq, addr := 0, size := 64 } none 0 0, .markInService]

/-- The state in which `n` snooped reads have been recorded for a block that is on its way for a write. -/
def Snooped (n : Nat) (m : MSHR) : Prop :=
  m.phase = .busy ∧ m.inService ∧ m.pendingInvalidate = false ∧ m.targets.needsExclusive ∧
    m.targets.list.length = n + 1 ∧ m.deferredTargets.list = [] ∧ m.ntargets = (n + 1) % 2 ^ 16

instance (n : Nat) (m : MSHR) : Decidable (m.Snooped n) := inferInstanceAs (Decidable (_ ∧ _))

theorem Snooped.step {n : Nat} {m : MSHR} (h : m.Snooped n) :
    ∃ m', Step m (.snoop readSnoop none 0 0) m' ∧ m'.Snooped (n + 1) := by
  obtain ⟨hbusy, hs, hinv, hex, hlen, hd, hcount⟩ := h
  let t : Target := ⟨0, 0, copyCleared readSnoop, none, .FromSnoop, m.downstreamPending && true⟩
  have hstep : m.handle (.snoop readSnoop none 0 0) = .ok (m.addTarget t).incTargets := by
    have hexp : readSnoop.expressSnoop = false := rfl
    have hread : readSnoop.needsExclusive = false := rfl
    simp only [handle, handleSnoop, hs, hinv, hex, hexp, hread, Bool.not_true, Bool.false_and, Bool.false_or,
      Bool.true_or, false_eq_true, if_true, if_false]
    rfl
  refine ⟨_, ⟨hbusy, hstep⟩, hbusy, hs, hinv, ?_, ?_, hd, ?_⟩
  · exact (needsExclusive_add_snoop rfl).trans hex
  · simp only [addTarget, incTargets, list_add, length_append, hlen, length_singleton]
  · show (m.ntargets + 1) % 2 ^ 16 = _
    rw [hcount, mod_add_mod]

theorem exists_snooped : ∀ n : Nat, ∃ as m, Run Step {} as m ∧ m.Snooped n
  | 0 => by
    exact ⟨writeOut, Run.exists_of_check stepBounded (fun h => (step_of_bounded h).1) _ _ _ (by decide +kernel)⟩
  | n + 1 => by
    obtain ⟨as, m, hrun, hm⟩ := exists_snooped n
    obtain ⟨m', hstep, hm'⟩ := hm.step
    exact ⟨_, m', hrun.snoc hstep, hm'⟩

/-- With 2^16 targets the count is 0. -/
theorem not_sound_snoops : ∃ as m, Run Step {} as m ∧
    m.targets.list.length + m.deferredTargets.list.length = 2 ^ 16 ∧ m.ntargets = 0 := by
  obtain ⟨as, m, hrun, -, -, -, -, hlen, hd, hcount⟩ := exists_snooped (2 ^ 16 - 1)
  refine ⟨as, m, hrun, ?_, ?_⟩
  · simp [hlen, hd]
  · simp [hcount]

end M5.Mem.MSHR
