import M5.Lib.Run
import M5.Sim.EventQueueBins
import Mathlib.Data.List.Perm.Subperm

/-!
# The event queue refines a log of pending insertions

`Spec` says what an event queue is for: it remembers the insertions still pending, newest first, and serves the newest
one of the least (when, priority). The concrete queue is related to it by `Refines`, through the bins its pointers
spell out; every call the source's assertions allow succeeds and keeps the relation.
-/

namespace M5.Sim

open M5.Lib Bins State

/-! ## The specification -/

/-- Pending insertions, newest first, and the priorities the events were built with. -/
structure Spec where
  priority : EventPtr → Int
  log : List (Key × EventPtr)

namespace Spec

def init : Spec := { priority := fun _ => 0, log := [] }

/-- The effect of a call. A `serviceOne` takes the newest insertion of the least key. -/
def step (sp : Spec) : Call → Spec
  | .construct event p => { sp with priority := Function.update sp.priority event p }
  | .schedule event when => { sp with log := (toLex (when, sp.priority event), event) :: sp.log }
  | .deschedule event => { sp with log := Log.remove sp.log event }
  | .reschedule event when _ =>
    { sp with log := (toLex (when, sp.priority event), event) :: Log.remove sp.log event }
  | .serviceOne =>
    match Log.top sp.log with
    | some (_, event) => { sp with log := Log.remove sp.log event }
    | none => sp
  | .destroy _ | .setFlags _ _ | .clearFlags _ _ | .setCurTick _ | .processed => sp

end Spec

/-! ## The relation -/

/-- The lists from `head` are the bins, and hold only constructed events. -/
structure Queued (s : State) (bs : List (Key × List EventPtr)) : Prop where
  linked : Linked s.mem s.head bs
  wf : WF (fun y => (s.mem y).key) bs
  objs : ∀ e ∈ elems bs, e ∈ s.objs

/-- The bins hold exactly the scheduled events. -/
structure Rep (s : State) (bs : List (Key × List EventPtr)) : Prop extends Queued s bs where
  scheduled : ∀ e, e ∈ elems bs ↔ (s.mem e).flags.scheduled
  alive : ∀ e, (s.mem e).flags.scheduled → (s.mem e).flags.initialized
  known : ∀ e, (s.mem e).flags.initialized → e ∈ s.objs

/-- The queue holds, bin by bin, what the log holds key by key. -/
structure Refines (s : State) (sp : Spec) : Prop where
  priority : ∀ e, (s.mem e).flags.initialized → (s.mem e).priority = sp.priority e
  bins : ∃ bs, Rep s bs ∧ Agrees bs sp.log

attribute [local simp] setEvent setWhen setFlagsOf

section Queued

variable {s : State} {bs : List (Key × List EventPtr)} {e p : EventPtr} {f : Event → Event}

theorem Queued.fuel (h : Queued s bs) : (elems bs).length ≤ s.fuel ∧ bs.length ≤ s.fuel := by
  have h1 : (elems bs).length ≤ s.objs.length := (h.wf.nodup_elems.subperm h.objs).length_le
  have h2 := h.wf.length_le
  unfold State.fuel
  omega

theorem Queued.setEvent (h : Queued s bs)
    (hp : p ∈ elems bs → (f (s.mem p)).nextBin = (s.mem p).nextBin ∧
      (f (s.mem p)).nextInBin = (s.mem p).nextInBin ∧ (f (s.mem p)).key = (s.mem p).key) :
    Queued (s.setEvent p f) bs where
  linked := by
    refine h.linked.congr (fun y hy => ?_)
    by_cases hyp : y = p
    · subst hyp
      simp [hp hy]
    · simp [hyp]
  wf := by
    refine h.wf.congr (fun y hy => ?_)
    by_cases hyp : y = p
    · subst hyp
      simp [hp hy]
    · simp [hyp]
  objs := h.objs

theorem Queued.setFlagsOf (h : Queued s bs) (g : Flags → Flags) : Queued (s.setFlagsOf p g) bs :=
  h.setEvent (fun _ => ⟨rfl, rfl, rfl⟩)

theorem State.curTick_insertEvent (h : s.insertEvent e = .ok s') : s'.curTick = s.curTick := by
  obtain ⟨x, -, rfl⟩ := of_map h
  rfl

theorem State.curTick_removeEvent (h : s.removeEvent e = .ok s') : s'.curTick = s.curTick := by
  obtain ⟨x, -, rfl⟩ := of_map h
  rfl

theorem Queued.insertEvent (h : Queued s bs) (when : Tick) (he : e ∉ elems bs) (ho : e ∈ s.objs) :
    ∃ s', (s.setWhen e when).insertEvent e = .ok s' ∧ s'.objs = s.objs ∧
      (∀ y, (s'.mem y).flags = (s.mem y).flags ∧ (s'.mem y).priority = (s.mem y).priority) ∧
      Queued s' (push (toLex (when, (s.mem e).priority)) e bs) := by
  have hq : Queued (s.setWhen e when) bs := h.setEvent (fun h => absurd h he)
  have hkey : ((s.setWhen e when).mem e).key = toLex (when, (s.mem e).priority) := by
    simp [Event.key]
  obtain ⟨m, hd, hi, hl, hdata⟩ := insert_spec hq.linked hq.wf he hq.fuel.2
  rw [hkey] at hl
  refine ⟨{ s.setWhen e when with mem := m, head := hd }, by rw [State.insertEvent, hi]; rfl, rfl, ?_, hl, ?_, ?_⟩
  · intro y
    rw [(hdata y).2.1, (hdata y).2.2]
    by_cases hy : y = e
    · subst hy; simp
    · simp [hy]
  · exact (hq.wf.push he hkey).congr (fun y _ => (hdata y).1)
  · intro y hy
    rcases mem_elems_push.1 hy with rfl | hy
    · exact ho
    · exact h.objs y hy

theorem Queued.removeEvent (h : Queued s bs) (he : e ∈ elems bs) :
    ∃ s', s.removeEvent e = .ok s' ∧ s'.objs = s.objs ∧ SameData s.mem s'.mem ∧
      Queued s' (erase (s.mem e).key e bs) := by
  obtain ⟨m, hd, hi, hl, hdata⟩ := remove_spec h.linked h.wf he h.fuel.1 h.fuel.2
  refine ⟨{ s with mem := m, head := hd }, by rw [State.removeEvent, hi]; rfl, rfl, hdata, hl, ?_, ?_⟩
  · exact h.wf.erase.congr (fun y _ => (hdata y).1)
  · intro y hy
    exact h.objs y (h.wf.mem_elems_erase.1 hy).1

end Queued

/-! ## The calls -/

section Calls

variable {s s' : State} {bs : List (Key × List EventPtr)} {e : EventPtr} {sp : Spec}

variable {g : Flags → Flags} {y : EventPtr}

@[simp] theorem setFlagsOf_flags_self : ((s.setFlagsOf e g).mem e).flags = g (s.mem e).flags := by
  simp

theorem setFlagsOf_mem_of_ne (h : y ≠ e) : (s.setFlagsOf e g).mem y = s.mem y := by
  simp [h]

@[simp] theorem setFlagsOf_priority : ((s.setFlagsOf e g).mem y).priority = (s.mem y).priority := by
  by_cases h : y = e
  · subst h; simp
  · rw [setFlagsOf_mem_of_ne h]

variable {bs' : List (Key × List EventPtr)} {s1 : State}

theorem Rep.change (h : Rep s bs) (hq : Queued s' bs')
    (hfl : ∀ y, y ≠ e → (s'.mem y).flags = (s.mem y).flags) (ho : ∀ y ∈ s.objs, y ∈ s'.objs)
    (hm : ∀ y, y ≠ e → (y ∈ elems bs' ↔ y ∈ elems bs))
    (hs : e ∈ elems bs' ↔ (s'.mem e).flags.scheduled)
    (ha : (s'.mem e).flags.scheduled → (s'.mem e).flags.initialized)
    (hk : (s'.mem e).flags.initialized → e ∈ s'.objs) : Rep s' bs' where
  toQueued := hq
  scheduled y := by
    by_cases hy : y = e
    · rw [hy]; exact hs
    · rw [hm y hy, hfl y hy]; exact h.scheduled y
  alive y := by
    by_cases hy : y = e
    · rw [hy]; exact ha
    · rw [hfl y hy]; exact h.alive y
  known y := by
    by_cases hy : y = e
    · rw [hy]; exact hk
    · rw [hfl y hy]; exact fun hi => ho y (h.known y hi)

theorem Rep.setFlagsOf (h : Rep s bs)
    (hs : (g (s.mem e).flags).scheduled = (s.mem e).flags.scheduled)
    (hi : (g (s.mem e).flags).initialized = (s.mem e).flags.initialized ∨ (g (s.mem e).flags) = {}) :
    Rep (s.setFlagsOf e g) bs := by
  refine h.change (h.toQueued.setFlagsOf g) (fun y hy => by rw [setFlagsOf_mem_of_ne hy]) (fun _ hy => hy)
    (fun _ _ => .rfl) ?_ ?_ ?_
  · rw [setFlagsOf_flags_self, hs]; exact h.scheduled e
  · rw [setFlagsOf_flags_self]
    rcases hi with hi | hi
    · rw [hs, hi]; exact h.alive e
    · simp [hi]
  · rw [setFlagsOf_flags_self]
    rcases hi with hi | hi
    · rw [hi]; exact h.known e
    · simp [hi]

theorem Rep.destroy (h : Rep s bs) (he : (s.mem e).flags.scheduled = false) :
    s.destroy e = .ok (s.setFlagsOf e (fun _ => {})) ∧ Rep (s.setFlagsOf e (fun _ => {})) bs :=
  ⟨by rw [State.destroy, ensure_of (by simp [he])]; rfl, h.setFlagsOf he.symm (.inr rfl)⟩

theorem popHead_eq {m : Mem} {t : Option EventPtr} {n : Nat}
    (h : removeItem n (s.setFlagsOf e (fun f => { f with scheduled := false })).mem e e = .ok (m, t)) :
    s.popHead e = { s with mem := m, head := t } := by
  have hnx : ((s.setFlagsOf e (fun f => { f with scheduled := false })).mem e).nextInBin = (s.mem e).nextInBin := by
    simp
  rw [removeItem, if_pos rfl, hnx] at h
  unfold popHead
  split at h
  · next hn =>
    cases h
    simp only [hn]
    rfl
  · next n hn =>
    cases h
    simp only [hn]
    rfl

theorem Rep.eq_nil (h : Rep s bs) (hd : s.head = none) : bs = [] := by
  cases bs with
  | nil => rfl
  | cons b bs =>
    obtain ⟨k, l⟩ := b
    obtain ⟨y, t, rfl⟩ := exists_top h.wf
    rw [(linked_cons.1 h.linked).1] at hd
    cases hd

theorem Rep.popHead (h : Rep s bs) (hd : s.head = some e) :
    (∃ l bs', bs = ((s.mem e).key, e :: l) :: bs') ∧ Rep (s.popHead e) (erase (s.mem e).key e bs) ∧
      ((s.popHead e).mem e).flags.scheduled = false ∧
      ∀ y, ((s.popHead e).mem y).flags.initialized = (s.mem y).flags.initialized ∧
        ((s.popHead e).mem y).priority = (s.mem y).priority := by
  have hq := h.toQueued.setFlagsOf (p := e) (fun f => { f with scheduled := false })
  cases bs with
  | nil => rw [linked_nil.1 h.linked] at hd; cases hd
  | cons b bs =>
    obtain ⟨k, l⟩ := b
    obtain ⟨y, t, rfl⟩ := exists_top h.wf
    obtain ⟨hy, hc, hr⟩ := linked_cons.1 hq.linked
    cases (hd.symm.trans hy : some e = some y)
    obtain ⟨-, -, hkey, hnd, -⟩ := wf_cons.1 h.wf
    have hnde := h.wf.nodup_elems
    rw [elems_cons, List.nodup_append] at hnde
    obtain ⟨m, t', hrem, hR⟩ := removeItem_spec (e := e) hc hnd (by simp) (Nat.lt_succ_self _) hr
      (fun z hz hz' => hnde.2.2 z hz z hz' rfl)
    have hke : (s.mem e).key = k := hkey e (by simp)
    have hfl : ∀ z, z ≠ e → (m z).flags = (s.mem z).flags := fun z hz => by
      rw [(hR.data z).2.1, setFlagsOf_mem_of_ne hz]
    have hfe : (m e).flags = { (s.mem e).flags with scheduled := false } := by
      rw [(hR.data e).2.1, setFlagsOf_flags_self]
    rw [popHead_eq hrem]
    refine ⟨⟨t, bs, by rw [hke]⟩, ?_, by simp [hfe], fun z => ⟨?_, ?_⟩⟩
    · refine h.change ⟨?_, ?_, ?_⟩ hfl (fun _ hz => hz) ?_ ?_ ?_ ?_
      · rw [erase, if_pos hke]
        exact hR.linked k
      · exact hq.wf.erase.congr (fun z _ => (hR.data z).1)
      · exact fun z hz => h.objs z (h.wf.mem_elems_erase.1 hz).1
      · intro z hz
        rw [h.wf.mem_elems_erase]
        simp [hz]
      · rw [h.wf.mem_elems_erase]
        simp [hfe]
      · simp [hfe]
      · rw [hfe]
        exact h.known e
    · by_cases hz : z = e
      · rw [hz, hfe]
      · rw [hfl z hz]
    · rw [(hR.data z).2.2, setFlagsOf_priority]

/-! ## One call -/

theorem Refines.of_rep {log : List (Key × EventPtr)} (h : Refines s sp)
    (hR : Rep s' bs') (hA : Agrees bs' log) (hp : ∀ y, (s'.mem y).priority = (s.mem y).priority)
    (hi : ∀ y, (s'.mem y).flags.initialized → (s.mem y).flags.initialized) : Refines s' { sp with log } :=
  ⟨fun y hy => (hp y).trans (h.priority y (hi y hy)), bs', hR, hA⟩

theorem Rep.flagged (h : Rep s bs) (hi : (s.mem e).flags.initialized) (hobj : s1.objs = s.objs)
    (hfl : ∀ y, (s1.mem y).flags = (s.mem y).flags) (hm : ∀ y, y ≠ e → (y ∈ elems bs' ↔ y ∈ elems bs))
    (hQ : Queued s1 bs') (hs : e ∈ elems bs' ↔ (g (s.mem e).flags).scheduled)
    (hg : ∀ f, (g f).initialized = f.initialized) : Rep (s1.setFlagsOf e g) bs' := by
  refine h.change (e := e) (hQ.setFlagsOf g) (fun y hy => ?_) (fun y hy => ?_) hm ?_ ?_ ?_
  · rw [setFlagsOf_mem_of_ne hy, hfl]
  · show y ∈ s1.objs
    rw [hobj]
    exact hy
  · rw [setFlagsOf_flags_self, hfl]
    exact hs
  · rw [setFlagsOf_flags_self, hg, hfl]
    exact fun _ => hi
  · show _ → e ∈ s1.objs
    rw [hobj]
    exact fun _ => h.known e hi

theorem initialized_setFlagsOf (hi : (g (s1.mem e).flags).initialized → (s.mem e).flags.initialized)
    (hfl : ∀ y, (s1.mem y).flags = (s.mem y).flags)
    (hy : ((s1.setFlagsOf e g).mem y).flags.initialized) : (s.mem y).flags.initialized := by
  by_cases hye : y = e
  · rw [hye, setFlagsOf_flags_self] at hy
    exact hye ▸ hi hy
  · rwa [setFlagsOf_mem_of_ne hye, hfl] at hy

theorem Rep.schedule (h : Rep s bs) (when : Tick) (hi : (s.mem e).flags.initialized)
    (hn : (s.mem e).flags.scheduled = false) : ∃ s', s.schedule e when =
      (if utick s.curTick ≤ utick when then .ok s' else .error .assert) ∧ s'.curTick = s.curTick ∧
      Rep s' (push (toLex (when, (s.mem e).priority)) e bs) ∧ (∀ y, y ≠ e → (s'.mem y).flags = (s.mem y).flags) ∧
      ∀ y, (s'.mem y).priority = (s.mem y).priority := by
  have hne : e ∉ elems bs := by rw [h.scheduled]; simp [hn]
  obtain ⟨s1, hins, hobj, hdata, hQ⟩ := h.toQueued.insertEvent when hne (h.known e hi)
  refine ⟨s1.setFlagsOf e (fun f => { f with scheduled := true, isMainQueue := s1.main }), ?_, ?_, ?_, ?_, ?_⟩
  · rw [State.schedule, ensure_bind (p := ¬ (s.mem e).flags.scheduled) (by simp [hn]), ensure_bind hi, hins, ensure]
    split_ifs <;> rfl
  · exact (curTick_insertEvent hins).trans rfl
  · exact h.flagged hi hobj (fun y => (hdata y).1) (fun y hy => by simp [mem_elems_push, hy]) hQ
      (by simp [mem_elems_push]) fun _ => rfl
  · intro y hy
    rw [setFlagsOf_mem_of_ne hy, (hdata y).1]
  · intro y
    rw [setFlagsOf_priority, (hdata y).2]

section

variable (h : Refines s sp)

include h

theorem Refines.schedule {when : Tick} (hl : Legal s (.schedule e when)) :
    ∃ s', exec s (.schedule e when) = .ok s' ∧ Refines s' (sp.step (.schedule e when)) := by
  obtain ⟨bs, hR, hA⟩ := h.bins
  obtain ⟨hw, hi, hn⟩ := hl
  obtain ⟨s', hsch, -, hR', hfl, hp⟩ := hR.schedule when hi hn
  rw [h.priority e hi] at hR'
  refine ⟨s', by rw [exec, hsch, if_pos hw], h.of_rep hR' (hA.push hR.wf) hp fun y hy => ?_⟩
  by_cases hye : y = e
  · exact hye ▸ hi
  · rwa [← hfl y hye]

omit h in
theorem Rep.unlink {log : List (Key × EventPtr)} (h : Rep s bs) (hA : Agrees bs log) (e : EventPtr) :
    ∃ s1 bs1, (if (s.mem e).flags.scheduled then s.removeEvent e else .ok s) = .ok s1 ∧ s1.objs = s.objs ∧
      (∀ y, (s1.mem y).flags = (s.mem y).flags ∧ (s1.mem y).priority = (s.mem y).priority) ∧
      Queued s1 bs1 ∧ e ∉ elems bs1 ∧ (∀ y, y ≠ e → (y ∈ elems bs1 ↔ y ∈ elems bs)) ∧
      Agrees bs1 (Log.remove log e) := by
  have hA1 : Agrees (erase (s.mem e).key e bs) (Log.remove log e) := hA.erase h.wf
  have hmem : ∀ y, y ∈ elems (erase (s.mem e).key e bs) ↔ y ∈ elems bs ∧ y ≠ e :=
    fun y => h.wf.mem_elems_erase
  by_cases hs : (s.mem e).flags.scheduled
  · obtain ⟨s1, hrem, hobj, hdata, hQ⟩ := h.toQueued.removeEvent ((h.scheduled e).2 hs)
    refine ⟨s1, _, (if_pos hs).trans hrem, hobj, fun y => (hdata y).2, hQ, ?_, ?_, hA1⟩
    · rw [hmem]; simp
    · intro y hy
      rw [hmem]; simp [hy]
  · have hne : e ∉ elems bs := by rw [h.scheduled]; exact hs
    refine ⟨s, bs, if_neg hs, rfl, fun _ => ⟨rfl, rfl⟩, h.toQueued, hne, fun _ _ => .rfl, fun k => ?_⟩
    -- the log has no insertion of the event to forget
    rw [← hA1 k]
    refine .trans ?_ h.wf.stack_erase_key.symm
    refine (List.filter_eq_self.2 ?_).symm
    intro x hx
    simp only [decide_eq_true_eq]
    rintro rfl
    exact hne (h.wf.mem_stack.1 hx).1

theorem Refines.reschedule {when : Tick} {always : Bool}
    (hl : Legal s (.reschedule e when always)) :
    ∃ s', exec s (.reschedule e when always) = .ok s' ∧ Refines s' (sp.step (.reschedule e when always)) := by
  obtain ⟨bs, hR, hA⟩ := h.bins
  obtain ⟨hw, hi, ha⟩ := hl
  obtain ⟨s1, bs1, hrem, hobj, hdata1, hQ1, hne, hm, hA1⟩ := hR.unlink hA e
  have ho1 : e ∈ s1.objs := by rw [hobj]; exact hR.known e hi
  obtain ⟨s2, hins, hobj2, hdata, hQ⟩ := hQ1.insertEvent when hne ho1
  rw [(hdata1 e).2, h.priority e hi] at hQ
  have hfl2 : ∀ y, (s2.mem y).flags = (s.mem y).flags := fun y => (hdata y).1.trans (hdata1 y).1
  refine ⟨s2.setFlagsOf e (fun f => { f with squashed := false, scheduled := true, isMainQueue := s2.main }), ?_, ?_⟩
  · rw [exec, State.reschedule, ensure_bind hw, ensure_bind ha, ensure_bind hi, hrem, ok_bind, hins]
    rfl
  · refine h.of_rep ?_ (hA1.push hQ1.wf) (fun y => by rw [setFlagsOf_priority, (hdata y).2, (hdata1 y).2]) ?_
    · exact hR.flagged hi (hobj2.trans hobj) hfl2 (fun y hy => by simp [mem_elems_push, hy, hm y hy]) hQ
        (by simp [mem_elems_push]) fun _ => rfl
    · exact fun y => initialized_setFlagsOf (fun _ => hi) hfl2

theorem Refines.drop (del : Bool) (he : (s.mem e).flags.scheduled = false) :
    ∃ s', (if del then s.destroy e else .ok s) = .ok s' ∧ Refines s' sp := by
  cases del with
  | false => exact ⟨s, rfl, h⟩
  | true =>
    obtain ⟨bs, hR, hA⟩ := h.bins
    obtain ⟨hok, hR'⟩ := hR.destroy he
    exact ⟨_, (if_pos rfl).trans hok, h.of_rep hR' hA (fun _ => setFlagsOf_priority)
      fun y => initialized_setFlagsOf (by simp) fun _ => rfl⟩

theorem Refines.deschedule (hl : Legal s (.deschedule e)) :
    ∃ s', exec s (.deschedule e) = .ok s' ∧ Refines s' (sp.step (.deschedule e)) := by
  obtain ⟨bs, hR, hA⟩ := h.bins
  obtain ⟨hi, hs⟩ := hl
  obtain ⟨s1, hrem, hobj, hdata, hQ⟩ := hR.toQueued.removeEvent ((hR.scheduled e).2 hs)
  have hfl : ∀ y, (s1.mem y).flags = (s.mem y).flags := fun y => (hdata y).2.1
  have hmem : ∀ y, y ∈ elems (erase (s.mem e).key e bs) ↔ y ∈ elems bs ∧ y ≠ e :=
    fun y => hR.wf.mem_elems_erase
  have h1 : Refines (s1.setFlagsOf e (fun f => { f with squashed := false, scheduled := false }))
      (sp.step (.deschedule e)) := by
    refine h.of_rep ?_ (hA.erase hR.wf) (fun y => by rw [setFlagsOf_priority, (hdata y).2.2])
      (fun y => initialized_setFlagsOf (fun _ => hi) hfl)
    refine hR.flagged hi hobj hfl (fun y hy => ?_) hQ ?_ fun _ => rfl
    · rw [hmem]; simp [hy]
    · rw [hmem]; simp
  obtain ⟨s2, hdel, h2⟩ := h1.drop (e := e) _ (by simp)
  refine ⟨s2, ?_, h2⟩
  rw [exec, State.deschedule, ensure_bind hs, ensure_bind hi, hrem]
  exact hdel

theorem Refines.congr (hm : s'.mem = s.mem) (hh : s'.head = s.head) (ho : s'.objs = s.objs) : Refines s' sp := by
  obtain ⟨hp, bs, hR, hA⟩ := h
  cases s; cases s'
  subst hm hh ho
  exact ⟨hp, bs, ⟨⟨hR.linked, hR.wf, hR.objs⟩, hR.scheduled, hR.alive, hR.known⟩, hA⟩

theorem Refines.reap : ∃ s', s.reap e = .ok s' ∧ Refines s' sp := by
  have h1 : ∃ s', (if (s.mem e).flags.autoDelete && !(s.mem e).flags.scheduled then s.destroy e else .ok s) = .ok s' ∧
      Refines s' sp := by
    by_cases hs : (s.mem e).flags.scheduled
    · exact ⟨s, by simp [hs], h⟩
    · exact h.drop _ (by simpa using hs)
  obtain ⟨s1, hd, h1⟩ := h1
  exact ⟨{ s1 with returned := none }, by rw [State.reap, hd]; rfl, h1.congr rfl rfl rfl⟩

theorem Refines.setFlagsOf
    (hg : (g (s.mem e).flags).scheduled = (s.mem e).flags.scheduled ∧
      (g (s.mem e).flags).initialized = (s.mem e).flags.initialized) : Refines (s.setFlagsOf e g) sp := by
  obtain ⟨bs, hR, hA⟩ := h.bins
  exact h.of_rep (hR.setFlagsOf hg.1 (.inl hg.2)) hA (fun _ => setFlagsOf_priority)
    fun y => initialized_setFlagsOf (hg.2 ▸ id) fun _ => rfl

theorem Refines.serviceOne (hl : Legal s .serviceOne) :
    ∃ s', exec s .serviceOne = .ok s' ∧ Refines s' (sp.step .serviceOne) := by
  obtain ⟨bs, hR, hA⟩ := h.bins
  obtain ⟨e, hd⟩ := Option.ne_none_iff_exists'.1 hl
  obtain ⟨⟨l, bs', rfl⟩, hR', hs, hfr⟩ := hR.popHead hd
  have hsp : sp.step .serviceOne = { sp with log := Log.remove sp.log e } := by
    rw [Spec.step, hA.top hR.wf]
  have h1 : Refines (s.popHead e) (sp.step .serviceOne) := by
    rw [hsp]
    exact h.of_rep hR' (hA.erase hR.wf) (fun y => (hfr y).2) (fun y hy => by rw [← (hfr y).1]; exact hy)
  rw [exec, State.serviceOne, hd]
  by_cases hq : ((s.popHead e).mem e).flags.squashed
  · simp only [hq, if_true]
    exact reap (h1.setFlagsOf ⟨rfl, rfl⟩)
  · simp only [hq]
    exact ⟨_, rfl, h1.congr rfl rfl rfl⟩

theorem Refines.processed (hl : Legal s .processed) : ∃ s', exec s .processed = .ok s' ∧ Refines s' sp := by
  obtain ⟨e, rest, hpr, hx⟩ := hl
  have h1 : Refines { s with inProcess := rest } sp := h.congr rfl rfl rfl
  rw [exec, State.processed, hpr]
  by_cases hxe : (s.mem e).flags.isExitEvent
  · simp only [hxe, if_true]
    refine ⟨{ s with inProcess := rest, returned := some e }, ?_, h.congr rfl rfl rfl⟩
    rw [ensure_bind (by simp [hx hxe])]
  · simp only [hxe]
    exact h1.reap

theorem Refines.construct {p : Int} (hl : Legal s (.construct e p)) :
    ∃ s', exec s (.construct e p) = .ok s' ∧ Refines s' (sp.step (.construct e p)) := by
  obtain ⟨bs, hR, hA⟩ := h.bins
  have hn : ¬ (s.mem e).flags.scheduled := fun hs => by
    have h1 := hR.alive e hs
    rw [show (s.mem e).flags.initialized = false from hl] at h1
    cases h1
  have hne : e ∉ elems bs := by rw [hR.scheduled]; exact hn
  have hQ := hR.toQueued.setEvent
    (f := fun v => { when := v.when, priority := p, flags := { initialized := true } }) (fun hm => absurd hm hne)
  have hnew : (s.mem e).flags.initialized = false := hl
  refine ⟨_, by rw [exec, State.construct, ensure_of (by rw [hnew]; simp)]; rfl, ?_, bs, ?_, hA⟩
  · intro y hy
    by_cases hye : y = e
    · subst hye; simp [Spec.step]
    · simp only [setEvent, Mem.set_of_ne hye, Spec.step, Function.update_of_ne hye] at hy ⊢
      exact h.priority y hy
  · refine hR.change (e := e) ⟨hQ.linked, hQ.wf, fun y hy => List.mem_cons_of_mem e (hR.objs y hy)⟩ ?_
      (fun y hy => List.mem_cons_of_mem e hy) (fun _ _ => .rfl) ?_ ?_ ?_
    · intro y hy
      simp [hy]
    · simp [hne]
    · simp
    · simp

/-- A legal call succeeds, and is one step of the specification. -/
theorem Refines.exec {c : Call} (hl : Legal s c) : ∃ s', exec s c = .ok s' ∧ Refines s' (sp.step c) := by
  cases c with
  | construct e p => exact h.construct hl
  | destroy e =>
    obtain ⟨s', hd, h'⟩ := h.drop true hl.2
    exact ⟨s', by rw [Sim.exec, ensure_bind hl.1]; exact hd, h'⟩
  | setFlags e f =>
    obtain ⟨hi, hf⟩ := hl
    refine ⟨_, by rw [Sim.exec, ensure_bind hi, ensure_of hf]; rfl, h.setFlagsOf ?_⟩
    simp [Flags.set, hf.1, hf.2.2]
  | clearFlags e f =>
    obtain ⟨hi, hf⟩ := hl
    refine ⟨_, by rw [Sim.exec, ensure_bind hi, ensure_of hf]; rfl, h.setFlagsOf ?_⟩
    simp [Flags.clear, hf.1, hf.2.2]
  | setCurTick t => exact ⟨_, rfl, h.congr rfl rfl rfl⟩
  | schedule e t => exact h.schedule hl
  | deschedule e => exact h.deschedule hl
  | reschedule e t a => exact h.reschedule hl
  | serviceOne => exact h.serviceOne hl
  | processed => exact h.processed hl

end

/-- A call that succeeds was legal. -/
theorem exec_legal {c : Call} (h : exec s c = .ok s') : Legal s c := by
  cases c with
  | construct e p => exact (by simpa using (of_ensure h).1 : (s.mem e).flags.initialized = false)
  | destroy e =>
    obtain ⟨hi, h⟩ := of_ensure h
    exact ⟨hi, by simpa using (of_ensure h).1⟩
  | setFlags e f | clearFlags e f =>
    obtain ⟨hi, h⟩ := of_ensure h
    exact ⟨hi, (of_ensure h).1⟩
  | setCurTick t => trivial
  | schedule e t =>
    obtain ⟨hw, h⟩ := of_ensure h
    obtain ⟨hs, h⟩ := of_ensure h
    exact ⟨hw, (of_ensure h).1, by simpa using hs⟩
  | deschedule e =>
    obtain ⟨hs, h⟩ := of_ensure h
    exact ⟨(of_ensure h).1, hs⟩
  | reschedule e t a =>
    obtain ⟨hw, h⟩ := of_ensure h
    obtain ⟨ha, h⟩ := of_ensure h
    exact ⟨hw, (of_ensure h).1, ha⟩
  | serviceOne =>
    intro hn
    rw [exec, serviceOne, hn] at h
    cases h
  | processed =>
    rw [exec, processed] at h
    split at h
    · cases h
    · next e rest hp =>
      refine ⟨e, rest, hp, fun hx => ?_⟩
      simp only [hx, if_true] at h
      simpa using (of_ensure h).1

end Calls

/-! ## Runs -/

theorem Refines.init (main : Bool) (t : Tick) : Refines (.init main t) .init where
  priority _ h := by simp [State.init] at h
  bins := by
    refine ⟨[], ⟨⟨linked_nil.2 rfl, .nil, by simp [elems]⟩, ?_, ?_, ?_⟩, fun _ => rfl⟩
    · simp [State.init, elems]
    · simp [State.init]
    · simp [State.init]

/-- The calls of a run, each of which succeeds. -/
abbrev CallRun (main : Bool) (t : Tick) : List Call → State → Prop :=
  Run (fun s c s' => exec s c = .ok s') (init main t)

theorem CallRun.refines {main : Bool} {t : Tick} {cs : List Call} {s : State} (h : CallRun main t cs s) :
    Refines s (cs.foldl .step .init) := by
  refine Run.refines h (.init main t) ?_
  intro x c y sp hR hs
  obtain ⟨y', hok, hR'⟩ := hR.exec (exec_legal hs)
  rw [hs] at hok
  cases hok
  exact hR'

/-- After any calls, nested in `process()` or not: the lists from `head` are bins with strictly increasing
(when, priority), one for each pending key, that hold the scheduled events, each once, and stack by stack what the
specification has pending, whose `serviceOne` takes the newest insertion of the least key; and the next call succeeds
if the source's assertions hold and `serviceOne` is not called on an empty queue. -/
theorem eventQueue_refines {main : Bool} {t : Tick} {cs : List Call} {s : State} (h : CallRun main t cs s) :
    (∃ bs : List (Key × List EventPtr),
      Grid (fun p => (s.mem p).nextBin) (fun p => (s.mem p).nextInBin) s.head (bs.map Prod.snd) ∧
      bs.Pairwise (fun a b => a.1 < b.1) ∧
      (∀ a ∈ bs, ∀ e ∈ a.2, toLex ((s.mem e).when, (s.mem e).priority) = a.1) ∧
      (elems bs).Nodup ∧
      (∀ e, e ∈ elems bs ↔ (s.mem e).flags.scheduled) ∧
      Agrees bs (cs.foldl Spec.step Spec.init).log) ∧
    (∀ e, s.head = some e →
      Log.top (cs.foldl Spec.step Spec.init).log = some (toLex ((s.mem e).when, (s.mem e).priority), e)) ∧
    (∀ c, Legal s c → ∃ s', exec s c = .ok s') := by
  have hR := h.refines
  obtain ⟨bs, hb, hA⟩ := hR.bins
  refine ⟨⟨bs, hb.linked, hb.wf.keys, hb.wf.keyed, hb.wf.nodup_elems, hb.scheduled, hA⟩, ?_, ?_⟩
  · intro e he
    obtain ⟨⟨l, bs', rfl⟩, -⟩ := hb.popHead he
    exact hA.top hb.wf
  · intro c hc
    obtain ⟨s', hok, -⟩ := hR.exec hc
    exact ⟨s', hok⟩

/-- Two events in one bin; `process()` of the first puts it back and deschedules the other, which is not a top. -/
def nestedCalls : List Call :=
  [.construct 1 0, .construct 2 0, .construct 3 0, .schedule 1 5, .schedule 3 9, .schedule 2 5, .serviceOne,
    .schedule 2 5, .deschedule 1, .processed]

theorem eventQueue_refines_nestedCalls : ∃ s : State, CallRun true 0 nestedCalls s ∧ s.head = some 2 ∧
    Log.top (nestedCalls.foldl Spec.step Spec.init).log = some (toLex (5, 0), 2) := by
  obtain ⟨s, hr, hh, hw, hp⟩ :
      ∃ s : State, CallRun true 0 nestedCalls s ∧ s.head = some 2 ∧ (s.mem 2).when = 5 ∧ (s.mem 2).priority = 0 :=
    ⟨_, .of_foldlM rfl, rfl, rfl, rfl⟩
  have htop := (eventQueue_refines hr).2.1 2 hh
  rw [hw, hp] at htop
  exact ⟨s, hr, hh, htop⟩

end M5.Sim
