import M5.Sim.EventQueueRefine
import M5.Sim.Serialize

/-!
# Checkpoints of the event queue

`EventQueue::serialize` and `EventQueue::unserialize` of `sim/eventq.cc`. A checkpoint lists the events of the queue,
bin after bin from the top, and has a section for each of them. Events are named by their pointers; a restored event is
constructed anew under its old name.  A priority is a `signed char`: it is written as a character and read as a number,
which gives a digit another value, and any other character none.
-/

namespace M5.Sim

open M5.Lib List Bins State
open M5.Base (IntType)

/-! ## The functions -/

/-- The text of a parameter as `IniFile` finds it behind the `=`: the rest of the line, without the blanks around it. -/
def entry (t : ParamType) (v : t.Value) : Base.Text := Base.valueOf ((showParam t v).takeWhile (· ≠ '\n'))

abbrev whenType : ParamType := .int .signedLong

abbrev priorityType : ParamType := .int .signedChar

/-- What `Event::serialize` writes; the flags of an initialized event are a positive `short`, which comes back. -/
structure EventSection where
  when : Base.Text
  priority : Base.Text
  flags : Flags

def Event.serialize (e : Event) : EventSection :=
  ⟨entry whenType (IntType.cast _ e.when), entry priorityType (IntType.cast _ e.priority), e.flags⟩

/-- What `EventQueue::serialize` writes: the names of the events in order, and their sections. -/
structure Checkpoint where
  events : List EventPtr
  sectionOf : EventPtr → EventSection

/-- The inner loop of `EventQueue::serialize`. -/
def serializeBin (m : Mem) : Nat → Option EventPtr → Except Fault (List EventPtr)
  | 0, _ => .error .hang
  | _ + 1, none => .ok []
  | fuel + 1, some e => do
    let rest ← serializeBin m fuel (m e).nextInBin
    .ok (if (m e).flags.autoSerialize then e :: rest else rest)

/-- The outer loop of `EventQueue::serialize`. -/
def serializeBins (m : Mem) (n : Nat) : Nat → Option EventPtr → Except Fault (List EventPtr)
  | 0, _ => .error .hang
  | _ + 1, none => .ok []
  | fuel + 1, some e => do
    let bin ← serializeBin m n (some e)
    let rest ← serializeBins m n fuel (m e).nextBin
    .ok (bin ++ rest)

namespace State

def serialize (s : State) : Except Fault Checkpoint := do
  let events ← serializeBins s.mem s.fuel s.fuel s.head
  .ok ⟨events, fun e => (s.mem e).serialize⟩

/-- `paramIn`, of an entry that is there. -/
def readParam (t : ParamType) (str : Base.Text) : Except Fault t.Value := (parseParam t str).elim (.error .fatal) .ok

/-- `Event::unserialize`. -/
def unserializeEvent (s : State) (e : EventPtr) (c : EventSection) : Except Fault State := do
  let s ← (if (s.mem e).flags.scheduled then s.deschedule e else .ok s : Except Fault State)
  let when ← readParam whenType c.when
  let priority ← readParam priorityType c.priority
  let s := s.setEvent e fun v => { v with
    when := when.val, priority := priority.val, flags := { c.flags with squashed := false, scheduled := false } }
  if c.flags.scheduled && !c.flags.squashed then s.schedule e when.val else .ok s

/-- `Serializable::create` for an event whose constructor gives it the priority `p`. -/
def create (s : State) (p : EventPtr → Int) (cp : Checkpoint) (e : EventPtr) : Except Fault State := do
  let s ← s.construct e (p e)
  s.unserializeEvent e (cp.sectionOf e)

def unserialize (s : State) (p : EventPtr → Int) (cp : Checkpoint) : Except Fault State :=
  cp.events.foldlM (·.create p cp) s

/-- The events that `serviceOne` takes, one after the other, while nothing else happens. -/
def services : Nat → State → List EventPtr
  | 0, _ => []
  | n + 1, s =>
    match s.head with
    | none => []
    | some e => e :: services n (s.popHead e)

end State

variable {s s' : State} {bs : List (Key × List EventPtr)} {e : EventPtr}

/-! ## Service -/

/-- Events are taken bin after bin, each bin from the top. -/
theorem Rep.services : ∀ {n : Nat} {s : State} {bs : List (Key × List EventPtr)}, Rep s bs →
    State.services n s = (elems bs).take n
  | 0, _, _, _ => rfl
  | n + 1, s, bs, h => by
    cases hd : s.head with
    | none =>
      rw [h.eq_nil hd, State.services, hd]
      rfl
    | some e =>
      obtain ⟨⟨l, bs', rfl⟩, hR, -⟩ := h.popHead hd
      have herase : elems (erase (s.mem e).key e (((s.mem e).key, e :: l) :: bs')) = l ++ elems bs' := by
        rw [erase, if_pos rfl, erase_cons_head]
        split_ifs with hl
        · rw [hl]
          rfl
        · exact elems_cons
      rw [State.services, hd]
      show e :: State.services n (s.popHead e) = _
      rw [Rep.services hR, herase]
      rfl

/-! ## Writing -/

theorem serializeBin_eq {m : Mem} : ∀ {l : List EventPtr} {p : Option EventPtr} {n : Nat},
    Chain (fun y => (m y).nextInBin) p l → l.length < n →
    serializeBin m n p = .ok (l.filter fun e => (m e).flags.autoSerialize)
  | [], _, n + 1, h, _ => by
    cases (h : _ = none)
    rfl
  | x :: l, _, n + 1, h, hn => by
    obtain ⟨rfl, h⟩ := h
    rw [serializeBin, serializeBin_eq h (Nat.lt_of_succ_lt_succ hn), ok_bind, filter_cons]

theorem serializeBins_eq {m : Mem} {n : Nat} : ∀ {bs : List (Key × List EventPtr)} {p : Option EventPtr} {k : Nat},
    Linked m p bs → (∀ a ∈ bs, a.2.length < n) → bs.length < k →
    serializeBins m n k p = .ok ((elems bs).filter fun e => (m e).flags.autoSerialize)
  | [], _, k + 1, h, _, _ => by
    cases linked_nil.1 h
    rfl
  | (_, []) :: _, _, _, h, _, _ => by simp [Linked] at h
  | (q, x :: l) :: bs, _, k + 1, h, hn, hk => by
    obtain ⟨rfl, hc, hr⟩ := linked_cons.1 h
    obtain ⟨hx, hn⟩ := forall_mem_cons.1 hn
    have hbin : serializeBin m n (some x) = .ok ((x :: l).filter fun e => (m e).flags.autoSerialize) :=
      serializeBin_eq ⟨rfl, hc⟩ hx
    rw [serializeBins, hbin, ok_bind, serializeBins_eq hr hn (Nat.lt_of_succ_lt_succ hk), ok_bind, elems_cons,
      filter_append]

theorem Rep.serialize (h : Rep s bs) : s.serialize =
    .ok ⟨(elems bs).filter fun e => (s.mem e).flags.autoSerialize, fun e => (s.mem e).serialize⟩ := by
  have hf : (elems bs).length < s.fuel := by
    have := (h.wf.nodup_elems.subperm h.objs).length_le
    unfold fuel
    omega
  have hb := h.wf.length_le
  rw [State.serialize, serializeBins_eq h.linked ?_ (by omega), ok_bind]
  intro a ha
  refine lt_of_le_of_lt ?_ hf
  exact (sublist_flatten_of_mem (mem_map_of_mem ha)).length_le

/-! ## Reading -/

/-- The time and the priority that are read. -/
def EventSection.key (c : EventSection) : Option Key := do
  let when ← parseParam whenType c.when
  let priority ← parseParam priorityType c.priority
  some (toLex (when.val, priority.val))

/-- The section can be read, and its time does not lie in the past. -/
def EventSection.Fine (c : EventSection) (t : Tick) : Prop := ∃ k ∈ c.key, utick t ≤ utick (ofLex k).1

theorem Rep.create {p : EventPtr → Int} {cp : Checkpoint} {k : Key} (h : Rep s bs)
    (hf : (s.mem e).flags.initialized = false) (hi : (cp.sectionOf e).flags.initialized)
    (hs : (cp.sectionOf e).flags.scheduled) (hq : (cp.sectionOf e).flags.squashed = false)
    (hk : (cp.sectionOf e).key = some k) : ∃ s', s.create p cp e =
      (if utick s.curTick ≤ utick (ofLex k).1 then .ok s' else .error .assert) ∧
      s'.curTick = s.curTick ∧ Rep s' (push k e bs) ∧ ∀ y, y ≠ e → (s'.mem y).flags = (s.mem y).flags := by
  generalize hc : cp.sectionOf e = c at hi hs hq hk ⊢
  obtain ⟨wtext, ptext, fl⟩ := c
  obtain ⟨w, hw, hk⟩ := Option.bind_eq_some_iff.1 hk
  obtain ⟨q, hp, hk⟩ := Option.bind_eq_some_iff.1 hk
  cases hk
  have hw : readParam whenType wtext = .ok w := by rw [readParam, hw]; rfl
  have hp : readParam priorityType ptext = .ok q := by rw [readParam, hp]; rfl
  generalize hwv : w.val = when
  have hn : (s.mem e).flags.scheduled = false := by
    rw [← Bool.not_eq_true]
    intro hsch
    rw [h.alive e hsch] at hf
    cases hf
  have hne : e ∉ elems bs := by rw [h.scheduled]; simp [hn]
  -- the event as it is just before it is scheduled
  let v : Event := { when, priority := q.val, flags := { fl with squashed := false, scheduled := false } }
  let s1 : State := { s.setEvent e (fun _ => v) with objs := e :: s.objs }
  have hv : s1.mem e = v := by simp [s1, setEvent]
  have hother : ∀ y, y ≠ e → s1.mem y = s.mem y := by
    intro y hy
    simp [s1, setEvent, hy]
  have hR : Rep s1 bs := by
    have hQ := h.toQueued.setEvent (f := fun _ => v) (fun hm => absurd hm hne)
    refine h.change (e := e) ⟨hQ.linked, hQ.wf, fun y hy => mem_cons_of_mem e (h.objs y hy)⟩ ?_
      (fun y hy => mem_cons_of_mem e hy) (fun _ _ => .rfl) ?_ ?_ ?_
    · intro y hy
      rw [hother y hy]
    · simp [hv, v, hne]
    · simp [hv, v]
    · simp [s1]
  obtain ⟨s', hsch, ht, hR', hfl, -⟩ := hR.schedule when (by rw [hv]; exact hi) (by rw [hv])
  refine ⟨s', ?_, ht, ?_, ?_⟩
  · have hset : ({ s.setEvent e (fun w => { when := w.when, priority := p e, flags := { initialized := true } }) with
        objs := e :: s.objs } : State).setEvent e (fun w => { w with
          when, priority := q.val, flags := { fl with squashed := false, scheduled := false } }) = s1 := by
      simp [s1, v, setEvent, Mem.set]
    have hif : (fl.scheduled && !fl.squashed) := by simp [show fl.scheduled from hs, show fl.squashed = false from hq]
    rw [State.create, construct, ensure_bind (by simp [hf]), ok_bind, hc, unserializeEvent, if_neg,
      ok_bind, hw, ok_bind, hp, ok_bind, hwv, hset, hif, if_pos rfl, hsch]
    · rfl
    · simp [setEvent]
  · rw [hv] at hR'
    exact hR'
  · intro y hy
    rw [hfl y hy, hother y hy]

/-- A section that cannot be read stops the restore. -/
theorem create_fatal {p : EventPtr → Int} {cp : Checkpoint} (hf : (s.mem e).flags.initialized = false)
    (hk : (cp.sectionOf e).key = none) : s.create p cp e = .error .fatal := by
  rw [State.create, construct, ensure_bind (by simp [hf]), ok_bind, unserializeEvent, if_neg (by simp [setEvent]),
    ok_bind, readParam, readParam]
  cases hw : parseParam whenType (cp.sectionOf e).when with
  | none => rfl
  | some w =>
    rw [EventSection.key, hw, Option.bind_eq_bind, Option.bind_some, Option.bind_eq_bind, Option.bind_eq_none_iff] at hk
    cases hp : parseParam priorityType (cp.sectionOf e).priority with
    | none => rfl
    | some q => cases hk q hp

/-- The sections are read one after the other; `key` has the keys of those that can be read. -/
theorem Rep.unserialize {p : EventPtr → Int} {c : Checkpoint} {f : EventPtr → Key} : ∀ {l : List EventPtr} {s : State}
    {bs : List (Key × List EventPtr)}, Rep s bs → l.Nodup → (∀ e ∈ l, (s.mem e).flags.initialized = false) →
    (∀ e ∈ l, (c.sectionOf e).flags.initialized ∧ (c.sectionOf e).flags.scheduled ∧
      (c.sectionOf e).flags.squashed = false) → (∀ e ∈ l, ∀ k ∈ (c.sectionOf e).key, k = f e) →
    ((∃ s', l.foldlM (·.create p c) s = .ok s') ↔ ∀ e ∈ l, (c.sectionOf e).Fine s.curTick) ∧
      ∀ s', l.foldlM (·.create p c) s = .ok s' → Rep s' (fill f l bs)
  | [], s, bs, h, _, _, _, _ => by
    refine ⟨iff_of_true ⟨s, rfl⟩ (forall_mem_nil _), fun s' hs' => ?_⟩
    cases hs'
    exact h
  | e :: l, s, bs, h, hn, hf, hc, hkey => by
    obtain ⟨hfe, hf⟩ := forall_mem_cons.1 hf
    obtain ⟨⟨hi, hs, hq⟩, hc⟩ := forall_mem_cons.1 hc
    obtain ⟨hke, hkey⟩ := forall_mem_cons.1 hkey
    obtain ⟨hel, hn⟩ := nodup_cons.1 hn
    rw [foldlM_cons, forall_mem_cons]
    cases hk : (c.sectionOf e).key with
    | none =>
      rw [create_fatal hfe hk]
      refine ⟨iff_of_false ?_ ?_, fun s' hs' => by cases hs'⟩
      · rintro ⟨s', hs'⟩
        cases hs'
      · rintro ⟨⟨k, hk', -⟩, -⟩
        rw [hk] at hk'
        cases hk'
    | some k =>
      obtain rfl := hke k hk
      obtain ⟨s1, hcr, ht, hR, hfl⟩ := h.create hfe hi hs hq hk
      obtain ⟨hiff, hrep⟩ := hR.unserialize hn
        (fun y hy => by rw [hfl y (fun hye => hel (hye ▸ hy))]; exact hf y hy) hc hkey
      have hfine : (c.sectionOf e).Fine s.curTick ↔ utick s.curTick ≤ utick (ofLex (f e)).1 := by
        simp [EventSection.Fine, hk]
      rw [hcr, hfine]
      by_cases hw : utick s.curTick ≤ utick (ofLex (f e)).1
      · rw [if_pos hw, ok_bind, and_iff_right hw, ← ht]
        exact ⟨hiff, hrep⟩
      · rw [if_neg hw]
        refine ⟨iff_of_false ?_ fun hh => hw hh.1, fun s' hs' => by cases hs'⟩
        rintro ⟨s', hs'⟩
        cases hs'

/-! ## What comes back -/

/-- The members have values of their types. -/
def Event.Typed (v : Event) : Prop := (-2 ^ 63 ≤ v.when ∧ v.when < 2 ^ 63) ∧ -128 ≤ v.priority ∧ v.priority ≤ 127

/-- The section of the event can be read: its priority is the code of a digit, and the time not the smallest. -/
def Event.Kept (v : Event) : Prop := v.when ≠ -2 ^ 63 ∧ 48 ≤ v.priority ∧ v.priority ≤ 57

instance decidableKept (v : Event) : Decidable v.Kept := inferInstanceAs (Decidable (_ ∧ _))

/-- The priority becomes the value of the digit. -/
def digitKey (k : Key) : Key := toLex ((ofLex k).1, (ofLex k).2 - 48)

theorem digitKey_lt {a b : Key} (h : a < b) : digitKey a < digitKey b := by
  rw [Prod.Lex.lt_iff] at h ⊢
  exact h.imp_right fun h => ⟨h.1, Int.sub_lt_sub_right h.2 48⟩

theorem parse_when (v : whenType.Value) :
    parseParam whenType (entry whenType v) = if v.val = -2 ^ 63 then none else some v := by
  obtain ⟨-, hb, hn⟩ := neat_showParam (t := whenType) (by decide) v
  have ht : (showParam whenType v).takeWhile (· ≠ '\n') = showParam whenType v := by
    refine takeWhile_eq_self_iff.2 fun c hc => ?_
    simpa using fun h : c = '\n' => hn (h ▸ hc)
  have hv : Base.valueOf (showParam whenType v) = showParam whenType v :=
    Base.valueOf_eq (fun h => hb (mem_of_mem_head? h)) (fun h => hb (mem_of_getLast? h))
  rw [entry, ht, hv]
  refine (IntType.toNumber_showInt v).trans (if_congr ?_ rfl rfl)
  exact and_iff_right rfl

/-- Every value of the type is tried. -/
theorem parse_priority (v : priorityType.Value) : parseParam priorityType (entry priorityType v) =
    if 48 ≤ v.val ∧ v.val ≤ 57 then some (IntType.cast _ (v.val - 48)) else none := by
  have hall : ∀ n : Fin 256, parseParam priorityType (entry priorityType (IntType.cast .signedChar n.val)) =
      if 48 ≤ (IntType.cast .signedChar n.val).val ∧ (IntType.cast .signedChar n.val).val ≤ 57 then
        some (IntType.cast _ ((IntType.cast .signedChar n.val).val - 48)) else none := by
    decide +kernel
  have hv : IntType.cast .signedChar (v.val % 256).toNat = v := by
    apply IntType.Value.ext
    have h1 : -128 ≤ v.val := v.ge
    have h2 : v.val ≤ 127 := v.le
    show (((v.val % 256).toNat : Int) - -128) % 256 + -128 = v.val
    omega
  have h := hall ⟨(v.val % 256).toNat, by omega⟩
  rw [hv] at h
  exact h

theorem Event.key_serialize {v : Event} (hv : v.Typed) :
    v.serialize.key = if v.Kept then some (digitKey v.key) else none := by
  have hw : (IntType.cast .signedLong v.when).val = v.when := by
    exact IntType.cast_val hv.1.1 (Int.le_sub_one_of_lt hv.1.2)
  have hp : (IntType.cast .signedChar v.priority).val = v.priority := IntType.cast_val hv.2.1 hv.2.2
  rw [EventSection.key, Event.serialize, parse_when, parse_priority, hw, hp]
  by_cases h1 : v.when = -2 ^ 63
  · rw [if_pos h1, if_neg fun h : v.Kept => h.1 h1]
    rfl
  · rw [if_neg h1]
    by_cases h2 : 48 ≤ v.priority ∧ v.priority ≤ 57
    · have hd : (IntType.cast .signedChar (v.priority - 48)).val = v.priority - 48 :=
        IntType.cast_small (by omega) (by omega)
      rw [if_pos h2, if_pos (show v.Kept from ⟨h1, h2⟩)]
      show some (toLex ((IntType.cast .signedLong v.when).val, _)) = _
      rw [hw, hd]
      rfl
    · rw [if_neg h2, if_neg fun h : v.Kept => h2 h.2]
      rfl

/-- The queue can be restored iff the sections of its events can be read and none lies in the past; its bins are then
those that were written, each upside down. -/
theorem restored_bins (h : Rep s bs) (hq : ∀ e, (s.mem e).flags.scheduled → (s.mem e).flags.autoSerialize ∧
    (s.mem e).flags.squashed = false) (hv : ∀ e, (s.mem e).flags.scheduled → (s.mem e).Typed) (main : Bool)
    (p : EventPtr → Int) : ∃ cp, s.serialize = .ok cp ∧
      ((∃ s', (init main s.curTick).unserialize p cp = .ok s') ↔
        ∀ e ∈ elems bs, utick s.curTick ≤ utick (s.mem e).when ∧ (s.mem e).Kept) ∧
      ∀ s', (init main s.curTick).unserialize p cp = .ok s' → Rep s' ((bs.map (rekey digitKey)).map turn) := by
  have hsch : ∀ e ∈ elems bs, (s.mem e).flags.scheduled := fun e he => (h.scheduled e).1 he
  have hall : (elems bs).filter (fun e => (s.mem e).flags.autoSerialize) = elems bs :=
    filter_eq_self.2 fun e he => (hq e (hsch e he)).1
  have hkey : ∀ e ∈ elems bs, (s.mem e).serialize.key =
      if (s.mem e).Kept then some (digitKey (s.mem e).key) else none :=
    fun e he => Event.key_serialize (hv e (hsch e he))
  obtain ⟨bs0, h0, hA0⟩ := (Refines.init main s.curTick).bins
  obtain rfl := h0.eq_nil rfl
  obtain ⟨hiff, hR⟩ := h0.unserialize (c := ⟨elems bs, fun e => (s.mem e).serialize⟩) (p := p)
    (f := digitKey ∘ fun e => (s.mem e).key) h.wf.nodup_elems (fun _ _ => rfl)
    (fun e he => ⟨h.alive e (hsch e he), hsch e he, (hq e (hsch e he)).2⟩) fun e he k hk => by
      rw [hkey e he] at hk
      split_ifs at hk
      · exact (Option.some.inj hk).symm
      · cases hk
  have hfill := (h.wf.rekey fun _ _ => digitKey_lt).fill_elems (c := []) (by simp)
  rw [nil_append, elems_map_rekey] at hfill
  refine ⟨_, by rw [h.serialize, hall], hiff.trans (forall₂_congr fun e he => ?_), fun s' hs' => hfill ▸ hR s' hs'⟩
  rw [EventSection.Fine, hkey e he]
  by_cases hk : (s.mem e).Kept
  · simp [hk, digitKey, Event.key, init]
  · simp [hk]

/-- A checkpoint of a queue of scheduled, unsquashed events that are serialized can be restored, and the restored queue
services the events in the same order, exactly if no event lies in the past, every priority is the code of a digit (and
no time the smallest one), and no two events have the same time and priority. -/
theorem checkpoint_order_iff {main : Bool} {t : Tick} {cs : List Call} (h : CallRun main t cs s)
    (hq : ∀ e, (s.mem e).flags.scheduled → (s.mem e).flags.autoSerialize ∧ (s.mem e).flags.squashed = false)
    (hv : ∀ e, (s.mem e).flags.scheduled → (s.mem e).Typed) (p : EventPtr → Int) :
    (∃ cp s', s.serialize = .ok cp ∧ (init main s.curTick).unserialize p cp = .ok s' ∧
      ∀ n, services n s' = services n s) ↔
    (∀ e, (s.mem e).flags.scheduled → utick s.curTick ≤ utick (s.mem e).when ∧ (s.mem e).Kept) ∧
      ∀ e e', (s.mem e).flags.scheduled → (s.mem e').flags.scheduled → (s.mem e).when = (s.mem e').when →
        (s.mem e).priority = (s.mem e').priority → e = e' := by
  obtain ⟨bs, hR, -⟩ := h.refines.bins
  obtain ⟨cp, hs, hiff, hrep⟩ := restored_bins hR hq hv main p
  have hsch : ∀ e, (s.mem e).flags.scheduled ↔ e ∈ elems bs := fun e => (hR.scheduled e).symm
  have hkey : ∀ e e', (s.mem e).key = (s.mem e').key ↔
      (s.mem e).when = (s.mem e').when ∧ (s.mem e).priority = (s.mem e').priority := by
    simp [Event.key]
  have hturn : elems ((bs.map (rekey digitKey)).map turn) = elems bs ↔
      ∀ e ∈ elems bs, ∀ e' ∈ elems bs, (s.mem e).key = (s.mem e').key → e = e' := by
    have hd := (hR.wf.rekey fun _ _ => digitKey_lt).elems_turn
    rw [elems_map_rekey] at hd
    have hm : StrictMono digitKey := fun _ _ => digitKey_lt
    exact hd.trans (by simp only [Function.comp_apply, hm.injective.eq_iff])
  simp only [hsch]
  constructor
  · rintro ⟨cp', s', hs', hu, hn⟩
    rw [hs] at hs'
    cases hs'
    have hR' := hrep s' hu
    have helems : elems ((bs.map (rekey digitKey)).map turn) = elems bs := by
      have h1 := hn ((elems ((bs.map (rekey digitKey)).map turn)).length + (elems bs).length)
      rwa [hR'.services, hR.services, take_of_length_le (Nat.le_add_right ..),
        take_of_length_le (Nat.le_add_left ..)] at h1
    refine ⟨hiff.1 ⟨s', hu⟩, fun e e' he he' h1 h2 => ?_⟩
    exact hturn.1 helems e he e' he' ((hkey e e').2 ⟨h1, h2⟩)
  · rintro ⟨hw, hinj⟩
    obtain ⟨s', hu⟩ := hiff.2 hw
    refine ⟨cp, s', hs, hu, fun n => ?_⟩
    rw [(hrep s' hu).services, hR.services, hturn.2]
    intro e he e' he' hk
    exact hinj e e' he he' ((hkey e e').1 hk).1 ((hkey e e').1 hk).2

/-- Three events of the given priority that are serialized, at the given times. -/
def threeEvents (pr : Int) (t1 t2 t3 : Tick) : List Call :=
  [.construct 1 pr, .construct 2 pr, .construct 3 pr, .setFlags 1 { autoSerialize := true },
    .setFlags 2 { autoSerialize := true }, .setFlags 3 { autoSerialize := true }, .schedule 1 t1, .schedule 2 t2,
    .schedule 3 t3]

theorem CallRun.mem_objs {main : Bool} {t : Tick} {cs : List Call} (h : CallRun main t cs s)
    (he : (s.mem e).flags.scheduled) : e ∈ s.objs := by
  obtain ⟨bs, hR, -⟩ := h.refines.bins
  exact hR.known e (hR.alive e he)

/-- Events with `CPU_Tick_Pri`, which is the code of `'2'`. -/
theorem checkpoint_order_threeEvents : ∃ s : State, CallRun true 0 (threeEvents 50 5 4 7) s ∧
    ∃ cp s', s.serialize = .ok cp ∧ (init true s.curTick).unserialize (fun _ => 0) cp = .ok s' ∧
      ∀ n, services n s' = services n s := by
  obtain ⟨s, h, ho, hall⟩ : ∃ s : State, CallRun true 0 (threeEvents 50 5 4 7) s ∧ s.objs = [3, 2, 1] ∧
      ∀ e ∈ [3, 2, 1], ((s.mem e).flags.autoSerialize ∧ (s.mem e).flags.squashed = false) ∧
        ((-2 ^ 63 ≤ (s.mem e).when ∧ (s.mem e).when < 2 ^ 63) ∧ -128 ≤ (s.mem e).priority ∧ (s.mem e).priority ≤ 127) ∧
        (utick s.curTick ≤ utick (s.mem e).when ∧ (s.mem e).Kept) ∧
        ∀ e' ∈ [3, 2, 1], (s.mem e).when = (s.mem e').when → e = e' :=
    ⟨_, .of_foldlM rfl, rfl, by decide⟩
  have hm : ∀ e, (s.mem e).flags.scheduled → e ∈ [3, 2, 1] := fun e he => ho ▸ h.mem_objs he
  refine ⟨s, h, (checkpoint_order_iff h (fun e he => ?_) (fun e he => ?_) (fun _ => 0)).2
    ⟨fun e he => ?_, fun e e' he he' hw _ => ?_⟩⟩
  · exact (hall e (hm e he)).1
  · exact (hall e (hm e he)).2.1
  · exact (hall e (hm e he)).2.2.1
  · exact (hall e (hm e he)).2.2.2 e' (hm e' he') hw

/-- Events with `Default_Pri` cannot be restored; and of those with `CPU_Tick_Pri`, two with the same time change
places. -/
theorem checkpoint_swaps :
    (∃ s cp, CallRun true 0 (threeEvents 0 5 4 7) s ∧ s.serialize = .ok cp ∧
      ((init true s.curTick).unserialize (fun _ => 0) cp).isOk = false) ∧
    ∃ s : State, CallRun true 0 (threeEvents 50 5 5 7) s ∧
      (∀ e, (s.mem e).flags.scheduled → (s.mem e).flags.autoSerialize ∧ (s.mem e).flags.squashed = false) ∧
      ∃ cp s', s.serialize = .ok cp ∧ (init true s.curTick).unserialize (fun _ => 0) cp = .ok s' ∧
        services 3 s = [2, 1, 3] ∧ services 3 s' = [1, 2, 3] := by
  refine ⟨⟨_, _, .of_foldlM rfl, rfl, by decide +kernel⟩, ?_⟩
  obtain ⟨s, h, ho, hall, hr⟩ : ∃ s : State, CallRun true 0 (threeEvents 50 5 5 7) s ∧ s.objs = [3, 2, 1] ∧
      (∀ e ∈ [3, 2, 1], (s.mem e).flags.autoSerialize ∧ (s.mem e).flags.squashed = false) ∧
      ∃ cp s', s.serialize = .ok cp ∧ (init true s.curTick).unserialize (fun _ => 0) cp = .ok s' ∧
        services 3 s = [2, 1, 3] ∧ services 3 s' = [1, 2, 3] :=
    ⟨_, .of_foldlM rfl, rfl, by decide, _, _, rfl, rfl, rfl, rfl⟩
  exact ⟨s, h, fun e he => hall e (ho ▸ h.mem_objs he), hr⟩

end M5.Sim
