import M5.Lib.Chain
import M5.Lib.Bins
import M5.Sim.EventQueue

/-!
# The linked lists of the event queue are bins

`Linked m head bs` says that `nextBin` and `nextInBin`, read from `head`, spell out the bins `bs`. Only the top event
of a bin has its `nextBin` read, which is why the source may leave the others stale.
-/

namespace M5.Sim

open M5.Lib Bins

/-! ## Keys -/

/-- What `operator<` orders events by. -/
abbrev Key := Int ×ₗ Int

def Event.key (e : Event) : Key := toLex (e.when, e.priority)

namespace Event

variable {l r : Event}

theorem lt_iff : l.lt r ↔ l.key < r.key := by
  simp [lt, key, Prod.Lex.toLex_lt_toLex]

theorem le_iff : l.le r ↔ l.key ≤ r.key := by
  simp [le, key, Prod.Lex.toLex_le_toLex]

theorem eq_iff : l.eq r ↔ l.key = r.key := by
  simp [eq, key]

theorem ne_iff : l.ne r ↔ l.key ≠ r.key := by
  simp [ne, key, ← not_and_or]

end Event

/-! ## Memory -/

section Memory

variable {m : Mem} {p q : EventPtr} {f : Event → Event}

@[simp] theorem Mem.set_self : m.set p f p = f (m p) := Function.update_self ..

@[simp] theorem Mem.set_of_ne (h : q ≠ p) : m.set p f q = m q := Function.update_of_ne h ..

end Memory

/-- The bins hang on `p`: tops along `nextBin`, stacks along `nextInBin`. -/
def Linked (m : Mem) (p : Option EventPtr) (bs : List (Key × List EventPtr)) : Prop :=
  Grid (fun x => (m x).nextBin) (fun x => (m x).nextInBin) p (bs.map Prod.snd)

/-- The pointers of the events may differ, nothing else. -/
def SameData (m m' : Mem) : Prop :=
  ∀ x, (m' x).key = (m x).key ∧ (m' x).flags = (m x).flags ∧ (m' x).priority = (m x).priority

theorem SameData.refl (m : Mem) : SameData m m := fun _ => ⟨rfl, rfl, rfl⟩

theorem SameData.trans {m m' m'' : Mem} (h : SameData m m') (h' : SameData m' m'') : SameData m m'' :=
  fun x => ⟨(h' x).1.trans (h x).1, (h' x).2.1.trans (h x).2.1, (h' x).2.2.trans (h x).2.2⟩

theorem SameData.set {m : Mem} {p : EventPtr} {f : Event → Event}
    (hf : (f (m p)).key = (m p).key ∧ (f (m p)).flags = (m p).flags ∧ (f (m p)).priority = (m p).priority) :
    SameData m (m.set p f) := by
  intro x
  by_cases hx : x = p
  · subst hx; simpa using hf
  · simp [hx]

section Bins

variable {m m' : Mem} {p : Option EventPtr} {bs : List (Key × List EventPtr)} {k : Key} {e x : EventPtr}
  {l : List EventPtr}

theorem linked_nil : Linked m p [] ↔ p = none := by simp [Linked]

theorem linked_cons : Linked m p ((k, x :: l) :: bs) ↔
    p = some x ∧ Chain (fun y => (m y).nextInBin) (m x).nextInBin l ∧ Linked m (m x).nextBin bs := by
  simp [Linked]

theorem Linked.behind {bs' : List (Key × List EventPtr)} (hl : Linked m p ((k, x :: l) :: bs))
    (h : ∀ z ∈ x :: l, (m' z).nextInBin = (m z).nextInBin) (hr : Linked m' (m' x).nextBin bs') :
    Linked m' (some x) ((k, x :: l) :: bs') := by
  refine linked_cons.2 ⟨rfl, ?_, hr⟩
  rw [h x List.mem_cons_self]
  exact (linked_cons.1 hl).2.1.congr fun z hz => h z (List.mem_cons_of_mem x hz)

theorem Linked.congr (h : Linked m p bs)
    (he : ∀ y ∈ elems bs, (m' y).nextBin = (m y).nextBin ∧ (m' y).nextInBin = (m y).nextInBin) :
    Linked m' p bs :=
  Grid.congr h he

theorem exists_top {key : EventPtr → Key} {l : List EventPtr} (hw : WF key ((k, l) :: bs)) : ∃ y t, l = y :: t :=
  List.exists_cons_of_ne_nil (wf_cons.1 hw).2.1

/-! ## Insertion -/

variable {curr head : Option EventPtr} {fuel : Nat}

theorem insertBefore_of_ne (h : x ≠ e) : insertBefore m e curr x = m x := by
  unfold insertBefore
  split
  · simp [h]
  · split <;> simp [h]

theorem insertBefore_sameData (curr : Option EventPtr) : SameData m (insertBefore m e curr) := by
  unfold insertBefore
  split
  · exact SameData.set ⟨rfl, rfl, rfl⟩
  · split <;> exact SameData.set ⟨rfl, rfl, rfl⟩

theorem Linked.insertBefore (h : Linked m p bs) (he : e ∉ elems bs) : Linked (insertBefore m e curr) p bs := by
  refine h.congr (fun y hy => ?_)
  rw [insertBefore_of_ne (fun hye : y = e => he (hye ▸ hy))]
  exact ⟨rfl, rfl⟩

theorem insertBefore_linked (hl : Linked m p bs) (hw : WF (fun y => (m y).key) bs) (he : e ∉ elems bs)
    (hle : ∀ x, p = some x → (m e).key ≤ (m x).key) :
    Linked (insertBefore m e p) (some e) (push (m e).key e bs) := by
  cases bs with
  | nil =>
    subst hl
    simp [push, linked_cons, linked_nil, Chain, insertBefore]
  | cons b bs =>
    obtain ⟨k, l⟩ := b
    obtain ⟨y, t, rfl⟩ := exists_top hw
    have hky : (m y).key = k := (wf_cons.1 hw).2.2.1 y (by simp)
    obtain ⟨hp, hc, hr⟩ := linked_cons.1 hl
    subst hp
    have he' := he
    rw [elems_cons, List.mem_append, not_or, List.mem_cons, not_or] at he'
    obtain ⟨⟨hye, het⟩, hebs⟩ := he'
    have hle := hle y rfl
    rw [push]
    by_cases hlt : (m e).key < k
    · rw [if_pos hlt, linked_cons]
      have h1 : (m e).lt (m y) := by rw [Event.lt_iff, hky]; exact hlt
      refine ⟨rfl, ?_, ?_⟩
      · simp [insertBefore, h1, Chain]
      · have hstay : Linked (insertBefore m e (some y)) (some y) ((k, y :: t) :: bs) := hl.insertBefore he
        simpa [insertBefore, h1] using hstay
    · have heq : (m e).key = k := le_antisymm (hky ▸ hle) (not_lt.1 hlt)
      rw [if_neg hlt, if_pos heq, linked_cons]
      have h1 : ¬ (m e).lt (m y) := by rw [Event.lt_iff, hky]; exact hlt
      refine ⟨rfl, ?_, ?_⟩
      · have hins : (insertBefore m e (some y) e).nextInBin = some y := by simp [insertBefore, h1]
        rw [hins]
        refine ⟨rfl, ?_⟩
        show Chain _ (insertBefore m e (some y) y).nextInBin t
        rw [insertBefore_of_ne (Ne.symm hye)]
        refine hc.congr (fun z hz => ?_)
        rw [insertBefore_of_ne (fun hze : z = e => het (hze ▸ hz))]
      · have hins : (insertBefore m e (some y) e).nextBin = (m y).nextBin := by simp [insertBefore, h1]
        rw [hins]
        exact hr.insertBefore hebs

/-- What an insertion behind `prev` leaves: the bins behind it have the event, and nothing else has changed. -/
structure InsertedAfter (m m' : Mem) (e prev : EventPtr) (bs : List (Key × List EventPtr)) : Prop where
  linked : Linked m' (m' prev).nextBin (push (m e).key e bs)
  nextInBin : ∀ y, y ≠ e → (m' y).nextInBin = (m y).nextInBin
  frame : ∀ y, y ≠ e → y ≠ prev → y ∉ elems bs → m' y = m y

theorem insertedAfter_here {prev : EventPtr} (hl : Linked m (m prev).nextBin bs)
    (hw : WF (fun y => (m y).key) bs) (he : e ∉ elems bs) (hp : prev ∉ elems bs) (hpe : prev ≠ e)
    (hle : ∀ x, (m prev).nextBin = some x → (m e).key ≤ (m x).key) :
    InsertedAfter m ((insertBefore m e (m prev).nextBin).set prev (fun v => { v with nextBin := some e })) e prev
      bs where
  linked := by
    rw [Mem.set_self]
    refine (insertBefore_linked hl hw he hle).congr (fun y hy => ?_)
    have hyp : y ≠ prev := by
      rintro rfl
      rcases mem_elems_push.1 hy with h | h
      · exact hpe h
      · exact hp h
    simp [hyp]
  nextInBin y hy := by
    by_cases hyp : y = prev
    · subst hyp; simp [insertBefore_of_ne hy]
    · simp [hyp, insertBefore_of_ne hy]
  frame y hy hyp _ := by simp [hyp, insertBefore_of_ne hy]

theorem findBin_insert : ∀ {bs : List (Key × List EventPtr)} {prev : EventPtr} {fuel : Nat},
    Linked m (m prev).nextBin bs → WF (fun y => (m y).key) bs → e ∉ elems bs → prev ∉ elems bs →
    prev ≠ e → bs.length < fuel →
    ∃ pr cu, findBin m e fuel prev (m prev).nextBin = .ok (pr, cu) ∧
      InsertedAfter m ((insertBefore m e cu).set pr (fun v => { v with nextBin := some e })) e prev bs
  | _, _, 0, _, _, _, _, _, hf => absurd hf (Nat.not_lt_zero _)
  | [], prev, fuel + 1, hl, hw, he, hp, hpe, hf => by
    have hn := linked_nil.1 hl
    exact ⟨prev, (m prev).nextBin, by rw [hn]; rfl, insertedAfter_here hl hw he hp hpe (by simp [hn])⟩
  | (k, l) :: bs, prev, fuel + 1, hl, hw, he, hp, hpe, hf => by
    obtain ⟨y, t, rfl⟩ := exists_top hw
    obtain ⟨hn, hc, hr⟩ := linked_cons.1 hl
    obtain ⟨-, -, hkey, hnd, hw'⟩ := wf_cons.1 hw
    have hky : (m y).key = k := hkey y (by simp)
    rw [hn, findBin]
    by_cases hlt : (m y).lt (m e)
    · -- the loop goes on behind `y`, so the first bin is untouched
      rw [elems_cons, List.mem_append, not_or] at he hp
      have hye : ∀ z ∈ y :: t, z ≠ e := fun z hz h => he.1 (h ▸ hz)
      obtain ⟨pr, cu, hfind, hins⟩ := findBin_insert hr hw' he.2 (hw.notMem_elems List.mem_cons_self)
        (hye y List.mem_cons_self) (Nat.lt_of_succ_lt_succ hf)
      refine ⟨pr, cu, by rw [if_pos hlt]; exact hfind, ?_, hins.nextInBin, ?_⟩
      · have hkk : k < (m e).key := by rw [← hky]; exact Event.lt_iff.1 hlt
        have hpy : prev ≠ y := fun h => hp.1 (h ▸ List.mem_cons_self)
        rw [hins.frame prev hpe hpy hp.2, hn, push, if_neg (not_lt.2 hkk.le), if_neg hkk.ne']
        exact hl.behind (fun z hz => hins.nextInBin z (hye z hz)) hins.linked
      · intro z hz _ hzb
        rw [elems_cons, List.mem_append, not_or] at hzb
        exact hins.frame z hz (fun h => hzb.1 (h ▸ List.mem_cons_self)) hzb.2
    · refine ⟨prev, some y, by rw [if_neg hlt], ?_⟩
      rw [← hn]
      refine insertedAfter_here hl hw he hp hpe (fun x hx => ?_)
      rw [hn] at hx
      cases hx
      rw [Event.lt_iff, not_lt] at hlt
      exact hlt

/-- `EventQueue::insert` pushes the event on the stack of its key. -/
theorem insert_spec (hl : Linked m head bs)
    (hw : WF (fun y => (m y).key) bs) (he : e ∉ elems bs) (hf : bs.length ≤ fuel) :
    ∃ m' head', insert fuel m head e = .ok (m', head') ∧ Linked m' head' (push (m e).key e bs) ∧
      SameData m m' := by
  match head, hl with
  | none, hl =>
    exact ⟨_, _, rfl, insertBefore_linked hl hw he (by simp), insertBefore_sameData _⟩
  | some h, hl =>
    cases bs with
    | nil => cases linked_nil.1 hl
    | cons b bs =>
      obtain ⟨k, l⟩ := b
      obtain ⟨y, t, rfl⟩ := exists_top hw
      obtain ⟨hn, hc, hr⟩ := linked_cons.1 hl
      cases hn
      by_cases hle : (m e).le (m h)
      · refine ⟨_, _, if_pos hle, insertBefore_linked hl hw he ?_, insertBefore_sameData _⟩
        intro x hx
        cases hx
        exact Event.le_iff.1 hle
      · have hky : (m h).key = k := (wf_cons.1 hw).2.2.1 h (by simp)
        have hkk : k < (m e).key := by rw [← hky]; rw [Event.le_iff, not_le] at hle; exact hle
        rw [elems_cons, List.mem_append, not_or] at he
        have hhe : ∀ z ∈ h :: t, z ≠ e := fun z hz h => he.1 (h ▸ hz)
        obtain ⟨pr, cu, hfind, hins⟩ := findBin_insert hr (wf_cons.1 hw).2.2.2.2 he.2
          (hw.notMem_elems List.mem_cons_self) (hhe h List.mem_cons_self) hf
        refine ⟨_, _, (if_neg hle).trans (by rw [hfind]; rfl), ?_, ?_⟩
        · rw [push, if_neg (not_lt.2 hkk.le), if_neg hkk.ne']
          exact hl.behind (fun z hz => hins.nextInBin z (hhe z hz)) hins.linked
        · exact (insertBefore_sameData cu).trans (SameData.set ⟨rfl, rfl, rfl⟩)

/-! ## Removal -/

theorem findItem_spec : ∀ {l : List EventPtr} {x : EventPtr} {fuel : Nat},
    Chain (fun y => (m y).nextInBin) (m x).nextInBin l → (x :: l).Nodup → e ∈ l → l.length < fuel →
    ∃ c m', findItem m e fuel x (m x).nextInBin = .ok c ∧ c ∈ x :: l ∧
      m' = m.set c (fun v => { v with nextInBin := (m e).nextInBin }) ∧
      Chain (fun y => (m' y).nextInBin) (m' x).nextInBin (l.erase e)
  | _, _, 0, _, _, _, hf => absurd hf (Nat.not_lt_zero _)
  | [], _, _ + 1, _, _, he, _ => by simp at he
  | n :: l, x, fuel + 1, hc, hn, he, hf => by
    obtain ⟨hx, hc⟩ := hc
    obtain ⟨hxn, hn⟩ := List.nodup_cons.1 hn
    rw [hx]
    by_cases hen : e = n
    · subst hen
      refine ⟨x, _, if_pos rfl, by simp, rfl, ?_⟩
      rw [List.erase_cons_head, Mem.set_self]
      refine hc.congr (fun y hy => ?_)
      rw [Mem.set_of_ne]
      rintro rfl
      exact hxn (by simp [hy])
    · have he' : e ∈ l := by simpa [hen] using he
      obtain ⟨c, m', hfind, hmem, hm', hch⟩ := findItem_spec hc hn he' (Nat.lt_of_succ_lt_succ hf)
      refine ⟨c, m', (if_neg hen).trans hfind, List.mem_cons_of_mem x hmem, hm', ?_⟩
      have hcx : x ≠ c := fun h => hxn (h ▸ hmem)
      rw [List.erase_cons_tail (by simpa using Ne.symm hen)]
      refine ⟨?_, hch⟩
      rw [hm', Mem.set_of_ne hcx, hx]

/-- What `removeItem` leaves of a bin with the stack `b`, hanging before the bins `bs`. -/
structure Removed (m m' : Mem) (e : EventPtr) (t : Option EventPtr) (b : List EventPtr)
    (bs : List (Key × List EventPtr)) : Prop where
  linked : ∀ k, Linked m' t (if b.erase e = [] then bs else (k, b.erase e) :: bs)
  data : SameData m m'
  frame : ∀ y, y ∉ b → m' y = m y

/-- `Event::removeItem` takes the event out of its bin and repairs the new top. -/
theorem removeItem_spec {g : Nat} (hc : Chain (fun y => (m y).nextInBin) (m x).nextInBin l) (hn : (x :: l).Nodup)
    (he : e ∈ x :: l) (hf : l.length < g) (hr : Linked m (m x).nextBin bs)
    (hd : ∀ y ∈ x :: l, y ∉ elems bs) :
    ∃ m' t, removeItem g m e x = .ok (m', t) ∧ Removed m m' e t (x :: l) bs := by
  -- a write to members of the bin does not reach the bins behind it
  have hrest : ∀ {m' : Mem}, (∀ y, y ∉ x :: l → m' y = m y) → Linked m' (m x).nextBin bs := by
    intro m' hfr
    refine hr.congr (fun y hy => ?_)
    rw [hfr y (fun h => hd y h hy)]
    exact ⟨rfl, rfl⟩
  unfold removeItem
  by_cases hex : e = x
  · subst hex
    rw [if_pos rfl]
    cases l with
    | nil =>
      have hnx : (m e).nextInBin = none := hc
      rw [hnx]
      exact ⟨m, _, rfl, fun k => by simpa using hr, SameData.refl m, fun _ _ => rfl⟩
    | cons n l =>
      obtain ⟨hnx, hc⟩ := hc
      rw [hnx]
      have hfr : ∀ y, y ∉ e :: n :: l → m.set n (fun v => { v with nextBin := (m e).nextBin }) y = m y := by
        intro y hy
        refine Mem.set_of_ne ?_
        rintro rfl
        exact hy (by simp)
      refine ⟨_, _, rfl, fun k => ?_, SameData.set ⟨rfl, rfl, rfl⟩, hfr⟩
      rw [List.erase_cons_head, if_neg (by simp), linked_cons, Mem.set_self]
      refine ⟨rfl, hc.congr (fun y hy => ?_), hrest hfr⟩
      by_cases hyn : y = n
      · subst hyn; simp
      · simp [hyn]
  · rw [if_neg hex]
    have hel : e ∈ l := by simpa [hex] using he
    obtain ⟨c, m', hfind, hmem, hm', hch⟩ := findItem_spec hc hn hel hf
    have hfr : ∀ y, y ∉ x :: l → m' y = m y := by
      intro y hy
      rw [hm', Mem.set_of_ne]
      rintro rfl
      exact hy hmem
    refine ⟨m', some x, by rw [hfind, hm']; rfl, fun k => ?_, hm' ▸ SameData.set ⟨rfl, rfl, rfl⟩, hfr⟩
    rw [List.erase_cons_tail (by simpa using Ne.symm hex), if_neg (by simp), linked_cons]
    have hbin : (m' x).nextBin = (m x).nextBin := by
      rw [hm']
      by_cases hxc : x = c
      · subst hxc; simp
      · simp [hxc]
    exact ⟨rfl, hch, hbin ▸ hrest hfr⟩

/-- What a removal behind `prev` leaves: the bins behind it have lost the event, and nothing else has changed. -/
structure RemovedAfter (m m' : Mem) (e prev : EventPtr) (bs : List (Key × List EventPtr)) : Prop where
  linked : Linked m' (m' prev).nextBin (erase (m e).key e bs)
  data : SameData m m'
  nextInBin : ∀ y, y ∉ elems bs → (m' y).nextInBin = (m y).nextInBin
  frame : ∀ y, y ≠ prev → y ∉ elems bs → m' y = m y

theorem findBin_remove {g : Nat} : ∀ {bs : List (Key × List EventPtr)} {prev : EventPtr} {n : Nat},
    Linked m (m prev).nextBin bs → WF (fun y => (m y).key) bs → e ∈ elems bs → prev ∉ elems bs →
    bs.length < n → (elems bs).length ≤ g →
    ∃ pr c t m', findBin m e n prev (m prev).nextBin = .ok (pr, some c) ∧ ¬ (m c).ne (m e) ∧
      removeItem g m e c = .ok (m', t) ∧
      RemovedAfter m (m'.set pr (fun v => { v with nextBin := t })) e prev bs
  | _, _, 0, _, _, _, _, hf, _ => absurd hf (Nat.not_lt_zero _)
  | [], _, _ + 1, _, _, he, _, _, _ => by simp [elems] at he
  | (k, l) :: bs, prev, n + 1, hl, hw, he, hp, hf, hf' => by
    obtain ⟨y, t, rfl⟩ := exists_top hw
    obtain ⟨hn, hc, hr⟩ := linked_cons.1 hl
    obtain ⟨-, -, hkey, hnd, hw'⟩ := wf_cons.1 hw
    have hky : (m y).key = k := hkey y (by simp)
    have hdis : ∀ z ∈ y :: t, z ∉ elems bs := fun z hz => hw.notMem_elems hz
    rw [elems_cons, List.mem_append] at he hp
    rw [not_or] at hp
    rw [elems_cons, List.length_append, List.length_cons] at hf'
    rw [hn]
    rcases he with he | he
    · -- the first bin is the one: the loop stops in front of it
      have hke : (m e).key = k := hkey e he
      obtain ⟨m', top, hrem, hR⟩ := removeItem_spec hc hnd he (g := g) (by omega) hr hdis
      have hnlt : ¬ (m y).lt (m e) := by rw [Event.lt_iff, hky, hke]; exact lt_irrefl k
      have hneq : ¬ (m y).ne (m e) := by rw [Event.ne_iff, hky, hke]; simp
      refine ⟨prev, y, top, m', if_neg hnlt, hneq, hrem, ?_, ?_, ?_, ?_⟩
      · rw [Mem.set_self, erase, if_pos hke]
        refine (hR.linked k).congr (fun z hz => ?_)
        have hzp : z ≠ prev := by
          rintro rfl
          split at hz
          · exact hp.2 hz
          · rw [elems_cons, List.mem_append] at hz
            exact hz.elim (fun h => hp.1 (List.mem_of_mem_erase h)) hp.2
        simp [hzp]
      · exact hR.data.trans (SameData.set ⟨rfl, rfl, rfl⟩)
      · intro z hz
        rw [elems_cons, List.mem_append, not_or] at hz
        by_cases hzp : z = prev
        · subst hzp; simp [hR.frame z hz.1]
        · simp [hzp, hR.frame z hz.1]
      · intro z hzp hz
        rw [elems_cons, List.mem_append, not_or] at hz
        simp [hzp, hR.frame z hz.1]
    · -- the event is further on, and so is its key
      have hkk : k < (m e).key := hw.lt_key he
      have hylt : (m y).lt (m e) := by rw [Event.lt_iff, hky]; exact hkk
      obtain ⟨pr, c, top, m', hfind, hne, hrem, hR⟩ :=
        findBin_remove (g := g) hr hw' he (hdis y (by simp)) (Nat.lt_of_succ_lt_succ hf) (by omega)
      refine ⟨pr, c, top, m', (if_pos hylt).trans hfind, hne, hrem, ?_, hR.data, ?_, ?_⟩
      · have hpy : prev ≠ y := fun h => hp.1 (by simp [h])
        rw [hR.frame prev hpy hp.2, hn, erase, if_neg hkk.ne']
        exact hl.behind (fun z hz => hR.nextInBin z (hdis z hz)) hR.linked
      · intro z hz
        rw [elems_cons, List.mem_append, not_or] at hz
        exact hR.nextInBin z hz.2
      · intro z hzp hz
        rw [elems_cons, List.mem_append, not_or] at hz
        exact hR.frame z (fun h => hz.1 (by simp [h])) hz.2

/-- `EventQueue::remove` erases a linked event and never reaches `panic`. -/
theorem remove_spec (hl : Linked m head bs)
    (hw : WF (fun y => (m y).key) bs) (he : e ∈ elems bs) (hf : (elems bs).length ≤ fuel)
    (hf' : bs.length ≤ fuel) :
    ∃ m' head', remove fuel m head e = .ok (m', head') ∧ Linked m' head' (erase (m e).key e bs) ∧
      SameData m m' := by
  cases bs with
  | nil => simp [elems] at he
  | cons b bs =>
    obtain ⟨k, l⟩ := b
    obtain ⟨h, t, rfl⟩ := exists_top hw
    obtain ⟨hn, hc, hr⟩ := linked_cons.1 hl
    subst hn
    obtain ⟨-, -, hkey, hnd, hw'⟩ := wf_cons.1 hw
    have hkh : (m h).key = k := hkey h (by simp)
    have hdis : ∀ z ∈ h :: t, z ∉ elems bs := fun z hz => hw.notMem_elems hz
    rw [elems_cons, List.mem_append] at he
    rw [elems_cons, List.length_append, List.length_cons] at hf
    rw [List.length_cons] at hf'
    rcases he with he | he
    · have hke : (m e).key = k := hkey e he
      have heq : (m h).eq (m e) := by rw [Event.eq_iff, hkh, hke]
      obtain ⟨m', top, hrem, hR⟩ := removeItem_spec hc hnd he (g := fuel) (by omega) hr hdis
      refine ⟨m', top, (if_pos heq).trans hrem, ?_, hR.data⟩
      rw [erase, if_pos hke]
      exact hR.linked k
    · have hkk : k < (m e).key := hw.lt_key he
      have hneq : ¬ (m h).eq (m e) := by rw [Event.eq_iff, hkh]; exact hkk.ne
      obtain ⟨pr, c, top, m', hfind, hne, hrem, hR⟩ :=
        findBin_remove (g := fuel) (n := fuel) hr hw' he (hdis h (by simp)) (by omega) (by omega)
      refine ⟨_, some h, (if_neg hneq).trans (by rw [hfind]; exact (if_neg hne).trans (by rw [hrem]; rfl)), ?_, hR.data⟩
      rw [erase, if_neg hkk.ne']
      exact hl.behind (fun z hz => hR.nextInBin z (hdis z hz)) hR.linked

end Bins

end M5.Sim
