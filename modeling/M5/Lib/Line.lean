import Mathlib.Logic.Function.Basic

/-!
# A line shared by caches

One line of memory and the copies that caches hold of it, where every cache sees every transaction. A transaction of
cache `i` uses its own copy, or fetches one while the others give up the right to write, or takes the line over from
all others; what it then does to the copy is a relation `U`.
-/

namespace M5.Lib

open Function

universe u v

structure Copy (β : Type v) where
  writable : Bool
  dirty : Bool
  val : β

namespace Copy

variable {β : Type v}

def demote (c : Copy β) : Copy β := { c with writable := false }

/-- What a transaction may do with the own copy: only an exclusive one changes it, and leaves it dirty then. -/
structure Use (excl : Bool) (c c' : Copy β) : Prop where
  writable : c'.writable → c.writable
  dirty : c.dirty → c'.dirty
  owned : c'.dirty → c.dirty ∨ excl
  val : c'.val = c.val ∨ (excl ∧ c'.dirty)

end Copy

/-- The copies of a line and its value in memory. -/
@[ext] structure Line (ι : Type u) (β : Type v) where
  copies : ι → Option (Copy β)
  mem : β

namespace Line

variable {ι : Type u} {β : Type v}

/-- A copy is writable only alone, and at most one copy is dirty. -/
structure Coherent (l : Line ι β) : Prop where
  alone {i j : ι} {c d : Copy β} : l.copies i = some c → c.writable → l.copies j = some d → i = j
  owner {i j : ι} {c d : Copy β} : l.copies i = some c → c.dirty → l.copies j = some d → d.dirty → i = j

/-- The value of the line is `v`: in all copies, and in memory unless a copy is dirty. -/
structure Current (l : Line ι β) (v : β) : Prop where
  copy {i : ι} {c : Copy β} : l.copies i = some c → c.val = v
  mem : l.mem = v ∨ ∃ i c, l.copies i = some c ∧ c.dirty

/-- What cache `i` gets when it asks for the line: the dirty copy of another cache, or else memory. -/
def Supplies (l : Line ι β) (i : ι) (v : β) : Prop :=
  (∃ j c, j ≠ i ∧ l.copies j = some c ∧ c.dirty ∧ c.val = v) ∨
    ((∀ j c, j ≠ i → l.copies j = some c → ¬ c.dirty) ∧ l.mem = v)

variable [DecidableEq ι]

variable (l : Line ι β) (i : ι)

def put (c : Copy β) : Line ι β := { l with copies := update l.copies i (some c) }

/-- The other caches may no longer write. -/
def share : Line ι β :=
  { l with copies := fun j => if j = i then l.copies j else (l.copies j).map .demote }

/-- The other caches lose their copies. -/
def purge : Line ι β :=
  { l with copies := fun j => if j = i then l.copies j else none }

/-- Cache `i` gives up its copy, and writes it back if it is dirty. -/
def evict : Line ι β where
  copies := update l.copies i none
  mem := match l.copies i with
    | some c => if c.dirty then c.val else l.mem
    | none => l.mem

/-- A transaction of cache `i`, exclusive or not, that does `U` to its copy. -/
inductive Step (excl : Bool) (U : Copy β → Copy β → Prop) (i : ι) (l : Line ι β) : Line ι β → Prop
  | hit {c c' : Copy β} (h : l.copies i = some c) (hx : excl → c.writable) (hu : U c c') : Step excl U i l (l.put i c')
  | fetch {c c' : Copy β} (h : l.copies i = none) (hx : excl = false) (hs : l.Supplies i c.val) (hd : c.dirty = false)
      (hw : c.writable → ∀ j, j ≠ i → l.copies j = none) (hu : U c c') : Step excl U i l ((l.share i).put i c')
  | own {c c' : Copy β} (h : ∀ d, l.copies i = some d → d.writable = false ∧ c.val = d.val) (hx : excl)
      (hs : l.copies i = none → l.Supplies i c.val) (hu : U c c') : Step excl U i l ((l.purge i).put i c')

section Lemmas

variable {l l' : Line ι β} {i j : ι} {c c' d : Copy β} {v : β}

theorem put_self : (l.put i c).copies i = some c := update_self ..

theorem put_of_ne (h : j ≠ i) : (l.put i c).copies j = l.copies j := update_of_ne h ..

theorem share_some (h : j ≠ i) : (l.share i).copies j = some d ↔ ∃ e, l.copies j = some e ∧ e.demote = d := by
  simp [share, h]

theorem purge_of_ne (h : j ≠ i) : (l.purge i).copies j = none := if_neg h

theorem put_some (h : (l.put i c).copies j = some d) : (j = i ∧ d = c) ∨ (j ≠ i ∧ l.copies j = some d) := by
  by_cases hj : j = i
  · rw [hj, put_self] at h
    exact .inl ⟨hj, (Option.some.inj h).symm⟩
  · rw [put_of_ne hj] at h
    exact .inr ⟨hj, h⟩

theorem evict_self : (l.evict i).copies i = none := update_self ..

theorem evict_of_ne (h : j ≠ i) : (l.evict i).copies j = l.copies j := update_of_ne h ..

theorem evict_mem (h : l.copies i = some c) : (l.evict i).mem = if c.dirty then c.val else l.mem := by
  simp only [evict, h]

theorem evict_some (h : (l.evict i).copies j = some d) : j ≠ i ∧ l.copies j = some d := by
  by_cases hj : j = i
  · rw [hj, evict_self] at h
    cases h
  · exact ⟨hj, (evict_of_ne hj).symm.trans h⟩

/-! ## Coherence -/

theorem Coherent.evict (h : l.Coherent) : (l.evict i).Coherent where
  alone hc hw hd := h.alone (evict_some hc).2 hw (evict_some hd).2
  owner hc hdc hd hdd := h.owner (evict_some hc).2 hdc (evict_some hd).2 hdd

/-- A copy put beside copies that are neither writable nor, if it is dirty, dirty, and none if it is writable. -/
theorem Coherent.put (halone : c.writable → ∀ j, j ≠ i → l.copies j = none)
    (hothers : ∀ {j d}, j ≠ i → l.copies j = some d → d.writable = false ∧ (c.dirty → d.dirty = false))
    (hown : ∀ {j k d e}, j ≠ i → k ≠ i → l.copies j = some d → d.dirty → l.copies k = some e → e.dirty → j = k) :
    (l.put i c).Coherent where
  alone := by
    intro j k d e hd hw he
    rcases put_some hd with ⟨rfl, rfl⟩ | ⟨hj, hd⟩
    · rcases put_some he with ⟨rfl, -⟩ | ⟨hk, he⟩
      · rfl
      · rw [halone hw k hk] at he
        cases he
    · rw [(hothers hj hd).1] at hw
      cases hw
  owner := by
    intro j k d e hd hdd he hde
    rcases put_some hd with ⟨hj, hdc⟩ | ⟨hj, hd'⟩ <;> rcases put_some he with ⟨hk, hec⟩ | ⟨hk, he'⟩
    · rw [hj, hk]
    · rw [(hothers hk he').2 (hdc ▸ hdd)] at hde
      cases hde
    · rw [(hothers hj hd').2 (hec ▸ hde)] at hdd
      cases hdd
    · exact hown hj hk hd' hdd he' hde

omit [DecidableEq ι] in
theorem Coherent.others (h : l.Coherent) (hc : l.copies i = some c) (hj : j ≠ i) (hd : l.copies j = some d) :
    d.writable = false ∧ (c.dirty ∨ c.writable → d.dirty = false) := by
  refine ⟨Bool.eq_false_iff.2 fun hw => hj (h.alone hd hw hc), ?_⟩
  rintro (hcd | hcw)
  · exact Bool.eq_false_iff.2 fun hdd => hj (h.owner hd hdd hc hcd)
  · exact absurd (h.alone hc hcw hd).symm hj

variable {U : Copy β → Copy β → Prop} {excl : Bool}

/-- A copy is writable only alone, and at most one copy is dirty. -/
theorem Step.lineCoherent (hU : ∀ {c c'}, U c c' → c.Use excl c')
    (h : l.Coherent) (hs : l.Step excl U i l') : l'.Coherent := by
  cases hs with
  | hit hc hx hu =>
    have huse := hU hu
    refine .put (fun hw k hk => ?_) (fun hk he => ?_) fun _ _ hd hdd he hde => h.owner hd hdd he hde
    · cases he : l.copies k with
      | none => rfl
      | some e => exact absurd (h.alone hc (huse.writable hw) he).symm hk
    · have hothers := h.others hc hk he
      exact ⟨hothers.1, fun hd => hothers.2 ((huse.owned hd).imp_right hx)⟩
  | fetch hn hx hs hd hw hu =>
    have huse := hU hu
    refine .put (fun hcw k hk => ?_) (fun hk he => ?_) fun hj hk hd' hdd he hde => ?_
    · refine Option.eq_none_iff_forall_ne_some.2 fun e he => ?_
      obtain ⟨e', he', -⟩ := (share_some hk).1 he
      rw [hw (huse.writable hcw) k hk] at he'
      cases he'
    · obtain ⟨e', he', rfl⟩ := (share_some hk).1 he
      refine ⟨rfl, fun hcd => absurd (huse.owned hcd) ?_⟩
      simp [hd, hx]
    · obtain ⟨d', hd1, rfl⟩ := (share_some hj).1 hd'
      obtain ⟨e', he1, rfl⟩ := (share_some hk).1 he
      exact h.owner hd1 hdd he1 hde
  | own hn hx hs hu =>
    have hnone : ∀ {k e}, k ≠ i → (l.purge i).copies k ≠ some e := fun hk he => by
      rw [purge_of_ne hk] at he
      cases he
    exact .put (fun _ k hk => purge_of_ne hk) (fun hk he => absurd he (hnone hk))
      fun hj _ hd _ _ _ => absurd hd (hnone hj)

/-! ## Values -/

omit [DecidableEq ι] in
theorem Supplies.eq {w : β} (hs : l.Supplies i w) (h : l.Current v) (hi : l.copies i = none) : w = v := by
  rcases hs with ⟨j, c, -, hc, -, rfl⟩ | ⟨hno, rfl⟩
  · exact h.copy hc
  · rcases h.mem with hm | ⟨j, c, hc, hd⟩
    · exact hm
    · refine absurd hd (hno j c ?_ hc)
      rintro rfl
      rw [hi] at hc
      cases hc

theorem Current.evict (h : l.Current v) : (l.evict i).Current v where
  copy hc := h.copy (evict_some hc).2
  mem := by
    cases hi : l.copies i with
    | some c =>
      rw [evict_mem hi]
      by_cases hd : c.dirty
      · exact .inl (by rw [if_pos hd]; exact h.copy hi)
      · rw [if_neg hd]
        rcases h.mem with hm | ⟨j, d, hj, hdd⟩
        · exact .inl hm
        · refine .inr ⟨j, d, ?_, hdd⟩
          rw [evict_of_ne, hj]
          rintro rfl
          rw [hi] at hj
          exact hd (by rw [Option.some.inj hj]; exact hdd)
    | none =>
      simp only [Line.evict, hi]
      rw [← hi, update_eq_self]
      exact h.mem

theorem Current.put (hothers : ∀ {j d}, j ≠ i → l.copies j = some d → d.val = c.val)
    (hmem : l.mem = c.val ∨ c.dirty ∨ ∃ j d, j ≠ i ∧ l.copies j = some d ∧ d.dirty) : (l.put i c).Current c.val where
  copy hd := by
    rcases put_some hd with ⟨-, rfl⟩ | ⟨hj, hd⟩
    · rfl
    · exact hothers hj hd
  mem := by
    rcases hmem with hm | hd | ⟨j, d, hj, hd, hdd⟩
    · exact .inl hm
    · exact .inr ⟨i, c, put_self, hd⟩
    · exact .inr ⟨j, d, (put_of_ne hj).trans hd, hdd⟩

/-- A transaction works on the value of the line. -/
theorem Step.start (hv : l.Current v) (hs : l.Step excl U i l') : ∃ c c', U c c' ∧ c.val = v := by
  cases hs with
  | @hit c c' hc hx hu => exact ⟨c, c', hu, hv.copy hc⟩
  | @fetch c c' hn hx hs hd hw hu => exact ⟨c, c', hu, hs.eq hv hn⟩
  | @own c c' hn hx hs hu =>
    refine ⟨c, c', hu, ?_⟩
    cases hi : l.copies i with
    | none => exact (hs hi).eq hv hi
    | some d => exact (hn d hi).2.trans (hv.copy hi)

/-- All copies agree on the value of the line, and memory is behind only while a copy is dirty, provided that a line
taken over from a dirty copy is dirty again. -/
theorem Step.current (hU : ∀ {c c'}, U c c' → c.Use excl c')
    (h : l.Coherent) (hv : l.Current v) (hs : l.Step excl U i l')
    (hkeep : excl → (∀ c, l.copies i = some c → c.writable = false) →
      l.mem = v ∨ ∀ c c', U c c' → c.val = v → c'.dirty) :
    ∃ c c', U c c' ∧ c.val = v ∧ l'.Current c'.val := by
  cases hs with
  | @hit c c' hc hx hu =>
    have huse := hU hu
    have hcv : c.val = v := hv.copy hc
    refine ⟨c, c', hu, hcv, ?_⟩
    rcases huse.val with hval | ⟨hex, hd⟩
    · -- the value stays, and a dirty copy of this or another cache with it
      refine .put (fun _ hd => by rw [hv.copy hd, hval, hcv]) ?_
      rcases hv.mem with hm | ⟨j, d, hj, hdd⟩
      · exact .inl (by rw [hm, hval, hcv])
      · by_cases hji : j = i
        · rw [hji, hc] at hj
          exact .inr (.inl (huse.dirty (by rw [Option.some.inj hj]; exact hdd)))
        · exact .inr (.inr ⟨j, d, hji, hj, hdd⟩)
    · exact .put (fun hj hd => absurd (h.alone hc (hx hex) hd).symm hj) (.inr (.inl hd))
  | @fetch c c' hn hx hs hd hw hu =>
    have hcv : c.val = v := hs.eq hv hn
    have hval : c'.val = c.val := by
      rcases (hU hu).val with hval | ⟨hex, -⟩
      · exact hval
      · rw [hx] at hex
        cases hex
    refine ⟨c, c', hu, hcv, .put (fun hj hd => ?_) ?_⟩
    · obtain ⟨e, he, rfl⟩ := (share_some hj).1 hd
      show e.val = c'.val
      rw [hval, hcv, hv.copy he]
    · rcases hv.mem with hm | ⟨j, d, hj, hdd⟩
      · exact .inl (by rw [hval, hcv]; exact hm)
      · have hji : j ≠ i := by
          rintro rfl
          rw [hn] at hj
          cases hj
        exact .inr (.inr ⟨j, _, hji, (share_some hji).2 ⟨d, hj, rfl⟩, hdd⟩)
  | @own c c' hn hx hs hu =>
    have hcv : c.val = v := by
      cases hi : l.copies i with
      | none => exact (hs hi).eq hv hi
      | some d => exact (hn d hi).2.trans (hv.copy hi)
    refine ⟨c, c', hu, hcv, .put (fun hj hd => ?_) ?_⟩
    · rw [purge_of_ne hj] at hd
      cases hd
    · rcases hkeep hx fun d hd => (hn d hd).1 with hm | hd
      · rcases (hU hu).val with hval | ⟨-, hd⟩
        · exact .inl (by rw [hval, hcv]; exact hm)
        · exact .inr (.inl hd)
      · exact .inr (.inl (hd c c' hu hcv))

end Lemmas

end Line

end M5.Lib
