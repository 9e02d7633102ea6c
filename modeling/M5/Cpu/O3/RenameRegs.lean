import M5.Cpu.O3.Rename
import M5.Lib.Renaming
import M5.Lib.Run

/-!
# Where the physical registers are

Every physical register is free, or a thread's map has it, or it is what a register was renamed from by an instruction
that has not committed. Renaming is a `Renaming` of the library: `abs` forgets the entries of the history buffers that
rename nothing.
-/

namespace M5.Cpu.O3

open M5.Lib Function List RenameMap RenameConfig Nat

variable {c : RenameConfig}

namespace RenameConfig

def Renamed (c : RenameConfig) (a : Nat) : Prop := a < c.numLogicalRegs ∧ a ≠ c.zeroReg

instance (a : Nat) : Decidable (c.Renamed a) := inferInstanceAs (Decidable (_ ∧ _))

def Kept (c : RenameConfig) (r : Int) : Prop := r < c.numPhysicalRegs ∧ ¬ c.HardWired r

instance (r : Int) : Decidable (c.Kept r) := inferInstanceAs (Decidable (_ ∧ _))

theorem zeroReg_lt_logical : c.zeroReg < c.numLogicalRegs := Nat.lt_of_lt_of_le c.zeroReg_lt (Nat.le_add_right ..)

theorem ne_zeroReg_of_le {a : Nat} (h : c.numLogicalRegs ≤ a) : a ≠ c.zeroReg :=
  (zeroReg_lt_logical.trans_le h).ne'

theorem numPhysicalRegs_eq (c : RenameConfig) : c.numPhysicalRegs = c.numPhysIntRegs + c.numPhysFloatRegs := rfl

theorem numLogicalRegs_eq (c : RenameConfig) : c.numLogicalRegs = c.numIntRegs + c.numFloatRegs := rfl

theorem block_le (tid : Fin c.numThreads) : (tid + 1) * c.numIntRegs ≤ c.numPhysIntRegs :=
  (mul_le_mul_right _ tid.isLt).trans c.int_le

theorem zeroReg_lt_phys (tid : Fin c.numThreads) : c.zeroReg < c.numPhysIntRegs := by
  have h1 := c.zeroReg_lt
  have h2 := c.block_le tid
  rw [add_mul] at h2
  omega

end RenameConfig

/-! ## The parts -/

namespace FreeList

def pool (fl : FreeList) : Multiset Int := (fl.freeIntRegs ++ fl.freeFloatRegs : List Int)

theorem pool_getIntReg {fl fl' : FreeList} {x : Int} (h : fl.getIntReg = .ok (x, fl')) : fl.pool = x ::ₘ fl'.pool := by
  unfold getIntReg at h
  split at h
  · cases h
  · next hl =>
    cases h
    rw [pool, hl]
    rfl

theorem pool_getFloatReg {fl fl' : FreeList} {x : Int} (h : fl.getFloatReg = .ok (x, fl')) :
    fl.pool = x ::ₘ fl'.pool := by
  unfold getFloatReg at h
  split at h
  · cases h
  · next hl =>
    cases h
    rw [pool, hl, pool, Multiset.cons_coe, Multiset.coe_eq_coe]
    exact perm_middle

theorem pool_addReg (tid : Fin c.numThreads) (fl : FreeList) (x : Int) :
    (fl.addReg c x).pool = Renaming.give c.Kept fl.pool x := by
  have hz := c.zeroReg_lt_phys tid
  have hp := c.numPhysicalRegs_eq
  unfold Renaming.give addReg
  by_cases hint : x < c.numPhysIntRegs
  · rw [if_pos hint]
    by_cases hx : x = c.zeroReg
    · rw [if_neg (not_not.2 hx), if_neg fun hk => hk.2 (.inl hx)]
    · have hk : c.Kept x := ⟨by omega, by
        rintro (h | ⟨-, h⟩)
        · exact hx h
        · omega⟩
      rw [if_pos hx, if_pos hk, pool, pool, Multiset.cons_coe, Multiset.coe_eq_coe, append_assoc]
      exact perm_middle
  · rw [if_neg hint]
    by_cases hfloat : x < c.numPhysicalRegs
    · rw [if_pos hfloat]
      by_cases hx : c.isAlpha ∧ x = c.zeroReg + c.numPhysIntRegs
      · rw [if_pos hx, if_neg fun hk => hk.2 (.inr hx)]
      · have hk : c.Kept x := ⟨hfloat, by
          rintro (h | h)
          · omega
          · exact hx h⟩
        rw [if_neg hx, if_pos hk, pool, pool, Multiset.cons_coe, Multiset.coe_eq_coe, ← append_assoc]
        exact perm_append_singleton ..
    · rw [if_neg hfloat, if_neg fun hk => hfloat hk.1]

end FreeList

namespace RenameMap

variable {m m' : RenameMap} {fl fl' : FreeList} {a : Nat} {x prev : Int}

theorem lookup_setEntry (ha : a < c.numLogicalRegs) (x : Int) :
    (m.setEntry c a x).lookup c = update (m.lookup c) a x := by
  have hl := c.numLogicalRegs_eq
  funext b
  by_cases hb : b = a
  · subst hb
    rw [update_self, setEntry]
    by_cases hint : b < c.numIntRegs
    · rw [if_pos hint, lookup, if_pos hint]
      exact update_self ..
    · rw [if_neg hint, if_pos (hl ▸ ha), lookup, if_neg hint, if_pos ha]
      exact update_self ..
  · rw [setEntry]
    split_ifs <;> simp only [lookup, update_of_ne hb]

theorem setEntry_misc (ha : c.numLogicalRegs ≤ a) (x : Int) : m.setEntry c a x = m := by
  have hl := c.numLogicalRegs_eq
  rw [setEntry, if_neg (by omega), if_neg (by omega)]

theorem rename_eq_ok (h : m.rename c fl a = .ok ((x, prev), m', fl')) :
    (c.Renamed a ∧ prev = m.lookup c a ∧ m' = m.setEntry c a x ∧ fl.pool = x ::ₘ fl'.pool) ∨
      (a = c.zeroReg ∧ x = c.zeroReg ∧ prev = m.lookup c a ∧ m' = m ∧ fl' = fl) ∨
      (c.numLogicalRegs ≤ a ∧ x = prev ∧ x = toPhysRegIndex (c.numPhysicalRegs + (a - c.numLogicalRegs : Nat)) ∧
        m' = m ∧ fl' = fl) := by
  have hl := c.numLogicalRegs_eq
  have hz := c.zeroReg_lt
  unfold rename at h
  by_cases hint : a < c.numIntRegs
  · rw [if_pos hint] at h
    by_cases ha : a = c.zeroReg
    · rw [if_neg (not_not.2 ha)] at h
      cases h
      exact .inr (.inl ⟨ha, rfl, by rw [lookup, if_pos hint], rfl, rfl⟩)
    · rw [if_pos ha] at h
      obtain ⟨⟨y, fl1⟩, hget, h⟩ := of_bind h
      obtain ⟨-, h⟩ := of_ensure h
      cases h
      exact .inl ⟨⟨by omega, ha⟩, by rw [lookup, if_pos hint], by rw [setEntry, if_pos hint],
        FreeList.pool_getIntReg hget⟩
  · rw [if_neg hint] at h
    by_cases hfloat : a < c.numLogicalRegs
    · have ha : a ≠ c.zeroReg := by omega
      rw [if_pos hfloat, if_pos (.inr ha)] at h
      obtain ⟨⟨y, fl1⟩, hget, h⟩ := of_bind h
      obtain ⟨-, h⟩ := of_ensure h
      cases h
      exact .inl ⟨⟨hfloat, ha⟩, by rw [lookup, if_neg hint, if_pos hfloat], by rw [setEntry, if_neg hint,
        if_pos (hl ▸ hfloat)],
        FreeList.pool_getFloatReg hget⟩
    · rw [if_neg hfloat] at h
      simp only [Except.ok.injEq, Prod.mk.injEq] at h
      obtain ⟨⟨hx, hprev⟩, hm, hfl⟩ := h
      exact .inr (.inr ⟨Nat.le_of_not_lt hfloat, hx.symm.trans hprev, hx.symm, hm.symm, hfl.symm⟩)

end RenameMap

/-! ## The rename stage as a renaming -/

namespace RenameHistory

def toChange (e : RenameHistory) : Change Nat Int := ⟨e.archReg, e.newPhysReg, e.prevPhysReg⟩

/-- The changes that the entries of a history buffer tell of. -/
def changes (c : RenameConfig) (l : List RenameHistory) : List (Change Nat Int) :=
  (l.filter (c.Renamed ·.archReg)).map toChange

variable {e : RenameHistory} {l : List RenameHistory}

theorem changes_cons_of (h : c.Renamed e.archReg) : changes c (e :: l) = e.toChange :: changes c l := by
  rw [changes, filter_cons_of_pos (by simpa using h)]
  rfl

theorem changes_cons_of_not (h : ¬ c.Renamed e.archReg) : changes c (e :: l) = changes c l := by
  rw [changes, filter_cons_of_neg (by simpa using h)]
  rfl

theorem changes_append (l l' : List RenameHistory) : changes c (l ++ l') = changes c l ++ changes c l' := by
  rw [changes, filter_append, map_append]
  rfl

end RenameHistory

open RenameHistory

namespace Rename

variable {s s' : Rename c} {tid : Fin c.numThreads} {e : RenameHistory} {rest : List RenameHistory} {a : Nat} {r : Int}

def abs (s : Rename c) : Renaming (Fin c.numThreads) Nat Int where
  pool := s.freeList.pool
  map := RenameMap.lookup c ∘ s.renameMap
  log := changes c ∘ s.historyBuffer

def places (s : Rename c) (r : Int) : Nat :=
  s.freeList.freeIntRegs.count r + s.freeList.freeFloatRegs.count r +
    ∑ tid, (((range c.numLogicalRegs).map ((s.renameMap tid).lookup c)).count r +
      (((s.historyBuffer tid).filter (c.Renamed ·.archReg)).map (·.prevPhysReg)).count r)

theorem places_abs (s : Rename c) (r : Int) : s.abs.places (range c.numLogicalRegs) r = s.places r := by
  have hlog : ∀ tid, (changes c (s.historyBuffer tid)).map Change.old =
      ((s.historyBuffer tid).filter (c.Renamed ·.archReg)).map (·.prevPhysReg) := fun tid => by
    rw [changes, map_map]
    rfl
  simp only [Renaming.places, Renaming.share, abs, FreeList.pool, Multiset.coe_count, count_append,
    comp_apply, hlog]
  rfl

theorem abs_ext {a : Renaming (Fin c.numThreads) Nat Int} (hp : s.freeList.pool = a.pool)
    (hm : RenameMap.lookup c ∘ s.renameMap = a.map) (hl : changes c ∘ s.historyBuffer = a.log) : s.abs = a := by
  rw [abs, hp, hm, hl]

/-- What holds of an entry of a thread. -/
structure Good (tid : Fin c.numThreads) (e : RenameHistory) : Prop where
  zero : e.archReg = c.zeroReg → e.newPhysReg = c.zeroReg ∧ e.prevPhysReg = (tid * c.numIntRegs + c.zeroReg : Nat)
  misc : c.numLogicalRegs ≤ e.archReg → e.newPhysReg = e.prevPhysReg ∧ c.numPhysicalRegs ≤ e.newPhysReg

structure Inv (s : Rename c) : Prop where
  linked : ∀ tid, Linked (s.abs.map tid) (s.abs.log tid)
  good : ∀ tid, ∀ e ∈ s.historyBuffer tid, Good tid e
  zero : ∀ tid, (s.renameMap tid).lookup c c.zeroReg = (tid * c.numIntRegs + c.zeroReg : Nat)

theorem Inv.replace (h : s.Inv) {m : RenameMap} {l : List RenameHistory}
    (hm : s'.renameMap = update s.renameMap tid m) (hl : s'.historyBuffer = update s.historyBuffer tid l)
    (hlinked : Linked (m.lookup c) (changes c l)) (hgood : ∀ e ∈ l, Good tid e)
    (hzero : m.lookup c c.zeroReg = (tid * c.numIntRegs + c.zeroReg : Nat)) : s'.Inv := by
  refine ⟨fun t => ?_, ?_, ?_⟩
  · simp only [abs, comp_apply, hm, hl]
    by_cases ht : t = tid
    · subst ht
      rw [update_self, update_self]
      exact hlinked
    · rw [update_of_ne ht, update_of_ne ht]
      exact h.linked t
  · rw [hl]
    exact (forall_update_iff s.historyBuffer fun t l => ∀ e ∈ l, Good t e).2 ⟨hgood, fun t _ => h.good t⟩
  · rw [hm]
    refine (forall_update_iff s.renameMap fun t (m : RenameMap) => m.lookup c c.zeroReg = _).2
      ⟨hzero, fun t _ => h.zero t⟩

/-! ## Renaming -/

variable {x : Int} {seqNum done : InstSeqNum} {t : Rename c}

theorem le_of_toPhysRegIndex {m : Nat} (hm : m < c.numMiscRegs)
    (hx : x = toPhysRegIndex ((c.numPhysicalRegs : Int) + (m : Nat))) (h : 0 ≤ x) : c.numPhysicalRegs ≤ x := by
  have h1 := c.index_lt
  have h2 := c.numMiscRegs_le
  have hp := c.numPhysicalRegs_eq
  unfold toPhysRegIndex Int.bmod at hx
  dsimp only at hx
  split_ifs at hx <;> omega

theorem Scoreboard.nonneg_of_unsetReg {sb sb' : Scoreboard} (h : sb.unsetReg c x = .ok sb') : 0 ≤ x := by
  unfold Scoreboard.unsetReg at h
  split at h
  · next hx => rcases hx with rfl | ⟨-, rfl⟩ <;> omega
  · exact (of_ensure h).1.1

theorem Inv.record (h : s.Inv) (he : ¬ c.Renamed e.archReg) (hgood : Good tid e) (sb : Scoreboard) :
    let s' : Rename c := ⟨s.freeList, sb, update s.renameMap tid (s.renameMap tid),
      update s.historyBuffer tid (e :: s.historyBuffer tid)⟩
    s'.Inv ∧ ∀ r, s'.places r = s.places r := by
  refine ⟨h.replace rfl rfl ?_ (forall_mem_cons.2 ⟨hgood, h.good tid⟩) (h.zero tid), fun r => ?_⟩
  · rw [changes_cons_of_not he]
    exact h.linked tid
  · rw [← places_abs, ← places_abs]
    congr 1
    refine abs_ext rfl ?_ ?_
    · rw [update_eq_self]
      rfl
    · rw [comp_update, changes_cons_of_not he]
      exact update_eq_self ..

theorem Inv.renameDestReg (h : s.Inv) (ha : a < c.numLogicalRegs + c.numMiscRegs)
    (hs : renameDestReg tid seqNum s a = .ok s') : s'.Inv ∧ ∀ r, s'.places r = s.places r := by
  obtain ⟨⟨⟨x, prev⟩, m, fl⟩, hren, hs⟩ := of_bind hs
  obtain ⟨sb, hsb, rfl⟩ := of_map hs
  rcases rename_eq_ok hren with ⟨ha', rfl, rfl, hpool⟩ | ⟨rfl, rfl, rfl, rfl, rfl⟩ | ⟨ha', rfl, hx, rfl, rfl⟩
  · have habs : (⟨fl, sb, update s.renameMap tid ((s.renameMap tid).setEntry c a x),
        update s.historyBuffer tid (⟨seqNum, a, x, (s.renameMap tid).lookup c a⟩ :: s.historyBuffer tid)⟩ :
          Rename c).abs = s.abs.assign tid a x := by
      refine abs_ext ?_ ?_ ?_
      · show fl.pool = s.freeList.pool.erase x
        rw [hpool, Multiset.erase_cons_head]
      · rw [comp_update, lookup_setEntry ha'.1]
        rfl
      · rw [comp_update, changes_cons_of ha']
        rfl
    refine ⟨h.replace rfl rfl ?_ ?_ ?_, fun r => ?_⟩
    · rw [lookup_setEntry ha'.1, changes_cons_of ha']
      exact (h.linked tid).cons a x
    · refine forall_mem_cons.2 ⟨⟨fun hz => absurd hz ha'.2, fun hm => ?_⟩, h.good tid⟩
      exact absurd ha'.1 (not_lt.2 hm)
    · rw [lookup_setEntry ha'.1, update_of_ne (.symm ha'.2)]
      exact h.zero tid
    · rw [← places_abs, ← places_abs, habs]
      refine Renaming.places_assign nodup_range (mem_range.2 ha'.1) ?_
      show x ∈ s.freeList.pool
      rw [hpool]
      exact Multiset.mem_cons_self x _
  · exact h.record (fun ha' => ha'.2 rfl) ⟨fun _ => ⟨rfl, h.zero tid⟩, fun hm => absurd rfl (ne_zeroReg_of_le hm)⟩ sb
  · refine h.record (fun ha'' => absurd ha''.1 (not_lt.2 ha')) ⟨fun hz => ?_, fun _ => ⟨rfl, ?_⟩⟩ sb
    · exact absurd hz (ne_zeroReg_of_le ha')
    · have hpos := Scoreboard.nonneg_of_unsetReg hsb
      exact le_of_toPhysRegIndex (by omega) hx hpos

theorem Inv.renameDestRegs : ∀ {l : List Nat} {s s' : Rename c}, s.Inv →
    (∀ a ∈ l, a < c.numLogicalRegs + c.numMiscRegs) → l.foldlM (Rename.renameDestReg tid seqNum) s = .ok s' →
    s'.Inv ∧ ∀ r, s'.places r = s.places r
  | [], s, s', h, _, hs => by
    cases hs
    exact ⟨h, fun _ => rfl⟩
  | a :: l, s, s', h, ha, hs => by
    obtain ⟨ha, hl⟩ := forall_mem_cons.1 ha
    obtain ⟨s1, hs1, hs⟩ := of_bind hs
    obtain ⟨h1, hp1⟩ := h.renameDestReg ha hs1
    obtain ⟨h2, hp2⟩ := h1.renameDestRegs hl hs
    exact ⟨h2, fun r => (hp2 r).trans (hp1 r)⟩

/-! ## Squashing -/

theorem renamed_or (a : Nat) : c.Renamed a ∨ a = c.zeroReg ∨ c.numLogicalRegs ≤ a := by
  unfold Renamed
  omega

theorem give_of_not {pool : Multiset Int} (h : ¬ c.Kept x) : Renaming.give c.Kept pool x = pool := if_neg h

theorem not_kept_of_le (h : c.numPhysicalRegs ≤ x) : ¬ c.Kept x := fun hk => Int.not_le.2 hk.1 h

theorem not_kept_zeroReg : ¬ c.Kept c.zeroReg := fun hk => hk.2 (.inl rfl)

theorem undoEntry_eq_ok (hs : s.undoEntry tid e rest = .ok s') :
    s'.freeList.pool = Renaming.give c.Kept s.freeList.pool e.newPhysReg ∧
      s'.renameMap = update s.renameMap tid ((s.renameMap tid).setEntry c e.archReg e.prevPhysReg) ∧
      s'.historyBuffer = update s.historyBuffer tid rest := by
  unfold undoEntry at hs
  split at hs
  · obtain ⟨sb, -, rfl⟩ := of_map hs
    exact ⟨FreeList.pool_addReg tid .., rfl, rfl⟩
  · cases hs
    exact ⟨FreeList.pool_addReg tid .., rfl, rfl⟩

theorem Inv.undo_of_not (h : s.Inv) (ha : ¬ c.Renamed e.archReg) (he : e ∈ s.historyBuffer tid) :
    ((s.renameMap tid).setEntry c e.archReg e.prevPhysReg).lookup c = (s.renameMap tid).lookup c ∧
      ¬ c.Kept e.newPhysReg := by
  have hgood := h.good tid e he
  rcases renamed_or e.archReg with ha' | ha' | ha'
  · exact absurd ha' ha
  · obtain ⟨hnew, hprev⟩ := hgood.zero ha'
    refine ⟨?_, hnew ▸ not_kept_zeroReg⟩
    rw [ha', hprev, lookup_setEntry c.zeroReg_lt_logical, ← h.zero tid, update_eq_self]
  · exact ⟨by rw [setEntry_misc ha'], not_kept_of_le (hgood.misc ha').2⟩

theorem Inv.undoEntry (h : s.Inv) (he : s.historyBuffer tid = e :: rest) (hs : s.undoEntry tid e rest = .ok s') :
    s'.Inv ∧ s'.historyBuffer tid = rest ∧ ∀ r, c.Kept r → s'.places r = s.places r := by
  obtain ⟨hpool, hmap, hlog⟩ := undoEntry_eq_ok hs
  have hlinked : Linked ((s.renameMap tid).lookup c) (changes c (s.historyBuffer tid)) := h.linked tid
  have hgood := h.good tid
  rw [he] at hlinked hgood
  have hrest := (forall_mem_cons.1 hgood).2
  have hhist : s'.historyBuffer tid = rest := by rw [hlog, update_self]
  by_cases ha : c.Renamed e.archReg
  · rw [changes_cons_of ha] at hlinked
    have hset := lookup_setEntry (m := s.renameMap tid) ha.1 e.prevPhysReg
    have hzero : ((s.renameMap tid).setEntry c e.archReg e.prevPhysReg).lookup c c.zeroReg =
        (tid * c.numIntRegs + c.zeroReg : Nat) := by
      rw [hset, update_of_ne (.symm ha.2)]
      exact h.zero tid
    refine ⟨h.replace hmap hlog (hset ▸ hlinked.2) hrest hzero, hhist, fun r hr => ?_⟩
    have habs : s'.abs = s.abs.undo c.Kept tid e.toChange (changes c rest) := by
      refine abs_ext hpool ?_ ?_
      · rw [hmap, comp_update, hset]
        rfl
      · rw [hlog, comp_update]
        rfl
    rw [← places_abs, ← places_abs, habs]
    refine Renaming.places_undo nodup_range (mem_range.2 ha.1) ?_ (h.linked tid) hr
    show changes c (s.historyBuffer tid) = _
    rw [he, changes_cons_of ha]
  · rw [changes_cons_of_not ha] at hlinked
    obtain ⟨hset, hkept⟩ := h.undo_of_not ha (he ▸ mem_cons_self)
    refine ⟨h.replace hmap hlog (hset ▸ hlinked) hrest (hset ▸ h.zero tid), hhist, fun r _ => ?_⟩
    rw [← places_abs, ← places_abs]
    congr 1
    refine abs_ext ?_ ?_ ?_
    · rw [hpool, give_of_not hkept]
      rfl
    · rw [hmap, comp_update, hset]
      exact update_eq_self ..
    · rw [hlog, comp_update, ← changes_cons_of_not ha, ← he]
      exact update_eq_self ..

theorem Inv.squashLoop {squashed : InstSeqNum} : ∀ {l : List RenameHistory} {s s' : Rename c}, s.Inv →
    s.historyBuffer tid = l → Rename.squashLoop tid squashed l s = .ok s' →
    s'.Inv ∧ ∀ r, c.Kept r → s'.places r = s.places r
  | [], s, s', h, _, hs => by
    cases hs
    exact ⟨h, fun _ _ => rfl⟩
  | e :: rest, s, s', h, he, hs => by
    unfold Rename.squashLoop at hs
    split at hs
    · obtain ⟨s1, hs1, hs⟩ := of_bind hs
      obtain ⟨h1, he1, hp1⟩ := h.undoEntry he hs1
      obtain ⟨h2, hp2⟩ := h1.squashLoop he1 hs
      exact ⟨h2, fun r hr => (hp2 r hr).trans (hp1 r hr)⟩
    · cases hs
      exact ⟨h, fun _ _ => rfl⟩

/-! ## Committing -/

/-- What an entry of the zero register adds to the free list when it commits. -/
def extra (c : RenameConfig) (l : List RenameHistory) : List Int :=
  (l.filter (·.archReg = c.zeroReg)).map (·.prevPhysReg)

theorem extra_cons (e : RenameHistory) (l : List RenameHistory) (r : Int) :
    (extra c (e :: l)).count r = (extra c [e]).count r + (extra c l).count r := by
  rw [← count_append, extra, extra, extra, ← map_append, ← filter_append, singleton_append]

theorem Inv.releaseEntry (h : s.Inv) (he : (s.historyBuffer tid).reverse = e :: rest) :
    (s.releaseEntry tid e rest).Inv ∧ ((s.releaseEntry tid e rest).historyBuffer tid).reverse = rest ∧
      ∀ r, c.Kept r → (s.releaseEntry tid e rest).places r = s.places r + (extra c [e]).count r := by
  have hlog : s.historyBuffer tid = rest.reverse ++ [e] := by
    rw [← reverse_reverse (s.historyBuffer tid), he, reverse_cons]
  have hlinked : Linked ((s.renameMap tid).lookup c) (changes c (s.historyBuffer tid)) := h.linked tid
  have hgood := h.good tid
  rw [hlog] at hlinked hgood
  rw [changes_append] at hlinked
  obtain ⟨hrest, hge⟩ := forall_mem_append.1 hgood
  have hge := forall_mem_singleton.1 hge
  have hmap : s.renameMap = update s.renameMap tid (s.renameMap tid) := (update_eq_self ..).symm
  refine ⟨h.replace hmap rfl hlinked.of_append hrest (h.zero tid), ?_, ?_⟩
  · show (update s.historyBuffer tid rest.reverse tid).reverse = rest
    rw [update_self, reverse_reverse]
  · intro r hr
    have hpool := FreeList.pool_addReg tid s.freeList e.prevPhysReg
    -- an entry that renames nothing changes the pool only
    have habs : ¬ c.Renamed e.archReg → (s.releaseEntry tid e rest).abs =
        { s.abs with pool := Renaming.give c.Kept s.abs.pool e.prevPhysReg } := by
      intro ha
      refine abs_ext hpool rfl ((comp_update ..).trans ?_)
      have : changes c rest.reverse = changes c (s.historyBuffer tid) := by
        rw [hlog, changes_append, changes_cons_of_not ha]
        exact (append_nil _).symm
      rw [this]
      exact update_eq_self ..
    rw [← places_abs, ← places_abs]
    rcases renamed_or e.archReg with ha | ha | ha
    · have hextra : extra c [e] = [] := by
        rw [extra, filter_cons_of_neg (by simpa using ha.2)]
        rfl
      have hchanges : changes c [e] = [e.toChange] := changes_cons_of ha
      rw [hextra, count_nil]
      rw [show (s.releaseEntry tid e rest).abs = s.abs.forget c.Kept tid e.toChange (changes c rest.reverse) from
        abs_ext hpool rfl (comp_update ..)]
      refine Renaming.places_forget ?_ hr
      show changes c (s.historyBuffer tid) = _
      rw [hlog, changes_append, hchanges]
    · rw [habs fun ha' => ha'.2 ha, Renaming.places_give hr, extra, filter_cons_of_pos (by simpa using ha)]
      rfl
    · have hz := ne_zeroReg_of_le ha
      obtain ⟨hnew, hle⟩ := hge.misc ha
      rw [habs fun ha' => absurd ha'.1 (not_lt.2 ha), give_of_not (not_kept_of_le (hnew ▸ hle)), extra,
        filter_cons_of_neg (by simpa using hz)]
      rfl

/-- The entries that `removeFromHistory` takes out. -/
def removed (s : Rename c) (done : InstSeqNum) (tid : Fin c.numThreads) : List RenameHistory :=
  (s.historyBuffer tid).reverse.takeWhile (·.instSeqNum ≤ done)

theorem Inv.releaseLoop : ∀ {l : List RenameHistory} {s : Rename c}, s.Inv →
    (s.historyBuffer tid).reverse = l → (Rename.releaseLoop tid done l s).Inv ∧ ∀ r, c.Kept r →
      (Rename.releaseLoop tid done l s).places r = s.places r + (extra c (l.takeWhile (·.instSeqNum ≤ done))).count r
  | [], s, h, _ => ⟨h, fun _ _ => rfl⟩
  | e :: rest, s, h, he => by
    unfold Rename.releaseLoop
    split
    · next hle =>
      obtain ⟨h1, he1, hp1⟩ := h.releaseEntry he
      obtain ⟨h2, hp2⟩ := h1.releaseLoop he1
      refine ⟨h2, fun r hr => ?_⟩
      rw [hp2 r hr, hp1 r hr, takeWhile_cons_of_pos (by simpa using hle), extra_cons e (rest.takeWhile _),
        add_assoc]
    · next hle =>
      refine ⟨h, fun r _ => ?_⟩
      rw [takeWhile_cons_of_neg (by simpa using hle)]
      rfl

/-! ## The constructor -/

theorem regIdx_eq (start width : Nat) : ∀ tid : Nat, regIdx c start width tid = start + min tid c.activeThreads * width
  | 0 => by simp [regIdx]
  | tid + 1 => by
    unfold regIdx
    rw [regIdx_eq start width tid]
    split
    · next h =>
      rw [Nat.min_eq_left h, Nat.min_eq_left (Nat.le_of_lt h), succ_mul, Nat.add_assoc]
    · next h => rw [min_eq_right (by omega), min_eq_right (by omega)]

theorem count_range' (start width q : Nat) : ((range' start width).map (Nat.cast : Nat → Int)).count (q : Int) =
    if start ≤ q ∧ q < start + width then 1 else 0 := by
  rw [count_map_of_injective _ _ cast_injective, Nodup.count nodup_range']
  simp only [mem_range'_1]

theorem count_block (start width q : Nat) : ((range width).map fun k : Nat => (start + k : Int)).count (q : Int) =
    if start ≤ q ∧ q < start + width then 1 else 0 := by
  rw [← count_range', range'_eq_map_range, map_map]
  rfl

theorem count_lookup_init (iregIdx fregIdx q : Nat) :
    ((range c.numLogicalRegs).map ((RenameMap.init c iregIdx fregIdx).lookup c)).count (q : Int) =
      (if iregIdx ≤ q ∧ q < iregIdx + c.numIntRegs then 1 else 0) +
        if fregIdx ≤ q ∧ q < fregIdx + c.numFloatRegs then 1 else 0 := by
  rw [numLogicalRegs, range_add, map_append, map_map, count_append, ← count_block,
    ← count_block]
  congr 2
  · refine map_congr_left fun k hk => ?_
    rw [RenameMap.lookup, if_pos (mem_range.1 hk)]
    rfl
  · refine map_congr_left fun k hk => ?_
    have hk := mem_range.1 hk
    rw [comp_apply, RenameMap.lookup, if_neg (by omega), numLogicalRegs, if_pos (by omega)]
    simp [RenameMap.init]

theorem places_init (q : Nat) : (init c).places q =
    (if c.numIntRegs * c.numThreads ≤ q ∧ q < c.numPhysIntRegs then 1 else 0) +
      (if c.numPhysIntRegs + c.numFloatRegs * c.numThreads ≤ q ∧ q < c.numPhysicalRegs then 1 else 0) +
      ∑ tid : Fin c.numThreads,
        ((if min tid.val c.activeThreads * c.numIntRegs ≤ q ∧
          q < min tid.val c.activeThreads * c.numIntRegs + c.numIntRegs
          then 1 else 0) +
        if c.numPhysIntRegs + min tid.val c.activeThreads * c.numFloatRegs ≤ q ∧
          q < c.numPhysIntRegs + min tid.val c.activeThreads * c.numFloatRegs + c.numFloatRegs then 1 else 0) := by
  have h1 := c.int_le
  have h2 := c.float_le
  rw [mul_comm] at h1 h2
  simp only [places, init, FreeList.init, count_range', count_lookup_init, regIdx_eq, filter_nil, map_nil,
    count_nil, add_zero, zero_add]
  rw [show c.numIntRegs * c.numThreads + (c.numPhysIntRegs - c.numIntRegs * c.numThreads) = c.numPhysIntRegs by omega,
    show c.numPhysIntRegs + c.numFloatRegs * c.numThreads + (c.numPhysFloatRegs - c.numFloatRegs * c.numThreads) =
      c.numPhysicalRegs by rw [numPhysicalRegs]; omega]

/-- Every register but the zero registers is in one place. -/
def Conserved (s : Rename c) : Prop := ∀ r : Int, 0 ≤ r → r < c.numPhysicalRegs → ¬ c.HardWired r → s.places r = 1

theorem min_eq_of_le (hc : c.numThreads ≤ c.activeThreads + 1) (tid : Fin c.numThreads) :
    min tid.val c.activeThreads = tid := by
  omega

theorem conserved_init (hc : c.numThreads ≤ c.activeThreads + 1) : (init c).Conserved := by
  intro r h0 hr _
  obtain ⟨q, rfl⟩ := Int.eq_ofNat_of_zero_le h0
  have h1 := c.int_le
  have hi := sum_blocks 0 c.numIntRegs q c.numThreads
  simp only [zero_add] at hi
  rw [places_init, Finset.sum_add_distrib]
  simp only [min_eq_of_le hc]
  rw [hi, sum_blocks, mul_comm c.numIntRegs, mul_comm c.numFloatRegs]
  split_ifs <;> omega

theorem not_conserved_init (hc : c.activeThreads + 2 ≤ c.numThreads) : ¬ (init c).Conserved := by
  intro h
  have h1 := c.int_le
  have hz := c.zeroReg_lt
  have hmul := Nat.mul_le_mul_right c.numIntRegs hc
  rw [Nat.add_mul] at hmul
  have hp := c.numPhysicalRegs_eq
  have hone := h (c.activeThreads * c.numIntRegs + c.numIntRegs + c.zeroReg : Nat) (by omega) (by omega) (by
    rintro (hr | ⟨-, hr⟩) <;> omega)
  rw [places_init, if_neg (by rw [Nat.mul_comm]; omega), if_neg (by omega), Nat.zero_add] at hone
  obtain ⟨tid, -, htid⟩ := Finset.exists_ne_zero_of_sum_ne_zero (hone.trans_ne Nat.one_ne_zero)
  have hle := Nat.mul_le_mul_right c.numIntRegs (Nat.min_le_right tid.val c.activeThreads)
  rw [if_neg (by omega), if_neg (by omega)] at htid
  exact htid rfl

theorem conserved_init_iff : (init c).Conserved ↔ c.numThreads ≤ c.activeThreads + 1 := by
  refine ⟨fun h => ?_, conserved_init⟩
  by_contra hc
  exact not_conserved_init (by omega) h

theorem Inv.init (hc : c.numThreads ≤ c.activeThreads + 1) : (Rename.init c).Inv where
  linked := fun _ => trivial
  good := fun _ => forall_mem_nil _
  zero := fun tid => by
    show ((RenameMap.init c _ _).lookup c c.zeroReg) = _
    rw [RenameMap.lookup, if_pos c.zeroReg_lt, regIdx_eq, min_eq_of_le hc, zero_add]
    rfl

/-! ## Runs -/

/-- No thread but the first commits a rename of its zero register. -/
def Act.Sound (s : Rename c) : Act c → Prop
  | renameDestRegs .. | doSquash .. => True
  | removeFromHistory done tid => tid.val ≠ 0 → ∀ e ∈ s.removed done tid, e.archReg ≠ c.zeroReg

theorem count_extra_eq_zero_iff (h : s.Inv) :
    (∀ r : Int, 0 ≤ r → c.Kept r → (extra c (s.removed done tid)).count r = 0) ↔
      (Act.removeFromHistory done tid).Sound s := by
  have hmem : ∀ e ∈ s.removed done tid, e.archReg = c.zeroReg →
    e.prevPhysReg = (tid * c.numIntRegs + c.zeroReg : Nat) :=
    fun e he hz => ((h.good tid e (mem_reverse.1 ((takeWhile_sublist _).subset he))).zero hz).2
  constructor
  · intro hcount htid e he hz
    have h1 := c.zeroReg_lt
    have h2 := c.block_le tid
    have h3 : 1 * c.numIntRegs ≤ tid * c.numIntRegs := mul_le_mul_right _ (pos_of_ne_zero htid)
    have hp := c.numPhysicalRegs_eq
    rw [add_mul] at h2
    have hr : c.Kept e.prevPhysReg := by
      rw [hmem e he hz]
      exact ⟨by omega, by rintro (hr | ⟨-, hr⟩) <;> omega⟩
    have hzero := hcount e.prevPhysReg (by rw [hmem e he hz]; omega) hr
    exact count_eq_zero.1 hzero (mem_map_of_mem (mem_filter.2 ⟨he, decide_eq_true hz⟩))
  · intro hsound r h0 hr
    refine count_eq_zero.2 fun hmem' => ?_
    obtain ⟨e, he, rfl⟩ := mem_map.1 hmem'
    obtain ⟨he, hz⟩ := mem_filter.1 he
    have hz := of_decide_eq_true hz
    by_cases htid : tid.val = 0
    · refine hr.2 (.inl ?_)
      rw [hmem e he hz, htid, zero_mul, zero_add]
    · exact hsound htid e he hz

/-- A call conserves the registers exactly if it is sound. -/
theorem Inv.step (h : s.Inv) {a : Act c} (ht : Step s a t) : t.Inv ∧ (s.Conserved → (t.Conserved ↔ a.Sound s)) := by
  have hsame : (∀ r, c.Kept r → t.places r = s.places r) → s.Conserved → t.Conserved := fun hp hs r h0 hr hw =>
    (hp r ⟨hr, hw⟩).trans (hs r h0 hr hw)
  obtain ⟨ha, ht⟩ := ht
  cases a with
  | renameDestRegs tid seqNum flattenIntIndex dests =>
    obtain ⟨hinv, hp⟩ := h.renameDestRegs (forall_mem_map.2 ha) ht
    exact ⟨hinv, fun hs => ⟨fun _ => trivial, fun _ => hsame (fun r _ => hp r) hs⟩⟩
  | doSquash squashed tid =>
    obtain ⟨hinv, hp⟩ := h.squashLoop rfl ht
    exact ⟨hinv, fun hs => ⟨fun _ => trivial, fun _ => hsame hp hs⟩⟩
  | removeFromHistory done tid =>
    cases ht
    obtain ⟨hinv, hp⟩ : (s.removeFromHistory done tid).Inv ∧ ∀ r, c.Kept r →
        (s.removeFromHistory done tid).places r = s.places r + (extra c (s.removed done tid)).count r :=
          h.releaseLoop rfl
    refine ⟨hinv, fun hs => Iff.trans ?_ (count_extra_eq_zero_iff h)⟩
    refine forall_congr' fun r => forall_congr' fun h0 => ⟨fun ht hr => ?_, fun ht hr hw => ?_⟩
    · have hsum := hp r hr
      have hone : (s.removeFromHistory done tid).places r = 1 := ht hr.1 hr.2
      rw [hs r h0 hr.1 hr.2] at hsum
      exact left_eq_add.1 (hone.symm.trans hsum)
    · have hzero : (extra c (s.removed done tid)).count r = 0 := ht ⟨hr, hw⟩
      exact (hp r ⟨hr, hw⟩).trans (by rw [hs r h0 hr hw]; exact congrArg (1 + ·) hzero)

/-- The constructor conserves the registers iff no two threads are inactive; then so does a call, after calls that do,
iff it does not commit a rename of the zero register of another thread than the first. -/
theorem conserved_iff (c : RenameConfig) : ((init c).Conserved ↔ c.numThreads ≤ c.activeThreads + 1) ∧
    (c.numThreads ≤ c.activeThreads + 1 → ∀ {as : List (Act c)} {s : Rename c},
      Run (fun s a t => a.Sound s ∧ Step s a t) (init c) as s →
        s.Conserved ∧ ∀ {a : Act c} {t : Rename c}, Step s a t → (t.Conserved ↔ a.Sound s)) := by
  refine ⟨conserved_init_iff, fun hc as s hrun => ?_⟩
  have hinv : s.Inv ∧ s.Conserved := by
    refine hrun.invariant (I := fun s => s.Inv ∧ s.Conserved) ⟨.init hc, conserved_init hc⟩ ?_
    rintro s a t ⟨hs, hcons⟩ ⟨hsound, hstep⟩
    obtain ⟨ht, hiff⟩ := hs.step hstep
    exact ⟨ht, (hiff hcons).2 hsound⟩
  exact ⟨hinv.2, fun hstep => (hinv.1.step hstep).2 hinv.2⟩

def alpha2 : RenameConfig where
  isAlpha := true
  numIntRegs := 40
  numFloatRegs := 32
  numMiscRegs := 77
  fpBaseDepTag := 40
  zeroReg := 31
  zeroReg_lt := by decide
  numMiscRegs_le := by decide
  numThreads := 2
  activeThreads := 2
  numPhysIntRegs := 256
  numPhysFloatRegs := 256
  int_le := by decide
  float_le := by decide
  index_lt := by decide

def first : Fin alpha2.numThreads := ⟨0, by decide⟩

def second : Fin alpha2.numThreads := ⟨1, by decide⟩

instance : (a : Act c) → Decidable a.Allowed
  | .renameDestRegs .. => inferInstanceAs (Decidable (∀ _ ∈ _, _))
  | .doSquash .. | .removeFromHistory .. => .isTrue trivial

instance (s : Rename c) : (a : Act c) → Decidable (a.Sound s)
  | .renameDestRegs .. | .doSquash .. => .isTrue trivial
  | .removeFromHistory .. => inferInstanceAs (Decidable (_ → ∀ _ ∈ _, _))

/-- A call that is allowed, if `P` holds of it. -/
def stepIf (P : Rename c → Act c → Prop) [∀ s a, Decidable (P s a)] (s : Rename c) (a : Act c) :
    Except Stop (Rename c) := do
  ensure .assert (P s a)
  ensure .assert a.Allowed
  s.handle a

theorem step_of_stepIf {P : Rename c → Act c → Prop} [∀ s a, Decidable (P s a)] {s : Rename c} {a : Act c}
    (h : stepIf P s a = .ok t) : P s a ∧ Step s a t := by
  obtain ⟨hP, h⟩ := of_ensure h
  obtain ⟨ha, h⟩ := of_ensure h
  exact ⟨hP, ha, h⟩

/-- Both threads rename; the first commits a rename of its zero register, and the second undoes one and commits one. -/
def renames : List (Act alpha2) :=
  [.renameDestRegs first 1 id [31, 5], .renameDestRegs second 2 id [5, 45, 80], .renameDestRegs second 3 id [5, 31],
    .removeFromHistory 1 first, .doSquash 2 second, .removeFromHistory 2 second]

theorem conserved_renames : ∃ s, Run (fun s a t => a.Sound s ∧ Step s a t) (init alpha2) renames s ∧
    (s.renameMap second).lookup alpha2 5 = 81 ∧ s.Conserved := by
  obtain ⟨s, hrun, hs⟩ := Run.exists_of_check (stepIf fun s a => a.Sound s) step_of_stepIf (init alpha2) renames
    (fun s => (s.renameMap second).lookup alpha2 5 = 81) (by decide +kernel)
  exact ⟨s, hrun, hs, ((conserved_iff alpha2).2 (by decide) hrun).1⟩

/-- The second thread commits an instruction whose destination is the zero register: register 71 is free, and the map of
the thread has it for its zero register. -/
theorem not_conserved_zeroReg :
    ∃ s, Run Step (init alpha2) [.renameDestRegs second 1 id [31], .removeFromHistory 1 second] s ∧
      71 ∈ s.freeList.freeIntRegs ∧ (s.renameMap second).lookup alpha2 31 = 71 ∧ ¬ s.Conserved := by
  obtain ⟨s, hrun, h1, h2, h3⟩ := Run.exists_of_check (stepIf fun _ _ => True) (fun h => (step_of_stepIf h).2)
    (init alpha2) [.renameDestRegs second 1 id [31], .removeFromHistory 1 second]
    (fun s => 71 ∈ s.freeList.freeIntRegs ∧ (s.renameMap second).lookup alpha2 31 = 71 ∧ s.places 71 = 2)
    (by decide +kernel)
  refine ⟨s, hrun, h1, h2, fun h => ?_⟩
  have hone := h 71 (by decide) (by decide) (by decide)
  rw [h3] at hone
  cases hone

end Rename

end M5.Cpu.O3
