import M5.Cpu.O3.RenameRegs

/-!
# A squash undoes renames

The state of the rename stage is compared with the one it would be in had no instruction after `n` been renamed.
-/

namespace M5.Cpu.O3

open M5.Lib Function List Nat

variable {c : RenameConfig} {tid : Fin c.numThreads} {n : InstSeqNum}

namespace RenameMap

variable {m : RenameMap} {a : Nat} {x y : Int}

theorem setEntry_setEntry : (m.setEntry c a x).setEntry c a y = m.setEntry c a y := by
  unfold setEntry
  split
  · rw [update_idem]
  · split
    · rw [update_idem]
    · rfl

theorem setEntry_lookup (ha : a < c.numLogicalRegs) : m.setEntry c a (m.lookup c a) = m := by
  have hl : a < c.numIntRegs + c.numFloatRegs := ha
  unfold setEntry lookup
  split <;> rw [update_eq_self]

end RenameMap

/-- The registers of a list that the free list takes. -/
def RenameConfig.kept (c : RenameConfig) (l : List Int) : Multiset Int := (l.filter (c.Kept ·) : List Int)

theorem give_eq (pool : Multiset Int) (x : Int) (l : List Int) :
    Renaming.give c.Kept pool x + c.kept l = pool + c.kept (x :: l) := by
  unfold Renaming.give RenameConfig.kept
  by_cases hx : c.Kept x
  · rw [if_pos hx, filter_cons_of_pos (by simpa using hx), ← Multiset.cons_coe, Multiset.cons_add, Multiset.add_cons]
  · rw [if_neg hx, filter_cons_of_neg (by simpa using hx)]

theorem span_append {α : Type} {p : α → Bool} {l' : List α} (h : ∀ x ∈ l', p x = false) :
    ∀ l : List α, (l ++ l').takeWhile p = l.takeWhile p ∧ (l ++ l').dropWhile p = l.dropWhile p ++ l'
  | [] => by
    cases l' with
    | nil => exact ⟨rfl, rfl⟩
    | cons x l' => simp [h x mem_cons_self]
  | x :: l => by
    obtain ⟨h1, h2⟩ := span_append h l
    cases hx : p x <;> simp [hx, h1, h2]

namespace Rename

variable {s t t' u : Rename c} {young : List RenameHistory} {done seqNum : InstSeqNum} {a : Nat}

/-! ## The registers in the free list -/

/-- The free list has none but the registers that it takes. -/
def Clean (s : Rename c) : Prop := ∀ r ∈ s.freeList.pool, c.Kept r

theorem clean_give {pool : Multiset Int} (h : ∀ r ∈ pool, c.Kept r) (x : Int) :
    ∀ r ∈ Renaming.give c.Kept pool x, c.Kept r := by
  unfold Renaming.give
  split
  · next hx => exact Multiset.forall_mem_cons.2 ⟨hx, h⟩
  · exact h

theorem Clean.renameDestReg (h : s.Clean) (hs : renameDestReg tid seqNum s a = .ok t) : t.Clean := by
  obtain ⟨⟨⟨x, prev⟩, m, fl⟩, hren, hs⟩ := of_bind hs
  obtain ⟨sb, -, rfl⟩ := of_map hs
  rcases RenameMap.rename_eq_ok hren with ⟨-, -, -, hpool⟩ | ⟨-, -, -, -, rfl⟩ | ⟨-, -, -, -, rfl⟩
  · exact fun r hr => h r (hpool ▸ Multiset.mem_cons_of_mem hr)
  · exact h
  · exact h

theorem Clean.squashLoop : ∀ {l : List RenameHistory} {s : Rename c}, s.Clean →
    Rename.squashLoop tid n l s = .ok t → t.Clean
  | [], _, h, hs => by
    cases hs
    exact h
  | e :: rest, s, h, hs => by
    unfold Rename.squashLoop at hs
    split at hs
    · obtain ⟨s1, hs1, hs⟩ := of_bind hs
      have h1 : s1.Clean := by
        unfold Clean
        rw [(undoEntry_eq_ok hs1).1]
        exact clean_give h _
      exact h1.squashLoop hs
    · cases hs
      exact h

theorem releaseLoop_eq : ∀ {l : List RenameHistory} {s : Rename c}, (s.historyBuffer tid).reverse = l →
    (releaseLoop tid done l s).renameMap = s.renameMap ∧
      (releaseLoop tid done l s).historyBuffer =
        update s.historyBuffer tid (l.dropWhile (·.instSeqNum ≤ done)).reverse ∧
      (releaseLoop tid done l s).freeList.pool =
        s.freeList.pool + c.kept ((l.takeWhile (·.instSeqNum ≤ done)).map (·.prevPhysReg))
  | [], s, hl => by
    refine ⟨rfl, ?_, (add_zero _).symm⟩
    have hnil : s.historyBuffer tid = [] := reverse_eq_nil_iff.1 hl
    exact (update_eq_self_iff.2 hnil.symm).symm
  | e :: rest, s, hl => by
    unfold releaseLoop
    split
    · next he =>
      obtain ⟨h1, h2, h3⟩ := releaseLoop_eq (s := s.releaseEntry tid e rest) (by
        show (update s.historyBuffer tid rest.reverse tid).reverse = rest
        rw [update_self, reverse_reverse])
      refine ⟨h1, ?_, ?_⟩
      · rw [h2, dropWhile_cons_of_pos (by simpa using he)]
        exact update_idem ..
      · rw [h3, takeWhile_cons_of_pos (by simpa using he), map_cons, ← give_eq, ← FreeList.pool_addReg tid]
        rfl
    · next he =>
      rw [dropWhile_cons_of_neg (by simpa using he), takeWhile_cons_of_neg (by simpa using he), ← hl,
        reverse_reverse, update_eq_self]
      exact ⟨rfl, rfl, (add_zero _).symm⟩

theorem removeFromHistory_eq (s : Rename c) (done : InstSeqNum) (tid : Fin c.numThreads) :
    let l := (s.historyBuffer tid).reverse
    (s.removeFromHistory done tid).renameMap = s.renameMap ∧
      (s.removeFromHistory done tid).historyBuffer =
        update s.historyBuffer tid (l.dropWhile (·.instSeqNum ≤ done)).reverse ∧
      (s.removeFromHistory done tid).freeList.pool =
        s.freeList.pool + c.kept ((l.takeWhile (·.instSeqNum ≤ done)).map (·.prevPhysReg)) :=
  releaseLoop_eq rfl

theorem Clean.step {a : Act c} (h : s.Clean) (hs : Step s a t) : t.Clean := by
  cases a with
  | renameDestRegs tid seqNum flattenIntIndex dests => exact (Run.of_foldlM hs.2).invariant h renameDestReg
  | doSquash squashed tid => exact h.squashLoop hs.2
  | removeFromHistory done tid =>
    cases hs.2
    intro r hr
    rw [(removeFromHistory_eq s done tid).2.2, Multiset.mem_add] at hr
    rcases hr with hr | hr
    · exact h r hr
    · exact of_decide_eq_true (mem_filter.1 hr).2

/-- The zero register of the floating-point registers is one of them. -/
def FloatZero (c : RenameConfig) : Prop := c.isAlpha → c.zeroReg < c.numFloatRegs

theorem FloatZero.lt (hz : FloatZero c) (tid : Fin c.numThreads) (ha : c.isAlpha) :
    c.zeroReg < c.numFloatRegs * c.numThreads :=
  Nat.lt_of_lt_of_le (hz ha) (Nat.le_mul_of_pos_right _ (zero_lt_of_lt tid.isLt))

theorem Clean.init (hz : FloatZero c) (tid : Fin c.numThreads) : (init c).Clean := by
  intro r hr
  have h1 := c.int_le
  have h2 := c.float_le
  have h3 := hz.lt tid
  have h4 : c.zeroReg < c.numIntRegs * c.numThreads :=
    Nat.lt_of_lt_of_le c.zeroReg_lt (Nat.le_mul_of_pos_right _ (zero_lt_of_lt tid.isLt))
  have hp : c.numPhysicalRegs = c.numPhysIntRegs + c.numPhysFloatRegs := rfl
  rw [mul_comm] at h1 h2
  rcases mem_append.1 (Multiset.mem_coe.1 hr) with hr | hr <;>
    obtain ⟨q, hq, rfl⟩ := mem_map.1 hr <;> rw [mem_range'_1] at hq
  all_goals
    refine ⟨by omega, ?_⟩
    rintro (h | ⟨ha, h⟩)
    · omega
    · have := h3 ha
      omega

/-! ## The younger instructions -/

/-- `u` is the state without the instructions after `n`, and `t` the one with them: their entries are `young`. -/
structure Ahead (n : InstSeqNum) (tid : Fin c.numThreads) (u t : Rename c) (young : List RenameHistory) : Prop where
  history : t.historyBuffer = update u.historyBuffer tid (young ++ u.historyBuffer tid)
  others : t.renameMap = update u.renameMap tid (t.renameMap tid)
  undone : young.foldl (fun m e => m.setEntry c e.archReg e.prevPhysReg) (t.renameMap tid) = u.renameMap tid
  pool : t.freeList.pool + c.kept (young.map (·.newPhysReg)) = u.freeList.pool
  younger : ∀ e ∈ young, n < e.instSeqNum ∧ (c.numPhysicalRegs ≤ e.newPhysReg → e.newPhysReg < Scoreboard.size c)

theorem Ahead.refl : Ahead n tid u u [] :=
  ⟨(update_eq_self ..).symm, (update_eq_self ..).symm, rfl, add_zero _, forall_mem_nil _⟩

theorem rename_undone (hz : FloatZero c) (tid : Fin c.numThreads) {m m' : RenameMap} {fl fl' : FreeList} {x prev : Int}
    {sb sb' : Scoreboard} (hk : ∀ r ∈ fl.pool, c.Kept r) (ha : a < c.numLogicalRegs + c.numMiscRegs)
    (h : m.rename c fl a = .ok ((x, prev), m', fl')) (hsb : sb.unsetReg c x = .ok sb') :
    m'.setEntry c a prev = m ∧ fl'.pool + c.kept [x] = fl.pool ∧ (c.numPhysicalRegs ≤ x → x < Scoreboard.size c) := by
  have hsize : c.numPhysicalRegs ≤ x → x < Scoreboard.size c := by
    intro hx
    have hp : c.numPhysicalRegs = c.numPhysIntRegs + c.numPhysFloatRegs := rfl
    have h1 := c.zeroReg_lt_phys tid
    have h2 := c.float_le
    have h3 := hz.lt tid
    unfold Scoreboard.unsetReg at hsb
    split at hsb
    · next hw =>
      rcases hw with rfl | ⟨ha, rfl⟩
      · omega
      · have := h3 ha
        rw [mul_comm] at h2
        omega
    · exact (of_ensure hsb).1.2
  have hdrop : ¬ c.Kept x → fl'.pool + c.kept [x] = fl'.pool := fun hx => by
    rw [← give_eq, give_of_not hx]
    exact add_zero _
  rcases RenameMap.rename_eq_ok h with ⟨ha', rfl, rfl, hpool⟩ | ⟨rfl, rfl, rfl, rfl, rfl⟩ | ⟨ha', rfl, hx, rfl, rfl⟩
  · have hx : c.Kept x := hk x (hpool ▸ Multiset.mem_cons_self x _)
    refine ⟨?_, ?_, hsize⟩
    · rw [RenameMap.setEntry_setEntry, RenameMap.setEntry_lookup ha'.1]
    · rw [hpool, ← give_eq, Renaming.give, if_pos hx]
      exact add_zero _
  · exact ⟨RenameMap.setEntry_lookup c.zeroReg_lt_logical, hdrop not_kept_zeroReg, hsize⟩
  · refine ⟨RenameMap.setEntry_misc ha' _, hdrop (not_kept_of_le ?_), hsize⟩
    exact le_of_toPhysRegIndex (by omega) hx (Scoreboard.nonneg_of_unsetReg hsb)

theorem Ahead.renameDestReg (h : Ahead n tid u t young) (hz : FloatZero c) (hk : t.Clean) (hn : n < seqNum)
    (ha : a < c.numLogicalRegs + c.numMiscRegs) (hs : renameDestReg tid seqNum t a = .ok t') :
    ∃ e, Ahead n tid u t' (e :: young) := by
  obtain ⟨⟨⟨x, prev⟩, m, fl⟩, hren, hs⟩ := of_bind hs
  obtain ⟨sb, hsb, rfl⟩ := of_map hs
  obtain ⟨hmap, hpool, hsize⟩ := rename_undone hz tid hk ha hren hsb
  refine ⟨⟨seqNum, a, x, prev⟩, ?_, ?_, ?_, ?_, forall_mem_cons.2 ⟨⟨hn, hsize⟩, h.younger⟩⟩
  · rw [h.history, update_idem, update_self]
    rfl
  · show update t.renameMap tid m = update u.renameMap tid (update t.renameMap tid m tid)
    rw [h.others, update_idem, update_self]
  · show foldl _ ((update t.renameMap tid m tid).setEntry c a prev) young = _
    rw [update_self, hmap]
    exact h.undone
  · show fl.pool + c.kept (x :: young.map (·.newPhysReg)) = _
    rw [← h.pool, ← hpool, ← give_eq, ← give_eq]
    exact congrArg (· + c.kept _) (add_zero _).symm

theorem Ahead.removeFromHistory (h : Ahead n tid u t young) (hd : done ≤ n) :
    Ahead n tid (u.removeFromHistory done tid) (t.removeFromHistory done tid) young := by
  have hyoung : ∀ e ∈ young.reverse, decide (e.instSeqNum ≤ done) = false := fun e he =>
    decide_eq_false (not_le.2 (lt_of_le_of_lt hd (h.younger e (mem_reverse.1 he)).1))
  have hlist : (t.historyBuffer tid).reverse = (u.historyBuffer tid).reverse ++ young.reverse := by
    rw [h.history, update_self, reverse_append]
  obtain ⟨htake, hdrop⟩ := span_append hyoung (u.historyBuffer tid).reverse
  obtain ⟨hmu, hhu, hpu⟩ := removeFromHistory_eq u done tid
  obtain ⟨hmt, hht, hpt⟩ := removeFromHistory_eq t done tid
  rw [hlist, hdrop] at hht
  rw [hlist, htake] at hpt
  refine ⟨?_, ?_, ?_, ?_, h.younger⟩
  · rw [hht, hhu, h.history, update_idem, update_idem, update_self, reverse_append, reverse_reverse]
  · rw [hmt, hmu]
    exact h.others
  · rw [hmt, hmu]
    exact h.undone
  · rw [hpt, hpu, ← h.pool, add_right_comm]

theorem Ahead.squash (hu : ∀ e ∈ u.historyBuffer tid, e.instSeqNum ≤ n) : ∀ {young : List RenameHistory} {t : Rename c},
    Ahead n tid u t young → ∃ t', squashLoop tid n (young ++ u.historyBuffer tid) t = .ok t' ∧
      t'.renameMap = u.renameMap ∧ t'.historyBuffer = u.historyBuffer ∧ t'.freeList.pool = u.freeList.pool
  | [], t, h => by
    refine ⟨t, ?_, ?_, ?_, (add_zero _).symm.trans h.pool⟩
    · match hl : u.historyBuffer tid with
      | [] => rfl
      | e :: l => exact if_neg (not_lt.2 (hu e (hl ▸ mem_cons_self)))
    · rw [h.others]
      exact update_eq_self_iff.2 h.undone
    · rw [h.history]
      exact update_eq_self ..
  | e :: young, t, h => by
    obtain ⟨⟨hn, hsize⟩, hyoung⟩ := forall_mem_cons.1 h.younger
    have hok : ∃ t1, t.undoEntry tid e (young ++ u.historyBuffer tid) = .ok t1 := by
      unfold undoEntry
      split
      · next hx =>
        rw [Scoreboard.setReg, ensure_of ⟨by omega, hsize hx⟩]
        exact ⟨_, rfl⟩
      · exact ⟨_, rfl⟩
    obtain ⟨t1, ht1⟩ := hok
    obtain ⟨hpool, hmap, hhist⟩ := undoEntry_eq_ok ht1
    have h1 : Ahead n tid u t1 young := by
      refine ⟨?_, ?_, ?_, ?_, hyoung⟩
      · rw [hhist, h.history, update_idem]
      · rw [hmap, update_self, h.others, update_idem]
      · rw [hmap, update_self]
        exact h.undone
      · rw [hpool, give_eq]
        exact h.pool
    obtain ⟨t', ht', hrest⟩ := h1.squash hu
    refine ⟨t', ?_, hrest⟩
    rw [cons_append, squashLoop, if_pos hn, ht1]
    exact ht'

/-! ## Runs -/

/-- The calls after which the thread is squashed back to `n`: renames of younger instructions, and commits up to `n`. -/
def Act.After (n : InstSeqNum) (tid : Fin c.numThreads) : Act c → Prop
  | renameDestRegs t seqNum _ _ => t = tid ∧ n < seqNum
  | removeFromHistory done t => t = tid ∧ done ≤ n
  | doSquash .. => False

/-- A call as far as it is not about a younger instruction. -/
def older (u : Rename c) : Act c → Rename c
  | .removeFromHistory done tid => u.removeFromHistory done tid
  | .renameDestRegs .. | .doSquash .. => u

theorem mem_dropWhile {e : RenameHistory} : ∀ {l : List RenameHistory}, l.Pairwise (·.instSeqNum ≤ ·.instSeqNum) →
    (e ∈ l.dropWhile (·.instSeqNum ≤ done) ↔ e ∈ l ∧ done < e.instSeqNum)
  | [], _ => by simp
  | x :: l, h => by
    obtain ⟨hx, hl⟩ := pairwise_cons.1 h
    by_cases hd : x.instSeqNum ≤ done
    · rw [dropWhile_cons_of_pos (by simpa using hd), mem_dropWhile hl, mem_cons, or_and_right]
      refine (or_iff_right fun he => ?_).symm
      exact absurd (he.1 ▸ he.2) (not_lt.2 hd)
    · rw [dropWhile_cons_of_neg (by simpa using hd)]
      refine (and_iff_left_of_imp fun he => ?_).symm
      rcases mem_cons.1 he with rfl | he
      · exact Nat.lt_of_not_le hd
      · exact Nat.lt_of_lt_of_le (Nat.lt_of_not_le hd) (hx e he)

/-- The numbers of a history are in order, the latest first. -/
def InOrder (l : List RenameHistory) : Prop := l.Pairwise (·.instSeqNum ≥ ·.instSeqNum)

/-- What holds after the calls `as`, where `u` is the state without the younger instructions. -/
structure Follows (n : InstSeqNum) (tid : Fin c.numThreads) (s : Rename c) (as : List (Act c)) (u t : Rename c) :
    Prop where
  clean : t.Clean
  ahead : ∃ young, Ahead n tid u t young
  map : u.renameMap = s.renameMap
  sublist : (u.historyBuffer tid).Sublist (s.historyBuffer tid)
  mem : InOrder (s.historyBuffer tid) → ∀ e, e ∈ u.historyBuffer tid ↔
    e ∈ s.historyBuffer tid ∧ ∀ done, .removeFromHistory done tid ∈ as → done < e.instSeqNum

/-- One more call, with and without the younger instructions. -/
theorem Follows.step (hz : FloatZero c) {as : List (Act c)} {b : Act c} (h : Follows n tid s as u t)
    (hb : b.After n tid)
    (hs : Step t b t') : Follows n tid s (as ++ [b]) (u.older b) t' := by
  have hclean := h.clean.step hs
  obtain ⟨young, ha⟩ := h.ahead
  cases b with
  | renameDestRegs tid' seqNum flattenIntIndex dests =>
    obtain ⟨rfl, hn⟩ := hb
    refine ⟨hclean, ?_, h.map, h.sublist, fun ho e => (h.mem ho e).trans ?_⟩
    · have hall : ∀ d ∈ dests.map (flatDestReg c flattenIntIndex), d < c.numLogicalRegs + c.numMiscRegs :=
        forall_mem_map.2 hs.1
      have hrun := (Run.of_foldlM hs.2).restrict hall
      exact (hrun.invariant (I := fun t => t.Clean ∧ ∃ young, Ahead n tid' u t young) ⟨h.clean, young, ha⟩
        fun ⟨hk, _, ha⟩ ⟨hd, hs⟩ => ⟨hk.renameDestReg hs, (ha.renameDestReg hz hk hn hd hs).imp' _ fun _ => id⟩).2
    · simp
  | removeFromHistory done tid' =>
    obtain ⟨rfl, hd⟩ := hb
    cases hs.2
    obtain ⟨hmap, hhist, -⟩ := removeFromHistory_eq u done tid'
    have hnew : (u.removeFromHistory done tid').historyBuffer tid' =
        ((u.historyBuffer tid').reverse.dropWhile (·.instSeqNum ≤ done)).reverse :=
      (congrFun hhist tid').trans (update_self ..)
    refine ⟨hclean, ⟨young, ha.removeFromHistory hd⟩, hmap.trans h.map, ?_, fun ho e => ?_⟩
    · show ((u.removeFromHistory done tid').historyBuffer tid').Sublist _
      rw [hnew]
      refine .trans ?_ h.sublist
      exact reverse_sublist.1 (by rw [reverse_reverse]; exact dropWhile_sublist _)
    · show e ∈ (u.removeFromHistory done tid').historyBuffer tid' ↔ _
      have hsorted : InOrder (u.historyBuffer tid') := ho.sublist h.sublist
      rw [hnew, mem_reverse, mem_dropWhile (pairwise_reverse.2 hsorted), mem_reverse, h.mem ho e]
      simp [or_imp, forall_and, and_assoc]
  | doSquash => exact hb.elim

/-- In a state that is reached, with the history of a thread up to `n`, younger instructions of the thread are renamed
and older ones commit. A squash back to `n` then ends, and the map, the history buffer and the registers in the free
list are what they would be had the younger instructions never been renamed. -/
theorem squash_undoes {bs as : List (Act c)} (hz : FloatZero c) (hreach : Run Step (init c) bs s)
    (hn : ∀ e ∈ s.historyBuffer tid, e.instSeqNum ≤ n)
    (hrun : Run (fun s a t => a.After n tid ∧ Step s a t) s as t) :
    ∃ t', t.doSquash n tid = .ok t' ∧ t'.renameMap = s.renameMap ∧
      t'.historyBuffer = (as.foldl older s).historyBuffer ∧ t'.freeList.pool = (as.foldl older s).freeList.pool ∧
      (InOrder (s.historyBuffer tid) → ∀ e, e ∈ t'.historyBuffer tid ↔
        e ∈ s.historyBuffer tid ∧ ∀ done, .removeFromHistory done tid ∈ as → done < e.instSeqNum) := by
  have hclean : s.Clean := hreach.invariant (.init hz tid) .step
  have h : Follows n tid s as (as.foldl older s) t := by
    refine hrun.history (I := fun as t => Follows n tid s as (as.foldl older s) t) ?_ fun h hs => ?_
    · exact ⟨hclean, ⟨[], .refl⟩, rfl, .refl _, fun _ e => by simp⟩
    · rw [foldl_append]
      exact h.step hz hs.1 hs.2
  obtain ⟨young, ha⟩ := h.ahead
  obtain ⟨t', ht', hmap, hhist, hpool⟩ := ha.squash fun e he => hn e (h.sublist.subset he)
  refine ⟨t', ?_, hmap.trans h.map, hhist, hpool, fun ho e => hhist ▸ h.mem ho e⟩
  rw [doSquash, ha.history, update_self]
  exact ht'

instance (n : InstSeqNum) (tid : Fin c.numThreads) : (a : Act c) → Decidable (a.After n tid)
  | .renameDestRegs .. | .removeFromHistory .. => inferInstanceAs (Decidable (_ ∧ _))
  | .doSquash .. => .isFalse id

/-- A younger instruction and the commit of the older one. -/
def laterRenames : List (Act alpha2) := [.renameDestRegs second 2 id [5, 31, 80], .removeFromHistory 1 second]

/-- Two instructions rename register 5, the older one commits, and the younger one is squashed. -/
theorem squash_undoes_renames : ∃ s t t' : Rename alpha2, Run Step (init alpha2) [.renameDestRegs second 1 id [5]] s ∧
    Run (fun s a t => a.After 1 second ∧ Step s a t) s laterRenames t ∧ (t.renameMap second).lookup alpha2 5 = 81 ∧
    t.doSquash 1 second = .ok t' ∧ t'.renameMap = s.renameMap := by
  obtain ⟨s, hreach, hn, hc⟩ := Run.exists_of_check (stepIf fun _ _ => True) (fun h => (step_of_stepIf h).2)
    (init alpha2) [.renameDestRegs second 1 id [5]] (fun s => (∀ e ∈ s.historyBuffer second, e.instSeqNum ≤ 1) ∧
      endsIn (fun t : Rename alpha2 => (t.renameMap second).lookup alpha2 5 = 81)
        (laterRenames.foldlM (stepIf fun _ a => a.After 1 second) s)) (by decide +kernel)
  obtain ⟨t, hrun, ht⟩ := Run.exists_of_check _ step_of_stepIf s laterRenames _ hc
  obtain ⟨t', ht', hmap, -⟩ := squash_undoes (fun _ => by decide) hreach hn hrun
  exact ⟨s, t, t', hreach, hrun, ht, ht', hmap⟩

end Rename

end M5.Cpu.O3
