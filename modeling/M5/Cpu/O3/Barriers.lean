import M5.Cpu.O3.MemDepUnit
import M5.Lib.Run

/-!
# Barriers in the memory dependence unit

The unit remembers the last barrier only, and an instruction waits for that one. This holds back an instruction for as
long as any older barrier is there, provided that barriers complete in order and that no squash takes the last barrier
and leaves an older one.
-/

namespace M5.Cpu.O3

open M5.Lib Function List

/-- A barrier that `x` must not overtake: loads wait for memory barriers, stores also for write barriers. -/
def Blocks (b x : DynInst) : Prop :=
  x.isLoad ∧ b.isMemBarrier ∨ x.isStore ∧ (b.isMemBarrier ∨ b.isWriteBarrier)

namespace MemDepUnit

variable {u u' : MemDepUnit} {b x inst : DynInst} {n : InstSeqNum}

def Came (u : MemDepUnit) (via : Via) (x : DynInst) : Prop :=
  ∃ e, u.entries x.seqNum = some e ∧ e.inst = x ∧ e.via = via

/-- A barrier that was inserted, and has neither completed nor been squashed. -/
structure Outstanding (u : MemDepUnit) (b : DynInst) : Prop where
  inHash : u.memDepHash b.seqNum
  came : u.Came .insertBarrier b
  barrier : b.isMemBarrier ∨ b.isWriteBarrier

/-- An older barrier is there that the instruction must wait for. -/
def Held (u : MemDepUnit) (x : DynInst) : Prop := ∃ b, u.Outstanding b ∧ b.seqNum < x.seqNum ∧ Blocks b x

theorem Outstanding.ne_none (hb : u.Outstanding b) : u.entries b.seqNum ≠ none := by
  obtain ⟨d, hd, -⟩ := hb.came
  rw [hd]
  exact Option.some_ne_none d

/-! ## The invariant -/

def flag (u : MemDepUnit) (forLoad : Bool) : Bool := if forLoad then u.loadBarrier else u.storeBarrier

def last (u : MemDepUnit) (forLoad : Bool) : InstSeqNum := if forLoad then u.loadBarrierSN else u.storeBarrierSN

/-- The remembered barrier is there, and no barrier of the kind is younger. -/
structure Latest (u : MemDepUnit) (flag : Bool) (last : InstSeqNum) (b : DynInst) : Prop where
  flag : flag = true
  nonzero : last ≠ 0
  le : b.seqNum ≤ last
  there : ∃ b', u.Outstanding b' ∧ b'.seqNum = last

/-- An instruction that is held waits for a barrier not older than the ones it must wait for. -/
structure Inv (u : MemDepUnit) : Prop where
  key : ∀ {n e}, u.entries n = some e → e.inst.seqNum = n
  known : ∀ {n}, u.memDepHash n = true → u.entries n ≠ none
  dependents : ∀ {p q x}, u.entries p = some q → x ∈ q.dependInsts → u.entries x ≠ none
  sorted : u.instList.Pairwise (· > ·)
  mem_list : ∀ {n}, n ∈ u.instList ↔ u.memDepHash n = true
  latest : ∀ {k b}, u.Outstanding b → (k = true → b.isMemBarrier = true) → u.Latest (u.flag k) (u.last k) b
  /-- An instruction that is held is not ready, and waits for a barrier. -/
  notReady : ∀ {x e}, u.entries x = some e → e.via = .insert → u.Held e.inst → e.memDepReady = false
  waits : ∀ {x e p q b}, u.entries x = some e → e.via = .insert → u.Outstanding b → b.seqNum < x → Blocks b e.inst →
    u.entries p = some q → u.memDepHash p = true → x ∈ q.dependInsts → u.Outstanding q.inst ∧ b.seqNum ≤ p

theorem Inv.init : Inv {} where
  key h := nomatch h
  known h := nomatch h
  dependents h := nomatch h
  sorted := .nil
  mem_list := ⟨fun h => (nomatch h), fun h => (nomatch h)⟩
  latest h := nomatch h.inHash
  notReady h := nomatch h
  waits h := nomatch h

/-! ## What a call makes of an entry -/

/-- The same instruction, which may wake those in `more` besides, and is ready only if it was, or if `woken`. -/
structure Later (woken : Prop) (more : InstSeqNum → Prop) (e e' : MemDepEntry) : Prop where
  inst : e'.inst = e.inst
  via : e'.via = e.via
  depend : ∀ x ∈ e'.dependInsts, x ∈ e.dependInsts ∨ more x
  ready : e'.memDepReady → e.memDepReady ∨ woken

def Changed (woken : InstSeqNum → Prop) (more : InstSeqNum → InstSeqNum → Prop) (u u' : MemDepUnit) : Prop :=
  ∀ n, Option.Rel (Later (woken n) (more n)) (u.entries n) (u'.entries n)

variable {woken : InstSeqNum → Prop} {more : InstSeqNum → InstSeqNum → Prop} {e e' : MemDepEntry}

namespace Changed

theorem of_eq (he : u'.entries = u.entries) : Changed woken more u u' := fun n => by
  rw [he]
  cases u.entries n with
  | none => exact .none
  | some e => exact .some ⟨rfl, rfl, fun _ => .inl, .inl⟩

theorem entry (h : Changed woken more u u') (he : u'.entries n = some e') :
    ∃ e, u.entries n = some e ∧ Later (woken n) (more n) e e' := by
  have hr := h n
  rw [he] at hr
  generalize u.entries n = o at hr
  cases hr with
  | some hl => exact ⟨_, rfl, hl⟩

theorem came (h : Changed woken more u u') {v : Via} : u'.Came v x ↔ u.Came v x := by
  have hr := h x.seqNum
  unfold Came
  generalize u.entries x.seqNum = o, u'.entries x.seqNum = o' at hr
  cases hr with
  | none => rfl
  | some hl => simp [hl.inst, hl.via]

theorem ne_none (h : Changed woken more u u') : u'.entries n ≠ none ↔ u.entries n ≠ none := by
  have hr := h n
  generalize u.entries n = o, u'.entries n = o' at hr
  cases hr <;> simp

theorem trans {u₁ u₂ : MemDepUnit} (h : Changed woken more u u₁) (h' : Changed woken more u₁ u₂) :
    Changed woken more u u₂ := fun n => by
  have hr := h n
  have hr' := h' n
  generalize u.entries n = o, u₁.entries n = o₁, u₂.entries n = o₂ at hr hr' ⊢
  cases hr with
  | none => cases hr'; exact .none
  | some hl =>
    cases hr' with
    | some hl' =>
      refine .some ⟨hl'.inst.trans hl.inst, hl'.via.trans hl.via, fun x hx => ?_, fun hw => ?_⟩
      · exact (hl'.depend x hx).elim (hl.depend x) .inr
      · exact (hl'.ready hw).elim hl.ready .inr

theorem mono {woken' : InstSeqNum → Prop} {more' : InstSeqNum → InstSeqNum → Prop} (h : Changed woken more u u')
    (hw : ∀ n, woken n → woken' n) (hm : ∀ n x, more n x → more' n x) : Changed woken' more' u u' := fun n => by
  have hr := h n
  generalize u.entries n = o, u'.entries n = o' at hr
  cases hr with
  | none => exact .none
  | some hl =>
    exact .some ⟨hl.inst, hl.via, fun x hx => (hl.depend x hx).imp_right (hm n x),
      fun hr => (hl.ready hr).imp_right (hw n)⟩

theorem modify {f : MemDepEntry → MemDepEntry} (hf : ∀ e, Later (woken n) (more n) e (f e)) :
    Changed woken more u (u.modify n f) := by
  refine (forall_update_iff u.entries fun m o => Option.Rel (Later (woken m) (more m)) (u.entries m) o).2
    ⟨?_, fun m _ => of_eq rfl m⟩
  cases u.entries n with
  | none => exact .none
  | some e => exact .some (hf e)

end Changed

/-! ## Calls that only take away -/

/-- The instructions are the same ones, some have left the hash, and only those in `woken` were made ready. -/
structure Fewer (woken : InstSeqNum → Prop) (u u' : MemDepUnit) : Prop where
  entries : Changed woken (fun _ _ => False) u u'
  hash : ∀ {n}, u'.memDepHash n → u.memDepHash n

namespace Fewer

section

variable (h : Fewer woken u u')

include h

theorem outstanding (hb : u'.Outstanding b) : u.Outstanding b :=
  ⟨h.hash hb.inHash, h.entries.came.1 hb.came, hb.barrier⟩

theorem outstanding' (hb : u.Outstanding b) (hh : u'.memDepHash b.seqNum) : u'.Outstanding b :=
  ⟨hh, h.entries.came.2 hb.came, hb.barrier⟩

theorem held (hx : u'.Held x) : u.Held x := by
  obtain ⟨b, hb, hlt, hbl⟩ := hx
  exact ⟨b, h.outstanding hb, hlt, hbl⟩

theorem mono {woken' : InstSeqNum → Prop} (hw : ∀ n, woken n → woken' n) : Fewer woken' u u' :=
  ⟨h.entries.mono hw fun _ _ => id, h.hash⟩

end

theorem trans {u₁ u₂ : MemDepUnit} (h : Fewer woken u u₁) (h' : Fewer woken u₁ u₂) : Fewer woken u u₂ :=
  ⟨h.entries.trans h'.entries, fun hn => h.hash (h'.hash hn)⟩

theorem modify {f : MemDepEntry → MemDepEntry} (hf : ∀ e, Later (woken n) (fun _ => False) e (f e)) :
    Fewer woken u (u.modify n f) :=
  ⟨.modify hf, id⟩

theorem of_hash (he : u'.entries = u.entries) (hh : ∀ {n}, u'.memDepHash n → u.memDepHash n) : Fewer woken u u' :=
  ⟨.of_eq he, hh⟩

end Fewer

theorem Inv.fewer (hi : u.Inv) (h : Fewer woken u u') (hwoken : ∀ {x}, u.Came .insert x → woken x.seqNum → ¬ u'.Held x)
    (hsorted : u'.instList.Pairwise (· > ·))
    (hmem : ∀ {n}, n ∈ u'.instList ↔ u'.memDepHash n = true)
    (hlatest : ∀ {k b}, u'.Outstanding b → (k = true → b.isMemBarrier = true) → u'.Latest (u'.flag k) (u'.last k) b) :
    u'.Inv := by
  refine ⟨?_, fun hn => h.entries.ne_none.2 (hi.known (h.hash hn)), ?_, hsorted, hmem, hlatest, ?_, ?_⟩
  · intro n e' he'
    obtain ⟨e, he, hl⟩ := h.entries.entry he'
    rw [hl.inst]
    exact hi.key he
  · intro p q' x hq' hx
    obtain ⟨q, hq, hl⟩ := h.entries.entry hq'
    exact h.entries.ne_none.2 (hi.dependents hq ((hl.depend x hx).resolve_right id))
  · intro x e' he' hvia hheld
    obtain ⟨e, he, hl⟩ := h.entries.entry he'
    rw [hl.inst] at hheld
    rw [hl.via] at hvia
    by_contra hne
    rcases hl.ready (Bool.not_eq_false _ ▸ hne) with hr | hr
    · rw [hi.notReady he hvia (h.held hheld)] at hr
      cases hr
    · obtain rfl := hi.key he
      exact hwoken ⟨e, he, rfl, hvia⟩ hr hheld
  · intro x e' p q' b he' hvia hb hlt hbl hq' hp hx
    obtain ⟨e, he, hl⟩ := h.entries.entry he'
    obtain ⟨q, hq, hlq⟩ := h.entries.entry hq'
    rw [hl.inst] at hbl
    obtain ⟨ho, hle⟩ := hi.waits he (hl.via ▸ hvia) (h.outstanding hb) hlt hbl hq (h.hash hp)
      ((hlq.depend x hx).resolve_right id)
    refine ⟨hlq.inst ▸ h.outstanding' ho ?_, hle⟩
    rw [hi.key hq]
    exact hp

theorem Latest.fewer {flag flag' : Bool} {last : InstSeqNum} (h : u.Latest flag last b) (hf : Fewer woken u u')
    (hflag : flag → flag') (hlast : u'.memDepHash last) : u'.Latest flag' last b := by
  obtain ⟨b', hb', rfl⟩ := h.there
  exact ⟨hflag h.flag, h.nonzero, h.le, b', hf.outstanding' hb' hlast, rfl⟩

theorem Inv.keep (hi : u.Inv) (h : Fewer woken u u') (hu : u' = { u with entries := u'.entries })
    (hwoken : ∀ {x}, u.Came .insert x → woken x.seqNum → ¬ u'.Held x) : u'.Inv := by
  refine hi.fewer h hwoken ?_ ?_ ?_
  · rw [hu]
    exact hi.sorted
  · rw [hu]
    exact hi.mem_list
  · intro k b hb hm
    have hl := hi.latest (h.outstanding hb) hm
    obtain ⟨c, hc, hn⟩ := hl.there
    rw [hu]
    rw [hu] at h
    exact hl.fewer h id (hn ▸ hc.inHash)

/-! ## The calls -/

theorem findInHash_eq_ok : u.findInHash n = .ok e ↔ u.memDepHash n ∧ u.entries n = some e := by
  unfold findInHash
  split
  · next hh he => rw [hh, he]; simp
  · next hne =>
    constructor
    · nofun
    · rintro ⟨hh, he⟩
      exact (hne e hh he).elim

/-- Waking readies those on the list only. -/
theorem wakeLoop_spec : ∀ {ns : List InstSeqNum} {u u' : MemDepUnit} {r : List InstSeqNum},
    wakeLoop ns u = .ok (u', r) → Fewer (· ∈ ns) u u' ∧ r ⊆ ns ∧ u' = { u with entries := u'.entries }
  | [], u, u', r, h => by
    cases h
    exact ⟨.of_hash rfl id, Subset.refl _, rfl⟩
  | n :: ns, u, u', r, h => by
    rw [wakeLoop] at h
    split at h
    · obtain ⟨hf, hr, hu⟩ := wakeLoop_spec h
      exact ⟨hf.mono fun _ => mem_cons_of_mem n, subset_cons_of_subset n hr, hu⟩
    · split at h
      · obtain ⟨⟨u₁, r₁⟩, h₁, h⟩ := of_bind h
        cases h
        obtain ⟨hf, hr, hu⟩ := wakeLoop_spec h₁
        exact ⟨hf.mono fun _ => mem_cons_of_mem n, cons_subset_cons n hr, hu⟩
      · obtain ⟨hf, hr, hu⟩ := wakeLoop_spec h
        have hm : Fewer (· ∈ n :: ns) u (u.modify n fun e => { e with memDepReady := true }) :=
          .modify fun _ => ⟨rfl, rfl, fun _ => .inl, fun _ => .inr mem_cons_self⟩
        refine ⟨hm.trans (hf.mono fun _ => mem_cons_of_mem n), subset_cons_of_subset n hr, ?_⟩
        rw [hu]
        rfl

theorem wakeDependents_spec {r : List InstSeqNum} (h : u.wakeDependents inst = .ok (u', r)) :
    ∃ ns, Fewer (· ∈ ns) u u' ∧ r ⊆ ns ∧ u' = { u with entries := u'.entries } ∧
      ∀ x ∈ ns, ∃ e, u.entries inst.seqNum = some e ∧ u.memDepHash inst.seqNum ∧ x ∈ e.dependInsts := by
  unfold wakeDependents at h
  split at h
  · cases h
    exact ⟨[], .of_hash rfl id, Subset.refl _, rfl, fun _ hx => (nomatch hx)⟩
  · obtain ⟨e, he, h⟩ := of_bind h
    obtain ⟨⟨u₁, r₁⟩, h₁, h⟩ := of_bind h
    cases h
    obtain ⟨hh, he⟩ := findInHash_eq_ok.1 he
    obtain ⟨hf, hr, hu⟩ := wakeLoop_spec h₁
    have hm : Fewer (· ∈ e.dependInsts) u₁ (u₁.modify inst.seqNum fun e => { e with dependInsts := [] }) :=
      .modify fun _ => ⟨rfl, rfl, fun _ hx => (nomatch hx), .inl⟩
    refine ⟨e.dependInsts, hf.trans hm, hr, ?_, fun x hx => ⟨e, he, hh, hx⟩⟩
    rw [hu]
    rfl

theorem cleared_iff {hash : InstSeqNum → Bool} {m n : InstSeqNum} : update hash n false m ↔ m ≠ n ∧ hash m := by
  by_cases h : m = n <;> simp [h]

theorem completed_spec (h : u.completed n = .ok u') : u.memDepHash n ∧
    u' = { u with memDepHash := update u.memDepHash n false, instList := u.instList.filter (· != n) } := by
  obtain ⟨hh, rfl⟩ := of_check h
  exact ⟨hh, rfl⟩

/-- A squash takes out the younger instructions, and wakes none. -/
theorem squashLoop_spec {k : Nat} : ∀ {ns : List Nat} {u u' : MemDepUnit},
    squashLoop k ns u = .ok u' → ns.Pairwise (· > ·) →
      Fewer (fun _ => False) u u' ∧ u'.instList = ns.filter (· ≤ k) ∧
      (∀ m : Nat, u'.memDepHash m ↔ u.memDepHash m ∧ (m ∈ ns → m ≤ k)) ∧
      u' = { u with entries := u'.entries, memDepHash := u'.memDepHash, instList := u'.instList }
  | [], u, u', h, _ => by
    cases h
    refine ⟨.of_hash rfl id, rfl, fun m => ?_, rfl⟩
    simp
  | n :: ns, u, u', h, hp => by
    obtain ⟨hn, hp⟩ := pairwise_cons.1 hp
    rw [squashLoop] at h
    split at h
    · next hlt =>
      have hlt : k < n := hlt
      obtain ⟨-, h⟩ := of_ensure h
      obtain ⟨hf, hl, hh, hu⟩ := squashLoop_spec h hp
      have hm : Fewer (fun _ => False) u (u.modify n fun e => { e with squashed := true }) :=
        .modify fun _ => ⟨rfl, rfl, fun _ => .inl, .inl⟩
      refine ⟨hm.trans (.trans ?_ hf), ?_, fun m => ?_, ?_⟩
      · exact .of_hash rfl fun hx => (cleared_iff.1 hx).2
      · rw [hl, filter_cons_of_neg (by simpa using hlt)]
      · refine (hh m).trans ((and_congr_left' cleared_iff).trans ?_)
        rw [mem_cons]
        constructor
        · rintro ⟨⟨hne, hu⟩, hk⟩
          exact ⟨hu, fun h => hk (h.resolve_left hne)⟩
        · rintro ⟨hu, hk⟩
          refine ⟨⟨?_, hu⟩, fun h => hk (.inr h)⟩
          rintro rfl
          exact absurd (hk (.inl rfl)) (by omega)
      · rw [hu]
        rfl
    · next hle =>
      have hle : n ≤ k := Nat.le_of_not_lt hle
      have hall : ∀ m ∈ n :: ns, m ≤ k := forall_mem_cons.2 ⟨hle, fun m hm => Nat.le_trans (Nat.le_of_lt (hn m hm)) hle⟩
      cases h
      refine ⟨.of_hash rfl id, (filter_eq_self.2 fun m hm => ?_).symm, fun m => ?_, rfl⟩
      · exact decide_eq_true (hall m hm)
      · exact ⟨fun hm => ⟨hm, hall m⟩, fun h => h.1⟩

/-! ## Calls that add an instruction -/

def Youngest (u : MemDepUnit) (inst : DynInst) : Prop := ∀ n, u.entries n ≠ none → n < inst.seqNum

def withEntry (u : MemDepUnit) (e : MemDepEntry) : MemDepUnit :=
  { u with entries := update u.entries e.inst.seqNum (some e) }

/-- The new entry `e` is there, and waits in the list of `producer` if there is one. -/
structure Added (e : MemDepEntry) (producer : Option InstSeqNum) (u u' : MemDepUnit) : Prop where
  entries : Changed (fun _ => False) (fun n x => x = e.inst.seqNum ∧ producer = some n) (u.withEntry e) u'
  hash : u'.memDepHash = update u.memDepHash e.inst.seqNum true
  list : u'.instList = e.inst.seqNum :: u.instList
  nil : e.dependInsts = []

namespace Added

variable {producer : Option InstSeqNum}

variable (h : Added e producer u u')

include h

theorem entry (he : u'.entries n = some e') :
    ∃ d, (n ≠ e.inst.seqNum ∧ u.entries n = some d ∨ n = e.inst.seqNum ∧ d = e) ∧
      Later False (fun x => x = e.inst.seqNum ∧ producer = some n) d e' := by
  obtain ⟨d, hd, hl⟩ := h.entries.entry he
  refine ⟨d, ?_, hl⟩
  by_cases hn : n = e.inst.seqNum
  · subst hn
    exact .inr ⟨rfl, Option.some.inj (hd.symm.trans (update_self ..))⟩
  · exact .inl ⟨hn, (update_of_ne hn ..).symm.trans hd⟩

theorem came {v : Via} : u'.Came v x ↔ if x.seqNum = e.inst.seqNum then e.inst = x ∧ e.via = v else u.Came v x := by
  rw [h.entries.came]
  unfold Came withEntry
  split
  · next hx => simp [hx]
  · next hx => simp [hx]

theorem ne_none : u'.entries n ≠ none ↔ n = e.inst.seqNum ∨ u.entries n ≠ none := by
  rw [h.entries.ne_none, withEntry]
  by_cases hn : n = e.inst.seqNum <;> simp [hn]

theorem inHash_of_ne (hn : n ≠ e.inst.seqNum) : u'.memDepHash n = u.memDepHash n := by
  rw [h.hash, update_of_ne hn]

theorem outstanding (hb : u'.Outstanding b) :
    u.Outstanding b ∧ b.seqNum ≠ e.inst.seqNum ∨ b = e.inst ∧ e.via = .insertBarrier := by
  have hc := h.came.1 hb.came
  split at hc
  · exact .inr ⟨hc.1.symm, hc.2⟩
  · next hn => exact .inl ⟨⟨h.inHash_of_ne hn ▸ hb.inHash, hc, hb.barrier⟩, hn⟩

theorem outstanding_of (hv : e.via ≠ .insertBarrier) (hb : u'.Outstanding b) : u.Outstanding b :=
  (h.outstanding hb).elim And.left fun hn => absurd hn.2 hv

theorem outstanding' (hy : u.Youngest e.inst) (hb : u.Outstanding b) : u'.Outstanding b := by
  have hn : b.seqNum ≠ e.inst.seqNum := Nat.ne_of_lt (hy _ hb.ne_none)
  exact ⟨(h.inHash_of_ne hn).trans hb.inHash, h.came.2 ((if_neg hn).mpr hb.came), hb.barrier⟩

theorem older (hy : u.Youngest e.inst) (hb : u'.Outstanding b) (hn : u.entries n ≠ none)
    (hlt : b.seqNum < n) : u.Outstanding b := by
  rcases h.outstanding hb with ⟨hb, -⟩ | ⟨rfl, -⟩
  · exact hb
  · exact absurd hlt (Nat.lt_asymm (hy n hn))

end Added

theorem Inv.added {producer : Option InstSeqNum} (hi : u.Inv) (h : Added e producer u u') (hy : u.Youngest e.inst)
    (hlatest : ∀ {k b}, u'.Outstanding b → (k = true → b.isMemBarrier = true) → u'.Latest (u'.flag k) (u'.last k) b)
    (hnew : ∀ {b}, e.via = .insert → u.Outstanding b → Blocks b e.inst → e.memDepReady = false ∧
      ∀ n, producer = some n → ∃ c, u.Outstanding c ∧ c.seqNum = n ∧ b.seqNum ≤ n) : u'.Inv := by
  have hfresh : u.entries e.inst.seqNum = none := by
    by_contra hne
    exact Nat.lt_irrefl _ (hy _ hne)
  have holder : ∀ {b}, u'.Outstanding b → e.via = .insert → u.Outstanding b := fun hb hvia =>
    h.outstanding_of (hvia ▸ nofun) hb
  refine ⟨?_, ?_, ?_, ?_, ?_, hlatest, ?_, ?_⟩
  · intro n d' hd'
    obtain ⟨d, ⟨-, hd⟩ | ⟨rfl, rfl⟩, hl⟩ := h.entry hd'
    · rw [hl.inst]
      exact hi.key hd
    · rw [hl.inst]
  · intro n hn
    by_cases hne : n = e.inst.seqNum
    · exact h.ne_none.2 (.inl hne)
    · exact h.ne_none.2 (.inr (hi.known (h.inHash_of_ne hne ▸ hn)))
  · intro p q' x hq' hx
    obtain ⟨q, hq, hl⟩ := h.entry hq'
    rcases hl.depend x hx with hx | ⟨rfl, -⟩
    · rcases hq with ⟨-, hq⟩ | ⟨-, rfl⟩
      · exact h.ne_none.2 (.inr (hi.dependents hq hx))
      · rw [h.nil] at hx
        cases hx
    · exact h.ne_none.2 (.inl rfl)
  · rw [h.list]
    exact pairwise_cons.2 ⟨fun n hn => hy n (hi.known (hi.mem_list.1 hn)), hi.sorted⟩
  · intro n
    rw [h.list, mem_cons, hi.mem_list]
    by_cases hne : n = e.inst.seqNum
    · simp [hne, h.hash]
    · simp [hne, h.inHash_of_ne hne]
  · rintro x d' hd' hvia ⟨b, hb, hlt, hbl⟩
    obtain ⟨d, hd, hl⟩ := h.entry hd'
    rw [hl.via] at hvia
    rw [hl.inst] at hlt hbl
    have hnot : d.memDepReady = false := by
      rcases hd with ⟨-, hd⟩ | ⟨rfl, rfl⟩
      · have hne : u.entries d.inst.seqNum ≠ none := by
          rw [hi.key hd, hd]
          exact Option.some_ne_none d
        exact hi.notReady hd hvia ⟨b, h.older hy hb hne hlt, hlt, hbl⟩
      · exact (hnew hvia (holder hb hvia) hbl).1
    by_contra hr
    rcases hl.ready (Bool.not_eq_false _ ▸ hr) with hr | hr
    · rw [hnot] at hr
      cases hr
    · exact hr
  · intro x d' p q' b hd' hvia hb hlt hbl hq' hp hx
    obtain ⟨d, hd, hl⟩ := h.entry hd'
    obtain ⟨q, hq, hlq⟩ := h.entry hq'
    rw [hl.via] at hvia
    rw [hl.inst] at hbl
    rcases hlq.depend x hx with hxq | ⟨rfl, hprod⟩
    · -- an instruction that waited before
      obtain ⟨hpn, hq⟩ : p ≠ e.inst.seqNum ∧ u.entries p = some q := by
        rcases hq with hq | ⟨-, rfl⟩
        · exact hq
        · rw [h.nil] at hxq
          cases hxq
      have hxs := hi.dependents hq hxq
      rcases hd with ⟨-, hd⟩ | ⟨rfl, -⟩
      · obtain ⟨ho, hle⟩ := hi.waits hd hvia (h.older hy hb hxs hlt) hlt hbl hq (h.inHash_of_ne hpn ▸ hp) hxq
        exact ⟨hlq.inst ▸ h.outstanding' hy ho, hle⟩
      · exact absurd hfresh hxs
    · rcases hd with ⟨hne, -⟩ | ⟨-, rfl⟩
      · exact absurd rfl hne
      · obtain ⟨c, hc, rfl, hle⟩ := (hnew hvia (holder hb hvia) hbl).2 p hprod
        obtain ⟨d, hd, hdi, -⟩ := (h.outstanding' hy hc).came
        cases hd.symm.trans hq'
        exact ⟨hdi ▸ h.outstanding' hy hc, hle⟩

theorem Added.addEntry (via : Via) : Added { inst, via } none u (u.addEntry inst via) :=
  ⟨.of_eq rfl, rfl, rfl, rfl⟩

theorem Added.modify {producer : Option InstSeqNum} {f : MemDepEntry → MemDepEntry} (h : Added e none u u')
    (hf : ∀ d, Later False (fun x => x = e.inst.seqNum ∧ producer = some n) d (f d)) :
    Added e producer u (u'.modify n f) :=
  ⟨(h.entries.mono (fun _ => id) fun _ _ hp => nomatch hp.2).trans (.modify hf), h.hash, h.list, h.nil⟩

theorem Added.ready {via : Via} {regs : Bool} : Added { inst, via, memDepReady := true } none u
    ((u.addEntry inst via).modify inst.seqNum fun e => { e with memDepReady := true, regsReady := regs }) := by
  let u₁ := u.withEntry { inst, via, memDepReady := true, regsReady := regs }
  refine ⟨.trans (show Changed _ _ _ u₁ from fun n => ?_) (.of_eq ?_), rfl, rfl, rfl⟩
  · show Option.Rel _ (update u.entries inst.seqNum _ n) (update u.entries inst.seqNum _ n)
    by_cases hn : n = inst.seqNum
    · subst hn
      rw [update_self, update_self]
      exact .some ⟨rfl, rfl, fun _ => .inl, .inl⟩
    · rw [update_of_ne hn, update_of_ne hn]
      cases u.entries n with
      | none => exact .none
      | some e => exact .some ⟨rfl, rfl, fun _ => .inl, .inl⟩
  · show update (update u.entries inst.seqNum _) inst.seqNum (.map _ (update u.entries inst.seqNum _ inst.seqNum)) = _
    rw [update_idem, update_self]
    rfl

theorem insert_spec {predicted : InstSeqNum} {r : List InstSeqNum}
    (h : u.insert inst predicted regs = .ok (u', r)) :
    u'.loadBarrier = u.loadBarrier ∧ u'.loadBarrierSN = u.loadBarrierSN ∧ u'.storeBarrier = u.storeBarrier ∧
    u'.storeBarrierSN = u.storeBarrierSN ∧
    (Added { inst, via := .insert } (some (u.producingStore inst predicted)) u u' ∧ r = [] ∨
      Added { inst, via := .insert, memDepReady := true } none u u' ∧ r ⊆ [inst.seqNum] ∧
      ¬ (u.producingStore inst predicted ≠ 0 ∧ u'.memDepHash (u.producingStore inst predicted))) := by
  obtain ⟨_, -, h⟩ := of_bind h
  split at h
  · cases h
    have ha : Added { inst, via := .insert } none u _ := (Added.addEntry .insert).modify (n := inst.seqNum)
      (f := fun e => { e with regsReady := regs }) fun _ => ⟨rfl, rfl, fun _ => .inl, .inl⟩
    refine ⟨rfl, rfl, rfl, rfl, .inl ⟨ha.modify fun d => ⟨rfl, rfl, fun x hx => ?_, .inl⟩, rfl⟩⟩
    exact (mem_append.1 hx).imp_right fun hx => ⟨mem_singleton.1 hx, rfl⟩
  · next hno =>
    cases h
    refine ⟨rfl, rfl, rfl, rfl, .inr ⟨.ready, ?_, hno⟩⟩
    split
    · exact Subset.refl _
    · exact nil_subset _

/-! ## The steps -/

/-- Instructions come in order, and a call is about the instruction that was inserted. -/
def Fits (u : MemDepUnit) : Call → Prop
  | .insert inst _ _ | .insertNonSpec inst | .insertBarrier inst => u.Youngest inst
  | .regsReady inst | .wakeDependents inst | .completeBarrier inst | .completed inst =>
    ∀ e, u.entries inst.seqNum = some e → e.inst = inst
  | .squash _ => True

/-- What the unit relies on: barriers complete in order and by `completeBarrier` or `completed` only, a squash that
leaves a barrier leaves the remembered one, sequence number zero is no barrier, and no instruction is both a load and a
store. -/
def Careful (u : MemDepUnit) : Call → Prop
  | .insert inst _ _ => ¬ (inst.isLoad ∧ inst.isStore)
  | .insertBarrier inst => inst.seqNum ≠ 0
  | .wakeDependents inst => ¬ u.Outstanding inst
  | .completeBarrier inst | .completed inst => u.Outstanding inst → ∀ b, u.Outstanding b → inst.seqNum ≤ b.seqNum
  | .squash squashedNum => ∀ b, u.Outstanding b → b.seqNum ≤ squashedNum →
    (b.isMemBarrier → u.loadBarrierSN ≤ squashedNum) ∧ u.storeBarrierSN ≤ squashedNum
  | .insertNonSpec _ | .regsReady _ => True

variable {r : List InstSeqNum}

/-- The invariant holds, and none of the instructions that are handed over is held. -/
def Hands (r : List InstSeqNum) (u : MemDepUnit) : Prop := u.Inv ∧ ∀ x, u.Came .insert x → x.seqNum ∈ r → ¬ u.Held x

theorem Inv.hands (hi : u.Inv) : u.Hands [] := ⟨hi, fun _ _ hx => nomatch hx⟩

section

variable (hi : u.Inv)

include hi

theorem Inv.regsReady (h : u.regsReady n = .ok (u', r)) : u'.Hands r := by
  obtain ⟨e, he, h⟩ := of_bind h
  obtain ⟨-, he⟩ := findInHash_eq_ok.1 he
  have hf : Fewer (fun _ => False) u (u.modify n fun e => { e with regsReady := true }) :=
    .modify fun _ => ⟨rfl, rfl, fun _ => .inl, .inl⟩
  have hinv : (u.modify n fun e => { e with regsReady := true }).Inv :=
    hi.keep hf rfl fun _ hw => hw.elim
  split at h
  · next hready =>
    obtain ⟨r₁, hr₁, h⟩ := of_bind h
    cases h
    obtain ⟨-, rfl⟩ := of_check hr₁
    refine ⟨hinv, fun x hx hxr hheld => ?_⟩
    obtain ⟨d, hd, rfl, hvia⟩ := hf.entries.came.1 hx
    rw [mem_singleton.1 hxr, hi.key he, he] at hd
    cases hd
    rw [hi.notReady he hvia (hf.held hheld)] at hready
    cases hready
  · cases h
    exact hinv.hands

theorem Inv.woken_waits (hx : u.Came .insert x) (hb : u.Outstanding b)
    (hlt : b.seqNum < x.seqNum) (hbl : Blocks b x) (he : u.entries inst.seqNum = some e)
    (hh : u.memDepHash inst.seqNum = true) (hxe : x.seqNum ∈ e.dependInsts) (hinst : e.inst = inst) :
    u.Outstanding inst ∧ b.seqNum ≤ inst.seqNum := by
  obtain ⟨d, hd, rfl, hvia⟩ := hx
  obtain ⟨ho, hle⟩ := hi.waits hd hvia hb hlt hbl he hh hxe
  exact ⟨hinst ▸ ho, hle⟩

theorem Inv.wakeDependents (h : u.wakeDependents inst = .ok (u', r)) (hf : u.Fits (.wakeDependents inst))
    (hc : u.Careful (.wakeDependents inst)) : u'.Hands r := by
  obtain ⟨ns, hfew, hr, hu, hns⟩ := wakeDependents_spec h
  have hwoken : ∀ {x}, u.Came .insert x → x.seqNum ∈ ns → ¬ u'.Held x := by
    intro x hx hxn hheld
    obtain ⟨b, hb, hlt, hbl⟩ := hfew.held hheld
    obtain ⟨e, he, hh, hxe⟩ := hns _ hxn
    exact hc (hi.woken_waits hx hb hlt hbl he hh hxe (hf e he)).1
  exact ⟨hi.keep hfew hu hwoken, fun x hx hxr => hwoken (hfew.entries.came.1 hx) (hr hxr)⟩

theorem Inv.leave (h : Fewer woken u u') (hwoken : ∀ {x}, u.Came .insert x → woken x.seqNum → ¬ u'.Held x)
    (hinst : ∀ e, u.entries inst.seqNum = some e → e.inst = inst)
    (hc : u.Outstanding inst → ∀ b, u.Outstanding b → inst.seqNum ≤ b.seqNum)
    (hhash : u'.memDepHash = update u.memDepHash inst.seqNum false)
    (hlist : u'.instList = u.instList.filter (· != inst.seqNum))
    (hflag : ∀ k, u.flag k = true → u.last k ≠ inst.seqNum → u'.flag k = true) (hlast : u'.last = u.last) : u'.Inv := by
  have hne : ∀ {n}, u'.memDepHash n = true ↔ n ≠ inst.seqNum ∧ u.memDepHash n = true := hhash ▸ cleared_iff
  refine hi.fewer h hwoken ?_ ?_ ?_
  · rw [hlist]
    exact hi.sorted.filter _
  · intro n
    rw [hlist, mem_filter, hi.mem_list, hne, bne_iff_ne, and_comm]
  · intro k b hb hm
    have hl := hi.latest (h.outstanding hb) hm
    obtain ⟨c, hc', hn⟩ := hl.there
    -- Otherwise the instruction that leaves is the last barrier, and the oldest one, so it is `b`.
    have hne' : u.last k ≠ inst.seqNum := by
      intro heq
      obtain ⟨d, hd, rfl, -⟩ := hc'.came
      rw [hn, heq] at hd
      have ho : u.Outstanding inst := hinst d hd ▸ hc'
      have hle := hc ho b (h.outstanding hb)
      exact (hne.1 hb.inHash).1 (Nat.le_antisymm (heq ▸ hl.le) hle)
    rw [hlast]
    exact hl.fewer h (fun hf => hflag k hf hne') (hne.2 ⟨hne', hn ▸ hc'.inHash⟩)

theorem Inv.completed (h : u.completed inst.seqNum = .ok u') (hf : u.Fits (.completed inst))
    (hc : u.Careful (.completed inst)) : u'.Inv := by
  obtain ⟨-, rfl⟩ := completed_spec h
  have hfew : Fewer (fun _ => False) u { u with
      memDepHash := update u.memDepHash inst.seqNum false, instList := u.instList.filter (· != inst.seqNum) } :=
    .of_hash rfl fun hn => (cleared_iff.1 hn).2
  exact hi.leave hfew (fun _ hw => hw.elim) hf hc rfl rfl (fun _ hl _ => hl) rfl

omit hi in
theorem clearBarriers_spec (h : u.clearBarriers inst = .ok u') :
    u' = { u with loadBarrier := u'.loadBarrier, storeBarrier := u'.storeBarrier } ∧
    ∀ k, u.flag k → u.last k ≠ inst.seqNum → u'.flag k := by
  unfold clearBarriers at h
  split at h
  · obtain ⟨-, rfl⟩ := of_check h
    exact ⟨rfl, fun k hl hn => by cases k <;> simp_all [flag, last]⟩
  · split at h
    · obtain ⟨-, rfl⟩ := of_check h
      exact ⟨rfl, fun k hl hn => by cases k <;> simp_all [flag, last]⟩
    · cases h
      exact ⟨rfl, fun _ hl _ => hl⟩

theorem Inv.completeBarrier (h : u.completeBarrier inst = .ok (u', r))
    (hf : u.Fits (.completeBarrier inst)) (hc : u.Careful (.completeBarrier inst)) : u'.Hands r := by
  obtain ⟨⟨u₁, r₁⟩, h₁, h⟩ := of_bind h
  obtain ⟨u₂, h₂, h⟩ := of_bind h
  obtain ⟨u₃, h₃, h⟩ := of_bind h
  cases h
  obtain ⟨ns, hfew, hr, hu₁, hns⟩ := wakeDependents_spec h₁
  obtain ⟨-, hu₂⟩ := completed_spec h₂
  obtain ⟨hu₃, hflag⟩ := clearBarriers_spec h₃
  have hhash : u'.memDepHash = update u.memDepHash inst.seqNum false := by rw [hu₃, hu₂, hu₁]
  have hne : ∀ {n}, u'.memDepHash n = true ↔ n ≠ inst.seqNum ∧ u.memDepHash n = true := hhash ▸ cleared_iff
  have hfew₃ : Fewer (· ∈ ns) u u' := by
    refine hfew.trans (.of_hash ?_ fun hn => ?_)
    · rw [hu₃, hu₂]
    · rw [hu₁]
      exact (hne.1 hn).2
  have hwoken : ∀ {x}, u.Came .insert x → x.seqNum ∈ ns → ¬ u'.Held x := by
    rintro x hx hxn ⟨b, hb, hlt, hbl⟩
    obtain ⟨e, he, hh, hxe⟩ := hns _ hxn
    obtain ⟨ho, hle⟩ := hi.woken_waits hx (hfew₃.outstanding hb) hlt hbl he hh hxe (hf e he)
    exact (hne.1 hb.inHash).1 (Nat.le_antisymm hle (hc ho b (hfew₃.outstanding hb)))
  refine ⟨hi.leave hfew₃ hwoken hf hc hhash ?_ ?_ ?_, fun x hx hxr => hwoken (hfew₃.entries.came.1 hx) (hr hxr)⟩
  · rw [hu₃, hu₂, hu₁]
  · rwa [hu₂, hu₁] at hflag
  · rw [hu₃, hu₂, hu₁]
    rfl

theorem Inv.squash {k : Nat} (h : u.squash k = .ok u') (hc : u.Careful (.squash k)) : u'.Inv := by
  obtain ⟨hfew, hlist, hhash, hu⟩ := squashLoop_spec h hi.sorted
  have hkeep : ∀ {m : Nat}, u'.memDepHash m = true ↔ u.memDepHash m = true ∧ m ≤ k := by
    intro m
    rw [hhash, hi.mem_list]
    exact ⟨fun hm => ⟨hm.1, hm.2 hm.1⟩, fun hm => ⟨hm.1, fun _ => hm.2⟩⟩
  refine hi.fewer hfew (fun _ hw => hw.elim) ?_ ?_ ?_
  · rw [hlist]
    exact hi.sorted.filter _
  · intro n
    rw [hlist, mem_filter, hi.mem_list, hkeep, decide_eq_true_iff]
  · intro l b hb hm
    have ho := hfew.outstanding hb
    have hl := hi.latest ho hm
    obtain ⟨c, hc', hn⟩ := hl.there
    have hle : u.last l ≤ k := by
      obtain ⟨h1, h2⟩ := hc b ho (hkeep.1 hb.inHash).2
      cases l with
      | true => exact h1 (hm rfl)
      | false => exact h2
    have hl := hl.fewer hfew id (hkeep.2 ⟨hn ▸ hc'.inHash, hle⟩)
    rw [hu] at hl ⊢
    exact hl

omit hi in
theorem Latest.added {flag : Bool} {last : InstSeqNum}
    (hl : u.Latest flag last b) (h : Added e producer u u') (hy : u.Youngest e.inst) : u'.Latest flag last b := by
  obtain ⟨c, hc, hn⟩ := hl.there
  exact ⟨hl.flag, hl.nonzero, hl.le, c, h.outstanding' hy hc, hn⟩

theorem Inv.producingStore (hc : ¬ (inst.isLoad = true ∧ inst.isStore = true)) (hb : u.Outstanding b)
    (hbl : Blocks b inst) (predicted : InstSeqNum) :
    ∃ flag, u.Latest flag (u.producingStore inst predicted) b := by
  unfold MemDepUnit.producingStore
  rcases hbl with ⟨hx, hm⟩ | ⟨hx, -⟩
  · have hl := hi.latest (k := true) hb fun _ => hm
    have hf : u.loadBarrier = true := hl.flag
    rw [hx, hf]
    exact ⟨u.loadBarrier, hl⟩
  · have hl := hi.latest (k := false) hb nofun
    have hf : u.storeBarrier = true := hl.flag
    have hnl : inst.isLoad = false := by
      rw [← Bool.not_eq_true]
      exact fun hx' => hc ⟨hx', hx⟩
    rw [hx, hf, hnl]
    exact ⟨u.storeBarrier, hl⟩

theorem Inv.insert {predicted : InstSeqNum} (h : u.insert inst predicted regs = .ok (u', r))
    (hy : u.Youngest inst) (hc : u.Careful (.insert inst predicted regs)) : u'.Hands r := by
  obtain ⟨hl, hlSN, hs, hsSN, h⟩ := insert_spec h
  have hinv : ∀ {e : MemDepEntry} {producer : Option InstSeqNum}, Added e producer u u' → e.inst = inst →
      e.via = .insert → (∀ {b}, u.Outstanding b → Blocks b inst → e.memDepReady = false ∧
        ∀ n, producer = some n → ∃ c, u.Outstanding c ∧ c.seqNum = n ∧ b.seqNum ≤ n) → u'.Inv := by
    rintro e producer ha rfl hvia hnew
    refine hi.added ha hy (fun {k b} hb hm => ?_) fun _ hb hbl => hnew hb hbl
    have hlatest := (hi.latest (ha.outstanding_of (hvia ▸ nofun) hb) hm).added ha hy
    simp only [flag, last, hl, hlSN, hs, hsSN]
    exact hlatest
  rcases h with ⟨ha, rfl⟩ | ⟨ha, hr, hno⟩
  · refine (hinv ha rfl rfl fun hb hbl => ⟨rfl, ?_⟩).hands
    rintro n ⟨⟩
    obtain ⟨flag, hl⟩ := hi.producingStore hc hb hbl predicted
    obtain ⟨c, hc, hn⟩ := hl.there
    exact ⟨c, hc, hn, hl.le⟩
  · -- No producer in the hash: there is no barrier that the instruction must wait for.
    have hfree : ∀ {b}, u.Outstanding b → ¬ Blocks b inst := by
      intro b hb hbl
      obtain ⟨flag, hl⟩ := hi.producingStore hc hb hbl predicted
      obtain ⟨c, hc, hn⟩ := hl.there
      exact hno ⟨hl.nonzero, hn ▸ (ha.outstanding' hy hc).inHash⟩
    refine ⟨hinv ha rfl rfl fun hb hbl => (hfree hb hbl).elim, ?_⟩
    rintro x ⟨d, hd, rfl, -⟩ hxr ⟨b, hb, hlt, hbl⟩
    obtain ⟨d', ⟨hne, -⟩ | ⟨-, rfl⟩, hl⟩ := ha.entry hd
    · exact absurd (mem_singleton.1 (hr hxr)) hne
    rw [hl.inst] at hbl
    exact hfree (ha.outstanding_of nofun hb) hbl

theorem Inv.insertNonSpec (h : u.insertNonSpec inst = .ok (u', r)) (hy : u.Youngest inst) : u'.Hands r := by
  obtain ⟨_, -, h⟩ := of_bind h
  cases h
  have ha : Added { inst, via := .insertNonSpec } none u (u.addEntry inst .insertNonSpec) := .addEntry _
  refine (hi.added ha hy (fun hb hm => ?_) fun hvia => (nomatch hvia)).hands
  exact (hi.latest (ha.outstanding_of nofun hb) hm).added ha hy

end

theorem Added.of_eq {v : MemDepUnit} (h : Added e producer v u')
    (he : v.entries = u.entries) (hh : v.memDepHash = u.memDepHash) (hl : v.instList = u.instList) :
    Added e producer u u' :=
  ⟨.trans (.of_eq (by rw [withEntry, withEntry, he])) h.entries, hh ▸ h.hash, hl ▸ h.list, h.nil⟩

theorem Added.insertBarrier : Added { inst, via := .insertBarrier } none u (u.insertBarrier inst) := by
  unfold MemDepUnit.insertBarrier
  split
  · exact (addEntry _).of_eq rfl rfl rfl
  · split
    · exact (addEntry _).of_eq rfl rfl rfl
    · exact addEntry _

theorem Inv.insertBarrier (hi : u.Inv) (hy : u.Youngest inst) (hc : inst.seqNum ≠ 0) : (u.insertBarrier inst).Inv := by
  have ha : Added { inst, via := .insertBarrier } none u (u.insertBarrier inst) := .insertBarrier
  have hlast : ∀ {b}, (u.insertBarrier inst).Outstanding b → (inst.isMemBarrier = true ∨ inst.isWriteBarrier = true) →
      (u.insertBarrier inst).Latest true inst.seqNum b := by
    intro b hb hbar
    have hthere : (u.insertBarrier inst).Outstanding inst :=
      ⟨by rw [ha.hash, update_self], ha.came.2 (by simp), hbar⟩
    refine ⟨rfl, hc, ?_, inst, hthere, rfl⟩
    rcases ha.outstanding hb with ⟨hb, -⟩ | ⟨rfl, -⟩
    · exact Nat.le_of_lt (hy _ hb.ne_none)
    · exact Nat.le_refl _
  refine hi.added ha hy (fun {k b} hb hm => ?_) fun hvia => (nomatch hvia)
  have hold : ∀ {b}, (u.insertBarrier inst).Outstanding b → b ≠ inst → u.Outstanding b := fun hb hne =>
    (ha.outstanding hb).elim And.left fun h => absurd h.1 hne
  by_cases hmem : inst.isMemBarrier = true
  · have hl := hlast hb (.inl hmem)
    cases k <;> simpa [MemDepUnit.insertBarrier, addEntry, flag, last, hmem] using hl
  · by_cases hw : inst.isWriteBarrier = true ∧ k = false
    · have hl := hlast hb (.inr hw.1)
      simpa [MemDepUnit.insertBarrier, addEntry, flag, last, hmem, hw.1, hw.2] using hl
    · -- a new barrier is none of the kind
      have hne : b ≠ inst := by
        rintro rfl
        cases k with
        | true => exact hmem (hm rfl)
        | false => exact hb.barrier.elim hmem fun h => hw ⟨h, rfl⟩
      have hl := (hi.latest (hold hb hne) hm).added ha hy
      cases k <;> by_cases hw' : inst.isWriteBarrier = true <;>
        simp_all [MemDepUnit.insertBarrier, addEntry, flag, last]

/-- No call hands over an instruction that is held. -/
theorem Inv.step {c : Call} (hi : u.Inv) (h : u.step c = .ok (u', r)) (hf : u.Fits c) (hc : u.Careful c) :
    u'.Hands r := by
  cases c with
  | insert inst predicted regs => exact hi.insert h hf hc
  | insertNonSpec inst => exact hi.insertNonSpec h hf
  | insertBarrier inst =>
    cases h
    exact (hi.insertBarrier hf hc).hands
  | regsReady inst => exact hi.regsReady h
  | wakeDependents inst => exact hi.wakeDependents h hf hc
  | completeBarrier inst => exact hi.completeBarrier h hf hc
  | completed inst =>
    obtain ⟨u₁, h₁, h⟩ := of_bind h
    cases h
    exact (hi.completed h₁ hf hc).hands
  | squash k =>
    obtain ⟨u₁, h₁, h⟩ := of_bind h
    cases h
    exact (hi.squash h₁ hc).hands

def Next (u : MemDepUnit) (c : Call) (u' : MemDepUnit) : Prop := u.Fits c ∧ ∃ r, u.step c = .ok (u', r)

/-- If all calls are careful, no load or store is handed over while an older barrier is there that it must wait for. -/
theorem handed_not_held {cs : List Call} {c : Call} (hrun : Run (fun u c u' => u.Careful c ∧ Next u c u') {} cs u)
    (hf : u.Fits c) (hc : u.Careful c) (h : u.step c = .ok (u', r)) (hx : u'.Came .insert x) (hr : x.seqNum ∈ r) :
    ¬ u'.Held x := by
  have hi : u.Inv := hrun.invariant .init fun hi ⟨hc, hf, _, h⟩ => (hi.step h hf hc).1
  exact (hi.step h hf hc).2 x hx hr

theorem Added.youngest (h : Added e producer u u') (hy : u.Youngest e.inst) (hlt : e.inst.seqNum < inst.seqNum) :
    u'.Youngest inst := by
  intro n hn
  rcases h.ne_none.1 hn with rfl | hn
  · exact hlt
  · exact Nat.lt_trans (hy n hn) hlt

theorem Fewer.youngest (h : Fewer woken u u') (hy : u.Youngest inst) : u'.Youngest inst :=
  fun n hn => hy n (h.entries.ne_none.1 hn)

theorem youngest_init : Youngest {} inst := fun _ hn => absurd rfl hn

def barrier (n : InstSeqNum) : DynInst := { seqNum := n, isMemBarrier := true }

def load (n : InstSeqNum) : DynInst := { seqNum := n, isLoad := true }

theorem handed_not_held_load : ∃ (cs : List Call) (u u' : MemDepUnit),
    Run (fun u c u' => u.Careful c ∧ Next u c u') {} cs u ∧ u.step (.completeBarrier (barrier 1)) = .ok (u', [2]) ∧
    u'.Came .insert (load 2) ∧ ¬ u'.Held (load 2) := by
  let u₁ : MemDepUnit := insertBarrier {} (barrier 1)
  have hy : u₁.Youngest (load 2) := Added.insertBarrier.youngest youngest_init (by decide)
  have h₁ : Run (fun u c u' => u.Careful c ∧ Next u c u') {} [.insertBarrier (barrier 1)] u₁ :=
    Run.nil.snoc ⟨Nat.one_ne_zero, youngest_init, [], rfl⟩
  have h₂ : Run (fun u c u' => u.Careful c ∧ Next u c u') {} [.insertBarrier (barrier 1), .insert (load 2) 0 true] _ :=
    h₁.snoc ⟨fun h => (nomatch h.2), hy, [], rfl⟩
  refine ⟨_, _, _, h₂, rfl, ⟨_, rfl, rfl, rfl⟩, handed_not_held (c := .completeBarrier (barrier 1)) h₂ ?_ ?_ rfl
    ⟨_, rfl, rfl, rfl⟩ mem_cons_self⟩
  · rintro e ⟨⟩
    rfl
  · intro _ b hb
    refine Nat.one_le_iff_ne_zero.2 fun h0 => ?_
    have hne := hb.ne_none
    rw [h0] at hne
    exact hne rfl

/-- A squash takes the last of two barriers: the load after it does not wait for the other one. -/
theorem squash_forgets_barrier : ∃ (cs : List Call) (u : MemDepUnit) (c : Call) (u' : MemDepUnit) (r : List InstSeqNum)
    (x : DynInst), Run Next {} cs u ∧ u.Fits c ∧ u.step c = .ok (u', r) ∧ u'.Came .insert x ∧ x.seqNum ∈ r ∧
    u'.Held x := by
  let u₁ : MemDepUnit := insertBarrier {} (barrier 1)
  have hy₁ : u₁.Youngest (barrier 2) := Added.insertBarrier.youngest youngest_init (by decide)
  have hy₂ : (u₁.insertBarrier (barrier 2)).Youngest (load 3) := Added.insertBarrier.youngest hy₁ (by decide)
  have h₁ : Run Next {} [.insertBarrier (barrier 1)] u₁ := Run.nil.snoc ⟨youngest_init, [], rfl⟩
  have h₂ : Run Next {} [.insertBarrier (barrier 1), .insertBarrier (barrier 2)] (u₁.insertBarrier (barrier 2)) :=
    h₁.snoc ⟨hy₁, [], rfl⟩
  have hsq : (u₁.insertBarrier (barrier 2)).squash 1 = .ok _ := rfl
  have hfew := (squashLoop_spec hsq (by decide)).1
  have h₃ : Run Next {} [.insertBarrier (barrier 1), .insertBarrier (barrier 2), .squash 1] _ :=
    h₂.snoc ⟨trivial, [], rfl⟩
  exact ⟨_, _, .insert (load 3) 0 true, _, [3], load 3, h₃, hfew.youngest hy₂, rfl, ⟨_, rfl, rfl, rfl⟩,
    mem_cons_self, barrier 1, ⟨rfl, ⟨_, rfl, rfl, rfl⟩, .inl rfl⟩, Nat.lt_add_of_pos_right Nat.two_pos, .inl ⟨rfl, rfl⟩⟩

end MemDepUnit

end M5.Cpu.O3
