import M5.Cpu.Pred.BPredUnit

/-!
# The global history of the branch prediction unit

The unit with the tournament predictor, as one thread uses it, beside the path of the thread: its branches and their
directions, the most recent first.
-/

namespace M5.Cpu.Pred

open M5.Lib Function List Nat

structure Params where
  localPredictorSize : Nat
  localCtrBits : Nat
  localHistoryTableSize : Nat
  localHistoryBits : Nat
  globalPredictorSize : Nat
  globalHistoryBits : Nat
  globalCtrBits : Nat
  choicePredictorSize : Nat
  choiceCtrBits : Nat
  instShiftAmt : Nat
  BTBEntries : Nat
  BTBTagSize : Nat
  RASSize : Nat

/-- The branches of a thread: their sequence numbers and directions. -/
abbrev Path := List (Nat × Bool)

/-- The last `n` directions, the most recent in the low bit. -/
def Path.history (n : Nat) (path : Path) : Nat := path.foldr (fun x v => 2 * v + x.2.toNat) 0 % 2 ^ n

/-- The path that is left by a squash. -/
def Path.upTo (sn : Nat) (path : Path) : Path := path.dropWhile fun x => decide (sn < x.1)

open Pred.Path

theorem shift_history (n s : Nat) (b : Bool) (path : Path) :
    (history n path <<< 1 ||| b.toNat) &&& (2 ^ n - 1) = history n ((s, b) :: path) := by
  have hor : history n path <<< 1 ||| b.toNat = 2 * history n path + b.toNat := by
    exact (two_pow_add_eq_or_of_lt (i := 1) (by cases b <;> decide) _).symm
  rw [hor, and_two_pow_sub_one_eq_mod, history, history, foldr_cons, add_mod, mul_mod_mod, ← add_mod]

def Act.tid : Act → Nat
  | .predict _ _ tid | .update _ tid | .squash _ tid | .mispredict _ _ _ tid => tid

namespace BPredUnit

/-- The constructor, for the tournament predictor: the arguments stand as in the source. -/
def create (p : Params) (rasOffset : Nat) : Except Stop BPredUnit := do
  let bp ← TournamentBP.create p.localPredictorSize p.localCtrBits p.localHistoryTableSize p.localHistoryBits
    p.globalPredictorSize p.globalHistoryBits p.globalCtrBits p.choicePredictorSize p.choiceCtrBits p.instShiftAmt
  ensure .fatal (TournamentBP.isPowerOf2 p.BTBEntries)
  .ok {
    predictor := .Tournament bp
    BTB := { numEntries := p.BTBEntries, tagBits := p.BTBTagSize, instShiftAmt := p.instShiftAmt }
    RAS := fun _ => { numEntries := p.RASSize }
    rasOffset }

/-- A call, and what it makes of the path. -/
def follow (x : BPredUnit × Path) : Act → Except Stop (BPredUnit × Path)
  | .predict inst PC tid => do
    let (taken, _, u) ← x.1.predict inst PC tid
    .ok (u, (inst.seqNum, taken) :: x.2)
  | .update doneSN tid => do
    let u ← x.1.update tid doneSN
    .ok (u, x.2)
  | .squash squashedSN tid => do
    let u ← x.1.squash tid squashedSN
    .ok (u, upTo squashedSN x.2)
  | .mispredict squashedSN corrTarget actuallyTaken tid => do
    let u ← x.1.squashMispredict tid squashedSN corrTarget actuallyTaken
    .ok (u, (upTo squashedSN x.2).modifyHead fun x => if x.1 = squashedSN then (x.1, actuallyTaken) else x)

/-- The branches of the path behind `sn` have records. -/
def Covers (u : BPredUnit) (tid : Nat) (path : Path) (sn : Nat) : Prop :=
  ∀ x ∈ path, sn < x.1 → x.1 ∈ (u.predHist tid).map (·.seqNum)

/-- A branch is younger than the path and does not miss; a squash is of branches that have not been corrected or done;
a branch that is corrected has the direction of its prediction. -/
def Plain (x : BPredUnit × Path) : Act → Prop
  | .predict inst PC tid => ¬ x.1.Misses (.predict inst PC tid) ∧ ∀ y ∈ x.2, y.1 < inst.seqNum
  | .update _ _ => True
  | .squash sn tid => x.1.Covers tid x.2 sn
  | .mispredict sn _ taken tid => x.1.Covers tid x.2 sn ∧ (sn, !taken) ∉ x.2

/-- The records, among the branches of the path, have their directions and the history before them. -/
inductive Recorded (n : Nat) : List PredictorHistory → Path → Prop
  | nil : Recorded n [] path
  | skip {x} (h : Recorded n es path) : Recorded n es (x :: path)
  | cons {e h} (he : e.bpHistory = some h) (hh : h.globalHistory = history n path) (hr : Recorded n es path) :
      Recorded n (e :: es) ((e.seqNum, e.predTaken) :: path)

variable {u u' : BPredUnit} {tid n sn : Nat} {path path' : Path} {p p' : Predictor} {es : List PredictorHistory}

theorem Recorded.sublist (h : Recorded n es path) : ∀ {es'}, es' <+ es → Recorded n es' path := by
  induction h with
  | nil =>
    intro es' hs
    exact sublist_nil.1 hs ▸ .nil
  | skip _ ih => exact fun hs => .skip (ih hs)
  | cons he hh _ ih =>
    intro es' hs
    cases hs with
    | cons _ hs => exact .skip (ih hs)
    | cons_cons _ hs => exact .cons he hh (ih hs)

theorem Recorded.keys (h : Recorded n es path) : es.map (·.seqNum) <+ path.map Prod.fst := by
  induction h with
  | nil => exact nil_sublist _
  | skip _ ih => exact ih.cons _
  | cons _ _ _ ih => exact ih.cons_cons _

/-- The predictor has `n` bits of history, those of the path. -/
def Shows (n : Nat) (p : Predictor) (path : Path) : Prop :=
  ∃ bp, p = .Tournament bp ∧ bp.globalHistoryMask = 2 ^ n - 1 ∧ bp.globalHistory = history n path

theorem Shows.update (hp : Shows n p path) {addr : Nat} {taken : Bool} {h : Option BPHistory}
    (hu : p.BPUpdate addr taken h = .ok p') : Shows n p' path := by
  obtain ⟨bp, rfl, hm, hh⟩ := hp
  obtain ⟨bp', hb, rfl⟩ := of_map hu
  obtain ⟨-, rfl⟩ := of_check hb
  exact ⟨_, rfl, hm, hh⟩

theorem Shows.direction (hp : Shows n u.predictor path) {inst : DynInst} {PC : Nat} {taken : Bool}
    {r : Option BPHistory}
    (hd : u.direction inst PC = .ok (taken, r, p')) :
    (∃ h, r = some h ∧ h.globalHistory = history n path) ∧ Shows n p' ((inst.seqNum, taken) :: path) := by
  obtain ⟨bp, hp, hm, hh⟩ := hp
  have hs (b : Bool) : (bp.updateGlobalHist b).globalHistory = history n ((inst.seqNum, b) :: path) := by
    rw [← shift_history, ← hh, ← hm]
    rfl
  rw [BPredUnit.direction, hp] at hd
  split at hd
  · cases hd
    exact ⟨⟨_, rfl, hh⟩, _, rfl, hm, hs _⟩
  · obtain ⟨⟨b, h, bp'⟩, hl, hd⟩ := of_bind hd
    cases hd
    obtain ⟨-, hl⟩ := of_ensure hl
    cases hl
    exact ⟨⟨_, rfl, hh⟩, _, rfl, hm, hs _⟩

/-- The history is that of the path, whose sequence numbers increase, and the records are right. -/
def Inv (n tid : Nat) (x : BPredUnit × Path) : Prop :=
  Shows n x.1.predictor x.2 ∧ Recorded n (x.1.predHist tid) x.2 ∧ x.2.Pairwise fun x y => y.1 < x.1

theorem undo_eq_ok {e : PredictorHistory} (h : u.undo tid e = .ok u') :
    u.predictor.BPSquash e.bpHistory = .ok u'.predictor ∧ u'.predHist tid = (u.predHist tid).tail := by
  obtain ⟨q, hq, rfl⟩ := of_map h
  exact ⟨hq, update_self _ _ _⟩

theorem squash_of_le (hr : Recorded n (u.predHist tid) path) (hle : ∀ x ∈ path, x.1 ≤ sn)
    (hu : u.squash tid sn = .ok u') : u' = u := by
  have hnil : (u.predHist tid).takeWhile (fun e => decide (sn < e.seqNum)) = [] := by
    cases he : u.predHist tid with
    | nil => rfl
    | cons e es =>
      obtain ⟨x, hx, hs⟩ := mem_map.1 (hr.keys.subset (a := e.seqNum) (by simp [he]))
      exact takeWhile_cons_of_neg (by simpa using hs ▸ hle x hx)
  rw [squash, hnil] at hu
  exact (Except.ok.inj hu).symm

theorem inv_squash (h : Inv n tid (u, path)) (hc : u.Covers tid path sn) (hu : u.squash tid sn = .ok u') :
    Inv n tid (u', upTo sn path) := by
  induction path generalizing u with
  | nil => exact squash_of_le h.2.1 nofun hu ▸ h
  | cons x path ih =>
    obtain ⟨hs, hr, hd⟩ := h
    have hlt : ∀ y ∈ path, y.1 < x.1 := fun y hy => rel_of_pairwise_cons hd hy
    by_cases hx : sn < x.1
    · rw [upTo, dropWhile_cons_of_pos (by simpa using hx)]
      have hm := hc x (.head _) hx
      generalize he : u.predHist tid = es at hr hm
      cases hr with
      | nil => cases hm
      | skip hr =>
        obtain ⟨y, hy, hyx⟩ := mem_map.1 (hr.keys.subset hm)
        exact absurd hyx (hlt y hy).ne
      | cons hb hh hr =>
        rw [squash, he, takeWhile_cons_of_pos (by simpa using hx)] at hu
        obtain ⟨v, hv, hu⟩ := of_bind hu
        obtain ⟨hq, ht⟩ := undo_eq_ok hv
        obtain ⟨bp, hp, hmask, -⟩ := hs
        rw [hp, hb] at hq
        rw [he, tail_cons] at ht
        rw [← ht] at hr hu
        refine ih ⟨⟨_, (Except.ok.inj hq).symm, hmask, hh⟩, hr, hd.of_cons⟩ (fun y hy hsn => ?_) hu
        have hmem := hc y (.tail _ hy) hsn
        rw [he, map_cons, mem_cons] at hmem
        exact ht ▸ hmem.resolve_left (hlt y hy).ne
    · rw [upTo, dropWhile_cons_of_neg (by simpa using hx)]
      refine squash_of_le hr (forall_mem_cons.2 ⟨not_lt.1 hx, fun y hy => ?_⟩) hu ▸ ⟨hs, hr, hd⟩
      exact (hlt y hy).le.trans (not_lt.1 hx)

theorem inv_predict {inst : DynInst} {PC target : Nat} {taken : Bool} (h : Inv n tid (u, path))
    (hm : ¬ u.Misses (.predict inst PC tid)) (hlt : ∀ y ∈ path, y.1 < inst.seqNum)
    (hu : u.predict inst PC tid = .ok (taken, target, u')) : Inv n tid (u', (inst.seqNum, taken) :: path) := by
  obtain ⟨hs, hr, hd⟩ := h
  obtain ⟨⟨predTaken, bpHistory, predictor⟩, hp, hu⟩ := of_bind hu
  obtain ⟨⟨taken, target, e, ras⟩, hf, hu⟩ := of_bind hu
  cases hu
  obtain ⟨⟨b, rfl, hh⟩, hs⟩ := hs.direction hp
  obtain ⟨hseq, htaken, hb, hiff⟩ := findTarget_eq_ok hf
  dsimp only at hseq htaken hb hiff
  obtain rfl := hiff.2 fun ⟨ht, hn⟩ => hm ⟨⟨_, ht ▸ hp⟩, hn⟩
  refine ⟨hs, ?_, pairwise_cons.2 ⟨hlt, hd⟩⟩
  simp only [update_self]
  exact hseq ▸ htaken ▸ .cons hb hh hr

theorem inv_follow {x y : BPredUnit × Path} {a : Act} (h : Inv n a.tid x) (hp : Plain x a) (hy : follow x a = .ok y) :
    Inv n a.tid y := by
  cases a with
  | predict inst PC tid =>
    obtain ⟨r, hu, rfl⟩ := of_map hy
    exact inv_predict h hp.1 hp.2 hu
  | update doneSN tid =>
    obtain ⟨u, hu, rfl⟩ := of_map hy
    obtain ⟨p, hf, rfl⟩ := of_map hu
    refine ⟨(Run.of_foldlM hf).invariant (I := (Shows n · x.2)) h.1 fun hs hu => hs.update hu, ?_, h.2.2⟩
    exact h.2.1.sublist (sublist_update (List.rdropWhile_prefix _ _).sublist _)
  | squash sn tid =>
    obtain ⟨u, hu, rfl⟩ := of_map hy
    exact inv_squash h hp hu
  | mispredict sn target taken tid =>
    obtain ⟨u, hu, rfl⟩ := of_map hy
    obtain ⟨v, hv, hu⟩ := of_bind hu
    have hsame : (upTo sn x.2).modifyHead (fun x => if x.1 = sn then (x.1, taken) else x) = upTo sn x.2 := by
      cases hl : upTo sn x.2 with
      | nil => rfl
      | cons y l =>
        obtain ⟨s, b⟩ := y
        have hmem : (s, b) ∈ x.2 := (hl ▸ dropWhile_sublist _ : (s, b) :: l <+ x.2).subset (.head _)
        rw [modifyHead_cons, ite_eq_right_iff.2]
        rintro rfl
        by_contra hne
        have hb : b = !taken := Bool.eq_not_of_ne fun hb => hne (hb ▸ rfl)
        exact hp.2 (hb ▸ hmem)
    have hv := inv_squash h hp.1 hv
    rw [hsame]
    split at hu
    · cases hu
      exact hv
    · next e rest he =>
      obtain ⟨p, hq, rfl⟩ := of_map (of_ensure hu).2
      exact ⟨hv.1.update hq, hv.2.1.sublist (sublist_update (he ▸ sublist_cons_self e rest) tid), hv.2.2⟩

/-- In a run of plain calls of one thread, the global history is that of the path. -/
theorem globalHistory_path {p : Params} {rasOffset : Nat} {as : List Act}
    (hw : p.globalCtrBits = p.globalHistoryBits) (h0 : create p rasOffset = .ok u)
    (h : Run (fun x a y => a.tid = tid ∧ Plain x a ∧ follow x a = .ok y) (u, []) as (u', path)) :
    ∃ bp, u'.predictor = .Tournament bp ∧ bp.globalHistory = history p.globalHistoryBits path := by
  obtain ⟨bp, hbp, h0⟩ := of_bind h0
  obtain ⟨-, rfl⟩ := of_check h0
  have hbp := (of_ensure (of_ensure (of_ensure (of_ensure hbp).2).2).2).2
  cases hbp
  have hinv := h.invariant (I := Inv p.globalCtrBits tid)
    ⟨⟨_, rfl, rfl, (zero_mod _).symm⟩, .nil, .nil⟩ fun hx hs => hs.1 ▸ inv_follow (hs.1.symm ▸ hx) hs.2.1 hs.2.2
  obtain ⟨bp, hp, -, hh⟩ := hinv.1
  exact ⟨bp, hp, hw ▸ hh⟩

def even : Params := ⟨1, 2, 1, 1, 4, 2, 2, 4, 2, 2, 1, 16, 16⟩

/-- Two returns are predicted, and the second is undone. -/
theorem globalHistory_path_undone : ∃ u u' : BPredUnit, create even 4 = .ok u ∧
    Run (fun x a y => a.tid = 0 ∧ Plain x a ∧ follow x a = .ok y) (u, [])
      [.predict ⟨1, true, true, false⟩ 0 0, .predict ⟨2, true, true, false⟩ 4 0, .squash 1 0] (u', [(1, true)]) ∧
    ∃ bp, u'.predictor = .Tournament bp ∧ bp.globalHistory = history 2 [(1, true)] := by
  obtain ⟨u, u', h0, h⟩ : ∃ u u' : BPredUnit, create even 4 = .ok u ∧
      Run (fun x a y => a.tid = 0 ∧ Plain x a ∧ follow x a = .ok y) (u, [])
        [.predict ⟨1, true, true, false⟩ 0 0, .predict ⟨2, true, true, false⟩ 4 0, .squash 1 0] (u', [(1, true)]) := by
    refine ⟨_, _, rfl, ((Run.nil.snoc ⟨rfl, ⟨?miss, nofun⟩, rfl⟩).snoc ⟨rfl, ⟨?miss', ?younger⟩, rfl⟩).snoc
      ⟨rfl, ?covers, rfl⟩⟩
    case miss => exact fun h => nomatch h.2.1
    case miss' => exact fun h => nomatch h.2.1
    case younger => exact forall_mem_singleton.2 (by decide)
    case covers => exact forall_mem_cons.2 ⟨fun _ => .head _, forall_mem_singleton.2 fun h => absurd h (lt_irrefl 1)⟩
  exact ⟨u, u', h0, h, globalHistory_path rfl h0 h⟩

/-- A branch that is found not to be taken stays in the history. -/
theorem not_globalHistory_path : ∃ u x, create even 4 = .ok u ∧
    Run (fun x a y => a.tid = 0 ∧ follow x a = .ok y) (u, [])
      [.predict ⟨1, true, true, false⟩ 0 0, .mispredict 1 0 false 0] x ∧
      ∃ bp, x.1.predictor = .Tournament bp ∧ bp.globalHistory ≠ history 2 x.2 :=
  ⟨_, _, rfl, .snoc (.snoc .nil ⟨rfl, rfl⟩) ⟨rfl, rfl⟩, _, rfl, by decide⟩

end BPredUnit

end M5.Cpu.Pred
