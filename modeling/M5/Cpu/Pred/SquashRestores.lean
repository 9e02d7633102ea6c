import M5.Cpu.Pred.BPredUnit

/-!
# What a squash restores

Predictions of one thread, and a squash that undoes their records, the youngest first. The RAS is a circle: a return
saves the entry that it takes, and a call saves nothing.
-/

namespace M5.Cpu.Pred

open M5.Lib Function List

def Predictor.globalHistory : Predictor → Option Nat
  | Local _ => none
  | Tournament bp => some bp.globalHistory

namespace ReturnAddrStack

variable {r r' : ReturnAddrStack} {k : Int} {j addr : Nat}

/-- The index `j` below the top. -/
def below (r : ReturnAddrStack) (j : Nat) : Nat := if j ≤ r.tos then r.tos - j else r.tos + r.numEntries - j

/-- The same top, and the same entries down to `k` below it. -/
structure Near (k : Int) (r r' : ReturnAddrStack) : Prop where
  num : r'.numEntries = r.numEntries
  tos : r'.tos = r.tos
  entry : ∀ j : Nat, j ≤ k → r'.addrStack (r.below j) = r.addrStack (r.below j)

theorem below_pop (h : j + 1 < r.numEntries) : r.pop.below j = r.below (j + 1) := by
  simp only [below, pop, decrTos]
  split_ifs <;> omega

theorem below_push (r : ReturnAddrStack) (addr : Nat) (h : j + 1 < r.numEntries) :
    (r.push addr).below (j + 1) = r.below j ∧ r.below j ≠ r.incrTos := by
  simp only [below, push, incrTos]
  split_ifs <;> omega

/-- A call is undone: it has not overwritten the entries below. -/
theorem Near.pop (h : Near (k + 1) (r.push addr) r') (hk : k + 1 < r.numEntries) : Near k r r'.pop := by
  have htos : r'.tos = r.incrTos := h.tos
  have hnum : r'.numEntries = r.numEntries := h.num
  refine ⟨hnum, ?_, fun j hj => ?_⟩
  · show r'.decrTos = r.tos
    rw [decrTos, htos, hnum, incrTos]
    by_cases ht : r.tos + 1 = r.numEntries
    · rw [if_pos ht, if_pos rfl, ← ht, Nat.add_sub_cancel]
    · rw [if_neg ht, if_neg (Nat.succ_ne_zero _), Nat.add_sub_cancel]
  · have hb := below_push r addr (j := j) (by omega)
    have he := h.entry (j + 1) (by omega)
    rw [hb.1] at he
    exact he.trans (update_of_ne hb.2 _ _)

/-- A return is undone. -/
theorem Near.restore (h : Near (k - 1) r.pop r') (hk : k < r.numEntries) : Near k r (r'.restore r.tos r.top) := by
  refine ⟨h.num, rfl, fun j hj => ?_⟩
  show update r'.addrStack r.tos r.top (r.below j) = _
  by_cases ht : r.below j = r.tos
  · rw [ht, update_self]
    rfl
  · rw [update_of_ne ht]
    cases j with
    | zero => exact absurd (if_pos (Nat.zero_le _)) ht
    | succ j => exact below_pop (r := r) (j := j) (by omega) ▸ h.entry j (by omega)

end ReturnAddrStack

open ReturnAddrStack

namespace BPredUnit

variable {u v w w' : BPredUnit} {inst : DynInst} {PC tid n target : Nat} {taken : Bool} {l : List PredictorHistory}

/-- The calls in excess of the returns. -/
def excess (l : List PredictorHistory) : Int := l.countP (·.wasCall) - l.countP (·.usedRAS)

theorem BPSquash_direction {bpHistory : Option BPHistory} {p p' : Predictor}
    (h : u.direction inst PC = .ok (taken, bpHistory, p)) (hp : p'.globalHistory = p.globalHistory) :
    ∃ q, p'.BPSquash bpHistory = .ok q ∧ q.globalHistory = u.predictor.globalHistory := by
  rw [direction] at h
  generalize u.predictor = q at h ⊢
  cases q with
  | Local bp =>
    obtain ⟨rfl, rfl⟩ : bpHistory = none ∧ p = .Local bp := by
      split at h <;> cases h <;> exact ⟨rfl, rfl⟩
    cases p' with
    | Local bp' => exact ⟨_, rfl, rfl⟩
    | Tournament bp' => cases hp
  | Tournament bp =>
    obtain ⟨b, bp₁, rfl, hb, rfl⟩ : ∃ b bp₁, bpHistory = some b ∧ b.globalHistory = bp.globalHistory ∧
        p = .Tournament bp₁ := by
      split at h
      · cases h
        exact ⟨_, _, rfl, rfl, rfl⟩
      · obtain ⟨⟨b, c, bp'⟩, hl, h⟩ := of_bind h
        cases h
        obtain ⟨-, hl⟩ := of_ensure hl
        cases hl
        exact ⟨_, _, rfl, rfl, rfl⟩
    cases p' with
    | Local bp' => cases hp
    | Tournament bp' => exact ⟨_, rfl, congrArg some hb⟩

/-- The turn of the loop of `squash` for a record leads back to the stack before it. -/
theorem near_findTarget {e e' : PredictorHistory} {ras r : ReturnAddrStack}
    (h : u.findTarget inst PC tid e = .ok (taken, target, e', ras)) (hc : e.wasCall = false) (hr : e.usedRAS = false) :
    ras.numEntries = (u.RAS tid).numEntries ∧
      (excess l < (u.RAS tid).numEntries → excess (e' :: l) < (u.RAS tid).numEntries → Near (excess (e' :: l)) ras r →
        Near (excess l) (u.RAS tid)
          (if e'.usedRAS then r.restore e'.RASIndex e'.RASTarget else if e'.wasCall then r.pop else r)) := by
  have hcons (e : PredictorHistory) : excess (e :: l) = excess l + (e.wasCall.toNat - e.usedRAS.toNat) := by
    simp only [excess, countP_cons]
    cases e.wasCall <;> cases e.usedRAS <;> simp <;> omega
  unfold findTarget at h
  dsimp only at h
  split at h
  · split at h
    · obtain ⟨-, h⟩ := of_ensure h
      cases h
      refine ⟨rfl, fun hl he hn => ?_⟩
      rw [hcons, hc] at hn
      exact .restore hn hl
    · obtain ⟨rfl, rfl⟩ : e' = { e with wasCall := inst.isCall } ∧
          ras = if inst.isCall then (u.RAS tid).push (PC + u.rasOffset) else u.RAS tid := by
        split at h <;> cases h <;> exact ⟨rfl, rfl⟩
      rw [hcons]
      cases inst.isCall with
      | false => exact ⟨rfl, fun _ _ hn => by simpa [hr] using hn⟩
      | true =>
        refine ⟨rfl, fun _ he hn => ?_⟩
        simp only [hr] at he hn ⊢
        exact .pop hn he
  · cases h
    refine ⟨rfl, fun hl he hn => ?_⟩
    rw [hcons, hr] at hn
    simpa [hc, hr] using hn

/-- The same records and global history, and the same stack down to `k` below the top. -/
structure Like (tid : Nat) (k : Int) (u v : BPredUnit) : Prop where
  predHist : v.predHist tid = u.predHist tid
  globalHistory : v.predictor.globalHistory = u.predictor.globalHistory
  ras : Near k (u.RAS tid) (v.RAS tid)

theorem exists_undo (h : w.predict inst PC tid = .ok (taken, target, w')) :
    ∃ e, w'.predHist tid = e :: w.predHist tid ∧ e.seqNum = inst.seqNum ∧
      (w'.RAS tid).numEntries = (w.RAS tid).numEntries ∧ ∀ {l v}, excess l < (w.RAS tid).numEntries →
        excess (e :: l) < (w.RAS tid).numEntries → Like tid (excess (e :: l)) w' v →
        ∃ v', v.undo tid e = .ok v' ∧ Like tid (excess l) w v' := by
  obtain ⟨⟨predTaken, bpHistory, predictor⟩, hd, h⟩ := of_bind h
  obtain ⟨⟨taken, target, e, ras⟩, hf, h⟩ := of_bind h
  cases h
  obtain ⟨hseq, -, hb, -⟩ := findTarget_eq_ok hf
  refine ⟨_, update_self _ _ _, hseq, ?_, fun {l v} hl he hv => ?_⟩
  · dsimp only
    rw [update_self]
    exact (near_findTarget (l := []) (r := ras) hf rfl rfl).1
  · obtain ⟨q, hq, hg⟩ := BPSquash_direction hd hv.globalHistory
    obtain ⟨hh, -, hn⟩ := hv
    dsimp only at hh hn
    rw [update_self] at hh hn
    refine ⟨_, (by rw [undo, hb, hq]; rfl), ⟨?_, hg, ?_⟩⟩ <;> dsimp only <;> rw [update_self]
    · rw [hh, tail_cons]
    · exact (near_findTarget hf rfl rfl).2 hl he hn

/-- The records `l` are those since `u`, and lead back to it. -/
structure Undoes (tid n : Nat) (u w : BPredUnit) (l : List PredictorHistory) : Prop where
  predHist : w.predHist tid = l ++ u.predHist tid
  seqNum : ∀ e ∈ l, n < e.seqNum
  bound : excess l < (w.RAS tid).numEntries
  num : (w.RAS tid).numEntries = (u.RAS tid).numEntries
  undo : ∀ {v}, Like tid (excess l) w v → ∃ v', l.foldlM (fun u e => u.undo tid e) v = .ok v' ∧ Like tid 0 u v'

/-- A prediction of a branch behind `n`: since `u`, fewer calls in excess than the stack has entries. -/
def Predicts (tid n : Nat) (u w : BPredUnit) (a : DynInst × Nat) (w' : BPredUnit) : Prop :=
  n < a.1.seqNum ∧ (∃ taken target, w.predict a.1 a.2 tid = .ok (taken, target, w')) ∧
    ∀ l, w'.predHist tid = l ++ u.predHist tid → excess l < (u.RAS tid).numEntries

theorem Undoes.predicts {a : DynInst × Nat} (h : Undoes tid n u w l) (hp : Predicts tid n u w a w') :
    ∃ e, Undoes tid n u w' (e :: l) := by
  obtain ⟨hn, ⟨taken, target, hp⟩, hb⟩ := hp
  obtain ⟨e, hw', hseq, hnum, hback⟩ := exists_undo hp
  have hl : w'.predHist tid = e :: l ++ u.predHist tid := by rw [hw', h.predHist, cons_append]
  have hb := hb _ hl
  refine ⟨e, hl, forall_mem_cons.2 ⟨hseq ▸ hn, h.seqNum⟩, ?_, hnum.trans h.num, fun {v} hv => ?_⟩
  · rw [hnum, h.num]
    exact hb
  · obtain ⟨v₁, hv₁, hlike⟩ := hback h.bound (h.num ▸ hb) hv
    obtain ⟨v₂, hv₂, hlike⟩ := h.undo hlike
    exact ⟨v₂, by rw [foldlM_cons, hv₁]; exact hv₂, hlike⟩

/-- A squash of all predictions of a run, and of no record before it. -/
theorem squash_restores {as : List (DynInst × Nat)} (h0 : 0 < (u.RAS tid).numEntries)
    (hold : ∀ e ∈ (u.predHist tid).head?, e.seqNum ≤ n) (h : Run (Predicts tid n u) u as w) :
    ∃ v, w.squash tid n = .ok v ∧ v.predHist tid = u.predHist tid ∧ (v.RAS tid).tos = (u.RAS tid).tos ∧
      (v.RAS tid).top = (u.RAS tid).top ∧ v.predictor.globalHistory = u.predictor.globalHistory := by
  obtain ⟨l, hl⟩ : ∃ l, Undoes tid n u w l := by
    refine h.invariant (I := fun w => ∃ l, Undoes tid n u w l) ⟨[], rfl, nofun, ?_, rfl, fun hv => ⟨_, rfl, hv⟩⟩
      fun ⟨l, hl⟩ hs => (hl.predicts hs).imp' _ fun _ h => h
    exact Int.natCast_pos.2 h0
  have hlike : Like tid (excess l) w w := ⟨rfl, rfl, rfl, rfl, fun _ _ => rfl⟩
  obtain ⟨v, hv, hlike⟩ := hl.undo hlike
  have htake : (w.predHist tid).takeWhile (fun e => decide (n < e.seqNum)) = l := by
    rw [hl.predHist, takeWhile_append_of_pos fun e he => decide_eq_true (hl.seqNum e he)]
    cases hu : u.predHist tid with
    | nil => exact append_nil l
    | cons e es =>
      rw [takeWhile_cons_of_neg (by simpa using hold e (by rw [hu]; rfl)), append_nil]
  refine ⟨v, by rw [squash, htake]; exact hv, hlike.predHist, hlike.ras.tos, ?_, hlike.globalHistory⟩
  rw [top, hlike.ras.tos]
  exact hlike.ras.entry 0 (Int.le_refl 0)

/-- A call and two returns are squashed. -/
theorem squash_restores_fresh : ∃ w, Run (Predicts 0 0 fresh) fresh
      [(⟨1, true, false, true⟩, 4), (⟨2, true, true, false⟩, 64), (⟨3, true, true, false⟩, 8)] w ∧
    (w.RAS 0).tos = 15 ∧ w.predictor.globalHistory = some 3 ∧ ∃ v, w.squash 0 0 = .ok v ∧ v.predHist 0 = [] ∧
      (v.RAS 0).tos = 0 ∧ (v.RAS 0).top = 0 ∧ v.predictor.globalHistory = some 0 := by
  obtain ⟨w, h, ht, hg⟩ : ∃ w, Run (Predicts 0 0 fresh) fresh
      [(⟨1, true, false, true⟩, 4), (⟨2, true, true, false⟩, 64), (⟨3, true, true, false⟩, 8)] w ∧
      (w.RAS 0).tos = 15 ∧ w.predictor.globalHistory = some 3 := by
    refine ⟨_, ((Run.nil.snoc ⟨by decide, ⟨_, _, rfl⟩, fun l hl => ?_⟩).snoc
      ⟨by decide, ⟨_, _, rfl⟩, fun l hl => ?_⟩).snoc ⟨by decide, ⟨_, _, rfl⟩, fun l hl => ?_⟩, rfl, rfl⟩
    all_goals
      obtain rfl := hl.trans (append_nil l)
      decide
  exact ⟨w, h, ht, hg, squash_restores (by decide) (fun e he => by cases he) h⟩

/-- An older record is squashed too, if its number is behind the one of the squash. -/
theorem squash_older : ∃ u w v taken target, fresh.call (.predict { seqNum := 5 } 4 0) = .ok u ∧
    u.predict { seqNum := 6 } 4 0 = .ok (taken, target, w) ∧ w.squash 0 3 = .ok v ∧
    v.predHist 0 ≠ u.predHist 0 :=
  ⟨_, _, _, _, _, rfl, rfl, rfl, nofun⟩

end BPredUnit

end M5.Cpu.Pred
