import M5.Lib.Check
import M5.Lib.Run

/-!
# The tournament predictor

`TournamentBP` of `cpu/pred/tournament.cc`: a local and a global predictor, and a predictor that chooses between them.
The global history is shifted when a branch is predicted, and put back when the branch is squashed; the counters are
trained when the branch is committed or has been mispredicted.
-/

namespace M5.Cpu.Pred

open M5.Lib Function

/-- The ways the predictor stops; `dangling` is the use of a history that has been deleted, and `undefined` a shift that
the language does not define. -/
inductive Stop
  | assert | fatal | dangling | undefined
deriving DecidableEq

structure SatCounter where
  maxVal : Nat
  counter : Nat := 0
deriving DecidableEq

namespace SatCounter

/-- `setBits`, of a counter as it is built; `maxVal` has eight bits. -/
def setBits (bits : Nat) : SatCounter := { maxVal := (2 ^ bits - 1) % 2 ^ 8 }

def increment (c : SatCounter) : SatCounter := if c.counter < c.maxVal then { c with counter := c.counter + 1 } else c

def decrement (c : SatCounter) : SatCounter := if 0 < c.counter then { c with counter := c.counter - 1 } else c

/-- Towards the outcome of a branch. -/
def train (taken : Bool) (c : SatCounter) : SatCounter := if taken then c.increment else c.decrement

end SatCounter

def adjust (i : Nat) (f : SatCounter → SatCounter) (ctrs : Nat → SatCounter) : Nat → SatCounter :=
  update ctrs i (f (ctrs i))

structure BPHistory where
  globalHistory : Nat
  localPredTaken : Bool
  globalPredTaken : Bool
deriving DecidableEq

/-- The choice goes to the predictor that was right, if one was wrong. -/
def BPHistory.choose (h : BPHistory) (taken : Bool) (c : SatCounter) : SatCounter :=
  if h.localPredTaken ≠ h.globalPredTaken then
    if h.localPredTaken = taken then c.decrement else if h.globalPredTaken = taken then c.increment else c
  else c

structure TournamentBP where
  localPredictorSize : Nat
  localPredictorMask : Nat
  localHistoryTableSize : Nat
  globalPredictorSize : Nat
  globalHistoryMask : Nat
  instShiftAmt : Nat
  threshold : Nat
  localCtrs : Nat → SatCounter
  localHistoryTable : Nat → Nat := fun _ => 0
  globalCtrs : Nat → SatCounter
  choiceCtrs : Nat → SatCounter
  globalHistory : Nat := 0

namespace TournamentBP

def isPowerOf2 (n : Nat) : Bool := n ≠ 0 ∧ n &&& (n - 1) = 0

/-- The constructor. The choice predictor has the size of the global predictor; `(1 << bits) - 1` is an `int`. -/
def create (localPredictorSize localCtrBits localHistoryTableSize localHistoryBits globalPredictorSize globalCtrBits
    globalHistoryBits _choicePredictorSize choiceCtrBits instShiftAmt : Nat) : Except Stop TournamentBP := do
  ensure .undefined (0 < localCtrBits ∧
    ∀ bits ∈ [localCtrBits, localHistoryBits, globalCtrBits, globalHistoryBits, choiceCtrBits], bits < 31)
  ensure .fatal (isPowerOf2 localPredictorSize)
  ensure .fatal (isPowerOf2 localHistoryTableSize)
  ensure .fatal (isPowerOf2 globalPredictorSize)
  .ok {
    localPredictorSize, localHistoryTableSize, globalPredictorSize, instShiftAmt
    localPredictorMask := localPredictorSize - 1
    globalHistoryMask := 2 ^ globalHistoryBits - 1
    threshold := 2 ^ (localCtrBits - 1) - 1
    localCtrs := fun _ => .setBits localCtrBits
    globalCtrs := fun _ => .setBits globalCtrBits
    choiceCtrs := fun _ => .setBits choiceCtrBits }

variable (bp : TournamentBP)

variable (addr : Nat)

def calcLocHistIdx : Nat := (addr >>> bp.instShiftAmt) &&& (bp.localHistoryTableSize - 1)

def localPredictorIdx : Nat := bp.localHistoryTable (bp.calcLocHistIdx addr) &&& bp.localPredictorMask

def updateGlobalHist (taken : Bool) : TournamentBP :=
  { bp with globalHistory := (bp.globalHistory <<< 1 ||| taken.toNat) &&& bp.globalHistoryMask }

def InRange : Prop :=
  bp.globalHistory < bp.globalPredictorSize ∧ bp.calcLocHistIdx addr < bp.localHistoryTableSize ∧
    bp.localPredictorIdx addr < bp.localPredictorSize

instance (addr : Nat) : Decidable (bp.InRange addr) := inferInstanceAs (Decidable (_ ∧ _))

def predicts (c : SatCounter) : Bool := decide (bp.threshold < c.counter)

def lookup : Except Stop (Bool × BPHistory × TournamentBP) := do
  ensure .assert (bp.InRange addr)
  let localPrediction := bp.predicts (bp.localCtrs (bp.localPredictorIdx addr))
  let globalPrediction := bp.predicts (bp.globalCtrs bp.globalHistory)
  let choicePrediction := bp.predicts (bp.choiceCtrs bp.globalHistory)
  let taken := if choicePrediction then globalPrediction else localPrediction
  .ok (taken, ⟨bp.globalHistory, localPrediction, globalPrediction⟩, bp.updateGlobalHist taken)

def uncondBr : BPHistory × TournamentBP := (⟨bp.globalHistory, true, true⟩, bp.updateGlobalHist true)

def update (taken : Bool) (history : Option BPHistory) : Except Stop TournamentBP := do
  ensure .assert (bp.InRange addr)
  let idx := bp.calcLocHistIdx addr
  .ok { bp with
    choiceCtrs := history.elim bp.choiceCtrs fun h => adjust bp.globalHistory (h.choose taken) bp.choiceCtrs
    localCtrs := adjust (bp.localPredictorIdx addr) (.train taken) bp.localCtrs
    globalCtrs := adjust bp.globalHistory (.train taken) bp.globalCtrs
    localHistoryTable := Function.update bp.localHistoryTable idx
      ((bp.localHistoryTable idx <<< 1 ||| taken.toNat) % 2 ^ 32) }

def squash (history : BPHistory) : TournamentBP := { bp with globalHistory := history.globalHistory }

end TournamentBP

/-! ## Branches in flight -/

/-- A branch that has been predicted. The source does not have `since`, the directions that have been predicted since
its lookup, its own included, and have not been undone; the last one comes first. -/
structure Branch where
  addr : Nat
  history : BPHistory
  since : List Bool

/-- The calls; those that end a branch are made with its history, and name its place among the branches in flight. -/
inductive Call
  | lookup (addr : Nat)
  | uncondBr (addr : Nat)
  | update (i : Nat) (taken : Bool)
  | squash (i : Nat)

/-- The predictor and the branches in flight, the youngest first. -/
structure Flight where
  bp : TournamentBP
  branches : List Branch := []

namespace Flight

section

variable (s : Flight)

def predicted (addr : Nat) (history : BPHistory) (taken : Bool) (bp : TournamentBP) : Flight :=
  ⟨bp, ⟨addr, history, [taken]⟩ :: s.branches.map fun b => { b with since := taken :: b.since }⟩

def branch (i : Nat) : Except Stop Branch := s.branches[i]?.elim (.error .dangling) .ok

def call : Call → Except Stop Flight
  | .lookup addr => do
    let (taken, history, bp) ← s.bp.lookup addr
    .ok (s.predicted addr history taken bp)
  | .uncondBr addr => .ok (s.predicted addr s.bp.uncondBr.1 true s.bp.uncondBr.2)
  | .update i taken => do
    let b ← s.branch i
    let bp ← s.bp.update b.addr taken (some b.history)
    .ok ⟨bp, s.branches.eraseIdx i⟩
  | .squash i => do
    let b ← s.branch i
    .ok ⟨s.bp.squash b.history,
      (s.branches.eraseIdx i).map fun c => { c with since := c.since.drop b.since.length }⟩

/-- An `update` adjusts the counters at the index that is recorded. -/
def Trains (b : Branch) (taken : Bool) (t : Flight) : Prop :=
  t.bp.globalCtrs = adjust b.history.globalHistory (.train taken) s.bp.globalCtrs ∧
    t.bp.choiceCtrs = adjust b.history.globalHistory (b.history.choose taken) s.bp.choiceCtrs

end

/-- The branch that is squashed is the youngest in flight. -/
def Youngest : Call → Prop
  | .squash i => i = 0
  | _ => True

def shiftIn (mask : Nat) (ds : List Bool) (h : Nat) : Nat := ds.foldr (fun d g => (g <<< 1 ||| d.toNat) &&& mask) h

end Flight

/-- The directions predicted since the branch give its history again. -/
def Branch.Recurs (b : Branch) (mask : Nat) : Prop :=
  Flight.shiftIn mask b.since b.history.globalHistory = b.history.globalHistory

namespace Flight

variable {s t : Flight} {cs : List Call} {c : Call} {bp : TournamentBP} {b : Branch} {i : Nat} {taken : Bool}

/-- The younger branch was predicted with the history that the directions between the two had left. -/
def Behind (mask : Nat) (b c : Branch) : Prop :=
  b.since.length ≤ c.since.length ∧
    b.history.globalHistory = shiftIn mask (c.since.drop b.since.length) c.history.globalHistory

/-- The global history is that of each branch with the directions since. -/
structure Inv (s : Flight) : Prop where
  now : ∀ b ∈ s.branches, s.bp.globalHistory = shiftIn s.bp.globalHistoryMask b.since b.history.globalHistory
  order : s.branches.Pairwise (Behind s.bp.globalHistoryMask)

theorem branch_eq_ok (h : s.branch i = .ok b) : s.branches[i]? = some b := by
  unfold branch at h
  cases hb : s.branches[i]? with
  | none =>
    rw [hb] at h
    cases h
  | some c =>
    rw [hb] at h
    cases h
    rfl

theorem Inv.predicted (h : s.Inv) {addr : Nat} {history : BPHistory} (hh : history.globalHistory = s.bp.globalHistory)
    (hm : bp.globalHistoryMask = s.bp.globalHistoryMask)
    (hg : bp.globalHistory = (s.bp.globalHistory <<< 1 ||| taken.toNat) &&& bp.globalHistoryMask) :
    (s.predicted addr history taken bp).Inv := by
  refine ⟨fun b hb => ?_, List.pairwise_cons.2 ⟨fun b hb => ?_, ?_⟩⟩
  · rcases List.mem_cons.1 hb with rfl | hb
    · exact hg.trans (by rw [← hh]; rfl)
    · obtain ⟨c, hc, rfl⟩ := List.mem_map.1 hb
      exact hg.trans (by rw [h.now c hc, ← hm]; rfl)
  · obtain ⟨c, hc, rfl⟩ := List.mem_map.1 hb
    refine ⟨Nat.le_add_left .., ?_⟩
    rw [hh, h.now c hc, ← hm]
    rfl
  · refine List.pairwise_map.2 (h.order.imp fun {b c} hbc => ⟨Nat.succ_le_succ hbc.1, ?_⟩)
    rw [List.length_cons, List.drop_succ_cons]
    exact hm ▸ hbc.2

/-- The youngest branch is undone: the history is the one that it was predicted with. -/
theorem Inv.squash {rest : List Branch} (h : s.Inv) (hb : s.branches = b :: rest) :
    Inv ⟨s.bp.squash b.history, rest.map fun c => { c with since := c.since.drop b.since.length }⟩ := by
  have ho := h.order
  rw [hb] at ho
  obtain ⟨hbr, hr⟩ := List.pairwise_cons.1 ho
  refine ⟨fun c hc => ?_, List.pairwise_map.2 ?_⟩
  · obtain ⟨c, hcr, rfl⟩ := List.mem_map.1 hc
    exact (hbr c hcr).2
  · refine hr.imp_of_mem fun {c d} hc hd hcd => ⟨?_, ?_⟩
    · have := hcd.1
      simp only [List.length_drop]
      omega
    · have hle := (hbr c hc).1
      rw [List.length_drop, List.drop_drop, Nat.add_sub_cancel' hle]
      exact hcd.2

/-- A squash of the youngest puts back the history before it. -/
theorem Inv.step (h : s.Inv) (hy : Youngest c) (hc : s.call c = .ok t) : t.Inv := by
  cases c with
  | lookup addr =>
    obtain ⟨⟨taken, history, bp⟩, hl, rfl⟩ := of_map hc
    obtain ⟨-, hl⟩ := of_ensure hl
    cases hl
    exact h.predicted rfl rfl rfl
  | uncondBr addr =>
    cases hc
    exact h.predicted rfl rfl rfl
  | update i taken =>
    obtain ⟨b, -, hc⟩ := of_bind hc
    obtain ⟨bp, hu, rfl⟩ := of_map hc
    cases (of_ensure hu).2
    exact ⟨fun c hc => h.now c (List.mem_of_mem_eraseIdx hc), h.order.sublist (List.eraseIdx_sublist ..)⟩
  | squash i =>
    obtain ⟨b, hb, rfl⟩ := of_map hc
    obtain rfl : i = 0 := hy
    have hb := branch_eq_ok hb
    cases hl : s.branches with
    | nil =>
      rw [hl] at hb
      cases hb
    | cons b' rest =>
      rw [hl] at hb
      cases hb
      exact h.squash hl

/-- In every run that squashes the youngest branch in flight each time: a branch is updated with the index that it was
predicted with iff the directions since give its history again, and then the counters that it was predicted with are
adjusted. -/
theorem trains_recorded (h : Run (fun s c t => Youngest c ∧ s.call c = .ok t) ⟨bp, []⟩ cs s)
    (hb : s.branches[i]? = some b) (hu : s.call (.update i taken) = .ok t) :
    (s.bp.globalHistory = b.history.globalHistory ↔ b.Recurs s.bp.globalHistoryMask) ∧
      (b.Recurs s.bp.globalHistoryMask → s.Trains b taken t) := by
  have hi : s.Inv := h.invariant ⟨fun _ hb => (List.not_mem_nil hb).elim, .nil⟩ fun hx hs => hx.step hs.1 hs.2
  have hnow := hi.now b (List.mem_of_getElem? hb)
  refine ⟨by rw [hnow]; exact .rfl, fun hr => ?_⟩
  obtain ⟨b', hb', hu⟩ := of_bind hu
  cases (branch_eq_ok hb').symm.trans hb
  obtain ⟨bp', hbp, rfl⟩ := of_map hu
  cases (of_ensure hbp).2
  rw [Trains, ← hnow.trans hr]
  exact ⟨rfl, rfl⟩

/-- Branches that are predicted not taken leave the history at zero, and train its counters. -/
theorem trains_recorded_notTaken : ∃ bp, ∃ s t : Flight, TournamentBP.create 4 2 4 2 4 2 2 4 2 2 = .ok bp ∧
    Run (fun s c t => Youngest c ∧ s.call c = .ok t) ⟨bp, []⟩ [.lookup 4, .lookup 8, .uncondBr 12, .squash 0] s ∧
    s.branches[1]? = some ⟨4, ⟨0, false, false⟩, [false, false]⟩ ∧ s.call (.update 1 true) = .ok t ∧
    s.Trains ⟨4, ⟨0, false, false⟩, [false, false]⟩ true t := by
  have hrun : ∃ bp, ∃ s t : Flight, TournamentBP.create 4 2 4 2 4 2 2 4 2 2 = .ok bp ∧
      Run (fun s c t => s.call c = .ok t) ⟨bp, []⟩ [.lookup 4, .lookup 8, .uncondBr 12, .squash 0] s ∧
      s.branches[1]? = some ⟨4, ⟨0, false, false⟩, [false, false]⟩ ∧ s.call (.update 1 true) = .ok t ∧
      s.bp.globalHistoryMask = 3 :=
    ⟨_, _, _, rfl, .of_foldlM rfl, rfl, rfl, rfl⟩
  obtain ⟨bp, s, t, h0, hrun, hb, hu, hm⟩ := hrun
  have hrun := hrun.restrict (P := Youngest) (by simp [Youngest])
  exact ⟨bp, s, t, h0, hrun, hb, hu, (trains_recorded hrun hb hu).2 (by rw [hm]; rfl)⟩

/-- The branch at 4 is predicted with history 1, and its update trains the counters of history 2. -/
theorem not_trains : ∃ bp, ∃ s t : Flight, TournamentBP.create 4 2 4 2 4 2 2 4 2 2 = .ok bp ∧
    Run (fun s c t => s.call c = .ok t) ⟨bp, []⟩ [.uncondBr 0, .lookup 4] s ∧
    s.branches[0]? = some ⟨4, ⟨1, false, false⟩, [false]⟩ ∧ s.call (.update 0 true) = .ok t ∧
    ¬ s.Trains ⟨4, ⟨1, false, false⟩, [false]⟩ true t := by
  refine ⟨_, _, _, rfl, .of_foldlM rfl, rfl, rfl, fun h => ?_⟩
  exact absurd (congrArg SatCounter.counter (congrFun h.1 1)) (by decide)

end Flight

end M5.Cpu.Pred
