import M5.Lib.Lists
import M5.Ruby.Token.Conservation
import M5.Ruby.Token.DirValue
import M5.Ruby.Token.L1Value
import M5.Ruby.Token.L2Value

/-!
# MOESI_CMP_token: the owner token travels with valid data

The machines keep the owner and the value of every block, as long as there is no DMA and no machine slips: an L1 cache
or the L2 bank that gives the owner token to a starving reader must have another token to keep, and an L1 cache that has
collected tokens without data must not replace the entry before it has given all but one away.
-/

namespace M5.Ruby.Token

open M5.Lib List Bool

variable {n : Nat} {p : Params}

/-! ## Steps -/

section steps

variable {s s' : Block n} {d v mem : DataBlock} {i : Fin n}

theorem L1.owner_table (l : L1 n) (t : PersistentTable n) : owner { l with persistentTable := t } i = l.owner i := by
  refine eq_iff_iff.2 ⟨fun h => ?_, fun h => ?_⟩
  · obtain ⟨q, hq, ho⟩ := owner_eq_true h
    rw [owner_of_state (getState_table hq (State.readable_of_owner ho)), ho]
  · obtain ⟨q, hq, ho⟩ := owner_eq_true h
    have hq' : getState { l with persistentTable := t } i = .ok q :=
      getState_table hq (State.readable_of_owner ho)
    rw [owner_of_state hq', ho]

theorem L1.Good.table {l : L1 n} (h : l.Good v mem i) (t : PersistentTable n) :
    Good v mem i { l with persistentTable := t } := by
  intro q hq
  by_cases hr : q.readable
  · exact h q (getState_table hq hr)
  · exact ⟨fun hr' => absurd hr' hr, fun ho => absurd (State.readable_of_owner ho) hr⟩

theorem L2.state_table (l : L2 n) (t : PersistentTable n) :
    getState { l with persistentTable := t } = l.getState ∨
      (getState { l with persistentTable := t }).readable = false ∧ l.getState.readable = false := by
  rcases Option.eq_none_or_eq_some l.entry with he | ⟨e, he⟩
  case inr => exact .inl (by simp only [getState, he])
  case inl =>
    have h1 := getState_of_none he
    have h2 : getState { l with persistentTable := t } = .I_L ∨ getState { l with persistentTable := t } = .NP :=
      getState_of_none he
    refine .inr ⟨?_, ?_⟩
    · rcases h2 with h | h <;> rw [h] <;> rfl
    · rcases h1 with h | h <;> rw [h] <;> rfl

theorem L2.owner_of_unreadable {q : State} (h : q.readable = false) : q.owner = false :=
  eq_false_iff.2 fun ho => nomatch h.symm.trans (State.readable_of_owner ho)

theorem L2.owner_table (l : L2 n) (t : PersistentTable n) :
    (getState { l with persistentTable := t }).owner = l.getState.owner := by
  rcases state_table l t with h | ⟨h1, h2⟩
  · rw [h]
  · rw [owner_of_unreadable h1, owner_of_unreadable h2]

theorem L2.Good.table {l : L2 n} (h : l.Good v mem) (t : PersistentTable n) :
    Good v mem { l with persistentTable := t } := by
  rcases state_table l t with hq | ⟨hq, -⟩
  · rw [Good, hq]
    exact h
  · rw [Good, hq, owner_of_unreadable hq]
    exact ⟨by simp, by simp⟩

theorem Block.Valued.arrange (h : s.Valued d) (ha : s.Arrange s') : s'.Valued d := by
  obtain ⟨t2, h2⟩ := ha.l2
  obtain ⟨t3, h3⟩ := ha.dir
  have hdata : s'.dir.dataBlk = s.dir.dataBlk := by rw [h3]
  refine ⟨?_, fun i => ?_, ?_, ?_, fun m hm => ?_, ?_, ?_⟩
  · have h1 : ∀ i, owners.l1 i (s'.l1 i) = owners.l1 i (s.l1 i) := by
      intro i
      obtain ⟨t, ht⟩ := ha.l1 i
      rw [ht]
      exact congrArg toInt (L1.owner_table _ t)
    have h2' : owners.l2 s'.l2 = owners.l2 s.l2 := by
      rw [h2]
      exact congrArg toInt (L2.owner_table _ t2)
    have h3' : owners.dir s'.dir = owners.dir s.dir := by
      rw [h3]
      rfl
    rw [← h.one]
    simp only [weigh, h1, h2', h3', (ha.responses.map owners.msg).sum_eq]
  · obtain ⟨t, ht⟩ := ha.l1 i
    rw [ha.log, hdata, ht]
    exact (h.l1 i).table t
  · rw [ha.log, hdata, h2]
    exact h.l2.table t2
  · rw [ha.log, h3]
    exact h.dir
  · rw [ha.log, hdata]
    exact h.response m (ha.responses.mem_iff.1 hm)
  · rw [h3]
    exact h.base
  · rw [ha.dma]
    exact h.dma

/-- The label is that of a DMA controller. -/
def Label.isDMA : Label n → Bool
  | .dma _ => true
  | _ => false

/-- No DMA controller sends a request, and no machine slips. -/
def Block.Careful (s : Block n) (l : Label n) : Prop := l.isDMA = false ∧ s.slips l = false

/-- A careful step keeps the value with the owner. -/
theorem Block.Valued.handle {l : Label n} (hN : 1 ≤ p.nTokens) (hc : s.Conserved p) (h : s.Valued d) (hl : s.Careful l)
    (hs : s.handle p l = .ok s') : s'.Valued d := by
  rcases handle_cases hs with ha | ⟨m, rfl⟩ | ⟨i, src, write, ha, ho, hsl, ht⟩ | ⟨src, ha, ho, hsl, ht⟩ |
    ⟨src, ha, ho, ht⟩
  · exact h.arrange ha
  · cases hl.1
  · refine L1.valued_trigger hN (hc.arrange ha) (h.arrange ha) ho (eq_false_iff.2 fun hsl' => ?_) ht
    nomatch hl.2.symm.trans (hsl hsl')
  · refine L2.valued_trigger hN (hc.arrange ha) (h.arrange ha) ho (eq_false_iff.2 fun hsl' => ?_) ht
    nomatch hl.2.symm.trans (hsl hsl')
  · exact Dir.valued_trigger (hc.arrange ha) (h.arrange ha) ho ht

theorem Block.Valued.init (hp : 0 < p.maxTokens) (d : DataBlock) : (Block.init (n := n) p d).Valued d := by
  have h1 : ∀ (i : Fin n) (q : L1.State), L1.getState ({} : L1 n) i = .ok q → q.readable = false ∧ q.owner = false := by
    intro i q hq
    rcases L1.getState_of_none rfl rfl rfl hq with rfl | rfl <;> exact ⟨rfl, rfl⟩
  refine ⟨?_, fun i q hq => ?_, ⟨nofun, nofun⟩, fun _ => ⟨rfl, hp⟩, fun _ h => absurd h not_mem_nil, ⟨rfl, rfl⟩, rfl⟩
  · have h0 : ∀ i : Fin n, owners.l1 i ({} : L1 n) = 0 := by
      intro i
      have : L1.owner ({} : L1 n) i = false := by
        refine eq_false_iff.2 fun ho => ?_
        obtain ⟨q, hq, ho⟩ := L1.owner_eq_true ho
        nomatch (h1 i q hq).2.symm.trans ho
      simp only [owners, this, toInt_false]
    simp only [weigh, Block.init, h0, Finset.sum_const_zero]
    rfl
  · obtain ⟨hr, ho⟩ := h1 i q hq
    rw [hr, ho]
    exact ⟨nofun, nofun⟩

end steps

/-! ## The owner -/

/-- A place that can have the owner token; messages by their position. -/
inductive Place (n : Nat)
  | l1 (i : Fin n)
  | l2
  | dir
  | msg (k : Nat)

namespace Block

/-- The place is in an owner-like state, or is a message with the owner token. -/
def owns (s : Block n) : Place n → Bool
  | .l1 i => (s.l1 i).owner i
  | .l2 => s.l2.getState.owner
  | .dir => s.dir.getState.owner
  | .msg k => s.responses[k]?.elim false (·.type.owner)

/-- The place has the data `v`, with the dirty bit. -/
def HasDirty (v : DataBlock) (s : Block n) : Place n → Prop
  | .l1 i => ∃ e, (s.l1 i).getCacheEntry = .ok e ∧ e.dataBlk = v ∧ e.dirty
  | .l2 => ∃ e, s.l2.getL2CacheEntry = .ok e ∧ e.dataBlk = v ∧ e.dirty
  | .dir => False
  | .msg k => ∃ m, s.responses[k]? = some m ∧ m.type.hasData ∧ m.dataBlk = v ∧ m.dirty

def places (s : Block n) : List (Place n) :=
  (finRange n).map .l1 ++ [.l2, .dir] ++ (range s.responses.length).map .msg

variable {s : Block n} {d : DataBlock}

theorem mem_places_of_owns {x : Place n} (h : s.owns x) : x ∈ s.places := by
  simp only [places, mem_append, mem_map, mem_finRange, mem_range]
  cases x with
  | l1 i => exact .inl (.inl ⟨i, trivial, rfl⟩)
  | l2 => simp
  | dir => simp
  | msg k =>
    refine .inr ⟨k, ?_, rfl⟩
    by_contra hk
    rw [owns, getElem?_eq_none (Nat.not_lt.1 hk)] at h
    cases h

theorem weigh_owners : s.weigh owners = s.places.countP s.owns := by
  have h1 : ∑ i, owners.l1 i (s.l1 i) = ((finRange n).map .l1).countP s.owns := by
    rw [countP_map, ← sum_toInt]
    rfl
  have h2 : (s.responses.map owners.msg).sum = ((range s.responses.length).map .msg).countP s.owns := by
    rw [countP_map]
    exact (sum_toInt (fun m : ResponseMsg n => m.type.owner) s.responses).trans
      (congrArg _ (countP_range (fun m : ResponseMsg n => m.type.owner) s.responses).symm)
  have h3 : owners.l2 s.l2 + owners.dir s.dir = ([.l2, .dir] : List (Place n)).countP s.owns := by
    rw [← sum_toInt]
    simp only [map_cons, map_nil, sum_cons, sum_nil, Int.add_zero]
    rfl
  rw [weigh, places, countP_append, countP_append, h2]
  omega

/-- The block has one owner, its copies and messages have the value `v`, and memory has it or the owner is dirty. -/
structure Upright (v : DataBlock) (s : Block n) : Prop where
  l1 : ∀ i q, (s.l1 i).getState i = .ok q → q.readable → ∃ e, (s.l1 i).getCacheEntry = .ok e ∧ e.dataBlk = v
  l2 : s.l2.getState.readable → ∃ e, s.l2.getL2CacheEntry = .ok e ∧ e.dataBlk = v
  response : ∀ m ∈ s.responses, m.type.hasData → m.dataBlk = v
  owner : ∃! x, s.owns x
  dirty : s.dir.dataBlk ≠ v → ∀ x, s.owns x → s.HasDirty v x

theorem exists_of_held {State : Type} {v mem : DataBlock} {valid own : Bool} {o : Option (Entry State)}
    (h : Held v mem valid own (o.map Entry.copy)) (hv : valid) :
    ∃ e, present o = .ok e ∧ e.dataBlk = v ∧ (own → mem ≠ v → e.dirty) := by
  obtain ⟨c, hc, hd⟩ := h.data hv
  obtain ⟨e, he, rfl⟩ := Option.map_eq_some_iff.1 hc
  refine ⟨e, present_eq_ok.2 he, hd, fun ho hm => ?_⟩
  obtain ⟨c, hc', ho⟩ := h.owner ho
  rw [hc] at hc'
  cases hc'
  exact ho.resolve_right hm

theorem Valued.hasDirty (h : s.Valued d) (hm : s.dir.dataBlk ≠ lastStore d s.log) {x : Place n} (hx : s.owns x) :
    s.HasDirty (lastStore d s.log) x := by
  cases x with
  | l1 i =>
    obtain ⟨q, hq, ho⟩ := L1.owner_eq_true hx
    obtain ⟨e, he, hv, hd⟩ := exists_of_held (h.l1 i q hq) (L1.State.readable_of_owner ho)
    exact ⟨e, he, hv, hd ho hm⟩
  | l2 =>
    obtain ⟨e, he, hv, hd⟩ := exists_of_held h.l2 (L2.State.readable_of_owner hx)
    exact ⟨e, he, hv, hd hx hm⟩
  | dir => exact hm (h.dir hx).1
  | msg k =>
    cases hk : s.responses[k]? with
    | none =>
      rw [owns, hk] at hx
      cases hx
    | some m =>
      rw [owns, hk] at hx
      have hgood := h.response m (mem_of_getElem? hk)
      obtain ⟨hd, ht⟩ := (hgood.owner hx).resolve_right hm
      have hdata : m.type.hasData := by
        replace hx : m.type.owner := hx
        revert hx ht
        cases m.type <;> simp [CoherenceResponseType.owner, CoherenceResponseType.hasData]
      exact ⟨m, hk, hdata, hgood.data hdata, hd⟩

theorem Valued.upright (h : s.Valued d) : s.Upright (lastStore d s.log) := by
  refine ⟨fun i q hq hr => ?_, fun hr => ?_, fun m hm hd => (h.response m hm).data hd, ?_, fun hm x => h.hasDirty hm⟩
  · obtain ⟨e, he, hv, -⟩ := exists_of_held (h.l1 i q hq) hr
    exact ⟨e, he, hv⟩
  · obtain ⟨e, he, hv, -⟩ := exists_of_held h.l2 hr
    exact ⟨e, he, hv⟩
  · have hone := h.one
    rw [weigh_owners] at hone
    obtain ⟨x, -, hx, hu⟩ := exists_of_countP_eq_one (Int.ofNat.inj hone)
    exact ⟨x, hx, fun y hy => hu y (mem_places_of_owns hy) hy⟩

end Block

namespace System

/-- A step without DMA and without a slip. -/
def CarefulStep (p : Params) (s : System n) (l : Nat × Label n) (s' : System n) : Prop :=
  (s.load l.1).Careful l.2 ∧ Step p s l s'

/-- In every state that is reached by careful steps each block has one owner, the readable copies and the messages with
data have the value of the last store, and where memory does not have it the owner has it, dirty. -/
theorem owner_token_valid {d : Nat → DataBlock} {s : System n} {ls : List (Nat × Label n)} (hN : 1 ≤ p.nTokens)
    (hp : 0 < p.maxTokens) (h : Run (CarefulStep p) (init p d) ls s) (a : Nat) :
    (s.blocks a).Upright (lastStore (d a) (s.blocks a).log) := by
  have hv : (s.blocks a).Conserved p ∧ (s.blocks a).Valued (d a) :=
    invariant_when (I := fun a b => b.Conserved p ∧ b.Valued (d a)) h (fun _ => ⟨.init hp _, .init hp _⟩)
      (fun _ _ _ _ hb => ⟨⟨hb.1.total, ⟨hb.1.nonneg.dcache, hb.1.nonneg.icache, hb.1.nonneg.l2, hb.1.nonneg.dir,
        hb.1.nonneg.response⟩, hb.1.l1, hb.1.l2, hb.1.dir⟩,
          ⟨hb.2.one, hb.2.l1, hb.2.l2, hb.2.dir, hb.2.response, hb.2.base,
        hb.2.dma⟩⟩)
      (fun _ _ _ _ hb hc hs => ⟨hb.1.handle hN hs, hb.2.handle hN hb.1 hc hs⟩) a
  exact hv.2.upright

def twoTokens : Params := { maxTokens := 2, nTokens := 1 }

def storeRun : List (Label 2) :=
  [.mandatory 0 .ST true fun _ _ => 1, .request 0, .globalRequest 0, .memory 0, .response 0 true fun _ _ => 1]

/-- One of two caches stores to a block, and then it is the owner, dirty. -/
theorem owner_token_valid_store : ∃ (s : System 2) (ls : List (Nat × Label 2)),
    Run (CarefulStep twoTokens) (init twoTokens fun _ _ => 0) ls s ∧ (s.blocks 0).owns (.l1 0) ∧
    (s.blocks 0).dir.dataBlk ≠ lastStore (fun _ => 0) (s.blocks 0).log ∧
    (s.blocks 0).HasDirty (lastStore (fun _ => 0) (s.blocks 0).log) (.l1 0) := by
  obtain ⟨b, hrun, hc⟩ := Run.exists_of_check (fun (b : Block 2) l => do
      ensure .assert (l.isDMA = false ∧ b.slips l = false)
      b.handle twoTokens l) of_ensure
    (.init twoTokens fun _ => 0) storeRun
    (fun b => b.owns (.l1 0) ∧ b.dir.dataBlk 0 ≠ lastStore (fun _ => 0) b.log 0) (by decide +kernel)
  have hr : Run (CarefulStep twoTokens) (init twoTokens fun _ _ => 0) (storeRun.map (0, ·))
      ((init twoTokens fun _ _ => 0).store 0 b) := run_of_block_when hrun
  have hne : b.dir.dataBlk ≠ lastStore (fun _ => 0) b.log := fun h => hc.2 (congrFun h 0)
  exact ⟨_, _, hr, hc.1, hne, (owner_token_valid (by decide) (by decide) hr 0).dirty hne _ hc.1⟩

/-- After the store the other cache reads the block and becomes its owner, and the first one reads it again and replaces
it; when it then starves for the block, the owner with its one token goes to a shared state. -/
def starveRun : List (Label 2) :=
  storeRun ++ [.request 0, .useTimer 0, .mandatory 1 .LD true id, .request 1, .response 0 true id, .useTimer 1,
    .mandatory 0 .LD true id, .request 2, .response 1 true id, .l1Replacement 0, .mandatory 0 .LD true id,
    .l1ReissueTimer 0, .persistent (.L1Cache 0) (.L1Cache 1)]

/-- A run without DMA after which nobody has the owner token, though memory does not have the last store. -/
theorem owner_token_lost : ∃ (s : System 2) (ls : List (Nat × Label 2)),
    Run (Step twoTokens) (init twoTokens fun _ _ => 0) ls s ∧ (∀ l ∈ ls, l.2.isDMA = false) ∧
    (s.blocks 0).dir.dataBlk ≠ lastStore (fun _ => 0) (s.blocks 0).log ∧ ∀ x, (s.blocks 0).owns x = false := by
  obtain ⟨b, hb, hc⟩ := Run.exists_of_check (Block.handle twoTokens) id (.init twoTokens fun _ => 0) starveRun
    (fun b => b.dir.dataBlk 0 ≠ lastStore (fun _ => 0) b.log 0 ∧ ∀ x ∈ b.places, !b.owns x) (by decide +kernel)
  refine ⟨_, _, run_of_block (a := 0) hb, ?_, fun h => hc.1 (congrFun h 0), fun x => ?_⟩
  · intro l hl
    obtain ⟨l', hl', rfl⟩ := mem_map.1 hl
    have hall : (starveRun.all fun l => !l.isDMA) := by decide
    simpa using all_eq_true.1 hall l' hl'
  · refine eq_false_iff.2 fun hx => ?_
    replace hx : b.owns x := hx
    have := hc.2 x (Block.mem_places_of_owns hx)
    rw [hx] at this
    cases this

end System

end M5.Ruby.Token
