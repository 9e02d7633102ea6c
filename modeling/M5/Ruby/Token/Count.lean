import M5.Ruby.Token.Steps
import Mathlib.Algebra.BigOperators.Fin
import Mathlib.Algebra.Order.BigOperators.Group.Finset
import Mathlib.Algebra.Order.BigOperators.Group.List
import Mathlib.Algebra.Order.Group.Int

/-!
# MOESI_CMP_token: counting over a block

Sums over the machines and the responses of a block, and an analysis of the actions of a machine that follows the
tokens: what an action does to the count of the machine, and whether the tokens of the response that is handled have
been taken over, or sent on, before the response is dropped.
-/

namespace M5.Ruby.Token

open M5.Lib Function List Option

variable {n : Nat}

/-! ## Sums over a block -/

/-- What each place of a block contributes to a sum. -/
structure Weight (n : Nat) where
  l1 : Fin n → L1 n → Int
  l2 : L2 n → Int
  dir : Directory n → Int
  msg : ResponseMsg n → Int

namespace Block

variable {w : Weight n} {s : Block n} {i : Fin n}

def weigh (w : Weight n) (s : Block n) : Int :=
  ∑ i, w.l1 i (s.l1 i) + w.l2 s.l2 + w.dir s.dir + (s.responses.map w.msg).sum

theorem weigh_setL1 (l : L1 n) : (s.setL1 i l).weigh w = s.weigh w - w.l1 i (s.l1 i) + w.l1 i l := by
  have h : ∑ j, w.l1 j (update s.l1 i l j) = ∑ j, w.l1 j (s.l1 j) - w.l1 i (s.l1 i) + w.l1 i l := by
    rw [← Finset.sum_erase_add _ _ (Finset.mem_univ i), ← Finset.sum_erase_add _ _ (Finset.mem_univ i),
      update_self]
    rw [Finset.sum_congr rfl fun j hj => by rw [update_of_ne (Finset.ne_of_mem_erase hj)]]
    omega
  simp only [weigh, setL1, h]
  omega

theorem weigh_respond (m : ResponseMsg n) : (s.respond m).weigh w = s.weigh w + w.msg m := by
  simp only [weigh, respond, map_append, sum_append, map_singleton, sum_singleton]
  omega

/-- What the machine `k` contributes. -/
def weighAt (w : Weight n) (s : Block n) : MachineID n → Int
  | .L1Cache i => w.l1 i (s.l1 i)
  | .L2Cache => w.l2 s.l2
  | .Directory => w.dir s.dir

/-! ## The response that is handled -/

/-- The block with the response `m` in front, if there is one. -/
def hold (s : Block n) (m : Option (ResponseMsg n)) : Block n := { s with responses := m.toList ++ s.responses }

theorem hold_respond (m : Option (ResponseMsg n)) (m' : ResponseMsg n) :
    (s.hold m).respond m' = (s.respond m').hold m := by
  simp only [hold, respond, append_assoc]

theorem inResponse_hold (m : ResponseMsg n) : (s.hold (some m)).inResponse = .ok m := rfl

theorem popResponse_hold (m : ResponseMsg n) : (s.hold (some m)).popResponse = s := rfl

theorem weigh_hold (m : ResponseMsg n) : (s.hold (some m)).weigh w = s.weigh w + w.msg m := by
  simp only [weigh, hold, toList_some, singleton_append, map_cons, sum_cons]
  omega

end Block

/-! ## Kinds of responses -/

/-- Messages with the data of the block. -/
def CoherenceResponseType.hasData : CoherenceResponseType → Bool
  | DATA_OWNER | DATA_SHARED | WB_SHARED_DATA | WB_OWNED => true
  | _ => false

/-- Messages with the owner token. -/
def CoherenceResponseType.owner : CoherenceResponseType → Bool
  | DATA_OWNER | ACK_OWNER | WB_OWNED => true
  | _ => false

/-! ## Tokens -/

def L1.tokens (l : L1 n) : Int := l.dcache.elim 0 (·.tokens) + l.icache.elim 0 (·.tokens)

def tokens : Weight n where
  l1 _ l := l.tokens
  l2 l := l.getTokens
  dir d := d.tokens
  msg m := m.tokens

theorem tokens_l1 {i : Fin n} {l : L1 n} : tokens.l1 i l = l.tokens := rfl

theorem tokens_l2 {l : L2 n} : tokens.l2 l = l.getTokens := rfl

theorem tokens_dir {d : Directory n} : tokens.dir d = d.tokens := rfl

theorem tokens_msg {m : ResponseMsg n} : tokens.msg m = m.tokens := rfl

/-- The count is not negative, and a hint has none. -/
structure ResponseMsg.Fair (m : ResponseMsg n) : Prop where
  nonneg : 0 ≤ m.tokens
  hint : m.type = .INV → m.tokens = 0

structure Block.Nonneg (s : Block n) : Prop where
  dcache : ∀ i, 0 ≤ (s.l1 i).dcache.elim 0 (·.tokens)
  icache : ∀ i, 0 ≤ (s.l1 i).icache.elim 0 (·.tokens)
  l2 : 0 ≤ s.l2.getTokens
  dir : 0 ≤ s.dir.tokens
  response : ∀ m ∈ s.responses, m.Fair

/-! ## One machine with all tokens -/

namespace Block

variable {s : Block n} {k : MachineID n}

section

variable (h : s.Nonneg)

include h

theorem Nonneg.l1 (i : Fin n) : 0 ≤ (s.l1 i).tokens := Int.add_nonneg (h.dcache i) (h.icache i)

theorem Nonneg.getTokens_le (i : Fin n) : (s.l1 i).getTokens ≤ (s.l1 i).tokens := by
  have hi := h.icache i
  rw [L1.getTokens, L1.tokens]
  cases hd' : (s.l1 i).dcache with
  | some e =>
    simp only [some_or, elim_some]
    omega
  | none =>
    cases hi' : (s.l1 i).icache <;> simp

theorem Nonneg.map : ∀ k ∈ s.responses.map tokens.msg, 0 ≤ k := by
  intro k hk
  obtain ⟨m, hm, rfl⟩ := mem_map.1 hk
  exact (h.response m hm).nonneg

theorem Nonneg.l1_le_sum (i : Fin n) : (s.l1 i).tokens ≤ ∑ j, (s.l1 j).tokens :=
  Finset.single_le_sum (fun j _ => h.l1 j) (Finset.mem_univ i)

/-- No cache has more tokens than there are. -/
theorem Nonneg.l1_le (i : Fin n) : (s.l1 i).tokens ≤ s.weigh tokens := by
  have h1 := h.l1_le_sum i
  have h2 := h.l2
  have h3 := h.dir
  have h4 := sum_nonneg h.map
  simp only [weigh, tokens_l1, tokens_l2, tokens_dir]
  omega

structure Alone (k : MachineID n) (s : Block n) : Prop where
  l1 : ∀ j, .L1Cache j ≠ k → (s.l1 j).tokens = 0
  l2 : .L2Cache ≠ k → s.l2.getTokens = 0
  dir : .Directory ≠ k → s.dir.tokens = 0
  response : ∀ m ∈ s.responses, m.tokens = 0

/-- When one machine has all tokens nobody else has any. -/
theorem Nonneg.alone (hk : s.weigh tokens ≤ s.weighAt tokens k) : s.Alone k := by
  have h2 := h.l2
  have h3 := h.dir
  have h4 := sum_nonneg h.map
  have h5 : ∀ m ∈ s.responses, m.tokens ≤ (s.responses.map tokens.msg).sum :=
    fun m hm => single_le_sum h.map _ (mem_map_of_mem hm)
  have h6 : ∀ m ∈ s.responses, 0 ≤ m.tokens := fun m hm => (h.response m hm).nonneg
  cases k with
  | L1Cache i =>
    have h1 := h.l1_le_sum i
    simp only [weigh, weighAt, tokens_l1, tokens_l2, tokens_dir] at hk
    refine ⟨fun j hj => ?_, fun _ => by omega, fun _ => by omega, fun m hm => ?_⟩
    · have hij : i ≠ j := fun hij => hj (congrArg _ hij.symm)
      have : (s.l1 i).tokens + (s.l1 j).tokens ≤ ∑ j, (s.l1 j).tokens := by
        rw [← Finset.sum_pair (f := fun j => (s.l1 j).tokens) hij]
        exact Finset.sum_le_sum_of_subset_of_nonneg (Finset.subset_univ _) fun k _ _ => h.l1 k
      have := h.l1 j
      omega
    · have := h5 m hm
      have := h6 m hm
      omega
  | L2Cache | Directory =>
    have h0 : 0 ≤ ∑ j, (s.l1 j).tokens := Finset.sum_nonneg fun j _ => h.l1 j
    simp only [weigh, weighAt, tokens_l1, tokens_l2, tokens_dir] at hk
    refine ⟨fun j _ => ?_, fun hne => ?_, fun hne => ?_, fun m hm => ?_⟩
    · have := h.l1_le_sum j
      have := h.l1 j
      omega
    · first | exact absurd rfl hne | omega
    · first | exact absurd rfl hne | omega
    · have := h5 m hm
      have := h6 m hm
      omega

end

end Block

/-! ## Parts of an entry -/

/-- The message has tokens of the entry `e`, and `k` are left. -/
structure Sent {State : Type} (types : List CoherenceResponseType) (k : Int) (e : Entry State) (m : ResponseMsg n) :
    Prop where
  type : m.type ∈ types
  tokens : m.tokens = e.tokens - k
  dataBlk : m.type.hasData ∨ m.type.owner → m.dataBlk = e.dataBlk
  dirty : m.type.owner → m.dirty = e.dirty
  clean : m.type = .ACK_OWNER → e.dirty = false

section sent

variable {State : Type} {types : List CoherenceResponseType} {e : Entry State} {t : CoherenceResponseType}
  {sender dest : MachineID n} {k k' : Int} {dirty : Bool} {size : MessageSizeType}

/-- A copy without the owner token. -/
theorem Sent.shared (ht : t ∈ types) (hk : k' = e.tokens - k) (ho : t.owner = false) :
    Sent types k e (e.msg t sender dest k' dirty size) :=
  ⟨ht, hk, fun _ => rfl, fun h => (nomatch ho.symm.trans h),
    fun h => (nomatch ho.symm.trans (congrArg _ h))⟩

/-- The owner token goes with the dirty bit. -/
theorem Sent.owner (ht : t ∈ types) (hk : k' = e.tokens - k) (hc : t = .ACK_OWNER → e.dirty = false) :
    Sent types k e (e.msg t sender dest k' e.dirty size) := ⟨ht, hk, fun _ => rfl, fun _ => rfl, hc⟩

theorem Sent.ack (ht : .ACK ∈ types) (hk : k' = e.tokens - k) : Sent types k e (Token.ack sender dest k' size) :=
  ⟨ht, hk, nofun, nofun, nofun⟩

end sent

/-! ## The invariant -/

/-- The states in which a load hits. -/
def L1.State.readable : State → Bool
  | S | SM | S_L | SM_L | O | OM | M | MM | M_W | MM_W => true
  | _ => false

/-- The states with all tokens. -/
def L1.State.exclusive : State → Bool
  | M | MM | M_W | MM_W => true
  | _ => false

/-- The states in which the L2 bank has data for an L1 cache. -/
def L2.State.readable : State → Bool
  | S | O | M | S_L => true
  | _ => false

structure L1.Counted (p : Params) (i : Fin n) (l : L1 n) : Prop where
  readable : ∀ {q}, l.getState i = .ok q → q.readable → 1 ≤ l.getTokens
  exclusive : ∀ {q}, l.getState i = .ok q → q.exclusive → l.getTokens = p.maxTokens

structure L2.Counted (p : Params) (l : L2 n) : Prop where
  readable : l.getState.readable → 1 ≤ l.getTokens
  exclusive : l.getState = .M → l.getTokens = p.maxTokens
  empty : l.getState = .I_L ∨ l.getState = .NP → l.getTokens = 0

/-- All tokens are there, and every machine has what its state asks for. -/
structure Block.Conserved (p : Params) (s : Block n) : Prop where
  total : s.weigh tokens = p.maxTokens
  nonneg : s.Nonneg
  l1 : ∀ i, (s.l1 i).Counted p i
  l2 : s.l2.Counted p
  dir : s.dir.getState = .O → 1 ≤ s.dir.tokens

/-! ## What the analysis knows -/

/-- What is known of the tokens in an entry. -/
inductive Count
  | any | zero | pos | two
deriving DecidableEq

def Count.Holds : Count → Int → Prop
  | any, _ => True
  | zero, k => k = 0
  | pos, k => 1 ≤ k
  | two, k => 2 ≤ k

/-- At least one token comes. -/
def Count.succ : Count → Count
  | pos | two => two
  | _ => pos

theorem Count.Holds.succ {c : Count} {j k : Int} (h : c.Holds j) (hj : 0 ≤ j) (hk : 1 ≤ k) : c.succ.Holds (j + k) := by
  cases c <;> simp only [Count.succ, Holds] at h ⊢ <;> omega

def Count.some : Count → Bool
  | pos | two => true
  | _ => false

theorem Count.Holds.one_le {c : Count} {k : Int} (h : c.Holds k) (hc : c.some) : 1 ≤ k := by
  cases c <;> cases hc <;> simp only [Holds] at h <;> omega

def Count.pred : Count → Count
  | two => pos
  | _ => any

/-- Between two actions of a machine: the tokens in its entry, whether the response that is handled is still there, and
whether its tokens are still to be taken over or sent on. -/
structure Abs where
  count : Count
  hand : Bool
  owed : Bool
deriving DecidableEq

namespace Abs

/-- The tokens of the response are taken over or sent on. -/
def settle (x : Abs) (c : Count) : Option Abs :=
  if x.hand && x.owed then some { x with count := c, owed := false } else none

def drop (x : Abs) : Option Abs := if x.hand then some { x with hand := false } else none

theorem settle_eq {x y : Abs} {c : Count} (h : x.settle c = some y) :
    x.hand ∧ x.owed ∧ y = { x with count := c, owed := false } := by
  rw [settle] at h
  split at h
  case isFalse => cases h
  case isTrue hx =>
    rw [Bool.and_eq_true] at hx
    exact ⟨hx.1, hx.2, (some.inj h).symm⟩

theorem owed_of_drop {x y : Abs} (h : x.drop = some y) : y.owed = x.owed := by
  rw [drop] at h
  split at h
  · cases h
    rfl
  · cases h

def done (x : Abs) : Bool := !x.hand && !x.owed

/-- All is done, with a token in a readable state. -/
def settled (x : Abs) (readable : Bool) : Bool := x.done && (!readable || x.count.some)

theorem done_iff {x : Abs} : x.done ↔ x.hand = false ∧ x.owed = false := by
  simp [done]

theorem settled_iff {x : Abs} {readable : Bool} : x.settled readable ↔ x.done ∧ (readable → x.count.some) := by
  simp [settled, or_iff_not_imp_left]

end Abs

/-! ## Following the tokens through a rule -/

/-- The state `s` in the middle of a rule: the response `m` is in front of the rest `t`, as `x` tells, all tokens are
there, and the machine has `k` tokens. -/
structure Follows (p : Params) (m : ResponseMsg n) (x : Abs) (k : Int) (s t : Block n) : Prop where
  state : s = t.hold (if x.hand then some m else none)
  total : t.weigh tokens + (if x.owed then m.tokens else 0) = p.maxTokens
  nonneg : t.Nonneg
  response : m.Fair
  count : x.count.Holds k

namespace Follows

variable {p : Params} {m m' : ResponseMsg n} {x y : Abs} {k : Int} {s s' t : Block n}

theorem inResponse (h : Follows p m x k s t) (hx : x.hand) : s.inResponse = .ok m := by
  rw [h.state, if_pos hx]
  exact Block.inResponse_hold m

theorem pop (h : Follows p m x k s t) (hx : x.drop = some y) : Follows p m y k s.popResponse t := by
  obtain ⟨c, hand, owed⟩ := x
  cases hand with
  | false => cases hx
  | true =>
    cases hx
    refine ⟨?_, h.total, h.nonneg, h.response, h.count⟩
    rw [h.state]
    exact Block.popResponse_hold m

/-- The count at the start of a rule. -/
theorem start (hs : s.Conserved p) (hx : (if x.owed then m.tokens else 0) = if x.hand then m.tokens else 0)
    (hm : x.hand → s.responses.head? = some m) (hm0 : m.Fair) (hc : x.count.Holds k) :
    ∃ r, Follows p m x k s { s with responses := r } := by
  cases hh : x.hand with
  | false =>
    refine ⟨s.responses, by rw [hh]; rfl, ?_, hs.nonneg, hm0, hc⟩
    simp only [hx, hh, Bool.false_eq_true, if_false]
    exact (Int.add_zero _).trans hs.total
  | true =>
    obtain ⟨r, hr⟩ := head?_eq_some_iff.1 (hm hh)
    have hs' : s = { s with responses := r }.hold (some m) := by
      rw [Block.hold, toList_some, singleton_append, ← hr]
    refine ⟨r, by rw [hh]; exact hs', ?_, { hs.nonneg with response := fun m' hm' => ?_ }, hm0, hc⟩
    · have ht := hs.total
      rw [hs', Block.weigh_hold] at ht
      simp only [hx, hh, if_true]
      exact ht
    · exact hs.nonneg.response m' (hr ▸ mem_cons_of_mem m hm')

/-- When the response is dealt with, no token is lost. -/
theorem finish (h : Follows p m x k s t) (hx : x.done) : s.weigh tokens = p.maxTokens ∧ s.Nonneg := by
  obtain ⟨hs, ht, hn, -, -⟩ := h
  obtain ⟨hh, ho⟩ := Abs.done_iff.1 hx
  rw [hh] at hs
  rw [ho] at ht
  cases hs
  exact ⟨(Int.add_zero _).symm.trans ht, hn⟩

end Follows

theorem Block.Nonneg.exists_head {s : Block n} (h : s.Nonneg) :
    ∃ m : ResponseMsg n, (s.responses ≠ [] → s.responses.head? = some m) ∧ m.Fair := by
  cases hr : s.responses with
  | nil => exact ⟨ack .L2Cache .L2Cache 0 .Response_Control, absurd rfl, ⟨le_rfl, fun _ => rfl⟩⟩
  | cons m r => exact ⟨m, fun _ => rfl, h.response m (hr ▸ mem_cons_self)⟩

/-! ## A machine at work -/

/-- The machines other than `k` are as they were, and so are the DMA requests unless `k` handles them. -/
structure Elsewhere (k : MachineID n) (s s' : Block n) : Prop where
  l1 : ∀ j, .L1Cache j ≠ k → s'.l1 j = s.l1 j
  l2 : .L2Cache ≠ k → s'.l2 = s.l2
  dir : .Directory ≠ k → s'.dir = s.dir
  dma : .Directory ≠ k → s'.dmaRequestToDir = s.dmaRequestToDir

section elsewhere

variable {k : MachineID n} {s s' s'' : Block n}

theorem Elsewhere.refl : Elsewhere k s s := ⟨fun _ _ => rfl, fun _ => rfl, fun _ => rfl, fun _ => rfl⟩

theorem Elsewhere.trans (h : Elsewhere k s s') (h' : Elsewhere k s' s'') : Elsewhere k s s'' :=
  ⟨fun j hj => (h'.l1 j hj).trans (h.l1 j hj), fun hk => (h'.l2 hk).trans (h.l2 hk),
    fun hk => (h'.dir hk).trans (h.dir hk), fun hk => (h'.dma hk).trans (h.dma hk)⟩

end elsewhere

namespace Block

variable {w : Weight n} {s s' : Block n} {k : MachineID n} {i : Fin n}

/-- The machines other than `k` and the responses are as they were. -/
structure Beside (k : MachineID n) (s s' : Block n) : Prop extends Elsewhere k s s' where
  responses : s'.responses = s.responses

theorem Beside.refl : Beside k s s := ⟨.refl, rfl⟩

/-- The response in front stays where it is. -/
theorem Beside.unhold {t : Block n} {o : Option (ResponseMsg n)} (h : (t.hold o).Beside k s') :
    s' = { s' with responses := t.responses }.hold o ∧ t.Beside k { s' with responses := t.responses } :=
  ⟨congrArg (fun r => { s' with responses := r }) h.responses, ⟨h.l1, h.l2, h.dir, h.dma⟩, rfl⟩

theorem Beside.setL1 (l : L1 n) : Beside (.L1Cache i) s (s.setL1 i l) :=
  ⟨⟨fun _ hj => update_of_ne (fun h => hj (congrArg _ h)) _ _, fun _ => rfl, fun _ => rfl, fun _ => rfl⟩, rfl⟩

theorem Beside.setL2 (l : L2 n) : Beside .L2Cache s (s.setL2 l) :=
  ⟨⟨fun _ _ => rfl, absurd rfl, fun _ => rfl, fun _ => rfl⟩, rfl⟩

theorem Beside.setDir (d : Directory n) : Beside .Directory s (s.setDir d) :=
  ⟨⟨fun _ _ => rfl, fun _ => rfl, absurd rfl, fun _ => rfl⟩, rfl⟩

/-- What the places besides the machine `k` contribute. -/
def besides (w : Weight n) (k : MachineID n) (s : Block n) : Int := s.weigh w - s.weighAt w k

theorem besides_respond (m : ResponseMsg n) : (s.respond m).besides w k = s.besides w k + w.msg m := by
  have h : (s.respond m).weighAt w k = s.weighAt w k := by cases k <;> rfl
  rw [besides, besides, weigh_respond]
  omega

theorem besides_hold (m : ResponseMsg n) : (s.hold (some m)).besides w k = s.besides w k + w.msg m := by
  have h : (s.hold (some m)).weighAt w k = s.weighAt w k := by cases k <;> rfl
  rw [besides, besides, weigh_hold]
  omega

theorem weigh_eq (k : MachineID n) : s.weigh w = s.besides w k + s.weighAt w k := by
  rw [besides]
  omega

theorem Beside.besides_eq (h : Beside k s s') : s'.besides w k = s.besides w k := by
  cases k with
  | L1Cache i =>
    have hl : s'.l1 = update s.l1 i (s'.l1 i) := by
      funext j
      rcases eq_or_ne j i with rfl | hj
      · rw [update_self]
      · rw [update_of_ne hj]
        exact h.l1 j fun he => hj (MachineID.L1Cache.inj he)
    have hw : s'.weigh w = (s.setL1 i (s'.l1 i)).weigh w := by
      rw [weigh, weigh, h.l2 nofun, h.dir nofun, h.responses, Block.setL1, ← hl]
    rw [besides, besides, hw, weigh_setL1]
    simp only [weighAt]
    omega
  | L2Cache =>
    have hl : s'.l1 = s.l1 := funext fun j => h.l1 j nofun
    simp only [besides, weigh, weighAt, hl, h.dir nofun, h.responses]
    omega
  | Directory =>
    have hl : s'.l1 = s.l1 := funext fun j => h.l1 j nofun
    simp only [besides, weigh, weighAt, hl, h.l2 nofun, h.responses]
    omega

def NonnegAt (s : Block n) : MachineID n → Prop
  | .L1Cache i => 0 ≤ (s.l1 i).dcache.elim 0 (·.tokens) ∧ 0 ≤ (s.l1 i).icache.elim 0 (·.tokens)
  | .L2Cache => 0 ≤ s.l2.getTokens
  | .Directory => 0 ≤ s.dir.tokens

theorem Nonneg.machine (h : s.Nonneg) (k : MachineID n) : s.NonnegAt k := by
  cases k with
  | L1Cache i => exact ⟨h.dcache i, h.icache i⟩
  | L2Cache => exact h.l2
  | Directory => exact h.dir

/-- Only the counts of the machine itself need to be looked at. -/
theorem Nonneg.beside (h : s.Nonneg) (hb : s.Beside k s') (hk : s'.NonnegAt k) : s'.Nonneg := by
  have h1 : ∀ j, s'.NonnegAt (.L1Cache j) := by
    intro j
    by_cases hj : .L1Cache j = k
    · exact hj ▸ hk
    · rw [NonnegAt, hb.l1 j hj]
      exact h.machine (.L1Cache j)
  refine ⟨fun j => (h1 j).1, fun j => (h1 j).2, ?_, ?_, hb.responses ▸ h.response⟩
  · by_cases h2 : .L2Cache = k
    · exact (h2 ▸ hk : s'.NonnegAt .L2Cache)
    · exact hb.l2 h2 ▸ h.l2
  · by_cases hd : .Directory = k
    · exact (hd ▸ hk : s'.NonnegAt .Directory)
    · exact hb.dir hd ▸ h.dir

/-- The tokens that the state of the machine `k` rests on; the directory looks at its own when it changes state. -/
def entryTokens (s : Block n) : MachineID n → Int
  | .L1Cache i => (s.l1 i).getTokens
  | .L2Cache => s.l2.getTokens
  | .Directory => 0

end Block

section entry

variable {State : Type} (k : MachineID n) (s : Block n) (e : Entry State) (put : Entry State → Block n)

/-- The machine `k` has the entry `e`, and `put` replaces it. -/
structure HasEntry : Prop where
  beside : ∀ e', s.Beside k (put e')
  count : s.entryTokens k = e.tokens
  count_put : ∀ e', (put e').entryTokens k = e'.tokens
  weigh_put : ∀ e', (put e').weighAt tokens k = s.weighAt tokens k - e.tokens + e'.tokens
  nonneg : s.NonnegAt k → 0 ≤ e.tokens
  nonneg_put : s.NonnegAt k → ∀ e', 0 ≤ e'.tokens → (put e').NonnegAt k

/-- Of the tokens in the entry `j` are left, and the others, if there are any, are sent. -/
def Gives (types : List CoherenceResponseType) (j : Int) (s' : Block n) : Prop :=
  (e.tokens = j ∧ s' = s) ∨
    ∃ m, Sent types j e m ∧ (0 < e.tokens → j < e.tokens) ∧ s' = (put { e with tokens := j }).respond m

end entry

/-- The state `s` in the middle of a rule of the machine `k` that began in `s0` is as `x` tells. -/
structure Sees (p : Params) (k : MachineID n) (m : ResponseMsg n) (s0 : Block n) (x : Abs) (s : Block n) : Prop where
  follows : ∃ t, Follows p m x (t.entryTokens k) s t
  elsewhere : Elsewhere k s0 s

namespace Sees

variable {p : Params} {k : MachineID n} {m m' m₁ : ResponseMsg n} {s0 s s' : Block n} {x y : Abs} {c : Count}

section

variable (h : Sees p k m s0 x s)

include h

theorem count : x.count.Holds (s.entryTokens k) := by
  obtain ⟨t, ht⟩ := h.follows
  have hk : s.entryTokens k = t.entryTokens k := by rw [ht.state]; cases k <;> rfl
  rw [hk]
  exact ht.count

theorem nonneg : s.Nonneg := by
  obtain ⟨t, ht⟩ := h.follows
  rw [ht.state]
  refine { ht.nonneg with response := fun r hr => ?_ }
  rcases mem_append.1 hr with hr | hr
  · split at hr
    · rw [mem_singleton.1 hr]
      exact ht.response
    · cases hr
  · exact ht.nonneg.response r hr

theorem inResponse (hx : x.hand) (hm : s.inResponse = .ok m') : m' = m := by
  obtain ⟨t, ht⟩ := h.follows
  exact Except.ok.inj (hm.symm.trans (ht.inResponse hx))

/-- A test of the code tells more of the count. -/
theorem learn (hc : c.Holds (s.entryTokens k)) : Sees p k m s0 { x with count := c } s := by
  obtain ⟨⟨t, ht⟩, he⟩ := h
  have hk : s.entryTokens k = t.entryTokens k := by rw [ht.state]; cases k <;> rfl
  exact ⟨⟨t, ht.state, ht.total, ht.nonneg, ht.response, hk ▸ hc⟩, he⟩

theorem pop (hx : x.drop = some y) : Sees p k m s0 y s.popResponse := by
  obtain ⟨⟨t, ht⟩, he⟩ := h
  exact ⟨⟨t, ht.pop hx⟩, he.l1, he.l2, he.dir, he.dma⟩

theorem rest (hb : s.Beside k s') (hn : s'.NonnegAt k) :
    ∃ t : Block n, s' = t.hold (if x.hand then some m else none) ∧ t.Nonneg ∧ t.entryTokens k = s'.entryTokens k ∧
      t.weigh tokens + s.weighAt tokens k + (if x.owed then m.tokens else 0) =
        p.maxTokens + s'.weighAt tokens k := by
  obtain ⟨⟨t, rfl, ht, htn, -, -⟩, -⟩ := h
  obtain ⟨hs, hb'⟩ := hb.unhold
  have hk : Block.NonnegAt { s' with responses := t.responses } k := by cases k <;> exact hn
  refine ⟨{ s' with responses := t.responses }, hs, htn.beside hb' hk, by cases k <;> rfl, ?_⟩
  · have h1 : Block.weighAt tokens { s' with responses := t.responses } k = s'.weighAt tokens k := by cases k <;> rfl
    have h2 : Block.weighAt tokens (t.hold (if x.hand then some m else none)) k =
      t.weighAt tokens k := by cases k <;> rfl
    rw [Block.weigh_eq k] at ht
    rw [Block.weigh_eq k, hb'.besides_eq, h2]
    omega

/-- The machine changes its own counts, and takes what it is owed. -/
theorem change (hb : s.Beside k s') (hn : s'.NonnegAt k) (hc : y.count.Holds (s'.entryTokens k))
    (hx : y.hand = x.hand) (ho : (if y.owed then m.tokens else 0) + s'.weighAt tokens k =
      (if x.owed then m.tokens else 0) + s.weighAt tokens k) : Sees p k m s0 y s' := by
  obtain ⟨t, hs, htn, hk, hw⟩ := h.rest hb hn
  obtain ⟨⟨_, -, -, -, hm, -⟩, he⟩ := h
  refine ⟨⟨t, by rw [hx]; exact hs, ?_, htn, hm, hk ▸ hc⟩, he.trans hb.toElsewhere⟩
  omega

/-- The machine sends tokens. -/
theorem respond (hb : s.Beside k s') (hn : s'.NonnegAt k)
    (hc : y.count.Holds (s'.entryTokens k)) (hx : y.hand = x.hand) (hm' : m'.Fair)
    (ho : (if y.owed then m.tokens else 0) + s'.weighAt tokens k + m'.tokens =
      (if x.owed then m.tokens else 0) + s.weighAt tokens k) : Sees p k m s0 y (s'.respond m') := by
  obtain ⟨t, hs, htn, hk, hw⟩ := h.rest hb hn
  obtain ⟨⟨_, -, -, -, hm, -⟩, he⟩ := h
  have he' := he.trans hb.toElsewhere
  have hk' : (t.respond m').entryTokens k = s'.entryTokens k := by rw [← hk]; cases k <;> rfl
  refine ⟨⟨t.respond m', ?_, ?_, { htn with response := fun r hr => ?_ }, hm, hk' ▸ hc⟩, he'.l1, he'.l2, he'.dir,
    he'.dma⟩
  · rw [hx, hs]
    exact Block.hold_respond _ _
  · rw [Block.weigh_respond, tokens_msg]
    omega
  · rcases mem_append.1 hr with hr | hr
    · exact htn.response r hr
    · rw [mem_singleton.1 hr]
      exact hm'

/-- The tokens of the response are sent on. -/
theorem bounce (hx : x.settle x.count = some y) (hi : s.inResponse = .ok m₁) (hm : m'.tokens = m₁.tokens)
    (ht : m'.type = .INV → m₁.type = .INV) : Sees p k m s0 y (s.respond m') := by
  obtain ⟨hh, ho, rfl⟩ := Abs.settle_eq hx
  cases h.inResponse hh hi
  obtain ⟨t, hf⟩ := h.follows
  have hm' : m'.Fair := ⟨hm ▸ hf.response.nonneg, fun hi => hm ▸ hf.response.hint (ht hi)⟩
  refine h.respond .refl (h.nonneg.machine k) h.count rfl hm' ?_
  simp only [ho, hm, if_true, Bool.false_eq_true, if_false]
  omega

/-- A message without tokens. -/
theorem inform (hm : m'.tokens = 0) : Sees p k m s0 x (s.respond m') :=
  h.respond .refl (h.nonneg.machine k) h.count rfl ⟨hm.ge, fun _ => hm⟩ (by rw [hm, Int.add_zero])

section entry

variable {State : Type} {e e' : Entry State} {put : Entry State → Block n} (he : HasEntry k s e put)

include he

theorem entry_nonneg : 0 ≤ e.tokens := he.nonneg (h.nonneg.machine k)

theorem entry_count : x.count.Holds e.tokens := he.count ▸ h.count

theorem setEntry (h0 : 0 ≤ e'.tokens) (hc : y.count.Holds e'.tokens) (hx : y.hand = x.hand)
    (ho : (if y.owed then m.tokens else 0) + e'.tokens = (if x.owed then m.tokens else 0) + e.tokens) :
    Sees p k m s0 y (put e') := by
  refine h.change (he.beside e') (he.nonneg_put (h.nonneg.machine k) e' h0) ?_ hx ?_
  · rw [he.count_put]
    exact hc
  · rw [he.weigh_put]
    omega

theorem keep (hk : e'.tokens = e.tokens) : Sees p k m s0 x (put e') := by
  refine h.setEntry he ?_ ?_ rfl (by rw [hk])
  · rw [hk]
    exact h.entry_nonneg he
  · rw [hk]
    exact h.entry_count he

/-- The entry takes the tokens of the response. -/
theorem take (hx : x.settle x.count.succ = some y) (hm : m.tokens ≠ 0) (hk : e'.tokens = e.tokens + m.tokens) :
    Sees p k m s0 y (put e') := by
  obtain ⟨t, ht⟩ := h.follows
  have h0 := h.entry_nonneg he
  have hm0 := ht.response.nonneg
  obtain ⟨-, ho, rfl⟩ := Abs.settle_eq hx
  refine h.setEntry he (by omega) ?_ rfl ?_
  · rw [hk]
    exact (h.entry_count he).succ h0 (by omega)
  · simp only [ho, if_true, Bool.false_eq_true, if_false]
    omega

/-- The entry gives tokens away. -/
theorem gives {types : List CoherenceResponseType} {j : Int} (hg : Gives s e put types j s') (hi : .INV ∉ types)
    (hj : 0 ≤ j ∧ j ≤ e.tokens) (hc : c.Holds j) : Sees p k m s0 { x with count := c } s' := by
  rcases hg with ⟨hj', rfl⟩ | ⟨m', hm, -, rfl⟩
  · refine h.learn ?_
    rw [he.count, hj']
    exact hc
  · refine h.respond (he.beside _) (he.nonneg_put (h.nonneg.machine k) _ hj.1) ?_ rfl
      ⟨by rw [hm.tokens]; omega, fun hinv => absurd (hinv ▸ hm.type) hi⟩ ?_
    · rw [he.count_put]
      exact hc
    · rw [he.weigh_put, hm.tokens]
      dsimp only
      omega

end entry

end

theorem start (hs : s.Conserved p) (hx : (if x.owed then m.tokens else 0) = if x.hand then m.tokens else 0)
    (hm : x.hand → s.responses.head? = some m) (hm0 : m.Fair) (hc : x.count.Holds (s.entryTokens k)) :
    Sees p k m s x s := by
  obtain ⟨r, hr⟩ := Follows.start hs hx hm hm0 hc
  have hk : Block.entryTokens { s with responses := r } k = s.entryTokens k := by cases k <;> rfl
  exact ⟨⟨{ s with responses := r }, hk ▸ hr⟩, .refl⟩

theorem finish (h : Sees p k m s0 y s) (hs : s0.Conserved p) (hy : y.done) (hb : s.Beside k s') (hn : s'.NonnegAt k)
    (hk : s'.weighAt tokens k = s.weighAt tokens k)
    (h1 : ∀ i, .L1Cache i = k → (s'.l1 i).Counted p i) (h2 : .L2Cache = k → s'.l2.Counted p)
    (hd : .Directory = k → s'.dir.getState = .O → 1 ≤ s'.dir.tokens) : s'.Conserved p := by
  have he := h.elsewhere.trans hb.toElsewhere
  obtain ⟨t, ht⟩ := h.follows
  obtain ⟨htotal, hnonneg⟩ := ht.finish hy
  refine ⟨?_, hnonneg.beside hb hn, fun i => ?_, ?_, ?_⟩
  · rw [Block.weigh_eq k] at htotal ⊢
    rw [hb.besides_eq, hk]
    exact htotal
  · by_cases hi : .L1Cache i = k
    · exact h1 i hi
    · rw [he.l1 i hi]
      exact hs.l1 i
  · by_cases hi : .L2Cache = k
    · exact h2 hi
    · rw [he.l2 hi]
      exact hs.l2
  · by_cases hi : .Directory = k
    · exact hd hi
    · rw [he.dir hi]
      exact hs.dir

end Sees

end M5.Ruby.Token
