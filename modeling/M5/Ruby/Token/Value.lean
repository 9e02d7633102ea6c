import M5.Ruby.Token.Count

/-!
# MOESI_CMP_token: the owner and the value of a block

The value of a block is that of its last store. The copies that can be read have it, and so do the messages with data;
when memory does not have it, the owner's dirty bit tells so. There is one owner: a machine in an owner-like state or a
message with the owner token.
-/

namespace M5.Ruby.Token

open M5.Lib Function List

variable {n : Nat}

/-! ## Owners -/

/-- The states of an L1 cache with the owner token. -/
def L1.State.owner : State → Bool
  | O | OM | M | MM | M_W | MM_W => true
  | _ => false

/-- The states of the L2 bank with the owner token. -/
def L2.State.owner : State → Bool
  | O | M => true
  | _ => false

/-- The states of the directory with the owner token, without DMA. -/
def Dir.State.owner : State → Bool
  | O | NO_W | O_W | L_O_W | L_NO_W => true
  | _ => false

/-- The states of the directory without DMA. -/
def Dir.State.base : State → Bool
  | O | NO | L | NO_W | O_W | L_O_W | L_NO_W => true
  | _ => false

variable {q : State} {l : L1 n} {v mem : DataBlock} {m : ResponseMsg n}

theorem L1.State.readable_of_owner (h : q.owner) : q.readable := by
  revert h
  cases q <;> decide

theorem L2.State.readable_of_owner {q : State} (h : q.owner) : q.readable := by
  revert h
  cases q <;> decide

/-- The L1 cache `i` is in an owner-like state. -/
def L1.owner (l : L1 n) (i : Fin n) : Bool :=
  match l.getState i with
  | .ok q => q.owner
  | .error _ => false

theorem L1.owner_of_state {i : Fin n} (h : l.getState i = .ok q) : l.owner i = q.owner := by
  rw [owner, h]

theorem L1.owner_eq_true {i : Fin n} (h : l.owner i) : ∃ q, l.getState i = .ok q ∧ q.owner := by
  rw [owner] at h
  split at h
  case h_1 q hq => exact ⟨q, hq, h⟩
  case h_2 => cases h

/-- The owners among the places of a block. -/
def owners : Weight n where
  l1 i l := (l.owner i).toInt
  l2 l := l.getState.owner.toInt
  dir d := d.getState.owner.toInt
  msg m := m.type.owner.toInt

theorem toInt_nonneg (b : Bool) : 0 ≤ b.toInt := by cases b <;> decide

/-! ## Copies -/

/-- What a cache has of the value. -/
structure Copy where
  dataBlk : DataBlock
  dirty : Bool

def Entry.copy {State : Type} (e : Entry State) : Copy := ⟨e.dataBlk, e.dirty⟩

def L1.copy (l : L1 n) : Option Copy := (l.dcache.or l.icache).map Entry.copy

def L2.copy (l : L2 n) : Option Copy := l.entry.map Entry.copy

theorem L1.copy_of_entry {e : Entry State} (h : l.getCacheEntry = .ok e) : l.copy = some e.copy := by
  rw [copy, present_eq_ok.1 h]
  rfl

theorem L2.copy_of_entry {l : L2 n} {e : Entry State} (h : l.getL2CacheEntry = .ok e) : l.copy = some e.copy := by
  rw [copy, present_eq_ok.1 h]
  rfl

/-- What the machine `k` has of the value. -/
def Block.copyAt (s : Block n) : MachineID n → Option Copy
  | .L1Cache i => (s.l1 i).copy
  | .L2Cache => s.l2.copy
  | .Directory => some ⟨s.dir.dataBlk, false⟩

/-- The machine `k` has the entry `e`, which is its copy, and `put` replaces it. -/
structure HasCopy {State : Type} (k : MachineID n) (s : Block n) (e : Entry State) (put : Entry State → Block n) :
    Prop extends HasEntry k s e put where
  copy : s.copyAt k = some e.copy
  copy_put : ∀ e', (put e').copyAt k = some e'.copy
  log : ∀ e', (put e').log = s.log
  dataBlk : ∀ e', (put e').dir.dataBlk = s.dir.dataBlk

/-- The copy, if it is `valid`, is the value `v`; if it is an owner's, memory has `v` or the copy is dirty. -/
structure Held (v mem : DataBlock) (valid own : Bool) (o : Option Copy) : Prop where
  data : valid → ∃ c, o = some c ∧ c.dataBlk = v
  owner : own → ∃ c, o = some c ∧ (c.dirty ∨ mem = v)

/-- A message with data has the value, and with the owner token memory has it too or the message is dirty. -/
structure ResponseMsg.Good (v mem : DataBlock) (m : ResponseMsg n) : Prop where
  tokens : m.type.hasData ∨ m.type.owner → 1 ≤ m.tokens
  data : m.type.hasData → m.dataBlk = v
  owner : m.type.owner → (m.dirty ∧ m.type ≠ .ACK_OWNER) ∨ mem = v

/-- The copy of the L1 cache `i` is right for its state. -/
def L1.Good (v mem : DataBlock) (i : Fin n) (l : L1 n) : Prop :=
  ∀ q, l.getState i = .ok q → Held v mem q.readable q.owner l.copy

/-- The copy of the L2 bank is right for its state. -/
def L2.Good (v mem : DataBlock) (l : L2 n) : Prop := Held v mem l.getState.readable l.getState.owner l.copy

/-- Memory has the value when the directory is the owner. -/
def Directory.Good (v : DataBlock) (d : Directory n) : Prop := d.getState.owner → d.dataBlk = v ∧ 1 ≤ d.tokens

theorem ResponseMsg.Good.of_plain (hd : m.type.hasData = false) (ho : m.type.owner = false) : m.Good v mem := by
  refine ⟨fun h => ?_, fun h => ?_, fun h => ?_⟩
  · rw [hd, ho] at h
    exact (h.elim nofun nofun : False).elim
  · rw [hd] at h
    cases h
  · rw [ho] at h
    cases h

/-- What a valid copy sends is good. -/
theorem Sent.good {State : Type} {types : List CoherenceResponseType} {k : Int} {e : Entry State} (h : Sent types k e m)
    (hk : k < e.tokens) (hv : e.dataBlk = v)
    (ho : m.type.owner → e.dirty ∨ mem = v) : m.Good v mem := by
  refine ⟨fun _ => ?_, fun hd => (h.dataBlk (.inl hd)).trans hv, fun hm => ?_⟩
  · rw [h.tokens]
    omega
  · rcases ho hm with hd | hmem
    · exact .inl ⟨(h.dirty hm).trans hd, fun ha => Bool.noConfusion (hd.symm.trans (h.clean ha))⟩
    · exact .inr hmem

namespace Block

/-- All places but the machine `k` are right for the value `v`. -/
structure Rest (k : MachineID n) (v : DataBlock) (s : Block n) : Prop where
  l1 : ∀ j, .L1Cache j ≠ k → (s.l1 j).Good v s.dir.dataBlk j
  l2 : .L2Cache ≠ k → s.l2.Good v s.dir.dataBlk
  dir : .Directory ≠ k → s.dir.Good v
  response : ∀ m ∈ s.responses, m.Good v s.dir.dataBlk

/-- There is one owner, and every place is right for the last store; there is no DMA. -/
structure Valued (d : DataBlock) (s : Block n) : Prop where
  one : s.weigh owners = 1
  l1 : ∀ j, (s.l1 j).Good (lastStore d s.log) s.dir.dataBlk j
  l2 : s.l2.Good (lastStore d s.log) s.dir.dataBlk
  dir : s.dir.Good (lastStore d s.log)
  response : ∀ m ∈ s.responses, m.Good (lastStore d s.log) s.dir.dataBlk
  base : s.dir.directoryState.base ∧ s.dir.tbe = none
  dma : s.dmaRequestToDir = []

theorem Valued.rest {d : DataBlock} {s : Block n} (h : s.Valued d) (k : MachineID n) : s.Rest k (lastStore d s.log) :=
  ⟨fun j _ => h.l1 j, fun _ => h.l2, fun _ => h.dir, h.response⟩

end Block

/-! ## Keeping what is right -/

section mono

variable {v mem mem' : DataBlock} {valid own : Bool} {o : Option Copy}

theorem held_entry {State : Type} {e : Entry State} : Held v mem valid own (some e.copy) ↔
    (valid → e.dataBlk = v) ∧ (own → e.dirty ∨ mem = v) := by
  refine ⟨fun h => ⟨fun hv => ?_, fun ho => ?_⟩, fun h => ⟨fun hv => ⟨_, rfl, h.1 hv⟩, fun ho => ⟨_, rfl, h.2 ho⟩⟩⟩
  · obtain ⟨c, hc, hv⟩ := h.data hv
    cases hc
    exact hv
  · obtain ⟨c, hc, ho⟩ := h.owner ho
    cases hc
    exact ho

theorem Held.mono {valid' own' : Bool} (h : Held v mem valid own o) (hv : valid' → valid)
    (ho : own' → own) : Held v mem valid' own' o :=
  ⟨fun h' => h.data (hv h'), fun h' => h.owner (ho h')⟩

/-- Memory may be written with the value. -/
theorem Held.memory (h : Held v mem valid own o) (hm : mem' = mem ∨ mem' = v) : Held v mem' valid own o := by
  refine ⟨h.data, fun ho => ?_⟩
  obtain ⟨c, hc, hv⟩ := h.owner ho
  rcases hm with rfl | rfl
  · exact ⟨c, hc, hv⟩
  · exact ⟨c, hc, .inr rfl⟩

theorem ResponseMsg.Good.memory {m : ResponseMsg n} (h : m.Good v mem) (hm : mem' = mem ∨ mem' = v) :
    m.Good v mem' := by
  refine ⟨h.tokens, h.data, fun ho => ?_⟩
  rcases hm with rfl | rfl
  · exact h.owner ho
  · exact .inr rfl

namespace Block

variable {s s' : Block n} {k : MachineID n}

/-- What the machine does to itself leaves the rest good. -/
theorem Rest.beside (h : s.Rest k v) (hb : Beside k s s') (hm : s'.dir.dataBlk = s.dir.dataBlk ∨ s'.dir.dataBlk = v) :
    s'.Rest k v := by
  refine ⟨fun j hj q hq => ?_, fun h2 => ?_, fun hd => ?_, fun m hmem => ?_⟩
  · rw [hb.l1 j hj] at hq ⊢
    exact (h.l1 j hj q hq).memory hm
  · rw [hb.l2 h2]
    exact (h.l2 h2).memory hm
  · rw [hb.dir hd]
    exact h.dir hd
  · rw [hb.responses] at hmem
    exact (h.response m hmem).memory hm

theorem Rest.respond {m : ResponseMsg n} (h : s.Rest k v) (hm : m.Good v s.dir.dataBlk) : (s.respond m).Rest k v := by
  refine ⟨h.l1, h.l2, h.dir, fun r hr => ?_⟩
  rcases mem_append.1 hr with hr | hr
  · exact h.response r hr
  · rw [mem_singleton.1 hr]
    exact hm

end Block

end mono

/-! ## Nobody else has tokens -/

section alone

variable {p : Params} {s : Block n} {k : MachineID n} {v v' mem : DataBlock}

/-- The counts of the caches other than `k` are right. -/
structure Block.CountedBut (p : Params) (k : MachineID n) (s : Block n) : Prop where
  l1 : ∀ j, .L1Cache j ≠ k → (s.l1 j).Counted p j
  l2 : .L2Cache ≠ k → s.l2.Counted p

section

variable (ha : s.Alone k) (hn : s.Nonneg) (hc : s.CountedBut p k) (hr : s.Rest k v)
include ha

include hn hc in
theorem Block.Alone.l1_unreadable {j : Fin n} {q : L1.State} (hj : .L1Cache j ≠ k) (hq : (s.l1 j).getState j = .ok q) :
    q.readable = false := by
  refine Bool.eq_false_iff.2 fun hr => ?_
  have h1 := (hc.l1 j hj).readable hq hr
  have h2 := hn.getTokens_le j
  have h3 := ha.l1 j hj
  omega

include hc in
theorem Block.Alone.l2_unreadable (h2 : .L2Cache ≠ k) : s.l2.getState.readable = false := by
  refine Bool.eq_false_iff.2 fun hr => ?_
  have h1 := (hc.l2 h2).readable hr
  have h3 := ha.l2 h2
  omega

include hr in
theorem Block.Alone.dir_owner (hd : .Directory ≠ k) : s.dir.getState.owner = false := by
  refine Bool.eq_false_iff.2 fun ho => ?_
  have h1 := (hr.dir hd ho).2
  have h2 := ha.dir hd
  omega

include hr in
theorem Block.Alone.response_plain {m : ResponseMsg n} (hm : m ∈ s.responses) :
    m.type.hasData = false ∧ m.type.owner = false := by
  have h0 := ha.response m hm
  have h1 := (hr.response m hm).tokens
  refine ⟨Bool.eq_false_iff.2 fun h => ?_, Bool.eq_false_iff.2 fun h => ?_⟩
  · have := h1 (.inl h)
    omega
  · have := h1 (.inr h)
    omega

include hn hc hr in
/-- Where one machine has all tokens, nobody else has a copy. -/
theorem Block.Alone.rest (v' : DataBlock) : s.Rest k v' := by
  refine ⟨fun j hj q hq => ?_, fun h2 => ?_, fun hd ho => ?_, fun m hm => ?_⟩
  · have hq' := ha.l1_unreadable hn hc hj hq
    exact ⟨fun h => (nomatch hq'.symm.trans h), fun h => (nomatch hq'.symm.trans (L1.State.readable_of_owner h))⟩
  · have hq' := ha.l2_unreadable hc h2
    exact ⟨fun h => (nomatch hq'.symm.trans h), fun h => (nomatch hq'.symm.trans (L2.State.readable_of_owner h))⟩
  · nomatch (ha.dir_owner hr hd).symm.trans ho
  · obtain ⟨hd, ho⟩ := ha.response_plain hr hm
    exact .of_plain hd ho

include hn hc hr in
theorem Block.Alone.besides_eq : s.besides owners k = 0 := by
  have h1 : ∀ j, .L1Cache j ≠ k → owners.l1 j (s.l1 j) = 0 := by
    intro j hj
    have : (s.l1 j).owner j = false := by
      refine Bool.eq_false_iff.2 fun ho => ?_
      obtain ⟨q, hq, ho⟩ := L1.owner_eq_true ho
      cases (ha.l1_unreadable hn hc hj hq).symm.trans (L1.State.readable_of_owner ho)
    simp only [owners, this, Bool.toInt_false]
  have h2 : .L2Cache ≠ k → owners.l2 s.l2 = 0 := by
    intro h2
    have : s.l2.getState.owner = false := by
      refine Bool.eq_false_iff.2 fun ho => ?_
      cases (ha.l2_unreadable hc h2).symm.trans (L2.State.readable_of_owner ho)
    simp only [owners, this, Bool.toInt_false]
  have h3 : .Directory ≠ k → owners.dir s.dir = 0 := by
    intro hd
    simp only [owners, ha.dir_owner hr hd, Bool.toInt_false]
  have h4 : (s.responses.map owners.msg).sum = 0 := by
    refine sum_eq_zero fun x hx => ?_
    obtain ⟨m, hm, rfl⟩ := mem_map.1 hx
    simp only [owners, (ha.response_plain hr hm).2, Bool.toInt_false]
  cases k with
  | L1Cache i =>
    have hs : ∑ j, owners.l1 j (s.l1 j) = owners.l1 i (s.l1 i) :=
      Finset.sum_eq_single i (fun j _ hj => h1 j fun he => hj (MachineID.L1Cache.inj he))
        fun h => absurd (Finset.mem_univ i) h
    simp only [besides, weigh, weighAt, hs, h2 (by simp), h3 (by simp), h4]
    omega
  | L2Cache | Directory =>
    have hs : ∑ j, owners.l1 j (s.l1 j) = 0 := Finset.sum_eq_zero fun j _ => h1 j (by simp)
    first
      | simp only [besides, weigh, weighAt, hs, h3 (by simp), h4]; omega
      | simp only [besides, weigh, weighAt, hs, h2 (by simp), h4]; omega

end

theorem Block.besides_owners_nonneg (s : Block n) (k : MachineID n) : 0 ≤ s.besides owners k := by
  have h1 : ∀ j ∈ Finset.univ, 0 ≤ owners.l1 j (s.l1 j) := fun _ _ => toInt_nonneg _
  have h2 : 0 ≤ owners.l2 s.l2 := toInt_nonneg _
  have h3 : 0 ≤ owners.dir s.dir := toInt_nonneg _
  have h4 : 0 ≤ (s.responses.map owners.msg).sum := by
    refine sum_nonneg fun x hx => ?_
    obtain ⟨m, -, rfl⟩ := mem_map.1 hx
    exact toInt_nonneg _
  have h5 := Finset.sum_nonneg h1
  cases k with
  | L1Cache i =>
    have h6 := Finset.single_le_sum h1 (Finset.mem_univ i)
    simp only [besides, weigh, weighAt]
    omega
  | L2Cache | Directory =>
    simp only [besides, weigh, weighAt]
    omega

end alone

/-- All tokens are there, so the owner token is. -/
theorem Block.Valued.owner_of_all {p : Params} {d : DataBlock} {s : Block n} {k : MachineID n} {m : ResponseMsg n}
    {own : Bool}
    (hv : s.Valued d) (hs : s.Conserved p) (hm : s.responses.head? = some m)
    (hall : p.maxTokens ≤ s.weighAt tokens k + m.tokens) (hown : s.weighAt owners k = own.toInt) :
    m.type.owner = !own := by
  obtain ⟨r, hr⟩ := head?_eq_some_iff.1 hm
  have ht : s = { s with responses := r }.hold (some m) := by
    rw [hold, Option.toList_some, singleton_append, ← hr]
  have hn : Nonneg { s with responses := r } :=
    { hs.nonneg with response := fun m' hm' => hs.nonneg.response m' (hr ▸ mem_cons_of_mem m hm') }
  have hat : weighAt tokens { s with responses := r } k = s.weighAt tokens k := by cases k <;> rfl
  have htotal := hs.total
  rw [ht, weigh_hold, tokens_msg] at htotal
  have ha : Alone k { s with responses := r } := by
    refine hn.alone ?_
    omega
  have hrest : Rest k (lastStore d s.log) { s with responses := r } :=
    ⟨fun j _ => hv.l1 j, fun _ => hv.l2, fun _ => hv.dir,
      fun m' hm' => hv.response m' (hr ▸ mem_cons_of_mem m hm')⟩
  have hbesides := ha.besides_eq hn ⟨fun j _ => hs.l1 j, fun _ => hs.l2⟩ hrest
  have hone := hv.one
  rw [weigh_eq k, hown, ht, besides_hold, hbesides, show owners.msg m = m.type.owner.toInt from rfl] at hone
  cases own <;> cases hmo : m.type.owner <;> rw [hmo] at hone <;> first | rfl | cases hone

/-! ## In the middle of a rule -/

/-- Between two actions of a machine: whether it is the owner, whether its copy is valid, and whether the response that
is handled has the owner token and data. -/
structure Know extends Abs where
  own : Bool
  valid : Bool
  mo : Bool
  md : Bool

/-- All is done, with the owner token in the states for it, and a valid copy in the readable states. -/
def Know.settled (x : Know) (owner readable : Bool) : Bool := x.done && x.own == owner && (!readable || x.valid)

theorem Know.settled_iff {x : Know} {owner readable : Bool} : x.settled owner readable ↔
    x.done ∧ x.own = owner ∧ (readable → x.valid) := by
  simp [settled, or_iff_not_imp_left, and_assoc]

theorem eq_some_of_allowed {K : Type} {allowed : Bool} {y : Option Abs} {after : Abs → K} {k : K}
    (h : (if allowed then y.map after else none) = some k) : allowed ∧ ∃ z, y = some z ∧ k = after z := by
  split at h
  case isFalse => cases h
  case isTrue ha =>
    obtain ⟨z, hz, rfl⟩ := Option.map_eq_some_iff.1 h
    exact ⟨ha, z, hz, rfl⟩

/-- The number of owners that the machine and the response are. -/
def Know.owners (x : Know) : Int := x.own.toInt + (x.owed && x.mo).toInt

theorem Know.owners_take {x : Know} {c : Count} (hx : x.own → x.mo = false) (ho : x.owed) :
    owners { x with count := c, owed := false, own := x.own || x.mo } = x.owners := by
  simp only [owners, ho, Bool.false_and, Bool.true_and, Bool.toInt_false]
  cases hxo : x.own with
  | true => rw [hx hxo]; rfl
  | false => cases x.mo <;> rfl

/-- In the middle of a rule of the machine `k`, whose copy is `o`: the block without the response `m` that is handled is
as `x` tells. -/
structure World (k : MachineID n) (m : ResponseMsg n) (d : DataBlock) (x : Know) (o : Option Copy) (t : Block n) :
    Prop where
  rest : t.Rest k (lastStore d t.log)
  one : t.besides owners k + x.owners = 1
  response : x.owed → m.Good (lastStore d t.log) t.dir.dataBlk
  kind : x.owed → m.type.owner = x.mo ∧ (x.md → m.type.hasData)
  held : Held (lastStore d t.log) t.dir.dataBlk x.valid x.own o

theorem Block.hold_inj {s t : Block n} {m : Option (ResponseMsg n)} (h : s.hold m = t.hold m) : s = t := by
  obtain ⟨⟩ := s
  obtain ⟨⟩ := t
  simp only [hold, mk.injEq, append_cancel_left_eq] at h
  simpa only [mk.injEq] using h

/-- From `x` to `y` the response is the same, or done with. -/
structure Know.Later (x y : Know) : Prop where
  hand : y.hand = x.hand
  owed : y.owed → x.owed
  mo : y.mo = x.mo
  md : y.md = x.md

theorem Know.Later.refl {x : Know} : x.Later x := ⟨rfl, id, rfl, rfl⟩

/-- The block `s` with the response that is handled, if it is still there, is as `x` tells. -/
def Within (k : MachineID n) (m : ResponseMsg n) (d : DataBlock) (x : Know) (o : Option Copy) (s : Block n) : Prop :=
  ∃ t, s = t.hold (if x.hand then some m else none) ∧ World k m d x o t

namespace Within

variable {k : MachineID n} {m m' m₁ : ResponseMsg n} {d v : DataBlock} {x y : Know} {o o' : Option Copy}
  {s s' : Block n}

section

variable (h : Within k m d x o s)

include h

theorem held : Held (lastStore d s.log) s.dir.dataBlk x.valid x.own o := by
  obtain ⟨t, rfl, ht⟩ := h
  exact ht.held

theorem response (hx : x.owed) : m.Good (lastStore d s.log) s.dir.dataBlk := by
  obtain ⟨t, rfl, ht⟩ := h
  exact ht.response hx

theorem kind (hx : x.owed) : m.type.owner = x.mo ∧ (x.md → m.type.hasData) := by
  obtain ⟨t, -, ht⟩ := h
  exact ht.kind hx

theorem inResponse (hx : x.hand) (hm : s.inResponse = .ok m') : m' = m := by
  obtain ⟨t, rfl, -⟩ := h
  rw [if_pos hx] at hm
  exact Except.ok.inj (hm.symm.trans (Block.inResponse_hold m))

theorem change (hb : s.Beside k s') (hlog : lastStore d s'.log = lastStore d s.log)
    (hdir : s'.dir.dataBlk = s.dir.dataBlk) (hxy : x.Later y) (ho : y.owners = x.owners)
    (hc : Held (lastStore d s.log) s.dir.dataBlk y.valid y.own o') : Within k m d y o' s' := by
  obtain ⟨t, rfl, h⟩ := h
  obtain ⟨hs, hb'⟩ := hb.unhold
  refine ⟨{ s' with responses := t.responses }, ?_, ?_, ?_, fun hy => ?_, fun hy => ?_, ?_⟩
  · rw [hxy.hand]
    exact hs
  · exact (show lastStore d s'.log = lastStore d t.log from hlog) ▸ h.rest.beside hb' (.inl hdir)
  · rw [hb'.besides_eq, ho]
    exact h.one
  · rw [hlog, hdir]
    exact h.response (hxy.owed hy)
  · rw [hxy.mo, hxy.md]
    exact h.kind (hxy.owed hy)
  · rw [hlog, hdir]
    exact hc

/-- Less is known. -/
theorem mono (hxy : x.Later y) (ho : y.owners = x.owners) (hv : y.valid → x.valid)
    (hown : y.own → x.own) : Within k m d y o s :=
  h.change .refl rfl rfl hxy ho (h.held.mono hv hown)

/-- The copy is given up. -/
theorem forget {a : Abs} (hx : x.own = false) (ha : a.hand = x.hand ∧ a.owed = x.owed) (hb : s.Beside k s')
    (hlog : s'.log = s.log) (hdir : s'.dir.dataBlk = s.dir.dataBlk) :
    Within k m d { x with toAbs := a, valid := false } o' s' := by
  refine h.change hb (by rw [hlog]) hdir ⟨ha.1, ha.2 ▸ id, rfl, rfl⟩ ?_ ⟨by simp, fun ho => ?_⟩
  · simp only [Know.owners, ha.2]
  · cases hx.symm.trans ho

theorem respond (hm : m'.Good (lastStore d s.log) s.dir.dataBlk) (hxy : x.Later y)
    (ho : y.owners + m'.type.owner.toInt = x.owners) (hc : Held (lastStore d s.log) s.dir.dataBlk y.valid y.own o) :
    Within k m d y o (s.respond m') := by
  obtain ⟨t, rfl, h⟩ := h
  refine ⟨t.respond m', ?_, h.rest.respond hm, ?_, fun hy => h.response (hxy.owed hy), fun hy => ?_, hc⟩
  · rw [hxy.hand]
    exact Block.hold_respond _ _
  · have h1 := h.one
    rw [Block.besides_respond, show owners.msg m' = m'.type.owner.toInt from rfl]
    omega
  · rw [hxy.mo, hxy.md]
    exact h.kind (hxy.owed hy)

theorem inform (hd : m'.type.hasData = false) (ho : m'.type.owner = false) : Within k m d x o (s.respond m') :=
  h.respond (.of_plain hd ho) .refl (by rw [ho]; exact Int.add_zero _) h.held

/-- The response is sent on. -/
theorem bounce {a : Abs} (ha : x.settle x.count = some a) (hi : s.inResponse = .ok m₁)
    (hm : m₁.Good (lastStore d s.log) s.dir.dataBlk → m'.Good (lastStore d s.log) s.dir.dataBlk)
    (ht : m'.type.owner = m₁.type.owner) : Within k m d { x with toAbs := a } o (s.respond m') := by
  obtain ⟨hh, ho, rfl⟩ := Abs.settle_eq ha
  cases h.inResponse hh hi
  refine h.respond (hm (h.response ho)) ⟨rfl, nofun, rfl, rfl⟩ ?_ h.held
  simp only [Know.owners, ho, ht, (h.kind ho).1, Bool.false_and, Bool.true_and, Bool.toInt_false]
  omega

theorem pop {a : Abs} (ha : x.drop = some a) : Within k m d { x with toAbs := a } o s.popResponse := by
  obtain ⟨t, rfl, h⟩ := h
  obtain ⟨⟨c, hand, owed⟩, own, valid, mo, md⟩ := x
  cases hand with
  | false => cases ha
  | true =>
    cases ha
    exact ⟨t, Block.popResponse_hold m, h.rest, h.one, h.response, h.kind, h.held⟩

omit h in
/-- The directory writes the value to memory. -/
theorem memory (h : Within .Directory m d x o s) {l : Directory n} (hl : l.dataBlk = lastStore d s.log) :
    Within .Directory m d { x with valid := true } (some ⟨l.dataBlk, false⟩) (s.setDir l) := by
  obtain ⟨t, rfl, h⟩ := h
  have hb : t.Beside .Directory (t.setDir l) := .setDir l
  refine ⟨t.setDir l, rfl, h.rest.beside hb (.inr hl), ?_, fun hy => (h.response hy).memory (.inr hl), h.kind, ?_⟩
  · rw [hb.besides_eq]
    exact h.one
  · exact ⟨fun _ => ⟨_, rfl, hl⟩, fun _ => ⟨_, rfl, .inr hl⟩⟩

theorem not_two (hx : x.owed) : ¬ (x.own ∧ x.mo) := by
  rintro ⟨hown, hmo⟩
  obtain ⟨t, -, h⟩ := h
  have h0 := t.besides_owners_nonneg k
  have h1 := h.one
  rw [Know.owners, hx, hown, hmo] at h1
  simp only [Bool.and_self, Bool.toInt_true] at h1
  omega

/-- A store: the others must not have copies. -/
theorem store (hx : x.owed = false) (hb : s.Beside k s')
    (hdir : s'.dir.dataBlk = s.dir.dataBlk) (hr : ∀ t : Block n, s = t.hold (if x.hand then some m else none) →
      t.Rest k (lastStore d t.log) → t.Rest k (lastStore d s'.log))
    (hc : Held (lastStore d s'.log) s.dir.dataBlk true x.own o') : Within k m d { x with valid := true } o' s' := by
  obtain ⟨t, rfl, h⟩ := h
  obtain ⟨hs, hb'⟩ := hb.unhold
  refine ⟨{ s' with responses := t.responses }, hs, (hr t rfl h.rest).beside hb' (.inl hdir), ?_, fun hy => ?_,
    fun hy => ?_, ?_⟩
  · rw [hb'.besides_eq]
    exact h.one
  · nomatch hx.symm.trans hy
  · nomatch hx.symm.trans hy
  · rw [hdir]
    exact hc

omit h in
theorem start (hv : s.Valued d) (hx : x.owed → x.hand) (hm : x.hand → s.responses.head? = some m)
    (hown : s.weighAt owners k = x.own.toInt) (hmo : x.hand → m.type.owner = (x.owed && x.mo))
    (hmd : x.owed → x.md → m.type.hasData)
    (hc : Held (lastStore d s.log) s.dir.dataBlk x.valid x.own o) : Within k m d x o s := by
  have hone := hv.one
  rw [Block.weigh_eq k, hown] at hone
  cases hh : x.hand with
  | false =>
    have ho : x.owed = false := Bool.eq_false_iff.2 fun ho => nomatch hh.symm.trans (hx ho)
    refine ⟨s, by rw [hh]; rfl, hv.rest k, ?_, fun h => ?_, fun h => ?_, hc⟩
    · rw [Know.owners, ho]
      simpa only [Bool.false_and, Bool.toInt_false, Int.add_zero] using hone
    all_goals nomatch ho.symm.trans h
  | true =>
    obtain ⟨r, hr⟩ := head?_eq_some_iff.1 (hm hh)
    have hs : s = { s with responses := r }.hold (some m) := by
      rw [Block.hold, Option.toList_some, singleton_append, ← hr]
    have hgood : m.Good (lastStore d s.log) s.dir.dataBlk := hv.response m (hr ▸ mem_cons_self)
    refine ⟨{ s with responses := r }, by rw [hh]; exact hs, ?_, ?_, fun _ => hgood, fun ho => ⟨?_, hmd ho⟩, hc⟩
    · exact ⟨fun j _ => hv.l1 j, fun _ => hv.l2, fun _ => hv.dir,
        fun m' hm' => hv.response m' (hr ▸ mem_cons_of_mem m hm')⟩
    · rw [hs, Block.besides_hold, show owners.msg m = m.type.owner.toInt from rfl, hmo hh] at hone
      rw [Know.owners]
      omega
    · rw [hmo hh, ho, Bool.true_and]

/-- When the rule is done there is one owner, and the rest is good. -/
theorem finish (hx : x.done) (hb : s.Beside k s')
    (hdir : s'.dir.dataBlk = s.dir.dataBlk) (hown : s'.weighAt owners k = x.own.toInt) :
    s'.weigh owners = 1 ∧ s'.Rest k (lastStore d s.log) := by
  obtain ⟨t, ht, h⟩ := h
  obtain ⟨hh, ho⟩ := Abs.done_iff.1 hx
  rw [hh] at ht
  obtain rfl : s = t := ht
  refine ⟨?_, h.rest.beside hb (.inl hdir)⟩
  have hone := h.one
  rw [Know.owners, ho] at hone
  rw [Block.weigh_eq k, hb.besides_eq, hown]
  simpa only [Bool.false_and, Bool.toInt_false, Int.add_zero] using hone

end

/-! ## The copy in an entry -/

section entry

variable {State : Type} {e e' : Entry State} {put : Entry State → Block n} {types : List CoherenceResponseType}
  {j : Int} {c : Count} {a : Abs} (h : Within k m d x (s.copyAt k) s) (he : HasCopy k s e put)

include h he

theorem entry : (x.valid → e.dataBlk = lastStore d s.log) ∧ (x.own → e.dirty ∨ s.dir.dataBlk = lastStore d s.log) :=
  held_entry.1 (he.copy ▸ h.held)

theorem setEntry (hxy : x.Later y) (ho : y.owners = x.owners)
    (hc : Held (lastStore d s.log) s.dir.dataBlk y.valid y.own (some e'.copy)) :
    Within k m d y ((put e').copyAt k) (put e') := by
  rw [he.copy_put]
  exact h.change (he.beside e') (by rw [he.log]) (he.dataBlk e') hxy ho hc

/-- The tokens of the response are taken over, and the owner token with them. -/
theorem take (hx : !(x.own && x.mo)) (ha : x.settle c = some a) (hv : e'.dataBlk = e.dataBlk) (hd : e.dirty → e'.dirty)
    (hm : m.type.owner → m.dirty ∧ m.type ≠ .ACK_OWNER → e'.dirty) :
    Within k m d { x with toAbs := a, own := x.own || x.mo } ((put e').copyAt k) (put e') := by
  obtain ⟨-, ho, rfl⟩ := Abs.settle_eq ha
  simp only [Bool.not_eq_true', Bool.and_eq_false_imp] at hx
  obtain ⟨hvalid, hown⟩ := h.entry he
  refine h.setEntry he ⟨rfl, nofun, rfl, rfl⟩ (Know.owners_take hx ho)
    (held_entry.2 ⟨fun hy => hv.trans (hvalid hy), fun hy => ?_⟩)
  rcases Bool.or_eq_true_iff.1 hy with hy | hy
  · exact (hown hy).imp_left hd
  · have ht := (h.kind ho).1.trans hy
    exact ((h.response ho).owner ht).imp_left (hm ht)

/-- The data of the response is taken over. -/
theorem fill (hx : x.hand && x.owed && x.md) :
    let s' := put { e with dataBlk := m.dataBlk, dirty := e.dirty || m.dirty }
    Within k m d { x with valid := true } (s'.copyAt k) s' := by
  simp only [Bool.and_eq_true] at hx
  refine h.setEntry he ⟨rfl, id, rfl, rfl⟩ rfl (held_entry.2 ⟨fun _ => ?_, fun hy => ?_⟩)
  · exact (h.response hx.1.2).data ((h.kind hx.1.2).2 hx.2)
  · exact ((h.entry he).2 hy).imp_left fun hd => by rw [hd]; rfl

/-- Data or the owner token is sent from a valid copy. -/
theorem sent (hm : Sent types j e m') (hdata : m'.type.hasData ∨ m'.type.owner → x.valid ∧ j < e.tokens)
    (hown : m'.type.owner → x.own) :
    let s' := (put { e with tokens := j }).respond m'
    Within k m d { x with count := c, own := x.own && !m'.type.owner } (s'.copyAt k) s' := by
  have hheld := h.entry he
  have hgood : m'.Good (lastStore d s.log) s.dir.dataBlk := by
    by_cases hp : m'.type.hasData ∨ m'.type.owner
    · exact hm.good (hdata hp).2 (hheld.1 (hdata hp).1) fun ho => hheld.2 (hown ho)
    · obtain ⟨h1, h2⟩ := not_or.1 hp
      exact .of_plain (Bool.eq_false_iff.2 h1) (Bool.eq_false_iff.2 h2)
  have hput : Within k m d x ((put { e with tokens := j }).copyAt k) (put { e with tokens := j }) :=
    h.setEntry he .refl rfl (held_entry.2 hheld)
  rw [← he.log { e with tokens := j }, ← he.dataBlk { e with tokens := j }] at hgood
  have hc : ((put { e with tokens := j }).respond m').copyAt k =
    (put { e with tokens := j }).copyAt k := by cases k <;> rfl
  dsimp only
  refine hput.respond hgood ⟨rfl, id, rfl, rfl⟩ ?_ (hput.held.mono id fun ho => (Bool.and_eq_true_iff.1 ho).1)
  cases ho : m'.type.owner with
  | true => simp only [Know.owners, hown ho, Bool.not_true, Bool.and_false, Bool.toInt_true, Bool.toInt_false]; omega
  | false => simp only [Know.owners, Bool.not_false, Bool.and_true, Bool.toInt_false]; omega

theorem gives {own : Bool} (hg : Gives s e put types j s')
    (ht : ∀ t ∈ types, t.owner = own ∧ (t.hasData → x.valid ∧ 0 < e.tokens))
    (hown : own → x.own ∧ x.valid ∧ j < e.tokens) :
    Within k m d { x with count := c, own := x.own && !own } (s'.copyAt k) s' := by
  rcases hg with ⟨he', rfl⟩ | ⟨m', hm, hlt, rfl⟩
  · -- nothing is left to send, so the owner token is not sent
    obtain rfl : own = false := Bool.eq_false_iff.2 fun ho => absurd he' (hown ho).2.2.ne'
    rw [Bool.not_false, Bool.and_true]
    exact h.mono ⟨rfl, id, rfl, rfl⟩ rfl id id
  · obtain ⟨rfl, hd⟩ := ht _ hm.type
    refine h.sent he hm (fun hp => ?_) fun ho => (hown ho).1
    rcases hp with hp | hp
    · exact ⟨(hd hp).1, hlt (hd hp).2⟩
    · exact (hown hp).2

end entry

end Within

end M5.Ruby.Token
