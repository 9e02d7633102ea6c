import M5.Lib.Lists
import M5.Lib.Run
import M5.Ruby.Token.Directory
import M5.Ruby.Token.L1Cache
import M5.Ruby.Token.L2Cache

/-!
# MOESI_CMP_token: the system and its steps

One step of the system is a step at one block: a message, a timer, a request of a processor or of a DMA controller, or a
replacement. It is an event at one of the machines, after a message has come to the front and the table of persistent
requests has been changed. What a processor or the directory has issued as a persistent request is shared by all blocks.
-/

namespace M5.Ruby.Token

open M5.Lib Function

variable {n : Nat}

inductive Label (n : Nat)
  /-- A request of a processor; `avail` tells whether there is room for the block. -/
  | mandatory (i : Fin n) (type : Block.CacheRequestType) (avail : Bool) (write : DataBlock → DataBlock)
  /-- An L1 cache makes room for another block. -/
  | l1Replacement (i : Fin n)
  /-- The L2 bank makes room for another block. -/
  | l2Replacement
  | useTimer (i : Fin n)
  | l1ReissueTimer (i : Fin n)
  | dirReissueTimer
  /-- The response number `k` arrives. -/
  | response (k : Nat) (avail : Bool) (write : DataBlock → DataBlock)
  | request (k : Nat)
  | globalRequest (k : Nat)
  | persistent (src dst : MachineID n)
  | memory (k : Nat)
  | dmaRequest
  /-- A DMA controller sends a request. -/
  | dma (m : DMARequestMsg)

namespace Block

/-- Handle what the label says. -/
def handle (p : Params) (s : Block n) : Label n → Except Fault (Block n)
  | .mandatory i type avail write => s.l1MandatoryQueueIn p i write type avail
  | .l1Replacement i => s.l1Trigger p i id .L1_Replacement
  | .l2Replacement => s.l2Trigger p .L2_Replacement
  | .useTimer i => s.l1UseTimerTableIn p i id
  | .l1ReissueTimer i => s.l1ReissueTimerTableIn p i id
  | .dirReissueTimer => s.dirReissueTimerTableIn p
  | .response k avail write =>
    match pick k s.responses with
    | none => .ok s
    | some (m, l) =>
      match m.destination with
      | .L1Cache i => { s with responses := l }.l1ResponseNetworkIn p i write m
      | .L2Cache => { s with responses := l }.l2ResponseNetworkIn p avail m
      | .Directory => { s with responses := l }.dirResponseNetworkIn p m
  | .request k =>
    match pick k s.requests with
    | some ((.L1Cache i, r), l) => { s with requests := l }.l1RequestNetworkIn p i id r
    | some ((.L2Cache, r), l) => { s with requests := l }.l1RequestNetworkL2In p r
    | _ => .ok s
  | .globalRequest k =>
    match pick k s.globalRequests with
    | some ((.L2Cache, r), l) => { s with globalRequests := l }.l2RequestNetworkIn p r
    | some ((.Directory, r), l) => { s with globalRequests := l }.dirRequestNetworkIn p r
    | _ => .ok s
  | .persistent src dst =>
    match dst with
    | .L1Cache i => s.l1PersistentNetworkIn p i id src
    | .L2Cache => s.l2PersistentNetworkIn p src
    | .Directory => s.dirPersistentNetworkIn p src
  | .memory k =>
    match pick k s.memBuffer with
    | none => .ok s
    | some (m, l) => { s with memBuffer := l }.memQueueIn p m
  | .dmaRequest => s.dmaRequestQueueIn p
  | .dma m => .ok { s with dmaRequestToDir := s.dmaRequestToDir ++ [m] }

end Block

/-- All blocks, by address, and who has a persistent request outstanding. -/
structure System (n : Nat) where
  blocks : Nat → Block n
  l1Starving : Fin n → Bool
  dirStarving : Bool

namespace System

/-- The directory has all tokens of every block, and memory has `d`. -/
def init (p : Params) (d : Nat → DataBlock) : System n where
  blocks := fun a => .init p (d a)
  l1Starving := fun _ => false
  dirStarving := false

/-- The block at `a`, with the flags of the machines. -/
def load (s : System n) (a : Nat) : Block n :=
  { s.blocks a with l1Starving := s.l1Starving, dirStarving := s.dirStarving }

/-- The block at `a` is now `b`. -/
def store (s : System n) (a : Nat) (b : Block n) : System n where
  blocks := update s.blocks a b
  l1Starving := b.l1Starving
  dirStarving := b.dirStarving

/-- One step of the system, at the block of this address. -/
def Step (p : Params) (s : System n) (l : Nat × Label n) (s' : System n) : Prop :=
  ∃ b, (s.load l.1).handle p l.2 = .ok b ∧ s' = s.store l.1 b

variable {d : Nat → DataBlock} {p : Params}

/-- What holds of every block at the start, does not depend on the flags and is kept by every step of a block that meets
the condition `C` holds of every block in every run of such steps. -/
theorem invariant_when {s : System n} {ls : List (Nat × Label n)}
    {C : Block n → Label n → Prop} {I : Nat → Block n → Prop}
    (h : Run (fun s l s' => C (s.load l.1) l.2 ∧ Step p s l s') (init p d) ls s) (h0 : ∀ a, I a (.init p (d a)))
    (hflag : ∀ a b f g, I a b → I a { b with l1Starving := f, dirStarving := g })
    (hstep : ∀ a b l b', I a b → C b l → Block.handle p b l = .ok b' → I a b') (a : Nat) : I a (s.blocks a) := by
  refine h.invariant (I := fun s => ∀ a, I a (s.blocks a)) h0 ?_ a
  intro x l y hx hs b
  obtain ⟨hC, c, hc, rfl⟩ := hs
  rcases eq_or_ne b l.1 with rfl | hb
  · show I l.1 (update x.blocks l.1 c l.1)
    rw [update_self]
    exact hstep _ _ _ _ (hflag _ _ _ _ (hx _)) hC hc
  · show I b (update x.blocks l.1 c b)
    rw [update_of_ne hb]
    exact hx b

/-- What every step at a block keeps holds of every block in every run. -/
theorem invariant {s : System n} {ls : List (Nat × Label n)} {I : Nat → Block n → Prop}
    (h : Run (Step p) (init p d) ls s) (h0 : ∀ a, I a (.init p (d a)))
    (hflag : ∀ a b f g, I a b → I a { b with l1Starving := f, dirStarving := g })
    (hstep : ∀ a b l b', I a b → Block.handle p b l = .ok b' → I a b') (a : Nat) : I a (s.blocks a) :=
  invariant_when (C := fun _ _ => True) (h.mono fun hs => ⟨trivial, hs⟩) h0 hflag
    (fun a b l b' hb _ hs => hstep a b l b' hb hs) a

theorem load_store (s : System n) (a : Nat) (b : Block n) : (s.store a b).load a = b := by
  simp only [load, store, update_self]

theorem run_of_block_when {a : Nat} {ls : List (Label n)} {b : Block n}
    {C : Block n → Label n → Prop} (h : Run (fun x l y => C x l ∧ Block.handle p x l = .ok y) (.init p (d a)) ls b) :
    Run (fun s l s' => C (s.load l.1) l.2 ∧ Step p s l s') (init p d) (ls.map (a, ·))
      ((init p d).store a b) := by
  induction h with
  | nil =>
    have hs : (init p d : System n).store a (.init p (d a)) = init p d := by
      have hb : update (init p d : System n).blocks a (.init p (d a)) = (init p d).blocks :=
        update_eq_self a _
      rw [store, hb]
      rfl
    rw [hs]
    exact .nil
  | @snoc ls t u l _ hs ih =>
    rw [List.map_append]
    refine ih.snoc ⟨?_, u, ?_, ?_⟩
    · rw [load_store]
      exact hs.1
    · rw [load_store]
      exact hs.2
    · simp only [store, update_idem]

theorem run_of_block {a : Nat} {ls : List (Label n)} {b : Block n}
    (h : Run (fun x l y => Block.handle p x l = .ok y) (.init p (d a)) ls b) :
    Run (Step p) (init p d) (ls.map (a, ·)) ((init p d).store a b) :=
  (run_of_block_when (h.mono fun hs => ⟨trivial, hs⟩)).mono And.right

end System

/-! ## What a step is -/

variable {n : Nat}

variable (p : Params) (s : Block n)

/-- The first response, with what is known of it. -/
def Block.Responds (φ : ResponseMsg n → Prop) : Prop := ∃ m, s.responses.head? = some m ∧ φ m

theorem Block.Responds.ne_nil {s : Block n} {φ : ResponseMsg n → Prop} (h : s.Responds φ) : s.responses ≠ [] := by
  obtain ⟨m, hm, -⟩ := h
  intro hn
  rw [hn] at hm
  cases hm

theorem Block.Responds.head {s : Block n} {φ : ResponseMsg n → Prop} {m : ResponseMsg n} (h : s.Responds φ)
    (hm : s.responses.head? = some m) : φ m := by
  obtain ⟨m', hm', hφ⟩ := h
  cases hm.symm.trans hm'
  exact hφ

/-- What an event at the L1 cache `i` tells about a response. -/
def L1.Occurs (i : Fin n) (s : Block n) : Event → Prop
  | .Ack => s.Responds fun m => m.type = .ACK ∧ (s.l1 i).getTokens + m.tokens ≠ p.maxTokens
  | .Data_Owner => s.Responds fun m => m.type = .DATA_OWNER ∧ (s.l1 i).getTokens + m.tokens ≠ p.maxTokens
  | .Data_Shared => s.Responds fun m => m.type = .DATA_SHARED ∧ (s.l1 i).getTokens + m.tokens ≠ p.maxTokens
  | .Ack_All_Tokens => s.Responds fun m => m.type = .ACK ∧ (s.l1 i).getTokens + m.tokens = p.maxTokens
  | .Data_All_Tokens =>
    s.Responds fun m => (m.type = .DATA_OWNER ∨ m.type = .DATA_SHARED) ∧ (s.l1 i).getTokens + m.tokens = p.maxTokens
  | _ => True

/-- What an event at the L2 bank tells about a response, or about the count. -/
def L2.Occurs : Event → Prop
  | .L1_INV => s.Responds fun m => m.type = .INV
  | .Ack => s.Responds fun m => m.type = .ACK ∧ s.l2.getTokens + m.tokens ≠ p.maxTokens
  | .Data_Owner => s.Responds fun m => m.type = .DATA_OWNER ∧ s.l2.getTokens + m.tokens ≠ p.maxTokens
  | .Data_Shared => s.Responds fun m => m.type = .DATA_SHARED ∧ s.l2.getTokens + m.tokens ≠ p.maxTokens
  | .Ack_All_Tokens => s.Responds fun m => m.type = .ACK ∧ s.l2.getTokens + m.tokens = p.maxTokens
  | .Data_All_Tokens =>
    s.Responds fun m => (m.type = .DATA_OWNER ∨ m.type = .DATA_SHARED) ∧ s.l2.getTokens + m.tokens = p.maxTokens
  | .Writeback_Tokens => s.Responds fun m => m.type = .WB_TOKENS ∧ s.l2.getTokens + m.tokens ≠ p.maxTokens
  | .Writeback_Shared_Data => s.Responds fun m => m.type = .WB_SHARED_DATA ∧ s.l2.getTokens + m.tokens ≠ p.maxTokens
  | .Writeback_Owned => s.Responds fun m => m.type = .WB_OWNED ∧ s.l2.getTokens + m.tokens ≠ p.maxTokens
  | .Writeback_All_Tokens =>
    s.Responds fun m => s.l2.getTokens + m.tokens = p.maxTokens ∧ (m.type = .WB_OWNED ∨ m.type = .WB_SHARED_DATA ∨
      (m.type = .WB_TOKENS ∧ s.l2.getState ≠ .NP ∧ s.l2.getState ≠ .I))
  | .L1_GETS | .Transient_GETS => ¬ (s.l2.entry.isSome ∧ s.l2.getTokens = 1)
  | _ => True

/-- What an event at the directory tells about a response, or about the count. -/
def Dir.Occurs : Event → Prop
  | .Data_Owner => s.Responds fun m => m.type = .DATA_OWNER ∧ s.dir.tokens + m.tokens ≠ p.maxTokens
  | .Tokens => s.Responds fun m => (m.type = .ACK ∨ m.type = .DATA_SHARED) ∧ s.dir.tokens + m.tokens ≠ p.maxTokens
  | .Ack_Owner => s.Responds fun m => m.type = .ACK_OWNER ∧ s.dir.tokens + m.tokens ≠ p.maxTokens
  | .Data_All_Tokens =>
    s.Responds fun m => (m.type = .DATA_OWNER ∨ m.type = .DATA_SHARED) ∧ s.dir.tokens + m.tokens = p.maxTokens
  | .Ack_Owner_All_Tokens => s.Responds fun m => m.type = .ACK_OWNER ∧ s.dir.tokens + m.tokens = p.maxTokens
  | .Ack_All_Tokens => s.Responds fun m => m.type = .ACK ∧ s.dir.tokens + m.tokens = p.maxTokens
  | .DMA_READ | .DMA_WRITE | .DMA_WRITE_All_Tokens => s.dmaRequestToDir ≠ []
  | _ => True

/-! ## Slips

Two actions go wrong on some counts: `ff_sendDataWithAllButNorOneTokens` (and its counterpart at the L2 bank) sends
nothing when there is one token, and `cc_sharedReplacement` sends the data of the entry when there is more than one. -/

/-- The event makes the L1 cache `i` keep the owner token in a shared state, or send data it does not have. -/
def L1.slips (i : Fin n) (s : Block n) (e : Event) : Bool :=
  match (s.l1 i).getState i with
  | .ok .O | .ok .OM | .ok .M | .ok .M_W =>
    (e == .Persistent_GETS || e == .Use_TimeoutStarverS) && (s.l1 i).getTokens == 1
  | .ok .I => e == .L1_Replacement && decide (1 < (s.l1 i).getTokens)
  | _ => false

/-- Events that can make an L1 cache slip. -/
def L1.Event.risky : Event → Bool
  | .Persistent_GETS | .Use_TimeoutStarverS | .L1_Replacement => true
  | _ => false

theorem L1.risky_of_slips {i : Fin n} {s : Block n} {e : Event} (h : slips i s e) : e.risky := by
  rw [slips] at h
  split at h
  case h_6 => cases h
  all_goals
    simp only [Bool.and_eq_true, Bool.or_eq_true, beq_iff_eq] at h
    rcases h.1 with rfl | rfl <;> rfl

/-- The event makes the L2 bank keep the owner token in a shared state. -/
def L2.slips (e : Event) : Bool :=
  s.l2.getState == .O && e == .Persistent_GETS && s.l2.getTokens == 1

/-- The step makes a machine slip. -/
def Block.slips : Label n → Bool
  | .l1Replacement i => L1.slips i s .L1_Replacement
  | .mandatory i type _ _ =>
    (if type = .IFETCH then (s.l1 i).dcache else (s.l1 i).icache).isSome && L1.slips i s .L1_Replacement
  | .useTimer i =>
    match (s.l1 i).persistentTable.findSmallest, (s.l1 i).persistentTable.typeOfSmallest with
    | .ok m, .ok .Read => (s.l1 i).useTimer && decide (m ≠ .L1Cache i) && L1.slips i s .Use_TimeoutStarverS
    | _, _ => false
  | .persistent src (.L1Cache i) =>
    match s.persistent src (.L1Cache i) with
    | [] => false
    | m :: _ =>
      match (s.l1 i).persistentTable.update m with
      | .error _ => false
      | .ok t =>
        match l1PersistentEvent i t with
        | .error _ => false
        | .ok e => L1.slips i (s.setL1 i { s.l1 i with persistentTable := t }) e
  | .persistent src .L2Cache =>
    match s.persistent src .L2Cache with
    | [] => false
    | m :: _ =>
      match s.l2.persistentTable.update m with
      | .error _ => false
      | .ok t =>
        match l2PersistentEvent t with
        | .error _ => false
        | .ok e => L2.slips (s.setL2 { s.l2 with persistentTable := t }) e
  | _ => false

/-- Queues are in another order, and tables of persistent requests have changed. -/
structure Block.Arrange (s s' : Block n) : Prop where
  l1 : ∀ i, ∃ t, s'.l1 i = { s.l1 i with persistentTable := t }
  l2 : ∃ t, s'.l2 = { s.l2 with persistentTable := t }
  dir : ∃ t, s'.dir = { s.dir with persistentTable := t }
  responses : s'.responses.Perm s.responses
  dma : s'.dmaRequestToDir = s.dmaRequestToDir
  log : s'.log = s.log

namespace Block

theorem Arrange.refl (s : Block n) : Arrange s s := ⟨fun _ => ⟨_, rfl⟩, ⟨_, rfl⟩, ⟨_, rfl⟩, .refl _, rfl, rfl⟩

theorem Arrange.setL1 (s : Block n) (i : Fin n) (t : PersistentTable n) :
    Arrange s (s.setL1 i { s.l1 i with persistentTable := t }) := by
  refine ⟨fun j => ?_, ⟨_, rfl⟩, ⟨_, rfl⟩, .refl _, rfl, rfl⟩
  rcases eq_or_ne j i with rfl | hj
  · exact ⟨t, update_self ..⟩
  · exact ⟨_, update_of_ne hj ..⟩

theorem Arrange.setL2 (s : Block n) (t : PersistentTable n) : Arrange s (s.setL2 { s.l2 with persistentTable := t }) :=
  ⟨fun _ => ⟨_, rfl⟩, ⟨t, rfl⟩, ⟨_, rfl⟩, .refl _, rfl, rfl⟩

theorem Arrange.setDir (s : Block n) (t : PersistentTable n) :
    Arrange s (s.setDir { s.dir with persistentTable := t }) :=
  ⟨fun _ => ⟨_, rfl⟩, ⟨_, rfl⟩, ⟨t, rfl⟩, .refl _, rfl, rfl⟩

/-- What the step of a block under the label `l` is. -/
inductive Event (p : Params) (s : Block n) (l : Label n) : Block n → Prop
  | idle {s'} : Arrange s s' → Event p s l s'
  | dma (m : DMARequestMsg) : l = .dma m → Event p s l { s with dmaRequestToDir := s.dmaRequestToDir ++ [m] }
  | l1 {s1 s'} (i : Fin n) (src : MachineID n) (write : DataBlock → DataBlock) {e : L1.Event} : Arrange s s1 →
      L1.Occurs p i s1 e → (L1.slips i s1 e → s.slips l) →
      (l1Cache p i src write).trigger e s1 = .ok s' → Event p s l s'
  | l2 {s1 s'} (src : MachineID n) {e : L2.Event} : Arrange s s1 →
      L2.Occurs p s1 e → (L2.slips s1 e → s.slips l) →
      (l2Cache p src).trigger e s1 = .ok s' → Event p s l s'
  | dir {s1 s'} (src : MachineID n) {e : Dir.Event} : Arrange s s1 →
      Dir.Occurs p s1 e → (directory p src).trigger e s1 = .ok s' → Event p s l s'

section ports

variable {p : Params} {s s' s1 : Block n} {i : Fin n} {src : MachineID n} {write : DataBlock → DataBlock} {l : Label n}

theorem Arrange.of_responses {r : List (ResponseMsg n)} (h : r.Perm s.responses) :
    Arrange s { s with responses := r } :=
  ⟨fun _ => ⟨_, rfl⟩, ⟨_, rfl⟩, ⟨_, rfl⟩, h, rfl, rfl⟩

theorem event_idle (h : Except.ok (ε := Fault) s = .ok s') : Event p s l s' := by
  cases h
  exact .idle (.refl s)

theorem event_l1 {e : L1.Event} (ha : Arrange s s1) (h : s1.l1Trigger p i write e = .ok s') (ho : L1.Occurs p i s1 e)
    (hs : L1.slips i s1 e → s.slips l) : Event p s l s' := .l1 i (.L1Cache i) write ha ho hs h

theorem event_l1_calm {e : L1.Event} (ha : Arrange s s1) (h : s1.l1Trigger p i write e = .ok s')
    (ho : L1.Occurs p i s1 e)
    (he : e.risky = false) : Event p s l s' :=
  event_l1 ha h ho fun hs => nomatch he.symm.trans (L1.risky_of_slips hs)

theorem event_l1Mandatory {type : CacheRequestType} {avail : Bool}
    (h : s.l1MandatoryQueueIn p i write type avail = .ok s') :
    Event p s (.mandatory i type avail write) s' := by
  have ho : L1.Occurs p i s type.event ∧ type.event.risky = false := by cases type <;> exact ⟨trivial, rfl⟩
  have hs : (if type = .IFETCH then (s.l1 i).dcache else (s.l1 i).icache).isSome →
      L1.slips i s .L1_Replacement → s.slips (.mandatory i type avail write) := by
    intro h1 h2
    rw [slips, h1, h2]
    rfl
  rw [l1MandatoryQueueIn] at h
  generalize (if type = .IFETCH then (s.l1 i).icache else (s.l1 i).dcache) = here at h
  generalize (if type = .IFETCH then (s.l1 i).dcache else (s.l1 i).icache) = other at h hs
  split at h
  case isTrue hother => exact event_l1 (.refl s) h trivial (hs hother)
  case isFalse =>
    split at h
    · exact event_l1_calm (.refl s) h ho.1 ho.2
    · exact event_idle h

theorem event_l1UseTimer (h : s.l1UseTimerTableIn p i write = .ok s') : Event p s (.useTimer i) s' := by
  rw [l1UseTimerTableIn] at h
  split at h
  case isTrue hu =>
    split at h
    · obtain ⟨m, hm, h⟩ := of_bind h
      split at h
      case isTrue hne =>
        obtain ⟨t, ht, h⟩ := of_bind h
        cases t with
        | Write => exact event_l1_calm (.refl s) h trivial rfl
        | Read =>
          refine event_l1 (.refl s) h trivial fun hs => ?_
          simp only [slips, hm, ht, hu, hne, ne_eq, not_false_eq_true, decide_true, Bool.true_and]
          exact hs
      case isFalse => exact event_l1_calm (.refl s) h trivial rfl
    · exact event_l1_calm (.refl s) h trivial rfl
  case isFalse => exact event_idle h

theorem event_l1Persistent (h : s.l1PersistentNetworkIn p i write src = .ok s') :
    Event p s (.persistent src (.L1Cache i)) s' := by
  rw [l1PersistentNetworkIn] at h
  split at h
  · exact event_idle h
  case h_2 m r hm =>
    obtain ⟨t, ht, h⟩ := of_bind h
    obtain ⟨e, he, h⟩ := of_bind h
    refine .l1 i src write (.setL1 s i t) ?_ (fun hs => ?_) h
    · rw [l1PersistentEvent] at he
      split at he
      · obtain ⟨m, -, he⟩ := of_bind he
        split at he
        · cases he
          trivial
        · obtain ⟨type, -, rfl⟩ := of_map he
          split <;> trivial
      · cases he
        trivial
    · simp only [slips, hm, ht, he, hs]

theorem event_l1Request {r : RequestMsg n} (ha : Arrange s s1) (h : s1.l1RequestNetworkIn p i write r = .ok s') :
    Event p s l s' := by
  have he : L1.Occurs p i s1 (l1RequestEvent i s1 r) ∧ (l1RequestEvent i s1 r).risky = false := by
    rw [l1RequestEvent]
    split
    · split <;> exact ⟨trivial, rfl⟩
    · split <;> split <;> exact ⟨trivial, rfl⟩
  exact event_l1_calm ha h he.1 he.2

variable {m : ResponseMsg n}

theorem event_l1Response (ha : Arrange s s1) (hm : s1.responses.head? = some m)
    (h : s1.l1ResponseNetworkIn p i write m = .ok s') : Event p s l s' := by
  obtain ⟨e, he, h⟩ := of_bind h
  rw [l1ResponseEvent] at he
  split at he
  case isTrue hk => split at he <;> cases he <;> exact event_l1_calm ha h ⟨m, hm, ‹_›, hk⟩ rfl
  case isFalse hk =>
    rw [not_not] at hk
    split at he
    · cases he
      exact event_l1_calm ha h ⟨m, hm, ‹_›, hk⟩ rfl
    · cases he
      exact event_l1_calm ha h ⟨m, hm, .inl ‹_›, hk⟩ rfl
    · cases he
      exact event_l1_calm ha h ⟨m, hm, .inr ‹_›, hk⟩ rfl
    · cases he

variable {e : L2.Event} {r : RequestMsg n}

section

variable (ha : Arrange s s1)

include ha

theorem event_l2 (h : s1.l2Trigger p e = .ok s') (ho : L2.Occurs p s1 e)
    (he : e ≠ .Persistent_GETS) : Event p s l s' :=
  .l2 .L2Cache ha ho (fun hs => absurd hs (by simp [L2.slips, he])) h

omit ha in
theorem event_l2Persistent (h : s.l2PersistentNetworkIn p src = .ok s') : Event p s (.persistent src .L2Cache) s' := by
  rw [l2PersistentNetworkIn] at h
  split at h
  · exact event_idle h
  case h_2 m r hm =>
    obtain ⟨t, ht, h⟩ := of_bind h
    obtain ⟨e, he, h⟩ := of_bind h
    refine .l2 src (.setL2 s t) ?_ (fun hs => ?_) h
    · rw [l2PersistentEvent] at he
      split at he
      · obtain ⟨type, -, rfl⟩ := of_map he
        split <;> trivial
      · cases he
        trivial
    · simp only [slips, hm, ht, he, hs]

theorem event_l2Request (h : s1.l2RequestNetworkIn p r = .ok s') : Event p s l s' := by
  rw [l2RequestNetworkIn] at h
  split at h
  · exact event_l2 ha h trivial nofun
  · refine event_l2 ha h ?_ ?_
    · split
      · trivial
      · assumption
    · split <;> exact nofun

theorem event_l1RequestL2 (h : s1.l1RequestNetworkL2In p r = .ok s') : Event p s l s' := by
  have he : L2.Occurs p s1 (l1RequestL2Event s1 r) ∧ l1RequestL2Event s1 r ≠ .Persistent_GETS := by
    rw [l1RequestL2Event]
    split
    · exact ⟨trivial, nofun⟩
    · split
      · exact ⟨trivial, nofun⟩
      · exact ⟨‹_›, nofun⟩
  exact event_l2 ha h he.1 he.2

omit ha in
theorem occurs_writeback (hm : s.responses.head? = some m)
    (ht : m.type = .WB_TOKENS ∨ m.type = .WB_OWNED ∨ m.type = .WB_SHARED_DATA) (he : l2WritebackEvent p s m = .ok e) :
    L2.Occurs p s e ∧ e ≠ .Persistent_GETS := by
  rw [l2WritebackEvent] at he
  split at he
  case isTrue hk =>
    split at he
    · obtain ⟨-, rfl⟩ := of_check he
      exact ⟨⟨m, hm, ‹_›, hk⟩, nofun⟩
    · obtain ⟨-, rfl⟩ := of_check he
      exact ⟨⟨m, hm, ‹_›, hk⟩, nofun⟩
    case h_3 h1 h2 =>
      cases he
      exact ⟨⟨m, hm, (ht.resolve_left h1).resolve_right h2, hk⟩, nofun⟩
  case isFalse hk =>
    rw [not_not] at hk
    split at he
    · obtain ⟨-, he⟩ := of_ensure he
      obtain ⟨hq, rfl⟩ := of_check he
      exact ⟨⟨m, hm, hk, .inr (.inr ⟨‹_›, hq⟩)⟩, nofun⟩
    · obtain ⟨-, rfl⟩ := of_check he
      exact ⟨⟨m, hm, hk, .inr (.inl ‹_›)⟩, nofun⟩
    case h_3 h1 h2 =>
      cases he
      exact ⟨⟨m, hm, hk, .inl ((ht.resolve_left h1).resolve_right h2)⟩, nofun⟩

omit ha in
theorem occurs_l2Response (hm : s.responses.head? = some m)
    (he : l2ResponseEvent p s m = .ok e) : L2.Occurs p s e ∧ e ≠ .Persistent_GETS := by
  rw [l2ResponseEvent] at he
  split at he
  · cases he
    split <;> exact ⟨⟨m, hm, ‹_›, ‹_›⟩, nofun⟩
  · cases he
    split
    · exact ⟨⟨m, hm, .inl ‹_›, ‹_›⟩, nofun⟩
    · exact ⟨⟨m, hm, ‹_›, ‹_›⟩, nofun⟩
  · cases he
    split
    · exact ⟨⟨m, hm, .inr ‹_›, ‹_›⟩, nofun⟩
    · exact ⟨⟨m, hm, ‹_›, ‹_›⟩, nofun⟩
  · cases he
    exact ⟨⟨m, hm, ‹_›⟩, nofun⟩
  · cases he

theorem event_l2Response {avail : Bool} (hm : s1.responses.head? = some m)
    (h : s1.l2ResponseNetworkIn p avail m = .ok s') : Event p s l s' := by
  rw [l2ResponseNetworkIn] at h
  split at h
  case isTrue ht =>
    split at h
    · obtain ⟨e, he, h⟩ := of_bind h
      obtain ⟨ho, hn⟩ := occurs_writeback hm ht he
      exact event_l2 ha h ho hn
    · cases h
      exact .idle ha
  case isFalse =>
    obtain ⟨e, he, h⟩ := of_bind h
    obtain ⟨ho, hn⟩ := occurs_l2Response hm he
    exact event_l2 ha h ho hn

theorem event_dir {e : Dir.Event} (h : s1.dirTrigger p e = .ok s') (ho : Dir.Occurs p s1 e) :
    Event p s l s' := .dir .Directory ha ho h

theorem event_dirResponse (hm : s1.responses.head? = some m)
    (h : s1.dirResponseNetworkIn p m = .ok s') : Event p s l s' := by
  obtain ⟨e, he, h⟩ := of_bind h
  refine event_dir ha h ?_
  rw [dirResponseEvent] at he
  split at he
  case isTrue hk =>
    split at he
    · cases he
      exact ⟨m, hm, .inl ‹_›, hk⟩
    · cases he
      exact ⟨m, hm, .inr ‹_›, hk⟩
    · cases he
      exact ⟨m, hm, ‹_›, hk⟩
    · cases he
      exact ⟨m, hm, ‹_›, hk⟩
    · cases he
  case isFalse hk =>
    split at he
    · cases he
      exact ⟨m, hm, ‹_›, hk⟩
    · cases he
      exact ⟨m, hm, .inl ‹_›, hk⟩
    · cases he
      exact ⟨m, hm, .inr ‹_›, hk⟩
    · cases he
      exact ⟨m, hm, ‹_›, hk⟩
    · cases he

end

theorem event_dirPersistent (h : s.dirPersistentNetworkIn p src = .ok s') : Event p s l s' := by
  rw [dirPersistentNetworkIn] at h
  split at h
  · exact event_idle h
  · split at h
    · obtain ⟨t, -, h⟩ := of_bind h
      refine .dir src (.setDir s t) ?_ h
      split <;> trivial
    · refine .dir src (.refl s) ?_ h
      split <;> trivial

theorem event_dma (h : s.dmaRequestQueueIn p = .ok s') : Event p s l s' := by
  rw [dmaRequestQueueIn] at h
  split at h
  · exact event_idle h
  case h_2 hm =>
    have hne : s.dmaRequestToDir ≠ [] := by rw [hm]; exact List.cons_ne_nil _ _
    split at h
    · exact event_dir (.refl s) h hne
    · refine event_dir (.refl s) h ?_
      split <;> exact hne
    · cases h

/-- Every step of a block is an event at a machine, or nothing happens. -/
theorem handle_cases (h : s.handle p l = .ok s') : Event p s l s' := by
  cases l with
  | mandatory i type avail write => exact event_l1Mandatory h
  | l1Replacement i => exact event_l1 (.refl s) h trivial id
  | l2Replacement => exact event_l2 (.refl s) h trivial nofun
  | useTimer i => exact event_l1UseTimer h
  | l1ReissueTimer i =>
    rw [handle, l1ReissueTimerTableIn] at h
    split at h
    · exact event_l1_calm (.refl s) h trivial rfl
    · exact event_idle h
  | dirReissueTimer =>
    rw [handle, dirReissueTimerTableIn] at h
    split at h
    · exact event_dir (.refl s) h trivial
    · exact event_idle h
  | response k avail write =>
    rw [handle] at h
    split at h
    · exact event_idle h
    case h_2 m r hk =>
      obtain ⟨hm, hp⟩ := pick_eq hk
      have ha : Arrange s { s with responses := r } := .of_responses hp
      split at h
      · exact event_l1Response ha hm h
      · exact event_l2Response ha hm h
      · exact event_dirResponse ha hm h
  | request k =>
    rw [handle] at h
    have ha : ∀ r, Arrange s { s with requests := r } := fun _ => { Arrange.refl s with }
    split at h
    · exact event_l1Request (ha _) h
    · exact event_l1RequestL2 (ha _) h
    · exact event_idle h
  | globalRequest k =>
    rw [handle] at h
    have ha : ∀ r, Arrange s { s with globalRequests := r } := fun _ => { Arrange.refl s with }
    split at h
    · exact event_l2Request (ha _) h
    · rw [dirRequestNetworkIn] at h
      split at h <;> exact event_dir (ha _) h trivial
    · exact event_idle h
  | persistent src dst =>
    cases dst with
    | L1Cache i => exact event_l1Persistent h
    | L2Cache => exact event_l2Persistent h
    | Directory => exact event_dirPersistent h
  | memory k =>
    rw [handle] at h
    have ha : ∀ r, Arrange s { s with memBuffer := r } := fun _ => { Arrange.refl s with }
    split at h
    · exact event_idle h
    · rw [memQueueIn] at h
      split at h <;> exact event_dir (ha _) h trivial
  | dmaRequest => exact event_dma h
  | dma m =>
    cases h
    exact .dma m rfl

end ports

end Block

end M5.Ruby.Token
