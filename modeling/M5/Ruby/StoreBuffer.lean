import M5.Lib.Run
import M5.Ruby.Sequencer

/-!
# The store buffer

Stores wait in `StoreBuffer::buffer`, and the oldest is issued to Ruby: by the insertion into an empty buffer, or by the
completion of the store before it.  An insertion that fills the buffer issues nothing, and a store that is issued by a
completion gets the id of the one that completes, which is still in the map.
-/

namespace M5.Ruby

open M5.Lib List

/-- The deque is listed from its back, the oldest store first; `requestMap` has the ids that are in use. The source does
not have `issued`, the requests given to libruby, and `added`, those of `addToStoreBuffer`. -/
structure StoreBuffer where
  buffer : List RubyRequest := []
  bufferSize : Nat := 0
  full : Bool := false
  flushing : Bool := false
  stalledIssue : Bool := true
  requestMap : List Nat := []
  outstanding : List (Nat × RubyRequest) := []
  issued : List RubyRequest := []
  added : List RubyRequest := []

/-- `libruby_issue_request`: the id of the request. -/
def librubyIssueRequest (_ : RubyRequest) : Nat := 0

namespace StoreBuffer

variable (capacity bits : Nat) (b : StoreBuffer)

/-- A request is made to libruby, and entered under its id; an insertion does not replace an entry. -/
def issue (r : RubyRequest) : Except Fault StoreBuffer := do
  let id := librubyIssueRequest r
  ensure .assert (id ∉ b.requestMap)
  .ok { b with
    requestMap := id :: b.requestMap
    outstanding := if id ∈ b.outstanding.map Prod.fst then b.outstanding else b.outstanding ++ [(id, r)]
    issued := b.issued ++ [r] }

def issueNextStore : Except Fault StoreBuffer := do
  let request ← present b.buffer.head?
  b.issue request

def addToStoreBuffer (r : RubyRequest) : Except Fault StoreBuffer :=
  let b := { b with added := b.added ++ [r] }
  if capacity = 0 then b.issue r
  else
    let b := { b with buffer := b.buffer ++ [r], bufferSize := b.bufferSize + 1 }
    if capacity ≤ b.bufferSize then .ok { b with full := true }
    else if b.stalledIssue then issueNextStore { b with stalledIssue := false }
    else .ok b

/-- The mask `~(m_block_size - 1)` has the 32 bits of `m_block_size`. -/
def lineaddr (r : RubyRequest) : Nat := r.paddr % 2 ^ 32 / 2 ^ bits * 2 ^ bits

def completeStore (r : RubyRequest) : Except Fault StoreBuffer := do
  let fromBuffer ← present b.buffer.head?
  ensure .assert (lineaddr bits fromBuffer = lineaddr bits r ∧ fromBuffer.type = r.type)
  let b := { b with buffer := b.buffer.tail, bufferSize := b.bufferSize - 1 }
  let b ← if 0 < b.bufferSize then b.issueNextStore else .ok { b with flushing := false, stalledIssue := true }
  .ok { b with full := false }

def complete (id : Nat) : Except Fault StoreBuffer :=
  if capacity = 0 then .ok b
  else do
    let p ← present (b.outstanding.find? (·.1 = id))
    let b ← if p.2.type = .ST then b.completeStore bits p.2 else .ok b
    .ok { b with outstanding := b.outstanding.filter (·.1 ≠ id) }

/-- The callback of libruby: the id is in use until the request is completed. -/
def hit (id : Nat) : Except Fault StoreBuffer := do
  ensure .assert (id ∈ b.requestMap)
  let b ← b.complete capacity bits id
  .ok { b with requestMap := b.requestMap.erase id }

inductive Call
  | add (r : RubyRequest)
  | hit (id : Nat)

def Step (b : StoreBuffer) (a : Call) (t : StoreBuffer) : Prop :=
  match a with
  | .add r => r.type = .ST ∧ b.addToStoreBuffer capacity r = .ok t
  | .hit id => id ∈ b.outstanding.map Prod.fst ∧ b.hit capacity bits id = .ok t

/-- The stores after `done` are in the buffer, and only the oldest of them is issued and not completed. -/
structure Ordered (done : List RubyRequest) : Prop where
  added : b.added = done ++ b.buffer
  issued : b.issued = done ++ b.buffer.take 1
  outstanding : b.outstanding = (b.buffer.take 1).map (.mk 0)

/-- The oldest store is issued, and completes. -/
structure Drains : Prop where
  ordered : ∃ done, b.Ordered done
  hit : ∀ id ∈ b.outstanding.map Prod.fst, ∃ t, b.hit capacity bits id = .ok t ∧ t.buffer = b.buffer.tail

/-! ## The states that are reached -/

/-- The stores of `done` are completed and those of `buffer` are not. -/
def state (done buffer : List RubyRequest) (full flushing : Bool) : StoreBuffer where
  buffer
  bufferSize := buffer.length
  full
  flushing
  stalledIssue := buffer.isEmpty
  requestMap := (buffer.take 1).map fun _ => 0
  outstanding := (buffer.take 1).map (.mk 0)
  issued := done ++ buffer.take 1
  added := done ++ buffer

variable {capacity bits b} {done buffer : List RubyRequest} {r x y : RubyRequest} {full flushing : Bool}
  {as : List Call} {a : Call} {t : StoreBuffer}

theorem state_add (hc : 2 ≤ capacity) : ∃ full',
    (state done buffer full flushing).addToStoreBuffer capacity r =
      .ok (state done (buffer ++ [r]) full' flushing) := by
  rw [addToStoreBuffer, if_neg (by omega)]
  dsimp only [state]
  cases buffer with
  | nil =>
    -- a capacity of two leaves room for the store that is now the oldest
    rw [length_nil, if_neg (by omega)]
    exact ⟨full, by simp [issueNextStore, present, issue, librubyIssueRequest, ensure]⟩
  | cons x rest =>
    split
    · exact ⟨true, by simp⟩
    · exact ⟨full, by simp⟩

/-- The last store completes. -/
theorem state_hit (hc : 1 ≤ capacity) (hx : x.type = .ST) :
    (state done [x] full flushing).hit capacity bits 0 = .ok (state (done ++ [x]) [] false false) := by
  simp [hit, complete, completeStore, present, ensure, state, hx, show capacity ≠ 0 by omega]

/-- A store that another one waits for does not: the next one is issued with the same id. -/
theorem state_hit_next (hc : 1 ≤ capacity) (hx : x.type = .ST) :
    (state done (x :: y :: buffer) full flushing).hit capacity bits 0 = .error .assert := by
  simp [hit, complete, completeStore, issueNextStore, issue, librubyIssueRequest, present, ensure, state, hx, bind,
    Except.bind, show capacity ≠ 0 by omega]

/-- The states of a buffer with more than one place. -/
def Reached (b : StoreBuffer) : Prop :=
  ∃ done buffer full flushing, b = state done buffer full flushing ∧ ∀ r ∈ buffer, r.type = .ST

/-- A call leads to such a state again. -/
theorem Reached.step (h : b.Reached) (hc : 2 ≤ capacity) (hs : Step capacity bits b a t) : t.Reached := by
  obtain ⟨done, buffer, full, flushing, rfl, hst⟩ := h
  cases a with
  | add r =>
    obtain ⟨hr, hs⟩ := hs
    obtain ⟨full', h⟩ := state_add hc
    rw [h, Except.ok.injEq] at hs
    refine ⟨_, _, _, _, hs.symm, ?_⟩
    rw [forall_mem_append, forall_mem_singleton]
    exact ⟨hst, hr⟩
  | hit id =>
    obtain ⟨hid, hs⟩ := hs
    cases buffer with
    | nil => cases hid
    | cons x rest =>
      obtain rfl := mem_singleton.1 hid
      rw [forall_mem_cons] at hst
      cases rest with
      | nil =>
        rw [state_hit (by omega) hst.1, Except.ok.injEq] at hs
        exact ⟨_, _, _, _, hs.symm, hst.2⟩
      | cons y rest =>
        rw [state_hit_next (by omega) hst.1] at hs
        cases hs

theorem Reached.ordered (h : b.Reached) : ∃ done, b.Ordered done := by
  obtain ⟨done, buffer, full, flushing, rfl, -⟩ := h
  exact ⟨done, rfl, rfl, rfl⟩

theorem Reached.drains_iff_length (h : b.Reached) (hc : 1 ≤ capacity) :
    b.Drains capacity bits ↔ b.buffer.length ≤ 1 := by
  have ho := h.ordered
  obtain ⟨done, buffer, full, flushing, rfl, hst⟩ := h
  cases buffer with
  | nil => exact iff_of_true ⟨ho, fun id hid => by cases hid⟩ (Nat.zero_le 1)
  | cons x rest =>
    have hx := hst x mem_cons_self
    cases rest with
    | nil =>
      refine iff_of_true ⟨ho, fun id hid => ?_⟩ (Nat.le_refl 1)
      obtain rfl := mem_singleton.1 hid
      exact ⟨_, state_hit hc hx, rfl⟩
    | cons y rest =>
      refine iff_of_false (fun hd => ?_) (by simp [state])
      obtain ⟨t, ht, -⟩ := hd.hit 0 (mem_singleton_self 0)
      rw [state_hit_next hc hx] at ht
      cases ht

/-- With one place nothing is issued. -/
structure Waits (b : StoreBuffer) : Prop where
  issued : b.issued = []
  added : b.added = b.buffer
  outstanding : b.outstanding = []

theorem Waits.step (h : b.Waits) (hs : Step 1 bits b a t) : t.Waits := by
  cases a with
  | add r =>
    obtain ⟨-, hs⟩ := hs
    rw [addToStoreBuffer, if_neg (by decide)] at hs
    dsimp only at hs
    rw [if_pos (Nat.le_add_left ..)] at hs
    cases hs
    exact ⟨h.issued, congrArg (· ++ [r]) h.added, h.outstanding⟩
  | hit id =>
    have hid := hs.1
    rw [h.outstanding] at hid
    cases hid

theorem Waits.drains_iff_nil (h : b.Waits) : b.Drains 1 bits ↔ b.buffer = [] := by
  constructor
  · rintro ⟨⟨done, -, hi, -⟩, -⟩
    rw [h.issued] at hi
    exact (take_eq_nil_iff.1 (append_eq_nil_iff.1 hi.symm).2).resolve_left (by decide)
  · intro hb
    refine ⟨⟨[], h.added, by rw [h.issued, hb]; rfl, by rw [h.outstanding, hb]; rfl⟩, fun id hid => ?_⟩
    rw [h.outstanding] at hid
    cases hid

/-- For every capacity from 1 on, in every state that calls lead to: with two places and more, the oldest store of the
buffer and no other is issued and not completed, and the stores are issued in the order they were added, each once; and
the oldest store is issued and can complete iff there are two places and no second store, or no store at all. -/
theorem drains_iff (hc : 1 ≤ capacity) (h : Run (Step capacity bits) {} as b) :
    (2 ≤ capacity → ∃ done, b.Ordered done) ∧
      (b.Drains capacity bits ↔ b.buffer = [] ∨ 2 ≤ capacity ∧ b.buffer.length = 1) := by
  by_cases h2 : 2 ≤ capacity
  · have h0 : Reached {} := ⟨[], [], false, false, rfl, forall_mem_nil _⟩
    have hb := h.invariant h0 fun hx hs => hx.step h2 hs
    refine ⟨fun _ => hb.ordered, (hb.drains_iff_length hc).trans ?_⟩
    rw [← length_eq_zero_iff]
    omega
  · obtain rfl : capacity = 1 := by omega
    have hb : b.Waits := h.invariant ⟨rfl, rfl, rfl⟩ fun hx hs => hx.step hs
    exact ⟨fun h => absurd h h2, hb.drains_iff_nil.trans (by simp)⟩

def aStore : RubyRequest := { paddr := 0, data := fun _ => 0, len := 1, type := .ST, pkt := 0 }

/-- A store completes before the next one is added. -/
theorem drains_one : ∃ b, Run (Step 2 6) {} [.add aStore, .hit 0, .add aStore] b ∧ b.buffer = [aStore] ∧
    b.Drains 2 6 := by
  have h : Run (Step 2 6) {} [.add aStore, .hit 0, .add aStore] _ :=
    ((Run.nil.snoc ⟨rfl, rfl⟩).snoc ⟨mem_singleton_self 0, rfl⟩).snoc ⟨rfl, rfl⟩
  exact ⟨_, h, rfl, (drains_iff (by decide) h).2.2 (.inr ⟨by decide, rfl⟩)⟩

/-- With one place the store is not issued.  With two, the completion of the first of two stores fails. -/
theorem stuck :
    (∃ b, Run (Step 1 6) {} [.add aStore] b ∧ b.buffer = [aStore] ∧ b.outstanding = [] ∧ b.issued = []) ∧
      ∃ b, Run (Step 2 6) {} [.add aStore, .add aStore] b ∧ b.outstanding = [(0, aStore)] ∧
        (b.hit 2 6 0).isOk = false :=
  ⟨⟨_, Run.nil.snoc ⟨rfl, rfl⟩, rfl, rfl, rfl⟩, _, (Run.nil.snoc ⟨rfl, rfl⟩).snoc ⟨rfl, rfl⟩, rfl, rfl⟩

end StoreBuffer

end M5.Ruby
