import M5.Lib.Check
import M5.Lib.Run
import M5.Ruby.Common
import Mathlib.Tactic.SplitIfs

/-!
# The visible size of a message buffer

`MessageBuffer` of `mem/ruby/buffers/MessageBuffer.cc`, with the arrival times for the messages. The network is to see
the messages that were there at the start of the cycle and those that are enqueued in it; a pop frees its slot in the
next cycle.
-/

namespace M5.Ruby

open M5.Lib

structure MessageBuffer where
  maxSize : Int
  size : Nat := 0
  timeLastTimePop : Nat := 0
  timeLastTimeEnqueue : Nat := 0
  sizeAtCycleStart : Nat := 0
  msgsThisCycle : Nat := 0
  strictFifo : Bool
  lastArrivalTime : Nat := 0
  /-- The arrival times in the heap. -/
  prioHeap : List Nat := []

namespace MessageBuffer

variable (b : MessageBuffer) (time : Nat)

def areNSlotsAvailable (n : Int) : Bool :=
  if b.maxSize = -1 then true
  else
    let currentSize :=
      if b.timeLastTimePop < time then b.size
      else if b.timeLastTimeEnqueue < time then b.sizeAtCycleStart
      else b.sizeAtCycleStart + b.msgsThisCycle
    decide (currentSize + n ≤ b.maxSize)

/-- `enqueue`, for a message that arrives after the delay or, with randomization, at any later time. -/
def enqueue (arrivalTime : Nat) : Except Fault MessageBuffer := do
  ensure .assert (time < arrivalTime)
  ensure .error (b.strictFifo → b.lastArrivalTime ≤ arrivalTime)
  .ok { b with
    size := b.size + 1
    msgsThisCycle := (if b.timeLastTimeEnqueue < time then 0 else b.msgsThisCycle) + 1
    timeLastTimeEnqueue := if b.timeLastTimeEnqueue < time then time else b.timeLastTimeEnqueue
    lastArrivalTime := arrivalTime
    prioHeap := arrivalTime :: b.prioHeap }

def pop : Except Fault MessageBuffer := do
  let head ← present b.prioHeap.min?
  ensure .assert (head ≤ time)
  .ok { b with
    prioHeap := b.prioHeap.erase head
    sizeAtCycleStart := if b.timeLastTimePop < time then b.size else b.sizeAtCycleStart
    timeLastTimePop := if b.timeLastTimePop < time then time else b.timeLastTimePop
    size := b.size - 1 }

/-- A buffer and its cycle: what was there at the start, the messages enqueued since, and those of them that came before
the first pop, if there was one. -/
structure Cycle where
  buffer : MessageBuffer
  time : Nat := 0
  start : Nat := 0
  enqueued : Nat := 0
  popped : Bool := false
  early : Nat := 0

inductive Act
  | enqueue (arrivalTime : Nat)
  | pop
  /-- The buffer is left alone until a later cycle. -/
  | wait (n : Nat)

namespace Cycle

def step (c : Cycle) : Act → Except Fault Cycle
  | .enqueue arrivalTime => do
    let buffer ← c.buffer.enqueue c.time arrivalTime
    .ok { c with buffer, enqueued := c.enqueued + 1 }
  | .pop => do
    let buffer ← c.buffer.pop c.time
    .ok { c with buffer, popped := true, early := if c.popped then c.early else c.enqueued }
  | .wait n => .ok { buffer := c.buffer, time := c.time + n + 1, start := c.buffer.prioHeap.length }

structure Inv (c : Cycle) : Prop where
  size : c.buffer.size = c.buffer.prioHeap.length
  arrival : ∀ t ∈ c.buffer.prioHeap, 0 < t
  enqueue : c.buffer.timeLastTimeEnqueue < c.time ∧ c.enqueued = 0 ∨
    c.buffer.timeLastTimeEnqueue = c.time ∧ c.enqueued = c.buffer.msgsThisCycle
  pop : c.buffer.timeLastTimePop < c.time ∧ c.popped = false ∧ c.early = 0 ∧ c.buffer.size = c.start + c.enqueued ∨
    c.buffer.timeLastTimePop = c.time ∧ (c.popped ∨ c.time = 0) ∧ c.buffer.sizeAtCycleStart = c.start + c.early

variable {c c' : Cycle}

theorem Inv.step {a : Act} (h : c.Inv) (hs : c.step a = .ok c') : c'.Inv := by
  obtain ⟨hsize, harr, henq, hpop⟩ := h
  cases a with
  | enqueue arrivalTime =>
    obtain ⟨b, hb, rfl⟩ := of_map hs
    obtain ⟨ht, hb⟩ := of_ensure hb
    obtain ⟨-, rfl⟩ := of_check hb
    refine ⟨?_, ?_, ?_, ?_⟩
    · simp [hsize]
    · simpa using ⟨by omega, harr⟩
    · dsimp only
      split_ifs <;> omega
    · refine hpop.imp_left fun ⟨hlt, hp, he, hs⟩ => ⟨hlt, hp, he, ?_⟩
      dsimp only
      omega
  | pop =>
    obtain ⟨b, hb, rfl⟩ := of_map hs
    obtain ⟨t, ht, hb⟩ := of_bind hb
    obtain ⟨hle, rfl⟩ := of_check hb
    have hmem : t ∈ c.buffer.prioHeap := List.min?_mem (present_eq_ok.1 ht)
    have hpos := harr t hmem
    refine ⟨?_, fun x hx => harr x (List.mem_of_mem_erase hx), henq, ?_⟩
    · simp [hsize, List.length_erase_of_mem hmem]
    · rcases hpop with ⟨hlt, hp, -, hs⟩ | ⟨heq, hp, hs⟩
      · simp [hlt, hp, hs]
      · have hp : c.popped := hp.resolve_right (by omega)
        simp [heq, hp, hs]
  | wait n =>
    cases hs
    refine ⟨hsize, harr, .inl ⟨?_, rfl⟩, .inl ⟨?_, rfl, rfl, hsize⟩⟩ <;> dsimp only <;> omega

/-- In every cycle of every run the size that is seen has the messages twice that came before the first pop. -/
theorem areNSlotsAvailable_iff {maxSize : Int} {strictFifo : Bool} {as : List Act}
    (h : Run (fun c a c' => c.step a = .ok c') { buffer := { maxSize, strictFifo } } as c)
    (hm : c.buffer.maxSize ≠ -1) :
    (∀ n, c.buffer.areNSlotsAvailable c.time n ↔ c.start + c.enqueued + n ≤ c.buffer.maxSize) ↔ c.early = 0 := by
  have hi : c.Inv := h.invariant ⟨rfl, nofun, .inr ⟨rfl, rfl⟩, .inr ⟨rfl, .inr rfl, rfl⟩⟩ .step
  have hseen : ∀ n, c.buffer.areNSlotsAvailable c.time n ↔ c.start + c.early + c.enqueued + n ≤ c.buffer.maxSize := by
    intro n
    rw [areNSlotsAvailable, if_neg hm, decide_eq_true_eq]
    obtain ⟨-, -, henq, hpop⟩ := hi
    split_ifs <;> omega
  simp only [hseen]
  refine ⟨fun h => ?_, fun h n => by rw [h]; omega⟩
  have := h (c.buffer.maxSize - c.start - c.enqueued)
  omega

def two : Cycle := { buffer := { maxSize := 2, strictFifo := true } }

/-- In the second cycle, a pop and then a message. -/
theorem areNSlotsAvailable_two :
    ∃ c, Run (fun c a c' => c.step a = .ok c') two [.enqueue 1, .wait 0, .pop, .enqueue 2] c ∧
    ∀ n, c.buffer.areNSlotsAvailable c.time n ↔ c.start + c.enqueued + n ≤ c.buffer.maxSize := by
  have h : Run (fun c a c' => c.step a = .ok c') two [.enqueue 1, .wait 0, .pop, .enqueue 2] _ :=
    .snoc (.snoc (.snoc (.snoc .nil rfl) rfl) rfl) rfl
  exact ⟨_, h, (areNSlotsAvailable_iff h (by decide)).2 rfl⟩

/-- In the second cycle, a message and then a pop: the buffer seems to have three messages. -/
theorem not_areNSlotsAvailable : ∃ c,
    Run (fun c a c' => c.step a = .ok c') two [.enqueue 1, .wait 0, .enqueue 2, .pop] c ∧
      c.buffer.areNSlotsAvailable c.time 0 = false ∧ c.start + c.enqueued + 0 ≤ c.buffer.maxSize :=
  ⟨_, .snoc (.snoc (.snoc (.snoc .nil rfl) rfl) rfl) rfl, rfl, by decide⟩

end Cycle

end MessageBuffer

end M5.Ruby
