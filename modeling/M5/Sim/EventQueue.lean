import M5.Lib.Check
import Mathlib.Data.Prod.Lex
import Mathlib.Logic.Function.Basic
import Mathlib.Algebra.Order.Ring.Int

/-!
# The event queue

The functions of `sim/eventq.cc` and `sim/eventq.hh` on one `EventQueue`. Events live in a memory from pointers to
records; the queue is the pointer `head` into it. The two loops of the source that walk the lists take as many rounds
as there are objects in the memory, and one that does not end within them stops with the fault `hang`.

`process()` may call back into the queue, so `serviceOne` is cut where the source calls it: the call `serviceOne` ends
when `process()` is entered, any calls may follow, and the call `processed` runs the rest of the innermost `serviceOne`.
-/

namespace M5.Sim

open M5.Lib

abbrev EventPtr := Nat

abbrev Tick := Int

/-- The bits of `Event::flags`; `initialized` says that the bits under `InitMask` are `Initialized`. -/
structure Flags where
  squashed : Bool := false
  scheduled : Bool := false
  autoDelete : Bool := false
  autoSerialize : Bool := false
  isExitEvent : Bool := false
  isMainQueue : Bool := false
  initialized : Bool := false
deriving DecidableEq

namespace Flags

/-- Only bits of `PublicWrite`. -/
def PublicWrite (f : Flags) : Prop :=
  f.scheduled = false ∧ f.isMainQueue = false ∧ f.initialized = false

instance (f : Flags) : Decidable f.PublicWrite := inferInstanceAs (Decidable (_ ∧ _))

def set (f g : Flags) : Flags where
  squashed := f.squashed || g.squashed
  scheduled := f.scheduled || g.scheduled
  autoDelete := f.autoDelete || g.autoDelete
  autoSerialize := f.autoSerialize || g.autoSerialize
  isExitEvent := f.isExitEvent || g.isExitEvent
  isMainQueue := f.isMainQueue || g.isMainQueue
  initialized := f.initialized || g.initialized

def clear (f g : Flags) : Flags where
  squashed := f.squashed && !g.squashed
  scheduled := f.scheduled && !g.scheduled
  autoDelete := f.autoDelete && !g.autoDelete
  autoSerialize := f.autoSerialize && !g.autoSerialize
  isExitEvent := f.isExitEvent && !g.isExitEvent
  isMainQueue := f.isMainQueue && !g.isMainQueue
  initialized := f.initialized && !g.initialized

end Flags

/-- The members of `Event` the queue reads and writes. -/
structure Event where
  nextBin : Option EventPtr := none
  nextInBin : Option EventPtr := none
  when : Tick := 0
  priority : Int := 0
  flags : Flags := {}
deriving DecidableEq

namespace Event

variable (l r : Event)

def lt : Bool :=
  l.when < r.when || (l.when = r.when && l.priority < r.priority)

def le : Bool :=
  l.when < r.when || (l.when = r.when && l.priority ≤ r.priority)

def eq : Bool :=
  l.when = r.when && l.priority = r.priority

def ne : Bool :=
  l.when ≠ r.when || l.priority ≠ r.priority

end Event

abbrev Mem := EventPtr → Event

section

variable (fuel : Nat) (m : Mem) (event : EventPtr)

/-- Write the fields of one event. -/
def Mem.set (p : EventPtr) (f : Event → Event) : Mem :=
  Function.update m p (f (m p))

inductive Fault
  | assert      -- a failed `assert`
  | notFound    -- `panic("event not found!")`
  | nullDeref   -- a null pointer is followed
  | badObject   -- the caller uses an object that is not there, or builds one over another
  | hang        -- a loop of the source does not end
  | fatal       -- `fatal()`
deriving DecidableEq

/-! ## Insertion -/

/-- `Event::insertBefore`; the pointer it returns is `event`. -/
def insertBefore (curr : Option EventPtr) : Mem :=
  match curr with
  | none => m.set event (fun e => { e with nextBin := none, nextInBin := none })
  | some c =>
    if (m event).lt (m c) then
      m.set event (fun e => { e with nextBin := some c, nextInBin := none })
    else
      -- the bin of `curr`: its own `nextBin` may become stale
      m.set event (fun e => { e with nextBin := (m c).nextBin, nextInBin := some c })

/-- `while (curr && *curr < *event) { prev = curr; curr = curr->nextBin; }` -/
def findBin (m : Mem) (event : EventPtr) : Nat → EventPtr → Option EventPtr →
    Except Fault (EventPtr × Option EventPtr)
  | 0, _, _ => .error .hang
  | _ + 1, prev, none => .ok (prev, none)
  | fuel + 1, prev, some c =>
    if (m c).lt (m event) then findBin m event fuel c (m c).nextBin
    else .ok (prev, some c)

/-- `EventQueue::insert`: the memory and the head after it. -/
def insert (head : Option EventPtr) (event : EventPtr) : Except Fault (Mem × Option EventPtr) :=
  match head with
  | none => .ok (insertBefore m event none, some event)
  | some h =>
    if (m event).le (m h) then .ok (insertBefore m event (some h), some event)
    else do
      let (prev, curr) ← findBin m event fuel h (m h).nextBin
      .ok ((insertBefore m event curr).set prev (fun e => { e with nextBin := some event }), some h)

/-! ## Removal -/

/-- The loop of `Event::removeItem`, which keeps `next` one ahead of `curr`: the event before `event`. -/
def findItem (m : Mem) (event : EventPtr) : Nat → EventPtr → Option EventPtr → Except Fault EventPtr
  | 0, _, _ => .error .hang
  | _ + 1, _, none => .error .notFound
  | fuel + 1, curr, some n =>
    if event = n then .ok curr else findItem m event fuel n (m n).nextInBin

/-- `Event::removeItem`: the memory after it and the new top of the bin. -/
def removeItem (top : EventPtr) : Except Fault (Mem × Option EventPtr) :=
  if event = top then
    match (m top).nextInBin with
    | none => .ok (m, (m top).nextBin)
    | some next => .ok (m.set next (fun e => { e with nextBin := (m top).nextBin }), some next)
  else do
    let curr ← findItem m event fuel top (m top).nextInBin
    .ok (m.set curr (fun e => { e with nextInBin := (m event).nextInBin }), some top)

def remove (head : Option EventPtr) (event : EventPtr) : Except Fault (Mem × Option EventPtr) :=
  match head with
  | none => .error .notFound
  | some h =>
    if (m h).eq (m event) then removeItem fuel m event h
    else do
      let (prev, curr) ← findBin m event fuel h (m h).nextBin
      match curr with
      | none => .error .notFound
      | some c =>
        if (m c).ne (m event) then .error .notFound
        else do
          let (m, top) ← removeItem fuel m event c
          .ok (m.set prev (fun e => { e with nextBin := top }), some h)

end

/-! ## The queue and its callers -/

/-- One event queue, the events in memory, and the `serviceOne` calls that wait for their `process()` to return. -/
structure State where
  mem : Mem
  head : Option EventPtr
  /-- Addresses at which an event has been constructed. -/
  objs : List EventPtr
  curTick : Tick
  /-- The queue is `mainEventQueue`. -/
  main : Bool
  /-- Events whose `process()` is running, the innermost first. -/
  inProcess : List EventPtr
  /-- What the last `serviceOne` that returned has returned. -/
  returned : Option EventPtr

/-- A queue without events. -/
def State.init (main : Bool) (curTick : Tick) : State :=
  { mem := fun _ => {}, head := none, objs := [], curTick, main, inProcess := [], returned := none }

namespace State

section

variable (s : State) (event : EventPtr) (when : Tick)

/-- Rounds given to a loop over the lists. -/
def fuel : Nat := s.objs.length + 1

def setEvent (p : EventPtr) (f : Event → Event) : State :=
  { s with mem := s.mem.set p f }

def setFlagsOf (p : EventPtr) (f : Flags → Flags) : State :=
  s.setEvent p (fun e => { e with flags := f e.flags })

def setWhen : State :=
  s.setEvent event (fun e => { e with when })

def utick (t : Tick) : Int := t % 2 ^ 64

def insertEvent : Except Fault State := do
  let (mem, head) ← insert s.fuel s.mem s.head event
  .ok { s with mem, head }

def removeEvent : Except Fault State := do
  let (mem, head) ← remove s.fuel s.mem s.head event
  .ok { s with mem, head }

/-- `Event::~Event`. -/
def destroy : Except Fault State := do
  ensure .assert (¬ (s.mem event).flags.scheduled)
  .ok (s.setFlagsOf event (fun _ => {}))

/-- `Event::Event`. -/
def construct (p : Int) : Except Fault State := do
  ensure .badObject (¬ (s.mem event).flags.initialized)
  .ok { s.setEvent event (fun e => { when := e.when, priority := p, flags := { initialized := true } }) with
    objs := event :: s.objs }

def schedule : Except Fault State := do
  ensure .assert (utick when ≥ utick s.curTick)
  ensure .assert (¬ (s.mem event).flags.scheduled)
  ensure .assert (s.mem event).flags.initialized
  let s ← (s.setWhen event when).insertEvent event
  .ok (s.setFlagsOf event (fun f => { f with scheduled := true, isMainQueue := s.main }))

def deschedule : Except Fault State := do
  ensure .assert (s.mem event).flags.scheduled
  ensure .assert (s.mem event).flags.initialized
  let s ← s.removeEvent event
  let s := s.setFlagsOf event (fun f => { f with squashed := false, scheduled := false })
  if (s.mem event).flags.autoDelete then s.destroy event else .ok s

def reschedule (always : Bool) : Except Fault State := do
  ensure .assert (when ≥ s.curTick)
  ensure .assert (always ∨ (s.mem event).flags.scheduled)
  ensure .assert (s.mem event).flags.initialized
  let s ← (if (s.mem event).flags.scheduled then s.removeEvent event else .ok s : Except Fault State)
  let s ← (s.setWhen event when).insertEvent event
  .ok (s.setFlagsOf event (fun f => { f with squashed := false, scheduled := true, isMainQueue := s.main }))

/-- What `serviceOne` does before the action: take the top event off the first bin. -/
def popHead : State :=
  let next := (s.mem event).nextInBin
  let s := s.setFlagsOf event (fun f => { f with scheduled := false })
  match next with
  | some next =>
    { s.setEvent next (fun e => { e with nextBin := (s.mem event).nextBin }) with head := some next }
  | none => { s with head := (s.mem event).nextBin }

/-- The end of `serviceOne`. -/
def reap : Except Fault State := do
  let s ← (if (s.mem event).flags.autoDelete && !(s.mem event).flags.scheduled then s.destroy event else .ok s :
    Except Fault State)
  .ok { s with returned := none }

/-- `EventQueue::serviceOne` up to the call of `process()`, or to its end for a squashed event. -/
def serviceOne : Except Fault State :=
  match s.head with
  | none => .error .nullDeref
  | some event =>
    let s := s.popHead event
    if (s.mem event).flags.squashed then
      (s.setFlagsOf event (fun f => { f with squashed := false })).reap event
    else .ok { s with inProcess := event :: s.inProcess }

/-- The rest of the innermost `serviceOne`, when `process()` returns. -/
def processed : Except Fault State :=
  match s.inProcess with
  | [] => .error .badObject
  | event :: rest =>
    let s := { s with inProcess := rest }
    if (s.mem event).flags.isExitEvent then do
      ensure .assert (¬ (s.mem event).flags.autoDelete)
      .ok { s with returned := some event }
    else s.reap event

end

end State

/-- What the owners of events, the simulation loop and `process()` can do. -/
inductive Call
  | construct (event : EventPtr) (p : Int)
  | destroy (event : EventPtr)
  | setFlags (event : EventPtr) (flags : Flags)
  | clearFlags (event : EventPtr) (flags : Flags)
  | setCurTick (t : Tick)
  | schedule (event : EventPtr) (when : Tick)
  | deschedule (event : EventPtr)
  | reschedule (event : EventPtr) (when : Tick) (always : Bool)
  | serviceOne
  | processed
deriving DecidableEq

def exec (s : State) : Call → Except Fault State
  | .construct event p => s.construct event p
  | .destroy event => do
    ensure .badObject (s.mem event).flags.initialized
    s.destroy event
  | .setFlags event flags => do
    ensure .badObject (s.mem event).flags.initialized
    ensure .assert flags.PublicWrite
    .ok (s.setFlagsOf event (fun f => f.set flags))
  | .clearFlags event flags => do
    ensure .badObject (s.mem event).flags.initialized
    ensure .assert flags.PublicWrite
    .ok (s.setFlagsOf event (fun f => f.clear flags))
  | .setCurTick t => .ok { s with curTick := t }
  | .schedule event when => s.schedule event when
  | .deschedule event => s.deschedule event
  | .reschedule event when always => s.reschedule event when always
  | .serviceOne => s.serviceOne
  | .processed => s.processed

/-- What the source asks of a caller: its assertions, objects that are there, and a queue that is not empty. -/
def Legal (s : State) : Call → Prop
  | .construct event _ => (s.mem event).flags.initialized = false
  | .destroy event => (s.mem event).flags.initialized ∧ (s.mem event).flags.scheduled = false
  | .setFlags event flags | .clearFlags event flags => (s.mem event).flags.initialized ∧ flags.PublicWrite
  | .setCurTick _ => True
  | .schedule event when =>
    State.utick s.curTick ≤ State.utick when ∧ (s.mem event).flags.initialized ∧ (s.mem event).flags.scheduled = false
  | .deschedule event => (s.mem event).flags.initialized ∧ (s.mem event).flags.scheduled
  | .reschedule event when always =>
    s.curTick ≤ when ∧ (s.mem event).flags.initialized ∧ (always ∨ (s.mem event).flags.scheduled)
  | .serviceOne => s.head ≠ none
  | .processed => ∃ event rest, s.inProcess = event :: rest ∧
    ((s.mem event).flags.isExitEvent → (s.mem event).flags.autoDelete = false)

end M5.Sim
