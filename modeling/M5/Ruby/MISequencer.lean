import M5.Ruby.MIDirectory
import M5.Ruby.Sequencer

/-!
# Processors over MI_example

The blocks of MI_example with a sequencer for every L1 cache. A hit action of the cache controller calls the sequencer
back, and every state that the controller sets gives the line its permission in the cache, which may clear its lock.
-/

namespace M5.Ruby.MIExample

open M5.Lib

structure Done (ι : Type) where
  cpu : ι
  line : Nat
  type : RubyRequestType
deriving DecidableEq

/-- The sequencers, the blocks by line address, and the requests that are completed. -/
structure SeqSystem (ι : Type) where
  seq : ι → Sequencer
  block : Nat → Block ι
  done : List (Done ι)

def CacheRequestType.event : CacheRequestType → Mandatory
  | .LD => .Load
  | .IFETCH => .Ifetch
  | .ST | .ATOMIC => .Store

/-- The lock of a line after the controller has set its state: `CacheMemory::changePermission`, `allocate` and
`deallocate`. -/
def relock (locked : Option Int) (l : L1) : Option Int :=
  match l.entry with
  | none => none
  | some _ => some (if l.getState = .M then locked.getD (-1) else -1)

/-- The input ports of the caches. -/
def Label.isCachePort {ι : Type} : Label ι → Bool
  | .mandatory .. | .forward .. | .response .. => true
  | .request | .memory | .dmaRequest | .reorderRequests _ | .reorderResponses .. | .reorderMemory _ => false

/-- The states in which a processor's request stays in the mandatory queue. -/
def L1.stalls (l : L1) : Bool :=
  match l.getState with
  | .IS | .IM | .MI | .II => true
  | .I | .M | .MII => false

end MIExample

namespace Sequencer

open MIExample

variable (q : Sequencer) (line : Nat)

/-- What the write request of the line does to the block when it completes. -/
def written (data : DataBlock) : DataBlock :=
  match q.writeRequestTable.lookup line with
  | .ok r => (q.hitData r data).2
  | .error _ => data

/-- The callback for an access that the controller has completed. -/
def callback {ι : Type} : List (Access ι) → Except Fault (Option RubyRequest × Sequencer)
  | [] => .ok (none, q)
  | .store _ _ :: _ => do
    let (r, q) ← q.writeCallback line
    return (some r, q)
  | .load _ _ :: _ => do
    let (r, q) ← q.readCallback line
    return (some r, q)

def setPermission (l : L1) : Sequencer :=
  { q with dataCache := fun a => if a = line then relock (q.dataCache a) l else q.dataCache a }

def popMandatory (m : CacheMsg) (l : L1) : Sequencer :=
  if l.stalls then q else { q with mandatoryQueue := q.mandatoryQueue.erase m }

end Sequencer

namespace MIExample

variable {ι : Type} [DecidableEq ι]

namespace SeqSystem

variable (s : SeqSystem ι)

/-- The controller of the cache `i` does something with a line. -/
def cacheStep (i : ι) (line : Nat) (f : (DataBlock → DataBlock) → Block ι → Except Fault (Block ι)) :
    Except Fault (SeqSystem ι) := do
  let q := s.seq i
  let b ← f (q.written line) (s.block line)
  let (r, q) ← q.callback line (b.log.drop (s.block line).log.length)
  return {
    seq := Function.update s.seq i (q.setPermission line (b.l1 i))
    block := Function.update s.block line b
    done := s.done ++ r.toList.map fun r => { cpu := i, line, type := r.type } }

inductive Label (ι : Type)
  | makeRequest (i : ι) (r : RubyRequest)
  /-- The input ports of an L1 cache. -/
  | mandatory (i : ι) (m : CacheMsg)
  | replacement (i : ι) (line : Nat)
  | forward (i : ι) (line : Nat)
  | response (i : ι) (line : Nat)
  /-- The input ports of the directory, and what the networks and the memory do. -/
  | directory (line : Nat) (l : MIExample.Label ι)

def handle : Label ι → Except Fault (SeqSystem ι)
  | .makeRequest i r => do
    let (_, q) ← (s.seq i).makeRequest r
    return { s with seq := Function.update s.seq i q }
  | .mandatory i m => do
    let s' ← s.cacheStep i m.lineAddress fun write =>
      (Block.l1Cache i write).trigger (CacheRequestType.event m.type).event
    return { s' with
      seq := Function.update s'.seq i ((s'.seq i).popMandatory m ((s.block m.lineAddress).l1 i)) }
  | .replacement i line => s.cacheStep i line fun write => (Block.l1Cache i write).trigger .Replacement
  | .forward i line => s.cacheStep i line fun write b => b.forwardRequestNetworkIn i write
  | .response i line => s.cacheStep i line fun write b => b.responseNetworkIn i write
  | .directory line l => do
    let b ← (s.block line).handle l
    return { s with block := Function.update s.block line b }

/-- The labels of the directory are no input ports of caches; a message that is handled is in the queue. -/
def Admits : Label ι → Prop
  | .mandatory i m => m ∈ (s.seq i).mandatoryQueue
  | .directory line l => (s.block line).Admits l ∧ l.isCachePort = false
  | .makeRequest .. | .replacement .. | .forward .. | .response .. => True

/-- A processor makes a request, or a controller handles a message. -/
def Step (s : SeqSystem ι) (l : Label ι) (s' : SeqSystem ι) : Prop := s.Admits l ∧ s.handle l = .ok s'

/-- At the start no cache has a block and no processor has a request; the contexts are no negative numbers. -/
structure Init (d : Nat → Start) (s : SeqSystem ι) : Prop where
  write : ∀ i, (s.seq i).writeRequestTable = []
  read : ∀ i, (s.seq i).readRequestTable = []
  version : ∀ i, 0 ≤ (s.seq i).version
  dataCache : ∀ i, (s.seq i).dataCache = fun _ => none
  block : s.block = System.init d
  done : s.done = []

end SeqSystem

end MIExample

end M5.Ruby
