import M5.Lib.Bytes

/-!
# What the Ruby protocols share

Data blocks, the ways a controller stops the simulator, and the history of the completed accesses to a block.
-/

namespace M5.Ruby

open M5.Lib

abbrev DataBlock := Nat → UInt8

def DataBlock.copyPartial (d src : DataBlock) (offset len : Nat) : DataBlock :=
  blit d offset len fun k => src (offset + k)

/-- `DataBlock::equal`: the first `size` bytes are the same. -/
def DataBlock.equal (size : Nat) (d d' : DataBlock) : Bool := (List.range size).all fun k => d k == d' k

inductive Fault
  | invalidTransition
  | assert
  | error
deriving DecidableEq

/-- A lookup that asserts presence. -/
def present {α : Type} : Option α → Except Fault α
  | some a => .ok a
  | none => .error .assert

theorem present_eq_ok {α : Type} {o : Option α} {x : α} : present o = .ok x ↔ o = some x := by
  cases o with
  | none => exact ⟨nofun, nofun⟩
  | some y => exact ⟨fun h => congrArg some (Except.ok.inj h), fun h => congrArg Except.ok (Option.some.inj h)⟩

/-! ## Messages of DMA controllers -/

inductive DMARequestType
  | READ | WRITE | NULL
deriving DecidableEq

/-- The address is the offset in the block. -/
structure DMARequestMsg where
  type : DMARequestType
  physicalAddress : Nat
  requestor : Nat
  dataBlk : DataBlock
  len : Nat

inductive DMAResponseType
  | DATA | ACK | NULL
deriving DecidableEq

structure DMAResponseMsg where
  type : DMAResponseType
  dataBlk : DataBlock := fun _ => 0
  destination : Nat

/-! ## The history of a block -/

/-- A completed access of a processor, with the block as it is then. -/
inductive Access (ι : Type)
  | load (i : ι) (d : DataBlock)
  | store (i : ι) (d : DataBlock)

variable {ι : Type}

/-- The block after the accesses. -/
def lastStore (d : DataBlock) : List (Access ι) → DataBlock
  | [] => d
  | .load _ _ :: l => lastStore d l
  | .store _ d' :: l => lastStore d' l

/-- Every load returned what the stores before it left. -/
def LoadsRead (d : DataBlock) (log : List (Access ι)) : Prop :=
  ∀ before i b rest, log = before ++ .load i b :: rest → b = lastStore d before

theorem lastStore_append (d : DataBlock) : ∀ l m : List (Access ι), lastStore d (l ++ m) = lastStore (lastStore d l) m
  | [], _ => rfl
  | .load _ _ :: l, m => lastStore_append d l m
  | .store _ d' :: l, m => lastStore_append d' l m

theorem LoadsRead.snoc {d : DataBlock} {log : List (Access ι)} {a : Access ι} (h : LoadsRead d log)
    (ha : ∀ i b, a = .load i b → b = lastStore d log) : LoadsRead d (log ++ [a]) := by
  intro before i b rest he
  rcases List.eq_nil_or_concat rest with rfl | ⟨rest', a', rfl⟩
  · obtain ⟨rfl, hl⟩ := List.append_inj' he rfl
    exact ha i b (List.singleton_inj.1 hl)
  · have he' : log ++ [a] = (before ++ .load i b :: rest') ++ [a'] := by simpa using he
    exact h before i b rest' (List.append_inj' he' rfl).1

end M5.Ruby
