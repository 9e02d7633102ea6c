import M5.Base.RangeMap
import M5.Mem.Packet

/-!
# The address decoder of the bus

Model of `findPort` and `recvStatusChange` of `mem/bus.cc`, with the cache of three entries of `mem/bus.hh`. At its end
`recvStatusChange` tells the peers, which may call it for other ports; such calls are further steps.

The cache answers for the addresses of a range up to its end, whatever other ranges start in between. So it is only
transparent when `portMap` gives the port of the range for all of them.
-/

namespace M5.Mem

open M5.Lib M5.Base List

/-- The id of a port; `defaultId` is that of the default port. -/
inductive PortId
  | iface (id : Nat)
  | defaultId
deriving DecidableEq

structure PortCache where
  valid : Bool := false
  id : Nat := 0
  start : Nat := 0
  end_ : Nat := 0

/-- The fields of `Bus` that decide on ports; `past` is what a lookup in an empty `portMap` reads. -/
structure Bus where
  maxId : Nat
  responderSet : Bool
  past : Range Nat
  portMap : RangeMap Nat Nat := .empty
  defaultRange : List (Range Nat) := []
  portCache : List PortCache := [{}, {}, {}]

namespace Bus

variable (s : Bus) (addr : Nat)

def checkPortCache : Option Nat :=
  (s.portCache.find? fun c => c.valid && decide (addr ≥ c.start) && decide (addr < c.end_)).map PortCache.id

def updatePortCache (id start end_ : Nat) : Bus :=
  { s with portCache := ⟨true, id, start, end_⟩ :: s.portCache.take 2 }

def clearPortCache : Bus := { s with portCache := s.portCache.map fun c => { c with valid := false } }

/-- The end of `findPort`, for an address that is not in `portMap`. -/
def findDefault : Except Fault PortId :=
  if s.defaultRange.any fun r => decide (addr ≥ r.start) && decide (addr ≤ r.end_) then .ok .defaultId
  else if s.responderSet then .error .panic else .ok .defaultId

def findPort : Except Fault (PortId × Bus) :=
  match s.checkPortCache addr with
  | some id => .ok (.iface id, s)
  | none =>
    match s.portMap.find s.past ⟨addr, addr⟩ with
    | some i => .ok (.iface i.2, s.updatePortCache i.2 i.1.start i.1.end_)
    | none => do
      let id ← s.findDefault addr
      .ok (id, s)

/-- The loop that cleans out the ranges of a port. -/
def eraseId (m : RangeMap Nat Nat) (id : Nat) : RangeMap Nat Nat :=
  ⟨m.tree.filter fun i => i.2 ≠ id, m.sorted.sublist filter_sublist⟩

/-- A range is added, unless `insert` returns `end()`. -/
def addRange (past : Range Nat) (id : Nat) (m : RangeMap Nat Nat) (r : Range Nat) : Except Fault (RangeMap Nat Nat) :=
  match m.insert past r id with
  | (some _, m) => .ok m
  | (none, _) => .error .panic

/-- The peer of the port has the given ranges; `snoops` is what it says about snooping. -/
def recvStatusChange (id : PortId) (ranges : List (Range Nat)) (snoops : Bool) : Except Fault Bus :=
  let s := s.clearPortCache
  match id with
  | .defaultId =>
    if s.responderSet then do
      ensure .assert (snoops = false)
      .ok { s with defaultRange := ranges }
    else .ok { s with defaultRange := [] }
  | .iface id => do
    ensure .assert (id < s.maxId)
    let m ← ranges.foldlM (addRange s.past id) (eraseId s.portMap id)
    .ok { s with portMap := m }

/-- A lookup in `portMap` and then the default ranges, without the cache. -/
def lookup : Except Fault PortId :=
  match s.portMap.find s.past ⟨addr, addr⟩ with
  | some i => .ok (.iface i.2)
  | none => s.findDefault addr

/-- The cache does not change the result for the address. -/
def Transparent : Prop := (s.findPort addr).map Prod.fst = s.lookup addr

/-- In every stored range `portMap` gives its port for the addresses before the end. -/
def Clear : Prop :=
  ∀ x ∈ s.portMap.tree, ∀ b < x.1.end_, x.1.start ≤ b → (s.portMap.find s.past ⟨b, b⟩).map Prod.snd = some x.2

instance (s : Bus) : Decidable s.Clear := inferInstanceAs (Decidable (∀ x ∈ s.portMap.tree, ∀ b < x.1.end_, _ → _ = _))

def Stored : Prop :=
  ∀ c ∈ s.portCache, c.valid → ((⟨c.start, c.end_⟩ : Range Nat), c.id) ∈ s.portMap.tree

variable {s t : Bus} {addr : Nat} {x : Range Nat × Nat}

theorem checkPortCache_eq_some {id : Nat} (h : s.checkPortCache addr = some id) :
    ∃ c ∈ s.portCache, c.valid ∧ c.start ≤ addr ∧ addr < c.end_ ∧ c.id = id := by
  obtain ⟨c, hc, rfl⟩ := Option.map_eq_some_iff.1 h
  have hp := find?_some hc
  simp only [Bool.and_eq_true, decide_eq_true_eq] at hp
  exact ⟨c, mem_of_find?_eq_some hc, hp.1.1, hp.1.2, hp.2, rfl⟩

theorem findPort_hit {id : Nat} (h : s.checkPortCache addr = some id) : s.findPort addr = .ok (.iface id, s) := by
  simp only [findPort, h]

/-- A hit is right when the map is clear, and a miss always. -/
theorem Stored.transparent (h : s.Stored) (hc : s.Clear) : s.Transparent addr := by
  unfold Transparent findPort lookup
  cases hcache : s.checkPortCache addr with
  | none =>
    cases s.portMap.find s.past ⟨addr, addr⟩ with
    | some i => rfl
    | none => cases s.findDefault addr <;> rfl
  | some id =>
    obtain ⟨c, hmem, hv, hs, he, rfl⟩ := checkPortCache_eq_some hcache
    obtain ⟨y, hy, hid⟩ := Option.map_eq_some_iff.1 (hc _ (h c hmem hv) addr he hs)
    rw [hy]
    exact congrArg (fun i => Except.ok (PortId.iface i)) hid.symm

theorem Stored.findPort {id : PortId} (h : s.Stored) (hc : s.Clear) (hs : s.findPort addr = .ok (id, t)) :
    t.Stored ∧ t.Clear := by
  unfold Bus.findPort at hs
  split at hs
  · cases hs
    exact ⟨h, hc⟩
  · split at hs
    · next i hi =>
      cases hs
      refine ⟨fun c hmem hv => ?_, hc⟩
      rcases mem_cons.1 hmem with rfl | hmem
      · exact (RangeMap.find_some hi).1
      · exact h c (mem_of_mem_take hmem) hv
    · obtain ⟨_, -, hs⟩ := of_bind hs
      cases hs
      exact ⟨h, hc⟩

theorem recvStatusChange_invalid {id : PortId} {ranges : List (Range Nat)} {snoops : Bool}
    (h : s.recvStatusChange id ranges snoops = .ok t) : ∀ c ∈ t.portCache, c.valid = false := by
  have hclear : t.portCache = s.clearPortCache.portCache := by
    cases id with
    | defaultId =>
      simp only [recvStatusChange] at h
      split at h
      · obtain ⟨-, rfl⟩ := of_check h
        rfl
      · cases h
        rfl
    | iface id =>
      obtain ⟨-, h⟩ := of_ensure h
      obtain ⟨m, -, rfl⟩ := of_map h
      rfl
  rw [hclear]
  exact forall_mem_map.2 fun _ _ => rfl

theorem stored_of_invalid (h : ∀ c ∈ s.portCache, c.valid = false) : s.Stored := fun c hc hv =>
  absurd (hv.symm.trans (h c hc)) nofun

theorem find_start (hx : x ∈ s.portMap.tree) (hp : x.1.start ≤ x.1.end_) :
    s.portMap.find s.past ⟨x.1.start, x.1.start⟩ = some x := by
  obtain ⟨b, hb⟩ := RangeMap.before_isSome (r := ⟨x.1.start, x.1.start⟩) hx (le_refl _)
  have hbx : b = x := by
    rcases s.portMap.sorted.le_last hb hx (le_refl _) with h | h
    · exact h.symm
    · exact absurd (RangeMap.mem_of_before hb).2 (not_le_of_gt h)
  rw [hbx] at hb
  have hm : x.1.meets ⟨x.1.start, x.1.start⟩ := Range.meets_iff.2 ⟨le_refl _, hp⟩
  rw [RangeMap.find_of_before hb, if_pos hm]

/-- When nothing is cached, a range whose port `portMap` does not give for one of its addresses can be cached. -/
theorem clear_of_transparent (h0 : ∀ c ∈ s.portCache, c.valid = false)
    (h : ∀ a id t, s.findPort a = .ok (id, t) → ∀ addr, t.Transparent addr) : s.Clear := by
  intro x hx b hb hs
  have hmiss : s.checkPortCache x.1.start = none := by
    cases hc : s.checkPortCache x.1.start with
    | none => rfl
    | some id =>
      obtain ⟨c, hmem, hv, -⟩ := checkPortCache_eq_some hc
      exact absurd (hv.symm.trans (h0 c hmem)) nofun
  have hfind : s.findPort x.1.start = .ok (.iface x.2, s.updatePortCache x.2 x.1.start x.1.end_) := by
    simp only [findPort, hmiss, find_start hx (by omega)]
  have hhit : (s.updatePortCache x.2 x.1.start x.1.end_).checkPortCache b = some x.2 := by
    simp [checkPortCache, updatePortCache, hb, hs]
  have ht := h _ _ _ hfind b
  rw [Transparent, findPort_hit hhit] at ht
  have ht : .ok (.iface x.2) = s.lookup b := ht
  unfold lookup findDefault at ht
  split at ht
  · next i hi =>
    rw [hi]
    exact congrArg some (PortId.iface.inj (Except.ok.inj ht)).symm
  · split at ht
    · cases ht
    · split at ht <;> cases ht

inductive Act
  | findPort (addr : Nat)
  | recvStatusChange (id : PortId) (ranges : List (Range Nat)) (snoops : Bool)

def step (s : Bus) : Act → Except Fault Bus
  | .findPort addr => do
    let r ← s.findPort addr
    .ok r.2
  | .recvStatusChange id ranges snoops => s.recvStatusChange id ranges snoops

theorem Stored.lookups {bs : List Nat} (h : s.Stored) (hc : s.Clear)
    (hrun : Run (fun s b t => step s (.findPort b) = .ok t) s bs t) : t.Stored ∧ t.Clear :=
  hrun.invariant (I := fun s => s.Stored ∧ s.Clear) ⟨h, hc⟩ fun ⟨h, hc⟩ hs => by
    obtain ⟨r, hf, rfl⟩ := of_map hs
    exact h.findPort hc hf

def init (maxId : Nat) (responderSet : Bool) (past : Range Nat) : Bus := { maxId, responderSet, past }

/-- As long as the map is clear the cache is transparent; and after a change of ranges it stays so in all sequences of
lookups exactly if the map is clear. -/
theorem transparent_iff {maxId : Nat} {responderSet : Bool} {past : Range Nat} {as : List Act}
    (h : Run (fun s a t => step s a = .ok t ∧ t.Clear) (init maxId responderSet past) as s) :
    (∀ addr, s.Transparent addr) ∧ ∀ id ranges snoops t, s.recvStatusChange id ranges snoops = .ok t →
      ((∀ bs u, Run (fun s b t => step s (.findPort b) = .ok t) t bs u → ∀ addr, u.Transparent addr) ↔ t.Clear) := by
  have hinv : s.Stored ∧ s.Clear := by
    refine h.invariant (I := fun s => s.Stored ∧ s.Clear) ⟨stored_of_invalid ?_, nofun⟩
      fun {s a t} hi ⟨hs, hc⟩ => ⟨?_, hc⟩
    · exact (by decide : ∀ c ∈ [({} : PortCache), {}, {}], c.valid = false)
    cases a with
    | findPort addr => exact (hi.1.lookups hi.2 (.cons hs .nil)).1
    | recvStatusChange id ranges snoops => exact stored_of_invalid (recvStatusChange_invalid hs)
  refine ⟨fun _ => hinv.1.transparent hinv.2, fun id ranges snoops t ht => ?_⟩
  have h0 := recvStatusChange_invalid ht
  refine ⟨fun hall => clear_of_transparent h0 fun a id u hu => hall [a] u (.cons ?_ .nil), fun hc bs u hu => ?_⟩
  · rw [step, hu]
    rfl
  · obtain ⟨hst, hcl⟩ := (stored_of_invalid h0).lookups hc hu
    exact fun _ => hst.transparent hcl

def stepClear (s : Bus) (a : Act) : Except Fault Bus := do
  let t ← s.step a
  ensure .assert t.Clear
  .ok t

/-- Two ports of which one gives up a range to the other, with lookups in between. -/
def movedRange : List Act :=
  [.recvStatusChange (.iface 1) [⟨1, 4⟩, ⟨6, 9⟩] false, .findPort 7, .recvStatusChange (.iface 1) [⟨1, 4⟩] false,
    .recvStatusChange (.iface 2) [⟨5, 9⟩] false, .findPort 7]

theorem transparent_movedRange : ∃ s, Run (fun s a t => step s a = .ok t ∧ t.Clear) (init 3 false ⟨0, 0⟩) movedRange s ∧
    s.checkPortCache 6 = some 2 ∧ s.Transparent 6 := by
  have hstep : ∀ {s : Bus} {a : Act} {t : Bus}, stepClear s a = .ok t → step s a = .ok t ∧ t.Clear := by
    intro s a t h
    obtain ⟨t, ht, h⟩ := of_bind h
    obtain ⟨hc, rfl⟩ := of_check h
    exact ⟨ht, hc⟩
  obtain ⟨s, hrun, hs⟩ := Run.exists_of_check stepClear hstep (init 3 false ⟨0, 0⟩) movedRange
    (fun s => s.checkPortCache 6 = some 2) (by decide +kernel)
  exact ⟨s, hrun, hs, (transparent_iff hrun).1 6⟩

/-- The range of 5 to 7 is accepted between those of 1 to 4 and 6 to 9, and looked up. -/
def insertedBetween : List Act :=
  [.recvStatusChange (.iface 1) [⟨1, 4⟩] false, .recvStatusChange (.iface 2) [⟨6, 9⟩] false,
    .recvStatusChange (.iface 3) [⟨5, 7⟩] false, .findPort 5]

/-- Then 6 goes to the port of that range, and without the cache to the one of the other. -/
theorem not_transparent_insertedBetween : ∃ s, Run (fun s a t => step s a = .ok t)
    (init 4 false ⟨0, 0⟩) insertedBetween s ∧
    s.checkPortCache 6 = some 3 ∧ s.lookup 6 = .ok (.iface 2) ∧ ¬ s.Transparent 6 := by
  obtain ⟨s, hrun, h1, h2⟩ := Run.exists_of_check step id (init 4 false ⟨0, 0⟩) insertedBetween
    (fun s => s.checkPortCache 6 = some 3 ∧ s.lookup 6 = .ok (.iface 2)) (by decide +kernel)
  refine ⟨s, hrun, h1, h2, fun ht => ?_⟩
  rw [Transparent, findPort_hit h1, h2] at ht
  cases ht

end Bus

end M5.Mem
