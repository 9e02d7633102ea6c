import M5.Cpu.O3.MemDepUnit
import Mathlib.Tactic.Common

/-!
# The load/store queue of the out-of-order CPU

`LSQUnit` of `cpu/o3/lsq_unit.hh` and `cpu/o3/lsq_unit_impl.hh`, for one thread and an ISA with unaligned accesses. Both
queues are circular; `storeWBIdx` is the first store that has not been handed to the cache. A load gets its bytes from
the youngest older store that has them, and a store that executes looks for younger loads that have gone before it.
-/

namespace M5.Cpu.O3

open M5.Lib List

structure MemReq where
  vaddr : Nat
  size : Nat

/-- What the unit reads of a memory instruction. -/
structure MemInst where
  seqNum : InstSeqNum
  isStoreConditional : Bool := false
  uncacheable : Bool := false
  effAddr : Nat := 0
  effAddrValid : Bool := false
  /-- How many bytes it accesses, which the source has in the request only. -/
  size : Nat := 0
  lqIdx : Nat := 0

def intRegSize : Nat := 8

structure SQEntry where
  inst : Option MemInst := none
  size : Nat := 0
  data : List UInt8 := replicate intRegSize 0
  canWB : Bool := false
  completed : Bool := false

structure LSQUnit where
  lqEntries : Nat
  sqEntries : Nat
  loadQueue : Nat → Option MemInst := fun _ => none
  storeQueue : Nat → SQEntry := fun _ => {}
  stores : Int := 0
  storesToWB : Int := 0
  loadTail : Nat := 0
  storeWBIdx : Nat := 0
  memDepViolator : Option InstSeqNum := none

namespace LSQUnit

variable (u : LSQUnit)

def incr (entries i : Nat) : Nat := if entries ≤ i + 1 then 0 else i + 1

def decr (entries i : Nat) : Nat := if i = 0 then entries - 1 else i - 1

def setStore (i : Nat) (e : SQEntry) : LSQUnit := { u with storeQueue := Function.update u.storeQueue i e }

/-- `assert(storeQueue[i].inst)`, and a dereference of it. -/
def storeInst (i : Nat) : Except Stop MemInst :=
  match (u.storeQueue i).inst with
  | some inst => .ok inst
  | none => .error .assert

/-! ## Loads and stores that execute -/

/-- The places that a loop over a queue visits from `i` on until it is at `stop`; it goes round once at most. -/
def walk (move : Nat → Nat) (stop : Nat) : Nat → Nat → List Nat
  | 0, _ => []
  | fuel + 1, i => if i = stop then [] else i :: walk move stop fuel (move i)

/-- The stores before `i` that have not been written back, the youngest first. -/
def olderStores (i : Nat) : List Nat := (walk (decr u.sqEntries) u.storeWBIdx u.sqEntries i).map (decr u.sqEntries)

inductive Lookup
  /-- The bytes from a store; `none` is a byte after the end of its data. -/
  | forward (idx : Nat) (data : List (Option UInt8))
  | stall (idx : Nat)
  | access
deriving DecidableEq

/-- The end of an access, of which addresses have 64 bits. -/
def endAddr (addr size : Nat) : Nat := (addr + size) % 2 ^ 64

/-- The loop of `read` over the stores. -/
def search (req : MemReq) : List Nat → Except Stop Lookup
  | [] => .ok .access
  | i :: is => do
    let inst ← u.storeInst i
    let e := u.storeQueue i
    if e.size = 0 then search req is
    else if inst.uncacheable then search req is
    else do
      ensure .assert inst.effAddrValid
      let storeHasLowerLimit := inst.effAddr ≤ req.vaddr
      let storeHasUpperLimit := endAddr req.vaddr req.size ≤ endAddr inst.effAddr e.size
      let lowerLoadHasStorePart := req.vaddr < endAddr inst.effAddr e.size
      let upperLoadHasStorePart := inst.effAddr < endAddr req.vaddr req.size
      if storeHasLowerLimit ∧ storeHasUpperLimit then
        let shiftAmt := req.vaddr &&& (e.size - 1)
        .ok (.forward i ((range req.size).map fun k => e.data[shiftAmt + k]?))
      else if (storeHasLowerLimit ∧ lowerLoadHasStorePart) ∨ (storeHasUpperLimit ∧ upperLoadHasStorePart) ∨
          (lowerLoadHasStorePart ∧ upperLoadHasStorePart) then do
        ensure .panic (¬ e.completed)
        .ok (.stall i)
      else search req is

/-- The loop of `executeStore` over the loads, with the violator after it and whether there is a fault. -/
def checkLoads (effAddr : Nat) : List Nat → Except Stop (Option InstSeqNum × Bool)
  | [] => .ok (u.memDepViolator, false)
  | i :: is =>
    match u.loadQueue i with
    | none => .error .assert
    | some load =>
      if load.effAddrValid ∧ load.effAddr >>> 8 = effAddr >>> 8 then
        if u.memDepViolator.all (load.seqNum < ·) then .ok (some load.seqNum, true) else .ok (u.memDepViolator, false)
      else checkLoads effAddr is

/-- `executeStore`, after `initiateAcc`: whether there is a fault. -/
def executeStore (inst : MemInst) (i : Nat) (fault : Bool) : Except Stop (LSQUnit × Bool) := do
  ensure .assert (u.stores ≠ 0)
  let e := u.storeQueue i
  if e.size = 0 then .ok (u, fault)
  else do
    ensure .assert (¬ fault)
    let u :=
      if inst.isStoreConditional then
        { u.setStore i { e with canWB := true } with storesToWB := u.storesToWB + 1 }
      else u
    ensure .assert inst.effAddrValid
    let (violator, fault) ← u.checkLoads inst.effAddr (walk (incr u.lqEntries) u.loadTail u.lqEntries inst.lqIdx)
    .ok ({ u with memDepViolator := violator }, fault)

end LSQUnit

/-! ## Forwarding -/

def Overlap (a n b m : Nat) : Prop := ∃ j < n, ∃ k < m, (a + j) % 2 ^ 64 = (b + k) % 2 ^ 64

namespace LSQUnit

variable {u u' : LSQUnit} {req : MemReq} {i j : Nat} {l : List Nat} {d : List (Option UInt8)} {inst store : MemInst}

/-- Addresses have 64 bits, and the data of a store is in its entry. -/
structure Fits (u : LSQUnit) (req : MemReq) : Prop where
  addr : ∀ {j inst}, (u.storeQueue j).inst = some inst → inst.effAddr < 2 ^ 64
  size : ∀ j, (u.storeQueue j).size ≤ intRegSize
  data : ∀ j, (u.storeQueue j).data.length = intRegSize
  vaddr : req.vaddr < 2 ^ 64
  /-- `memData` has 64 bytes. -/
  load : 0 < req.size ∧ req.size ≤ 64

/-- The store at `j` writes a byte that the load reads. -/
def Touches (u : LSQUnit) (req : MemReq) (j : Nat) : Prop :=
  ∃ inst, (u.storeQueue j).inst = some inst ∧ Overlap inst.effAddr (u.storeQueue j).size req.vaddr req.size

/-- The load gets, byte for byte, what the store at `i` writes at its addresses. -/
def Delivers (u : LSQUnit) (req : MemReq) (i : Nat) (inst : MemInst) (d : List (Option UInt8)) : Prop :=
  ∀ k < req.size, ∃ j < (u.storeQueue i).size, (inst.effAddr + j) % 2 ^ 64 = (req.vaddr + k) % 2 ^ 64 ∧
    ∃ b, (u.storeQueue i).data[j]? = some b ∧ d[k]? = some (some b)

/-- The load gets the bytes of the store at `i`, and no store in `before` writes there. -/
structure Right (u : LSQUnit) (req : MemReq) (before : List Nat) (i : Nat) (inst : MemInst) (d : List (Option UInt8)) :
    Prop where
  youngest : ∀ j ∈ before, ¬ u.Touches req j
  bytes : u.Delivers req i inst d

/-- The load does not go round the end of the address space alone, and its low address bits are its offset in the
store. -/
def InPlace (u : LSQUnit) (req : MemReq) (i : Nat) (inst : MemInst) : Prop :=
  (2 ^ 64 ≤ req.vaddr + req.size → 2 ^ 64 ≤ inst.effAddr + (u.storeQueue i).size) ∧
    req.vaddr &&& ((u.storeQueue i).size - 1) = req.vaddr - inst.effAddr

/-- The store at `i` has other data. -/
def withData (u : LSQUnit) (i : Nat) (data : List UInt8) : LSQUnit :=
  u.setStore i { u.storeQueue i with data := data }

/-- A store that the search passes over. -/
def Passed (u : LSQUnit) (req : MemReq) (j : Nat) : Prop :=
  ∃ inst, (u.storeQueue j).inst = some inst ∧ ((u.storeQueue j).size = 0 ∨ inst.uncacheable ∨
    ¬ (req.vaddr < endAddr inst.effAddr (u.storeQueue j).size ∧ inst.effAddr < endAddr req.vaddr req.size))

/-- What the search of a list of stores stopped at, after it passed over those in `before`. -/
structure Found (u : LSQUnit) (req : MemReq) (l : List Nat) (i : Nat) (d : List (Option UInt8)) (before : List Nat)
    (inst : MemInst) : Prop where
  split : ∃ after, l = before ++ i :: after
  passed : ∀ j ∈ before, u.Passed req j
  store : (u.storeQueue i).inst = some inst
  lower : inst.effAddr ≤ req.vaddr
  upper : endAddr req.vaddr req.size ≤ endAddr inst.effAddr (u.storeQueue i).size
  data : d = (range req.size).map fun k => (u.storeQueue i).data[(req.vaddr &&& ((u.storeQueue i).size - 1)) + k]?

theorem storeInst_eq_ok (h : u.storeInst i = .ok inst) : (u.storeQueue i).inst = some inst := by
  unfold storeInst at h
  split at h
  · next hi =>
    cases h
    exact hi
  · cases h

theorem search_forward : ∀ {l : List Nat}, u.search req l = .ok (.forward i d) →
    ∃ before inst, u.Found req l i d before inst
  | [], h => by cases h
  | j :: l, h => by
    obtain ⟨inst, hinst, h⟩ := of_bind h
    have hinst := storeInst_eq_ok hinst
    have hrest : u.Passed req j → u.search req l = .ok (.forward i d) →
        ∃ before inst, u.Found req (j :: l) i d before inst := by
      intro hp h
      obtain ⟨before, inst, hi⟩ := search_forward h
      obtain ⟨after, rfl⟩ := hi.split
      exact ⟨j :: before, inst, ⟨after, rfl⟩, forall_mem_cons.2 ⟨hp, hi.passed⟩, hi.store, hi.lower, hi.upper, hi.data⟩
    dsimp only at h
    split at h
    · next h0 => exact hrest ⟨inst, hinst, .inl h0⟩ h
    · split at h
      · next hu => exact hrest ⟨inst, hinst, .inr (.inl hu)⟩ h
      · obtain ⟨-, h⟩ := of_ensure h
        split at h
        · next hlim =>
          cases h
          exact ⟨[], inst, ⟨l, rfl⟩, fun _ hj => (nomatch hj), hinst, hlim.1, hlim.2, rfl⟩
        · split at h
          · obtain ⟨-, h⟩ := of_ensure h
            cases h
          · next hpart => exact hrest ⟨inst, hinst, .inr (.inr fun ho => hpart (.inr (.inr ho)))⟩ h

/-- The search cannot tell whether the store at `j` overlaps: it skips uncacheable stores, and the comparisons are wrong
for accesses that reach the end of the address space. -/
def Blind (u : LSQUnit) (req : MemReq) (j : Nat) : Prop :=
  2 ^ 64 ≤ req.vaddr + req.size ∨ ∃ inst, (u.storeQueue j).inst = some inst ∧
    (inst.uncacheable ∨ 2 ^ 64 ≤ inst.effAddr + (u.storeQueue j).size)

theorem Passed.not_touches (h : u.Passed req j) (hb : ¬ u.Blind req j) : ¬ u.Touches req j := by
  obtain ⟨inst, hinst, h⟩ := h
  rintro ⟨inst', hinst', a, ha, b, hb', he⟩
  cases hinst.symm.trans hinst'
  have h3 : ¬ 2 ^ 64 ≤ req.vaddr + req.size := fun hx => hb (.inl hx)
  have h4 : ¬ 2 ^ 64 ≤ inst.effAddr + (u.storeQueue j).size := fun hx => hb (.inr ⟨inst, hinst, .inr hx⟩)
  rcases h with h | h | h
  · omega
  · exact hb (.inr ⟨inst, hinst, .inl h⟩)
  · unfold endAddr at h
    omega

theorem Found.delivers {before : List Nat} (hf : u.Fits req) (h : u.Found req l i d before inst)
    (hp : u.InPlace req i inst) : u.Delivers req i inst d := by
  intro k hk
  obtain ⟨hw, hoff⟩ := hp
  have h2 := hf.vaddr
  have h3 := hf.size i
  have h4 := hf.load
  have hlo := h.lower
  have hup := h.upper
  unfold intRegSize at h3
  unfold endAddr at hup
  have hjs : req.vaddr - inst.effAddr + k < (u.storeQueue i).size := by omega
  have hlen : req.vaddr - inst.effAddr + k < (u.storeQueue i).data.length := by
    rw [hf.data i]
    unfold intRegSize
    omega
  refine ⟨_, hjs, by congr 1; omega, _, getElem?_eq_getElem hlen, ?_⟩
  rw [h.data, getElem?_map, getElem?_range hk, hoff, ← getElem?_eq_getElem hlen]
  rfl

theorem storeQueue_withData (data : List UInt8) : (u.withData i data).storeQueue j =
    { u.storeQueue j with data := if j = i then data else (u.storeQueue j).data } := by
  unfold withData setStore
  by_cases hj : j = i
  · subst hj
    simp
  · simp [hj]

/-- The search does not look at the data of the stores. -/
theorem search_withData (data : List UInt8) : ∀ {l : List Nat}, u.search req l = .ok (.forward i d) →
    (u.withData i data).search req l = .ok (.forward i
      ((range req.size).map fun k => data[(req.vaddr &&& ((u.storeQueue i).size - 1)) + k]?))
  | [], h => by cases h
  | j :: l, h => by
    obtain ⟨inst, hinst, h⟩ := of_bind h
    have hinst' : (u.withData i data).storeInst j = .ok inst := by
      rw [storeInst, storeQueue_withData]
      exact hinst
    rw [search, hinst', ok_bind, storeQueue_withData]
    dsimp only at h ⊢
    split at h
    · next h0 =>
      rw [if_pos h0]
      exact search_withData data h
    · next h0 =>
      rw [if_neg h0]
      split at h
      · next hu =>
        rw [if_pos hu]
        exact search_withData data h
      · next hu =>
        obtain ⟨hv, h⟩ := of_ensure h
        rw [if_neg hu, ensure_bind hv]
        split at h
        · next hlim =>
          cases h
          rw [if_pos hlim, if_pos rfl]
        · next hlim =>
          rw [if_neg hlim]
          split at h
          · obtain ⟨-, h⟩ := of_ensure h
            cases h
          · next hpart =>
            rw [if_neg hpart]
            exact search_withData data h

def counting : List UInt8 := [0, 1, 2, 3, 4, 5, 6, 7]

theorem counting_inj {a b : Nat} {x : UInt8} (ha : counting[a]? = some x) (hb : counting[b]? = some x) : a = b := by
  have hall : ∀ a b : Fin 8, counting[a.val]? = counting[b.val]? → a = b := by decide
  obtain ⟨hla, -⟩ := List.getElem?_eq_some_iff.1 ha
  obtain ⟨hlb, -⟩ := List.getElem?_eq_some_iff.1 hb
  exact congrArg Fin.val (hall ⟨a, hla⟩ ⟨b, hlb⟩ (ha.trans hb.symm))

/-- Different bytes tell the offset that is read. -/
theorem Found.inPlace {before : List Nat} (hf : u.Fits req) (h : u.Found req l i d before inst)
    (hd : (u.withData i counting).Delivers req i inst
      ((range req.size).map fun k => counting[(req.vaddr &&& ((u.storeQueue i).size - 1)) + k]?)) :
    u.InPlace req i inst := by
  have h2 := hf.vaddr
  have h3 := hf.size i
  have h4 := hf.load
  have hlo := h.lower
  unfold intRegSize at h3
  simp only [Delivers, storeQueue_withData] at hd
  obtain ⟨j, hj, he, b, hb, hr⟩ := hd 0 h4.1
  have hoff : j = req.vaddr - inst.effAddr := by omega
  refine ⟨fun hw => ?_, ?_⟩
  · obtain ⟨k, hk, he', -⟩ := hd (req.size - 1) (by omega)
    omega
  · rw [getElem?_map, getElem?_range h4.1] at hr
    rw [← hoff]
    exact counting_inj (Option.some.inj hr) hb

/-- A load that is forwarded gets the bytes of the youngest older store that overlaps it if that store is not hidden
from the search and the load is in place; and it gets them for all data of the store only then. -/
theorem forwarded_iff {sqIdx : Nat} (hf : u.Fits req) (h : u.search req (u.olderStores sqIdx) = .ok (.forward i d)) :
    ∃ before inst, u.Found req (u.olderStores sqIdx) i d before inst ∧
      (((∀ j ∈ before, u.Blind req j → ¬ u.Touches req j) ∧ u.InPlace req i inst) → u.Right req before i inst d) ∧
      ((∀ data, data.length = intRegSize → ∃ d', (u.withData i data).search req (u.olderStores sqIdx) =
          .ok (.forward i d') ∧ (u.withData i data).Right req before i inst d') →
        (∀ j ∈ before, u.Blind req j → ¬ u.Touches req j) ∧ u.InPlace req i inst) := by
  obtain ⟨before, inst, hfound⟩ := search_forward h
  refine ⟨before, inst, hfound, ?_, fun hall => ?_⟩
  · rintro ⟨hy, hp⟩
    refine ⟨fun j hj => ?_, hfound.delivers hf hp⟩
    by_cases hbl : u.Blind req j
    · exact hy j hj hbl
    · exact (hfound.passed j hj).not_touches hbl
  · obtain ⟨d', hs, hr⟩ := hall counting rfl
    cases (search_withData counting h).symm.trans hs
    refine ⟨fun j hj _ ht => hr.youngest j hj ?_, hfound.inPlace hf hr.bytes⟩
    simpa only [Touches, storeQueue_withData] using ht

/-- A queue with one store, of the bytes 1 to 8. -/
def oneStore (addr : Nat) : LSQUnit where
  lqEntries := 4
  sqEntries := 4
  stores := 1
  storeQueue
    | 0 => {
      inst := some { seqNum := 1, effAddr := addr, effAddrValid := true }, size := 8, data := [1, 2, 3, 4, 5, 6, 7, 8] }
    | _ => {}

theorem fits_oneStore {addr : Nat} (ha : addr < 2 ^ 64) (hv : req.vaddr < 2 ^ 64) (hs : 0 < req.size ∧ req.size ≤ 64) :
    (oneStore addr).Fits req where
  addr := fun {j} _ h => by
    cases j with
    | zero =>
      cases h
      exact ha
    | succ j => cases h
  size
    | 0 => Nat.le_refl 8
    | _ + 1 => Nat.zero_le _
  data
    | 0 | _ + 1 => rfl
  vaddr := hv
  load := hs

/-- The store is aligned. -/
theorem forwarded_oneStore :
    ∃ before inst, (oneStore 8).Right ⟨12, 4⟩ before 0 inst [some 5, some 6, some 7, some 8] := by
  have hs : (oneStore 8).search ⟨12, 4⟩ ((oneStore 8).olderStores 1) =
      .ok (.forward 0 [some 5, some 6, some 7, some 8]) := rfl
  obtain ⟨before, inst, hfound, hiff⟩ := forwarded_iff (fits_oneStore (by decide) (by decide) (by decide)) hs
  cases hfound.store
  refine ⟨before, _, hiff.1 ⟨fun j hj => ?_, fun h => absurd h (by decide), by decide⟩⟩
  obtain ⟨after, hl⟩ := hfound.split
  cases before with
  | nil => cases hj
  | cons _ l => cases l <;> cases hl

/-- The load at 8 reads the second half of the store at 4, and gets the first. -/
theorem misforwarded_oneStore : ∃ d, (oneStore 4).search ⟨8, 4⟩ ((oneStore 4).olderStores 1) = .ok (.forward 0 d) ∧
    ∀ before inst, (oneStore 4).Found ⟨8, 4⟩ ((oneStore 4).olderStores 1) 0 d before inst →
      ¬ (oneStore 4).Right ⟨8, 4⟩ before 0 inst d := by
  refine ⟨[some 1, some 2, some 3, some 4], rfl, fun before inst hfound hr => ?_⟩
  cases hfound.store
  obtain ⟨j, hj, he, b, hb, hd⟩ := hr.bytes 0 (by decide)
  replace hj : j < 8 := hj
  replace he : (4 + j) % 2 ^ 64 = (8 + 0) % 2 ^ 64 := he
  obtain rfl : j = 4 := by omega
  cases hd
  cases hb

/-! ## Violations -/

/-- The load has its address, in the same granule as the store. -/
def inGranule (effAddr : Nat) (load : MemInst) : Bool := load.effAddrValid && load.effAddr >>> 8 == effAddr >>> 8

/-- The load has its address, and reads a byte that the store writes. -/
def Conflicts (u : LSQUnit) (store : MemInst) (i : Nat) (load : MemInst) : Prop :=
  load.effAddrValid ∧ Overlap load.effAddr load.size store.effAddr (u.storeQueue i).size

theorem checkLoads_eq {addr : Nat} : ∀ {l : List Nat} {loads : List MemInst}, l.map u.loadQueue = loads.map some →
    u.checkLoads addr l = .ok (match loads.find? (inGranule addr) with
      | none => (u.memDepViolator, false)
      | some x => if u.memDepViolator.all (x.seqNum < ·) then (some x.seqNum, true) else (u.memDepViolator, false))
  | [], [], _ => rfl
  | j :: l, x :: loads, h => by
    obtain ⟨hx, hl⟩ := cons.inj h
    rw [checkLoads, hx]
    dsimp only
    by_cases hg : inGranule addr x
    · rw [find?_cons_of_pos hg, if_pos (by simpa [inGranule] using hg)]
      dsimp only
      split <;> rfl
    · rw [find?_cons_of_neg hg, if_neg (by simpa [inGranule] using hg)]
      exact checkLoads_eq hl

theorem le_of_find {addr : Nat} {loads : List MemInst} {x y : MemInst} (hs : loads.Pairwise (·.seqNum < ·.seqNum))
    (hf : loads.find? (inGranule addr) = some x) (hy : y ∈ loads) (hg : inGranule addr y) : x.seqNum ≤ y.seqNum := by
  obtain ⟨-, as, bs, rfl, hno⟩ := find?_eq_some_iff_append.1 hf
  rcases mem_append.1 hy with hy | hy
  · have := hno y hy
    rw [hg] at this
    cases this
  · rcases mem_cons.1 hy with rfl | hy
    · exact Nat.le_refl _
    · have hp := (pairwise_append.1 hs).2.1
      exact Nat.le_of_lt ((pairwise_cons.1 hp).1 y hy)

/-- `x` is the oldest of the younger loads that conflict with a store that executes. This is reported, with a violator
at least as old, iff a load at least as old has its address in the granule of the store, or there is such a violator. -/
theorem violation_reported_iff {loads : List MemInst} {x : MemInst} (hn : u.stores ≠ 0) (hv : store.effAddrValid)
    (hq : (walk (incr u.lqEntries) u.loadTail u.lqEntries store.lqIdx).map u.loadQueue = loads.map some)
    (hs : loads.Pairwise (·.seqNum < ·.seqNum)) (hx : u.Conflicts store i x) :
    ∃ u' fault, u.executeStore store i false = .ok (u', fault) ∧
      ((fault ∨ u.memDepViolator ≠ none) ∧ (∃ v, u'.memDepViolator = some v ∧ v ≤ x.seqNum) ↔
        (∃ y ∈ loads, inGranule store.effAddr y ∧ y.seqNum ≤ x.seqNum) ∨
          ∃ v, u.memDepViolator = some v ∧ v ≤ x.seqNum) := by
  have hsize : (u.storeQueue i).size ≠ 0 := by
    obtain ⟨-, j, -, k, hk, -⟩ := hx
    omega
  unfold executeStore
  rw [ensure_bind hn]
  rw [if_neg hsize]
  generalize hw : (if store.isStoreConditional then _ else u : LSQUnit) = w
  have hwq : w.loadQueue = u.loadQueue := by rw [← hw]; split <;> rfl
  have hwn : w.lqEntries = u.lqEntries := by rw [← hw]; split <;> rfl
  have hwt : w.loadTail = u.loadTail := by rw [← hw]; split <;> rfl
  have hwv : w.memDepViolator = u.memDepViolator := by rw [← hw]; split <;> rfl
  rw [ensure_bind hv, hwn, hwt, checkLoads_eq (hwq ▸ hq), hwv]
  refine ⟨_, _, rfl, ?_⟩
  cases hf : loads.find? (inGranule store.effAddr) with
  | none =>
    have hno : ¬ ∃ y ∈ loads, inGranule store.effAddr y ∧ y.seqNum ≤ x.seqNum := by
      rintro ⟨y, hy, hg, -⟩
      exact find?_eq_none.1 hf y hy hg
    simp only [hno, false_or]
    exact ⟨fun h => h.2, fun ⟨v, hv, hle⟩ => ⟨.inr (hv ▸ Option.some_ne_none v), v, hv, hle⟩⟩
  | some y =>
    have hy := mem_of_find?_eq_some hf
    have hg := find?_some hf
    have hold : (∃ z ∈ loads, inGranule store.effAddr z ∧ z.seqNum ≤ x.seqNum) ↔ y.seqNum ≤ x.seqNum :=
      ⟨fun ⟨z, hz, hgz, hle⟩ => Nat.le_trans (le_of_find hs hf hz hgz) hle, fun hle => ⟨y, hy, hg, hle⟩⟩
    rw [hold]
    cases hm : u.memDepViolator with
    | none => simp
    | some v =>
      by_cases hlt : y.seqNum < v
      · simp only [Option.all_some, hlt, decide_true, if_true]
        simpa using fun hv => Nat.le_trans (Nat.le_of_lt hlt) hv
      · simp only [Option.all_some, hlt, decide_false]
        simpa using fun hv => Nat.le_trans (Nat.le_of_not_lt hlt) hv

def earlyLoad : MemInst := { seqNum := 3, effAddr := 256, effAddrValid := true, size := 4 }

/-- A store of eight bytes, and the load after it. -/
def oneLoad (addr : Nat) : LSQUnit :=
  { oneStore addr with loadQueue := fun i => if i = 0 then some earlyLoad else none, loadTail := 1 }

def lateStore (addr : Nat) : MemInst := { seqNum := 1, effAddr := addr, effAddrValid := true }

theorem violation_oneLoad : ∃ u' fault, (oneLoad 256).executeStore (lateStore 256) 0 false = .ok (u', fault) ∧
    (fault ∨ (oneLoad 256).memDepViolator ≠ none) ∧ ∃ v, u'.memDepViolator = some v ∧ v ≤ earlyLoad.seqNum := by
  have hx : (oneLoad 256).Conflicts (lateStore 256) 0 earlyLoad := ⟨rfl, 0, by decide, 0, by decide, rfl⟩
  have hq : (walk (incr 4) 1 4 0).map (oneLoad 256).loadQueue = [earlyLoad].map some := rfl
  obtain ⟨u', fault, h, hiff⟩ := violation_reported_iff (by decide) rfl hq (pairwise_singleton ..) hx
  exact ⟨u', fault, h, hiff.2 (.inl ⟨earlyLoad, mem_singleton_self _, rfl, Nat.le_refl _⟩)⟩

/-- The store begins in the granule before that of the load, and overlaps it. -/
theorem unreported_oneLoad : ∃ u', (oneLoad 252).executeStore (lateStore 252) 0 false = .ok (u', false) ∧
    (oneLoad 252).memDepViolator = none ∧ u'.memDepViolator = none ∧
    (oneLoad 252).Conflicts (lateStore 252) 0 earlyLoad :=
  ⟨_, rfl, rfl, rfl, rfl, 0, by decide, 4, by decide, rfl⟩

end LSQUnit

end M5.Cpu.O3
