import M5.Mem.Cache.MSHR
import M5.Lib.NodeList
import M5.Lib.Run

/-!
# The queue of miss status holding registers

`MSHRQueue` of `mem/cache/mshr_queue.cc`. The lists of allocated entries and of those ready to be sent are `std::list`s
whose iterators are kept in the entries; an iterator that denotes no node of its list is a fault, as a failed assertion
is.
-/

namespace M5.Mem

open Lib Lib.NodeList Function List

/-- An entry: an MSHR with its address, and the iterators to its nodes. -/
structure MSHREntry where
  mshr : MSHR := {}
  addr : Addr := 0
  size : Nat := 0
  isForward : Bool := false
  allocIter : Nat := 0
  readyIter : Nat := 0

/-- The queue; a new list node gets the identity `nextNode`. -/
structure MSHRQueue where
  numEntries : Nat
  numReserve : Nat
  registers : Nat → MSHREntry := fun _ => {}
  freeList : List Nat
  allocatedList : List (Node Nat) := []
  readyList : List (Node Nat) := []
  allocated : Int := 0
  inServiceEntries : Int := 0
  nextNode : Nat := 0

namespace MSHRQueue

def create (numEntries reserve : Nat) : MSHRQueue where
  numEntries := numEntries + reserve - 1
  numReserve := reserve
  freeList := range (numEntries + reserve - 1)

variable (q : MSHRQueue)

variable (i : Nat)

def setEntry (e : MSHREntry) : MSHRQueue := { q with registers := update q.registers i e }

def setMSHR (m : MSHR) : MSHRQueue := q.setEntry i { q.registers i with mshr := m }

def eraseNode (l : List (Node Nat)) (it : Nat) : Except Fault (List (Node Nat)) :=
  match erase l it with
  | some l => .ok l
  | none => .error .panic

def readyTime (n : Node Nat) : Nat := (q.registers n.val).mshr.readyTime

/-- `addToReadyList`, with the iterator it returns. -/
def addToReadyList : Except Fault (Nat × MSHRQueue) :=
  let n : Node Nat := ⟨q.nextNode, i⟩
  let q' := { q with nextNode := q.nextNode + 1 }
  let atEnd := match q.readyList.getLast? with
    | none => true
    | some back => decide (q.readyTime back ≤ q.readyTime n)
  if atEnd then .ok (n.id, { q' with readyList := q.readyList ++ [n] })
  else
    match insertBefore (fun x => decide (q.readyTime x > q.readyTime n)) n q.readyList with
    | some l => .ok (n.id, { q' with readyList := l })
    | none => .error .assert

/-- `addToReadyList` where its result is stored in `readyIter`. -/
def makeReady : Except Fault MSHRQueue := do
  let (it, q) ← q.addToReadyList i
  .ok (q.setEntry i { q.registers i with readyIter := it })

def allocate (addr : Addr) (size : Nat) (pkt : Packet) (up : Option Nat) (whenReady order : Nat) :
    Except Fault (Nat × MSHRQueue) :=
  match q.freeList with
  | [] => .error .assert
  | i :: free => do
    ensure .assert ((q.registers i).mshr.ntargets = 0)
    let m ← (q.registers i).mshr.allocate pkt up whenReady order
    -- `allocIter` is the node at the end of `allocatedList`
    let e := { q.registers i with mshr := m, addr := addr, size := size, isForward := false, allocIter := q.nextNode }
    let n : Node Nat := ⟨q.nextNode, i⟩
    let q := { q.setEntry i e with
      freeList := free, allocatedList := q.allocatedList ++ [n], nextNode := q.nextNode + 1 }
    let q ← q.makeReady i
    .ok (i, { q with allocated := q.allocated + 1 })

/-- `deallocateOne`. -/
def deallocate : Except Fault MSHRQueue := do
  let l ← eraseNode q.allocatedList (q.registers i).allocIter
  let q := { q with allocatedList := l, freeList := i :: q.freeList, allocated := q.allocated - 1 }
  let q ← if (q.registers i).mshr.inService then .ok { q with inServiceEntries := q.inServiceEntries - 1 }
    else do
      let l ← eraseNode q.readyList (q.registers i).readyIter
      .ok { q with readyList := l }
  let m ← (q.registers i).mshr.deallocate
  .ok (q.setMSHR i m)

def markInService : Except Fault MSHRQueue := do
  let (done, m) ← (q.registers i).mshr.markInService
  let q := q.setMSHR i m
  if done then q.deallocate i
  else do
    let l ← eraseNode q.readyList (q.registers i).readyIter
    .ok { q with readyList := l, inServiceEntries := q.inServiceEntries + 1 }

def markPending : Except Fault MSHRQueue := do
  ensure .assert ((q.registers i).mshr.inService)
  let q := q.setMSHR i { (q.registers i).mshr with inService := false, phase := .busy }
  makeReady { q with inServiceEntries := q.inServiceEntries - 1 } i

/-- The calls on a queue, and the changes the cache makes to an entry between them. -/
inductive Act
  | allocate (addr : Addr) (size : Nat) (pkt : Packet) (up : Option Nat) (whenReady order : Nat)
  | markInService (i : Nat)
  | markPending (i : Nat)
  | deallocate (i : Nat)
  | change (i : Nat) (m : MSHR)

def entries : List Nat := q.allocatedList.map Node.val

/-- What the callers guarantee: that there is a free entry, or that the entry is allocated, that it is in service or not
as the call needs it, and that the MSHR's own part of the call meets its assertions. A change of an entry leaves it in
service or not, and leaves the time at which it is ready unless it is in service. -/
def Act.Allowed : Act → Prop
  | allocate .. => q.freeList ≠ []
  | markInService i => i ∈ q.entries ∧ (q.registers i).mshr.inService = false ∧
      ∃ m, (q.registers i).mshr.handle .markInService = .ok m
  | markPending i => i ∈ q.entries ∧ (q.registers i).mshr.inService
  | deallocate i => i ∈ q.entries ∧ ∃ m, (q.registers i).mshr.deallocate = .ok m
  | change i m => i ∈ q.entries ∧ m.inService = (q.registers i).mshr.inService ∧
      (m.inService = false → m.readyTime = (q.registers i).mshr.readyTime)

def handle : Act → Except Fault MSHRQueue
  | .allocate addr size pkt up whenReady order => do
    let (_, q) ← q.allocate addr size pkt up whenReady order
    .ok q
  | .markInService i => q.markInService i
  | .markPending i => q.markPending i
  | .deallocate i => q.deallocate i
  | .change i m => .ok (q.setMSHR i m)

def Step (q : MSHRQueue) (a : Act) (q' : MSHRQueue) : Prop := a.Allowed q ∧ q.handle a = .ok q'

/-! ## The invariant -/

/-- The order of the ready list: by the time, and among equal times the older node first. -/
def Before (regs : Nat → MSHREntry) (a b : Node Nat) : Prop :=
  (regs a.val).mshr.readyTime < (regs b.val).mshr.readyTime ∨
    ((regs a.val).mshr.readyTime = (regs b.val).mshr.readyTime ∧ a.id < b.id)

/-- What the assertions of `allocate` ask of a free entry. -/
structure Clean (m : MSHR) : Prop where
  ntargets : m.ntargets = 0
  targets : m.targets.isReset
  deferred : m.deferredTargets.isReset

/-- Free and allocated entries partition the registers; the ready list has the allocated entries that are not in
service, each once, in its order; the iterators denote their own nodes; the counters count; and free entries are
clean. -/
structure Consistent (q : MSHRQueue) : Prop where
  partition : (q.freeList ++ q.entries).Perm (range q.numEntries)
  alloc : Tracked (fun i => (q.registers i).allocIter) q.nextNode q.allocatedList
  ready : Tracked (fun i => (q.registers i).readyIter) q.nextNode q.readyList
  readyEntries : (q.readyList.map Node.val).Perm (q.entries.filter fun i => !(q.registers i).mshr.inService)
  sorted : q.readyList.Pairwise (Before q.registers)
  allocated : q.allocated = q.allocatedList.length
  inService : q.inServiceEntries = q.entries.countP fun i => (q.registers i).mshr.inService
  clean : ∀ i ∈ q.freeList, Clean (q.registers i).mshr

theorem Consistent.create (numEntries reserve : Nat) : (create numEntries reserve).Consistent where
  partition := by
    show (range _ ++ []).Perm _
    rw [append_nil]
    exact .refl _
  alloc := .nil
  ready := .nil
  readyEntries := .nil
  sorted := .nil
  allocated := rfl
  inService := rfl
  clean _ _ := ⟨rfl, rfl, rfl⟩

section Ready

variable {q : MSHRQueue} {i : Nat}

theorem Before.le {regs : Nat → MSHREntry} {a b : Node Nat} (h : Before regs a b) :
    (regs a.val).mshr.readyTime ≤ (regs b.val).mshr.readyTime := by
  rcases h with h | h <;> omega

/-- The loop of `addToReadyList` finds its place, behind all entries that are ready no later. -/
theorem addToReadyList_ok (hs : q.readyList.Pairwise (Before q.registers)) (i : Nat) : ∃ l₁ l₂,
    q.readyList = l₁ ++ l₂ ∧ (∀ n ∈ l₁, q.readyTime n ≤ (q.registers i).mshr.readyTime) ∧
    (∀ n ∈ l₂, (q.registers i).mshr.readyTime < q.readyTime n) ∧ q.addToReadyList i = .ok (q.nextNode,
      { q with nextNode := q.nextNode + 1, readyList := l₁ ++ ⟨q.nextNode, i⟩ :: l₂ }) := by
  unfold addToReadyList
  cases hb : q.readyList.getLast? with
  | none =>
    have hnil : q.readyList = [] := getLast?_eq_none_iff.1 hb
    exact ⟨[], [], hnil, nofun, nofun, by rw [hnil]; rfl⟩
  | some back =>
    obtain ⟨l, hl⟩ := getLast?_eq_some_iff.1 hb
    by_cases hle : q.readyTime back ≤ q.readyTime ⟨q.nextNode, i⟩
    · refine ⟨q.readyList, [], (append_nil _).symm, fun n hn => ?_, nofun, ?_⟩
      · rw [hl] at hn hs
        rcases mem_append.1 hn with hn | hn
        · exact Nat.le_trans ((pairwise_append.1 hs).2.2 n hn back (mem_singleton.2 rfl)).le hle
        · rw [mem_singleton.1 hn]
          exact hle
      · rw [if_pos (decide_eq_true hle)]
    · have hmem : back ∈ q.readyList := mem_of_getLast? hb
      obtain ⟨l₁, x, l₂, hsplit, h₁, hx, hins⟩ := insertBefore_eq
        (p := fun x => decide (q.readyTime x > q.readyTime ⟨q.nextNode, i⟩))
        ⟨back, hmem, decide_eq_true (Nat.lt_of_not_le hle)⟩
      refine ⟨l₁, x :: l₂, hsplit, fun n hn => ?_, fun n hn => ?_, ?_⟩
      · exact Nat.le_of_not_lt (of_decide_eq_false (h₁ n hn))
      · rcases mem_cons.1 hn with rfl | hn
        · exact of_decide_eq_true hx
        · rw [hsplit] at hs
          have hxn := (pairwise_cons.1 (pairwise_append.1 hs).2.1).1 n hn
          exact Nat.lt_of_lt_of_le (of_decide_eq_true hx) hxn.le
      · rw [if_neg (by simpa using hle), hins]

theorem sorted_congr {regs regs' : Nat → MSHREntry} {l : List (Node Nat)} (hs : l.Pairwise (Before regs))
    (hr : ∀ n ∈ l, (regs' n.val).mshr.readyTime = (regs n.val).mshr.readyTime) : l.Pairwise (Before regs') := by
  refine hs.imp_of_mem fun {a b} ha hb hab => ?_
  unfold Before
  rw [hr a ha, hr b hb]
  exact hab

theorem update_readyIter (q : MSHRQueue) (i it j : Nat) :
    (update q.registers i { q.registers i with readyIter := it } j).mshr = (q.registers j).mshr ∧
      (update q.registers i { q.registers i with readyIter := it } j).allocIter = (q.registers j).allocIter := by
  by_cases hj : j = i
  · rw [hj, update_self]
    exact ⟨rfl, rfl⟩
  · rw [update_of_ne hj]
    exact ⟨rfl, rfl⟩

theorem makeReady_ok (ht : Tracked (fun i => (q.registers i).readyIter) q.nextNode q.readyList)
    (hs : q.readyList.Pairwise (Before q.registers)) (hi : i ∉ q.readyList.map Node.val) :
    ∃ l, q.makeReady i = .ok { q with
        nextNode := q.nextNode + 1
        readyList := l
        registers := update q.registers i { q.registers i with readyIter := q.nextNode } } ∧
      (l.map Node.val).Perm (i :: q.readyList.map Node.val) ∧
      Tracked (fun j => (update q.registers i { q.registers i with readyIter := q.nextNode } j).readyIter)
        (q.nextNode + 1) l ∧
      l.Pairwise (Before (update q.registers i { q.registers i with readyIter := q.nextNode })) := by
  obtain ⟨l₁, l₂, hsplit, h₁, h₂, hadd⟩ := addToReadyList_ok hs i
  have hne : ∀ n ∈ q.readyList, n.val ≠ i := fun n hn he => hi (he ▸ mem_map_of_mem hn)
  have htime := fun j => (q.update_readyIter i q.nextNode j).1
  refine ⟨l₁ ++ ⟨q.nextNode, i⟩ :: l₂, ?_, ?_, ?_, ?_⟩
  · unfold makeReady
    rw [hadd]
    rfl
  · rw [hsplit, map_append, map_append]
    exact perm_middle
  · rw [hsplit] at ht hne
    refine .insert (ht.congr (fun n hn => ?_) (Nat.le_refl _)) (by rw [update_self])
    rw [update_of_ne (hne n hn)]
  · have hold : q.readyList.Pairwise
        (Before (update q.registers i { q.registers i with readyIter := q.nextNode })) :=
      sorted_congr hs fun n _ => by rw [htime]
    rw [hsplit] at hold ht
    obtain ⟨hs₁, hs₂, hs₁₂⟩ := pairwise_append.1 hold
    refine pairwise_append.2 ⟨hs₁, pairwise_cons.2 ⟨fun n hn => ?_, hs₂⟩, fun a ha b hb => ?_⟩
    · refine .inl ?_
      rw [htime, htime]
      exact h₂ n hn
    · rcases mem_cons.1 hb with rfl | hb
      · have hid := ht.fresh a (mem_append_left _ ha)
        have hle := h₁ a ha
        unfold Before
        rw [htime, htime]
        show (q.registers a.val).mshr.readyTime < (q.registers i).mshr.readyTime ∨
          ((q.registers a.val).mshr.readyTime = (q.registers i).mshr.readyTime ∧ a.id < q.nextNode)
        unfold readyTime at hle
        omega
      · exact hs₁₂ a ha b hb

end Ready

/-! ## The calls -/

section Calls

variable {q : MSHRQueue} {i : Nat}

theorem Consistent.nodup (h : q.Consistent) : (q.freeList ++ q.entries).Nodup :=
  h.partition.nodup_iff.2 nodup_range

theorem Consistent.mem_ready (h : q.Consistent) :
    i ∈ q.readyList.map Node.val ↔ i ∈ q.entries ∧ (q.registers i).mshr.inService = false := by
  rw [h.readyEntries.mem_iff, mem_filter, Bool.not_eq_true']

variable {e : MSHREntry} {m : MSHR}

theorem registers_of_ne {j : Nat} (hj : j ≠ i) : (q.setEntry i e).registers j = q.registers j :=
  update_of_ne hj _ _

theorem registers_self : (q.setEntry i e).registers i = e := update_self _ _ _

theorem setMSHR_iters (m : MSHR) (j : Nat) : ((q.setMSHR i m).registers j).allocIter = (q.registers j).allocIter ∧
    ((q.setMSHR i m).registers j).readyIter = (q.registers j).readyIter := by
  unfold setMSHR
  by_cases hj : j = i
  · subst hj
    rw [registers_self]
    exact ⟨rfl, rfl⟩
  · rw [registers_of_ne hj]
    exact ⟨rfl, rfl⟩

theorem setMSHR_self (m : MSHR) : ((q.setMSHR i m).registers i).mshr = m := by
  unfold setMSHR
  rw [registers_self]

theorem setMSHR_of_ne (m : MSHR) {j : Nat} (hj : j ≠ i) : (q.setMSHR i m).registers j = q.registers j :=
  registers_of_ne hj

theorem setMSHR_eq_self : q.setMSHR i (q.registers i).mshr = q := by
  show { q with registers := update q.registers i (q.registers i) } = q
  rw [update_eq_self]

def pending (q : MSHRQueue) (j : Nat) : Bool := !(q.registers j).mshr.inService

def serving (q : MSHRQueue) (j : Nat) : Bool := (q.registers j).mshr.inService

theorem Consistent.others (h : q.Consistent) {rest : List Nat} (hp : q.entries.Perm (i :: rest)) (m : MSHR) :
    i ∉ rest ∧ i ∉ q.freeList ∧
      (q.entries.filter (q.setMSHR i m).pending).Perm
        (if !m.inService then i :: rest.filter q.pending else rest.filter q.pending) ∧
      q.entries.countP (q.setMSHR i m).serving = rest.countP q.serving + if m.inService then 1 else 0 := by
  obtain ⟨-, hd, hdis⟩ := nodup_append.1 h.nodup
  have hni : i ∉ rest := (nodup_cons.1 (hp.nodup_iff.1 hd)).1
  refine ⟨hni, fun hf => hdis i hf i (hp.mem_iff.2 mem_cons_self) rfl, ?_⟩
  have hrest : ∀ j ∈ rest, (q.setMSHR i m).registers j = q.registers j := fun j hj =>
    setMSHR_of_ne m fun he => hni (he ▸ hj)
  have hfilter : rest.filter (q.setMSHR i m).pending = rest.filter q.pending :=
    filter_congr fun j hj => by rw [pending, pending, hrest j hj]
  have hcount : rest.countP (q.setMSHR i m).serving = rest.countP q.serving :=
    countP_congr fun j hj => by rw [serving, serving, hrest j hj]
  have hperm := hp.filter (q.setMSHR i m).pending
  rw [filter_cons, hfilter, pending, setMSHR_self] at hperm
  refine ⟨hperm, ?_⟩
  rw [hp.countP_eq, countP_cons, hcount, serving, setMSHR_self]

theorem Consistent.own (h : q.Consistent) {rest : List Nat} (hp : q.entries.Perm (i :: rest)) :
    (q.readyList.map Node.val).Perm
        (if !(q.registers i).mshr.inService then i :: rest.filter q.pending else rest.filter q.pending) ∧
      q.inServiceEntries = (rest.countP q.serving : Int) + if (q.registers i).mshr.inService then 1 else 0 := by
  obtain ⟨-, -, hready, hcount⟩ := h.others hp (q.registers i).mshr
  rw [setMSHR_eq_self] at hready hcount
  refine ⟨h.readyEntries.trans hready, h.inService.trans ((congrArg Nat.cast hcount).trans ?_)⟩
  split <;> simp

/-- The lists and the free entries, apart from which entries are in service. -/
structure Listed (q : MSHRQueue) : Prop where
  alloc : Tracked (fun i => (q.registers i).allocIter) q.nextNode q.allocatedList
  ready : Tracked (fun i => (q.registers i).readyIter) q.nextNode q.readyList
  sorted : q.readyList.Pairwise (Before q.registers)
  clean : ∀ i ∈ q.freeList, Clean (q.registers i).mshr

section

variable (h : q.Consistent)

include h

theorem Consistent.listed : q.Listed := ⟨h.alloc, h.ready, h.sorted, h.clean⟩

omit h in
theorem Listed.setMSHR (h : q.Listed) (hi : i ∉ q.freeList)
    (hr : i ∈ q.readyList.map Node.val → m.readyTime = (q.registers i).mshr.readyTime) : (q.setMSHR i m).Listed where
  alloc := h.alloc.congr (fun n _ => (setMSHR_iters m n.val).1) (Nat.le_refl _)
  ready := h.ready.congr (fun n _ => (setMSHR_iters m n.val).2) (Nat.le_refl _)
  sorted := by
    refine sorted_congr h.sorted fun n hn => ?_
    by_cases hni : n.val = i
    · rw [hni, setMSHR_self, hr (hni ▸ mem_map_of_mem hn)]
    · rw [setMSHR_of_ne m hni]
  clean j hj := by
    have hji : j ≠ i := fun he => hi (he ▸ hj)
    rw [setMSHR_of_ne m hji]
    exact h.clean j hj

section

variable (hi : i ∈ q.entries)

include hi

theorem Consistent.change
    (hs : m.inService = (q.registers i).mshr.inService)
    (hr : m.inService = false → m.readyTime = (q.registers i).mshr.readyTime) : (q.setMSHR i m).Consistent := by
  obtain ⟨-, hfree, hready', hcount'⟩ := h.others (perm_cons_erase hi) m
  obtain ⟨hready, hcount⟩ := h.own (perm_cons_erase hi)
  have hl := h.listed.setMSHR hfree fun hn => hr (hs.trans (h.mem_ready.1 hn).2)
  rw [← hs] at hready hcount
  refine ⟨h.partition, hl.alloc, hl.ready, hready.trans hready'.symm, hl.sorted, h.allocated, ?_, hl.clean⟩
  refine hcount.trans (.symm ((congrArg Nat.cast hcount').trans ?_))
  split <;> simp

theorem Consistent.erase_alloc :
    ∃ l, eraseNode q.allocatedList (q.registers i).allocIter = .ok l ∧ q.entries.Perm (i :: l.map Node.val) ∧
      Tracked (fun i => (q.registers i).allocIter) q.nextNode l := by
  obtain ⟨l, he, hp, -, ht⟩ := h.alloc.erase hi
  refine ⟨l, ?_, hp, ht⟩
  unfold eraseNode
  rw [he]

theorem Consistent.erase_ready (hs : (q.registers i).mshr.inService = false) :
    ∃ l, eraseNode q.readyList (q.registers i).readyIter = .ok l ∧
      (q.readyList.map Node.val).Perm (i :: l.map Node.val) ∧
      Tracked (fun i => (q.registers i).readyIter) q.nextNode l ∧ l.Pairwise (Before q.registers) := by
  obtain ⟨l, he, hp, hsub, ht⟩ := h.ready.erase (h.mem_ready.2 ⟨hi, hs⟩)
  refine ⟨l, ?_, hp, ht, h.sorted.sublist hsub⟩
  unfold eraseNode
  rw [he]

omit hi in
omit h in
theorem clean_of_deallocate {m' : MSHR} (h : m.deallocate = .ok m') : Clean m' := by
  obtain ⟨-, hd, hn, rfl⟩ := MSHR.deallocate_eq_ok h
  exact ⟨hn, rfl, hd⟩

omit hi in
theorem Consistent.released {la lr : List (Node Nat)} {k : Int}
    (hp : q.entries.Perm (i :: la.map Node.val)) (hla : Tracked (fun i => (q.registers i).allocIter) q.nextNode la)
    (hlr : Tracked (fun i => (q.registers i).readyIter) q.nextNode lr)
    (hready : (lr.map Node.val).Perm ((la.map Node.val).filter q.pending)) (hsorted : lr.Pairwise (Before q.registers))
    (hk : k = (la.map Node.val).countP q.serving) (hm : Clean m) :
    (setMSHR { q with allocatedList := la, freeList := i :: q.freeList, allocated := q.allocated - 1, readyList := lr,
                      inServiceEntries := k } i m).Consistent := by
  obtain ⟨hni, hfree, -⟩ := h.others hp m
  -- the entries that stay are not the one that is changed
  have hstay : ∀ j ∈ la.map Node.val, (q.setMSHR i m).registers j = q.registers j := fun j hj =>
    setMSHR_of_ne m fun he => hni (he ▸ hj)
  have hout : i ∉ lr.map Node.val := fun hn => hni (mem_filter.1 (hready.mem_iff.1 hn)).1
  have hl := Listed.setMSHR (q := { q with allocatedList := la, readyList := lr }) ⟨hla, hlr, hsorted, h.clean⟩ hfree
    (m := m) fun hn => absurd hn hout
  refine ⟨?_, hl.alloc, hl.ready, ?_, hl.sorted, ?_, ?_, fun j hj => ?_⟩
  · have h1 : ((i :: q.freeList) ++ la.map Node.val).Perm (q.freeList ++ (i :: la.map Node.val)) := perm_middle.symm
    exact h1.trans ((hp.symm.append_left q.freeList).trans h.partition)
  · refine hready.trans (.of_eq (filter_congr fun j hj => ?_))
    rw [pending, ← hstay j hj]
    rfl
  · have hlen := hp.length_eq
    rw [entries, length_map, length_cons, length_map] at hlen
    show q.allocated - 1 = la.length
    rw [h.allocated]
    omega
  · refine hk.trans (congrArg Nat.cast (countP_congr fun j hj => ?_))
    rw [serving, ← hstay j hj]
    rfl
  · rcases mem_cons.1 hj with rfl | hj
    · rw [setMSHR_self]
      exact hm
    · exact hl.clean j hj

theorem Consistent.deallocate
    (hm : (q.registers i).mshr.deallocate = .ok m) : ∃ q', q.deallocate i = .ok q' ∧ q'.Consistent := by
  obtain ⟨la, hea, hp, hta⟩ := h.erase_alloc hi
  obtain ⟨hready, hcount⟩ := h.own hp
  have hclean := clean_of_deallocate hm
  unfold MSHRQueue.deallocate
  rw [hea, ok_bind]
  dsimp only
  cases hs : (q.registers i).mshr.inService with
  | true =>
    rw [ok_bind, hm, ok_bind]
    rw [hs] at hready hcount
    exact ⟨_, rfl, h.released hp hta h.ready hready h.sorted (by rw [hcount]; simp) hclean⟩
  | false =>
    obtain ⟨lr, her, hpr, htr, hsr⟩ := h.erase_ready hi hs
    rw [if_neg nofun, her, ok_bind, ok_bind, hm, ok_bind]
    rw [hs] at hready hcount
    exact ⟨_, rfl, h.released hp hta htr (hpr.symm.trans hready).cons_inv hsr (by rw [hcount]; simp) hclean⟩

omit hi in
omit h in
theorem markInService_cases {m' : MSHR} {done : Bool} (h : m.markInService = .ok (done, m')) :
    m.inService = false ∧ (done ∧ m'.inService = false ∧ m'.readyTime = m.readyTime ∨
      done = false ∧ m'.inService) := by
  obtain ⟨hs, ⟨rfl, rfl⟩ | ⟨rfl, u, rfl⟩⟩ := MSHR.markInService_eq_ok h
  · exact ⟨hs, .inl ⟨rfl, by rw [MSHR.popTarget]; exact hs, by rw [MSHR.popTarget]⟩⟩
  · exact ⟨hs, .inr ⟨rfl, rfl⟩⟩

theorem Consistent.sent (hs : (q.registers i).mshr.inService = false)
    {lr : List (Node Nat)} (hm : m.inService)
    (hp : (q.readyList.map Node.val).Perm (i :: lr.map Node.val))
    (htr : Tracked (fun i => (q.registers i).readyIter) q.nextNode lr) (hsr : lr.Pairwise (Before q.registers)) :
    Consistent { q.setMSHR i m with readyList := lr, inServiceEntries := q.inServiceEntries + 1 } := by
  obtain ⟨hni, hfree, hready', hcount'⟩ := h.others (perm_cons_erase hi) m
  obtain ⟨hready, hcount⟩ := h.own (perm_cons_erase hi)
  rw [hs] at hready hcount
  rw [hm] at hready' hcount'
  have hlr := (hp.symm.trans hready).cons_inv
  have hout : i ∉ lr.map Node.val := fun hn => hni (mem_filter.1 (hlr.mem_iff.1 hn)).1
  have hl := Listed.setMSHR (q := { q with readyList := lr }) ⟨h.alloc, htr, hsr, h.clean⟩ hfree (m := m)
    fun hn => absurd hn hout
  refine ⟨h.partition, hl.alloc, hl.ready, hlr.trans hready'.symm, hl.sorted, h.allocated, ?_, hl.clean⟩
  rw [hcount]
  exact (congrArg Nat.cast hcount').symm

theorem Consistent.markInService
    (hm : (q.registers i).mshr.handle .markInService = .ok m) :
    ∃ q', q.markInService i = .ok q' ∧ q'.Consistent := by
  obtain ⟨⟨done, m₁⟩, hm₁, hm⟩ := of_bind hm
  unfold MSHRQueue.markInService
  rw [hm₁, ok_bind]
  dsimp only
  obtain ⟨hs, ⟨rfl, hs₁, hr₁⟩ | ⟨rfl, hs₁⟩⟩ := markInService_cases hm₁
  · have hc : (q.setMSHR i m₁).Consistent := h.change hi (hs₁.trans hs.symm) fun _ => hr₁
    refine hc.deallocate hi (m := m) ?_
    rw [setMSHR_self]
    exact hm
  · obtain ⟨lr, her, hp, htr, hsr⟩ := h.erase_ready hi hs
    have hit : ((q.setMSHR i m₁).registers i).readyIter = (q.registers i).readyIter := (setMSHR_iters m₁ i).2
    have hrl : (q.setMSHR i m₁).readyList = q.readyList := rfl
    rw [hit, hrl, her, ok_bind]
    exact ⟨_, rfl, h.sent hi hs hs₁ hp htr hsr⟩

end

end

/-- All is well but for one entry, which is not on the ready list yet. -/
structure Waiting (q : MSHRQueue) (i : Nat) : Prop extends Listed q where
  partition : (q.freeList ++ q.entries).Perm (range q.numEntries)
  readyEntries : (i :: q.readyList.map Node.val).Perm (q.entries.filter q.pending)
  inService : q.inServiceEntries = q.entries.countP q.serving

theorem Waiting.makeReady (h : q.Waiting i) : ∃ q', q.makeReady i = .ok q' ∧ q'.allocated = q.allocated ∧
    ∀ k : Int, k = q.allocatedList.length → Consistent { q' with allocated := k } := by
  have hd : (q.freeList ++ q.entries).Nodup := h.partition.nodup_iff.2 nodup_range
  obtain ⟨-, hde, -⟩ := nodup_append.1 hd
  have hni : i ∉ q.readyList.map Node.val :=
    (nodup_cons.1 (h.readyEntries.nodup_iff.2 (hde.filter _))).1
  obtain ⟨l, hl, hp, ht, hs⟩ := makeReady_ok h.ready h.sorted hni
  have hregs := q.update_readyIter i q.nextNode
  refine ⟨_, hl, rfl, fun k hk => ⟨h.partition, ?_, ht, ?_, hs, hk, ?_, fun j hj => ?_⟩⟩
  · exact h.alloc.congr (fun n _ => (hregs n.val).2) (Nat.le_succ _)
  · refine hp.trans (h.readyEntries.trans (.of_eq (filter_congr fun j _ => ?_)))
    rw [(hregs j).1, pending]
  · refine h.inService.trans (congrArg Nat.cast (countP_congr fun j _ => ?_))
    rw [(hregs j).1, serving]
  · rw [(hregs j).1]
    exact h.clean j hj

theorem Consistent.waiting (h : q.Consistent) (hi : i ∈ q.entries) (hs : (q.registers i).mshr.inService)
    (hm : m.inService = false) :
    Waiting { q.setMSHR i m with inServiceEntries := q.inServiceEntries - 1 } i := by
  obtain ⟨-, hfree, hready', hcount'⟩ := h.others (perm_cons_erase hi) m
  obtain ⟨hready, hcount⟩ := h.own (perm_cons_erase hi)
  have hl := h.listed.setMSHR hfree (m := m) fun hn => by
    have hout := (h.mem_ready.1 hn).2
    rw [hs] at hout
    cases hout
  rw [hs] at hready hcount
  rw [hm] at hready' hcount'
  refine ⟨⟨hl.alloc, hl.ready, hl.sorted, hl.clean⟩, h.partition, (hready.cons i).trans hready'.symm, ?_⟩
  have hnew : q.inServiceEntries - 1 = (q.entries.countP (q.setMSHR i m).serving : Nat) := by
    rw [hcount, hcount']
    simp
  exact hnew

theorem Consistent.markPending (h : q.Consistent) (hi : i ∈ q.entries) (hs : (q.registers i).mshr.inService) :
    ∃ q', q.markPending i = .ok q' ∧ q'.Consistent := by
  obtain ⟨q', hq', hk, hc⟩ := (h.waiting hi hs
    (m := { (q.registers i).mshr with inService := false, phase := .busy }) rfl).makeReady
  refine ⟨q', ?_, hc q'.allocated (hk.trans h.allocated)⟩
  unfold MSHRQueue.markPending
  rw [ensure_bind hs]
  exact hq'

theorem allocate_of_clean (h : Clean m) (pkt : Packet) (up : Option Nat) (whenReady order : Nat) :
    ∃ m', m.allocate pkt up whenReady order = .ok m' ∧ m'.inService = false := by
  unfold MSHR.allocate
  rw [ensure_bind h.targets, ensure_bind h.deferred]
  exact ⟨_, rfl, rfl⟩

theorem Consistent.allocated_waiting (h : q.Consistent) {free : List Nat} (hf : q.freeList = i :: free)
    (he : e.mshr.inService = false) (hit : e.allocIter = q.nextNode) :
    Waiting { q.setEntry i e with
      freeList := free
      allocatedList := q.allocatedList ++ [(⟨q.nextNode, i⟩ : Node Nat)]
      nextNode := q.nextNode + 1 } i := by
  have hd := h.nodup
  rw [hf, cons_append] at hd
  obtain ⟨hni, -⟩ := nodup_cons.1 hd
  rw [mem_append, not_or] at hni
  have hself : (q.setEntry i e).registers i = e := registers_self
  have hstay : ∀ j ∈ q.entries, (q.setEntry i e).registers j = q.registers j := fun j hj =>
    registers_of_ne fun he => hni.2 (he ▸ hj)
  have hent : (q.allocatedList ++ [(⟨q.nextNode, i⟩ : Node Nat)]).map Node.val = q.entries ++ [i] := by
    rw [map_append]
    rfl
  have hmem : ∀ n ∈ q.readyList, n.val ∈ q.entries := fun n hn => (h.mem_ready.1 (mem_map_of_mem hn)).1
  refine ⟨⟨?_, ?_, sorted_congr h.sorted fun n hn => ?_, fun j hj => ?_⟩, ?_, ?_, ?_⟩
  · have hold : Tracked (fun j => ((q.setEntry i e).registers j).allocIter) q.nextNode (q.allocatedList ++ []) := by
      rw [append_nil]
      exact h.alloc.congr (fun n hn => by rw [hstay _ (mem_map_of_mem hn)]) (Nat.le_refl _)
    exact hold.insert (by rw [hself, hit])
  · exact h.ready.congr (fun n hn => congrArg MSHREntry.readyIter (hstay _ (hmem n hn))) (Nat.le_succ _)
  · exact congrArg (fun e => e.mshr.readyTime) (hstay _ (hmem n hn))
  · have hji : j ≠ i := fun he => hni.1 (he ▸ hj)
    rw [registers_of_ne hji]
    exact h.clean j (by rw [hf]; exact mem_cons_of_mem _ hj)
  · show (free ++ (q.allocatedList ++ [(⟨q.nextNode, i⟩ : Node Nat)]).map Node.val).Perm (range q.numEntries)
    have h1 : (free ++ (q.entries ++ [i])).Perm (i :: (free ++ q.entries)) := by
      rw [← append_assoc]
      exact perm_append_singleton i _
    rw [hent]
    refine h1.trans ?_
    have h2 := h.partition
    rwa [hf] at h2
  · show (i :: q.readyList.map Node.val).Perm
      (((q.allocatedList ++ [(⟨q.nextNode, i⟩ : Node Nat)]).map Node.val).filter (q.setEntry i e).pending)
    have hfil : q.entries.filter (q.setEntry i e).pending = q.entries.filter q.pending :=
      filter_congr fun j hj => by rw [pending, pending, hstay j hj]
    rw [hent, filter_append, hfil, filter_cons_of_pos (by rw [pending, hself, he]; rfl)]
    exact (h.readyEntries.cons i).trans (perm_append_singleton i _).symm
  · show q.inServiceEntries = (((q.allocatedList ++ [(⟨q.nextNode, i⟩ : Node Nat)]).map Node.val).countP
      (q.setEntry i e).serving : Nat)
    have hcnt : q.entries.countP (q.setEntry i e).serving = q.entries.countP q.serving :=
      countP_congr fun j hj => by rw [serving, serving, hstay j hj]
    rw [hent, countP_append, hcnt, h.inService, countP_singleton, serving, hself, he]
    rfl

theorem Consistent.allocate (h : q.Consistent) (hf : q.freeList ≠ []) (addr : Addr) (size : Nat) (pkt : Packet)
    (up : Option Nat) (whenReady order : Nat) :
    ∃ i q', q.allocate addr size pkt up whenReady order = .ok (i, q') ∧ q'.Consistent := by
  obtain ⟨i, free, hfree⟩ := exists_cons_of_ne_nil hf
  have hclean := h.clean i (by rw [hfree]; exact mem_cons_self)
  obtain ⟨m, hm, hms⟩ := allocate_of_clean hclean pkt up whenReady order
  obtain ⟨q', hq', hk, hc⟩ := (h.allocated_waiting hfree
    (e := { q.registers i with mshr := m, addr := addr, size := size, isForward := false, allocIter := q.nextNode })
    hms rfl).makeReady
  have hlen : q.allocated + 1 = (q.allocatedList ++ [(⟨q.nextNode, i⟩ : Node Nat)]).length := by
    rw [h.allocated, length_append]
    rfl
  refine ⟨i, { q' with allocated := q'.allocated + 1 }, ?_, hc (q'.allocated + 1) (by rw [hk]; exact hlen)⟩
  unfold MSHRQueue.allocate
  rw [hfree]
  dsimp only
  rw [ensure_bind hclean.ntargets, hm, ok_bind, hq', ok_bind]

/-- Every allowed call ends, and keeps the queue consistent. -/
theorem Consistent.handle (h : q.Consistent) {a : Act} (ha : a.Allowed q) :
    ∃ q', q.handle a = .ok q' ∧ q'.Consistent := by
  cases a with
  | allocate addr size pkt up whenReady order =>
    obtain ⟨i, q', hq', hc⟩ := h.allocate ha addr size pkt up whenReady order
    exact ⟨q', bind_eq_ok.2 ⟨_, hq', rfl⟩, hc⟩
  | markInService i =>
    obtain ⟨hi, -, m, hm⟩ := ha
    exact h.markInService hi hm
  | markPending i => exact h.markPending ha.1 ha.2
  | deallocate i =>
    obtain ⟨hi, m, hm⟩ := ha
    exact h.deallocate hi hm
  | change i m => exact ⟨_, rfl, h.change ha.1 ha.2.1 ha.2.2⟩

end Calls

/-- On every run of calls that meet their callers' guarantees the queue is consistent, and every such call ends: no
assertion fails, that at the end of `addToReadyList` among them, and no iterator denotes anything but its entry's
node. -/
theorem queue_consistent {numEntries reserve : Nat} {as : List Act} {q : MSHRQueue}
    (run : Run Step (create numEntries reserve) as q) :
    q.Consistent ∧ ∀ a : Act, a.Allowed q → ∃ q', q.handle a = .ok q' ∧ q'.Consistent := by
  have hc : q.Consistent := by
    refine run.invariant (.create numEntries reserve) fun {q a q'} h hs => ?_
    obtain ⟨q₁, hq₁, hc⟩ := h.handle hs.1
    rw [hs.2, Except.ok.injEq] at hq₁
    exact hq₁ ▸ hc
  exact ⟨hc, fun a ha => hc.handle ha⟩

/-- Two reads are allocated, the second ready first, and the first of them is sent. -/
theorem queue_consistent_reads : ∃ q, Run Step (create 2 1)
    [.allocate 0 64 { cmd := .ReadReq, addr := 0, size := 64 } none 5 0,
      .allocate 64 64 { cmd := .ReadReq, addr := 64, size := 64 } none 3 1, .markInService 0] q ∧
      q.entries = [0, 1] ∧ q.readyList.map Node.val = [1] ∧ q.Consistent := by
  suffices h : ∃ q, Run Step (create 2 1) _ q ∧ q.entries = [0, 1] ∧ q.readyList.map Node.val = [1] by
    obtain ⟨q, hrun, he, hr⟩ := h
    exact ⟨q, hrun, he, hr, (queue_consistent hrun).1⟩
  apply Exists.intro
  apply And.intro
  · apply Run.cons ⟨(nofun : range 2 ≠ []), rfl⟩
    apply Run.cons ⟨(nofun : [1] ≠ []), rfl⟩
    exact Run.cons ⟨⟨mem_cons_self, rfl, _, rfl⟩, rfl⟩ .nil
  · exact ⟨rfl, rfl⟩

/-! ## Calls in between -/

section Between

variable {m m' : MSHR}

theorem handleSnoop_same (m : MSHR) (pkt : Packet) (up : Option Nat) (curTick order : Nat) :
    (m.handleSnoop pkt up curTick order).2.2.inService = m.inService ∧
      (m.handleSnoop pkt up curTick order).2.2.readyTime = m.readyTime ∧
      (m.handleSnoop pkt up curTick order).2.2.phase = m.phase :=
  MSHR.handleSnoop_rule (P := fun n => n.inService = m.inService ∧ n.readyTime = m.readyTime ∧ n.phase = m.phase)
    ⟨rfl, rfl, rfl⟩ id id id id (fun _ h _ => h) ..

theorem allocateTarget_same {pkt : Packet} {up : Option Nat} {whenReady order : Nat}
    (h : m.allocateTarget pkt up whenReady order = .ok m') :
    m'.inService = m.inService ∧ m'.readyTime = m.readyTime := by
  obtain ⟨-, h⟩ := of_ensure h
  split at h
  · rw [← Except.ok.inj h]
    exact ⟨rfl, rfl⟩
  · rw [← Except.ok.inj h]
    exact ⟨rfl, rfl⟩

theorem promoteDeferredTargets_same {curTick : Nat} {again : Bool}
    (h : m.promoteDeferredTargets curTick = .ok (again, m')) : m'.inService = m.inService := by
  obtain ⟨-, ⟨-, -, rfl⟩ | ⟨-, t, rest, -, -, rfl⟩⟩ := MSHR.promoteDeferredTargets_eq_ok h <;> rfl

end Between

end MSHRQueue

end M5.Mem
