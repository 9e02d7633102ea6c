import M5.Lib.Lists
import M5.Ruby.MIExample

/-!
# The invariant of MI_example

Caches that want the block stand in a line: the first one has it (or the data is on its way to it), every other one has
a forwarded request waiting at the one before it, and the directory's owner is the last one. A cache that is not in the
line may still have a writeback of its own to finish.
-/

namespace M5.Ruby.MIExample

open M5.Lib Function

/-! ## Phases and stages -/

/-- What a cache does that neither has the block nor is in line for it. -/
inductive Outside
  | idle
  /-- It has sent a GETX. -/
  | asking
  /-- The acknowledgement of its writeback is under way. -/
  | acked
  /-- It has handed the block over while its PUTX was under way. -/
  | handedOver
  /-- It has handed the block over, and the refusal of its PUTX is under way. -/
  | nacked

/-- What the first cache in the line does. -/
inductive Head
  | coming
  | holding
  /-- It has sent a PUTX. -/
  | putting
  /-- The directory has forwarded a request to it before it got the PUTX. -/
  | refused

/-- Where a cache is; what it has, and which messages of its are under way, follows from it (`Shows`). -/
inductive Phase
  | outside (o : Outside)
  | fetching
  | waiting
  | head (h : Head)
  | written

inductive Stage (ι : Type)
  | quiet
  /-- Memory is written for the cache. -/
  | writing (i : ι)
  /-- Memory is read for the cache. -/
  | fetching (i : ι)
  /-- The line of caches. -/
  | owned (i : ι) (h : Head) (rest : List ι)

variable {ι : Type} [DecidableEq ι]

namespace Stage

/-- The phase of the cache `k`; `out` tells it for the caches that the stage does not name. -/
def phase (out : ι → Outside) : Stage ι → ι → Phase
  | quiet, k => .outside (out k)
  | writing i, k => if k = i then .written else .outside (out k)
  | fetching i, k => if k = i then .fetching else .outside (out k)
  | owned i h rest, k => if k = i then .head h else if k ∈ rest then .waiting else .outside (out k)

/-- The cache that `k` is to hand over to. -/
def next : Stage ι → ι → Option ι
  | owned i _ rest, k => after (i :: rest) k
  | _, _ => none

/-- The line has no repetition, and a PUTX is refused only when another cache is in line. -/
def Ordered : Stage ι → Prop
  | owned i h rest => (i :: rest).Nodup ∧ (h = .refused → rest ≠ [])
  | _ => True

variable {st : Stage ι} {out : ι → Outside} {i j k : ι} {o o' : Outside}

theorem next_eq_none (h1 : st.phase out k ≠ .waiting) (h2 : ∀ x, st.phase out k ≠ .head x) : st.next k = none := by
  cases st with
  | quiet | writing i | fetching i => rfl
  | owned i x rest =>
    rw [phase] at h1
    refine after_of_notMem fun hm => ?_
    split_ifs at h1 with hi hr
    · exact h2 x (if_pos hi)
    · exact h1 rfl
    · exact (List.mem_cons.1 hm).elim hi hr

theorem next_outside (h : st.phase out k = .outside o) : st.next k = none :=
  next_eq_none (by rw [h]; nofun) (by rw [h]; nofun)

theorem phase_update_self (h : st.phase out i = .outside o) : st.phase (update out i o') i = .outside o' := by
  cases st with
  | quiet => simp [phase]
  | writing j | fetching j =>
    rw [phase] at h ⊢
    split_ifs at h ⊢
    rw [update_self]
  | owned j h' rest =>
    rw [phase] at h ⊢
    split_ifs at h ⊢
    rw [update_self]

theorem phase_update_of_ne (h : k ≠ i) : st.phase (update out i o') k = st.phase out k := by
  cases st <;> simp only [phase, update_of_ne h]

theorem eq_owned {x : Head} (h : st.phase out i = .head x) : ∃ rest, st = .owned i x rest := by
  cases st with
  | quiet => exact nomatch h
  | writing j | fetching j =>
    rw [phase] at h
    split_ifs at h
  | owned j y rest =>
    rw [phase] at h
    split_ifs at h with h1 h2
    cases h
    exact ⟨rest, by rw [h1]⟩

end Stage

/-! ## What a cache shows -/

namespace L1

/-- The cache waits for data. -/
def Pending (l : L1) : Prop := ∃ e t, l = ⟨some e, some t⟩ ∧ (t.tbeState = .IS ∨ t.tbeState = .IM)

/-- The cache has given the block up, and keeps it in the TBE only. -/
def Leaving (l : L1) (q : State) : Prop := ∃ t, l = ⟨none, some t⟩ ∧ t.tbeState = q

theorem Pending.getState {l : L1} (h : l.Pending) : l.getState = .IS ∨ l.getState = .IM := by
  obtain ⟨e, t, rfl, ht⟩ := h
  exact ht

theorem Leaving.getState {l : L1} {q : State} (h : l.Leaving q) : l.getState = q := by
  obtain ⟨t, rfl, ht⟩ := h
  exact ht

end L1

namespace Phase

def Has (v : DataBlock) : Phase → L1 → Prop
  | outside .idle, l => l.tbe = none ∧ l.getState = .I
  | outside .asking, l | fetching, l | waiting, l | head .coming, l => l.Pending
  | head .holding, l => l = { entry := some ⟨.M, v⟩ }
  | head .putting, l | head .refused, l => l = { tbe := some ⟨.MI, v⟩ }
  | written, l | outside .acked, l => l.Leaving .MI
  | outside .handedOver, l | outside .nacked, l => l.Leaving .II

def request : Phase → Option CoherenceRequestType
  | outside .asking => some .GETX
  | head .putting | outside .handedOver => some .PUTX
  | _ => none

def answer : Phase → Option CoherenceRequestType
  | outside .acked => some .WB_ACK
  | head .refused | outside .nacked => some .WB_NACK
  | _ => none

def data (v : DataBlock) : Phase → List ResponseMsg
  | head .coming => [⟨.DATA, v⟩]
  | _ => []

end Phase

def requestsOf (k : ι) (l : List (RequestMsg ι)) : List (RequestMsg ι) := l.filter fun m => m.requestor = .L1Cache k

def forwarded (t : CoherenceRequestType) (j : ι) : RequestMsg ι := { type := t, requestor := .L1Cache j }

/-- What holds of the cache `k` and its messages. -/
structure Shows (v : DataBlock) (k : ι) (next : Option ι) (p : Phase) (s : Block ι) : Prop where
  has : p.Has v (s.l1 k)
  request : (requestsOf k s.requestToDir).map (·.type) = p.request.toList
  put : p = .head .putting → ∀ m ∈ requestsOf k s.requestToDir, m.dataBlk = v
  forward : s.forwardToCache k = (next.map (forwarded .GETX)).toList ++ (p.answer.map (forwarded · k)).toList
  response : s.responseToCache k = p.data v

structure SameAt (k : ι) (s s' : Block ι) : Prop where
  l1 : s'.l1 k = s.l1 k
  request : requestsOf k s'.requestToDir = requestsOf k s.requestToDir
  forward : s'.forwardToCache k = s.forwardToCache k
  response : s'.responseToCache k = s.responseToCache k

namespace Shows

variable {v v' : DataBlock} {k : ι} {next : Option ι} {p : Phase} {s s' : Block ι}

theorem same (h : Shows v k next p s) (hs : SameAt k s s') : Shows v k next p s' where
  has := hs.l1 ▸ h.has
  request := hs.request ▸ h.request
  put := hs.request ▸ h.put
  forward := hs.forward ▸ h.forward
  response := hs.response ▸ h.response

theorem anyValue (h : Shows v k next p s) (hp : ∀ x, p ≠ .head x) : Shows v' k next p s where
  has := by
    have := h.has
    rcases p with (_ | _ | _ | _ | _) | _ | _ | x | _
    all_goals first | exact this | exact absurd rfl (hp x)
  request := h.request
  put e := absurd e (hp _)
  forward := h.forward
  response := by
    have := h.response
    rcases p with (_ | _ | _ | _ | _) | _ | _ | x | _
    all_goals first | exact this | exact absurd rfl (hp x)

end Shows

/-- What holds of the directory and the memory. -/
inductive DirShows (v : DataBlock) : Stage ι → Directory ι → List (MemoryMsg ι) → Prop
  | quiet : DirShows v .quiet { dataBlk := v } []
  | writing {i : ι} {t : Dir.TBE} (ht : t.tbeState = .MI) (hl : t.len = 0) :
    DirShows v (.writing i) { directoryState := .MI, dataBlk := v, tbe := some t } [⟨.MEMORY_WB, some (.L1Cache i), v⟩]
  | fetching {i : ι} : DirShows v (.fetching i) { directoryState := .IM, dataBlk := v, owner := {.L1Cache i} }
    [⟨.MEMORY_READ, some (.L1Cache i), v⟩]
  | owned {i j : ι} {h : Head} {rest : List ι} {d : DataBlock} (hj : (i :: rest).getLast? = some j) :
    DirShows v (.owned i h rest) { directoryState := .M, dataBlk := d, owner := {.L1Cache j} } []

section DirShows

variable {v : DataBlock} {i : ι} {x : Head} {rest : List ι} {e : Directory ι} {b : List (MemoryMsg ι)}

omit [DecidableEq ι]

theorem dirShows_quiet : DirShows v .quiet e b ↔ e = { dataBlk := v } ∧ b = [] :=
  ⟨fun h => by cases h; exact ⟨rfl, rfl⟩, fun ⟨h1, h2⟩ => h1 ▸ h2 ▸ .quiet⟩

theorem dirShows_writing : DirShows v (.writing i) e b ↔ ∃ t : Dir.TBE, t.tbeState = .MI ∧ t.len = 0 ∧
    e = { directoryState := .MI, dataBlk := v, tbe := some t } ∧ b = [⟨.MEMORY_WB, some (.L1Cache i), v⟩] :=
  ⟨fun h => by cases h with | writing ht hl => exact ⟨_, ht, hl, rfl, rfl⟩,
    fun ⟨_, ht, hl, h1, h2⟩ => h1 ▸ h2 ▸ .writing ht hl⟩

theorem dirShows_fetching : DirShows v (.fetching i) e b ↔
    e = { directoryState := .IM, dataBlk := v, owner := {.L1Cache i} } ∧
      b = [⟨.MEMORY_READ, some (.L1Cache i), v⟩] :=
  ⟨fun h => by cases h; exact ⟨rfl, rfl⟩, fun ⟨h1, h2⟩ => h1 ▸ h2 ▸ .fetching⟩

theorem dirShows_owned : DirShows v (.owned i x rest) e b ↔ ∃ j d, (i :: rest).getLast? = some j ∧
    e = { directoryState := .M, dataBlk := d, owner := {.L1Cache j} } ∧ b = [] :=
  ⟨fun h => by cases h with | owned hj => exact ⟨_, _, hj, rfl, rfl⟩, fun ⟨_, _, hj, h1, h2⟩ => h1 ▸ h2 ▸ .owned hj⟩

end DirShows

/-! ## The invariant -/

/-- The invariant of a block with the value `v`, which is that of the last store if the directory has no map. -/
structure Inv (d : Start) (v : DataBlock) (st : Stage ι) (out : ι → Outside) (s : Block ι) : Prop where
  cache : ∀ k, Shows v k (st.next k) (st.phase out k) s
  dir : DirShows v st s.dir s.memBuffer
  ordered : st.Ordered
  requestor : ∀ m ∈ s.requestToDir, ∃ i, m.requestor = .L1Cache i
  noDMA : s.dmaRequestToDir = []
  map : s.useMap = d.useMap
  /-- The map has no entry, and the next one is cleared. -/
  cleared : d.useMap → st = .quiet → v = fun _ => 0
  value : d.useMap = false → lastStore d.ram s.log = v
  loads : d.useMap = false → LoadsRead d.ram s.log

/-- The invariant holds at the start. -/
theorem Inv.init (d : Start) : Inv d d.dataBlk .quiet (fun _ => .idle) (.init d : Block ι) where
  cache _ := ⟨⟨rfl, rfl⟩, rfl, nofun, rfl, rfl⟩
  dir := .quiet
  ordered := trivial
  requestor := nofun
  noDMA := rfl
  map := rfl
  cleared hd _ := if_pos hd
  value hd := by rw [Start.dataBlk, hd]; rfl
  loads := by
    intro _ before i b rest he
    exact absurd he.symm (by simp [Block.init])

section requestsOf

variable {k : ι} {m : RequestMsg ι} {l : List (RequestMsg ι)}

theorem requestsOf_append_self (h : m.requestor = .L1Cache k) : requestsOf k (l ++ [m]) = requestsOf k l ++ [m] := by
  simp [requestsOf, h]

theorem requestsOf_append_of_ne (h : m.requestor ≠ .L1Cache k) : requestsOf k (l ++ [m]) = requestsOf k l := by
  simp [requestsOf, h]

theorem requestsOf_cons_self (h : m.requestor = .L1Cache k) : requestsOf k (m :: l) = m :: requestsOf k l := by
  simp [requestsOf, h]

theorem requestsOf_cons_of_ne (h : m.requestor ≠ .L1Cache k) : requestsOf k (m :: l) = requestsOf k l := by
  simp [requestsOf, h]

end requestsOf

/-! ## Changes that keep the invariant -/

namespace Inv

variable {d : Start} {v v' : DataBlock} {st : Stage ι} {out : ι → Outside} {s s' : Block ι} {i j : ι}
  {o o' : Outside} {x y : Head} {rest : List ι}

/-- Only the cache `i` changes its phase. -/
theorem move {st' : Stage ι} {out' : ι → Outside} (h : Inv d v st out s)
    (hs : ∀ k, k ≠ i → SameAt k s s' ∧ st'.next k = st.next k ∧ st'.phase out' k = st.phase out k)
    (hi : Shows v i (st'.next i) (st'.phase out' i) s') (hdir : DirShows v st' s'.dir s'.memBuffer) (ho : st'.Ordered)
    (hreq : ∀ m ∈ s'.requestToDir, ∃ i, m.requestor = .L1Cache i)
    (hdma : s'.dmaRequestToDir = s.dmaRequestToDir ∧ s'.useMap = s.useMap) (hlog : s'.log = s.log)
    (hq : st' = .quiet → st = .quiet) : Inv d v st' out' s' where
  cache k := by
    rcases eq_or_ne k i with rfl | hk
    · exact hi
    · obtain ⟨hsame, hnext, hphase⟩ := hs k hk
      rw [hnext, hphase]
      exact (h.cache k).same hsame
  dir := hdir
  ordered := ho
  requestor := hreq
  noDMA := hdma.1.trans h.noDMA
  map := hdma.2.trans h.map
  cleared hd he := h.cleared hd (hq he)
  value := by rw [hlog]; exact h.value
  loads := by rw [hlog]; exact h.loads

/-- A cache outside the line goes on with what it does. -/
theorem outside (h : Inv d v st out s) (hi : st.phase out i = .outside o) (hs : ∀ k, k ≠ i → SameAt k s s')
    (hi' : Shows v i none (.outside o') s') (hdir : s'.dir = s.dir) (hmem : s'.memBuffer = s.memBuffer)
    (hreq : ∀ m ∈ s'.requestToDir, ∃ i, m.requestor = .L1Cache i)
    (hdma : s'.dmaRequestToDir = s.dmaRequestToDir ∧ s'.useMap = s.useMap) (hlog : s'.log = s.log) :
    Inv d v st (update out i o') s' := by
  refine h.move (fun k hk => ⟨hs k hk, rfl, Stage.phase_update_of_ne hk⟩) ?_ ?_ h.ordered hreq hdma hlog id
  · rw [Stage.next_outside hi, Stage.phase_update_self hi]
    exact hi'
  · rw [hdir, hmem]
    exact h.dir

/-- The first cache in the line goes on, and may change the value. -/
theorem head (h : Inv d v (.owned i x rest) out s) (hs : ∀ k, k ≠ i → SameAt k s s')
    (hi' : Shows v' i (after (i :: rest) i) (.head y) s') (hy : y = .refused → rest ≠ []) (hdir : s'.dir = s.dir)
    (hmem : s'.memBuffer = s.memBuffer) (hreq : ∀ m ∈ s'.requestToDir, ∃ i, m.requestor = .L1Cache i)
    (hdma : s'.dmaRequestToDir = s.dmaRequestToDir ∧ s'.useMap = s.useMap)
    (hv : d.useMap = false → lastStore d.ram s'.log = v') (hl : d.useMap = false → LoadsRead d.ram s'.log) :
    Inv d v' (.owned i y rest) out s' where
  cache k := by
    rcases eq_or_ne k i with rfl | hk
    · rw [Stage.phase, if_pos rfl]
      exact hi'
    · have hc := h.cache k
      simp only [Stage.phase, if_neg hk] at hc ⊢
      refine (hc.same (hs k hk)).anyValue fun z => ?_
      split_ifs <;> nofun
  dir := by
    have hd := h.dir
    rw [← hdir, ← hmem] at hd
    exact dirShows_owned.2 (dirShows_owned.1 hd)
  ordered := ⟨h.ordered.1, hy⟩
  requestor := hreq
  noDMA := hdma.1.trans h.noDMA
  map := hdma.2.trans h.map
  cleared _ he := by cases he
  value := hv
  loads := hl

end Inv

end M5.Ruby.MIExample
