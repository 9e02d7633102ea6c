import M5.Lib.Check
import M5.Ruby.Common
import Mathlib.Data.List.Perm.Basic

/-!
# The sequencer

`Sequencer` of `mem/ruby/system/Sequencer.cc`: the requests of a processor that the protocol has not completed, in a
read and a write table by line address. The part of `CacheMemory` that it uses are the locks of the lines in the data
cache. A sequencer is a bag of requests.
-/

namespace M5.Ruby

section

open M5.Lib Except

inductive RubyRequestType
  | IFETCH | LD | ST | Locked_Read | Locked_Write | RMW_Read | RMW_Write
deriving DecidableEq

/-- The requests that go to the write table. -/
def RubyRequestType.isWrite : RubyRequestType → Bool
  | .ST | .RMW_Read | .RMW_Write | .Locked_Read | .Locked_Write => true
  | .IFETCH | .LD => false

/-- The requests that read the block when they are done. -/
def RubyRequestType.isRead : RubyRequestType → Bool
  | .LD | .IFETCH | .RMW_Read | .Locked_Read => true
  | .ST | .RMW_Write | .Locked_Write => false

/-- `RubyRequest`; `pkt` names the packet, whose bytes `data` are. -/
structure RubyRequest where
  paddr : Nat
  data : Nat → UInt8
  len : Nat
  type : RubyRequestType
  pkt : Nat

inductive RequestStatus
  | Ready | Issued | BufferFull | Aliased | LlscFailed
deriving DecidableEq

inductive CacheRequestType
  | LD | ST | ATOMIC | IFETCH
deriving DecidableEq

structure CacheMsg where
  lineAddress : Nat
  physicalAddress : Nat
  type : CacheRequestType
  size : Nat
deriving DecidableEq

/-- The type that `issueRequest` gives the message. -/
def RubyRequestType.cacheType : RubyRequestType → CacheRequestType
  | .IFETCH => .IFETCH
  | .LD => .LD
  | .ST => .ST
  | .Locked_Read | .Locked_Write | .RMW_Read | .RMW_Write => .ATOMIC

/-- A request table: `Map<Address, SequencerRequest*>`. -/
abbrev RequestTable := List (Nat × RubyRequest)

namespace RequestTable

variable (t : RequestTable) (line : Nat)

def exist : Bool := t.any (·.1 == line)

def lookup : Except Fault RubyRequest :=
  present ((t.find? (·.1 == line)).map (·.2))

def deallocate : Except Fault RequestTable := do
  ensure .assert (exist t line)
  return t.filter (·.1 != line)

theorem lookup_mem {t : RequestTable} {line : Nat} {r : RubyRequest} (h : lookup t line = .ok r) : (line, r) ∈ t := by
  unfold lookup at h
  cases hf : t.find? (·.1 == line) with
  | none =>
    rw [hf] at h
    cases h
  | some e =>
    rw [hf] at h
    cases h
    have hkey : (e.1 == line) := List.find?_some (p := fun x : Nat × RubyRequest => x.1 == line) hf
    obtain rfl := beq_iff_eq.1 hkey
    exact List.mem_of_find?_eq_some hf

end RequestTable

structure Sequencer where
  version : Int := 0
  maxOutstandingRequests : Nat
  blockSizeBytes : Nat
  writeRequestTable : RequestTable := []
  readRequestTable : RequestTable := []
  outstandingCount : Nat := 0
  /-- `m_locked` of the lines whose tag is in the data cache: the context that holds the lock, or -1. -/
  dataCache : Nat → Option Int
  /-- The lines that an atomic access blocks. -/
  blocked : List Nat := []
  mandatoryQueue : List CacheMsg := []

namespace Sequencer

variable (s : Sequencer)

def lineAddress (paddr : Nat) : Nat := paddr - paddr % s.blockSizeBytes

def offset (paddr : Nat) : Nat := paddr % s.blockSizeBytes

/-- The assertion on the sizes of the tables. -/
def counted : Except Fault Unit :=
  ensure .assert (s.outstandingCount = s.writeRequestTable.length + s.readRequestTable.length)

variable (r : RubyRequest) (line : Nat)

def insertRequest : Except Fault Sequencer := do
  s.counted
  let line := s.lineAddress r.paddr
  if r.type.isWrite then
    ensure .assert (s.writeRequestTable.exist line = false)
    return { s with
      writeRequestTable := (line, r) :: s.writeRequestTable, outstandingCount := s.outstandingCount + 1 }
  else
    ensure .assert (s.readRequestTable.exist line = false)
    return { s with
      readRequestTable := (line, r) :: s.readRequestTable, outstandingCount := s.outstandingCount + 1 }

def removeRequest : Except Fault Sequencer := do
  s.counted
  let line := s.lineAddress r.paddr
  if r.type.isWrite then
    let t ← s.writeRequestTable.deallocate line
    return { s with writeRequestTable := t, outstandingCount := s.outstandingCount - 1 }
  else
    let t ← s.readRequestTable.deallocate line
    return { s with readRequestTable := t, outstandingCount := s.outstandingCount - 1 }

def getRequestStatus : RequestStatus :=
  let line := s.lineAddress r.paddr
  if s.writeRequestTable.exist line then .Aliased
  else if s.readRequestTable.exist line then .Aliased
  else if s.maxOutstandingRequests ≤ s.outstandingCount then .BufferFull
  else .Ready

def isLocked : Except Fault Bool := do
  let c ← present (s.dataCache line)
  return c == s.version

/-- `CacheMemory::setLocked` and `CacheMemory::clearLocked`, with the context to write. -/
def lock (context : Int) : Except Fault Sequencer := do
  let _ ← present (s.dataCache line)
  return { s with dataCache := fun l => if l = line then some context else s.dataCache l }

def setLocked : Except Fault Sequencer := s.lock line s.version

def clearLocked : Except Fault Sequencer := s.lock line (-1)

/-- `Sequencer::issueRequest`: the message for the cache controller. -/
def issueRequest : Sequencer :=
  { s with mandatoryQueue := s.mandatoryQueue ++
    [{ lineAddress := s.lineAddress r.paddr, physicalAddress := r.paddr, type := r.type.cacheType, size := r.len }] }

/-- The part of `makeRequest` after the request is in its table. -/
def startRequest : Except Fault (RequestStatus × Sequencer) :=
  let line := s.lineAddress r.paddr
  if r.type = .Locked_Write then do
    let locked ← s.isLocked line
    if locked then
      let s ← s.clearLocked line
      return (.Issued, s.issueRequest r)
    else
      let s ← s.removeRequest r
      return (.LlscFailed, s)
  else .ok (.Issued, s.issueRequest r)

/-- Accept a request, or say why not. -/
def makeRequest : Except Fault (RequestStatus × Sequencer) := do
  ensure .assert (s.offset r.paddr + r.len ≤ s.blockSizeBytes)
  if s.getRequestStatus r = .Ready then
    let s ← s.insertRequest r
    s.startRequest r
  else return (s.getRequestStatus r, s)

/-- What `writeCallback` does with the lock of the line and with blocked lines. -/
def finishWrite : RubyRequestType → Except Fault Sequencer
  | .Locked_Read => s.setLocked line
  | .RMW_Read => .ok { s with blocked := line :: s.blocked }
  | .RMW_Write => .ok { s with blocked := s.blocked.filter (· != line) }
  | .ST | .Locked_Write => .ok s
  | .LD | .IFETCH => .error .assert

/-- `Sequencer::writeCallback` up to `hitCallback`: the request that is done. -/
def writeCallback : Except Fault (RubyRequest × Sequencer) := do
  ensure .assert (line = s.lineAddress line)
  let r ← s.writeRequestTable.lookup line
  let s ← s.removeRequest r
  let s ← s.finishWrite line r.type
  return (r, s)

/-- `Sequencer::readCallback` up to `hitCallback`. -/
def readCallback : Except Fault (RubyRequest × Sequencer) := do
  ensure .assert (line = s.lineAddress line)
  let r ← s.readRequestTable.lookup line
  let s ← s.removeRequest r
  ensure .assert (r.type = .LD ∨ r.type = .RMW_Read ∨ r.type = .IFETCH)
  return (r, s)

/-- The data of `Sequencer::hitCallback`: the packet's bytes and the block after it. -/
def hitData (data : DataBlock) : (Nat → UInt8) × DataBlock :=
  if r.type.isRead then (blit r.data 0 r.len fun k => data (s.offset r.paddr + k), data)
  else (r.data, blit data (s.offset r.paddr) r.len r.data)

/-! ## The calls that succeed -/

variable {s} {s' : Sequencer} {r : RubyRequest} {line : Nat}

theorem insertRequest_eq_ok (h : s.insertRequest r = .ok s') :
    r.type.isWrite ∧ s.writeRequestTable.exist (s.lineAddress r.paddr) = false ∧ s' = { s with
      writeRequestTable := (s.lineAddress r.paddr, r) :: s.writeRequestTable,
      outstandingCount := s.outstandingCount + 1 } ∨
    r.type.isWrite = false ∧ s.readRequestTable.exist (s.lineAddress r.paddr) = false ∧ s' = { s with
      readRequestTable := (s.lineAddress r.paddr, r) :: s.readRequestTable,
      outstandingCount := s.outstandingCount + 1 } := by
  obtain ⟨_, -, h⟩ := of_bind h
  split at h
  · next hw =>
    obtain ⟨hne, h⟩ := of_ensure h
    exact .inl ⟨hw, hne, (ok.inj h).symm⟩
  · next hw =>
    obtain ⟨hne, h⟩ := of_ensure h
    exact .inr ⟨Bool.eq_false_iff.2 hw, hne, (ok.inj h).symm⟩

theorem removeRequest_eq_ok (h : s.removeRequest r = .ok s') :
    r.type.isWrite ∧ s' = { s with
      writeRequestTable := s.writeRequestTable.filter (·.1 != s.lineAddress r.paddr)
      outstandingCount := s.outstandingCount - 1 } ∨
    r.type.isWrite = false ∧ s' = { s with
      readRequestTable := s.readRequestTable.filter (·.1 != s.lineAddress r.paddr)
      outstandingCount := s.outstandingCount - 1 } := by
  obtain ⟨_, -, h⟩ := of_bind h
  split at h
  · next hw =>
    obtain ⟨t, ht, h⟩ := of_bind h
    obtain ⟨-, rfl⟩ := of_check ht
    exact .inl ⟨hw, (ok.inj h).symm⟩
  · next hw =>
    obtain ⟨t, ht, h⟩ := of_bind h
    obtain ⟨-, rfl⟩ := of_check ht
    exact .inr ⟨Bool.eq_false_iff.2 hw, (ok.inj h).symm⟩

theorem lock_eq_ok {c : Int} (h : s.lock line c = .ok s') :
    s' = { s with dataCache := fun l => if l = line then some c else s.dataCache l } := by
  obtain ⟨_, -, h⟩ := of_bind h
  exact (ok.inj h).symm

theorem makeRequest_eq_ok {status : RequestStatus} (h : s.makeRequest r = .ok (status, s')) :
    (status ≠ .Issued ∧ status ≠ .LlscFailed) ∧ s' = s ∨ ∃ s₁, s.insertRequest r = .ok s₁ ∧
      (status = .Issued ∧ r.type ≠ .Locked_Write ∧ s' = s₁.issueRequest r ∨
        status = .Issued ∧ s₁.dataCache (s₁.lineAddress r.paddr) = some s₁.version ∧ s' = issueRequest { s₁ with
          dataCache := fun l => if l = s₁.lineAddress r.paddr then some (-1) else s₁.dataCache l } r ∨
        status = .LlscFailed ∧ (r.type = .Locked_Write ∧ s₁.dataCache (s₁.lineAddress r.paddr) ≠ some s₁.version) ∧
          s₁.removeRequest r = .ok s') := by
  obtain ⟨-, h⟩ := of_ensure h
  split at h
  · obtain ⟨s₁, h₁, h⟩ := of_bind h
    refine .inr ⟨s₁, h₁, ?_⟩
    unfold startRequest at h
    split at h
    · next ht =>
      obtain ⟨locked, hl, h⟩ := of_bind h
      obtain ⟨c, hc, rfl⟩ := of_map hl
      split at h
      · next hlocked =>
        obtain ⟨s₂, h₂, h⟩ := of_bind h
        cases h
        rw [lock_eq_ok h₂]
        exact .inr (.inl ⟨rfl, (beq_iff_eq.1 hlocked) ▸ present_eq_ok.1 hc, rfl⟩)
      · next hlocked =>
        obtain ⟨s₂, h₂, h⟩ := of_bind h
        cases h
        refine .inr (.inr ⟨rfl, ⟨ht, fun hv => hlocked ?_⟩, h₂⟩)
        rw [present_eq_ok.1 hc] at hv
        exact beq_iff_eq.2 (Option.some.inj hv)
    · next ht =>
      cases h
      exact .inl ⟨rfl, ht, rfl⟩
  · cases h
    refine .inl ⟨?_, rfl⟩
    unfold getRequestStatus
    dsimp only
    repeat' split
    all_goals decide

theorem finishWrite_eq_ok {type : RubyRequestType} (h : s.finishWrite line type = .ok s') : ∃ d b,
    s' = { s with dataCache := d, blocked := b } ∧ ∀ a, d a = s.dataCache a ∨ a = line ∧ type = .Locked_Read := by
  cases type with
  | Locked_Read =>
    refine ⟨_, _, lock_eq_ok h, fun a => ?_⟩
    by_cases ha : a = line
    · exact .inr ⟨ha, rfl⟩
    · exact .inl (if_neg ha)
  | RMW_Read | RMW_Write | ST | Locked_Write =>
    cases h
    exact ⟨_, _, rfl, fun _ => .inl rfl⟩
  | LD | IFETCH => cases h

theorem writeCallback_eq_ok (h : s.writeCallback line = .ok (r, s')) : (line, r) ∈ s.writeRequestTable ∧
    ∃ s₁, s.removeRequest r = .ok s₁ ∧ s₁.finishWrite line r.type = .ok s' := by
  obtain ⟨-, h⟩ := of_ensure h
  obtain ⟨r₁, hr, h⟩ := of_bind h
  obtain ⟨s₁, h₁, h⟩ := of_bind h
  obtain ⟨s₂, h₂, h⟩ := of_bind h
  cases h
  exact ⟨RequestTable.lookup_mem hr, s₁, h₁, h₂⟩

theorem readCallback_eq_ok (h : s.readCallback line = .ok (r, s')) : (line, r) ∈ s.readRequestTable ∧
    s.removeRequest r = .ok s' ∧ (r.type = .LD ∨ r.type = .RMW_Read ∨ r.type = .IFETCH) := by
  obtain ⟨-, h⟩ := of_ensure h
  obtain ⟨r₁, hr, h⟩ := of_bind h
  obtain ⟨s₁, h₁, h⟩ := of_bind h
  obtain ⟨ht, h⟩ := of_ensure h
  cases h
  exact ⟨RequestTable.lookup_mem hr, h₁, ht⟩

end Sequencer

end

/-! ## The requests -/

open M5.Lib List

namespace RequestTable

variable {t t' : RequestTable} {line : Nat} {r : RubyRequest}

theorem exist_eq_false : exist t line = false ↔ ∀ e ∈ t, e.1 ≠ line := by
  rw [exist]
  simp

theorem filter_of_exist_eq_false (h : exist t line = false) : t.filter (·.1 != line) = t :=
  filter_eq_self.2 fun e he => bne_iff_ne.2 (exist_eq_false.1 h e he)

theorem perm_of_mem (hk : (t.map (·.1)).Nodup) (h : (line, r) ∈ t) : t.Perm ((line, r) :: t.filter (·.1 != line)) := by
  induction t with
  | nil => cases h
  | cons e t ih =>
    obtain ⟨hne, hk⟩ := nodup_cons.1 hk
    rcases mem_cons.1 h with rfl | h
    · have hnone : exist t line = false :=
        exist_eq_false.2 fun e' he' heq => hne (mem_map.2 ⟨e', he', heq⟩)
      rw [filter_cons_of_neg (by simp), filter_of_exist_eq_false hnone]
    · have hkey : e.1 ≠ line := fun heq => hne (mem_map.2 ⟨_, h, heq.symm⟩)
      rw [filter_cons_of_pos (by simpa using hkey)]
      exact ((ih hk h).cons e).trans (.swap _ _ _)

end RequestTable

namespace Sequencer

variable {s s' : Sequencer} {r : RubyRequest} {line : Nat}

def requests (s : Sequencer) : List RubyRequest := (s.writeRequestTable ++ s.readRequestTable).map (·.2)

/-- The keys of a table are the different lines of its requests, which are all writes or all reads. -/
structure TidyTable (s : Sequencer) (w : Bool) (t : RequestTable) : Prop where
  keys : (t.map (·.1)).Nodup
  line : ∀ e ∈ t, e.1 = s.lineAddress e.2.paddr
  type : ∀ e ∈ t, e.2.type.isWrite = w

structure Tidy (s : Sequencer) : Prop where
  write : s.TidyTable true s.writeRequestTable
  read : s.TidyTable false s.readRequestTable

theorem TidyTable.cons {w : Bool} {t : RequestTable} (h : s.TidyTable w t) (hw : r.type.isWrite = w)
    (hne : t.exist (s.lineAddress r.paddr) = false) : s.TidyTable w ((s.lineAddress r.paddr, r) :: t) := by
  refine ⟨nodup_cons.2 ⟨?_, h.keys⟩, ?_, ?_⟩
  · intro hmem
    obtain ⟨e, he, heq⟩ := mem_map.1 hmem
    exact RequestTable.exist_eq_false.1 hne e he heq
  · rintro e he
    rcases mem_cons.1 he with rfl | he
    · rfl
    · exact h.line e he
  · rintro e he
    rcases mem_cons.1 he with rfl | he
    · exact hw
    · exact h.type e he

theorem TidyTable.filter {w : Bool} {t : RequestTable} (h : s.TidyTable w t) (p : Nat × RubyRequest → Bool) :
    s.TidyTable w (t.filter p) where
  keys := h.keys.sublist (filter_sublist.map _)
  line e he := h.line e (mem_of_mem_filter he)
  type e he := h.type e (mem_of_mem_filter he)

theorem Tidy.of_eq (hs : s.Tidy) (hw : s'.writeRequestTable = s.writeRequestTable)
    (hr : s'.readRequestTable = s.readRequestTable) (hb : s'.blockSizeBytes = s.blockSizeBytes) :
    s'.Tidy ∧ s'.requests = s.requests := by
  have hline : ∀ a, s'.lineAddress a = s.lineAddress a := fun a => by rw [lineAddress, lineAddress, hb]
  refine ⟨⟨⟨hw ▸ hs.write.keys, ?_, hw ▸ hs.write.type⟩, ⟨hr ▸ hs.read.keys, ?_, hr ▸ hs.read.type⟩⟩, ?_⟩
  · intro e he
    rw [hline]
    exact hs.write.line e (hw ▸ he)
  · intro e he
    rw [hline]
    exact hs.read.line e (hr ▸ he)
  · rw [requests, requests, hw, hr]

/-- A request enters one of the tables. -/
theorem insertRequest_spec (h : s.insertRequest r = .ok s') (hs : s.Tidy) :
    s'.Tidy ∧ s'.requests.Perm (r :: s.requests) ∧
      (s'.lineAddress r.paddr, r) ∈ s'.writeRequestTable ++ s'.readRequestTable := by
  rcases insertRequest_eq_ok h with ⟨hw, hne, rfl⟩ | ⟨hw, hne, rfl⟩
  · obtain ⟨h1, h2, h3⟩ := hs.write.cons hw hne
    obtain ⟨g1, g2, g3⟩ := hs.read
    exact ⟨⟨⟨h1, h2, h3⟩, ⟨g1, g2, g3⟩⟩, .refl _, mem_cons_self⟩
  · obtain ⟨h1, h2, h3⟩ := hs.read.cons hw hne
    obtain ⟨g1, g2, g3⟩ := hs.write
    exact ⟨⟨⟨g1, g2, g3⟩, ⟨h1, h2, h3⟩⟩, .map (fun e : Nat × RubyRequest => e.2) perm_middle,
      mem_append_right _ mem_cons_self⟩

theorem removeRequest_spec (h : s.removeRequest r = .ok s') (hs : s.Tidy)
    (hr : (s.lineAddress r.paddr, r) ∈ s.writeRequestTable ++ s.readRequestTable) :
    s'.Tidy ∧ s.requests.Perm (r :: s'.requests) := by
  rcases removeRequest_eq_ok h with ⟨hw, rfl⟩ | ⟨hw, rfl⟩
  · have hmem : (s.lineAddress r.paddr, r) ∈ s.writeRequestTable :=
      (mem_append.1 hr).resolve_right fun hread => by cases hw.symm.trans (hs.read.type _ hread)
    obtain ⟨h1, h2, h3⟩ := hs.write.filter (·.1 != s.lineAddress r.paddr)
    obtain ⟨g1, g2, g3⟩ := hs.read
    refine ⟨⟨⟨h1, h2, h3⟩, ⟨g1, g2, g3⟩⟩, ?_⟩
    exact .map (fun e : Nat × RubyRequest => e.2) ((RequestTable.perm_of_mem hs.write.keys hmem).append_right _)
  · have hmem : (s.lineAddress r.paddr, r) ∈ s.readRequestTable :=
      (mem_append.1 hr).resolve_left fun hwrite => by cases hw.symm.trans (hs.write.type _ hwrite)
    obtain ⟨h1, h2, h3⟩ := hs.read.filter (·.1 != s.lineAddress r.paddr)
    obtain ⟨g1, g2, g3⟩ := hs.write
    refine ⟨⟨⟨g1, g2, g3⟩, ⟨h1, h2, h3⟩⟩, ?_⟩
    exact .map (fun e : Nat × RubyRequest => e.2)
      (((RequestTable.perm_of_mem hs.read.keys hmem).append_left _).trans perm_middle)

/-- What `makeRequest` does to the bag. -/
theorem makeRequest_spec {status : RequestStatus} (h : s.makeRequest r = .ok (status, s')) (hs : s.Tidy) :
    s'.Tidy ∧ (status = .Issued ∧ s'.requests.Perm (r :: s.requests) ∨
      status ≠ .Issued ∧ s'.requests.Perm s.requests) := by
  rcases makeRequest_eq_ok h with ⟨hst, rfl⟩ | ⟨s₁, h₁, h⟩
  · exact ⟨hs, .inr ⟨hst.1, .refl _⟩⟩
  obtain ⟨hs₁, hp₁, hmem⟩ := insertRequest_spec h₁ hs
  rcases h with ⟨rfl, -, rfl⟩ | ⟨rfl, -, rfl⟩ | ⟨rfl, -, h₂⟩
  · obtain ⟨hs₂, hp₂⟩ : (s₁.issueRequest r).Tidy ∧ _ = s₁.requests := hs₁.of_eq rfl rfl rfl
    exact ⟨hs₂, .inl ⟨rfl, hp₂ ▸ hp₁⟩⟩
  · obtain ⟨hs₂, hp₂⟩ : (issueRequest { s₁ with dataCache := _ } r).Tidy ∧ _ = s₁.requests := hs₁.of_eq rfl rfl rfl
    exact ⟨hs₂, .inl ⟨rfl, hp₂ ▸ hp₁⟩⟩
  · obtain ⟨hs₂, hp₂⟩ := removeRequest_spec h₂ hs₁ hmem
    exact ⟨hs₂, .inr ⟨by decide, (hp₂.symm.trans hp₁).cons_inv⟩⟩

/-- What `writeCallback` does to the bag. -/
theorem writeCallback_spec (h : s.writeCallback line = .ok (r, s')) (hs : s.Tidy) :
    s'.Tidy ∧ s.requests.Perm (r :: s'.requests) := by
  obtain ⟨hmem, s₁, h₁, h₂⟩ := writeCallback_eq_ok h
  have hline : line = s.lineAddress r.paddr := hs.write.line _ hmem
  obtain ⟨hs₁, hp₁⟩ := removeRequest_spec h₁ hs (hline ▸ mem_append_left _ hmem)
  obtain ⟨d, b, rfl, -⟩ := finishWrite_eq_ok h₂
  obtain ⟨hs₂, hp₂⟩ : ({ s₁ with dataCache := d, blocked := b } : Sequencer).Tidy ∧ _ = s₁.requests :=
    hs₁.of_eq rfl rfl rfl
  exact ⟨hs₂, hp₂ ▸ hp₁⟩

/-- What `readCallback` does to the bag. -/
theorem readCallback_spec (h : s.readCallback line = .ok (r, s')) (hs : s.Tidy) :
    s'.Tidy ∧ s.requests.Perm (r :: s'.requests) := by
  obtain ⟨hmem, h₁, -⟩ := readCallback_eq_ok h
  have hline : line = s.lineAddress r.paddr := hs.read.line _ hmem
  exact removeRequest_spec h₁ hs (hline ▸ mem_append_right _ hmem)

end Sequencer

end M5.Ruby
