import M5.Lib.Run
import M5.Ruby.Sequencer

/-!
# Store conditionals

The answers of `makeRequest` to a store conditional, in every state that the calls of a sequencer and the changes of its
data cache lead to.
-/

namespace M5.Ruby

open M5.Lib List

namespace Sequencer

/-- The calls of a sequencer, and the changes of the data cache: a line with its lock, or no line. -/
inductive Act
  | request (r : RubyRequest)
  | write (line : Nat)
  | read (line : Nat)
  | cache (line : Nat) (locked : Option Int)

def call (s : Sequencer) : Act → Except Fault Sequencer
  | .request r => do
    let (_, s) ← s.makeRequest r
    return s
  | .write line => do
    let (_, s) ← s.writeCallback line
    return s
  | .read line => do
    let (_, s) ← s.readCallback line
    return s
  | .cache line locked => .ok { s with dataCache := Function.update s.dataCache line locked }

/-- The tables are in order, and their requests counted. -/
structure Inv (s : Sequencer) : Prop where
  tidy : s.Tidy
  count : s.outstandingCount = s.requests.length

variable {s s' : Sequencer} {r : RubyRequest} {line : Nat}

theorem Inv.of_eq (hs : s.Inv) (hw : s'.writeRequestTable = s.writeRequestTable)
    (hr : s'.readRequestTable = s.readRequestTable) (hb : s'.blockSizeBytes = s.blockSizeBytes)
    (hc : s'.outstandingCount = s.outstandingCount) : s'.Inv := by
  obtain ⟨ht, hq⟩ := hs.tidy.of_eq hw hr hb
  exact ⟨ht, hc.trans (hq ▸ hs.count)⟩

theorem Inv.insertRequest (hs : s.Inv) (h : s.insertRequest r = .ok s') : s'.Inv := by
  obtain ⟨ht, hp, -⟩ := insertRequest_spec h hs.tidy
  refine ⟨ht, ?_⟩
  rw [hp.length_eq, length_cons, ← hs.count]
  rcases insertRequest_eq_ok h with ⟨-, -, rfl⟩ | ⟨-, -, rfl⟩ <;> rfl

theorem Inv.removeRequest (hs : s.Inv) (h : s.removeRequest r = .ok s')
    (hr : (s.lineAddress r.paddr, r) ∈ s.writeRequestTable ++ s.readRequestTable) : s'.Inv := by
  obtain ⟨ht, hp⟩ := removeRequest_spec h hs.tidy hr
  have hc := hs.count
  rw [hp.length_eq] at hc
  refine ⟨ht, ?_⟩
  rcases removeRequest_eq_ok h with ⟨-, rfl⟩ | ⟨-, rfl⟩ <;> exact Nat.sub_eq_of_eq_add hc

theorem Inv.makeRequest {status : RequestStatus} (hs : s.Inv) (h : s.makeRequest r = .ok (status, s')) : s'.Inv := by
  rcases makeRequest_eq_ok h with ⟨-, rfl⟩ | ⟨s₁, h₁, h⟩
  · exact hs
  have hs₁ := hs.insertRequest h₁
  rcases h with ⟨-, -, rfl⟩ | ⟨-, -, rfl⟩ | ⟨-, -, h⟩
  · exact hs₁.of_eq rfl rfl rfl rfl
  · exact hs₁.of_eq rfl rfl rfl rfl
  · exact hs₁.removeRequest h (insertRequest_spec h₁ hs.tidy).2.2

theorem Inv.call {a : Act} (hs : s.Inv) (h : s.call a = .ok s') : s'.Inv := by
  cases a with
  | request r =>
    obtain ⟨x, hx, rfl⟩ := of_map h
    exact hs.makeRequest hx
  | write line =>
    obtain ⟨x, hx, rfl⟩ := of_map h
    obtain ⟨hmem, s₁, h₁, h₂⟩ := writeCallback_eq_ok hx
    have hline : line = s.lineAddress _ := hs.tidy.write.line _ hmem
    have hs₁ := hs.removeRequest h₁ (hline ▸ mem_append_left _ hmem)
    obtain ⟨d, b, he, -⟩ := finishWrite_eq_ok h₂
    rw [he]
    exact hs₁.of_eq rfl rfl rfl rfl
  | read line =>
    obtain ⟨x, hx, rfl⟩ := of_map h
    obtain ⟨hmem, h₁, -⟩ := readCallback_eq_ok hx
    have hline : line = s.lineAddress _ := hs.tidy.read.line _ hmem
    exact hs.removeRequest h₁ (hline ▸ mem_append_right _ hmem)
  | cache line locked =>
    cases h
    exact hs.of_eq rfl rfl rfl rfl

/-- Without the lock the request is forgotten, and `isLocked` asserts that the line is in the data cache. -/
theorem makeRequest_storeConditional (hs : s.Inv) (ht : r.type = .Locked_Write)
    (hf : s.offset r.paddr + r.len ≤ s.blockSizeBytes) (hr : s.getRequestStatus r = .Ready) :
    s.makeRequest r = .error .assert ∧ s.dataCache (s.lineAddress r.paddr) = none ∨
      (s.makeRequest r = .ok (.LlscFailed, s) ∨ ∃ s', s.makeRequest r = .ok (.Issued, s')) ∧
        s.dataCache (s.lineAddress r.paddr) ≠ none := by
  have hn : s.writeRequestTable.exist (s.lineAddress r.paddr) = false := Bool.eq_false_iff.2 fun hn => by
    rw [getRequestStatus, if_pos hn] at hr
    cases hr
  have hw : r.type.isWrite := ht ▸ rfl
  have hc : s.counted = .ok ⟨⟩ := ensure_of (by rw [hs.count, requests, length_map, length_append])
  obtain ⟨s₁, hi, hd, hl, hrem⟩ : ∃ s₁, s.insertRequest r = .ok s₁ ∧ s₁.dataCache = s.dataCache ∧
      s₁.lineAddress r.paddr = s.lineAddress r.paddr ∧ s₁.removeRequest r = .ok s := by
    have hi : s.insertRequest r = .ok { s with
        writeRequestTable := (s.lineAddress r.paddr, r) :: s.writeRequestTable
        outstandingCount := s.outstandingCount + 1 } := by
      rw [insertRequest, hc, if_pos hw, ensure_of hn]
      rfl
    refine ⟨_, hi, rfl, rfl, ?_⟩
    have hc₁ := (hs.insertRequest hi).count
    rw [requests, length_map, length_append] at hc₁
    have hfilter : ((s.lineAddress r.paddr, r) :: s.writeRequestTable).filter (·.1 != s.lineAddress r.paddr) =
        s.writeRequestTable := by
      rw [filter_cons_of_neg (by simp), RequestTable.filter_of_exist_eq_false hn]
    rw [removeRequest, counted, ensure_bind hc₁, if_pos hw, RequestTable.deallocate, ensure_of]
    · exact congrArg (fun t => Except.ok { s with writeRequestTable := t }) hfilter
    · simp [RequestTable.exist, lineAddress]
  rw [makeRequest, ensure_bind hf, if_pos hr, hi, ok_bind, startRequest, if_pos ht, isLocked, hd, hl, clearLocked,
    lock, hd, hrem]
  cases s.dataCache (s.lineAddress r.paddr) with
  | none => exact .inl ⟨rfl, rfl⟩
  | some c =>
    refine .inr ⟨?_, by simp⟩
    show (if c == s₁.version then _ else _) = _ ∨ ∃ s', (if c == s₁.version then _ else _) = _
    split
    · exact .inr ⟨_, rfl⟩
    · exact .inl rfl

/-- The answer to a store conditional is right iff its line is in the data cache, and it does not leave the line. -/
theorem storeConditional_iff {as : List Act} {version : Int} {maxOutstandingRequests blockSizeBytes : Nat}
    {dataCache : Nat → Option Int}
    (h : Run (fun s a s' => s.call a = .ok s') { version, maxOutstandingRequests, blockSizeBytes, dataCache } as s)
    (ht : r.type = .Locked_Write) :
    (∃ status s', s.makeRequest r = .ok (status, s') ∧ status ≠ .Ready ∧
      (s.dataCache (s.lineAddress r.paddr) = none → status = .LlscFailed)) ↔
    s.offset r.paddr + r.len ≤ s.blockSizeBytes ∧ s.dataCache (s.lineAddress r.paddr) ≠ none := by
  have hs : s.Inv := h.invariant ⟨⟨⟨.nil, nofun, nofun⟩, .nil, nofun, nofun⟩, rfl⟩ .call
  by_cases hf : s.offset r.paddr + r.len ≤ s.blockSizeBytes
  · by_cases hr : s.getRequestStatus r = .Ready
    · rcases makeRequest_storeConditional hs ht hf hr with ⟨hm, hd⟩ | ⟨hm, hd⟩
      · simp [hm, hd]
      · refine ⟨fun _ => ⟨hf, hd⟩, fun _ => ?_⟩
        rcases hm with hm | ⟨s', hm⟩
        · exact ⟨_, _, hm, nofun, fun hn => absurd hn hd⟩
        · exact ⟨_, _, hm, nofun, fun hn => absurd hn hd⟩
    · have hm : s.makeRequest r = .ok (s.getRequestStatus r, s) := by
        rw [makeRequest, ensure_bind hf, if_neg hr]
        rfl
      refine ⟨fun ⟨_, _, h, _, hn⟩ => ⟨hf, fun hd => ?_⟩, fun hd => ⟨_, _, hm, hr, fun hn => absurd hn hd.2⟩⟩
      have hst : s.getRequestStatus r = .LlscFailed := by
        cases hm.symm.trans h
        exact hn hd
      unfold getRequestStatus at hst
      dsimp only at hst
      split_ifs at hst
  · exact ⟨fun ⟨_, _, h, _⟩ => absurd (of_ensure h).1 hf, fun h => absurd h.1 hf⟩

def word (type : RubyRequestType) : RubyRequest := { paddr := 0, data := fun _ => 0, len := 4, type, pkt := 0 }

/-- A sequencer whose lines are all in the data cache. -/
def cached : Sequencer := { maxOutstandingRequests := 1, blockSizeBytes := 64, dataCache := fun _ => some (-1) }

/-- The line has been loaded linked. -/
theorem storeConditional_cached : ∃ s, Run (fun s a s' => s.call a = .ok s') cached
    [.request (word .Locked_Read), .write 0] s ∧ ∃ status s', s.makeRequest (word .Locked_Write) = .ok (status, s') ∧
      status ≠ .Ready ∧ (s.dataCache 0 = none → status = .LlscFailed) := by
  have hrun : Run (fun s a s' => s.call a = .ok s') cached [.request (word .Locked_Read), .write 0] _ :=
    .snoc (.snoc .nil rfl) rfl
  exact ⟨_, hrun, (storeConditional_iff hrun rfl).2 ⟨by decide, nofun⟩⟩

/-- The line is locked, and leaves the data cache. -/
theorem storeConditional_evicted : ∃ s, Run (fun s a s' => s.call a = .ok s') cached
    [.request (word .Locked_Read), .write 0, .cache 0 none] s ∧ s.makeRequest (word .Locked_Write) = .error .assert :=
  ⟨_, .snoc (.snoc (.snoc .nil rfl) rfl) rfl, rfl⟩

end Sequencer

end M5.Ruby
