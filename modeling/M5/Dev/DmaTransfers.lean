import M5.Dev.DmaPort
import M5.Lib.Run

/-!
# DMA transfers are exact

Each packet of a `dmaAction` is in the custody of the port or of the memory system, and each call has books on the bytes
that are still to be answered. Both are kept by every step but one: when the backoff event finds more than one packet in
the list and `backoffTime` is back at zero, the loop of `sendDma` sends the first packet again in place of the second.
-/

namespace M5.Dev

open M5.Lib M5.Base Function List ChunkGenerator Nat Option

namespace System

/-- The packets, as items that are handed over. -/
def custody (s : System) : Custody Packet where
  created := s.created
  waiting := s.transmitList
  out := s.outstanding
  done := s.answered
  accepted := s.accepted
  returned := s.nacked

/-- What sending does not change. -/
structure Frame (s t : System) : Prop where
  states : t.states = s.states
  calls : t.calls = s.calls
  created : t.created = s.created
  answered : t.answered = s.answered
  completed : t.completed = s.completed

theorem Frame.refl (s : System) : Frame s s := ⟨rfl, rfl, rfl, rfl, rfl⟩

theorem Frame.trans {s t u : System} (h : Frame s t) (h' : Frame t u) : Frame s u :=
  ⟨h'.states.trans h.states, h'.calls.trans h.calls, h'.created.trans h.created, h'.answered.trans h.answered,
    h'.completed.trans h.completed⟩

/-- The packets are where they are counted. -/
structure Stock (s : System) : Prop where
  exact : s.custody.Exact
  fresh : ∀ p ∈ s.created, p.id < s.created.length
  pending : s.pendingCount = s.transmitList.length + s.outstanding.length

/-- The packets move on: where some wait, an event or a retry is to come. -/
structure Flow (s : System) : Prop where
  stock : s.Stock
  kicked : s.transmitList ≠ [] → s.backoffEvent.isSome ∨ s.inRetry
  waits : s.inRetry → s.transmitList ≠ []
  owes : s.owesRetry = s.inRetry

theorem Flow.congr {s : System} (h : s.Flow) {a b c d e f g} : Flow { s with
    states := a, calls := b, answers := c, completed := d, drainEvent := e, drained := f, curTick := g } :=
  ⟨⟨h.stock.exact, h.stock.fresh, h.stock.pending⟩, h.kicked, h.waits, h.owes⟩

/-! ## Sending -/

section sending

variable {s : System} {pkt : Packet} {rest : List Packet} {as : List Bool}

def passed (s : System) (pkt : Packet) (rest : List Packet) (as : List Bool) : System :=
  { s with
    answers := as, outstanding := s.outstanding ++ [pkt], accepted := s.accepted ++ [pkt], transmitList := rest,
    inRetry := false }

def refused (s : System) : System := { s with answers := s.answers.tail, owesRetry := true, inRetry := true }

theorem Stock.passed (h : s.Stock) (hl : s.transmitList = pkt :: rest) (as : List Bool) :
    (s.passed pkt rest as).Stock where
  exact := by
    have he := h.exact.accept (by rw [custody, hl]; exact mem_cons_self)
    rw [Custody.accept, custody, hl] at he
    rwa [erase_cons_head] at he
  fresh := h.fresh
  pending := by
    have hp := h.pending
    rw [hl, length_cons] at hp
    show s.pendingCount = rest.length + (s.outstanding ++ [pkt]).length
    rw [length_append, length_singleton]
    omega

theorem Stock.refused (h : s.Stock) : s.refused.Stock := ⟨h.exact, h.fresh, h.pending⟩

theorem sendTiming_true (h : s.answers = true :: as) : s.sendTiming pkt =
    (true, { s with answers := as, outstanding := s.outstanding ++ [pkt], accepted := s.accepted ++ [pkt] }) := by
  rw [sendTiming, h]

theorem sendTiming_false (h : s.answers.head? ≠ some true) :
    s.sendTiming pkt = (false, { s with answers := s.answers.tail, owesRetry := true }) := by
  rw [sendTiming]
  split
  · next h' =>
    rw [h'] at h
    exact absurd rfl h
  · rfl

theorem sendLoop_refused {n : Nat} (h : s.answers.head? ≠ some true) : sendLoop pkt (n + 1) s = s.refused := by
  rw [sendLoop, sendTiming_false h]
  rfl

theorem sendLoop_passed {n : Nat} (hl : s.transmitList = pkt :: rest) (hr : s.inRetry = false)
    (h : s.answers = true :: as) : sendLoop pkt (n + 1) s =
      if s.backoffTime = 0 ∧ rest ≠ [] then sendLoop pkt n (s.passed pkt rest as) else s.passed pkt rest as := by
  rw [sendLoop, sendTiming_true h]
  simp only [hl, tail_cons, hr]
  rfl

theorem head_true (h : s.answers.head? = some true) : ∃ as, s.answers = true :: as := by
  cases ha : s.answers with
  | nil =>
    rw [ha] at h
    cases h
  | cons b as =>
    rw [ha] at h
    obtain rfl := some.inj h
    exact ⟨as, rfl⟩

/-- After a loop of sending: if packets are left, one was refused or there is a backoff time. -/
structure Sent (s t : System) : Prop where
  stock : t.Stock
  frame : Frame s t
  owes : t.owesRetry = t.inRetry
  waits : t.inRetry → t.transmitList ≠ []
  left : t.transmitList ≠ [] → t.inRetry ∨ t.backoffTime ≠ 0

theorem Sent.trans {t u : System} (h : Sent t u) (hf : Frame s t) : Sent s u :=
  ⟨h.stock, hf.trans h.frame, h.owes, h.waits, h.left⟩

theorem sent_refused (h : s.Stock) (hne : s.transmitList ≠ []) : Sent s s.refused where
  stock := h.refused
  frame := ⟨rfl, rfl, rfl, rfl, rfl⟩
  owes := rfl
  waits := fun _ => hne
  left := fun _ => .inl rfl

theorem frame_passed (s : System) (pkt : Packet) (rest : List Packet) (as : List Bool) :
    Frame s (s.passed pkt rest as) := ⟨rfl, rfl, rfl, rfl, rfl⟩

theorem sent_passed (h : s.Stock) (hl : s.transmitList = pkt :: rest) (ho : s.owesRetry = false)
    (hstop : ¬ (s.backoffTime = 0 ∧ rest ≠ [])) (as : List Bool) : Sent s (s.passed pkt rest as) where
  stock := h.passed hl as
  frame := frame_passed ..
  owes := ho
  waits := nofun
  left := fun hne => .inr fun h0 => hstop ⟨h0, hne⟩

theorem sent_sendLoop (h : s.Stock) (hl : s.transmitList = pkt :: rest) (hr : s.inRetry = false)
    (ho : s.owesRetry = false) (hone : rest = [] ∨ s.backoffTime ≠ 0 ∨ ¬ [true, true] <+: s.answers) :
    Sent s (sendLoop pkt (rest.length + 1) s) := by
  have hne : s.transmitList ≠ [] := by simp [hl]
  by_cases ha : s.answers.head? = some true
  · obtain ⟨as, ha⟩ := head_true ha
    rw [sendLoop_passed hl hr ha]
    split
    · -- a second turn: the packet is refused
      next hgo =>
      have hrefuse : as.head? ≠ some true := by
        intro has
        rcases hone with hone | hone | hone
        · exact hgo.2 hone
        · exact hone hgo.1
        · cases as with
          | nil => cases has
          | cons b as =>
            obtain rfl := some.inj has
            exact hone (ha ▸ ⟨as, rfl⟩)
      cases rest with
      | nil => exact absurd rfl hgo.2
      | cons p l =>
        rw [length_cons, sendLoop_refused hrefuse]
        exact (sent_refused (h.passed hl as) hgo.2).trans (frame_passed ..)
    · next hstop => exact sent_passed h hl ho hstop as
  · rw [sendLoop_refused ha]
    exact sent_refused h hne

theorem sent_retryLoop : ∀ {n : Nat} {s : System}, s.Stock → s.transmitList ≠ [] → s.transmitList.length ≤ n →
    s.owesRetry = false → Sent s (retryLoop n s)
  | 0, s, _, hne, hn, _ => absurd (length_eq_zero_iff.1 (le_zero.1 hn)) hne
  | n + 1, s, h, hne, hn, ho => by
    cases hl : s.transmitList with
    | nil => exact absurd hl hne
    | cons pkt rest =>
      rw [retryLoop, hl]
      dsimp only
      by_cases ha : s.answers.head? = some true
      · obtain ⟨as, ha⟩ := head_true ha
        rw [sendTiming_true ha]
        show Sent s (if s.backoffTime = 0 ∧ rest ≠ [] then retryLoop n (s.passed pkt rest as) else s.passed pkt rest as)
        split
        · next hgo =>
          have hn' : rest.length ≤ n := by
            rw [hl, length_cons] at hn
            omega
          exact (sent_retryLoop (h.passed hl as) hgo.2 hn' ho).trans (frame_passed ..)
        · next hstop => exact sent_passed h hl ho hstop as
      · rw [sendTiming_false ha]
        exact sent_refused h hne

theorem Sent.flow {t : System} (h : Sent s t) :
    ∃ u, (if t.transmitList ≠ [] ∧ t.backoffTime ≠ 0 ∧ t.inRetry = false ∧ t.backoffEvent = none then
      { t with backoffEvent := some (t.backoffTime + t.curTick) } else t) = u ∧ u.Flow ∧ Frame s u := by
  split
  · exact ⟨_, rfl, ⟨⟨h.stock.exact, h.stock.fresh, h.stock.pending⟩, fun _ => .inl rfl, h.waits, h.owes⟩,
      ⟨h.frame.states, h.frame.calls, h.frame.created, h.frame.answered, h.frame.completed⟩⟩
  · next hno =>
    refine ⟨t, rfl, ⟨h.stock, fun hne => ?_, h.waits, h.owes⟩, h.frame⟩
    by_contra hk
    obtain ⟨hev, hr⟩ := not_or.1 hk
    refine hno ⟨hne, (h.left hne).resolve_left hr, Bool.eq_false_iff.2 hr, ?_⟩
    rwa [Bool.not_eq_true, isSome_eq_false_iff, isNone_iff_eq_none] at hev

theorem Stock.sendDma (h : s.Stock) (howes : s.owesRetry = s.inRetry) (hne : s.transmitList ≠ [])
    (hone : s.backoffEvent.isSome ∨ s.inRetry ∨ s.transmitList.length ≤ 1 ∨ s.backoffTime ≠ 0 ∨
      ¬ [true, true] <+: s.answers) : ∃ t, s.sendDma = .ok t ∧ t.Flow ∧ Frame s t := by
  cases hl : s.transmitList with
  | nil => exact absurd hl hne
  | cons pkt rest =>
    rw [System.sendDma]
    simp only [hl]
    by_cases hwait : s.backoffEvent.isSome ∨ s.inRetry
    · rw [if_pos hwait]
      exact ⟨s, rfl, ⟨h, fun _ => hwait, fun _ => hne, howes⟩, .refl s⟩
    · rw [if_neg hwait]
      obtain ⟨hev, hr⟩ := not_or.1 hwait
      have hr := Bool.eq_false_iff.2 hr
      have hone : rest = [] ∨ s.backoffTime ≠ 0 ∨ ¬ [true, true] <+: s.answers := by
        rcases hone with h1 | h1 | h1 | h1
        · exact absurd h1 hev
        · rw [hr] at h1
          cases h1
        · rw [hl, length_cons] at h1
          exact .inl (length_eq_zero_iff.1 (by omega))
        · exact .inr h1
      obtain ⟨t, ht, hflow, hframe⟩ := (sent_sendLoop h hl hr (howes.trans hr) hone).flow
      exact ⟨t, congrArg Except.ok ht, hflow, hframe⟩

theorem Stock.recvRetry (h : s.Stock) (hne : s.transmitList ≠ []) (ho : s.owesRetry = false) :
    ∃ t, s.recvRetry = .ok t ∧ t.Flow ∧ Frame s t := by
  rw [System.recvRetry, ensure_bind hne]
  obtain ⟨t, ht, hflow, hframe⟩ := (sent_retryLoop h hne (le_refl _) ho).flow
  exact ⟨t, congrArg Except.ok ht, hflow, hframe⟩

end sending

/-! ## The packets of the steps -/

section flow

variable {s : System}

theorem Stock.pending_nonneg (h : s.Stock) : 0 ≤ s.pendingCount := by
  rw [h.pending]
  omega

def withChunk (s : System) (c : Call) (k : Chunk) : System :=
  { s with created := s.created ++ [s.newPacket c k] }

theorem Flow.queueChunk (h : s.Flow) (c : Call) (k : Chunk) :
    ∃ t, System.queueChunk c s k = .ok t ∧ t.Flow ∧ Frame (s.withChunk c k) t := by
  have hnew : s.newPacket c k ∉ s.created := fun hm => absurd (h.stock.fresh _ hm) (lt_irrefl _)
  have hfresh : ∀ p ∈ s.created ++ [s.newPacket c k], p.id < (s.created ++ [s.newPacket c k]).length := by
    intro p hp
    rw [length_append]
    rcases mem_append.1 hp with hp | hp
    · exact Nat.lt_add_right _ (h.stock.fresh p hp)
    · rw [mem_singleton.1 hp]
      exact lt_succ_self _
  have hpend : s.pendingCount + 1 = ((s.transmitList ++ [s.newPacket c k]).length : Int) + s.outstanding.length := by
    rw [h.stock.pending, length_append, length_singleton]
    omega
  -- if packets wait already, so does this one; otherwise it is the only one
  have hone : s.backoffEvent.isSome ∨ s.inRetry ∨ (s.transmitList ++ [s.newPacket c k]).length ≤ 1 ∨
      s.backoffTime ≠ 0 ∨ ¬ [true, true] <+: s.answers := by
    by_cases hl : s.transmitList = []
    · exact .inr (.inr (.inl (by simp [hl])))
    · exact (h.kicked hl).imp_right .inl
  rw [System.queueChunk, ensure_bind h.stock.pending_nonneg, queueDma]
  obtain ⟨t, ht, hflow, hframe⟩ := Stock.sendDma (s := { s with
      pendingCount := s.pendingCount + 1, created := s.created ++ [s.newPacket c k],
      transmitList := s.transmitList ++ [s.newPacket c k] })
    ⟨h.stock.exact.create hnew, hfresh, hpend⟩ h.owes (by simp) hone
  exact ⟨t, ht, hflow, hframe.states, hframe.calls, hframe.created, hframe.answered, hframe.completed⟩

theorem Flow.recvNack (cfg : Config) (h : s.Flow) {pkt : Packet} (hp : pkt ∈ s.outstanding) :
    ∃ t, System.recvNack cfg { s with outstanding := s.outstanding.erase pkt, nacked := s.nacked ++ [pkt] } pkt =
      .ok t ∧
      t.Flow ∧ Frame s t := by
  have hpend : s.pendingCount = ((pkt :: s.transmitList).length : Int) + (s.outstanding.erase pkt).length := by
    have hpos := length_pos_of_mem hp
    rw [h.stock.pending, length_erase_of_mem hp, length_cons]
    omega
  obtain ⟨t, ht, hflow, hframe⟩ := Stock.sendDma (s := { s with
      outstanding := s.outstanding.erase pkt, nacked := s.nacked ++ [pkt], transmitList := pkt :: s.transmitList,
      backoffTime := if s.backoffTime < cfg.minBackoffDelay then cfg.minBackoffDelay
        else if s.backoffTime < cfg.maxBackoffDelay then s.backoffTime * 2 else s.backoffTime,
      backoffEvent := some (s.curTick + if s.backoffTime < cfg.minBackoffDelay then cfg.minBackoffDelay
        else if s.backoffTime < cfg.maxBackoffDelay then s.backoffTime * 2 else s.backoffTime) })
    ⟨h.stock.exact.giveBack hp, h.stock.fresh, hpend⟩ h.owes (cons_ne_nil _ _) (.inl rfl)
  exact ⟨t, ht, hflow, hframe.states, hframe.calls, hframe.created, hframe.answered, hframe.completed⟩

end flow

/-! ## Bytes -/

def bytes (r : Nat) (l : List Packet) : Nat := (l.map fun p => if p.senderState = r then p.size else 0).sum

section bytes

variable {r : Nat} {l m : List Packet} {p : Packet}

@[simp] theorem bytes_cons : bytes r (p :: l) = (if p.senderState = r then p.size else 0) + bytes r l := rfl

@[simp] theorem bytes_append : bytes r (l ++ m) = bytes r l + bytes r m := by simp [bytes]

theorem bytes_perm (h : l.Perm m) : bytes r l = bytes r m := (h.map _).sum_nat

theorem bytes_eq_zero (h : ∀ p ∈ l, p.senderState ≠ r) : bytes r l = 0 := by
  induction l with
  | nil => rfl
  | cons p l ih =>
    rw [bytes_cons, if_neg (h p mem_cons_self), ih fun q hq => h q (mem_cons_of_mem _ hq)]

theorem filter_eq_nil (h : ∀ p ∈ l, p.senderState ≠ r) : (l.filter fun p => p.senderState = r) = [] :=
  filter_eq_nil_iff.2 fun p hp => by simpa using h p hp

theorem size_le_bytes (h : p ∈ l) : p.size ≤ bytes p.senderState l := by
  induction l with
  | nil => cases h
  | cons q l ih =>
    rw [bytes_cons]
    rcases mem_cons.1 h with rfl | h
    · rw [if_pos rfl]
      omega
    · have := ih h
      omega

end bytes

/-! ## The books -/

structure IsChunk (c : Call) (p : Packet) (k : Chunk) : Prop where
  cmd : p.cmd = c.cmd
  addr : p.addr = k.addr
  size : p.size = k.size
  data : p.data = c.data.map (· + k.complete)

variable (s : System) (r : Nat)

def packetsOf : List Packet := s.created.filter fun p => p.senderState = r

/-- How often the completion event of a call was triggered. -/
def completions : Nat := (s.completed.map Completion.call).count r

/-- The books on the call `r`: while some of its packets are not answered there is a state that counts its bytes, and
then the completion event has been triggered once. -/
def Account : Prop :=
  match s.states r with
  | some st => r < s.calls.length ∧ st.totBytes = bytes r s.created ∧ st.numBytes = bytes r s.answered ∧
    st.numBytes < st.totBytes ∧ s.completions r = 0 ∧ s.calls[r]?.map Call.event = some st.completionEvent
  | none => s.completions r = (if r < s.calls.length then 1 else 0) ∧
    (r < s.calls.length → bytes r s.created = bytes r s.answered)

/-- What the `DmaReqState`s count. -/
structure Books (s : System) : Prop where
  sender : ∀ p ∈ s.created, p.senderState < s.calls.length
  pos : ∀ p ∈ s.created, 0 < p.size
  account : ∀ r, s.Account r
  events : ∀ e ∈ s.completed, s.calls[e.call]?.map Call.event = some e.event
  tiles : ∀ {r c}, s.calls[r]? = some c →
    ∃ ks, Tiles c.addr c.size 0 ks ∧ Forall₂ (IsChunk c) (s.packetsOf r) ks

section account

variable {s t : System} {r : Nat} {q : DmaReqState}

theorem account_some (h : s.states r = some q) : s.Account r ↔
    r < s.calls.length ∧ q.totBytes = bytes r s.created ∧ q.numBytes = bytes r s.answered ∧
      q.numBytes < q.totBytes ∧ s.completions r = 0 ∧ s.calls[r]?.map Call.event = some q.completionEvent := by
  rw [Account, h]

theorem account_none (h : s.states r = none) : s.Account r ↔
    s.completions r = (if r < s.calls.length then 1 else 0) ∧
      (r < s.calls.length → bytes r s.created = bytes r s.answered) := by
  rw [Account, h]

theorem Account.congr (h : s.Account r) (hs : t.states r = s.states r) (hl : r < t.calls.length ↔ r < s.calls.length)
    (he : r < s.calls.length → t.calls[r]? = s.calls[r]?) (hc : bytes r t.created = bytes r s.created)
    (ha : bytes r t.answered = bytes r s.answered) (hn : t.completions r = s.completions r) : t.Account r := by
  cases hst : s.states r with
  | none =>
    rw [account_none (hs.trans hst), hn, hc, ha]
    simp only [hl]
    exact (account_none hst).1 h
  | some st =>
    obtain ⟨h1, h2⟩ := (account_some hst).1 h
    rw [account_some (hs.trans hst), hn, hc, ha, he h1]
    exact ⟨hl.2 h1, h2⟩

theorem Books.congr (h : s.Books) (hf : Frame s t) : t.Books := by
  obtain ⟨h1, h2, h3, h4, h5⟩ := hf
  refine ⟨h2 ▸ h3 ▸ h.sender, h3 ▸ h.pos, fun r => ?_, h2 ▸ h5 ▸ h.events, ?_⟩
  · refine (h.account r).congr ?_ ?_ ?_ ?_ ?_ ?_ <;> simp only [completions, h1, h2, h3, h4, h5, implies_true]
  · unfold packetsOf
    rw [h2, h3]
    exact h.tiles

end account

section actions

variable {s : System}

theorem Flow.queueChunks (c : Call) : ∀ (ks : List Chunk) {s : System}, s.Flow →
    ∃ t pkts, ks.foldlM (System.queueChunk c) s = .ok t ∧ t.Flow ∧ Frame { s with created := s.created ++ pkts } t ∧
      Forall₂ (IsChunk c) pkts ks ∧ ∀ p ∈ pkts, p.senderState = s.calls.length - 1
  | [], s, h => ⟨s, [], rfl, h, ⟨rfl, rfl, (append_nil _).symm, rfl, rfl⟩, .nil, nofun⟩
  | k :: ks, s, h => by
    obtain ⟨t, ht, hflow, hframe⟩ := h.queueChunk c k
    obtain ⟨u, pkts, hu, hflow', hframe', hall, hsender⟩ := Flow.queueChunks c ks hflow
    have hcalls : t.calls = s.calls := hframe.calls
    refine ⟨u, s.newPacket c k :: pkts, ?_, hflow', ?_, .cons ⟨rfl, rfl, rfl, rfl⟩ hall, ?_⟩
    · rw [foldlM_cons, ht]
      exact hu
    · refine ⟨hframe'.states.trans hframe.states, hframe'.calls.trans hframe.calls, ?_,
        hframe'.answered.trans hframe.answered, hframe'.completed.trans hframe.completed⟩
      have hc : u.created = t.created ++ pkts := hframe'.created
      have hc' : t.created = s.created ++ [s.newPacket c k] := hframe.created
      rw [hc, hc', append_assoc, singleton_append]
    · intro p hp
      rcases mem_cons.1 hp with rfl | hp
      · rfl
      · rw [hsender p hp, hcalls]

variable {c : Call} {st : DmaReqState} {pkt : Packet}

theorem bytes_of_chunks {r : Nat} : ∀ {pkts : List Packet} {ks : List Chunk},
    Forall₂ (IsChunk c) pkts ks → (∀ p ∈ pkts, p.senderState = r) →
      bytes r pkts = (ks.map Chunk.size).sum
  | _, _, .nil, _ => rfl
  | _, _, .cons hk hall, h => by
    obtain ⟨hp, h⟩ := forall_mem_cons.1 h
    rw [bytes_cons, if_pos hp, hk.size, map_cons, sum_cons, bytes_of_chunks hall h]

theorem pos_of_chunks : ∀ {pkts : List Packet} {ks : List Chunk},
    Forall₂ (IsChunk c) pkts ks → (∀ k ∈ ks, 0 < k.size) → ∀ p ∈ pkts, 0 < p.size
  | _, _, .nil, _, _, hp => by cases hp
  | _, _, .cons hk hall, h, p, hp => by
    obtain ⟨h1, h⟩ := forall_mem_cons.1 h
    rcases mem_cons.1 hp with rfl | hp
    · rw [hk.size]
      exact h1
    · exact pos_of_chunks hall h p hp

/-- The state of a call when its packets have been made. -/
def withCall (s : System) (c : Call) (st : DmaReqState) (pkts : List Packet) : System :=
  { s with
    states := update s.states s.calls.length (some st), calls := s.calls ++ [c], created := s.created ++ pkts }

theorem Books.fresh (h : s.Books) {r : Nat} (hr : s.calls.length ≤ r) : s.states r = none := by
  cases hst : s.states r with
  | none => rfl
  | some st => exact absurd ((account_some hst).1 (h.account r)).1 (not_lt.2 hr)

theorem Books.withCall (h : s.Books) (hans : ∀ p ∈ s.answered, p ∈ s.created)
    {pkts : List Packet} {ks : List Chunk} (hks : Tiles c.addr c.size 0 ks)
    (hall : Forall₂ (IsChunk c) pkts ks) (hsender : ∀ p ∈ pkts, p.senderState = s.calls.length)
    (hpos : 0 < c.size) (htot : st.totBytes = c.size) (hnum : st.numBytes = 0) (hevent : st.completionEvent = c.event) :
    (s.withCall c st pkts).Books := by
  -- the bytes of the call, and of the calls before
  have hold : ∀ l : List Packet, (∀ p ∈ l, p ∈ s.created) → bytes s.calls.length l = 0 := fun l hl =>
    bytes_eq_zero fun p hp => Nat.ne_of_lt (h.sender p (hl p hp))
  have hnew : ∀ {r}, r ≠ s.calls.length → bytes r pkts = 0 := fun hr =>
    bytes_eq_zero fun p hp => by
      rw [hsender p hp]
      exact hr.symm
  have hsum : bytes s.calls.length pkts = c.size := by
    rw [bytes_of_chunks hall hsender, ← hks.sum_size, zero_add]
  have hlen : (s.withCall c st pkts).calls.length = s.calls.length + 1 := length_append
  constructor
  · intro p hp
    rw [hlen]
    rcases mem_append.1 hp with hp | hp
    · exact lt_succ_of_lt (h.sender p hp)
    · rw [hsender p hp]
      exact lt_succ_self _
  · intro p hp
    rcases mem_append.1 hp with hp | hp
    · exact h.pos p hp
    · exact pos_of_chunks hall hks.size_pos p hp
  · intro r
    by_cases hr : r = s.calls.length
    · subst hr
      have hst : (s.withCall c st pkts).states s.calls.length = some st := update_self ..
      have hzero := (account_none (h.fresh (le_refl _))).1 (h.account s.calls.length)
      rw [if_neg (lt_irrefl _)] at hzero
      rw [account_some hst, hlen]
      show _ ∧ st.totBytes = bytes _ (s.created ++ pkts) ∧ st.numBytes = bytes _ s.answered ∧ _ ∧ _ ∧
        (s.calls ++ [c])[s.calls.length]?.map Call.event = _
      rw [bytes_append, hold _ fun _ hp => hp, hold _ hans, hsum, htot, hnum, getElem?_concat_length, hevent]
      exact ⟨lt_succ_self _, (zero_add _).symm, rfl, hpos, hzero.1, rfl⟩
    · refine (h.account r).congr (update_of_ne hr ..) (by rw [hlen]; omega) (getElem?_append_left) ?_
        rfl rfl
      show bytes r (s.created ++ pkts) = _
      rw [bytes_append, hnew hr]
      rfl
  · intro e he
    show (s.calls ++ [c])[e.call]?.map Call.event = some e.event
    have hold := h.events e he
    obtain ⟨c', hc, -⟩ := map_eq_some_iff.1 hold
    rw [getElem?_append_left (List.getElem?_eq_some_iff.1 hc).1]
    exact hold
  · intro r c' hc
    have hc : (s.calls ++ [c])[r]? = some c' := hc
    show ∃ ks, _ ∧ Forall₂ (IsChunk c') ((s.created ++ pkts).filter fun p => p.senderState = r) ks
    rw [filter_append]
    by_cases hr : r < s.calls.length
    · rw [getElem?_append_left hr] at hc
      rw [filter_eq_nil (l := pkts) fun p hp => by rw [hsender p hp]; omega, append_nil]
      exact h.tiles hc
    · have hr : r = s.calls.length := by
        have := (List.getElem?_eq_some_iff.1 hc).1
        rw [length_append, length_singleton] at this
        omega
      subst hr
      rw [getElem?_concat_length] at hc
      obtain rfl := some.inj hc
      have hself : (pkts.filter fun p => p.senderState = s.calls.length) = pkts := by
        rw [filter_eq_self]
        intro p hp
        exact decide_eq_true (hsender p hp)
      rw [filter_eq_nil fun p hp => Nat.ne_of_lt (h.sender p hp), hself]
      exact ⟨ks, hks, hall⟩

theorem Flow.answered_created (h : s.Flow) : ∀ p ∈ s.answered, p ∈ s.created := fun _ hp =>
  (h.stock.exact.perm.mem_iff).2 (mem_append_right _ hp)

theorem Flow.out_created (h : s.Flow) : ∀ p ∈ s.outstanding, p ∈ s.created := fun _ hp =>
  (h.stock.exact.perm.mem_iff).2 (mem_append_left _ (mem_append_right _ hp))

structure Inv (s : System) : Prop where
  flow : s.Flow
  books : s.Books

theorem Inv.dmaAction (cfg : Config) (h : s.Inv) (haddr : c.addr < 2 ^ 64) (hpos : 0 < c.size)
    (hsize : c.size < 2 ^ 31) : ∃ t, s.dmaAction cfg c = .ok t ∧ t.Inv := by
  have hks := tiles_chunks haddr (lt_trans hsize (by decide)) cfg.power
  have hf := h.flow
  obtain ⟨t, pkts, ht, hflow, hframe, hall, hsender⟩ := Flow.queueChunks c
    (chunks c.addr c.size cfg.blockSize) (s := { s with
      states := update s.states s.calls.length
        (some { completionEvent := c.event, totBytes := c.size, numBytes := 0, delay := c.delay }),
      calls := s.calls ++ [c] }) hf.congr
  refine ⟨t, ht, hflow, .congr (h.books.withCall hf.answered_created hks hall ?_ hpos rfl rfl rfl) hframe⟩
  intro p hp
  rw [hsender p hp, length_append]
  rfl

theorem Inv.congr {t : System} (h : s.Inv) (hf : t.Flow) (hframe : Frame s t) : t.Inv := ⟨hf, h.books.congr hframe⟩

theorem Inv.signalDrain (h : s.Inv) : s.signalDrain.Inv := by
  unfold System.signalDrain
  split
  · split
    · exact h.congr h.flow.congr ⟨rfl, rfl, rfl, rfl, rfl⟩
    · exact h
  · exact h

/-- The packet is taken off, before the books are looked at. -/
def answeredBy (s : System) (pkt : Packet) : System :=
  { s with
    outstanding := s.outstanding.erase pkt, answered := s.answered ++ [pkt], backoffTime := s.backoffTime / 4,
    pendingCount := s.pendingCount - 1 }

theorem Flow.answeredBy (h : s.Flow) (hp : pkt ∈ s.outstanding) : (s.answeredBy pkt).Flow := by
  refine ⟨⟨h.stock.exact.finish hp, h.stock.fresh, ?_⟩, h.kicked, h.waits, h.owes⟩
  have hpos := length_pos_of_mem hp
  show s.pendingCount - 1 = (s.transmitList.length : Int) + (s.outstanding.erase pkt).length
  rw [h.stock.pending, length_erase_of_mem hp]
  omega

theorem Flow.bytes_created (h : s.Flow) (r : Nat) :
    bytes r s.created = bytes r (s.transmitList ++ s.outstanding) + bytes r s.answered :=
  (bytes_perm h.stock.exact.perm).trans bytes_append

theorem Inv.bytes_out (h : s.Inv) (hp : pkt ∈ s.outstanding) :
    bytes pkt.senderState s.answered + pkt.size ≤ bytes pkt.senderState s.created := by
  have hsize := size_le_bytes hp
  rw [h.flow.bytes_created, bytes_append]
  omega

theorem Inv.exists_state (h : s.Inv) (hp : pkt ∈ s.outstanding) : ∃ st, s.states pkt.senderState = some st := by
  cases hst : s.states pkt.senderState with
  | some st => exact ⟨st, rfl⟩
  | none =>
    have hc := h.flow.out_created pkt hp
    have hpos := h.books.pos pkt hc
    have hle := h.bytes_out hp
    have := ((account_none hst).1 (h.books.account _)).2 (h.books.sender pkt hc)
    omega

theorem bytes_other {r : Nat} (hr : r ≠ pkt.senderState) (l : List Packet) : bytes r (l ++ [pkt]) = bytes r l := by
  rw [bytes_append, bytes_cons, if_neg hr.symm]
  rfl

theorem bytes_self (pkt : Packet) (l : List Packet) :
    bytes pkt.senderState (l ++ [pkt]) = bytes pkt.senderState l + pkt.size := by
  rw [bytes_append, bytes_cons, if_pos rfl]
  rfl

theorem Books.progress (h : s.Books) (hst : s.states pkt.senderState = some st)
    (hlt : st.numBytes + pkt.size < st.totBytes) :
    Books { s.answeredBy pkt with
      states := update s.states pkt.senderState (some { st with numBytes := st.numBytes + pkt.size }) } := by
  refine ⟨h.sender, h.pos, fun r => ?_, h.events, h.tiles⟩
  by_cases hr : r = pkt.senderState
  · subst hr
    obtain ⟨h1, h2, h3, -, h5⟩ := (account_some hst).1 (h.account _)
    refine (account_some (q := { st with numBytes := st.numBytes + pkt.size }) (update_self ..)).2 ⟨h1, h2, ?_, hlt, h5⟩
    show st.numBytes + pkt.size = bytes pkt.senderState (s.answered ++ [pkt])
    rw [bytes_self, ← h3]
  · exact (h.account r).congr (update_of_ne hr ..) .rfl (fun _ => rfl) rfl (bytes_other hr _) rfl

theorem Books.complete (h : s.Books) (hst : s.states pkt.senderState = some st)
    (heq : st.totBytes = st.numBytes + pkt.size) (when : Nat) :
    Books { s.answeredBy pkt with
      states := update s.states pkt.senderState none,
      completed := s.completed ++ [⟨pkt.senderState, st.completionEvent, when⟩] } := by
  obtain ⟨hlt, htot, hnum, -, hzero, hev⟩ := (account_some hst).1 (h.account _)
  have hcount : ∀ r,
    ((s.completed ++ [Completion.mk pkt.senderState st.completionEvent when]).map Completion.call).count r =
      s.completions r + [pkt.senderState].count r := fun r => by
    rw [map_append, count_append]
    rfl
  refine ⟨h.sender, h.pos, fun r => ?_, fun e he => ?_, h.tiles⟩
  · by_cases hr : r = pkt.senderState
    · subst hr
      refine (account_none (update_self ..)).2 ⟨?_, fun _ => ?_⟩
      · exact (hcount _).trans (by rw [hzero, count_singleton_self]; exact (if_pos hlt).symm)
      · show bytes pkt.senderState s.created = bytes pkt.senderState (s.answered ++ [pkt])
        rw [bytes_self, ← htot, ← hnum, heq]
    · refine (h.account r).congr (update_of_ne hr ..) .rfl (fun _ => rfl) rfl (bytes_other hr _) ((hcount r).trans ?_)
      rw [count_singleton, if_neg (by simpa using Ne.symm hr), add_zero]
  · rcases mem_append.1 he with he | he
    · exact h.events e he
    · rw [mem_singleton.1 he]
      exact hev

theorem Inv.response (h : s.Inv) (hp : pkt ∈ s.outstanding) :
    ∃ t, recvResponse { s with outstanding := s.outstanding.erase pkt, answered := s.answered ++ [pkt] } pkt = .ok t ∧
      t.Inv := by
  have hflow := h.flow.answeredBy hp
  obtain ⟨st, hst⟩ := h.exists_state hp
  obtain ⟨-, htot, hnum, -⟩ := (account_some hst).1 (h.books.account _)
  have hle : st.numBytes + pkt.size ≤ st.totBytes := by
    rw [htot, hnum]
    exact h.bytes_out hp
  have hpend : 0 ≤ s.pendingCount - 1 := hflow.stock.pending_nonneg
  rw [recvResponse, ensure_bind hpend]
  simp only [hst]
  rw [ensure_bind hle]
  by_cases heq : st.totBytes = st.numBytes + pkt.size
  · rw [if_pos heq]
    exact ⟨_, rfl, signalDrain ⟨hflow.congr, h.books.complete hst heq _⟩⟩
  · rw [if_neg heq]
    have hlt : st.numBytes + pkt.size < st.totBytes := by omega
    exact ⟨_, rfl, signalDrain ⟨hflow.congr, h.books.progress hst hlt⟩⟩

end actions

/-! ## The steps -/

structure Exact (s : System) : Prop where
  /-- A packet is accepted once, and once more for each nack; where it waits, this is still to come. -/
  accepted : ∀ p ∈ s.created, s.accepted.count p = s.nacked.count p + if p ∈ s.transmitList then 0 else 1
  /-- It waits, is outstanding or is answered: none is skipped, or sent again while it is outstanding. -/
  place : ∀ p ∈ s.created, s.transmitList.count p + s.outstanding.count p + s.answered.count p = 1
  only : ∀ p ∈ s.transmitList ++ s.outstanding ++ s.answered, p ∈ s.created
  /-- The packets of a call are its chunks, which tile the region. -/
  chunks : ∀ {r c}, s.calls[r]? = some c →
    ∃ ks, Tiles c.addr c.size 0 ks ∧ Forall₂ (IsChunk c) (s.packetsOf r) ks
  /-- The completion event of a call is triggered once, when its packets have been answered. -/
  completion : ∀ r < s.calls.length, s.completions r = if ∀ p ∈ s.packetsOf r, p ∈ s.answered then 1 else 0
  events : ∀ e ∈ s.completed, s.calls[e.call]?.map Call.event = some e.event
  pending : s.pendingCount = (s.created.filter fun p => p ∉ s.answered).length
  kicked : s.transmitList ≠ [] → s.backoffEvent.isSome ∨ s.owesRetry

section exact

variable {s : System}

theorem Inv.init : Inv {} where
  flow := ⟨⟨⟨nodup_nil, fun _ => rfl, fun _ => rfl⟩, nofun, rfl⟩, nofun, nofun, rfl⟩
  books := ⟨nofun, nofun, fun _ => ⟨rfl, nofun⟩, nofun, nofun⟩

theorem Stock.not_answered (h : s.Stock) {p : Packet} (hp : p ∈ s.transmitList ++ s.outstanding) : p ∉ s.answered := by
  intro ha
  have hone : s.transmitList.count p + s.outstanding.count p + s.answered.count p = 1 :=
    h.exact.count_eq_one (h.exact.perm.mem_iff.2 (mem_append_left _ hp))
  have h1 : 0 < s.answered.count p := count_pos_iff.2 ha
  have h2 : 0 < (s.transmitList ++ s.outstanding).count p := count_pos_iff.2 hp
  rw [count_append] at h2
  omega

theorem Inv.all_answered (h : s.Inv) (r : Nat) :
    (∀ p ∈ s.packetsOf r, p ∈ s.answered) ↔ bytes r s.created = bytes r s.answered := by
  have hperm := h.flow.bytes_created r
  constructor
  · intro hall
    have hzero : bytes r (s.transmitList ++ s.outstanding) = 0 := by
      apply bytes_eq_zero
      intro p hp hr
      have hc : p ∈ s.created := (h.flow.stock.exact.perm.mem_iff).2 (mem_append_left _ hp)
      exact h.flow.stock.not_answered hp (hall p (mem_filter.2 ⟨hc, decide_eq_true hr⟩))
    omega
  · intro heq p hp
    obtain ⟨hc, hr⟩ := mem_filter.1 hp
    have hr : p.senderState = r := of_decide_eq_true hr
    by_contra ha
    rcases mem_append.1 ((h.flow.stock.exact.perm.mem_iff).1 hc) with hw | ha'
    · have hsize : p.size ≤ bytes p.senderState (s.transmitList ++ s.outstanding) := size_le_bytes hw
      rw [hr] at hsize
      have hpos := h.books.pos p hc
      omega
    · exact ha ha'

theorem Inv.exact (h : s.Inv) : s.Exact where
  accepted := fun p hp => h.flow.stock.exact.accepted_eq hp
  place := fun p hp => h.flow.stock.exact.count_eq_one hp
  only := fun p hp => (h.flow.stock.exact.perm.mem_iff).2 hp
  chunks := h.books.tiles
  completion := by
    intro r hr
    cases hst : s.states r with
    | none =>
      obtain ⟨h1, h2⟩ := (account_none hst).1 (h.books.account r)
      rw [if_pos ((h.all_answered r).2 (h2 hr)), h1, if_pos hr]
    | some st =>
      obtain ⟨-, h2, h3, h4, h5, -⟩ := (account_some hst).1 (h.books.account r)
      rw [if_neg, h5]
      intro hall
      have := (h.all_answered r).1 hall
      omega
  events := h.books.events
  pending := by
    have hperm := h.flow.stock.exact.perm
    have hlen := (hperm.filter fun p => decide (p ∉ s.answered)).length_eq
    have hall : ∀ p ∈ s.transmitList ++ s.outstanding, decide (p ∉ s.answered) := fun p hp =>
      decide_eq_true (h.flow.stock.not_answered hp)
    have hnone : s.answered.filter (fun p => decide (p ∉ s.answered)) = [] := by
      rw [filter_eq_nil_iff]
      intro p hp
      simpa using hp
    have hlen : (s.created.filter fun p => p ∉ s.answered).length =
        ((s.transmitList ++ s.outstanding ++ s.answered).filter fun p => p ∉ s.answered).length := hlen
    rw [hlen, filter_append, filter_eq_self.2 hall, hnone, append_nil, length_append]
    exact h.flow.stock.pending
  kicked := by
    rw [h.flow.owes]
    exact h.flow.kicked

end exact

end System

/-- When the backoff event is processed, a packet waits; and if no retry is awaited, more than one packet waits and
`backoffTime` is zero, then the memory system does not accept two packets in a row. -/
def Act.Sound (s : System) : Act → Prop
  | backoff answers => s.transmitList ≠ [] ∧
    (s.inRetry ∨ s.transmitList.length ≤ 1 ∨ s.backoffTime ≠ 0 ∨ ¬ [true, true] <+: answers)
  | _ => True

instance (s : System) : ∀ a : Act, Decidable (a.Sound s)
  | .backoff _ => inferInstanceAs (Decidable (_ ∧ _))
  | .dmaAction _ _ | .response _ | .nack _ | .retry _ | .time _ | .drain _ => inferInstanceAs (Decidable True)

namespace System

section steps

variable (cfg : Config) {s t : System} {pkt : Packet} {rest : List Packet}

/-- Every allowed and sound call ends, with the books right. -/
theorem Inv.step (h : s.Inv) {a : Act} (ha : a.Allowed s) (hsound : a.Sound s) :
    ∃ t, s.handle cfg a = .ok t ∧ t.Inv := by
  have hf := h.flow
  have hstock : ∀ {as : List Bool} {o : Bool} {b : Option Nat},
      Stock { s with answers := as, owesRetry := o, backoffEvent := b } :=
    ⟨hf.stock.exact, hf.stock.fresh, hf.stock.pending⟩
  have hframe : ∀ {as : List Bool} {o : Bool} {b : Option Nat},
      Frame s { s with answers := as, owesRetry := o, backoffEvent := b } := ⟨rfl, rfl, rfl, rfl, rfl⟩
  cases a with
  | dmaAction c answers =>
    obtain ⟨h1, h2, h3⟩ := ha
    exact dmaAction cfg (h.congr hf.congr hframe) h1 h2 h3
  | response pkt => exact h.response ha
  | nack pkt =>
    obtain ⟨t, ht, hflow, hfr⟩ := hf.recvNack cfg ha
    exact ⟨t, ht, h.congr hflow hfr⟩
  | retry answers =>
    have hne := hf.waits (hf.owes.symm.trans ha)
    obtain ⟨t, ht, hflow, hfr⟩ := Stock.recvRetry (s := { s with answers, owesRetry := false }) hstock hne rfl
    exact ⟨t, ht, h.congr hflow (hframe.trans hfr)⟩
  | backoff answers =>
    obtain ⟨hne, hone⟩ := hsound
    obtain ⟨t, ht, hflow, hfr⟩ := Stock.sendDma (s := { s with answers, backoffEvent := none }) hstock hf.owes hne
      (.inr hone)
    exact ⟨t, ht, h.congr hflow (hframe.trans hfr)⟩
  | time t => exact ⟨_, rfl, h.congr hf.congr ⟨rfl, rfl, rfl, rfl, rfl⟩⟩
  | drain de =>
    refine ⟨_, rfl, ?_⟩
    unfold drain
    split
    · exact h
    · exact h.congr hf.congr ⟨rfl, rfl, rfl, rfl, rfl⟩

theorem count_sendLoop (pkt : Packet) : ∀ (n : Nat) (s : System),
    s.outstanding.count pkt ≤ (sendLoop pkt n s).outstanding.count pkt ∧ (sendLoop pkt n s).created = s.created
  | 0, _ => ⟨le_refl _, rfl⟩
  | n + 1, s => by
    rw [sendLoop]
    by_cases ha : s.answers.head? = some true
    · obtain ⟨as, ha⟩ := head_true ha
      rw [sendTiming_true ha]
      dsimp only
      split
      · obtain ⟨h1, h2⟩ := count_sendLoop pkt n { s with
          answers := as, outstanding := s.outstanding ++ [pkt], accepted := s.accepted ++ [pkt],
          transmitList := s.transmitList.tail }
        rw [count_append] at h1
        exact ⟨by omega, h2⟩
      · exact ⟨by rw [count_append]; omega, rfl⟩
    · rw [sendTiming_false ha]
      exact ⟨le_refl _, rfl⟩

theorem count_sendLoop_two {n : Nat} (hl : s.transmitList = pkt :: rest)
    (hr : s.inRetry = false) (hrest : rest ≠ []) (h0 : s.backoffTime = 0) (ha : [true, true] <+: s.answers) :
    2 ≤ (sendLoop pkt (n + 2) s).outstanding.count pkt ∧ (sendLoop pkt (n + 2) s).created = s.created := by
  obtain ⟨as, ha⟩ := ha
  have ha : s.answers = true :: true :: as := ha.symm
  rw [sendLoop_passed hl hr ha, if_pos ⟨h0, hrest⟩, sendLoop, sendTiming_true rfl]
  have hout : 2 ≤ (s.outstanding ++ [pkt] ++ [pkt]).count pkt := by
    rw [count_append, count_append, count_singleton_self]
    omega
  dsimp only
  split
  · obtain ⟨h1, h2⟩ := count_sendLoop pkt n { s.passed pkt rest (true :: as) with
      answers := as, outstanding := s.outstanding ++ [pkt] ++ [pkt], accepted := s.accepted ++ [pkt] ++ [pkt],
      transmitList := rest.tail }
    exact ⟨le_trans hout h1, h2⟩
  · exact ⟨hout, rfl⟩

theorem sendDma_two (hl : s.transmitList = pkt :: rest)
    (hev : s.backoffEvent = none) (hr : s.inRetry = false) (hrest : rest ≠ []) (h0 : s.backoffTime = 0)
    (ha : [true, true] <+: s.answers) (ht : s.sendDma = .ok t) :
    2 ≤ t.outstanding.count pkt ∧ t.created = s.created := by
  have hlen : s.transmitList.length = rest.length - 1 + 2 := by
    have := length_pos_of_ne_nil hrest
    rw [hl, length_cons]
    omega
  have htwo := count_sendLoop_two (n := rest.length - 1) hl hr hrest h0 ha
  unfold sendDma at ht
  split at ht
  · next hl' => exact absurd (hl.symm.trans hl') (cons_ne_nil _ _)
  · next p l hl' =>
    obtain ⟨rfl, rfl⟩ := cons.inj (hl.symm.trans hl')
    rw [if_neg (by simp [hev, hr]), hlen] at ht
    obtain rfl := Except.ok.inj ht
    split
    · exact htwo
    · exact htwo

/-- A step that is not sound either stops the simulator or sends a packet twice. -/
theorem Inv.not_exact (h : s.Inv) {a : Act} (hsound : ¬ a.Sound s) (ht : s.handle cfg a = .ok t) : ¬ t.Exact := by
  cases a with
  | backoff answers =>
    have hsound : ¬ (_ ∧ _) := hsound
    cases hl : s.transmitList with
    | nil =>
      simp only [handle, sendDma, hl] at ht
      cases ht
    | cons pkt rest =>
      rw [hl] at hsound
      obtain ⟨hr, hone⟩ := not_or.1 fun h => hsound ⟨cons_ne_nil _ _, h⟩
      obtain ⟨hlen, hone⟩ := not_or.1 hone
      obtain ⟨h0, ha⟩ := not_or.1 hone
      have h0 := not_not.1 h0
      have ha := not_not.1 ha
      have hr := Bool.eq_false_iff.2 hr
      have hrest : rest ≠ [] := by
        rintro rfl
        exact hlen (le_refl 1)
      obtain ⟨htwo, hcreated⟩ := sendDma_two (s := { s with answers, backoffEvent := none }) hl rfl hr hrest h0 ha ht
      intro hex
      have hone := hex.place pkt (by rw [hcreated]; exact h.exact.only pkt (by simp [hl]))
      omega
  | _ => exact absurd trivial hsound

end steps

/-- In every run of sound steps, transfers are exact; and a further step stops the simulator or breaks this exactly if
it is not sound. -/
theorem exact_iff (cfg : Config) {as : List Act} {s : System}
    (h : Run (fun s a t => a.Sound s ∧ Step cfg s a t) {} as s) :
    s.Exact ∧ ∀ a : Act, a.Allowed s → ((∃ t, s.handle cfg a = .ok t ∧ t.Exact) ↔ a.Sound s) := by
  have hinv : s.Inv := by
    refine h.invariant .init fun hx hs => ?_
    obtain ⟨hsound, hallowed, hy⟩ := hs
    obtain ⟨t, ht, hinv⟩ := hx.step cfg hallowed hsound
    obtain rfl := Except.ok.inj (ht.symm.trans hy)
    exact hinv
  refine ⟨hinv.exact, fun a ha => ⟨?_, fun hsound => ?_⟩⟩
  · rintro ⟨t, ht, hex⟩
    by_contra hsound
    exact hinv.not_exact cfg hsound ht hex
  · obtain ⟨t, ht, hinv'⟩ := hinv.step cfg ha hsound
    exact ⟨t, ht, hinv'.exact⟩

def stepIf (cfg : Config) (P : System → Act → Prop) [∀ s a, Decidable (P s a)] (s : System) (a : Act) :
    Except Fault System := do
  ensure .assert (P s a)
  s.handle cfg a

def blocks64 : Config := ⟨64, 4, 16, .inr ⟨6, by decide, rfl⟩⟩

def readPacket (id addr call : Nat) : Packet := ⟨id, .ReadReq, addr, 64, none, call⟩

/-- Three chunks, of which the first is nacked once. -/
def nackedTransfer : List Act :=
  [.dmaAction ⟨.ReadReq, 0, 192, 7, none, 0⟩ [true, true, true], .nack (readPacket 0 0 0), .time 4, .backoff [true],
    .response (readPacket 1 64 0), .response (readPacket 0 0 0), .response (readPacket 2 128 0)]

theorem exact_nackedTransfer : ∃ s, Run (fun s a t => a.Sound s ∧ Step blocks64 s a t) {} nackedTransfer s ∧
    s.completed = [⟨0, 7, 4⟩] ∧ s.accepted.length = 4 ∧ s.Exact := by
  obtain ⟨s, hrun, h1, h2⟩ := Run.exists_of_check (stepIf blocks64 fun s a => a.Sound s ∧ a.Allowed s)
    (fun h => and_assoc.1 (of_ensure h)) {} nackedTransfer (fun s => s.completed = [⟨0, 7, 4⟩] ∧ s.accepted.length = 4)
    (by decide +kernel)
  exact ⟨s, hrun, h1, h2, (exact_iff blocks64 hrun).1⟩

/-- The first of three chunks is nacked, another chunk waits behind it, and two answers bring `backoffTime` to zero. -/
def decayedBackoff : List Act :=
  [.dmaAction ⟨.ReadReq, 0, 192, 7, none, 0⟩ [true, true, true], .nack (readPacket 0 0 0),
    .dmaAction ⟨.ReadReq, 256, 64, 8, none, 0⟩ [], .response (readPacket 1 64 0), .response (readPacket 2 128 0),
      .time 4]

/-- The backoff event sends the first packet twice and drops the second, which is never sent. -/
theorem skipped_decayedBackoff : ∃ s, Run (Step blocks64) {} (decayedBackoff ++ [.backoff [true, true]]) s ∧
    readPacket 3 256 1 ∈ s.created ∧ readPacket 3 256 1 ∉ s.transmitList ∧ readPacket 3 256 1 ∉ s.accepted ∧
    s.outstanding = [readPacket 0 0 0, readPacket 0 0 0] := by
  exact Run.exists_of_check (stepIf blocks64 fun s a => a.Allowed s) of_ensure _ _ _ (by decide +kernel)

end System

end M5.Dev
