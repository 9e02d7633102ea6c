import M5.Ruby.MIInvariant

/-!
# The L1 cache of MI_example keeps the invariant

What each event does in each state that the invariant allows, and that the invariant holds afterwards.
-/

namespace M5.Ruby.MIExample

open M5.Lib Function List Stage Controller

variable {ι : Type} [DecidableEq ι] {s s' : Block ι} {i j k : ι} {w : DataBlock → DataBlock}
  {d : Start} {v v' : DataBlock}

/-! ## Events -/

namespace Block

theorem trigger_stall_mandatory {q : L1.State} (e : Mandatory) (hs : (s.l1 i).getState = q)
    (hq : q = .IS ∨ q = .IM ∨ q = .MI ∨ q = .II) : (l1Cache i w).trigger e.event s = .ok s := by
  rcases hq with rfl | rfl | rfl | rfl <;> cases e <;> exact trigger_stall (congrArg Except.ok hs) rfl rfl

theorem trigger_stall_Fwd_GETX {q : L1.State} (hs : (s.l1 i).getState = q) (hq : q = .IS ∨ q = .IM) :
    (l1Cache i w).trigger .Fwd_GETX s = .ok s := by
  rcases hq with rfl | rfl <;> exact trigger_stall (congrArg Except.ok hs) rfl rfl

-- an event runs the actions of its rule
attribute [local simp] perform l1Cache l1Act setL1 L1.setState present ensure enqueueResponse forwarded Except.bind

theorem trigger_miss {e : Mandatory} {l : L1} (hl : s.l1 i = l) (ht : l.tbe = none) (hI : l.getState = .I)
    (he : e ≠ .Replacement) : ∃ q b, (q = .IS ∨ q = .IM) ∧ (l1Cache i w).trigger e.event s = .ok
      { s.setL1 i ⟨some ⟨q, b⟩, some { tbeState := q }⟩ with
        requestToDir := s.requestToDir ++ [forwarded .GETX i] } := by
  have hq : (l1Cache i w).getState s = .ok .I := by rw [← hI, ← hl]; rfl
  cases e with
  | Replacement => exact absurd rfl he
  | Load | Ifetch =>
    refine ⟨.IS, (l.entry.getD {}).dataBlk, .inl rfl, ?_⟩
    rw [trigger_rule hq rfl rfl]
    simp [ht, hl]
  | Store =>
    refine ⟨.IM, (l.entry.getD {}).dataBlk, .inr rfl, ?_⟩
    rw [trigger_rule hq rfl rfl]
    simp [ht, hl]

theorem trigger_drop {l : L1} (hl : s.l1 i = l) (ht : l.tbe = none) (hI : l.getState = .I) :
    (l1Cache i w).trigger .Replacement s = .ok (s.setL1 i {}) := by
  have hq : (l1Cache i w).getState s = .ok .I := by rw [← hI, ← hl]; rfl
  rw [trigger_rule hq rfl rfl]
  simp [ht, hl]

section holding

variable (hl : s.l1 i = { entry := some ⟨.M, v⟩ })

include hl

theorem trigger_storeHit : (l1Cache i w).trigger .Store s = .ok
    { s.setL1 i { entry := some ⟨.M, w v⟩ } with log := s.log ++ [.store i (w v)] } := by
  have hq : (l1Cache i w).getState s = .ok .M := by simp [hl]; rfl
  rw [trigger_rule hq rfl rfl]
  simp [hl]

theorem trigger_loadHit {e : L1.Event} (he : e = .Load ∨ e = .Ifetch) : (l1Cache i w).trigger e s = .ok
    { s.setL1 i { entry := some ⟨.M, v⟩ } with log := s.log ++ [.load i v] } := by
  have hq : (l1Cache i w).getState s = .ok .M := by simp [hl]; rfl
  rcases he with rfl | rfl <;> rw [trigger_rule hq rfl rfl] <;>
    simp [hl]

theorem trigger_put : (l1Cache i w).trigger .Replacement s = .ok
    { s.setL1 i { tbe := some ⟨.MI, v⟩ } with
      requestToDir := s.requestToDir ++ [{ type := .PUTX, requestor := .L1Cache i, dataBlk := v }] } := by
  have hq : (l1Cache i w).getState s = .ok .M := by simp [hl]; rfl
  rw [trigger_rule hq rfl rfl]
  simp [hl]

end holding

/-- The cache `i` sends the block to `j`, and is left with `l`. -/
def handOver (s : Block ι) (i j : ι) (v : DataBlock) (l : L1) : Block ι :=
  { s.setL1 i l with
    forwardToCache := update s.forwardToCache i (s.forwardToCache i).tail
    responseToCache := update s.responseToCache j (s.responseToCache j ++ [⟨.DATA, v⟩]) }

theorem trigger_handOver {f : List (RequestMsg ι)} (hl : s.l1 i = { entry := some ⟨.M, v⟩ })
    (hf : s.forwardToCache i = forwarded .GETX j :: f) :
    (l1Cache i w).trigger .Fwd_GETX s = .ok (s.handOver i j v { entry := some ⟨.I, v⟩ }) := by
  have hq : (l1Cache i w).getState s = .ok .M := by simp [hl]; rfl
  rw [trigger_rule hq rfl rfl]
  simp [hl, hf, handOver]

theorem trigger_handOver_putting {f : List (RequestMsg ι)} (hl : s.l1 i = { tbe := some ⟨.MI, v⟩ })
    (hf : s.forwardToCache i = forwarded .GETX j :: f) :
    (l1Cache i w).trigger .Fwd_GETX s = .ok (s.handOver i j v { tbe := some ⟨.II, v⟩ }) := by
  have hq : (l1Cache i w).getState s = .ok .MI := by simp [hl]; rfl
  rw [trigger_rule hq rfl rfl]
  simp [hl, hf, handOver]

theorem trigger_answer {e : L1.Event} {q : L1.State} (hl : (s.l1 i).Leaving q)
    (he : (e = .Writeback_Ack ∧ q = .MI) ∨ (e = .Writeback_Nack ∧ q = .II)) : (l1Cache i w).trigger e s = .ok
      { s.setL1 i {} with forwardToCache := update s.forwardToCache i (s.forwardToCache i).tail } := by
  obtain ⟨t, hl, ht⟩ := hl
  have hq : (l1Cache i w).getState s = .ok q := by simp [hl]; exact ht
  rcases he with ⟨rfl, rfl⟩ | ⟨rfl, rfl⟩ <;> rw [trigger_rule hq rfl rfl] <;>
    simp [hl]

theorem trigger_Data {r : List ResponseMsg} (hl : (s.l1 i).Pending)
    (hr : s.responseToCache i = ⟨.DATA, v⟩ :: r) : ∃ b a, (a = .load i v ∧ b = v ∨ a = .store i b) ∧
      (l1Cache i w).trigger .Data s = .ok { s.setL1 i { entry := some ⟨.M, b⟩ } with
        responseToCache := update s.responseToCache i r
        log := s.log ++ [a] } := by
  obtain ⟨e, t, hl, ht⟩ := hl
  rcases ht with ht | ht
  · refine ⟨v, .load i v, .inl ⟨rfl, rfl⟩, ?_⟩
    have hq : (l1Cache i w).getState s = .ok .IS := by simp [hl]; exact ht
    rw [trigger_rule hq rfl rfl]
    simp [hl, hr]
  · refine ⟨w v, .store i (w v), .inr rfl, ?_⟩
    have hq : (l1Cache i w).getState s = .ok .IM := by simp [hl]; exact ht
    rw [trigger_rule hq rfl rfl]
    simp [hl, hr]

end Block

/-! ## The invariant -/

/-- The invariant holds, for some stage and phases. -/
def Good (d : Start) (s : Block ι) : Prop := ∃ v st out, Inv d v st out s

namespace Inv

variable {st : Stage ι} {out : ι → Outside} {o o' : Outside} {x : Head} {rest : List ι}

section

variable (h : Inv d v st out s)

include h

theorem requestor_append {m : RequestMsg ι} (hm : m.requestor = .L1Cache i) :
    ∀ m' ∈ s.requestToDir ++ [m], ∃ i, m'.requestor = .L1Cache i := by
  intro m' hm'
  rcases mem_append.1 hm' with h' | h'
  · exact h.requestor m' h'
  · exact ⟨i, mem_singleton.1 h' ▸ hm⟩

theorem ask {q : L1.State} {b : DataBlock} (hi : st.phase out i = .outside .idle)
    (hq : q = .IS ∨ q = .IM) : Inv d v st (update out i .asking)
      { s.setL1 i ⟨some ⟨q, b⟩, some { tbeState := q }⟩ with
        requestToDir := s.requestToDir ++ [forwarded .GETX i] } := by
  have hc := h.cache i
  rw [hi, next_outside hi] at hc
  refine h.outside hi (fun k hk => ⟨?_, ?_, rfl, rfl⟩) ⟨?_, ?_, nofun, hc.forward, hc.response⟩ rfl rfl
    (h.requestor_append rfl) ⟨rfl, rfl⟩ rfl
  · exact update_of_ne hk _ _
  · exact requestsOf_append_of_ne fun e => hk (MachineID.L1Cache.inj e).symm
  · exact ⟨_, _, update_self .., hq⟩
  · rw [requestsOf_append_self rfl, map_append, hc.request]
    rfl

theorem drop (hi : st.phase out i = .outside .idle) :
    Inv d v st (update out i .idle) (s.setL1 i {}) := by
  have hc := h.cache i
  rw [hi, next_outside hi] at hc
  refine h.outside hi (fun k hk => ⟨?_, rfl, rfl, rfl⟩) ⟨?_, hc.request, nofun, hc.forward, hc.response⟩ rfl rfl
    h.requestor ⟨rfl, rfl⟩ rfl
  · exact update_of_ne hk _ _
  · simp only [Block.setL1, update_self]
    exact ⟨rfl, rfl⟩

theorem answered (hi : st.phase out i = .outside o) (ho : o = .acked ∨ o = .nacked) :
    Inv d v st (update out i .idle)
      { s.setL1 i {} with forwardToCache := update s.forwardToCache i (s.forwardToCache i).tail } := by
  have hc := h.cache i
  rw [hi, next_outside hi] at hc
  refine h.outside hi (fun k hk => ⟨?_, rfl, ?_, rfl⟩) ⟨?_, ?_, nofun, ?_, hc.response⟩ rfl rfl h.requestor
    ⟨rfl, rfl⟩ rfl
  · exact update_of_ne hk _ _
  · exact update_of_ne hk _ _
  · simp only [Block.setL1, update_self]
    exact ⟨rfl, rfl⟩
  · exact hc.request.trans (by rcases ho with rfl | rfl <;> rfl)
  · simp only [update_self, hc.forward]
    rcases ho with rfl | rfl <;> rfl

end

theorem hit {b : DataBlock} {a : Access ι} (h : Inv d v (.owned i x rest) out s) (hx : x = .coming ∨ x = .holding)
    (ha : a = .load i v ∧ b = v ∨ a = .store i b) : Inv d b (.owned i .holding rest) out
      { s.setL1 i { entry := some ⟨.M, b⟩ } with
        responseToCache := update s.responseToCache i []
        log := s.log ++ [a] } := by
  have hc := h.cache i
  rw [phase, if_pos rfl] at hc
  refine h.head (fun k hk => ⟨?_, rfl, rfl, ?_⟩) ⟨?_, ?_, by simp, ?_, ?_⟩ (by simp) rfl rfl h.requestor ⟨rfl, rfl⟩
    (fun hd => ?_) fun hd => ?_
  · exact update_of_ne hk _ _
  · exact update_of_ne hk _ _
  · simp only [Block.setL1, update_self]
    rfl
  · exact hc.request.trans (by rcases hx with rfl | rfl <;> rfl)
  · exact hc.forward.trans (by rcases hx with rfl | rfl <;> rfl)
  · simp only [update_self]
    rfl
  · simp only [lastStore_append, h.value hd]
    rcases ha with ⟨rfl, rfl⟩ | rfl <;> rfl
  · refine (h.loads hd).snoc fun j c hj => ?_
    rw [h.value hd]
    rcases ha with ⟨rfl, rfl⟩ | rfl <;> cases hj
    rfl

theorem put (h : Inv d v (.owned i .holding rest) out s) : Inv d v (.owned i .putting rest) out
    { s.setL1 i { tbe := some ⟨.MI, v⟩ } with
      requestToDir := s.requestToDir ++ [{ type := .PUTX, requestor := .L1Cache i, dataBlk := v }] } := by
  have hc := h.cache i
  rw [phase, if_pos rfl] at hc
  have hr : requestsOf i s.requestToDir = [] := map_eq_nil_iff.1 hc.request
  refine h.head (fun k hk => ⟨?_, ?_, rfl, rfl⟩) ⟨?_, ?_, ?_, hc.forward, hc.response⟩ (by simp) rfl rfl
    (h.requestor_append rfl) ⟨rfl, rfl⟩ h.value h.loads
  · exact update_of_ne hk _ _
  · exact requestsOf_append_of_ne fun e => hk (MachineID.L1Cache.inj e).symm
  · simp only [Block.setL1, update_self]
    rfl
  · rw [requestsOf_append_self rfl, hr]
    rfl
  · intro _ m hm
    rw [requestsOf_append_self rfl, hr] at hm
    rw [mem_singleton.1 hm]

theorem handOver {l : L1} (h : Inv d v (.owned i x (j :: rest)) out s) (hl : (Phase.outside o).Has v l)
    (hr : (Phase.outside o).request = (Phase.head x).request) (ha : (Phase.outside o).answer = (Phase.head x).answer)
    (hd : (Phase.head x).data v = []) :
    Inv d v (.owned j .coming rest) (update out i o) (s.handOver i j v l) where
  cache k := by
    have hn := (nodup_cons.1 h.ordered.1).1
    have hij : j ≠ i := fun e => hn (by simp [e])
    have hc := h.cache k
    rcases eq_or_ne k i with rfl | hk
    · rw [phase, if_pos rfl, Stage.next, after_head] at hc
      rw [phase, if_neg hij.symm, if_neg fun hm => hn (mem_cons_of_mem _ hm), update_self,
        Stage.next, after_of_notMem hn]
      refine ⟨?_, hc.request.trans (by rw [hr]), by simp, ?_, ?_⟩
      · simpa only [Block.handOver, Block.setL1, update_self] using hl
      · simp only [Block.handOver, Block.setL1, update_self, hc.forward, ha]
        rfl
      · simp only [Block.handOver, Block.setL1, update_of_ne hij.symm, hc.response, hd]
        rfl
    · rw [Stage.next, after_cons_of_ne hk] at hc
      rcases eq_or_ne k j with rfl | hkj
      · rw [phase, if_neg hk, if_pos (by simp)] at hc
        rw [phase, if_pos rfl]
        refine ⟨?_, hc.request, by simp, ?_, ?_⟩
        · simp only [Block.handOver, Block.setL1, update_of_ne hk]
          exact hc.has
        · simp only [Block.handOver, update_of_ne hk]
          exact hc.forward
        · simp only [Block.handOver, update_self, hc.response]
          rfl
      · have hp : phase (update out i o) (.owned j .coming rest) k
            = phase out (.owned i x (j :: rest)) k := by
          simp [phase, hk, hkj]
        rw [hp]
        refine hc.same ⟨?_, rfl, ?_, ?_⟩
        · simp only [Block.handOver, Block.setL1, update_of_ne hk]
        · simp only [Block.handOver, update_of_ne hk]
        · simp only [Block.handOver, update_of_ne hkj]
  dir := by
    obtain ⟨j', d', hj, hd⟩ := dirShows_owned.1 h.dir
    exact dirShows_owned.2 ⟨j', d', getLast?_cons_cons ▸ hj, hd⟩
  ordered := ⟨(nodup_cons.1 h.ordered.1).2, by simp⟩
  requestor := h.requestor
  noDMA := h.noDMA
  map := h.map
  cleared _ he := by cases he
  value := h.value
  loads := h.loads

theorem waits {p : Phase} {n : Option ι} (h : Shows v i n p s) (h1 : p ≠ .outside .idle) (h2 : p ≠ .head .holding) :
    ∃ q, (s.l1 i).getState = q ∧ (q = .IS ∨ q = .IM ∨ q = .MI ∨ q = .II) := by
  have hh := h.has
  refine ⟨_, rfl, ?_⟩
  rcases p with (_ | _ | _ | _ | _) | _ | _ | (_ | _ | _ | _) | _
  case outside.idle => exact absurd rfl h1
  case head.holding => exact absurd rfl h2
  case outside.asking | fetching | waiting | head.coming => exact (hh.getState).elim .inl (.inr ∘ .inl)
  case outside.acked | written => exact .inr (.inr (.inl (hh.getState)))
  case outside.handedOver | outside.nacked => exact .inr (.inr (.inr (hh.getState)))
  case head.putting | head.refused =>
    rw [hh]
    exact .inr (.inr (.inl rfl))

/-- The requests of the processor keep the invariant. -/
theorem mandatory (h : Inv d v st out s) (i : ι) (e : Mandatory) (w : DataBlock → DataBlock) :
    ∃ s', (Block.l1Cache i w).trigger e.event s = .ok s' ∧ Good d s' := by
  have hc := h.cache i
  by_cases h1 : st.phase out i = .outside .idle
  · rw [h1] at hc
    obtain ⟨ht, hI⟩ := hc.has
    by_cases he : e = .Replacement
    · subst he
      exact ⟨_, Block.trigger_drop rfl ht hI, v, st, _, h.drop h1⟩
    · obtain ⟨q, b, hq, hs⟩ := Block.trigger_miss rfl ht hI he
      exact ⟨_, hs, v, st, _, h.ask h1 hq⟩
  by_cases h2 : st.phase out i = .head .holding
  · rw [h2] at hc
    obtain ⟨rest, rfl⟩ := eq_owned h2
    -- nothing is on its way to the cache
    have hr : update s.responseToCache i [] = s.responseToCache := by
      rw [← show s.responseToCache i = [] from hc.response, update_eq_self]
    cases e with
    | Replacement => exact ⟨_, Block.trigger_put hc.has, v, _, _, h.put⟩
    | Store =>
      refine ⟨_, Block.trigger_storeHit hc.has, w v, .owned i .holding rest, out, ?_⟩
      have hh := h.hit (.inr rfl) (.inr (rfl : _ = Access.store i (w v)))
      rwa [hr] at hh
    | Load | Ifetch =>
      refine ⟨_, Block.trigger_loadHit hc.has (by decide), v, .owned i .holding rest, out, ?_⟩
      have hh := h.hit (.inr rfl) (.inl ⟨(rfl : _ = Access.load i v), rfl⟩)
      rwa [hr] at hh
  · obtain ⟨q, hs, hq⟩ := waits hc h1 h2
    exact ⟨s, Block.trigger_stall_mandatory e hs hq, v, st, out, h⟩

theorem forward_pending {n : Option ι} (hl : (s.l1 i).Pending)
    (hf : s.forwardToCache i = (n.map (forwarded .GETX)).toList) : s.forwardRequestNetworkIn i w = .ok s := by
  rw [Block.forwardRequestNetworkIn, hf]
  cases n with
  | none => rfl
  | some j => exact Block.trigger_stall_Fwd_GETX rfl (hl.getState)

theorem forward_head (h : Inv d v (.owned i x rest) out s) (w : DataBlock → DataBlock) :
    ∃ s', s.forwardRequestNetworkIn i w = .ok s' ∧ Good d s' := by
  have hc := h.cache i
  rw [phase, if_pos rfl, Stage.next] at hc
  rw [Block.forwardRequestNetworkIn, hc.forward]
  cases rest with
  | nil =>
    -- without a cache in line, nothing has been refused
    have hx : (Phase.head x).answer = none := by
      cases x with
      | refused => exact absurd rfl (h.ordered.2 rfl)
      | coming | holding | putting => rfl
    rw [hx]
    exact ⟨s, rfl, v, _, out, h⟩
  | cons j rest =>
    rw [after_head] at hc ⊢
    cases x with
    | coming => exact ⟨s, Block.trigger_stall_Fwd_GETX rfl (L1.Pending.getState hc.has), v, _, out, h⟩
    | holding =>
      exact ⟨_, Block.trigger_handOver hc.has hc.forward, v, _, _, h.handOver (o := .idle) ⟨rfl, rfl⟩ rfl rfl rfl⟩
    | putting =>
      exact ⟨_, Block.trigger_handOver_putting hc.has hc.forward, v, _, _,
        h.handOver (o := .handedOver) ⟨_, rfl, rfl⟩ rfl rfl rfl⟩
    | refused =>
      exact ⟨_, Block.trigger_handOver_putting hc.has hc.forward, v, _, _,
        h.handOver (o := .nacked) ⟨_, rfl, rfl⟩ rfl rfl rfl⟩

/-- The forwarded requests keep the invariant. -/
theorem forward (h : Inv d v st out s) (i : ι) (w : DataBlock → DataBlock) :
    ∃ s', s.forwardRequestNetworkIn i w = .ok s' ∧ Good d s' := by
  have hc := h.cache i
  cases hp : st.phase out i with
  | head x =>
    obtain ⟨rest, rfl⟩ := eq_owned hp
    exact h.forward_head w
  | fetching | waiting =>
    rw [hp] at hc
    exact ⟨s, forward_pending hc.has (hc.forward.trans (append_nil _)), v, st, out, h⟩
  | written =>
    rw [hp, next_eq_none (by rw [hp]; nofun) (by rw [hp]; nofun)] at hc
    rw [Block.forwardRequestNetworkIn, hc.forward]
    exact ⟨s, rfl, v, st, out, h⟩
  | outside o =>
    rw [hp, next_outside hp] at hc
    rw [Block.forwardRequestNetworkIn, hc.forward]
    cases o with
    | idle | asking | handedOver => exact ⟨s, rfl, v, st, out, h⟩
    | acked => exact ⟨_, Block.trigger_answer hc.has (.inl ⟨rfl, rfl⟩), v, st, _, h.answered hp (.inl rfl)⟩
    | nacked => exact ⟨_, Block.trigger_answer hc.has (.inr ⟨rfl, rfl⟩), v, st, _, h.answered hp (.inr rfl)⟩

/-- The responses keep the invariant. -/
theorem response (h : Inv d v st out s) (i : ι) (w : DataBlock → DataBlock) :
    ∃ s', s.responseNetworkIn i w = .ok s' ∧ Good d s' := by
  have hc := h.cache i
  by_cases h1 : st.phase out i = .head .coming
  · rw [h1] at hc
    obtain ⟨rest, rfl⟩ := eq_owned h1
    have hr : s.responseToCache i = [⟨.DATA, v⟩] := hc.response
    obtain ⟨b, a, ha, hs⟩ := Block.trigger_Data hc.has hr
    refine ⟨_, ?_, b, _, out, h.hit (.inl rfl) ha⟩
    rw [Block.responseNetworkIn, hr]
    exact hs
  · have hr : s.responseToCache i = [] := by
      refine hc.response.trans ?_
      rcases hp : st.phase out i with _ | _ | _ | (_ | _ | _ | _) | _
      case head.coming => exact absurd hp h1
      all_goals rfl
    rw [Block.responseNetworkIn, hr]
    exact ⟨s, rfl, v, st, out, h⟩

end Inv

end M5.Ruby.MIExample
