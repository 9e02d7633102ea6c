import M5.Ruby.MICache
import M5.Lib.Run

/-!
# MI_example is coherent
-/

namespace M5.Ruby.MIExample

open M5.Lib Function List Stage Controller

variable {ι : Type} [DecidableEq ι] {s s' : Block ι} {i j k : ι} {d : Start} {v v' : DataBlock}
  {m : RequestMsg ι} {l : List (RequestMsg ι)}

/-! ## Events -/

namespace Block

theorem trigger_recycle {q : Dir.State} {e : Dir.Event} (hd : s.dirState = q) (hs : s.dir.directoryState = q)
    (hq : q = .IM ∨ q = .MI) (he : e = .GETX ∨ e = .PUTX ∨ e = .PUTX_NotOwner) (hr : s.requestToDir = m :: l) :
    directory.trigger e s = .ok { s with requestToDir := l ++ [m] } := by
  have ht : s.dir.tbe.map (fun t => { t with tbeState := q }) = s.dir.tbe := by
    cases h : s.dir.tbe with
    | none => rfl
    | some t => rw [dirState, h] at hd; subst hd; rfl
  have h : (directory.trigger e s) = .ok { s with
      requestToDir := l ++ [m]
      dir := { s.dir with directoryState := q, tbe := s.dir.tbe.map (fun t => { t with tbeState := q }) } } := by
    rcases hq with rfl | rfl <;> rcases he with rfl | rfl | rfl <;>
      rw [trigger_rule (congrArg Except.ok hd) rfl rfl] <;>
      simp [perform, directory, dirAct, hr, setDirState, ensure, Except.bind]
  rw [h, ht, ← hs]

theorem enqueueForward_singleton (s : Block ι) (j : ι) (m : RequestMsg ι) : s.enqueueForward {.L1Cache j} m =
    { s with forwardToCache := update s.forwardToCache j (s.forwardToCache j ++ [m]) } := by
  rw [enqueueForward]
  congr 1
  funext k
  rcases eq_or_ne k j with rfl | hk
  · simp
  · simp [hk]

-- an event runs the actions of its rule
attribute [local simp] perform directory dirState dirAct setDirState invalidateBlock setDirTBE present ensure
  enqueueResponse
  enqueueForward_singleton forwarded Except.bind

theorem trigger_fetch (hd : s.dir = { dataBlk := v }) (hr : s.requestToDir = m :: l) (hm : m.requestor = .L1Cache j) :
    directory.trigger .GETX s = .ok { s with
      requestToDir := l
      dir := { directoryState := .IM, dataBlk := v, owner := {.L1Cache j} }
      memBuffer := s.memBuffer ++ [⟨.MEMORY_READ, some (.L1Cache j), v⟩] } := by
  have hq : directory.getState s = .ok .I := by simp [hd]
  rw [trigger_rule hq rfl rfl]
  simp [hr, hd, hm]

theorem trigger_nack (hd : (s.dir = { dataBlk := v } ∧ (s.useMap → v = fun _ => 0)) ∨
      s.dir = { directoryState := .M, dataBlk := v, owner := {.L1Cache k} })
    (hr : s.requestToDir = m :: l) (hm : m.requestor = .L1Cache j) :
    directory.trigger .PUTX_NotOwner s = .ok { s with
      requestToDir := l
      forwardToCache := update s.forwardToCache j (s.forwardToCache j ++ [forwarded .WB_NACK j]) } := by
  rcases hd with ⟨hd, hz⟩ | hd
  · have hq : directory.getState s = .ok .I := by simp [hd]
    rw [trigger_rule hq rfl rfl]
    cases hu : s.useMap with
    | false => simp [hr, hd, hm, hu]
    | true => simp [hr, hd, hm, hu, hz hu]
  · have hq : directory.getState s = .ok .M := by simp [hd]
    rw [trigger_rule hq rfl rfl]
    simp [hr, hd, hm]

section owned

variable (hd : s.dir = { directoryState := .M, dataBlk := v, owner := {.L1Cache i} })

include hd

theorem trigger_forward (hr : s.requestToDir = m :: l) (hm : m.requestor = .L1Cache j) (ht : m.type = .GETX) :
    directory.trigger .GETX s = .ok { s with
      requestToDir := l
      dir := { directoryState := .M, dataBlk := v, owner := {.L1Cache j} }
      forwardToCache := update s.forwardToCache i (s.forwardToCache i ++ [forwarded .GETX j]) } := by
  have hq : directory.getState s = .ok .M := by simp [hd]
  rw [trigger_rule hq rfl rfl]
  simp [hr, hd, hm, ht]

theorem trigger_writeback (hr : s.requestToDir = m :: l) : directory.trigger .PUTX s = .ok { s with
    requestToDir := l
    dir := { directoryState := .MI, dataBlk := m.dataBlk, tbe := some { tbeState := .MI, dataBlk := m.dataBlk } }
    memBuffer := s.memBuffer ++ [⟨.MEMORY_WB, some m.requestor, m.dataBlk⟩] } := by
  have hq : directory.getState s = .ok .M := by simp [hd]
  rw [trigger_rule hq rfl rfl]
  simp [hr, hd]

end owned

theorem trigger_Memory_Data (hd : s.dir = { directoryState := .IM, dataBlk := v, owner := {.L1Cache i} })
    (hm : s.memBuffer = [⟨.MEMORY_READ, some (.L1Cache i), v⟩]) : directory.trigger .Memory_Data s = .ok { s with
      dir := { directoryState := .M, dataBlk := v, owner := {.L1Cache i} }
      memBuffer := []
      responseToCache := update s.responseToCache i (s.responseToCache i ++ [⟨.DATA, v⟩]) } := by
  have hq : directory.getState s = .ok .IM := by simp [hd]
  rw [trigger_rule hq rfl rfl]
  simp [hm, hd]

theorem trigger_Memory_Ack {t : Dir.TBE} (ht : t.tbeState = .MI) (hl : t.len = 0)
    (hd : s.dir = { directoryState := .MI, dataBlk := v, tbe := some t })
    (hm : s.memBuffer = [⟨.MEMORY_WB, some (.L1Cache i), v⟩]) : directory.trigger .Memory_Ack s = .ok { s with
      dir := { dataBlk := if s.useMap then fun _ => 0 else v }
      memBuffer := []
      forwardToCache := update s.forwardToCache i (s.forwardToCache i ++ [forwarded .WB_ACK i]) } := by
  have hq : directory.getState s = .ok .MI := by simp [hd, ht]
  rw [trigger_rule hq rfl rfl]
  have hb : v.copyPartial t.dataBlk t.physicalAddress 0 = v := by
    funext a
    exact blit_of_not_mem (by omega)
  cases hu : s.useMap <;> simp [hm, hd, hl, hb, hu]

end Block

/-! ## The invariant -/

namespace Inv

variable {st : Stage ι} {out : ι → Outside} {o : Outside} {x : Head} {rest : List ι}

section

variable (h : Inv d v st out s)

include h

theorem requesting (hr : s.requestToDir = m :: l) : ∃ j, m.requestor = .L1Cache j ∧
    (st.phase out j).request = some m.type ∧ requestsOf j l = [] ∧
    (∀ k, k ≠ j → requestsOf k l = requestsOf k s.requestToDir) ∧ ∀ m' ∈ l, ∃ i, m'.requestor = .L1Cache i := by
  have hm := h.requestor
  rw [hr] at hm
  obtain ⟨j, hj⟩ := hm m (by simp)
  have hq := (h.cache j).request
  rw [hr, requestsOf_cons_self hj, map_cons] at hq
  refine ⟨j, hj, ?_⟩
  cases hp : (st.phase out j).request with
  | none => rw [hp] at hq; exact nomatch hq
  | some t =>
    rw [hp, Option.toList_some, cons.injEq] at hq
    refine ⟨by rw [hq.1], map_eq_nil_iff.1 hq.2, fun k hk => ?_, fun m' hm' => hm m' (by simp [hm'])⟩
    rw [hr, requestsOf_cons_of_ne]
    rw [hj]
    exact fun e => hk (MachineID.L1Cache.inj e).symm

theorem reorderRequests (hl : l.Perm s.requestToDir) :
    Inv d v st out { s with requestToDir := l } where
  cache k := by
    have hc := h.cache k
    have hp : (requestsOf k l).Perm (requestsOf k s.requestToDir) := hl.filter _
    refine ⟨hc.has, ?_, fun hk m hm => hc.put hk m (hp.mem_iff.1 hm), hc.forward, hc.response⟩
    have hq := hp.map (·.type)
    rw [hc.request] at hq
    generalize (st.phase out k).request = t at hq ⊢
    cases t with
    | none => exact perm_nil.1 hq
    | some t => exact perm_singleton.1 hq
  dir := h.dir
  ordered := h.ordered
  requestor m hm := h.requestor m (hl.mem_iff.1 hm)
  noDMA := h.noDMA
  map := h.map
  cleared := h.cleared
  value := h.value
  loads := h.loads

theorem reorderResponses {r : List ResponseMsg} (hr : r.Perm (s.responseToCache i)) :
    r = s.responseToCache i := by
  rw [(h.cache i).response] at hr ⊢
  generalize st.phase out i = p at hr ⊢
  rcases p with _ | _ | _ | (_ | _ | _ | _) | _
  case head.coming => exact perm_singleton.1 hr
  all_goals exact perm_nil.1 hr

theorem reorderMemory {r : List (MemoryMsg ι)} (hr : r.Perm s.memBuffer) : r = s.memBuffer := by
  have hd := h.dir
  generalize s.dir = e, s.memBuffer = b at hd hr ⊢
  cases hd with
  | quiet | owned => exact perm_nil.1 hr
  | writing | fetching => exact perm_singleton.1 hr

end

section first

variable (hl : requestsOf j l = []) (hk : ∀ k, k ≠ j → requestsOf k l = requestsOf k s.requestToDir)
  (hm : ∀ m' ∈ l, ∃ i, m'.requestor = .L1Cache i)

include hl hk hm

theorem fetch (h : Inv d v .quiet out s) (hj : out j = .asking) : Inv d v (.fetching j) out { s with
    requestToDir := l
    dir := { directoryState := .IM, dataBlk := v, owner := {.L1Cache j} }
    memBuffer := s.memBuffer ++ [⟨.MEMORY_READ, some (.L1Cache j), v⟩] } := by
  have hc := h.cache j
  rw [phase, hj] at hc
  refine h.move (fun k hkj => ⟨⟨rfl, hk k hkj, rfl, rfl⟩, rfl, if_neg hkj⟩) ?_ ?_ trivial hm ⟨rfl, rfl⟩ rfl
    (by intro he; cases he)
  · rw [phase, if_pos rfl]
    exact ⟨hc.has, by rw [hl]; rfl, by simp, hc.forward, hc.response⟩
  · exact dirShows_fetching.2 ⟨rfl, by rw [(dirShows_quiet.1 h.dir).2]; rfl⟩

theorem nackOutside (h : Inv d v st out s) (hj : st.phase out j = .outside .handedOver) :
    Inv d v st (update out j .nacked) { s with
      requestToDir := l
      forwardToCache := update s.forwardToCache j (s.forwardToCache j ++ [forwarded .WB_NACK j]) } := by
  have hc := h.cache j
  rw [hj, next_outside hj] at hc
  refine h.outside hj (fun k hkj => ⟨rfl, hk k hkj, update_of_ne hkj _ _, rfl⟩)
    ⟨hc.has, by rw [hl]; rfl, nofun, ?_, hc.response⟩ rfl rfl hm ⟨rfl, rfl⟩ rfl
  simp only [update_self, hc.forward]
  rfl

theorem nackHead (h : Inv d v (.owned j .putting rest) out s) (hr : rest ≠ []) :
    Inv d v (.owned j .refused rest) out { s with
      requestToDir := l
      forwardToCache := update s.forwardToCache j (s.forwardToCache j ++ [forwarded .WB_NACK j]) } := by
  have hc := h.cache j
  rw [phase, if_pos rfl, Stage.next] at hc
  refine h.head (fun k hkj => ⟨rfl, hk k hkj, update_of_ne hkj _ _, rfl⟩)
    ⟨hc.has, by rw [hl]; rfl, by simp, ?_, hc.response⟩ (fun _ => hr) rfl rfl hm ⟨rfl, rfl⟩ h.value h.loads
  simp only [update_self, hc.forward]
  simp [Phase.answer]

omit hl hk hm in
theorem answer_last (h : Inv d v (.owned i x rest) out s) (hlast : (i :: rest).getLast? = some k) :
    (phase out (.owned i x rest) k).answer = none := by
  have hk : k ∈ i :: rest := mem_of_getLast? hlast
  rw [phase]
  split_ifs with h1 h2
  · subst h1
    cases x with
    | coming | holding | putting => rfl
    | refused =>
      obtain ⟨a, r, hr⟩ := exists_cons_of_ne_nil (h.ordered.2 rfl)
      subst hr
      rw [getLast?_cons_cons] at hlast
      exact absurd (mem_of_getLast? hlast) (nodup_cons.1 h.ordered.1).1
  · rfl
  · exact absurd ((mem_cons.1 hk).resolve_left h1) h2

theorem join {b : DataBlock} (h : Inv d v (.owned i x rest) out s)
    (hj : phase out (.owned i x rest) j = .outside .asking) (hlast : (i :: rest).getLast? = some k)
    (hb : s.memBuffer = []) : Inv d v (.owned i x (rest ++ [j])) out { s with
      requestToDir := l
      dir := { directoryState := .M, dataBlk := b, owner := {.L1Cache j} }
      forwardToCache := update s.forwardToCache k (s.forwardToCache k ++ [forwarded .GETX j]) } := by
  have hn := h.ordered.1
  have hji : j ≠ i ∧ j ∉ rest := by
    rw [phase] at hj
    split_ifs at hj with h1 h2
    exact ⟨h1, h2⟩
  have hnj : j ∉ i :: rest := fun hm => (mem_cons.1 hm).elim hji.1 hji.2
  constructor
  case cache =>
    intro k'
    have hc := h.cache k'
    rw [Stage.next, ← cons_append, after_concat hn]
    rcases eq_or_ne k' j with rfl | hkj
    · have hne : k' ≠ k := fun e => hnj (e ▸ mem_of_getLast? hlast)
      rw [hj, Stage.next, after_of_notMem hnj] at hc
      rw [if_neg fun e => hnj (mem_of_getLast? e), after_of_notMem hnj, phase, if_neg hji.1,
        if_pos (by simp)]
      exact ⟨hc.has, by rw [hl]; rfl, by simp, (update_of_ne hne _ _).trans hc.forward, hc.response⟩
    · have hp : phase out (.owned i x (rest ++ [j])) k' = phase out (.owned i x rest) k' := by
        simp [phase, hkj]
      rw [hp]
      rcases eq_or_ne k' k with rfl | hne
      · rw [Stage.next, after_getLast hn hlast] at hc
        rw [if_pos hlast]
        refine ⟨hc.has, by rw [hk _ hkj]; exact hc.request, ?_, ?_, hc.response⟩
        · rw [hk _ hkj]
          exact hc.put
        · simp only [update_self, hc.forward, h.answer_last hlast]
          rfl
      · rw [if_neg fun e => hne (Option.some.inj (e.symm.trans hlast))]
        exact hc.same ⟨rfl, hk k' hkj, update_of_ne hne _ _, rfl⟩
  case dir => exact dirShows_owned.2 ⟨j, b, by rw [← cons_append]; exact getLast?_concat, rfl, hb⟩
  case ordered =>
    refine ⟨?_, fun _ => by simp⟩
    rw [← concat_eq_append]
    exact (nodup_concat _ _).2 ⟨hnj, hn⟩
  case requestor => exact hm
  case noDMA => exact h.noDMA
  case map => exact h.map
  case cleared =>
    intro _ he
    cases he
  case value => exact h.value
  case loads => exact h.loads

theorem writeback (h : Inv d v (.owned j .putting []) out s) (t : Dir.TBE) (ht : t.tbeState = .MI) (htl : t.len = 0) :
    Inv d v (.writing j) out { s with
      requestToDir := l
      dir := { directoryState := .MI, dataBlk := v, tbe := some t }
      memBuffer := [⟨.MEMORY_WB, some (.L1Cache j), v⟩] } := by
  have hc := h.cache j
  rw [phase, if_pos rfl] at hc
  refine h.move (fun k hkj => ⟨⟨rfl, hk k hkj, rfl, rfl⟩, rfl, ?_⟩) ?_ (dirShows_writing.2 ⟨t, ht, htl, rfl, rfl⟩)
    trivial
    hm ⟨rfl, rfl⟩ rfl (by intro he; cases he)
  · simp [phase, hkj]
  · rw [phase, if_pos rfl]
    exact ⟨⟨_, hc.has, rfl⟩, by rw [hl]; rfl, by simp, hc.forward, hc.response⟩

end first

theorem request_cases {p : Phase} {t : CoherenceRequestType} (h : p.request = some t) :
    (p = .outside .asking ∧ t = .GETX) ∨ (p = .outside .handedOver ∧ t = .PUTX) ∨ (p = .head .putting ∧ t = .PUTX) := by
  rcases p with (_ | _ | _ | _ | _) | _ | _ | (_ | _ | _ | _) | _ <;> cases h <;> simp

theorem recycle {q : Dir.State} (h : Inv d v st out s) (hr : s.requestToDir = m :: l) (hd : s.dirState = q)
    (hs : s.dir.directoryState = q) (hq : q = .IM ∨ q = .MI) :
    ∃ s', s.requestQueueIn = .ok s' ∧ Good d s' := by
  obtain ⟨j, -, hp, -⟩ := h.requesting hr
  have hg : Good d { s with requestToDir := l ++ [m] } :=
    ⟨v, st, out, h.reorderRequests (by rw [hr]; exact perm_append_singleton m l)⟩
  refine ⟨_, ?_, hg⟩
  rw [Block.requestQueueIn, hr]
  rcases request_cases hp with ⟨-, ht⟩ | ⟨-, ht⟩ | ⟨-, ht⟩ <;> simp only [ht]
  · exact Block.trigger_recycle hd hs hq (.inl rfl) hr
  all_goals exact Block.trigger_recycle hd hs hq (by split_ifs <;> simp) hr

theorem request_owned (h : Inv d v (.owned i x rest) out s) (hr : s.requestToDir = m :: l) :
    ∃ s', s.requestQueueIn = .ok s' ∧ Good d s' := by
  obtain ⟨j, hj, hp, hl, hk, hm⟩ := h.requesting hr
  obtain ⟨k, b, hlast, hd, hb⟩ := dirShows_owned.1 h.dir
  have howner : m.requestor ∈ s.dir.owner ↔ j = k := by simp [hj, hd]
  rw [Block.requestQueueIn, hr]
  rcases request_cases hp with ⟨hp, ht⟩ | ⟨hp, ht⟩ | ⟨hp, ht⟩ <;> simp only [ht]
  · exact ⟨_, Block.trigger_forward hd hr hj ht, v, _, out, h.join hl hk hm hp hlast hb⟩
  · -- a cache outside the line is not the owner
    have hne : j ≠ k := by
      rintro rfl
      rw [phase] at hp
      split_ifs at hp with h1 h2
      exact (mem_cons.1 (mem_of_getLast? hlast)).elim h1 h2
    rw [if_neg (howner.not.2 hne)]
    exact ⟨_, Block.trigger_nack (.inr hd) hr hj, v, _, _, h.nackOutside hl hk hm hp⟩
  · obtain ⟨rest', he⟩ := eq_owned hp
    cases he
    have hc := h.cache i
    rw [phase, if_pos rfl] at hc
    cases rest with
    | nil =>
      cases hlast
      rw [if_pos (howner.2 rfl)]
      refine ⟨_, Block.trigger_writeback hd hr, v, .writing i, out, ?_⟩
      have hv : m.dataBlk = v := hc.put rfl m (by rw [hr, requestsOf_cons_self hj]; simp)
      have hw := h.writeback hl hk hm { tbeState := .MI, dataBlk := v } rfl rfl
      simpa only [hv, hj, hb, nil_append] using hw
    | cons a rest =>
      have hne : i ≠ k := by
        rintro rfl
        exact (nodup_cons.1 h.ordered.1).1 (mem_of_getLast? hlast)
      rw [if_neg (howner.not.2 hne)]
      exact ⟨_, Block.trigger_nack (.inr hd) hr hj, v, _, out, h.nackHead hl hk hm (by simp)⟩

/-- The requests to the directory keep the invariant. -/
theorem request (h : Inv d v st out s) : ∃ s', s.requestQueueIn = .ok s' ∧ Good d s' := by
  cases hr : s.requestToDir with
  | nil =>
    rw [Block.requestQueueIn, hr]
    exact ⟨s, rfl, v, st, out, h⟩
  | cons m l =>
    cases st with
    | owned i x rest => exact h.request_owned hr
    | fetching i =>
      have hd := (dirShows_fetching.1 h.dir).1
      exact h.recycle hr (by rw [Block.dirState, hd]) (by rw [hd]) (.inl rfl)
    | writing i =>
      obtain ⟨t, ht, -, hd, -⟩ := dirShows_writing.1 h.dir
      exact h.recycle hr (by rw [Block.dirState, hd]; exact ht) (by rw [hd]) (.inr rfl)
    | quiet =>
      have hd := (dirShows_quiet.1 h.dir).1
      obtain ⟨j, hj, hp, hl, hk, hm⟩ := h.requesting hr
      rw [Block.requestQueueIn, hr]
      rcases request_cases hp with ⟨hp, ht⟩ | ⟨hp, ht⟩ | ⟨hp, ht⟩ <;> simp only [ht]
      · exact ⟨_, Block.trigger_fetch hd hr hj, v, _, out, h.fetch hl hk hm (Phase.outside.inj hp)⟩
      · rw [if_neg (by simp [hd])]
        exact ⟨_, Block.trigger_nack (k := j) (.inl ⟨hd, fun hu => h.cleared (h.map ▸ hu) rfl⟩) hr hj, v, _, _,
          h.nackOutside hl hk hm hp⟩
      · exact nomatch hp

theorem sendData (h : Inv d v (.fetching i) out s) : Inv d v (.owned i .coming []) out { s with
    dir := { directoryState := .M, dataBlk := v, owner := {.L1Cache i} }
    memBuffer := []
    responseToCache := update s.responseToCache i (s.responseToCache i ++ [⟨.DATA, v⟩]) } := by
  have hc := h.cache i
  rw [phase, if_pos rfl] at hc
  refine h.move (fun k hk => ⟨⟨rfl, rfl, rfl, update_of_ne hk _ _⟩, rfl, ?_⟩) ?_
    (dirShows_owned.2 ⟨i, v, rfl, rfl, rfl⟩)
    ⟨nodup_singleton i, by simp⟩ h.requestor ⟨rfl, rfl⟩ rfl (by intro he; cases he)
  · simp [phase, hk]
  · rw [phase, if_pos rfl]
    refine ⟨hc.has, hc.request, by simp, hc.forward, ?_⟩
    simp only [update_self, hc.response]
    rfl

/-- The directory forgets the entry of a map, and the value with it: no cache has the block. -/
theorem sendAck (h : Inv d v (.writing i) out s) (hv : v' = if s.useMap then fun _ => 0 else v) :
    Inv d v' .quiet (update out i .acked) { s with
      dir := { dataBlk := v' }
      memBuffer := []
      forwardToCache := update s.forwardToCache i (s.forwardToCache i ++ [forwarded .WB_ACK i]) } where
  cache k := by
    have hc : Shows v' k none (phase out (.writing i) k) s :=
      (h.cache k).anyValue fun x => by rw [phase]; split_ifs <;> simp
    rw [phase] at hc
    rcases eq_or_ne k i with rfl | hk
    · rw [if_pos rfl] at hc
      rw [phase, update_self]
      refine ⟨hc.has, hc.request, by simp, ?_, hc.response⟩
      simp only [update_self, hc.forward]
      rfl
    · rw [if_neg hk] at hc
      rw [phase, update_of_ne hk]
      exact hc.same ⟨rfl, rfl, update_of_ne hk _ _, rfl⟩
  dir := .quiet
  ordered := trivial
  requestor := h.requestor
  noDMA := h.noDMA
  map := h.map
  cleared hd _ := by rw [hv, h.map, if_pos hd]
  value hd := by rw [hv, h.map, hd]; exact h.value hd
  loads := h.loads

/-- The answers of the memory keep the invariant. -/
theorem memory (h : Inv d v st out s) : ∃ s', s.memQueueIn = .ok s' ∧ Good d s' := by
  cases st with
  | quiet =>
    rw [Block.memQueueIn, (dirShows_quiet.1 h.dir).2]
    exact ⟨s, rfl, v, _, out, h⟩
  | owned i x rest =>
    obtain ⟨k, b, -, -, hb⟩ := dirShows_owned.1 h.dir
    rw [Block.memQueueIn, hb]
    exact ⟨s, rfl, v, _, out, h⟩
  | fetching i =>
    obtain ⟨hd, hb⟩ := dirShows_fetching.1 h.dir
    rw [Block.memQueueIn, hb]
    exact ⟨_, Block.trigger_Memory_Data hd hb, v, _, out, h.sendData⟩
  | writing i =>
    obtain ⟨t, ht, hl, hd, hb⟩ := dirShows_writing.1 h.dir
    rw [Block.memQueueIn, hb]
    exact ⟨_, Block.trigger_Memory_Ack ht hl hd hb, _, _, _, h.sendAck rfl⟩

end Inv

/-! ## Coherence -/

variable {ι : Type} [DecidableEq ι] {s s' : Block ι} {i j : ι} {d : Start} {v : DataBlock}

/-- Every admitted label has a transition, which keeps the invariant. -/
theorem Inv.step {st : Stage ι} {out : ι → Outside} (h : Inv d v st out s) {l : Label ι} (hl : s.Admits l) :
    ∃ s', s.handle l = .ok s' ∧ Good d s' := by
  cases l with
  | mandatory i e w => exact h.mandatory i e w
  | forward i w => exact h.forward i w
  | response i w => exact h.response i w
  | request => exact h.request
  | memory => exact h.memory
  | dmaRequest =>
    rw [Block.handle, Block.dmaRequestQueueIn, h.noDMA]
    exact ⟨s, rfl, v, st, out, h⟩
  | reorderRequests l => exact ⟨_, rfl, v, st, out, h.reorderRequests hl⟩
  | reorderResponses i l =>
    refine ⟨_, rfl, v, st, out, ?_⟩
    rw [h.reorderResponses hl, update_eq_self]
    exact h
  | reorderMemory l =>
    refine ⟨_, rfl, v, st, out, ?_⟩
    rw [h.reorderMemory hl]
    exact h

/-- At the start no cache has a block. -/
def System.init (d : Nat → Start) : System ι := fun a => .init (d a)

/-- Every block keeps the invariant on a run. -/
theorem good_run {d : Nat → Start} {s : System ι} {ls : List (Nat × Label ι)} (h : Run Step (.init d) ls s) :
    ∀ a, Good (d a) (s a) := by
  refine h.invariant (I := fun s => ∀ a, Good (d a) (s a)) (fun a => ⟨_, _, _, .init (d a)⟩) ?_
  intro x l y hx hs a
  obtain ⟨b, ⟨hadm, hb⟩, rfl⟩ := hs
  rcases eq_or_ne a l.1 with rfl | ha
  · obtain ⟨v, st, out, hinv⟩ := hx l.1
    obtain ⟨b', hb', hg⟩ := hinv.step hadm
    rw [hb] at hb'
    cases hb'
    rwa [update_self]
  · rw [update_of_ne ha]
    exact hx a

namespace Block

def state (s : Block ι) (i : ι) : L1.State := (s.l1 i).getState

/-- The cache is going to answer a forwarded request with the block. -/
def Supplies (s : Block ι) (i : ι) : Prop :=
  (s.state i = .M ∨ s.state i = .MI ∨ s.state i = .MII) ∧ ∃ m ∈ s.forwardToCache i, m.type = .GETX

end Block

theorem Shows.eq_holding {n : Option ι} {p : Phase} (h : Shows v i n p s) (hM : s.state i = .M) :
    p = .head .holding := by
  by_contra hp
  have h1 : p ≠ .outside .idle := by
    rintro rfl
    exact nomatch hM.symm.trans h.has.2
  obtain ⟨q, hq, hqs⟩ := Inv.waits h h1 hp
  obtain rfl : .M = q := hM.symm.trans hq
  exact absurd hqs (by decide)

namespace Inv

variable {st : Stage ι} {out : ι → Outside}

theorem stage_of_M (h : Inv d v st out s) (hM : s.state i = .M) : ∃ rest, st = .owned i .holding rest :=
  eq_owned ((h.cache i).eq_holding hM)

theorem responses_of_holding {rest : List ι} (h : Inv d v (.owned i .holding rest) out s) (j : ι) :
    s.responseToCache j = [] := by
  rw [(h.cache j).response, phase]
  split_ifs <;> rfl

theorem not_supplies {rest : List ι} (h : Inv d v (.owned i .holding rest) out s) (hj : j ≠ i) : ¬ s.Supplies j := by
  rintro ⟨hs, m, hm, ht⟩
  have hc := h.cache j
  rw [phase, if_neg hj] at hc
  split_ifs at hc with hr
  · rcases L1.Pending.getState hc.has with hq | hq <;> rw [Block.state, hq] at hs <;> exact absurd hs (by decide)
  · have hn : Stage.next (.owned i .holding rest) j = none :=
      after_of_notMem fun hm => (mem_cons.1 hm).elim hj hr
    -- without a cache after it, only answers to its own writeback are on their way to it
    rw [hc.forward, hn] at hm
    cases ho : out j <;> rw [ho] at hm
    case idle | asking | handedOver => cases hm
    case acked | nacked =>
      obtain rfl := mem_singleton.1 hm
      cases ht

end Inv

/-- In every state that is reached, for every block: at most one cache is in M; when one is, no data is under way, no
other cache is going to supply the block, and memory neither reads it nor would; every event that is triggered has a
transition, and no assertion on its way fails; and if the directory has no map, every load has returned what the last
store left. -/
theorem coherent {d : Nat → Start} {s : System ι} {ls : List (Nat × Label ι)} (h : Run Step (.init d) ls s)
    (a : Nat) :
    (∀ i j, (s a).state i = .M → (s a).state j = .M → i = j) ∧
    (∀ i, (s a).state i = .M → (∀ j, (s a).responseToCache j = []) ∧ (∀ j, j ≠ i → ¬ (s a).Supplies j) ∧
      (s a).dirState = .M ∧ (s a).memBuffer = []) ∧
    ((d a).useMap = false → LoadsRead (d a).ram (s a).log) ∧
    ∀ l, (s a).Admits l → ∃ b, (s a).handle l = .ok b := by
  obtain ⟨v, st, out, hinv⟩ := good_run h a
  refine ⟨fun i j hi hj => ?_, fun i hi => ?_, hinv.loads, fun l hl => ?_⟩
  · obtain ⟨r, rfl⟩ := hinv.stage_of_M hi
    obtain ⟨r', he⟩ := hinv.stage_of_M hj
    cases he
    rfl
  · obtain ⟨r, rfl⟩ := hinv.stage_of_M hi
    obtain ⟨k, b, -, hd, hb⟩ := dirShows_owned.1 hinv.dir
    exact ⟨hinv.responses_of_holding, fun j hj => hinv.not_supplies hj, by rw [Block.dirState, hd], hb⟩
  · obtain ⟨b, hb, -⟩ := hinv.step hl
    exact ⟨b, hb⟩

theorem run_of_block {s : System ι} {a : Nat} {ls : List (Label ι)} {b : Block ι} (h : Run Block.Step (s a) ls b) :
    Run Step s (ls.map (a, ·)) (update s a b) := by
  induction h with
  | nil =>
    rw [update_eq_self]
    exact .nil
  | snoc _ hs ih =>
    rw [map_append]
    refine ih.snoc ⟨_, ?_, (update_idem ..).symm⟩
    rwa [update_self]

/-- Input ports are handled one after the other. -/
theorem run_of_handle {s : System ι} {a : Nat} (ls : List (Label ι)) {b : Block ι}
    (hl : ∀ l ∈ ls, ∀ t : Block ι, t.Admits l) (h : ls.foldlM Block.handle (s a) = .ok b) :
    Run Step s (ls.map (a, ·)) (update s a b) :=
  run_of_block (((Run.of_foldlM h).restrict hl).mono fun h => ⟨h.1 _, h.2⟩)

/-- The cache gets the block and accesses it; a store writes ones. -/
def fetched (i : Bool) (e : Mandatory) (source : Label Bool) : List (Label Bool) :=
  [.mandatory i e id, .request, source, .response i fun _ _ => 1]

/-- One of two caches stores to the block; then the other loads what it stored, and it alone is in M. -/
theorem coherent_store : ∃ s : System Bool, (∃ ls, Run Step (.init fun _ => { ram := fun _ => 0 }) ls s) ∧
    (s 0).log = [.store true fun _ => 1, .load false fun _ => 1] ∧ LoadsRead (fun _ => 0) (s 0).log ∧
    (s 0).state false = .M ∧ ∀ j, (s 0).state j = .M → false = j := by
  have hr := run_of_handle (s := .init fun _ => { ram := fun _ => 0 }) (a := 0)
    (fetched true .Store .memory ++ fetched false .Load (.forward true id)) (by simp [fetched, Block.Admits]) rfl
  obtain ⟨hM, -, hl, -⟩ := coherent hr 0
  exact ⟨_, ⟨_, hr⟩, rfl, hl rfl, rfl, fun j hj => hM false j rfl hj⟩

/-- With a map, a cache stores to the block, writes it back and loads it again: it gets zeros. -/
theorem store_lost : ∃ s : System Bool,
    (∃ ls, Run Step (.init fun _ => { useMap := true, ram := fun _ => 0 }) ls s) ∧
    (s 0).log = [.store true fun _ => 1, .load true fun _ => 0] ∧ ¬ LoadsRead (fun _ => 0) (s 0).log := by
  have hr := run_of_handle (s := .init fun _ => { useMap := true, ram := fun _ => 0 }) (a := 0)
    (fetched true .Store .memory ++ [.mandatory true .Replacement id, .request, .memory, .forward true id] ++
      fetched true .Load .memory) (by simp [fetched, Block.Admits]) rfl
  refine ⟨_, ⟨_, hr⟩, rfl, fun h => ?_⟩
  have h0 := congrFun (h [.store true fun _ => 1] true (fun _ => 0) [] rfl) 0
  cases h0

end M5.Ruby.MIExample
