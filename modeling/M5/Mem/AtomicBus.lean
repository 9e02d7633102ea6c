import M5.Mem.Cache.Cache
import M5.Mem.Physical
import M5.Mem.Cache.Copies
import M5.Mem.PhysicalLLSC

/-!
# Atomic accesses through caches and a bus

`Cache::atomicAccess` of `mem/cache/cache_impl.hh` and `Bus::recvAtomic` of `mem/bus.cc`, for caches whose memory sides
are on one bus over one physical memory. An atomic access runs to its end before the next one starts: a miss sends a
packet over the bus, the bus passes it to every other cache in turn and then to memory, and the writebacks of the fill
follow. An address outside the memory has no destination on the bus.
-/

namespace M5.Mem

open M5.Lib Function Packet Bool

section

/-- The caches on a bus, with one block size, and the order in which the bus snoops their ports. -/
structure Topology (ι : Type) where
  tags : ι → TagStore
  blkSize : Nat
  snoopPorts : List ι
  blkSize_eq (i : ι) : (tags i).blkSize = blkSize
  nodup : snoopPorts.Nodup
  complete (i : ι) : i ∈ snoopPorts

structure System {ι : Type} (top : Topology ι) where
  caches : (i : ι) → Cache (top.tags i)
  mem : PhysicalMemory

def Packet.copyError (pkt err : Packet) : Except Fault Packet := do
  ensure .assert err.cmd.isError
  .ok { pkt with cmd := err.cmd }

namespace System

variable {ι : Type} [DecidableEq ι] {top : Topology ι}

def init (top : Topology ι) (mem : PhysicalMemory) : System top := { caches := fun i => .init (top.tags i), mem }

variable (s : System top) (i : ι) (pkt : Packet)

def setCache (c : Cache (top.tags i)) : System top :=
  { s with caches := update s.caches i c }

/-- What the snoop loop of `Bus::recvAtomic` carries: the caches, the packet, and `snoop_response_cmd`. -/
structure Snooping (top : Topology ι) where
  caches : (i : ι) → Cache (top.tags i)
  pkt : Packet
  respCmd : MemCmd

/-- One turn of the snoop loop: a response is put aside, and the packet goes on with its original command. -/
def snoopPort (origCmd : MemCmd) (src : ι) (st : Snooping top) (p : ι) : Except Fault (Snooping top) :=
  if p = src then .ok st
  else do
    let (c, pkt) ← (st.caches p).snoopAtomic st.pkt
    let caches := update st.caches p c
    if pkt.isResponse then do
      ensure .assert (pkt.cmd ≠ origCmd)
      ensure .assert pkt.memInhibit
      ensure .assert (st.respCmd = .InvalidCmd)
      .ok ⟨caches, { pkt with cmd := origCmd }, pkt.cmd⟩
    else .ok ⟨caches, pkt, st.respCmd⟩

/-- `Bus::recvAtomic` for a packet of the cache `src`. -/
def recvAtomic (src : ι) (pkt : Packet) : Except Fault (System top × Packet) := do
  ensure .assert pkt.isRequest
  let st ← top.snoopPorts.foldlM (snoopPort pkt.cmd src) ⟨s.caches, pkt, .InvalidCmd⟩
  let (mem, pkt') ← s.mem.doAtomicAccess st.pkt
  if st.respCmd ≠ .InvalidCmd then do
    ensure .assert (¬ pkt'.isResponse)
    ensure .assert (pkt'.cmd = pkt.cmd)
    .ok ({ caches := st.caches, mem }, { pkt' with cmd := st.respCmd })
  else .ok ({ caches := st.caches, mem }, pkt')

/-- The end of a miss in `Cache::atomicAccess`: the response on the bus fills the block, which satisfies the request. -/
def finishMiss (r : Cache.AccessResult (top.tags i)) (busPkt : Packet) :
    Except Fault (System top × Packet × List Packet) :=
  if r.pkt.needsResponse then do
    ensure .assert busPkt.isResponse
    if busPkt.cmd.isError then do
      let pkt ← r.pkt.makeResponse
      let pkt ← pkt.copyError busPkt
      .ok (s, pkt, r.writebacks)
    else if busPkt.isRead || busPkt.cmd = .UpgradeResp then do
      -- no access in atomic mode has a miss outstanding
      let (p, c, writebacks) ← (s.caches i).handleFill (fun _ => none) busPkt r.blk r.writebacks
      let (b, pkt) ← (c.get p).satisfyCpuSideRequest (top.tags i).blkSize r.pkt
      .ok (s.setCache i (c.set p b), pkt, writebacks)
    else do
      let pkt ← r.pkt.makeResponse
      .ok (s, pkt, r.writebacks)
  else .ok (s, r.pkt, r.writebacks)

def missAtomic (r : Cache.AccessResult (top.tags i)) : Except Fault (System top × Packet × List Packet) := do
  match ← r.cache.getBusPacket r.pkt r.blk r.pkt.needsExclusive with
  | none => do
    -- the packet itself goes to the next level
    let (s, pkt) ← s.recvAtomic i r.pkt
    ensure .assert (pkt.cmd ≠ .NetworkNackError)
    .ok (s, pkt, r.writebacks)
  | some busPkt => do
    let (s, busPkt) ← s.recvAtomic i busPkt
    ensure .assert (busPkt.cmd ≠ .NetworkNackError)
    s.finishMiss i r busPkt

/-- `Cache::atomicAccess` for a packet that no cache above will answer. -/
def accessAtomic : Except Fault (System top × Packet) := do
  let r ← (s.caches i).access (fun _ => none) pkt
  let s := s.setCache i r.cache
  let (s, pkt, writebacks) ←
    (if r.satisfied then .ok (s, r.pkt, r.writebacks) else s.missAtomic i r :
      Except Fault (System top × Packet × List Packet))
  let s ← writebacks.foldlM (fun s wbPkt => do
    let (s, _) ← s.recvAtomic i wbPkt
    .ok s) s
  let pkt ← (if pkt.needsResponse then pkt.makeResponse else .ok pkt : Except Fault Packet)
  .ok (s, pkt)

def atomicAccess : Except Fault (System top × Packet) :=
  if pkt.memInhibit then do
    ensure .assert (¬ pkt.req.isUncacheable)
    if pkt.isInvalidate then
      let s := match (s.caches i).findBlock pkt.addr with
        | some f => s.setCache i ((s.caches i).set (.frame f) ((s.caches i).blks f).invalidate)
        | none => s
      s.recvAtomic i pkt
    else .ok (s, pkt)
  else s.accessAtomic i pkt

/-- A packet of the CPU side of a cache: a request within one block of the memory, as the processor has made it. -/
structure Accepts (s : System top) (pkt : Packet) : Prop where
  request : Cache.CpuRequest top.blkSize pkt
  range : s.mem.start ≤ pkt.addr - pkt.addr % top.blkSize ∧
    pkt.addr - pkt.addr % top.blkSize + top.blkSize ≤ s.mem.start + s.mem.size
  fresh : pkt.memInhibit = false

/-- An access: the cache, the packet and the packet as it comes back. -/
structure Access (ι : Type) where
  port : ι
  pkt : Packet
  resp : Packet

def AccessStep (a : Access ι) (s' : System top) : Prop :=
  s.Accepts a.pkt ∧ s.atomicAccess a.port a.pkt = .ok (s', a.resp)

end System

end

/-! ## The system as a family of lines, one for each block of memory -/

/-- The block at `B` is in the memory. -/
def PhysicalMemory.Covers (m : PhysicalMemory) (n : Nat) (B : Addr) : Prop := m.start ≤ B ∧ B + n ≤ m.start + m.size

/-- The address of the block with this byte. -/
def Topology.align {ι : Type} (top : Topology ι) (a : Addr) : Addr := a - a % top.blkSize

theorem Topology.blkAlign_eq {ι : Type} (top : Topology ι) (i : ι) (a : Addr) :
    (top.tags i).blkAlign a = top.align a := by
  rw [TagStore.blkAlign, align, top.blkSize_eq]

namespace System

variable {ι : Type} {top : Topology ι}

def line (s : System top) (B : Addr) : Line ι (Bytes top.blkSize) where
  copies i := (s.caches i).copy top.blkSize B
  mem k := s.mem.pmem (B + k)

variable {s : System top} {src i : ι} {pkt pkt' : Packet} {done : List ι} {p : ι} {st : Snooping top}

/-- The port `i` has been snooped: it is done and not the requester. -/
def Past (done : List ι) (src i : ι) : Prop := i ∈ done ∧ i ≠ src

theorem past_snoc : Past (done ++ [p]) src i ↔ Past done src i ∨ (i = p ∧ p ≠ src) := by
  simp only [Past, List.mem_append, List.mem_singleton, or_and_right]
  exact or_congr_right ⟨fun h => ⟨h.1, h.1 ▸ h.2⟩, fun h => ⟨h.1, h.1 ▸ h.2⟩⟩

theorem past_snoopPorts {j : ι} : Past top.snoopPorts src j ↔ j ≠ src := and_iff_right (top.complete j)

theorem doAtomicAccess_request {m : PhysicalMemory} {n : Nat} (hp : Cache.BusRequest n pkt) (hr : m.Covers n pkt.addr) :
    ∃ pkt', m.doAtomicAccess pkt = .ok (m, pkt') ∧ pkt'.addr = pkt.addr ∧ pkt'.size = pkt.size ∧ pkt'.req = pkt.req ∧
      pkt'.shared = pkt.shared ∧ (pkt.memInhibit → pkt' = pkt) ∧
      (pkt.memInhibit = false → pkt'.cmd = pkt.cmd.responseCommand ∧
        (pkt.isRead → ∀ k : Fin n, pkt'.data k = m.pmem (pkt.addr + k))) := by
  rw [PhysicalMemory.doAtomicAccess, ensure_bind (by rw [hp.size]; exact hr)]
  cases hin : pkt.memInhibit with
  | true => exact ⟨pkt, rfl, rfl, rfl, rfl, rfl, fun _ => rfl, fun h => (by cases h)⟩
  | false =>
    have hdata : ∀ k : Fin n, (pkt.setData (m.hostBytes pkt)).data k = m.pmem (pkt.addr + k) := fun k =>
      Cache.setData_apply (by rw [hp.size]; exact k.2)
    rcases hp.cmd with hc | hc | hc
    all_goals
      simp +decide only [hc, PhysicalMemory.accessCmd, isRead, isWrite, isLLSC,
        isInvalidate, needsResponse, makeResponse, isRequest, setData, ensure_of,
        ok_bind, if_true, if_false]
      refine ⟨_, rfl, rfl, rfl, rfl, rfl, fun h => (by cases h), fun _ => ⟨rfl, ?_⟩⟩
    · exact fun _ => hdata
    · exact fun _ => hdata
    · exact fun h => (by cases h)

theorem doAtomicAccess_writeback {m : PhysicalMemory} {n : Nat} {B : Addr} {data : Nat → UInt8} (hr : m.Covers n B)
    (hp : pkt = { cmd := .Writeback, addr := B, size := n, data := data }) :
    ∃ m', m.doAtomicAccess pkt = .ok (m', pkt) ∧ m'.start = m.start ∧ m'.size = m.size ∧
      m'.pmem = blit m.pmem B n data := by
  subst hp
  rw [PhysicalMemory.doAtomicAccess, ensure_bind (show m.start ≤ B ∧ B + n ≤ m.start + m.size from hr)]
  simp +decide only [PhysicalMemory.accessCmd, isRead, isWrite, PhysicalMemory.writeOK_eq,
    isLLSC, needsResponse, ensure_of, ok_bind, if_true, if_false]
  exact ⟨_, rfl, rfl, rfl, rfl⟩

variable [∀ i, LawfulTagStore (top.tags i)]

/-- The caches are in order and hold blocks of the memory only. -/
def WF (s : System top) : Prop := ∀ i, (s.caches i).WF (s.mem.Covers top.blkSize)

/-- Where the snoop loop is after the ports `done`. -/
structure SnoopInv (s : System top) (src : ι) (pkt : Packet) (done : List ι) (st : Snooping top) : Prop where
  wf : ∀ i, (st.caches i).WF (s.mem.Covers top.blkSize)
  todo : ∀ i, ¬ Past done src i → st.caches i = s.caches i
  snooped : ∀ i, Past done src i → (st.caches i).copy top.blkSize pkt.addr =
    if pkt.isInvalidate then none else ((s.line pkt.addr).copies i).map .demote
  elsewhere : ∀ i a, top.align a ≠ top.align pkt.addr → (st.caches i).copy top.blkSize a = (s.line a).copies i
  addr : st.pkt.addr = pkt.addr
  size : st.pkt.size = pkt.size
  req : st.pkt.req = pkt.req
  cmd : st.pkt.cmd = pkt.cmd
  shared : st.pkt.shared ↔ pkt.isInvalidate = false ∧ ∃ i, Past done src i ∧ ((s.line pkt.addr).copies i).isSome
  inhibit : st.pkt.memInhibit ↔ ∃ i, Past done src i ∧ ((s.line pkt.addr).copies i).any Copy.dirty
  resp : st.respCmd = if st.pkt.memInhibit then pkt.cmd.responseCommand else .InvalidCmd
  data : ∀ i c, Past done src i → (s.line pkt.addr).copies i = some c → c.dirty → ∀ k : Fin top.blkSize,
    st.pkt.data k = c.val k

theorem SnoopInv.start (h : s.WF) (hsh : pkt.shared = false) (hin : pkt.memInhibit = false) :
    SnoopInv s src pkt [] ⟨s.caches, pkt, .InvalidCmd⟩ := by
  have hno : ∀ {i}, ¬ Past [] src i := fun hi => by cases hi.1
  refine ⟨h, fun _ _ => rfl, fun i hi => absurd hi hno, fun _ _ _ => rfl, rfl, rfl, rfl, rfl, ?_, ?_, ?_,
    fun i c hi => absurd hi hno⟩
  · rw [hsh]
    exact ⟨fun h => (by cases h), fun ⟨_, i, hi, _⟩ => absurd hi hno⟩
  · rw [hin]
    exact ⟨fun h => (by cases h), fun ⟨i, hi, _⟩ => absurd hi hno⟩
  · rw [hin]; rfl

theorem SnoopInv.pass (h : SnoopInv s src pkt done st) : SnoopInv s src pkt (done ++ [src]) st := by
  have hp : ∀ {i}, Past (done ++ [src]) src i ↔ Past done src i := by
    intro i
    rw [past_snoc]
    exact or_iff_left fun hi => hi.2 rfl
  obtain ⟨wf, todo, snooped, elsewhere, addr, size, req, cmd, shared, inhibit, resp, data⟩ := h
  exact ⟨wf, fun i hi => todo i (fun hi' => hi (hp.2 hi')), fun i hi => snooped i (hp.1 hi), elsewhere, addr, size, req,
    cmd, by simp only [hp]; exact shared, by simp only [hp]; exact inhibit, resp, fun i c hi => data i c (hp.1 hi)⟩

variable [DecidableEq ι]

section

variable (h : SnoopInv s src pkt done st)

include h

theorem SnoopInv.snoop {c : Cache (top.tags p)} {pkt1 pkt2 : Packet}
    {resp : MemCmd} (hsrc : p ≠ src) (hnew : p ∉ done)
    (hpkt : Cache.Snooped ((s.line pkt.addr).copies p) st.pkt pkt1) (hc : c.WF (s.mem.Covers top.blkSize))
    (hhere : c.copy top.blkSize pkt.addr =
      if pkt.isInvalidate then none else ((s.line pkt.addr).copies p).map .demote)
    (hthere : ∀ a, top.align a ≠ top.align pkt.addr → c.copy top.blkSize a = (s.line a).copies p)
    (h2 : pkt2 = { pkt1 with cmd := pkt.cmd })
    (hresp : resp = if pkt1.memInhibit then pkt.cmd.responseCommand else .InvalidCmd)
    (howner : ∀ i, Past done src i → ((s.line pkt.addr).copies i).any Copy.dirty →
      ((s.line pkt.addr).copies p).any Copy.dirty = false) :
    SnoopInv s src pkt (done ++ [p]) ⟨update st.caches p c, pkt2, resp⟩ := by
  have hinv : st.pkt.isInvalidate = pkt.isInvalidate := by rw [isInvalidate, isInvalidate, h.cmd]
  have hnp : ¬ Past done src p := fun hp => hnew hp.1
  subst h2
  refine ⟨fun i => ?_, fun i hi => ?_, fun i hi => ?_, fun i a ha => ?_, hpkt.addr.trans h.addr,
    hpkt.size.trans h.size, hpkt.req.trans h.req, rfl, ?_, ?_, hresp, fun i e hi he hd k => ?_⟩
  · by_cases hip : i = p
    · subst hip; simpa only [update_self] using hc
    · simpa only [update_of_ne hip] using h.wf i
  · have hip : i ≠ p := fun hip => hi (past_snoc.2 (.inr ⟨hip, hsrc⟩))
    simp only [update_of_ne hip]
    exact h.todo i fun hi' => hi (past_snoc.2 (.inl hi'))
  · rcases past_snoc.1 hi with hi | ⟨rfl, -⟩
    · have hip : i ≠ p := fun hip => hnp (hip ▸ hi)
      simpa only [update_of_ne hip] using h.snooped i hi
    · simpa only [update_self] using hhere
  · by_cases hip : i = p
    · subst hip; simpa only [update_self] using hthere a ha
    · simpa only [update_of_ne hip] using h.elsewhere i a ha
  · rw [hpkt.shared, or_eq_true, h.shared, and_eq_true, not_eq_true', hinv, ← and_or_left]
    simp only [past_snoc, or_and_right, exists_or]
    refine and_congr_right fun _ => or_congr_right ⟨fun h' => ⟨p, ⟨rfl, hsrc⟩, h'⟩, ?_⟩
    rintro ⟨i, ⟨rfl, -⟩, h'⟩
    exact h'
  · rw [hpkt.inhibit, or_eq_true, h.inhibit]
    simp only [past_snoc, or_and_right, exists_or]
    refine or_congr_right ⟨fun h' => ⟨p, ⟨rfl, hsrc⟩, h'⟩, ?_⟩
    rintro ⟨i, ⟨rfl, -⟩, h'⟩
    exact h'
  · rcases past_snoc.1 hi with hi | ⟨rfl, -⟩
    · rw [hpkt.silent (howner i hi (by rw [he]; exact hd))]
      exact h.data i e hi he hd k
    · exact hpkt.supplied he hd k

omit [DecidableEq ι] in
theorem SnoopInv.busRequest
    (hp : Cache.BusRequest top.blkSize pkt) : Cache.BusRequest top.blkSize st.pkt :=
  ⟨by rw [h.cmd]; exact hp.cmd, h.size.trans hp.size, by rw [h.addr]; exact hp.aligned,
    by rw [h.req]; exact hp.cacheable⟩

/-- One more port is snooped. -/
theorem SnoopInv.step
    (hp : Cache.BusRequest top.blkSize pkt) (hcoh : (s.line pkt.addr).Coherent) (hnew : p ∉ done) :
    ∃ st', snoopPort pkt.cmd src st p = .ok st' ∧ SnoopInv s src pkt (done ++ [p]) st' := by
  by_cases hsrc : p = src
  · exact ⟨st, if_pos hsrc, hsrc ▸ h.pass⟩
  have hnp : ¬ Past done src p := fun hp => hnew hp.1
  have howner : ∀ i, Past done src i → ((s.line pkt.addr).copies i).any Copy.dirty →
      ((s.line pkt.addr).copies p).any Copy.dirty = false := by
    intro i hi hdi
    rw [eq_false_iff]
    intro hdp
    obtain ⟨ci, hci, hdi⟩ := (Option.any_eq_true _ _).1 hdi
    obtain ⟨cp, hcp, hdp⟩ := (Option.any_eq_true _ _).1 hdp
    exact hnp (hcoh.owner hci hdi hcp hdp ▸ hi)
  have hcopy : (st.caches p).copy top.blkSize st.pkt.addr = (s.line pkt.addr).copies p := by
    rw [h.todo p hnp, h.addr]; rfl
  have hbus := h.busRequest hp
  have hfree : ((s.line pkt.addr).copies p).any Copy.dirty → st.pkt.memInhibit = false := by
    intro hdp
    rw [eq_false_iff]
    intro hin
    obtain ⟨i, hi, hdi⟩ := h.inhibit.1 hin
    rw [howner i hi hdi] at hdp
    cases hdp
  obtain ⟨c, pkt1, hsnoop, hc, hpkt, hhere, hthere⟩ :=
    (h.wf p).snoopAtomic_spec (top.blkSize_eq p) hbus (by rw [hcopy]; exact hfree)
  have hinv : st.pkt.isInvalidate = pkt.isInvalidate := by rw [isInvalidate, isInvalidate, h.cmd]
  rw [hcopy, hinv, h.addr] at hhere
  rw [hcopy] at hpkt
  have hthere' : ∀ a, top.align a ≠ top.align pkt.addr → c.copy top.blkSize a = (s.line a).copies p := by
    intro a ha
    rw [hthere a (by rw [top.blkAlign_eq, top.blkAlign_eq, h.addr]; exact ha)]
    exact h.elsewhere p a ha
  rw [snoopPort, if_neg hsrc, hsnoop, ok_bind]
  have hcmd := hpkt.cmd
  have hinh := hpkt.inhibit
  rw [h.cmd] at hcmd
  cases hd : ((s.line pkt.addr).copies p).any Copy.dirty with
  | true =>
    rw [hd] at hcmd
    rw [hd, Bool.or_true] at hinh
    have hrc : st.respCmd = .InvalidCmd := by rw [h.resp, hfree hd]; rfl
    have hresp : pkt1.isResponse ∧ pkt1.cmd ≠ pkt.cmd := by
      rw [isResponse, hcmd]
      rcases hp.cmd with hc | hc | hc <;> rw [hc] <;> decide
    refine ⟨⟨update st.caches p c, { pkt1 with cmd := pkt.cmd }, pkt1.cmd⟩, ?_, ?_⟩
    · simp only [if_pos hresp.1, ensure_bind hresp.2, ensure_bind hinh, ensure_bind hrc]
    · exact h.snoop hsrc hnew hpkt hc hhere hthere' rfl (by rw [hinh, hcmd]; rfl) howner
  | false =>
    rw [hd, if_neg (by simp)] at hcmd
    rw [hd, Bool.or_false] at hinh
    have hresp : ¬ pkt1.isResponse := by
      rw [isResponse, hcmd]
      rcases hp.cmd with hc | hc | hc <;> rw [hc] <;> decide
    refine ⟨⟨update st.caches p c, pkt1, st.respCmd⟩, if_neg hresp, ?_⟩
    exact h.snoop hsrc hnew hpkt hc hhere hthere' (by rw [← hcmd]) (by rw [hinh]; exact h.resp) howner

end

theorem snoopLoop_ok (src : ι) (h : s.WF) (hp : Cache.BusRequest top.blkSize pkt) (hcoh : (s.line pkt.addr).Coherent)
    (hsh : pkt.shared = false) (hin : pkt.memInhibit = false) :
    ∃ st, top.snoopPorts.foldlM (snoopPort pkt.cmd src) ⟨s.caches, pkt, .InvalidCmd⟩ = .ok st ∧
      SnoopInv s src pkt top.snoopPorts st := by
  refine foldlM_ok (.start h hsh hin) fun {done a rest st} hl hst => hst.step hp hcoh fun ha => ?_
  have hnd := top.nodup
  rw [← hl] at hnd
  exact (List.nodup_append.1 hnd).2.2 a ha a (List.mem_cons_self ..) rfl

/-! ## The bus -/

/-- What the requester gets back: it learns whether others keep copies, and reads what the line supplies. -/
structure Answer (l : Line ι (Bytes top.blkSize)) (src : ι) (pkt pkt' : Packet) : Prop where
  addr : pkt'.addr = pkt.addr
  size : pkt'.size = pkt.size
  cmd : pkt'.cmd = pkt.cmd.responseCommand
  shared : pkt'.shared ↔ pkt.isInvalidate = false ∧ ∃ j, j ≠ src ∧ (l.copies j).isSome
  data : pkt.isRead → l.Supplies src fun k => pkt'.data k

theorem SnoopInv.line_eq (h : SnoopInv s src pkt top.snoopPorts st) :
    ({ caches := st.caches, mem := s.mem } : System top).line pkt.addr =
      if pkt.isInvalidate then (s.line pkt.addr).purge src else (s.line pkt.addr).share src := by
  have hcopies : ∀ j, (st.caches j).copy top.blkSize pkt.addr = if j = src then (s.line pkt.addr).copies j
      else if pkt.isInvalidate then none else ((s.line pkt.addr).copies j).map .demote := by
    intro j
    by_cases hj : j = src
    · rw [if_pos hj, h.todo j fun hp => hp.2 hj]; rfl
    · rw [if_neg hj]
      exact h.snooped j (past_snoopPorts.2 hj)
  cases hinv : pkt.isInvalidate <;> simp only [hinv] at hcopies <;> exact Line.ext (funext hcopies) rfl

omit [DecidableEq ι] in
theorem SnoopInv.supplies {v : Bytes top.blkSize} (h : SnoopInv s src pkt top.snoopPorts st)
    (hcache : st.pkt.memInhibit → ∀ k, v k = st.pkt.data k)
    (hmem : st.pkt.memInhibit = false → v = (s.line pkt.addr).mem) : (s.line pkt.addr).Supplies src v := by
  cases hin : st.pkt.memInhibit with
  | true =>
    obtain ⟨j, hj, hd⟩ := h.inhibit.1 hin
    obtain ⟨c, hc, hcd⟩ := (Option.any_eq_true _ _).1 hd
    refine .inl ⟨j, c, hj.2, hc, hcd, ?_⟩
    exact funext fun k => (h.data j c hj hc hcd k).symm.trans (hcache hin k).symm
  | false =>
    refine .inr ⟨fun j c hj hc hd => ?_, (hmem hin).symm⟩
    have hin' := h.inhibit.2 ⟨j, past_snoopPorts.2 hj, by rw [hc]; exact hd⟩
    rw [hin] at hin'
    cases hin'

/-- The request of a miss shares or purges the line and brings its bytes. -/
theorem recvAtomic_request (src : ι) (h : s.WF) (hp : Cache.BusRequest top.blkSize pkt)
    (hcoh : (s.line pkt.addr).Coherent)
    (hr : s.mem.Covers top.blkSize pkt.addr) (hsh : pkt.shared = false) (hin : pkt.memInhibit = false) :
    ∃ s' pkt', s.recvAtomic src pkt = .ok (s', pkt') ∧ s'.WF ∧ s'.mem = s.mem ∧ s'.caches src = s.caches src ∧
      s'.line pkt.addr =
        (if pkt.isInvalidate then (s.line pkt.addr).purge src else (s.line pkt.addr).share src) ∧
      (∀ a, top.align a ≠ top.align pkt.addr → s'.line a = s.line a) ∧ Answer (s.line pkt.addr) src pkt pkt' := by
  have hreq : pkt.isRequest ∧ pkt.cmd.responseCommand ≠ .InvalidCmd ∧ ¬ pkt.isResponse := by
    rw [isRequest, isResponse]
    rcases hp.cmd with hc | hc | hc <;> rw [hc] <;> decide
  obtain ⟨st, hloop, hst⟩ := snoopLoop_ok src h hp hcoh hsh hin
  obtain ⟨pkt', hmem, haddr, hsize, -, hshared, hinh, hans⟩ := doAtomicAccess_request (hst.busRequest hp)
    (show s.mem.Covers top.blkSize st.pkt.addr by rw [hst.addr]; exact hr)
  have hread : st.pkt.isRead = pkt.isRead := by rw [isRead, isRead, hst.cmd]
  have hsh' : st.pkt.shared ↔ pkt.isInvalidate = false ∧ ∃ j, j ≠ src ∧ ((s.line pkt.addr).copies j).isSome := by
    rw [hst.shared]
    simp only [past_snoopPorts]
  rw [recvAtomic, ensure_bind hreq.1, hloop, ok_bind, hmem, ok_bind]
  have hs' : ({ caches := st.caches, mem := s.mem } : System top).WF := hst.wf
  refine ⟨⟨st.caches, s.mem⟩, { pkt' with cmd := pkt.cmd.responseCommand }, ?_, hs', rfl,
    hst.todo src fun hp => hp.2 rfl, hst.line_eq, fun a ha => ?_,
    haddr.trans hst.addr, hsize.trans hst.size, rfl, by rw [← hsh', ← hshared], fun hrd => hst.supplies ?_ ?_⟩
  · cases hi : st.pkt.memInhibit with
    | true =>
      have hpkt := hinh hi
      have hrc : st.respCmd = pkt.cmd.responseCommand := by rw [hst.resp, hi]; rfl
      have h1 : ¬ pkt'.isResponse := by
        rw [hpkt, isResponse, hst.cmd]; exact hreq.2.2
      simp only [hrc, if_pos hreq.2.1, ensure_bind h1, ensure_bind (show pkt'.cmd = pkt.cmd by rw [hpkt, hst.cmd])]
    | false =>
      have hrc : st.respCmd = .InvalidCmd := by rw [hst.resp, hi]; rfl
      have hcmd : pkt'.cmd = pkt.cmd.responseCommand := by rw [(hans hi).1, hst.cmd]
      simp only [hrc, ne_eq, not_true_eq_false, if_false, ← hcmd]
  · exact Line.ext (funext fun j => hst.elsewhere j a ha) rfl
  · intro hi k
    rw [← hinh hi]
  · intro hi
    rw [← hread] at hrd
    rw [hst.addr] at hans
    exact funext fun k => (hans hi).2 hrd k

/-- A writeback stores its block. -/
theorem recvAtomic_writeback {B : Addr} {data : Nat → UInt8} (src : ι) (h : s.WF) (hr : s.mem.Covers top.blkSize B)
    (hp : pkt = { cmd := .Writeback, addr := B, size := top.blkSize, data := data }) :
    ∃ m', s.recvAtomic src pkt = .ok ({ s with mem := m' }, pkt) ∧ ({ s with mem := m' } : System top).WF ∧
      m'.start = s.mem.start ∧ m'.size = s.mem.size ∧ m'.pmem = blit s.mem.pmem B top.blkSize data := by
  obtain ⟨m', hmem, hstart, hsize, hpmem⟩ := doAtomicAccess_writeback hr hp
  have hloop : top.snoopPorts.foldlM (snoopPort pkt.cmd src) ⟨s.caches, pkt, .InvalidCmd⟩ =
      .ok ⟨s.caches, pkt, .InvalidCmd⟩ := by
    obtain ⟨st, hst, rfl⟩ := foldlM_ok (I := fun _ st => st = (⟨s.caches, pkt, .InvalidCmd⟩ : Snooping top))
      (f := snoopPort pkt.cmd src) rfl (by
        rintro done p rest st - rfl
        refine ⟨_, ?_, rfl⟩
        subst hp
        rw [snoopPort]
        split_ifs with hsrc
        · rfl
        · simp +decide only [Cache.snoopAtomic, Bool.false_or, if_true, ok_bind, isResponse, if_false]
          rw [update_eq_self])
    exact hst
  refine ⟨m', ?_, fun i => ?_, hstart, hsize, hpmem⟩
  · have hreq : pkt.isRequest := by rw [hp]; rfl
    simp only [recvAtomic, ensure_bind hreq, hloop, hmem, ok_bind, ne_eq, not_true_eq_false, if_false]
  · have hcov : m'.Covers top.blkSize = s.mem.Covers top.blkSize := by
      funext B'
      rw [PhysicalMemory.Covers, PhysicalMemory.Covers, hstart, hsize]
    rw [hcov]
    exact h i

end System

end M5.Mem
