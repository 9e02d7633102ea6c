import M5.Mem.AtomicBus

/-!
# What an atomic access does to the lines

An access of cache `i` is a transaction on the line of its block, and every other line either stays or is evicted from
cache `i` (`Outcome`). In a coherent system it always succeeds: `atomicAccess_outcome`.
-/

namespace M5.Mem.System

open M5.Lib Function Cache Nat Bool Option

variable {ι : Type} {top : Topology ι} {i : ι} {pkt pkt1 ans : Packet} {f : Frame} {cmd : MemCmd}

/-! ## Packets -/

theorem makeResponse_ok {n : Nat} {pkt pkt' : Packet} (hp : CpuRequest n pkt) (hc : pkt'.cmd = pkt.cmd) :
    pkt'.needsResponse ∧ pkt'.makeResponse = .ok { pkt' with cmd := pkt.cmd.responseCommand } := by
  have h : pkt'.needsResponse ∧ pkt'.isRequest := by
    rw [Packet.needsResponse, Packet.isRequest, hc]
    rcases hp.cmd with h | h | h | h | h <;> rw [h] <;> decide
  refine ⟨h.1, ?_⟩
  rw [Packet.makeResponse, ensure_of h.1, ensure_bind h.2, ok_bind, hc]

theorem align_mod (a : Addr) : top.align a % top.blkSize = 0 := mod_eq_zero_of_dvd (dvd_sub_mod a)

theorem align_align (a : Addr) : top.align (top.align a) = top.align a := by
  rw [Topology.align, align_mod, Nat.sub_zero]

theorem aligned_disjoint {B B' k : Nat} (hB : top.align B = B) (hB' : top.align B' = B') (hne : B ≠ B')
    (hk : k < top.blkSize) : ¬ (B' ≤ B + k ∧ B + k < B' + top.blkSize) := by
  have hB0 : B % top.blkSize = 0 := hB ▸ align_mod B
  have hB'0 : B' % top.blkSize = 0 := hB' ▸ align_mod B'
  obtain ⟨q, rfl⟩ := dvd_of_mod_eq_zero hB0
  obtain ⟨q', rfl⟩ := dvd_of_mod_eq_zero hB'0
  rintro ⟨h1, h2⟩
  rcases Nat.lt_trichotomy q q' with hq | hq | hq
  · have := mul_le_mul_left top.blkSize hq
    rw [mul_succ] at this
    omega
  · exact hne (by rw [hq])
  · have := mul_le_mul_left top.blkSize hq
    rw [mul_succ] at this
    omega

def busPacket (top : Topology ι) (cmd : MemCmd) (pkt : Packet) : Packet :=
  { cmd, addr := top.align pkt.addr, size := top.blkSize, req := pkt.req }

section

variable (hp : CpuRequest top.blkSize pkt)

include hp

theorem getBusPacket_none {c : Cache (top.tags i)} :
    c.getBusPacket pkt none pkt.needsExclusive =
      .ok (some (busPacket top (if pkt.needsExclusive then .ReadExReq else .ReadReq) pkt)) := by
  have hn : pkt.needsResponse := (makeResponse_ok hp rfl).1
  have hc : ¬ (pkt.cmd = .Writeback ∨ pkt.cmd = .UpgradeReq) := by
    rcases hp.cmd with hc | hc | hc | hc | hc <;> rw [hc] <;> decide
  rw [getBusPacket, if_neg (by simp [hp.cacheable]), if_neg (by simpa using hc), ensure_bind hn]
  simp only [filter_none, ok_bind, busPacket, top.blkSize_eq, top.blkAlign_eq]

theorem getBusPacket_some {c : Cache (top.tags i)}
    (hv : (c.blks f).isValid) (hx : pkt.needsExclusive) (hw : ¬ (c.blks f).isWritable) :
    c.getBusPacket pkt (some f) pkt.needsExclusive = .ok (some (busPacket top .UpgradeReq pkt)) := by
  have hn : pkt.needsResponse := (makeResponse_ok hp rfl).1
  rw [getBusPacket, if_neg (by simp [hp.cacheable]), if_neg (by simp [hv]), ensure_bind hn]
  simp only [filter_some, hv, if_true, ensure_of (And.intro hx hw), ok_bind, busPacket, top.blkSize_eq,
    top.blkAlign_eq]

end

/-- The command on the bus for a missing block. -/
def fetchCmd (excl : Bool) : MemCmd := if excl then .ReadExReq else .ReadReq

/-- What comes back of a fetch. -/
theorem Answer.fetch {l : Line ι (Bytes top.blkSize)} {x : Bool}
    (h : Answer l i (busPacket top (fetchCmd x) pkt) ans) : ans.addr = top.align pkt.addr ∧ ans.cmd.hasData ∧
      ans.isRead ∧ (ans.shared → x = false) ∧ (ans.shared → ¬ ans.needsExclusive) ∧
        l.Supplies i fun k => ans.data k := by
  have hx : ans.shared → x = false := fun hsh => by
    cases x with
    | false => rfl
    | true => cases (h.shared.1 hsh).1
  have hcmd : ans.cmd = (fetchCmd x).responseCommand := h.cmd
  refine ⟨h.addr, by rw [hcmd]; cases x <;> rfl, by rw [Packet.isRead, hcmd]; cases x <;> rfl, hx, fun hsh => ?_,
    h.data (by rw [Packet.isRead]; cases x <;> rfl)⟩
  rw [Packet.needsExclusive, hcmd, hx hsh]
  decide

/-! ## Accesses -/

variable [DecidableEq ι]

/-- What a satisfied request does to the copy it finds, with the packet that comes back. -/
def Uses (n : Nat) (pkt resp : Packet) (c c' : Copy (Bytes n)) : Prop :=
  ∃ blk b pkt', Served n blk pkt b pkt' ∧ resp = { pkt' with cmd := pkt.cmd.responseCommand } ∧
    c = blk.copy n ∧ c' = b.copy n

/-- The access of cache `i`, line by line. -/
structure Outcome (s : System top) (i : ι) (pkt resp : Packet) (s' : System top) : Prop where
  start : s'.mem.start = s.mem.start
  size : s'.mem.size = s.mem.size
  here : (s.line (top.align pkt.addr)).Step pkt.needsExclusive (Uses top.blkSize pkt resp) i
      (s'.line (top.align pkt.addr)) ∨
    (pkt.cmd = .StoreCondReq ∧ resp.req.extraData = 0 ∧ s'.line (top.align pkt.addr) = s.line (top.align pkt.addr))
  there : ∀ B, top.align B = B → B ≠ top.align pkt.addr → s'.line B = s.line B ∨ s'.line B = (s.line B).evict i

section Lines

variable {s : System top} {c : Cache (top.tags i)} {B : Addr}

theorem caches_setCache_self : (s.setCache i c).caches i = c := update_self ..

theorem line_setCache : (s.setCache i c).line B =
    { s.line B with copies := update (s.line B).copies i (c.copy top.blkSize B) } := by
  refine Line.ext (funext fun j => ?_) rfl
  by_cases hj : j = i
  · subst hj
    simp only [line, setCache, update_self]
  · simp only [line, setCache, update_of_ne hj]

theorem line_setCache_same (h : c.copy top.blkSize B = (s.line B).copies i) : (s.setCache i c).line B = s.line B := by
  rw [line_setCache, h, update_eq_self]

theorem line_setCache_put {d : Copy (Bytes top.blkSize)} (h : c.copy top.blkSize B = some d) :
    (s.setCache i c).line B = (s.line B).put i d := by
  rw [line_setCache, h]; rfl

theorem wf_setCache [∀ i, LawfulTagStore (top.tags i)] (h : s.WF) (hc : c.WF (s.mem.Covers top.blkSize)) :
    (s.setCache i c).WF := by
  intro j
  by_cases hj : j = i
  · subst hj
    rw [caches_setCache_self]; exact hc
  · simp only [setCache, update_of_ne hj]; exact h j

end Lines

section Access

variable {s s1 s2 : System top} {r : AccessResult (top.tags i)} {wbs : List Packet} {b : CacheBlk}

def sendWritebacks (s : System top) (i : ι) (wbs : List Packet) : Except Fault (System top) :=
  wbs.foldlM (fun s wbPkt => do
    let (s, _) ← s.recvAtomic i wbPkt
    .ok s) s

/-- The blocks satisfy the request. -/
theorem accessAtomic_satisfied (hp : CpuRequest top.blkSize pkt)
    (hr : (s.caches i).access (fun _ => none) pkt = .ok r) (hs : r.satisfied) (hw : r.writebacks = [])
    (hc : r.pkt.cmd = pkt.cmd) :
    s.accessAtomic i pkt = .ok (s.setCache i r.cache, { r.pkt with cmd := pkt.cmd.responseCommand }) := by
  obtain ⟨h1, h2⟩ := makeResponse_ok hp hc
  simp only [accessAtomic, hr, ok_bind, hs, if_true, hw, List.foldlM_nil, h1, h2]
  rfl

/-- The request goes on to the bus. -/
theorem accessAtomic_missed (hp : CpuRequest top.blkSize pkt)
    (hr : (s.caches i).access (fun _ => none) pkt = .ok r) (hs : r.satisfied = false)
    (hm : (s.setCache i r.cache).missAtomic i r = .ok (s1, pkt1, wbs)) (hwb : s1.sendWritebacks i wbs = .ok s2)
    (hc : pkt1.cmd = pkt.cmd) :
    s.accessAtomic i pkt = .ok (s2, { pkt1 with cmd := pkt.cmd.responseCommand }) := by
  obtain ⟨h1, h2⟩ := makeResponse_ok hp hc
  rw [sendWritebacks] at hwb
  simp only [accessAtomic, hr, ok_bind, hs, false_eq_true, if_false, hm, hwb, h1, if_true, h2]

/-- The response fills the block, which then satisfies the request. -/
theorem finishMiss_ok {busPkt : Packet} {p : BlkPtr} {c : Cache (top.tags i)}
    (hp : CpuRequest top.blkSize r.pkt)
    (hb : busPkt.cmd = .ReadResp ∨ busPkt.cmd = .ReadExResp ∨ busPkt.cmd = .UpgradeResp)
    (hf : (s.caches i).handleFill (fun _ => none) busPkt r.blk r.writebacks = .ok (p, c, wbs))
    (hs : (c.get p).satisfyCpuSideRequest top.blkSize r.pkt = .ok (b, pkt1)) :
    s.finishMiss i r busPkt = .ok (s.setCache i (c.set p b), pkt1, wbs) := by
  have hn : r.pkt.needsResponse := (makeResponse_ok hp rfl).1
  have hcmd : busPkt.isResponse ∧ ¬ busPkt.cmd.isError ∧ (busPkt.isRead || decide (busPkt.cmd = .UpgradeResp)) := by
    rw [Packet.isResponse, Packet.isRead]
    rcases hb with hb | hb | hb <;> rw [hb] <;> decide
  rw [← top.blkSize_eq i] at hs
  simp only [finishMiss, if_pos hn, ensure_of hcmd.1, ok_bind, if_neg hcmd.2.1, if_pos hcmd.2.2, hf, hs]

theorem set_set {T : TagStore} {c : Cache T} {b' : CacheBlk} :
    (c.set (.frame f) b).set (.frame f) b' = c.set (.frame f) b' := by
  simp [Cache.set]

theorem accessAtomic_miss {blk : Option Frame} (hp : CpuRequest top.blkSize pkt)
    (hr : (s.caches i).access (fun _ => none) pkt = .ok ⟨false, blk, (s.caches i).touch pkt.addr, pkt, []⟩)
    (hb : ((s.caches i).touch pkt.addr).getBusPacket pkt blk pkt.needsExclusive = .ok (some (busPacket top cmd pkt)))
    (hc : cmd = .ReadReq ∨ cmd = .ReadExReq ∨ cmd = .UpgradeReq)
    (hbus : (s.setCache i ((s.caches i).touch pkt.addr)).recvAtomic i (busPacket top cmd pkt) = .ok (s1, ans))
    (hans : ans.cmd = cmd.responseCommand) {p : BlkPtr} {c : Cache (top.tags i)}
    (hf : (s1.caches i).handleFill (fun _ => none) ans blk [] = .ok (p, c, wbs))
    (hs : (c.get p).satisfyCpuSideRequest top.blkSize pkt = .ok (b, pkt1)) (hc1 : pkt1.cmd = pkt.cmd)
    (hwb : (s1.setCache i (c.set p b)).sendWritebacks i wbs = .ok s2) :
    s.accessAtomic i pkt = .ok (s2, { pkt1 with cmd := pkt.cmd.responseCommand }) := by
  have hcmd : (ans.cmd = .ReadResp ∨ ans.cmd = .ReadExResp ∨ ans.cmd = .UpgradeResp) ∧
      ans.cmd ≠ .NetworkNackError := by
    rw [hans]
    rcases hc with rfl | rfl | rfl <;> decide
  refine accessAtomic_missed hp hr rfl ?_ hwb hc1
  simp only [missAtomic, hb, ok_bind, hbus, ensure_of hcmd.2]
  exact finishMiss_ok hp hcmd.1 hf hs

/-- Fetching and using the line is a step of the line. -/
theorem Answer.step {l : Line ι (Bytes top.blkSize)} {x : Bool}
    {U : Copy (Bytes top.blkSize) → Copy (Bytes top.blkSize) → Prop} {c' : Copy (Bytes top.blkSize)}
    (h : Answer l i (busPacket top (fetchCmd x) pkt) ans) (hn : l.copies i = none)
    (hU : U { writable := !ans.shared, dirty := false, val := fun k => ans.data k } c') :
    l.Step x U i ((if (fetchCmd x).isInvalidate then l.purge i else l.share i).put i c') := by
  obtain ⟨-, -, -, -, -, hsup⟩ := h.fetch
  cases x with
  | true =>
    refine .own (fun d hd => ?_) rfl (fun _ => hsup) hU
    rw [hn] at hd
    cases hd
  | false =>
    refine .fetch hn rfl hsup rfl (fun hw j hj => ?_) hU
    -- nobody has marked the packet as shared
    by_contra hne
    have hsh : ans.shared := h.shared.2 ⟨rfl, j, hj, isSome_iff_ne_none.2 hne⟩
    simp [hsh] at hw

variable [∀ i, LawfulTagStore (top.tags i)]

theorem line_touch (h : s.WF) {a B : Addr} : (s.setCache i ((s.caches i).touch a)).line B = s.line B :=
  line_setCache_same ((h i).copy_touch)

theorem wf_touch (h : s.WF) {a : Addr} : (s.setCache i ((s.caches i).touch a)).WF := wf_setCache h (h i).touch

/-! ### Writing back a victim -/

/-- The writeback of a dirty victim writes its bytes to memory. -/
theorem sendWritebacks_evictions {blk : CacheBlk} (h : s.WF)
    (hc : blk.isValid → s.mem.Covers top.blkSize ((top.tags i).blkAddr blk)) :
    ∃ m', s.sendWritebacks i (evictions (top.tags i) blk) = .ok { s with mem := m' } ∧
      ({ s with mem := m' } : System top).WF ∧ m'.start = s.mem.start ∧ m'.size = s.mem.size ∧
      m'.pmem = if blk.isValid && blk.isDirty then
        blit s.mem.pmem ((top.tags i).blkAddr blk) top.blkSize blk.data else s.mem.pmem := by
  cases hd : blk.isValid && blk.isDirty with
  | false => exact ⟨s.mem, by rw [evictions, hd]; rfl, h, rfl, rfl, rfl⟩
  | true =>
    obtain ⟨m', hok, hwf, hstart, hsize, hpmem⟩ := recvAtomic_writeback i h (hc (and_eq_true_iff.1 hd).1)
      (rfl : _ =
        ({ cmd := .Writeback, addr := (top.tags i).blkAddr blk, size := top.blkSize, data := blk.data } : Packet))
    refine ⟨m', ?_, hwf, hstart, hsize, hpmem⟩
    rw [evictions, hd, if_pos rfl, sendWritebacks, List.foldlM_cons, top.blkSize_eq, hok]
    rfl

/-- A fill changes the lines of the block and of the victim. -/
theorem line_fill {v : Frame} {m' : PhysicalMemory} (h : s.WF)
    (hB : top.align ans.addr = ans.addr) (hn : (s.caches i).findBlock ans.addr = none)
    (hm : s.mem.Covers top.blkSize ans.addr) (hvic : (s.caches i).victim ans.addr = v)
    (hb : Kept (((s.caches i).fillVictim ans).blks v) b) (hbv : b.isValid)
    (hpmem : m'.pmem = if ((s.caches i).blks v).isValid && ((s.caches i).blks v).isDirty then
      blit s.mem.pmem ((top.tags i).blkAddr ((s.caches i).blks v)) top.blkSize ((s.caches i).blks v).data
      else s.mem.pmem) :
    let c := ((s.caches i).fillVictim ans).set (.frame v) b
    let s' : System top := { s.setCache i c with mem := m' }
    s'.line ans.addr = (s.line ans.addr).put i (b.copy top.blkSize) ∧
      ∀ B, top.align B = B → B ≠ ans.addr → s'.line B = s.line B ∨ s'.line B = (s.line B).evict i := by
  intro c s'
  have hBi : (top.tags i).blkAlign ans.addr = ans.addr := (top.blkAlign_eq i _).trans hB
  have hok : s.mem.Covers top.blkSize ((top.tags i).blkAlign ans.addr) := by rw [hBi]; exact hm
  have hfill := (h i).fillVictim hn hok
  have hblk : (top.tags i).blkAddr (((s.caches i).fillVictim ans).blks v) = ans.addr := by
    rw [← hvic]
    exact (h i).blkAddr_fillVictim.trans hBi
  have hfv : ((s.caches i).fillVictim ans).findBlock ans.addr = some v :=
    hfill.find_iff.2 ⟨by rw [← hvic, blks_fillVictim_self]; rfl, hblk.trans hBi.symm⟩
  -- memory changes at the victim's block only
  have hmem : ∀ B, top.align B = B → (((s.caches i).blks v).isValid →
      (top.tags i).blkAddr ((s.caches i).blks v) ≠ B) → (s'.line B).mem = (s.line B).mem := by
    intro B hBB hne
    refine funext fun k => ?_
    show m'.pmem (B + k) = s.mem.pmem (B + k)
    rw [hpmem]
    split_ifs with hd
    · have hv := (and_eq_true_iff.1 hd).1
      have hal := LawfulTagStore.align_blkAddr (h i).tags hv
      rw [top.blkAlign_eq] at hal
      exact blit_of_not_mem (aligned_disjoint hBB hal (fun hb => hne hv hb.symm) k.2)
    · rfl
  refine ⟨?_, fun B hBB hne => ?_⟩
  · refine Line.ext ?_ (hmem _ hB fun hv hb => ?_)
    · show ((s.setCache i c).line ans.addr).copies = _
      rw [line_setCache_put ((hfill.copy_set_self hb hfv).trans (if_pos hbv))]
    · rw [(h i).find_iff.2 ⟨hv, hb.trans hBi.symm⟩] at hn
      cases hn
  · have hset : c.copy top.blkSize B = ((s.caches i).fillVictim ans).copy top.blkSize B :=
      hfill.copy_set_of_ne hb fun _ hb => hne (by rw [hblk, top.blkAlign_eq, hBB] at hb; exact hb.symm)
    have hBBi : (top.tags i).blkAlign B = B := (top.blkAlign_eq i _).trans hBB
    by_cases hv : ((s.caches i).blks v).isValid ∧ (top.tags i).blkAddr ((s.caches i).blks v) = B
    · -- the block given up
      have hcopy : (s.line B).copies i = some (((s.caches i).blks v).copy top.blkSize) :=
        (h i).copy_eq_some.2 ⟨v, hv.1, hv.2.trans hBBi.symm, rfl⟩
      have hnone : c.copy top.blkSize B = none := by
        rw [hset]
        subst hvic
        exact (h i).copy_fillVictim_victim hn hok hv.1 (hv.2.trans hBBi.symm)
      refine .inr (Line.ext ?_ (funext fun k => ?_))
      · show ((s.setCache i c).line B).copies = _
        rw [line_setCache, hnone]
        rfl
      · show m'.pmem (B + k) = ((s.line B).evict i).mem k
        rw [Line.evict_mem hcopy, hpmem, hv.1, hv.2, Bool.true_and]
        cases hd : ((s.caches i).blks v).isDirty with
        | true =>
          rw [if_pos rfl, if_pos (show (CacheBlk.copy _ _).dirty from hd),
            blit_of_mem (Nat.le_add_right B k) (Nat.add_lt_add_left k.2 B),
            Nat.add_sub_cancel_left]
          rfl
        | false =>
          rw [if_neg nofun, if_neg (by rw [CacheBlk.copy, hd]; exact false_ne_true)]
          rfl
    · have hv' : ((s.caches i).blks v).isValid → (top.tags i).blkAddr ((s.caches i).blks v) ≠ B :=
        fun h1 h2 => hv ⟨h1, h2⟩
      have hsame : c.copy top.blkSize B = (s.line B).copies i := by
        rw [hset]
        subst hvic
        exact (h i).copy_fillVictim_of_ne hn hok (by rw [hBi, hBBi]; exact hne.symm) fun h1 => by
          rw [hBBi]; exact hv' h1
      refine .inl (Line.ext ?_ (hmem B hBB hv'))
      show ((s.setCache i c).line B).copies = _
      rw [line_setCache_same hsame]

/-! ### A request of the processor -/

/-- The access ends, with its outcome. -/
abbrev Completes (s : System top) (i : ι) (pkt : Packet) : Prop :=
  ∃ s' resp, s.accessAtomic i pkt = .ok (s', resp) ∧ s'.WF ∧ Outcome s i pkt resp s'

section

variable (h : s.WF)

include h

omit [DecidableEq ι] in
theorem accessBlock_find {o : Option Frame} (hf : (s.caches i).findBlock pkt.addr = o) :
    ((top.tags i).accessBlock (s.caches i).repl (s.caches i).blks pkt.addr).2 = o :=
  (LawfulTagStore.access_find (h i).tags pkt.addr).trans hf

variable (hp : CpuRequest top.blkSize pkt)

include hp

/-- The copy permits the access. -/
theorem hit_outcome (hf : (s.caches i).findBlock pkt.addr = some f) (hperm : permits ((s.caches i).blks f) pkt) :
    s.Completes i pkt := by
  obtain ⟨b, pkt1, hsat, hserved⟩ := satisfy_ok ((s.caches i).blks f) hp
  have hkept : Kept (((s.caches i).touch pkt.addr).blks f) b := hserved.kept ((h i).readable f)
  have hr : (s.caches i).access (fun _ => none) pkt =
      .ok ⟨true, some f, ((s.caches i).touch pkt.addr).set (.frame f) b, pkt1, []⟩ :=
    (access_eq_ok hp (accessBlock_find h hf)).2
      (.inl ⟨f, b, pkt1, rfl, hperm, by rw [top.blkSize_eq]; exact hsat, rfl⟩)
  obtain ⟨hv, ha⟩ := (h i).find_iff.1 hf
  have ht := (h i).touch (a := pkt.addr)
  have hf' : ((s.caches i).touch pkt.addr).findBlock (top.align pkt.addr) = some f :=
    ht.find_iff.2 ⟨hv, by rw [← top.blkAlign_eq i, blkAlign_blkAlign]; exact ha⟩
  have hbv : b.isValid := by rw [CacheBlk.isValid, hserved.valid]; exact hv
  refine ⟨_, _, accessAtomic_satisfied hp hr rfl rfl hserved.cmd, wf_setCache h (ht.set hkept), rfl, rfl, .inl ?_,
    fun B hB hne => .inl (line_setCache_same ?_)⟩
  · rw [line_setCache_put ((ht.copy_set_self hkept hf').trans (if_pos hbv))]
    refine .hit ((h i).copy_eq_some.2 ⟨f, hv, ?_, rfl⟩) (fun hx => ?_) ⟨_, b, pkt1, hserved, rfl, rfl, rfl⟩
    · rw [← top.blkAlign_eq i, blkAlign_blkAlign]; exact ha
    · rw [permits, if_pos hx] at hperm
      exact hperm
  · rw [ht.copy_set_of_ne hkept, (h i).copy_touch]
    · rfl
    · intro _ hb
      rw [top.blkAlign_eq, hB] at hb
      exact hne (hb.symm.trans (ha.trans (top.blkAlign_eq i _)))

/-- A store conditional without a copy fails at once. -/
theorem giveUp_outcome (hc : pkt.cmd = .StoreCondReq) (hf : (s.caches i).findBlock pkt.addr = none) :
    s.Completes i pkt := by
  have hr : (s.caches i).access (fun _ => none) pkt =
      .ok ⟨true, none, (s.caches i).touch pkt.addr, pkt.setExtraData 0, []⟩ :=
    (access_eq_ok hp (accessBlock_find h hf)).2
      (.inr (.inl ⟨rfl, by rw [Packet.isLLSC, Packet.isWrite, hc]; decide, rfl⟩))
  exact ⟨_, _, accessAtomic_satisfied hp hr rfl rfl rfl, wf_touch h, rfl, rfl,
    .inr ⟨hc, rfl, line_touch h⟩, fun B _ _ => .inl (line_touch h)⟩

variable (hcoh : (s.line (top.align pkt.addr)).Coherent)
  (hm : s.mem.Covers top.blkSize (top.align pkt.addr))

include hcoh hm

/-- A packet on the bus is answered, and changes the copies of the line only. -/
theorem busPacket_spec (hc : cmd = .ReadReq ∨ cmd = .ReadExReq ∨ cmd = .UpgradeReq) :
    ∃ s1 ans, (s.setCache i ((s.caches i).touch pkt.addr)).recvAtomic i (busPacket top cmd pkt) = .ok (s1, ans) ∧
      s1.WF ∧ s1.mem = s.mem ∧ s1.caches i = (s.caches i).touch pkt.addr ∧
      s1.line (top.align pkt.addr) = (if cmd.isInvalidate then (s.line (top.align pkt.addr)).purge i
        else (s.line (top.align pkt.addr)).share i) ∧
      (∀ B, top.align B = B → B ≠ top.align pkt.addr → s1.line B = s.line B) ∧
      Answer (s.line (top.align pkt.addr)) i (busPacket top cmd pkt) ans := by
  have hs0 : (s.setCache i ((s.caches i).touch pkt.addr)).WF := wf_touch h
  have hline : ∀ B, (s.setCache i ((s.caches i).touch pkt.addr)).line B = s.line B := fun B => line_touch h
  obtain ⟨s1, ans, hbus, hwf, hmem, hcache, hhere, hthere, hans⟩ := recvAtomic_request i hs0
    (⟨hc, rfl, align_mod _, hp.cacheable⟩ : BusRequest _ (busPacket top cmd pkt)) (by rw [hline]; exact hcoh) hm rfl rfl
  rw [caches_setCache_self] at hcache
  rw [hline] at hhere hans
  refine ⟨s1, ans, hbus, hwf, hmem, hcache, hhere, fun B hB hne => ?_, hans⟩
  rw [hthere B, hline]
  show top.align B ≠ top.align (top.align pkt.addr)
  rw [hB, align_align]
  exact hne

/-- A copy that must become writable. -/
theorem upgrade_outcome
    (hf : (s.caches i).findBlock pkt.addr = some f) (hperm : ¬ permits ((s.caches i).blks f) pkt) :
    s.Completes i pkt := by
  obtain ⟨hv, ha⟩ := (h i).find_iff.1 hf
  have hx : pkt.needsExclusive ∧ ¬ ((s.caches i).blks f).isWritable := by
    rw [permits] at hperm
    split_ifs at hperm with hx
    · exact ⟨hx, hperm⟩
    · exact absurd (and_eq_true_iff.2 ⟨(h i).readable f hv, hv⟩) hperm
  have hr : (s.caches i).access (fun _ => none) pkt = .ok ⟨false, some f, (s.caches i).touch pkt.addr, pkt, []⟩ :=
    (access_eq_ok hp (accessBlock_find h hf)).2
      (.inr (.inr ⟨fun g hg => some.inj hg ▸ hperm, nofun, rfl⟩))
  obtain ⟨s1, ans, hbus, hwf, hmem, hcache, hhere, hthere, hans⟩ :=
    busPacket_spec h hp hcoh hm (.inr (.inr rfl))
  have haB : (top.tags i).blkAddr ((s.caches i).blks f) = (top.tags i).blkAlign (top.align pkt.addr) := by
    rw [ha, top.blkAlign_eq, top.blkAlign_eq, align_align]
  have hfB : (s1.caches i).findBlock (top.align pkt.addr) = some f :=
    (hwf i).find_iff.2 ⟨by rw [hcache]; exact hv, by rw [hcache]; exact haB⟩
  -- the block is refilled in place, from the status alone
  have hshared : ¬ ans.shared := fun hsh => by cases (hans.shared.1 hsh).1
  have hread : ans.isRead = false := by rw [Packet.isRead, hans.cmd]; rfl
  have hfill : (s1.caches i).handleFill (fun _ => none) ans (some f) [] = .ok (.frame f,
      (s1.caches i).set (.frame f) (fillBlk (top.tags i) ans ((s1.caches i).blks f)), []) := by
    refine handleFill_some.2 ⟨?_, .inr (by rw [hcache]; exact hv), fun hsh => absurd hsh hshared, rfl⟩
    rw [hans.addr]
    exact LawfulTagStore.find_tag (hwf i).tags hfB
  obtain ⟨b, pkt1, hsat, hserved⟩ := satisfy_ok (fillBlk (top.tags i) ans ((s1.caches i).blks f)) hp
  have hkept : Kept ((s1.caches i).blks f) b := by
    obtain ⟨h1, h2, -, h4⟩ := hserved.kept fun _ => rfl
    exact ⟨h1, h2, fun _ => by rw [hcache]; exact hv, h4⟩
  have hbv : b.isValid := by rw [CacheBlk.isValid, hserved.valid]; rfl
  have hok := accessAtomic_miss hp hr (getBusPacket_some hp hv hx.1 hx.2) (.inr (.inr rfl)) hbus hans.cmd hfill
    (by rw [get_set_self]; exact hsat) hserved.cmd (rfl : sendWritebacks _ i [] = .ok _)
  rw [set_set] at hok
  refine ⟨_, _, hok, wf_setCache hwf ((hwf i).set hkept), ?_, ?_, .inl ?_, fun B hB hne => .inl ?_⟩
  · rw [← hmem]; rfl
  · rw [← hmem]; rfl
  · rw [line_setCache_put (((hwf i).copy_set_self hkept hfB).trans (if_pos hbv)), hhere]
    have hcopy : (s.line (top.align pkt.addr)).copies i = some (((s.caches i).blks f).copy top.blkSize) :=
      (h i).copy_eq_some.2 ⟨f, hv, haB, rfl⟩
    refine .own (fun d hd => ?_) hx.1 (fun hn => ?_) ⟨_, b, pkt1, hserved, rfl, rfl, rfl⟩
    · rw [← some.inj (hcopy.symm.trans hd), hcache]
      refine ⟨eq_false_iff.2 hx.2, funext fun k => ?_⟩
      simp [CacheBlk.copy, fillBlk, hread, touch]
    · rw [hcopy] at hn
      cases hn
  · rw [line_setCache_same, hthere B hB hne]
    refine (hwf i).copy_set_of_ne hkept fun _ hb => ?_
    rw [hcache, top.blkAlign_eq, hB] at hb
    exact hne (hb.symm.trans (ha.trans (top.blkAlign_eq i _)))

/-- A block that is not there is fetched. -/
theorem fill_outcome (hf : (s.caches i).findBlock pkt.addr = none) (hsc : pkt.cmd ≠ .StoreCondReq) :
    s.Completes i pkt := by
  have hnsc : ¬ (pkt.isLLSC ∧ pkt.isWrite) := by
    rw [Packet.isLLSC, Packet.isWrite]
    rcases hp.cmd with hc | hc | hc | hc | hc
    all_goals first | exact absurd hc hsc | rw [hc]; decide
  have hr : (s.caches i).access (fun _ => none) pkt = .ok ⟨false, none, (s.caches i).touch pkt.addr, pkt, []⟩ :=
    (access_eq_ok hp (accessBlock_find h hf)).2 (.inr (.inr ⟨by simp, fun _ => hnsc, rfl⟩))
  have hcmd : fetchCmd pkt.needsExclusive = .ReadReq ∨ fetchCmd pkt.needsExclusive = .ReadExReq ∨
      fetchCmd pkt.needsExclusive = .UpgradeReq := by
    cases pkt.needsExclusive <;> decide
  obtain ⟨s1, ans, hbus, hwf, hmem, hcache, hhere, hthere, hans⟩ := busPacket_spec h hp hcoh hm hcmd
  obtain ⟨haddr, hdata, hread, -, hshared, -⟩ := hans.fetch
  have hfB : (s1.caches i).findBlock ans.addr = none := by
    rw [haddr, hcache, (h i).findBlock_touch, ← top.blkAlign_eq i, (h i).findBlock_align, hf]
  obtain ⟨v, hvic⟩ : ∃ v, (s1.caches i).victim ans.addr = v := ⟨_, rfl⟩
  have hfill : (s1.caches i).handleFill (fun _ => none) ans none [] = .ok (.frame v, (s1.caches i).fillVictim ans,
      evictions (top.tags i) ((s1.caches i).blks v)) := by
    subst hvic
    exact handleFill_none.2 ⟨hdata, hshared, .inr ⟨fun _ => rfl, rfl⟩⟩
  obtain ⟨b, pkt1, hsat, hserved⟩ := satisfy_ok (((s1.caches i).fillVictim ans).get (.frame v)) hp
  have hget : ((s1.caches i).fillVictim ans).get (.frame v) =
      fillBlk (top.tags i) ans { (s1.caches i).blks v with tag := (top.tags i).extractTag ans.addr } := by
    subst hvic
    exact blks_fillVictim_self
  have hkept : Kept (((s1.caches i).fillVictim ans).blks v) b :=
    hserved.kept fun _ => by rw [hget]; rfl
  have hbv : b.isValid := by rw [CacheBlk.isValid, hserved.valid, hget]; rfl
  have hm1 : s1.mem.Covers top.blkSize ans.addr := by rw [hmem, haddr]; exact hm
  have hB : top.align ans.addr = ans.addr := by rw [haddr, align_align]
  have hwf3 : (s1.setCache i (((s1.caches i).fillVictim ans).set (.frame v) b)).WF :=
    wf_setCache hwf (((hwf i).fillVictim hfB (by rw [top.blkAlign_eq, hB]; exact hm1)).set hkept)
  obtain ⟨m', hwb, hwf4, hstart, hsize, hpmem⟩ := sendWritebacks_evictions hwf3 ((hwf i).held v)
  have hok := accessAtomic_miss hp hr (getBusPacket_none hp) hcmd hbus hans.cmd hfill hsat hserved.cmd hwb
  obtain ⟨hlineB, hlines⟩ := line_fill hwf hB hfB hm1 hvic hkept hbv hpmem
  refine ⟨_, _, hok, hwf4, ?_, ?_, .inl ?_, fun B hBB hne => ?_⟩
  · rw [← hmem]; exact hstart
  · rw [← hmem]; exact hsize
  · rw [haddr, hhere] at hlineB
    rw [hlineB]
    have hn : (s.line (top.align pkt.addr)).copies i = none := by
      show ((s.caches i).findBlock _).map _ = none
      rw [← top.blkAlign_eq i, (h i).findBlock_align, hf]
      rfl
    refine hans.step hn ⟨_, b, pkt1, hserved, rfl, ?_, rfl⟩
    rw [hget, copy_fillBlk (top.blkSize_eq i) hread]
  · rw [haddr] at hlines
    rw [← hthere B hBB hne]
    exact hlines B hBB hne

end

theorem atomicAccess_outcome (h : s.WF) (hcoh : (s.line (top.align pkt.addr)).Coherent) (hp : s.Accepts pkt) (i : ι) :
    ∃ s' resp, s.atomicAccess i pkt = .ok (s', resp) ∧ s'.WF ∧ Outcome s i pkt resp s' := by
  rw [atomicAccess, if_neg (by rw [hp.fresh]; exact false_ne_true)]
  cases hf : (s.caches i).findBlock pkt.addr with
  | some f =>
    by_cases hperm : permits ((s.caches i).blks f) pkt
    · exact hit_outcome h hp.request hf hperm
    · exact upgrade_outcome h hp.request hcoh hp.range hf hperm
  | none =>
    by_cases hsc : pkt.cmd = .StoreCondReq
    · exact giveUp_outcome h hp.request hsc hf
    · exact fill_outcome h hp.request hcoh hp.range hf hsc

end Access

end M5.Mem.System
