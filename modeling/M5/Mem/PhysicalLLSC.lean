import M5.Lib.Run
import M5.Mem.Physical

/-!
# Load-locked and store-conditional in physical memory

The reservations of `PhysicalMemory` against the history of its accesses. A context has at most one record, and its
record is for granule `g` exactly when its last load-locked was to `g` and no write and no store conditional has been
addressed to `g` since: a store conditional drops the records of its granule whether or not it succeeds.
-/

namespace M5.Mem

open M5.Lib List Packet

namespace PhysicalMemory

/-! ## The records -/

section Records

variable {c c' : Nat} {g paddr : Addr} {rs rs' : List LockedAddr}

theorem moveRecord_none : ∀ {rs : List LockedAddr}, moveRecord c paddr rs = none → ∀ r ∈ rs, r.contextId ≠ c
  | [], _, r, hr => by simp at hr
  | r :: rs, h, r', hr' => by
    rw [moveRecord] at h
    split_ifs at h with hc
    rw [Option.map_eq_none_iff] at h
    rcases mem_cons.1 hr' with rfl | hr'
    · exact hc
    · exact moveRecord_none h r' hr'

theorem moveRecord_some : ∀ {rs rs' : List LockedAddr}, moveRecord c paddr rs = some rs' →
    (rs.map LockedAddr.contextId).Nodup → rs'.map LockedAddr.contextId = rs.map LockedAddr.contextId ∧
      ∀ g c', ⟨g, c'⟩ ∈ rs' ↔ (c' = c ∧ g = paddr) ∨ (c' ≠ c ∧ ⟨g, c'⟩ ∈ rs)
  | [], _, h, _ => by simp [moveRecord] at h
  | r :: rs, rs', h, hn => by
    rw [map_cons, nodup_cons] at hn
    rw [moveRecord] at h
    split_ifs at h with hc
    · cases h
      refine ⟨by simp, fun g c' => ?_⟩
      have hout : ∀ g, ⟨g, c⟩ ∉ rs := fun g hg => hn.1 (by rw [hc]; exact mem_map.2 ⟨_, hg, rfl⟩)
      obtain ⟨a, c0⟩ := r
      subst hc
      simp only [mem_cons, LockedAddr.mk.injEq]
      constructor
      · rintro (⟨rfl, rfl⟩ | hg)
        · exact .inl ⟨rfl, rfl⟩
        · refine .inr ⟨?_, .inr hg⟩
          rintro rfl
          exact hout g hg
      · rintro (⟨rfl, rfl⟩ | ⟨hne, ⟨-, rfl⟩ | hg⟩)
        · exact .inl ⟨rfl, rfl⟩
        · exact absurd rfl hne
        · exact .inr hg
    · obtain ⟨rs1, h1, rfl⟩ := Option.map_eq_some_iff.1 h
      obtain ⟨hm, hiff⟩ := moveRecord_some h1 hn.2
      refine ⟨by rw [map_cons, map_cons, hm], fun g c' => ?_⟩
      rw [mem_cons, mem_cons, hiff]
      constructor
      · rintro (rfl | h | ⟨h, h'⟩)
        · exact .inr ⟨hc, .inl rfl⟩
        · exact .inl h
        · exact .inr ⟨h, .inr h'⟩
      · rintro (h | ⟨h, rfl | h'⟩)
        · exact .inr (.inl h)
        · exact .inl rfl
        · exact .inr (.inr ⟨h, h'⟩)

/-- What the loop of `checkLockedAddrList` does to the records. -/
theorem checkLoop_eq {isLLSC : Bool} : ∀ {rs : List LockedAddr} {success : Bool},
    checkLoop isLLSC c paddr success rs =
      (success || (isLLSC && decide (⟨paddr, c⟩ ∈ rs)), rs.filter (fun r => r.addr ≠ paddr))
  | [], success => by simp [checkLoop]
  | ⟨a, c'⟩ :: rs, success => by
    rw [checkLoop]
    split_ifs with ha
    · simp only at ha
      rw [checkLoop_eq]
      by_cases hc : c = c'
      · simp only [ha, hc]
        cases success <;> cases isLLSC <;> simp
      · simp [ha, hc, Ne.symm hc]
    · rw [checkLoop_eq]
      simp [ha, Ne.symm ha]

end Records

abbrev Locked (m : PhysicalMemory) (pkt : Packet) : Prop :=
  ⟨LockedAddr.mask pkt.addr, pkt.req.contextId⟩ ∈ m.lockedAddrList

/-- The memory without the records of the granule. -/
abbrev unlock (m : PhysicalMemory) (pkt : Packet) : PhysicalMemory :=
  { m with lockedAddrList := m.lockedAddrList.filter (fun r => r.addr ≠ LockedAddr.mask pkt.addr) }

/-- What a write does to the records. -/
theorem writeOK_eq (m : PhysicalMemory) (pkt : Packet) :
    m.writeOK pkt = (!pkt.isLLSC || decide (m.Locked pkt), m.unlock pkt,
      if pkt.isLLSC then pkt.setExtraData (if m.Locked pkt then 1 else 0) else pkt) := by
  unfold writeOK
  by_cases h1 : m.lockedAddrList = []
  · obtain ⟨st, sz, pm, rs⟩ := m
    subst h1
    simp [Locked]
  · rw [if_neg h1, checkLockedAddrList, checkLoop_eq]
    cases hL : pkt.isLLSC <;> simp

end PhysicalMemory

/-! ## Histories -/

/-- An access of a history: the memory before it, and the request. -/
abbrev Entry := PhysicalMemory × Packet

/-- The accesses of a processor: one of the five commands, inside the memory and inside one 16-byte granule. -/
structure PhysicalMemory.Accepts (m : PhysicalMemory) (pkt : Packet) : Prop where
  cmd : pkt.cmd = .ReadReq ∨ pkt.cmd = .WriteReq ∨ pkt.cmd = .LoadLockedReq ∨ pkt.cmd = .StoreCondReq ∨
    pkt.cmd = .SwapReq
  range : m.start ≤ pkt.addr ∧ pkt.addr + pkt.size ≤ m.start + m.size
  granule : 0 < pkt.size ∧ pkt.addr % 16 + pkt.size ≤ 16
  inhibit : pkt.memInhibit = false
  fetch : pkt.isWrite → pkt.req.isInstFetch = false
  swap : pkt.cmd = .SwapReq → pkt.size ≤ 8 ∧ (pkt.req.isCondSwap → pkt.size = 8 ∨ pkt.size = 4)

def AccessStep (m : PhysicalMemory) (e : Entry) (m' : PhysicalMemory) : Prop :=
  e.1 = m ∧ m.Accepts e.2 ∧ ∃ pkt', m.doAtomicAccess e.2 = .ok (m', pkt')

namespace Entry

def IsLL (c : Nat) (e : Entry) : Prop := e.2.cmd = .LoadLockedReq ∧ e.2.req.contextId = c

def To (g : Addr) (e : Entry) : Prop := LockedAddr.mask e.2.addr = g

/-- A write or a store conditional to the granule, whether or not it writes. -/
def IsStore (g : Addr) (e : Entry) : Prop := (e.2.cmd = .WriteReq ∨ e.2.cmd = .StoreCondReq) ∧ e.To g

def Writes (e : Entry) : Prop :=
  e.2.cmd = .WriteReq ∨ (e.2.cmd = .StoreCondReq ∧ (e.1.writeOK e.2).1) ∨
    (e.2.cmd = .SwapReq ∧ e.1.overwriteMem e.2 = .ok true)

end Entry

/-- The last load-locked of the context was to the granule, and no store was addressed to it since. -/
def Reserved (hist : List Entry) (c : Nat) (g : Addr) : Prop :=
  Since (fun e => e.IsLL c ∧ e.To g) (fun e => ¬ e.IsLL c ∧ ¬ e.IsStore g) hist

/-! ## One access -/

section Access

variable {m m' : PhysicalMemory} {pkt pkt' : Packet} {e : Entry} {hist : List Entry}

namespace PhysicalMemory

theorem Accepts.doAtomicAccess_eq (h : m.Accepts pkt) (hc : m.accessCmd pkt = .ok (m', pkt'))
    (hr : pkt'.cmd = pkt.cmd) : m.doAtomicAccess pkt = .ok (m', { pkt' with cmd := pkt.cmd.responseCommand }) := by
  have hnr : pkt'.needsResponse ∧ pkt'.isRequest := by
    simp only [needsResponse, isRequest, hr]
    rcases h.cmd with hp | hp | hp | hp | hp <;> rw [hp] <;> decide
  rw [doAtomicAccess, ensure_bind h.range, if_neg (by simp [h.inhibit]), hc, ok_bind]
  simp only [hnr.1, if_true, makeResponse]
  rw [ensure_bind hnr.2, hr]
  rfl

theorem Accepts.storeCond (h : m.Accepts pkt) (hc : pkt.cmd = .StoreCondReq) :
    ∃ m' pkt', m.doAtomicAccess pkt = .ok (m', pkt') ∧ pkt'.req.extraData = (if m.Locked pkt then 1 else 0) ∧
      m'.pmem = (if m.Locked pkt then blit m.pmem pkt.addr pkt.size pkt.data else m.pmem) ∧
      m'.lockedAddrList = (m.unlock pkt).lockedAddrList := by
  have hL : pkt.isLLSC := by rw [isLLSC, hc]; decide
  have hW : pkt.isWrite ∧ pkt.isRead = false := by rw [isWrite, isRead, hc]; decide
  have hf := h.fetch hW.1
  have hacc : m.accessCmd pkt = .ok (if m.Locked pkt then (m.unlock pkt).store (pkt.setExtraData 1) else m.unlock pkt,
      pkt.setExtraData (if m.Locked pkt then 1 else 0)) := by
    rw [accessCmd, if_neg (by simp [hc]), if_neg (by simp [hW.2]), if_pos hW.1, writeOK_eq]
    by_cases hl : m.Locked pkt <;> simp [hL, hl, hf, ensure_of]
  refine ⟨_, _, h.doAtomicAccess_eq hacc rfl, rfl, ?_, ?_⟩ <;> split <;> rfl

/-- The records after an access: what its command says. -/
def recordsAfter (m : PhysicalMemory) (pkt : Packet) : List LockedAddr :=
  if pkt.cmd = .LoadLockedReq then (m.trackLoadLocked pkt).lockedAddrList
  else if pkt.cmd = .WriteReq ∨ pkt.cmd = .StoreCondReq then
    m.lockedAddrList.filter (fun r => r.addr ≠ LockedAddr.mask pkt.addr)
  else m.lockedAddrList

theorem Accepts.records (h : m.Accepts pkt) :
    ∃ m' pkt', m.doAtomicAccess pkt = .ok (m', pkt') ∧ m'.lockedAddrList = m.recordsAfter pkt := by
  have hfetch := h.fetch
  rcases h.cmd with hc | hc | hc | hc | hc
  · have hacc : m.accessCmd pkt = .ok (m, pkt.setData (m.hostBytes pkt)) := by
      rw [accessCmd]
      simp [hc, isRead, isWrite, isLLSC, show MemCmd.isRead .ReadReq by decide,
        show MemCmd.isWrite .ReadReq = false by decide, show MemCmd.isLLSC .ReadReq = false by decide, ensure_of]
    exact ⟨_, _, h.doAtomicAccess_eq hacc rfl, by simp [recordsAfter, hc]⟩
  · have hacc : m.accessCmd pkt = .ok ((m.unlock pkt).store pkt, pkt) := by
      have hw : pkt.isWrite ∧ pkt.isRead = false ∧ pkt.isLLSC = false := by
        rw [isWrite, isRead, isLLSC, hc]; decide
      rw [accessCmd, if_neg (by simp [hc]), if_pos hw.1, writeOK_eq]
      simp [hw, hfetch hw.1, ensure_of]
    exact ⟨_, _, h.doAtomicAccess_eq hacc rfl, by simp [recordsAfter, hc, store]⟩
  · have hacc : m.accessCmd pkt = .ok (m.trackLoadLocked pkt, pkt.setData (m.hostBytes pkt)) := by
      rw [accessCmd]
      simp [hc, isRead, isWrite, isLLSC, show MemCmd.isRead .LoadLockedReq by decide,
        show MemCmd.isWrite .LoadLockedReq = false by decide, show MemCmd.isLLSC .LoadLockedReq by decide,
        ensure_of]
    exact ⟨_, _, h.doAtomicAccess_eq hacc rfl, by simp [recordsAfter, hc]⟩
  · obtain ⟨m', pkt', hok, -, -, hrec⟩ := h.storeCond hc
    exact ⟨m', pkt', hok, by simp [recordsAfter, hc, hrec]⟩
  · obtain ⟨hs, hcond⟩ := h.swap hc
    obtain ⟨b, hb⟩ : ∃ b, m.overwriteMem pkt = .ok b := by
      unfold overwriteMem Packet.overwriteMem
      split_ifs with h1 h2
      · exact ⟨_, rfl⟩
      · exact absurd (hcond h1) h2
      · exact ⟨_, rfl⟩
    have hw : pkt.isWrite := by rw [isWrite, hc]; decide
    have hacc : m.accessCmd pkt = .ok (if b then m.store pkt else m, pkt.setData (m.hostBytes pkt)) := by
      rw [accessCmd, if_pos hc, ensure_bind hs, hb, ok_bind, ensure_bind (by simp [hfetch hw])]
    exact ⟨_, _, h.doAtomicAccess_eq hacc rfl, by cases b <;> simp [recordsAfter, hc, store]⟩

end PhysicalMemory

/-! ## The invariant -/

/-- One record for each context at most, and it says where the context's reservation is. -/
structure LockInv (hist : List Entry) (m : PhysicalMemory) : Prop where
  nodup : (m.lockedAddrList.map LockedAddr.contextId).Nodup
  reserved : ∀ c g, ⟨g, c⟩ ∈ m.lockedAddrList ↔ Reserved hist c g

theorem reserved_snoc {c : Nat} {g : Addr} : Reserved (hist ++ [e]) c g ↔
    (e.IsLL c ∧ e.To g) ∨ ((¬ e.IsLL c ∧ ¬ e.IsStore g) ∧ Reserved hist c g) :=
  since_snoc

theorem trackLoadLocked_records (pkt : Packet) (hn : (m.lockedAddrList.map LockedAddr.contextId).Nodup) :
    ((m.trackLoadLocked pkt).lockedAddrList.map LockedAddr.contextId).Nodup ∧
      ∀ g c, ⟨g, c⟩ ∈ (m.trackLoadLocked pkt).lockedAddrList ↔
        (c = pkt.req.contextId ∧ g = LockedAddr.mask pkt.addr) ∨
          (c ≠ pkt.req.contextId ∧ ⟨g, c⟩ ∈ m.lockedAddrList) := by
  rw [PhysicalMemory.trackLoadLocked]
  split
  · next rs hrs =>
    obtain ⟨hm, hiff⟩ := PhysicalMemory.moveRecord_some hrs hn
    exact ⟨by simp only [hm]; exact hn, hiff⟩
  · next hrs =>
    have hnone := PhysicalMemory.moveRecord_none hrs
    constructor
    · rw [map_cons, nodup_cons]
      refine ⟨?_, hn⟩
      intro hmem
      obtain ⟨r, hr, hrc⟩ := mem_map.1 hmem
      exact hnone r hr hrc
    · intro g c
      simp only [mem_cons, LockedAddr.mk.injEq]
      constructor
      · rintro (⟨rfl, rfl⟩ | hg)
        · exact .inl ⟨rfl, rfl⟩
        · exact .inr ⟨hnone _ hg, hg⟩
      · rintro (⟨rfl, rfl⟩ | ⟨-, hg⟩)
        · exact .inl ⟨rfl, rfl⟩
        · exact .inr hg

theorem LockInv.loadLocked (h : LockInv hist m) (hc : pkt.cmd = .LoadLockedReq)
    (hrec : m'.lockedAddrList = (m.trackLoadLocked pkt).lockedAddrList) : LockInv (hist ++ [(m, pkt)]) m' := by
  have hstore : ∀ g, ¬ Entry.IsStore g (m, pkt) := by
    rintro g ⟨h1 | h1, -⟩ <;> exact absurd (hc.symm.trans h1) (by decide)
  have hll : ∀ c, Entry.IsLL c (m, pkt) ↔ c = pkt.req.contextId :=
    fun c => ⟨fun h1 => h1.2.symm, fun h1 => ⟨hc, h1.symm⟩⟩
  obtain ⟨hn, hiff⟩ := trackLoadLocked_records pkt h.nodup
  refine ⟨by rw [hrec]; exact hn, fun c g => ?_⟩
  rw [hrec, hiff, reserved_snoc, hll, h.reserved]
  constructor
  · rintro (⟨h1, h2⟩ | ⟨h1, h2⟩)
    · exact .inl ⟨h1, h2.symm⟩
    · exact .inr ⟨⟨h1, hstore g⟩, h2⟩
  · rintro (⟨h1, h2⟩ | ⟨⟨h1, -⟩, h2⟩)
    · exact .inl ⟨h1, h2.symm⟩
    · exact .inr ⟨h1, h2⟩

theorem LockInv.store (h : LockInv hist m) (hc : pkt.cmd = .WriteReq ∨ pkt.cmd = .StoreCondReq)
    (hrec : m'.lockedAddrList = (m.unlock pkt).lockedAddrList) :
    LockInv (hist ++ [(m, pkt)]) m' := by
  have hll : ∀ c, ¬ Entry.IsLL c (m, pkt) := by
    rintro c ⟨h1, -⟩
    rcases hc with hc | hc <;> exact absurd (hc.symm.trans h1) (by decide)
  refine ⟨?_, fun c g => ?_⟩
  · rw [hrec]
    exact h.nodup.sublist (.map _ filter_sublist)
  · rw [hrec, mem_filter, reserved_snoc, h.reserved]
    simp only [decide_eq_true_eq]
    constructor
    · rintro ⟨h1, h2⟩
      exact .inr ⟨⟨hll c, fun h3 => h2 h3.2.symm⟩, h1⟩
    · rintro (h1 | ⟨⟨-, h1⟩, h2⟩)
      · exact absurd h1.1 (hll c)
      · exact ⟨h2, fun h3 => h1 ⟨hc, h3.symm⟩⟩

/-- The invariant along one access. -/
theorem LockInv.step (h : LockInv hist m) (hs : AccessStep m e m') : LockInv (hist ++ [e]) m' := by
  obtain ⟨m0, pkt⟩ := e
  obtain ⟨hm0, hacc, pkt', hok⟩ := hs
  subst hm0
  obtain ⟨m1, pkt1, hok1, hrec⟩ := hacc.records
  rw [hok] at hok1
  cases hok1
  rw [PhysicalMemory.recordsAfter] at hrec
  split_ifs at hrec with h1 h2
  · exact h.loadLocked h1 hrec
  · exact h.store h2 hrec
  · refine ⟨by rw [hrec]; exact h.nodup, fun c g => ?_⟩
    rw [hrec, reserved_snoc, h.reserved]
    constructor
    · exact fun h3 => .inr ⟨⟨fun h4 => h1 h4.1, fun h4 => h2 h4.1⟩, h3⟩
    · rintro (h3 | h3)
      · exact absurd h3.1.1 h1
      · exact h3.2

end Access

/-! ## Store conditionals -/

/-- A memory as it is built: no reservations. -/
def PhysicalMemory.Fresh (m : PhysicalMemory) : Prop := m.lockedAddrList = []

variable {hist : List Entry} {m : PhysicalMemory}

/-- The records, after any accesses. -/
theorem lockInv_run {m0 : PhysicalMemory} (h0 : m0.Fresh) (h : Run AccessStep m0 hist m) : LockInv hist m := by
  refine h.history ⟨by rw [show m0.lockedAddrList = [] from h0]; simp, fun c g => ?_⟩ .step
  rw [show m0.lockedAddrList = [] from h0]
  exact ⟨fun h1 => absurd h1 (by simp), fun h1 => absurd h1 since_nil⟩

/-- The last load-locked of the context was to the granule, and no access has written the granule since. -/
def Unwritten (hist : List Entry) (c : Nat) (g : Addr) : Prop :=
  Since (fun e => e.IsLL c ∧ e.To g) (fun e => ¬ e.IsLL c ∧ ¬ (e.To g ∧ e.Writes)) hist

/-- The same, with no store conditional, successful or not, addressed to the granule since either. -/
def Untouched (hist : List Entry) (c : Nat) (g : Addr) : Prop :=
  Since (fun e => e.IsLL c ∧ e.To g) (fun e => ¬ e.IsLL c ∧ ¬ (e.To g ∧ (e.Writes ∨ e.2.cmd = .StoreCondReq))) hist

/-- The last load-locked of the context was to the granule, and a swap has overwritten the granule since. -/
def Swapped (hist : List Entry) (c : Nat) (g : Addr) : Prop :=
  ∃ pre ll post, hist = pre ++ ll :: post ∧ ll.IsLL c ∧ ll.To g ∧ (∀ e ∈ post, ¬ e.IsLL c) ∧
    ∃ e ∈ post, e.To g ∧ e.2.cmd = .SwapReq ∧ e.Writes

theorem reserved_iff_untouched {c : Nat} {g : Addr} (hs : ¬ Swapped hist c g) :
    Reserved hist c g ↔ Untouched hist c g := by
  constructor
  · rintro ⟨pre, ll, post, rfl, hll, hpost⟩
    refine ⟨pre, ll, post, rfl, hll, fun e he => ⟨(hpost e he).1, ?_⟩⟩
    rintro ⟨hto, hw | hw⟩
    · rcases hw with hw | hw | hw
      · exact (hpost e he).2 ⟨.inl hw, hto⟩
      · exact (hpost e he).2 ⟨.inr hw.1, hto⟩
      · exact hs ⟨pre, ll, post, rfl, hll.1, hll.2, fun e' he' => (hpost e' he').1, e, he, hto, hw.1, .inr (.inr hw)⟩
    · exact (hpost e he).2 ⟨.inr hw, hto⟩
  · rintro ⟨pre, ll, post, rfl, hll, hpost⟩
    refine ⟨pre, ll, post, rfl, hll, fun e he => ⟨(hpost e he).1, ?_⟩⟩
    rintro ⟨hw | hw, hto⟩
    · exact (hpost e he).2 ⟨hto, .inl (.inl hw)⟩
    · exact (hpost e he).2 ⟨hto, .inr hw⟩

/-- After any accesses, a store conditional of context `c` to granule `g` responds with 1 in `extraData` and writes
memory exactly when the last load-locked of `c` was to `g` and since then no access has written `g` and no store
conditional, successful or not, was addressed to it; otherwise it responds with 0 and leaves memory unchanged. Nothing
is said where a swap has overwritten `g` since that load-locked. -/
theorem storeCond_succeeds_iff {m0 : PhysicalMemory} {sc : Packet} (h0 : m0.Fresh)
    (h : Run AccessStep m0 hist m) (hsc : m.Accepts sc) (hc : sc.cmd = .StoreCondReq)
    (hswap : ¬ Swapped hist sc.req.contextId (LockedAddr.mask sc.addr)) :
    ∃ m' sc', m.doAtomicAccess sc = .ok (m', sc') ∧
      ((sc'.req.extraData = 1 ∧ m'.pmem = blit m.pmem sc.addr sc.size sc.data) ↔
        Untouched hist sc.req.contextId (LockedAddr.mask sc.addr)) ∧
      (¬ Untouched hist sc.req.contextId (LockedAddr.mask sc.addr) → sc'.req.extraData = 0 ∧ m'.pmem = m.pmem) := by
  obtain ⟨m', sc', hok, hx, hm, -⟩ := hsc.storeCond hc
  have hiff : m.Locked sc ↔ Untouched hist sc.req.contextId (LockedAddr.mask sc.addr) :=
    ((lockInv_run h0 h).reserved _ _).trans (reserved_iff_untouched hswap)
  refine ⟨m', sc', hok, ?_, fun hr => ?_⟩
  · rw [← hiff]
    by_cases hl : m.Locked sc
    · simp [hx, hm, hl]
    · simp [hx, hl]
  · rw [← hiff] at hr
    simp [hx, hm, hr]

def smallMemory : PhysicalMemory := { start := 0, size := 16, pmem := fun _ => 0, lockedAddrList := [] }

def loadLockedBy (c : Nat) : Packet := { cmd := .LoadLockedReq, addr := 0, size := 4, req := { contextId := c } }

def storeCondBy (c : Nat) : Packet :=
  { cmd := .StoreCondReq, addr := 0, size := 4, data := fun _ => 7, req := { contextId := c } }

theorem loadLockedBy_accepts (c : Nat) (h1 : m.start = 0) (h2 : m.size = 16) : m.Accepts (loadLockedBy c) :=
  ⟨by simp [loadLockedBy], by simp [loadLockedBy, h1, h2], by simp [loadLockedBy], rfl, fun _ => rfl,
    fun h => by cases h⟩

theorem storeCondBy_accepts (c : Nat) (h1 : m.start = 0) (h2 : m.size = 16) : m.Accepts (storeCondBy c) :=
  ⟨by simp [storeCondBy], by simp [storeCondBy, h1, h2], by simp [storeCondBy], rfl, fun _ => rfl, fun h => by cases h⟩

theorem storeCond_succeeds_iff_alone : ∃ m, Run AccessStep smallMemory [(smallMemory, loadLockedBy 1)] m ∧
    ∃ m' sc', m.doAtomicAccess (storeCondBy 1) = .ok (m', sc') ∧ sc'.req.extraData = 1 := by
  obtain ⟨m, hrun, h1, h2⟩ : ∃ m, Run AccessStep smallMemory [(smallMemory, loadLockedBy 1)] m ∧ m.start = 0 ∧
      m.size = 16 :=
    ⟨_, (Run.nil.snoc ⟨rfl, loadLockedBy_accepts 1 rfl rfl, _, rfl⟩ : Run AccessStep smallMemory ([] ++ [_]) _),
      rfl, rfl⟩
  have hswap : ¬ Swapped [(smallMemory, loadLockedBy 1)] 1 0 := by
    rintro ⟨pre, ll, post, h, -, -, -, e, he, -, hc, -⟩
    have hmem : e ∈ [(smallMemory, loadLockedBy 1)] := by rw [h]; simp [he]
    rw [mem_singleton.1 hmem] at hc
    cases hc
  obtain ⟨m', sc', hok, hiff, -⟩ :=
    storeCond_succeeds_iff (show smallMemory.Fresh from rfl) hrun (storeCondBy_accepts 1 h1 h2) rfl hswap
  have hun : Untouched [(smallMemory, loadLockedBy 1)] 1 0 := ⟨[], _, [], rfl, ⟨⟨rfl, rfl⟩, rfl⟩, by simp⟩
  exact ⟨m, hrun, m', sc', hok, (hiff.2 hun).1⟩

/-- Context 0 reserves the word, the store conditional of context 1 fails and writes nothing, and yet the one of
context 0 fails after it. -/
theorem storeCond_fails_unwritten : ∃ hist m m' sc', smallMemory.Fresh ∧ Run AccessStep smallMemory hist m ∧
    m.Accepts (storeCondBy 0) ∧ Unwritten hist 0 (LockedAddr.mask (storeCondBy 0).addr) ∧
      m.doAtomicAccess (storeCondBy 0) = .ok (m', sc') ∧ sc'.req.extraData = 0 := by
  let m1 := smallMemory.trackLoadLocked (loadLockedBy 0)
  let m2 : PhysicalMemory := { m1 with lockedAddrList := [] }
  have h1 : AccessStep smallMemory (smallMemory, loadLockedBy 0) m1 :=
    ⟨rfl, loadLockedBy_accepts 0 rfl rfl, _, rfl⟩
  have h2 : AccessStep m1 (m1, storeCondBy 1) m2 := ⟨rfl, storeCondBy_accepts 1 rfl rfl, _, rfl⟩
  refine ⟨[(smallMemory, loadLockedBy 0), (m1, storeCondBy 1)], m2, m2,
    { (storeCondBy 0).setExtraData 0 with cmd := .StoreCondResp }, rfl, .snoc (.snoc .nil h1) h2,
    storeCondBy_accepts 0 rfl rfl, ?_, rfl, rfl⟩
  refine ⟨[], _, [(m1, storeCondBy 1)], rfl, ⟨⟨rfl, rfl⟩, rfl⟩, fun e he => ?_⟩
  rw [mem_singleton.1 he]
  refine ⟨fun h => absurd h.1 (by decide), ?_⟩
  rintro ⟨-, hw | hw | hw⟩
  · exact absurd hw (by decide)
  · exact absurd hw.2 (by decide)
  · exact absurd hw.1 (by decide)

end M5.Mem
