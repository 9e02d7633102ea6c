import M5.Mem.AtomicAccess
import M5.Mem.Cache.LRU

/-!
# Coherence of caches in atomic mode

Runs of atomic accesses to any number of caches on one bus over one memory.
-/

namespace M5.Mem.System

open M5.Lib Nat

variable {ι : Type} {top : Topology ι}

section Coherence

variable {s s' : System top} {a : Access ι} {i : ι} {pkt resp : Packet} {mem : PhysicalMemory}

theorem Uses.use {n : Nat} {c c' : Copy (Bytes n)} (h : Uses n pkt resp c c') : c.Use pkt.needsExclusive c' := by
  obtain ⟨blk, b, pkt', hserved, -, rfl, rfl⟩ := h
  exact hserved.use

variable [∀ i, LawfulTagStore (top.tags i)]

/-- The caches are in order, and every line is coherent. -/
structure CoherenceInv (s : System top) : Prop where
  wf : s.WF
  coherent : ∀ B, top.align B = B → (s.line B).Coherent

theorem init_copies (B : Addr) : ((init top mem).line B).copies i = none := by
  refine Option.eq_none_iff_forall_ne_some.2 fun c hc => ?_
  have hwf : (Cache.init (top.tags i)).WF fun _ => True := Cache.init_wf
  obtain ⟨f, hv, -⟩ := hwf.copy_eq_some.1 hc
  simp [Cache.init, CacheBlk.isValid, LawfulTagStore.init_blk] at hv

theorem CoherenceInv.init : (System.init top mem).CoherenceInv := by
  refine ⟨fun i => Cache.init_wf, fun B _ => ⟨fun h => ?_, fun h => ?_⟩⟩
  · rw [init_copies] at h
    cases h
  · rw [init_copies] at h
    cases h

/-- Cache `i` holds the block at `B` as `blk`. -/
def Holds (s : System top) (i : ι) (B : Addr) (blk : CacheBlk) : Prop :=
  ∃ f, (s.caches i).blks f = blk ∧ blk.isValid ∧ (top.tags i).blkAddr blk = B

theorem Holds.copy (h : s.WF) {B : Addr} {blk : CacheBlk} (hb : s.Holds i B blk) :
    top.align B = B ∧ (s.line B).copies i = some (blk.copy top.blkSize) := by
  obtain ⟨f, rfl, hv, rfl⟩ := hb
  have hal := LawfulTagStore.align_blkAddr (h i).tags hv
  exact ⟨(top.blkAlign_eq i _).symm.trans hal, (h i).copy_eq_some.2 ⟨f, hv, hal.symm, rfl⟩⟩

theorem exists_holds (h : s.WF) {B : Addr} (hB : top.align B = B) {c : Copy (Bytes top.blkSize)}
    (hc : (s.line B).copies i = some c) : ∃ blk, s.Holds i B blk ∧ blk.copy top.blkSize = c := by
  obtain ⟨f, hv, ha, rfl⟩ := (h i).copy_eq_some.1 hc
  exact ⟨_, ⟨f, rfl, hv, ha.trans ((top.blkAlign_eq i B).trans hB)⟩, rfl⟩

variable [DecidableEq ι]

theorem Outcome.coherenceInv (h : s.CoherenceInv) (ho : Outcome s i pkt resp s') (hwf : s'.WF) : s'.CoherenceInv := by
  refine ⟨hwf, fun B hB => ?_⟩
  by_cases hne : B = top.align pkt.addr
  · rw [hne] at hB ⊢
    rcases ho.here with hstep | ⟨-, -, hsame⟩
    · exact hstep.lineCoherent Uses.use (h.coherent _ hB)
    · rw [hsame]
      exact h.coherent _ hB
  · rcases ho.there B hB hne with hsame | hev
    · rw [hsame]
      exact h.coherent B hB
    · rw [hev]
      exact (h.coherent B hB).evict

theorem CoherenceInv.access (h : s.CoherenceInv) (hp : s.Accepts pkt) (i : ι) :
    ∃ s' resp, s.atomicAccess i pkt = .ok (s', resp) ∧ Outcome s i pkt resp s' ∧ s'.CoherenceInv := by
  obtain ⟨s', resp, hok, hwf, ho⟩ := atomicAccess_outcome h.wf (h.coherent _ (align_align _)) hp i
  exact ⟨s', resp, hok, ho, ho.coherenceInv h hwf⟩

/-- An access is a step of each line. -/
theorem CoherenceInv.step (h : s.CoherenceInv) (hs : AccessStep s a s') :
    Outcome s a.port a.pkt a.resp s' ∧ s'.CoherenceInv := by
  obtain ⟨s1, resp, hok, ho, h1⟩ := h.access hs.1 a.port
  rw [hs.2] at hok
  cases hok
  exact ⟨ho, h1⟩

theorem coherenceInv_run {hist : List (Access ι)} (h : Run AccessStep (init top mem) hist s) : s.CoherenceInv :=
  h.invariant .init fun h hs => (h.step hs).2

/-- In every state between accesses a block that some cache holds writable is held by no other, and at most one cache
holds it dirty; and every access ends, so no assertion on its way fails. -/
theorem coherence {hist : List (Access ι)} (h : Run AccessStep (init top mem) hist s) :
    (∀ B i blk, s.Holds i B blk → blk.isWritable → ∀ j blk', s.Holds j B blk' → j = i) ∧
      (∀ B i j blk blk', s.Holds i B blk → blk.isDirty → s.Holds j B blk' → blk'.isDirty → i = j) ∧
      ∀ i pkt, s.Accepts pkt → ∃ s' resp, s.atomicAccess i pkt = .ok (s', resp) := by
  have hinv := coherenceInv_run h
  refine ⟨fun B i blk hi hw j blk' hj => ?_, fun B i j blk blk' hi hd hj hd' => ?_, fun i pkt hp => ?_⟩
  · obtain ⟨hB, hci⟩ := hi.copy hinv.wf
    exact ((hinv.coherent B hB).alone hci hw (hj.copy hinv.wf).2).symm
  · obtain ⟨hB, hci⟩ := hi.copy hinv.wf
    exact (hinv.coherent B hB).owner hci hd (hj.copy hinv.wf).2 hd'
  · obtain ⟨s', resp, hok, -⟩ := hinv.access hp i
    exact ⟨s', resp, hok⟩

end Coherence

/-! ## Values -/

section Values

/-- Memory without caches: what an access, with its response, writes to it. -/
def store (img : Addr → UInt8) (a : Access ι) : Addr → UInt8 :=
  if a.pkt.stores a.resp (fun k => img (a.pkt.addr + k)) then blit img a.pkt.addr a.pkt.size a.pkt.data else img

/-- The access takes a block away from a dirty owner, whose bytes memory does not have, by a conditional swap whose
comparison fails: the new copy is not marked dirty. -/
def Loses (s : System top) (a : Access ι) : Prop :=
  a.pkt.cmd = .SwapReq ∧ a.pkt.req.isCondSwap ∧
    (∀ blk, s.Holds a.port (top.align a.pkt.addr) blk → ¬ blk.isWritable) ∧
    ∃ j blk, s.Holds j (top.align a.pkt.addr) blk ∧ blk.isDirty ∧
      ¬ a.pkt.condMatches (blk.bytesAt top.blkSize a.pkt) ∧
      ∃ k, k < top.blkSize ∧ blk.data k ≠ s.mem.pmem (top.align a.pkt.addr + k)

variable {s s' : System top} {a : Access ι} {img : Addr → UInt8}

def blockOf (n : Nat) (img : Addr → UInt8) (B : Addr) : Bytes n := fun k => img (B + k)

/-! ### Bytes of a block and bytes of the image -/

variable {p q : Nat → UInt8} {pkt : Packet} {mem : PhysicalMemory}

section

variable (h : ∀ k, k < pkt.size → p k = q k)

include h

theorem condMatches_congr : pkt.condMatches p = pkt.condMatches q := by
  unfold Packet.condMatches
  refine Bool.eq_iff_iff.2 ?_
  simp only [List.all_eq_true, List.mem_range, decide_eq_true_eq]
  exact forall₂_congr fun k hk => by rw [h k hk]

theorem stores_congr {resp : Packet} : pkt.stores resp p = pkt.stores resp q := by
  unfold Packet.stores
  split <;> simp only [condMatches_congr h]

theorem dirties_congr : pkt.dirties p = pkt.dirties q := by
  simp only [Packet.dirties, condMatches_congr h]

end

theorem align_add_mod (a : Addr) : top.align a + a % top.blkSize = a := Nat.sub_add_cancel (mod_le ..)

theorem bytesAt_eq {blk : CacheBlk} (hp : Cache.CpuRequest top.blkSize pkt)
    (hval : (blk.copy top.blkSize).val = blockOf top.blkSize img (top.align pkt.addr)) {k : Nat} (hk : k < pkt.size) :
    blk.bytesAt top.blkSize pkt k = img (pkt.addr + k) := by
  have hlt : pkt.addr % top.blkSize + k < top.blkSize := Nat.lt_of_lt_of_le (Nat.add_lt_add_left hk _) hp.fits.2
  have haddr : top.align pkt.addr + (pkt.addr % top.blkSize + k) = pkt.addr + k := by
    rw [← Nat.add_assoc, align_add_mod]
  rw [← haddr]
  exact congrFun hval ⟨pkt.addr % top.blkSize + k, hlt⟩

theorem Served.val_eq {blk b : CacheBlk} {pkt' : Packet} (hp : Cache.CpuRequest top.blkSize a.pkt)
    (hserved : Cache.Served top.blkSize blk a.pkt b pkt')
    (hresp : a.resp = { pkt' with cmd := a.pkt.cmd.responseCommand })
    (hval : (blk.copy top.blkSize).val = blockOf top.blkSize img (top.align a.pkt.addr)) :
    (b.copy top.blkSize).val = blockOf top.blkSize (store img a) (top.align a.pkt.addr) := by
  have hst : a.pkt.stores a.resp (fun k => img (a.pkt.addr + k)) =
      a.pkt.stores pkt' (blk.bytesAt top.blkSize a.pkt) := by
    rw [hresp]
    exact (stores_congr fun k hk => (bytesAt_eq hp hval hk).symm).trans rfl
  refine funext fun k => ?_
  have hk : blk.data k = img (top.align a.pkt.addr + k) := congrFun hval k
  show b.data k = store img a (top.align a.pkt.addr + k)
  rw [store, hst, hserved.data]
  split_ifs
  · have hshift : blit img a.pkt.addr a.pkt.size a.pkt.data (top.align a.pkt.addr + k) =
        blit (fun y => img (top.align a.pkt.addr + y)) (a.pkt.addr % top.blkSize) a.pkt.size a.pkt.data k := by
      rw [← blit_add, align_add_mod]
    rw [hshift]
    exact blit_congr hk
  · exact hk

theorem blockOf_store_of_ne {B : Addr} (hp : Cache.CpuRequest top.blkSize a.pkt) (hB : top.align B = B)
    (hne : B ≠ top.align a.pkt.addr) : blockOf top.blkSize (store img a) B = blockOf top.blkSize img B := by
  refine funext fun k => ?_
  unfold blockOf store
  split_ifs
  · refine blit_of_not_mem fun hk => aligned_disjoint hB (align_align a.pkt.addr) hne k.2 ?_
    refine ⟨le_trans (sub_le ..) hk.1, lt_of_lt_of_le hk.2 ?_⟩
    calc a.pkt.addr + a.pkt.size
        = top.align a.pkt.addr + (a.pkt.addr % top.blkSize + a.pkt.size) := by rw [← add_assoc, align_add_mod]
      _ ≤ top.align a.pkt.addr + top.blkSize := Nat.add_le_add_left hp.fits.2 _
  · rfl

/-! ### The invariant -/

variable [∀ i, LawfulTagStore (top.tags i)]

/-- Every line has the values of the image. -/
structure ValueInv (s : System top) (img : Addr → UInt8) : Prop extends CoherenceInv s where
  current : ∀ B, top.align B = B → (s.line B).Current (blockOf top.blkSize img B)

theorem ValueInv.init : (System.init top mem).ValueInv mem.pmem := by
  refine ⟨.init, fun B _ => ⟨fun hc => ?_, .inl rfl⟩⟩
  rw [init_copies] at hc
  cases hc

theorem ValueInv.keeps (h : s.ValueInv img) (hp : Cache.CpuRequest top.blkSize a.pkt) (hl : ¬ s.Loses a)
    (hx : a.pkt.needsExclusive)
    (hw : ∀ c, (s.line (top.align a.pkt.addr)).copies a.port = some c → c.writable = false) :
    (s.line (top.align a.pkt.addr)).mem = blockOf top.blkSize img (top.align a.pkt.addr) ∨
      ∀ c c', Uses top.blkSize a.pkt a.resp c c' →
        c.val = blockOf top.blkSize img (top.align a.pkt.addr) → c'.dirty := by
  have hB : top.align (top.align a.pkt.addr) = top.align a.pkt.addr := align_align _
  have hcur := h.current _ hB
  by_cases hm : (s.line (top.align a.pkt.addr)).mem = blockOf top.blkSize img (top.align a.pkt.addr)
  · exact .inl hm
  refine .inr fun c c' hU hcv => ?_
  obtain ⟨blk, b, pkt', hserved, -, rfl, rfl⟩ := hU
  obtain ⟨j, d, hd, hdirty⟩ := hcur.mem.resolve_left hm
  obtain ⟨blk', hblk', rfl⟩ := exists_holds h.wf hB hd
  have hval' := hcur.copy hd
  show b.isDirty
  rw [hserved.dirty, Bool.or_eq_true]
  refine .inr ?_
  by_contra hnd
  -- only a conditional swap that fails leaves the copy clean
  have hbytes : ∀ k, k < a.pkt.size → blk.bytesAt top.blkSize a.pkt k = blk'.bytesAt top.blkSize a.pkt k :=
    fun k hk => (bytesAt_eq hp hcv hk).trans (bytesAt_eq hp hval' hk).symm
  rw [dirties_congr hbytes, Packet.dirties, hx, Bool.true_and] at hnd
  simp only [Bool.or_eq_true, bne_iff_ne, Bool.not_eq_true', not_or, not_not, Bool.not_eq_false] at hnd
  obtain ⟨k, hk⟩ := Function.ne_iff.1 hm
  refine hl ⟨hnd.1.1, hnd.1.2, fun blk1 hblk1 hw1 => ?_, j, blk', hblk', hdirty, hnd.2, k, k.2, ?_⟩
  · have := hw _ (hblk1.copy h.wf).2
    exact absurd hw1 (Bool.eq_false_iff.1 this)
  · intro heq
    exact hk (heq.symm.trans (congrFun hval' k))

variable [DecidableEq ι]

def KeepingStep (s : System top) (a : Access ι) (s' : System top) : Prop := AccessStep s a s' ∧ ¬ s.Loses a

theorem ValueInv.reads (h : s.ValueInv img) (hs : AccessStep s a s') (hr : a.pkt.isRead) {k : Nat}
    (hk : k < a.pkt.size) : a.resp.data k = img (a.pkt.addr + k) := by
  obtain ⟨ho, -⟩ := h.toCoherenceInv.step hs
  rcases ho.here with hstep | ⟨hc, -, -⟩
  · obtain ⟨_, _, ⟨blk, b, pkt', hserved, hresp, rfl, rfl⟩, hcv⟩ := hstep.start (h.current _ (align_align _))
    rw [hresp]
    exact (hserved.read hr k hk).trans (bytesAt_eq hs.1.request hcv hk)
  · rw [Packet.isRead, hc] at hr
    cases hr

/-- An access that loses no bytes does to the lines what it does to the image. -/
theorem ValueInv.step (h : s.ValueInv img) (hs : AccessStep s a s') (hl : ¬ s.Loses a) : s'.ValueInv (store img a) := by
  obtain ⟨ho, hcoh⟩ := h.toCoherenceInv.step hs
  have hp := hs.1.request
  refine ⟨hcoh, fun B hB => ?_⟩
  by_cases hne : B = top.align a.pkt.addr
  · rw [hne] at hB ⊢
    rcases ho.here with hstep | ⟨hc, hx, hsame⟩
    · obtain ⟨_, _, ⟨blk, b, pkt', hserved, hresp, rfl, rfl⟩, hcv, hcur⟩ :=
        hstep.current Uses.use (h.coherent _ hB) (h.current _ hB) (h.keeps hp hl)
      exact Served.val_eq hp hserved hresp hcv ▸ hcur
    · have hst : store img a = img := by simp [store, Packet.stores, hc, hx]
      rw [hst, hsame]
      exact h.current _ hB
  · rw [blockOf_store_of_ne hp hB hne]
    rcases ho.there B hB hne with hsame | hev
    · rw [hsame]
      exact h.current B hB
    · rw [hev]
      exact (h.current B hB).evict

/-- In every run whose accesses lose nothing: all copies of a block have the bytes that were last written, memory has
them too unless a copy is dirty, and every access reads them. -/
theorem values {hist : List (Access ι)} (h : Run KeepingStep (init top mem) hist s) :
    (∀ B i blk, s.Holds i B blk → ∀ k, k < top.blkSize → blk.data k = hist.foldl store mem.pmem (B + k)) ∧
      (∀ B, top.align B = B → ∀ k, k < top.blkSize → hist.foldl store mem.pmem (B + k) ≠ s.mem.pmem (B + k) →
        ∃ i blk, s.Holds i B blk ∧ blk.isDirty) ∧
      ∀ a s', AccessStep s a s' → a.pkt.isRead → ∀ k, k < a.pkt.size →
        a.resp.data k = hist.foldl store mem.pmem (a.pkt.addr + k) := by
  have hinv : s.ValueInv (hist.foldl store mem.pmem) :=
    h.refines .init fun h hs => h.step hs.1 hs.2
  refine ⟨fun B i blk hi k hk => ?_, fun B hB k hk hne => ?_, fun a s' hs hr k hk => hinv.reads hs hr hk⟩
  · obtain ⟨hB, hc⟩ := hi.copy hinv.wf
    exact congrFun ((hinv.current B hB).copy hc) ⟨k, hk⟩
  · rcases (hinv.current B hB).mem with hm | ⟨i, c, hc, hd⟩
    · exact absurd (congrFun hm ⟨k, hk⟩).symm hne
    · obtain ⟨blk, hblk, rfl⟩ := exists_holds hinv.wf hB hc
      exact ⟨i, blk, hblk, hd⟩

end Values

/-! ## Two caches of one block -/

def twoCaches : Topology Bool where
  tags := fun _ => LRU oneFrame
  blkSize := 8
  snoopPorts := [false, true]
  blkSize_eq := fun _ => rfl
  nodup := by decide
  complete := by decide

instance (i : Bool) : LawfulTagStore (twoCaches.tags i) := LRU.lawful oneFrame

def zeroMemory : PhysicalMemory := { start := 0, size := 64, pmem := fun _ => 0, lockedAddrList := [] }

variable [DecidableEq ι]

/-- The result of an access that is known to succeed. -/
def resultOf (s : System top) (i : ι) (pkt : Packet) : System top × Packet :=
  match s.atomicAccess i pkt with
  | .ok r => r
  | .error _ => (s, pkt)

def accessOf (s : System top) (i : ι) (pkt : Packet) : Access ι := ⟨i, pkt, (resultOf s i pkt).2⟩

def writeOnes : Packet := { cmd := .WriteReq, addr := 0, size := 4, data := fun _ => 1 }

/-- A conditional swap of the first word, for the value zero. -/
def swapIfZero : Packet := { cmd := .SwapReq, addr := 0, size := 4, data := fun _ => 2, req := { isCondSwap := true } }

def written : System twoCaches × Packet := resultOf (init twoCaches zeroMemory) false writeOnes

def swapped : System twoCaches × Packet := resultOf written.1 true swapIfZero

theorem word_accepts {s : System twoCaches} {pkt : Packet} (hc : pkt = writeOnes ∨ pkt = swapIfZero)
    (hm : s.mem.start = 0 ∧ s.mem.size = 64) : s.Accepts pkt := by
  have hr : s.mem.start ≤ 0 ∧ 0 + 8 ≤ s.mem.start + s.mem.size := by
    rw [hm.1, hm.2]; decide
  rcases hc with rfl | rfl
  · exact ⟨⟨.inr (.inl rfl), by decide, rfl, fun h => (by cases h)⟩, hr, rfl⟩
  · exact ⟨⟨.inr (.inr (.inr (.inr rfl))), by decide, rfl, fun _ => by decide⟩, hr, rfl⟩

theorem written_step : AccessStep (init twoCaches zeroMemory)
    (accessOf (init twoCaches zeroMemory) false writeOnes) written.1 :=
  ⟨word_accepts (.inl rfl) ⟨rfl, rfl⟩, rfl⟩

theorem swapped_step : AccessStep written.1 (accessOf written.1 true swapIfZero) swapped.1 :=
  ⟨word_accepts (.inr rfl) ⟨rfl, rfl⟩, rfl⟩

theorem coherence_written : ¬∃ blk, written.1.Holds true 0 blk := fun ⟨_, h⟩ =>
  nomatch (coherence (.snoc .nil written_step)).1 0 false _ ⟨0, rfl, rfl, rfl⟩ rfl true _ h

theorem values_written : ∃ blk, written.1.Holds false 0 blk ∧ blk.data 0 = 1 :=
  have h := ⟨0, rfl, rfl, rfl⟩
  ⟨_, h, (values (.snoc .nil ⟨written_step, fun h => (by cases h.1)⟩)).1 0 false _ h 0 (by decide)⟩

/-- After the failed swap the ones are in the cache only, and no copy is dirty. -/
theorem values_lost : ∃ hist s, Run AccessStep (init twoCaches zeroMemory) hist s ∧
    ∃ blk, s.Holds true 0 blk ∧ blk.data 0 = 1 ∧ s.mem.pmem 0 = 0 ∧
      ∀ j blk', s.Holds j 0 blk' → blk'.isDirty = false := by
  have hrun := Run.snoc (Run.snoc Run.nil written_step) swapped_step
  refine ⟨_, swapped.1, hrun, _, ⟨0, rfl, rfl, rfl⟩, rfl, rfl, fun j blk' hj => ?_⟩
  have hc := (hj.copy (coherenceInv_run hrun).wf).2
  cases j with
  | false => cases hc
  | true =>
    have hd : ((swapped.1.line 0).copies true).map Copy.dirty = some false := rfl
    rw [hc] at hd
    exact Option.some.inj hd

end M5.Mem.System
