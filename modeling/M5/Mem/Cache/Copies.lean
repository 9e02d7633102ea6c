import M5.Lib.Line
import M5.Mem.Cache.Cache

/-!
# The copies in a cache

A cache seen as a map from block addresses to copies: what each function does to the copies, with the addresses of the
frames left behind. `n` is the size of a block.
-/

namespace M5.Mem

open M5.Lib Function Packet LawfulTagStore CacheBlk Option

abbrev Bytes (n : Nat) := Fin n → UInt8

/-- The block as a copy of its bytes. -/
def CacheBlk.copy (n : Nat) (blk : CacheBlk) : Copy (Bytes n) :=
  { writable := blk.isWritable, dirty := blk.isDirty, val := fun k => blk.data k }

/-- Whether a request, with this response, stores its data where the bytes are `p`. -/
def Packet.stores (pkt resp : Packet) (p : Nat → UInt8) : Bool :=
  match pkt.cmd with
  | .WriteReq => true
  | .StoreCondReq => resp.req.extraData = 1
  | .SwapReq => !pkt.req.isCondSwap || pkt.condMatches p
  | _ => false

/-- Whether a request leaves a block with the bytes `p` dirty: all that need an exclusive copy, but for a conditional
swap whose comparison fails. -/
def Packet.dirties (pkt : Packet) (p : Nat → UInt8) : Bool :=
  pkt.needsExclusive && (pkt.cmd != .SwapReq || !pkt.req.isCondSwap || pkt.condMatches p)

namespace Cache

/-! ## One block -/

section Block

variable {n : Nat} {blk b : CacheBlk} {pkt pkt' : Packet}

/-- The block `b` is where `blk` was, at most as valid, and readable if valid. -/
structure Kept (blk b : CacheBlk) : Prop where
  tag : b.tag = blk.tag
  set : b.set = blk.set
  valid : b.isValid → blk.isValid
  readable : b.isValid → b.status.readable

/-- The locks a satisfied request leaves. -/
def locksAfter (blk : CacheBlk) (pkt : Packet) : List Nat :=
  if pkt.cmd = .LoadLockedReq then pkt.req.contextId :: blk.lockList
  else if pkt.cmd = .WriteReq ∨ pkt.cmd = .StoreCondReq then []
  else blk.lockList

/-- A request is satisfied on the block `blk`, which becomes `b`; the packet becomes `pkt'`. -/
structure Served (n : Nat) (blk : CacheBlk) (pkt : Packet) (b : CacheBlk) (pkt' : Packet) : Prop where
  tag : b.tag = blk.tag
  set : b.set = blk.set
  valid : b.status.valid = blk.status.valid
  readable : b.status.readable = blk.status.readable
  writable : b.status.writable → blk.status.writable
  dirty : b.isDirty = (blk.isDirty || pkt.dirties (blk.bytesAt n pkt))
  data : b.data = if pkt.stores pkt' (blk.bytesAt n pkt) then blit blk.data (pkt.getOffset n) pkt.size pkt.data
    else blk.data
  locks : b.lockList = locksAfter blk pkt
  cmd : pkt'.cmd = pkt.cmd
  read : pkt.isRead → ∀ k, k < pkt.size → pkt'.data k = blk.bytesAt n pkt k
  cond : pkt.cmd = .StoreCondReq → pkt'.req.extraData = if pkt.req.contextId ∈ blk.lockList then 1 else 0

theorem overwriteMem_ok (hp : CpuRequest n pkt) (hc : pkt.cmd = .SwapReq) (p : Nat → UInt8) :
    pkt.overwriteMem p = .ok (!pkt.req.isCondSwap || pkt.condMatches p) := by
  unfold overwriteMem
  cases hs : pkt.req.isCondSwap with
  | false => rfl
  | true => simp [(hp.swap hc).2 hs]

theorem setData_apply {p : Nat → UInt8} {k : Nat} (hk : k < pkt.size) : (pkt.setData p).data k = p k :=
  blit_of_mem (Nat.zero_le k) (by omega)

theorem Served.of_read (hc : pkt.cmd = .ReadReq ∨ pkt.cmd = .LoadLockedReq) {ll : Bool} (hll : pkt.isLLSC = ll) :
    ∃ b pkt', (if pkt.size = n then
        .ok ((if ll then blk.trackLoadLocked pkt else blk).clearWritable,
          { pkt.setData (blk.bytesAt n pkt) with shared := true })
      else .ok (if ll then blk.trackLoadLocked pkt else blk, pkt.setData (blk.bytesAt n pkt)) :
        Except Fault (CacheBlk × Packet)) = .ok (b, pkt') ∧ Served n blk pkt b pkt' := by
  have hd : pkt.dirties (blk.bytesAt n pkt) = false := by
    rcases hc with hc | hc <;> simp +decide [dirties, needsExclusive, hc]
  have hs : ∀ pkt', pkt.stores pkt' (blk.bytesAt n pkt) = false := by
    rcases hc with hc | hc <;> simp [stores, hc]
  have hl : locksAfter blk pkt = if ll then pkt.req.contextId :: blk.lockList else blk.lockList := by
    subst hll
    rcases hc with hc | hc <;> simp +decide [locksAfter, isLLSC, hc]
  have hsc : pkt.cmd ≠ .StoreCondReq := by
    rcases hc with hc | hc <;> rw [hc] <;> decide
  split
  · refine ⟨_, _, rfl, ?_⟩
    cases ll <;>
      exact ⟨rfl, rfl, rfl, rfl, fun hw => (by cases hw), by rw [hd, Bool.or_false]; rfl, by rw [hs]; rfl, hl.symm, rfl,
        fun _ k hk => setData_apply hk, fun h => absurd h hsc⟩
  · refine ⟨_, _, rfl, ?_⟩
    cases ll <;>
      exact ⟨rfl, rfl, rfl, rfl, id, by rw [hd, Bool.or_false]; rfl, by rw [hs]; rfl, hl.symm, rfl,
        fun _ k hk => setData_apply hk, fun h => absurd h hsc⟩

theorem satisfy_ok (blk : CacheBlk) (hp : CpuRequest n pkt) :
    ∃ b pkt', blk.satisfyCpuSideRequest n pkt = .ok (b, pkt') ∧ Served n blk pkt b pkt' := by
  rw [satisfyCpuSideRequest, ensure_bind (show pkt.getOffset n + pkt.size ≤ n from hp.fits.2)]
  rcases hp.cmd with hc | hc | hc | hc | hc
  · simp +decide only [hc, isWrite, isRead, isLLSC, needsExclusive, if_false, if_true]
    exact Served.of_read (.inl hc) (by simp +decide [isLLSC, hc] : pkt.isLLSC = false)
  · simp +decide only [hc, isWrite, isLLSC, checkWrite, if_false, if_true]
    refine ⟨_, _, rfl, rfl, rfl, rfl, rfl, id, ?_, ?_, ?_, rfl, ?_, ?_⟩
    all_goals simp +decide [dirties, needsExclusive, isRead, stores, hc, locksAfter,
      isDirty, setDirty, writeData, clearLoadLocks]
  · simp +decide only [hc, isWrite, isRead, isLLSC, needsExclusive, if_false, if_true]
    exact Served.of_read (.inr hc) (by simp +decide [isLLSC, hc] : pkt.isLLSC)
  · simp +decide only [hc, isWrite, isLLSC, checkWrite, if_false, if_true]
    -- the dirty bit is set before the reservation is looked up
    refine ⟨_, _, rfl, ?_, ?_, ?_, ?_, ?_, ?_, ?_, ?_, rfl, ?_, ?_⟩
    all_goals by_cases hl : pkt.req.contextId ∈ blk.lockList
    all_goals simp +decide [dirties, needsExclusive, isRead, stores, hc, hl, locksAfter,
      isDirty, setDirty, writeData, clearLoadLocks, setExtraData,
      getOffset]
  · rw [if_pos hc, cmpAndSwap, ensure_bind (hp.swap hc).1, overwriteMem_ok hp hc]
    refine ⟨_, _, rfl, ?_, ?_, ?_, ?_, ?_, ?_, ?_, ?_, rfl, fun _ k hk => setData_apply hk, fun h => ?_⟩
    all_goals cases how : !pkt.req.isCondSwap || pkt.condMatches (blk.bytesAt n pkt)
    all_goals simp +decide [dirties, needsExclusive, stores, hc, how, locksAfter, isDirty,
      setDirty, writeData] at *

/-- What a satisfied request does to the block and to the packet. -/
theorem satisfy_served (hp : CpuRequest n pkt) (h : blk.satisfyCpuSideRequest n pkt = .ok (b, pkt')) :
    Served n blk pkt b pkt' := by
  obtain ⟨b1, pkt1, h1, hs⟩ := satisfy_ok blk hp
  rw [h1] at h
  cases h
  exact hs

theorem dirties_of_stores {p : Nat → UInt8} (h : pkt.stores pkt' p) : pkt.dirties p := by
  unfold stores at h
  split at h
  · next hc => simp +decide [dirties, needsExclusive, hc]
  · next hc => simp +decide [dirties, needsExclusive, hc]
  · next hc => rw [dirties, needsExclusive, hc, Bool.or_assoc, h]; rfl
  · cases h

theorem Served.kept (h : Served n blk pkt b pkt') (hr : blk.isValid → blk.status.readable) : Kept blk b := by
  have hv : b.isValid = blk.isValid := h.valid
  refine ⟨h.tag, h.set, fun hb => by rw [← hv]; exact hb, fun hb => ?_⟩
  rw [h.readable]
  exact hr (by rw [← hv]; exact hb)

theorem Served.use (h : Served n blk pkt b pkt') : (blk.copy n).Use pkt.needsExclusive (b.copy n) where
  writable := by
    simp only [copy, isWritable, h.valid, Bool.and_eq_true]
    exact .imp_left h.writable
  dirty hd := by
    have hd' : blk.isDirty := hd
    show b.isDirty
    rw [h.dirty, hd', Bool.true_or]
  owned hd := by
    have hd' : b.isDirty := hd
    rw [h.dirty, Bool.or_eq_true, dirties, Bool.and_eq_true] at hd'
    exact hd'.imp_right And.left
  val := by
    cases hs : pkt.stores pkt' (blk.bytesAt n pkt) with
    | false =>
      refine .inl (funext fun k => ?_)
      simp [copy, h.data, hs]
    | true =>
      have hd := dirties_of_stores hs
      refine .inr ⟨?_, ?_⟩
      · rw [dirties, Bool.and_eq_true] at hd
        exact hd.1
      · show b.isDirty
        rw [h.dirty, hd, Bool.or_true]

/-! ### Snoops -/

/-- A packet that a miss sends over the bus: for the whole block. -/
structure BusRequest (n : Nat) (pkt : Packet) : Prop where
  cmd : pkt.cmd = .ReadReq ∨ pkt.cmd = .ReadExReq ∨ pkt.cmd = .UpgradeReq
  size : pkt.size = n
  aligned : pkt.addr % n = 0
  cacheable : pkt.req.isUncacheable = false

/-- What a snoop by a cache with the copy `d` does to the packet: an owner answers. -/
structure Snooped (d : Option (Copy (Bytes n))) (pkt pkt' : Packet) : Prop where
  addr : pkt'.addr = pkt.addr
  size : pkt'.size = pkt.size
  req : pkt'.req = pkt.req
  cmd : pkt'.cmd = if d.any Copy.dirty then pkt.cmd.responseCommand else pkt.cmd
  shared : pkt'.shared = (pkt.shared || (!pkt.isInvalidate && d.isSome))
  inhibit : pkt'.memInhibit = (pkt.memInhibit || d.any Copy.dirty)
  supplied {c : Copy (Bytes n)} : d = some c → c.dirty → ∀ k : Fin n, pkt'.data k = c.val k
  silent : d.any Copy.dirty = false → pkt'.data = pkt.data

theorem Snooped.rfl_none : Snooped (n := n) none pkt pkt :=
  ⟨rfl, rfl, rfl, rfl, by simp, by simp, fun h => (by cases h), fun _ => rfl⟩

/-- The block after a snoop: invalid, or no longer writable. -/
def snoopedBlk (pkt : Packet) (blk : CacheBlk) : CacheBlk :=
  if pkt.isInvalidate then blk.invalidate else blk.clearWritable

/-- The packet after a snoop that finds the block. -/
def marked (pkt : Packet) : Packet := if pkt.isInvalidate then pkt else { pkt with shared := true }

/-- The packet after the snoop of an owner. -/
def answered (n : Nat) (blk : CacheBlk) (pkt : Packet) : Packet :=
  let pkt' := { marked pkt with
    memInhibit := true
    supplyExclusive := blk.isWritable || pkt.supplyExclusive
    cmd := pkt.cmd.responseCommand }
  pkt'.setData (blk.bytesAt n pkt')

theorem handleSnoop_eq (hp : BusRequest n pkt) (hv : blk.isValid) :
    blk.handleSnoop n pkt false false false =
      (if blk.isDirty then do
        ensure .assert (¬ pkt.memInhibit)
        .ok (snoopedBlk pkt blk, answered n blk pkt, none)
      else .ok (snoopedBlk pkt blk, marked pkt, none) : Except Fault (CacheBlk × Packet × Option Packet)) := by
  rw [handleSnoop]
  rcases hp.cmd with hc | hc | hc
  all_goals
    simp +decide only [hv, hc, isRequest, isInvalidate, isRead, needsResponse,
      needsExclusive, ensure_of, ok_bind, Bool.not_true, if_true, if_false, snoopedBlk, marked]
    cases blk.isDirty with
    | false => rfl
    | true =>
      cases hi : pkt.memInhibit with
      | true => rfl
      | false =>
        cases hw : blk.isWritable <;>
          simp +decide [answered, marked, ensure, hc, hw, makeResponse, isInvalidate, needsResponse,
            isRequest]

theorem handleSnoop_spec (hp : BusRequest n pkt) (hv : blk.isValid) (hd : blk.isDirty → pkt.memInhibit = false) :
    ∃ pkt', blk.handleSnoop n pkt false false false = .ok (snoopedBlk pkt blk, pkt', none) ∧
      Snooped (some (blk.copy n)) pkt pkt' := by
  have hmark : marked pkt = { pkt with shared := pkt.shared || !pkt.isInvalidate } := by
    unfold marked
    cases pkt.isInvalidate <;> simp
  rw [handleSnoop_eq hp hv]
  cases hdb : blk.isDirty with
  | false =>
    have hany : (some (blk.copy n)).any Copy.dirty = false := hdb
    refine ⟨marked pkt, rfl, ?_⟩
    rw [hmark]
    refine ⟨rfl, rfl, rfl, by rw [hany]; rfl, by simp, by rw [hany, Bool.or_false], fun hc hcd => ?_, fun _ => rfl⟩
    rw [← some.inj hc] at hcd
    exact absurd hcd (by rw [copy, hdb]; exact Bool.false_ne_true)
  | true =>
    have hany : (some (blk.copy n)).any Copy.dirty := hdb
    refine ⟨answered n blk pkt, ?_, ?_⟩
    · rw [if_pos rfl, ensure_bind (by rw [hd hdb]; exact Bool.false_ne_true)]
    · rw [answered, hmark]
      refine ⟨rfl, rfl, rfl, by rw [hany]; rfl, by simp [setData], by rw [hany, Bool.or_true]; rfl,
        fun hc _ k => ?_, fun hno => ?_⟩
      · rw [← some.inj hc, setData_apply (by rw [hp.size]; exact k.2), bytesAt, getOffset,
          hp.aligned, Nat.zero_add]
        rfl
      · rw [hany] at hno
        cases hno

end Block

/-! ## The copies -/

section Copies

variable {T : TagStore} {n : Nat} {ok : Addr → Prop} {c : Cache T} {a a' : Addr} {f : Frame} {b : CacheBlk}
  {d : Copy (Bytes n)} {pkt : Packet}

/-- The copy of the block with this byte. -/
def copy (n : Nat) (c : Cache T) (a : Addr) : Option (Copy (Bytes n)) :=
  (c.findBlock a).map fun f => (c.blks f).copy n

theorem blkAlign_blkAlign : T.blkAlign (T.blkAlign a) = T.blkAlign a := by
  have h : (a - a % T.blkSize) % T.blkSize = 0 := Nat.mod_eq_zero_of_dvd (Nat.dvd_sub_mod a)
  rw [TagStore.blkAlign, TagStore.blkAlign, h, Nat.sub_zero]

theorem blks_set_self : (c.set (.frame f) b).blks f = b := update_self ..

theorem blks_set_of_ne {g : Frame} (h : g ≠ f) : (c.set (.frame f) b).blks g = c.blks g := update_of_ne h ..

theorem Kept.blkAddr {blk : CacheBlk} (h : Kept blk b) : T.blkAddr b = T.blkAddr blk := by
  rw [TagStore.blkAddr, TagStore.blkAddr, h.tag, h.set]

theorem blks_fillVictim_self : (c.fillVictim pkt).blks (c.victim pkt.addr) =
    fillBlk T pkt { c.blks (c.victim pkt.addr) with tag := T.extractTag pkt.addr } := update_self ..

theorem blks_fillVictim_of_ne (h : f ≠ c.victim pkt.addr) : (c.fillVictim pkt).blks f = c.blks f :=
  update_of_ne h ..

theorem copy_fillBlk {blk : CacheBlk} (hT : T.blkSize = n) (hr : pkt.isRead) :
    (fillBlk T pkt blk).copy n = { writable := !pkt.shared, dirty := false, val := fun k => pkt.data k } := by
  have hval : ∀ k : Fin n, (fillBlk T pkt blk).data k = pkt.data k := by
    intro k
    simp only [fillBlk, if_pos hr]
    exact blit_of_mem (Nat.zero_le _) (by rw [hT]; omega)
  simp only [CacheBlk.copy, hval]
  simp [fillBlk, isWritable, isDirty]

variable [LawfulTagStore T]

/-- A cache between atomic accesses: valid blocks are readable, and their addresses are in `ok`. -/
structure WF (ok : Addr → Prop) (c : Cache T) : Prop where
  tags : Inv c.repl c.blks
  readable : ∀ f, (c.blks f).isValid → (c.blks f).status.readable
  held : ∀ f, (c.blks f).isValid → ok (T.blkAddr (c.blks f))

theorem init_wf : (init T).WF ok :=
  ⟨init_inv, fun f hv => by simp [init, isValid, init_blk] at hv,
    fun f hv => by simp [init, isValid, init_blk] at hv⟩

section

variable (h : c.WF ok)

include h

theorem WF.find_iff : c.findBlock a = some f ↔ (c.blks f).isValid ∧ T.blkAddr (c.blks f) = T.blkAlign a :=
  LawfulTagStore.find_iff h.tags a f

theorem WF.copy_eq_some : c.copy n a = some d ↔
    ∃ f, (c.blks f).isValid ∧ T.blkAddr (c.blks f) = T.blkAlign a ∧ (c.blks f).copy n = d := by
  simp only [copy, map_eq_some_iff, h.find_iff, and_assoc]

theorem WF.findBlock_align : c.findBlock (T.blkAlign a) = c.findBlock a :=
  ext fun f => by rw [h.find_iff, h.find_iff, blkAlign_blkAlign]

theorem WF.copy_congr {c' : Cache T} (h' : c'.WF ok)
    (heq : ∀ f, ((c'.blks f).isValid ∧ T.blkAddr (c'.blks f) = T.blkAlign a) ↔
      ((c.blks f).isValid ∧ T.blkAddr (c.blks f) = T.blkAlign a))
    (hblk : ∀ f, (c.blks f).isValid → T.blkAddr (c.blks f) = T.blkAlign a → c'.blks f = c.blks f) :
    c'.copy n a = c.copy n a := by
  refine ext fun d => ?_
  rw [h.copy_eq_some, h'.copy_eq_some]
  constructor
  · rintro ⟨f, hv, ha, rfl⟩
    obtain ⟨hv', ha'⟩ := (heq f).1 ⟨hv, ha⟩
    exact ⟨f, hv', ha', by rw [hblk f hv' ha']⟩
  · rintro ⟨f, hv, ha, rfl⟩
    obtain ⟨hv', ha'⟩ := (heq f).2 ⟨hv, ha⟩
    exact ⟨f, hv', ha', by rw [hblk f hv ha]⟩

/-! ### Changing a block -/

/-- A block that changes, by the copies it changes. -/
theorem WF.set (hb : Kept (c.blks f) b) : (c.set (.frame f) b).WF ok := by
  refine ⟨update_inv h.tags hb.tag hb.set hb.valid, ?_, ?_⟩
  · exact (forall_update_iff c.blks fun _ b => b.isValid → b.status.readable).2 ⟨hb.readable, fun g _ => h.readable g⟩
  · refine (forall_update_iff c.blks fun _ b => b.isValid → ok (T.blkAddr b)).2 ⟨fun hv => ?_, fun g _ => h.held g⟩
    rw [hb.blkAddr]
    exact h.held f (hb.valid hv)

theorem WF.copy_set_self (hb : Kept (c.blks f) b) (hf : c.findBlock a = some f) :
    (c.set (.frame f) b).copy n a = if b.isValid then some (b.copy n) else none := by
  obtain ⟨hv, ha⟩ := h.find_iff.1 hf
  have h' := h.set hb
  split_ifs with hbv
  · refine h'.copy_eq_some.2 ⟨f, ?_, ?_, ?_⟩
    · rw [blks_set_self]; exact hbv
    · rw [blks_set_self, hb.blkAddr, ha]
    · rw [blks_set_self]
  · refine eq_none_iff_forall_ne_some.2 fun d hd => ?_
    obtain ⟨g, hgv, hga, -⟩ := h'.copy_eq_some.1 hd
    by_cases hgf : g = f
    · rw [hgf, blks_set_self] at hgv
      exact hbv hgv
    · rw [blks_set_of_ne hgf] at hgv hga
      exact hgf (frame_unique h.tags hgv hv (hga.trans ha.symm))

theorem WF.copy_set_of_ne (hb : Kept (c.blks f) b)
    (hne : (c.blks f).isValid → T.blkAddr (c.blks f) ≠ T.blkAlign a) :
    (c.set (.frame f) b).copy n a = c.copy n a := by
  refine h.copy_congr (h.set hb) (fun g => ?_) (fun g hg hga => blks_set_of_ne ?_)
  · by_cases hgf : g = f
    · rw [hgf, blks_set_self, hb.blkAddr]
      exact ⟨fun hg => ⟨hb.valid hg.1, hg.2⟩, fun hg => absurd hg.2 (hne hg.1)⟩
    · rw [blks_set_of_ne hgf]
  · rintro rfl
    exact hne hg hga

/-! ### Touching, filling and snooping -/

theorem WF.touch : (c.touch a).WF ok :=
  ⟨access_inv h.tags a, h.readable, h.held⟩

theorem WF.findBlock_touch : (c.touch a').findBlock a = c.findBlock a :=
  ext fun f => by rw [h.find_iff, h.touch.find_iff]; rfl

theorem WF.copy_touch : (c.touch a').copy n a = c.copy n a :=
  h.copy_congr h.touch (fun _ => .rfl) fun _ _ _ => rfl

theorem WF.blkAddr_fillVictim :
    T.blkAddr ((c.fillVictim pkt).blks (c.victim pkt.addr)) = T.blkAlign pkt.addr := by
  have hset : (c.blks (c.victim pkt.addr)).set = T.extractSet pkt.addr := victim_set h.tags pkt.addr
  rw [blks_fillVictim_self]
  show T.regenerateBlkAddr (T.extractTag pkt.addr) (c.blks (c.victim pkt.addr)).set = _
  rw [hset, regenerate_extract]

section

variable (hn : c.findBlock pkt.addr = none)

include hn

theorem WF.fillVictim (hok : ok (T.blkAlign pkt.addr)) :
    (c.fillVictim pkt).WF ok := by
  have hset : (c.blks (c.victim pkt.addr)).set = T.extractSet pkt.addr := victim_set h.tags pkt.addr
  refine ⟨insert_inv h.tags hn rfl hset, ?_, ?_⟩
  · exact (forall_update_iff c.blks fun _ b => b.isValid → b.status.readable).2 ⟨fun _ => rfl, fun g _ => h.readable g⟩
  · refine (forall_update_iff c.blks fun _ b => b.isValid → ok (T.blkAddr b)).2 ⟨fun _ => ?_, fun g _ => h.held g⟩
    rw [← blks_fillVictim_self, h.blkAddr_fillVictim]
    exact hok

theorem WF.copy_fillVictim_victim (hok : ok (T.blkAlign pkt.addr))
    (hv : (c.blks (c.victim pkt.addr)).isValid) (ha : T.blkAddr (c.blks (c.victim pkt.addr)) = T.blkAlign a) :
    (c.fillVictim pkt).copy n a = none := by
  refine eq_none_iff_forall_ne_some.2 fun d hd => ?_
  obtain ⟨g, hgv, hga, -⟩ := (h.fillVictim hn hok).copy_eq_some.1 hd
  by_cases hg : g = c.victim pkt.addr
  · rw [hg, h.blkAddr_fillVictim, ← ha] at hga
    -- the victim would carry the missing block
    rw [(h.find_iff).2 ⟨hv, hga.symm⟩] at hn
    cases hn
  · rw [blks_fillVictim_of_ne hg] at hgv hga
    exact hg (frame_unique h.tags hgv hv (hga.trans ha.symm))

theorem WF.copy_fillVictim_of_ne (hok : ok (T.blkAlign pkt.addr))
    (hne : T.blkAlign pkt.addr ≠ T.blkAlign a)
    (hvic : (c.blks (c.victim pkt.addr)).isValid → T.blkAddr (c.blks (c.victim pkt.addr)) ≠ T.blkAlign a) :
    (c.fillVictim pkt).copy n a = c.copy n a := by
  refine h.copy_congr (h.fillVictim hn hok) (fun g => ?_) (fun g hg hga => blks_fillVictim_of_ne ?_)
  · by_cases hgv : g = c.victim pkt.addr
    · rw [hgv, h.blkAddr_fillVictim]
      exact ⟨fun hg => absurd hg.2 hne, fun hg => absurd hg.2 (hvic hg.1)⟩
    · rw [blks_fillVictim_of_ne hgv]
  · rintro rfl
    exact hvic hg hga

end

/-- What an atomic snoop does to the copies and to the packet. -/
theorem WF.snoopAtomic_spec (hT : T.blkSize = n) (hp : BusRequest n pkt)
    (hd : (c.copy n pkt.addr).any Copy.dirty → pkt.memInhibit = false) :
    ∃ c' pkt', c.snoopAtomic pkt = .ok (c', pkt') ∧ c'.WF ok ∧ Snooped (c.copy n pkt.addr) pkt pkt' ∧
      c'.copy n pkt.addr = (if pkt.isInvalidate then none else (c.copy n pkt.addr).map .demote) ∧
      ∀ a, T.blkAlign a ≠ T.blkAlign pkt.addr → c'.copy n a = c.copy n a := by
  have hwb : pkt.cmd ≠ .Writeback := by
    rcases hp.cmd with hc | hc | hc <;> rw [hc] <;> exact fun h => (by cases h)
  rw [snoopAtomic, if_neg (by simp [hp.cacheable, hwb])]
  cases hf : c.findBlock pkt.addr with
  | none =>
    have hcopy : c.copy n pkt.addr = none := by rw [copy, hf]; rfl
    have hreq : pkt.isRequest := by
      rcases hp.cmd with hc | hc | hc <;> rw [isRequest, hc] <;> rfl
    refine ⟨c, pkt, ?_, h, ?_, ?_, fun _ _ => rfl⟩
    · simp only [ensure_of hreq, ok_bind]
    · rw [hcopy]; exact .rfl_none
    · rw [hcopy]; simp
  | some f =>
    obtain ⟨hv, ha⟩ := h.find_iff.1 hf
    have hcopy : c.copy n pkt.addr = some ((c.blks f).copy n) := by rw [copy, hf]; rfl
    rw [hcopy] at hd ⊢
    obtain ⟨pkt', hsnoop, hpkt⟩ := handleSnoop_spec hp hv hd
    have hkept : Kept (c.blks f) (snoopedBlk pkt (c.blks f)) := by
      unfold snoopedBlk
      split_ifs
      · exact ⟨rfl, rfl, fun h => (by cases h), fun h => (by cases h)⟩
      · exact ⟨rfl, rfl, id, h.readable f⟩
    refine ⟨c.set (.frame f) (snoopedBlk pkt (c.blks f)), pkt', ?_, h.set hkept, hpkt, ?_, fun a hne => ?_⟩
    · simp only [hT, hsnoop, ok_bind]
    · rw [h.copy_set_self hkept hf, snoopedBlk]
      cases pkt.isInvalidate with
      | true => rfl
      | false =>
        rw [if_neg Bool.false_ne_true, if_pos (show (c.blks f).clearWritable.isValid from hv)]
        rfl
    · exact h.copy_set_of_ne hkept fun _ => ha ▸ hne.symm

end

end Copies

end Cache

end M5.Mem
