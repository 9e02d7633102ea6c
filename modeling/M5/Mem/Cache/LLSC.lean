import M5.Lib.Run
import M5.Mem.Cache.Copies
import M5.Mem.Cache.LRU

/-!
# Load-locked and store-conditional in the cache

What a cache does to its blocks, one call at a time: requests of the CPU side, fills with the requests they satisfy,
snoops and invalidations. The load locks of a block frame are compared with the history: a store conditional should
succeed only if its context has loaded the block locked, and the block has stayed and was not written since.

The source does not clear the locks when a swap overwrites the block, nor when a fill takes over a valid frame. Away
from these two, the locks of a frame are what the history says.
-/

namespace M5.Mem.Cache

open M5.Lib Function LawfulTagStore

/-- The cache, and the block of the response that is being handled. -/
structure CallState (T : TagStore) where
  cache : Cache T
  busy : Option BlkPtr

inductive BlkCall
  /-- A request of the CPU side. -/
  | access (pkt : Packet)
  /-- The fill of a response, with the outstanding misses. -/
  | fill (mshrs : Addr → Option Bool) (resp : Packet)
  /-- A request that waited for the response. -/
  | target (pkt : Packet)
  /-- A snoop that waited for the response. -/
  | deferredSnoop (pkt : Packet) (pendingInval : Bool)
  /-- The end of the response, with the invalidation it may ask for. -/
  | finish (inval : Bool)
  | snoop (pkt : Packet) (isTiming : Bool)
  | invalidate (addr : Addr)
  /-- The read permission is dropped while an upgrade is outstanding. -/
  | unreadable (addr : Addr)

namespace CallState

variable {T : TagStore}

def init (T : TagStore) : CallState T := { cache := .init T, busy := none }

/-- Change the block an address is found in. -/
def modify (s : CallState T) (addr : Addr) (g : CacheBlk → CacheBlk) : CallState T :=
  match s.cache.findBlock addr with
  | some f => { s with cache := s.cache.set (.frame f) (g (s.cache.blks f)) }
  | none => s

/-- One call; the packet is the request of the CPU side once it is satisfied. -/
def perform (s : CallState T) : BlkCall → Except Fault (CallState T × Option Packet)
  | .access pkt => do
    let r ← s.cache.access (fun _ => none) pkt
    .ok ({ s with cache := r.cache }, if r.satisfied then some r.pkt else none)
  | .fill mshrs resp => do
    let (p, cache, _) ← s.cache.handleFill mshrs resp (s.cache.findBlock resp.addr) []
    .ok ({ cache, busy := some p }, none)
  | .target pkt =>
    match s.busy with
    | none => .error .assert
    | some p => do
      let (blk, pkt) ← (s.cache.get p).satisfyCpuSideRequest T.blkSize pkt
      .ok ({ s with cache := s.cache.set p blk }, some pkt)
  | .deferredSnoop pkt pendingInval =>
    match s.busy with
    | none => .error .assert
    | some p => do
      let (blk, _, _) ← (s.cache.get p).handleSnoop T.blkSize pkt true true pendingInval
      .ok ({ s with cache := s.cache.set p blk }, none)
  | .finish inval =>
    match s.busy with
    | none => .error .assert
    | some p =>
      let blk := s.cache.get p
      -- a temporary block is given up
      .ok ({ cache := s.cache.set p (if inval || p = .temp then blk.invalidate else blk), busy := none }, none)
  | .snoop pkt isTiming =>
    match s.cache.findBlock pkt.addr with
    | none => .ok (s, none)
    | some f => do
      let (blk, _, _) ← (s.cache.blks f).handleSnoop T.blkSize pkt isTiming false false
      .ok ({ s with cache := s.cache.set (.frame f) blk }, none)
  | .invalidate addr => .ok (s.modify addr .invalidate, none)
  | .unreadable addr => .ok (s.modify addr .clearReadable, none)

/-- The block with this address is in the cache. -/
def Resident (s : CallState T) (B : Addr) : Prop :=
  ∃ p, (s.cache.get p).isValid ∧ T.blkAddr (s.cache.get p) = B

end CallState

/-- When a call can happen: outside a response, or on the valid block of one. -/
def CallState.Ready {T : TagStore} (s : CallState T) : BlkCall → Prop
  | .access pkt => s.busy = none ∧ CpuRequest T.blkSize pkt
  | .fill _ _ | .snoop _ _ | .invalidate _ | .unreadable _ => s.busy = none
  | .target pkt => CpuRequest T.blkSize pkt ∧ ∃ p, s.busy = some p ∧ (s.cache.get p).isValid ∧
    T.blkAddr (s.cache.get p) = T.blkAlign pkt.addr
  | .deferredSnoop _ _ | .finish _ => True

/-! ## Histories -/

/-- A call of a history, with the states around it and the request it has satisfied. -/
structure CallEvent (T : TagStore) where
  before : CallState T
  call : BlkCall
  after : CallState T
  resp : Option Packet

namespace CallEvent

variable {T : TagStore}

variable (e : CallEvent T)

/-- The request the call satisfies, with the packet as it comes back. -/
def Satisfies (pkt resp : Packet) : Prop :=
  (e.call = .access pkt ∨ e.call = .target pkt) ∧ e.resp = some resp

/-- A load-locked of the context to the block is performed. -/
def Loads (c : Nat) (B : Addr) : Prop :=
  ∃ pkt resp, e.Satisfies pkt resp ∧ pkt.cmd = .LoadLockedReq ∧ pkt.req.contextId = c ∧ T.blkAlign pkt.addr = B

/-- The block is written: by a store, a successful store conditional or a swap that overwrites. -/
def Writes (B : Addr) : Prop :=
  ∃ pkt resp, e.Satisfies pkt resp ∧ T.blkAlign pkt.addr = B ∧
    (pkt.cmd = .WriteReq ∨ (pkt.cmd = .StoreCondReq ∧ resp.req.extraData = 1) ∨
      (pkt.cmd = .SwapReq ∧ ∃ p, (e.before.cache.get p).isValid ∧ T.blkAddr (e.before.cache.get p) = B ∧
        pkt.overwriteMem ((e.before.cache.get p).bytesAt T.blkSize pkt) = .ok true))

/-- A store conditional of the context to the block is reported successful. -/
def Succeeds (c : Nat) (B : Addr) : Prop :=
  ∃ pkt resp, e.Satisfies pkt resp ∧ pkt.cmd = .StoreCondReq ∧ pkt.req.contextId = c ∧ T.blkAlign pkt.addr = B ∧
    resp.req.extraData = 1

end CallEvent

/-- One call, with its entry in the history. -/
def CallStep {T : TagStore} (s : CallState T) (e : CallEvent T) (s' : CallState T) : Prop :=
  e.before = s ∧ e.after = s' ∧ s.Ready e.call ∧ s.perform e.call = .ok (s', e.resp)

theorem CallStep.entry {T : TagStore} {s s' : CallState T} {e : CallEvent T} (h : CallStep s e s') :
    ∃ call r, e = ⟨s, call, s', r⟩ ∧ s.Ready call ∧ s.perform call = .ok (s', r) := by
  obtain ⟨rfl, rfl, hr, hok⟩ := h
  exact ⟨_, _, rfl, hr, hok⟩

/-- The context has loaded the block locked, and since then the block was in the cache and not written. -/
def LockedSince {T : TagStore} (hist : List (CallEvent T)) (c : Nat) (B : Addr) : Prop :=
  Since (fun e => e.Loads c B ∧ e.after.Resident B) (fun e => e.after.Resident B ∧ ¬ e.Writes B) hist

/-- The call does not reach a place where the source forgets to clear load locks: a swap overwrites only a block
without locks, and a fill takes over only a frame without locks. -/
def CallState.Clears {T : TagStore} (s : CallState T) : BlkCall → Prop
  | .access pkt => pkt.cmd = .SwapReq → ∀ f, s.cache.findBlock pkt.addr = some f → (s.cache.blks f).isWritable →
    pkt.overwriteMem ((s.cache.blks f).bytesAt T.blkSize pkt) = .ok true → (s.cache.blks f).lockList = []
  | .target pkt => pkt.cmd = .SwapReq → ∀ p, s.busy = some p →
    pkt.overwriteMem ((s.cache.get p).bytesAt T.blkSize pkt) = .ok true → (s.cache.get p).lockList = []
  | .fill mshrs resp => s.cache.findBlock resp.addr = none →
    (s.cache.blks (T.findVictim s.cache.repl s.cache.blks resp.addr)).isValid →
    mshrs (T.blkAddr (s.cache.blks (T.findVictim s.cache.repl s.cache.blks resp.addr))) = none →
    (s.cache.blks (T.findVictim s.cache.repl s.cache.blks resp.addr)).lockList = []
  | _ => True

/-- Calls that satisfy no request. -/
def BlkCall.Quiet : BlkCall → Prop
  | .access _ | .target _ => False
  | _ => True

/-- The request is satisfied on the valid block `p`, which has its address. -/
def CallState.Serves {T : TagStore} (s : CallState T) (p : BlkPtr) (pkt : Packet) (b : CacheBlk) (pkt' : Packet) :
    Prop :=
  CpuRequest T.blkSize pkt ∧ (s.cache.get p).isValid ∧ T.blkAddr (s.cache.get p) = T.blkAlign pkt.addr ∧
    (s.cache.get p).satisfyCpuSideRequest T.blkSize pkt = .ok (b, pkt')

/-! ## What a call does to a block -/

section Block

variable {n : Nat} {blk b : CacheBlk} {pkt pkt' : Packet}

/-- The block is where it was, and either as valid and locked as it was or invalidated. -/
structure Weakened (blk b : CacheBlk) : Prop where
  tag : b.tag = blk.tag
  set : b.set = blk.set
  state : (b.isValid = false ∧ b.lockList = []) ∨ (b.isValid = blk.isValid ∧ b.lockList = blk.lockList)

theorem Weakened.valid (h : Weakened blk b) (hv : b.isValid) : blk.isValid := by
  rcases h.state with ⟨h1, -⟩ | ⟨h1, -⟩
  · rw [h1] at hv; cases hv
  · rw [← h1]; exact hv

theorem weakened_invalidate (blk : CacheBlk) : Weakened blk blk.invalidate :=
  ⟨rfl, rfl, .inl ⟨rfl, rfl⟩⟩

/-- A snoop invalidates a block, or leaves its locks. -/
theorem snoop_spec {t d i : Bool} {r : Option Packet} (h : blk.handleSnoop n pkt t d i = .ok (b, pkt', r)) :
    Weakened blk b := by
  rw [CacheBlk.handleSnoop, ensure_bind_eq_ok, ensure_bind_eq_ok, ensure_bind_eq_ok] at h
  obtain ⟨-, -, -, h⟩ := h
  split at h
  · cases h
    exact ⟨rfl, rfl, .inr ⟨rfl, rfl⟩⟩
  · rw [ensure_bind_eq_ok, bind_eq_ok] at h
    obtain ⟨-, ⟨pkt1, r1⟩, -, h⟩ := h
    cases h
    split
    · split
      · exact ⟨rfl, rfl, .inl ⟨rfl, rfl⟩⟩
      · exact weakened_invalidate blk
    · split
      · exact ⟨rfl, rfl, .inr ⟨rfl, rfl⟩⟩
      · exact ⟨rfl, rfl, .inr ⟨rfl, rfl⟩⟩

end Block

/-! ## The invariant -/

section Invariant

variable {T : TagStore} {hist : List (CallEvent T)} {s s' : CallState T} {e : CallEvent T} {p q : BlkPtr} {c : Nat}
  {b : CacheBlk} {pkt pkt' : Packet} {r : Option Packet}

theorem LockedSince.snoc {B : Addr} (h : LockedSince hist c B) (hr : e.after.Resident B) (hw : ¬ e.Writes B) :
    LockedSince (hist ++ [e]) c B :=
  since_snoc.2 (.inr ⟨⟨hr, hw⟩, h⟩)

theorem not_writes_of_quiet (h : e.call.Quiet) (B : Addr) : ¬ e.Writes B := by
  rintro ⟨pkt, resp, ⟨hc | hc, -⟩, -⟩ <;> rw [hc] at h <;> exact h

theorem perform_target (hready : s.Ready (.target pkt))
    (hok : s.perform (.target pkt) = .ok (s', r)) :
    ∃ p b pkt', s.busy = some p ∧ s.Serves p pkt b pkt' ∧ r = some pkt' ∧
      s' = { s with cache := s.cache.set p b } := by
  obtain ⟨hr, p, hp, hv, haddr⟩ := hready
  simp only [CallState.perform, hp] at hok
  obtain ⟨⟨b, pkt'⟩, hsat, hok⟩ := of_bind hok
  cases hok
  exact ⟨p, b, pkt', hp, ⟨hr, hv, haddr, hsat⟩, rfl, by rw [← hp]⟩

theorem satisfies_inj {r r' : Packet} (h : e.Satisfies pkt r) (h' : e.Satisfies pkt' r') : pkt = pkt' ∧ r = r' := by
  obtain ⟨hc, hr⟩ := h
  obtain ⟨hc', hr'⟩ := h'
  rw [hr] at hr'
  refine ⟨?_, Option.some.inj hr'⟩
  rcases hc with hc | hc <;> rcases hc' with hc' | hc' <;> rw [hc] at hc' <;> cases hc' <;> rfl

variable [LawfulTagStore T]

/-- The tag store is in order, the temporary block is used by a response only, and for a block that no frame has. -/
structure TagsInv (s : CallState T) : Prop where
  tags : Inv s.cache.repl s.cache.blks
  temp : s.cache.tempBlock.isValid → s.busy = some .temp ∧
    ∀ f, (s.cache.blks f).isValid → T.blkAddr (s.cache.blks f) ≠ T.blkAddr s.cache.tempBlock

/-- Locks are held on valid blocks, by contexts that have loaded the block locked since. -/
structure LockInv (hist : List (CallEvent T)) (s : CallState T) : Prop extends TagsInv s where
  idle : ∀ p, (s.cache.get p).isValid = false → (s.cache.get p).lockList = []
  locks : ∀ p c, c ∈ (s.cache.get p).lockList → LockedSince hist c (T.blkAddr (s.cache.get p))

theorem TagsInv.unique (h : TagsInv s) (hp : (s.cache.get p).isValid) (hq : (s.cache.get q).isValid)
    (he : T.blkAddr (s.cache.get p) = T.blkAddr (s.cache.get q)) : p = q := by
  cases p with
  | frame f =>
    cases q with
    | frame g => rw [frame_unique h.tags hp hq he]
    | temp => exact absurd he ((h.temp hq).2 f hp)
  | temp =>
    cases q with
    | frame g => exact absurd he.symm ((h.temp hp).2 g hq)
    | temp => rfl

theorem TagsInv.set (h : TagsInv s) (ht : b.tag = (s.cache.get p).tag)
    (hs : b.set = (s.cache.get p).set) (hv : b.isValid → (s.cache.get p).isValid) :
    TagsInv { s with cache := s.cache.set p b } := by
  have haddr : T.blkAddr b = T.blkAddr (s.cache.get p) := by rw [TagStore.blkAddr, TagStore.blkAddr, ht, hs]
  cases p with
  | frame f =>
    refine ⟨update_inv h.tags ht hs hv, fun hv' => ⟨(h.temp hv').1, fun g hg => ?_⟩⟩
    have h1 := (h.temp hv').2 g
    by_cases hgf : g = f
    · subst hgf
      have hb : (update s.cache.blks g b) g = b := update_self ..
      simp only [Cache.set, hb] at hg ⊢
      rw [haddr]
      exact h1 (hv hg)
    · have hb : (update s.cache.blks f b) g = s.cache.blks g := update_of_ne hgf ..
      simp only [Cache.set, hb] at hg ⊢
      exact h1 hg
  | temp =>
    refine ⟨h.tags, fun hv' => ?_⟩
    obtain ⟨h1, h2⟩ := h.temp (hv hv')
    exact ⟨h1, fun g hg => haddr ▸ h2 g hg⟩

theorem valid_of_lock (h : b.isValid = false → b.lockList = []) (hc : c ∈ b.lockList) : b.isValid := by
  by_contra hv
  rw [h (by simpa using hv)] at hc
  simp at hc

section

variable (h : LockInv hist s)

include h

theorem LockInv.change (ht : TagsInv s') (ha : e.after = s')
    (hne : ∀ q, q ≠ p → s'.cache.get q = s.cache.get q)
    (hidle : (s'.cache.get p).isValid = false → (s'.cache.get p).lockList = [])
    (hw : ∀ B, e.Writes B → (s.cache.get p).isValid ∧ B = T.blkAddr (s.cache.get p))
    (hl : ∀ c ∈ (s'.cache.get p).lockList, T.blkAddr (s'.cache.get p) = T.blkAddr (s.cache.get p) ∧
      (e.Loads c (T.blkAddr (s.cache.get p)) ∨
        (c ∈ (s.cache.get p).lockList ∧ ¬ e.Writes (T.blkAddr (s.cache.get p))))) : LockInv (hist ++ [e]) s' := by
  refine ⟨ht, fun q hq => ?_, fun q c hc => ?_⟩
  · by_cases hqp : q = p
    · subst hqp; exact hidle hq
    · rw [hne q hqp] at hq ⊢; exact h.idle q hq
  · by_cases hqp : q = p
    · subst hqp
      obtain ⟨haddr, hl⟩ := hl c hc
      have hr : e.after.Resident (T.blkAddr (s.cache.get q)) := ha ▸ ⟨q, valid_of_lock hidle hc, haddr⟩
      rw [haddr]
      rcases hl with h1 | ⟨h1, h2⟩
      · exact since_snoc.2 (.inl ⟨h1, hr⟩)
      · exact (h.locks q c h1).snoc hr h2
    · rw [hne q hqp] at hc ⊢
      have hv : (s.cache.get q).isValid := valid_of_lock (h.idle q) hc
      refine (h.locks q c hc).snoc (ha ▸ ⟨q, by rw [hne q hqp]; exact hv, by rw [hne q hqp]⟩) ?_
      intro hwr
      obtain ⟨hvp, hB⟩ := hw _ hwr
      exact hqp (h.toTagsInv.unique hv hvp hB)

theorem LockInv.quiet (hq : e.call.Quiet) (ht : TagsInv s') (ha : e.after = s')
    (hne : ∀ q, q ≠ p → s'.cache.get q = s.cache.get q)
    (hp : (s'.cache.get p).lockList = [] ∨ ((s'.cache.get p).isValid = false → (s.cache.get p).isValid = false) ∧
      T.blkAddr (s'.cache.get p) = T.blkAddr (s.cache.get p) ∧ (s'.cache.get p).lockList = (s.cache.get p).lockList) :
    LockInv (hist ++ [e]) s' := by
  refine h.change ht ha hne ?_ (fun B hB => absurd hB (not_writes_of_quiet hq B)) fun c hc => ?_
  · rcases hp with hp | ⟨hv, -, hl⟩
    · exact fun _ => hp
    · exact fun h1 => hl.trans (h.idle p (hv h1))
  · rcases hp with hp | ⟨-, haddr, hl⟩
    · rw [hp] at hc; simp at hc
    · exact ⟨haddr, .inr ⟨hl ▸ hc, not_writes_of_quiet hq _⟩⟩

theorem LockInv.weakenTo (ht : TagsInv s') (hs : s'.cache = s.cache.set p b)
    (hb : Weakened (s.cache.get p) b) (ha : e.after = s') (hq : e.call.Quiet) : LockInv (hist ++ [e]) s' := by
  refine h.quiet hq ht ha (fun q hq => by rw [hs, get_set_of_ne hq]) ?_
  rw [hs, get_set_self]
  rcases hb.state with ⟨-, h3⟩ | ⟨h3, h4⟩
  · exact .inl h3
  · exact .inr ⟨h3.symm.trans, by rw [TagStore.blkAddr, TagStore.blkAddr, hb.tag, hb.set], h4⟩

theorem LockInv.weaken (hb : Weakened (s.cache.get p) b)
    (ha : e.after = { s with cache := s.cache.set p b }) (hq : e.call.Quiet) :
    LockInv (hist ++ [e]) { s with cache := s.cache.set p b } :=
  h.weakenTo (h.toTagsInv.set hb.tag hb.set hb.valid) rfl hb ha hq

theorem LockInv.same (ht : TagsInv s') (ha : e.after = s')
    (hget : ∀ q, s'.cache.get q = s.cache.get q) (hw : ∀ B, ¬ e.Writes B) : LockInv (hist ++ [e]) s' := by
  refine h.change ht ha (fun q _ => hget q) (by rw [hget]; exact h.idle .temp)
    (fun B hB => absurd hB (hw B)) (fun c hc => ⟨by rw [hget], .inr ⟨?_, hw _⟩⟩)
  rw [hget] at hc
  exact hc

theorem LockInv.satisfy (ht : TagsInv s') (ha : e.after = s')
    (hb : e.before = s) (hne : ∀ q, q ≠ p → s'.cache.get q = s.cache.get q) (hget : s'.cache.get p = b)
    (hok : s.Serves p pkt b pkt') (hsat : e.Satisfies pkt pkt')
    (hclear : pkt.cmd = .SwapReq → pkt.overwriteMem ((s.cache.get p).bytesAt T.blkSize pkt) = .ok true →
      (s.cache.get p).lockList = []) : LockInv (hist ++ [e]) s' := by
  obtain ⟨hp, hv, haddr, hok⟩ := hok
  have hserved := satisfy_served hp hok
  have hkeep : T.blkAddr b = T.blkAddr (s.cache.get p) := by
    rw [TagStore.blkAddr, TagStore.blkAddr, hserved.tag, hserved.set]
  have hwr : ∀ B, e.Writes B → B = T.blkAddr (s.cache.get p) ∧
      (pkt.cmd = .WriteReq ∨ pkt.cmd = .StoreCondReq ∨ pkt.cmd = .SwapReq ∧ (s.cache.get p).lockList = []) := by
    rintro B ⟨pkt1, r1, hs1, rfl, hw⟩
    obtain ⟨rfl, -⟩ := satisfies_inj hsat hs1
    refine ⟨haddr.symm, ?_⟩
    rcases hw with hw | ⟨hw, -⟩ | ⟨hw, q, hvq, haq, how⟩
    · exact .inl hw
    · exact .inr (.inl hw)
    · -- a swap that overwrites has found no locks
      rw [hb] at hvq haq how
      cases h.toTagsInv.unique hvq hv (haq.trans haddr.symm)
      exact .inr (.inr ⟨hw, hclear hw how⟩)
  refine h.change ht ha hne ?_ (fun B hB => ⟨hv, (hwr B hB).1⟩) fun c hc => ⟨hget ▸ hkeep, ?_⟩
  · rw [hget, show b.isValid = _ from hserved.valid, show (s.cache.get p).status.valid from hv]
    simp
  · rw [hget, hserved.locks, locksAfter] at hc
    split_ifs at hc with h1 h2
    · -- a load-locked adds its context and writes nothing
      rcases List.mem_cons.1 hc with rfl | hc
      · exact .inl ⟨pkt, pkt', hsat, h1, rfl, haddr.symm⟩
      · refine .inr ⟨hc, fun hw => ?_⟩
        rcases (hwr _ hw).2 with hw | hw | ⟨hw, -⟩ <;> exact absurd (h1.symm.trans hw) (by decide)
    · simp at hc
    · refine .inr ⟨hc, fun hw => ?_⟩
      rcases (hwr _ hw).2 with hw | hw | ⟨-, hw⟩
      · exact h2 (.inl hw)
      · exact h2 (.inr hw)
      · rw [hw] at hc; simp at hc

end

/-! ## One call -/

theorem TagsInv.touch (h : TagsInv s) (addr : Addr) : TagsInv { s with cache := s.cache.touch addr } :=
  ⟨access_inv h.tags addr, h.temp⟩

theorem perform_access (h : TagsInv s) (hr : CpuRequest T.blkSize pkt)
    (hok : s.perform (.access pkt) = .ok (s', r)) :
    (∃ f b pkt', s.cache.findBlock pkt.addr = some f ∧ permits (s.cache.blks f) pkt ∧ s.Serves (.frame f) pkt b pkt' ∧
      r = some pkt' ∧ s' = { s with cache := (s.cache.touch pkt.addr).set (.frame f) b }) ∨
    (s' = { s with cache := s.cache.touch pkt.addr } ∧
      ∀ pkt', r = some pkt' → (pkt.isLLSC ∧ pkt.isWrite) ∧ pkt'.req.extraData = 0) := by
  obtain ⟨res, hacc, hok⟩ := of_bind hok
  rcases (access_eq_ok hr (access_find h.tags _)).1 hacc with
    ⟨f, b, pkt', hf, hperm, hsat, rfl⟩ | ⟨-, hsc, rfl⟩ | ⟨-, -, rfl⟩
  · obtain ⟨hv, haddr⟩ := (find_iff h.tags pkt.addr f).1 hf
    cases hok
    exact .inl ⟨f, b, pkt', hf, hperm, ⟨hr, hv, haddr, hsat⟩, rfl, rfl⟩
  · cases hok
    refine .inr ⟨rfl, fun pkt' hp => ?_⟩
    cases hp
    exact ⟨hsc, rfl⟩
  · cases hok
    exact .inr ⟨rfl, fun _ h => nomatch h⟩

theorem LockInv.fill {mshrs : Addr → Option Bool} {resp : Packet} (h : LockInv hist s)
    (hq : e.call.Quiet) (ha : e.after = s') (hbusy : s.busy = none) (hclear : s.Clears (.fill mshrs resp))
    (hok : s.perform (.fill mshrs resp) = .ok (s', r)) : LockInv (hist ++ [e]) s' := by
  have htemp : s.cache.tempBlock.isValid = false := by
    by_contra hv
    have h1 := (h.temp (by simpa using hv)).1
    rw [hbusy] at h1
    cases h1
  have hnone : ∀ {t : Prop}, s.cache.tempBlock.isValid → t := fun hv => by rw [htemp] at hv; cases hv
  obtain ⟨⟨p, c', wbs⟩, hfill, hok⟩ := of_bind hok
  cases hok
  cases hf : s.cache.findBlock resp.addr with
  | some f =>
    rw [hf, handleFill_some] at hfill
    obtain ⟨-, -, -, hr⟩ := hfill
    cases hr
    have hv := ((find_iff h.tags resp.addr f).1 hf).1
    have hset := h.toTagsInv.set (p := .frame f) (b := fillBlk T resp (s.cache.blks f)) rfl rfl (fun _ => hv)
    refine h.quiet (p := .frame f) hq ⟨hset.tags, hnone⟩ ha (fun q hq => get_set_of_ne hq) ?_
    rw [get_set_self]
    exact .inr ⟨nofun, rfl, rfl⟩
  | none =>
    rw [hf, handleFill_none] at hfill
    obtain ⟨-, -, ⟨-, -, -, -, hr⟩ | ⟨hm, hr⟩⟩ := hfill
    · cases hr
      have hT : TagsInv { cache := s.cache.fillTemp resp, busy := some .temp } := by
        refine ⟨h.tags, fun _ => ⟨rfl, fun f hv heq => ?_⟩⟩
        have haddr : T.blkAddr (s.cache.blks f) = T.blkAlign resp.addr :=
          heq.trans (regenerate_extract resp.addr)
        have hfound := (find_iff h.tags resp.addr f).2 ⟨hv, haddr⟩
        exact absurd (hfound.symm.trans hf) (by simp)
      refine h.quiet (p := .temp) hq hT ha (fun q hq => ?_) (.inl (h.idle .temp htemp))
      cases q with
      | temp => exact absurd rfl hq
      | frame g => rfl
    · cases hr
      have hlock : (s.cache.blks (s.cache.victim resp.addr)).lockList = [] := by
        by_cases hv : (s.cache.blks (s.cache.victim resp.addr)).isValid
        · exact hclear hf hv (hm hv)
        · exact h.idle (.frame _) (show (s.cache.blks _).isValid = false by simpa using hv)
      refine h.quiet (p := .frame (s.cache.victim resp.addr)) hq ⟨insert_inv h.tags hf rfl
        (victim_set h.tags resp.addr), hnone⟩ ha (fun q hq => ?_) (.inl ?_)
      · cases q with
        | temp => rfl
        | frame g =>
          have hg : g ≠ s.cache.victim resp.addr := fun hg => hq (by rw [hg])
          exact update_of_ne hg ..
      · show (update s.cache.blks (s.cache.victim resp.addr) _ (s.cache.victim resp.addr)).lockList = []
        rw [update_self]
        exact hlock

theorem LockInv.modify {addr : Addr} {g : CacheBlk → CacheBlk} (h : LockInv hist s) (hg : ∀ blk, Weakened blk (g blk))
    (ha : e.after = s.modify addr g) (hq : e.call.Quiet) : LockInv (hist ++ [e]) (s.modify addr g) := by
  cases hf : s.cache.findBlock addr with
  | some f =>
    have hs : s.modify addr g = { s with cache := s.cache.set (.frame f) (g (s.cache.blks f)) } := by
      rw [CallState.modify, hf]
    rw [hs] at ha ⊢
    exact h.weaken (hg _) ha hq
  | none =>
    have hs : s.modify addr g = s := by rw [CallState.modify, hf]
    rw [hs] at ha ⊢
    exact h.same h.toTagsInv ha (fun _ => rfl) (not_writes_of_quiet hq)

/-- The invariant along one call that meets `Clears`. -/
theorem LockInv.step (h : LockInv hist s) (hs : CallStep s e s') (hclear : s.Clears e.call) :
    LockInv (hist ++ [e]) s' := by
  obtain ⟨call, r, rfl, hready, hok⟩ := hs.entry
  cases call with
  | access pkt =>
    have hT := h.toTagsInv.touch pkt.addr
    rcases perform_access h.toTagsInv hready.2 hok with ⟨f, b, pkt', hf, hperm, hsv, rfl, rfl⟩ | ⟨rfl, hr⟩
    · have hserved := satisfy_served hready.2 hsv.2.2.2
      refine h.satisfy (hT.set hserved.tag hserved.set fun _ => hsv.2.1) rfl rfl
        (fun q hq => ?_) (by rw [get_set_self]) hsv ⟨.inl rfl, rfl⟩ fun hswap how => hclear hswap f hf ?_ how
      · rw [get_set_of_ne hq]
        cases q <;> rfl
      · have hne : pkt.needsExclusive := by rw [Packet.needsExclusive, hswap]; rfl
        rw [permits, hne] at hperm
        exact hperm
    · refine h.same hT rfl (fun q => by cases q <;> rfl) ?_
      rintro B ⟨pkt1, r1, ⟨hc | hc, hr1⟩, -, hwr⟩ <;> cases hc
      obtain ⟨hsc, hx⟩ := hr r1 hr1
      rcases hwr with hwr | ⟨-, hwr⟩ | ⟨hwr, -⟩
      · rw [Packet.isLLSC, hwr] at hsc; exact absurd hsc.1 (by decide)
      · rw [hx] at hwr; cases hwr
      · rw [Packet.isLLSC, hwr] at hsc; exact absurd hsc.1 (by decide)
  | fill mshrs resp => exact h.fill trivial rfl hready hclear hok
  | target pkt =>
    obtain ⟨p, b, pkt', hp, hsv, rfl, rfl⟩ := perform_target hready hok
    have hserved := satisfy_served hsv.1 hsv.2.2.2
    exact h.satisfy (h.toTagsInv.set hserved.tag hserved.set fun _ => hsv.2.1) rfl rfl
      (fun q hq => get_set_of_ne hq) get_set_self hsv ⟨.inr rfl, rfl⟩ (fun hswap how => hclear hswap p hp how)
  | deferredSnoop pkt pendingInval =>
    cases hp : s.busy with
    | none => simp [CallState.perform, hp] at hok
    | some p =>
      simp only [CallState.perform, hp] at hok
      obtain ⟨⟨b, pkt', _⟩, hsn, hok⟩ := of_bind hok
      cases hok
      rw [← hp]
      exact h.weaken (snoop_spec hsn) rfl trivial
  | finish inval =>
    cases hp : s.busy with
    | none => simp [CallState.perform, hp] at hok
    | some p =>
      simp only [CallState.perform, hp] at hok
      cases hok
      have hweak : Weakened (s.cache.get p)
          (if (inval || decide (p = .temp)) then (s.cache.get p).invalidate else s.cache.get p) := by
        split
        · exact weakened_invalidate _
        · exact ⟨rfl, rfl, .inr ⟨rfl, rfl⟩⟩
      refine h.weakenTo ?_ rfl hweak rfl trivial
      -- the temporary block is valid in its response only
      refine ⟨(h.toTagsInv.set hweak.tag hweak.set hweak.valid).tags, fun hv => ?_⟩
      cases p with
      | temp => simp [set, CacheBlk.invalidate, CacheBlk.isValid] at hv
      | frame f =>
        have h1 := (h.temp hv).1
        rw [hp] at h1
        cases h1
  | snoop pkt isTiming =>
    cases hf : s.cache.findBlock pkt.addr with
    | none =>
      simp only [CallState.perform, hf] at hok
      cases hok
      exact h.same h.toTagsInv rfl (fun _ => rfl) (not_writes_of_quiet trivial)
    | some f =>
      simp only [CallState.perform, hf] at hok
      obtain ⟨⟨b, pkt', _⟩, hsn, hok⟩ := of_bind hok
      cases hok
      exact h.weaken (snoop_spec hsn) rfl trivial
  | invalidate addr =>
    cases hok
    exact h.modify weakened_invalidate rfl trivial
  | unreadable addr =>
    cases hok
    exact h.modify (fun _ => ⟨rfl, rfl, .inr ⟨rfl, rfl⟩⟩) rfl trivial

end Invariant

/-! ## Runs -/

/-- Calls that do not reach a forgotten clearing, one after the other. -/
abbrev ClearingRun (T : TagStore) : List (CallEvent T) → CallState T → Prop :=
  Run (fun s e s' => CallStep s e s' ∧ s.Clears e.call) (.init T)

theorem lockInv_init (T : TagStore) [LawfulTagStore T] : LockInv [] (.init T) where
  tags := init_inv
  temp h := by cases h
  idle p _ := by
    cases p with
    | frame f => exact (init_blk f).2
    | temp => rfl
  locks p c hc := by
    cases p with
    | frame f =>
      have hnil : ((CallState.init T).cache.get (.frame f)).lockList = [] := (init_blk f).2
      rw [hnil] at hc
      simp at hc
    | temp => cases hc

variable {T : TagStore} {B : Addr} {c : Nat}
  {hist : List (CallEvent T)} {s : CallState T} {e : CallEvent T}

theorem ClearingRun.lockInv [LawfulTagStore T] (h : ClearingRun T hist s) : LockInv hist s :=
  Run.history h (lockInv_init T) (fun hI hs => hI.step hs.1 hs.2)

theorem LockInv.succeeds [LawfulTagStore T] {s' : CallState T} (h : LockInv hist s) (hs : CallStep s e s')
    (hsc : e.Succeeds c B) :
    LockedSince hist c B := by
  obtain ⟨call, resp, rfl, hready, hok⟩ := hs.entry
  obtain ⟨pkt, r, ⟨hcall, hresp⟩, hcmd, hctx, hB, hx⟩ := hsc
  -- the request was satisfied on a valid block with its address
  obtain ⟨p, b, hr, hv, haddr, hsat⟩ : ∃ p b, s.Serves p pkt b r := by
    rcases hcall with hcall | hcall <;> cases hcall <;> cases hresp
    · rcases perform_access h.toTagsInv hready.2 hok with ⟨f, b, pkt', -, -, hsv, hr, -⟩ | ⟨-, hr⟩
      · cases hr
        exact ⟨_, b, hsv⟩
      · exact absurd (hx.symm.trans (hr r rfl).2) (by decide)
    · obtain ⟨p, b, pkt', -, hsv, hr, -⟩ := perform_target hready hok
      cases hr
      exact ⟨p, b, hsv⟩
  have hin : c ∈ (s.cache.get p).lockList := by
    have h1 := (satisfy_served hr hsat).cond hcmd
    rw [hx, hctx] at h1
    by_contra hn
    rw [if_neg hn] at h1
    cases h1
  rw [← hB, ← haddr]
  exact h.locks p c hin

/-- In the LRU cache, in every run whose calls do not reach a forgotten clearing: a store conditional is reported
successful only if its context has loaded the block locked, and since then the block has been in the cache and no
store, successful store conditional or overwriting swap of any context has written it. -/
theorem storeCond_sound {p : LRUParams} {hist : List (CallEvent (LRU p))} {s s' : CallState (LRU p)}
    {e : CallEvent (LRU p)} (h : ClearingRun (LRU p) hist s) (hs : CallStep s e s')
    (hsc : e.Succeeds c B) : LockedSince hist c B :=
  h.lockInv.succeeds hs hsc

/-! ## A cache of one block -/

/-- A call that is known to succeed, as an entry of the history. -/
def eventOf {T : TagStore} (s : CallState T) (call : BlkCall) : CallEvent T :=
  match s.perform call with
  | .ok (s', resp) => ⟨s, call, s', resp⟩
  | .error _ => ⟨s, call, s, none⟩

/-- A request of context `c` for the four bytes at `addr`. -/
def wordOf (cmd : MemCmd) (c : Nat) (addr : Addr) : Packet := { cmd, addr, size := 4, req := { contextId := c } }

theorem wordOf_cpuRequest {cmd : MemCmd} (c : Nat) (h : cmd = .LoadLockedReq ∨ cmd = .StoreCondReq ∨ cmd = .SwapReq) :
    CpuRequest 8 (wordOf cmd c 0) := by
  refine ⟨?_, ⟨by simp [wordOf], by simp [wordOf]⟩, rfl, fun _ => ⟨by simp [wordOf], fun h' => by cases h'⟩⟩
  rcases h with rfl | rfl | rfl <;> simp [wordOf]

theorem CallEvent.succeeds_of_access (pkt : Packet)
    (he : e.call = .access pkt) (hpkt : pkt.cmd = .StoreCondReq ∧ pkt.req.contextId = c ∧ T.blkAlign pkt.addr = B)
    (hr : e.resp.map (fun resp => resp.req.extraData) = some 1) : e.Succeeds c B := by
  obtain ⟨hc, hctx, hB⟩ := hpkt
  obtain ⟨resp, hresp, hx⟩ := Option.map_eq_some_iff.1 hr
  exact ⟨pkt, resp, ⟨.inl he, hresp⟩, hc, hctx, hB, hx⟩

def fillZero : BlkCall := .fill (fun _ => none) { wordOf .ReadExResp 0 0 with size := 8 }

def filled : CallEvent (LRU oneFrame) := eventOf (.init (LRU oneFrame)) fillZero

def loaded : CallEvent (LRU oneFrame) := eventOf filled.after (.target (wordOf .LoadLockedReq 1 0))

def finished : CallEvent (LRU oneFrame) := eventOf loaded.after (.finish false)

def swapped : CallEvent (LRU oneFrame) := eventOf finished.after (.access (wordOf .SwapReq 2 0))

theorem loaded_run : ClearingRun (LRU oneFrame) [filled, loaded, finished] finished.after := by
  have h1 : CallStep (.init (LRU oneFrame)) filled filled.after := ⟨rfl, rfl, rfl, rfl⟩
  have h2 : CallStep filled.after loaded loaded.after :=
    ⟨rfl, rfl, ⟨wordOf_cpuRequest 1 (.inl rfl), .frame 0, rfl, rfl, rfl⟩, rfl⟩
  have h3 : CallStep loaded.after finished finished.after := ⟨rfl, rfl, trivial, rfl⟩
  refine .snoc (.snoc (.snoc .nil ⟨h1, ?_⟩) ⟨h2, ?_⟩) ⟨h3, trivial⟩
  · intro _ hv
    cases hv
  · intro hc
    cases hc

theorem storeCond_sound_alone : LockedSince [filled, loaded, finished] 1 0 := by
  have hs : CallStep finished.after (eventOf finished.after (.access (wordOf .StoreCondReq 1 0)))
      (eventOf finished.after (.access (wordOf .StoreCondReq 1 0))).after :=
    ⟨rfl, rfl, ⟨rfl, wordOf_cpuRequest 1 (.inr (.inl rfl))⟩, rfl⟩
  exact storeCond_sound loaded_run hs (CallEvent.succeeds_of_access (wordOf .StoreCondReq 1 0) rfl ⟨rfl, rfl, rfl⟩ rfl)

/-- After a swap of context 2 has overwritten the block, the store conditional of context 1 still succeeds. -/
theorem storeCond_unsound_swap : ∃ hist s s' e,
    Run CallStep (.init (LRU oneFrame)) hist s ∧ CallStep s e s' ∧ e.Succeeds 1 0 ∧
      ¬ LockedSince hist 1 0 := by
  have h4 : CallStep finished.after swapped swapped.after :=
    ⟨rfl, rfl, ⟨rfl, wordOf_cpuRequest 2 (.inr (.inr rfl))⟩, rfl⟩
  have h5 : CallStep swapped.after (eventOf swapped.after (.access (wordOf .StoreCondReq 1 0)))
      (eventOf swapped.after (.access (wordOf .StoreCondReq 1 0))).after :=
    ⟨rfl, rfl, ⟨rfl, wordOf_cpuRequest 1 (.inr (.inl rfl))⟩, rfl⟩
  refine ⟨[filled, loaded, finished] ++ [swapped], _, _, _,
    .snoc (loaded_run.mono fun h => h.1) h4, h5,
    CallEvent.succeeds_of_access (wordOf .StoreCondReq 1 0) rfl ⟨rfl, rfl, rfl⟩ rfl, ?_⟩
  rw [LockedSince, since_snoc]
  rintro (⟨⟨pkt, r, ⟨hc | hc, -⟩, hcmd, -⟩, -⟩ | ⟨⟨-, hw⟩, -⟩)
  · cases hc
    cases hcmd
  · cases hc
  · exact hw ⟨_, _, ⟨.inl rfl, rfl⟩, rfl, .inr (.inr ⟨rfl, .frame 0, rfl, rfl, rfl⟩)⟩

end M5.Mem.Cache
