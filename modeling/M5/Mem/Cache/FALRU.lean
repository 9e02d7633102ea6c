import M5.Mem.Cache.Tags
import M5.Lib.LinkedList

/-!
# The fully associative LRU tag store

`FALRU` of `mem/cache/tags/fa_lru.cc`. The blocks form one doubly linked list from the most to the least recently used.
The store keeps track of smaller caches, of 128K and up: for each of them a bit of every block says whether the block
would be in it, and a boundary pointer leads to the last block that is. A null pointer that is followed and an assertion
that fails are faults; `NDEBUG` builds have no assertions.
-/

namespace M5.Mem.FALRU

open Lib Lib.Recency Lib.LinkedList Function List Nat BitVec

/-- The parameters of a store that its constructor can build, with blocks of at most 64K, so that there are several. -/
structure Params where
  blkSize : Nat
  size : Nat
  blkSize_pow : blkSize = 2 ^ log2 blkSize
  size_pow : size = 2 ^ log2 size
  blkSize_le : blkSize ≤ 2 ^ 16
  size_ge : 2 ^ 17 ≤ size
  size_lt : size < 2 ^ 32
  /-- Whether assertions are compiled in. -/
  debug : Bool

inductive Fault where
  | assert
  | null
deriving DecidableEq

namespace Params

variable (p : Params)

def numCaches : Nat := log2 p.size - 17

def numBlocks : Nat := p.size / p.blkSize

/-- The mask of the bits of all tracked caches. -/
def cacheMask : BitVec 32 := (1#32 <<< p.numCaches) - 1#32

/-- The number of blocks of the tracked cache. -/
def lines (i : Nat) : Nat := (2 ^ 17 <<< i) / p.blkSize

def blkAlign (addr : Addr) : Addr := addr - addr % p.blkSize

end Params

structure FALRUBlk extends CacheBlk where
  prev : Option Frame := none
  next : Option Frame := none
  inCache : BitVec 32 := 0

structure Store where
  blks : Frame → FALRUBlk
  head : Frame
  tail : Frame
  cacheBoundaries : Nat → Option Frame
  tagHash : Addr → Option Frame
  hits : Nat → Nat
  misses : Nat → Nat
  accesses : Nat

namespace Store

section

variable (s : Store) (x : Frame) (q : Option Frame)

def setPrev : Store :=
  { s with blks := update s.blks x { s.blks x with prev := q } }

def setNext : Store :=
  { s with blks := update s.blks x { s.blks x with next := q } }

def setInCache (m : BitVec 32) : Store :=
  { s with blks := update s.blks x { s.blks x with inCache := m } }

def setBoundary (i : Nat) (q : Option Frame) : Store :=
  { s with cacheBoundaries := update s.cacheBoundaries i q }

end

end Store

/-- The mask without the bit, `m & ~(1 << i)`. -/
def clearBit (m : BitVec 32) (i : Nat) : BitVec 32 := m &&& ~~~ (1#32 <<< i)

section

variable (p : Params) (s : Store) (blk : Frame)

def assert (q : Prop) [Decidable q] : Except Fault Unit :=
  if p.debug ∧ ¬ q then .error .assert else .ok ()

def deref : Option Frame → Except Fault Frame
  | some x => .ok x
  | none => .error .null

/-- One iteration of the loop of `moveToHead`. -/
def updateBoundary (updateMask : BitVec 32) (s : Store) (i : Nat) : Except Fault Store :=
  if updateMask.getLsbD i then do
    let b ← deref (s.cacheBoundaries i)
    .ok ((s.setInCache b (clearBit (s.blks b).inCache i)).setBoundary i (s.blks b).prev)
  else if s.cacheBoundaries i = some blk then .ok (s.setBoundary i (s.blks blk).prev)
  else .ok s

/-- The end of `moveToHead`: the block goes before the head. -/
def pushHead : Store :=
  { ((s.setNext blk (some s.head)).setPrev blk none).setPrev s.head (some blk) with head := blk }

/-- The block leaves its place and goes before the head. -/
def relink : Except Fault Store :=
  if blk = s.tail then do
    assert p ((s.blks blk).next = none)
    let q ← deref (s.blks blk).prev
    .ok (pushHead ({ s with tail := q }.setNext q none) blk)
  else do
    let q ← deref (s.blks blk).prev
    let r ← deref (s.blks blk).next
    .ok (pushHead ((s.setNext q (some r)).setPrev r (some q)) blk)

def moveToHead : Except Fault Store := do
  let updateMask := (s.blks blk).inCache ^^^ p.cacheMask
  let s ← (range p.numCaches).foldlM (updateBoundary blk updateMask) s
  let s := s.setInCache blk p.cacheMask
  if blk = s.head then .ok s else relink p s blk

end

/-! ## Sizes and masks -/

namespace Params

variable {p : Params} {i : Nat}

theorem blkSize_pos (p : Params) : 0 < p.blkSize := by
  rw [p.blkSize_pow]
  exact Nat.two_pow_pos _

theorem log2_blkSize_le (p : Params) : log2 p.blkSize ≤ 16 := by
  have h : 2 ^ log2 p.blkSize ≤ 2 ^ 16 := by
    rw [← p.blkSize_pow]
    exact p.blkSize_le
  exact (Nat.pow_le_pow_iff_right (by decide)).1 h

theorem log2_size (p : Params) : 17 ≤ log2 p.size ∧ log2 p.size < 32 := by
  have hge : 2 ^ 17 ≤ 2 ^ log2 p.size := by
    rw [← p.size_pow]
    exact p.size_ge
  have hlt : 2 ^ log2 p.size < 2 ^ 32 := by
    rw [← p.size_pow]
    exact p.size_lt
  exact ⟨(Nat.pow_le_pow_iff_right (by decide)).1 hge, (Nat.pow_lt_pow_iff_right (by decide)).1 hlt⟩

theorem numCaches_lt (p : Params) : p.numCaches < 32 := by
  have := p.log2_size
  unfold numCaches
  omega

theorem lines_eq (p : Params) (i : Nat) : p.lines i = 2 ^ (17 - log2 p.blkSize + i) := by
  have hle := p.log2_blkSize_le
  unfold lines
  rw [Nat.shiftLeft_eq, ← Nat.pow_add, p.blkSize_pow, log2_two_pow, Nat.pow_div (by omega) (by decide)]
  congr 1
  omega

theorem numBlocks_eq (p : Params) : p.numBlocks = p.lines p.numCaches := by
  have hle := p.log2_blkSize_le
  have hs := p.log2_size
  rw [lines_eq]
  unfold numBlocks numCaches
  rw [p.size_pow, p.blkSize_pow, log2_two_pow, log2_two_pow, Nat.pow_div (by omega) (by decide)]
  congr 1
  omega

theorem two_le_lines (p : Params) (i : Nat) : 2 ≤ p.lines i := by
  have hle := p.log2_blkSize_le
  have h1 : 1 ≤ 17 - log2 p.blkSize + i := by omega
  rw [lines_eq]
  exact Nat.pow_le_pow_right Nat.two_pos h1

theorem lines_lt_iff (p : Params) (i j : Nat) : p.lines i < p.lines j ↔ i < j := by
  rw [lines_eq, lines_eq, Nat.pow_lt_pow_iff_right (by decide)]
  omega

theorem lines_lt (hi : i < p.numCaches) : p.lines i < p.numBlocks := by
  rw [numBlocks_eq, lines_lt_iff]
  exact hi

theorem cacheMask_bit (p : Params) (i : Nat) : p.cacheMask.getLsbD i = decide (i < p.numCaches) := by
  have hn := p.numCaches_lt
  have ht : p.cacheMask = .ofNat 32 (2 ^ p.numCaches - 1) := by
    unfold cacheMask
    rw [← twoPow_eq]
    apply eq_of_toNat_eq
    have hpos := Nat.two_pow_pos p.numCaches
    simp only [toNat_sub, toNat_twoPow, toNat_ofNat]
    omega
  rw [ht, getLsbD_ofNat]
  by_cases hi : i < p.numCaches
  · simp [hi, Nat.lt_trans hi hn]
  · simp [hi]

end Params

theorem getLsbD_clearBit (m : BitVec 32) (i k : Nat) : (clearBit m i).getLsbD k = (m.getLsbD k && decide (k ≠ i)) := by
  unfold clearBit
  rw [← twoPow_eq, getLsbD_and, getLsbD_not, getLsbD_twoPow]
  by_cases hk : k < 32
  · by_cases hki : k = i
    · simp [hki]
    · simp [hk, hki, Ne.symm hki]
  · simp [getLsbD_of_ge m k (by omega)]

/-! ## The list and its boundaries -/

/-- The blocks from head to tail are `l`; the bits and the boundaries are those of `l`. -/
structure Stack (p : Params) (l : List Frame) (s : Store) : Prop where
  links : Links (fun x => (s.blks x).prev) (fun x => (s.blks x).next) l
  perm : l.Perm (range p.numBlocks)
  head : l[0]? = some s.head
  tail : l[p.numBlocks - 1]? = some s.tail
  bits : ∀ {k x} i, l[k]? = some x → (s.blks x).inCache.getLsbD i = decide (i < p.numCaches ∧ k < p.lines i)
  boundary : ∀ {i}, i < p.numCaches → s.cacheBoundaries i = l[p.lines i - 1]?

/-- All but the bits, the boundaries and the list is the same. -/
structure SameTags (s t : Store) : Prop where
  blk : ∀ x, (t.blks x).toCacheBlk = (s.blks x).toCacheBlk
  hash : t.tagHash = s.tagHash
  hits : t.hits = s.hits
  misses : t.misses = s.misses
  accesses : t.accesses = s.accesses

/-- All but the bits and the boundaries is the same. -/
structure SameList (s t : Store) : Prop extends SameTags s t where
  prev : ∀ x, (t.blks x).prev = (s.blks x).prev
  next : ∀ x, (t.blks x).next = (s.blks x).next
  head : t.head = s.head
  tail : t.tail = s.tail

theorem SameTags.refl (s : Store) : SameTags s s := ⟨fun _ => rfl, rfl, rfl, rfl, rfl⟩

theorem SameTags.trans {s t u : Store} (h : SameTags s t) (h' : SameTags t u) : SameTags s u :=
  ⟨fun x => (h'.blk x).trans (h.blk x), h'.hash.trans h.hash, h'.hits.trans h.hits, h'.misses.trans h.misses,
    h'.accesses.trans h.accesses⟩

theorem SameList.trans {s t u : Store} (h : SameList s t) (h' : SameList t u) : SameList s u :=
  ⟨h.toSameTags.trans h'.toSameTags, fun x => (h'.prev x).trans (h.prev x), fun x => (h'.next x).trans (h.next x),
    h'.head.trans h.head, h'.tail.trans h.tail⟩

theorem SameList.refl (s : Store) : SameList s s := ⟨.refl s, fun _ => rfl, fun _ => rfl, rfl, rfl⟩

theorem SameList.setBoundary (s : Store) (i : Nat) (q : Option Frame) : SameList s (s.setBoundary i q) :=
  ⟨⟨fun _ => rfl, rfl, rfl, rfl, rfl⟩, fun _ => rfl, fun _ => rfl, rfl, rfl⟩

theorem SameList.setInCache (s : Store) (b : Frame) (m : BitVec 32) : SameList s (s.setInCache b m) := by
  have h : ∀ x, ((s.setInCache b m).blks x).toCacheBlk = (s.blks x).toCacheBlk ∧
      ((s.setInCache b m).blks x).prev = (s.blks x).prev ∧ ((s.setInCache b m).blks x).next = (s.blks x).next := by
    intro x
    by_cases hx : x = b
    · subst hx
      simp [Store.setInCache]
    · simp [Store.setInCache, update_of_ne hx]
  exact ⟨⟨fun x => (h x).1, rfl, rfl, rfl, rfl⟩, fun x => (h x).2.1, fun x => (h x).2.2, rfl, rfl⟩

section Loop

variable {p : Params} {l : List Frame} {s t : Store} {blk x : Frame} {m n k i : Nat}

/-- The position of a block behind the moved one stays, one before it moves back. -/
def shifted (m k : Nat) : Nat := if k < m then k + 1 else k

/-- The loop has done the caches below `n`. -/
structure Moving (p : Params) (l : List Frame) (blk : Frame) (m n : Nat) (s t : Store) : Prop where
  same : SameList s t
  bits : ∀ {k x} i, x ≠ blk → l[k]? = some x → (t.blks x).inCache.getLsbD i =
    decide (i < p.numCaches ∧ (if i < n then shifted m k else k) < p.lines i)
  boundary : ∀ {i}, i < p.numCaches →
    t.cacheBoundaries i = if i < n then (front blk l)[p.lines i - 1]? else l[p.lines i - 1]?

theorem Stack.moving (h : Stack p l s) : Moving p l blk m 0 s s := by
  refine ⟨.refl s, fun {k x} i _ hx => ?_, fun {i} hi => ?_⟩
  · rw [h.bits i hx, if_neg (not_lt_zero i)]
  · rw [h.boundary hi, if_neg (not_lt_zero i)]

theorem Moving.bits_succ (ht : Moving p l blk m n s t) (hx : x ≠ blk) (hk : l[k]? = some x)
    (hn : i = n → (shifted m k < p.lines n ↔ k < p.lines n)) :
    (t.blks x).inCache.getLsbD i = decide (i < p.numCaches ∧ (if i < n + 1 then shifted m k else k) < p.lines i) := by
  rw [ht.bits i hx hk]
  by_cases hin : i = n
  · subst hin
    rw [if_neg (Nat.lt_irrefl i), if_pos (lt_succ_self i)]
    simp only [hn rfl]
  · have hiff : i < n ↔ i < n + 1 := by omega
    simp only [hiff]

theorem Moving.boundary_of_ne (ht : Moving p l blk m n s t) (hi : i < p.numCaches) (hin : i ≠ n) :
    t.cacheBoundaries i = if i < n + 1 then (front blk l)[p.lines i - 1]? else l[p.lines i - 1]? := by
  have hiff : i < n ↔ i < n + 1 := by omega
  rw [ht.boundary hi]
  simp only [hiff]

theorem range_split {done rest : List Nat} {a : Nat} (h : done ++ a :: rest = range n) :
    a = done.length ∧ a < n := by
  have hget : (range n)[done.length]? = some a := by
    rw [← h, getElem?_append_right (Nat.le_refl _), Nat.sub_self]
    rfl
  obtain ⟨hlt, he⟩ := List.getElem?_eq_some_iff.1 hget
  rw [length_range] at hlt
  rw [getElem_range] at he
  exact ⟨he.symm, he ▸ hlt⟩

section

variable (h : Stack p l s)

include h

theorem Stack.lines_lt_length (hn : n < p.numCaches) : p.lines n < l.length := by
  rw [h.perm.length_eq, length_range]
  exact p.lines_lt hn

section

variable (hm : l[m]? = some blk)

include hm

section

variable (ht : Moving p l blk m n s t)

include ht

theorem Moving.boundary_prev {b : Frame} (hb : l[p.lines n - 1]? = some b) (hle : p.lines n ≤ m + 1)
    (hi : i < p.numCaches) : update t.cacheBoundaries n (t.blks b).prev i =
      if i < n + 1 then (front blk l)[p.lines i - 1]? else l[p.lines i - 1]? := by
  have h2 := p.two_le_lines n
  by_cases hin : i = n
  · subst hin
    rw [update_self, if_pos (lt_succ_self i), ht.same.prev, h.links.prev_eq hb, if_neg (by omega),
      getElem?_front h.links.nodup hm, if_neg (by omega), if_pos (by omega)]
  · rw [update_of_ne hin]
    exact ht.boundary_of_ne hi hin

theorem Moving.step_out (hn : n < p.numCaches)
    (hout : p.lines n ≤ m) : ∃ b u, t.cacheBoundaries n = some b ∧
      u = (t.setInCache b (clearBit (t.blks b).inCache n)).setBoundary n (t.blks b).prev ∧
      Moving p l blk m (n + 1) s u := by
  have h2 := p.two_le_lines n
  have hlt := h.lines_lt_length hn
  have hb : l[p.lines n - 1]? = some (l[p.lines n - 1]) := getElem?_eq_getElem (by omega)
  generalize l[p.lines n - 1] = b at hb
  have hbd : t.cacheBoundaries n = some b := by rw [ht.boundary hn, if_neg (Nat.lt_irrefl n), hb]
  refine ⟨b, _, hbd, rfl, ?_, fun {k x} i hx hk => ?_, ht.boundary_prev h hm hb (by omega)⟩
  · exact (ht.same.trans (.setInCache t b _)).trans (.setBoundary _ n _)
  · by_cases hxb : x = b
    · subst hxb
      have hkl : k = p.lines n - 1 := index_unique h.links.nodup hk hb
      have hget : ((t.setInCache x (clearBit (t.blks x).inCache n)).blks x).inCache =
        clearBit (t.blks x).inCache n := by
        simp [Store.setInCache]
      show ((t.setInCache x _).blks x).inCache.getLsbD i = _
      rw [hget, getLsbD_clearBit]
      by_cases hin : i = n
      · -- the bit of this cache: the block is now the first one outside
        subst hin
        rw [if_pos (lt_succ_self i), shifted, if_pos (by omega)]
        simp only [ne_eq, not_true_eq_false, decide_false, Bool.and_false]
        exact (decide_eq_false (by omega)).symm
      · rw [ht.bits_succ hx hk (fun he => absurd he hin)]
        simp [hin]
    · have hget : ((t.setInCache b (clearBit (t.blks b).inCache n)).blks x) = t.blks x := by
        simp [Store.setInCache, update_of_ne hxb]
      show ((t.setInCache b _).blks x).inCache.getLsbD i = _
      rw [hget]
      refine ht.bits_succ hx hk fun _ => ?_
      have hne : k ≠ p.lines n - 1 := fun he => hxb ((eq_iff_index h.links.nodup hk hb).2 he)
      unfold shifted
      split <;> omega

theorem Moving.step_last
    (hlast : m = p.lines n - 1) : Moving p l blk m (n + 1) s (t.setBoundary n (t.blks blk).prev) := by
  refine ⟨ht.same.trans (.setBoundary _ n _), fun {k x} i hx hk => ?_,
    ht.boundary_prev h hm (hlast ▸ hm) (by omega)⟩
  refine ht.bits_succ hx hk fun _ => ?_
  unfold shifted
  split <;> omega

theorem Moving.step_in
    (hin : m < p.lines n - 1) : Moving p l blk m (n + 1) s t := by
  refine ⟨ht.same, fun {k x} i hx hk => ?_, fun {i} hi => ?_⟩
  · refine ht.bits_succ hx hk fun _ => ?_
    unfold shifted
    split <;> omega
  · by_cases he : i = n
    · subst he
      rw [ht.boundary hi, if_neg (Nat.lt_irrefl i), if_pos (lt_succ_self i), getElem?_front h.links.nodup hm,
        if_neg (by omega), if_neg (by omega)]
    · exact ht.boundary_of_ne hi he

/-- One turn: the boundary of cache `n` is moved. -/
theorem Moving.step (hn : n < p.numCaches)
    {mask : BitVec 32} (hmask : mask.getLsbD n = decide (p.lines n ≤ m)) :
    ∃ u, updateBoundary blk mask t n = .ok u ∧ Moving p l blk m (n + 1) s u := by
  unfold updateBoundary
  rw [hmask]
  by_cases hout : p.lines n ≤ m
  · obtain ⟨b, u, hb, hu, hmov⟩ := ht.step_out h hm hn hout
    refine ⟨u, ?_, hmov⟩
    rw [if_pos (decide_eq_true hout), hb, hu]
    rfl
  · rw [if_neg (by simpa using hout)]
    have hbd : t.cacheBoundaries n = some blk ↔ m = p.lines n - 1 := by
      rw [ht.boundary hn, if_neg (Nat.lt_irrefl n)]
      exact ⟨index_unique h.links.nodup hm, fun he => he ▸ hm⟩
    by_cases hlast : m = p.lines n - 1
    · rw [if_pos (hbd.2 hlast)]
      exact ⟨_, rfl, ht.step_last h hm hlast⟩
    · rw [if_neg fun he => hlast (hbd.1 he)]
      exact ⟨_, rfl, ht.step_in h hm (by omega)⟩

end

theorem Stack.mask_bit (hn : n < p.numCaches) :
    ((s.blks blk).inCache ^^^ p.cacheMask).getLsbD n = decide (p.lines n ≤ m) := by
  rw [getLsbD_xor, h.bits n hm, p.cacheMask_bit]
  by_cases hlt : m < p.lines n
  · simp [hn, hlt]
  · simp [hn, hlt, Nat.le_of_not_lt hlt]

theorem Stack.loop :
    ∃ t, (range p.numCaches).foldlM (updateBoundary blk ((s.blks blk).inCache ^^^ p.cacheMask)) s = .ok t ∧
      Moving p l blk m p.numCaches s t := by
  obtain ⟨t, ht, hmov⟩ := foldlM_ok (I := fun done t => Moving p l blk m done.length s t)
    h.moving
    (by
      intro done a rest t hl hmov
      obtain ⟨rfl, hlt⟩ := range_split hl
      obtain ⟨u, hu, hmov'⟩ := hmov.step h hm hlt (h.mask_bit hm hlt)
      exact ⟨u, hu, by rwa [length_append]⟩)
  rw [length_range] at hmov
  exact ⟨t, ht, hmov⟩

end

end

/-- What holds before the block is relinked. -/
structure Marked (p : Params) (l : List Frame) (blk : Frame) (s t : Store) : Prop where
  same : SameList s t
  bits : ∀ {k x} i, (front blk l)[k]? = some x →
    (t.blks x).inCache.getLsbD i = decide (i < p.numCaches ∧ k < p.lines i)
  boundary : ∀ {i}, i < p.numCaches → t.cacheBoundaries i = (front blk l)[p.lines i - 1]?

theorem Moving.marked (h : Stack p l s) (hm : l[m]? = some blk) (ht : Moving p l blk m p.numCaches s t) :
    Marked p l blk s (t.setInCache blk p.cacheMask) := by
  refine ⟨ht.same.trans (.setInCache t blk _), fun {k x} i hk => ?_, fun {i} hi => ?_⟩
  · have hk' := hk
    rw [getElem?_front h.links.nodup hm] at hk
    by_cases hk0 : k = 0
    · rw [if_pos hk0, Option.some_inj] at hk
      have hget : ((t.setInCache blk p.cacheMask).blks x).inCache = p.cacheMask := by
        simp [Store.setInCache, hk]
      have hpos := p.two_le_lines i
      rw [hget, p.cacheMask_bit, hk0]
      simp [show 0 < p.lines i by omega]
    · rw [if_neg hk0] at hk
      have hx : x ≠ blk := by
        have hnd := (front_perm (mem_of_getElem? hm)).nodup_iff.2 h.links.nodup
        intro he
        exact hk0 (index_unique hnd hk' (he ▸ rfl : (front blk l)[0]? = some x))
      have hget : (t.setInCache blk p.cacheMask).blks x = t.blks x := by
        simp [Store.setInCache, update_of_ne hx]
      rw [hget]
      by_cases hi : i < p.numCaches
      · by_cases hkm : k ≤ m
        · rw [if_pos hkm] at hk
          rw [ht.bits i hx hk, if_pos hi, shifted, if_pos (by omega), Nat.sub_add_cancel (by omega)]
        · rw [if_neg hkm] at hk
          rw [ht.bits i hx hk, if_pos hi, shifted, if_neg (by omega)]
      · have hxl : x ∈ l := (mem_front.1 (mem_of_getElem? hk')).resolve_left hx
        obtain ⟨j, hj⟩ := mem_iff_getElem?.1 hxl
        rw [ht.bits i hx hj]
        simp [hi]
  · show t.cacheBoundaries i = _
    rw [ht.boundary hi, if_pos hi]

end Loop

section Relink

variable {p : Params} {l : List Frame} {s t : Store} {blk x : Frame} {m : Nat}

theorem setNext_blks (s : Store) (q : Frame) (v : Option Frame) (x : Frame) :
    (s.setNext q v).blks x = { s.blks x with next := if x = q then v else (s.blks x).next } := by
  by_cases hx : x = q
  · subst hx
    simp [Store.setNext]
  · simp [Store.setNext, hx]

theorem setPrev_blks (s : Store) (q : Frame) (v : Option Frame) (x : Frame) :
    (s.setPrev q v).blks x = { s.blks x with prev := if x = q then v else (s.blks x).prev } := by
  by_cases hx : x = q
  · subst hx
    simp [Store.setPrev]
  · simp [Store.setPrev, hx]

theorem pushHead_blks (s : Store) (blk x : Frame) :
    (pushHead s blk).blks x = { s.blks x with
      next := if x = blk then some s.head else (s.blks x).next
      prev := if x = s.head then some blk else if x = blk then none else (s.blks x).prev } := by
  show (((s.setNext blk (some s.head)).setPrev blk none).setPrev s.head (some blk)).blks x = _
  rw [setPrev_blks, setPrev_blks, setNext_blks]

/-- What relinking changes. -/
structure Relinked (p : Params) (l : List Frame) (blk : Frame) (t u : Store) : Prop where
  links : Links (fun x => (u.blks x).prev) (fun x => (u.blks x).next) (front blk l)
  head : u.head = blk
  tail : (front blk l)[p.numBlocks - 1]? = some u.tail
  same : SameTags t u
  inCache : ∀ x, (u.blks x).inCache = (t.blks x).inCache
  boundary : u.cacheBoundaries = t.cacheBoundaries

section

variable (hl : Links (fun x => (t.blks x).prev) (fun x => (t.blks x).next) l)

include hl

theorem relinked_tail {q : Frame}
    (hb : l[m + 1]? = some blk) (hq : l[m]? = some q) (h0 : l[0]? = some t.head) (hlen : l.length = m + 2)
    (hN : p.numBlocks = m + 2) : Relinked p l blk t (pushHead ({ t with tail := q }.setNext q none) blk) := by
  have hlast : (t.blks blk).next = none := by
    rw [hl.next_eq hb]
    exact getElem?_eq_none (by omega)
  have hblks : ∀ x, (pushHead ({ t with tail := q }.setNext q none) blk).blks x = { t.blks x with
      next := if x = blk then some t.head else if x = q then none else (t.blks x).next
      prev := if x = t.head then some blk else if x = blk then none else (t.blks x).prev } := by
    intro x
    rw [pushHead_blks, setNext_blks]
    rfl
  refine ⟨hl.front hb hq h0 (fun x => ?_) (fun x => ?_), rfl, ?_, ⟨fun x => ?_, rfl, rfl, rfl, rfl⟩, fun x => ?_, rfl⟩
  · rw [hblks, hlast]
  · rw [hblks, hlast, if_neg (show ¬ none = some x by nofun)]
  · rw [getElem?_front hl.nodup hb, if_neg (by omega), if_pos (by omega), hN]
    exact hq
  · rw [hblks]
  · rw [hblks]

theorem relinked_middle {q r : Frame}
    (hb : l[m + 1]? = some blk) (hq : l[m]? = some q) (hr : l[m + 2]? = some r) (h0 : l[0]? = some t.head)
    (htail : l[p.numBlocks - 1]? = some t.tail) (hN : m + 2 < p.numBlocks) :
    Relinked p l blk t (pushHead ((t.setNext q (some r)).setPrev r (some q)) blk) := by
  have hnext : (t.blks blk).next = some r := by
    rw [hl.next_eq hb]
    exact hr
  have hblks : ∀ x, (pushHead ((t.setNext q (some r)).setPrev r (some q)) blk).blks x = { t.blks x with
      next := if x = blk then some t.head else if x = q then some r else (t.blks x).next
      prev := if x = t.head then some blk else if x = blk then none else
        if x = r then some q else (t.blks x).prev } := by
    intro x
    rw [pushHead_blks, setPrev_blks, setNext_blks]
    rfl
  refine ⟨hl.front hb hq h0 (fun x => ?_) (fun x => ?_), rfl, ?_, ⟨fun x => ?_, rfl, rfl, rfl, rfl⟩, fun x => ?_, rfl⟩
  · rw [hblks, hnext]
  · rw [hblks, hnext]
    simp only [Option.some_inj, eq_comm]
  · rw [getElem?_front hl.nodup hb, if_neg (by omega), if_neg (by omega)]
    exact htail
  · rw [hblks]
  · rw [hblks]

omit hl in
theorem assert_of {q : Prop} [Decidable q] (h : q) : assert p q = .ok () := by
  unfold assert
  rw [if_neg fun h' => h'.2 h]

theorem relink_ok (hb : l[m + 1]? = some blk)
    (h0 : l[0]? = some t.head) (htail : l[p.numBlocks - 1]? = some t.tail) (hlen : l.length = p.numBlocks) :
    ∃ u, relink p t blk = .ok u ∧ Relinked p l blk t u := by
  have hlt : m + 1 < l.length := (List.getElem?_eq_some_iff.1 hb).1
  have hq : l[m]? = some l[m] := getElem?_eq_getElem _
  have hprev : (t.blks blk).prev = some l[m] := by
    rw [hl.prev_eq hb]
    exact hq
  unfold relink
  by_cases he : blk = t.tail
  · have hm : m + 1 = p.numBlocks - 1 := index_unique hl.nodup hb (he ▸ htail)
    have hnext : (t.blks blk).next = none := by
      rw [hl.next_eq hb]
      exact getElem?_eq_none (by omega)
    refine ⟨_, ?_, relinked_tail hl hb hq h0 (by omega) (by omega)⟩
    rw [if_pos he, assert_of hnext, hprev]
    rfl
  · have hm : m + 1 ≠ p.numBlocks - 1 := by
      intro hm
      rw [← hm, hb, Option.some_inj] at htail
      exact he htail
    have hr : l[m + 2]? = some l[m + 2] := getElem?_eq_getElem _
    have hnext : (t.blks blk).next = some l[m + 2] := (hl.next_eq hb).trans hr
    refine ⟨_, ?_, relinked_middle hl hb hq hr h0 htail (by omega)⟩
    rw [if_neg he, hprev, hnext]
    rfl

end

theorem SameList.links (h : SameList s t) (hl : Links (fun x => (s.blks x).prev) (fun x => (s.blks x).next) l) :
    Links (fun x => (t.blks x).prev) (fun x => (t.blks x).next) l :=
  ⟨hl.nodup, fun hx => (h.next _).trans (hl.next_eq hx), fun hx => (h.prev _).trans (hl.prev_eq hx)⟩

theorem Stack.length_eq (h : Stack p l s) : l.length = p.numBlocks := by
  rw [h.perm.length_eq, length_range]

/-- Moving a block to the head keeps the bits and boundaries those of the list. -/
theorem Stack.moveToHead (h : Stack p l s) (hm : l[m]? = some blk) :
    ∃ u, moveToHead p s blk = .ok u ∧ Stack p (front blk l) u ∧ SameTags s u := by
  obtain ⟨t, ht, hmov⟩ := h.loop hm
  have hmark := hmov.marked h hm
  have hperm := (front_perm (mem_of_getElem? hm)).trans h.perm
  unfold FALRU.moveToHead
  dsimp only
  rw [ht, ok_bind]
  generalize t.setInCache blk p.cacheMask = t at hmark
  by_cases hh : blk = t.head
  · -- the block is the head already
    have hm0 : m = 0 := index_unique h.links.nodup hm (by rw [hh, hmark.same.head, h.head])
    have hfront : front blk l = l := front_of_head (hm0 ▸ hm)
    refine ⟨t, if_pos hh, ⟨?_, hperm, ?_, ?_, hmark.bits, hmark.boundary⟩, hmark.same.toSameTags⟩
    · rw [hfront]
      exact hmark.same.links h.links
    · rw [hfront, h.head, hmark.same.head]
    · rw [hfront, h.tail, hmark.same.tail]
  · obtain ⟨m, rfl⟩ : ∃ m', m = m' + 1 := exists_eq_succ_of_ne_zero fun hm0 => hh <| by
      rw [hmark.same.head]
      exact Option.some.inj ((hm0 ▸ hm).symm.trans h.head)
    obtain ⟨u, hu, hr⟩ := relink_ok (hmark.same.links h.links) hm (by rw [hmark.same.head]; exact h.head)
      (by rw [hmark.same.tail]; exact h.tail) h.length_eq
    refine ⟨u, (if_neg hh).trans hu, ⟨hr.links, hperm, ?_, hr.tail, fun i hk => ?_, fun hi => ?_⟩,
      hmark.same.toSameTags.trans hr.same⟩
    · rw [hr.head]
      rfl
    · rw [hr.inCache]
      exact hmark.bits i hk
    · rw [hr.boundary]
      exact hmark.boundary hi

end Relink

end M5.Mem.FALRU
