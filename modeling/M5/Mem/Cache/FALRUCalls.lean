import M5.Mem.Cache.FALRU

/-!
# The calls of the fully associative tag store

The constructor of `FALRU` and the functions a cache calls, over the list of `FALRU.lean`.
-/

namespace M5.Mem.FALRU

open Lib Lib.Recency Lib.LinkedList Function Nat List

/-! ## The constructor -/

structure Loop where
  blks : Frame → FALRUBlk
  cacheBoundaries : Nat → Option Frame
  index : Nat
  j : Nat
  flags : BitVec 32

/-- One iteration of the constructor's loop. -/
def initBlk (st : Loop) (i : Nat) : Loop :=
  let st' := { st with
    blks := update st.blks i { prev := some (i - 1), next := some (i + 1), inCache := st.flags } }
  if i = st.index - 1 then
    { st' with
      cacheBoundaries := update st.cacheBoundaries st.j (some i)
      flags := clearBit st.flags st.j
      j := st.j + 1
      index := st.index <<< 1 }
  else st'

/-- Before the loop: head and tail. -/
def initEnds (p : Params) : Loop where
  blks := update
    (update (fun _ => {}) 0 { prev := none, next := some 1, inCache := p.cacheMask })
    (p.numBlocks - 1) { prev := some (p.numBlocks - 2), next := none, inCache := 0 }
  cacheBoundaries := fun _ => none
  index := 2 ^ 17 / p.blkSize
  j := 0
  flags := p.cacheMask

def construct (p : Params) : Except Fault Store := do
  let st := (range' 1 (p.numBlocks - 2)).foldl initBlk (initEnds p)
  assert p (st.j = p.numCaches)
  assert p (st.index = p.numBlocks)
  .ok { blks := st.blks
        head := 0
        tail := p.numBlocks - 1
        cacheBoundaries := st.cacheBoundaries
        tagHash := fun _ => none
        hits := fun _ => 0
        misses := fun _ => 0
        accesses := 0 }

/-- The fields of the block at this place of the array. -/
structure BlkAt (p : Params) (x : Nat) (b : FALRUBlk) : Prop where
  prev : b.prev = if x = 0 then none else some (x - 1)
  next : b.next = if x + 1 < p.numBlocks then some (x + 1) else none
  bits : ∀ i, b.inCache.getLsbD i = decide (i < p.numCaches ∧ x < p.lines i)

/-- The loop has done the blocks up to `n`. -/
structure Built (p : Params) (n : Nat) (st : Loop) : Prop where
  index : st.index = p.lines st.j
  above : n + 1 < st.index
  below : ∀ i < st.j, p.lines i ≤ n + 1
  flags : ∀ i, st.flags.getLsbD i = decide (i < p.numCaches ∧ st.j ≤ i)
  blk : ∀ x : Nat, x ≤ n ∨ x = p.numBlocks - 1 → BlkAt p x (st.blks x)
  clean : ∀ x, (st.blks x).toCacheBlk = {}
  boundary : ∀ i < st.j, st.cacheBoundaries i = some (p.lines i - 1)

variable {p : Params}

theorem two_le_numBlocks (p : Params) : 2 ≤ p.numBlocks := by
  rw [p.numBlocks_eq]
  exact p.two_le_lines _

theorem built_ends (p : Params) : Built p 0 (initEnds p) := by
  have h2 := two_le_numBlocks p
  refine ⟨rfl, p.two_le_lines 0, nofun, fun i => ?_, fun x hx => ?_, fun x => ?_, nofun⟩
  · show p.cacheMask.getLsbD i = _
    rw [p.cacheMask_bit]
    simp [initEnds]
  · by_cases hl : x = p.numBlocks - 1
    · have hb : (initEnds p).blks x = { prev := some (p.numBlocks - 2), next := none, inCache := 0 } := by
        simp [initEnds, hl]
      rw [hb]
      refine ⟨?_, ?_, fun i => ?_⟩
      · have he : p.numBlocks - 2 = x - 1 := by omega
        rw [if_neg (by omega), he]
      · rw [if_neg (by omega)]
      · have hn : ¬ (i < p.numCaches ∧ x < p.lines i) := by
          rintro ⟨hi, hx⟩
          have := p.lines_lt hi
          omega
        rw [decide_eq_false hn]
        exact BitVec.getLsbD_zero
    · have hx0 : x = 0 := by omega
      have hb : (initEnds p).blks x = { prev := none, next := some 1, inCache := p.cacheMask } := by
        subst hx0
        simp [initEnds, hl]
      rw [hb, hx0]
      refine ⟨rfl, ?_, fun i => ?_⟩
      · rw [if_pos (by omega)]
      · have hpos := p.two_le_lines i
        rw [p.cacheMask_bit]
        simp [show 0 < p.lines i by omega]
  · unfold initEnds
    dsimp only
    by_cases hl : x = p.numBlocks - 1
    · rw [hl, update_self]
    · rw [update_of_ne hl]
      by_cases h0 : x = 0
      · rw [h0, update_self]
      · rw [update_of_ne h0]

theorem lines_succ (p : Params) (i : Nat) : p.lines (i + 1) = p.lines i <<< 1 := by
  rw [p.lines_eq, p.lines_eq, shiftLeft_eq]
  rfl

theorem Built.flags_eq {n : Nat} {st : Loop} (h : Built p n st) (i : Nat) :
    st.flags.getLsbD i = decide (i < p.numCaches ∧ n + 1 < p.lines i) := by
  have hiff : st.j ≤ i ↔ n + 1 < p.lines i := by
    have hab := h.above
    rw [h.index] at hab
    constructor
    · intro hle
      rcases Nat.lt_or_eq_of_le hle with hlt | he
      · exact Nat.lt_trans hab ((p.lines_lt_iff st.j i).2 hlt)
      · exact he ▸ hab
    · by_contra hlt'
      have := h.below i (by omega)
      omega
  rw [h.flags]
  simp only [hiff]

theorem initBlk_blks (st : Loop) (i : Nat) : (initBlk st i).blks =
    update st.blks i { prev := some (i - 1), next := some (i + 1), inCache := st.flags } := by
  unfold initBlk
  split <;> rfl

theorem Built.blks_step {n : Nat} {st : Loop} (h : Built p n st) (hn : n + 1 < p.numBlocks - 1) :
    (∀ x : Nat, x ≤ n + 1 ∨ x = p.numBlocks - 1 → BlkAt p x ((initBlk st (n + 1)).blks x)) ∧
      ∀ x, ((initBlk st (n + 1)).blks x).toCacheBlk = {} := by
  rw [initBlk_blks]
  refine ⟨(forall_update_iff st.blks fun x b => x ≤ n + 1 ∨ x = p.numBlocks - 1 → BlkAt p x b).2 ⟨fun _ => ?_, ?_⟩,
    (forall_update_iff st.blks fun _ b => b.toCacheBlk = {}).2 ⟨rfl, fun x _ => h.clean x⟩⟩
  · exact ⟨by rw [if_neg (succ_ne_zero n)], by rw [if_pos (by omega)], h.flags_eq⟩
  · exact fun x he hx => h.blk x (hx.imp_left fun hle => le_of_lt_succ (Nat.lt_of_le_of_ne hle he))

theorem Built.step {n : Nat} {st : Loop} (h : Built p n st) (hn : n + 1 < p.numBlocks - 1) :
    Built p (n + 1) (initBlk st (n + 1)) := by
  obtain ⟨hblk, hclean⟩ := h.blks_step hn
  have hab := h.above
  unfold initBlk at hblk hclean ⊢
  split at hblk
  · rename_i he
    rw [if_pos he] at hclean
    rw [if_pos he]
    have hj : st.index = n + 2 := by omega
    refine ⟨?_, ?_, fun i hi => ?_, fun i => ?_, hblk, hclean, fun i hi => ?_⟩
    · rw [h.index]
      exact (lines_succ p st.j).symm
    · show n + 1 + 1 < st.index <<< 1
      omega
    · have hi : i < st.j + 1 := hi
      by_cases hij : i = st.j
      · rw [hij, ← h.index]
        omega
      · exact le_succ_of_le (h.below i (by omega))
    · show (clearBit st.flags st.j).getLsbD i = decide (i < p.numCaches ∧ st.j + 1 ≤ i)
      rw [getLsbD_clearBit, h.flags, ← Bool.decide_and]
      exact decide_eq_decide.2 (by omega)
    · have hi : i < st.j + 1 := hi
      show update st.cacheBoundaries st.j (some (n + 1)) i = _
      by_cases hij : i = st.j
      · rw [hij, update_self, ← h.index, hj]
        rfl
      · rw [update_of_ne hij]
        exact h.boundary i (by omega)
  · rename_i he
    rw [if_neg he] at hclean
    rw [if_neg he]
    refine ⟨h.index, ?_, fun i hi => le_succ_of_le (h.below i hi), h.flags, hblk, hclean, h.boundary⟩
    show n + 1 + 1 < st.index
    omega

theorem built_loop (p : Params) : ∀ n, n ≤ p.numBlocks - 2 → Built p n ((range' 1 n).foldl initBlk (initEnds p))
  | 0, _ => built_ends p
  | n + 1, hn => by
    rw [range'_concat, foldl_append, Nat.one_mul, Nat.add_comm 1 n]
    exact (built_loop p n (by omega)).step (by omega)

/-- The constructor ends, and the blocks are in the order of the array with their bits and boundaries. -/
theorem construct_ok (p : Params) : ∃ s, construct p = .ok s ∧ Stack p (range p.numBlocks) s ∧
    (∀ x, (s.blks x).toCacheBlk = {}) ∧ s.tagHash = (fun _ => none) ∧ s.hits = fun _ => 0 := by
  have h2 := two_le_numBlocks p
  have hb := built_loop p (p.numBlocks - 2) (Nat.le_refl _)
  unfold construct
  dsimp only
  generalize (range' 1 (p.numBlocks - 2)).foldl initBlk (initEnds p) = st at hb
  have hab := hb.above
  rw [hb.index] at hab
  have hj : st.j = p.numCaches := by
    have hge : ¬ st.j < p.numCaches := fun hlt => by
      have := (p.lines_lt_iff _ _).2 hlt
      have := p.numBlocks_eq
      omega
    have hle : ¬ p.numCaches < st.j := fun hlt => by
      have := hb.below _ hlt
      have := p.numBlocks_eq
      omega
    omega
  have hindex : st.index = p.numBlocks := by rw [hb.index, hj, p.numBlocks_eq]
  rw [assert_of hj, assert_of hindex]
  have hat : ∀ {k x : Nat}, (range p.numBlocks)[k]? = some x → k < p.numBlocks ∧ k = x := by
    intro k x hx
    obtain ⟨hlt, he⟩ := List.getElem?_eq_some_iff.1 hx
    rw [length_range] at hlt
    rw [getElem_range] at he
    exact ⟨hlt, he⟩
  have hblk : ∀ k : Nat, k < p.numBlocks → BlkAt p k (st.blks k) := fun k hk => hb.blk k (by omega)
  refine ⟨_, rfl, ⟨⟨nodup_range, fun {k x} hx => ?_, fun {k x} hx => ?_⟩, .refl _, ?_, ?_, fun {k x} i hx => ?_,
    fun {i} hi => ?_⟩, hb.clean, rfl, rfl⟩
  · obtain ⟨hk, rfl⟩ := hat hx
    rw [(hblk k hk).next]
    by_cases hk1 : k + 1 < p.numBlocks
    · rw [if_pos hk1, getElem?_range hk1]
    · rw [if_neg hk1, getElem?_eq_none (by rw [length_range]; omega)]
  · obtain ⟨hk, rfl⟩ := hat hx
    rw [(hblk k hk).prev]
    by_cases hk0 : k = 0
    · rw [if_pos hk0, if_pos hk0]
    · rw [if_neg hk0, if_neg hk0, getElem?_range (by omega)]
  · rw [getElem?_range (by omega)]
  · rw [getElem?_range (by omega)]
  · obtain ⟨hk, rfl⟩ := hat hx
    exact (hblk k hk).bits i
  · have hlt := p.lines_lt hi
    rw [getElem?_range (by omega)]
    exact hb.boundary i (hj ▸ hi)

/-- Four blocks of 64K, which keep track of a cache of 128K. -/
def fourBlocks (debug : Bool) : Params where
  blkSize := 2 ^ 16
  size := 2 ^ 18
  blkSize_pow := by decide
  size_pow := by decide
  blkSize_le := by decide
  size_ge := by decide
  size_lt := by decide
  debug := debug

/-- The store of four blocks as it is constructed. -/
def fourStore : Bool → Store
  | false => (construct (fourBlocks false)).toOption.get rfl
  | true => (construct (fourBlocks true)).toOption.get rfl

/-! ## Calls -/

section

variable (p : Params) (s : Store) (addr : Addr)

/-- The counters of a hit in the store on a block with these bits. -/
def countHit (inCache : BitVec 32) : Store :=
  { s with
    hits := fun i => if (i < p.numCaches ∧ inCache.getLsbD i) ∨ i = p.numCaches then s.hits i + 1 else s.hits i
    misses := fun i => if i < p.numCaches ∧ ¬ inCache.getLsbD i then s.misses i + 1 else s.misses i }

def countMiss : Store :=
  { s with misses := fun i => if i ≤ p.numCaches then s.misses i + 1 else s.misses i }

def hashLookup : Option Frame := s.tagHash addr

/-- The block hashed under the address, if there is one and it is valid. -/
def validLookup (blkAddr : Addr) : Option Frame :=
  (hashLookup s blkAddr).filter fun blk => (s.blks blk).isValid

def accessBlock : Except Fault (Option Frame × Store) :=
  let s := { s with accesses := s.accesses + 1 }
  match validLookup s (p.blkAlign addr) with
  | some blk => do
    assert p ((s.blks blk).tag = p.blkAlign addr)
    let s := countHit p s (s.blks blk).inCache
    let s ← if blk ≠ s.head then moveToHead p s blk else .ok s
    .ok (some blk, s)
  | none => .ok (none, countMiss p s)

def findBlock : Except Fault (Option Frame) :=
  match validLookup s (p.blkAlign addr) with
  | some blk => do
    assert p ((s.blks blk).tag = p.blkAlign addr)
    .ok (some blk)
  | none => .ok none

def findVictim : Except Fault (Frame × Store) := do
  let blk := s.tail
  assert p ((s.blks blk).inCache = 0)
  let s ← moveToHead p s blk
  let tagHash := update s.tagHash (s.blks blk).tag none
  .ok (blk, { s with tagHash := update tagHash (p.blkAlign addr) (some blk) })

/-- `FALRU::insertBlock` does nothing: it leaves the tag of the block as it is. -/
def insertBlock (_addr : Addr) (_blk : Frame) : Store := s

/-- What the cache writes to a block outside the tag store: its status, data and locks. -/
def writeBlk (x : Frame) (b : CacheBlk) : Store :=
  { s with blks := update s.blks x { s.blks x with toCacheBlk := b } }

def invalidateBlk (x : Frame) : Store := writeBlk s x { (s.blks x).toCacheBlk with status := {} }

end

section Calls

variable {l : List Frame} {s t : Store} {addr : Addr} {blk x : Frame}

theorem validLookup_eq_some {a : Addr} :
    validLookup s a = some blk ↔ s.tagHash a = some blk ∧ (s.blks blk).isValid := by
  unfold validLookup hashLookup
  rw [Option.filter_eq_some_iff]

theorem accessBlock_hit (h : Stack p l s) (hb : blk ∈ l) (hh : validLookup s (p.blkAlign addr) = some blk)
    (ht : p.debug → (s.blks blk).tag = p.blkAlign addr) : ∃ t, accessBlock p s addr = .ok (some blk, t) ∧
      Stack p (front blk l) t ∧ (∀ x, (t.blks x).toCacheBlk = (s.blks x).toCacheBlk) ∧ t.tagHash = s.tagHash ∧
      ∀ i < p.numCaches, t.hits i = if (s.blks blk).inCache.getLsbD i then s.hits i + 1 else s.hits i := by
  obtain ⟨m, hm⟩ := mem_iff_getElem?.1 hb
  have hassert : assert p ((s.blks blk).tag = p.blkAlign addr) = .ok () := by
    unfold assert
    rw [if_neg fun h' => h'.2 (ht h'.1)]
  generalize hcount : countHit p { s with accesses := s.accesses + 1 } (s.blks blk).inCache = u
  have hblks : u.blks = s.blks := by rw [← hcount]; rfl
  have hu : Stack p l u := by
    rw [← hcount]
    exact ⟨h.links, h.perm, h.head, h.tail, h.bits, h.boundary⟩
  have hhits : ∀ i < p.numCaches, u.hits i = if (s.blks blk).inCache.getLsbD i then s.hits i + 1 else s.hits i := by
    intro i hi
    rw [← hcount]
    simp only [countHit, hi, true_and, Nat.ne_of_lt hi, or_false]
  have hacc : accessBlock p s addr = (do
      let s ← if blk ≠ u.head then moveToHead p u blk else .ok u
      .ok (some blk, s)) := by
    unfold accessBlock
    dsimp only
    have hl' : validLookup { s with accesses := s.accesses + 1 } (p.blkAlign addr) = some blk := hh
    rw [hl']
    dsimp only
    rw [hassert, ok_bind, hcount]
  have hhash : u.tagHash = s.tagHash := by rw [← hcount]; rfl
  rw [hacc]
  by_cases hhead : blk = u.head
  · rw [if_neg (not_not_intro hhead)]
    refine ⟨u, rfl, ?_, fun x => by rw [hblks], hhash, hhits⟩
    have hm0 : m = 0 := index_unique h.links.nodup hm (by rw [hhead, hu.head])
    rw [front_of_head (hm0 ▸ hm)]
    exact hu
  · rw [if_pos hhead]
    obtain ⟨v, hv, hsv, hsame⟩ := hu.moveToHead hm
    rw [hv]
    refine ⟨v, rfl, hsv, fun x => (hsame.blk x).trans (by rw [hblks]), hsame.hash.trans hhash, fun i hi => ?_⟩
    rw [hsame.hits]
    exact hhits i hi

theorem accessBlock_miss (hh : validLookup s (p.blkAlign addr) = none) :
    accessBlock p s addr = .ok (none, countMiss p { s with accesses := s.accesses + 1 }) := by
  unfold accessBlock
  dsimp only
  have hl' : validLookup { s with accesses := s.accesses + 1 } (p.blkAlign addr) = none := hh
  rw [hl']

theorem lookup_assert (hh : validLookup s (p.blkAlign addr) = some blk) (hd : p.debug)
    (ht : (s.blks blk).tag ≠ p.blkAlign addr) :
    accessBlock p s addr = .error .assert ∧ findBlock p s addr = .error .assert := by
  have hassert : assert p ((s.blks blk).tag = p.blkAlign addr) = .error .assert := by
    unfold assert
    rw [if_pos ⟨hd, ht⟩]
  constructor
  · unfold accessBlock
    dsimp only
    have hl' : validLookup { s with accesses := s.accesses + 1 } (p.blkAlign addr) = some blk := hh
    rw [hl']
    dsimp only
    rw [hassert]
    rfl
  · unfold findBlock
    rw [hh]
    dsimp only
    rw [hassert]
    rfl

theorem Stack.tail_inCache (h : Stack p l s) : (s.blks s.tail).inCache = 0 := by
  refine BitVec.eq_of_getLsbD_eq fun i _ => ?_
  have hn : ¬ (i < p.numCaches ∧ p.numBlocks - 1 < p.lines i) := by
    rintro ⟨hi, hlt⟩
    have := p.lines_lt hi
    omega
  rw [h.bits i h.tail, decide_eq_false hn]
  exact BitVec.getLsbD_zero.symm

/-- What `findVictim` does to the list and to the hash table. -/
theorem findVictim_ok (h : Stack p l s) (addr : Addr) : ∃ t, findVictim p s addr = .ok (s.tail, t) ∧
    Stack p (front s.tail l) t ∧ (∀ x, (t.blks x).toCacheBlk = (s.blks x).toCacheBlk) ∧
    t.tagHash = update (update s.tagHash (s.blks s.tail).tag none) (p.blkAlign addr) (some s.tail) ∧
    t.hits = s.hits := by
  obtain ⟨u, hu, hsu, hsame⟩ := h.moveToHead h.tail
  have htag : (u.blks s.tail).tag = (s.blks s.tail).tag := congrArg CacheBlk.tag (hsame.blk s.tail)
  unfold findVictim
  dsimp only
  rw [assert_of h.tail_inCache, hu, ok_bind]
  refine ⟨_, rfl, ⟨hsu.links, hsu.perm, hsu.head, hsu.tail, hsu.bits, hsu.boundary⟩, hsame.blk, ?_, hsame.hits⟩
  rw [hsame.hash, htag]

theorem writeBlk_blks (s : Store) (x : Frame) (b : CacheBlk) (y : Frame) :
    (writeBlk s x b).blks y = { s.blks y with toCacheBlk := if y = x then b else (s.blks y).toCacheBlk } := by
  by_cases hy : y = x
  · subst hy
    simp [writeBlk]
  · simp [writeBlk, hy]

theorem Stack.writeBlk (h : Stack p l s) (x : Frame) (b : CacheBlk) : Stack p l (writeBlk s x b) := by
  refine ⟨⟨h.links.nodup, fun hy => ?_, fun hy => ?_⟩, h.perm, h.head, h.tail, fun i hy => ?_, h.boundary⟩
  · rw [writeBlk_blks]
    exact h.links.next_eq hy
  · rw [writeBlk_blks]
    exact h.links.prev_eq hy
  · rw [writeBlk_blks]
    exact h.bits i hy

end Calls

end M5.Mem.FALRU
