import M5.Mem.Cache.FALRUCalls
import M5.Lib.Run
import Mathlib.Data.List.Induction

/-!
# Stack inclusion

One recency list stands for all the smaller caches that `FALRU` keeps track of: the first blocks of the list are the
blocks a fully associative LRU cache of that many blocks would hold, if every block that misses is brought in at once
and the hash table has no entry of a block that has gone. The smaller caches are run next to the store, as `Ideal`
caches of their own that see the same addresses.
-/

namespace M5.Mem.FALRU

open Lib Lib.Recency Lib.LinkedList Function List Nat

/-! ## Walking the list -/

/-- The blocks along `next`. -/
def follow (s : Store) : Nat → Option Frame → List Frame
  | 0, _ => []
  | _ + 1, none => []
  | n + 1, some x => x :: follow s n (s.blks x).next

def recency (p : Params) (s : Store) : List Frame := follow s (p.numBlocks + 1) (some s.head)

/-- The loop of `check()`; `none` when it has not ended after this many blocks. -/
def checkLoop (p : Params) (s : Store) : Nat → Option Frame → BitVec 32 → BitVec 32 → Nat → BitVec 32 → Option Bool
  | 0, _, _, _, _, _ => none
  | _ + 1, none, _, _, _, _ => some true
  | n + 1, some blk, size, boundary, j, flags =>
    let size := size + .ofNat 32 p.blkSize
    if (s.blks blk).inCache ≠ flags then some false
    else if size = boundary ∧ blk ≠ s.tail then
      if s.cacheBoundaries j ≠ some blk then some false
      else checkLoop p s n (s.blks blk).next size (boundary <<< 1) (j + 1) (clearBit flags j)
    else checkLoop p s n (s.blks blk).next size boundary j flags

def check (p : Params) (s : Store) : Option Bool :=
  checkLoop p s (p.numBlocks + 1) (some s.head) 0 (1#32 <<< 17) 0 p.cacheMask

variable {p : Params} {l : List Frame} {s t : Store}

theorem Stack.follow (h : Stack p l s) : ∀ n k : Nat, l.length < k + n → follow s n l[k]? = l.drop k
  | 0, k, hk => by
    rw [drop_eq_nil_of_le (by omega)]
    rfl
  | n + 1, k, hk => by
    cases hx : l[k]? with
    | none =>
      rw [drop_eq_nil_of_le (getElem?_eq_none_iff.1 hx)]
      rfl
    | some x =>
      obtain ⟨hlt, rfl⟩ := List.getElem?_eq_some_iff.1 hx
      rw [FALRU.follow, h.links.next_eq hx, Stack.follow h n (k + 1) (by omega), drop_eq_getElem_cons hlt]

/-- The variables of `check()` at the block in position `k`. -/
structure Checked (p : Params) (k : Nat) (size boundary : BitVec 32) (j : Nat) (flags : BitVec 32) : Prop where
  size : size = .ofNat 32 (k * p.blkSize)
  boundary : boundary = .ofNat 32 (p.lines j * p.blkSize)
  le : j ≤ p.numCaches
  above : k < p.lines j
  below : ∀ i < j, p.lines i ≤ k
  flags : ∀ i, flags.getLsbD i = decide (i < p.numCaches ∧ j ≤ i)

section Check

variable {k j : Nat} {size boundary flags : BitVec 32}

theorem lines_mul (p : Params) (i : Nat) : p.lines i * p.blkSize = 2 ^ (17 + i) := by
  have hle := p.log2_blkSize_le
  rw [p.lines_eq]
  calc 2 ^ (17 - log2 p.blkSize + i) * p.blkSize
      = 2 ^ (17 - log2 p.blkSize + i) * 2 ^ log2 p.blkSize := by rw [← p.blkSize_pow]
    _ = 2 ^ (17 + i) := by
      rw [← Nat.pow_add]
      congr 1
      omega

theorem mul_blkSize_lt (hk : k ≤ p.numBlocks) : k * p.blkSize < 2 ^ 32 := by
  have hs := p.log2_size
  calc k * p.blkSize ≤ p.numBlocks * p.blkSize := mul_le_mul_right _ hk
    _ = 2 ^ (17 + p.numCaches) := by rw [p.numBlocks_eq, lines_mul]
    _ < 2 ^ 32 := Nat.pow_lt_pow_right (by decide) (by unfold Params.numCaches; omega)

theorem checked_start (p : Params) : Checked p 0 0 (1#32 <<< 17) 0 p.cacheMask := by
  have h2 := p.two_le_lines 0
  refine ⟨?_, ?_, zero_le _, by omega, nofun, fun i => ?_⟩
  · rw [Nat.zero_mul]
    rfl
  · rw [lines_mul]
    rfl
  · rw [p.cacheMask_bit]
    simp

section

variable (hc : Checked p k size boundary j flags)

include hc

theorem Checked.flags_eq (i : Nat) : flags.getLsbD i = decide (i < p.numCaches ∧ k < p.lines i) := by
  have hiff : j ≤ i ↔ k < p.lines i := by
    constructor
    · intro hle
      rcases Nat.lt_or_eq_of_le hle with hlt | he
      · exact Nat.lt_trans hc.above ((p.lines_lt_iff j i).2 hlt)
      · exact he ▸ hc.above
    · by_contra hlt'
      have := hc.below i (by omega)
      omega
  rw [hc.flags]
  simp only [hiff]

theorem Checked.size_eq_iff (hk : k < p.numBlocks) :
    size + .ofNat 32 p.blkSize = boundary ↔ k + 1 = p.lines j := by
  have hj : p.lines j ≤ p.numBlocks := by
    rw [p.numBlocks_eq]
    exact Nat.le_of_not_lt fun hlt => by
      have := (p.lines_lt_iff _ _).1 hlt
      have := hc.le
      omega
  have hadd : size + .ofNat 32 p.blkSize = .ofNat 32 ((k + 1) * p.blkSize) := by
    rw [hc.size, ← BitVec.ofNat_add, succ_mul]
  rw [hadd, hc.boundary, ← BitVec.toNat_inj, BitVec.toNat_ofNat, BitVec.toNat_ofNat,
    mod_eq_of_lt (mul_blkSize_lt hk), mod_eq_of_lt (mul_blkSize_lt hj)]
  exact ⟨eq_of_mul_eq_mul_right p.blkSize_pos, fun he => congrArg (· * p.blkSize) he⟩

theorem Checked.next (hne : k + 1 ≠ p.lines j) :
    Checked p (k + 1) (size + .ofNat 32 p.blkSize) boundary j flags := by
  have hab := hc.above
  refine ⟨?_, hc.boundary, hc.le, by omega, fun i hi => le_succ_of_le (hc.below i hi), hc.flags⟩
  rw [hc.size, ← BitVec.ofNat_add, succ_mul]

theorem Checked.cross (he : k + 1 = p.lines j) (hj : j < p.numCaches) :
    Checked p (k + 1) (size + .ofNat 32 p.blkSize) (boundary <<< 1) (j + 1) (clearBit flags j) := by
  refine ⟨?_, ?_, hj, ?_, fun i hi => ?_, fun i => ?_⟩
  · rw [hc.size, ← BitVec.ofNat_add, succ_mul]
  · rw [hc.boundary, lines_mul, lines_mul, ← Nat.add_assoc, Nat.pow_succ, BitVec.shiftLeft_eq_mul_twoPow,
      BitVec.ofNat_mul]
    rfl
  · rw [he]
    exact (p.lines_lt_iff _ _).2 (lt_succ_self j)
  · by_cases hij : i = j
    · exact Nat.le_of_eq (by rw [hij, he])
    · exact le_succ_of_le (hc.below i (by omega))
  · rw [getLsbD_clearBit, hc.flags, ← Bool.decide_and]
    exact decide_eq_decide.2 (by omega)

end

theorem Stack.checkLoop (h : Stack p l s) : ∀ {n k : Nat} {size boundary : BitVec 32} {j : Nat} {flags : BitVec 32},
    l.length < k + n → k ≤ l.length → Checked p k size boundary j flags →
      checkLoop p s n l[k]? size boundary j flags = some true
  | 0, k, _, _, _, _, hn, hk, _ => by omega
  | n + 1, k, size, boundary, j, flags, hn, hk, hc => by
    cases hx : l[k]? with
    | none => rfl
    | some x =>
      have hlen := h.length_eq
      have hlt : k < l.length := (List.getElem?_eq_some_iff.1 hx).1
      have hflags : (s.blks x).inCache = flags :=
        BitVec.eq_of_getLsbD_eq fun i _ => by rw [h.bits i hx, hc.flags_eq]
      have htail : x = s.tail ↔ k = p.numBlocks - 1 := eq_iff_index h.links.nodup hx h.tail
      rw [FALRU.checkLoop]
      rw [if_neg (not_not_intro hflags), h.links.next_eq hx]
      by_cases hb : k + 1 = p.lines j
      · by_cases hl : x = s.tail
        · -- the last block of the list: the loop ends after it
          have hend : l[k + 1]? = none := getElem?_eq_none (by have := htail.1 hl; omega)
          obtain ⟨n, rfl⟩ : ∃ n', n = n' + 1 := exists_eq_succ_of_ne_zero (by omega)
          rw [if_neg fun hc' => hc'.2 hl, hend]
          rfl
        · have hj : j < p.numCaches := by
            refine Nat.lt_of_le_of_ne hc.le fun he => hl (htail.2 ?_)
            rw [p.numBlocks_eq, ← he, ← hb]
            rfl
          have hbd : s.cacheBoundaries j = some x := by
            rw [h.boundary hj, ← hb]
            exact hx
          rw [if_pos ⟨(hc.size_eq_iff (by omega)).2 hb, hl⟩, if_neg (not_not_intro hbd)]
          exact Stack.checkLoop h (by omega) hlt (hc.cross hb hj)
      · rw [if_neg fun hc' => hb ((hc.size_eq_iff (by omega)).1 hc'.1)]
        exact Stack.checkLoop h (by omega) hlt (hc.next hb)

/-- `check()` finds nothing wrong in a list with its bits and boundaries. -/
theorem Stack.check (h : Stack p l s) : check p s = some true := by
  have hlen := h.length_eq
  unfold FALRU.check
  rw [← h.head]
  exact h.checkLoop (by omega) (zero_le _) (checked_start p)

end Check

/-! ## Calls -/

/-- A call that may move a block to the head, with the block it found or chose, or a write of the cache to a block. -/
inductive Call where
  | access (addr : Addr) (found : Option Frame)
  | victim (addr : Addr) (blk : Frame)
  | write (blk : Frame)
deriving DecidableEq

inductive Step (p : Params) (s : Store) : Call → Store → Prop
  | accessBlock {addr found t} (h : accessBlock p s addr = .ok (found, t)) : Step p s (.access addr found) t
  | findVictim {addr blk t} (h : findVictim p s addr = .ok (blk, t)) : Step p s (.victim addr blk) t
  | write (x : Frame) (b : CacheBlk) : Step p s (.write x) (writeBlk s x b)

structure Inv (p : Params) (s : Store) (l : List Frame) : Prop where
  stack : Stack p l s
  hashed : ∀ {a x}, s.tagHash a = some x → x ∈ l

section Run

variable {c : Call} {b : Frame} {addr : Addr}

theorem of_miss (ha : accessBlock p s addr = .ok (none, t)) :
    validLookup s (p.blkAlign addr) = none ∧ t = countMiss p { s with accesses := s.accesses + 1 } := by
  cases hl : validLookup s (p.blkAlign addr) with
  | none =>
    rw [accessBlock_miss hl] at ha
    cases ha
    exact ⟨rfl, rfl⟩
  | some b =>
    unfold accessBlock at ha
    dsimp only at ha
    rw [show validLookup { s with accesses := s.accesses + 1 } (p.blkAlign addr) = some b from hl] at ha
    obtain ⟨-, -, ha⟩ := of_bind ha
    split at ha <;> cases (of_map ha).choose_spec.2

theorem Inv.of_hit (hi : Inv p s l) (ha : accessBlock p s addr = .ok (some b, t)) :
    validLookup s (p.blkAlign addr) = some b ∧ b ∈ l ∧ Stack p (front b l) t ∧
      (∀ x, (t.blks x).toCacheBlk = (s.blks x).toCacheBlk) ∧ t.tagHash = s.tagHash ∧
      ∀ i < p.numCaches, t.hits i = if (s.blks b).inCache.getLsbD i then s.hits i + 1 else s.hits i := by
  cases hl : validLookup s (p.blkAlign addr) with
  | none =>
    rw [accessBlock_miss hl] at ha
    cases ha
  | some b' =>
    have hb : b' ∈ l := hi.hashed (validLookup_eq_some.1 hl).1
    have htag : p.debug → (s.blks b').tag = p.blkAlign addr := by
      intro hd
      by_contra hne
      rw [(lookup_assert hl hd hne).1] at ha
      cases ha
    obtain ⟨u, hu, hsu, hblk, hhash, hhits⟩ := accessBlock_hit hi.stack hb hl htag
    cases hu.symm.trans ha
    exact ⟨rfl, hb, hsu, hblk, hhash, hhits⟩

theorem Stack.countMiss (h : Stack p l s) : Stack p l (countMiss p { s with accesses := s.accesses + 1 }) :=
  ⟨h.links, h.perm, h.head, h.tail, h.bits, h.boundary⟩

theorem Inv.step (hi : Inv p s l) (hs : Step p s c t) : ∃ l', Inv p t l' := by
  cases hs with
  | @accessBlock addr found _ ha =>
    cases found with
    | none =>
      obtain ⟨-, rfl⟩ := of_miss ha
      exact ⟨l, hi.stack.countMiss, hi.hashed⟩
    | some b =>
      obtain ⟨-, -, hst, -, hhash, -⟩ := hi.of_hit ha
      refine ⟨front b l, hst, fun hx => ?_⟩
      rw [hhash] at hx
      exact mem_front.2 (.inr (hi.hashed hx))
  | @findVictim addr _ _ hv =>
    obtain ⟨u, hu, hsu, -, hhash, -⟩ := findVictim_ok hi.stack addr
    cases hu.symm.trans hv
    refine ⟨front s.tail l, hsu, fun {a x} hx => mem_front.2 ?_⟩
    rw [hhash] at hx
    by_cases ha : a = p.blkAlign addr
    · rw [ha, update_self, Option.some_inj] at hx
      exact .inl hx.symm
    · rw [update_of_ne ha] at hx
      by_cases ha' : a = (s.blks s.tail).tag
      · rw [ha', update_self] at hx
        cases hx
      · rw [update_of_ne ha'] at hx
        exact .inr (hi.hashed hx)
  | write x b => exact ⟨l, hi.stack.writeBlk x b, hi.hashed⟩

theorem inv_construct {s₀ : Store} (hc : construct p = .ok s₀) : Inv p s₀ (range p.numBlocks) := by
  obtain ⟨u, hu, hsu, -, hhash, -⟩ := construct_ok p
  cases hu.symm.trans hc
  refine ⟨hsu, fun {a x} hx => ?_⟩
  rw [hhash] at hx
  cases hx

theorem inv_run {s₀ : Store} {h : List Call} (hc : construct p = .ok s₀) (run : Run (Step p) s₀ h s) :
    ∃ l, Inv p s l :=
  run.invariant (I := fun s => ∃ l, Inv p s l) ⟨_, inv_construct hc⟩ fun ⟨_, hi⟩ hs => hi.step hs

end Run

/-! ## The smaller caches -/

/-- A fully associative LRU cache on its own: its blocks, most recently used first, and its hits. -/
structure Ideal where
  lines : List Addr
  hits : Nat

/-- An access of a block, which takes the place of the last one when it is not there. -/
def Ideal.access (n : Nat) (c : Ideal) (a : Addr) : Ideal :=
  ⟨(front a c.lines).take n, if a ∈ c.lines then c.hits + 1 else c.hits⟩

/-- A cache of `n` blocks after the accesses. -/
def ideal (n : Nat) (as : List Addr) : Ideal := as.foldl (.access n) ⟨[], 0⟩

/-- The blocks accessed, most recent first. -/
def recent (as : List Addr) : List Addr := as.foldl (fun l a => front a l) []

/-- The hash table does not lead to the tail, and has no entry under its tag. -/
def Vacant (s : Store) : Prop := (∀ a, s.tagHash a ≠ some s.tail) ∧ s.tagHash (s.blks s.tail).tag = none

/-- An access; if it misses, the block is brought in at once, in the place of a tail that is vacant. The cache then
writes to the block, which is valid. -/
inductive Fetch (p : Params) (s : Store) (addr : Addr) : Store → Prop
  | hit {b t} (c : CacheBlk) (ha : accessBlock p s addr = .ok (some b, t)) (hc : c.isValid) :
      Fetch p s addr (writeBlk t b c)
  | miss {b t u} (c : CacheBlk) (ha : accessBlock p s addr = .ok (none, t)) (hs : Vacant s)
      (hv : findVictim p t addr = .ok (b, u)) (hc : c.isValid) : Fetch p s addr (writeBlk u b c)

section Fetch

variable {as : List Addr} {a : Addr} {b : Frame} {n : Nat} {used : List (Frame × Addr)} {rest : List Frame}

theorem recent_snoc (as : List Addr) (a : Addr) : recent (as ++ [a]) = front a (recent as) := foldl_append

theorem ideal_snoc (n : Nat) (as : List Addr) (a : Addr) : ideal n (as ++ [a]) = (ideal n as).access n a := foldl_append

/-- An ideal cache holds the first blocks of the list of all addresses. -/
theorem ideal_lines (n : Nat) (as : List Addr) : (ideal n as).lines = (recent as).take n := by
  induction as using reverseRecOn with
  | nil => exact take_nil.symm
  | append_singleton as a ih =>
    rw [ideal_snoc, recent_snoc, take_front, ← ih]
    rfl

theorem nodup_recent (as : List Addr) : (recent as).Nodup := by
  induction as using reverseRecOn with
  | nil => exact nodup_nil
  | append_singleton as a ih =>
    rw [recent_snoc]
    exact nodup_cons.2 ⟨ih.not_mem_erase, ih.erase a⟩

/-- The blocks in use, with their addresses, the most recent first. The hash table has them and no others, and the
counters are those of the ideal caches. -/
structure Holds (p : Params) (as : List Addr) (s : Store) (used : List (Frame × Addr)) (rest : List Frame) : Prop where
  stack : Stack p (used.map Prod.fst ++ rest) s
  addrs : used.map Prod.snd = recent as
  hash : ∀ {a x}, s.tagHash a = some x ↔ (x, a) ∈ used
  valid : ∀ e ∈ used, (s.blks e.1).isValid
  hits : ∀ i < p.numCaches, s.hits i = (ideal (p.lines i) as).hits

section

variable (h : Holds p as s used rest)

include h

theorem Holds.inv : Inv p s (used.map Prod.fst ++ rest) :=
  ⟨h.stack, fun hx => mem_append_left _ (mem_map_of_mem (h.hash.1 hx))⟩

omit h in
theorem getElem_fst {m : Nat} {e : Frame × Addr} (hm : used[m]? = some e) :
    (used.map Prod.fst ++ rest)[m]? = some e.1 := by
  have hlt : m < (used.map Prod.fst).length := by
    rw [length_map]
    exact (List.getElem?_eq_some_iff.1 hm).1
  rw [getElem?_append_left hlt, getElem?_map, hm]
  rfl

/-- The bits say whether the ideal caches have the block. -/
theorem Holds.bit_iff (hb : (b, a) ∈ used) {i : Nat} (hi : i < p.numCaches) :
    (s.blks b).inCache.getLsbD i ↔ a ∈ (ideal (p.lines i) as).lines := by
  obtain ⟨m, hm⟩ := mem_iff_getElem?.1 hb
  have ha : (recent as)[m]? = some a := by
    rw [← h.addrs, getElem?_map, hm]
    rfl
  rw [h.stack.bits i (getElem_fst hm), decide_eq_true_eq, ideal_lines, mem_take_iff (nodup_recent as) ha]
  exact and_iff_right hi

theorem Holds.hit {addr : Addr} {c : CacheBlk} (ha : accessBlock p s addr = .ok (some b, t)) (hc : c.isValid) :
    ∃ used' rest', Holds p (as ++ [p.blkAlign addr]) (writeBlk t b c) used' rest' := by
  obtain ⟨hl, -, hst, hblk, hhash, hhits⟩ := h.inv.of_hit ha
  have hb : (b, p.blkAlign addr) ∈ used := h.hash.1 (validLookup_eq_some.1 hl).1
  refine ⟨front (b, p.blkAlign addr) used, rest.erase b, ?_, ?_, fun {a x} => ?_, fun e he => ?_, fun i hi => ?_⟩
  · rw [front_append h.stack.links.nodup] at hst
    rw [map_front (nodup_append.1 h.stack.links.nodup).1 hb]
    exact hst.writeBlk b c
  · rw [map_front (h.addrs ▸ nodup_recent as) hb, h.addrs, recent_snoc]
  · show t.tagHash a = some x ↔ _
    rw [(front_perm hb).mem_iff, hhash]
    exact h.hash
  · rw [writeBlk_blks]
    dsimp only
    split
    · exact hc
    · rw [hblk]
      exact h.valid e ((front_perm hb).mem_iff.1 he)
  · show t.hits i = _
    rw [hhits i hi, h.hits i hi, ideal_snoc]
    simp only [h.bit_iff hb hi]
    rfl

theorem Holds.miss {addr : Addr} {c : CacheBlk} {u : Store} (ha : accessBlock p s addr = .ok (none, t))
    (hs : Vacant s) (hv : findVictim p t addr = .ok (b, u)) (hc : c.isValid) :
    ∃ used' rest', Holds p (as ++ [p.blkAlign addr]) (writeBlk u b c) used' rest' := by
  obtain ⟨hl, rfl⟩ := of_miss ha
  obtain ⟨u', hu, hst, hblk, hhash, hhits⟩ := findVictim_ok h.stack.countMiss addr
  cases hu.symm.trans hv
  generalize p.blkAlign addr = a at *
  -- a block in use under the address would have been found, and the tail is not in use
  have hno : a ∉ recent as := by
    rw [← h.addrs]
    intro hmem
    obtain ⟨e, he, rfl⟩ := mem_map.1 hmem
    rw [validLookup_eq_some.2 ⟨h.hash.2 he, h.valid e he⟩] at hl
    cases hl
  have htail : s.tail ∉ used.map Prod.fst := by
    intro hmem
    obtain ⟨e, he, hx⟩ := mem_map.1 hmem
    exact hs.1 e.2 (hx ▸ h.hash.2 he)
  refine ⟨(s.tail, a) :: used, rest.erase s.tail, ?_, ?_, fun {a' x} => ?_, fun e he => ?_, fun i hi => ?_⟩
  · have hst : Stack p (front s.tail (used.map Prod.fst ++ rest)) u := hst
    rw [front_append h.stack.links.nodup, front, erase_of_not_mem htail] at hst
    exact hst.writeBlk s.tail c
  · rw [recent_snoc, front, erase_of_not_mem hno, ← h.addrs]
    rfl
  · have hsame : update s.tagHash (s.blks s.tail).tag none = s.tagHash := update_eq_self_iff.2 hs.2.symm
    have hh : u.tagHash = update (update s.tagHash (s.blks s.tail).tag none) a (some s.tail) := hhash
    show u.tagHash a' = some x ↔ _
    rw [hh, hsame, mem_cons, ← h.hash]
    by_cases haa : a' = a
    · have hnot : s.tagHash a ≠ some x := fun hx => hno (h.addrs ▸ mem_map_of_mem (h.hash.1 hx))
      rw [haa, update_self]
      simp [hnot, eq_comm]
    · rw [update_of_ne haa]
      simp [haa]
  · rw [writeBlk_blks]
    dsimp only
    split
    · exact hc
    · next hne =>
      rw [hblk]
      exact h.valid e ((mem_cons.1 he).resolve_left fun he => hne (he ▸ rfl))
  · show u.hits i = _
    rw [hhits, ideal_snoc]
    refine (h.hits i hi).trans (if_neg fun hmem => hno ?_).symm
    rw [ideal_lines] at hmem
    exact mem_of_mem_take hmem

theorem Holds.fetch {addr : Addr} (hf : Fetch p s addr t) :
    ∃ used' rest', Holds p (as ++ [p.blkAlign addr]) t used' rest' := by
  cases hf with
  | hit c ha hc => exact h.hit ha hc
  | miss c ha hs hv hc => exact h.miss ha hs hv hc

end

end Fetch

def validBlk : CacheBlk := { status := { valid := true } }

section Counters

variable {h : List Call}

/-- Hits and misses of each size add up to the accesses, and hits grow with the size. -/
def Counted (p : Params) (s : Store) : Prop :=
  ∀ i j, i ≤ j → j ≤ p.numCaches → s.hits i + s.misses i = s.accesses ∧ s.hits i ≤ s.hits j

theorem Counted.hit {bits : BitVec 32} (hc : Counted p s)
    (hb : ∀ i j, i ≤ j → j < p.numCaches → bits.getLsbD i → bits.getLsbD j) :
    Counted p (countHit p { s with accesses := s.accesses + 1 } bits) := by
  intro i j hij hj
  have := hc i j hij hj
  have := hb i j hij
  simp only [countHit]
  grind

theorem Counted.same (hc : Counted p s) (hs : SameTags s t) : Counted p t := by
  unfold Counted
  rwa [hs.hits, hs.misses, hs.accesses]

theorem Counted.access {addr : Addr} {found : Option Frame} (hc : Counted p s) (hi : Inv p s l)
    (ha : accessBlock p s addr = .ok (found, t)) : Counted p t := by
  cases hv : validLookup s (p.blkAlign addr) with
  | none =>
    rw [accessBlock_miss hv] at ha
    cases ha
    intro i j hij hj
    have := hc i j hij hj
    simp only [countMiss, if_pos (hij.trans hj)]
    omega
  | some b =>
    have hs := hi.stack
    obtain ⟨m, hm⟩ := mem_iff_getElem?.1 (hi.hashed (validLookup_eq_some.1 hv).1)
    have hu := hc.hit fun i j hij hj hi => by
      have := p.lines_lt_iff j i
      rw [hs.bits _ hm, decide_eq_true_eq] at hi ⊢
      omega
    unfold accessBlock at ha
    dsimp only at ha
    rw [show validLookup { s with accesses := s.accesses + 1 } (p.blkAlign addr) = some b from hv] at ha
    obtain ⟨-, -, ha⟩ := of_bind ha
    split at ha
    · obtain ⟨u, hm', he⟩ := of_map ha
      cases he
      have hs' : Stack p _ (countHit p { s with accesses := s.accesses + 1 } (s.blks b).inCache) :=
        ⟨hs.links, hs.perm, hs.head, hs.tail, hs.bits, hs.boundary⟩
      obtain ⟨v, hv, -, hsame⟩ := hs'.moveToHead hm
      cases hv.symm.trans hm'
      exact hu.same hsame
    · cases ha
      exact hu

/-- On every run from the constructed store. -/
theorem counted_run {s₀ : Store} (hc : construct p = .ok s₀) (run : Run (Step p) s₀ h s) : Counted p s := by
  refine (run.invariant (I := fun s => (∃ l, Inv p s l) ∧ Counted p s) ⟨⟨_, inv_construct hc⟩, ?_⟩ ?_).2
  · obtain ⟨-, -, he⟩ := of_bind hc
    obtain ⟨-, -, he⟩ := of_bind he
    cases he
    exact fun _ _ _ _ => ⟨rfl, le_rfl⟩
  · rintro s c t ⟨⟨l, hi⟩, hn⟩ hs
    refine ⟨hi.step hs, ?_⟩
    cases hs with
    | accessBlock ha => exact hn.access hi ha
    | findVictim hv =>
      obtain ⟨u, hu, -, hsame⟩ := hi.stack.moveToHead hi.stack.tail
      unfold findVictim at hv
      dsimp only at hv
      rw [assert_of hi.stack.tail_inCache, ok_bind, hu, ok_bind] at hv
      cases hv
      exact (hn.same hsame :)
    | write => exact hn

/-- An access misses, the block comes in and is found. -/
theorem counted_run_fourBlocks : ∃ s, Run (Step (fourBlocks false)) (fourStore false)
      [.access 0 none, .victim 0 3, .write 3, .access 0 (some 3)] s ∧ s.hits 0 = 1 ∧ s.misses 0 = 1 ∧
    Counted (fourBlocks false) s := by
  obtain ⟨s, run, hs⟩ : ∃ s, Run (Step (fourBlocks false)) (fourStore false)
      [.access 0 none, .victim 0 3, .write 3, .access 0 (some 3)] s ∧ s.hits 0 = 1 ∧ s.misses 0 = 1 :=
    ⟨_, .cons (.accessBlock rfl) (.cons (.findVictim rfl) (.cons (.write 3 validBlk) (.cons (.accessBlock rfl) .nil))),
      rfl, rfl⟩
  exact ⟨s, run, hs.1, hs.2, counted_run rfl run⟩

end Counters

end M5.Mem.FALRU
