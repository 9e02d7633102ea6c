import M5.Mem.Cache.Tags
import Mathlib.Data.Nat.Bitwise
import Mathlib.Data.List.Perm.Basic
import Mathlib.Data.List.Nodup
import Mathlib.Tactic.Ring

/-!
# The LRU tag store

`LRU` of `mem/cache/tags/lru.cc` and `CacheSet` of `mem/cache/tags/cacheset.cc`. A set is the list of its frames from
the most to the least recently used; `moveToHead` is the rotation loop of the source.
-/

namespace M5.Mem

open Function List Nat

/-! ## Sets -/

namespace CacheSet

def findBlk (blks : Blks) (tag : Addr) (frames : List Frame) : Option Frame :=
  frames.find? (fun f => (blks f).tag = tag && (blks f).isValid)

/-- The loop of `CacheSet::moveToHead`: write `next` here, and carry on with what was here until that is `blk`. -/
def shift (blk : Frame) : Frame → List Frame → List Frame
  | next, [] => [next]
  | next, x :: xs => next :: (if x = blk then xs else shift blk x xs)

def moveToHead (blk : Frame) : List Frame → List Frame
  | [] => []
  | x :: xs => if x = blk then x :: xs else shift blk blk (x :: xs)

variable {blk : Frame} {xs : List Frame}

theorem shift_eq : ∀ {xs : List Frame} {next : Frame}, blk ∈ xs → shift blk next xs = next :: xs.erase blk
  | [], _, h => by simp at h
  | x :: xs, next, h => by
    rw [shift]
    by_cases hx : x = blk
    · rw [if_pos hx, hx, erase_cons_head]
    · have hmem : blk ∈ xs := by simpa [Ne.symm hx] using h
      rw [if_neg hx, shift_eq hmem, erase_cons_tail (by simpa using hx)]

/-- The loop moves the frame to the front and keeps the order of the others. -/
theorem moveToHead_eq (h : blk ∈ xs) : moveToHead blk xs = blk :: xs.erase blk := by
  cases xs with
  | nil => simp at h
  | cons x xs =>
    rw [moveToHead]
    by_cases hx : x = blk
    · rw [if_pos hx, hx, erase_cons_head]
    · rw [if_neg hx, shift_eq h]

theorem moveToHead_perm (h : blk ∈ xs) : (moveToHead blk xs).Perm xs := by
  rw [moveToHead_eq h]
  exact (perm_cons_erase h).symm

end CacheSet

/-! ## The tag store -/

/-- The parameters of `LRU::LRU`, with the checks its constructor makes. -/
structure LRUParams where
  numSets : Nat
  blkSize : Nat
  assoc : Nat
  blkSize_ge : 4 ≤ blkSize
  blkSize_pow : blkSize = 2 ^ log2 blkSize
  numSets_pow : numSets = 2 ^ log2 numSets
  assoc_pos : 0 < assoc

namespace LRUParams

variable (p : LRUParams)

def setShift : Nat := log2 p.blkSize

def tagShift : Nat := p.setShift + log2 p.numSets

def extractTag (addr : Addr) : Addr := addr >>> p.tagShift

def extractSet (addr : Addr) : Nat := (addr >>> p.setShift) &&& (p.numSets - 1)

def regenerateBlkAddr (tag : Addr) (set : Nat) : Addr := (tag <<< p.tagShift) ||| (set <<< p.setShift)

def initSet (i : Nat) : List Frame := range' (i * p.assoc) p.assoc

end LRUParams

/-- The LRU tag store: each set is its frames, most recently used first. -/
def LRU (p : LRUParams) : TagStore where
  Repl := Nat → List Frame
  blkSize := p.blkSize
  extractTag := p.extractTag
  extractSet := p.extractSet
  regenerateBlkAddr := p.regenerateBlkAddr
  initRepl := p.initSet
  initBlks f := { tag := f % p.assoc, set := f / p.assoc }
  findBlock sets blks addr := CacheSet.findBlk blks (p.extractTag addr) (sets (p.extractSet addr))
  accessBlock sets blks addr :=
    match CacheSet.findBlk blks (p.extractTag addr) (sets (p.extractSet addr)) with
    | some blk =>
      (update sets (p.extractSet addr) (CacheSet.moveToHead blk (sets (p.extractSet addr))), some blk)
    | none => (sets, none)
  findVictim sets _ addr := (sets (p.extractSet addr)).getD (p.assoc - 1) 0
  insertBlock sets addr blk :=
    update sets (p.extractSet addr) (CacheSet.moveToHead blk (sets (p.extractSet addr)))

/-! ## Taking addresses apart -/

namespace LRUParams

variable {p : LRUParams} {t a : Addr} {i : Nat}

theorem extractTag_eq (a : Addr) : p.extractTag a = a / p.blkSize / p.numSets := by
  rw [extractTag, tagShift, setShift, shiftRight_eq_div_pow, pow_add, ← p.blkSize_pow, ← p.numSets_pow,
    Nat.div_div_eq_div_mul]

theorem extractSet_eq (a : Addr) : p.extractSet a = a / p.blkSize % p.numSets := by
  have h : p.numSets - 1 = 2 ^ log2 p.numSets - 1 := by rw [← p.numSets_pow]
  rw [extractSet, setShift, h, and_two_pow_sub_one_eq_mod, ← p.numSets_pow, shiftRight_eq_div_pow,
    ← p.blkSize_pow]

theorem numSets_pos (p : LRUParams) : 0 < p.numSets := by
  rw [p.numSets_pow]
  exact Nat.two_pow_pos _

theorem blkSize_pos (p : LRUParams) : 0 < p.blkSize := by
  have h := p.blkSize_ge
  omega

theorem regenerateBlkAddr_eq (hi : i < p.numSets) : p.regenerateBlkAddr t i = (t * p.numSets + i) * p.blkSize := by
  have hlt : i <<< p.setShift < 2 ^ p.tagShift := by
    rw [shiftLeft_eq, tagShift, pow_add, mul_comm]
    refine Nat.mul_lt_mul_of_pos_left ?_ (Nat.two_pow_pos _)
    rw [← p.numSets_pow]
    exact hi
  rw [regenerateBlkAddr, ← shiftLeft_add_eq_or_of_lt hlt, shiftLeft_eq, shiftLeft_eq, tagShift,
    pow_add, setShift, ← p.blkSize_pow, ← p.numSets_pow]
  ring

theorem extractTag_regenerate (hi : i < p.numSets) : p.extractTag (p.regenerateBlkAddr t i) = t := by
  rw [regenerateBlkAddr_eq hi, extractTag_eq, Nat.mul_div_cancel _ p.blkSize_pos, Nat.mul_comm,
    mul_add_div p.numSets_pos, div_eq_of_lt hi, add_zero]

theorem extractSet_regenerate (hi : i < p.numSets) : p.extractSet (p.regenerateBlkAddr t i) = i := by
  rw [regenerateBlkAddr_eq hi, extractSet_eq, Nat.mul_div_cancel _ p.blkSize_pos, Nat.mul_comm, mul_add_mod,
    mod_eq_of_lt hi]

theorem extractSet_lt (a : Addr) : p.extractSet a < p.numSets := by
  rw [extractSet_eq]
  exact mod_lt _ p.numSets_pos

theorem regenerate_extract (a : Addr) : p.regenerateBlkAddr (p.extractTag a) (p.extractSet a) = a - a % p.blkSize := by
  rw [regenerateBlkAddr_eq (extractSet_lt a), extractTag_eq, extractSet_eq, mul_comm _ p.numSets, div_add_mod,
    mul_comm]
  exact Nat.eq_sub_of_add_eq (div_add_mod a p.blkSize)

theorem mem_initSet {f : Frame} : f ∈ p.initSet i ↔ f / p.assoc = i := by
  have h := p.assoc_pos
  rw [initSet, mem_range'_1, Nat.div_eq_iff h]
  constructor
  · omega
  · omega

end LRUParams

/-! ## The promises -/

/-- Each set is a rearrangement of its frames, and no two valid frames carry one block. -/
structure LRUInv (p : LRUParams) (sets : Nat → List Frame) (blks : Blks) : Prop where
  perm : ∀ i, (sets i).Perm (p.initSet i)
  home : ∀ f, (blks f).set = f / p.assoc
  inSets : ∀ f, (blks f).isValid → f / p.assoc < p.numSets
  unique : ∀ f g, (blks f).isValid → (blks g).isValid → (blks f).tag = (blks g).tag → (blks f).set = (blks g).set →
    f = g

namespace LRUInv

variable {p : LRUParams} {sets : Nat → List Frame} {blks : Blks} {a : Addr} {f : Frame}

section

variable (h : LRUInv p sets blks)

include h

theorem mem_set {i : Nat} : f ∈ sets i ↔ f / p.assoc = i := by
  rw [(h.perm i).mem_iff, LRUParams.mem_initSet]

theorem find_iff : CacheSet.findBlk blks (p.extractTag a) (sets (p.extractSet a)) = some f ↔
    (blks f).isValid ∧ (blks f).tag = p.extractTag a ∧ (blks f).set = p.extractSet a := by
  constructor
  · intro hf
    have h1 := find?_some hf
    have h2 := h.mem_set.1 (mem_of_find?_eq_some hf)
    simp only [Bool.and_eq_true, decide_eq_true_eq] at h1
    exact ⟨h1.2, h1.1, by rw [h.home, h2]⟩
  · rintro ⟨hv, ht, hs⟩
    have hmem : f ∈ sets (p.extractSet a) := h.mem_set.2 (by rw [← h.home, hs])
    cases hg : CacheSet.findBlk blks (p.extractTag a) (sets (p.extractSet a)) with
    | none =>
      have := find?_eq_none.1 hg f hmem
      simp [ht, hv] at this
    | some g =>
      have h1 := find?_some hg
      have h2 := h.mem_set.1 (mem_of_find?_eq_some hg)
      simp only [Bool.and_eq_true, decide_eq_true_eq] at h1
      rw [h.unique g f h1.2 hv (by rw [h1.1, ht]) (by rw [h.home, h2, hs])]

theorem blkAddr_eq_iff (hv : (blks f).isValid) :
    p.regenerateBlkAddr (blks f).tag (blks f).set = a - a % p.blkSize ↔
      (blks f).tag = p.extractTag a ∧ (blks f).set = p.extractSet a := by
  have hlt : (blks f).set < p.numSets := by rw [h.home]; exact h.inSets f hv
  rw [← LRUParams.regenerate_extract]
  constructor
  · intro he
    have ht := congrArg p.extractTag he
    have hs := congrArg p.extractSet he
    rw [LRUParams.extractTag_regenerate hlt, LRUParams.extractTag_regenerate (LRUParams.extractSet_lt a)] at ht
    rw [LRUParams.extractSet_regenerate hlt, LRUParams.extractSet_regenerate (LRUParams.extractSet_lt a)] at hs
    exact ⟨ht, hs⟩
  · rintro ⟨ht, hs⟩
    rw [ht, hs]

theorem moveToHead {i : Nat} (hf : f ∈ sets i) : LRUInv p (update sets i (CacheSet.moveToHead f (sets i))) blks := by
  refine ⟨(forall_update_iff sets fun j l => l.Perm (p.initSet j)).2 ⟨?_, fun j _ => h.perm j⟩, h.home, h.inSets,
    h.unique⟩
  exact (CacheSet.moveToHead_perm hf).trans (h.perm i)

theorem victim_mem {i : Nat} : (sets i).getD (p.assoc - 1) 0 ∈ sets i := by
  have hlen : (sets i).length = p.assoc := by rw [(h.perm i).length_eq, LRUParams.initSet, length_range']
  have hpos := p.assoc_pos
  rw [getD_eq_getElem _ _ (by omega)]
  exact getElem_mem _

theorem replace {b : CacheBlk} (ht : b.tag = (blks f).tag) (hs : b.set = (blks f).set)
    (hv : b.isValid → (blks f).isValid) : LRUInv p sets (update blks f b) := by
  have hof : ∀ g, (update blks f b g).isValid → (blks g).isValid :=
    (forall_update_iff blks fun g c => c.isValid → (blks g).isValid).2 ⟨hv, fun _ _ => id⟩
  have htag : ∀ g, (update blks f b g).tag = (blks g).tag ∧ (update blks f b g).set = (blks g).set :=
    (forall_update_iff blks fun g c => c.tag = (blks g).tag ∧ c.set = (blks g).set).2 ⟨⟨ht, hs⟩, fun _ _ => ⟨rfl, rfl⟩⟩
  refine ⟨h.perm, fun g => (htag g).2.trans (h.home g), fun g hg => h.inSets g (hof g hg), fun g g' hg hg' h1 h2 => ?_⟩
  rw [(htag g).1, (htag g').1] at h1
  rw [(htag g).2, (htag g').2] at h2
  exact h.unique g g' (hof g hg) (hof g' hg') h1 h2

theorem insert {b : CacheBlk} (hf : f ∈ sets (p.extractSet a))
    (hn : CacheSet.findBlk blks (p.extractTag a) (sets (p.extractSet a)) = none) (ht : b.tag = p.extractTag a)
    (hs : b.set = p.extractSet a) : LRUInv p sets (update blks f b) := by
  have hhome := h.mem_set.1 hf
  -- another valid frame with the block would have been found
  have hfree : ∀ g, (blks g).isValid → ¬ ((blks g).tag = b.tag ∧ (blks g).set = b.set) := by
    rintro g hv ⟨h1, h2⟩
    have hg := h.find_iff.2 ⟨hv, h1.trans ht, h2.trans hs⟩
    rw [hn] at hg
    cases hg
  refine ⟨h.perm, ?_, ?_, fun g g' hg hg' h1 h2 => ?_⟩
  · exact (forall_update_iff blks fun g c => c.set = g / p.assoc).2 ⟨hs.trans hhome.symm, fun g _ => h.home g⟩
  · exact (forall_update_iff blks fun g c => c.isValid → g / p.assoc < p.numSets).2
      ⟨fun _ => hhome ▸ LRUParams.extractSet_lt a, fun g _ => h.inSets g⟩
  · by_cases hgf : g = f <;> by_cases hgf' : g' = f
    · rw [hgf, hgf']
    · rw [hgf, update_self, update_of_ne hgf'] at h1 h2
      rw [update_of_ne hgf'] at hg'
      exact absurd ⟨h1.symm, h2.symm⟩ (hfree g' hg')
    · rw [hgf', update_self, update_of_ne hgf] at h1 h2
      rw [update_of_ne hgf] at hg
      exact absurd ⟨h1, h2⟩ (hfree g hg)
    · rw [update_of_ne hgf] at hg h1 h2
      rw [update_of_ne hgf'] at hg' h1 h2
      exact h.unique g g' hg hg' h1 h2

end

end LRUInv

instance LRU.lawful (p : LRUParams) : LawfulTagStore (LRU p) where
  Inv := LRUInv p
  blkSize_pos := p.blkSize_pos
  regenerate_extract := LRUParams.regenerate_extract
  init_inv := by
    refine ⟨fun i => .refl _, fun f => rfl, fun f h => ?_, fun f g h => ?_⟩ <;> cases h
  init_blk f := ⟨rfl, rfl⟩
  find_iff h a f := by
    refine (h.find_iff (a := a)).trans ⟨fun hf => ⟨hf.1, (h.blkAddr_eq_iff hf.1).2 hf.2⟩, fun hf => ?_⟩
    exact ⟨hf.1, (h.blkAddr_eq_iff hf.1).1 hf.2⟩
  align_blkAddr {r blks} h {f} hv := by
    have hlt : (blks f).set < p.numSets := by rw [h.home]; exact h.inSets f hv
    show p.regenerateBlkAddr _ _ - p.regenerateBlkAddr _ _ % p.blkSize = p.regenerateBlkAddr _ _
    rw [LRUParams.regenerateBlkAddr_eq hlt, mul_mod_left, Nat.sub_zero]
  find_tag {_ _} h {_ _} hf := (h.find_iff.1 hf).2.1
  access_find {r blks} h a := by
    show (match CacheSet.findBlk blks (p.extractTag a) (r (p.extractSet a)) with
      | some blk => _
      | none => _ : (Nat → List Frame) × Option Frame).2 = CacheSet.findBlk blks (p.extractTag a) (r (p.extractSet a))
    split
    · next hf => exact hf.symm
    · next hf => exact hf.symm
  access_inv {r blks} h a := by
    show LRUInv p (match CacheSet.findBlk blks (p.extractTag a) (r (p.extractSet a)) with
      | some blk => _
      | none => _ : (Nat → List Frame) × Option Frame).1 blks
    split
    · next f hf => exact .moveToHead h (mem_of_find?_eq_some hf)
    · exact h
  update_inv {_ _} h {_ _} ht hs hv := .replace h ht hs hv
  victim_set {_ _} h a := (h.home _).trans (h.mem_set.1 (h.victim_mem (i := p.extractSet a)))
  insert_inv {_ _} h {a} hn {_} ht hs :=
    (h.insert (h.victim_mem (i := p.extractSet a)) hn ht hs).moveToHead h.victim_mem

def oneFrame : LRUParams where
  numSets := 1
  blkSize := 8
  assoc := 1
  blkSize_ge := by decide
  blkSize_pow := by decide
  numSets_pow := by decide
  assoc_pos := by decide

end M5.Mem
