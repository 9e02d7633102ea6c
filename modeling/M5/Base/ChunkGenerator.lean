import M5.Lib.Check
import Mathlib.Tactic.Ring

/-!
# Chunks of a region of memory

`ChunkGenerator` of `base/chunk_generator.hh` cuts a region into chunks that do not cross the boundaries of blocks or
pages. Addresses have 64 bits and sizes 32.
-/

namespace M5.Base

open M5.Lib Nat

def roundUp (v align : Nat) : Nat := (v + (align - 1)) % 2 ^ 64 - (v + (align - 1)) % 2 ^ 64 % align

def roundDown (v align : Nat) : Nat := v - v % align

theorem block_le {k v : Nat} (hk : k ≤ 64) (hv : v < 2 ^ 64) : v - v % 2 ^ k + 2 ^ k ≤ 2 ^ 64 := by
  have hq : v / 2 ^ k < 2 ^ (64 - k) := Nat.div_lt_of_lt_mul (by rw [← Nat.pow_add, Nat.add_sub_cancel' hk]; exact hv)
  calc v - v % 2 ^ k + 2 ^ k = (v / 2 ^ k + 1) * 2 ^ k := by rw [← div_mul_self_eq_mod_sub_self, succ_mul]
    _ ≤ 2 ^ (64 - k) * 2 ^ k := mul_le_mul_right _ hq
    _ = 2 ^ 64 := by rw [← Nat.pow_add, Nat.sub_add_cancel hk]

theorem roundUp_eq {k v : Nat} (hk : k ≤ 64) (hv : v < 2 ^ 64) :
    roundUp v (2 ^ k) = if v % 2 ^ k = 0 then v else (v - v % 2 ^ k + 2 ^ k) % 2 ^ 64 := by
  have hle := block_le hk hv
  have hpos : 0 < 2 ^ k := Nat.two_pow_pos k
  have hdvd : v - v % 2 ^ k = 2 ^ k * (v / 2 ^ k) := Nat.sub_eq_of_eq_add (div_add_mod _ _).symm
  have hle' : v % 2 ^ k ≤ v := mod_le _ _
  rw [roundUp]
  split
  case isTrue h0 =>
    have hmod : (v + (2 ^ k - 1)) % 2 ^ k = 2 ^ k - 1 := by
      rw [add_mod, h0, zero_add, mod_mod, mod_eq_of_lt (sub_lt hpos one_pos)]
    rw [mod_eq_of_lt (by omega)]
    omega
  case isFalse h0 =>
    -- the sum is the end of the block and the offset less one
    have hsum : v + (2 ^ k - 1) = v - v % 2 ^ k + 2 ^ k + (v % 2 ^ k - 1) := by omega
    rcases lt_or_ge (v + (2 ^ k - 1)) (2 ^ 64) with hlt | hge
    · have hmod : (v + (2 ^ k - 1)) % 2 ^ k = v % 2 ^ k - 1 := by
        rw [hsum, hdvd, ← mul_succ, mul_add_mod, mod_eq_of_lt (by omega)]
      rw [mod_eq_of_lt hlt, mod_eq_of_lt (a := v - v % 2 ^ k + 2 ^ k) (by omega)]
      omega
    · have he : v - v % 2 ^ k + 2 ^ k = 2 ^ 64 := by
        by_contra hne
        have hlt : v - v % 2 ^ k + 2 ^ k < 2 ^ 64 := lt_of_le_of_ne hle hne
        have hdvd64 : 2 ^ k ∣ 2 ^ 64 := pow_dvd_pow 2 hk
        have hnext : v - v % 2 ^ k + 2 ^ k + 2 ^ k ≤ 2 ^ 64 := by
          have hd : 2 ^ k ∣ 2 ^ 64 - (v - v % 2 ^ k + 2 ^ k) :=
            Nat.dvd_sub hdvd64 (Nat.dvd_add ⟨_, hdvd⟩ (Nat.dvd_refl _))
          have := le_of_dvd (Nat.sub_pos_of_lt hlt) hd
          omega
        omega
      have hmod : (v + (2 ^ k - 1)) % 2 ^ 64 = v % 2 ^ k - 1 := by
        rw [hsum, he, add_mod_left, mod_eq_of_lt (by omega)]
      rw [hmod, he, mod_eq_of_lt (a := v % 2 ^ k - 1) (by omega), Nat.sub_self, mod_self]

structure ChunkGenerator where
  curAddr : Nat
  nextAddr : Nat
  curSize : Nat
  sizeLeft : Nat
  chunkSize : Nat

namespace ChunkGenerator

def firstBoundary (startAddr chunkSize : Nat) : Nat :=
  if startAddr = roundUp startAddr chunkSize then (roundUp startAddr chunkSize + chunkSize) % 2 ^ 64
  else roundUp startAddr chunkSize

/-- The constructor. The size is converted to an `unsigned`; the size of the chunks is zero or a power of two. -/
def new (startAddr totalSize chunkSize : Nat) : ChunkGenerator :=
  let totalSize := totalSize % 2 ^ 32
  let nextAddr := if chunkSize = 0 then (startAddr + totalSize) % 2 ^ 64 else firstBoundary startAddr chunkSize
  let leftInChunk := (nextAddr + 2 ^ 64 - startAddr) % 2 ^ 64 % 2 ^ 32
  let curSize := min totalSize leftInChunk
  { curAddr := startAddr, nextAddr, curSize, sizeLeft := totalSize - curSize, chunkSize }

variable (g : ChunkGenerator)

def done : Bool := g.curSize == 0

def next : ChunkGenerator :=
  if g.sizeLeft = 0 then { g with curSize := 0 }
  else
    let curSize := min g.sizeLeft g.chunkSize
    { g with
      curAddr := g.nextAddr, nextAddr := (g.nextAddr + curSize) % 2 ^ 64, curSize, sizeLeft := g.sizeLeft - curSize }

theorem next_lt (h : g.done = false) : g.next.curSize + g.next.sizeLeft < g.curSize + g.sizeLeft := by
  have hc : g.curSize ≠ 0 := by
    rintro h0
    rw [done, h0] at h
    cases h
  rw [next]
  split
  · show 0 + g.sizeLeft < _
    omega
  · show min g.sizeLeft g.chunkSize + (g.sizeLeft - min g.sizeLeft g.chunkSize) < _
    omega

section loop

universe u

variable {ε σ : Type u} (body : Nat → Nat → σ → Except ε σ)

/-- A loop over the chunks, given by address and size. -/
def loop (g : ChunkGenerator) (s : σ) : Except ε σ :=
  match _h : g.done with
  | true => .ok s
  | false => body g.curAddr g.curSize s >>= loop g.next
termination_by g.curSize + g.sizeLeft
decreasing_by exact g.next_lt ‹_›

variable {body} in
theorem loop_done {g : ChunkGenerator} {s : σ} (h : g.curSize = 0) : loop body g s = .ok s := by
  have hd : g.done := beq_iff_eq.2 h
  rw [loop]
  split
  · rfl
  · rw [hd] at *
    contradiction

variable {body} in
theorem loop_step {g : ChunkGenerator} {s : σ} (h : g.curSize ≠ 0) :
    loop body g s = body g.curAddr g.curSize s >>= loop body g.next := by
  have hd : g.done = false := beq_eq_false_iff_ne.2 h
  conv_lhs => rw [loop]
  split
  · rw [hd] at *
    contradiction
  · rfl

/-- The generator is at a chunk of a region that ends at `fin`. -/
structure Covers (g : ChunkGenerator) (fin chunkSize : Nat) : Prop where
  chunk : g.chunkSize = chunkSize
  total : g.curAddr + g.curSize + g.sizeLeft = fin
  within : g.curAddr % chunkSize + g.curSize ≤ chunkSize
  more : 0 < g.sizeLeft → 0 < g.curSize ∧ g.nextAddr = g.curAddr + g.curSize ∧ g.nextAddr % chunkSize = 0

variable {g body} {fin chunkSize start total : Nat} {s s' : σ} {I : Nat → σ → Prop}

theorem Covers.next (h : g.Covers fin chunkSize) (hc : 0 < chunkSize) (hfin : fin < 2 ^ 64) (hl : 0 < g.sizeLeft) :
    g.next.Covers fin chunkSize ∧ g.next.curAddr = g.curAddr + g.curSize := by
  obtain ⟨-, hnext, h0⟩ := h.more hl
  have htotal := h.total
  rw [ChunkGenerator.next, if_neg hl.ne', h.chunk]
  refine ⟨⟨rfl, ?_, ?_, fun hl' => ?_⟩, hnext⟩ <;> dsimp only at *
  · omega
  · omega
  · have hmin : min g.sizeLeft chunkSize = chunkSize := by omega
    have hlt : (g.nextAddr + chunkSize) % 2 ^ 64 = g.nextAddr + chunkSize := mod_eq_of_lt (by omega)
    rw [hmin, hlt, add_mod_right]
    exact ⟨hc, rfl, h0⟩

theorem Covers.loop (h : g.Covers fin chunkSize) (hc : 0 < chunkSize) (hfin : fin < 2 ^ 64)
    (hstep : ∀ {a c s s'}, g.curAddr ≤ a → (a = g.curAddr ∨ a % chunkSize = 0) → 0 < c → a + c ≤ fin →
      a % chunkSize + c ≤ chunkSize → I a s → body a c s = .ok s' → I (a + c) s')
    (h0 : I g.curAddr s) (hs : ChunkGenerator.loop body g s = .ok s') : I fin s' := by
  induction hk : g.curSize + g.sizeLeft using Nat.strong_induction_on generalizing g s with
  | _ k ih =>
    have htotal := h.total
    by_cases hcur : g.curSize = 0
    · rw [loop_done hcur] at hs
      cases hs
      have hleft : g.sizeLeft = 0 := by
        by_contra hl
        exact absurd hcur (h.more (pos_of_ne_zero hl)).1.ne'
      rwa [← htotal, hcur, hleft]
    · rw [loop_step hcur] at hs
      obtain ⟨s1, h1, hs⟩ := of_bind hs
      have hI := hstep (le_refl _) (.inl rfl) (pos_of_ne_zero hcur) (by omega) h.within h0 h1
      by_cases hl : g.sizeLeft = 0
      · rw [ChunkGenerator.next, if_pos hl, loop_done rfl] at hs
        cases hs
        rwa [← htotal, hl]
      · obtain ⟨hnext, haddr⟩ := h.next hc hfin (pos_of_ne_zero hl)
        refine ih _ (hk ▸ g.next_lt (beq_eq_false_iff_ne.2 hcur)) hnext (fun ha h2 => ?_) (haddr ▸ hI) hs rfl
        refine hstep ((haddr ▸ le_add_right _ _).trans ha) ?_
        rcases h2 with rfl | h2
        · rw [haddr, ← (h.more (pos_of_ne_zero hl)).2.1]
          exact .inr (h.more (pos_of_ne_zero hl)).2.2
        · exact .inr h2

variable {k : Nat}

theorem firstBoundary_eq (hk : k < 32) (hs : start < 2 ^ 64) :
    firstBoundary start (2 ^ k) = (start - start % 2 ^ k + 2 ^ k) % 2 ^ 64 := by
  have hlt : 2 ^ k < 2 ^ 32 := Nat.pow_lt_pow_right Nat.one_lt_two hk
  rw [firstBoundary, roundUp_eq (by omega) hs]
  by_cases h0 : start % 2 ^ k = 0
  · rw [if_pos h0, if_pos rfl, h0, Nat.sub_zero]
  · rw [if_neg h0, if_neg]
    omega

theorem new_eq (hk : k < 32) (hs : start < 2 ^ 64) (ht : total < 2 ^ 32) : new start total (2 ^ k) =
    { curAddr := start, nextAddr := (start - start % 2 ^ k + 2 ^ k) % 2 ^ 64,
      curSize := min total (2 ^ k - start % 2 ^ k),
      sizeLeft := total - (2 ^ k - start % 2 ^ k), chunkSize := 2 ^ k } := by
  have hlt : 2 ^ k < 2 ^ 32 := Nat.pow_lt_pow_right Nat.one_lt_two hk
  have hle : start % 2 ^ k ≤ start := mod_le _ _
  have hleft : ((start - start % 2 ^ k + 2 ^ k) % 2 ^ 64 + 2 ^ 64 - start) % 2 ^ 64 % 2 ^ 32 =
    2 ^ k - start % 2 ^ k := by
    omega
  have hmin : total - min total (2 ^ k - start % 2 ^ k) = total - (2 ^ k - start % 2 ^ k) := by omega
  rw [new, if_neg (Nat.two_pow_pos k).ne', mod_eq_of_lt ht, firstBoundary_eq hk hs, hleft, hmin]

theorem covers_new (hk : k < 32) (ht : total < 2 ^ 32) (hfin : start + total < 2 ^ 64) :
    (new start total (2 ^ k)).Covers (start + total) (2 ^ k) := by
  have hle : start % 2 ^ k ≤ start := mod_le _ _
  have hdvd : (start - start % 2 ^ k + 2 ^ k) % 2 ^ k = 0 := by
    rw [add_mod_right]
    exact mod_eq_zero_of_dvd (dvd_sub_mod start)
  rw [new_eq hk ((le_add_right _ _).trans_lt hfin) ht]
  refine ⟨rfl, ?_, ?_, fun hmore => ?_⟩ <;> dsimp only at *
  · omega
  · omega
  · rw [mod_eq_of_lt (show start - start % 2 ^ k + 2 ^ k < 2 ^ 64 by omega)]
    exact ⟨by omega, by omega, hdvd⟩

/-- The rule for a loop over the chunks: an invariant that holds up to the start of each, then up to its end. -/
theorem loop_new (hk : k < 32) (ht : total < 2 ^ 32) (hfin : start + total < 2 ^ 64)
    (hstep : ∀ {a c s s'}, start ≤ a → (a = start ∨ a % 2 ^ k = 0) → 0 < c → a + c ≤ start + total →
      a % 2 ^ k + c ≤ 2 ^ k → I a s → body a c s = .ok s' → I (a + c) s')
    (h0 : I start s) (hs : loop body (new start total (2 ^ k)) s = .ok s') : I (start + total) s' :=
  (covers_new hk ht hfin).loop (Nat.two_pow_pos k) hfin hstep h0 hs

theorem loop_single (hk : k < 32) (h0 : 0 < total) (hs : start < 2 ^ 64) (ht : start % 2 ^ k + total ≤ 2 ^ k) :
    loop body (new start total (2 ^ k)) s = body start total s := by
  have hcur : (new start total (2 ^ k)).curSize = total ∧ (new start total (2 ^ k)).sizeLeft = 0 := by
    have hlt : 2 ^ k < 2 ^ 32 := Nat.pow_lt_pow_right Nat.one_lt_two hk
    rw [new_eq hk hs (by omega)]
    dsimp only
    omega
  rw [loop_step (by rw [hcur.1]; exact h0.ne'), hcur.1, next, if_pos hcur.2]
  show body start total s >>= _ = _
  cases body start total s with
  | error e => rfl
  | ok s1 => exact loop_done rfl

end loop

/-! ## The list of the chunks -/

structure Chunk where
  addr : Nat
  size : Nat
  complete : Nat
deriving DecidableEq

/-- The chunks from a generator on; `start` is `startAddr`. -/
def chunksFrom (start : Nat) : Nat → ChunkGenerator → List Chunk
  | 0, _ => []
  | fuel + 1, g =>
    if g.done then []
    else
      { addr := g.curAddr, size := g.curSize, complete := (g.curAddr + 2 ^ 64 - start) % 2 ^ 64 % 2 ^ 32 } ::
        chunksFrom start fuel g.next

/-- The chunks of a region, each with the value of `complete` at it. -/
def chunks (start total chunkSize : Nat) : List Chunk := chunksFrom start (total + 1) (new start total chunkSize)

/-- The chunks follow one another, from the place `d` of the region on to its end. Addresses may wrap. -/
def Tiles (start total : Nat) : Nat → List Chunk → Prop
  | d, [] => d = total
  | d, c :: cs => c.addr = (start + d) % 2 ^ 64 ∧ 0 < c.size ∧ c.complete = d ∧ Tiles start total (d + c.size) cs

variable {start total : Nat}

theorem Tiles.sum_size : ∀ {d : Nat} {cs : List Chunk}, Tiles start total d cs → d + (cs.map Chunk.size).sum = total
  | _, [], h => h
  | d, c :: cs, h => by
    rw [List.map_cons, List.sum_cons, ← add_assoc]
    exact Tiles.sum_size h.2.2.2

theorem Tiles.size_pos : ∀ {d : Nat} {cs : List Chunk}, Tiles start total d cs → ∀ c ∈ cs, 0 < c.size
  | _, [], _, _, hc => by cases hc
  | d, c :: cs, h, b, hb => by
    rcases List.mem_cons.1 hb with rfl | hb
    · exact h.2.1
    · exact Tiles.size_pos h.2.2.2 b hb

/-- The generator is at the place `d` of the region. -/
structure At (g : ChunkGenerator) (start total d : Nat) : Prop where
  cur : g.curAddr = (start + d) % 2 ^ 64
  total : d + g.curSize + g.sizeLeft = total
  more : 0 < g.sizeLeft → 0 < g.curSize ∧ 0 < g.chunkSize ∧ g.nextAddr = (g.curAddr + g.curSize) % 2 ^ 64

theorem At.next {g : ChunkGenerator} {d : Nat} (h : g.At start total d) (hl : 0 < g.sizeLeft) :
    g.next.At start total (d + g.curSize) := by
  obtain ⟨-, hc, hn⟩ := h.more hl
  have htotal := h.total
  rw [ChunkGenerator.next, if_neg hl.ne']
  refine ⟨?_, ?_, fun _ => ⟨?_, hc, rfl⟩⟩ <;> dsimp only
  · rw [hn, h.cur, mod_add_mod, add_assoc]
  · omega
  · omega

theorem At.tiles (hs : start < 2 ^ 64) (ht : total < 2 ^ 32) :
    ∀ {fuel : Nat} {g : ChunkGenerator} {d : Nat}, g.At start total d → g.curSize + g.sizeLeft < fuel →
      Tiles start total d (chunksFrom start fuel g)
  | 0, _, _, _, hf => absurd hf (not_lt_zero _)
  | fuel + 1, g, d, h, hf => by
    have htotal := h.total
    rw [chunksFrom]
    by_cases hd : g.curSize = 0
    · have hdone : g.done := beq_iff_eq.2 hd
      rw [hdone]
      have hleft : g.sizeLeft = 0 := by
        by_contra hl
        have := (h.more (pos_of_ne_zero hl)).1
        omega
      show d = total
      omega
    · have hdone : g.done = false := beq_eq_false_iff_ne.2 hd
      have hlt := g.next_lt hdone
      rw [hdone]
      refine ⟨h.cur, pos_of_ne_zero hd, ?_, ?_⟩
      · show (g.curAddr + 2 ^ 64 - start) % 2 ^ 64 % 2 ^ 32 = d
        rw [h.cur]
        omega
      · by_cases hl : g.sizeLeft = 0
        · have hnext : g.next.done := by
            rw [ChunkGenerator.next, if_pos hl]
            rfl
          cases fuel with
          | zero => omega
          | succ fuel =>
            rw [chunksFrom, hnext]
            show d + g.curSize = total
            omega
        · exact At.tiles hs ht (h.next (pos_of_ne_zero hl)) (by omega)

theorem at_new {chunkSize : Nat} (hs : start < 2 ^ 64) (ht : total < 2 ^ 32)
    (hc : chunkSize = 0 ∨ ∃ k < 32, chunkSize = 2 ^ k) : (new start total chunkSize).At start total 0 := by
  rcases hc with rfl | ⟨k, hk, rfl⟩
  · have hleft : ((start + total) % 2 ^ 64 + 2 ^ 64 - start) % 2 ^ 64 % 2 ^ 32 = total := by omega
    rw [new, mod_eq_of_lt ht, if_pos rfl]
    refine ⟨?_, ?_, fun hl => ?_⟩ <;> dsimp only at * <;> omega
  · have hpos : 0 < 2 ^ k := Nat.two_pow_pos k
    have hle : start % 2 ^ k ≤ start := mod_le _ _
    rw [new_eq hk hs ht]
    refine ⟨?_, ?_, fun hl => ⟨?_, hpos, ?_⟩⟩ <;> dsimp only at *
    · omega
    · omega
    · omega
    · omega

/-- The chunks follow one another from the start of the region to its end. -/
theorem tiles_chunks {chunkSize : Nat} (hs : start < 2 ^ 64) (ht : total < 2 ^ 32)
    (hc : chunkSize = 0 ∨ ∃ k < 32, chunkSize = 2 ^ k) : Tiles start total 0 (chunks start total chunkSize) := by
  have h := at_new hs ht hc
  have htotal := h.total
  exact h.tiles hs ht (by omega)

end ChunkGenerator

end M5.Base
