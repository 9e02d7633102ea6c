import M5.Lib.BitField
import M5.Lib.Check
import M5.Ruby.Common

/-!
# The home directory of a block

Ruby spreads the memory over directories. A field of the address below `m_numa_high_bit` selects the directory, and the
rest of the address is the place in it.
-/

namespace M5.Ruby

open M5.Lib List Nat

/-! ## Addresses -/

abbrev Address := BitVec 64

def addressWidth : Int := 64

/-- The conversion of an `int` to `unsigned`. -/
def unsigned (x : Int) : Nat := (x % 2 ^ 32).toNat

/-- `~0` as a `physical_address_t`. -/
def ones : Address := .allOnes 64

namespace Address

/-- `Address::bitSelect`, both bounds inclusive. -/
def bitSelect (a : Address) (small big : Int) : Except Fault Address := do
  ensure .assert (unsigned small ≤ unsigned big)
  if addressWidth - 1 ≤ big then
    return a >>> small.toNat
  else
    let mask := ~~~(ones <<< (big + 1).toNat)
    return (a &&& mask) >>> small.toNat

/-- `Address::bitRemove`, both bounds inclusive. -/
def bitRemove (a : Address) (small big : Int) : Except Fault Address := do
  ensure .assert (unsigned small ≤ unsigned big)
  if addressWidth - 1 ≤ small then
    return a
  else if addressWidth - 1 ≤ big then
    return a &&& (ones >>> small.toNat)
  else if small = 0 then
    return a &&& (ones <<< big.toNat)
  else
    let lowerBits := a &&& ~~~(ones <<< small.toNat)
    let higherBits := a &&& (ones <<< (big + 1).toNat)
    -- the field has `big - small + 1` bits: the high bits come down one place less
    return (higherBits >>> (big - small).toNat) ||| lowerBits

end Address

/-! ## Sizes -/

/-- One step of `floorLog2`: if a bit of the mask is set, the number has `k` more bits. -/
def floorLog2Step (yx : Int × BitVec 64) (kmask : Nat × BitVec 64) : Int × BitVec 64 :=
  if yx.2 &&& kmask.2 ≠ 0 then (yx.1 + kmask.1, yx.2 >>> kmask.1) else yx

/-- `floorLog2`. The overloads for shorter integers lack the first step, which such a number does not take. -/
def floorLog2 (x : BitVec 64) : Except Fault Int := do
  ensure .assert (0 < x.toNat)
  return ([(32, 0xffffffff00000000), (16, 0xffff0000), (8, 0xff00), (4, 0xf0), (2, 0xc), (1, 0x2)].foldl
    floorLog2Step (0, x)).1

/-- The static members of `RubySystem` that describe the memory. -/
structure RubySystem where
  blockSizeBytes : BitVec 64
  blockSizeBits : Int
  memorySizeBits : Int

/-- `m_memory_size_bits`. -/
def RubySystem.sizeBits (memSize : BitVec 64) : Except Fault Int := if memSize = 0 then .ok 0 else floorLog2 memSize

def RubySystem.new (blockSizeBytes memSize : BitVec 64) : Except Fault RubySystem := do
  let blockSizeBits ← floorLog2 blockSizeBytes
  let memorySizeBits ← sizeBits memSize
  return { blockSizeBytes, blockSizeBits, memorySizeBits }

/-! ## Directories -/

namespace DirectoryMemory

structure Params where
  version : Int
  size : BitVec 64
  useMap : Bool
  mapLevels : Int
  numaHighBit : Int

structure Statics where
  numDirectories : Nat := 0
  numDirectoriesBits : Int := 0
  numaHighBit : Int := 0

end DirectoryMemory

structure DirectoryMemory where
  version : Int
  sizeBytes : BitVec 64
  numEntries : BitVec 64
  useMap : Bool
  mapLevels : Int

namespace DirectoryMemory

variable (sys : RubySystem) (st : Statics) (m : DirectoryMemory)

def new (p : Params) : Statics × DirectoryMemory :=
  ({ st with numaHighBit := p.numaHighBit },
    { version := p.version, sizeBytes := p.size, numEntries := 0, useMap := p.useMap, mapLevels := p.mapLevels })

/-- The sparse memory of a directory with a map has a bit for each level. -/
def checkLevels (numEntries : BitVec 64) : Except Fault Unit :=
  if m.useMap then do
    let entryBits ← floorLog2 numEntries
    ensure .assert (m.mapLevels ≤ entryBits)
  else
    return ()

def init : Except Fault (Statics × DirectoryMemory) := do
  let numEntries := m.sizeBytes / sys.blockSizeBytes
  checkLevels m numEntries
  let numDirectories := st.numDirectories + 1
  let numDirectoriesBits ← floorLog2 (.ofNat 64 numDirectories)
  let numaHighBit := if st.numaHighBit = 0 then sys.memorySizeBits else st.numaHighBit
  ensure .assert (numaHighBit ≠ 0)
  return ({ numDirectories, numDirectoriesBits, numaHighBit }, { m with numEntries })

def newAll : Statics → List Params → Statics × List DirectoryMemory
  | st, [] => (st, [])
  | st, p :: ps => ((newAll (new st p).1 ps).1, (new st p).2 :: (newAll (new st p).1 ps).2)

def initAll (sys : RubySystem) : Statics → List DirectoryMemory → Except Fault (Statics × List DirectoryMemory)
  | st, [] => return (st, [])
  | st, m :: ms => do
    let (st, m) ← init sys st m
    let (st, ms) ← initAll sys st ms
    return (st, m :: ms)

/-- All directories are constructed, then initialized. -/
def boot (ps : List Params) : Except Fault (Statics × List DirectoryMemory) :=
  initAll sys (newAll {} ps).1 (newAll {} ps).2

def mapAddressToDirectoryVersion (a : Address) : Except Fault (BitVec 64) :=
  if st.numDirectoriesBits = 0 then .ok 0
  else a.bitSelect (st.numaHighBit - st.numDirectoriesBits) st.numaHighBit

def mapAddressToLocalIdx (a : Address) : Except Fault (BitVec 64) := do
  let r ← a.bitRemove (st.numaHighBit - st.numDirectoriesBits) st.numaHighBit
  return r >>> sys.blockSizeBits.toNat

/-- The directory of a block, and the place in it. -/
def home (a : Address) : Except Fault (Nat × Nat) := do
  let v ← mapAddressToDirectoryVersion st a
  let i ← mapAddressToLocalIdx sys st a
  return (v.toNat, i.toNat)

/-! ## Fields of an address -/

section fields

variable {a : Address} {small big : Nat}

theorem unsigned_natCast {k : Nat} (h : k < 64) : unsigned k = k := by
  rw [unsigned]
  omega

theorem bitSelect_eq (h : small ≤ big) (hb : big < 63) :
    ∃ r, a.bitSelect small big = .ok r ∧ r.toNat = a.toNat % 2 ^ (big + 1) / 2 ^ small := by
  refine ⟨(a &&& ~~~(ones <<< (big + 1))) >>> small, ?_, ?_⟩
  · rw [Address.bitSelect, ensure_of, if_neg]
    · rfl
    · simp only [addressWidth]
      omega
    · rw [unsigned_natCast, unsigned_natCast] <;> omega
  · rw [BitVec.toNat_ushiftRight, ones, toNat_lowBits, shiftRight_eq_div_pow]

theorem bitSelect_top (h : small ≤ 63) : ∃ r, a.bitSelect small 63 = .ok r ∧ r.toNat = a.toNat / 2 ^ small := by
  refine ⟨a >>> small, ?_, ?_⟩
  · rw [Address.bitSelect, ensure_of]
    · rfl
    · rw [unsigned_natCast (by omega)]
      exact h
  · rw [BitVec.toNat_ushiftRight, shiftRight_eq_div_pow]

theorem bitRemove_eq (h : small ≤ big) (hb : big < 63) (ha : a.toNat < 2 ^ (big + 1))
    (h0 : small = 0 → a.toNat < 2 ^ big) :
    ∃ r, a.bitRemove small big = .ok r ∧ r.toNat = a.toNat % 2 ^ small := by
  rw [Address.bitRemove, ensure_of, ok_bind, if_neg, if_neg]
  · by_cases hs : small = 0
    · subst hs
      refine ⟨_, if_pos rfl, ?_⟩
      rw [Int.toNat_natCast, ones, toNat_highBits, div_eq_of_lt (h0 rfl), zero_mul, pow_zero, mod_one]
    · refine ⟨_, if_neg (Int.natCast_eq_zero.not.2 hs), ?_⟩
      have hz : (a &&& (ones <<< ((big : Int) + 1).toNat)).toNat = 0 := by
        rw [show ((big : Int) + 1).toNat = big + 1 by omega, ones, toNat_highBits, div_eq_of_lt ha, zero_mul]
      rw [BitVec.toNat_or, BitVec.toNat_ushiftRight, hz, zero_shiftRight, zero_or, Int.toNat_natCast, ones,
        toNat_lowBits]
  all_goals first | (simp only [addressWidth]; omega) | (rw [unsigned_natCast, unsigned_natCast] <;> omega)

theorem bitRemove_top (h : small < 63) : ∃ r, a.bitRemove small 63 = .ok r ∧ r.toNat = a.toNat % 2 ^ (64 - small) := by
  rw [Address.bitRemove, ensure_of, if_neg, if_pos]
  · refine ⟨_, rfl, ?_⟩
    rw [Int.toNat_natCast, ones, toNat_restBits]
  all_goals first | (simp only [addressWidth]; omega) | (rw [unsigned_natCast (by omega)]; exact h.le)

end fields

/-! ## Starting a system -/

/-- A memory of `2 ^ dirBits` directories of `2 ^ sizeBits` bytes. Its size is a `uint64`, the number of directories and
the size of a block are `int`s, and the high bit, if given, leaves the selecting field above the offset in the block and
within the memory. -/
structure Config where
  sizeBits : Nat
  dirBits : Nat
  blockBits : Nat
  numaHighBit : Nat
  useMap : Bool
  mapLevels : Int
  memory_lt : sizeBits + dirBits < 64
  dir_lt : dirBits < 31
  block_lt : blockBits < 31
  high : numaHighBit ≠ 0 →
    blockBits ≤ numaHighBit ∧ blockBits + dirBits ≤ numaHighBit + 1 ∧ numaHighBit ≤ sizeBits + dirBits

namespace Config

variable (c : Config)

def params : List Params := (range (2 ^ c.dirBits)).map fun (v : Nat) =>
  { version := v, size := .ofNat 64 (2 ^ c.sizeBits), useMap := c.useMap, mapLevels := c.mapLevels,
    numaHighBit := c.numaHighBit }

def boot : Except Fault (RubySystem × Statics × List DirectoryMemory) := do
  let sys ← RubySystem.new (.ofNat 64 (2 ^ c.blockBits)) (.ofNat 64 (2 ^ (c.sizeBits + c.dirBits)))
  let r ← DirectoryMemory.boot sys c.params
  return (sys, r)

theorem length_params : c.params.length = 2 ^ c.dirBits := by rw [params, length_map, length_range]

/-- The high bit after `init`. -/
def highBit : Nat := if c.numaHighBit = 0 then c.sizeBits + c.dirBits else c.numaHighBit

def blocks : Set Nat := {x | x < 2 ^ (c.sizeBits + c.dirBits) ∧ 2 ^ c.blockBits ∣ x}

end Config

section boot

variable {sys : RubySystem} {st st' : Statics} {m m' : DirectoryMemory} {ms ms' : List DirectoryMemory}

theorem floorLog2_pow {k : Nat} (h : k < 64) : floorLog2 (.ofNat 64 (2 ^ k)) = .ok k := by
  have hall : ∀ k : Fin 64, floorLog2 (.ofNat 64 (2 ^ k.val)) = .ok (k.val : Int) := by decide +kernel
  exact hall ⟨k, h⟩

theorem toNat_two_pow {k : Nat} (h : k < 64) : (BitVec.ofNat 64 (2 ^ k)).toNat = 2 ^ k := by
  exact mod_eq_of_lt (Nat.pow_lt_pow_right Nat.one_lt_two h)

theorem init_eq_ok (h : init sys st m = .ok (st', m')) :
    m' = { m with numEntries := m.sizeBytes / sys.blockSizeBytes } ∧ st'.numDirectories = st.numDirectories + 1 ∧
      floorLog2 (.ofNat 64 st'.numDirectories) = .ok st'.numDirectoriesBits ∧
      st'.numaHighBit = (if st.numaHighBit = 0 then sys.memorySizeBits else st.numaHighBit) ∧ st'.numaHighBit ≠ 0 := by
  obtain ⟨-, -, h⟩ := of_bind h
  obtain ⟨bits, hbits, h⟩ := of_bind h
  obtain ⟨hhigh, h⟩ := of_ensure h
  cases h
  exact ⟨rfl, rfl, hbits, rfl, hhigh⟩

theorem initAll_eq_ok (h : initAll sys st (m :: ms) = .ok (st', ms')) :
    ms' = (m :: ms).map (fun m => { m with numEntries := m.sizeBytes / sys.blockSizeBytes }) ∧
      floorLog2 (.ofNat 64 (st.numDirectories + (m :: ms).length)) = .ok st'.numDirectoriesBits ∧
      st'.numaHighBit = (if st.numaHighBit = 0 then sys.memorySizeBits else st.numaHighBit) ∧ st'.numaHighBit ≠ 0 := by
  induction ms generalizing m st ms' with
  | nil =>
    obtain ⟨⟨st1, m1⟩, h1, h⟩ := of_bind h
    cases h
    obtain ⟨rfl, hn, hbits, hhigh, h0⟩ := init_eq_ok h1
    exact ⟨rfl, hn ▸ hbits, hhigh, h0⟩
  | cons m2 ms ih =>
    obtain ⟨⟨st1, m1⟩, h1, h⟩ := of_bind h
    obtain ⟨⟨st2, ms2⟩, h2, h⟩ := of_bind h
    cases h
    obtain ⟨rfl, hn, -, hhigh1, h0⟩ := init_eq_ok h1
    obtain ⟨rfl, hbits, hhigh, h0'⟩ := ih h2
    rw [if_neg h0, hhigh1] at hhigh
    refine ⟨rfl, ?_, hhigh, h0'⟩
    rw [← hbits, hn, add_right_comm]
    rfl

theorem newAll_eq (st : Statics) (ps : List Params) {k : Int} (h : ∀ p ∈ ps, p.numaHighBit = k) (hn : ps ≠ []) :
    (newAll st ps).1 = { st with numaHighBit := k } ∧ (newAll st ps).2 = ps.map fun p => (new st p).2 := by
  induction ps generalizing st with
  | nil => exact absurd rfl hn
  | cons p ps ih =>
    have hp := h p mem_cons_self
    by_cases hps : ps = []
    · subst hps hp
      exact ⟨rfl, rfl⟩
    · obtain ⟨h1, h2⟩ := ih (new st p).1 (fun q hq => h q (mem_cons_of_mem p hq)) hps
      exact ⟨h1, congrArg (cons _) h2⟩

theorem boot_eq_ok {c : Config} (h : c.boot = .ok (sys, st, ms)) :
    sys.blockSizeBits = c.blockBits ∧ st.numDirectoriesBits = c.dirBits ∧ st.numaHighBit = c.highBit ∧ c.highBit ≠ 0 ∧
      ms.length = 2 ^ c.dirBits ∧ ∀ m ∈ ms, m.numEntries.toNat = 2 ^ c.sizeBits / 2 ^ c.blockBits := by
  obtain ⟨sys', hsys, h⟩ := of_bind h
  obtain ⟨⟨st', ms'⟩, hboot, h⟩ := of_bind h
  cases h
  have hmem := c.memory_lt
  have hblock := c.block_lt
  -- the sizes that `RubySystem` keeps
  obtain ⟨bb, hbb, hsys⟩ := of_bind hsys
  obtain ⟨mb, hmb, rfl⟩ := of_map hsys
  rw [floorLog2_pow (by omega)] at hbb
  have hne : BitVec.ofNat 64 (2 ^ (c.sizeBits + c.dirBits)) ≠ 0 := fun h0 =>
    (Nat.two_pow_pos (c.sizeBits + c.dirBits)).ne' ((toNat_two_pow hmem).symm.trans (congrArg BitVec.toNat h0))
  rw [RubySystem.sizeBits, if_neg hne, floorLog2_pow hmem] at hmb
  cases hbb
  cases hmb
  -- the static members
  have hp : c.params ≠ [] := ne_nil_of_length_pos (c.length_params ▸ Nat.two_pow_pos _)
  obtain ⟨hst, hms⟩ := newAll_eq {} c.params (k := c.numaHighBit)
    (fun p hp => by obtain ⟨v, -, rfl⟩ := mem_map.1 hp; rfl) hp
  rw [boot, hst, hms] at hboot
  obtain ⟨m, ms, hcons⟩ : ∃ m ms, c.params.map (fun p => (new {} p).2) = m :: ms :=
    exists_cons_of_ne_nil fun h => hp (map_eq_nil_iff.1 h)
  rw [hcons] at hboot
  obtain ⟨rfl, hbits, hhigh, h0⟩ := initAll_eq_ok hboot
  have hlen : (m :: ms).length = 2 ^ c.dirBits := by rw [← hcons, length_map, c.length_params]
  rw [hlen, zero_add, floorLog2_pow (by omega)] at hbits
  have hhigh' : st.numaHighBit = c.highBit := by
    rw [hhigh, Config.highBit]
    simp only [Int.natCast_eq_zero]
    split <;> rfl
  refine ⟨rfl, (Except.ok.inj hbits).symm, hhigh', fun h => h0 (by rw [hhigh', h]; rfl), ?_, ?_⟩
  · rw [length_map, hlen]
  · intro m' hm'
    rw [← hcons, map_map] at hm'
    obtain ⟨p, hp, rfl⟩ := mem_map.1 hm'
    obtain ⟨v, -, rfl⟩ := mem_map.1 hp
    show (BitVec.ofNat 64 (2 ^ c.sizeBits) / BitVec.ofNat 64 (2 ^ c.blockBits)).toNat = _
    rw [BitVec.toNat_udiv, toNat_two_pow (by omega), toNat_two_pow (by omega)]

end boot

/-! ## The home of a block -/

section home

variable {c : Config} {sys : RubySystem} {st : Statics} {ms : List DirectoryMemory} {a : Address}

section

variable (hb : c.boot = .ok (sys, st, ms))

include hb

theorem home_of {v r : BitVec 64} {small : Nat} (hs : c.highBit = small + c.dirBits)
    (hv : mapAddressToDirectoryVersion st a = .ok v) (hr : a.bitRemove small c.highBit = .ok r) :
    home sys st a = .ok (v.toNat, r.toNat / 2 ^ c.blockBits) := by
  obtain ⟨hbb, hdb, hhb, -⟩ := boot_eq_ok hb
  have hsmall : st.numaHighBit - st.numDirectoriesBits = small := by omega
  rw [home, hv, mapAddressToLocalIdx, hsmall, hhb, hr, hbb]
  show Except.ok (v.toNat, (r >>> (c.blockBits : Int).toNat).toNat) = _
  rw [Int.toNat_natCast, BitVec.toNat_ushiftRight, shiftRight_eq_div_pow]

theorem version_eq {small : Nat} (hs : c.highBit = small + c.dirBits)
    (hd : c.dirBits ≠ 0) : mapAddressToDirectoryVersion st a = a.bitSelect small c.highBit := by
  obtain ⟨-, hdb, hhb, -⟩ := boot_eq_ok hb
  rw [mapAddressToDirectoryVersion, if_neg (by omega), hhb, hdb, hs, Int.natCast_add, Int.add_sub_cancel]

theorem home_single (hd : c.dirBits = 0) (hh : c.highBit < 63)
    (ha : a.toNat < 2 ^ (c.highBit + 1)) : home sys st a = .ok (0, a.toNat % 2 ^ c.highBit / 2 ^ c.blockBits) := by
  obtain ⟨-, hdb, -, h0, -⟩ := boot_eq_ok hb
  obtain ⟨r, hr, hr'⟩ := bitRemove_eq (le_refl c.highBit) hh ha fun h => absurd h h0
  have hv : mapAddressToDirectoryVersion st a = .ok 0 := if_pos (by rw [hdb, hd]; rfl)
  rw [home_of hb (by omega) hv hr, hr']
  rfl

theorem home_top (hh : c.highBit = c.sizeBits + c.dirBits)
    (hd : c.dirBits = 0 ∨ c.sizeBits + c.dirBits < 63) (ha : a.toNat < 2 ^ (c.sizeBits + c.dirBits)) :
    home sys st a = .ok (a.toNat / 2 ^ c.sizeBits, a.toNat % 2 ^ c.sizeBits / 2 ^ c.blockBits) := by
  by_cases hd0 : c.dirBits = 0
  · rw [hd0, add_zero] at ha hh
    rw [div_eq_of_lt ha]
    by_cases hs : c.sizeBits < 63
    · rw [← hh] at ha hs ⊢
      exact home_single hb hd0 hs (ha.trans (Nat.pow_lt_pow_right Nat.one_lt_two (lt_succ_self _)))
    · -- nothing is removed from an address at its last bit
      have hmem := c.memory_lt
      have hr : a.bitRemove (63 : Nat) (63 : Nat) = .ok a := rfl
      obtain ⟨-, hdb, -⟩ := boot_eq_ok hb
      have hv : mapAddressToDirectoryVersion st a = .ok 0 := if_pos (by rw [hdb, hd0]; rfl)
      have h63 : c.highBit = 63 := by omega
      rw [home_of hb (by omega) hv (show a.bitRemove (63 : Nat) c.highBit = .ok a from h63.symm ▸ hr),
        mod_eq_of_lt ha]
      rfl
  · have hlt := hd.resolve_left hd0
    have ha' : a.toNat < 2 ^ (c.highBit + 1) := hh ▸ ha.trans (Nat.pow_lt_pow_right Nat.one_lt_two (lt_succ_self _))
    obtain ⟨v, hv, hv'⟩ := bitSelect_eq (le_add_right c.sizeBits c.dirBits) hlt
    obtain ⟨r, hr, hr'⟩ := bitRemove_eq (le_add_right c.sizeBits c.dirBits) hlt (hh ▸ ha') fun _ => ha
    rw [← hh] at hv hr hv'
    rw [home_of hb hh ((version_eq hb hh hd0).trans hv) hr, hr', hv', mod_eq_of_lt ha']

end

/-- The blocks of the memory and the places of `dirs` directories with `entries` entries correspond. -/
def HomeBijective (c : Config) (sys : RubySystem) (st : Statics) (dirs entries : Nat) : Prop :=
  ∃ f, (∀ a : Address, a.toNat ∈ c.blocks → home sys st a = .ok (f a.toNat)) ∧
    Set.BijOn f c.blocks {y | y.1 < dirs ∧ y.2 < entries}

namespace HomeBijective

variable {dirs entries : Nat} {a' : Address} {y : Nat × Nat}

theorem lt (h : HomeBijective c sys st dirs entries) (ha : a.toNat ∈ c.blocks) (hy : home sys st a = .ok y) :
    y.1 < dirs ∧ y.2 < entries := by
  obtain ⟨f, hf, hmaps, -, -⟩ := h
  cases (hf a ha).symm.trans hy
  exact hmaps ha

theorem inj (h : HomeBijective c sys st dirs entries) (ha : a.toNat ∈ c.blocks) (ha' : a'.toNat ∈ c.blocks)
    (hy : home sys st a = .ok y) (hy' : home sys st a' = .ok y) : a = a' := by
  obtain ⟨f, hf, -, hinj, -⟩ := h
  have he : f a.toNat = f a'.toNat := Except.ok.inj (((hf a ha).symm.trans hy).trans (hy'.symm.trans (hf a' ha')))
  exact BitVec.eq_of_toNat_eq (hinj ha ha' he)

end HomeBijective

theorem zero_mem_blocks : (0 : Address).toNat ∈ c.blocks := ⟨Nat.two_pow_pos _, Nat.dvd_zero _⟩

variable {k entries : Nat}

theorem toNat_bit (h : k < c.sizeBits + c.dirBits) : (BitVec.ofNat 64 (2 ^ k)).toNat = 2 ^ k :=
  toNat_two_pow (h.trans c.memory_lt)

theorem bit_mem_blocks (h : k < c.sizeBits + c.dirBits) (hb : c.blockBits ≤ k) :
    (BitVec.ofNat 64 (2 ^ k)).toNat ∈ c.blocks := by
  rw [toNat_bit h]
  exact ⟨Nat.pow_lt_pow_right Nat.one_lt_two h, Nat.pow_dvd_pow 2 hb⟩

theorem not_bijective_of_bit {dirs : Nat} {y : Nat × Nat} (hk : k < c.sizeBits + c.dirBits) (hb : c.blockBits ≤ k)
    (h0 : home sys st 0 = .ok y) (h1 : home sys st (BitVec.ofNat 64 (2 ^ k)) = .ok y) :
    ¬ HomeBijective c sys st dirs entries := by
  intro h
  have he := congrArg BitVec.toNat (h.inj zero_mem_blocks (bit_mem_blocks hk hb) h0 h1)
  rw [toNat_bit hk] at he
  exact (Nat.two_pow_pos k).ne he

theorem not_bijective_of_lt (hb : c.boot = .ok (sys, st, ms)) (hh : c.highBit < c.sizeBits + c.dirBits) :
    ¬ HomeBijective c sys st (2 ^ c.dirBits) entries := by
  obtain ⟨-, hdb, hhb, h0, -⟩ := boot_eq_ok hb
  have hmem := c.memory_lt
  have hnuma : c.highBit = c.numaHighBit ∧ c.numaHighBit ≠ 0 := by
    rw [Config.highBit] at hh ⊢
    split at hh
    · exact absurd hh (lt_irrefl _)
    · exact ⟨if_neg ‹_›, ‹_›⟩
  obtain ⟨hblock, hfield, -⟩ := c.high hnuma.2
  rw [← hnuma.1] at hblock hfield
  by_cases hd : c.dirBits = 0
  · refine not_bijective_of_bit (y := (0, 0)) hh hblock ?_ ?_
    · rw [home_single hb hd (by omega) (Nat.two_pow_pos _)]
      simp
    · rw [home_single hb hd (by omega), toNat_bit hh, mod_self, Nat.zero_div]
      rw [toNat_bit hh]
      exact Nat.pow_lt_pow_right Nat.one_lt_two (lt_succ_self _)
  · intro h
    obtain ⟨f, hf, -⟩ := id h
    obtain ⟨v, hv, hhome⟩ := of_bind (hf _ (bit_mem_blocks hh hblock))
    by_cases hs : c.dirBits ≤ c.highBit
    · obtain ⟨v', hsel, hv'⟩ := bitSelect_eq (sub_le c.highBit c.dirBits)
        (show c.highBit < 63 by omega)
      rw [version_eq hb (Nat.sub_add_cancel hs).symm hd, hsel] at hv
      cases hv
      obtain ⟨i, -, hi⟩ := of_bind hhome
      have hlt := (h.lt (bit_mem_blocks hh hblock) (hf _ (bit_mem_blocks hh hblock))).1
      rw [← Except.ok.inj hi] at hlt
      have hpow : v.toNat = 2 ^ c.dirBits := by
        rw [hv', toNat_bit hh, mod_eq_of_lt (Nat.pow_lt_pow_right Nat.one_lt_two (lt_succ_self _)),
          Nat.pow_div (sub_le _ _) Nat.two_pos, Nat.sub_sub_self hs]
      exact (lt_irrefl _) (hpow ▸ hlt)
    · -- the field starts below bit 0, which the assertion of `bitSelect` finds
      rw [mapAddressToDirectoryVersion, if_neg (by omega)] at hv
      have hlt := (of_ensure hv).1
      simp only [unsigned, hhb, hdb] at hlt
      omega

theorem not_bijective_of_last (hb : c.boot = .ok (sys, st, ms))
    (hh : c.highBit = c.sizeBits + c.dirBits) (hd : c.dirBits ≠ 0) (hlast : c.sizeBits + c.dirBits = 63) :
    ¬ HomeBijective c sys st (2 ^ c.dirBits) entries := by
  have hdir := c.dir_lt
  have hblock := c.block_lt
  have h63 : c.highBit = 63 := hh.trans hlast
  have hhome : ∀ {a : Address}, a.toNat < 2 ^ c.sizeBits →
      home sys st a = .ok (0, a.toNat % 2 ^ (64 - c.sizeBits) / 2 ^ c.blockBits) := by
    intro a ha
    obtain ⟨v, hv, hv'⟩ := bitSelect_top (show c.sizeBits ≤ 63 by omega)
    obtain ⟨r, hr, hr'⟩ := bitRemove_top (show c.sizeBits < 63 by omega)
    have hv : mapAddressToDirectoryVersion st a = .ok v := by
      rw [version_eq hb hh hd, h63]
      exact hv
    rw [home_of hb hh hv (show a.bitRemove c.sizeBits c.highBit = .ok r by rw [h63]; exact hr), hv', hr',
      div_eq_of_lt ha]
  -- the bit `32` is in the local part of the address, but above the mask
  have hbit : (BitVec.ofNat 64 (2 ^ 32)).toNat = 2 ^ 32 := rfl
  refine not_bijective_of_bit (k := 32) (y := (0, 0)) (by omega) (by omega) ?_ ?_
  · rw [hhome (Nat.two_pow_pos _)]
    simp
  · rw [hhome, hbit, mod_eq_zero_of_dvd (Nat.pow_dvd_pow 2 (by omega)), Nat.zero_div]
    rw [hbit]
    exact Nat.pow_lt_pow_right Nat.one_lt_two (by omega)

/-- The blocks and the places of the directories correspond exactly if a directory has room for a block, the selecting
field ends with the memory, and there is no field at the last bit of an address. -/
theorem home_bijective_iff (hb : c.boot = .ok (sys, st, ms)) :
    (∀ m ∈ ms, HomeBijective c sys st ms.length m.numEntries.toNat) ↔
      c.blockBits ≤ c.sizeBits ∧ (c.numaHighBit = 0 ∨ c.numaHighBit = c.sizeBits + c.dirBits) ∧
        (c.dirBits = 0 ∨ c.sizeBits + c.dirBits < 63) := by
  obtain ⟨-, -, -, -, hlen, hentries⟩ := boot_eq_ok hb
  have hhigh : c.highBit = c.sizeBits + c.dirBits ↔ c.numaHighBit = 0 ∨ c.numaHighBit = c.sizeBits + c.dirBits := by
    rw [Config.highBit]
    split <;> omega
  rw [hlen, ← hhigh]
  constructor
  · intro h
    obtain ⟨m, hm⟩ := exists_mem_of_length_pos (hlen ▸ Nat.two_pow_pos c.dirBits)
    have hbij := h m hm
    have hh : c.highBit = c.sizeBits + c.dirBits := by
      by_contra hne
      refine not_bijective_of_lt hb (lt_of_le_of_ne ?_ hne) hbij
      by_cases h0 : c.numaHighBit = 0
      · exact absurd (hhigh.2 (.inl h0)) hne
      · rw [Config.highBit, if_neg h0]
        exact (c.high h0).2.2
    have hd : c.dirBits = 0 ∨ c.sizeBits + c.dirBits < 63 := by
      by_contra hne
      rw [not_or, not_lt] at hne
      exact not_bijective_of_last hb hh hne.1 (le_antisymm (le_of_lt_succ c.memory_lt) hne.2) hbij
    refine ⟨?_, hh, hd⟩
    by_contra hne
    have hlt := (hbij.lt zero_mem_blocks (home_top hb hh hd (Nat.two_pow_pos _))).2
    rw [hentries m hm, div_eq_of_lt (Nat.pow_lt_pow_right Nat.one_lt_two (Nat.lt_of_not_le hne))] at hlt
    exact absurd hlt (not_lt_zero _)
  · rintro ⟨hblock, hh, hd⟩ m hm
    rw [hentries m hm, Nat.pow_div hblock Nat.two_pos]
    exact ⟨_, fun a ha => home_top hb hh hd ha.1, bijOn_fields hblock⟩

/-- Two directories of two blocks, selected by the top bit of the memory. -/
def twoByTwo : Config where
  sizeBits := 7
  dirBits := 1
  blockBits := 6
  numaHighBit := 0
  useMap := false
  mapLevels := 4
  memory_lt := by decide
  dir_lt := by decide
  block_lt := by decide
  high h := absurd rfl h

theorem home_bijective_twoByTwo : ∃ sys st ms, twoByTwo.boot = .ok (sys, st, ms) ∧
    ∀ m ∈ ms, HomeBijective twoByTwo sys st ms.length m.numEntries.toNat :=
  ⟨_, _, _, rfl, (home_bijective_iff rfl).2 ⟨by decide, by decide, by decide⟩⟩

/-- The same memory with its top bit given as the high bit: the version of the upper blocks has two bits. -/
def highSeven : Config := { twoByTwo with numaHighBit := 7, high := fun _ => by decide }

theorem home_outside_highSeven : ∃ sys st ms, highSeven.boot = .ok (sys, st, ms) ∧ ms.length = 2 ∧
    home sys st 128 = .ok (2, 0) ∧ ¬ ∀ m ∈ ms, HomeBijective highSeven sys st ms.length m.numEntries.toNat := by
  refine ⟨_, _, _, rfl, rfl, by decide +kernel, fun h => ?_⟩
  have hb : (128 : Address).toNat ∈ highSeven.blocks := ⟨by decide, by decide⟩
  exact absurd ((h _ mem_cons_self).lt hb (y := (2, 0)) (by decide +kernel)).1 (by decide)

end home

end DirectoryMemory

end M5.Ruby
