import M5.Base.ChunkGenerator
import M5.Mem.PageMap

/-!
# Growing the data segment

`TranslatingPort` of `mem/translating_port.cc` gives system calls access to the memory of a process, page by page, and
`brkFunc` of `sim/syscall_emul.cc` moves the end of its data segment. The memory is seen through the page map.
-/

namespace M5.Mem

open M5.Lib M5.Base AddressSpace Function Nat Option Int

section

inductive AllocType
  | Always | Never | NextPage
deriving DecidableEq

/-- A process: its address space, the physical memory, and the end of its data segment. -/
structure Proc (I : Isa) where
  space : AddressSpace I
  mem : Addr → UInt8
  brkPoint : Addr

variable {I : Isa}

namespace Proc

/-- A process before it is loaded. The physical memory of the host is zero. -/
def new (I : Isa) (brkPoint : Addr) : Proc I := ⟨.new I, fun _ => 0, brkPoint⟩

variable (h : Host) (alloc : AllocType) (s : Proc I)

variable (vaddr newBrk addr : Addr)

def translate : Option Addr × Proc I :=
  ((s.space.translate vaddr).1, { s with space := (s.space.translate vaddr).2 })

def allocate (size : Int) : Except Stop (Proc I) := do
  let space ← s.space.allocate h vaddr size
  return { s with space }

/-- `Port::memsetBlob`, on physical addresses. -/
def portMemset (paddr : Addr) (val : UInt8) (size : Nat) : Proc I :=
  { s with mem := blit s.mem paddr size fun _ => val }

/-- A chunk of `TranslatingPort::tryMemsetBlob`. -/
def memsetChunk (val : UInt8) (addr : Addr) (size : Nat) (s : Proc I) : Except Stop (Proc I) :=
  match s.translate addr with
  | (some paddr, s) => .ok (s.portMemset paddr val size)
  | (none, s) =>
    if alloc = .Always then do
      let s ← s.allocate h (roundDown addr I.pageSize) I.pageSize
      match s.translate addr with
      | (some paddr, s) => .ok (s.portMemset paddr val size)
      | (none, _) => .error .fatal
    else
      .error .fatal

def memsetBlob (val : UInt8) (size : Nat) : Except Stop (Proc I) :=
  (ChunkGenerator.new addr size I.pageSize).loop (memsetChunk h alloc val) s

/-- The clearing of a page that is there already: the chunk up to the next page, then the start of that page. -/
def brkClear : Except Stop (Proc I) := do
  let nextPage := roundUp addr I.pageSize
  let sizeNeeded := (nextPage + 2 ^ 64 - addr) % 2 ^ 64 % 2 ^ 32
  let s ← s.memsetBlob h alloc addr 0 sizeNeeded
  if nextPage < (addr + I.pageSize) % 2 ^ 64 ∧ nextPage < newBrk then
    match s.translate nextPage with
    | (some _, s) => s.memsetBlob h alloc nextPage 0 ((I.pageSize + 2 ^ 32 - sizeNeeded) % 2 ^ 32)
    | (none, s) => .ok s
  else
    .ok s

def brkChunk (_size : Nat) (s : Proc I) : Except Stop (Proc I) :=
  match s.translate addr with
  | (none, s) => s.allocate h (roundDown addr I.pageSize) I.pageSize
  | (some _, s) => s.brkClear h alloc newBrk addr

def brkFunc : Except Stop (Proc I) :=
  if newBrk = 0 then .ok s
  else if s.brkPoint < newBrk then do
    let s ← (ChunkGenerator.new s.brkPoint (newBrk - s.brkPoint) I.pageSize).loop (brkChunk h alloc newBrk) s
    return { s with brkPoint := newBrk }
  else
    .ok { s with brkPoint := newBrk }

def read : Option UInt8 := (s.translate vaddr).1.map s.mem

/-- A write of the process; without a translation it faults. -/
def write (x : UInt8) : Except Stop (Proc I) :=
  match s.translate vaddr with
  | (some paddr, s) => .ok (s.portMemset paddr x 1)
  | (none, _) => .error .panic

end Proc

inductive Act
  /-- The loader, the stack or `mmap` take memory. -/
  | allocate (vaddr : UInt64) (size : Int64)
  | write (vaddr : UInt64) (x : UInt8)
  | brk (newBrk : UInt64)

/-- A process that is loaded, writes to its memory and calls `brk`. -/
def Proc.step (h : Host) (alloc : AllocType) (s : Proc I) : Act → Except Stop (Proc I)
  | .allocate vaddr size => s.allocate h vaddr.toNat size.toInt
  | .write vaddr x => s.write vaddr.toNat x
  | .brk newBrk => s.brkFunc h alloc newBrk.toNat

end

/-! ## What the process sees -/

variable {I : Isa}

def PageMap.view (m : PageMap I) (mem : Addr → UInt8) (v : Addr) : Option UInt8 := (m.translate v).map mem

/-- The page of `v` is mapped, or the list of the last pages does not have it. -/
def AddressSpace.Fresh (s : AddressSpace I) (v : Addr) : Prop :=
  s.pTable (pageAlign I v) ≠ none ∨ s.pTableCache.lookup (pageAlign I v) = none

/-- The list has no page that is not mapped, except the first. -/
def AddressSpace.Listed (s : AddressSpace I) : Prop := ∀ ⦃k⦄, k ≠ 0 → s.pTableCache.lookup k ≠ none → s.pTable k ≠ none

/-- The page table models the page map, its list has no page that is not mapped except the first, and the physical pages
that have not been given out are zero. -/
structure Good (s : Proc I) (m : PageMap I) : Prop where
  models : Models s.space m
  listed : s.space.Listed
  zero : ∀ {x}, m.next * I.pageSize ≤ x → s.mem x = 0

namespace AddressSpace.Listed

variable {s s' : AddressSpace I} {h : Host} {v n : Nat}

theorem updateCache {e : I.TlbEntry} (hl : s.Listed) (hv : s.pTable v ≠ none) : (s.updateCache v e).Listed := by
  intro k hk hc
  by_cases hke : k = v
  · rw [hke]
    exact hv
  · have hc : (Lookaside.push s.pTableCache v e).lookup k ≠ none := hc
    rw [Lookaside.lookup_push_of_ne hke] at hc
    obtain ⟨w, hw⟩ := ne_none_iff_exists'.1 hc
    refine hl hk ?_
    rw [Lookaside.lookup_of_dropLast hw]
    exact some_ne_none w

theorem set {e : I.TlbEntry} (hl : s.Listed) : (s.set v e).Listed := by
  intro k hk hc
  show update s.pTable v (some e) k ≠ none
  by_cases hkv : k = v
  · rw [hkv, update_self]
    exact some_ne_none e
  · rw [update_of_ne hkv]
    exact hl hk hc

theorem lookup (hl : s.Listed) (v : Addr) : (s.lookup v).2.Listed := by
  rw [AddressSpace.lookup]
  split
  · exact hl
  · split
    · exact hl
    case h_2 e he => exact hl.updateCache (by rw [he]; exact some_ne_none e)

theorem allocatePage (hl : s.Listed) (hs : s.allocatePage h v = .ok s') : s'.Listed := by
  obtain ⟨-, hs⟩ := of_ensure hs
  obtain ⟨⟨a, s1⟩, h1, hs⟩ := of_bind hs
  obtain ⟨-, h1⟩ := of_ensure h1
  cases hs
  cases h1
  have hl1 : ({ s with pagePtr := s.pagePtr + 1 } : AddressSpace I).Listed := hl
  refine hl1.set.updateCache ?_
  show update s.pTable v _ v ≠ none
  rw [update_self]
  exact some_ne_none _

theorem allocateLoop (hl : s.Listed) (hs : AddressSpace.allocateLoop h n s v = .ok s') : s'.Listed := by
  induction n generalizing s v with
  | zero =>
    cases hs
    exact hl
  | succ n ih =>
    obtain ⟨s1, h1, hs⟩ := of_bind hs
    exact ih (hl.allocatePage h1) hs

end AddressSpace.Listed

/-! ## Bytes of a page -/

theorem mod_add_of_lt {v x : Nat} (hx : x ≤ v) (hv : x % I.pageSize + (v - x) < I.pageSize) :
    v % I.pageSize = x % I.pageSize + (v - x) ∧ page I v = page I x := by
  have he : v = I.pageSize * (x / I.pageSize) + (x % I.pageSize + (v - x)) := by
    rw [← Nat.add_assoc, div_add_mod, Nat.add_sub_cancel' hx]
  constructor
  · conv_lhs => rw [he, mul_add_mod, mod_eq_of_lt hv]
  · rw [page, page]
    conv_lhs => rw [he, mul_add_div I.pageSize_pos, div_eq_of_lt hv, add_zero]

theorem div_eq_of_page_eq {v x : Nat} (hv : v < 2 ^ 64) (hx : x < 2 ^ 64) (h : page I v = page I x) :
    v / I.pageSize = x / I.pageSize := by
  have he : pageAlign I v = pageAlign I x := by
    refine page_inj (pageAlign_lt hv) (pageAlign_lt hx) (pageOffset_pageAlign v) (pageOffset_pageAlign x) ?_
    rw [page_pageAlign, page_pageAlign, h]
  rw [pageAlign, pageAlign, ← div_mul_self_eq_mod_sub_self, ← div_mul_self_eq_mod_sub_self] at he
  exact eq_of_mul_eq_mul_right I.pageSize_pos he

theorem PageMap.Owned.view_blit {m : PageMap I} {mem d : Addr → UInt8} {v x f size : Nat} (hm : m.Owned)
    (hx : x < 2 ^ 64) (hv : v < 2 ^ 64) (hf : m.map (page I x) = some f) (hsize : x % I.pageSize + size ≤ I.pageSize) :
    m.view (blit mem (x % I.pageSize + f) size d) v =
      if x ≤ v ∧ v < x + size then some (d (v - x)) else m.view mem v := by
  split
  case isTrue hin =>
    obtain ⟨hmod, hpage⟩ := mod_add_of_lt (I := I) hin.1 (by omega)
    have hoff : x % I.pageSize + (v - x) + f - (x % I.pageSize + f) = v - x := by omega
    rw [view, translate, hpage, hf, map_some, map_some, hmod, blit_of_mem (by omega) (by omega), hoff]
  case isFalse hout =>
    rw [view, view, translate]
    cases hv' : m.map (page I v) with
    | none => rfl
    | some f' =>
      rw [map_some, map_some, map_some, blit_of_not_mem]
      intro hin
      -- two physical pages that overlap are the same
      obtain ⟨j, -, rfl⟩ := hm.given hf
      obtain ⟨j', -, rfl⟩ := hm.given hv'
      have hmod : v % I.pageSize < I.pageSize := mod_lt _ I.pageSize_pos
      have hj : j' = j := by
        have h1 : (v % I.pageSize + j' * I.pageSize) / I.pageSize = j' := by
          rw [add_mul_div_right _ _ I.pageSize_pos, div_eq_of_lt hmod, zero_add]
        rw [← h1]
        refine Nat.div_eq_of_lt_le ?_ ?_
        · omega
        · rw [succ_mul]
          omega
      subst hj
      have hdiv := div_eq_of_page_eq hv hx (hm.inj hv' hf)
      have hv2 := div_add_mod v I.pageSize
      have hx2 := div_add_mod x I.pageSize
      rw [hdiv] at hv2
      exact hout ⟨by omega, by omega⟩

section

variable {h : Host} {alloc : AllocType} {s s' : Proc I} {m : PageMap I} {v x : Nat}

theorem Models.map_ne_none {s : AddressSpace I} (hm : Models s m) (hv : v < 2 ^ 64) :
    m.map (page I v) ≠ none ↔ s.pTable (pageAlign I v) ≠ none := by
  have ht := hm.table (pageAlign_lt hv) (pageOffset_pageAlign v)
  rw [page_pageAlign] at ht
  rw [← ht, Ne, map_eq_none_iff]

namespace Good

section

variable (hg : Good s m)

include hg

theorem fresh_of_ne (hv : pageAlign I v ≠ 0) : s.space.Fresh v := by
  by_cases hc : s.space.pTableCache.lookup (pageAlign I v) = none
  · exact .inr hc
  · exact .inl (hg.listed hv hc)

theorem translate (hv : v < 2 ^ 64) (hf : s.space.Fresh v) : (s.translate v).1 = m.translate v :=
  (hg.models.translate hv).2 (hf.imp_left (hg.models.map_ne_none hv).2)

theorem read (hv : v < 2 ^ 64) (hf : s.space.Fresh v) : s.read v = m.view s.mem v := by
  rw [Proc.read, hg.translate hv hf, PageMap.view]

theorem lookup (v : Addr) : Good (s.translate v).2 m :=
  ⟨hg.models.lookup v, hg.listed.lookup v, hg.zero⟩

omit hg in
theorem memsetBlob (h : Host) (alloc : AllocType) (hg : Good s m) {size : Nat} (hx : x < 2 ^ 64)
    (hf : m.map (page I x) ≠ none)
    (hsize : x % I.pageSize + size ≤ I.pageSize) :
    ∃ s', s.memsetBlob h alloc x 0 size = .ok s' ∧ Good s' m ∧ s'.brkPoint = s.brkPoint ∧
      ∀ v : Nat, v < 2 ^ 64 → m.view s'.mem v = if x ≤ v ∧ v < x + size then some 0 else m.view s.mem v := by
  obtain ⟨f, hf⟩ := ne_none_iff_exists'.1 hf
  by_cases h0 : size = 0
  · subst h0
    refine ⟨s, ChunkGenerator.loop_done ?_, hg, rfl, fun v _ => ?_⟩
    · exact zero_min _
    · rw [if_neg (by omega)]
  · have ht : (s.translate x).1 = some (x % I.pageSize + f) := by
      rw [hg.translate hx (.inl ((hg.models.map_ne_none hx).1 (by rw [hf]; exact some_ne_none f))),
        PageMap.translate, hf, map_some]
    refine ⟨(s.translate x).2.portMemset (x % I.pageSize + f) 0 size, ?_, ?_, rfl, fun v hv => ?_⟩
    · rw [Proc.memsetBlob, Isa.pageSize, ChunkGenerator.loop_single (I.log_lt.trans (by decide))
        (pos_of_ne_zero h0) hx hsize, Proc.memsetChunk]
      rw [show s.translate x = (some (x % I.pageSize + f), (s.translate x).2) from Prod.ext ht rfl]
      rfl
    · refine { hg.lookup x with zero := fun {y} hy => ?_ }
      show blit s.mem (x % I.pageSize + f) size (fun _ => 0) y = 0
      by_cases hin : x % I.pageSize + f ≤ y ∧ y < x % I.pageSize + f + size
      · rw [blit_of_mem hin.1 hin.2]
      · rw [blit_of_not_mem hin, hg.zero hy]
    · show m.view (blit s.mem (x % I.pageSize + f) size fun _ => 0) v = _
      exact hg.models.owned.view_blit hx hv hf hsize

theorem allocate {size : Int} (hv : v < 2 ^ 64) (hsize : size ≤ 2 ^ 64)
    (hs : s.allocate h v size = .ok s') :
    Good s' ⟨Cyclic.fill m.map (page I v) (pages I size) fun i => (m.next + i) * I.pageSize, m.next + pages I size⟩ ∧
      s'.brkPoint = s.brkPoint ∧ s'.mem = s.mem := by
  obtain ⟨sp, hsp, rfl⟩ := of_map hs
  obtain ⟨h0, hsp⟩ := of_ensure hsp
  refine ⟨⟨hg.models.allocateLoop hv h0 (pages_le hsize) hsp, hg.listed.allocateLoop hsp, fun hy => ?_⟩, rfl, rfl⟩
  exact hg.zero ((mul_le_mul_right _ (le_add_right m.next _)).trans hy)

theorem allocate_page (hx : x < 2 ^ 64) (hs : s.allocate h (roundDown x I.pageSize) I.pageSize = .ok s') :
    Good s' (m.take (page I x)) ∧ s'.brkPoint = s.brkPoint ∧ s'.mem = s.mem := by
  have hone : pages I I.pageSize = 1 := by
    have hpos : (0 : Int) < I.pageSize := natCast_pos.2 I.pageSize_pos
    rw [pages, add_sub_assoc, add_comm, add_ediv_of_dvd_right (dvd_refl _),
      ediv_eq_zero_of_lt (by omega) (by omega), Int.ediv_self hpos.ne']
    rfl
  have hsize : (I.pageSize : Int) ≤ 2 ^ 64 := by
    have := Nat.pow_le_pow_right Nat.two_pos (I.log_lt.le.trans (by decide : 31 ≤ 64))
    exact_mod_cast this
  obtain ⟨hg', hrest⟩ := hg.allocate (pageAlign_lt hx) hsize hs
  have hN : 0 < I.numPages := Nat.two_pow_pos _
  rw [hone, page_pageAlign, Cyclic.fill_succ _ hN, add_zero] at hg'
  exact ⟨hg', hrest⟩

theorem brkClear {newBrk c : Nat} (hnew : newBrk + I.pageSize ≤ 2 ^ 64) (hx : x < newBrk)
    (hc : x % I.pageSize + c ≤ I.pageSize) (hmap : m.map (page I x) ≠ none)
    (hs : s.brkClear h alloc newBrk x = .ok s') :
    Good s' m ∧ s'.brkPoint = s.brkPoint ∧ (∀ v, x ≤ v → v < x + c → m.view s'.mem v = some 0) ∧
      ∀ v < x, m.view s'.mem v = m.view s.mem v := by
  have hpos := I.pageSize_pos
  have hmod : x % I.pageSize < I.pageSize := mod_lt _ hpos
  have hlog := I.log_lt
  have hlt : I.pageSize < 2 ^ 32 := Nat.pow_lt_pow_right Nat.one_lt_two (hlog.trans (by decide))
  have hx64 : x < 2 ^ 64 := by omega
  -- how much is left of the page
  obtain ⟨r, hr, hround⟩ : ∃ r, (x % I.pageSize = 0 ∧ r = 0 ∨ x % I.pageSize + r = I.pageSize ∧ x % I.pageSize ≠ 0) ∧
      roundUp x I.pageSize = x + r := by
    have he := roundUp_eq (k := I.logVMPageSize) (by omega) hx64
    have hle : x % I.pageSize ≤ x := mod_le _ _
    by_cases h0 : x % I.pageSize = 0
    · exact ⟨0, .inl ⟨h0, rfl⟩, he.trans (if_pos h0)⟩
    · refine ⟨I.pageSize - x % I.pageSize, .inr ⟨by omega, h0⟩, he.trans ((if_neg h0).trans ?_)⟩
      show (x - x % I.pageSize + I.pageSize) % 2 ^ 64 = _
      omega
  have hneed : (x + r + 2 ^ 64 - x) % 2 ^ 64 % 2 ^ 32 = r := by omega
  rw [Proc.brkClear, hround, hneed] at hs
  obtain ⟨s1, h1, hs⟩ := of_bind hs
  obtain ⟨s1', h1', hg1, hb1, hview1⟩ := hg.memsetBlob h alloc hx64 hmap (show x % I.pageSize + r ≤ _ by omega)
  cases h1.symm.trans h1'
  -- the first part is cleared, and nothing before it is changed
  have hfirst : ∀ v : Nat, x ≤ v → v < x + r → m.view s1.mem v = some 0 := fun v hv hv' => by
    rw [hview1 v (by omega), if_pos ⟨hv, hv'⟩]
  have hbelow : ∀ v : Nat, v < x → m.view s1.mem v = m.view s.mem v := fun v hv => by
    rw [hview1 v (by omega), if_neg (by omega)]
  have haligned : (x + r) % I.pageSize = 0 := by
    rcases hr with ⟨h0, rfl⟩ | ⟨he, -⟩
    · exact h0
    · rw [← mod_add_mod, he, mod_self]
  by_cases hnext : x + r < newBrk
  · rw [if_pos ⟨by omega, hnext⟩] at hs
    have hfresh : s1.space.Fresh (x + r) := by
      rcases hr with ⟨-, rfl⟩ | ⟨he, h0⟩
      · exact .inl ((hg1.models.map_ne_none hx64).1 hmap)
      · have hpos' : 0 < x + r := by omega
        refine hg1.fresh_of_ne ?_
        rw [pageAlign, haligned]
        exact hpos'.ne'
    have ht := hg1.translate (by omega) hfresh
    split at hs
    case h_1 p s2 he =>
      obtain ⟨hp, rfl⟩ := Prod.ext_iff.1 he
      have hmap2 : m.map (page I (x + r)) ≠ none := by
        intro hnone
        rw [hp, PageMap.translate, hnone] at ht
        cases ht
      have hsize : (I.pageSize + 2 ^ 32 - r) % 2 ^ 32 = I.pageSize - r := by omega
      rw [hsize] at hs
      obtain ⟨s3, h3, hg3, hb3, hview3⟩ := (hg1.lookup (x + r)).memsetBlob h alloc (by omega) hmap2
        (show (x + r) % I.pageSize + (I.pageSize - r) ≤ _ by rw [haligned]; omega)
      cases hs.symm.trans h3
      refine ⟨hg3, hb3.trans hb1, fun v hv hv' => ?_, fun v hv => ?_⟩
      · have hview := hview3 v (by omega)
        by_cases hin : x + r ≤ v
        · rw [hview, if_pos ⟨hin, by omega⟩]
        · rw [hview, if_neg (by omega)]
          exact hfirst v hv (by omega)
      · rw [hview3 v (by omega), if_neg (by omega)]
        exact hbelow v hv
    case h_2 s2 he =>
      obtain ⟨hp, rfl⟩ := Prod.ext_iff.1 he
      cases hs
      refine ⟨hg1.lookup _, hb1, fun v hv hv' => ?_, hbelow⟩
      rcases hr with ⟨-, rfl⟩ | ⟨he, -⟩
      · -- an aligned page that is there is translated
        rw [hp] at ht
        exact absurd (map_eq_none_iff.1 ht.symm) hmap
      · exact hfirst v hv (by omega)
  · rw [if_neg (fun hn => hnext hn.2)] at hs
    cases hs
    exact ⟨hg1, hb1, fun v hv hv' => hfirst v hv (by omega), hbelow⟩

theorem brkChunk {newBrk c : Nat} (hnew : newBrk + I.pageSize ≤ 2 ^ 64) (hx : x + c ≤ newBrk) (hc0 : 0 < c)
    (hc : x % I.pageSize + c ≤ I.pageSize) (hf : s.space.Fresh x) (hs : s.brkChunk h alloc newBrk x c = .ok s') :
    ∃ m', Good s' m' ∧ s'.brkPoint = s.brkPoint ∧ (∀ v, x ≤ v → v < x + c → m'.view s'.mem v = some 0) ∧
      ∀ v < x, m.view s.mem v ≠ none → m'.view s'.mem v = m.view s.mem v := by
  have hx64 : x < 2 ^ 64 := by omega
  have ht := hg.translate hx64 hf
  rw [Proc.brkChunk] at hs
  split at hs
  case h_1 s1 he =>
    obtain ⟨hp, rfl⟩ := Prod.ext_iff.1 he
    have hnone : m.map (page I x) = none := by
      rw [hp] at ht
      exact map_eq_none_iff.1 ht.symm
    obtain ⟨hg', hb, hmem⟩ := (hg.lookup x).allocate_page hx64 hs
    refine ⟨_, hg', hb, fun v hv hv' => ?_, fun v hv hsome => ?_⟩
    · obtain ⟨-, hpage⟩ := mod_add_of_lt (I := I) hv (by omega)
      rw [PageMap.view, PageMap.translate, hpage, PageMap.take_map, update_self, map_some, map_some,
        hmem]
      exact congrArg some (hg.zero (le_add_left _ _))
    · have hne : page I v ≠ page I x := by
        intro hpage
        rw [PageMap.view, PageMap.translate, hpage, hnone] at hsome
        exact hsome rfl
      rw [PageMap.view, PageMap.translate, PageMap.take_map, update_of_ne hne, hmem]
      rfl
  case h_2 p s1 he =>
    obtain ⟨hp, rfl⟩ := Prod.ext_iff.1 he
    have hmap : m.map (page I x) ≠ none := by
      intro hnone
      rw [hp, PageMap.translate, hnone] at ht
      cases ht
    obtain ⟨hg', hb, hzero, hbelow⟩ := (hg.lookup x).brkClear hnew (by omega) hc hmap hs
    exact ⟨m, hg', hb, hzero, fun v hv _ => hbelow v hv⟩

/-- The loop of `brkFunc`: the invariant holds up to the start of each chunk. -/
theorem brkFunc {newBrk b : Nat} (hb : s.brkPoint = b) (hgrow : b < newBrk) (hsize : newBrk - b < 2 ^ 32)
    (hnew : newBrk + I.pageSize ≤ 2 ^ 64) (hf : s.space.Fresh b) (hs : s.brkFunc h alloc newBrk = .ok s') :
    ∃ m', Good s' m' ∧ (∀ v, b ≤ v → v < newBrk → m'.view s'.mem v = some 0) ∧
      ∀ v < b, m.view s.mem v ≠ none → m'.view s'.mem v = m.view s.mem v := by
  have hpos := I.pageSize_pos
  rw [Proc.brkFunc, if_neg (show newBrk ≠ 0 by omega), hb, if_pos hgrow] at hs
  obtain ⟨s1, hloop, rfl⟩ := of_map hs
  have hend : b + (newBrk - b) = newBrk := by omega
  suffices hI : ∃ m', Good s1 m' ∧ s1.brkPoint = b ∧ (∀ v, b ≤ v → v < newBrk → m'.view s1.mem v = some 0) ∧
      (∀ v < b, m.view s.mem v ≠ none → m'.view s1.mem v = m.view s.mem v) ∧ (newBrk = b → s1 = s) by
    obtain ⟨m', hg', -, hzero, hbelow, -⟩ := hI
    exact ⟨m', ⟨hg'.models, hg'.listed, hg'.zero⟩, hzero, hbelow⟩
  have hrule := ChunkGenerator.loop_new (I.log_lt.trans (by decide)) hsize (by omega : b + (newBrk - b) < 2 ^ 64)
    (I := fun a t => ∃ m', Good t m' ∧ t.brkPoint = b ∧ (∀ v, b ≤ v → v < a → m'.view t.mem v = some 0) ∧
      (∀ v < b, m.view s.mem v ≠ none → m'.view t.mem v = m.view s.mem v) ∧ (a = b → t = s))
    ?_ ⟨m, hg, hb, fun v h1 h2 => absurd h2 (not_lt.2 h1), fun _ _ _ => rfl, fun _ => rfl⟩ hloop
  · rwa [hend] at hrule
  · rintro a c t t' hba haligned hc0 hac hc ⟨m1, hg1, hb1, hzero, hbelow, hfirst⟩ ht
    -- only the first chunk can be in the first page
    have hfresh : t.space.Fresh a := by
      by_cases hab : a = b
      · rw [hfirst hab, hab]
        exact hf
      · refine hg1.fresh_of_ne ?_
        have h0 := haligned.resolve_left hab
        have ha : 0 < a := by omega
        rw [pageAlign, Isa.pageSize, h0]
        exact ha.ne'
    obtain ⟨m2, hg2, hb2, hzero2, hbelow2⟩ := hg1.brkChunk hnew (hend ▸ hac) hc0 hc hfresh ht
    refine ⟨m2, hg2, hb2.trans hb1, fun v hv hv' => ?_, fun v hv hsome => ?_, fun he => by omega⟩
    · by_cases hva : v < a
      · rw [hbelow2 v hva (by rw [hzero v hv hva]; exact some_ne_none _), hzero v hv hva]
      · exact hzero2 v (not_lt.1 hva) hv'
    · have he := hbelow v hv hsome
      rw [hbelow2 v (by omega) (by rw [he]; exact hsome), he]

theorem write {y : UInt8} (hv : v < 2 ^ 64) (hf : s.space.Fresh v) (hs : s.write v y = .ok s') : Good s' m := by
  have ht := hg.translate hv hf
  rw [Proc.write] at hs
  split at hs
  case h_2 => cases hs
  case h_1 p s1 he =>
    obtain ⟨hp, rfl⟩ := Prod.ext_iff.1 he
    cases hs
    refine { hg.lookup v with zero := fun {z} hz => ?_ }
    show blit s.mem p 1 (fun _ => y) z = 0
    rw [blit_of_not_mem, hg.zero hz]
    rw [hp] at ht
    obtain ⟨f, hmap, rfl⟩ := map_eq_some_iff.1 ht.symm
    obtain ⟨j, hj, rfl⟩ := hg.models.owned.given hmap
    have hmod : v % I.pageSize < I.pageSize := mod_lt _ I.pageSize_pos
    have hle : (j + 1) * I.pageSize ≤ m.next * I.pageSize := mul_le_mul_right _ hj
    rw [succ_mul] at hle
    omega

end

end Good

/-! ## Runs -/

/-- The calls that `brkFunc` is written for: a growth that an `unsigned` counts, that ends before the last page, and,
like every write, that starts in a page which the list of the last pages does not show by mistake. -/
def Proc.Careful (s : Proc I) : Act → Prop
  | .allocate _ _ => True
  | .write vaddr _ => s.space.Fresh vaddr.toNat
  | .brk newBrk => s.brkPoint < newBrk.toNat →
    newBrk.toNat - s.brkPoint < 2 ^ 32 ∧ newBrk.toNat + I.pageSize ≤ 2 ^ 64 ∧ s.space.Fresh s.brkPoint

theorem Good.new {b : Addr} : Good (.new I b) .empty where
  models := .new
  listed k hk hc :=
    absurd (by simp [Proc.new, AddressSpace.new, List.replicate, List.lookup_cons, beq_eq_false_iff_ne.2 hk]) hc
  zero _ := rfl

/-- A careful call keeps the pages in order, and the new ones zero. -/
theorem Good.step (hg : Good s m) {a : Act} (hc : s.Careful a) (hs : s.step h alloc a = .ok s') : ∃ m', Good s' m' := by
  cases a with
  | allocate vaddr size => exact ⟨_, (hg.allocate vaddr.toNat_lt (size.toInt_lt.le.trans (by decide)) hs).1⟩
  | write vaddr x => exact ⟨m, hg.write vaddr.toNat_lt hc hs⟩
  | brk newBrk =>
    by_cases hgrow : s.brkPoint < newBrk.toNat
    · obtain ⟨hsize, hnew, hf⟩ := hc hgrow
      obtain ⟨m', hg', -⟩ := hg.brkFunc rfl hgrow hsize hnew hf hs
      exact ⟨m', hg'⟩
    · have hs : s.brkFunc h alloc newBrk.toNat = .ok s' := hs
      rw [Proc.brkFunc] at hs
      split at hs
      · cases hs
        exact ⟨m, hg⟩
      · cases hs
        exact ⟨m, hg.models, hg.listed, hg.zero⟩

/-- After any calls and writes, a growth of the data segment maps and clears its new part, and the mapped bytes below it
keep their values. -/
theorem brk_grows {b : Addr} {as : List Act} {newBrk : UInt64}
    (hrun : Run (fun x a y => x.Careful a ∧ x.step h alloc a = .ok y) (.new I b) as s)
    (hgrow : s.brkPoint < newBrk.toNat)
    (hc : s.Careful (.brk newBrk)) (hs : s.brkFunc h alloc newBrk.toNat = .ok s') :
    (∀ v, s.brkPoint ≤ v → v < newBrk.toNat → s'.space.pTable (pageAlign I v) ≠ none ∧ s'.read v = some 0) ∧
      ∀ v < s.brkPoint, s.space.pTable (pageAlign I v) ≠ none → s'.read v = s.read v ∧ s.read v ≠ none := by
  obtain ⟨m, hg⟩ : ∃ m, Good s m := 
    hrun.invariant (I := fun x => ∃ m, Good x m) ⟨_, .new⟩ fun ⟨_, hg⟩ hs => hg.step hs.1 hs.2
  obtain ⟨hsize, hnew, hf⟩ := hc hgrow
  obtain ⟨m', hg', hzero, hbelow⟩ := hg.brkFunc rfl hgrow hsize hnew hf hs
  have h64 : ∀ {v}, v < newBrk.toNat → v < 2 ^ 64 := fun hv => hv.trans newBrk.toNat_lt
  have hmapped : ∀ {v}, v < newBrk.toNat → m'.view s'.mem v ≠ none → s'.space.pTable (pageAlign I v) ≠ none := by
    intro v hv hview
    refine (hg'.models.map_ne_none (h64 hv)).1 fun hnone => hview ?_
    rw [PageMap.view, PageMap.translate, hnone]
    rfl
  constructor
  · intro v hv hv'
    have hview := hzero v hv hv'
    have ht := hmapped hv' (by rw [hview]; exact some_ne_none _)
    exact ⟨ht, by rw [hg'.read (h64 hv') (.inl ht), hview]⟩
  · intro v hv ht
    have hv' := hv.trans hgrow
    have hread := hg.read (h64 hv') (.inl ht)
    have hsome : m.view s.mem v ≠ none := by
      have hmap := (hg.models.map_ne_none (h64 hv')).2 ht
      rwa [PageMap.view, PageMap.translate, Ne, map_eq_none_iff, map_eq_none_iff]
    have he := hbelow v hv hsome
    rw [hg'.read (h64 hv') (.inl (hmapped hv' (by rw [he]; exact hsome))), hread, he]
    exact ⟨rfl, hsome⟩

instance decidableCareful (s : Proc I) : (a : Act) → Decidable (s.Careful a)
  | .allocate .. => .isTrue trivial
  | .write .. => inferInstanceAs (Decidable (_ ∨ _))
  | .brk _ => inferInstanceAs (Decidable (_ → _ ∧ _ ∧ (_ ∨ _)))

/-- A process that grows its data segment over the end of its first page, writes there, and lets it grow again. -/
theorem brk_grows_twoPages : ∃ s s' : Proc mips,
    Run (fun x a y => x.Careful a ∧ x.step smallHost .NextPage a = .ok y) (.new mips 0x3fff)
      [.brk 0x4001, .write 0x3fff 7] s ∧
    s.brkFunc smallHost .NextPage 0x6001 = .ok s' ∧ s'.read 0x6000 = some 0 ∧ s'.read 0x3fff = some 7 := by
  obtain ⟨s, hrun, hb, hread, ht, hc, hok⟩ := Run.exists_of_check (fun (x : Proc mips) a => do
      ensure .fatal (x.Careful a)
      x.step smallHost .NextPage a) of_ensure (.new mips 0x3fff) [.brk 0x4001, .write 0x3fff 7]
    (fun s => s.brkPoint = 0x4001 ∧ s.read 0x3fff = some 7 ∧ s.space.pTable (pageAlign mips 0x3fff) ≠ none ∧
      s.Careful (.brk 0x6001) ∧ (s.brkFunc smallHost .NextPage 0x6001).isOk) (by decide +kernel)
  match hs : s.brkFunc smallHost .NextPage 0x6001 with
  | .error _ =>
    rw [hs] at hok
    cases hok
  | .ok s' =>
    have hgrow : s.brkPoint < (0x6001 : UInt64).toNat := by rw [hb]; decide
    obtain ⟨hzero, hkeep⟩ := brk_grows hrun hgrow hc hs
    rw [hb] at hzero hkeep
    exact ⟨s, s', hrun, hs, (hzero 0x6000 (by decide) (by decide)).2, (hkeep 0x3fff (by decide) ht).1.trans hread⟩

/-- A growth by all of 4 GiB maps nothing, a data segment that starts at address zero is not mapped, and the last page
of the address space keeps its old bytes. -/
theorem brk_leaves :
    (∃ s' : Proc mips, Run (fun x a y => x.step smallHost .NextPage a = .ok y) (.new mips 0x2000)
      [.brk 0x100002000] s' ∧
      (s'.space.pTable 0x2000).isNone) ∧
    (∃ s' : Proc mips, Run (fun x a y => x.step smallHost .NextPage a = .ok y) (.new mips 0) [.brk 0x2000] s' ∧
      (s'.space.pTable 0).isNone) ∧
    ∃ s' : Proc mips, Run (fun x a y => x.step smallHost .NextPage a = .ok y) (.new mips 0xffffffffffffe000)
        [.brk 0xffffffffffffffff, .write 0xffffffffffffe000 1, .brk 0xffffffffffffe000, .brk 0xffffffffffffffff] s' ∧
      (s'.read 0xffffffffffffe000 == some 1) :=
  ⟨Run.exists_of_check (Proc.step smallHost .NextPage) id _ _ _ (by decide +kernel),
    Run.exists_of_check (Proc.step smallHost .NextPage) id _ _ _ (by decide +kernel),
    Run.exists_of_check (Proc.step smallHost .NextPage) id _ _ _ (by decide +kernel)⟩

end

end M5.Mem
