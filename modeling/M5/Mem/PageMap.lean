import M5.Lib.Cyclic
import M5.Mem.PageTable

/-!
# What a page table is for

A page map gives some pages of the address space a physical page each. Pages are numbered round the address space, and
each call of the page table is one operation on a range of pages. `Models` relates the page table to it.
-/

namespace M5.Mem

open M5.Lib AddressSpace Function Cyclic Nat Option Int

variable {I : Isa}

/-! ## Page numbers -/

def Isa.numPages (I : Isa) : Nat := 2 ^ (64 - I.logVMPageSize)

instance : NeZero I.numPages := ⟨(Nat.two_pow_pos _).ne'⟩

theorem Isa.pageSize_pos : 0 < I.pageSize := Nat.two_pow_pos _

theorem Isa.numPages_mul : I.numPages * I.pageSize = 2 ^ 64 := by
  have h := I.log_lt
  rw [numPages, pageSize, ← Nat.pow_add, Nat.sub_add_cancel (by omega)]

theorem Isa.pageSize_dvd : I.pageSize ∣ 2 ^ 31 := pow_dvd_pow 2 I.log_lt.le

def page (I : Isa) (v : Addr) : ZMod I.numPages := (v / I.pageSize : Nat)

variable {v : Addr}

theorem page_nextPage (h : pageOffset I v = 0) : page I (nextPage I v) = page I v + 1 := by
  have hv : v = v / I.pageSize * I.pageSize := (Nat.div_mul_cancel (dvd_of_mod_eq_zero h)).symm
  rw [page, nextPage, ← I.numPages_mul]
  nth_rewrite 1 [hv]
  rw [← succ_mul, mul_mod_mul_right, Nat.mul_div_cancel _ I.pageSize_pos, ZMod.natCast_mod]
  exact cast_succ _

theorem pageOffset_nextPage (h : pageOffset I v = 0) : pageOffset I (nextPage I v) = 0 := by
  have hd : I.pageSize ∣ 2 ^ 64 := ⟨I.numPages, by rw [mul_comm, I.numPages_mul]⟩
  exact mod_eq_zero_of_dvd ((dvd_mod_iff hd).2 (dvd_add (dvd_of_mod_eq_zero h) (dvd_refl _)))

theorem nextPage_lt : nextPage I v < 2 ^ 64 := mod_lt _ (Nat.two_pow_pos 64)

theorem page_inj {w : Addr} (hv : v < 2 ^ 64) (hw : w < 2 ^ 64) (hv0 : pageOffset I v = 0) (hw0 : pageOffset I w = 0)
    (h : page I v = page I w) : v = w := by
  have hlt : ∀ {u}, u < 2 ^ 64 → u / I.pageSize < I.numPages := fun hu =>
    Nat.div_lt_of_lt_mul (by rw [Nat.mul_comm, I.numPages_mul]; exact hu)
  have he := (ZMod.natCast_eq_natCast_iff' _ _ _).1 h
  rw [mod_eq_of_lt (hlt hv), mod_eq_of_lt (hlt hw)] at he
  rw [← Nat.div_mul_cancel (dvd_of_mod_eq_zero hv0), he, Nat.div_mul_cancel (dvd_of_mod_eq_zero hw0)]

theorem pageOffset_pageAlign (v : Addr) : pageOffset I (pageAlign I v) = 0 :=
  mod_eq_zero_of_dvd (dvd_sub_mod v)

theorem page_pageAlign (v : Addr) : page I (pageAlign I v) = page I v := by
  rw [page, page, pageAlign, ← div_mul_self_eq_mod_sub_self, Nat.mul_div_cancel _ I.pageSize_pos]

theorem pageAlign_lt (h : v < 2 ^ 64) : pageAlign I v < 2 ^ 64 := (sub_le _ _).trans_lt h

theorem pages_le {size : Int} (h : size ≤ 2 ^ 64) : pages I size ≤ I.numPages := by
  have hmul : (I.numPages : Int) * I.pageSize = 2 ^ 64 := mod_cast I.numPages_mul
  have hlt : (size + I.pageSize - 1) / I.pageSize < (I.numPages : Int) + 1 := by
    refine Int.ediv_lt_of_lt_mul (mod_cast I.pageSize_pos) ?_
    rw [Int.add_mul]
    omega
  rw [pages]
  omega

/-! ## Page maps -/

/-- Some pages have a physical page, which the system has given out before its page number `next`. -/
structure PageMap (I : Isa) where
  map : ZMod I.numPages → Option Addr
  next : Nat

namespace PageMap

def empty : PageMap I := ⟨fun _ => none, 0⟩

variable (m : PageMap I) (p : ZMod I.numPages)

/-- What a call is for. -/
def step : Call → PageMap I
  | .allocate vaddr size =>
    let n := pages I size.toInt
    ⟨fill m.map (page I vaddr.toNat) n fun i => (m.next + i) * I.pageSize, m.next + n⟩
  | .remap vaddr size newVaddr =>
    { m with map := move m.map (page I vaddr.toNat) (pages I size.toInt) (page I newVaddr.toNat) }
  | .deallocate vaddr size => { m with map := clear m.map (page I vaddr.toNat) (pages I size.toInt) }
  | .lookup _ | .translate _ | .translateReq _ _ => m
  | .newPage => { m with next := m.next + 1 }

def take : PageMap I :=
  ⟨update m.map p (some (m.next * I.pageSize)), m.next + 1⟩

def drop : PageMap I := { m with map := update m.map p none }

/-- The physical page of `p` goes to `q`. -/
def carry (q : ZMod I.numPages) : PageMap I :=
  { m with map := update (update m.map q (m.map p)) p none }

variable {m : PageMap I} {p : ZMod I.numPages}

theorem take_map :
    (m.take p).map = update m.map p (some (m.next * I.pageSize)) := rfl

/-- What calls are for, from the start. -/
def after (I : Isa) (cs : List Call) : PageMap I := cs.foldl step empty

def translate (m : PageMap I) (v : Addr) : Option Addr := (m.map (page I v)).map (v % I.pageSize + ·)

end PageMap

/-- A range is not moved to a place that starts within it. -/
def Call.Apart (I : Isa) : Call → Prop
  | .remap vaddr size newVaddr => ¬ Within (page I vaddr.toNat) (pages I size.toInt) (page I newVaddr.toNat)
  | _ => True

instance : DecidablePred (Call.Apart I)
  | .remap vaddr size newVaddr =>
    inferInstanceAs (Decidable (¬ Within (page I vaddr.toNat) (pages I size.toInt) (page I newVaddr.toNat)))
  | .allocate _ _ | .deallocate _ _ | .lookup _ | .translate _ | .translateReq _ _ | .newPage => .isTrue trivial

/-- No two pages have the same physical page, and all physical pages have been given out. -/
structure PageMap.Owned (m : PageMap I) : Prop where
  given : ∀ {p f}, m.map p = some f → ∃ j < m.next, f = j * I.pageSize
  inj : ∀ {p q f}, m.map p = some f → m.map q = some f → p = q

namespace PageMap.Owned

variable {m : PageMap I} {p q r : ZMod I.numPages} {f : Addr}

theorem of_update {M : ZMod I.numPages → Option Addr} {o : Option Addr} (h : update M p o q = some f) :
    q = p ∧ o = some f ∨ q ≠ p ∧ M q = some f := by
  by_cases he : q = p
  · subst he
    rw [update_self] at h
    exact .inl ⟨rfl, h⟩
  · rw [update_of_ne he] at h
    exact .inr ⟨he, h⟩

theorem take_cases (h : (m.take p).map q = some f) : q = p ∧ f = m.next * I.pageSize ∨ q ≠ p ∧ m.map q = some f :=
  (of_update h).imp_left fun h => ⟨h.1, (some.inj h.2).symm⟩

theorem of_drop (h : (m.drop p).map q = some f) : m.map q = some f := by
  rcases of_update h with ⟨-, h⟩ | ⟨-, h⟩
  · cases h
  · exact h

theorem carry_cases (h : (m.carry p q).map r = some f) :
    r ≠ p ∧ (r = q ∧ m.map p = some f ∨ r ≠ q ∧ m.map r = some f) := by
  rcases of_update h with ⟨-, h⟩ | ⟨hp, h⟩
  · cases h
  · exact ⟨hp, of_update h⟩

theorem take (h : m.Owned) (p : ZMod I.numPages) : (m.take p).Owned := by
  have hnew : ∀ {q}, m.map q ≠ some (m.next * I.pageSize) := by
    intro q hq
    obtain ⟨j, hj, he⟩ := h.given hq
    exact hj.ne' (eq_of_mul_eq_mul_right I.pageSize_pos he)
  constructor
  · intro q f hq
    rcases take_cases hq with ⟨-, rfl⟩ | ⟨-, hq⟩
    · exact ⟨m.next, lt_succ_self _, rfl⟩
    · obtain ⟨j, hj, hf⟩ := h.given hq
      exact ⟨j, hj.trans (lt_succ_self _), hf⟩
  · intro q r f hq hr
    rcases take_cases hq with ⟨rfl, rfl⟩ | ⟨-, hmq⟩
    · rcases take_cases hr with ⟨rfl, -⟩ | ⟨-, hmr⟩
      · rfl
      · exact absurd hmr hnew
    · rcases take_cases hr with ⟨rfl, rfl⟩ | ⟨-, hmr⟩
      · exact absurd hmq hnew
      · exact h.inj hmq hmr

theorem drop (h : m.Owned) (p : ZMod I.numPages) : (m.drop p).Owned :=
  ⟨fun hq => h.given (of_drop hq), fun hq hr => h.inj (of_drop hq) (of_drop hr)⟩

theorem carry (h : m.Owned) (p q : ZMod I.numPages) : (m.carry p q).Owned := by
  constructor
  · intro r f hr
    rcases (carry_cases hr).2 with ⟨-, hm⟩ | ⟨-, hm⟩ <;> exact h.given hm
  · intro r r' f hr hr'
    obtain ⟨hne, hr⟩ := carry_cases hr
    obtain ⟨hne', hr'⟩ := carry_cases hr'
    rcases hr with ⟨hq, hm⟩ | ⟨-, hm⟩
    · rcases hr' with ⟨hq', -⟩ | ⟨-, hm'⟩
      · exact hq.trans hq'.symm
      · exact absurd (h.inj hm' hm) hne'
    · rcases hr' with ⟨-, hm'⟩ | ⟨-, hm'⟩
      · exact absurd (h.inj hm hm') hne
      · exact h.inj hm hm'

theorem skip (h : m.Owned) : Owned { m with next := m.next + 1 } := by
  refine ⟨fun hq => ?_, h.inj⟩
  obtain ⟨j, hj, hf⟩ := h.given hq
  exact ⟨j, hj.trans (lt_succ_self _), hf⟩

end PageMap.Owned

/-! ## The page table models the page map -/

/-- The table maps the start of each page as the map does the page. -/
def Maps (T : Addr → Option I.TlbEntry) (M : ZMod I.numPages → Option Addr) : Prop :=
  ∀ ⦃v⦄, v < 2 ^ 64 → pageOffset I v = 0 → (T v).map I.pageStart = M (page I v)

theorem Maps.replace {T : Addr → Option I.TlbEntry} {M : ZMod I.numPages → Option Addr} (h : Maps T M)
    (hv : v < 2 ^ 64) (hv0 : pageOffset I v = 0) (o : Option I.TlbEntry) :
    Maps (update T v o) (update M (page I v) (o.map I.pageStart)) := by
  intro w hw hw0
  by_cases he : w = v
  · rw [he, update_self, update_self]
  · rw [update_of_ne he, update_of_ne fun hp => he (page_inj hw hv hw0 hv0 hp)]
    exact h hw hw0

structure Models (s : AddressSpace I) (m : PageMap I) : Prop where
  table : Maps s.pTable m.map
  cache : Lookaside.Agrees s.pTableCache s.pTable
  next : s.pagePtr = m.next
  next_le : m.next * I.pageSize ≤ 2 ^ 31
  owned : m.Owned

namespace Models

variable {h : Host} {s s' : AddressSpace I} {m : PageMap I} {v w : Addr} {n : Nat}

theorem new : Models (.new I) .empty where
  table _ _ _ := rfl
  cache _ _ _ hm := nomatch hm
  next := rfl
  next_le := by rw [PageMap.empty, zero_mul]; exact zero_le _
  owned := { given := (fun h => nomatch h), inj := (fun h => nomatch h) }

theorem toNat_bmod {x : Nat} (hx : x < 2 ^ 31) : ((x : Int).bmod (2 ^ 32) % 2 ^ 64).toNat = x := by
  have hb : (x : Int).bmod (2 ^ 32) = x := bmod_eq_of_le (by omega) (by omega)
  omega

section

variable (hm : Models s m)

include hm

theorem newPage {a : Addr} (hs : s.newPage h = .ok (a, s')) :
    a = m.next * I.pageSize ∧ s' = { s with pagePtr := s.pagePtr + 1 } ∧ (m.next + 1) * I.pageSize ≤ 2 ^ 31 := by
  obtain ⟨hlt, hs⟩ := of_ensure hs
  cases hs
  have hcast : s.pagePtr * I.pageSize = ((m.next * I.pageSize : Nat) : Int) := by rw [hm.next, natCast_mul]
  have hsize := h.size_le
  have hle := hm.next_le
  rw [hcast] at hlt ⊢
  rcases lt_or_ge (m.next * I.pageSize) (2 ^ 31) with hlow | hhigh
  · refine ⟨toNat_bmod hlow, rfl, ?_⟩
    -- both are multiples of the size of a page
    obtain ⟨k, hk⟩ := I.pageSize_dvd
    rw [hk, mul_comm] at hlow ⊢
    exact Nat.mul_le_mul_left _ (Nat.lt_of_mul_lt_mul_left hlow)
  · have he : m.next * I.pageSize = 2 ^ 31 := le_antisymm hle hhigh
    rw [he] at hlt
    have hv : (((2 ^ 31 : Nat) : Int).bmod (2 ^ 32) % 2 ^ 64).toNat = 2 ^ 64 - 2 ^ 31 := by decide
    omega

section

variable (hv : v < 2 ^ 64) (hv0 : pageOffset I v = 0)

include hv hv0

theorem allocatePage (hs : s.allocatePage h v = .ok s') :
    Models s' (m.take (page I v)) := by
  obtain ⟨-, hs⟩ := of_ensure hs
  obtain ⟨⟨a, s1⟩, h1, hs⟩ := of_bind hs
  cases hs
  obtain ⟨rfl, rfl, hle⟩ := hm.newPage h1
  refine ⟨?_, hm.cache.set, ?_, hle, hm.owned.take _⟩
  · have ht := hm.table.replace hv hv0 (some (I.entry h.pid v (m.next * I.pageSize)))
    rwa [map_some, I.pageStart_entry] at ht
  · show s.pagePtr + 1 = ((m.next + 1 : Nat) : Int)
    rw [hm.next, natCast_succ]

theorem erase : Models (s.erase v) (m.drop (page I v)) :=
  ⟨hm.table.replace hv hv0 none, hm.cache.erase, hm.next, hm.next_le, hm.owned.drop _⟩

theorem remapPage (hw : w < 2 ^ 64)
    (hw0 : pageOffset I w = 0) (hne : v ≠ w) (hs : s.remapPage v w = .ok s') :
    Models s' (m.carry (page I v) (page I w)) := by
  obtain ⟨hsome, hs⟩ := of_ensure hs
  obtain ⟨e, he⟩ := isSome_iff_exists.1 hsome
  obtain ⟨e', he', rfl⟩ := of_map hs
  have hf : m.map (page I v) = some (I.pageStart e) := by rw [← hm.table hv hv0, he, map_some]
  rw [he, getD_some] at he' ⊢
  -- the entry is read again after the old one is erased
  have hread : (((s.set w e).erase v).pTable w).getD I.blank = e := by
    show ((update (update s.pTable w (some e)) v none) w).getD I.blank = e
    rw [update_of_ne hne.symm, update_self, getD_some]
  rw [hread] at he'
  have hT : update (update (update s.pTable w (some e)) v none) w (some e') =
      update (update s.pTable v none) w (some e') := by
    rw [update_comm hne.symm, update_idem]
  have htable := (hm.table.replace hw hw0 (some e')).replace hv hv0 none
  rw [map_some, I.pageStart_updateVaddr he', ← hf, update_comm hne.symm] at htable
  refine ⟨?_, ?_, hm.next, hm.next_le, hm.owned.carry _ _⟩
  · show Maps (update (update (update s.pTable w (some e)) v none) w (some e')) _
    rw [hT]
    exact htable
  · show Lookaside.Agrees _ (update (update (update s.pTable w (some e)) v none) w (some e'))
    rw [hT]
    exact hm.cache.erase.set

/-! ### Ranges of pages -/

theorem allocateLoop (hn : n ≤ I.numPages)
    (hs : AddressSpace.allocateLoop h n s v = .ok s') :
    Models s' ⟨fill m.map (page I v) n fun i => (m.next + i) * I.pageSize, m.next + n⟩ := by
  induction n generalizing s v m with
  | zero =>
    cases hs
    exact hm
  | succ n ih =>
    obtain ⟨s1, h1, hs⟩ := of_bind hs
    have hm' := ih (hm.allocatePage hv hv0 h1) nextPage_lt (pageOffset_nextPage hv0) (le_of_succ_le hn) hs
    rw [page_nextPage hv0] at hm'
    rw [fill_succ _ hn]
    simpa only [PageMap.take, add_assoc, add_comm 1, add_zero] using hm'

theorem remapLoop (hw : w < 2 ^ 64)
    (hw0 : pageOffset I w = 0) (hn : n ≤ I.numPages) (hfar : ¬ Within (page I v) n (page I w))
    (hs : AddressSpace.remapLoop n s v w = .ok s') :
    Models s' { m with map := move m.map (page I v) n (page I w) } := by
  induction n generalizing s v w m with
  | zero =>
    cases hs
    exact hm
  | succ n ih =>
    obtain ⟨s1, h1, hs⟩ := of_bind hs
    have hne : v ≠ w := by
      rintro rfl
      exact hfar (within_self (succ_pos n))
    have hdist : page I w - page I v = page I (nextPage I w) - page I (nextPage I v) := by
      rw [page_nextPage hv0, page_nextPage hw0, add_sub_add_right_eq_sub]
    have hfar' : ¬ Within (page I (nextPage I v)) n (page I (nextPage I w)) := by
      rw [Within, ← hdist]
      exact fun hlt => hfar (hlt.trans (lt_succ_self n))
    have hm' := ih (hm.remapPage hv hv0 hw hw0 hne h1) nextPage_lt (pageOffset_nextPage hv0) nextPage_lt
      (pageOffset_nextPage hw0) (le_of_succ_le hn) hfar' hs
    rw [page_nextPage hv0, page_nextPage hw0] at hm'
    rw [move_succ hn (not_lt.1 hfar)]
    exact hm'

theorem deallocateLoop (hn : n ≤ I.numPages)
    (hs : AddressSpace.deallocateLoop n s v = .ok s') :
    Models s' { m with map := clear m.map (page I v) n } := by
  induction n generalizing s v m with
  | zero =>
    cases hs
    exact hm
  | succ n ih =>
    obtain ⟨s1, h1, hs⟩ := of_bind hs
    obtain ⟨-, rfl⟩ := of_check h1
    have hm' := ih (hm.erase hv hv0) nextPage_lt (pageOffset_nextPage hv0) (le_of_succ_le hn) hs
    rw [page_nextPage hv0] at hm'
    rw [clear_succ hn]
    exact hm'

end

/-! ### Lookups -/

theorem lookup (v : Addr) : Models (s.lookup v).2 m := by
  rw [AddressSpace.lookup]
  split
  · exact hm
  · split
    · exact hm
    · exact { hm with cache := hm.cache.push ‹_› }

theorem translate (hv : v < 2 ^ 64) :
    (s.translate v).1 = m.translate v ↔ m.map (page I v) ≠ none ∨ s.pTableCache.lookup (pageAlign I v) = none := by
  have htable := hm.table (pageAlign_lt hv) (pageOffset_pageAlign v)
  rw [page_pageAlign] at htable
  have hfound : (s.lookup v).1 = (s.pTableCache.lookup (pageAlign I v)).or (s.pTable (pageAlign I v)) := by
    rw [AddressSpace.lookup]
    cases s.pTableCache.lookup (pageAlign I v) with
    | some e => rfl
    | none => cases s.pTable (pageAlign I v) <;> rfl
  show ((s.lookup v).1.map fun e => (pageOffset I v + I.pageStart e) % 2 ^ 64) = _ ↔ _
  rw [hfound, PageMap.translate, ← htable]
  cases ht : s.pTable (pageAlign I v) with
  | none =>
    cases s.pTableCache.lookup (pageAlign I v) <;> simp
  | some e =>
    -- the sum does not leave the physical memory that was given out
    have hf : m.map (page I v) = some (I.pageStart e) := by rw [← htable, ht, map_some]
    obtain ⟨j, hj, he⟩ := hm.owned.given hf
    have hmod : v % I.pageSize < I.pageSize := mod_lt _ I.pageSize_pos
    have hle : (j + 1) * I.pageSize ≤ 2 ^ 31 := (mul_le_mul_right _ hj).trans hm.next_le
    rw [succ_mul, ← he] at hle
    have hsum : (pageOffset I v + I.pageStart e) % 2 ^ 64 = v % I.pageSize + I.pageStart e := by
      refine mod_eq_of_lt ?_
      calc v % I.pageSize + I.pageStart e < I.pageSize + I.pageStart e := Nat.add_lt_add_right hmod _
        _ ≤ 2 ^ 31 := Nat.add_comm _ _ ▸ hle
        _ < 2 ^ 64 := by decide
    have hc : (s.pTableCache.lookup (pageAlign I v)).or (some e) = some e := by
      cases hc : s.pTableCache.lookup (pageAlign I v) with
      | none => rfl
      | some e' => rw [hm.cache ht hc]; rfl
    simp only [hc, map_some, hsum, ne_eq, reduceCtorEq, not_false_eq_true, true_or]

/-! ### Calls -/

theorem step {c : Call} (hc : c.Apart I) (hs : s.step h c = .ok s') : Models s' (m.step c) := by
  have hsize : ∀ size : Int64, pages I size.toInt ≤ I.numPages := fun size =>
    pages_le (size.toInt_lt.le.trans (by decide))
  cases c with
  | allocate vaddr size =>
    obtain ⟨h0, hs⟩ := of_ensure hs
    exact hm.allocateLoop vaddr.toNat_lt h0 (hsize size) hs
  | remap vaddr size newVaddr =>
    obtain ⟨h0, hs⟩ := of_ensure hs
    obtain ⟨h0', hs⟩ := of_ensure hs
    exact hm.remapLoop vaddr.toNat_lt h0 newVaddr.toNat_lt h0' (hsize size) hc hs
  | deallocate vaddr size =>
    obtain ⟨h0, hs⟩ := of_ensure hs
    exact hm.deallocateLoop vaddr.toNat_lt h0 (hsize size) hs
  | lookup vaddr =>
    cases hs
    exact hm.lookup _
  | translate vaddr =>
    cases hs
    exact hm.lookup _
  | translateReq vaddr size =>
    rw [AddressSpace.step] at hs
    match hr : s.translateReq vaddr.toNat size with
    | .error e => rw [hr] at hs; cases hs
    | .ok (o, s1) =>
      rw [hr] at hs
      cases hs
      obtain ⟨-, hr⟩ := of_ensure hr
      have hlookup := hm.lookup vaddr.toNat
      split at hr
      case h_1 ht =>
        cases hr
        exact (congrArg Prod.snd ht) ▸ hlookup
      case h_2 ht =>
        obtain ⟨-, hr⟩ := of_ensure hr
        cases hr
        exact (congrArg Prod.snd ht) ▸ hlookup
  | newPage =>
    rw [AddressSpace.step] at hs
    match hr : s.newPage h with
    | .error e => rw [hr] at hs; cases hs
    | .ok (a, s1) =>
      rw [hr] at hs
      cases hs
      obtain ⟨-, rfl, hle⟩ := hm.newPage hr
      refine ⟨hm.table, hm.cache, ?_, hle, hm.owned.skip⟩
      show s.pagePtr + 1 = ((m.next + 1 : Nat) : Int)
      rw [hm.next, natCast_succ]

end

end Models

/-! ## Runs -/

variable {h : Host} {cs : List Call} {s : AddressSpace I}

/-- After any calls that move ranges apart, the table has the mappings that the calls are for, no two pages share a
physical page, and an address is translated accordingly if and only if its page is mapped or not in the list of the last
pages. -/
theorem translate_iff (hrun : Run (fun x c y => x.step h c = .ok y) (.new I) cs s) (hc : ∀ c ∈ cs, c.Apart I) :
    (∀ v : UInt64, (s.pTable (pageAlign I v.toNat)).map I.pageStart = (PageMap.after I cs).map (page I v.toNat)) ∧
    (∀ v : UInt64, (s.translate v.toNat).1 = (PageMap.after I cs).translate v.toNat ↔
      (PageMap.after I cs).map (page I v.toNat) ≠ none ∨ s.pTableCache.lookup (pageAlign I v.toNat) = none) ∧
    ∀ p q f, (PageMap.after I cs).map p = some f → (PageMap.after I cs).map q = some f → p = q := by
  have hm : Models s (.after I cs) := (hrun.restrict hc).refines .new fun hm hs => hm.step hs.1 hs.2
  refine ⟨fun v => ?_, fun v => hm.translate v.toNat_lt, fun p q f hp hq => hm.owned.inj hp hq⟩
  rw [hm.table (pageAlign_lt v.toNat_lt) (pageOffset_pageAlign _), page_pageAlign]

/-- The MIPS architecture: an entry is the start of the physical page. -/
def mips : Isa where
  TlbEntry := Addr
  entry _ _ paddr := paddr
  blank := 0
  updateVaddr e _ := .ok e
  pageStart e := e
  logVMPageSize := 13
  log_lt := by decide
  pageStart_entry _ _ _ := rfl
  pageStart_updateVaddr h := (Except.ok.inj h).symm

/-- A process on a system with 64 KiB of memory. -/
def smallHost : Host where
  pid := 100
  physmemSize := 2 ^ 16
  size_le := by decide

def moved : List Call := [.allocate 0x2000 0x2000, .remap 0x2000 0x2000 0x6000]

theorem translate_iff_moved : ∃ s : AddressSpace mips, Run (fun x c y => x.step smallHost c = .ok y)
    (.new mips) moved s ∧
    (s.translate 0x6004).1 = (PageMap.after mips moved).translate 0x6004 := by
  obtain ⟨s, hrun, hs⟩ := Run.exists_of_check (step smallHost) id (.new mips) moved
    (fun s => (s.pTable 0x6000).isSome) (by decide +kernel)
  have hc : ∀ c ∈ moved, c.Apart mips := by decide +kernel
  obtain ⟨htable, htrans, -⟩ := translate_iff hrun hc
  refine ⟨s, hrun, (htrans 0x6004).2 (.inl fun hnone => ?_)⟩
  have h6 : (s.pTable 0x6000).map mips.pageStart = none := (htable 0x6004).trans hnone
  rw [map_eq_none_iff.1 h6] at hs
  cases hs

/-- A page that is mapped and unmapped is still translated, and so is the first page, which was never mapped. In a range
that is moved to its own second page, that page loses its physical page. -/
theorem translate_stale :
    (∃ s : AddressSpace mips, Run (fun x c y => x.step smallHost c = .ok y) (.new mips)
        [.allocate 0x2000 0x2000, .deallocate 0x2000 0x2000] s ∧ (s.translate 0x2004).1 = some 4 ∧
      (PageMap.after mips [.allocate 0x2000 0x2000, .deallocate 0x2000 0x2000]).translate 0x2004 = none) ∧
    (((new mips).translate 4).1 = some 4 ∧ (PageMap.after mips []).translate 4 = none) ∧
    ∃ s : AddressSpace mips, Run (fun x c y => x.step smallHost c = .ok y) (.new mips)
        [.allocate 0x2000 0x4000, .remap 0x2000 0x4000 0x4000] s ∧ (s.translate 0x6004).1 = some 4 ∧
      (PageMap.after mips [.allocate 0x2000 0x4000, .remap 0x2000 0x4000 0x4000]).translate 0x6004 = some 0x2004 := by
  refine ⟨?_, ⟨by decide +kernel, rfl⟩, ?_⟩
  · exact Run.exists_of_check (step smallHost) id _ _ _ (by decide +kernel)
  · exact Run.exists_of_check (step smallHost) id _ _ _ (by decide +kernel)

end M5.Mem
