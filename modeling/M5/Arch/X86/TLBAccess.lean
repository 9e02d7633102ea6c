import M5.Lib.Run
import M5.Arch.X86.Walker
import M5.Arch.X86.WalkerPath

/-!
# What the TLB grants

Every entry of the TLB came from a walk of the code, so that a hit uses the permissions that the walk joined. An entry
says nothing about the NX bits of its path: those are looked at when the entry is loaded, for the access that loads it.
-/

namespace M5.X86

open M5.Lib M5.Lib.Radix Walker List Nat

/-! ## Levels and permissions -/

theorem bits_le_low {e : Nat} {p : Page} : ∀ {q : State}, q.level.verdict e = .page p → p.bits ≤ q.level.low
  | .LongPML4, h | .LongPDP, h | .PAEPDP, h | .PD, h => absurd h pointer_ne_page
  | .LongPD, h | .PAEPD, h | .PSEPD, h => by
    rw [(of_directory_eq_page h).2.2]
    exact le_refl _
  | .LongPTE, h | .PAEPTE, h => by
    rw [(of_leaf_eq_page h).2]
    exact le_refl _
  | .PTE, h => by
    rw [(of_leaf_eq_page h).2]
    exact (by decide : 12 ≤ 22)
  | .Ready, h | .Waiting, h => nomatch h

theorem nested_states (r : ControlRegs) : Nested ((states r).map State.level) := by
  constructor
  · intro l hl e p hp
    obtain ⟨q, -, rfl⟩ := mem_map.1 hl
    exact bits_le_low hp
  · unfold states
    cases r.lma with
    | true =>
      rw [if_pos rfl]
      decide
    | false =>
      cases r.pae with
      | true =>
        rw [if_neg nofun, if_pos rfl]
        decide
      | false =>
        cases r.pse <;> decide

section joinAll

variable {bit : Nat → Bool} {path : List (Say × Nat)}

theorem joinAll_further : ∀ {path : List (Say × Nat)} {b : Bool}, (∀ x ∈ path, x.1 = .further) →
    (joinAll bit path b ↔ b ∧ All bit path)
  | [], b, _ => ⟨fun h => ⟨h, nofun⟩, And.left⟩
  | (s, e) :: path, b, h => by
    obtain ⟨hs, hrest⟩ := forall_mem_cons.1 h
    obtain rfl : s = .further := hs
    unfold joinAll All
    rw [joinAll_further hrest, forall_mem_cons, Say.join, Bool.and_eq_true_iff, and_assoc]
    refine and_congr_right fun _ => and_congr_left fun _ => ?_
    exact ⟨fun h _ => h, fun h => h nofun⟩

theorem joinAll_first {e : Nat} {b : Bool} (h : ∀ x ∈ path, x.1 = .further) :
    joinAll bit ((.first, e) :: path) b ↔ All bit ((.first, e) :: path) := by
  unfold joinAll All
  rw [joinAll_further h, forall_mem_cons]
  exact and_congr_left fun _ => ⟨fun h _ => h, fun h => h nofun⟩

theorem all_nothing {e : Nat} : All bit ((.nothing, e) :: path) ↔ All bit path := by
  unfold All
  rw [forall_mem_cons]
  exact and_iff_right (absurd rfl)

end joinAll

section paths

variable {r : ControlRegs} {read : Nat → Nat} {v v' base : Nat} {path : List (Say × Nat)} {p : Page} {bit : Nat → Bool}
  {b : Bool}

theorem joinAll_of_first {l : Level Say} {ls : List (Level Say)} (hl : l.label = .first)
    (hls : ∀ l ∈ ls, l.label = .further) (h : walk read v (l :: ls) base = some (path, p)) :
    joinAll bit path b ↔ All bit path := by
  rcases walk_cons_eq_some h with ⟨-, rfl⟩ | ⟨t, path', -, hw, rfl⟩
  · rw [hl]
    exact joinAll_first nofun
  · rw [hl]
    refine joinAll_first fun x hx => ?_
    obtain ⟨l', hl', he⟩ := label_mem_of_walk hw x hx
    exact he.trans (hls l' hl')

theorem joinAll_of_wide (hr : r.wide) (h : r.path read v = some (path, p)) : joinAll bit path b ↔ All bit path := by
  unfold ControlRegs.path ControlRegs.levels at h
  unfold ControlRegs.wide at hr
  cases hl : r.lma with
  | true =>
    rw [hl, if_pos rfl] at h
    exact joinAll_of_first rfl (by decide) h
  | false =>
    rw [hl, Bool.false_or] at hr
    rw [hl, hr, if_neg nofun, if_pos rfl] at h
    rcases walk_cons_eq_some h with ⟨hv, -⟩ | ⟨t, path', -, hw, rfl⟩
    · exact absurd hv pointer_ne_page
    · rw [all_nothing]
      exact joinAll_of_first rfl (by decide) hw

def pde (r : ControlRegs) (read : Nat → Nat) (v : Nat) : Nat := read ((normDirectory r.pse).slot r.root v)

/-- A path along the directory and a table of pages of 4 KB, whose index in the address starts at bit `low`. -/
def NormPath (r : ControlRegs) (read : Nat → Nat) (v low : Nat) (label : Say) (path : List (Say × Nat)) (p : Page) :
    Prop :=
  ((normDirectory r.pse).verdict (pde r read v) = .page p ∧ path = [(.first, pde r read v)]) ∨
    ∃ t, (normDirectory r.pse).verdict (pde r read v) = .table t ∧
      leaf 20 (read (t + v / 2 ^ low % 2 ^ 10 * 4)) = .page p ∧
      path = [(.first, pde r read v), (label, read (t + v / 2 ^ low % 2 ^ 10 * 4))]

theorem walk_norm {l : Level Say} (hl : l.verdict = leaf 20) (hs : ∀ t, l.slot t v = t + v / 2 ^ low % 2 ^ 10 * 4) :
    walk read v [normDirectory r.pse, l] r.root = some (path, p) ↔ NormPath r read v low l.label path p := by
  unfold NormPath
  simp only [← hs]
  constructor
  · intro h
    rcases walk_cons_eq_some h with ⟨hv, rfl⟩ | ⟨t, path', hv, hw, rfl⟩
    · exact .inl ⟨hv, rfl⟩
    · rcases walk_cons_eq_some hw with ⟨hv', rfl⟩ | ⟨t', _, hv', _, _⟩
      · exact .inr ⟨t, hv, hl ▸ hv', rfl⟩
      · rw [hl] at hv'
        exact absurd hv' leaf_ne_table
  · rintro (⟨hv, rfl⟩ | ⟨t, hv, hv', rfl⟩)
    · exact walk_page hv
    · rw [← hl] at hv'
      rw [walk_table hv, walk_page hv']
      rfl

theorem codedPath_of_not_wide (hr : r.wide = false) :
    codedPath r read v = some (path, p) ↔ NormPath r read v 22 .first path p := by
  unfold codedPath
  rw [(states_of_not_wide hr).1]
  exact walk_norm rfl fun _ => rfl

theorem path_of_not_wide (hr : r.wide = false) :
    r.path read v = some (path, p) ↔ NormPath r read v 12 .further path p := by
  unfold ControlRegs.path
  rw [(states_of_not_wide hr).2]
  exact walk_norm rfl fun _ => rfl

theorem joinAll_coded (bit : Nat → Bool) (h : codedPath r read v = some (path, p)) (b b' : Bool) :
    joinAll bit path b = joinAll bit path b' := by
  cases hr : r.wide with
  | true =>
    rw [codedPath_of_wide hr] at h
    exact Bool.eq_iff_iff.2 ((joinAll_of_wide hr h).trans (joinAll_of_wide hr h).symm)
  | false =>
    rcases (codedPath_of_not_wide hr).1 h with ⟨-, rfl⟩ | ⟨t, -, -, rfl⟩
    · rfl
    · rfl

theorem stuck_samePage (h : codedPath r read v = some (path, p)) (hd : v / 2 ^ p.bits = v' / 2 ^ p.bits) :
    stuck read v' ((states r).map State.level) r.root = stuck read v ((states r).map State.level) r.root := by
  cases hr : r.wide with
  | true => rw [not_stuck_of_wide hr, not_stuck_of_wide hr]
  | false =>
    have hn := nested_states r
    unfold codedPath at h
    rw [(states_of_not_wide hr).1] at hn h
    have hs : (normDirectory r.pse).slot r.root v' = (normDirectory r.pse).slot r.root v :=
      slot_eq hd (hn.bits_le_head h) r.root
    refine Bool.eq_iff_iff.2 ?_
    rw [stuck_of_not_wide hr, stuck_of_not_wide hr, hs]

end paths

/-! ## Entries -/

/-- The page of an address does not end at the end of the address space, where the end of an entry is taken for zero. -/
def InRange (v : Nat) (p : Page) : Prop := v - v % 2 ^ p.bits + 2 ^ p.bits < 2 ^ 64

/-- What a walk of the code that ends finds for an address. -/
structure Found (r : ControlRegs) (mem₀ : Memory) (v : Nat) (path : List (Say × Nat)) (p : Page) : Prop where
  path : codedPath r (entries r mem₀) v = some (path, p)
  ends : stuck (entries r mem₀) v ((states r).map State.level) r.root = false

/-- The entry is that of a walk of the code. -/
def Loaded (r : ControlRegs) (mem₀ : Memory) (e : TlbEntry) : Prop :=
  ∃ v path p, Found r mem₀ v path p ∧ Maps v p (joinAll PTE.w path false) (joinAll PTE.u path false) e

section loaded

variable {r : ControlRegs} {mem₀ : Memory} {e : TlbEntry} {v v' : Nat} {p : Page}

theorem Found.eq {path path' : List (Say × Nat)} {p' : Page} (h : Found r mem₀ v path p)
    (h' : Found r mem₀ v path' p') : path = path' ∧ p = p' :=
  Prod.mk.inj (Option.some.inj (h.path.symm.trans h'.path))

theorem page_end {k a : Nat} (h : 2 ^ k * a < 2 ^ 64) :
    2 ^ k * a + 2 ^ k < 2 ^ 64 ∨ (2 ^ k * a + 2 ^ k) % 2 ^ 64 = 0 := by
  rw [← mul_succ]
  rcases le_total k 64 with hk | hk
  · obtain ⟨d, hd⟩ := pow_dvd_pow 2 hk
    rw [hd] at h ⊢
    rcases lt_or_eq_of_le (succ_le_of_lt (Nat.lt_of_mul_lt_mul_left h)) with hlt | heq
    · exact .inl (Nat.mul_lt_mul_of_pos_left hlt (Nat.two_pow_pos k))
    · rw [heq]
      exact .inr (mod_self _)
  · exact .inr (mod_eq_zero_of_dvd ((pow_dvd_pow 2 hk).mul_right _))

theorem covers_iff {wr us : Bool} (h : Maps v p wr us e) (hv : v' < 2 ^ 64) :
    e.covers v' ↔ v / 2 ^ p.bits = v' / 2 ^ p.bits ∧ InRange v' p := by
  have hpos := Nat.two_pow_pos p.bits
  unfold TlbEntry.covers InRange
  rw [Bool.and_eq_true_iff, decide_eq_true_iff, decide_eq_true_iff, h.vaddr, h.size, ← mul_div_self_eq_mod_sub_self,
    ← mul_div_self_eq_mod_sub_self]
  constructor
  · rintro ⟨hle, hlt⟩
    have hd : v / 2 ^ p.bits = v' / 2 ^ p.bits := by
      symm
      refine Nat.div_eq_of_lt_le ?_ ?_
      · rwa [Nat.mul_comm]
      · refine lt_of_lt_of_le hlt ((mod_le _ _).trans ?_)
        rw [succ_mul, mul_comm]
    refine ⟨hd, ?_⟩
    rw [← hd]
    refine (page_end (lt_of_le_of_lt hle hv)).resolve_right fun h0 => ?_
    rw [h0] at hlt
    exact not_lt_zero _ hlt
  · rintro ⟨hd, hr⟩
    rw [hd, mod_eq_of_lt hr]
    refine ⟨mul_div_le v' _, ?_⟩
    exact lt_mul_div_succ v' hpos

theorem Loaded.of_covers (h : Loaded r mem₀ e) (hv : v < 2 ^ 64) (hc : e.covers v) :
    ∃ path p, Found r mem₀ v path p ∧ InRange v p ∧ e.writable = joinAll PTE.w path false ∧
      e.user = joinAll PTE.u path false := by
  obtain ⟨v₀, path, p, hf, hm⟩ := h
  obtain ⟨hd, hr⟩ := (covers_iff hm hv).1 hc
  refine ⟨path, p, ⟨walk_samePage (nested_states r) hf.path hd, ?_⟩, hr, hm.writable, hm.user⟩
  rw [stuck_samePage hf.path hd]
  exact hf.ends

end loaded

/-! ## Translations -/

namespace MMU

def Grants (r : ControlRegs) (s : MMU) (q : Request) : Prop := ∃ paddr t, s.translate r q = .ok (.ok paddr, t)

def Hit (s : MMU) (q : Request) : Prop := ∃ e ∈ s.tlb.entryList, e.covers q.va

/-- Every entry is that of a walk. -/
structure Inv (r : ControlRegs) (mem₀ : Memory) (s : MMU) : Prop where
  ready : s.walker.state = .Ready
  marked : Marked r.entrySize mem₀ s.mem
  loaded : ∀ e ∈ s.tlb.entryList, Loaded r mem₀ e

/-- The permissions that the walk joined allow the access. -/
structure Allows (q : Request) (path : List (Say × Nat)) : Prop where
  user : q.inUser → joinAll PTE.u path false
  write : q.mode = .Write ∨ q.storeCheck → joinAll PTE.w path false

theorem check_iff {q : Request} {e : TlbEntry} {path : List (Say × Nat)} (hw : e.writable = joinAll PTE.w path false)
    (hu : e.user = joinAll PTE.u path false) : (∃ paddr, q.check e = .ok paddr) ↔ Allows q path := by
  unfold Request.check
  constructor
  · rintro ⟨paddr, h⟩
    split at h
    · cases h
    · rename_i h1
      split at h
      · cases h
      · rename_i h2
        refine ⟨fun h => ?_, ?_⟩
        · grind
        · rintro (h | h) <;> grind
  · rintro ⟨h1, h2⟩
    rw [if_neg, if_neg]
    · exact ⟨_, rfl⟩
    · grind
    · grind

section lookup

variable {t : TLB} {va : Nat}

theorem lookup_of_covers {e : TlbEntry} (he : e ∈ t.entryList) (hc : e.covers va) :
    ∃ e' t', t.lookup va = (some e', t') ∧ e' ∈ t.entryList ∧ e'.covers va ∧
      ∀ x ∈ t'.entryList, x ∈ t.entryList := by
  unfold TLB.lookup
  cases hf : t.entryList.find? (·.covers va) with
  | none => exact absurd hc (find?_eq_none.1 hf e he)
  | some e' =>
    have hmem := mem_of_find?_eq_some hf
    refine ⟨e', _, rfl, hmem, find?_some (p := fun x : TlbEntry => x.covers va) hf, ?_⟩
    exact forall_mem_cons.2 ⟨hmem, fun x hx => mem_of_mem_eraseP hx⟩

theorem lookup_of_not_covers (h : ∀ e ∈ t.entryList, e.covers va = false) : t.lookup va = (none, t) := by
  unfold TLB.lookup
  rw [find?_eq_none.2 fun e he => Bool.eq_false_iff.1 (h e he)]

theorem lookup_head {e : TlbEntry} {l : List TlbEntry} (ht : t.entryList = e :: l) (hc : e.covers va) :
    t.lookup va = (some e, t) := by
  unfold TLB.lookup
  rw [ht, find?_cons_of_pos (p := fun x : TlbEntry => x.covers va) hc]
  dsimp only
  rw [eraseP_cons_of_pos (p := fun x : TlbEntry => x.covers va) hc, ← ht]

theorem mem_insert {vpn : Nat} {e x : TlbEntry} (h : x ∈ (t.insert vpn e).entryList) :
    x = { e with vaddr := vpn } ∨ x ∈ t.entryList := by
  rcases mem_cons.1 h with rfl | h
  · exact .inl rfl
  · refine .inr ?_
    split at h
    · exact h
    · exact dropLast_subset _ h

end lookup

section translate

variable {r : ControlRegs} {mem₀ : Memory} {s t : MMU} {q : Request}

theorem va_lt (q : Request) : q.va < 2 ^ 64 := q.vaddr.isLt

theorem translate_of_hit (h : Hit s q) :
    ∃ e tlb, s.translate r q = .ok (q.check e, { s with tlb := tlb }) ∧ e ∈ s.tlb.entryList ∧ e.covers q.va ∧
      ∀ x ∈ tlb.entryList, x ∈ s.tlb.entryList := by
  obtain ⟨e, he, hc⟩ := h
  obtain ⟨e', tlb, hl, he', hc', hsub⟩ := lookup_of_covers he hc
  refine ⟨e', tlb, ?_, he', hc', hsub⟩
  unfold translate
  rw [hl]

theorem not_hit (h : ¬ Hit s q) : ∀ e ∈ s.tlb.entryList, e.covers q.va = false :=
  fun e he => Bool.eq_false_iff.2 fun hc => h ⟨e, he, hc⟩

theorem translate_of_miss (h : ¬ Hit s q) :
    s.translate r q = (do
      let res ← s.walker.start r q.cpl q.va q.mode s.mem
      match res.fault with
      | some f => .ok (.error f, s.afterWalk res)
      | none => (s.afterWalk res).hit q) := by
  unfold translate
  rewrite [lookup_of_not_covers (not_hit h)]
  rfl

theorem translate_of_refused {res : Result} (h : ¬ Hit s q)
    (he : s.walker.start r q.cpl q.va q.mode s.mem = .ok res) (hr : Refused res) :
    ∃ f, s.translate r q = .ok (.error f, { tlb := s.tlb, walker := res.walker, mem := res.mem }) := by
  obtain ⟨f, hf⟩ := Option.isSome_iff_exists.1 hr.fault
  refine ⟨f, ?_⟩
  rw [translate_of_miss h, he, ok_bind, hf]
  unfold afterWalk
  rw [hr.inserted]

theorem translate_of_inserts {res : Result} {p : Page} {wr us : Bool} (h : ¬ Hit s q)
    (he : s.walker.start r q.cpl q.va q.mode s.mem = .ok res) (hin : Inserts q.va p wr us res) :
    ∃ e, Maps q.va p wr us e ∧
      (InRange q.va p → s.translate r q =
        .ok (q.check e, { tlb := s.tlb.insert e.vaddr e, walker := res.walker, mem := res.mem })) ∧
      (¬ InRange q.va p → s.translate r q = .error .assert) := by
  obtain ⟨e, hi, hm⟩ := hin.inserted
  have haw : s.afterWalk res = { tlb := s.tlb.insert e.vaddr e, walker := res.walker, mem := res.mem } := by
    unfold afterWalk
    rw [hi]
  have hc := covers_iff hm (va_lt q)
  rw [translate_of_miss h, he, ok_bind, hin.fault]
  rw [haw]
  unfold hit
  refine ⟨e, hm, fun hr => ?_, fun hr => ?_⟩
  · rw [lookup_head rfl (hc.2 ⟨rfl, hr⟩)]
  · rw [lookup_of_not_covers]
    intro x hx
    rcases mem_insert hx with rfl | hx
    · exact Bool.eq_false_iff.2 fun hx => hr (hc.1 hx).2
    · exact not_hit h x hx

theorem Inv.start (hi : Inv r mem₀ s) :
    (∃ f, s.walker.start r q.cpl q.va q.mode s.mem = .error f ∧ ∀ path p, ¬ Found r mem₀ q.va path p) ∨
    ∃ res, s.walker.start r q.cpl q.va q.mode s.mem = .ok res ∧ res.walker.state = .Ready ∧
      Marked r.entrySize mem₀ res.mem ∧
      ((Refused res ∧ ∀ path p, Found r mem₀ q.va path p → q.mode = .Execute ∧ r.enableNX ∧ ¬ Executable path) ∨
        ∃ path p, Found r mem₀ q.va path p ∧ (q.mode = .Execute → r.enableNX → Executable path) ∧
          Inserts q.va p (joinAll PTE.w path false) (joinAll PTE.u path false) res) := by
  have h := start_eq q.cpl q.va q.mode hi.ready hi.marked
  split at h
  · rename_i hst
    obtain ⟨f, hf⟩ := h
    exact .inl ⟨f, hf, fun path p hp => nomatch hst.symm.trans hp.ends⟩
  · rename_i hst
    obtain ⟨res, he, hready, hm, hl⟩ := h
    refine .inr ⟨res, he, hready, hm, ?_⟩
    cases hp : codedPath r (entries r mem₀) q.va with
    | none =>
      rw [hp] at hl
      exact .inl ⟨hl, fun path p hf => nomatch hp.symm.trans hf.path⟩
    | some x =>
      obtain ⟨path, p⟩ := x
      rw [hp] at hl
      unfold Leads at hl
      rw [setUp_enableNX] at hl
      by_cases hc : q.mode = .Execute ∧ r.enableNX ∧ ¬ Executable path
      · refine .inl ⟨(if_pos hc).mp hl, fun path' p' hf => ?_⟩
        cases hp.symm.trans hf.path
        exact hc
      · have hin := (if_neg hc).mp hl
        rw [joinAll_coded PTE.w hp _ false, joinAll_coded PTE.u hp _ false] at hin
        refine .inr ⟨path, p, ⟨hp, Bool.eq_false_iff.2 hst⟩, fun h1 h2 => ?_, hin⟩
        exact Decidable.byContradiction fun h3 => hc ⟨h1, h2, h3⟩

/-- A translation that ends checks the access against an entry for the path of the code, or finds none and faults. -/
theorem Inv.translate_cases (hi : Inv r mem₀ s) :
    (∃ e t path p, s.translate r q = .ok (q.check e, t) ∧ Inv r mem₀ t ∧ Found r mem₀ q.va path p ∧ InRange q.va p ∧
      e.writable = joinAll PTE.w path false ∧ e.user = joinAll PTE.u path false ∧
      (Hit s q ∨ (q.mode = .Execute → r.enableNX → Executable path))) ∨
    (∀ path p, Found r mem₀ q.va path p → InRange q.va p →
      ¬ (Hit s q ∨ (q.mode = .Execute → r.enableNX → Executable path))) ∧
      ∀ {o t}, s.translate r q = .ok (o, t) → (∃ f, o = .error f) ∧ Inv r mem₀ t := by
  by_cases hh : Hit s q
  · obtain ⟨e, tlb, he, hmem, hc, hsub⟩ := translate_of_hit hh
    obtain ⟨path, p, hf, hr, hw, hu⟩ := (hi.loaded e hmem).of_covers (va_lt q) hc
    have hinv : Inv r mem₀ { s with tlb := tlb } := ⟨hi.ready, hi.marked, fun x hx => hi.loaded x (hsub x hx)⟩
    exact .inl ⟨e, _, path, p, he, hinv, hf, hr, hw, hu, .inl hh⟩
  · rcases hi.start with ⟨f, he, hn⟩ | ⟨res, he, hready, hm, hres⟩
    · refine .inr ⟨fun path p hf => absurd hf (hn path p), fun h => ?_⟩
      rw [translate_of_miss hh, he] at h
      cases h
    · rcases hres with ⟨hr, hn⟩ | ⟨path, p, hf, hx, hin⟩
      · obtain ⟨f, hs⟩ := translate_of_refused hh he hr
        refine .inr ⟨fun path p hf _ hor => ?_, fun h => ?_⟩
        · obtain ⟨h1, h2, h3⟩ := hn path p hf
          exact h3 (hor.resolve_left hh h1 h2)
        · rw [hs] at h
          cases h
          exact ⟨⟨f, rfl⟩, hready, hm, hi.loaded⟩
      · obtain ⟨e, hmaps, hyes, hno⟩ := translate_of_inserts hh he hin
        by_cases hr : InRange q.va p
        · refine .inl ⟨e, _, path, p, hyes hr, ⟨hready, hm, fun x hx => ?_⟩, hf, hr, hmaps.writable, hmaps.user,
            .inr hx⟩
          rcases mem_insert hx with rfl | hx
          · exact ⟨q.va, path, p, hf, hmaps⟩
          · exact hi.loaded x hx
        · refine .inr ⟨fun path' p' hf' hr' => absurd ((hf.eq hf').2 ▸ hr') hr, fun h => ?_⟩
          rw [hno hr] at h
          cases h

/-- The accesses that are granted: those that the permissions of the code's path allow, and, for instruction fetches
that miss, where no entry forbids execution. -/
theorem Inv.grants_iff (hi : Inv r mem₀ s) :
    Grants r s q ↔ ∃ path p, Found r mem₀ q.va path p ∧ InRange q.va p ∧ Allows q path ∧
      (Hit s q ∨ (q.mode = .Execute → r.enableNX → Executable path)) := by
  unfold Grants
  rcases hi.translate_cases (q := q) with ⟨e, t, path, p, he, -, hf, hr, hw, hu, hor⟩ | ⟨hn, hfail⟩
  · rw [he]
    constructor
    · rintro ⟨paddr, t, h⟩
      have h1 : q.check e = .ok paddr := congrArg Prod.fst (Except.ok.inj h)
      exact ⟨path, p, hf, hr, (check_iff hw hu).1 ⟨paddr, h1⟩, hor⟩
    · rintro ⟨path', p', hf', -, ha, -⟩
      obtain ⟨rfl, rfl⟩ := hf.eq hf'
      obtain ⟨paddr, h1⟩ := (check_iff hw hu).2 ha
      exact ⟨paddr, t, by rw [h1]⟩
  · refine iff_of_false ?_ ?_
    · rintro ⟨paddr, t, h⟩
      obtain ⟨⟨f, hf⟩, -⟩ := hfail h
      cases hf
    · rintro ⟨path, p, hf, hr, -, hor⟩
      exact hn path p hf hr hor

theorem Inv.translate {o : Except PageFault Nat} (hi : Inv r mem₀ s) (h : s.translate r q = .ok (o, t)) :
    Inv r mem₀ t := by
  rcases hi.translate_cases (q := q) with ⟨e, t', path, p, he, ht, -⟩ | ⟨-, hfail⟩
  · cases he.symm.trans h
    exact ht
  · exact (hfail h).2

/-- A translation inserts what its walk has found, and the other operations take entries out. -/
theorem Inv.step {a : Act} (hi : Inv r mem₀ s) (h : Step r s a t) : Inv r mem₀ t := by
  cases a with
  | translate q =>
    obtain ⟨⟨o, t'⟩, h1, h2⟩ := of_bind h
    cases h2
    exact hi.translate h1
  | invalidateAll =>
    cases h
    exact ⟨hi.ready, hi.marked, nofun⟩
  | invalidateNonGlobal =>
    cases h
    exact ⟨hi.ready, hi.marked, fun x hx => hi.loaded x (mem_of_mem_filter hx)⟩
  | demapPage va =>
    cases h
    exact ⟨hi.ready, hi.marked, fun x hx => hi.loaded x (mem_of_mem_eraseP hx)⟩

theorem inv_init (size : Nat) (h : 0 < size) : Inv r mem₀ (init size h mem₀) := ⟨rfl, .refl _ _, nofun⟩

end translate

/-! ## What the page tables permit -/

/-- Every entry on the path of the architecture is present and permits the access. -/
def Permitted (r : ControlRegs) (mem₀ : Memory) (q : Request) : Prop :=
  ∃ path p, r.path (entries r mem₀) q.va = some (path, p) ∧ (q.mode = .Write → All PTE.w path) ∧
    (q.inUser → All PTE.u path) ∧ (q.mode = .Execute → r.nxe → Executable path)

/-- The accesses about which the TLB and the page tables agree. With entries of eight bytes: an instruction fetch that
hits is not granted where some entry has its NX bit. In 32-bit mode, where the directory gives the base of a table: if
the entry of the table at the index of the directory grants the access, the entry at the right index is present, and it
and the one in the directory permit it. -/
def Safe (r : ControlRegs) (mem₀ : Memory) (s : MMU) (q : Request) : Prop :=
  if r.wide then
    ∀ path p, r.path (entries r mem₀) q.va = some (path, p) → q.mode = .Execute → r.nxe → Hit s q →
      (q.inUser → All PTE.u path) → (q.storeCheck → All PTE.w path) → Executable path
  else
    let dir := pde r (entries r mem₀) q.va
    ∀ t, (normDirectory r.pse).verdict dir = .table t → PTE.a dir →
      q.va - q.va % 2 ^ 12 + 2 ^ 12 < 2 ^ 64 →
      let used := entries r mem₀ (t + q.va / 2 ^ 22 % 2 ^ 10 * 4)
      let right := entries r mem₀ (t + q.va / 2 ^ 12 % 2 ^ 10 * 4)
      PTE.p used → (q.inUser → PTE.u used) →
      (q.mode = .Write ∨ q.storeCheck → PTE.w used) →
      PTE.p right ∧ (q.inUser → PTE.u dir ∧ PTE.u right) ∧
        (q.mode = .Write → PTE.w dir ∧ PTE.w right)

section safe

variable {r : ControlRegs} {mem₀ : Memory} {s : MMU} {q : Request}

theorem Inv.inRange_of_hit {path : List (Say × Nat)} {p : Page} (hi : Inv r mem₀ s) (hh : Hit s q)
    (hf : Found r mem₀ q.va path p) : InRange q.va p := by
  obtain ⟨e, he, hc⟩ := hh
  obtain ⟨path', p', hf', hr, -⟩ := (hi.loaded e he).of_covers (va_lt q) hc
  rw [(hf.eq hf').2]
  exact hr

theorem Inv.safe_iff_of_wide (hi : Inv r mem₀ s) (hw : r.wide) :
    (Grants r s q → Permitted r mem₀ q) ↔ Safe r mem₀ s q := by
  have hnx : r.enableNX = r.nxe := by
    unfold ControlRegs.enableNX
    rw [hw, Bool.true_and]
  unfold Safe
  rw [if_pos hw, hi.grants_iff, hnx]
  constructor
  · intro h path p hp hx hn hh hu hs
    have hf : Found r mem₀ q.va path p := ⟨(codedPath_of_wide hw _ _).trans hp, not_stuck_of_wide hw⟩
    have hallows : Allows q path := by
      refine ⟨fun h => (joinAll_of_wide hw hp).2 (hu h), fun h => (joinAll_of_wide hw hp).2 (hs (h.resolve_left ?_))⟩
      rw [hx]
      nofun
    obtain ⟨path', p', hp', -, -, he⟩ := h ⟨path, p, hf, hi.inRange_of_hit hh hf, hallows, .inl hh⟩
    cases hp.symm.trans hp'
    exact he hx hn
  · rintro h ⟨path, p, hf, -, ha, hx⟩
    have hp := (codedPath_of_wide hw _ _).symm.trans hf.path
    have hu : q.inUser → All PTE.u path := fun h => (joinAll_of_wide hw hp).1 (ha.user h)
    have hwr : q.mode = .Write ∨ q.storeCheck → All PTE.w path := fun h => (joinAll_of_wide hw hp).1 (ha.write h)
    refine ⟨path, p, hp, fun h => hwr (.inl h), hu, fun hm hn => ?_⟩
    rcases hx with hh | hx
    · exact h path p hp hm hn hh hu fun h => hwr (.inr h)
    · exact hx hm hn

theorem nx_of_not_wide (hw : r.wide = false) (a : Nat) : PTE.nx (entries r mem₀ a) = false := by
  have h := leValue_lt mem₀ a r.entrySize
  have hsize : r.entrySize = 4 := by
    unfold ControlRegs.entrySize
    rw [hw]
    rfl
  refine testBit_lt_two_pow (lt_of_lt_of_le h ?_)
  rw [hsize]
  decide

theorem all_single {bit : Nat → Bool} {e : Nat} : All bit [(.first, e)] ↔ bit e := by
  simp [All]

theorem all_pair {bit : Nat → Bool} {e e' : Nat} : All bit [(.first, e), (.further, e')] ↔ bit e ∧ bit e' := by
  simp [All]

theorem ends_iff (hw : r.wide = false) (v : Nat) :
    stuck (entries r mem₀) v ((states r).map State.level) r.root = false ↔
      ∀ t, (normDirectory r.pse).verdict (pde r (entries r mem₀) v) = .table t →
        PTE.a (pde r (entries r mem₀) v) := by
  rw [← Bool.not_eq_true, stuck_of_not_wide hw, not_exists]
  refine forall_congr' fun t => ?_
  rw [not_and, Bool.not_eq_false]
  rfl

theorem Inv.safe_iff_of_not_wide (hi : Inv r mem₀ s) (hw : r.wide = false) :
    (Grants r s q → Permitted r mem₀ q) ↔ Safe r mem₀ s q := by
  have hnx : r.enableNX = false := by
    unfold ControlRegs.enableNX
    rw [hw, Bool.false_and]
  unfold Safe
  rw [if_neg (by rw [hw]; nofun), hi.grants_iff, hnx]
  dsimp only
  constructor
  · intro h t ht ha hrange hp hu hwr
    have hpage : leaf 20 (entries r mem₀ (t + q.va / 2 ^ 22 % 2 ^ 10 * 4)) =
        .page ⟨12, frame 20 (entries r mem₀ (t + q.va / 2 ^ 22 % 2 ^ 10 * 4))⟩ := if_pos hp
    have hf := Found.mk ((codedPath_of_not_wide hw).2 (.inr ⟨t, ht, hpage, rfl⟩))
      ((ends_iff hw q.va).2 fun _ _ => ha)
    obtain ⟨path, p, hpath, h1, h2, -⟩ := h ⟨_, _, hf, hrange, ⟨hu, hwr⟩, .inr nofun⟩
    rcases (path_of_not_wide hw).1 hpath with ⟨hv, -⟩ | ⟨t', hv, hl, rfl⟩
    · exact nomatch ht.symm.trans hv
    · cases ht.symm.trans hv
      exact ⟨(of_leaf_eq_page hl).1, fun h => all_pair.1 (h2 h), fun h => all_pair.1 (h1 h)⟩
  · rintro h ⟨path, p, hf, hrange, hallows, -⟩
    rcases (codedPath_of_not_wide hw).1 hf.path with ⟨hv, rfl⟩ | ⟨t, hv, hl, rfl⟩
    · refine ⟨_, p, (path_of_not_wide hw).2 (.inl ⟨hv, rfl⟩), fun h => ?_, fun h => ?_, fun _ _ => ?_⟩
      · exact all_single.2 (hallows.write (.inl h))
      · exact all_single.2 (hallows.user h)
      · exact all_single.2 (by rw [pde, nx_of_not_wide hw]; rfl)
    · obtain ⟨hp, rfl⟩ := of_leaf_eq_page hl
      obtain ⟨h1, h2, h3⟩ := h t hv ((ends_iff hw q.va).1 hf.ends t hv) hrange hp hallows.user hallows.write
      refine ⟨_, _, (path_of_not_wide hw).2 (.inr ⟨t, hv, if_pos h1, rfl⟩), fun h => ?_, fun h => ?_, fun _ _ => ?_⟩
      · exact all_pair.2 (h3 h)
      · exact all_pair.2 (h2 h)
      · exact all_pair.2 ⟨by rw [pde, nx_of_not_wide hw]; rfl, by rw [nx_of_not_wide hw]; rfl⟩

theorem Inv.grants_of_safe {s' : MMU} (hi : Inv r mem₀ s) (hi' : Inv r mem₀ s')
    (h : Grants r s q → Permitted r mem₀ q) (hg : Grants r s q) : Grants r s' q := by
  obtain ⟨path, p, hf, hr, ha, hx⟩ := hi.grants_iff.1 hg
  refine hi'.grants_iff.2 ⟨path, p, hf, hr, ha, .inr fun hm hn => ?_⟩
  obtain ⟨hwide, hnxe⟩ := Bool.and_eq_true_iff.1 hn
  obtain ⟨path', p', hp', -, -, he⟩ := h hg
  cases ((codedPath_of_wide hwide _ _).symm.trans hf.path).symm.trans hp'
  exact he hm hnxe

/-- After any translations, in any order, an access is granted only if the page tables permit it, iff it is a safe one;
and a safe access is granted or not whatever came before it. -/
theorem granted_iff {size : Nat} {h0 : 0 < size} {as : List Act} (hrun : Run (Step r) (init size h0 mem₀) as s)
    (q : Request) :
    ((Grants r s q → Permitted r mem₀ q) ↔ Safe r mem₀ s q) ∧
      ∀ {as' : List Act} {s' : MMU}, Run (Step r) (init size h0 mem₀) as' s' → Safe r mem₀ s q → Safe r mem₀ s' q →
        (Grants r s q ↔ Grants r s' q) := by
  have hinv : ∀ {as : List Act} {s : MMU}, Run (Step r) (init size h0 mem₀) as s → Inv r mem₀ s :=
    fun h => h.invariant (inv_init size h0) .step
  have hsafe : ∀ {s : MMU}, Inv r mem₀ s → ((Grants r s q → Permitted r mem₀ q) ↔ Safe r mem₀ s q) := by
    intro s hi
    cases hw : r.wide with
    | true => exact hi.safe_iff_of_wide hw
    | false => exact hi.safe_iff_of_not_wide hw
  refine ⟨hsafe (hinv hrun), fun hrun' h h' => ⟨?_, ?_⟩⟩
  · exact (hinv hrun).grants_of_safe (hinv hrun') ((hsafe (hinv hrun)).2 h)
  · exact (hinv hrun').grants_of_safe (hinv hrun) ((hsafe (hinv hrun')).2 h')

end safe

def granted (r : ControlRegs) (s : MMU) (q : Request) : Bool :=
  match s.translate r q with
  | .ok (.ok _, _) => true
  | _ => false

theorem grants_of_granted {r : ControlRegs} {s : MMU} {q : Request} (h : granted r s q) : Grants r s q := by
  unfold granted at h
  split at h
  · exact ⟨_, _, ‹_›⟩
  · cases h

def longRegs : ControlRegs := ⟨0x1000, 0, 0xc00⟩

/-- The tables of a user page, with the NX bit in the last level. -/
def nxTables : Memory :=
  blit (blit (blit (blit (fun _ => 0) 0x1000 8 (leByte 0x2007)) 0x2000 8 (leByte 0x3007)) 0x3000 8 (leByte 0x4007))
    0x4008 8 (leByte 0x8000000000005007)

def userRead : Request := { vaddr := 0x1234, mode := .Read, cpl := 3 }

def userFetch : Request := { vaddr := 0x1238, mode := .Execute, cpl := 3 }

theorem granted_userRead : ∃ s, Run (Step longRegs) (init 4 (by decide) nxTables) [.translate userRead] s ∧
    Grants longRegs s userRead ∧ Permitted longRegs nxTables userRead := by
  obtain ⟨s, hrun, hs⟩ := Run.exists_of_check (fun s a => s.handle longRegs a) id (init 4 (by decide) nxTables)
    [.translate userRead] (fun s => granted longRegs s userRead) (by decide +kernel)
  have hsafe : Safe longRegs nxTables s userRead := fun _ _ _ h => nomatch h
  exact ⟨s, hrun, grants_of_granted hs, (granted_iff hrun userRead).1.2 hsafe (grants_of_granted hs)⟩

/-- After a read of the page an instruction fetch from it is granted. -/
theorem not_safe_userFetch : ∃ s, Run (Step longRegs) (init 4 (by decide) nxTables) [.translate userRead] s ∧
    Grants longRegs s userFetch ∧ ¬ Grants longRegs (init 4 (by decide) nxTables) userFetch ∧
    ¬ Permitted longRegs nxTables userFetch := by
  obtain ⟨s, hrun, hs⟩ := Run.exists_of_check (fun s a => s.handle longRegs a) id (init 4 (by decide) nxTables)
    [.translate userRead] (fun s => granted longRegs s userFetch) (by decide +kernel)
  refine ⟨s, hrun, grants_of_granted hs, ?_, ?_⟩
  · rintro ⟨paddr, t, h⟩
    have hf : granted longRegs (init 4 (by decide) nxTables) userFetch = false := by decide +kernel
    unfold granted at hf
    rw [h] at hf
    cases hf
  · rintro ⟨path, p, hp, -, -, hx⟩
    have hpath : (longRegs.path (entries longRegs nxTables) userFetch.va).map (fun x => decide (Executable x.1)) =
        some false := by decide +kernel
    rw [hp] at hpath
    exact of_decide_eq_false (Option.some.inj hpath) (hx rfl rfl)

/-- A page in 32-bit mode that the directory makes read-only, and the table does not. -/
def readOnlyTables : Memory := blit (blit (fun _ => 0) 0x1000 4 (leByte 0x2025)) 0x2000 4 (leByte 0x5007)

def userWrite : Request := { vaddr := 0x234, mode := .Write, cpl := 3 }

/-- In 32-bit mode a write to a page that the directory makes read-only is granted. -/
theorem not_safe_userWrite : Grants ⟨0x1000, 0, 0⟩ (init 4 (by decide) readOnlyTables) userWrite ∧
    ¬ Permitted ⟨0x1000, 0, 0⟩ readOnlyTables userWrite := by
  refine ⟨grants_of_granted (by decide +kernel), ?_⟩
  rintro ⟨path, p, hp, hw, -⟩
  have hpath : (ControlRegs.path ⟨0x1000, 0, 0⟩ (entries ⟨0x1000, 0, 0⟩ readOnlyTables) userWrite.va).map
    (fun x => decide (All PTE.w x.1)) = some false := by decide +kernel
  rw [hp] at hpath
  exact of_decide_eq_false (Option.some.inj hpath) (hw rfl)

end MMU

end M5.X86
