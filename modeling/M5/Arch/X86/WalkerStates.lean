import M5.Arch.X86.Walker

/-!
# The states of the walker

The walker follows levels of its own, one for each of its states. In long mode and with physical address extension these
are the levels of the architecture. In 32-bit mode the last level is indexed by the field of the level above it, and its
permissions replace those above it.
-/

namespace M5.X86

open M5.Lib M5.Lib.Radix Nat

/-! ## Accessed bits -/

/-- Entries that differ in the accessed bit at most. -/
def Same (x y : Nat) : Prop := ∀ i ≠ 5, x.testBit i = y.testBit i

variable {x y : Nat}

theorem Same.div {k : Nat} (h : Same x y) (hk : 6 ≤ k) : x / 2 ^ k = y / 2 ^ k := by
  refine eq_of_testBit_eq fun i => ?_
  rw [testBit_div_two_pow, testBit_div_two_pow]
  exact h _ (by omega)

theorem Same.frame (h : Same x y) (w : Nat) : frame w x = frame w y := by
  unfold X86.frame
  rw [h.div (by decide)]

theorem Same.pointer (h : Same x y) (w : Nat) : pointer w x = pointer w y := by
  unfold X86.pointer
  rw [h.frame, show PTE.p x = PTE.p y from h 0 (by decide)]

theorem Same.leaf (h : Same x y) (w : Nat) : leaf w x = leaf w y := by
  unfold X86.leaf
  rw [h.frame, show PTE.p x = PTE.p y from h 0 (by decide)]

theorem Same.directory {large : Nat → Page} (h : Same x y) (w : Nat) (hl : large x = large y) :
    directory w large x = directory w large y := by
  unfold X86.directory
  rw [h.frame, show PTE.p x = PTE.p y from h 0 (by decide), show PTE.ps x = PTE.ps y from h 7 (by decide), hl]

theorem same_setA (x : Nat) : Same (x ||| 2 ^ 5) x := by
  intro i hi
  rw [testBit_or, testBit_two_pow_of_ne hi.symm, Bool.or_false]

/-- Memory that differs from `mem₀` in accessed bits at most, for entries of `size` bytes. Those of four bytes are not
written. -/
structure Marked (size : Nat) (mem₀ mem : Memory) : Prop where
  same : ∀ {a}, size ∣ a → Same (leValue mem a size) (leValue mem₀ a size)
  eq : size < 8 → mem = mem₀

theorem Marked.refl (size : Nat) (mem : Memory) : Marked size mem mem := ⟨fun _ _ _ => rfl, fun _ => rfl⟩

theorem setA_lt {size v : Nat} (hs : 0 < size) (h : v < 256 ^ size) : v ||| 2 ^ 5 < 256 ^ size := by
  rw [show 256 = 2 ^ 8 from rfl, ← pow_mul] at h ⊢
  exact or_lt_two_pow h (Nat.pow_lt_pow_right (by decide) (by omega))

theorem Marked.write {size a : Nat} {mem₀ mem : Memory} (h : Marked size mem₀ mem) (hs : 8 ≤ size) (ha : size ∣ a) :
    Marked size mem₀ (blit mem a size (leByte (leValue mem a size ||| 2 ^ 5))) := by
  refine ⟨@fun b hb => ?_, fun h8 => absurd hs (not_le.2 h8)⟩
  by_cases hab : b = a
  · subst hab
    rw [leValue_blit (setA_lt (by omega) (leValue_lt mem b size))]
    intro i hi
    rw [same_setA _ i hi, h.same hb i hi]
  · rw [leValue_blit_of_disjoint]
    · exact h.same hb
    · -- aligned entries that are not the same are apart
      obtain ⟨x, rfl⟩ := ha
      obtain ⟨y, rfl⟩ := hb
      have hxy : y ≠ x := fun e => hab (e ▸ rfl)
      rcases lt_or_gt_of_ne hxy with hlt | hlt
      · exact .inl (mul_le_mul_left size hlt)
      · exact .inr (mul_le_mul_left size hlt)

/-! ## The levels of the walker -/

namespace Walker

/-- The level that a state stands for. -/
def State.level : State → Level Say
  | LongPML4 => ⟨.first, 39, 9, 8, pointer 40⟩
  | LongPDP => ⟨.further, 30, 9, 8, pointer 40⟩
  | LongPD => ⟨.further, 21, 9, 8, directory 40 page2M⟩
  | LongPTE => ⟨.further, 12, 9, 8, leaf 40⟩
  | PAEPDP => ⟨.nothing, 30, 2, 8, pointer 40⟩
  | PAEPD => ⟨.first, 21, 9, 8, directory 40 page2M⟩
  | PAEPTE => ⟨.further, 12, 9, 8, leaf 40⟩
  | PSEPD => normDirectory true
  | PD => normDirectory false
  -- `norml2`, which is the field of the level above, and permissions that replace those above
  | PTE => ⟨.first, 22, 10, 4, leaf 20⟩
  | Ready | Waiting => ⟨.nothing, 0, 0, 0, fun _ => .absent⟩

def State.next : State → State
  | LongPML4 => LongPDP
  | LongPDP => LongPD
  | LongPD => LongPTE
  | PAEPDP => PAEPD
  | PAEPD => PAEPTE
  | PSEPD | PD => PTE
  | _ => Ready

def states (r : ControlRegs) : List State :=
  if r.lma then [.LongPML4, .LongPDP, .LongPD, .LongPTE]
  else if r.pae then [.PAEPDP, .PAEPD, .PAEPTE]
  else [if r.pse then .PSEPD else .PD, .PTE]

/-- The walk of the code. -/
def codedPath (r : ControlRegs) (read : Nat → Nat) (v : Nat) : Option (List (Say × Nat) × Page) :=
  walk read v ((states r).map State.level) r.root

theorem codedPath_of_wide {r : ControlRegs} (h : r.wide) (read : Nat → Nat) (v : Nat) :
    codedPath r read v = r.path read v := by
  unfold codedPath ControlRegs.path ControlRegs.levels states
  unfold ControlRegs.wide at h
  cases hl : r.lma with
  | true => rfl
  | false =>
    rw [hl, Bool.false_or] at h
    rw [h]
    rfl

def State.isWide (q : State) : Bool := q.level.entrySize = 8

def State.isLeaf : State → Bool
  | LongPTE | PAEPTE | PTE => true
  | _ => false

theorem same_verdict {x y : Nat} (h : Same x y) : ∀ q : State, q.level.verdict x = q.level.verdict y
  | .LongPML4 | .LongPDP | .PAEPDP | .PD => h.pointer _
  | .LongPD | .PAEPD => h.directory _ (by unfold page2M; rw [h.div (by decide)])
  | .PSEPD => h.directory _ (by unfold page4M; rw [h.div (by decide), h.div (by decide)])
  | .LongPTE | .PAEPTE | .PTE => h.leaf _
  | .Ready | .Waiting => rfl

theorem dvd_of_table {e b : Nat} : ∀ {q : State}, q.level.verdict e = .table b → q.level.entrySize ∣ b
  | .LongPML4, h | .LongPDP, h | .PAEPDP, h | .PD, h => dvd_frame (by decide) (of_pointer_eq_table h).2
  | .LongPD, h | .PAEPD, h | .PSEPD, h => dvd_frame (by decide) (of_directory_eq_table h).2.2
  | .LongPTE, h | .PAEPTE, h | .PTE, h => absurd h leaf_ne_table
  | .Ready, h | .Waiting, h => nomatch h

/-! ## One entry -/

theorem bits_eq (v first last : Nat) : bits v first last = v / 2 ^ last % 2 ^ (first - last + 1) := by
  unfold bits mask
  rw [and_two_pow_sub_one_eq_mod, shiftRight_eq_div_pow]

theorem and_mask_eq (pte n : Nat) : pte &&& mask n <<< 12 = frame n pte := and_shiftLeft_ones pte n 12

theorem page4M_base (pte : Nat) : bits pte 20 13 <<< 32 ||| bits pte 31 22 <<< 22 = (page4M pte).base := by
  have hlt : bits pte 31 22 <<< 22 < 2 ^ 32 := by
    rw [bits_eq]
    omega
  rw [← shiftLeft_add_eq_or_of_lt hlt, bits_eq, bits_eq, shiftLeft_eq, shiftLeft_eq]
  rfl

/-- What is known of the walker when it has an entry to handle in state `q`. -/
structure Fit (q : State) (w : Walker) : Prop where
  state : w.state = q
  size : w.size = q.level.entrySize
  size_pos : 0 < w.size
  enableNX : q.isWide = false → w.enableNX = false
  leaf : q.isLeaf → w.entry.size = 2 ^ 12

/-- The entry forbids the execution that the walk is for. -/
def Denied (q : State) (w : Walker) (pte : Nat) : Prop := q.level.label ≠ .nothing ∧ w.badNX pte

instance (q : State) (w : Walker) (pte : Nat) : Decidable (Denied q w pte) := inferInstanceAs (Decidable (_ ∧ _))

end Walker

/-- A permission of the entries so far, and of one more. -/
def Say.join (acc bit : Bool) : Say → Bool
  | nothing => acc
  | first => bit
  | further => acc && bit

namespace Walker

structure Faults (x : Next) : Prop where
  fault : x.fault.isSome
  read : x.walker.read = none
  write : x.write = none
  inserted : x.inserted = none

/-- The entry that a walk from `vaddr` inserts for a page. -/
structure Maps (vaddr : Nat) (p : Page) (writable user : Bool) (e : TlbEntry) : Prop where
  size : e.size = 2 ^ p.bits
  paddr : e.paddr = p.base
  vaddr : e.vaddr = vaddr - vaddr % 2 ^ p.bits
  writable : e.writable = writable
  user : e.user = user

structure Finds (vaddr : Nat) (p : Page) (writable user : Bool) (x : Next) : Prop where
  fault : x.fault = none
  read : x.walker.read = none
  write : x.write = none
  inserted : ∃ e, x.inserted = some e ∧ Maps vaddr p writable user e

structure GoesOn (w : Walker) (q : State) (old pte addr : Nat) (writable user : Bool) (x : Next) : Prop where
  fault : x.fault = none
  inserted : x.inserted = none
  fit : Fit q { x.walker with state := x.walker.nextState, nextState := .Ready }
  read : ∃ pkt, x.walker.read = some pkt ∧ pkt.addr = addr
  write : x.write = none ∨ x.write = some (old, pte ||| 2 ^ 5) ∧ 8 ≤ x.walker.size
  size : x.walker.size = w.size
  mode : x.walker.mode = w.mode
  enableNX : x.walker.enableNX = w.enableNX
  vaddr : x.walker.entry.vaddr = w.entry.vaddr
  writable : x.walker.entry.writable = writable
  user : x.walker.entry.user = user

/-- `w₁` is `w` with the permissions of the entry taken into account. -/
structure Accounts (q : State) (pte : Nat) (w w₁ : Walker) : Prop where
  read : w₁.read = w.read
  size : w₁.size = w.size
  mode : w₁.mode = w.mode
  enableNX : w₁.enableNX = w.enableNX
  vaddr : w₁.entry.vaddr = w.entry.vaddr
  writable : w₁.entry.writable = q.level.label.join w.entry.writable (PTE.w pte)
  user : w₁.entry.user = q.level.label.join w.entry.user (PTE.u pte)

variable {q : State} {pte : Nat} {w w₁ : Walker}

theorem accounts_setPerms (pte : Nat) (w : Walker) (h : q.level.label = .first) : Accounts q pte w (w.setPerms pte) :=
  ⟨rfl, rfl, rfl, rfl, rfl, by rw [h]; rfl, by rw [h]; rfl⟩

theorem accounts_andPerms (pte : Nat) (w : Walker) (h : q.level.label = .further) : Accounts q pte w (w.andPerms pte) :=
  ⟨rfl, rfl, rfl, rfl, rfl, by rw [h]; rfl, by rw [h]; rfl⟩

theorem accounts_self (pte : Nat) (w : Walker) (h : q.level.label = .nothing) : Accounts q pte w w :=
  ⟨rfl, rfl, rfl, rfl, rfl, by rw [h]; rfl, by rw [h]; rfl⟩

section accounts

variable {q : State} {pte : Nat} {w w₁ : Walker} (h : Accounts q pte w w₁)
include h

theorem Accounts.withSize (n : Nat) : Accounts q pte w { w₁ with entry := { w₁.entry with size := n } } :=
  ⟨h.read, h.size, h.mode, h.enableNX, h.vaddr, h.writable, h.user⟩

theorem Accounts.withNoExec (b : Bool) : Accounts q pte w { w₁ with entry := { w₁.entry with noExec := b } } :=
  ⟨h.read, h.size, h.mode, h.enableNX, h.vaddr, h.writable, h.user⟩

end accounts

theorem Accounts.readNext {pkt : ReadPkt} {addr b : Nat} {doWrite : Bool}
    (ha : Accounts q pte w w₁) (hf : Fit q w) (hr : w.read = some pkt)
    (haddr : addr = q.next.level.slot b w.entry.vaddr)
    (hs : q.next.level.entrySize = q.level.entrySize) (hleaf : q.next.isLeaf → w₁.entry.size = 2 ^ 12)
    (hw : q.isWide ∨ w.size < 8 ∧ doWrite = !PTE.a pte) :
    if q.isWide ∨ PTE.a pte then
      ∃ x, w₁.readNext pte q.next addr doWrite = .ok x ∧
        GoesOn w q.next pkt.addr pte (q.next.level.slot b w.entry.vaddr)
          (q.level.label.join w.entry.writable (PTE.w pte)) (q.level.label.join w.entry.user (PTE.u pte)) x
    else ∃ f, w₁.readNext pte q.next addr doWrite = .error f := by
  have hfit : Fit q.next { w₁ with state := q.next, nextState := .Ready, read := some ⟨addr, PTE.pcd pte⟩ } := by
    refine ⟨rfl, (ha.size.trans hf.size).trans hs.symm, ha.size.symm ▸ hf.size_pos,
      fun h => ha.enableNX.trans (hf.enableNX ?_), hleaf⟩
    unfold State.isWide at h ⊢
    rwa [← hs]
  unfold Walker.readNext
  rw [ha.read, hr]
  dsimp only
  cases hd : doWrite with
  | false =>
    have hc : q.isWide ∨ PTE.a pte := by
      refine hw.imp_right fun h => ?_
      rw [← Bool.not_eq_false', ← h.2, hd]
    rw [if_pos hc]
    exact ⟨_, rfl, rfl, rfl, hfit, ⟨_, rfl, haddr⟩, .inl rfl, ha.size, ha.mode, ha.enableNX, ha.vaddr, ha.writable,
      ha.user⟩
  | true =>
    cases hq : q.isWide with
    | true =>
      have h8 : 8 ≤ w₁.size := by
        rw [ha.size, hf.size, of_decide_eq_true hq]
      rw [ensure_of h8]
      exact ⟨_, rfl, rfl, rfl, hfit, ⟨_, rfl, haddr⟩, .inr ⟨rfl, h8⟩, ha.size, ha.mode, ha.enableNX, ha.vaddr,
        ha.writable, ha.user⟩
    | false =>
      obtain ⟨h4, hdw⟩ := hw.resolve_left (by rw [hq]; nofun)
      have h8 : ¬ 8 ≤ w₁.size := by
        rw [ha.size]
        exact not_le.2 h4
      have hac : PTE.a pte = false := by
        rw [← Bool.not_eq_true', ← hdw, hd]
      rw [if_neg (by rw [hac]; nofun), ensure, if_neg h8]
      exact ⟨_, rfl⟩

theorem Accounts.insert {bit paddr : Nat} {p : Page} (ha : Accounts q pte w w₁)
    (hsize : w₁.entry.size = 2 ^ p.bits) (hpaddr : paddr = p.base) :
    Finds w.entry.vaddr p (q.level.label.join w.entry.writable (PTE.w pte))
      (q.level.label.join w.entry.user (PTE.u pte)) (w₁.insert pte p.bits paddr bit) :=
  ⟨rfl, rfl, rfl, _, rfl, hsize, hpaddr, by rw [← ha.vaddr], ha.writable, ha.user⟩

/-- What a state does with an entry. -/
def Handles (w : Walker) (q : State) (old pte : Nat) (y : Except Stop Next) : Prop :=
  let writable := q.level.label.join w.entry.writable (PTE.w pte)
  let user := q.level.label.join w.entry.user (PTE.u pte)
  match q.level.verdict pte with
  | .absent => ∃ x, y = .ok x ∧ Faults x
  | .page p => ∃ x, y = .ok x ∧ if Denied q w pte then Faults x else Finds w.entry.vaddr p writable user x
  | .table b =>
    if Denied q w pte then ∃ x, y = .ok x ∧ Faults x
    else if q.isWide ∨ PTE.a pte then
      ∃ x, y = .ok x ∧ GoesOn w q.next old pte (q.next.level.slot b w.entry.vaddr) writable user x
    else ∃ f, y = .error f

theorem Handles.of_eq {old : Nat} {z y : Except Stop Next} {bad : Bool}
    (hy : y = if bad || !PTE.p pte then .ok (w₁.pageFault pte) else z) (hbad : Denied q w pte ↔ bad)
    (habsent : q.level.verdict pte = .absent → PTE.p pte = false)
    (hpage : ∀ {p}, q.level.verdict pte = .page p → PTE.p pte ∧
      ∃ x, z = .ok x ∧ Finds w.entry.vaddr p (q.level.label.join w.entry.writable (PTE.w pte))
        (q.level.label.join w.entry.user (PTE.u pte)) x)
    (htable : ∀ {b}, q.level.verdict pte = .table b → PTE.p pte ∧
      if q.isWide ∨ PTE.a pte then
        ∃ x, z = .ok x ∧ GoesOn w q.next old pte (q.next.level.slot b w.entry.vaddr)
          (q.level.label.join w.entry.writable (PTE.w pte)) (q.level.label.join w.entry.user (PTE.u pte)) x
      else ∃ f, z = .error f) :
    Handles w q old pte y := by
  have hfault : bad ∨ PTE.p pte = false → ∃ x, y = .ok x ∧ Faults x := by
    intro h
    rw [hy, if_pos (by rcases h with h | h <;> simp [h])]
    exact ⟨_, rfl, rfl, rfl, rfl, rfl⟩
  have hgo : ¬ bad → PTE.p pte → y = z := by
    intro hb hp
    rw [hy, if_neg (by simp [hb, hp])]
  unfold Handles
  cases hv : q.level.verdict pte with
  | absent => exact hfault (.inr (habsent hv))
  | page p =>
    obtain ⟨hp, x, hx, hfinds⟩ := hpage hv
    by_cases hd : Denied q w pte
    · obtain ⟨x, hx, hf⟩ := hfault (.inl (hbad.1 hd))
      exact ⟨x, hx, by rwa [if_pos hd]⟩
    · exact ⟨x, (hgo (mt hbad.2 hd) hp).trans hx, by rwa [if_neg hd]⟩
  | table b =>
    obtain ⟨hp, ht⟩ := htable hv
    dsimp only
    by_cases hd : Denied q w pte
    · rw [if_pos hd]
      exact hfault (.inl (hbad.1 hd))
    · rw [if_neg hd, hgo (mt hbad.2 hd) hp]
      exact ht

theorem addr_eq {size : Nat} (pte fw v first last : Nat) (q : State) (hs : size = q.level.entrySize)
    (hl : last = q.level.low ∧ first - last + 1 = q.level.width) :
    (pte &&& mask fw <<< 12) + bits v first last * size = q.level.slot (frame fw pte) v := by
  unfold Level.slot
  rw [and_mask_eq, bits_eq, hs, hl.2, hl.1]

section states

variable {w : Walker} {pkt : ReadPkt}

variable {q : State} {bad : Bool} {fw pte : Nat} {w₁ w₂ : Walker}

theorem denied_iff (pte : Nat) (h : q.level.label ≠ .nothing) : Denied q w pte ↔ w.badNX pte :=
  ⟨And.right, fun hb => ⟨h, hb⟩⟩

theorem not_denied (pte : Nat) (hf : Fit q w) (h : q.isWide = false) : Denied q w pte ↔ false = true := by
  refine ⟨fun hd => ?_, nofun⟩
  have hb := hd.2
  unfold badNX at hb
  rw [hf.enableNX h, Bool.and_false] at hb
  exact hb

section table

variable {addr : Nat} {doWrite : Bool} (hf : Fit q w) (hr : w.read = some pkt) (hbad : Denied q w pte ↔ bad)
  (hs : q.next.level.entrySize = q.level.entrySize) (hw : q.isWide ∨ w.size < 8 ∧ doWrite = !PTE.a pte)
  (haddr : addr = q.next.level.slot (frame fw pte) w.entry.vaddr)
  (ha : Accounts q pte w w₂) (hleaf : q.next.isLeaf → w₂.entry.size = 2 ^ 12)

include hf hr hbad hs hw haddr ha hleaf

theorem Handles.pointer (hv : q.level.verdict = X86.pointer fw)
    (hy : w.doNext pte = if bad || !PTE.p pte then .ok (w₁.pageFault pte) else w₂.readNext pte q.next addr doWrite) :
    Handles w q pkt.addr pte (w.doNext pte) := by
  refine .of_eq hy hbad ?_ ?_ ?_ <;> rw [hv]
  · exact of_pointer_eq_absent
  · exact fun h => absurd h pointer_ne_page
  · intro b h
    obtain ⟨hp, rfl⟩ := of_pointer_eq_table h
    exact ⟨hp, ha.readNext hf hr haddr hs hleaf hw⟩

theorem Handles.directory {w₃ : Walker} {paddr bit : Nat} {large : Nat → Page}
    (hv : q.level.verdict = X86.directory fw large)
    (hy : w.doNext pte = if bad || !PTE.p pte then .ok (w₁.pageFault pte)
      else if !PTE.ps pte then w₂.readNext pte q.next addr doWrite
      else .ok (w₃.insert pte (large pte).bits paddr bit))
    (ha' : Accounts q pte w w₃) (hsize : w₃.entry.size = 2 ^ (large pte).bits) (hpaddr : paddr = (large pte).base) :
    Handles w q pkt.addr pte (w.doNext pte) := by
  refine .of_eq hy hbad ?_ ?_ ?_ <;> rw [hv]
  · exact of_directory_eq_absent
  · intro p h
    obtain ⟨hp, hps, rfl⟩ := of_directory_eq_page h
    rw [hps]
    exact ⟨hp, _, rfl, ha'.insert hsize hpaddr⟩
  · intro b h
    obtain ⟨hp, hps, rfl⟩ := of_directory_eq_table h
    rw [hps]
    exact ⟨hp, ha.readNext hf hr haddr hs hleaf hw⟩

end table

theorem Handles.leaf {paddr bit old : Nat}
    (hv : q.level.verdict = X86.leaf fw) (hbad : Denied q w pte ↔ bad)
    (hy : w.doNext pte = if bad || !PTE.p pte then .ok (w₁.pageFault pte) else .ok (w₂.insert pte 12 paddr bit))
    (ha : Accounts q pte w w₂) (hsize : w₂.entry.size = 2 ^ 12) (hpaddr : paddr = frame fw pte) :
    Handles w q old pte (w.doNext pte) := by
  refine .of_eq hy hbad ?_ ?_ ?_ <;> rw [hv]
  · exact of_leaf_eq_absent
  · intro p h
    obtain ⟨hp, rfl⟩ := of_leaf_eq_page h
    exact ⟨hp, _, rfl, ha.insert hsize hpaddr⟩
  · exact fun h => absurd h leaf_ne_table

theorem Fit.small (hf : Fit q w) (h : q.level.entrySize = 4) : w.size < 8 := by
  rw [hf.size, h]
  decide

theorem not_denied_PAEPDP (pte : Nat) : Denied .PAEPDP w pte ↔ false = true := ⟨fun h => absurd rfl h.1, nofun⟩

/-- What a state does with an entry. -/
theorem doNext_spec (hr : w.read = some pkt) (pte : Nat) :
    ∀ {q : State}, Fit q w → Handles w q pkt.addr pte (w.doNext pte)
  | .LongPML4, hf => .pointer hf hr (denied_iff pte nofun) rfl (.inl rfl)
      (addr_eq pte 40 _ 38 30 .LongPDP hf.size ⟨rfl, rfl⟩)
      ((accounts_setPerms pte w rfl).withNoExec _) nofun rfl (by unfold doNext; rw [hf.state]; rfl)
  | .LongPDP, hf => .pointer hf hr (denied_iff pte nofun) rfl (.inl rfl)
      (addr_eq pte 40 _ 29 21 .LongPD hf.size ⟨rfl, rfl⟩)
      (accounts_andPerms pte w rfl) nofun rfl (by unfold doNext; rw [hf.state]; rfl)
  | .LongPD, hf => .directory hf hr (denied_iff pte nofun) rfl (.inl rfl)
      (addr_eq pte 40 _ 20 12 .LongPTE hf.size ⟨rfl, rfl⟩)
      ((accounts_andPerms pte w rfl).withSize (4 * 2 ^ 10)) (fun _ => rfl) rfl (by unfold doNext; rw [hf.state]; rfl)
      ((accounts_andPerms pte w rfl).withSize (2 * 2 ^ 20)) rfl (and_shiftLeft_ones pte 31 21)
  | .LongPTE, hf => .leaf rfl (denied_iff pte nofun) (by unfold doNext; rw [hf.state]; rfl)
      (accounts_andPerms pte w rfl) (hf.leaf rfl) (and_mask_eq pte 40)
  | .PAEPDP, hf => .pointer hf hr (not_denied_PAEPDP pte) rfl (.inl rfl)
      (addr_eq pte 40 _ 29 21 .PAEPD hf.size ⟨rfl, rfl⟩)
      (accounts_self pte w rfl) nofun rfl (by unfold doNext; rw [hf.state]; rfl)
  | .PAEPD, hf => .directory hf hr (denied_iff pte nofun) rfl (.inl rfl)
      (addr_eq pte 40 _ 20 12 .PAEPTE hf.size ⟨rfl, rfl⟩)
      ((accounts_setPerms pte w rfl).withSize (4 * 2 ^ 10)) (fun _ => rfl) rfl (by unfold doNext; rw [hf.state]; rfl)
      ((accounts_setPerms pte w rfl).withSize (2 * 2 ^ 20)) rfl (and_shiftLeft_ones pte 31 21)
  | .PAEPTE, hf => .leaf rfl (denied_iff pte nofun) (by unfold doNext; rw [hf.state]; rfl)
      (accounts_andPerms pte w rfl) (hf.leaf rfl) (and_mask_eq pte 40)
  | .PSEPD, hf => .directory hf hr (not_denied pte hf rfl) rfl (.inr ⟨hf.small rfl, rfl⟩)
      (addr_eq pte 20 _ 31 22 .PTE hf.size ⟨rfl, rfl⟩)
      ((accounts_setPerms pte w rfl).withSize (4 * 2 ^ 10)) (fun _ => rfl) rfl (by unfold doNext; rw [hf.state]; rfl)
      ((accounts_setPerms pte w rfl).withSize (4 * 2 ^ 20)) rfl (page4M_base pte)
  | .PD, hf => .pointer hf hr (not_denied pte hf rfl) rfl (.inr ⟨hf.small rfl, rfl⟩)
      (addr_eq pte 20 _ 31 22 .PTE hf.size ⟨rfl, rfl⟩)
      ((accounts_setPerms pte w rfl).withSize (4 * 2 ^ 10)) (fun _ => rfl) rfl (by unfold doNext; rw [hf.state]; rfl)
  | .PTE, hf => .leaf rfl (not_denied pte hf rfl) (by unfold doNext; rw [hf.state]; rfl)
      (accounts_setPerms pte w rfl) (hf.leaf rfl) (and_mask_eq pte 20)
  | .Ready, hf | .Waiting, hf => absurd hf.size_pos (by rw [hf.size]; decide)

end states

end Walker

end M5.X86
