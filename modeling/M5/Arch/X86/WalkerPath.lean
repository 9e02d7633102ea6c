import M5.Arch.X86.WalkerStates

/-!
# Walks along page tables

A walk of the code goes down the levels that the states of the walker stand for, while it sets accessed bits in memory.
In the modes with entries of eight bytes the page it finds is that of the architecture.
-/

namespace M5.X86

open M5.Lib M5.Lib.Radix ControlRegs Nat Bool List

namespace Walker

/-! ## Whole walks -/

/-- The states of a walk, each the next of the one before it, down to pages of 4 KB. -/
inductive Route : List State → Prop
  | leaf {q : State} (h : q.isLeaf) : Route [q]
  | cons {q : State} {qs : List State} (hs : q.next.level.entrySize = q.level.entrySize) (h : Route (q.next :: qs)) :
    Route (q :: q.next :: qs)

theorem not_table_of_isLeaf {q : State} (h : q.isLeaf) (e b : Nat) : q.level.verdict e ≠ .table b := by
  cases q with
  | LongPTE | PAEPTE | PTE => exact leaf_ne_table
  | _ => cases h

theorem Route.entrySize_eq : ∀ {qs : List State} {q : State}, Route (q :: qs) → ∀ q' ∈ q :: qs,
    q'.level.entrySize = q.level.entrySize
  | [], q, _, q', hq' => by rw [mem_singleton.1 hq']
  | _ :: _, q, .cons hs h, q', hq' => by
    rcases mem_cons.1 hq' with rfl | hq'
    · rfl
    · exact (h.entrySize_eq q' hq').trans hs

theorem entrySize_lt {q : State} (h : q.isWide = false) : q.level.entrySize < 8 := by
  cases q with
  | PSEPD | PD | PTE | Ready | Waiting => decide
  | _ => cases h

theorem dvd_slot {l : Level Say} {base v : Nat} (h : l.entrySize ∣ base) : l.entrySize ∣ l.slot base v :=
  Nat.dvd_add h (Nat.dvd_mul_left _ _)

end Walker

/-- A permission of the entries of a path, given that of the entries before it. -/
def joinAll (bit : Nat → Bool) : List (Say × Nat) → Bool → Bool
  | [], acc => acc
  | (s, e) :: path, acc => joinAll bit path (s.join acc (bit e))

namespace Walker

/-- Some entry of four bytes on the way has its accessed bit clear, and another one has to be read after it. -/
def stuck (read : Nat → Nat) (v : Nat) : List (Level Say) → Nat → Bool
  | [], _ => false
  | l :: ls, base =>
    match l.verdict (read (l.slot base v)) with
    | .table b => (decide (l.entrySize < 8) && !PTE.a (read (l.slot base v))) || stuck read v ls b
    | _ => false

section stuck

variable {read : Nat → Nat} {v base : Nat} {l : Level Say} {ls : List (Level Say)}

theorem stuck_table {b : Nat} (h : l.verdict (read (l.slot base v)) = .table b) :
    stuck read v (l :: ls) base =
      (decide (l.entrySize < 8) && !PTE.a (read (l.slot base v)) || stuck read v ls b) := by
  rw [stuck, h]

theorem stuck_of_not_table {d : Verdict} (hv : l.verdict (read (l.slot base v)) = d) (h : ∀ b, d ≠ .table b) :
    stuck read v (l :: ls) base = false := by
  unfold stuck
  split
  · exact absurd (hv.symm.trans ‹_›) (h _)
  · rfl

theorem stuck_of_wide : ∀ {ls : List (Level Say)} {base : Nat},
    (∀ l ∈ ls, l.entrySize = 8) → stuck read v ls base = false
  | [], _, _ => rfl
  | l :: ls, base, h => by
    unfold stuck
    rw [h l mem_cons_self]
    split
    · exact stuck_of_wide fun l' hl' => h l' (mem_cons_of_mem _ hl')
    · rfl

end stuck

structure Refused (res : Result) : Prop where
  fault : res.fault.isSome
  inserted : res.inserted = none

structure Inserts (vaddr : Nat) (p : Page) (writable user : Bool) (res : Result) : Prop where
  fault : res.fault = none
  inserted : ∃ e, res.inserted = some e ∧ Maps vaddr p writable user e

/-- What comes of a walk along a path. -/
def Leads (w : Walker) (res : Result) : Option (List (Say × Nat) × Page) → Prop
  | none => Refused res
  | some (path, p) =>
    if w.mode = .Execute ∧ w.enableNX ∧ ¬ Executable path then Refused res
    else Inserts w.entry.vaddr p (joinAll PTE.w path w.entry.writable) (joinAll PTE.u path w.entry.user) res

/-- A walk ends, unless an entry of four bytes would have to be written. -/
def Walks (w : Walker) (mem₀ : Memory) (ls : List (Level Say)) (base : Nat) (y : Except Stop Result) : Prop :=
  let read := fun a => leValue mem₀ a w.size
  if stuck read w.entry.vaddr ls base then ∃ f, y = .error f
  else ∃ res, y = .ok res ∧ res.walker.state = .Ready ∧ Marked w.size mem₀ res.mem ∧
    Leads w res (walk read w.entry.vaddr ls base)

section loop

variable {w : Walker} {pkt : ReadPkt} {mem mem₀ : Memory} {x : Next} {n : Nat}

theorem loop_last (hr : w.read = some pkt) (hx : w.doNext (leValue mem pkt.addr w.size) = .ok x)
    (hread : x.walker.read = none) (hwrite : x.write = none) :
    ∃ res, loop (n + 1) w mem = .ok res ∧ res.walker.state = .Ready ∧ res.mem = mem ∧ res.fault = x.fault ∧
      res.inserted = x.inserted := by
  unfold loop
  rw [hr]
  dsimp only
  rw [hx, ok_bind, ensure_of (.inr hread)]
  rw [hread, hwrite]
  exact ⟨_, rfl, rfl, rfl, rfl, rfl⟩

variable {pte e base : Nat} {q : State} {res : Result} {ls : List (Level Say)}
  {addr : Nat} {writable user : Bool} {path : List (Say × Nat)} {o : Option (List (Say × Nat) × Page)}

theorem loop_goesOn (hr : w.read = some pkt)
    (hx : w.doNext (leValue mem pkt.addr w.size) = .ok x) (hg : GoesOn w q pkt.addr pte addr writable user x) :
    loop (n + 1) w mem = loop n { x.walker with state := x.walker.nextState, nextState := .Ready }
      (match x.write with
        | some (addr, data) => blit mem addr x.walker.size (leByte data)
        | none => mem) := by
  obtain ⟨pkt', hread, -⟩ := hg.read
  rw [loop, hr]
  dsimp only
  rw [hx, ok_bind, ensure_of (.inl hg.fault)]
  rw [hread]
  rfl

theorem executable_cons {s : Say} :
    Executable ((s, e) :: path) ↔ (s ≠ .nothing → PTE.nx e = false) ∧ Executable path := by
  unfold Executable All
  simp

theorem leads_of_denied (hs : Same pte e) (hd : Denied q w pte) (h : Refused res) :
    Leads w res (o.map fun r => ((q.level.label, e) :: r.1, r.2)) := by
  cases o with
  | none => exact h
  | some r =>
    obtain ⟨hl, hb⟩ := hd
    obtain ⟨h1, henable⟩ := and_eq_true_iff.1 hb
    obtain ⟨hnx, hmode⟩ := and_eq_true_iff.1 h1
    have hne : ¬ Executable ((q.level.label, e) :: r.1) := by
      intro he
      have := (executable_cons.1 he).1 hl
      rw [← show PTE.nx pte = PTE.nx e from hs 63 (by decide), hnx] at this
      cases this
    show if _ then _ else _
    rwa [if_pos ⟨of_decide_eq_true hmode, henable, hne⟩]

theorem executable_cons_of_not_denied (hs : Same pte e)
    (hd : ¬ Denied q w pte) (hm : w.mode = .Execute) (hn : w.enableNX) :
    Executable ((q.level.label, e) :: path) ↔ Executable path := by
  rw [executable_cons]
  refine and_iff_right fun hl => ?_
  rw [← show PTE.nx pte = PTE.nx e from hs 63 (by decide)]
  refine eq_false_iff.2 fun hnx => hd ⟨hl, ?_⟩
  unfold badNX
  rw [hnx, hn, decide_eq_true hm]
  rfl

theorem Leads.cons {w' : Walker} (h : Leads w' res o) (hs : Same pte e) (hd : ¬ Denied q w pte) (hm : w'.mode = w.mode)
    (hn : w'.enableNX = w.enableNX) (hv : w'.entry.vaddr = w.entry.vaddr)
    (hw : w'.entry.writable = q.level.label.join w.entry.writable (PTE.w pte))
    (hu : w'.entry.user = q.level.label.join w.entry.user (PTE.u pte)) :
    Leads w res (o.map fun r => ((q.level.label, e) :: r.1, r.2)) := by
  cases o with
  | none => exact h
  | some r =>
    obtain ⟨path, p⟩ := r
    unfold Leads at h
    show if _ then _ else _
    have hc : (w.mode = .Execute ∧ w.enableNX ∧ ¬ Executable ((q.level.label, e) :: path)) ↔
        w'.mode = .Execute ∧ w'.enableNX ∧ ¬ Executable path := by
      rw [hm, hn]
      exact and_congr_right fun h1 => and_congr_right fun h2 => not_congr (executable_cons_of_not_denied hs hd h1 h2)
    rw [show PTE.w pte = PTE.w e from hs 1 (by decide)] at hw
    rw [show PTE.u pte = PTE.u e from hs 2 (by decide)] at hu
    rw [hv, hw, hu] at h
    simp only [hc]
    exact h

theorem leads_page {p : Page} (hs : Same pte e) (hd : ¬ Denied q w pte)
    (h : Inserts w.entry.vaddr p (q.level.label.join w.entry.writable (PTE.w pte))
      (q.level.label.join w.entry.user (PTE.u pte)) res) :
    Leads w res (some ([(q.level.label, e)], p)) := by
  have hl : Leads { w with entry := { w.entry with
      writable := q.level.label.join w.entry.writable (PTE.w pte),
      user := q.level.label.join w.entry.user (PTE.u pte) } } res (some ([], p)) := by
    show if _ then _ else _
    rw [if_neg (fun h => h.2.2 nofun)]
    exact h
  exact hl.cons hs hd rfl rfl rfl rfl rfl

theorem walks_last (hr : w.read = some pkt)
    (hx : w.doNext (leValue mem pkt.addr w.size) = .ok x) (hread : x.walker.read = none) (hwrite : x.write = none)
    (hm : Marked w.size mem₀ mem) (hst : stuck (fun a => leValue mem₀ a w.size) w.entry.vaddr ls base = false)
    (h : ∀ res : Result, res.fault = x.fault → res.inserted = x.inserted →
      Leads w res (walk (fun a => leValue mem₀ a w.size) w.entry.vaddr ls base)) :
    Walks w mem₀ ls base (loop (n + 1) w mem) := by
  obtain ⟨res, he, hready, hmem, h1, h2⟩ := loop_last hr hx hread hwrite
  unfold Walks
  dsimp only
  rw [hst]
  exact ⟨res, he, hready, hmem ▸ hm, h res h1 h2⟩

theorem walks_stuck {f : Stop} (hr : w.read = some pkt)
    (hx : w.doNext (leValue mem pkt.addr w.size) = .error f)
    (hst : stuck (fun a => leValue mem₀ a w.size) w.entry.vaddr ls base) :
    Walks w mem₀ ls base (loop (n + 1) w mem) := by
  unfold Walks
  rw [if_pos hst, loop, hr]
  dsimp only
  rw [hx]
  exact ⟨f, rfl⟩

theorem walks_table {b : Nat} {y : Except Stop Result} {old : Nat} (hg : GoesOn w q.next old pte addr writable user x)
    (hv : q.level.verdict (leValue mem₀ (q.level.slot base w.entry.vaddr) w.size) = .table b)
    (hc : q.level.entrySize < 8 → PTE.a (leValue mem₀ (q.level.slot base w.entry.vaddr) w.size))
    (hs : Same pte (leValue mem₀ (q.level.slot base w.entry.vaddr) w.size)) (hd : ¬ Denied q w pte)
    (hw : writable = q.level.label.join w.entry.writable (PTE.w pte))
    (hu : user = q.level.label.join w.entry.user (PTE.u pte))
    (h : Walks { x.walker with state := x.walker.nextState, nextState := .Ready } mem₀ ls b y) :
    Walks w mem₀ (q.level :: ls) base y := by
  have hst : stuck (fun a => leValue mem₀ a w.size) w.entry.vaddr (q.level :: ls) base =
      stuck (fun a => leValue mem₀ a w.size) w.entry.vaddr ls b := by
    rw [stuck_table hv]
    by_cases h8 : q.level.entrySize < 8
    · rw [hc h8, Bool.not_true, Bool.and_false, Bool.false_or]
    · rw [decide_eq_false h8, Bool.false_and, Bool.false_or]
  unfold Walks at h ⊢
  dsimp only at h ⊢
  rw [hg.size, hg.vaddr] at h
  rw [hst, walk_table hv]
  split at h
  · rw [if_pos ‹_›]
    exact h
  · rw [if_neg ‹_›]
    obtain ⟨res, he, hready, hm, hl⟩ := h
    exact ⟨res, he, hready, hm, hl.cons hs hd hg.mode hg.enableNX hg.vaddr (hg.writable.trans hw) (hg.user.trans hu)⟩

theorem Denied.wide (h : Denied q w pte) (hf : Fit q w) : q.level.entrySize = 8 := by
  cases hq : q.isWide with
  | true => exact of_decide_eq_true hq
  | false => exact absurd ((not_denied pte hf hq).1 h) nofun

theorem walks_cons (hf : Fit q w) (hr : w.read = some pkt)
    (haddr : pkt.addr = q.level.slot base w.entry.vaddr) (hbase : w.size ∣ pkt.addr) (hm : Marked w.size mem₀ mem)
    (hls : ∀ l ∈ ls, l.entrySize = q.level.entrySize)
    (hnext : ∀ {w' : Walker} {mem' : Memory} {pkt' : ReadPkt} {e b : Nat}, q.level.verdict e = .table b →
      Fit q.next w' →
      w'.read = some pkt' → pkt'.addr = q.next.level.slot b w'.entry.vaddr → Marked w'.size mem₀ mem' →
      Walks w' mem₀ ls b (loop n w' mem')) :
    Walks w mem₀ (q.level :: ls) base (loop (n + 1) w mem) := by
  obtain ⟨addr, c⟩ := pkt
  subst haddr
  have hs := hm.same hbase
  have hh := doNext_spec hr (leValue mem (q.level.slot base w.entry.vaddr) w.size) hf
  unfold Handles at hh
  rw [same_verdict hs q] at hh
  cases hv : q.level.verdict (leValue mem₀ (q.level.slot base w.entry.vaddr) w.size) with
  | absent =>
    rw [hv] at hh
    obtain ⟨x, hx, hfault⟩ := hh
    refine walks_last hr hx hfault.read hfault.write hm (stuck_of_not_table hv nofun) ?_
    intro res h1 h2
    rw [walk_absent hv]
    exact ⟨h1 ▸ hfault.fault, h2.trans hfault.inserted⟩
  | page p =>
    rw [hv] at hh
    obtain ⟨x, hx, hh⟩ := hh
    by_cases hd : Denied q w (leValue mem (q.level.slot base w.entry.vaddr) w.size)
    · rw [if_pos hd] at hh
      refine walks_last hr hx hh.read hh.write hm (stuck_of_not_table hv nofun) ?_
      intro res h1 h2
      rw [walk_page hv]
      exact leads_of_denied (o := some ([], p)) hs hd ⟨h1 ▸ hh.fault, h2.trans hh.inserted⟩
    · rw [if_neg hd] at hh
      refine walks_last hr hx hh.read hh.write hm (stuck_of_not_table hv nofun) ?_
      intro res h1 h2
      obtain ⟨e, hin, hmaps⟩ := hh.inserted
      rw [walk_page hv]
      exact leads_page hs hd ⟨h1.trans hh.fault, e, h2.trans hin, hmaps⟩
  | table b =>
    rw [hv] at hh
    dsimp only at hh
    by_cases hd : Denied q w (leValue mem (q.level.slot base w.entry.vaddr) w.size)
    · rw [if_pos hd] at hh
      obtain ⟨x, hx, hh⟩ := hh
      have h8 := hd.wide hf
      refine walks_last hr hx hh.read hh.write hm (stuck_of_wide ?_) ?_
      · exact forall_mem_cons.2 ⟨h8, fun l hl => (hls l hl).trans h8⟩
      · intro res h1 h2
        rw [walk_table hv]
        exact leads_of_denied hs hd ⟨h1 ▸ hh.fault, h2.trans hh.inserted⟩
    · rw [if_neg hd] at hh
      split at hh
      · rename_i hc
        obtain ⟨x, hx, hg⟩ := hh
        obtain ⟨pkt', hread', haddr'⟩ := hg.read
        rw [loop_goesOn hr hx hg]
        refine walks_table hg hv ?_ hs hd rfl rfl (hnext hv hg.fit hread' (hg.vaddr ▸ haddr') ?_)
        · -- entries of four bytes are as they were
          intro h8
          rw [hf.size.symm] at h8
          rw [← hm.eq h8]
          refine hc.resolve_left fun hw => ?_
          rw [hf.size, of_decide_eq_true hw] at h8
          omega
        · rcases hg.write with hwr | ⟨hwr, h8⟩
          · rw [hwr, hg.size]
            exact hm
          · rw [hwr, hg.size]
            exact hm.write (hg.size ▸ h8) hbase
      · rename_i hc
        obtain ⟨f, hx⟩ := hh
        obtain ⟨hw, ha⟩ := not_or.1 hc
        have h8 := entrySize_lt (eq_false_iff.2 hw)
        refine walks_stuck hr hx ?_
        rw [stuck_table hv, ← hm.eq (hf.size ▸ h8), decide_eq_true h8, eq_false_iff.2 ha]
        rfl

/-- The loop of `start`, by induction on the levels that are left. -/
theorem loop_spec {qs : List State} (h : Route (q :: qs)) (hn : qs.length < n) (hf : Fit q w)
    (hr : w.read = some pkt) (haddr : pkt.addr = q.level.slot base w.entry.vaddr) (hb : q.level.entrySize ∣ base)
    (hm : Marked w.size mem₀ mem) : Walks w mem₀ ((q :: qs).map State.level) base (loop n w mem) := by
  induction qs generalizing q n w mem pkt base with
  | nil =>
    cases h with
    | leaf hleaf =>
      obtain ⟨m, rfl⟩ := exists_eq_succ_of_ne_zero (ne_of_gt hn)
      have hdvd : w.size ∣ pkt.addr := hf.size ▸ haddr ▸ dvd_slot hb
      exact walks_cons hf hr haddr hdvd hm nofun fun hv => absurd hv (not_table_of_isLeaf hleaf _ _)
  | cons q' qs ih =>
    cases h with
    | cons hs h =>
      obtain ⟨m, rfl⟩ := exists_eq_succ_of_ne_zero (ne_of_gt (zero_lt_of_lt hn))
      have hdvd : w.size ∣ pkt.addr := hf.size ▸ haddr ▸ dvd_slot hb
      refine walks_cons hf hr haddr hdvd hm ?_ ?_
      · intro l hl
        obtain ⟨q', hq', rfl⟩ := mem_map.1 hl
        exact (h.entrySize_eq q' hq').trans hs
      · intro w' mem' pkt' e b hv hf' hr' haddr' hm'
        exact ih h (lt_of_succ_lt_succ hn) hf' hr' haddr' (hs ▸ dvd_of_table hv) hm'

end loop

/-! ## A walk from the control registers -/

section start

variable (w : Walker) (r : ControlRegs) (cpl v : Nat) (mode : Mode)

theorem setUp_size : (w.setUp r cpl v mode).size = r.entrySize := by
  unfold setUp entrySize wide
  cases r.lma with
  | true => rfl
  | false => cases r.pae <;> rfl

theorem setUp_enableNX : (w.setUp r cpl v mode).enableNX = r.enableNX := by
  unfold setUp ControlRegs.enableNX wide
  cases r.lma with
  | true => exact (Bool.true_and _).symm
  | false =>
    cases r.pae with
    | true => exact (Bool.true_and _).symm
    | false => rfl

theorem route_states : Route (states r) := by
  unfold states
  cases r.lma with
  | true => exact .cons rfl (.cons rfl (.cons rfl (.leaf rfl)))
  | false =>
    cases r.pae with
    | true => exact .cons rfl (.cons rfl (.leaf rfl))
    | false => cases r.pse <;> exact .cons rfl (.leaf rfl)

theorem setUp_fit {q : State} {qs : List State} (h : states r = q :: qs) :
    Fit q (w.setUp r cpl v mode) ∧ qs.length < 4 ∧ q.level.entrySize ∣ r.root ∧
      ∃ pkt, (w.setUp r cpl v mode).read = some pkt ∧ pkt.addr = q.level.slot r.root v := by
  have hbits : ∀ c first last, bits c first last <<< last = c / 2 ^ last % 2 ^ (first - last + 1) * 2 ^ last := by
    intro c first last
    rw [bits_eq, shiftLeft_eq]
  unfold states at h
  unfold setUp root
  cases hl : r.lma with
  | true =>
    rw [hl] at h
    cases h
    refine ⟨⟨rfl, rfl, succ_pos _, nofun, nofun⟩, by decide, dvd_frame (by decide) rfl, _, rfl, ?_⟩
    exact congrArg₂ (· + ·) (hbits r.cr3 51 12) (congrArg (· * 8) (bits_eq v 47 39))
  | false =>
    cases hp : r.pae with
    | true =>
      rw [hl, hp] at h
      cases h
      refine ⟨⟨rfl, rfl, succ_pos _, nofun, nofun⟩, by decide, Nat.dvd_mul_left_of_dvd (by decide) _, _, rfl, ?_⟩
      exact congrArg₂ (· + ·) (hbits r.cr3 31 5) (congrArg (· * 8) (bits_eq v 31 30))
    | false =>
      have haddr : CR3.pdtb r.cr3 <<< 12 + VAddr.norml2 v * 4 = frame 20 r.cr3 + v / 2 ^ 22 % 2 ^ 10 * 4 :=
        congrArg₂ (· + ·) (hbits r.cr3 31 12) (congrArg (· * 4) (bits_eq v 31 22))
      cases hs : r.pse <;> rw [hl, hp, hs] at h <;> cases h <;>
        exact ⟨⟨rfl, rfl, succ_pos _, fun _ => rfl, nofun⟩, by decide, dvd_frame (by decide) rfl, _, rfl, haddr⟩

variable {w} {mem mem₀ : Memory}

/-- A walk finds the page on its path, or a fault. -/
theorem start_spec (hw : w.state = .Ready) (hm : Marked r.entrySize mem₀ mem) :
    Walks (w.setUp r cpl v mode) mem₀ ((states r).map State.level) r.root (w.start r cpl v mode mem) := by
  have hroute := route_states r
  cases hq : states r with
  | nil =>
    rw [hq] at hroute
    cases hroute
  | cons q qs =>
    rw [hq] at hroute
    obtain ⟨hf, hn, hb, pkt, hread, haddr⟩ := setUp_fit w r cpl v mode hq
    unfold start
    rw [ensure_of hw]
    exact loop_spec hroute hn hf hread haddr hb (setUp_size w r cpl v mode ▸ hm)

end start

/-! ## The translation of the architecture -/

variable (r : ControlRegs) (mem : Memory)

def entries (a : Nat) : Nat := leValue mem a r.entrySize

/-- An entry for the page of a path is inserted, or a fault comes of an entry that is not present or that forbids the
execution that the walk is for. -/
def Answers (mode : Mode) (nx : Bool) (res : Result) : Option (List (Say × Nat) × Page) → Prop
  | none => Refused res
  | some (path, p) =>
    if mode = .Execute ∧ nx ∧ ¬ Executable path then Refused res
    else res.fault = none ∧ ∃ e, res.inserted = some e ∧ e.size = 2 ^ p.bits ∧ e.paddr = p.base

/-- The walk ends, with the answer for the path that the architecture defines. -/
def Translates (v : Nat) (mode : Mode) (y : Except Stop Result) : Prop :=
  ∃ res, y = .ok res ∧ Answers mode r.enableNX res (r.path (entries r mem) v)

/-- The walks of the code that do not go wrong. In 32-bit mode, where the directory gives the base of a table, its entry
has the accessed bit, and the entry at the index of the directory says what the one at the right index says. -/
def Straight (v : Nat) : Prop :=
  r.wide ∨
    let pde := entries r mem ((normDirectory r.pse).slot r.root v)
    match (normDirectory r.pse).verdict pde with
    | .table b => PTE.a pde ∧
      leaf 20 (entries r mem (b + v / 2 ^ 22 % 2 ^ 10 * 4)) = leaf 20 (entries r mem (b + v / 2 ^ 12 % 2 ^ 10 * 4))
    | _ => True

section translates

variable {w : Walker} {r : ControlRegs} {cpl v : Nat} {mode : Mode} {mem mem₀ : Memory}

theorem start_eq (cpl v : Nat) (mode : Mode) (hw : w.state = .Ready) (hm : Marked r.entrySize mem₀ mem) :
    if stuck (entries r mem₀) v ((states r).map State.level) r.root then ∃ f, w.start r cpl v mode mem = .error f
    else ∃ res, w.start r cpl v mode mem = .ok res ∧ res.walker.state = .Ready ∧ Marked r.entrySize mem₀ res.mem ∧
      Leads (w.setUp r cpl v mode) res (codedPath r (entries r mem₀) v) := by
  have h := start_spec r cpl v mode hw hm
  unfold Walks at h
  rw [setUp_size] at h
  exact h

variable {read : Nat → Nat} {res : Result}

theorem not_stuck_of_wide (h : r.wide) : stuck read v ((states r).map State.level) r.root = false := by
  refine stuck_of_wide ?_
  unfold wide at h
  unfold states
  cases hl : r.lma with
  | true =>
    rw [if_pos rfl]
    decide
  | false =>
    rw [hl, Bool.false_or] at h
    rw [h, if_pos rfl]
    decide

theorem states_of_not_wide (h : r.wide = false) :
    (states r).map State.level = [normDirectory r.pse, State.PTE.level] ∧ r.levels = normLevels r.pse := by
  obtain ⟨hl, hp⟩ := or_eq_false_iff.1 h
  unfold states levels
  rw [hl, hp]
  cases r.pse <;> exact ⟨rfl, rfl⟩

theorem Leads.answers {o : Option (List (Say × Nat) × Page)} (h : Leads (w.setUp r cpl v mode) res o) :
    Answers mode r.enableNX res o := by
  cases o with
  | none => exact h
  | some x =>
    unfold Leads at h
    rw [setUp_enableNX] at h
    obtain ⟨path, p⟩ := x
    by_cases hc : mode = .Execute ∧ r.enableNX ∧ ¬ Executable path
    · exact (if_pos hc).mpr ((if_pos hc).mp h)
    · obtain ⟨hf, e, hin, hmaps⟩ := (if_neg hc).mp h
      exact (if_neg hc).mpr ⟨hf, e, hin, hmaps.size, hmaps.paddr⟩

theorem translates_of_wide (hw : w.state = .Ready) (h : r.wide) :
    Translates r mem v mode (w.start r cpl v mode mem) := by
  have hs := start_eq cpl v mode hw (.refl r.entrySize mem)
  rw [not_stuck_of_wide h, codedPath_of_wide h] at hs
  obtain ⟨res, he, -, -, hl⟩ := hs
  exact ⟨res, he, hl.answers⟩

theorem answers_some {x : List (Say × Nat) × Page} :
    Answers mode false res (some x) ↔
      res.fault = none ∧ ∃ e, res.inserted = some e ∧ e.size = 2 ^ x.2.bits ∧ e.paddr = x.2.base := by
  have hc : ¬ (mode = .Execute ∧ false = true ∧ ¬ Executable x.1) := fun h => nomatch h.2.1
  exact iff_of_eq (if_neg hc)

theorem answers_iff {o o' : Option (List (Say × Nat) × Page)} (h : Answers mode false res o) :
    Answers mode false res o' ↔ o.map Prod.snd = o'.map Prod.snd := by
  cases o with
  | none =>
    cases o' with
    | none => exact iff_of_true h rfl
    | some x' =>
      refine iff_of_false (fun h' => ?_) nofun
      have hf : res.fault.isSome := h.fault
      rw [(answers_some.1 h').1] at hf
      cases hf
  | some x =>
    obtain ⟨hf, e, hin, hsize, hpaddr⟩ := answers_some.1 h
    cases o' with
    | none =>
      refine iff_of_false (fun h' => ?_) nofun
      exact nomatch hin.symm.trans h'.inserted
    | some x' =>
      rw [answers_some]
      constructor
      · rintro ⟨-, e', hin', hsize', hpaddr'⟩
        obtain rfl : e = e' := Option.some.inj (hin.symm.trans hin')
        have hbits : x.2.bits = x'.2.bits := Nat.pow_right_injective (Nat.le_refl 2) (hsize.symm.trans hsize')
        have hbase : x.2.base = x'.2.base := hpaddr.symm.trans hpaddr'
        show some x.2 = some x'.2
        rw [show x.2 = ⟨x.2.bits, x.2.base⟩ from rfl, hbits, hbase]
      · intro he
        have he : x.2 = x'.2 := Option.some.inj he
        exact ⟨hf, e, hin, he ▸ hsize, he ▸ hpaddr⟩

/-- In 32-bit mode the code and the architecture go to the same page iff they read entries that say the same. -/
theorem pages_eq_iff (h : r.wide = false) :
    (codedPath r read v).map Prod.snd = (r.path read v).map Prod.snd ↔
      ∀ b, (normDirectory r.pse).verdict (read ((normDirectory r.pse).slot r.root v)) = .table b →
        leaf 20 (read (b + v / 2 ^ 22 % 2 ^ 10 * 4)) = leaf 20 (read (b + v / 2 ^ 12 % 2 ^ 10 * 4)) := by
  obtain ⟨hs, hl⟩ := states_of_not_wide h
  unfold codedPath path
  rw [hs, hl, normLevels]
  cases hv : (normDirectory r.pse).verdict (read ((normDirectory r.pse).slot r.root v)) with
  | absent =>
    rw [walk_absent hv, walk_absent hv]
    exact iff_of_true rfl nofun
  | page p =>
    rw [walk_page hv, walk_page hv]
    exact iff_of_true rfl nofun
  | table b =>
    rw [walk_table hv, walk_table hv, Option.map_map, Option.map_map]
    have hsnd : Prod.snd ∘ (fun x : List (Say × Nat) × Page =>
        (((normDirectory r.pse).label, read ((normDirectory r.pse).slot r.root v)) :: x.1, x.2)) = Prod.snd := rfl
    rw [hsnd, walk_last, walk_last]
    refine leaf_eq_iff.symm.trans ⟨fun he b' hb' => ?_, fun he => he b rfl⟩
    cases hb'
    exact he

theorem stuck_of_not_wide (h : r.wide = false) :
    stuck read v ((states r).map State.level) r.root ↔
      ∃ b, (normDirectory r.pse).verdict (read ((normDirectory r.pse).slot r.root v)) = .table b ∧
        PTE.a (read ((normDirectory r.pse).slot r.root v)) = false := by
  rw [(states_of_not_wide h).1]
  cases hv : (normDirectory r.pse).verdict (read ((normDirectory r.pse).slot r.root v)) with
  | absent | page =>
    rw [stuck_of_not_table hv nofun]
    exact iff_of_false nofun (fun ⟨_, hb, _⟩ => nomatch hb)
  | table b =>
    rw [stuck_table hv, stuck_of_not_table rfl fun _ => leaf_ne_table, Bool.or_false]
    refine ⟨fun ha => ⟨b, rfl, ?_⟩, fun ⟨_, _, ha⟩ => ?_⟩
    · exact not_eq_true' _ ▸ (and_eq_true_iff.1 ha).2
    · rw [ha]
      rfl

theorem straight_iff (h : r.wide = false) :
    Straight r mem v ↔
      ∀ b, (normDirectory r.pse).verdict (entries r mem ((normDirectory r.pse).slot r.root v)) = .table b →
        PTE.a (entries r mem ((normDirectory r.pse).slot r.root v)) ∧
        leaf 20 (entries r mem (b + v / 2 ^ 22 % 2 ^ 10 * 4)) =
          leaf 20 (entries r mem (b + v / 2 ^ 12 % 2 ^ 10 * 4)) := by
  unfold Straight
  rw [h]
  cases hv : (normDirectory r.pse).verdict (entries r mem ((normDirectory r.pse).slot r.root v)) <;> simp [hv]

/-- The walk is the translation of the architecture iff the mode has entries of eight bytes, or the walk reads, in its
last level too, an entry that says what the right one says. -/
theorem translates_iff (w : Walker) (hw : w.state = .Ready) (r : ControlRegs) (cpl v : Nat) (mode : Mode)
    (mem : Memory) :
    Translates r mem v mode (w.start r cpl v mode mem) ↔ Straight r mem v := by
  cases hwide : r.wide with
  | true => exact iff_of_true (translates_of_wide hw hwide) (.inl hwide)
  | false =>
    have hnx : r.enableNX = false := by
      unfold ControlRegs.enableNX
      rw [hwide, Bool.false_and]
    have hs := start_eq cpl v mode hw (.refl r.entrySize mem)
    rw [straight_iff hwide]
    split at hs
    · obtain ⟨b, hb, ha⟩ := (stuck_of_not_wide hwide).1 ‹_›
      obtain ⟨f, hf⟩ := hs
      refine iff_of_false ?_ fun h => ?_
      · rintro ⟨res, he, -⟩
        exact nomatch hf.symm.trans he
      · exact false_ne_true (ha.symm.trans (h b hb).1)
    · rename_i hst
      obtain ⟨res, he, -, -, hl⟩ := hs
      have ha := hl.answers
      rw [hnx] at ha
      have hiff : Translates r mem v mode (w.start r cpl v mode mem) ↔
          Answers mode false res (r.path (entries r mem) v) := by
        unfold Translates
        rw [hnx]
        refine ⟨?_, fun h => ⟨res, he, h⟩⟩
        rintro ⟨res', he', h⟩
        cases he.symm.trans he'
        exact h
      rw [hiff, answers_iff ha, pages_eq_iff hwide]
      refine forall_congr' fun b => forall_congr' fun hb => (and_iff_right ?_).symm
      exact of_not_eq_false fun h => hst ((stuck_of_not_wide hwide).2 ⟨b, hb, h⟩)

/-- A page of 4 KB in long mode. -/
def longTables : Memory :=
  blit (blit (blit (blit (fun _ => 0) 0x1000 8 (leByte 0x2007)) 0x2000 8 (leByte 0x3007)) 0x3000 8 (leByte 0x4007))
    0x4008 8 (leByte 0x5007)

theorem translates_longTables :
    Translates ⟨0x1000, 0, 0x400⟩ longTables 0x1234 .Execute
      (start {} ⟨0x1000, 0, 0x400⟩ 3 0x1234 .Execute longTables) :=
  (translates_iff {} rfl ⟨0x1000, 0, 0x400⟩ 3 0x1234 .Execute longTables).2 (.inl rfl)

/-- A page table in 32-bit mode, with pages in its first two entries. -/
def normTables : Memory :=
  blit (blit (blit (fun _ => 0) 0x1000 4 (leByte 0x2027)) 0x2000 4 (leByte 0x5007)) 0x2004 4 (leByte 0x6007)

/-- In 32-bit mode the second page of the table is taken for the first one. -/
theorem not_translates_normTables :
    ¬ Translates ⟨0x1000, 0, 0⟩ normTables 0x1234 .Read (start {} ⟨0x1000, 0, 0⟩ 3 0x1234 .Read normTables) := by
  have hpath : (path ⟨0x1000, 0, 0⟩ (entries ⟨0x1000, 0, 0⟩ normTables) 0x1234) =
      some ([(.first, 0x2027), (.further, 0x6007)], ⟨12, 0x6000⟩) := by decide +kernel
  have hstart : ((start {} ⟨0x1000, 0, 0⟩ 3 0x1234 .Read normTables).toOption.bind (·.inserted)).map (·.paddr) =
      some 0x5000 := by decide +kernel
  rintro ⟨res, he, h⟩
  rw [he] at hstart
  rw [hpath] at h
  obtain ⟨-, e, hin, -, hpaddr⟩ := answers_some.1 h
  rw [show (.ok res : Except Stop Result).toOption.bind (·.inserted) = res.inserted from rfl, hin] at hstart
  exact absurd (hpaddr.symm.trans (Option.some.inj hstart)) (by decide)

end translates

end Walker

end M5.X86
