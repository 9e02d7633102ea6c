import Mathlib.Algebra.Order.Ring.Int
import Mathlib.Data.List.Basic

/-!
# Radix tables

A table of several levels that maps the keys of a page to that page. A level takes its index from a field of the key,
and an entry is absent, maps a page, or gives the base of the table of the next level. Entries are numbers, read from a
memory `read`.
-/

namespace M5.Lib.Radix

open List

/-- A page of `2 ^ bits` keys. -/
structure Page where
  bits : Nat
  base : Nat
deriving DecidableEq

inductive Verdict
  | absent
  | page (p : Page)
  | table (base : Nat)
deriving DecidableEq

def Verdict.toPage : Verdict → Option Page
  | page p => some p
  | _ => none

/-- A level of tables: the field of `width` bits from bit `low` on is the index. -/
structure Level (L : Type) where
  label : L
  low : Nat
  width : Nat
  entrySize : Nat
  verdict : Nat → Verdict

variable {L : Type} {read read' : Nat → Nat} {v v' : Nat}

/-- Where the entry of a key is, in the table at `base`. -/
def Level.slot (l : Level L) (base v : Nat) : Nat := base + v / 2 ^ l.low % 2 ^ l.width * l.entrySize

/-- The entries on the way to the page, and the page. -/
def walk (read : Nat → Nat) (v : Nat) : List (Level L) → Nat → Option (List (L × Nat) × Page)
  | [], _ => none
  | l :: ls, base =>
    match l.verdict (read (l.slot base v)) with
    | .absent => none
    | .page p => some ([(l.label, read (l.slot base v))], p)
    | .table b => (walk read v ls b).map fun r => ((l.label, read (l.slot base v)) :: r.1, r.2)

section cons

variable {l : Level L} {ls : List (Level L)} {base b : Nat} {p : Page} {r : List (L × Nat) × Page}

theorem walk_absent (h : l.verdict (read (l.slot base v)) = .absent) : walk read v (l :: ls) base = none := by
  rw [walk, h]

theorem walk_page (h : l.verdict (read (l.slot base v)) = .page p) :
    walk read v (l :: ls) base = some ([(l.label, read (l.slot base v))], p) := by
  rw [walk, h]

theorem walk_table (h : l.verdict (read (l.slot base v)) = .table b) :
    walk read v (l :: ls) base = (walk read v ls b).map fun r => ((l.label, read (l.slot base v)) :: r.1, r.2) := by
  rw [walk, h]

theorem walk_last : (walk read v [l] base).map Prod.snd = (l.verdict (read (l.slot base v))).toPage := by
  cases hv : l.verdict (read (l.slot base v)) with
  | absent =>
    rw [walk_absent hv]
    rfl
  | page p =>
    rw [walk_page hv]
    rfl
  | table b =>
    rw [walk_table hv]
    rfl

theorem walk_cons_eq_some (h : walk read v (l :: ls) base = some r) :
    (l.verdict (read (l.slot base v)) = .page r.2 ∧ r.1 = [(l.label, read (l.slot base v))]) ∨
      ∃ b path, l.verdict (read (l.slot base v)) = .table b ∧ walk read v ls b = some (path, r.2) ∧
        r.1 = (l.label, read (l.slot base v)) :: path := by
  cases hv : l.verdict (read (l.slot base v)) with
  | absent =>
    rw [walk_absent hv] at h
    cases h
  | page p =>
    rw [walk_page hv] at h
    cases h
    exact .inl ⟨rfl, rfl⟩
  | table b =>
    rw [walk_table hv] at h
    obtain ⟨⟨path, p⟩, hw, rfl⟩ := Option.map_eq_some_iff.1 h
    exact .inr ⟨b, path, rfl, hw, rfl⟩

end cons

theorem label_mem_of_walk : ∀ {ls : List (Level L)} {base : Nat} {path : List (L × Nat)} {p : Page},
    walk read v ls base = some (path, p) → ∀ x ∈ path, ∃ l ∈ ls, x.1 = l.label
  | [], _, _, _, h => nomatch h
  | l :: ls, base, path, p, h => by
    intro x hx
    rcases walk_cons_eq_some h with ⟨-, rfl⟩ | ⟨b, path', -, hw, rfl⟩
    · rw [mem_singleton.1 hx]
      exact ⟨l, mem_cons_self, rfl⟩
    · rcases mem_cons.1 hx with rfl | hx
      · exact ⟨l, mem_cons_self, rfl⟩
      · obtain ⟨l', hl', he⟩ := label_mem_of_walk hw x hx
        exact ⟨l', mem_cons_of_mem _ hl', he⟩

/-- Each level tells the keys apart no finer than the pages that it maps, and than those of the levels below it. -/
def Nested (ls : List (Level L)) : Prop :=
  (∀ l ∈ ls, ∀ e p, l.verdict e = .page p → p.bits ≤ l.low) ∧ ls.Pairwise (fun l l' => l'.low ≤ l.low)

variable {l : Level L} {ls : List (Level L)}

theorem Nested.tail (h : Nested (l :: ls)) : Nested ls :=
  ⟨fun l' hl' => h.1 l' (mem_cons_of_mem _ hl'), h.2.of_cons⟩

theorem div_eq_of_le {k j : Nat} (h : v / 2 ^ k = v' / 2 ^ k) (hk : k ≤ j) : v / 2 ^ j = v' / 2 ^ j := by
  obtain ⟨d, rfl⟩ := Nat.exists_eq_add_of_le hk
  rw [Nat.pow_add, ← Nat.div_div_eq_div_mul, ← Nat.div_div_eq_div_mul, h]

theorem slot_eq {k : Nat} (h : v / 2 ^ k = v' / 2 ^ k) (hk : k ≤ l.low) (base : Nat) :
    l.slot base v' = l.slot base v := by
  unfold Level.slot
  rw [div_eq_of_le h hk]

theorem Nested.bits_le : ∀ {ls : List (Level L)} {base : Nat} {path : List (L × Nat)} {p : Page},
    Nested ls → (∀ l' ∈ ls, l'.low ≤ l.low) → walk read v ls base = some (path, p) → p.bits ≤ l.low
  | [], _, _, _, _, _, h => nomatch h
  | l' :: ls, base, path, p, hn, hl, h => by
    rcases walk_cons_eq_some h with ⟨hv, -⟩ | ⟨b, path', -, hw, -⟩
    · exact Nat.le_trans (hn.1 l' mem_cons_self _ _ hv) (hl l' mem_cons_self)
    · exact hn.tail.bits_le (fun l'' h'' => hl l'' (mem_cons_of_mem _ h'')) hw

theorem Nested.bits_le_head {base : Nat} {path : List (L × Nat)} {p : Page}
    (hn : Nested (l :: ls)) (h : walk read v (l :: ls) base = some (path, p)) : p.bits ≤ l.low := by
  rcases walk_cons_eq_some h with ⟨hv, -⟩ | ⟨b, path', -, hw, -⟩
  · exact hn.1 l mem_cons_self _ _ hv
  · exact hn.tail.bits_le (fun l' hl' => (pairwise_cons.1 hn.2).1 l' hl') hw

/-- The keys of a page have one walk. -/
theorem walk_samePage : ∀ {ls : List (Level L)} {base : Nat} {path : List (L × Nat)} {p : Page}, Nested ls →
    walk read v ls base = some (path, p) → v / 2 ^ p.bits = v' / 2 ^ p.bits →
      walk read v' ls base = some (path, p)
  | [], _, _, _, _, h, _ => nomatch h
  | l :: ls, base, path, p, hn, h, hd => by
    have hs := slot_eq hd (hn.bits_le_head h) base
    rcases walk_cons_eq_some h with ⟨hv, rfl⟩ | ⟨b, path', hv, hw, rfl⟩
    · rw [← hs] at hv ⊢
      exact walk_page hv
    · rw [← hs] at hv ⊢
      rw [walk_table hv, walk_samePage hn.tail hw hd]
      rfl

end M5.Lib.Radix
