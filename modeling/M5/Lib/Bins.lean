import Mathlib.Data.List.Basic
import Mathlib.Order.Basic
import Mathlib.Order.Lattice
import Mathlib.Data.List.Pairwise

/-!
# Sorted bins against a log of insertions

A priority queue whose elements of equal key form a stack can be kept as bins: a list of pairs of a key and its stack,
with the keys strictly increasing. What it is for is said on a log of the insertions still pending, newest first, where
the next element to serve is the newest one of the least key.
-/

namespace M5.Lib

open List

universe u v

variable {K : Type u} {E : Type v} [LinearOrder K]

namespace Log

def stack (log : List (K × E)) (k : K) : List E :=
  (log.filter (fun a => a.1 = k)).map Prod.snd

/-- Forget every insertion of the element. -/
def remove [DecidableEq E] (log : List (K × E)) (e : E) : List (K × E) :=
  log.filter (fun a => a.2 ≠ e)

/-- The newest insertion among those of the least key. -/
def top (log : List (K × E)) : Option (K × E) :=
  log.find? (fun a => log.all (fun b => a.1 ≤ b.1))

theorem stack_cons (log : List (K × E)) (k k' : K) (e : E) :
    stack ((k, e) :: log) k' = if k' = k then e :: stack log k' else stack log k' := by
  unfold stack
  by_cases h : k' = k
  · simp [h]
  · simp [h, Ne.symm h]

theorem stack_remove [DecidableEq E] (log : List (K × E)) (e : E) (k : K) :
    stack (remove log e) k = (stack log k).filter (· ≠ e) := by
  unfold stack remove
  rw [filter_map, filter_filter, filter_filter]
  congr 1
  apply filter_congr
  simp [Bool.and_comm]

theorem mem_stack {log : List (K × E)} {k : K} {e : E} : e ∈ stack log k ↔ (k, e) ∈ log := by
  constructor
  · intro h
    obtain ⟨⟨k', e'⟩, h1, h2⟩ := mem_map.1 h
    obtain ⟨h1, h3⟩ := mem_filter.1 h1
    simp only [decide_eq_true_eq] at h2 h3
    rwa [← h2, ← h3]
  · intro h
    exact mem_map.2 ⟨(k, e), mem_filter.2 ⟨h, by simp⟩, rfl⟩

theorem le_of_top {log : List (K × E)} {a : K × E} (h : top log = some a) : ∀ b ∈ log, a.1 ≤ b.1 := by
  have hall := find?_some h
  intro b hb
  simpa using all_eq_true.1 hall b hb

theorem find_key {k : K} {e : E} {l : List E} : ∀ {log : List (K × E)}, stack log k = e :: l →
    log.find? (fun a => a.1 = k) = some (k, e)
  | [], h => by simp [stack] at h
  | (k', e') :: log, h => by
    rw [stack_cons] at h
    by_cases hk : k = k'
    · subst hk
      simp only [if_true, cons.injEq] at h
      simp [h.1]
    · rw [if_neg hk] at h
      simpa [Ne.symm hk] using find_key h

end Log

namespace Bins

/-- Put the element on the stack of its key, with a new bin where the key has none. -/
def push (k : K) (e : E) : List (K × List E) → List (K × List E)
  | [] => [(k, [e])]
  | (k', b) :: bs =>
    if k < k' then (k, [e]) :: (k', b) :: bs
    else if k = k' then (k', e :: b) :: bs
    else (k', b) :: push k e bs

/-- Take the element out of the stack of its key, and the bin with it when it was the last. -/
def erase [DecidableEq E] (k : K) (e : E) : List (K × List E) → List (K × List E)
  | [] => []
  | (k', b) :: bs =>
    if k = k' then (if b.erase e = [] then bs else (k', b.erase e) :: bs)
    else (k', b) :: erase k e bs

/-- The stack of the key. -/
def stack : List (K × List E) → K → List E
  | [], _ => []
  | (k', b) :: bs, k => if k = k' then b else stack bs k

def elems (bs : List (K × List E)) : List E := (bs.map Prod.snd).flatten

/-- Keys strictly increasing, and every bin a non-empty stack of distinct elements of its key. -/
structure WF (key : E → K) (bs : List (K × List E)) : Prop where
  keys : bs.Pairwise (fun a b => a.1 < b.1)
  ne_nil : ∀ a ∈ bs, a.2 ≠ []
  keyed : ∀ a ∈ bs, ∀ e ∈ a.2, key e = a.1
  nodup : ∀ a ∈ bs, a.2.Nodup

/-- Every stack of the bins is what the log holds for its key. -/
def Agrees (bs : List (K × List E)) (log : List (K × E)) : Prop :=
  ∀ k, stack bs k = Log.stack log k

variable {key key' : E → K} {bs : List (K × List E)} {k k' : K} {e x : E} {b : List E} {log : List (K × E)}

/-! ## Well-formed bins -/

omit [LinearOrder K] in
theorem elems_cons : elems ((k, b) :: bs) = b ++ elems bs := by simp [elems]

omit [LinearOrder K] in
theorem mem_elems : x ∈ elems bs ↔ ∃ a ∈ bs, x ∈ a.2 := by
  rw [elems, ← flatMap_def, mem_flatMap]

theorem WF.nil : WF key ([] : List (K × List E)) :=
  ⟨.nil, by simp, by simp, by simp⟩

theorem wf_cons : WF key ((k, b) :: bs) ↔
    (∀ a ∈ bs, k < a.1) ∧ b ≠ [] ∧ (∀ x ∈ b, key x = k) ∧ b.Nodup ∧ WF key bs := by
  constructor
  · rintro ⟨h1, h2, h3, h4⟩
    rw [pairwise_cons] at h1
    simp only [forall_mem_cons] at h2 h3 h4
    exact ⟨h1.1, h2.1, h3.1, h4.1, h1.2, h2.2, h3.2, h4.2⟩
  · rintro ⟨h1, h2, h3, h4, h5⟩
    exact ⟨pairwise_cons.2 ⟨h1, h5.keys⟩, forall_mem_cons.2 ⟨h2, h5.ne_nil⟩,
      forall_mem_cons.2 ⟨h3, h5.keyed⟩, forall_mem_cons.2 ⟨h4, h5.nodup⟩⟩

theorem WF.lt_key (h : WF key ((k, b) :: bs)) (hx : x ∈ elems bs) : k < key x := by
  obtain ⟨hlt, -, -, -, ht⟩ := wf_cons.1 h
  obtain ⟨a, ha, hxa⟩ := mem_elems.1 hx
  rw [ht.keyed a ha x hxa]
  exact hlt a ha

theorem WF.notMem_elems (h : WF key ((k, b) :: bs)) (hx : x ∈ b) : x ∉ elems bs :=
  fun hx' => (h.lt_key hx').ne' ((wf_cons.1 h).2.2.1 x hx)

theorem WF.congr (h : WF key bs) (hk : ∀ x ∈ elems bs, key' x = key x) : WF key' bs :=
  ⟨h.keys, h.ne_nil, fun a ha y hy => (hk y (mem_elems.2 ⟨a, ha, hy⟩)).trans (h.keyed a ha y hy), h.nodup⟩

theorem stack_of_lt : ∀ {bs : List (K × List E)}, (∀ a ∈ bs, k < a.1) → stack bs k = []
  | [], _ => rfl
  | (k', b) :: bs, h => by
    have h1 : k < k' := h (k', b) (by simp)
    rw [stack, if_neg h1.ne]
    exact stack_of_lt (fun a ha => h a (by simp [ha]))

theorem WF.mem_stack : ∀ {bs : List (K × List E)}, WF key bs → (x ∈ stack bs k ↔ x ∈ elems bs ∧ key x = k)
  | [], _ => by simp [stack, elems]
  | (k', b) :: bs, h => by
    obtain ⟨-, -, hkey, -, ht⟩ := wf_cons.1 h
    have ih := WF.mem_stack ht
    rw [elems_cons, mem_append, stack]
    split
    · next hk =>
      subst hk
      constructor
      · exact fun hx => ⟨.inl hx, hkey x hx⟩
      · rintro ⟨hx | hx, hkx⟩
        · exact hx
        · exact absurd hkx (h.lt_key hx).ne'
    · next hk =>
      rw [ih]
      constructor
      · exact fun hx => ⟨.inr hx.1, hx.2⟩
      · rintro ⟨hx | hx, hkx⟩
        · exact absurd (hkx.symm.trans (hkey x hx)) hk
        · exact ⟨hx, hkx⟩

theorem WF.nodup_stack : ∀ {bs : List (K × List E)}, WF key bs → (stack bs k).Nodup
  | [], _ => by simp [stack]
  | (k', b) :: bs, h => by
    obtain ⟨-, -, -, hn, ht⟩ := wf_cons.1 h
    rw [stack]
    split
    · exact hn
    · exact WF.nodup_stack ht

theorem WF.nodup_elems : ∀ {bs : List (K × List E)}, WF key bs → (elems bs).Nodup
  | [], _ => by simp [elems]
  | (k', b) :: bs, h => by
    obtain ⟨-, -, -, hn, ht⟩ := wf_cons.1 h
    rw [elems_cons, nodup_append]
    refine ⟨hn, WF.nodup_elems ht, ?_⟩
    rintro x hx y hy rfl
    exact h.notMem_elems hx hy

theorem WF.length_le : ∀ {bs : List (K × List E)}, WF key bs → bs.length ≤ (elems bs).length
  | [], _ => Nat.zero_le _
  | (k', b) :: bs, h => by
    obtain ⟨-, hne, -, -, ht⟩ := wf_cons.1 h
    have h1 := WF.length_le ht
    have h2 := length_pos_iff.2 hne
    rw [elems_cons, length_append, length_cons]
    omega

/-! ## Insertion -/

theorem lt_push (hk : k' < k) : ∀ {bs : List (K × List E)}, (∀ a ∈ bs, k' < a.1) → ∀ a ∈ push k e bs, k' < a.1
  | [], _ => forall_mem_singleton.2 hk
  | (k0, b) :: bs, h => by
    obtain ⟨h0, h⟩ := forall_mem_cons.1 h
    rw [push]
    split_ifs
    · exact forall_mem_cons.2 ⟨hk, forall_mem_cons.2 ⟨h0, h⟩⟩
    · exact forall_mem_cons.2 ⟨h0, h⟩
    · exact forall_mem_cons.2 ⟨h0, lt_push hk h⟩

theorem mem_elems_push : ∀ {bs : List (K × List E)}, x ∈ elems (push k e bs) ↔ x = e ∨ x ∈ elems bs
  | [] => by simp [push, elems]
  | (k', b) :: bs => by
    rw [push]
    split_ifs
    · simp [elems_cons]
    · simp [elems_cons]
    · rw [elems_cons, elems_cons, mem_append, mem_append, mem_elems_push]
      tauto

theorem WF.push : ∀ {bs : List (K × List E)}, WF key bs → e ∉ elems bs → key e = k → WF key (push k e bs)
  | [], _, _, hk => by
    rw [Bins.push, wf_cons]
    exact ⟨by simp, by simp, by simpa using hk, by simp, nil⟩
  | (k', b) :: bs, h, he, hk => by
    obtain ⟨hlt, hne, hkey, hn, ht⟩ := wf_cons.1 h
    rw [elems_cons, mem_append, not_or] at he
    rw [Bins.push]
    split_ifs with h1 h2
    · exact wf_cons.2 ⟨forall_mem_cons.2 ⟨h1, fun a ha => h1.trans (hlt a ha)⟩, by simp, by simpa using hk, by simp, h⟩
    · subst h2
      exact wf_cons.2 ⟨hlt, by simp, forall_mem_cons.2 ⟨hk, hkey⟩, nodup_cons.2 ⟨he.1, hn⟩, ht⟩
    · have hgt : k' < k := lt_of_le_of_ne (not_lt.1 h1) (.symm h2)
      exact wf_cons.2 ⟨lt_push hgt hlt, hne, hkey, hn, WF.push ht he.2 hk⟩

theorem WF.stack_push : ∀ {bs : List (K × List E)}, WF key bs →
    stack (Bins.push k e bs) k' = if k' = k then e :: stack bs k' else stack bs k'
  | [], _ => by simp only [Bins.push, stack]
  | (k0, b) :: bs, h => by
    obtain ⟨hlt, -, -, -, ht⟩ := wf_cons.1 h
    have ih := WF.stack_push ht
    rw [Bins.push]
    by_cases h1 : k < k0
    · -- a new bin in front: its key has no stack yet
      have h4 : stack ((k0, b) :: bs) k = [] :=
        stack_of_lt (forall_mem_cons.2 ⟨h1, fun a ha => h1.trans (hlt a ha)⟩)
      rw [if_pos h1, stack]
      split_ifs with h3
      · rw [h3, h4]
      · rfl
    · rw [if_neg h1]
      by_cases h2 : k = k0
      · subst h2
        by_cases h3 : k' = k <;> simp [stack, h3]
      · rw [if_neg h2, stack, ih, stack]
        by_cases h3 : k' = k
        · rw [h3, if_neg h2, if_neg h2]
        · simp only [if_neg h3]

/-- Pushing on both sides keeps them agreeing. -/
theorem Agrees.push (h : Agrees bs log) (hw : WF key bs) : Agrees (Bins.push k e bs) ((k, e) :: log) := by
  intro k'
  rw [hw.stack_push, Log.stack_cons, h k']

/-! ## Removal -/

section Erase

variable [DecidableEq E]

theorem lt_erase : ∀ {bs : List (K × List E)}, (∀ a ∈ bs, k' < a.1) → ∀ a ∈ erase k e bs, k' < a.1
  | [], h => h
  | (k0, b) :: bs, h => by
    obtain ⟨h0, h⟩ := forall_mem_cons.1 h
    rw [erase]
    split_ifs
    · exact h
    · exact forall_mem_cons.2 ⟨h0, h⟩
    · exact forall_mem_cons.2 ⟨h0, lt_erase h⟩

theorem WF.erase : ∀ {bs : List (K × List E)}, WF key bs → WF key (erase k e bs)
  | [], h => h
  | (k', b) :: bs, h => by
    obtain ⟨hlt, hne, hkey, hn, ht⟩ := wf_cons.1 h
    rw [Bins.erase]
    split_ifs with h1 h2
    · exact ht
    · exact wf_cons.2 ⟨hlt, h2, fun x hx => hkey x (mem_of_mem_erase hx), hn.erase e, ht⟩
    · exact wf_cons.2 ⟨lt_erase hlt, hne, hkey, hn, WF.erase ht⟩

theorem WF.stack_erase : ∀ {bs : List (K × List E)}, WF key bs →
    stack (Bins.erase k e bs) k' = if k' = k then (stack bs k').erase e else stack bs k'
  | [], _ => by simp [Bins.erase, stack]
  | (k0, b) :: bs, h => by
    obtain ⟨hlt, -, -, -, ht⟩ := wf_cons.1 h
    have ih := WF.stack_erase ht
    rw [Bins.erase]
    by_cases h1 : k = k0
    · subst h1
      rw [if_pos rfl]
      by_cases h2 : b.erase e = []
      · -- the bin goes away, and no later bin has its key
        rw [if_pos h2, stack]
        by_cases h3 : k' = k
        · rw [h3, if_pos rfl, if_pos rfl, h2, stack_of_lt hlt]
        · simp only [if_neg h3]
      · by_cases h3 : k' = k <;> simp [stack, h2, h3]
    · rw [if_neg h1, stack, ih, stack]
      by_cases h3 : k' = k
      · rw [h3, if_neg h1, if_neg h1]
      · simp only [if_neg h3]

theorem WF.stack_erase_key (h : WF key bs) : stack (Bins.erase (key e) e bs) k' = (stack bs k').filter (· ≠ e) := by
  rw [h.stack_erase]
  split_ifs with hk
  · rw [h.nodup_stack.erase_eq_filter]
    exact filter_congr (fun x _ => by rw [Bool.eq_iff_iff]; simp)
  · refine (filter_eq_self.2 ?_).symm
    intro x hx
    have hx := (h.mem_stack.1 hx).2
    simp only [decide_eq_true_eq]
    rintro rfl
    exact hk hx.symm

theorem WF.mem_elems_erase (h : WF key bs) : x ∈ elems (Bins.erase (key e) e bs) ↔ x ∈ elems bs ∧ x ≠ e := by
  have h0 : WF key (Bins.erase (key e) e bs) := h.erase
  have h1 := h0.mem_stack (k := key x) (x := x)
  have h2 := h.mem_stack (k := key x) (x := x)
  rw [h.stack_erase_key, mem_filter, h2] at h1
  simpa using h1.symm

/-- Erasing on both sides keeps them agreeing. -/
theorem Agrees.erase (h : Agrees bs log) (hw : WF key bs) : Agrees (Bins.erase (key e) e bs) (Log.remove log e) := by
  intro k'
  rw [hw.stack_erase_key, Log.stack_remove, h k']

end Erase

/-- The head of the first bin is the element the log serves next. -/
theorem Agrees.top {l : List E} (h : Agrees ((k, e :: l) :: bs) log) (hw : WF key ((k, e :: l) :: bs)) :
    Log.top log = some (k, e) := by
  have hk : Log.stack log k = e :: l := by rw [← h k, stack, if_pos rfl]
  obtain ⟨-, -, hkey, -, -⟩ := wf_cons.1 hw
  -- every entry of the log is on a stack of the bins, so no key of the log is below `k`
  have hle : ∀ a ∈ log, k ≤ a.1 := by
    rintro ⟨k', x⟩ ha
    have hx : x ∈ stack ((k, e :: l) :: bs) k' := by rw [h k']; exact Log.mem_stack.2 ha
    obtain ⟨hx, hkx⟩ := hw.mem_stack.1 hx
    rw [elems_cons, mem_append] at hx
    rcases hx with hx | hx
    · exact ((hkey x hx).symm.trans hkx).le
    · exact hkx ▸ (hw.lt_key hx).le
  have hmem : (k, e) ∈ log := Log.mem_stack.1 (by rw [hk]; simp)
  rw [Log.top, ← Log.find_key hk, ← head?_filter, ← head?_filter]
  congr 1
  apply filter_congr
  intro a ha
  have h1 : (∀ b ∈ log, a.1 ≤ b.1) ↔ a.1 = k :=
    ⟨fun h2 => le_antisymm (h2 _ hmem) (hle a ha), fun h2 b hb => h2 ▸ hle b hb⟩
  rw [Bool.eq_iff_iff]
  simpa using h1

/-! ## Refilling -/

/-- Push elements one after the other. -/
def fill (key : E → K) (l : List E) (bs : List (K × List E)) : List (K × List E) :=
  l.foldl (fun bs e => push (key e) e bs) bs

theorem push_of_lt : ∀ {bs : List (K × List E)}, (∀ a ∈ bs, a.1 < k) → push k e bs = bs ++ [(k, [e])]
  | [], _ => rfl
  | (k', b) :: bs, h => by
    obtain ⟨h1, h⟩ := forall_mem_cons.1 h
    rw [push, if_neg h1.not_gt, if_neg h1.ne', push_of_lt h]
    rfl

theorem push_append_singleton : ∀ {bs : List (K × List E)}, (∀ a ∈ bs, a.1 < k) →
    push k e (bs ++ [(k, b)]) = bs ++ [(k, e :: b)]
  | [], _ => by simp [push]
  | (k', b') :: bs, h => by
    obtain ⟨h1, h⟩ := forall_mem_cons.1 h
    rw [cons_append, push, if_neg h1.not_gt, if_neg h1.ne', push_append_singleton h]
    rfl

theorem fill_append_singleton (h : ∀ a ∈ bs, a.1 < k) : ∀ {l b : List E}, (∀ x ∈ l, key x = k) →
    fill key l (bs ++ [(k, b)]) = bs ++ [(k, l.reverse ++ b)]
  | [], _, _ => rfl
  | x :: l, b, hl => by
    obtain ⟨hx, hl⟩ := forall_mem_cons.1 hl
    have ih := fill_append_singleton h (b := x :: b) hl
    unfold fill at ih ⊢
    rw [foldl_cons, hx, push_append_singleton h, ih]
    simp

def turn (a : K × List E) : K × List E := (a.1, a.2.reverse)

/-- The bins under other keys, in the same order. -/
def rekey (f : K → K) (a : K × List E) : K × List E := (f a.1, a.2)

theorem WF.rekey {f : K → K} (hf : StrictMono f) (h : WF key bs) : WF (f ∘ key) (bs.map (Bins.rekey f)) := by
  refine ⟨pairwise_map.2 (h.keys.imp fun hlt => hf hlt), ?_, ?_, ?_⟩ <;> refine forall_mem_map.2 fun a ha => ?_
  · exact h.ne_nil a ha
  · exact fun e he => congrArg f (h.keyed a ha e he)
  · exact h.nodup a ha

omit [LinearOrder K] in
theorem elems_map_rekey (f : K → K) (bs : List (K × List E)) : elems (bs.map (rekey f)) = elems bs := by
  rw [elems, map_map]
  rfl

/-- Bins filled again from their elements are upside down. -/
theorem WF.fill_elems : ∀ {bs c : List (K × List E)}, WF key bs → (∀ a ∈ c, ∀ b ∈ bs, a.1 < b.1) →
    fill key (elems bs) c = c ++ bs.map turn
  | [], c, _, _ => by simp [fill, elems]
  | (k, []) :: bs, c, h, _ => absurd rfl (wf_cons.1 h).2.1
  | (k, x :: l) :: bs, c, h, hc => by
    obtain ⟨hlt, -, hkey, -, ht⟩ := wf_cons.1 h
    have hk : ∀ a ∈ c, a.1 < k := fun a ha => hc a ha _ mem_cons_self
    have hbin : fill key (x :: l) c = c ++ [(k, (x :: l).reverse)] := by
      obtain ⟨hx, hl⟩ := forall_mem_cons.1 hkey
      have hfill := fill_append_singleton (b := [x]) hk hl
      unfold fill at hfill ⊢
      rw [foldl_cons, hx, push_of_lt hk, hfill, reverse_cons]
    have hrest : fill key (elems bs) (c ++ [(k, (x :: l).reverse)]) = c ++ [(k, (x :: l).reverse)] ++ bs.map turn := by
      apply WF.fill_elems ht
      intro a ha b hb
      rcases mem_append.1 ha with ha | ha
      · exact hc a ha b (mem_cons_of_mem _ hb)
      · rw [mem_singleton.1 ha]
        exact hlt b hb
    unfold fill at hbin hrest ⊢
    rw [elems_cons, foldl_append, hbin, hrest, append_assoc]
    rfl

theorem eq_of_reverse_eq {l : List E} (hn : l.Nodup) (hr : l.reverse = l) : ∀ x ∈ l, ∀ y ∈ l, x = y := by
  cases l with
  | nil => intro x hx; cases hx
  | cons a t =>
    have hlast : (a :: t).getLast? = some a := by
      rw [← head?_reverse, hr]
      rfl
    cases t with
    | nil =>
      intro x hx y hy
      rw [mem_singleton.1 hx, mem_singleton.1 hy]
    | cons b t =>
      rw [getLast?_cons_cons] at hlast
      exact absurd (mem_of_getLast? hlast) (nodup_cons.1 hn).1

theorem WF.elems_turn : ∀ {bs : List (K × List E)}, WF key bs →
    (elems (bs.map turn) = elems bs ↔ ∀ x ∈ elems bs, ∀ y ∈ elems bs, key x = key y → x = y)
  | [], _ => by simp [elems]
  | (k, b) :: bs, h => by
    obtain ⟨hlt, -, hkey, hn, ht⟩ := wf_cons.1 h
    have ih := WF.elems_turn ht
    have hnot : ∀ y ∈ elems bs, key y ≠ k := by
      intro y hy hyk
      have hm := (mem_stack ht).2 ⟨hy, hyk⟩
      rw [stack_of_lt hlt] at hm
      cases hm
    have happ : elems (((k, b) :: bs).map turn) = b.reverse ++ elems (bs.map turn) := by simp [elems, turn]
    rw [happ, elems_cons]
    constructor
    · intro he
      obtain ⟨hb, hbs⟩ := append_inj he (length_reverse ..)
      have h1 := eq_of_reverse_eq hn hb
      have h2 := ih.1 hbs
      intro x hx y hy hxy
      rcases mem_append.1 hx with hx | hx <;> rcases mem_append.1 hy with hy | hy
      · exact h1 x hx y hy
      · exact absurd (hxy.symm.trans (hkey x hx)) (hnot y hy)
      · exact absurd (hxy.trans (hkey y hy)) (hnot x hx)
      · exact h2 x hx y hy hxy
    · intro hinj
      have hb : b.reverse = b := by
        cases b with
        | nil => rfl
        | cons a t =>
          have ht : t = [] := by
            apply eq_nil_iff_forall_not_mem.2
            intro y hy
            have hay := hinj a (by simp) y (by simp [hy]) ((hkey a (by simp)).trans (hkey y (by simp [hy])).symm)
            exact (nodup_cons.1 hn).1 (hay ▸ hy)
          rw [ht]
          rfl
      rw [hb, ih.2]
      intro x hx y hy hxy
      exact hinj x (mem_append_right _ hx) y (mem_append_right _ hy) hxy

end Bins

end M5.Lib
