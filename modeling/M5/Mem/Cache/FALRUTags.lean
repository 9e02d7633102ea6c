import M5.Mem.Cache.FALRUCalls
import M5.Mem.Cache.Tags
import M5.Lib.Run

/-!
# What the fully associative tag store finds

`findVictim` hashes the new address and takes the tag of the victim out of the hash table; the tag itself is left to
`insertBlock`, which does nothing. So the tag of every block is the 0 it was constructed with, whatever address is
hashed, and the lookups fit the insertions only as long as nothing but block 0 is inserted.
-/

namespace M5.Mem.FALRU

open Lib Lib.Recency Except

namespace Tags

/-- One call. The caller of `insertBlock` sets the status, the data and the locks of the block, not its tag. -/
inductive Step (p : Params) (s : Store) : Event → Store → Prop
  | accessBlock {addr found t} (h : accessBlock p s addr = .ok (found, t)) : Step p s (.access addr found) t
  | insertBlock {addr blk t} (b : CacheBlk) (absent : findBlock p s addr = .ok none)
    (victim : findVictim p s addr = .ok (blk, t)) (tag : b.tag = ((insertBlock t addr blk).blks blk).tag)
    (fill : b.isValid) : Step p s (.insert addr blk) (writeBlk (insertBlock t addr blk) blk b)
  | invalidateBlk (blk : Frame) : Step p s (.invalidate blk) (invalidateBlk s blk)

/-- Lookups end and find the blocks that are there by the history, under their tags; the hash table leads from the tag
of such a block to it, and from nowhere else. -/
structure Consistent (p : Params) (h : List Event) (s : Store) : Prop where
  lookup : ∀ addr, ∃ r t, findBlock p s addr = .ok r ∧ accessBlock p s addr = .ok (r, t)
  found : ∀ addr f, findBlock p s addr = .ok (some f) ↔ Resident p.blkAlign h addr f
  tag : ∀ addr f, findBlock p s addr = .ok (some f) → (s.blks f).tag = p.blkAlign addr
  hash : ∀ addr f, Resident p.blkAlign h addr f →
    s.tagHash (s.blks f).tag = some f ∧ ∀ a, s.tagHash a = some f → a = (s.blks f).tag

/-- An insertion is of block 0. -/
def Sound (p : Params) : Event → Prop
  | .insert addr _ => p.blkAlign addr = 0
  | _ => True

/-- Only block 0 has been inserted. -/
structure Inv (p : Params) (h : List Event) (s : Store) (l : List Frame) : Prop where
  stack : Stack p l s
  tag : ∀ x, (s.blks x).tag = 0
  mem : ∀ {a x}, s.tagHash a = some x → a = 0 ∧ x ∈ l
  valid : ∀ {x}, (s.blks x).isValid → s.tagHash 0 = some x
  resident : ∀ addr f, Resident p.blkAlign h addr f ↔ (s.blks f).isValid ∧ p.blkAlign addr = 0

variable {p : Params} {h : List Event} {s t : Store} {l : List Frame} {e : Event} {addr : Addr} {f x : Frame}

section

variable (hi : Inv p h s l)

include hi

theorem Inv.validLookup_iff {a : Addr} : validLookup s a = some f ↔ (s.blks f).isValid ∧ a = 0 := by
  rw [validLookup_eq_some]
  constructor
  · rintro ⟨hh, hv⟩
    exact ⟨hv, (hi.mem hh).1⟩
  · rintro ⟨hv, rfl⟩
    exact ⟨hi.valid hv, hv⟩

theorem Inv.findBlock_eq (addr : Addr) : findBlock p s addr = .ok (validLookup s (p.blkAlign addr)) := by
  unfold findBlock
  cases hl : validLookup s (p.blkAlign addr) with
  | none => rfl
  | some f =>
    have ht : (s.blks f).tag = p.blkAlign addr := by rw [hi.tag, (hi.validLookup_iff.1 hl).2]
    dsimp only
    rw [assert_of ht]
    rfl

theorem Inv.accessBlock_ok (addr : Addr) :
    ∃ t, accessBlock p s addr = .ok (validLookup s (p.blkAlign addr), t) ∧
      ∃ l', Inv p (h ++ [.access addr (validLookup s (p.blkAlign addr))]) t l' := by
  cases hl : validLookup s (p.blkAlign addr) with
  | none =>
    refine ⟨_, accessBlock_miss hl, l, ?_, hi.tag, hi.mem, hi.valid, fun a f => ?_⟩
    · exact ⟨hi.stack.links, hi.stack.perm, hi.stack.head, hi.stack.tail, hi.stack.bits, hi.stack.boundary⟩
    · rw [resident_skip id]
      exact hi.resident a f
  | some b =>
    have hz := (hi.validLookup_iff.1 hl).2
    have hb : b ∈ l := (hi.mem (validLookup_eq_some.1 hl).1).2
    obtain ⟨t, ht, hst, hblk, hhash, -⟩ := accessBlock_hit hi.stack hb hl fun _ => by rw [hi.tag, hz]
    refine ⟨t, ht, front b l, hst, fun x => ?_, fun hx => ?_, fun {x} hx => ?_, fun a f => ?_⟩
    · rw [hblk]
      exact hi.tag x
    · rw [hhash] at hx
      exact ⟨(hi.mem hx).1, mem_front.2 (.inr (hi.mem hx).2)⟩
    · rw [hhash]
      rw [hblk] at hx
      exact hi.valid hx
    · rw [resident_skip id, hblk]
      exact hi.resident a f

theorem Inv.consistent : Consistent p h s := by
  have hfound : ∀ addr f, findBlock p s addr = .ok (some f) ↔ (s.blks f).isValid ∧ p.blkAlign addr = 0 := by
    intro addr f
    rw [hi.findBlock_eq, ok.injEq, hi.validLookup_iff]
  refine ⟨fun addr => ?_, fun addr f => (hfound addr f).trans (hi.resident addr f).symm, fun addr f hf => ?_,
    fun addr f hr => ?_⟩
  · obtain ⟨t, ht, -⟩ := hi.accessBlock_ok addr
    exact ⟨_, t, hi.findBlock_eq addr, ht⟩
  · rw [hi.tag, ((hfound addr f).1 hf).2]
  · rw [hi.tag]
    exact ⟨hi.valid ((hi.resident addr f).1 hr).1, fun a ha => (hi.mem ha).1⟩

section Inserted

variable {blk : Frame} {b : CacheBlk} (victim : findVictim p s addr = .ok (blk, t))
  (tag : b.tag = ((insertBlock t addr blk).blks blk).tag)

include victim tag

theorem Inv.insert_tag (x : Frame) : ((writeBlk t blk b).blks x).tag = 0 := by
  obtain ⟨u, hu, -, hblk, -⟩ := findVictim_ok hi.stack addr
  rw [hu, ok.injEq, Prod.mk.injEq] at victim
  obtain ⟨rfl, rfl⟩ := victim
  rw [writeBlk_blks]
  split
  · rw [tag]
    show (u.blks s.tail).tag = 0
    rw [hblk, hi.tag]
  · rw [hblk, hi.tag]

theorem Inv.insert (absent : findBlock p s addr = .ok none) (fill : b.isValid) (hz : p.blkAlign addr = 0) :
    ∃ l', Inv p (h ++ [.insert addr blk]) (writeBlk t blk b) l' := by
  have htag := hi.insert_tag victim tag
  obtain ⟨u, hu, hsu, hblk, hhash, -⟩ := findVictim_ok hi.stack addr
  rw [hu, ok.injEq, Prod.mk.injEq] at victim
  obtain ⟨rfl, rfl⟩ := victim
  -- a valid block would have been found
  have hno : ∀ x, (s.blks x).isValid = false := by
    intro x
    by_contra hv
    rw [hi.findBlock_eq, hz, hi.validLookup_iff.2 ⟨by simpa using hv, rfl⟩] at absent
    cases absent
  have hvalid : ∀ x, ((writeBlk u s.tail b).blks x).isValid ↔ x = s.tail := by
    intro x
    rw [writeBlk_blks]
    split
    · rename_i hx
      exact iff_of_true fill hx
    · rename_i hx
      rw [hblk, hno]
      exact iff_of_false nofun hx
  have hhash' : ∀ a, u.tagHash a = if a = 0 then some s.tail else none := by
    intro a
    rw [hhash, hz, hi.tag]
    by_cases ha : a = 0
    · rw [ha, Function.update_self, if_pos rfl]
    · rw [Function.update_of_ne ha, Function.update_of_ne ha, if_neg ha]
      cases hx : s.tagHash a with
      | none => rfl
      | some x => exact absurd (hi.mem hx).1 ha
  refine ⟨front s.tail l, hsu.writeBlk _ _, htag, fun {a x} hx => ?_, fun {x} hx => ?_, fun a f => ?_⟩
  · have hx : u.tagHash a = some x := hx
    rw [hhash'] at hx
    split at hx
    · rename_i ha
      exact ⟨ha, mem_front.2 (.inl (Option.some.inj hx).symm)⟩
    · cases hx
  · show u.tagHash 0 = some x
    rw [hhash', if_pos rfl, (hvalid x).1 hx]
  · rw [hvalid]
    by_cases hf : f = s.tail
    · rw [hf, resident_insert, hz, and_iff_right rfl, eq_comm]
    · rw [resident_skip (e := .insert addr s.tail) (Ne.symm hf), hi.resident, hno]
      exact iff_of_false (fun h' => nomatch h'.1) fun h' => hf h'.1

theorem Inv.not_consistent (hz : p.blkAlign addr ≠ 0) :
    ¬ Consistent p (h ++ [.insert addr blk]) (writeBlk t blk b) := by
  intro hcons
  have hres : Resident p.blkAlign (h ++ [.insert addr blk]) addr blk := resident_insert.2 rfl
  have htag := hcons.tag addr blk ((hcons.found addr blk).2 hres)
  rw [hi.insert_tag victim tag] at htag
  exact hz htag.symm

end Inserted

theorem Inv.invalidate (x : Frame) : Inv p (h ++ [.invalidate x]) (invalidateBlk s x) l := by
  have hblk : ∀ y, ((invalidateBlk s x).blks y).toCacheBlk =
      if y = x then { (s.blks x).toCacheBlk with status := {} } else (s.blks y).toCacheBlk := by
    intro y
    unfold invalidateBlk
    rw [writeBlk_blks]
  have hvalid : ∀ y, ((invalidateBlk s x).blks y).isValid ↔ y ≠ x ∧ (s.blks y).isValid := by
    intro y
    rw [hblk]
    split
    · rename_i hy
      exact iff_of_false nofun fun h' => h'.1 hy
    · rename_i hy
      exact (and_iff_right hy).symm
  refine ⟨hi.stack.writeBlk _ _, fun y => ?_, hi.mem, fun {y} hy => hi.valid ((hvalid y).1 hy).2, fun a f => ?_⟩
  · rw [hblk]
    split
    · exact hi.tag x
    · exact hi.tag y
  · rw [hvalid]
    by_cases hf : f = x
    · rw [hf]
      exact iff_of_false not_resident_invalidate fun h' => h'.1.1 rfl
    · rw [resident_skip (e := .invalidate x) (Ne.symm hf), hi.resident, and_iff_right hf]

theorem Inv.step (hs : Step p s e t) (he : Sound p e) : ∃ l', Inv p (h ++ [e]) t l' := by
  cases hs with
  | @accessBlock addr found _ ha =>
    obtain ⟨u, hu, l', hi'⟩ := hi.accessBlock_ok addr
    rw [hu, ok.injEq] at ha
    obtain ⟨rfl, rfl⟩ := ha
    exact ⟨l', hi'⟩
  | insertBlock b absent victim tag fill => exact hi.insert victim tag absent fill he
  | invalidateBlk x => exact ⟨l, hi.invalidate x⟩

omit hi in
theorem inv_run {s₀ : Store} (hc : construct p = .ok s₀)
    (run : Run (fun s e t => Sound p e ∧ Step p s e t) s₀ h s) : ∃ l, Inv p h s l := by
  refine run.history (I := fun h s => ∃ l, Inv p h s l) ?_ fun ⟨l, hi⟩ hs => hi.step hs.2 hs.1
  obtain ⟨u, hu, hsu, hclean, hhash, -⟩ := construct_ok p
  rw [hu, ok.injEq] at hc
  subst hc
  have hno : ∀ x, (u.blks x).isValid = false := fun x => by rw [hclean]; rfl
  refine ⟨.range p.numBlocks, hsu, fun x => by rw [hclean], fun {a x} hx => ?_, fun {x} hx => ?_, fun a f => ?_⟩
  · rw [hhash] at hx
    exact nomatch hx
  · exact absurd hx (by rw [hno]; decide)
  · exact iff_of_false not_resident_nil fun h' => absurd h'.1 (by rw [hno]; decide)

end

/-- As long as only block 0 is inserted the store is consistent; there an insertion is always possible, and a call keeps
the store consistent exactly when it is no insertion of another block. -/
theorem hash_consistent_iff {p : Params} {s₀ s : Store} {h : List Event} (hc : construct p = .ok s₀)
    (run : Run (fun s e t => Sound p e ∧ Step p s e t) s₀ h s) :
    Consistent p h s ∧ (∀ addr, findBlock p s addr = .ok none → ∃ blk t, Step p s (.insert addr blk) t) ∧
      ∀ e t, Step p s e t → (Consistent p (h ++ [e]) t ↔ Sound p e) := by
  obtain ⟨l, hi⟩ := inv_run hc run
  refine ⟨hi.consistent, fun addr habs => ?_, fun e t hs => ⟨fun hcons => ?_, fun he => ?_⟩⟩
  · obtain ⟨u, hu, -⟩ := findVictim_ok hi.stack addr
    exact ⟨s.tail, _, .insertBlock { (u.blks s.tail).toCacheBlk with status := { valid := true } } habs hu rfl rfl⟩
  · cases hs with
    | accessBlock ha => trivial
    | insertBlock b absent victim tag fill =>
      by_contra hz
      exact hi.not_consistent victim tag hz hcons
    | invalidateBlk x => trivial
  · obtain ⟨l', hi'⟩ := hi.step hs he
    exact hi'.consistent

/-- Block 0 comes in and is found. -/
theorem hash_consistent_fourBlocks : construct (fourBlocks true) = .ok (fourStore true) ∧
    ∃ s, Run (fun s e t => Sound (fourBlocks true) e ∧ Step (fourBlocks true) s e t) (fourStore true)
      [.insert 8 3, .access 4 (some 3)] s ∧ Consistent (fourBlocks true) [.insert 8 3, .access 4 (some 3)] s := by
  have hc : construct (fourBlocks true) = .ok (fourStore true) := rfl
  have run : ∃ s, Run (fun s e t => Sound (fourBlocks true) e ∧ Step (fourBlocks true) s e t) (fourStore true)
      [.insert 8 3, .access 4 (some 3)] s := by
    apply Exists.intro
    apply Run.cons ⟨rfl, .insertBlock { status := { valid := true } } rfl rfl rfl rfl⟩
    exact .cons ⟨trivial, .accessBlock rfl⟩ .nil
  obtain ⟨s, run⟩ := run
  exact ⟨hc, s, run, (hash_consistent_iff hc run).1⟩

/-- Block 1 comes in; looking for it stops at the assertion about its tag. -/
theorem not_consistent_fourBlocks : construct (fourBlocks true) = .ok (fourStore true) ∧
    ∃ s, Run (Step (fourBlocks true)) (fourStore true) [.insert 65536 3] s ∧
      findBlock (fourBlocks true) s 65536 = .error .assert ∧
      Resident (fourBlocks true).blkAlign [.insert 65536 3] 65536 3 ∧
      ¬ Consistent (fourBlocks true) [.insert 65536 3] s := by
  refine ⟨rfl, ?_⟩
  apply Exists.intro
  refine ⟨Run.cons (.insertBlock { status := { valid := true } } rfl rfl rfl rfl) .nil, rfl, ?_, fun hcons => ?_⟩
  · exact resident_insert (h := []).2 rfl
  · obtain ⟨r, t, hf, -⟩ := hcons.lookup 65536
    exact nomatch hf

end Tags

end M5.Mem.FALRU
