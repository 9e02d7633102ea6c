import M5.Mem.Cache.LRU
import M5.Mem.Cache.Tags
import M5.Lib.Recency
import M5.Lib.Run

/-!
# What the LRU tag store holds

Runs of the calls a cache makes to its `LRU` tags: `accessBlock`, `findVictim` and `insertBlock` of an absent address
with the fill that follows, and `invalidateBlk`. Every call leaves an event with the frame it is about, and what the
store holds is read off the history of events.
-/

namespace M5.Mem.LRUTags

open Lib Lib.Recency Function List

structure Store where
  sets : Nat → List Frame
  blks : Blks

def init (p : LRUParams) : Store := ⟨(LRU p).initRepl, (LRU p).initBlks⟩

/-- One call. The caller of `insertBlock` sets the status and the data of the new block. -/
inductive Step (p : LRUParams) (s : Store) : Event → Store → Prop
  | accessBlock (addr : Addr) :
    Step p s (.access addr ((LRU p).accessBlock s.sets s.blks addr).2)
      { s with sets := ((LRU p).accessBlock s.sets s.blks addr).1 }
  | insertBlock (addr : Addr) (blk : Frame) (b : CacheBlk) (absent : (LRU p).findBlock s.sets s.blks addr = none)
    (victim : (LRU p).findVictim s.sets s.blks addr = blk) (tag : b.tag = p.extractTag addr)
    (set : b.set = (s.blks blk).set) (fill : b.isValid) :
    Step p s (.insert addr blk)
      { sets := (LRU p).insertBlock s.sets addr blk, blks := update s.blks blk b }
  | invalidateBlk (blk : Frame) :
    Step p s (.invalidate blk) { s with blks := update s.blks blk (s.blks blk).invalidate }

/-- The valid frames carry the blocks that are there by the history. -/
def Holds (p : LRUParams) (h : List Event) (blks : Blks) : Prop :=
  ∀ f addr, ((blks f).isValid ∧ (LRU p).blkAddr (blks f) = (LRU p).blkAlign addr) ↔ Resident (LRU p).blkAlign h addr f

structure Tracks (p : LRUParams) (h : List Event) (s : Store) : Prop where
  inv : LRUInv p s.sets s.blks
  holds : Holds p h s.blks
  recency : ∀ i, Ordered Event.moves h (s.sets i)

variable {p : LRUParams} {h : List Event} {s t : Store} {e : Event} {f g : Frame} {addr : Addr}

theorem Tracks.start : Tracks p [] (init p) := by
  refine ⟨(LRU.lawful p).init_inv, fun f addr => ?_, fun i => .init _⟩
  refine iff_of_false (fun hv => ?_) not_resident_nil
  have h0 : ((LRU p).initBlks f).isValid = false := rfl
  exact Bool.noConfusion (h0.symm.trans hv.1)

theorem nodup_set (hi : LRUInv p s.sets s.blks) (i : Nat) : (s.sets i).Nodup :=
  (hi.perm i).nodup_iff.2 nodup_range'

theorem Holds.insert {blks : Blks} {b : CacheBlk} (hh : Holds p h blks) (fill : b.isValid)
    (haddr : (LRU p).blkAddr b = (LRU p).blkAlign addr) :
    Holds p (h ++ [.insert addr f]) (update blks f b) := by
  intro g a
  by_cases hg : g = f
  · subst hg
    rw [update_self, haddr]
    rw [resident_insert, and_iff_right fill]
  · rw [update_of_ne hg, resident_skip (e := .insert addr f) (Ne.symm hg)]
    exact hh g a

theorem Holds.invalidate {blks : Blks} {b : CacheBlk} (hh : Holds p h blks) (hb : b.isValid = false) :
    Holds p (h ++ [.invalidate f]) (update blks f b) := by
  intro g a
  by_cases hg : g = f
  · subst hg
    rw [update_self]
    exact iff_of_false (fun h' => Bool.noConfusion (hb.symm.trans h'.1)) not_resident_invalidate
  · rw [update_of_ne hg, resident_skip (e := .invalidate f) (Ne.symm hg)]
    exact hh g a

theorem recency_front (hi : LRUInv p s.sets s.blks) (ho : ∀ i, Ordered Event.moves h (s.sets i)) {i : Nat}
    (hf : f ∈ s.sets i) (hm : ∀ x, e.moves x ↔ x = f) (j : Nat) :
    Ordered Event.moves (h ++ [e]) (update s.sets i (CacheSet.moveToHead f (s.sets i)) j) := by
  by_cases hj : j = i
  · subst hj
    rw [update_self, CacheSet.moveToHead_eq hf]
    exact (ho j).front (nodup_set hi j) hm
  · rw [update_of_ne hj]
    refine (ho j).skip fun x hx hmx => hj ?_
    rw [(hm x).1 hmx] at hx
    exact (hi.mem_set.1 hx).symm.trans (hi.mem_set.1 hf)

section

variable (ht : Tracks p h s)

include ht

theorem Tracks.access (addr : Addr) :
    Tracks p (h ++ [.access addr ((LRU p).accessBlock s.sets s.blks addr).2])
      { s with sets := ((LRU p).accessBlock s.sets s.blks addr).1 } := by
  have hinv := (LRU.lawful p).access_inv ht.inv addr
  refine ⟨hinv, fun f a => (ht.holds f a).trans (resident_skip id).symm, ?_⟩
  cases hb : CacheSet.findBlk s.blks (p.extractTag addr) (s.sets (p.extractSet addr)) with
  | some f =>
    have ha : (LRU p).accessBlock s.sets s.blks addr =
        (update s.sets (p.extractSet addr) (CacheSet.moveToHead f (s.sets (p.extractSet addr))), some f) := by
      simp only [LRU, hb]
    rw [ha]
    refine recency_front ht.inv ht.recency (mem_of_find?_eq_some hb) fun x => ?_
    show some f = some x ↔ x = f
    rw [Option.some_inj, eq_comm]
  | none =>
    have ha : (LRU p).accessBlock s.sets s.blks addr = (s.sets, none) := by simp only [LRU, hb]
    rw [ha]
    exact fun i => (ht.recency i).skip fun x _ hx => nomatch hx

omit ht in
theorem victim_mem (hi : LRUInv p s.sets s.blks) (addr : Addr) :
    (LRU p).findVictim s.sets s.blks addr ∈ s.sets (p.extractSet addr) := hi.victim_mem

theorem Tracks.insert {b : CacheBlk} (absent : (LRU p).findBlock s.sets s.blks addr = none)
    (victim : (LRU p).findVictim s.sets s.blks addr = f) (tag : b.tag = p.extractTag addr)
    (set : b.set = (s.blks f).set) (fill : b.isValid) :
    Tracks p (h ++ [.insert addr f])
      { sets := (LRU p).insertBlock s.sets addr f, blks := update s.blks f b } := by
  have hset : b.set = p.extractSet addr := by
    rw [set, ← victim]
    exact (LRU.lawful p).victim_set ht.inv addr
  have haddr : (LRU p).blkAddr b = (LRU p).blkAlign addr := by
    show p.regenerateBlkAddr b.tag b.set = addr - addr % p.blkSize
    rw [tag, hset, LRUParams.regenerate_extract]
  have hmem : f ∈ s.sets (p.extractSet addr) := victim ▸ victim_mem ht.inv addr
  refine ⟨?_, ht.holds.insert fill haddr, recency_front ht.inv ht.recency hmem fun x => eq_comm⟩
  have hins := (LRU.lawful p).insert_inv ht.inv absent tag hset
  rwa [victim] at hins

theorem Tracks.invalidate (f : Frame) :
    Tracks p (h ++ [.invalidate f]) { s with blks := update s.blks f (s.blks f).invalidate } := by
  exact ⟨ht.inv.replace rfl rfl nofun, ht.holds.invalidate rfl, fun i => (ht.recency i).skip fun _ _ => id⟩

theorem Tracks.step (hs : Step p s e t) : Tracks p (h ++ [e]) t := by
  cases hs with
  | accessBlock addr => exact ht.access addr
  | insertBlock addr f b absent victim tag set fill => exact ht.insert absent victim tag set fill
  | invalidateBlk f => exact ht.invalidate f

theorem Tracks.find_iff : (LRU p).findBlock s.sets s.blks addr = some f ↔ Resident (LRU p).blkAlign h addr f :=
  ((LRU.lawful p).find_iff ht.inv addr f).trans (ht.holds f addr)

end

end M5.Mem.LRUTags
