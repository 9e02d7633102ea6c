import Mathlib.Logic.Function.Basic
import Mathlib.Data.List.Lemmas

/-!
# A lookaside list

A short list of entries of a map, searched first. A new entry goes to the front and pushes the last one out.
-/

namespace M5.Lib.Lookaside

open Function

universe u v

variable {K : Type u} {V : Type v} [DecidableEq K] {c : List (K × V)} {m : K → Option V} {k : K} {v w : V}

/-- For every key of the map, the first entry is the one of the map. -/
def Agrees (c : List (K × V)) (m : K → Option V) : Prop := ∀ ⦃k v w⦄, m k = some v → c.lookup k = some w → w = v

def push (c : List (K × V)) (k : K) (v : V) : List (K × V) := (k, v) :: c.dropLast

theorem lookup_of_dropLast : ∀ {c : List (K × V)}, c.dropLast.lookup k = some w → c.lookup k = some w
  | [], h => h
  | [_], h => nomatch h
  | a :: b :: c, h => by
    rw [List.dropLast_cons_cons, List.lookup_cons] at h
    rw [List.lookup_cons]
    split at h
    · exact h
    · exact lookup_of_dropLast h

theorem lookup_push_self : (push c k v).lookup k = some v := by
  rw [push, List.lookup_cons, beq_self_eq_true]

theorem lookup_push_of_ne {k' : K} (h : k' ≠ k) : (push c k v).lookup k' = c.dropLast.lookup k' := by
  rw [push, List.lookup_cons, beq_eq_false_iff_ne.2 h]

theorem Agrees.set (h : Agrees c m) : Agrees (push c k v) (update m k (some v)) := by
  intro k' v' w' hm hc
  by_cases hk : k' = k
  · subst hk
    rw [lookup_push_self] at hc
    rw [update_self] at hm
    exact Option.some.inj (hc.symm.trans hm)
  · rw [lookup_push_of_ne hk] at hc
    rw [update_of_ne hk] at hm
    exact h hm (lookup_of_dropLast hc)

theorem Agrees.push (h : Agrees c m) (hk : m k = some v) : Agrees (push c k v) m := by
  have hs := h.set (k := k) (v := v)
  rwa [update_eq_self_iff.2 hk.symm] at hs

theorem Agrees.erase (h : Agrees c m) : Agrees c (update m k none) := by
  intro k' v' w' hm hc
  by_cases hk : k' = k
  · subst hk
    rw [update_self] at hm
    cases hm
  · rw [update_of_ne hk] at hm
    exact h hm hc

end M5.Lib.Lookaside
