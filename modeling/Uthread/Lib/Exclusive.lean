import Mathlib.Data.List.Nodup
import Mathlib.Data.List.Count

/-!
# Exclusive containers

Resources are kept in containers; the contents of a container is a list. The contents are
*exclusive* when no resource occurs twice, neither in one container nor in two. The rules below
say when a change of the contents keeps this: resources may leave, a new one may enter, and one
may move from a container to another.

## Main definitions

* `Exclusive`.

## Main results

* `Exclusive.shrink`, `Exclusive.insert`, `Exclusive.move`: the rules for a change.
* `Exclusive.count_eq_one`: a resource that is somewhere occurs exactly once.
-/

variable {C R : Type*} {holds holds' : C → List R}

/-- No resource occurs twice in the containers. -/
structure Exclusive (holds : C → List R) : Prop where
  nodup : ∀ c, (holds c).Nodup
  unique : ∀ {a b r}, r ∈ holds a → r ∈ holds b → a = b

namespace Exclusive

theorem notMem_of_ne (h : Exclusive holds) {c c' : C} {r : R} (hr : r ∈ holds c) (hc : c' ≠ c) :
    r ∉ holds c' :=
  fun hr' => hc (h.unique hr' hr)

theorem count_eq_one [DecidableEq R] (h : Exclusive holds) {c : C} {r : R} (hr : r ∈ holds c) :
    (holds c).count r = 1 :=
  List.count_eq_one_of_mem (h.nodup c) hr

/-- Resources may leave their containers. -/
theorem shrink (h : Exclusive holds) (hs : ∀ c, (holds' c).Sublist (holds c)) :
    Exclusive holds' where
  nodup c := (h.nodup c).sublist (hs c)
  unique hr hr' := h.unique ((hs _).subset hr) ((hs _).subset hr')

/-- A resource that is in no other container may enter one at its end, while others leave. -/
theorem enter (h : Exclusive holds) {b : C} {r : R} {l : List R}
    (hs : ∀ c, c ≠ b → (holds' c).Sublist (holds c)) (hb : holds' b = l ++ [r])
    (hl : l.Sublist (holds b)) (hrl : r ∉ l) (hr : ∀ c, c ≠ b → r ∉ holds' c) :
    Exclusive holds' where
  nodup c := by
    by_cases hc : c = b
    · rw [hc, hb, List.nodup_append]
      refine ⟨(h.nodup b).sublist hl, List.nodup_singleton r, ?_⟩
      rintro a ha _ ha' rfl
      exact hrl (List.mem_singleton.mp ha' ▸ ha)
    · exact (h.nodup c).sublist (hs c hc)
  unique := by
    intro c c' x hx hx'
    -- a resource other than `r` was in the same container before
    have hold (c : C) (hx : x ∈ holds' c) (hxr : x ≠ r) : x ∈ holds c := by
      by_cases hc : c = b
      · rw [hc, hb, List.mem_append, List.mem_singleton] at hx
        exact hc ▸ hl.subset (hx.resolve_right hxr)
      · exact (hs c hc).subset hx
    by_cases hxr : x = r
    · subst hxr
      have hcb (c : C) (hx : x ∈ holds' c) : c = b := by_contra fun hc => hr c hc hx
      rw [hcb c hx, hcb c' hx']
    · exact h.unique (hold c hx hxr) (hold c' hx' hxr)

/-- A new resource may enter a container at its end. -/
theorem insert (h : Exclusive holds) {b : C} {r : R}
    (hs : ∀ c, c ≠ b → (holds' c).Sublist (holds c)) (hb : holds' b = holds b ++ [r])
    (hr : ∀ c, r ∉ holds c) : Exclusive holds' :=
  h.enter hs hb (List.Sublist.refl _) (hr b) fun c hc hm => hr c ((hs c hc).subset hm)

/-- A resource may move from a container to the end of another. -/
theorem move (h : Exclusive holds) {a b : C} {r : R} {l : List R} (hab : a ≠ b)
    (ha : r ∈ holds a) (ha' : r ∉ holds' a)
    (hs : ∀ c, c ≠ b → (holds' c).Sublist (holds c)) (hb : holds' b = l ++ [r])
    (hl : l.Sublist (holds b)) : Exclusive holds' := by
  refine h.enter hs hb hl (fun hm => h.notMem_of_ne ha hab.symm (hl.subset hm)) ?_
  intro c hc hm
  by_cases hca : c = a
  · exact ha' (hca ▸ hm)
  · exact h.notMem_of_ne ha hca ((hs c hc).subset hm)

end Exclusive
