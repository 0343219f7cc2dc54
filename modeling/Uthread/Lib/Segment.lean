import Mathlib.Data.List.Nodup
import Mathlib.Logic.Function.Basic

/-!
# Segments of linked structures

A memory of linked cells is a function `read` that gives the content of a cell and its link to the
next one, `none` at an address where there is no cell. `Seg read p l q` says that following the links
from `p` visits the cells of `l`, in order and with their contents, and leads to `q`. A segment that
leads to the null pointer is a whole list.

## Main results

* `Seg.append_iff`: segments compose.
* `Seg.unique`, `Seg.nodup`: a segment that ends in null is determined by its start, and visits no
  cell twice.
* `Seg.congr`, `Seg.setNext`: writing outside of a segment, and writing the link of a cell.
-/

variable {π β : Type*}

/-- Following the links from `p` visits the cells of `l` and leads to `q`. -/
def Seg (read : π → Option (β × Option π)) : Option π → List (π × β) → Option π → Prop
  | p, [], q => p = q
  | p, x :: l, q => p = some x.1 ∧ ∃ next, read x.1 = some (x.2, next) ∧ Seg read next l q

namespace Seg

variable {read read' : π → Option (β × Option π)} {p q : Option π} {l l' : List (π × β)}

@[simp] theorem nil_iff : Seg read p [] q ↔ p = q := Iff.rfl

theorem cons_iff {x : π × β} : Seg read p (x :: l) q ↔
    p = some x.1 ∧ ∃ next, read x.1 = some (x.2, next) ∧ Seg read next l q := Iff.rfl

theorem append_iff : Seg read p (l ++ l') q ↔ ∃ r, Seg read p l r ∧ Seg read r l' q := by
  induction l generalizing p with
  | nil => simp
  | cons x l ih =>
    simp only [List.cons_append, cons_iff, ih]
    constructor
    · rintro ⟨hp, next, hx, r, hl, hr⟩
      exact ⟨r, ⟨hp, next, hx, hl⟩, hr⟩
    · rintro ⟨r, ⟨hp, next, hx, hl⟩, hr⟩
      exact ⟨hp, next, hx, r, hl, hr⟩

/-- Only the cells of a segment matter. -/
theorem congr (h : Seg read p l q) (hr : ∀ x ∈ l, read' x.1 = read x.1) : Seg read' p l q := by
  induction l generalizing p with
  | nil => exact h
  | cons x l ih =>
    obtain ⟨hp, next, hx, hl⟩ := h
    refine ⟨hp, next, (hr x List.mem_cons_self).trans hx, ih hl fun y hy => ?_⟩
    exact hr y (List.mem_cons_of_mem _ hy)

/-- A list that ends in null is determined by its start. -/
theorem unique (h : Seg read p l none) (h' : Seg read p l' none) : l = l' := by
  induction l generalizing p l' with
  | nil =>
    cases l' with
    | nil => rfl
    | cons y l' =>
      rw [nil_iff] at h
      simp [cons_iff, h] at h'
  | cons x l ih =>
    obtain ⟨rfl, next, hx, hl⟩ := h
    cases l' with
    | nil => simp at h'
    | cons y l' =>
      obtain ⟨hp, next', hy, hl'⟩ := h'
      obtain hxy : x.1 = y.1 := by simpa using hp
      obtain ⟨hxy₂, rfl⟩ : x.2 = y.2 ∧ next = next' := by
        rw [hxy, hy] at hx
        simpa [eq_comm] using hx
      rw [Prod.ext hxy hxy₂, ih hl hl']

/-- A list that ends in null visits no cell twice. -/
theorem nodup (h : Seg read p l none) : (l.map Prod.fst).Nodup := by
  induction l generalizing p with
  | nil => simp
  | cons x l ih =>
    have hxl := h
    obtain ⟨rfl, next, -, hl⟩ := h
    refine List.nodup_cons.mpr ⟨fun hmem => ?_, ih hl⟩
    -- otherwise the list from `x` would be as long as one of its proper tails
    obtain ⟨y, hy, hyx⟩ := List.mem_map.mp hmem
    obtain ⟨l₁, l₂, rfl⟩ := List.append_of_mem hy
    obtain ⟨r, -, hr⟩ := append_iff.mp hl
    have hstart : r = some x.1 := by rw [hr.1, hyx]
    have hlen := congrArg List.length (unique hxl (hstart ▸ hr))
    simp at hlen
    omega

/-- The cell of a pointer inside of a list. -/
theorem read_of_mem (h : Seg read p l q) {x : π × β} (hx : x ∈ l) :
    ∃ next, read x.1 = some (x.2, next) := by
  obtain ⟨l₁, l₂, rfl⟩ := List.append_of_mem hx
  obtain ⟨r, -, -, next, hx, -⟩ := append_iff.mp h
  exact ⟨next, hx⟩

variable [DecidableEq π]

/-- Writing the link of a cell replaces the list behind it. -/
theorem setNext {x : π × β} {l₀ : List (π × β)} {o : Option π} (h : Seg read p (l ++ x :: l₀) none)
    (hread : read' = Function.update read x.1 (some (x.2, o)))
    (hl' : Seg read' o l' none) : Seg read' p (l ++ x :: l') none := by
  have hne : ∀ y ∈ l, y.1 ≠ x.1 := by
    have hnodup := h.nodup
    rw [List.map_append, List.nodup_append] at hnodup
    exact fun y hy => hnodup.2.2 y.1 (List.mem_map_of_mem hy) x.1 (by simp)
  obtain ⟨r, hl, hp, -⟩ := append_iff.mp h
  refine append_iff.mpr ⟨r, hl.congr fun y hy => ?_, hp, o, by simp [hread], hl'⟩
  rw [hread, Function.update_of_ne (hne y hy)]

end Seg
