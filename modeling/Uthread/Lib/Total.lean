import Mathlib.Algebra.BigOperators.Group.Finset.Piecewise
import Mathlib.Algebra.Order.BigOperators.Group.Finset

/-!
# Totals of weights

A family of natural numbers, of which only finitely many are not zero, has a total. When one member of the
family changes, the total changes by as much. This is how tokens are counted that are spread over any number of
parties.

## Main definitions

* `HasTotal`.

## Main results

* `HasTotal.update`: one member changes.
* `HasTotal.le`, `HasTotal.add_le`: one member, and two of them, against the total.
* `HasTotal.mono`: a family that is smaller everywhere has the smaller total.
-/

variable {α : Type*} {w w' : α → ℕ} {m m' : ℕ} {a b : α}

/-- Outside of a finite set the weights are zero, and in it they add up to `m`. -/
def HasTotal (w : α → ℕ) (m : ℕ) : Prop := ∃ A : Finset α, (∀ a ∉ A, w a = 0) ∧ ∑ a ∈ A, w a = m

namespace HasTotal

theorem zero (h : ∀ a, w a = 0) : HasTotal w 0 := ⟨∅, fun a _ => h a, rfl⟩

/-- The finite set can be taken larger. -/
theorem sum_eq (h : HasTotal w m) : ∃ A : Finset α, ∀ B, A ⊆ B → ∑ a ∈ B, w a = m := by
  obtain ⟨A, hA, rfl⟩ := h
  exact ⟨A, fun B hB => (Finset.sum_subset hB fun a _ ha => hA a ha).symm⟩

theorem unique (h : HasTotal w m) (h' : HasTotal w m') : m = m' := by
  classical
  obtain ⟨A, hA⟩ := h.sum_eq
  obtain ⟨A', hA'⟩ := h'.sum_eq
  rw [← hA (A ∪ A') Finset.subset_union_left, ← hA' (A ∪ A') Finset.subset_union_right]

theorem update [DecidableEq α] (h : HasTotal w m) (a : α) (x : ℕ) :
    ∃ m', HasTotal (Function.update w a x) m' ∧ m' + w a = m + x := by
  obtain ⟨A, hA, rfl⟩ := h
  refine ⟨_, ⟨insert a A, fun b hb => ?_, rfl⟩, ?_⟩
  · have hba : b ≠ a := fun h => hb (h ▸ Finset.mem_insert_self a A)
    rw [Function.update_of_ne hba]
    exact hA b fun h => hb (Finset.mem_insert_of_mem h)
  · have hsum : ∑ b ∈ insert a A, w b = ∑ b ∈ A, w b :=
      (Finset.sum_subset (Finset.subset_insert a A) fun b _ hb => hA b hb).symm
    have hmem := Finset.mem_insert_self a A
    rw [Finset.sum_update_of_mem hmem, ← hsum, Finset.sum_eq_add_sum_sdiff_singleton_of_mem hmem w]
    omega

/-- One member changes, in a family that is computed from another one. -/
theorem update_comp [DecidableEq α] {β : Type*} {f : α → β} {g : β → ℕ} (h : HasTotal (fun a => g (f a)) m) (a : α)
    (b : β) : ∃ m', HasTotal (fun a' => g (Function.update f a b a')) m' ∧ m' + g (f a) = m + g b := by
  have heq : (fun a' => g (Function.update f a b a')) = Function.update (fun a' => g (f a')) a (g b) :=
    funext fun a' => Function.apply_update (fun _ => g) f a b a'
  rw [heq]
  exact h.update a (g b)

theorem le (h : HasTotal w m) (a : α) : w a ≤ m := by
  classical
  obtain ⟨A, hA⟩ := h.sum_eq
  rw [← hA (insert a A) (Finset.subset_insert a A)]
  exact Finset.single_le_sum (fun _ _ => Nat.zero_le _) (Finset.mem_insert_self a A)

theorem add_le (h : HasTotal w m) (hab : a ≠ b) : w a + w b ≤ m := by
  classical
  obtain ⟨A, hA⟩ := h.sum_eq
  rw [← hA ({a, b} ∪ A) Finset.subset_union_right, ← Finset.sum_pair hab]
  exact Finset.sum_le_sum_of_subset Finset.subset_union_left

theorem mono (h : HasTotal w m) (h' : HasTotal w' m') (hle : ∀ a, w a ≤ w' a) : m ≤ m' := by
  classical
  obtain ⟨A, hA⟩ := h.sum_eq
  obtain ⟨A', hA'⟩ := h'.sum_eq
  rw [← hA (A ∪ A') Finset.subset_union_left, ← hA' (A ∪ A') Finset.subset_union_right]
  exact Finset.sum_le_sum fun a _ => hle a

end HasTotal
