import Mathlib.Data.List.Basic
import Mathlib.Data.List.Infix
import Mathlib.Logic.Function.Basic

/-!
# Ring buffers

A ring of `S` slots is written and read at indices that count modulo `S`. As long as no more than `S` items
wait to be read, what is read is what was written, in the same order.

An index is moved on in three steps: a slot is used, the index is incremented, and it is reduced modulo `S`.

## Main definitions

* `RingHolds`: the slots hold the items that have been written and not been taken.
* `Cursor`: an index in one of the three phases of its move.

## Main results

* `RingHolds.write`, `RingHolds.take`.
-/

variable {α : Type*} {S : ℕ} {slots : ℕ → α} {written taken : List α} {x : α} {j N i : ℕ}

/-- What has been taken is a prefix of what has been written, and the slots hold the rest. -/
structure RingHolds (S : ℕ) (slots : ℕ → α) (written taken : List α) : Prop where
  isPrefix : taken <+: written
  holds : ∀ j, taken.length ≤ j → ∀ h : j < written.length, slots (j % S) = written[j]

namespace RingHolds

theorem nil : RingHolds S slots [] [] := ⟨List.prefix_rfl, fun _ _ h => absurd h (Nat.not_lt_zero _)⟩

/-- The next slot to be written holds no item that waits to be read. -/
theorem mod_ne (hroom : written.length < taken.length + S) (hj : taken.length ≤ j) (hj' : j < written.length) :
    j % S ≠ written.length % S := by
  intro heq
  have hmod : (written.length - j) % S = 0 := Nat.sub_mod_eq_zero_of_mod_eq heq.symm
  rw [Nat.mod_eq_of_lt (by omega)] at hmod
  omega

theorem write (R : RingHolds S slots written taken) (hroom : written.length < taken.length + S) :
    RingHolds S (Function.update slots (written.length % S) x) (written ++ [x]) taken := by
  refine ⟨R.isPrefix.trans (List.prefix_append _ _), fun j hj h => ?_⟩
  by_cases hlt : j < written.length
  · rw [Function.update_of_ne (mod_ne hroom hj hlt), R.holds j hj hlt, List.getElem_append_left hlt]
  · obtain rfl : j = written.length := by
      rw [List.length_append, List.length_singleton] at h
      omega
    simp

theorem take (R : RingHolds S slots written taken) (hitem : taken.length < written.length) :
    RingHolds S slots written (taken ++ [slots (taken.length % S)]) := by
  have hnext : slots (taken.length % S) = written[taken.length] := R.holds _ (Nat.le_refl _) hitem
  refine ⟨?_, fun j hj h => R.holds j ?_ h⟩
  · have htake : taken = written.take taken.length := List.prefix_iff_eq_take.mp R.isPrefix
    have : taken ++ [written[taken.length]] = written.take (taken.length + 1) := by
      rw [← List.take_append_getElem hitem, ← htake]
    rw [hnext, this]
    exact List.take_prefix _ _
  · rw [List.length_append] at hj
    omega

end RingHolds

/-- The phases in which an index is moved on: it is at rest, its slot has been used, it has been incremented. -/
inductive CursorPhase
  | rest
  | used
  | incremented
  deriving DecidableEq, Repr

/-- The index `i` of a ring of `S` slots, of which `N` have been used so far. -/
def Cursor (S N i : ℕ) : CursorPhase → Prop
  | .rest => i = N % S
  | .used => ∃ m, N = m + 1 ∧ i = m % S
  | .incremented => ∃ m, N = m + 1 ∧ i = m % S + 1

theorem Cursor.use (h : Cursor S N i .rest) : Cursor S (N + 1) i .used := ⟨N, rfl, h⟩

theorem Cursor.increment (h : Cursor S N i .used) : Cursor S N (i + 1) .incremented := by
  obtain ⟨m, hN, rfl⟩ := h
  exact ⟨m, hN, rfl⟩

theorem Cursor.wrap (h : Cursor S N i .incremented) : Cursor S N (i % S) .rest := by
  obtain ⟨m, rfl, rfl⟩ := h
  simp [Cursor]

/-- Many parties move one index: each of them is in a phase, and at most one is not at rest. -/
structure SharedCursor (S N i : ℕ) {β : Type*} (phase : β → CursorPhase) : Prop where
  moving : ∀ b, phase b ≠ .rest → Cursor S N i (phase b)
  rest : (∀ b, phase b = .rest) → Cursor S N i .rest

namespace SharedCursor

variable {β : Type*} {phase : β → CursorPhase} {b : β}

/-- The index that one party moves. -/
theorem cursor (h : SharedCursor S N i phase) (hb : ∀ b', b' ≠ b → phase b' = .rest) : Cursor S N i (phase b) := by
  by_cases hrest : phase b = .rest
  · rw [hrest]
    refine h.rest fun b' => ?_
    by_cases hb' : b' = b
    · rw [hb', hrest]
    · exact hb b' hb'
  · exact h.moving b hrest

/-- One party moves the index. -/
theorem update [DecidableEq β] {N' i' : ℕ} {x : CursorPhase} (hb : ∀ b', b' ≠ b → phase b' = .rest)
    (h : Cursor S N' i' x) : SharedCursor S N' i' (Function.update phase b x) := by
  refine ⟨fun b' hb' => ?_, fun hall => ?_⟩
  · by_cases hne : b' = b
    · subst hne
      simpa using h
    · rw [Function.update_of_ne hne] at hb'
      exact absurd (hb b' hne) hb'
  · have hx : x = .rest := by simpa using hall b
    exact hx ▸ h

end SharedCursor
