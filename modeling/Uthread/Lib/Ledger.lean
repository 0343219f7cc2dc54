import Uthread.Lib.EventMachine
import Mathlib.Algebra.BigOperators.Group.List.Basic
import Mathlib.Algebra.Order.BigOperators.Group.List

/-!
# What the events of a run bring and take

The events of a run bring something to a machine and take something from it, in amounts of an additive monoid. If
each step keeps the balance of what the state holds, so does the run: what has been taken and what is held at the
end is what was held at the beginning and what has been brought. If the steps may waste some of it, the first is at
most the second. With numbers the second rule is the method of potentials: the events that take one unit each are
bounded by those that pay.

## Main definitions

* `EventMachine.total`: the sum of an amount over a history.

## Main results

* `EventMachine.Run.total_eq`, `EventMachine.Run.total_le`.
-/

namespace EventMachine

variable {σ ε A : Type*} {M : EventMachine σ ε} {P : σ → ε → Prop} {h : List (σ × ε)} {s : σ}

/-- The sum of an amount over the events of a history. -/
def total [AddMonoid A] (w : σ → ε → A) (h : List (σ × ε)) : A := (h.map fun x => w x.1 x.2).sum

@[simp] theorem total_nil [AddMonoid A] (w : σ → ε → A) : total w [] = 0 := rfl

theorem total_cons [AddMonoid A] (w : σ → ε → A) (s : σ) (e : ε) (h : List (σ × ε)) :
    total w ((s, e) :: h) = w s e + total w h := List.sum_cons

/-- The events of one kind contribute the same amount each. -/
theorem total_ite (p : ε → Bool) (c : ℕ) (h : List (σ × ε)) :
    total (fun _ e => if p e = true then c else 0) h = c * h.countP fun x => p x.2 := by
  induction h with
  | nil => rfl
  | cons x h ih =>
    obtain ⟨s, e⟩ := x
    rw [total_cons, ih, List.countP_cons]
    split
    · rw [Nat.mul_add, Nat.mul_one, Nat.add_comm]
    · simp

/-- What is held and taken was held or brought. -/
theorem Run.total_eq [AddCommMonoid A] {holds : σ → A} {takes brings : σ → ε → A}
    (hstep : ∀ h s e s', M.Run P h s → P s e → M.step s e = some s' → takes s e + holds s' = holds s + brings s e)
    (hr : M.Run P h s) : total takes h + holds s = holds M.init + total brings h := by
  induction hr with
  | init => simp
  | @step h s s' e hr hp hs ih =>
    calc total takes ((s, e) :: h) + holds s'
        = total takes h + (takes s e + holds s') := by rw [total_cons, add_assoc, add_left_comm]
      _ = total takes h + holds s + brings s e := by rw [hstep _ _ _ _ hr hp hs, add_assoc]
      _ = holds M.init + total brings ((s, e) :: h) := by rw [ih, total_cons, add_assoc, add_comm (brings s e)]

/-- What is held and taken is at most what was held or brought. -/
theorem Run.total_le [AddCommMonoid A] [PartialOrder A] [IsOrderedAddMonoid A] {holds : σ → A}
    {takes brings : σ → ε → A}
    (hstep : ∀ h s e s', M.Run P h s → P s e → M.step s e = some s' → takes s e + holds s' ≤ holds s + brings s e)
    (hr : M.Run P h s) : total takes h + holds s ≤ holds M.init + total brings h := by
  induction hr with
  | init => simp
  | @step h s s' e hr hp hs ih =>
    calc total takes ((s, e) :: h) + holds s'
        = total takes h + (takes s e + holds s') := by rw [total_cons, add_assoc, add_left_comm]
      _ ≤ total takes h + (holds s + brings s e) :=
          add_le_add le_rfl (hstep _ _ _ _ hr hp hs)
      _ ≤ holds M.init + total brings h + brings s e := by
          rw [← add_assoc]
          exact add_le_add ih le_rfl
      _ = holds M.init + total brings ((s, e) :: h) := by rw [total_cons, add_assoc, add_comm (brings s e)]

end EventMachine
