import Mathlib.Data.List.Basic
import Mathlib.Logic.Function.Basic

/-!
# Machines driven by events, and their runs

An *event machine* has an initial state and a partial step function: an event may be disabled in
a state. A *run* is a finite sequence of enabled events, each of which is admissible in the state
it is fired in. The admissibility predicate `P` is a parameter, so that one machine can be studied
under several assumptions on its environment.

The history of a run is the list of its steps, the most recent first, each with the state it
started from. A history variable is a function of that list; no ghost component of the state is
needed.

## Main definitions

* `EventMachine`, `EventMachine.Run`, `EventMachine.Reachable`.
* `EventMachine.exec`: the executable form of a run.

## Main results

* `EventMachine.Run.invariant`, `EventMachine.Run.history_invariant`: the induction rules.
* `EventMachine.Run.of_exec`: an execution that succeeds is a run.
-/

/-- A machine with an initial state and a partial step function on events. -/
structure EventMachine (σ ε : Type*) where
  init : σ
  step : σ → ε → Option σ

namespace EventMachine

variable {σ ε : Type*}

/-- `M.Run P h s`: the machine can reach `s` by the steps of the history `h`, the most recent
first, every event being admissible where it was fired. -/
inductive Run (M : EventMachine σ ε) (P : σ → ε → Prop) : List (σ × ε) → σ → Prop
  | init : Run M P [] M.init
  | step {h : List (σ × ε)} {s s' : σ} {e : ε} (hr : Run M P h s) (hp : P s e)
      (hs : M.step s e = some s') : Run M P ((s, e) :: h) s'

/-- A state reached by some run. -/
def Reachable (M : EventMachine σ ε) (P : σ → ε → Prop) (s : σ) : Prop := ∃ h, M.Run P h s

variable {M : EventMachine σ ε} {P Q : σ → ε → Prop}

theorem Run.reachable {h : List (σ × ε)} {s : σ} (hr : M.Run P h s) : M.Reachable P s := ⟨h, hr⟩

/-- A property of states that holds initially and is kept by every admissible step holds along
every run. -/
theorem Run.invariant {I : σ → Prop} (h0 : I M.init)
    (hstep : ∀ s e s', I s → P s e → M.step s e = some s' → I s')
    {h : List (σ × ε)} {s : σ} (hr : M.Run P h s) : I s := by
  induction hr with
  | init => exact h0
  | step _ hp hs ih => exact hstep _ _ _ ih hp hs

theorem Reachable.invariant {I : σ → Prop} (h0 : I M.init)
    (hstep : ∀ s e s', I s → P s e → M.step s e = some s' → I s')
    {s : σ} (hr : M.Reachable P s) : I s :=
  hr.elim fun _ hr => hr.invariant h0 hstep

/-- The induction rule for properties that relate the state to the history. The step case may
use that the state before the step is reachable. -/
theorem Run.history_invariant {I : List (σ × ε) → σ → Prop} (h0 : I [] M.init)
    (hstep : ∀ h s e s', M.Run P h s → I h s → P s e → M.step s e = some s' → I ((s, e) :: h) s')
    {h : List (σ × ε)} {s : σ} (hr : M.Run P h s) : I h s := by
  induction hr with
  | init => exact h0
  | step hr hp hs ih => exact hstep _ _ _ _ hr ih hp hs

/-- Weakening the admissibility predicate. -/
theorem Run.mono (hPQ : ∀ s e, P s e → Q s e) {h : List (σ × ε)} {s : σ} (hr : M.Run P h s) :
    M.Run Q h s := by
  induction hr with
  | init => exact .init
  | step _ hp hs ih => exact .step ih (hPQ _ _ hp) hs

/-- A run all of whose events are admissible in another sense, too. -/
theorem Run.of_forall_mem {h : List (σ × ε)} {s : σ} (hr : M.Run P h s) (hQ : ∀ x ∈ h, Q x.1 x.2) :
    M.Run (fun s e => P s e ∧ Q s e) h s := by
  induction hr with
  | init => exact .init
  | @step h s s' e _ hp hs ih =>
    exact .step (ih fun x hx => hQ x (List.mem_cons_of_mem _ hx)) ⟨hp, hQ (s, e) List.mem_cons_self⟩ hs

/-- Every step of a history started from a state reached by an earlier part of the run. -/
theorem Run.reachable_of_mem {h : List (σ × ε)} {s : σ} (hr : M.Run P h s) {x : σ × ε}
    (hx : x ∈ h) : M.Reachable P x.1 ∧ P x.1 x.2 := by
  induction hr with
  | init => simp at hx
  | step hr hp _ ih =>
    rcases List.mem_cons.mp hx with rfl | hx
    · exact ⟨hr.reachable, hp⟩
    · exact ih hx

/-- A history determines the state that it leads to. -/
theorem Run.state_unique {h : List (σ × ε)} {s s' : σ} (hr : M.Run P h s) (hr' : M.Run Q h s') : s = s' := by
  cases hr with
  | init =>
    cases hr'
    rfl
  | step _ _ hs =>
    cases hr' with
    | step _ _ hs' => exact Option.some.inj (hs.symm.trans hs')

/-- The earlier part of a run is a run. -/
theorem Run.of_append {h h' : List (σ × ε)} {s' : σ} (hr : M.Run P (h' ++ h) s') : ∃ s, M.Run P h s := by
  induction h' generalizing s' with
  | nil => exact ⟨s', hr⟩
  | cons x h' ih =>
    cases hr with
    | step hr _ _ => exact ih hr

/-- Fire the events of a list in order, from a state with a given history, checking that each is
admissible and enabled. -/
def exec (M : EventMachine σ ε) (P : σ → ε → Prop) [∀ s e, Decidable (P s e)] :
    List (σ × ε) → σ → List ε → Option (List (σ × ε) × σ)
  | h, s, [] => some (h, s)
  | h, s, e :: es =>
    if P s e then
      match M.step s e with
      | some s' => exec M P ((s, e) :: h) s' es
      | none => none
    else none

theorem Run.exec [∀ s e, Decidable (P s e)] {h : List (σ × ε)} {s : σ} (hr : M.Run P h s)
    {es : List ε} {x : List (σ × ε) × σ} (hx : M.exec P h s es = some x) : M.Run P x.1 x.2 := by
  induction es generalizing h s with
  | nil =>
    obtain rfl : (h, s) = x := by simpa [EventMachine.exec] using hx
    exact hr
  | cons e es ih =>
    simp only [EventMachine.exec] at hx
    split_ifs at hx with hp
    split at hx
    · next hs => exact ih (hr.step hp hs) hx
    · cases hx

/-- An execution continues the history. -/
theorem exec_suffix [∀ s e, Decidable (P s e)] {h : List (σ × ε)} {s : σ} {es : List ε}
    {x : List (σ × ε) × σ} (hx : M.exec P h s es = some x) : h <:+ x.1 := by
  induction es generalizing h s with
  | nil =>
    obtain rfl : (h, s) = x := by simpa [EventMachine.exec] using hx
    exact List.suffix_rfl
  | cons e es ih =>
    simp only [EventMachine.exec] at hx
    split_ifs at hx
    split at hx
    · exact (List.suffix_cons _ _).trans (ih hx)
    · cases hx

/-- An execution from the initial state that succeeds is a run. -/
theorem Run.of_exec [∀ s e, Decidable (P s e)] {es : List ε} {x : List (σ × ε) × σ}
    (hx : M.exec P [] M.init es = some x) : M.Run P x.1 x.2 :=
  Run.init.exec hx

/-- An execution whose history and last state have a decidable property gives a run with that
property. -/
theorem exists_run_of_exec [∀ s e, Decidable (P s e)] (es : List ε)
    {p : List (σ × ε) × σ → Bool} (hx : (M.exec P [] M.init es).any p = true) :
    ∃ h s, M.Run P h s ∧ p (h, s) = true := by
  cases he : M.exec P [] M.init es with
  | none => simp [he] at hx
  | some x => exact ⟨x.1, x.2, .of_exec he, by simpa [he] using hx⟩

end EventMachine
