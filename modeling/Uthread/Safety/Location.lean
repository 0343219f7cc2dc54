import Uthread.Invariant.Reachable

/-!
# Where a thread is

In every reachable state a thread whose control block is allocated is in exactly one place, once,
and its state is the one of that place; or it is finished and in no place. No place holds a thread
whose control block has been freed.

## Main results

* `thread_location`.
-/

namespace Uthread

variable {n : ℕ} {cfg : Config} {s : State n} {p : Ptr} {x : Tcb}

theorem PlaceInv.located (I : PlaceInv s) (hx : s.heap p = some x) (hst : x.state ≠ .finished) :
    ∃ c, p ∈ s.holds c :=
  I.cover p x.state (by simp [State.stateOf, hx]) hst

/-- A thread in a place occurs there once, nowhere else, and has the state of the place. -/
theorem PlaceInv.only (I : PlaceInv s) {c : Place n} (hp : p ∈ s.holds c)
    (hx : s.heap p = some x) :
    (s.holds c).count p = 1 ∧ (∀ c', c' ≠ c → p ∉ s.holds c') ∧ x.state = s.placeState c := by
  refine ⟨I.excl.count_eq_one hp, fun c' hc => I.excl.notMem_of_ne hp hc, ?_⟩
  simpa [State.stateOf, hx] using I.alive c p hp

/-- The location of the threads, for any number of kernel threads and any interleaving of a program
that obeys the documented preconditions. The places are the ready queue, the kernel threads (for
the thread that is executed, handed to the scheduler or taken from the ready queue), the kernel
threads again (for a thread that is being created or woken), the join queues and the semaphore
queues; `State.placeState` gives the state that goes with each. -/
theorem thread_location (hn : 0 < n) (hr : (machine n cfg).Reachable Obeys s) :
    (∀ p x, s.heap p = some x →
      (∃ c, (s.holds c).count p = 1 ∧ (∀ c', c' ≠ c → p ∉ s.holds c') ∧
        x.state = s.placeState c) ∨
      (x.state = .finished ∧ ∀ c, p ∉ s.holds c)) ∧
    ∀ c, ∀ p ∈ s.holds c, (s.heap p).isSome := by
  have I := (inv_of_reachable hn hr).place
  constructor
  · intro p x hx
    by_cases hp : ∃ c, p ∈ s.holds c
    · obtain ⟨c, hp⟩ := hp
      exact .inl ⟨c, I.only hp hx⟩
    · have hst : x.state = .finished := by_contra fun hst => hp (I.located hx hst)
      exact .inr ⟨hst, fun c hc => hp ⟨c, hc⟩⟩
  · intro c p hp
    have hst := I.alive c p hp
    simp only [State.stateOf, Option.map_eq_some_iff] at hst
    obtain ⟨x, hx, -⟩ := hst
    simp [hx]

/-- The main thread has created a second one, which is in the ready queue. -/
theorem thread_location_created : ∃ s : State 1, s.rqueue = [.tcb 1] ∧
    (∀ p x, s.heap p = some x →
      (∃ c, (s.holds c).count p = 1 ∧ (∀ c', c' ≠ c → p ∉ s.holds c') ∧
        x.state = s.placeState c) ∨
      (x.state = .finished ∧ ∀ c, p ∉ s.holds c)) ∧
    ∀ c, ∀ p ∈ s.holds c, (s.heap p).isSome := by
  obtain ⟨h, s, hr, hs⟩ := EventMachine.exists_run_of_exec
    (M := machine 1 ⟨0⟩) (P := Obeys)
    (runs 0 2 ++ [(0, .call (.op (.create false)))] ++ runs 0 12)
    (p := fun x => x.2.rqueue = [.tcb 1]) (by decide +kernel)
  exact ⟨s, of_decide_eq_true hs, thread_location Nat.one_pos hr.reachable⟩

end Uthread
