import Uthread.Invariant.Reachable
import Uthread.Model.Blocked
import Mathlib.Logic.Relation
import Mathlib.Order.Basic

/-!
# Mutexes

Every mutex of the library is unlocked by the kernel thread that locked it, and no kernel thread
locks a mutex twice. User code runs without mutexes, and so does a kernel thread that waits for work
or for the end of the others. A kernel thread that waits for a mutex holds only mutexes that come
before it in a fixed order, so that no cycle of waiting kernel threads exists.

## Main definitions

* `State.WaitsFor`: a kernel thread waits for a mutex that another one holds.
* `Lock.rank`: the order of the mutexes.

## Main results

* `lock_discipline`.
-/

namespace Uthread

variable {n : ℕ} {cfg : Config} {s s' : State n} {e : Event n} {k : Fin n} {L : Lock} {c : Ctl}

/-- Kernel thread `j` is at a point where it locks a mutex that `k` holds. -/
def State.WaitsFor (s : State n) (j k : Fin n) : Prop :=
  ∃ L c, Acquires (s.kt j).ctl L c ∧ s.owner L = some k

/-- The mutexes are locked in the order of their ranks. -/
def Lock.rank : Lock → ℕ
  | .sem _ => 0
  | .tcbs => 1
  | .rqueue => 2
  | .bitvec => 0

/-- The mutexes that a kernel thread holds when it locks another one. -/
theorem Acquires.rank_lt {x : KThread} (h : Acquires x.ctl L c) {L' : Lock} (hL' : L' ∈ x.held) :
    L'.rank < L.rank := by
  generalize hc : x.ctl = c₀ at h
  cases h <;> simp_all [KThread.held, Pc.held, EnqPc.held, Lock.rank]

/-- Along a chain of waiting kernel threads the ranks increase. -/
theorem Inv.rank_of_waits (I : Inv s) {j : Fin n} (hjk : Relation.TransGen s.WaitsFor j k)
    (hj : Acquires (s.kt j).ctl L c) : ∃ L' ∈ (s.kt k).held, L.rank ≤ L'.rank := by
  induction hjk with
  | single h =>
    obtain ⟨L', c', hA, ho⟩ := h
    obtain rfl : L' = L := by
      generalize (s.kt j).ctl = c₀ at hj hA
      cases hj <;> cases hA <;> rfl
    exact ⟨L', (I.lock L' _).1 ho, Nat.le_refl _⟩
  | tail _ h ih =>
    obtain ⟨L₁, hL₁, hle⟩ := ih
    obtain ⟨L₂, c₂, hA, ho⟩ := h
    exact ⟨L₂, (I.lock L₂ _).1 ho, Nat.le_trans hle (Nat.le_of_lt (hA.rank_lt hL₁))⟩

theorem Inv.not_waits_cycle (I : Inv s) (k : Fin n) : ¬ Relation.TransGen s.WaitsFor k k := by
  intro hk
  obtain ⟨m, ⟨L, c, hA, -⟩, -⟩ := Relation.TransGen.head'_iff.mp hk
  obtain ⟨L', hL', hle⟩ := I.rank_of_waits hk hA
  exact Nat.not_lt.mpr hle (hA.rank_lt hL')

/-- A mutex changes hands when it is free and the acting kernel thread locks it, and when the acting
kernel thread, which holds it, unlocks it. -/
theorem Inv.owner_cases (I : Inv s) (hs : SemOk s e) (hstep : s.step cfg e = some s') (L : Lock) :
    s'.owner L = s.owner L ∨ (s.owner L = none ∧ s'.owner L = some e.1) ∨
      (s.owner L = some e.1 ∧ s'.owner L = none) := by
  obtain rfl | rfl | h := State.step_cases hstep
  · exact .inl rfl
  · exact .inl rfl
  · cases h with
    | @acquire k f L₀ c h hfree =>
      by_cases hL : L = L₀
      · subst hL
        exact .inr (.inl ⟨hfree, by simp [State.goto, State.setK]⟩)
      · exact .inl (by simp [State.goto, State.setK, hL])
    | @release k f L₀ c h =>
      by_cases hL : L = L₀
      · subst hL
        exact .inr (.inr ⟨(I.lock L k).2 h.mem_held, by simp [State.goto, State.setK]⟩)
      · exact .inl (by simp [State.goto, State.setK, hL])
    | @semInit k f p i v hc =>
      by_cases hL : L = .sem i
      · subst hL
        left
        simp only [SemOk, hc, Ctl.pc?, Option.mem_some_iff, forall_eq', Pc.SemOk] at hs
        have hfree : s.owner (.sem i) = none := by
          by_contra hne
          obtain ⟨k', hk'⟩ := Option.ne_none_iff_exists'.mp hne
          exact hs.2 (.inl ⟨k', KThread.uses_of_held ((I.lock (.sem i) k').1 hk')⟩)
        simp [State.goto, State.setK, hfree]
      · exact .inl (by simp [State.goto, State.setK, State.setSem, hL])
    | signal h => cases h <;> exact .inl rfl
    | _ => exact .inl rfl

/-- For any number of kernel threads and any interleaving of a program that obeys the documented
preconditions:

* every event leaves the owner of a mutex as it is, or the acting kernel thread locks a mutex that
  is free, or it unlocks one that it holds itself;
* a kernel thread at a point where it unlocks a mutex holds it, and at a point where it locks one
  does not hold it;
* a kernel thread holds no mutex while it executes user code, waits for the ready queue or waits for
  the other kernel threads in teardown;
* no kernel threads wait for each other in a cycle. -/
theorem lock_discipline (hn : 0 < n) (hr : (machine n cfg).Reachable Obeys s) :
    (∀ e s' L, Obeys s e → s.step cfg e = some s' → s'.owner L = s.owner L ∨
      (s.owner L = none ∧ s'.owner L = some e.1) ∨
      (s.owner L = some e.1 ∧ s'.owner L = none)) ∧
    (∀ k L c, Releases (s.kt k) L c → s.owner L = some k) ∧
    (∀ k L c, Acquires (s.kt k).ctl L c → s.owner L ≠ some k) ∧
    (∀ k L, ((∃ p r, (s.kt k).ctl = .thread p (.user r)) ∨ (s.kt k).ctl = .sched .deqWait ∨
      ∃ j, (s.kt k).ctl = .sched (.exitWait j)) → s.owner L ≠ some k) ∧
    ∀ k, ¬ Relation.TransGen s.WaitsFor k k := by
  have I := inv_of_reachable hn hr
  refine ⟨fun e s' L o h => I.owner_cases o.sem h L, fun k L c h => (I.lock L k).2 h.mem_held,
    fun k L c h ho => h.notMem_held ((I.lock L k).1 ho), fun k L hk ho => ?_, I.not_waits_cycle⟩
  have hheld := (I.lock L k).1 ho
  rcases hk with ⟨p, r, hc⟩ | hc | ⟨j, hc⟩ <;> simp [KThread.held, Pc.held, hc] at hheld

/-- The main thread holds `tcbs_lock` in `uthread_create`, and the second kernel thread, which has
taken a thread from the ready queue, waits for it. -/
theorem lock_discipline_waiting : ∃ s : State 2, s.WaitsFor 1 0 ∧
    (∀ k L c, Releases (s.kt k) L c → s.owner L = some k) ∧
    ∀ k, ¬ Relation.TransGen s.WaitsFor k k := by
  obtain ⟨h, s, hr, hs⟩ := EventMachine.exists_run_of_exec
    (M := machine 2 ⟨0⟩) (P := Obeys)
    (runs 0 3 ++ [(0, .call (.op (.create false)))] ++ runs 0 12 ++ runs 1 9 ++
      [(0, .call (.op (.create false)))] ++ runs 0 5)
    (p := fun x => (x.2.kt 1).ctl = .sched (.dispLock 1) ∧ x.2.owner .tcbs = some 0)
    (by decide +kernel)
  obtain ⟨hc, ho⟩ : (s.kt 1).ctl = .sched (.dispLock 1) ∧ s.owner .tcbs = some 0 :=
    of_decide_eq_true hs
  have hdisc := lock_discipline Nat.two_pos hr.reachable
  exact ⟨s, ⟨.tcbs, .sched (.dispBody 1), hc ▸ .disp 1, ho⟩, hdisc.2.1, hdisc.2.2.2.2⟩

end Uthread
