import Uthread.Invariant.Reachable

/-!
# The thread that a call joins

`uthread_join` is called with an identifier. The thread that the call joins is the one whose control
block was in the table at the time of the call, and a run determines it. It stays in the table, under
that identifier, until the call destroys it.

## Main definitions

* `joinTarget`: the thread that the latest `uthread_join` of a thread joins.

## Main results

* `joinTarget_of_joinsAt`.
-/

namespace Uthread

variable {n : ℕ} {cfg : Config} {s s' : State n} {e : Event n} {k : Fin n} {p q : Ptr} {t : Tid}
  {h : List (State n × Event n)}

/-- The table entry of the identifier with which thread `p` calls `uthread_join`. -/
def State.joinCall (s : State n) (p : Ptr) : Event n → Option (Option Ptr)
  | (k, .call (.op (.join t _))) => if (s.kt k).ctl.thread? = some p then some (s.tcbs t) else none
  | _ => none

/-- The thread that the latest `uthread_join` of thread `p` joins. -/
def joinTarget (h : List (State n × Event n)) (p : Ptr) : Option Ptr :=
  (h.findSome? fun x => x.1.joinCall p x.2).join

/-- A thread in user code is inside no join. -/
theorem Inv.not_joinsAt_of_user (I : Inv s) {r : Ret} (hc : (s.kt k).ctl = .thread p (.user r)) :
    ¬ s.JoinsAt p t := by
  have hth : (s.kt k).ctl.thread? = some p := by simp [hc, Ctl.thread?]
  rintro (⟨k', hk'⟩ | hs)
  · obtain rfl := I.place.thread_unique hth (Ctl.thread?_of_joining hk')
    simp [hc, Ctl.joining, Pc.joins] at hk'
  · simp [State.suspended_eq_context, State.context_of_executed hth] at hs

/-- A thread that is inside a join makes no call. -/
theorem Inv.joinCall_eq_none (I : Inv s) (hs : s.step cfg e = some s') (hj : s.JoinsAt p t) :
    s.joinCall p e = none := by
  unfold State.joinCall
  split
  · next k t' pret =>
    split_ifs with hth
    · simp only [State.step] at hs
      split_ifs at hs
      split at hs
      · next p' r hc =>
        obtain rfl : p' = p := by simpa [hc, Ctl.thread?] using hth
        exact absurd hj (I.not_joinsAt_of_user hc)
      · cases hs
    · rfl
  · rfl

/-- A thread that is inside `uthread_join` of `t` joins the thread in the table entry of `t`. -/
theorem joinTarget_of_joinsAt (hn : 0 < n) (hr : (machine n cfg).Run Obeys h s) :
    ∀ p t, s.JoinsAt p t → joinTarget h p = s.tcbs t := by
  refine hr.history_invariant (I := fun h s => ∀ p t, s.JoinsAt p t → joinTarget h p = s.tcbs t) ?_ ?_
  · intro p t hj
    exact absurd hj (State.init_not_joinsAt hn p t)
  · intro h s e s' hr ih o hs p t hj'
    have I := inv_of_reachable hn hr.reachable
    have hkeep (hj : s.JoinsAt p t) (ht : s'.tcbs t = s.tcbs t) :
        joinTarget ((s, e) :: h) p = s'.tcbs t := by
      rw [ht, ← ih p t hj]
      simp [joinTarget, I.joinCall_eq_none hs hj]
    obtain rfl | rfl | htr := State.step_cases hs
    · exact hkeep hj' rfl
    · exact hkeep hj' rfl
    · rcases htr.joinsAt I o.alloc hj' with hj | ⟨pret, r, he, hc⟩
      · exact hkeep hj (htr.tcbs_eq_of_joinsAt I (o.admits hn hr.reachable) hj hj')
      · obtain ⟨k, i⟩ := e
        obtain rfl : i = .call (.op (.join t pret)) := he
        cases htr
        simp [joinTarget, State.joinCall, hc, Ctl.thread?, State.setK]

end Uthread
