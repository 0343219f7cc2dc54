import Uthread.Safety.Signals
import Uthread.Safety.Stops

/-!
# Preemption

The handler of the timer signal sets the flag `preempted` of its kernel thread. `schedule` resets the flag when it
dispatches a thread, and `check_preempted` when it yields because of it. So a call of the library begins with a
yield exactly if a signal has been delivered to the kernel thread since it dispatched the caller: no signal is lost
on the way to the next call, and none that was meant for another thread makes this one yield.

## Main definitions

* `signalled`: a signal has been delivered since the last dispatch.

## Main results

* `preempted_iff`.
-/

namespace Uthread

variable {n : ℕ} {cfg : Config} {s s' : State n} {e : Event n} {k : Fin n} {p q : Ptr}
  {h : List (State n × Event n)} {f : Option AllocSite}

/-- The events that decide whether kernel thread `k` is preempted: the delivery of a signal, and the point of
`schedule` before a thread is resumed. -/
def State.flags (s : State n) (k : Fin n) : Event n → Option Bool
  | (j, .deliver) => if j = k then some true else none
  | (j, .run _) =>
    if j = k then
      match (s.kt k).ctl with
      | .sched (.dispReady _) => some false
      | _ => none
    else none
  | _ => none

/-- A signal has been delivered to kernel thread `k` since it dispatched a thread. -/
def signalled (h : List (State n × Event n)) (k : Fin n) : Bool :=
  (h.findSome? fun x => x.1.flags k x.2).getD false

theorem signalled_of_none (hf : s.flags k e = none) : signalled ((s, e) :: h) k = signalled h k := by
  simp [signalled, hf]

theorem signalled_of_some {b : Bool} (hf : s.flags k e = some b) : signalled ((s, e) :: h) k = b := by
  simp [signalled, hf]

theorem State.flags_of_ne (hk : k ≠ e.1) : s.flags k e = none := by
  obtain ⟨j, i⟩ := e
  cases i <;> simp [State.flags, hk.symm]

theorem State.flags_of_not_dispReady (hno : ∀ q, (s.kt k).ctl ≠ .sched (.dispReady q)) :
    s.flags k (k, .run f) = none := by
  simp [State.flags]

/-- At these points the flag says whether a signal has been delivered since the last dispatch: after a dispatch,
until `check_preempted` yields. -/
def Ctl.flagged : Ctl → Bool
  | .thread _ (.yield o _) | .thread _ (.swap _ (.yielded o)) => o.isNone
  | .thread _ _ | .sched (.dispSet _) => true
  | _ => false

/-- The flag agrees with the history. -/
def FlagInv (h : List (State n × Event n)) (s : State n) : Prop :=
  ∀ k, (s.kt k).ctl.flagged = true → (s.kt k).preempted = signalled h k

/-- A step of the library leads to a point where the flag counts from another one without changing the flag, or it
is the dispatch of a thread. -/
theorem Trans.flagged_run (ht : Trans cfg s e s') (he : e.2 = .run f) (hk : (s'.kt e.1).ctl.flagged = true) :
    ((∃ q, (s.kt e.1).ctl = .sched (.dispReady q)) ∧ (s'.kt e.1).preempted = false) ∨
      ((∀ q, (s.kt e.1).ctl ≠ .sched (.dispReady q)) ∧ (s.kt e.1).ctl.flagged = true ∧
        (s'.kt e.1).preempted = (s.kt e.1).preempted) := by
  cases ht with
  | call | tick | deliver => cases he
  | acquire h | insert h | parkJoin h | parkSem h =>
    generalize hc : (s.kt _).ctl = x at h
    cases h <;> simp [State.goto, State.setK, State.setTcb, State.setSem, Ctl.flagged] at hk ⊢ <;> simp_all
  | release h =>
    cases h <;> simp_all [State.goto, State.setK, Ctl.flagged]
  | quiet h =>
    cases h <;> simp_all [State.setK, Ctl.flagged, KThread.block, KThread.unblock]
  | signal h =>
    cases h <;> simp_all [State.goto, State.setK, Ctl.flagged]
  | entry hc hcur h =>
    generalize (s.kt _).task = x at h
    cases h <;> simp [State.setK, Ctl.flagged] at hk
  | _ hc => simp_all [State.goto, State.setK, State.setTcb, State.setSem, Ctl.flagged, KThread.block]

/-- Calls and ticks leave the flag. -/
theorem Trans.flagged_other (ht : Trans cfg s e s') (he : ∀ f, e.2 ≠ .run f) (hd : e.2 ≠ .deliver)
    (hk : (s'.kt e.1).ctl.flagged = true) :
    (s.kt e.1).ctl.flagged = true ∧ (s'.kt e.1).preempted = (s.kt e.1).preempted := by
  cases ht with
  | @call k c p r hc =>
    refine ⟨by rw [hc]; rfl, ?_⟩
    cases c with
    | op o => cases o <;> simp [Call.enter, State.setK, KThread.block]
    | _ => simp [Call.enter, State.setK, KThread.block]
  | tick => exact ⟨by simpa using hk, by simp⟩
  | deliver => exact absurd rfl hd
  | _ => exact absurd rfl (he _)

/-- The handler sets the flag. -/
theorem State.deliver_preempted (hq : cfg.preemptive = true) (hi : s.inited = true) (hf : s.infoFreed = false)
    (hs : s.step cfg (k, .deliver) = some s') : (s'.kt k).preempted = true := by
  have hh := State.halt_of_step hs
  simp only [State.step, hh, if_true, State.stepDeliver, hi, hq, hf] at hs
  split at hs
  · obtain rfl := Option.some.inj hs
    simp
  · cases hs

/-- While a thread is executed or resumed, the control blocks are not freed. -/
theorem Inv.infoFreed_of_flagged (I : Inv s) (hk : (s.kt k).ctl.flagged = true) : s.infoFreed = false := by
  obtain ⟨p, hp⟩ : ∃ p, s.exec k = some p := by
    cases hc : (s.kt k).ctl with
    | thread p pc => exact ⟨p, State.exec_thread hc⟩
    | sched pc =>
      cases pc with
      | dispSet q => exact ⟨q, by simp [State.exec, KThread.exec, SchedPc.moving, hc]⟩
      | _ => simp [hc, Ctl.flagged] at hk
    | _ => simp [hc, Ctl.flagged] at hk
  exact Bool.eq_false_iff.2 fun hf => I.place.heap_ne_none hp (I.teardown.freed hf p)

theorem FlagInv.of_ne (F : FlagInv h s) (hk : k ≠ e.1) (hkt : s'.kt k = s.kt k)
    (hfl : (s'.kt k).ctl.flagged = true) : (s'.kt k).preempted = signalled ((s, e) :: h) k := by
  rw [signalled_of_none (State.flags_of_ne hk), hkt]
  exact F k (hkt ▸ hfl)

theorem flagInv_of_run (hn : 0 < n) (hq : cfg.preemptive = true) (hr : (machine n cfg).Run Obeys h s)
    (hh : s.halt = none) : FlagInv h s := by
  induction hr with
  | init =>
    intro k _
    obtain ⟨-, h⟩ | ⟨-, h⟩ := State.init_kt_cases n cfg k <;> simp [machine, h, signalled]
  | @step h s s' e hr o hs ih =>
    have F := ih (State.halt_of_step hs)
    obtain rfl | rfl | ht := State.step_cases hs
    · cases hh
    · cases hh
    intro k hfl
    by_cases hk : k = e.1
    · subst hk
      obtain ⟨k, i⟩ := e
      cases i with
      | run f =>
        rcases ht.flagged_run rfl hfl with ⟨⟨q, hc⟩, hpre⟩ | ⟨hno, hfl₀, hpre⟩
        · rw [hpre, signalled_of_some (b := false) (by simp [State.flags, hc])]
        · rw [hpre, F k hfl₀, signalled_of_none (State.flags_of_not_dispReady hno)]
      | deliver =>
        have hctl : (s'.kt k).ctl = (s.kt k).ctl := by
          cases ht
          simp
        have hf := (inv_of_reachable hn hr.reachable).infoFreed_of_flagged (hctl ▸ hfl)
        rw [State.deliver_preempted hq (inited_of_run hr hf) hf hs, signalled_of_some (b := true)]
        simp [State.flags]
      | _ =>
        obtain ⟨hfl₀, hpre⟩ := ht.flagged_other (by simp) (by simp) hfl
        rw [hpre, F k hfl₀, signalled_of_none rfl]
    · exact F.of_ne hk (ht.kt_of_ne hk) hfl

/-- With preemption, for any number of kernel threads and any interleaving: at the beginning of a call
`check_preempted` yields exactly if a signal has been delivered to the kernel thread since it dispatched the thread
that makes the call. Otherwise the call goes on. -/
theorem preempted_iff (hn : 0 < n) (hq : cfg.quantum ≠ 0) (hr : (machine n cfg).Run Obeys h s) {o : Op}
    (hc : (s.kt k).ctl = .thread p (.preempt o)) (hs : s.step cfg (k, .run f) = some s') :
    (s'.kt k).ctl = .thread p (if signalled h k = true then .yield (some o) .task else o.start) := by
  have hpre : cfg.preemptive = true := by simpa [Config.preemptive] using hq
  have hh := State.halt_of_step hs
  have hfl := flagInv_of_run hn hpre hr hh k (by rw [hc]; rfl)
  simp only [State.step, hh, if_true, State.stepRun, hc, State.stepThread, State.checkPreempted, hpre, hfl,
    Bool.true_and] at hs
  split at hs
  · next ht =>
    obtain rfl := Option.some.inj hs
    simp [ht]
  · next ht =>
    obtain rfl := Option.some.inj hs
    simp [State.goto, ht]

/-- A signal is delivered to the main thread before it calls `uthread_sem_init`. -/
theorem preempted_iff_signalled : ∃ (h : List (State 1 × Event 1)) (s s' : State 1),
    (machine 1 ⟨1⟩).Run Obeys h s ∧ s.step ⟨1⟩ (0, .run none) = some s' ∧
    (s'.kt 0).ctl = .thread mainTcb (.yield (some (.semInit 0 0)) .task) := by
  obtain ⟨h, s, hr, hs⟩ := EventMachine.exists_run_of_exec
    (M := machine 1 ⟨1⟩) (P := Obeys)
    (runs 0 2 ++ [(0, .tick), (0, .deliver), (0, .call (.op (.semInit 0 0)))])
    (p := fun x => (x.2.kt 0).ctl = .thread mainTcb (.preempt (.semInit 0 0)) ∧ signalled x.1 0 = true ∧
      (x.2.step ⟨1⟩ (0, .run none)).isSome) (by decide +kernel)
  obtain ⟨hc, hsig, hstep⟩ : (s.kt 0).ctl = .thread mainTcb (.preempt (.semInit 0 0)) ∧ signalled h 0 = true ∧
      (s.step ⟨1⟩ (0, .run none)).isSome := of_decide_eq_true hs
  obtain ⟨s', hs'⟩ := Option.isSome_iff_exists.1 hstep
  refine ⟨h, s, s', hr, hs', ?_⟩
  simpa [hsig] using preempted_iff Nat.one_pos (by decide) hr hc hs'

end Uthread
