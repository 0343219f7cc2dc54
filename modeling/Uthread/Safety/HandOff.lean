import Uthread.Safety.Wakeup

/-!
# Handing a task to the scheduler

A library function that gives up the processor records a task in `sched_info` of its kernel thread
and switches to `schedule`, which carries the task out under the mutexes that the function has
locked. At the entry of `schedule` the recorded task fits the current thread and the mutexes that are
held. Along every run, each kernel thread carries out every task that is recorded in its
`sched_info`, once, and resets it before it resumes a thread.

## Main definitions

* `TaskAct`, `Phase`, `phase`: what a kernel thread does with `sched_info`, and the order of it.

## Main results

* `hand_off`.
-/

namespace Uthread

variable {n : ℕ} {cfg : Config} {s s' : State n} {e : Event n} {k : Fin n} {p : Ptr}
  {h : List (State n × Event n)} {P : State n → Event n → Prop}

/-! ### The order of the steps on a task -/

/-- What a kernel thread does with the task in its `sched_info`. -/
inductive TaskAct
  | record (τ : SchedTask)
  | start (τ : SchedTask)
  | finish
  | reset
  | dispatch
  deriving DecidableEq

/-- Where a kernel thread is in the handling of a task. -/
inductive Phase
  | idle
  | recorded (τ : SchedTask)
  | carrying (τ : SchedTask)
  | done
  deriving DecidableEq

/-- The order that is kept: a recorded task is carried out, finished and reset before the next one is
recorded and before a thread is resumed. -/
def Phase.next : Phase → TaskAct → Option Phase
  | .idle, .record τ => some (.recorded τ)
  | .recorded τ, .start τ' => if τ' = τ then some (.carrying τ) else none
  | .carrying _, .finish => some .done
  | .done, .reset => some .idle
  | .idle, .reset => some .idle
  | .idle, .dispatch => some .idle
  | _, _ => none

/-- What an event makes kernel thread `k` do with its task. -/
def State.taskAct (s : State n) (k : Fin n) : Event n → Option TaskAct
  | (j, .run _) =>
    if j = k then
      match (s.kt k).ctl with
      | .thread _ (.yield _ .task) => some (.record .yield)
      | .thread _ (.exit _ .body) => some (.record .exit)
      | .thread _ (.join _ _ (.test _ tgt)) =>
        if (tgt.bind s.heap).any (·.state ≠ .finished) then some (.record .join) else none
      | .thread _ (.wait i (.test _)) =>
        if (s.sems i).any (·.counter = 0) then some (.record .semWait) else none
      | .thread _ (.teardown .task) => some (.record .teardown)
      | .sched .entry => if (s.kt k).task = .none then none else some (.start (s.kt k).task)
      | .sched .unlockTcbs => some .finish
      | .sched .reset => some .reset
      | .sched (.dispSet _) => some .dispatch
      | _ => none
    else none
  | _ => none

/-- The phase of kernel thread `k` at the end of a history, `none` if the order was broken. -/
def phase : List (State n × Event n) → Fin n → Option Phase
  | [], _ => some .idle
  | (s, e) :: h, k =>
    match s.taskAct k e with
    | none => phase h k
    | some a => (phase h k).bind (·.next a)

/-- The phase that goes with a control point. -/
def KThread.phase (x : KThread) : Phase :=
  match x.ctl with
  | .thread _ _ | .sched .entry => if x.task = .none then .idle else .recorded x.task
  | .sched (.exitBody _) | .sched (.joinBody _) | .sched (.semBody _) | .sched .semUnlock
  | .sched (.teardownBody _) | .sched (.enq _ _) | .sched .unlockTcbs => .carrying x.task
  | .sched .reset => if x.task = .none then .idle else .done
  | _ => .idle

/-- A task that is being carried out is one. -/
def KThread.Carries (x : KThread) : Prop := ∀ τ, x.phase = .carrying τ → τ ≠ .none

/-- The step of a kernel thread moves it on in the order. -/
structure PhaseStep (s : State n) (e : Event n) (s' : State n) : Prop where
  stay : s.taskAct e.1 e = none → (s'.kt e.1).phase = (s.kt e.1).phase
  move : ∀ a, s.taskAct e.1 e = some a →
    (s.kt e.1).phase.next a = some (s'.kt e.1).phase
  carries : (s'.kt e.1).Carries

theorem PhaseStep.of_eq (ha : s.taskAct e.1 e = none)
    (hp : (s'.kt e.1).phase = (s.kt e.1).phase) (hc : (s.kt e.1).Carries) : PhaseStep s e s' :=
  ⟨fun _ => hp, by simp [ha], fun τ hτ => hc τ (hp ▸ hτ)⟩

theorem PhaseStep.of_next {a : TaskAct} (ha : s.taskAct e.1 e = some a)
    (hp : (s.kt e.1).phase.next a = some (s'.kt e.1).phase) (hc : (s'.kt e.1).Carries) :
    PhaseStep s e s' :=
  ⟨by simp [ha], fun b hb => by rwa [Option.some.inj (ha.symm.trans hb)] at hp, hc⟩

/-- At a point of a thread the phase is given by the task that goes with the point. -/
theorem KThread.phase_thread {x : KThread} {pc : Pc} {τ : SchedTask} {o : Option SemId}
    (hc : x.ctl = .thread p pc) (ht : x.TaskOk) (hpc : pc.task = some (τ, o)) :
    x.phase = if τ = .none then .idle else .recorded τ := by
  simp only [KThread.TaskOk, hc, hpc, Option.some.injEq, Prod.mk.injEq] at ht
  simp [KThread.phase, hc, ht.1]

theorem KThread.carries_of_idle {x : KThread} (h : x.phase = .idle) : x.Carries := by
  intro τ hτ
  rw [h] at hτ
  cases hτ

theorem Trans.phaseStep (h : Trans cfg s e s') (ht : (s.kt e.1).TaskOk)
    (hc₀ : (s.kt e.1).Carries) : PhaseStep s e s' := by
  have ht' := h.taskOk ht
  cases h with
  | @call k c p r hc =>
    refine .of_eq (by simp [State.taskAct]) ?_ hc₀
    rw [KThread.phase_thread hc ht rfl]
    simp only [KThread.TaskOk, hc, Pc.task, Option.some.injEq, Prod.mk.injEq] at ht
    cases c with
    | op o => cases o <;> simp [Call.enter, KThread.phase, KThread.block, ht]
    | _ => simp [Call.enter, KThread.phase, KThread.block, ht]
  | tick => exact .of_eq (by simp [State.taskAct]) (by simp [KThread.phase]) hc₀
  | deliver => exact .of_eq (by simp [State.taskAct]) (by simp [KThread.phase]) hc₀
  | @acquire k f L c h hL =>
    generalize hc : (s.kt k).ctl = c at h
    cases h <;>
      exact .of_eq (by simp [State.taskAct, hc]) (by simp [State.goto, KThread.phase, hc]) hc₀
  | @release k f L c h =>
    cases h with
    | schedTcbs hc =>
      have hne := hc₀ (s.kt k).task (by simp [KThread.phase, hc])
      refine .of_next (a := .finish) (by simp [State.taskAct, hc]) ?_ ?_
      · simp [State.goto, KThread.phase, hc, hne, Phase.next]
      · simp [State.goto, KThread.Carries, KThread.phase, hne]
    | _ hc =>
      exact .of_eq (by simp [State.taskAct, hc]) (by simp [State.goto, KThread.phase, hc]) hc₀
  | @quiet k f x h =>
    cases h with
    | yieldTask hc =>
      simp only [KThread.TaskOk, hc, Pc.task, Option.some.injEq, Prod.mk.injEq] at ht
      exact .of_next (a := .record .yield) (by simp [State.taskAct, hc])
        (by simp [KThread.phase, hc, ht, Phase.next])
        (by simp [KThread.Carries, KThread.phase])
    | waitBlock hc hx h0 =>
      simp only [KThread.TaskOk, hc, Pc.task, Option.some.injEq, Prod.mk.injEq] at ht
      exact .of_next (a := .record .semWait) (by simp [State.taskAct, hc, hx, h0])
        (by simp [KThread.phase, hc, ht, Phase.next])
        (by simp [KThread.Carries, KThread.phase])
    | teardownTask hc =>
      simp only [KThread.TaskOk, hc, Pc.task, Option.some.injEq, Prod.mk.injEq] at ht
      exact .of_next (a := .record .teardown) (by simp [State.taskAct, hc])
        (by simp [KThread.phase, hc, ht, Phase.next])
        (by simp [KThread.Carries, KThread.phase])
    | waitPass hc hx h0 =>
      exact .of_eq (by simp [State.taskAct, hc, hx, h0]) (by simp [KThread.phase, hc]) hc₀
    | reset hc =>
      refine .of_next (a := .reset) (by simp [State.taskAct, hc]) ?_ ?_
      · simp only [KThread.phase, hc, State.setK_kt]
        split <;> rfl
      · simp [KThread.Carries, KThread.phase]
    | entryNone hc hta =>
      exact .of_eq (by simp [State.taskAct, hc, hta])
        (by simp [KThread.phase, KThread.block, hc, hta]) hc₀
    | kmainStart hc =>
      simp only [KThread.TaskOk, hc] at ht
      exact .of_eq (by simp [State.taskAct, hc])
        (by simp [KThread.phase, KThread.block, hc, ht]) hc₀
    | exitWaited hc =>
      simp only [KThread.TaskOk, hc] at ht
      exact .of_eq (by simp [State.taskAct, hc]) (by simp [KThread.phase, hc, ht]) hc₀
    | _ hc =>
      exact .of_eq (by simp [State.taskAct, hc])
        (by simp [KThread.phase, KThread.block, KThread.unblock, hc]) hc₀
  | signal h =>
    cases h with
    | _ hc =>
      exact .of_eq (by simp [State.taskAct, hc]) (by simp [State.goto, KThread.phase, hc]) hc₀
  | insert h =>
    generalize hc : (s.kt _).ctl = c at h
    cases h <;>
      exact .of_eq (by simp [State.taskAct, hc]) (by simp [State.goto, KThread.phase, hc]) hc₀
  | exitSwitch hc =>
    exact .of_eq (by simp [State.taskAct, hc]) (by simp [KThread.phase, hc]) hc₀
  | swap hc hx =>
    exact .of_eq (by simp [State.taskAct, hc]) (by simp [KThread.phase, hc]) hc₀
  | exitBody hc hcur hx hst =>
    simp only [KThread.TaskOk, hc, Pc.task, Option.some.injEq, Prod.mk.injEq] at ht
    exact .of_next (a := .record .exit) (by simp [State.taskAct, hc])
      (by simp [KThread.phase, hc, ht, Phase.next]) (by simp [KThread.Carries, KThread.phase])
  | joinBlock hc hx hst hy hj =>
    simp only [KThread.TaskOk, hc, Pc.task, Option.some.injEq, Prod.mk.injEq] at ht
    exact .of_next (a := .record .join) (by simp [State.taskAct, hc, hx, hst])
      (by simp [KThread.phase, hc, ht, Phase.next]) (by simp [KThread.Carries, KThread.phase])
  | joinFinished hc hx hst =>
    exact .of_eq (by simp [State.taskAct, hc, hx, hst]) (by simp [State.goto, KThread.phase, hc])
      hc₀
  | entry hc hcur h =>
    generalize hta : (s.kt _).task = τ at h
    cases h <;>
      exact .of_next (by simp [State.taskAct, hc, hta]; rfl)
        (by simp [KThread.phase, KThread.block, hc, hta, Phase.next])
        (by simp [KThread.Carries, KThread.phase, KThread.block, hta])
  | parkJoin h hq hx =>
    generalize hc : (s.kt _).ctl = c at h
    cases h <;>
      exact .of_eq (by simp [State.taskAct, hc]) (by simp [State.goto, KThread.phase, hc]) hc₀
  | parkSem h hq hx =>
    generalize hc : (s.kt _).ctl = c at h
    cases h <;>
      exact .of_eq (by simp [State.taskAct, hc]) (by simp [State.goto, KThread.phase, hc]) hc₀
  | dispSet hc hx hctx =>
    simp only [KThread.TaskOk, hc] at ht
    exact .of_next (a := .dispatch) (by simp [State.taskAct, hc])
      (by simp [KThread.phase, hc, ht, Phase.next])
      (KThread.carries_of_idle (by simp [KThread.phase, ht]))
  | semDestroy hc =>
    exact .of_eq (by simp [State.taskAct, hc]) (by simp [KThread.phase, KThread.block, hc]) hc₀
  | teardownFree hc hq hx =>
    simp only [KThread.TaskOk, hc, Pc.task, Option.some.injEq, Prod.mk.injEq] at ht
    exact .of_eq (by simp [State.taskAct, hc]) (by simp [State.goto, KThread.phase, hc, ht]) hc₀
  | _ hc =>
    exact .of_eq (by simp [State.taskAct, hc]) (by simp [State.goto, KThread.phase, hc]) hc₀

/-- The control point of a kernel thread gives its phase, as long as the run goes on, and the order
is never broken. -/
structure PhaseInv (h : List (State n × Event n)) (s : State n) : Prop where
  task : ∀ k, (s.kt k).TaskOk
  carries : ∀ k, (s.kt k).Carries
  ordered : ∀ k, (phase h k).isSome
  phase : s.halt = none → ∀ k, phase h k = some (s.kt k).phase

/-- No act comes out of order. -/
theorem State.next_isSome {a : TaskAct} (ht : (s.kt k).TaskOk) (ha : s.taskAct k e = some a) :
    ((s.kt k).phase.next a).isSome := by
  unfold State.taskAct at ha
  split at ha
  · rw [Option.ite_none_right_eq_some] at ha
    replace ha := ha.2
    split at ha
    · next hc =>
      obtain rfl := Option.some.inj ha
      simp [KThread.phase_thread hc ht rfl, Phase.next]
    · next hc =>
      obtain rfl := Option.some.inj ha
      simp [KThread.phase_thread hc ht rfl, Phase.next]
    · next hc =>
      split_ifs at ha
      obtain rfl := Option.some.inj ha
      simp [KThread.phase_thread hc ht rfl, Phase.next]
    · next hc =>
      split_ifs at ha
      obtain rfl := Option.some.inj ha
      simp [KThread.phase_thread hc ht rfl, Phase.next]
    · next hc =>
      obtain rfl := Option.some.inj ha
      simp [KThread.phase_thread hc ht rfl, Phase.next]
    · next hc =>
      split_ifs at ha with hta
      obtain rfl := Option.some.inj ha
      simp [KThread.phase, hc, hta, Phase.next]
    · next hc =>
      obtain rfl := Option.some.inj ha
      simp [KThread.phase, hc, Phase.next]
    · next hc =>
      obtain rfl := Option.some.inj ha
      simp only [KThread.phase, hc]
      split <;> rfl
    · next hc =>
      obtain rfl := Option.some.inj ha
      simp [KThread.phase, hc, Phase.next]
    · cases ha
  · cases ha

/-- An event of another kernel thread does nothing with the task of `k`. -/
theorem State.taskAct_of_ne (hk : k ≠ e.1) : s.taskAct k e = none := by
  obtain ⟨j, i⟩ := e
  cases i with
  | run f => simp [State.taskAct, Ne.symm hk]
  | _ => rfl

theorem phaseInv_of_run (hr : (machine n cfg).Run P h s) : PhaseInv h s := by
  refine hr.history_invariant (I := PhaseInv) ?_ ?_
  · refine ⟨State.init_taskOk, fun k => ?_, fun k => rfl, fun _ k => ?_⟩
    · refine KThread.carries_of_idle ?_
      obtain ⟨-, h⟩ | ⟨-, h⟩ := State.init_kt_cases n cfg k <;> simp [machine, h, KThread.phase]
    · obtain ⟨-, h⟩ | ⟨-, h⟩ := State.init_kt_cases n cfg k <;>
        simp [machine, h, KThread.phase, Uthread.phase]
  · intro h s e s' _ I _ hs
    have hhalt : s.halt = none := by
      by_contra hne
      simp [machine, State.step, hne] at hs
    have hphase := I.phase hhalt
    have hordered (k : Fin n) : (Uthread.phase ((s, e) :: h) k).isSome := by
      simp only [Uthread.phase]
      cases ha : s.taskAct k e with
      | none => exact I.ordered k
      | some a => simpa [hphase k] using State.next_isSome (I.task k) ha
    obtain rfl | rfl | ht := State.step_cases hs
    · exact ⟨I.task, I.carries, hordered, by simp [State.abort]⟩
    · exact ⟨I.task, I.carries, hordered, by simp [State.fault]⟩
    · have hstep := ht.phaseStep (I.task e.1) (I.carries e.1)
      refine ⟨fun k => ?_, fun k => ?_, hordered, fun _ k => ?_⟩
      · by_cases hk : k = e.1
        · exact hk ▸ ht.taskOk (I.task e.1)
        · exact ht.kt_of_ne hk ▸ I.task k
      · by_cases hk : k = e.1
        · exact hk ▸ hstep.carries
        · exact ht.kt_of_ne hk ▸ I.carries k
      · simp only [Uthread.phase]
        by_cases hk : k = e.1
        · subst hk
          cases ha : s.taskAct e.1 e with
          | none => rw [hstep.stay ha, hphase]
          | some a => simpa [hphase] using hstep.move a ha
        · rw [State.taskAct_of_ne hk, ht.kt_of_ne hk, hphase]

/-! ### The main result -/

/-- What the task left in `sched_info` says at the entry of `schedule` on kernel thread `k`: a
current thread that is alive and in the state of the task; for `JOIN` the join queue of the target,
which is not finished; for `SEM_WAIT` a semaphore with counter `0`, whose mutex is held. -/
def State.TaskFits (s : State n) (k : Fin n) : Prop :=
  s.owner .tcbs = some k ∧ ∃ p x, 0 ≤ (s.kt k).currentTid ∧ s.currentTcb k = some p ∧
    s.heap p = some x ∧ x.state = (s.kt k).task.state ∧
    ((s.kt k).task = .join → ∃ t pret q y, s.suspended p = some (.joined t pret) ∧
      s.tcbs t = some q ∧ (s.kt k).queue = some (.join q) ∧ s.heap q = some y ∧
      y.state ≠ .finished) ∧
    ((s.kt k).task = .semWait → ∃ i y, (s.kt k).lock = some i ∧ s.owner (.sem i) = some k ∧
      (s.kt k).queue = some (.sem i) ∧ s.sems i = some y ∧ y.counter = 0)

theorem Inv.joinTarget_of_entry (I : Inv s) (hc : (s.kt k).ctl = .sched .entry)
    (hp : s.exec k = some p) (ht : (s.kt k).task = .join) :
    ∃ t pret q y, s.suspended p = some (.joined t pret) ∧ s.tcbs t = some q ∧
      (s.kt k).queue = some (.join q) ∧ s.heap q = some y ∧ y.state ≠ .finished := by
  have hands : (s.kt k).hands = true := by simp [KThread.hands, hc]
  obtain ⟨r, hr, htask, -⟩ := I.handed_resume hp hands
    (by simp [KThread.execState, hc, ht, SchedTask.state])
  obtain ⟨t, pret, rfl⟩ : ∃ t pret, r = .joined t pret := by
    cases r <;> simp_all [Resume.task]
  obtain ⟨q, hqu, hq, hst⟩ := I.join.handing k t (.inr ⟨hands, p, pret, hp, hr⟩)
  obtain ⟨y, hy, -⟩ := I.table.slot t q hq
  exact ⟨t, pret, q, y, hr, hq, hqu, hy, by simpa [State.stateOf, hy] using hst⟩

theorem Inv.taskFits (I : Inv s) (W : SemRunInv h s) (hc : (s.kt k).ctl = .sched .entry)
    (ht : (s.kt k).task ≠ .none) : s.TaskFits k := by
  have hheld : Lock.tcbs ∈ (s.kt k).held := by
    cases hta : (s.kt k).task <;> simp_all [KThread.held]
  obtain ⟨p, hp⟩ := I.table.handing k hc ht
  have hcur : s.currentTcb k = some p := by rw [← State.exec_entry hc ht rfl]; exact hp
  obtain ⟨x, hx, hst⟩ := Option.map_eq_some_iff.mp
    (I.place.alive (.exec k) p (PlaceInv.mem_exec hp))
  refine ⟨(I.lock .tcbs k).2 hheld, p, x, ?_, hcur, hx, ?_,
    fun hj => I.joinTarget_of_entry hc hp hj, fun hw => ?_⟩
  · by_contra hneg
    simp [State.currentTcb, hneg] at hcur
  · rw [hst]
    simp [State.placeState, KThread.execState, hc]
  · have htask := I.task k
    simp only [KThread.TaskOk, hc, hw, iff_true] at htask
    obtain ⟨i, hi⟩ := Option.isSome_iff_exists.mp htask
    obtain ⟨y, hy, h0⟩ := (W.wake i).parking k (by simp [KThread.parks, hc, hw, hi])
    refine ⟨i, y, hi, (I.lock (.sem i) k).2 ?_, ?_, hy, h0⟩
    · simp [KThread.held, hc, hw, hi]
    · rw [(I.table.queue k).2 hw, hi]
      rfl

/-- For any number of kernel threads, with or without preemption, and any interleaving of a program
that obeys the documented preconditions: at the entry of `schedule` on kernel thread `k`, a task
that is not `NONE` fits the current thread and the mutexes that `k` holds, and with `NONE` the kernel
thread holds no mutex. In the history of `k` every task that is recorded is carried out once, by `k`,
and is reset before the next one is recorded and before `k` resumes a thread. -/
theorem hand_off (hn : 0 < n) (hr : (machine n cfg).Run Obeys h s) (k : Fin n) :
    ((s.kt k).ctl = .sched .entry →
      ((s.kt k).task ≠ .none → s.TaskFits k) ∧
      ((s.kt k).task = .none → ∀ L, s.owner L ≠ some k)) ∧
    (phase h k).isSome := by
  have I := inv_of_reachable hn hr.reachable
  refine ⟨fun hc => ⟨fun ht => ?_, fun ht L hL => ?_⟩, (phaseInv_of_run hr).ordered k⟩
  · exact I.taskFits (semRunInv_of_run (hr.mono fun _ _ o => o.sem)) hc ht
  · have := (I.lock L k).1 hL
    simp [KThread.held, hc, ht] at this

/-- A thread has called `uthread_sem_wait` with counter `0`, and `schedule` is about to park it. -/
theorem hand_off_semWait : ∃ (h : List (State 1 × Event 1)) (s : State 1),
    (s.kt 0).ctl = .sched .entry ∧ (s.kt 0).task = .semWait ∧ s.TaskFits 0 ∧
      (phase h 0).isSome := by
  obtain ⟨h, s, hr, hs⟩ := EventMachine.exists_run_of_exec
    (M := machine 1 ⟨0⟩) (P := Obeys)
    (runs 0 2 ++ [(0, .call (.op (.semInit 0 0)))] ++ runs 0 3 ++
      [(0, .call (.op (.create false)))] ++ runs 0 12 ++ [(0, .call .yield)] ++ runs 0 24 ++
      [(0, .call (.op (.semWait 0)))] ++ runs 0 7)
    (p := fun x => (x.2.kt 0).ctl = .sched .entry ∧ (x.2.kt 0).task = .semWait)
    (by decide +kernel)
  obtain ⟨hc, ht⟩ : (s.kt 0).ctl = .sched .entry ∧ (s.kt 0).task = .semWait :=
    of_decide_eq_true hs
  have hoff := hand_off Nat.one_pos hr 0
  exact ⟨h, s, hc, ht, (hoff.1 hc).1 (by simp [ht]), hoff.2⟩

end Uthread
