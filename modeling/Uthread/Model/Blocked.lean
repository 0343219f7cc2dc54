import Uthread.Model.Transition

/-!
# When a kernel thread cannot go on

A kernel thread takes no step of the library when it executes user code or has exited, and when it
waits: for a mutex, for a kernel semaphore, or for another kernel thread to exit. `State.Blocked`
lists the reasons, and `State.blocked_of_step_eq_none` says that there is no other.
-/

namespace Uthread

variable {n : ℕ} {cfg : Config} {s : State n} {k : Fin n} {p : Ptr} {fail : Option AllocSite}

/-- Why kernel thread `k` takes no step of the library. -/
inductive State.Blocked (s : State n) (k : Fin n) : Prop
  | mutex {L c} (h : Acquires (s.kt k).ctl L c) (ho : s.owner L ≠ none)
  | user {p r} (hc : (s.kt k).ctl = .thread p (.user r))
  | kmain (hc : (s.kt k).ctl = .kmain) (h0 : s.initedSem = 0)
  | notEmpty (hc : (s.kt k).ctl = .sched .deqWait) (h0 : s.notEmpty = 0)
  | exitall {j} (hc : (s.kt k).ctl = .sched (.exitWait (j + 1))) (h0 : s.exitallSem = 0)
  | join {p j} (hc : (s.kt k).ctl = .thread p (.teardown (.join j))) (hj : j < n)
      (hx : (s.kt ⟨j, hj⟩).ctl ≠ .exited)
  | exited (hc : (s.kt k).ctl = .exited)
  | done (hc : (s.kt k).ctl = .closing .done)

namespace State

theorem withTcb_ne_none {o : Option Ptr} {f : Ptr → Tcb → Option (State n)}
    (hf : ∀ c x, f c x ≠ none) : s.withTcb o f ≠ none := by
  unfold withTcb
  split
  · simp
  · split
    · simp
    · exact hf _ _

theorem withSem_ne_none {i : SemId} {f : Sem → Option (State n)} (hf : ∀ x, f x ≠ none) :
    s.withSem i f ≠ none := by
  unfold withSem
  split
  · simp
  · exact hf _

theorem queueEnqueue_ne_none {r : Option QueueRef} {c : Ctl} :
    s.queueEnqueue k fail r p c ≠ none := by
  unfold queueEnqueue
  split
  · simp
  · split
    · simp
    · exact withTcb_ne_none fun _ _ => by simp
    · exact withSem_ne_none fun _ => by simp

theorem assert_ne_none {b : Prop} [Decidable b] {s₁ s₂ : State n} :
    (if b then some s₁ else some s₂) ≠ none := by
  split <;> simp

theorem Blocked.of_acquire {L : Lock} {c : Ctl} (hA : Acquires (s.kt k).ctl L c)
    (h : s.acquire k L c = none) : s.Blocked k := by
  refine .mutex hA fun ho => ?_
  simp [acquire, ho] at h

theorem Blocked.of_readyEnqueue {e : Entry} {next : EnqPc → Ctl} {done : Ctl} {x : EnqPc}
    (hA : x = .lock → Acquires (s.kt k).ctl .rqueue (next .insert))
    (h : s.readyEnqueue k fail e next done x = none) : s.Blocked k := by
  cases x with
  | lock => exact .of_acquire (hA rfl) h
  | insert => exact absurd h assert_ne_none
  | unlock => simp [readyEnqueue, release] at h
  | post => simp [readyEnqueue] at h

theorem Blocked.of_stepJoin {t : Tid} {pret : Bool} {x : JoinPc}
    (hc : (s.kt k).ctl = .thread p (.join t pret x)) (h : s.stepJoin cfg k p t pret x = none) :
    s.Blocked k := by
  cases x with
  | lock cur tgt => exact .of_acquire (hc ▸ .join ..) h
  | relock => exact .of_acquire (hc ▸ .joinAgain ..) h
  | bvLock rv => exact .of_acquire (hc ▸ .joinBitvec ..) h
  | test cur tgt =>
    refine absurd h (withTcb_ne_none fun q x => ?_)
    split
    · simp
    · exact withTcb_ne_none fun _ _ => assert_ne_none
  | finish => exact absurd h (withTcb_ne_none fun _ _ => assert_ne_none)
  | destroy rv => exact absurd h (withTcb_ne_none fun _ _ => by simp)
  | _ => simp [stepJoin, release] at h

theorem Blocked.of_stepCreate {sb : Bool} {x : CreatePc}
    (hc : (s.kt k).ctl = .thread p (.create sb x)) (h : s.stepCreate cfg k p fail sb x = none) :
    s.Blocked k := by
  cases x with
  | bvLock => exact .of_acquire (hc ▸ .createBitvec ..) h
  | lock t => exact .of_acquire (hc ▸ .create ..) h
  | enq t q x =>
    simp only [stepCreate] at h
    refine .of_readyEnqueue (fun hx => ?_) h
    subst hx
    exact hc ▸ .createEnq ..
  | body t =>
    simp only [stepCreate] at h
    split_ifs at h
  | _ => simp [stepCreate, release] at h

theorem Blocked.of_stepPost {i : SemId} {x : PostPc} (hc : (s.kt k).ctl = .thread p (.post i x))
    (h : s.stepPost cfg k p fail i x = none) : s.Blocked k := by
  cases x with
  | lock => exact .of_acquire (hc ▸ .post ..) h
  | tcbLock q => exact .of_acquire (hc ▸ .postTcbs ..) h
  | body =>
    refine absurd h (withSem_ne_none fun x => ?_)
    split <;> simp
  | setReady q =>
    simp only [stepPost] at h
    exact absurd h (withTcb_ne_none fun _ _ => assert_ne_none)
  | enq q x =>
    simp only [stepPost] at h
    refine .of_readyEnqueue (fun hx => ?_) h
    subst hx
    exact hc ▸ .postEnq ..
  | _ => simp [stepPost, release] at h

theorem Blocked.of_stepWait {i : SemId} {x : WaitPc} (hc : (s.kt k).ctl = .thread p (.wait i x))
    (h : s.stepWait cfg k p i x = none) : s.Blocked k := by
  cases x with
  | lock => exact .of_acquire (hc ▸ .wait ..) h
  | tcbLock cur => exact .of_acquire (hc ▸ .waitTcbs ..) h
  | relock cur => exact .of_acquire (hc ▸ .waitAgain ..) h
  | read => exact absurd h (withSem_ne_none fun _ => assert_ne_none)
  | test cur => exact absurd h (withSem_ne_none fun _ => assert_ne_none)
  | dec => exact absurd h (withSem_ne_none fun _ => assert_ne_none)
  | park cur => exact absurd h (withTcb_ne_none fun _ _ => by simp)
  | _ => simp [stepWait, release] at h

theorem Blocked.of_stepTeardown {x : TeardownPc} (hc : (s.kt k).ctl = .thread p (.teardown x))
    (h : s.stepTeardown k p fail x = none) : s.Blocked k := by
  cases x with
  | loop j => exact absurd h assert_ne_none
  | enq j x =>
    simp only [stepTeardown] at h
    refine .of_readyEnqueue (fun hx => ?_) h
    subst hx
    exact hc ▸ .teardownEnq ..
  | lock => exact .of_acquire (hc ▸ .teardown ..) h
  | resumed => exact absurd h assert_ne_none
  | join j =>
    simp only [stepTeardown] at h
    split_ifs at h with hj hx
    exact .join hc hj hx
  | free => exact absurd h (withTcb_ne_none fun _ _ => by simp)
  | _ => simp [stepTeardown] at h

theorem scheduleEntry_ne_none : s.scheduleEntry cfg k ≠ none := by
  unfold scheduleEntry
  split <;> simp

theorem scheduleExit_ne_none {cur : Ptr} : s.scheduleExit k cur ≠ none := by
  refine withTcb_ne_none fun c x => ?_
  split
  · simp
  · dsimp only
    split
    · simp
    · exact assert_ne_none

theorem Blocked.of_stepSchedule {pc : SchedPc} (hc : (s.kt k).ctl = .sched pc)
    (h : s.stepSchedule cfg k fail pc = none) : s.Blocked k := by
  cases pc with
  | entry => exact absurd h scheduleEntry_ne_none
  | exitBody cur => exact absurd h scheduleExit_ne_none
  | joinBody cur => exact absurd h queueEnqueue_ne_none
  | semBody cur => exact absurd h queueEnqueue_ne_none
  | semUnlock =>
    simp only [stepSchedule, release] at h
    split at h <;> cases h
  | teardownBody cur =>
    simp only [stepSchedule] at h
    exact absurd h (withTcb_ne_none fun _ _ => by simp)
  | enq q x =>
    simp only [stepSchedule] at h
    refine .of_readyEnqueue (fun hx => ?_) h
    subst hx
    exact hc ▸ .schedEnq ..
  | deqWait =>
    simp only [stepSchedule] at h
    split_ifs at h with h0
    exact .notEmpty hc (Nat.eq_zero_of_not_pos h0)
  | deqLock => exact .of_acquire (hc ▸ .deq) h
  | deqRemove =>
    simp only [stepSchedule] at h
    split at h <;> cases h
  | next e =>
    cases e with
    | exitall => exact absurd h assert_ne_none
    | tcb q => simp [stepSchedule] at h
  | exitWait j =>
    cases j with
    | zero => simp [stepSchedule] at h
    | succ j =>
      simp only [stepSchedule] at h
      split_ifs at h with h0
      exact .exitall hc (Nat.eq_zero_of_not_pos h0)
  | dispLock q => exact .of_acquire (hc ▸ .disp ..) h
  | dispBody q =>
    simp only [stepSchedule] at h
    exact absurd h (withTcb_ne_none fun _ _ => assert_ne_none)
  | dispSet q =>
    simp only [stepSchedule] at h
    refine absurd h (withTcb_ne_none fun c x => ?_)
    split <;> simp
  | _ => simp [stepSchedule, release] at h

theorem Blocked.of_stepThread {pc : Pc} (hc : (s.kt k).ctl = .thread p pc)
    (h : s.stepThread cfg k fail p pc = none) : s.Blocked k := by
  cases pc with
  | init j => exact absurd h assert_ne_none
  | user r => exact .user hc
  | preempt o => exact absurd h assert_ne_none
  | yield o x =>
    cases x with
    | task => exact absurd h assert_ne_none
    | lock => exact .of_acquire (hc ▸ .yield ..) h
    | body => exact absurd h (withTcb_ne_none fun _ _ => assert_ne_none)
  | swap cur r => exact absurd h (withTcb_ne_none fun _ _ => by simp)
  | tramp x =>
    cases x with
    | lock => exact .of_acquire (hc ▸ .tramp ..) h
    | check => exact absurd h (withTcb_ne_none fun _ _ => assert_ne_none)
    | unlock => simp [stepThread, stepTrampoline, release] at h
  | exit v x =>
    cases x with
    | lock => exact .of_acquire (hc ▸ .exit ..) h
    | body => exact absurd h (withTcb_ne_none fun _ _ => assert_ne_none)
    | switch => simp [stepThread, stepExit] at h
  | join t pret x => exact .of_stepJoin hc h
  | create sb x => exact .of_stepCreate hc h
  | post i x => exact .of_stepPost hc h
  | wait i x => exact .of_stepWait hc h
  | teardown x => exact .of_stepTeardown hc h
  | _ => simp [stepThread, stepInitRet, stepSemInit, stepSemDestroy, stepSemRet] at h

/-- A kernel thread that takes no step of the library, while the run goes on, waits for something,
executes user code or has come to its end. -/
theorem blocked_of_step_eq_none (hh : s.halt = none) (h : s.step cfg (k, .run fail) = none) :
    s.Blocked k := by
  simp only [step, hh, if_true, stepRun] at h
  cases hc : (s.kt k).ctl with
  | kmain =>
    simp only [hc, stepKthreadMain] at h
    split_ifs at h with h0
    exact .kmain hc (Nat.eq_zero_of_not_pos h0)
  | kmainStart =>
    rw [hc] at h
    exact absurd h assert_ne_none
  | thread p pc => exact .of_stepThread hc (by simpa [hc] using h)
  | sched pc => exact .of_stepSchedule hc (by simpa [hc] using h)
  | closing pc =>
    cases pc with
    | done => exact .done hc
    | _ => simp [hc, stepClosing] at h
  | exited => exact .exited hc

end State

end Uthread
