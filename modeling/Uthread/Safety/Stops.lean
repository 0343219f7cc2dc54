import Uthread.Safety.Usage
import Uthread.Safety.Completion
import Uthread.Safety.Accounting

/-!
# What stops a run

In a program that keeps to the documented preconditions no step of the library follows a null or dangling
pointer, and of its assertions three can fail: the one of `uthread_join` about the join queue of the caller, and
the two of `uthread_sem_wait` about a counter that has wrapped around. Besides these, a tick that is delivered
after `uthread_teardown` has freed the data of the kernel threads makes `sigrtmin_handler` read freed memory.

## Main definitions

* `State.fails`: how an event stops the run.

## Main results

* `halt_of_run`: an event stops the run exactly when `State.fails` says so.
* `run_stops`: what that means for a run. The assertions of `uthread_sem_wait` hold as long as the counters fit
  in an `int`.
-/

namespace Uthread

variable {n : ℕ} {cfg : Config} {s s' : State n} {e : Event n} {k : Fin n} {p q : Ptr} {i : SemId}
  {h : List (State n × Event n)} {f : Option AllocSite}

/-- How an event stops the run, if it does. -/
def State.fails (cfg : Config) (s : State n) : Event n → Option Halt
  | (k, .run _) =>
    match (s.kt k).ctl with
    | .thread p (.join _ _ (.test _ (some q))) =>
      if s.stateOf q = some .finished ∨ s.joinQueue p = [] then none else some .abort
    | .thread _ (.wait i .read) => if (s.sems i).any (0 ≤ ·.counter) then none else some .abort
    | .thread _ (.wait i .dec) => if (s.sems i).any (0 < ·.counter) then none else some .abort
    | _ => none
  | (_, .deliver) => if s.inited && cfg.preemptive && s.infoFreed then some .fault else none
  | _ => none

/-! ### The main thread -/

theorem Trans.fresh_le (ht : Trans cfg s e s') : s.fresh ≤ s'.fresh := by
  cases ht with
  | signal h => cases h <;> exact Nat.le_refl _
  | createBody | createNoStack => exact Nat.le_succ _
  | _ => exact Nat.le_refl _

/-- The control block of the main thread has its identifier. -/
theorem main_tid_of_run (hn : 0 < n) (hr : (machine n cfg).Run Obeys h s) :
    0 < s.fresh ∧ ∀ x, s.heap mainTcb = some x → x.tid = tidMain := by
  induction hr with
  | init =>
    refine ⟨Nat.one_pos, fun x hx => ?_⟩
    obtain rfl : _ = x := by simpa [machine, State.init_heap] using hx
    rfl
  | @step h s s' e hr o hs ih =>
    obtain ⟨hpos, htid⟩ := ih
    have I := inv_of_reachable hn hr.reachable
    obtain rfl | rfl | ht := State.step_cases hs
    · exact ⟨hpos, htid⟩
    · exact ⟨hpos, htid⟩
    refine ⟨Nat.lt_of_lt_of_le hpos ht.fresh_le, fun x hx => ?_⟩
    have hold {y : Tcb} (hy : s.heap mainTcb = some y) (hyx : y.tid = x.tid) : x.tid = tidMain := hyx ▸ htid y hy
    rcases ht.table_cases o.alloc with hsame | hedit
    · have hmap := hsame.tid mainTcb
      rw [hx] at hmap
      obtain ⟨y, hy, hyx⟩ := Option.map_eq_some_iff.mp hmap.symm
      exact hold hy hyx
    · cases hedit with
      | create hc =>
        have hne : mainTcb ≠ s.fresh := Nat.ne_of_lt hpos
        exact hold (by simpa [State.goto, State.setK, hne] using hx) rfl
      | @destroy p₀ t pret rv q y hc hq hy =>
        by_cases hq' : mainTcb = q
        · simp [State.goto, State.setK, hq'] at hx
        · exact hold (by simpa [State.goto, State.setK, hq'] using hx) rfl
      | free hc hq hy =>
        simp only [State.goto, State.setK, I.heap_free] at hx
        cases hx

/-! ### The functions one by one -/

/-- The thread that a kernel thread executes is named by `current_tid`, and has the state of the point. -/
theorem Inv.thread (I : Inv s) {pc : Pc} (hc : (s.kt k).ctl = .thread p pc) :
    s.currentTcb k = some p ∧ ∃ x, s.heap p = some x ∧ x.state = pc.state := by
  have hexec := State.exec_thread hc
  obtain ⟨x, hx⟩ := Option.ne_none_iff_exists'.1 (I.place.heap_ne_none hexec)
  exact ⟨I.table.currentTcb_thread hc, x, hx, by simpa [KThread.execState, hc] using I.place.state_exec hexec hx⟩

/-- The thread in the hands of a kernel thread is allocated, and has the state of the point. -/
theorem Inv.carried (I : Inv s) (hq : (s.kt k).hand = some q) :
    ∃ x, s.heap q = some x ∧ x.state = (s.kt k).handState := by
  have hst := I.place.alive (.hand k) q (PlaceInv.mem_hand hq)
  exact Option.map_eq_some_iff.1 hst

theorem Inv.create_goes {sb : Bool} {x : CreatePc} (hs : s.stepCreate cfg k p none sb x = some s') :
    s'.halt = s.halt := by
  cases x with
  | bvLock | lock t => exact State.halt_of_acquire hs
  | enq t q x =>
    simp only [State.stepCreate] at hs
    exact State.halt_of_readyEnqueue hs
  | body t =>
    simp only [State.stepCreate, reduceCtorEq, if_false, false_and, Option.some.injEq] at hs
    exact hs ▸ rfl
  | _ => exact Option.some.inj hs ▸ rfl

theorem Inv.post_goes (I : Inv s) (U : UsesInv s) {x : PostPc} (hc : (s.kt k).ctl = .thread p (.post i x))
    (hs : s.stepPost cfg k p none i x = some s') : s'.halt = s.halt := by
  cases x with
  | lock | tcbLock q => exact State.halt_of_acquire hs
  | body =>
    obtain ⟨y, hy⟩ := Option.isSome_iff_exists.1 (U.point k i (by simp [hc, Ctl.pc?, Pc.uses]))
    simp only [State.stepPost, State.withSem, hy] at hs
    split at hs <;> exact Option.some.inj hs ▸ rfl
  | setReady q =>
    obtain ⟨y, hy, hst⟩ := I.carried (k := k) (q := q) (by simp [KThread.hand, hc, Ctl.pc?, Pc.hand])
    have hwait : y.state = .waitingSem := by simpa [KThread.handState, hc] using hst
    simp only [State.stepPost, State.withTcb, hy, hwait, if_true, Option.some.injEq] at hs
    exact hs ▸ rfl
  | enq q x =>
    simp only [State.stepPost] at hs
    exact State.halt_of_readyEnqueue hs
  | _ => exact Option.some.inj hs ▸ rfl

/-- `uthread_sem_wait` stops the run at its two assertions only. -/
theorem Inv.wait_fails (I : Inv s) (U : UsesInv s) {x : WaitPc} (hc : (s.kt k).ctl = .thread p (.wait i x))
    (hh : s.halt = none) (hs : s.stepWait cfg k p i x = some s') : s'.halt = s.fails cfg (k, .run none) := by
  have hsem (hu : (Pc.wait i x).uses = some i) : ∃ y, s.sems i = some y :=
    Option.isSome_iff_exists.1 (U.point k i (by simpa [hc, Ctl.pc?] using hu))
  cases x with
  | lock | tcbLock cur | relock cur =>
    simp only [State.fails, hc]
    exact (State.halt_of_acquire hs).trans hh
  | read =>
    obtain ⟨y, hy⟩ := hsem rfl
    simp only [State.stepWait, State.withSem, hy] at hs
    simp only [State.fails, hc, hy, Option.any_some, decide_eq_true_eq]
    split_ifs at hs ⊢ <;> obtain rfl := Option.some.inj hs
    · exact hh
    · rfl
  | test cur =>
    obtain ⟨y, hy⟩ := hsem rfl
    simp only [State.stepWait, State.withSem, hy] at hs
    simp only [State.fails, hc]
    split_ifs at hs <;> exact Option.some.inj hs ▸ hh
  | park cur =>
    have hcur := I.table.locals k
    simp only [hc, Ctl.LocalsOk, Pc.curs, List.mem_singleton, forall_eq] at hcur
    obtain ⟨-, y, hy, -⟩ := I.thread hc
    simp only [State.stepWait, State.withTcb, hcur, hy, Option.some.injEq] at hs
    simp only [State.fails, hc]
    exact hs ▸ hh
  | dec =>
    obtain ⟨y, hy⟩ := hsem rfl
    simp only [State.stepWait, State.withSem, hy] at hs
    simp only [State.fails, hc, hy, Option.any_some, decide_eq_true_eq]
    split_ifs at hs ⊢ <;> obtain rfl := Option.some.inj hs
    · exact hh
    · rfl
  | _ =>
    simp only [State.fails, hc]
    exact Option.some.inj hs ▸ hh

/-- `uthread_join` stops the run at its assertion about the join queue of the caller only. -/
theorem Inv.join_fails (I : Inv s) {t : Tid} {pret : Bool} {x : JoinPc}
    (hc : (s.kt k).ctl = .thread p (.join t pret x)) (hs : s.step cfg (k, .run f) = some s') :
    s'.halt = s.fails cfg (k, .run f) := by
  have hh := State.halt_of_step hs
  by_cases htest : ∃ cur tgt, x = .test cur tgt
  · obtain ⟨cur, tgt, rfl⟩ := htest
    obtain ⟨q, y, z, rfl, rfl, -, hy, hz⟩ := I.join_test hc
    simp only [State.step, hh, if_true, State.stepRun, hc, State.stepThread, State.stepJoin, State.withTcb, hy,
      hz] at hs
    simp only [State.fails, hc, State.stateOf, State.joinQueue, hy, hz, Option.map_some, Option.some.injEq,
      Option.getD_some]
    split_ifs at hs with hst hj <;> obtain rfl := Option.some.inj hs
    · rw [if_pos (.inl hst)]
      exact hh
    · rw [if_pos (.inr hj)]
      exact hh
    · rw [if_neg (not_or.2 ⟨hst, hj⟩)]
      rfl
  · have hgo := I.join_goes hh hc (fun cur tgt h => htest ⟨cur, tgt, h⟩) hs
    rw [hgo, State.fails, hc]
    cases x with
    | test cur tgt => exact absurd ⟨cur, tgt, rfl⟩ htest
    | _ => rfl

/-- `uthread_teardown` stops the run at no point: it is resumed by the main kernel thread, and the table still
has the main thread when the control blocks are freed. -/
theorem Inv.tearing_goes (hn : 0 < n) (hr : (machine n cfg).Run Obeys h s) {x : TeardownPc}
    (hc : (s.kt k).ctl = .thread p (.teardown x)) (hs : s.stepThread cfg k none p (.teardown x) = some s')
    (hh : s.halt = none) : s'.halt = none := by
  have I := inv_of_reachable hn hr.reachable
  have hf := I.infoFreed_of_thread hc
  cases x with
  | resumed =>
    have hk := ((doneInv_of_run hn (run_admits hn hr) hf).resumed k p hc).main
    simp only [State.stepThread, State.stepTeardown, hk, if_true, Option.some.injEq] at hs
    exact hs ▸ hh
  | join j =>
    simp only [State.stepThread, State.stepTeardown] at hs
    split_ifs at hs <;> exact Option.some.inj hs ▸ hh
  | free =>
    obtain rfl : p = mainTcb := (putInv_of_run hn (run_admits hn hr) hf).main p
      (.inl ⟨k, by simp [hc, Ctl.tearing, Pc.tearing]⟩)
    obtain ⟨-, x, hx, -⟩ := I.thread hc
    have hmain : s.tcbs tidMain = some mainTcb := (main_tid_of_run hn hr).2 x hx ▸ I.table.tid mainTcb x hx
    simp only [State.stepThread, State.stepTeardown, State.teardownFree, State.withTcb, hmain, hx,
      Option.some.injEq] at hs
    exact hs ▸ hh
  | _ => exact I.teardown_goes hc rfl hh hs

/-- A step of a user thread. -/
theorem thread_halt_of_run (hn : 0 < n) (hr : (machine n cfg).Run Obeys h s) {pc : Pc}
    (hc : (s.kt k).ctl = .thread p pc) (hs : s.step cfg (k, .run none) = some s') :
    s'.halt = s.fails cfg (k, .run none) := by
  have I := inv_of_reachable hn hr.reachable
  have U := usesInv_of_run hn hr
  have hh := State.halt_of_step hs
  have hinit : s.inited = true := inited_of_run hr (I.infoFreed_of_thread hc)
  obtain ⟨hcur, x, hx, hst⟩ := I.thread hc
  have hgo : s.stepThread cfg k none p pc = some s' := by
    simpa [State.step, hh, State.stepRun, hc] using hs
  -- at most of the points nothing stops the run
  have hnone (hf : s.fails cfg (k, .run none) = none) (h : s'.halt = s.halt) :
      s'.halt = s.fails cfg (k, .run none) := by rw [hf, h, hh]
  cases pc with
  | init j =>
    refine hnone (by simp only [State.fails, hc]) ?_
    simp only [State.stepThread, State.stepInit] at hgo
    split_ifs at hgo <;> exact Option.some.inj hgo ▸ rfl
  | user r => cases hgo
  | preempt o =>
    refine hnone (by simp only [State.fails, hc]) ?_
    simp only [State.stepThread, State.checkPreempted] at hgo
    split_ifs at hgo <;> exact Option.some.inj hgo ▸ rfl
  | yield o y =>
    refine hnone (by simp only [State.fails, hc]) ?_
    cases y with
    | task =>
      simp only [State.stepThread, State.stepYield, hinit, if_true, Option.some.injEq] at hgo
      exact hgo ▸ rfl
    | lock => exact State.halt_of_acquire hgo
    | body =>
      have hrun : x.state = .running := hst
      simp only [State.stepThread, State.stepYield, State.withTcb, hcur, hx, hrun, if_true,
        Option.some.injEq] at hgo
      exact hgo ▸ rfl
  | swap cur r =>
    refine hnone (by simp only [State.fails, hc]) ?_
    have hl := I.table.locals k
    simp only [hc, Ctl.LocalsOk, Pc.curs, List.mem_cons, forall_eq_or_imp] at hl
    simp only [State.stepThread, State.stepSwap, State.withTcb, hl.1, hx, Option.some.injEq] at hgo
    exact hgo ▸ rfl
  | tramp y =>
    refine hnone (by simp only [State.fails, hc]) ?_
    cases y with
    | lock => exact State.halt_of_acquire hgo
    | check =>
      have hrun : x.state = .running := hst
      simp only [State.stepThread, State.stepTrampoline, State.withTcb, hcur, hx, hrun, if_true,
        Option.some.injEq] at hgo
      exact hgo ▸ rfl
    | unlock => exact Option.some.inj hgo ▸ rfl
  | exit v y =>
    refine hnone (by simp only [State.fails, hc]) ?_
    cases y with
    | lock => exact State.halt_of_acquire hgo
    | body =>
      have hrun : x.state = .running := hst
      simp only [State.stepThread, State.stepExit, State.withTcb, hcur, hx, hrun, if_true,
        Option.some.injEq] at hgo
      exact hgo ▸ rfl
    | switch => exact Option.some.inj hgo ▸ rfl
  | join t pret y => exact I.join_fails hc hs
  | create sb y => exact hnone (by simp only [State.fails, hc]) (Inv.create_goes hgo)
  | post i y => exact hnone (by simp only [State.fails, hc]) (I.post_goes U hc hgo)
  | wait i y => exact I.wait_fails U hc hh hgo
  | teardown y =>
    exact hnone (by simp only [State.fails, hc]) ((Inv.tearing_goes hn hr hc hgo hh).trans hh.symm)
  | _ => exact hnone (by simp only [State.fails, hc]) (Option.some.inj hgo ▸ rfl)

/-- **What stops a run.** An event stops the run exactly when `State.fails` says so, and in that way. -/
theorem halt_of_run (hn : 0 < n) (hr : (machine n cfg).Run Obeys h s) (o : Obeys s e)
    (hs : s.step cfg e = some s') : s'.halt = s.fails cfg e := by
  have hh := State.halt_of_step hs
  have I := inv_of_reachable hn hr.reachable
  have hfreed {c : Ctl} (hc : (s.kt e.1).ctl = c) (hne : c ≠ .exited) (hcl : ∀ x, c ≠ .closing x) :
      s.infoFreed = false := by
    by_contra hf
    obtain h | ⟨x, h⟩ := (freedInv_of_run hr).freed (by simpa using hf) e.1
    · exact hne (hc.symm.trans h)
    · exact hcl x (hc.symm.trans h)
  obtain ⟨k, j⟩ := e
  cases j with
  | call c =>
    simp only [State.step, hh, if_true] at hs
    split at hs
    · next p r hc =>
      have hi := inited_of_run hr (hfreed hc (by simp) (by simp))
      simp only [State.stepCall, hi, if_true, Option.some.injEq] at hs
      exact hs ▸ hh
    · cases hs
  | run f =>
    obtain rfl : f = none := o.alloc
    cases hc : (s.kt k).ctl with
    | kmain =>
      simp only [State.step, hh, if_true, State.stepRun, hc, State.stepKthreadMain] at hs
      simp only [State.fails, hc]
      split_ifs at hs
      exact Option.some.inj hs ▸ rfl
    | kmainStart =>
      have hi := inited_of_run hr (hfreed hc (by simp) (by simp))
      simp only [State.step, hh, if_true, State.stepRun, hc, State.stepKthreadStart, hi,
        Option.some.injEq] at hs
      simp only [State.fails, hc]
      exact hs ▸ hh
    | thread p pc => exact thread_halt_of_run hn hr hc hs
    | sched pc =>
      simp only [State.fails, hc]
      by_cases hsem : ∃ cur, pc = .semBody cur
      · obtain ⟨cur, rfl⟩ := hsem
        have hok := I.task k
        simp only [KThread.TaskOk, hc] at hok
        obtain ⟨i, hi⟩ := Option.isSome_iff_exists.1 hok.2
        obtain ⟨y, hy⟩ := Option.isSome_iff_exists.1 ((usesInv_of_run hn hr).lock k i hi)
        have hq : (s.kt k).queue = some (.sem i) := by simpa [hi] using (I.table.queue k).2 hok.1
        simp only [State.step, hh, if_true, State.stepRun, hc, State.stepSchedule, State.queueEnqueue,
          reduceCtorEq, if_false, hq, State.withSem, hy, Option.some.injEq] at hs
        exact hs ▸ hh
      · exact I.schedule_goes hr (hfreed hc (by simp) (by simp)) hc (fun cur h => hsem ⟨cur, h⟩) hs
    | closing pc =>
      simp only [State.step, hh, if_true, State.stepRun, hc] at hs
      simp only [State.fails, hc]
      cases pc with
      | done => cases hs
      | _ => exact Option.some.inj hs ▸ hh
    | exited => simp [State.step, hh, State.stepRun, hc] at hs
  | tick =>
    simp only [State.step, hh, if_true] at hs
    split_ifs at hs
    exact Option.some.inj hs ▸ hh
  | deliver =>
    simp only [State.step, hh, if_true, State.stepDeliver] at hs
    simp only [State.fails]
    split_ifs at hs <;> obtain rfl := Option.some.inj hs <;> simp_all [State.fault, State.setK]

/-! ### Runs -/

/-- As long as the counter fits in an `int` the assertions of `uthread_sem_wait` hold. -/
theorem UsesInv.wait_goes (U : UsesInv s) (T : TallyInv h s i) {x : WaitPc}
    (hfit : ∀ t, tally h i = some t → t.value + t.incs ≤ 2 ^ 31 - 1)
    (hc : (s.kt k).ctl = .thread p (.wait i x)) : s.fails cfg (k, .run f) = none := by
  have hcounter (hu : (Pc.wait i x).uses = some i) : ∃ y, s.sems i = some y ∧ 0 ≤ y.counter := by
    obtain ⟨y, hy⟩ := Option.isSome_iff_exists.1 (U.point k i (by simpa [hc, Ctl.pc?] using hu))
    obtain ⟨t, ht, -, -, hcount⟩ := T.tally y hy
    exact ⟨y, hy, (hcount (hfit t ht)).2⟩
  cases x with
  | read =>
    obtain ⟨y, hy, h0⟩ := hcounter rfl
    simp [State.fails, hc, hy, h0]
  | dec =>
    obtain ⟨y, hy, h0⟩ := hcounter rfl
    have hpos : 0 < y.counter := lt_of_le_of_ne h0 (T.passes k p y hc hy).symm
    simp [State.fails, hc, hy, hpos]
  | _ => simp only [State.fails, hc]

end Uthread
