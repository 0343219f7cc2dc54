import Uthread.Fcfs.Simulation

/-!
# Where calls take effect

A call takes effect at one step: where the calling thread leaves, where the semaphore is written, where the new
control block is installed. A thread that was parked on a semaphore looks at the counter again where the loop of
`uthread_sem_wait` does.

## Main results

* `Agrees.yieldBody`, `Agrees.exitBody`, `Agrees.joinFinished`, `Agrees.joinBlock`, `Agrees.createBody`,
  `Agrees.semInit`, `Agrees.semDestroy`, `Agrees.postBump`, `Agrees.postWake`, `Agrees.waitPark`,
  `Agrees.waitDec`: one for each such step.
-/

namespace Uthread

variable {s s' : State 1} {e : Event 1} {a a' : Fcfs Ptr SemId} {p q : Ptr} {f : Option AllocSite}

/-! ### Calls that take effect -/

/-- Nobody waits to join a thread that is being joined for the first time. -/
theorem Inv.joinQueue_eq_nil (I : Inv s) {t : Tid} {pret : Bool} {x : JoinPc}
    (hc : (s.kt 0).ctl = .thread p (.join t pret x)) (hj : (s.kt 0).ctl.joining = some (p, t))
    (htcb : s.tcbs t = some q) : s.joinQueue q = [] := by
  rw [List.eq_nil_iff_forall_not_mem]
  intro r hr
  obtain ⟨t', pret', hsus, htcb'⟩ := I.join.parked q r hr
  obtain ⟨y, hy, hyt⟩ := I.table.slot t q htcb
  obtain ⟨y', hy', hyt'⟩ := I.table.slot t' q htcb'
  obtain rfl : t' = t := by rw [← hyt, ← hyt', Option.some.inj (hy.symm.trans hy')]
  obtain rfl : r = p := I.join.unique r p t' (.inr (by rw [hsus]; rfl)) (.inl ⟨0, hj⟩)
  rw [State.suspended_eq_context, State.context_of_executed (k := 0) (by rw [hc]; rfl)] at hsus
  cases hsus

theorem State.point_of_thread {pc : Pc} (hc : (s.kt 0).ctl = .thread p pc) (hr : pc.Retries (a.retries p))
    (hz : pc.zero = none) : ∀ p pc, (s.kt 0).ctl = .thread p pc →
      pc.Retries (a.retries p) ∧ ∀ i, pc.zero = some i → a.counter i = some 0 := by
  intro p₀ pc₀ h₀
  obtain ⟨rfl, rfl⟩ := Ctl.thread.inj (hc.symm.trans h₀)
  exact ⟨hr, fun i hi => by simp [hz] at hi⟩

theorem State.point_of_not_thread (hc : (s.kt 0).ctl.thread? = none) : ∀ p pc, (s.kt 0).ctl = .thread p pc →
    pc.Retries (a.retries p) ∧ ∀ i, pc.zero = some i → a.counter i = some 0 := by
  intro p₀ pc₀ h₀
  simp [h₀, Ctl.thread?] at hc

namespace Agrees

variable (A : Agrees s a)
include A

theorem ready_runs {hand : Option Ptr} (hrun : s.activity = .runs p hand) :
    a.ready = s.rqueue.filterMap Entry.ptr? ++ hand.toList := by
  rw [A.ready, State.readyList, hrun]
  rfl

theorem waiters_runs {hand : Option Ptr} (hrun : s.activity = .runs p hand) (i : SemId) :
    a.waiters i = s.semQueue i := by
  rw [A.waiters, State.waitersOf, hrun]
  exact List.append_nil _

theorem joiner_runs {hand : Option Ptr} {st : ThreadState} (hrun : s.activity = .runs p hand)
    (hst : s.stateOf q = some st) (hfin : st ≠ .finished) : s.joinQueue q = (a.joiner q).toList := by
  rw [← A.joiner q st hst hfin, State.joinersOf, hrun]
  exact (List.append_nil _).symm

/-- The call of the running thread takes effect. -/
theorem effect {pc pc' : Pc} {c : Call} {c' : FcfsCall Ptr SemId} (hc : (s.kt 0).ctl = .thread p pc)
    (hl : pc.leaves = false) (hret : a.retries p = none) (htodo : pc.todo = some c) (hcall : c.fcfs s = some c')
    (hstep : a.call p c' = some a') (hc' : (s'.kt 0).ctl = .thread p pc') (htodo' : pc'.todo = none)
    (hagrees : Agrees s' a') : Simulated s (0, .run f) s' a a' (some (.call p c')) where
  step := by
    have hrunning : a.running = some p := by rw [A.running, State.activity_runs hc hl]; rfl
    simp [Fcfs.step, hrunning, hret, hstep]
  calls := by
    rw [State.pendingCall_thread hc, State.pendingCall_thread hc', htodo, htodo']
    simp [hret, hcall, State.fcfsCall_run, FcfsEvent.call?]
  dispatches := State.dispatches_thread hc
  agrees := hagrees

theorem yieldBody (I : Inv s) (C : CoopInv s) (ha : AllocOk ((0, .run f) : Event 1)) {o : Option Op} {c : Ptr}
    {x : Tcb} (hc : (s.kt 0).ctl = .thread p (.yield o .body)) (hcur : s.currentTcb 0 = some c)
    (hx : s.heap c = some x) (hst : x.state = .running)
    (hs' : s' = (s.setTcb c { x with state := .ready }).goto 0 (.thread p (.swap (some c) (.yielded o)))) :
    ∃ a' ev, Simulated s (0, .run f) s' a a' ev := by
  obtain rfl : p = c := Option.some.inj ((I.table.currentTcb_thread hc).symm.trans hcur)
  have hc' : (s'.kt 0).ctl = .thread p (.swap (some p) (.yielded o)) := by rw [hs', State.goto, State.setK_kt]
  have htask := I.task 0
  simp only [KThread.TaskOk, hc, Pc.task, Option.some.injEq, Prod.mk.injEq] at htask
  have hrun : s.activity = .runs p none := State.activity_runs hc rfl
  have hact : s'.activity = .appends p := by
    rw [State.activity_leaves hc' rfl, hs']
    simp [KThread.leaving, State.goto, htask]
  have hsame : SameThreads s s' := by
    rw [hs']
    exact .of_write hx rfl rfl (by simp [hst])
  have hret : a.retries p = none := A.point p _ hc
  refine ⟨_, _, A.effect hc rfl hret rfl rfl rfl hc' rfl ?_⟩
  refine A.next I C ha (hs' ▸ .yieldBody hc hcur hx hst) (by simp [hc]) ?_ ?_ (fun i => ?_) (fun i => ?_)
    (A.joiner_of hsame fun q => by rw [hact, hrun]; rfl) (A.finished_of hsame)
    (State.point_of_thread hc' hret rfl) fun _ _ => rfl
  · rw [hact]
    rfl
  · rw [A.ready_runs hrun, State.readyList, hact, hs']
    simp [Activity.front, Activity.back, State.goto, State.setK, State.setTcb]
  · rw [A.waiters_runs hrun, State.waitersOf, hact, hs']
    simp [Activity.parked, State.semQueue, State.goto, State.setK, State.setTcb]
  · rw [A.counter, hs']
    rfl

theorem exitBody (I : Inv s) (C : CoopInv s) (ha : AllocOk ((0, .run f) : Event 1)) {v : Val} {c : Ptr} {x : Tcb}
    (hc : (s.kt 0).ctl = .thread p (.exit v .body)) (hcur : s.currentTcb 0 = some c)
    (hx : s.heap c = some x) (hst : x.state = .running)
    (hs' : s' = (s.setTcb c { x with retval := v, state := .finished }).setK 0
      { s.kt 0 with task := .exit, ctl := .thread p (.exit v .switch) }) :
    ∃ a' ev, Simulated s (0, .run f) s' a a' ev := by
  obtain rfl : p = c := Option.some.inj ((I.table.currentTcb_thread hc).symm.trans hcur)
  have hc' : (s'.kt 0).ctl = .thread p (.exit v .switch) := by rw [hs', State.setK_kt]
  have hrun : s.activity = .runs p none := State.activity_runs hc rfl
  have hact : s'.activity = .exits p := by
    rw [State.activity_leaves hc' rfl, hs']
    simp [KThread.leaving]
  have hret : a.retries p = none := A.point p _ hc
  have hheap : s'.heap = Function.update s.heap p (some { x with retval := v, state := .finished }) := by
    rw [hs']
    rfl
  have hjq (q : Ptr) : s'.joinQueue q = s.joinQueue q := by
    by_cases hqp : q = p
    · simp [State.joinQueue, hheap, hqp, hx]
    · simp [State.joinQueue, hheap, Function.update_of_ne hqp]
  have hstate {q : Ptr} (hqp : q ≠ p) : s'.stateOf q = s.stateOf q := by
    simp [State.stateOf, hheap, Function.update_of_ne hqp]
  have hfin : s'.stateOf p = some .finished := by simp [State.stateOf, hheap]
  have hrunning : s.stateOf p = some .running := by simp [State.stateOf, hx, hst]
  have hback : s'.joinQueue p = (a.joiner p).toList := (hjq p).trans (A.joiner_runs hrun hrunning (by decide))
  have hrq : s'.rqueue = s.rqueue := by
    rw [hs']
    rfl
  refine ⟨_, _, A.effect hc rfl hret rfl rfl rfl hc' rfl ?_⟩
  refine A.next I C ha (hs' ▸ .exitBody hc hcur hx hst) (by simp [hc]) ?_ ?_ (fun i => ?_) (fun i => ?_)
    (fun q st hq hne => ?_) (fun q st hq => ?_) (State.point_of_thread hc' hret rfl) fun _ _ => rfl
  · rw [hact]
    rfl
  · rw [State.readyList, hact, Activity.back, hback, hrq]
    simp [A.ready_runs hrun, Activity.front]
  · rw [A.waiters_runs hrun, State.waitersOf, hact, hs']
    simp [Activity.parked, State.semQueue, State.setK, State.setTcb]
  · rw [A.counter, hs']
    rfl
  · have hqp : q ≠ p := by
      rintro rfl
      exact hne (Option.some.inj (hq.symm.trans hfin))
    rw [hstate hqp] at hq
    rw [← A.joiner_runs hrun hq hne, State.joinersOf, hjq, hact]
    exact List.append_nil _
  · by_cases hqp : q = p
    · subst hqp
      obtain rfl : st = .finished := Option.some.inj (hq.symm.trans hfin)
      simp
    · rw [hstate hqp] at hq
      simpa [Function.update_of_ne hqp] using A.finished q st hq

theorem joinFinished (I : Inv s) (C : CoopInv s) (ha : AllocOk ((0, .run f) : Event 1)) {t : Tid} {pret : Bool}
    {cur : Option Ptr} {x : Tcb} (hc : (s.kt 0).ctl = .thread p (.join t pret (.test cur (some q))))
    (hx : s.heap q = some x) (hst : x.state = .finished)
    (hs' : s' = s.goto 0 (.thread p (.join t pret .finish))) :
    ∃ a' ev, Simulated s (0, .run f) s' a a' ev := by
  have hc' : (s'.kt 0).ctl = .thread p (.join t pret .finish) := by rw [hs', State.goto, State.setK_kt]
  have hret : a.retries p = none := A.point p _ hc
  have hrun : s.activity = .runs p none := State.activity_runs hc rfl
  have hact : s'.activity = .runs p none := State.activity_runs hc' rfl
  have htcb : s.tcbs t = some q := I.join.read 0 t (some q) (by simp [hc, Ctl.pc?, Pc.target])
  have hfin : a.finished q = true := (A.finished q x.state (by simp [State.stateOf, hx])).mpr hst
  have hsame : SameThreads s s' := .of_heap (by rw [hs']; rfl)
  have hcall : Call.fcfs s (.op (.join t pret)) = some (.join q) := by simp [Call.fcfs, htcb]
  refine ⟨a, _, A.effect hc rfl hret rfl hcall (by simp [Fcfs.call, hfin]) hc' rfl ?_⟩
  refine A.next I C ha (hs' ▸ .joinFinished hc hx hst) (by simp [hc]) ?_ ?_ (fun i => ?_) (fun i => ?_)
    (A.joiner_of hsame fun q => by rw [hact, hrun]) (A.finished_of hsame)
    (State.point_of_thread hc' hret rfl) fun _ _ => rfl
  · rw [A.running, hact, hrun]
  · rw [A.ready, State.readyList, State.readyList, hact, hrun, hs']
    rfl
  · rw [A.waiters, State.waitersOf, State.waitersOf, hact, hrun, hs']
    rfl
  · rw [A.counter, hs']
    rfl

theorem joinBlock (I : Inv s) (C : CoopInv s) (ha : AllocOk ((0, .run f) : Event 1)) {t : Tid} {pret : Bool}
    {c : Ptr} {x y : Tcb} (hc : (s.kt 0).ctl = .thread p (.join t pret (.test (some c) (some q))))
    (hx : s.heap q = some x) (hst : x.state ≠ .finished) (hy : s.heap c = some y) (hj : y.joinQueue = [])
    (hs' : s' = (s.setTcb c { y with state := .waitingJoin }).setK 0 { s.kt 0 with
      task := .join
      queue := some (.join q)
      ctl := .thread p (.swap (some c) (.joined t pret)) }) :
    ∃ a' ev, Simulated s (0, .run f) s' a a' ev := by
  obtain rfl : c = p := I.table.cur_eq hc (by simp [Pc.curs])
  have hc' : (s'.kt 0).ctl = .thread c (.swap (some c) (.joined t pret)) := by rw [hs', State.setK_kt]
  have hret : a.retries c = none := A.point c _ hc
  have hrun : s.activity = .runs c none := State.activity_runs hc rfl
  have hact : s'.activity = .joins c q := by
    rw [State.activity_leaves hc' rfl, hs']
    simp [KThread.leaving]
  have hjoining : (s.kt 0).ctl.joining = some (c, t) := by simp [hc, Ctl.joining, Pc.joins]
  have htcb : s.tcbs t = some q := I.join.read 0 t (some q) (by simp [hc, Ctl.pc?, Pc.target])
  have hqc : q ≠ c := by
    obtain ⟨r, hr, hne⟩ := I.join.target c t (.inl ⟨0, hjoining⟩)
    exact Option.some.inj (htcb.symm.trans hr) ▸ hne
  have hjq : s.joinQueue q = [] := I.joinQueue_eq_nil hc hjoining htcb
  have hstate : s.stateOf q = some x.state := by simp [State.stateOf, hx]
  have hnone : a.joiner q = none := by
    have := A.joiner_runs hrun hstate hst
    rw [hjq] at this
    exact Option.toList_eq_nil_iff.mp this.symm
  have hyst : y.state = .running := by
    have := I.place.alive (.exec 0) c (PlaceInv.mem_exec (State.exec_thread hc))
    simpa [State.stateOf, hy, State.placeState, KThread.execState, hc, Pc.state] using this
  have hsame : SameThreads s s' := by
    rw [hs']
    exact .of_write hy rfl rfl (by simp [hyst])
  have hcall : Call.fcfs s (.op (.join t pret)) = some (.join q) := by simp [Call.fcfs, htcb]
  have hfin : a.finished q = false := by simpa using mt (A.finished q x.state hstate).mp hst
  have hstep : a.call c (.join q) =
      some { a with running := none, joiner := Function.update a.joiner q (some c) } := by
    simp [Fcfs.call, hfin, hnone]
  refine ⟨_, _, A.effect hc rfl hret rfl hcall hstep hc' rfl ?_⟩
  refine A.next I C ha (hs' ▸ .joinBlock hc hx hst hy hj) (by simp [hc]) ?_ ?_ (fun i => ?_) (fun i => ?_)
    (fun r st hr hne => ?_) (A.finished_of hsame) (State.point_of_thread hc' hret rfl) fun _ _ => rfl
  · rw [hact]
    rfl
  · rw [A.ready_runs hrun, State.readyList, hact, hs']
    simp [Activity.front, Activity.back, State.setK, State.setTcb]
  · rw [A.waiters_runs hrun, State.waitersOf, hact, hs']
    simp [Activity.parked, State.semQueue, State.setK, State.setTcb]
  · rw [A.counter, hs']
    rfl
  · obtain ⟨st₀, hr₀, hiff⟩ := hsame.state r st hr
    rw [State.joinersOf, hact, hsame.joinQueue r st hr hne]
    by_cases hrq : r = q
    · simp [hrq, hjq, Activity.joining]
    · rw [A.joiner_runs hrun hr₀ (mt hiff.mpr hne)]
      simp [Activity.joining, Ne.symm hrq, Function.update_of_ne hrq]

theorem createBody (I : Inv s) (C : CoopInv s) (ha : AllocOk ((0, .run f) : Event 1)) {sb : Bool} {t : Tid}
    (hc : (s.kt 0).ctl = .thread p (.create sb (.body t)))
    (hs' : s' = { s with
      heap := Function.update s.heap s.fresh (some (State.newTcb t s.fresh sb (s.kt 0).blocked))
      tcbs := Function.update s.tcbs t (some s.fresh)
      fresh := s.fresh + 1 }.goto 0 (.thread p (.create sb (.enq t s.fresh .lock)))) :
    ∃ a' ev, Simulated s (0, .run f) s' a a' ev := by
  have hc' : (s'.kt 0).ctl = .thread p (.create sb (.enq t s.fresh .lock)) := by rw [hs', State.goto, State.setK_kt]
  have hret : a.retries p = none := A.point p _ hc
  have hrun : s.activity = .runs p none := State.activity_runs hc rfl
  have hact : s'.activity = .runs p (some s.fresh) := State.activity_runs hc' rfl
  have hheap : s'.heap = Function.update s.heap s.fresh (some (State.newTcb t s.fresh sb (s.kt 0).blocked)) := by
    rw [hs']
    rfl
  have hpf : p ≠ s.fresh := by
    rintro rfl
    have := I.place.alive (.exec 0) s.fresh (PlaceInv.mem_exec (State.exec_thread hc))
    simp [State.stateOf, I.place.bound s.fresh (Nat.le_refl _)] at this
  have hold {q : Ptr} (hq : q ≠ s.fresh) : s'.stateOf q = s.stateOf q ∧ s'.joinQueue q = s.joinQueue q := by
    simp [State.stateOf, State.joinQueue, hheap, Function.update_of_ne hq]
  have hnew : s'.stateOf s.fresh = some .ready ∧ s'.joinQueue s.fresh = [] := by
    simp [State.stateOf, State.joinQueue, hheap, State.newTcb]
  refine ⟨_, _, A.effect hc rfl hret rfl rfl rfl hc' rfl ?_⟩
  constructor
  case running => rw [A.running, hrun, hact]; rfl
  case ready =>
    rw [A.ready_runs hrun, State.readyList, hact, hs']
    simp [Activity.front, Activity.back, State.goto, State.setK]
  case waiters =>
    intro i
    rw [A.waiters_runs hrun, State.waitersOf, hact, hs']
    simp [Activity.parked, State.semQueue, State.goto, State.setK]
  case counter =>
    intro i
    rw [A.counter, hs']
    rfl
  case joiner =>
    intro q st hq hne
    rw [State.joinersOf, hact]
    by_cases hqf : q = s.fresh
    · simp [hqf, hnew, Activity.joining]
    · rw [(hold hqf).1] at hq
      simp [(hold hqf).2, A.joiner_runs hrun hq hne, Activity.joining, Function.update_of_ne hqf]
  case finished =>
    intro q st hq
    by_cases hqf : q = s.fresh
    · subst hqf
      obtain rfl : st = .ready := Option.some.inj (hq.symm.trans hnew.1)
      simp
    · rw [(hold hqf).1] at hq
      simpa [Function.update_of_ne hqf] using A.finished q st hq
  case point =>
    intro p₀ pc₀ h₀
    obtain ⟨rfl, rfl⟩ := Ctl.thread.inj (hc'.symm.trans h₀)
    show Function.update a.retries s.fresh none p = none
    rw [Function.update_of_ne hpf, hret]
  case saved =>
    intro q c hq
    by_cases hqf : q = s.fresh
    · subst hqf
      obtain ⟨-, rfl⟩ : _ ∧ ⟨s.fresh, .start, (s.kt 0).blocked⟩ = c := by
        simpa [State.context, hheap, State.newTcb, Tcb.saved] using hq
      simp [Resume.retries]
    · obtain h | ⟨hq, -⟩ := A.saved_of I C ha (hs' ▸ .createBody hc) hq
      · simpa [Function.update_of_ne hqf] using h
      · exact absurd hq hqf
  case zero =>
    intro p₀ pc₀ i h₀ hz
    obtain ⟨rfl, rfl⟩ := Ctl.thread.inj (hc'.symm.trans h₀)
    cases hz

/-- The running thread changes a semaphore, and the control blocks stay. -/
theorem sems (I : Inv s) (C : CoopInv s) (ha : AllocOk e) (ht : Trans ⟨0⟩ s e s') {pc pc' : Pc}
    {hand hand' : Option Ptr} (hc : (s.kt 0).ctl = .thread p pc) (hcreate : ∀ sb t, pc ≠ .create sb (.body t))
    (hc' : (s'.kt 0).ctl = .thread p pc') (hrun : s.activity = .runs p hand) (hact : s'.activity = .runs p hand')
    (hheap : s'.heap = s.heap) (hrunning : a'.running = a.running) (hfinished : a'.finished = a.finished)
    (hjoiner : a'.joiner = a.joiner) (hready : a'.ready = s'.rqueue.filterMap Entry.ptr? ++ hand'.toList)
    (hwaiters : ∀ i, a'.waiters i = s'.semQueue i)
    (hcounter : ∀ i, a'.counter i = (s'.sems i).map (·.counter)) (hpoint : pc'.Retries (a'.retries p))
    (hzero : pc'.zero = none) (hretries : ∀ q, q ≠ p → a'.retries q = a.retries q) : Agrees s' a' := by
  have hsame : SameThreads s s' := .of_heap hheap
  refine A.next I C ha ht (fun p₀ sb t h => ?_) ?_ ?_ (fun i => ?_) hcounter ?_ ?_
    (State.point_of_thread hc' hpoint hzero) fun q hq => ?_
  · exact hcreate sb t (Ctl.thread.inj (hc.symm.trans h)).2
  · rw [hrunning, A.running, hrun, hact]
    rfl
  · rw [hready, State.readyList, hact]
    rfl
  · rw [hwaiters, State.waitersOf, hact]
    exact (List.append_nil _).symm
  · rw [hjoiner]
    exact A.joiner_of hsame fun q => by rw [hact, hrun]; rfl
  · rw [hfinished]
    exact A.finished_of hsame
  · refine hretries q fun h => hq ?_
    rw [hc', h]
    rfl

theorem semInit (I : Inv s) (C : CoopInv s) (ha : AllocOk ((0, .run f) : Event 1)) {i : SemId} {v : ℤ}
    (hc : (s.kt 0).ctl = .thread p (.semInit i v))
    (hs' : s' = { s.setSem i (some ⟨v, []⟩) with
      owner := Function.update s.owner (.sem i) none }.goto 0 (.thread p .semRet)) :
    ∃ a' ev, Simulated s (0, .run f) s' a a' ev := by
  have hc' : (s'.kt 0).ctl = .thread p .semRet := by rw [hs', State.goto, State.setK_kt]
  have hret : a.retries p = none := A.point p _ hc
  have hrun : s.activity = .runs p none := State.activity_runs hc rfl
  have hact : s'.activity = .runs p none := State.activity_runs hc' rfl
  have hsems : s'.sems = Function.update s.sems i (some ⟨v, []⟩) := by rw [hs']; rfl
  refine ⟨_, _, A.effect hc rfl hret rfl rfl rfl hc' rfl ?_⟩
  refine A.sems I C ha (hs' ▸ .semInit hc) hc (by simp) hc' hrun hact (by rw [hs']; rfl) rfl rfl rfl ?_
    (fun j => ?_) (fun j => ?_) hret rfl fun _ _ => rfl
  · rw [A.ready_runs hrun, hs']
    rfl
  · by_cases hj : j = i
    · simp [State.semQueue, hsems, hj]
    · simp [State.semQueue, hsems, Function.update_of_ne hj, A.waiters_runs hrun]
  · by_cases hj : j = i
    · simp [hsems, hj]
    · simp [hsems, Function.update_of_ne hj, A.counter]

theorem semDestroy (I : Inv s) (C : CoopInv s) (ha : AllocOk ((0, .run f) : Event 1)) {i : SemId}
    (hc : (s.kt 0).ctl = .thread p (.semDestroy i))
    (hs' : s' = (s.setSem i none).setK 0 { (s.kt 0).block ⟨0⟩ with ctl := .thread p .semRet }) :
    ∃ a' ev, Simulated s (0, .run f) s' a a' ev := by
  have hc' : (s'.kt 0).ctl = .thread p .semRet := by rw [hs', State.setK_kt]
  have hret : a.retries p = none := A.point p _ hc
  have hrun : s.activity = .runs p none := State.activity_runs hc rfl
  have hact : s'.activity = .runs p none := State.activity_runs hc' rfl
  have hsems : s'.sems = Function.update s.sems i none := by rw [hs']; rfl
  refine ⟨_, _, A.effect hc rfl hret rfl rfl rfl hc' rfl ?_⟩
  refine A.sems I C ha (hs' ▸ .semDestroy hc) hc (by simp) hc' hrun hact (by rw [hs']; rfl) rfl rfl rfl ?_
    (fun j => ?_) (fun j => ?_) hret rfl fun _ _ => rfl
  · rw [A.ready_runs hrun, hs']
    rfl
  · by_cases hj : j = i
    · simp [State.semQueue, hsems, hj]
    · simp [State.semQueue, hsems, Function.update_of_ne hj, A.waiters_runs hrun]
  · by_cases hj : j = i
    · simp [hsems, hj]
    · simp [hsems, Function.update_of_ne hj, A.counter]

theorem postBump (I : Inv s) (C : CoopInv s) (ha : AllocOk ((0, .run f) : Event 1)) {i : SemId} {x : Sem}
    (hc : (s.kt 0).ctl = .thread p (.post i .body)) (hx : s.sems i = some x) (hq : x.queue = [])
    (hs' : s' = (s.setSem i (some { x with counter := intIncr x.counter })).goto 0 (.thread p (.post i .unlock))) :
    ∃ a' ev, Simulated s (0, .run f) s' a a' ev := by
  have hc' : (s'.kt 0).ctl = .thread p (.post i .unlock) := by rw [hs', State.goto, State.setK_kt]
  have hret : a.retries p = none := A.point p _ hc
  have hrun : s.activity = .runs p none := State.activity_runs hc rfl
  have hact : s'.activity = .runs p none := State.activity_runs hc' rfl
  have hsems : s'.sems = Function.update s.sems i (some { x with counter := intIncr x.counter }) := by rw [hs']; rfl
  have hcount : a.counter i = some x.counter := by rw [A.counter, hx]; rfl
  have hwait : a.waiters i = [] := by rw [A.waiters_runs hrun, State.semQueue, hx]; exact hq
  have hstep : a.call p (.semPost i) =
      some { a with counter := Function.update a.counter i (some (intIncr x.counter)) } := by
    simp [Fcfs.call, Fcfs.post, hcount, hwait]
  refine ⟨_, _, A.effect hc rfl hret rfl rfl hstep hc' rfl ?_⟩
  refine A.sems I C ha (hs' ▸ .postBump hc hx hq) hc (by simp) hc' hrun hact (by rw [hs']; rfl) rfl rfl rfl ?_
    (fun j => ?_) (fun j => ?_) hret rfl fun _ _ => rfl
  · rw [A.ready_runs hrun, hs']
    rfl
  · rw [A.waiters_runs hrun]
    by_cases hj : j = i
    · simp [State.semQueue, hsems, hj, hx]
    · simp [State.semQueue, hsems, Function.update_of_ne hj]
  · by_cases hj : j = i
    · simp [hsems, hj]
    · simp [hsems, Function.update_of_ne hj, A.counter]

theorem postWake (I : Inv s) (C : CoopInv s) (ha : AllocOk ((0, .run f) : Event 1)) {i : SemId} {x : Sem}
    {rest : List Ptr} (hc : (s.kt 0).ctl = .thread p (.post i .body)) (hx : s.sems i = some x)
    (hq : x.queue = q :: rest)
    (hs' : s' = (s.setSem i (some ⟨intIncr x.counter, rest⟩)).goto 0 (.thread p (.post i (.tcbLock q)))) :
    ∃ a' ev, Simulated s (0, .run f) s' a a' ev := by
  have hc' : (s'.kt 0).ctl = .thread p (.post i (.tcbLock q)) := by rw [hs', State.goto, State.setK_kt]
  have hret : a.retries p = none := A.point p _ hc
  have hrun : s.activity = .runs p none := State.activity_runs hc rfl
  have hact : s'.activity = .runs p (some q) := State.activity_runs hc' rfl
  have hsems : s'.sems = Function.update s.sems i (some ⟨intIncr x.counter, rest⟩) := by rw [hs']; rfl
  have hcount : a.counter i = some x.counter := by rw [A.counter, hx]; rfl
  have hwait : a.waiters i = q :: rest := by rw [A.waiters_runs hrun, State.semQueue, hx]; exact hq
  have hstep : a.call p (.semPost i) = some { a with
      counter := Function.update a.counter i (some (intIncr x.counter))
      waiters := Function.update a.waiters i rest
      ready := a.ready ++ [q] } := by
    simp [Fcfs.call, Fcfs.post, hcount, hwait]
  refine ⟨_, _, A.effect hc rfl hret rfl rfl hstep hc' rfl ?_⟩
  refine A.sems I C ha (hs' ▸ .postWake hc hx hq) hc (by simp) hc' hrun hact (by rw [hs']; rfl) rfl rfl rfl ?_
    (fun j => ?_) (fun j => ?_) hret rfl fun _ _ => rfl
  · rw [A.ready_runs hrun, hs']
    simp [State.goto, State.setK, State.setSem]
  · by_cases hj : j = i
    · simp [State.semQueue, hsems, hj]
    · simp [State.semQueue, hsems, Function.update_of_ne hj, A.waiters_runs hrun]
  · by_cases hj : j = i
    · simp [hsems, hj]
    · simp [hsems, Function.update_of_ne hj, A.counter]

/-- The running thread looks at the counter of a semaphore, for the first time or again. -/
theorem look {i : SemId} {pc pc' : Pc}
    (hc : (s.kt 0).ctl = .thread p pc) (hl : pc.leaves = false) (htodo : pc.todo = some (.op (.semWait i)))
    (hpoint : a.retries p = none ∨ a.retries p = some i) (hstep : a.look p i = some a')
    (hc' : (s'.kt 0).ctl = .thread p pc') (htodo' : pc'.todo = none) (hagrees : Agrees s' a') :
    ∃ a' ev, Simulated s (0, .run f) s' a a' ev := by
  rcases hpoint with hret | hret
  · exact ⟨a', _, A.effect hc hl hret htodo rfl hstep hc' htodo' hagrees⟩
  · have hrunning : a.running = some p := by rw [A.running, State.activity_runs hc hl]; rfl
    refine ⟨a', some .again, ?_, ?_, State.dispatches_thread hc, hagrees⟩
    · simp [Fcfs.step, hrunning, hret, hstep]
    · rw [State.pendingCall_thread hc, State.pendingCall_thread hc', htodo']
      simp [hret, State.fcfsCall_run, FcfsEvent.call?]

theorem waitPark (I : Inv s) (C : CoopInv s) (ha : AllocOk ((0, .run f) : Event 1)) {i : SemId} {c : Ptr} {x : Tcb}
    (hc : (s.kt 0).ctl = .thread p (.wait i (.park (some c)))) (hx : s.heap c = some x)
    (hs' : s' = (s.setTcb c { x with state := .waitingSem }).goto 0
      (.thread p (.swap (some c) (.semWoken i (some c))))) : ∃ a' ev, Simulated s (0, .run f) s' a a' ev := by
  obtain rfl : c = p := I.table.cur_eq hc (by simp [Pc.curs])
  have hc' : (s'.kt 0).ctl = .thread c (.swap (some c) (.semWoken i (some c))) := by
    rw [hs', State.goto, State.setK_kt]
  have hrun : s.activity = .runs c none := State.activity_runs hc rfl
  have htask := I.task 0
  simp only [KThread.TaskOk, hc, Pc.task, Option.some.injEq, Prod.mk.injEq] at htask
  have hact : s'.activity = .parks c i := by
    rw [State.activity_leaves hc' rfl, hs']
    simp [KThread.leaving, State.goto, htask]
  have hst : x.state = .running := by
    have := I.place.alive (.exec 0) c (PlaceInv.mem_exec (State.exec_thread hc))
    simpa [State.stateOf, hx, State.placeState, KThread.execState, hc, Pc.state] using this
  have hsame : SameThreads s s' := by
    rw [hs']
    exact .of_write hx rfl rfl (by simp [hst])
  have hstep : a.look c i = some { a with
      running := none
      waiters := Function.update a.waiters i (a.waiters i ++ [c])
      retries := Function.update a.retries c (some i) } := by
    simp [Fcfs.look, A.zero c _ i hc rfl]
  refine A.look hc rfl rfl (A.point c _ hc) hstep hc' rfl ?_
  refine A.next I C ha (hs' ▸ .waitPark hc hx) (by simp [hc]) ?_ ?_ (fun j => ?_) (fun j => ?_)
    (A.joiner_of hsame fun q => by rw [hact, hrun]; rfl) (A.finished_of hsame)
    (State.point_of_thread hc' (Function.update_self _ _ _) rfl) fun q hq => ?_
  · rw [hact]
    rfl
  · rw [A.ready_runs hrun, State.readyList, hact, hs']
    simp [Activity.front, Activity.back, State.goto, State.setK, State.setTcb]
  · have hqueue : s'.semQueue j = s.semQueue j := by rw [hs']; rfl
    rw [State.waitersOf, hact, hqueue]
    by_cases hj : j = i
    · simp [hj, Activity.parked, A.waiters_runs hrun]
    · simp [Activity.parked, Ne.symm hj, Function.update_of_ne hj, A.waiters_runs hrun]
  · rw [A.counter, hs']
    rfl
  · refine Function.update_of_ne (fun h => hq ?_) _ _
    rw [hc', h]
    rfl

theorem waitDec (I : Inv s) (C : CoopInv s) (ha : AllocOk ((0, .run f) : Event 1)) {i : SemId} {x : Sem}
    (hc : (s.kt 0).ctl = .thread p (.wait i .dec)) (hx : s.sems i = some x) (h0 : 0 < x.counter)
    (hs' : s' = (s.setSem i (some { x with counter := x.counter - 1 })).goto 0 (.thread p (.wait i .unlock))) :
    ∃ a' ev, Simulated s (0, .run f) s' a a' ev := by
  have hc' : (s'.kt 0).ctl = .thread p (.wait i .unlock) := by rw [hs', State.goto, State.setK_kt]
  have hrun : s.activity = .runs p none := State.activity_runs hc rfl
  have hact : s'.activity = .runs p none := State.activity_runs hc' rfl
  have hsems : s'.sems = Function.update s.sems i (some { x with counter := x.counter - 1 }) := by rw [hs']; rfl
  have hcount : a.counter i = some x.counter := by rw [A.counter, hx]; rfl
  have hstep : a.look p i = some { a with
      counter := Function.update a.counter i (some (x.counter - 1))
      retries := Function.update a.retries p none } := by
    have hne : x.counter ≠ 0 := by omega
    simp [Fcfs.look, hcount, hne]
  refine A.look hc rfl rfl (A.point p _ hc) hstep hc' rfl ?_
  refine A.sems I C ha (hs' ▸ .waitDec hc hx h0) hc (by simp) hc' hrun hact (by rw [hs']; rfl) rfl rfl rfl ?_
    (fun j => ?_) (fun j => ?_) (Function.update_self _ _ _) rfl fun q hq => Function.update_of_ne hq _ _
  · rw [A.ready_runs hrun, hs']
    rfl
  · rw [A.waiters_runs hrun]
    by_cases hj : j = i
    · simp [State.semQueue, hsems, hj, hx]
    · simp [State.semQueue, hsems, Function.update_of_ne hj]
  · by_cases hj : j = i
    · simp [hsems, hj]
    · simp [hsems, Function.update_of_ne hj, A.counter]

end Agrees

end Uthread
