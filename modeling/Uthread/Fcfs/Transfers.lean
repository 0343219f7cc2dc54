import Uthread.Fcfs.Effects

/-!
# Threads under way

The steps that carry a thread to a queue or take one from it. The queues of the machine count a thread that is
under way already, so nothing shows until `schedule` restores a context: there the head of the ready queue is
given control.

## Main results

* `Agrees.insertRuns`, `Agrees.insertSched`, `Agrees.deqRemove`, `Agrees.parkJoin`, `Agrees.parkSem`,
  `Agrees.schedExit`, `Agrees.schedExitWake`: the steps that carry threads.
* `Agrees.dispSet`: a thread is given control.
* `Agrees.enter`: a call is made.
-/

namespace Uthread

variable {s s' : State 1} {e : Event 1} {a a' : Fcfs Ptr SemId} {p q : Ptr} {f : Option AllocSite}

theorem KThread.leaving_running (x : KThread) (p : Ptr) : (x.leaving p).running = none := by
  unfold KThread.leaving
  split <;> first
    | rfl
    | split <;> rfl

theorem Resume.pc_leaves (r : Resume) : r.pc.leaves = false := by
  cases r with
  | yielded o => cases o with
    | none => rfl
    | some o => cases o <;> rfl
  | _ => rfl

theorem Resume.pc_zero (r : Resume) : r.pc.zero = none := by
  cases r with
  | yielded o => cases o with
    | none => rfl
    | some o => cases o <;> rfl
  | _ => rfl

theorem Resume.pc_retries (r : Resume) : r.pc.Retries r.retries := by
  cases r with
  | yielded o => cases o with
    | none => rfl
    | some o => cases o <;> rfl
  | _ => rfl

/-- A thread that is resumed has made no call, unless it was parked in one. -/
theorem Resume.pc_todo {r : Resume} (h : r.plain = true) (hr : r.retries = none) : r.pc.todo = none := by
  cases r with
  | yielded o => cases o with
    | none => rfl
    | some o => cases h
  | semWoken i cur => cases hr
  | _ => rfl

/-- One thread at most waits to join another. -/
theorem Inv.joinQueue_tail (I : Inv s) {j : Ptr} {rest : List Ptr} (hq : s.joinQueue q = j :: rest) : rest = [] := by
  rw [List.eq_nil_iff_forall_not_mem]
  intro r hr
  obtain ⟨t, pret, hsus, htcb⟩ := I.join.parked q j (by rw [hq]; exact List.mem_cons_self)
  obtain ⟨t', pret', hsus', htcb'⟩ := I.join.parked q r (by rw [hq]; exact List.mem_cons_of_mem j hr)
  obtain ⟨y, hy, hyt⟩ := I.table.slot t q htcb
  obtain ⟨y', hy', hyt'⟩ := I.table.slot t' q htcb'
  obtain rfl : t' = t := by rw [← hyt, ← hyt', Option.some.inj (hy.symm.trans hy')]
  obtain rfl : r = j := I.join.unique r j t' (.inr (by rw [hsus']; rfl)) (.inr (by rw [hsus]; rfl))
  have hnodup : (s.joinQueue q).Nodup := I.place.excl.nodup (.joinq q)
  rw [hq, List.nodup_cons] at hnodup
  exact hnodup.1 hr

namespace Agrees

variable (A : Agrees s a)
include A

/-! ### Insertion into the ready queue and removal -/

/-- The running thread inserts the one in its hands into the ready queue. -/
theorem insertRuns (I : Inv s) (C : CoopInv s) (ha : AllocOk ((0, .run f) : Event 1))
    (ht : Trans ⟨0⟩ s (0, .run f) s') {pc pc' : Pc} (hc : (s.kt 0).ctl = .thread p pc)
    (hl : pc.leaves = false) (hh : pc.hand = some q) (htodo : pc.todo = none) (hret : pc.Retries = (· = none))
    (hl' : pc'.leaves = false) (hh' : pc'.hand = none) (htodo' : pc'.todo = none)
    (hret' : pc'.Retries = (· = none)) (hzero : pc'.zero = none)
    (hs' : s' = { s with rqueue := s.rqueue ++ [Entry.tcb q] }.goto 0 (.thread p pc')) :
    Simulated s (0, .run f) s' a a none := by
  have hc' : (s'.kt 0).ctl = .thread p pc' := by rw [hs', State.goto, State.setK_kt]
  have hrun : s.activity = .runs p (some q) := hh ▸ State.activity_runs hc hl
  have hact : s'.activity = .runs p none := hh' ▸ State.activity_runs hc' hl'
  have hpoint : a.retries p = none := by
    have := A.point p pc hc
    rwa [hret] at this
  refine A.silent I C ha ht rfl (State.dispatches_thread hc) (fun p₀ sb t h => ?_) ?_ ?_ ?_ (fun i => ?_)
    (fun i => ?_) (.of_heap ?_) (fun r => ?_) (State.point_of_thread hc' (by rw [hret']; exact hpoint) hzero)
  · obtain rfl := (Ctl.thread.inj (hc.symm.trans h)).2
    cases hh
  · rw [State.pendingCall_thread hc, State.pendingCall_thread hc', htodo, htodo']
    rfl
  · rw [hrun, hact]
    rfl
  · rw [State.readyList, State.readyList, hrun, hact, hs']
    simp [Activity.front, Activity.back, State.goto, State.setK, Entry.ptr?]
  · rw [State.waitersOf, State.waitersOf, hrun, hact, hs']
    rfl
  · rw [hs']
    rfl
  · rw [hs']
    rfl
  · rw [hrun, hact]
    rfl

/-- A step of the scheduler that makes no difference to the queues. -/
theorem silentSched (I : Inv s) (C : CoopInv s) (ha : AllocOk ((0, .run f) : Event 1))
    (ht : Trans ⟨0⟩ s (0, .run f) s') {c c' : Ctl} (hc : (s.kt 0).ctl = c) (hc' : (s'.kt 0).ctl = c')
    (hth : c.thread? = none) (hth' : c'.thread? = none) (hdisp : ∀ q, c ≠ .sched (.dispSet q))
    (hrunning : s.activity.running = none) (hrunning' : s'.activity.running = none)
    (hready : s'.readyList = s.readyList) (hwaiters : ∀ i, s'.waitersOf i = s.waitersOf i)
    (hcounter : ∀ i, (s'.sems i).map (·.counter) = (s.sems i).map (·.counter))
    (hjoiner : ∀ q st, s'.stateOf q = some st → st ≠ .finished → s'.joinersOf q = s.joinersOf q)
    (hstate : ∀ q st', s'.stateOf q = some st' → ∃ st, s.stateOf q = some st ∧ (st' = .finished ↔ st = .finished)) :
    Simulated s (0, .run f) s' a a none := by
  subst hc hc'
  refine ⟨rfl, ?_, ?_, A.next I C ha ht (fun p₀ sb t h => ?_) ?_ ?_ (fun i => ?_) (fun i => ?_)
    (fun q st hq hne => ?_) (fun q st hq => ?_) (State.point_of_not_thread hth') fun _ _ => rfl⟩
  · rw [State.pendingCall_of_not_thread hth, State.pendingCall_of_not_thread hth']
    rfl
  · simp [State.dispatches]
  · simp [h, Ctl.thread?] at hth
  · rw [A.running, hrunning, hrunning']
  · rw [hready, A.ready]
  · rw [hwaiters, A.waiters]
  · rw [hcounter, A.counter]
  · obtain ⟨st₀, hq₀, hiff⟩ := hstate q st hq
    rw [hjoiner q st hq hne, A.joiner q st₀ hq₀ (mt hiff.mpr hne)]
  · obtain ⟨st₀, hq₀, hiff⟩ := hstate q st hq
    rw [A.finished q st₀ hq₀, hiff]

/-- The scheduler inserts a thread into the ready queue. -/
theorem insertSched (I : Inv s) (C : CoopInv s) (ha : AllocOk ((0, .run f) : Event 1))
    (ht : Trans ⟨0⟩ s (0, .run f) s') (hc : (s.kt 0).ctl = .sched (.enq q .insert))
    (hs' : s' = { s with rqueue := s.rqueue ++ [Entry.tcb q] }.goto 0 (.sched (.enq q .unlock))) :
    Simulated s (0, .run f) s' a a none := by
  have hc' : (s'.kt 0).ctl = .sched (.enq q .unlock) := by rw [hs', State.goto, State.setK_kt]
  have hact₀ : s.activity = .appends q := by simp [State.activity, KThread.activity, hc]
  have hact : s'.activity = .idle := by simp [State.activity, KThread.activity, hc']
  refine A.silentSched I C ha ht hc hc' rfl rfl (by simp) (by rw [hact₀]; rfl) (by rw [hact]; rfl) ?_ (fun i => ?_)
    (fun i => ?_) (fun r st _ _ => ?_) fun r st hr => ⟨st, by rwa [hs'] at hr, Iff.rfl⟩
  · rw [State.readyList, State.readyList, hact₀, hact, hs']
    simp [Activity.front, Activity.back, State.goto, State.setK, Entry.ptr?]
  · rw [State.waitersOf, State.waitersOf, hact₀, hact, hs']
    rfl
  · rw [hs']
    rfl
  · rw [State.joinersOf, State.joinersOf, hact₀, hact, hs']
    rfl

/-- `schedule` removes the head of the ready queue. -/
theorem deqRemove (I : Inv s) (C : CoopInv s) (ha : AllocOk ((0, .run f) : Event 1))
    (ht : Trans ⟨0⟩ s (0, .run f) s') {en : Entry} {rest : List Entry} (hc : (s.kt 0).ctl = .sched .deqRemove)
    (hq : s.rqueue = en :: rest) (hs' : s' = { s with rqueue := rest }.goto 0 (.sched (.deqUnlock en))) :
    Simulated s (0, .run f) s' a a none := by
  have hc' : (s'.kt 0).ctl = .sched (.deqUnlock en) := by rw [hs', State.goto, State.setK_kt]
  have hact₀ : s.activity = .idle := by simp [State.activity, KThread.activity, hc]
  have hrest : s'.rqueue = rest := by rw [hs']; rfl
  have hsame : s'.semQueue = s.semQueue ∧ s'.joinQueue = s.joinQueue ∧ s'.stateOf = s.stateOf ∧
      s'.sems = s.sems := by rw [hs']; exact ⟨rfl, rfl, rfl, rfl⟩
  obtain ⟨hsem, hjq, hstate, hsems⟩ := hsame
  have hstates (r : Ptr) (st : ThreadState) (hr : s'.stateOf r = some st) :
      ∃ st₀, s.stateOf r = some st₀ ∧ (st = .finished ↔ st₀ = .finished) := ⟨st, hstate ▸ hr, Iff.rfl⟩
  cases en with
  | tcb q =>
    have hact : s'.activity = .takes q := by simp [State.activity, KThread.activity, hc']
    refine A.silentSched I C ha ht hc hc' rfl rfl (by simp) (by rw [hact₀]; rfl) (by rw [hact]; rfl) ?_
      (fun i => ?_) (fun i => by rw [hsems]) (fun r st _ _ => ?_) hstates
    · rw [State.readyList, State.readyList, hact₀, hact, hq, hrest]
      simp [Activity.front, Activity.back, Entry.ptr?]
    · rw [State.waitersOf, State.waitersOf, hact₀, hact, hsem]
      rfl
    · rw [State.joinersOf, State.joinersOf, hact₀, hact, hjq]
      rfl
  | exitall =>
    have hact : s'.activity = .idle := by simp [State.activity, KThread.activity, hc']
    refine A.silentSched I C ha ht hc hc' rfl rfl (by simp) (by rw [hact₀]; rfl) (by rw [hact]; rfl) ?_
      (fun i => ?_) (fun i => by rw [hsems]) (fun r st _ _ => ?_) hstates
    · rw [State.readyList, State.readyList, hact₀, hact, hq, hrest]
      simp [Activity.front, Activity.back, Entry.ptr?, List.filterMap_cons]
    · rw [State.waitersOf, State.waitersOf, hact₀, hact, hsem]
    · rw [State.joinersOf, State.joinersOf, hact₀, hact, hjq]

/-! ### The tasks that a thread leaves -/

/-- A thread goes to the scheduler; its task is not carried out yet. -/
theorem toSched (I : Inv s) (C : CoopInv s) (ha : AllocOk ((0, .run f) : Event 1))
    (ht : Trans ⟨0⟩ s (0, .run f) s') {pc : Pc} (hc : (s.kt 0).ctl = .thread p pc) (hl : pc.leaves = true)
    (htodo : pc.todo = none) (htask : (s.kt 0).task ≠ .none)
    (hx' : s'.kt 0 = { s.kt 0 with ctl := .sched .entry, blocked := false }) (hjq : s'.joinQueue = s.joinQueue)
    (hst : s'.stateOf = s.stateOf) (hrq : s'.rqueue = s.rqueue) (hsems : s'.sems = s.sems)
    (htcbs : s'.tcbs = s.tcbs) : Simulated s (0, .run f) s' a a none := by
  have hcur := I.table.currentTcb_thread hc
  have hact₀ : s.activity = (s.kt 0).leaving p := State.activity_leaves hc hl
  have hact : s'.activity = s.activity := by
    rw [hact₀]
    simp only [State.currentTcb] at hcur
    simp [State.activity, KThread.activity, hx', KThread.exec, htask, htcbs, hcur, KThread.leaving]
  refine A.silent I C ha ht rfl (State.dispatches_thread hc) (fun p₀ sb t h => ?_) ?_ (by rw [hact]) ?_
    (fun i => ?_) (fun i => by rw [hsems]) ⟨fun q _ _ _ => by rw [hjq], fun q st hq => ⟨st, hst ▸ hq, Iff.rfl⟩⟩
    (fun q => by rw [hact]) (State.point_of_not_thread (by rw [hx']; rfl))
  · obtain rfl := (Ctl.thread.inj (hc.symm.trans h)).2
    cases hl
  · rw [State.pendingCall_thread hc, State.pendingCall_of_not_thread (s := s') (by rw [hx']; rfl), htodo]
    simp
  · rw [State.readyList, State.readyList, hact, hrq, hjq]
  · rw [State.waitersOf, State.waitersOf, hact, State.semQueue, State.semQueue, hsems]

/-- `schedule` branches on the task. -/
theorem entry (I : Inv s) (C : CoopInv s) (ha : AllocOk ((0, .run f) : Event 1))
    (ht : Trans ⟨0⟩ s (0, .run f) s') {cur : Ptr} {pc : SchedPc} (hc : (s.kt 0).ctl = .sched .entry)
    (hcur : s.currentTcb 0 = some cur) (h : Branches (s.kt 0).task cur pc)
    (hs' : s' = s.setK 0 { (s.kt 0).block ⟨0⟩ with ctl := .sched pc }) : Simulated s (0, .run f) s' a a none := by
  have hc' : (s'.kt 0).ctl = .sched pc := by rw [hs', State.setK_kt]
  have hact : s'.activity = s.activity := by
    simp only [State.currentTcb] at hcur
    generalize htask : (s.kt 0).task = t at h
    cases h with
    | teardown => exact absurd htask C.task
    | _ =>
      rw [hs']
      simp [State.activity, KThread.activity, hc, htask, KThread.exec, State.setK, hcur, KThread.leaving,
        KThread.block]
  exact A.goSched I C ht ha (by rw [hc]; rfl) (by rw [hc']; rfl) (by rw [hs']; exact ⟨rfl, rfl, rfl, rfl, rfl⟩)
    (by simp [hc]) hact

/-- `schedule` ends a thread that nobody waits to join. -/
theorem schedExit (I : Inv s) (C : CoopInv s) (ha : AllocOk ((0, .run f) : Event 1))
    (ht : Trans ⟨0⟩ s (0, .run f) s') {cur : Ptr} {x : Tcb} (hc : (s.kt 0).ctl = .sched (.exitBody cur))
    (hx : s.heap cur = some x) (hj : x.joinQueue = []) (hs' : s' = s.goto 0 (.sched .unlockTcbs)) :
    Simulated s (0, .run f) s' a a none := by
  have hc' : (s'.kt 0).ctl = .sched .unlockTcbs := by rw [hs', State.goto, State.setK_kt]
  have htask := I.task 0
  simp only [KThread.TaskOk, hc] at htask
  have hact₀ : s.activity = .exits cur := by simp [State.activity, KThread.activity, hc, KThread.leaving, htask]
  have hact : s'.activity = .idle := by simp [State.activity, KThread.activity, hc']
  have hjq : s.joinQueue cur = [] := by simp [State.joinQueue, hx, hj]
  refine A.silentSched I C ha ht hc hc' rfl rfl (by simp) (by rw [hact₀]; rfl) (by rw [hact]; rfl) ?_ (fun i => ?_)
    (fun i => by rw [hs']; rfl) (fun r st _ _ => ?_) fun r st hr => ⟨st, by rwa [hs'] at hr, Iff.rfl⟩
  · rw [State.readyList, State.readyList, hact₀, hact, Activity.back, hjq, hs']
    rfl
  · rw [State.waitersOf, State.waitersOf, hact₀, hact, hs']
    rfl
  · rw [State.joinersOf, State.joinersOf, hact₀, hact, hs']
    rfl

/-- `schedule` takes the thread that waits to join the exiting one; there is only one. -/
theorem schedExitWake (I : Inv s) (C : CoopInv s) (ha : AllocOk ((0, .run f) : Event 1))
    (ht : Trans ⟨0⟩ s (0, .run f) s') {cur j : Ptr} {x y : Tcb} {rest : List Ptr}
    (hc : (s.kt 0).ctl = .sched (.exitBody cur)) (hx : s.heap cur = some x) (hj : x.joinQueue = j :: rest)
    (hy : (s.setTcb cur { x with joinQueue := rest }).heap j = some y) (hst : y.state = .waitingJoin)
    (hs' : s' = ((s.setTcb cur { x with joinQueue := rest }).setTcb j { y with state := .ready }).goto 0
      (.sched (.enq j .lock))) : Simulated s (0, .run f) s' a a none := by
  have hc' : (s'.kt 0).ctl = .sched (.enq j .lock) := by rw [hs', State.goto, State.setK_kt]
  have htask := I.task 0
  simp only [KThread.TaskOk, hc] at htask
  have hact₀ : s.activity = .exits cur := by simp [State.activity, KThread.activity, hc, KThread.leaving, htask]
  have hact : s'.activity = .appends j := by simp [State.activity, KThread.activity, hc']
  have hjq : s.joinQueue cur = j :: rest := by simp [State.joinQueue, hx, hj]
  have hrest : rest = [] := I.joinQueue_tail hjq
  have hfin : s.stateOf cur = some .finished := by
    have := I.place.alive (.exec 0) cur
      (PlaceInv.mem_exec (by simp [State.exec, KThread.exec, SchedPc.moving, hc]))
    simpa [State.placeState, KThread.execState, hc] using this
  have hcur : j ≠ cur := by
    rintro rfl
    have hy' : x.state = .waitingJoin := by
      have : { x with joinQueue := rest } = y := by simpa [State.setTcb] using hy
      rw [← hst, ← this]
    simp [State.stateOf, hx, hy'] at hfin
  have hyj : s.heap j = some y := by simpa [State.setTcb, Function.update_of_ne hcur] using hy
  have hjoinQueue {r : Ptr} (hr : r ≠ cur) : s'.joinQueue r = s.joinQueue r := by
    by_cases hrj : r = j
    · simp [State.joinQueue, hs', State.goto, State.setK, State.setTcb, hrj, hyj]
    · simp [State.joinQueue, hs', State.goto, State.setK, State.setTcb, Function.update_of_ne hrj,
        Function.update_of_ne hr]
  refine A.silentSched I C ha ht hc hc' rfl rfl (by simp) (by rw [hact₀]; rfl) (by rw [hact]; rfl) ?_ (fun i => ?_)
    (fun i => by rw [hs']; rfl) (fun r st hr hne => ?_) fun r st hr => ?_
  · rw [State.readyList, State.readyList, hact₀, hact]
    simp only [Activity.back, hjq, hrest, hs']
    rfl
  · rw [State.waitersOf, State.waitersOf, hact₀, hact, hs']
    rfl
  · have hrc : r ≠ cur := by
      rintro rfl
      have : s'.stateOf r = some .finished := by
        simpa [State.stateOf, hs', State.goto, State.setK, State.setTcb, Function.update_of_ne hcur.symm, hx]
          using hfin
      exact hne (Option.some.inj (hr.symm.trans this))
    rw [State.joinersOf, State.joinersOf, hact₀, hact, hjoinQueue hrc]
    rfl
  · by_cases hrj : r = j
    · subst hrj
      obtain rfl : ThreadState.ready = st := by
        simpa [State.stateOf, hs', State.goto, State.setK, State.setTcb] using hr
      exact ⟨y.state, by simp [State.stateOf, hyj], by simp [hst]⟩
    · refine ⟨st, ?_, Iff.rfl⟩
      by_cases hrc : r = cur
      · subst hrc
        simpa [State.stateOf, hs', State.goto, State.setK, State.setTcb, Function.update_of_ne hrj, hx] using hr
      · simpa [State.stateOf, hs', State.goto, State.setK, State.setTcb, Function.update_of_ne hrj,
          Function.update_of_ne hrc] using hr

/-- `schedule` puts a thread into a join queue. -/
theorem parkJoin (I : Inv s) (C : CoopInv s) (ha : AllocOk ((0, .run f) : Event 1))
    (ht : Trans ⟨0⟩ s (0, .run f) s') {cur : Ptr} {c : Ctl} {x : Tcb} (h : Parks (s.kt 0).ctl cur c)
    (hq : (s.kt 0).queue = some (.join q)) (hx : s.heap q = some x)
    (hs' : s' = (s.setTcb q { x with joinQueue := x.joinQueue ++ [cur] }).goto 0 c) :
    Simulated s (0, .run f) s' a a none := by
  obtain ⟨hc, rfl⟩ := I.parks_join h hq
  have hc' : (s'.kt 0).ctl = .sched .unlockTcbs := by rw [hs', State.goto, State.setK_kt]
  have htask := I.task 0
  simp only [KThread.TaskOk, hc] at htask
  have hact₀ : s.activity = .joins cur q := by
    simp [State.activity, KThread.activity, hc, KThread.leaving, htask, hq]
  have hact : s'.activity = .idle := by simp [State.activity, KThread.activity, hc']
  refine A.silentSched I C ha ht hc hc' rfl rfl (by simp) (by rw [hact₀]; rfl) (by rw [hact]; rfl) ?_ (fun i => ?_)
    (fun i => by rw [hs']; rfl) (fun r st _ _ => ?_) fun r st hr => ⟨st, ?_, Iff.rfl⟩
  · rw [State.readyList, State.readyList, hact₀, hact, hs']
    rfl
  · rw [State.waitersOf, State.waitersOf, hact₀, hact, hs']
    rfl
  · rw [State.joinersOf, State.joinersOf, hact₀, hact, hs']
    by_cases hr : r = q
    · simp [State.joinQueue, State.goto, State.setK, State.setTcb, hr, hx, Activity.joining]
    · simp [State.joinQueue, State.goto, State.setK, State.setTcb, hr, Ne.symm hr, Activity.joining]
  · rw [hs'] at hr
    by_cases hrq : r = q
    · simpa [State.stateOf, State.goto, State.setK, State.setTcb, hrq, hx] using hr
    · simpa [State.stateOf, State.goto, State.setK, State.setTcb, hrq] using hr

/-- `schedule` puts a thread into the queue of a semaphore. -/
theorem parkSem (I : Inv s) (C : CoopInv s) (ha : AllocOk ((0, .run f) : Event 1))
    (ht : Trans ⟨0⟩ s (0, .run f) s') {cur : Ptr} {c : Ctl} {i : SemId} {x : Sem} (h : Parks (s.kt 0).ctl cur c)
    (hq : (s.kt 0).queue = some (.sem i)) (hx : s.sems i = some x)
    (hs' : s' = (s.setSem i (some { x with queue := x.queue ++ [cur] })).goto 0 c) :
    Simulated s (0, .run f) s' a a none := by
  obtain ⟨hc, rfl⟩ := I.parks_sem h hq
  have hc' : (s'.kt 0).ctl = .sched .semUnlock := by rw [hs', State.goto, State.setK_kt]
  have htask := I.task 0
  simp only [KThread.TaskOk, hc] at htask
  obtain ⟨htask, hlock⟩ := htask
  obtain ⟨j, hlock⟩ := Option.isSome_iff_exists.mp hlock
  obtain rfl : j = i := by
    have := (I.table.queue 0).2 htask
    rw [hq, hlock] at this
    simpa [eq_comm] using this
  have hact₀ : s.activity = .parks cur j := by
    simp [State.activity, KThread.activity, hc, KThread.leaving, htask, hlock]
  have hact : s'.activity = .idle := by simp [State.activity, KThread.activity, hc']
  have hsems : s'.sems = Function.update s.sems j (some { x with queue := x.queue ++ [cur] }) := by rw [hs']; rfl
  refine A.silentSched I C ha ht hc hc' rfl rfl (by simp) (by rw [hact₀]; rfl) (by rw [hact]; rfl) ?_ (fun i => ?_)
    (fun i => ?_) (fun r st _ _ => ?_) fun r st hr => ⟨st, by rwa [hs'] at hr, Iff.rfl⟩
  · rw [State.readyList, State.readyList, hact₀, hact, hs']
    rfl
  · rw [State.waitersOf, State.waitersOf, hact₀, hact, State.semQueue, State.semQueue, hsems]
    by_cases hi : i = j
    · simp [hi, hx, Activity.parked]
    · simp [Function.update_of_ne hi, Activity.parked, Ne.symm hi]
  · rw [hsems]
    by_cases hi : i = j
    · simp [hi, hx]
    · simp [Function.update_of_ne hi]
  · rw [State.joinersOf, State.joinersOf, hact₀, hact, hs']
    rfl

/-! ### Control is given to a thread -/

/-- `schedule` marks the thread that it has taken as running. -/
theorem dispBody (I : Inv s) (C : CoopInv s) (ha : AllocOk ((0, .run f) : Event 1))
    (ht : Trans ⟨0⟩ s (0, .run f) s') {x : Tcb} (hc : (s.kt 0).ctl = .sched (.dispBody q))
    (hx : s.heap q = some x) (hst : x.state = .ready)
    (hs' : s' = (s.setTcb q { x with state := .running }).setK 0
      { s.kt 0 with currentTid := x.tid, ctl := .sched (.dispUnlock q) }) :
    Simulated s (0, .run f) s' a a none := by
  have hc' : (s'.kt 0).ctl = .sched (.dispUnlock q) := by rw [hs', State.setK_kt]
  have hact₀ : s.activity = .takes q := by simp [State.activity, KThread.activity, hc]
  have hact : s'.activity = .takes q := by simp [State.activity, KThread.activity, hc']
  have hsame : SameThreads s s' := by
    rw [hs']
    exact .of_write hx rfl rfl (by simp [hst])
  refine A.silentSched I C ha ht hc hc' rfl rfl (by simp) (by rw [hact₀]; rfl) (by rw [hact]; rfl) ?_ (fun i => ?_)
    (fun i => by rw [hs']; rfl) (fun r st hr hne => ?_) hsame.state
  · rw [State.readyList, State.readyList, hact₀, hact, hs']
    rfl
  · rw [State.waitersOf, State.waitersOf, hact₀, hact, hs']
    rfl
  · rw [State.joinersOf, State.joinersOf, hact₀, hact, hsame.joinQueue r st hr hne]

/-- `schedule` restores the context of the thread. -/
theorem dispSet (I : Inv s) (C : CoopInv s) (ha : AllocOk ((0, .run f) : Event 1))
    (ht : Trans ⟨0⟩ s (0, .run f) s') {x : Tcb} {c : Ctx} (hc : (s.kt 0).ctl = .sched (.dispSet q))
    (hx : s.heap q = some x) (hctx : x.ctx = some c)
    (hs' : s' = s.setK 0 { s.kt 0 with ctl := .thread c.thread c.resume.pc, blocked := c.blocked }) :
    ∃ a' ev, Simulated s (0, .run f) s' a a' ev := by
  obtain ⟨x', c', hx', hctx', rfl, hcontext⟩ := I.context_of_dispSet hc
  obtain rfl : x' = x := Option.some.inj (hx'.symm.trans hx)
  obtain rfl : c' = c := Option.some.inj (hctx'.symm.trans hctx)
  have hc' : (s'.kt 0).ctl = .thread c'.thread c'.resume.pc := by rw [hs', State.setK_kt]
  have hret := A.saved _ c' hcontext
  have hplain := C.saved _ c' hcontext
  have hact₀ : s.activity = .takes c'.thread := by simp [State.activity, KThread.activity, hc]
  have hact : s'.activity = .runs c'.thread none := by
    rw [State.activity_runs hc' (Resume.pc_leaves _), Resume.pc_hand]
  have hrunning : a.running = none := by rw [A.running, hact₀]; rfl
  have hready : a.ready = c'.thread :: s.rqueue.filterMap Entry.ptr? := by
    rw [A.ready, State.readyList, hact₀]
    simp [Activity.front, Activity.back]
  have hsame : SameThreads s s' := .of_heap (by rw [hs']; rfl)
  refine ⟨{ a with running := some c'.thread, ready := s.rqueue.filterMap Entry.ptr? }, some .dispatch, ?_, ?_, ?_, ?_⟩
  · simp [Fcfs.step, hrunning, hready]
  · rw [State.pendingCall_of_not_thread (by rw [hc]; rfl), State.pendingCall_thread hc']
    have := Resume.pc_todo hplain
    by_cases hw : a.retries c'.thread = none
    · simp [hw, this (hret ▸ hw), State.fcfsCall_run, FcfsEvent.call?]
    · simp [hw, State.fcfsCall_run, FcfsEvent.call?]
  · simp [State.dispatches, hc, Fcfs.dispatched, hready]
  · refine A.next I C ha ht (by simp [hc]) (by rw [hact]; rfl) ?_ (fun i => ?_) (fun i => ?_)
      (A.joiner_of hsame fun q => by rw [hact, hact₀]; rfl) (A.finished_of hsame)
      (State.point_of_thread hc' (hret ▸ Resume.pc_retries _) (Resume.pc_zero _)) fun _ _ => rfl
    · rw [State.readyList, hact, hs']
      simp [Activity.front, Activity.back, State.setK]
    · rw [A.waiters, State.waitersOf, State.waitersOf, hact₀, hact, hs']
      rfl
    · rw [A.counter, hs']
      rfl

/-! ### Control blocks of other threads -/

/-- The running thread changes the control block of another one, which shows nowhere. -/
theorem goWrite (I : Inv s) (C : CoopInv s) (ha : AllocOk ((0, .run f) : Event 1))
    (ht : Trans ⟨0⟩ s (0, .run f) s') {pc pc' : Pc} (hc : (s.kt 0).ctl = .thread p pc)
    (hc' : (s'.kt 0).ctl = .thread p pc') (hpc : pc.Goes pc') (htodo : pc.todo = none) (hzero : pc'.zero = none)
    (hst : SameThreads s s') (hrq : s'.rqueue = s.rqueue) (hsems : s'.sems = s.sems) :
    Simulated s (0, .run f) s' a a none := by
  have hrun : s.activity = .runs p pc.hand := State.activity_runs hc hpc.leaves
  have hact : s'.activity = .runs p pc.hand := hpc.hand ▸ State.activity_runs hc' hpc.leaves'
  refine A.silent I C ha ht rfl (State.dispatches_thread hc) (fun p₀ sb t h => ?_) ?_ (by rw [hrun, hact]) ?_
    (fun i => ?_) (fun i => by rw [hsems]) hst (fun q => by rw [hrun, hact])
    (State.point_of_thread hc' (hpc.retries _ (A.point p pc hc)) hzero)
  · exact hpc.creates sb t (Ctl.thread.inj (hc.symm.trans h)).2
  · rw [State.pendingCall_thread hc, State.pendingCall_thread hc', hpc.todo, htodo]
    rfl
  · rw [State.readyList, State.readyList, hrun, hact, hrq]
    rfl
  · rw [State.waitersOf, State.waitersOf, hrun, hact, State.semQueue, State.semQueue, hsems]

/-! ### Calls -/

/-- The relation after a call. -/
theorem enterAgrees (I : Inv s) (C : CoopInv s) {c : Call} (ht : Trans ⟨0⟩ s (0, .call c) s') {r : Ret} {pc : Pc}
    (hc : (s.kt 0).ctl = .thread p (.user r)) (hc' : (s'.kt 0).ctl = .thread p pc) (hdata : SameData s s')
    (hl : pc.leaves = false) (hh : pc.hand = none) (hret : pc.Retries none) (hzero : pc.zero = none) :
    Agrees s' a := by
  have hnone : a.retries p = none := A.point p _ hc
  have hrun : s.activity = .runs p none := State.activity_runs hc rfl
  have hact : s'.activity = .runs p none := hh ▸ State.activity_runs hc' hl
  have hjq : s'.joinQueue = s.joinQueue := by
    funext q
    simp only [State.joinQueue, hdata.heap]
  refine A.next (e := (0, .call c)) I C trivial ht (by simp [hc]) ?_ ?_ (fun i => ?_) (fun i => ?_)
    (A.joiner_of (.of_heap hdata.heap) fun q => by rw [hrun, hact]) (A.finished_of (.of_heap hdata.heap))
    (State.point_of_thread hc' (hnone ▸ hret) hzero) fun _ _ => rfl
  · rw [A.running, hrun, hact]
  · rw [A.ready, State.readyList, State.readyList, hrun, hact, hdata.rqueue, hjq]
  · rw [A.waiters, State.waitersOf, State.waitersOf, hrun, hact, State.semQueue, State.semQueue, hdata.sems]
  · rw [A.counter, hdata.sems]

/-- A thread makes a call, which does not take effect yet. -/
theorem enterAt (I : Inv s) (C : CoopInv s) {c : Call} (ht : Trans ⟨0⟩ s (0, .call c) s') {r : Ret} {pc : Pc}
    (hc : (s.kt 0).ctl = .thread p (.user r)) (hc' : (s'.kt 0).ctl = .thread p pc) (hdata : SameData s s')
    (hl : pc.leaves = false) (hh : pc.hand = none) (htodo : pc.todo = some c) (hret : pc.Retries none)
    (hzero : pc.zero = none) : Simulated s (0, .call c) s' a a none := by
  have hnone : a.retries p = none := A.point p _ hc
  refine ⟨rfl, ?_, rfl, A.enterAgrees I C ht hc hc' hdata hl hh hret hzero⟩
  rw [State.pendingCall_thread hc, State.pendingCall_thread hc', htodo, hdata.fcfs]
  simp [hnone, Pc.todo, State.fcfsCall, hc]

/-- A thread makes a call. -/
theorem enter (I : Inv s) (C : CoopInv s) {c : Call} (hcoop : c ≠ .teardown) (ht : Trans ⟨0⟩ s (0, .call c) s')
    {r : Ret} (hc : (s.kt 0).ctl = .thread p (.user r)) (hs' : s' = s.setK 0 (c.enter ⟨0⟩ (s.kt 0) p)) :
    ∃ a' ev, Simulated s (0, .call c) s' a a' ev := by
  have hdata : SameData s s' := by
    rw [hs']
    exact ⟨rfl, rfl, rfl, rfl, rfl⟩
  cases c with
  | op o =>
    have hc' : (s'.kt 0).ctl = .thread p (.preempt o) := by
      rw [hs', State.setK_kt]
      cases o <;> rfl
    exact ⟨a, none, A.enterAt I C ht hc hc' hdata rfl rfl rfl rfl rfl⟩
  | yield =>
    have hc' : (s'.kt 0).ctl = .thread p (.yield none .task) := by
      rw [hs', State.setK_kt]
      rfl
    exact ⟨a, none, A.enterAt I C ht hc hc' hdata rfl rfl rfl rfl rfl⟩
  | self =>
    have hc' : (s'.kt 0).ctl = .thread p (.user (.self (s.kt 0).currentTid)) := by
      rw [hs', State.setK_kt]
      rfl
    have hnone : a.retries p = none := A.point p _ hc
    have hrunning : a.running = some p := by rw [A.running, State.activity_runs hc rfl]; rfl
    refine ⟨a, some (.call p .self), ?_, ?_, rfl, A.enterAgrees I C ht hc hc' hdata rfl rfl rfl rfl⟩
    · simp [Fcfs.step, Fcfs.call, hrunning, hnone]
    · rw [State.pendingCall_thread hc, State.pendingCall_thread hc']
      simp [Pc.todo, State.fcfsCall, hc, Call.fcfs, FcfsEvent.call?]
  | teardown => exact absurd rfl hcoop

end Agrees

end Uthread
