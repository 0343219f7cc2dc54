import Uthread.Fcfs.Cooperative

/-!
# Simulation by the machine

A step of the library with one kernel thread is a step of the machine of `Fcfs.Machine`, or none. Here are the
rules that the single steps are proved with, and the steps that show nowhere: those that change neither the
queues nor what the kernel thread is doing.

## Main definitions

* `Simulated`: a step of the library is a step of the machine, or none.

## Main results

* `Agrees.next`: the relation after a step.
* `Agrees.go`, `Agrees.goSched`: the steps that show nowhere.
-/

namespace Uthread

variable {s s' : State 1} {e : Event 1} {a a' : Fcfs Ptr SemId} {p q : Ptr} {f : Option AllocSite}
  {ev : Option (FcfsEvent Ptr SemId)}

/-- A step of the library is a step of the machine, or none; it makes the same call and gives control to the
same thread. -/
structure Simulated (s : State 1) (e : Event 1) (s' : State 1) (a a' : Fcfs Ptr SemId)
    (ev : Option (FcfsEvent Ptr SemId)) : Prop where
  step : ev.elim (some a) a.step = some a'
  calls : (s.pendingCall a).toList ++ (s.fcfsCall e).toList =
    (ev.bind FcfsEvent.call?).toList ++ (s'.pendingCall a').toList
  dispatches : s.dispatches e = ev.bind a.dispatched
  agrees : Agrees s' a'

/-! ### What the queues and the calls are at a control point -/

theorem State.activity_runs {pc : Pc} (hc : (s.kt 0).ctl = .thread p pc) (hl : pc.leaves = false) :
    s.activity = .runs p pc.hand := by
  simp [State.activity, KThread.activity, hc, hl]

theorem State.activity_leaves {pc : Pc} (hc : (s.kt 0).ctl = .thread p pc) (hl : pc.leaves = true) :
    s.activity = (s.kt 0).leaving p := by
  simp [State.activity, KThread.activity, hc, hl]

theorem State.pendingCall_thread {pc : Pc} (hc : (s.kt 0).ctl = .thread p pc) : s.pendingCall a =
    if a.retries p = none then (pc.todo.bind (Call.fcfs s)).map (p, ·) else none := by
  simp [State.pendingCall, hc]

theorem State.pendingCall_of_not_thread (hc : (s.kt 0).ctl.thread? = none) : s.pendingCall a = none := by
  cases h : (s.kt 0).ctl <;> simp_all [State.pendingCall, Ctl.thread?]

theorem State.fcfsCall_run : s.fcfsCall (0, .run f) = none := rfl

theorem State.dispatches_thread {pc : Pc} (hc : (s.kt 0).ctl = .thread p pc) :
    s.dispatches (0, .run f) = none := by
  simp [State.dispatches, hc]

/-! ### Steps that change no thread -/

/-- The same threads have finished, and the others have the same join queues. -/
structure SameThreads (s s' : State 1) : Prop where
  joinQueue : ∀ q st, s'.stateOf q = some st → st ≠ .finished → s'.joinQueue q = s.joinQueue q
  state : ∀ q st', s'.stateOf q = some st' → ∃ st, s.stateOf q = some st ∧ (st' = .finished ↔ st = .finished)

theorem SameThreads.of_heap (h : s'.heap = s.heap) : SameThreads s s' where
  joinQueue q _ _ _ := by simp only [State.joinQueue, h]
  state q st hst := ⟨st, by rwa [State.stateOf, h] at hst, Iff.rfl⟩

/-- A control block is written; the thread does not finish, and its join queue stays. -/
theorem SameThreads.of_write {x y : Tcb} (hx : s.heap p = some x)
    (h : s'.heap = Function.update s.heap p (some y)) (hj : y.joinQueue = x.joinQueue)
    (hst : y.state = .finished ↔ x.state = .finished) : SameThreads s s' where
  joinQueue q st hq _ := by
    by_cases hqp : q = p
    · simp [State.joinQueue, h, hqp, hx, hj]
    · simp [State.joinQueue, h, Function.update_of_ne hqp]
  state q st hq := by
    by_cases hqp : q = p
    · subst hqp
      obtain rfl : y.state = st := by simpa [State.stateOf, h] using hq
      exact ⟨x.state, by simp [State.stateOf, hx], hst⟩
    · exact ⟨st, by simpa [State.stateOf, h, Function.update_of_ne hqp] using hq, Iff.rfl⟩

/-- A control block is freed. -/
theorem SameThreads.of_free (h : s'.heap = Function.update s.heap p none) : SameThreads s s' where
  joinQueue q st hq _ := by
    have hqp : q ≠ p := by
      rintro rfl
      simp [State.stateOf, h] at hq
    simp [State.joinQueue, h, Function.update_of_ne hqp]
  state q st hq := by
    have hqp : q ≠ p := by
      rintro rfl
      simp [State.stateOf, h] at hq
    exact ⟨st, by simpa [State.stateOf, h, Function.update_of_ne hqp] using hq, Iff.rfl⟩

namespace Agrees

variable (A : Agrees s a)
include A

theorem joiner_of (hst : SameThreads s s') (hact : ∀ q, s'.activity.joining q = s.activity.joining q) :
    ∀ q st, s'.stateOf q = some st → st ≠ .finished → s'.joinersOf q = (a.joiner q).toList := by
  intro q st hq hfin
  obtain ⟨st₀, hq₀, hiff⟩ := hst.state q st hq
  rw [← A.joiner q st₀ hq₀ (mt hiff.mpr hfin), State.joinersOf, State.joinersOf, hst.joinQueue q st hq hfin, hact]

theorem finished_of (hst : SameThreads s s') :
    ∀ q st, s'.stateOf q = some st → (a.finished q = true ↔ st = .finished) := by
  intro q st hq
  obtain ⟨st₀, hq₀, hiff⟩ := hst.state q st hq
  rw [A.finished q st₀ hq₀, hiff]

/-- What the saved contexts say about waits that are tried again. -/
theorem saved_of (I : Inv s) (C : CoopInv s) (ha : AllocOk e) (ht : Trans ⟨0⟩ s e s') {c : Ctx}
    (hq : s'.context q = some (some c)) : a.retries q = c.resume.retries ∨
      (q = s.fresh ∧ c.resume = .start ∧ ∃ p sb t, (s.kt 0).ctl = .thread p (.create sb (.body t))) := by
  obtain ⟨k, i⟩ := e
  obtain rfl : k = 0 := Subsingleton.elim k 0
  cases ht.suspends I ha q with
  | same h => exact .inl (A.saved q c (h ▸ hq))
  | saves hc _ h =>
    obtain rfl : c = _ := by simpa [hq] using h
    exact .inl (A.point q _ hc)
  | resumes _ _ _ h' => cases hq.symm.trans h'
  | creates hc hf h =>
    obtain rfl : c = _ := by simpa [hq] using h
    exact .inr ⟨hf, rfl, _, _, _, hc⟩
  | frees hc => cases C.point _ _ hc

/-- The parts of the relation for a step that creates no thread. -/
theorem next (I : Inv s) (C : CoopInv s) (ha : AllocOk e) (ht : Trans ⟨0⟩ s e s')
    (hcreate : ∀ p sb t, (s.kt 0).ctl ≠ .thread p (.create sb (.body t)))
    (hrunning : a'.running = s'.activity.running) (hready : a'.ready = s'.readyList)
    (hwaiters : ∀ i, a'.waiters i = s'.waitersOf i) (hcounter : ∀ i, a'.counter i = (s'.sems i).map (·.counter))
    (hjoiner : ∀ q st, s'.stateOf q = some st → st ≠ .finished → s'.joinersOf q = (a'.joiner q).toList)
    (hfinished : ∀ q st, s'.stateOf q = some st → (a'.finished q = true ↔ st = .finished))
    (hpoint : ∀ p pc, (s'.kt 0).ctl = .thread p pc →
      pc.Retries (a'.retries p) ∧ ∀ i, pc.zero = some i → a'.counter i = some 0)
    (hretries : ∀ q, (s'.kt 0).ctl.thread? ≠ some q → a'.retries q = a.retries q) : Agrees s' a' where
  running := hrunning
  ready := hready
  waiters := hwaiters
  counter := hcounter
  joiner := hjoiner
  finished := hfinished
  point p pc hc := (hpoint p pc hc).1
  zero p pc i hc := (hpoint p pc hc).2 i
  saved q c hq := by
    have hne : (s'.kt 0).ctl.thread? ≠ some q := fun h => by
      simp [State.context_of_executed h] at hq
    rw [hretries q hne]
    obtain h | ⟨-, -, p, sb, t, hc⟩ := A.saved_of I C ha ht hq
    · exact h
    · exact absurd hc (hcreate p sb t)

end Agrees

/-! ### Steps that are none of the machine -/

/-- The data that the queues are made of and the table of threads stay the same. -/
structure SameData (s s' : State 1) : Prop where
  heap : s'.heap = s.heap
  rqueue : s'.rqueue = s.rqueue
  sems : s'.sems = s.sems
  tcbs : s'.tcbs = s.tcbs
  fresh : s'.fresh = s.fresh

theorem SameData.fcfs (h : SameData s s') : Call.fcfs s' = Call.fcfs s := by
  funext c
  cases c with
  | op o => cases o <;> simp [Call.fcfs, h.tcbs, h.fresh]
  | _ => rfl

/-- A thread moves on inside of a call, and nothing shows. -/
structure Pc.Goes (pc pc' : Pc) : Prop where
  leaves : pc.leaves = false
  leaves' : pc'.leaves = false
  hand : pc'.hand = pc.hand
  todo : pc'.todo = pc.todo
  retries : ∀ w, pc.Retries w → pc'.Retries w
  creates : ∀ sb t, pc ≠ .create sb (.body t)

namespace Agrees

variable (A : Agrees s a)
include A

theorem silent (I : Inv s) (C : CoopInv s) (ha : AllocOk e) (ht : Trans ⟨0⟩ s e s')
    (hcall : s.fcfsCall e = none) (hdisp : s.dispatches e = none)
    (hcreate : ∀ p sb t, (s.kt 0).ctl ≠ .thread p (.create sb (.body t)))
    (hpending : s'.pendingCall a = s.pendingCall a) (hrunning : s'.activity.running = s.activity.running)
    (hready : s'.readyList = s.readyList) (hwaiters : ∀ i, s'.waitersOf i = s.waitersOf i)
    (hcounter : ∀ i, (s'.sems i).map (·.counter) = (s.sems i).map (·.counter)) (hst : SameThreads s s')
    (hjoining : ∀ q, s'.activity.joining q = s.activity.joining q)
    (hpoint : ∀ p pc, (s'.kt 0).ctl = .thread p pc →
      pc.Retries (a.retries p) ∧ ∀ i, pc.zero = some i → a.counter i = some 0) :
    Simulated s e s' a a none where
  step := rfl
  calls := by simp [hcall, hpending]
  dispatches := hdisp
  agrees := by
    refine A.next I C ha ht hcreate ?_ ?_ (fun i => ?_) (fun i => ?_) (A.joiner_of hst hjoining)
      (A.finished_of hst) hpoint fun _ _ => rfl
    · rw [hrunning, A.running]
    · rw [hready, A.ready]
    · rw [hwaiters, A.waiters]
    · rw [hcounter, A.counter]

/-- A step that changes neither the data nor the activity. -/
theorem quiet (I : Inv s) (C : CoopInv s) (ha : AllocOk e) (ht : Trans ⟨0⟩ s e s') (hdata : SameData s s')
    (hcall : s.fcfsCall e = none) (hdisp : s.dispatches e = none)
    (hcreate : ∀ p sb t, (s.kt 0).ctl ≠ .thread p (.create sb (.body t)))
    (hpending : s'.pendingCall a = s.pendingCall a) (hact : s'.activity = s.activity)
    (hpoint : ∀ p pc, (s'.kt 0).ctl = .thread p pc →
      pc.Retries (a.retries p) ∧ ∀ i, pc.zero = some i → a.counter i = some 0) :
    Simulated s e s' a a none := by
  have hjq : s'.joinQueue = s.joinQueue := by
    funext q
    simp only [State.joinQueue, hdata.heap]
  refine A.silent I C ha ht hcall hdisp hcreate hpending (by rw [hact]) ?_ (fun i => ?_) (fun i => ?_)
    (.of_heap hdata.heap) (fun q => by rw [hact]) hpoint
  · rw [State.readyList, State.readyList, hact, hdata.rqueue, hjq]
  · rw [State.waitersOf, State.waitersOf, hact, State.semQueue, State.semQueue, hdata.sems]
  · rw [hdata.sems]

theorem go (I : Inv s) (C : CoopInv s) (ht : Trans ⟨0⟩ s (0, .run f) s') (ha : AllocOk ((0, .run f) : Event 1))
    {pc pc' : Pc} (hc : (s.kt 0).ctl = .thread p pc) (hc' : (s'.kt 0).ctl = .thread p pc') (hdata : SameData s s')
    (hpc : pc.Goes pc') (hzero : ∀ i, pc'.zero = some i → a.counter i = some 0) :
    Simulated s (0, .run f) s' a a none := by
  refine A.quiet I C ha ht hdata rfl (State.dispatches_thread hc) (fun p₀ sb t h => ?_) ?_ ?_ fun p₀ pc₀ h₀ => ?_
  · exact hpc.creates sb t (Ctl.thread.inj (hc.symm.trans h)).2
  · rw [State.pendingCall_thread hc, State.pendingCall_thread hc', hpc.todo, hdata.fcfs]
  · rw [State.activity_runs hc hpc.leaves, State.activity_runs hc' hpc.leaves', hpc.hand]
  · obtain ⟨rfl, rfl⟩ := Ctl.thread.inj (hc'.symm.trans h₀)
    exact ⟨hpc.retries _ (A.point p pc hc), hzero⟩

theorem goSched (I : Inv s) (C : CoopInv s) (ht : Trans ⟨0⟩ s (0, .run f) s')
    (ha : AllocOk ((0, .run f) : Event 1)) (hc : (s.kt 0).ctl.thread? = none)
    (hc' : (s'.kt 0).ctl.thread? = none) (hdata : SameData s s') (hdisp : ∀ q, (s.kt 0).ctl ≠ .sched (.dispSet q))
    (hact : s'.activity = s.activity) : Simulated s (0, .run f) s' a a none := by
  refine A.quiet I C ha ht hdata rfl ?_ (fun p₀ sb t h => ?_) ?_ hact fun p₀ pc₀ h₀ => ?_
  · simp [State.dispatches]
  · simp [h, Ctl.thread?] at hc
  · rw [State.pendingCall_of_not_thread hc, State.pendingCall_of_not_thread hc']
  · simp [h₀, Ctl.thread?] at hc'

end Agrees

end Uthread
