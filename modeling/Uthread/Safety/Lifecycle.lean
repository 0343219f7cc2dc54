import Uthread.Safety.Memory

/-!
# The life of a thread

A thread is `READY` when it has been created. A scheduler that has taken it from the ready queue makes it `RUNNING`.
Only the thread itself, or the scheduler it has switched to, ends that: it yields or finishes, or it waits at a
semaphore or to join another thread. A post makes the thread `READY` that it has taken from the queue of the
semaphore, and the scheduler of a thread that has finished the one that waits to join it. A thread that has finished
stays `FINISHED` until it is destroyed.

## Main definitions

* `Moves`: the changes of the state of a thread, with the kernel threads that make them.

## Main results

* `thread_lifecycle`.
-/

namespace Uthread

variable {n : ℕ} {cfg : Config} {s s' : State n} {e : Event n} {k : Fin n} {p q r : Ptr}
  {h : List (State n × Event n)}

/-- The changes of the state of thread `q` that kernel thread `k` can make. -/
inductive Moves (s : State n) (k : Fin n) (q : Ptr) : Option ThreadState → Option ThreadState → Prop
  /-- `uthread_create` makes a new thread. -/
  | created {p sb t} (hc : (s.kt k).ctl = .thread p (.create sb (.body t))) (hq : q = s.fresh) :
      Moves s k q none (some .ready)
  /-- The scheduler has taken the thread from the ready queue. -/
  | dispatched (hc : (s.kt k).ctl = .sched (.dispBody q)) : Moves s k q (some .ready) (some .running)
  | yields {o} (hc : (s.kt k).ctl = .thread q (.yield o .body)) : Moves s k q (some .running) (some .ready)
  | exits {v} (hc : (s.kt k).ctl = .thread q (.exit v .body)) : Moves s k q (some .running) (some .finished)
  /-- The thread to be joined has not finished. -/
  | joins {t pret r} (hc : (s.kt k).ctl = .thread q (.join t pret (.test (some q) (some r))))
      (hr : s.stateOf r ≠ some .finished) : Moves s k q (some .running) (some .waitingJoin)
  | waits {i} (hc : (s.kt k).ctl = .thread q (.wait i (.park (some q)))) :
      Moves s k q (some .running) (some .waitingSem)
  /-- The scheduler puts the thread that tears the library down into the ready queue. -/
  | suspended (hc : (s.kt k).ctl = .sched (.teardownBody q)) : Moves s k q (some .running) (some .ready)
  | posted {p i} (hc : (s.kt k).ctl = .thread p (.post i (.setReady q))) :
      Moves s k q (some .waitingSem) (some .ready)
  /-- The scheduler has the thread that finished, and `q` is the first that waits for it. -/
  | released {p rest} (hc : (s.kt k).ctl = .sched (.exitBody p)) (hp : s.stateOf p = some .finished)
      (hj : s.joinQueue p = q :: rest) : Moves s k q (some .waitingJoin) (some .ready)
  /-- A thread that has joined it destroys it. -/
  | destroyed {p t pret rv} (hc : (s.kt k).ctl = .thread p (.join t pret (.destroy rv))) (hq : s.tcbs t = some q) :
      Moves s k q (some .finished) none
  /-- The main thread destroys what is left, itself included. -/
  | freed {st} (hc : (s.kt k).ctl = .thread mainTcb (.teardown .free))
      (hst : st = if q = mainTcb then .running else .finished) : Moves s k q (some st) none

/-- A step that writes one control block changes the state of that thread only. -/
theorem State.stateOf_update {x y : Tcb} (hx : s.heap r = some x) (hh : s'.heap = Function.update s.heap r (some y))
    (hm : y.state ≠ x.state → Moves s k r (some x.state) (some y.state)) :
    s'.stateOf q = s.stateOf q ∨ Moves s k q (s.stateOf q) (s'.stateOf q) := by
  by_cases hq : q = r
  · subst hq
    have hst : s.stateOf q = some x.state := by rw [State.stateOf, hx]; rfl
    have hst' : s'.stateOf q = some y.state := by rw [State.stateOf, hh, Function.update_self]; rfl
    rw [hst, hst']
    by_cases hxy : y.state = x.state
    · exact .inl (by rw [hxy])
    · exact .inr (hm hxy)
  · exact .inl (by rw [State.stateOf, hh, Function.update_of_ne hq]; rfl)

/-- A thread that a kernel thread executes in the library is running. -/
theorem Inv.running_of_thread (I : Inv s) {pc : Pc} {x : Tcb} (hc : (s.kt k).ctl = .thread p pc)
    (hx : s.heap p = some x) (hpc : pc.state = .running) : x.state = .running := by
  have hst := I.place.alive (.exec k) p (PlaceInv.mem_exec (State.exec_thread hc))
  simpa [State.stateOf, hx, State.placeState, KThread.execState, hc, hpc] using hst

/-- What a step does to the states of the threads. -/
theorem Trans.moves (ht : Trans cfg s e s') (hn : 0 < n) (hr : (machine n cfg).Run Obeys h s) (ha : AllocOk e)
    (q : Ptr) : s'.stateOf q = s.stateOf q ∨ Moves s e.1 q (s.stateOf q) (s'.stateOf q) := by
  obtain ⟨I, A⟩ := inv_alone_of_reachable hn hr.reachable
  cases ht with
  | signal h => cases h <;> exact .inl rfl
  | swap hc hx => exact State.stateOf_update hx rfl fun hne => absurd rfl hne
  | parkJoin h hq hx => exact State.stateOf_update hx rfl fun hne => absurd rfl hne
  | @yieldBody k f p o c x hc hcur hx hst =>
    obtain rfl : p = c := by simpa [I.table.currentTcb_thread hc] using hcur
    exact State.stateOf_update hx rfl fun _ => hst ▸ .yields hc
  | @exitBody k f p v c x hc hcur hx hst =>
    obtain rfl : p = c := by simpa [I.table.currentTcb_thread hc] using hcur
    exact State.stateOf_update hx rfl fun _ => hst ▸ .exits hc
  | @joinBlock k f p t pret c r x y hc hx hst hy hj =>
    obtain rfl : c = p := I.table.cur_eq hc (by simp [Pc.curs])
    refine State.stateOf_update hy rfl fun _ => ?_
    rw [I.running_of_thread hc hy rfl]
    exact .joins hc (by simpa [State.stateOf, hx] using hst)
  | @waitPark k f p i c x hc hx =>
    obtain rfl : c = p := I.table.cur_eq hc (by simp [Pc.curs])
    refine State.stateOf_update hx rfl fun _ => ?_
    rw [I.running_of_thread hc hx rfl]
    exact .waits hc
  | postReady hc hx hst => exact State.stateOf_update hx rfl fun _ => hst ▸ .posted hc
  | @schedTeardown k f cur x hc hx =>
    have hst : x.state = .running := by
      simpa [State.stateOf, State.placeState, KThread.execState, hx, hc] using
        I.place.alive (.exec k) cur (PlaceInv.mem_exec (by simp [State.exec, KThread.exec, SchedPc.moving, hc]))
    exact State.stateOf_update hx rfl fun _ => hst ▸ .suspended hc
  | dispBody hc hx hst => exact State.stateOf_update hx rfl fun _ => hst ▸ .dispatched hc
  | @schedExitWake k f cur x j rest y hc hx hj hy hst =>
    have hfin : s.stateOf cur = some .finished := by
      simpa [State.placeState, KThread.execState, hc] using
        I.place.alive (.exec k) cur (PlaceInv.mem_exec (by simp [State.exec, KThread.exec, SchedPc.moving, hc]))
    have hne : j ≠ cur := by
      rintro rfl
      simp [State.stateOf, hx] at hfin
      simp [State.setTcb] at hy
      simp [← hy, hfin] at hst
    have hy : s.heap j = some y := by simpa [State.setTcb, hne] using hy
    by_cases hq : q = j
    · subst hq
      refine .inr ?_
      have hst₀ : s.stateOf q = some .waitingJoin := by rw [State.stateOf, hy, Option.map_some, hst]
      have hjq : s.joinQueue cur = q :: rest := by rw [State.joinQueue, hx, Option.map_some, Option.getD_some, hj]
      rw [hst₀]
      simpa [State.stateOf, State.goto, State.setK, State.setTcb] using Moves.released hc hfin hjq
    · left
      by_cases hqc : q = cur
      · subst hqc
        simp [State.stateOf, State.goto, State.setK, State.setTcb, hq, hx]
      · simp [State.stateOf, State.goto, State.setK, State.setTcb, hq, hqc]
  | @createBody k f p sb t hc =>
    by_cases hq : q = s.fresh
    · refine .inr ?_
      have hnone : s.stateOf q = none := by rw [State.stateOf, I.place.bound q hq.ge]; rfl
      rw [hnone]
      simpa [State.stateOf, State.goto, State.setK, hq, State.newTcb] using Moves.created hc hq
    · exact .inl (by simp [State.stateOf, State.goto, State.setK, hq])
  | @joinDestroy k f p t pret rv r x hc hr' hx =>
    by_cases hq : q = r
    · subst hq
      refine .inr ?_
      rw [I.join.waited k t q (by simp [hc, Ctl.pc?, Pc.waited]) hr']
      simpa [State.stateOf, State.goto, State.setK] using Moves.destroyed hc hr'
    · exact .inl (by simp [State.stateOf, State.goto, State.setK, hq])
  | @teardownFree k f p r x hc hr' hx =>
    obtain rfl : p = mainTcb := main_of_free hn hr hc
    have hnone : (State.goto { s with
        heap := fun q => if (List.range maxThreads).any (s.tcbs · == some q) then none else s.heap q
        tcbs := fun t => if t < maxThreads then none else s.tcbs t
        rqueue := []
        infoFreed := true } k (.closing .unblock)).stateOf q = none := by
      simp only [State.stateOf, State.goto, State.setK, I.heap_free, Option.map_none]
    rw [hnone]
    cases hst : s.stateOf q with
    | none => exact .inl rfl
    | some st =>
      refine .inr (.freed hc ?_)
      split
      · next hq =>
        obtain ⟨y, hy, rfl⟩ := Option.map_eq_some_iff.1 hst
        exact I.running_of_thread hc (hq ▸ hy) rfl
      · next hq => exact A.freeOk (e := (k, .run f)) mainTcb hc q st hq hst
  | _ => exact .inl rfl

end Uthread
