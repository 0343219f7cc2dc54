import Uthread.Model.State

/-!
# The scheduler, the start of the kernel threads, and teardown

The steps of `schedule` with `ready_dequeue`, of `kthread_main`, of the end of `uthread_init` and
of `uthread_teardown`. The main kernel thread is number `0`.
-/

namespace Uthread

namespace State

variable {n : ℕ} (cfg : Config) (s : State n) (k : Fin n) (p : Ptr)

/-- The top of `schedule`: the branch for the task that was left in `sched_info`. -/
def scheduleEntry : Option (State n) :=
  let s' := s.setK k ((s.kt k).block cfg)
  match (s.kt k).task, s.currentTcb k with
  | .none, _ => some (s'.goto k (.sched .reset))
  | _, none => some s.fault
  | .yield, some cur => some (s'.goto k (.sched (.enq cur .lock)))
  | .exit, some cur => some (s'.goto k (.sched (.exitBody cur)))
  | .join, some cur => some (s'.goto k (.sched (.joinBody cur)))
  | .semWait, some cur => some (s'.goto k (.sched (.semBody cur)))
  | .teardown, some cur => some (s'.goto k (.sched (.teardownBody cur)))

/-- The branch `EXIT` of `schedule`: a thread that waits to join the exiting one is taken from its
join queue and made ready. -/
def scheduleExit (cur : Ptr) : Option (State n) :=
  s.withTcb (some cur) fun cur x =>
    match x.joinQueue with
    | [] => some (s.goto k (.sched .unlockTcbs))
    | j :: rest =>
      let s' := s.setTcb cur { x with joinQueue := rest }
      match s'.heap j with
      | none => some s.fault
      | some y =>
        if (y.tid : ℤ) ≠ (s.kt k).currentTid ∧ y.state = .waitingJoin then
          some ((s'.setTcb j { y with state := .ready }).goto k (.sched (.enq j .lock)))
        else some s.abort

/-- `schedule`. -/
def stepSchedule (fail : Option AllocSite) : SchedPc → Option (State n)
  | .entry => s.scheduleEntry cfg k
  | .exitBody cur => s.scheduleExit k cur
  | .joinBody cur => s.queueEnqueue k fail (s.kt k).queue cur (.sched .unlockTcbs)
  | .semBody cur => s.queueEnqueue k fail (s.kt k).queue cur (.sched .semUnlock)
  | .semUnlock =>
    match (s.kt k).lock with
    | some i => s.release k (.sem i) (.sched .unlockTcbs)
    | none => some s.fault
  | .teardownBody cur =>
    s.withTcb (some cur) fun cur x =>
      some ((s.setTcb cur { x with state := .ready }).goto k (.sched (.enq cur .lock)))
  | .enq q x =>
    s.readyEnqueue k fail (.tcb q) (fun x => .sched (.enq q x)) (.sched .unlockTcbs) x
  | .unlockTcbs => s.release k .tcbs (.sched .reset)
  | .reset =>
    some (s.setK k { s.kt k with
      task := .none, lock := none, queue := none, ctl := .sched .deqWait })
  | .deqWait =>
    if 0 < s.notEmpty then
      some ({ s with notEmpty := s.notEmpty - 1 }.goto k (.sched .deqLock))
    else none
  | .deqLock => s.acquire k .rqueue (.sched .deqRemove)
  | .deqRemove =>
    match s.rqueue with
    | [] => some s.abort
    | e :: rest => some ({ s with rqueue := rest }.goto k (.sched (.deqUnlock e)))
  | .deqUnlock e => s.release k .rqueue (.sched (.next e))
  | .next .exitall =>
    if k.val = 0 then some (s.goto k (.sched (.exitWait (n - 1))))
    else some (s.goto k (.sched .exitPost))
  | .next (.tcb q) => some (s.goto k (.sched (.dispLock q)))
  | .exitWait 0 => some (s.goto k (.sched .entry))
  | .exitWait (j + 1) =>
    if 0 < s.exitallSem then
      some ({ s with exitallSem := s.exitallSem - 1 }.goto k (.sched (.exitWait j)))
    else none
  | .exitPost => some ({ s with exitallSem := s.exitallSem + 1 }.goto k .exited)
  | .dispLock q => s.acquire k .tcbs (.sched (.dispBody q))
  | .dispBody q =>
    s.withTcb (some q) fun q x =>
      if x.state = .ready then
        some ((s.setTcb q { x with state := .running }).setK k
          { s.kt k with currentTid := x.tid, ctl := .sched (.dispUnlock q) })
      else some s.abort
  | .dispUnlock q => s.release k .tcbs (.sched (.dispReady q))
  | .dispReady q =>
    some (s.setK k { (s.kt k).unblock cfg with
      preempted := false, ctl := .sched (.dispSet q) })
  | .dispSet q =>
    s.withTcb (some q) fun _ x =>
      match x.ctx with
      | none => some s.fault
      | some c =>
        some (s.setK k { s.kt k with
          ctl := .thread c.thread c.resume.pc, blocked := c.blocked })

/-- `kthread_main`: wait for the end of the initialisation. -/
def stepKthreadMain : Option (State n) :=
  if 0 < s.initedSem then
    some ({ s with initedSem := s.initedSem - 1 }.goto k .kmainStart)
  else none

/-- The rest of `kthread_main`: enter the scheduler. -/
def stepKthreadStart : Option (State n) :=
  if s.inited then some (s.setK k { (s.kt k).block cfg with ctl := .sched .entry })
  else some s.abort

/-- The loop of `uthread_init` that lets the `n - 1` other kernel threads go. -/
def stepInit (j : ℕ) : Option (State n) :=
  if j + 1 < n then
    some ({ s with initedSem := s.initedSem + 1 }.goto k (.thread p (.init (j + 1))))
  else some (s.goto k (.thread p .initRet))

/-- The return from `uthread_init`. -/
def stepInitRet : Option (State n) :=
  some (s.setK k { (s.kt k).unblock cfg with ctl := .thread p (.user .unit) })

/-- The last part of `uthread_teardown` that touches control blocks: every block in the table is
freed, and so are the queue and the per-kernel-thread data. -/
def teardownFree : Option (State n) :=
  s.withTcb (s.tcbs tidMain) fun _ _ =>
    some ({ s with
      heap := fun q => if (List.range maxThreads).any (s.tcbs · == some q) then none else s.heap q
      tcbs := fun t => if t < maxThreads then none else s.tcbs t
      rqueue := []
      infoFreed := true }.goto k (.closing .unblock))

/-- `uthread_teardown`. After the context switch it goes on in the main kernel thread. -/
def stepTeardown (fail : Option AllocSite) : TeardownPc → Option (State n)
  | .loop j =>
    if j < n then some (s.goto k (.thread p (.teardown (.enq j .lock))))
    else some (s.goto k (.thread p (.teardown .task)))
  | .enq j x =>
    s.readyEnqueue k fail .exitall (fun x => .thread p (.teardown (.enq j x)))
      (.thread p (.teardown (.loop (j + 1)))) x
  | .task =>
    some (s.setK k { s.kt k with task := .teardown, ctl := .thread p (.teardown .lock) })
  | .lock => s.acquire k .tcbs (.thread p (.teardown .read))
  | .read => some (s.goto k (.thread p (.swap (s.currentTcb k) .teardown)))
  | .resumed =>
    if k.val = 0 then some (s.goto k (.thread p (.teardown (.join 1)))) else some s.abort
  | .join j =>
    -- `kthread_join` waits for kernel thread `j`
    if h : j < n then
      if (s.kt ⟨j, h⟩).ctl = .exited then
        some (s.goto k (.thread p (.teardown (.join (j + 1)))))
      else none
    else some (s.goto k (.thread p (.teardown .free)))
  | .free => s.teardownFree k

/-- The end of `uthread_teardown`. -/
def stepClosing : ClosingPc → Option (State n)
  | .unblock => some (s.setK k { (s.kt k).unblock cfg with ctl := .closing .inited })
  | .inited => some ({ s with inited := false }.goto k (.closing .done))
  | .done => none

end State

end Uthread
