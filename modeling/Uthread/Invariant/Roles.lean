import Uthread.Model.Machine

/-!
# What a control point says about the library

The invariants of the library relate the shared data to the control points of the kernel threads.
They refer to a control point only through the functions of this file:

* `KThread.held`: the mutexes that the kernel thread holds;
* `KThread.exec`: the user thread that it executes, hands to its scheduler or has taken from the
  ready queue, and `KThread.execState`, the state recorded in that thread's control block;
* `KThread.hand`: a second thread that it is carrying from one queue to another, and
  `KThread.handState`;
* `KThread.TaskOk`: what `sched_info` contains.
-/

namespace Uthread

/-! ### Mutexes -/

/-- The mutexes held inside `ready_enqueue`. -/
def EnqPc.held : EnqPc → List Lock
  | .insert | .unlock => [.rqueue]
  | .lock | .post => []

/-- The mutexes held at a point of a user thread. -/
def Pc.held : Pc → List Lock
  | .yield _ .body => [.tcbs]
  | .swap _ (.semWoken i _) => [.tcbs, .sem i]
  | .swap _ .start => []
  | .swap _ _ => [.tcbs]
  | .tramp .check | .tramp .unlock => [.tcbs]
  | .exit _ .body | .exit _ .switch => [.tcbs]
  | .join _ _ (.test _ _) | .join _ _ .finish | .join _ _ (.unlock _) => [.tcbs]
  | .join _ _ (.bvClear _) | .join _ _ (.bvUnlock _) => [.bitvec]
  | .create _ .next | .create _ (.bvUnlock _) => [.bitvec]
  | .create _ (.body _) | .create _ (.unlock _) => [.tcbs]
  | .create _ (.enq _ _ x) => .tcbs :: x.held
  | .post i .body | .post i (.tcbLock _) | .post i .unlock => [.sem i]
  | .post i (.setReady _) | .post i (.tcbUnlock _) => [.tcbs, .sem i]
  | .post i (.enq _ x) => .sem i :: x.held
  | .wait i .read | .wait i (.test _) | .wait i (.tcbLock _) | .wait i .dec
  | .wait i .unlock => [.sem i]
  | .wait i (.park _) => [.tcbs, .sem i]
  | .teardown (.enq _ x) => x.held
  | .teardown .read => [.tcbs]
  | _ => []

/-- The mutexes held by a kernel thread. At the entry of `schedule` they are those that the task
left in `sched_info` has to release. -/
def KThread.held (x : KThread) : List Lock :=
  match x.ctl with
  | .thread _ pc => pc.held
  | .sched .entry =>
    match x.task with
    | .none => []
    | .semWait => .tcbs :: x.lock.toList.map .sem
    | _ => [.tcbs]
  | .sched (.exitBody _) | .sched (.joinBody _) | .sched (.teardownBody _)
  | .sched .unlockTcbs => [.tcbs]
  | .sched (.semBody _) | .sched .semUnlock => .tcbs :: x.lock.toList.map .sem
  | .sched (.enq _ e) => .tcbs :: e.held
  | .sched .deqRemove | .sched (.deqUnlock _) => [.rqueue]
  | .sched (.dispBody _) | .sched (.dispUnlock _) => [.tcbs]
  | _ => []

/-! ### The task left for the scheduler -/

/-- The task and the semaphore recorded in `sched_info` at a point of a user thread. No thread saves
a context that continues in `trampoline`. -/
def Pc.task : Pc → Option (SchedTask × Option SemId)
  | .yield _ .lock | .yield _ .body | .swap _ (.yielded _) => some (.yield, none)
  | .exit _ .switch => some (.exit, none)
  | .swap _ (.joined _ _) => some (.join, none)
  | .wait i (.tcbLock _) | .wait i (.park _) | .swap _ (.semWoken i _) => some (.semWait, some i)
  | .teardown .lock | .teardown .read | .swap _ .teardown => some (.teardown, none)
  | .swap _ .start => none
  | _ => some (.none, none)

/-- What `sched_info` contains at a control point. -/
def KThread.TaskOk (x : KThread) : Prop :=
  match x.ctl with
  | .thread _ pc => some (x.task, x.lock) = pc.task
  | .sched .entry => x.lock.isSome = true ↔ x.task = .semWait
  | .sched (.exitBody _) => x.task = .exit ∧ x.lock = none
  | .sched (.joinBody _) => x.task = .join ∧ x.lock = none
  | .sched (.semBody _) | .sched .semUnlock => x.task = .semWait ∧ x.lock.isSome = true
  | .sched (.teardownBody _) => x.task = .teardown ∧ x.lock = none
  | .sched (.enq _ _) | .sched .unlockTcbs | .sched .reset => True
  | _ => x.task = .none ∧ x.lock = none

/-! ### Threads in the hands of a kernel thread -/

/-- The control block of an entry of the ready queue. -/
def Entry.ptr? : Entry → Option Ptr
  | .tcb p => some p
  | .exitall => none

/-- The thread that `schedule` is moving from or to a queue. -/
def SchedPc.moving : SchedPc → Option Ptr
  | .exitBody cur | .joinBody cur | .semBody cur | .teardownBody cur => some cur
  | .enq q .lock | .enq q .insert => some q
  | .deqUnlock e | .next e => e.ptr?
  | .dispLock q | .dispBody q | .dispUnlock q | .dispReady q | .dispSet q => some q
  | _ => none

/-- The thread that a kernel thread executes, hands to its scheduler or has taken from the ready
queue. At the entry of `schedule` it is the one that `current_tid` names. -/
def KThread.exec (x : KThread) (tcbs : Tid → Option Ptr) : Option Ptr :=
  match x.ctl with
  | .thread p _ => some p
  | .sched .entry =>
    if x.task = .none then none
    else if 0 ≤ x.currentTid then tcbs x.currentTid.toNat else none
  | .sched pc => pc.moving
  | _ => none

/-- The thread that a running thread has in its hands besides itself: a new one, or a waiter it
wakes. -/
def Pc.hand : Pc → Option Ptr
  | .create _ (.enq _ q .lock) | .create _ (.enq _ q .insert) => some q
  | .post _ (.tcbLock q) | .post _ (.setReady q) | .post _ (.tcbUnlock q)
  | .post _ (.enq q .lock) | .post _ (.enq q .insert) => some q
  | _ => none

/-- The thread that a kernel thread has in its hands besides the one it executes. -/
def KThread.hand (x : KThread) : Option Ptr := x.ctl.pc?.bind Pc.hand

/-- The state of a thread that has left a task for the scheduler. -/
def SchedTask.state : SchedTask → ThreadState
  | .none | .teardown => .running
  | .yield => .ready
  | .exit => .finished
  | .join => .waitingJoin
  | .semWait => .waitingSem

/-- The state recorded for a running thread. -/
def Pc.state : Pc → ThreadState
  | .swap _ (.yielded _) => .ready
  | .swap _ (.joined _ _) => .waitingJoin
  | .swap _ (.semWoken _ _) => .waitingSem
  | .exit _ .switch => .finished
  | _ => .running

/-- The state recorded for the thread that a kernel thread executes or moves. -/
def KThread.execState (x : KThread) : ThreadState :=
  match x.ctl with
  | .thread _ pc => pc.state
  | .sched .entry => x.task.state
  | .sched (.exitBody _) => .finished
  | .sched (.joinBody _) => .waitingJoin
  | .sched (.semBody _) => .waitingSem
  | .sched (.teardownBody _) | .sched (.dispUnlock _) | .sched (.dispReady _)
  | .sched (.dispSet _) => .running
  | _ => .ready

/-- The state recorded for the thread in the hands of a kernel thread. -/
def KThread.handState (x : KThread) : ThreadState :=
  match x.ctl with
  | .thread _ (.post _ (.tcbLock _)) | .thread _ (.post _ (.setReady _)) => .waitingSem
  | _ => .ready

/-- At these points of `schedule` the task of a suspended thread is not yet carried out. -/
def KThread.hands (x : KThread) : Bool :=
  match x.ctl with
  | .sched .entry | .sched (.joinBody _) | .sched (.semBody _) | .sched (.teardownBody _) => true
  | _ => false

/-- At these points `current_tid` names the thread that the kernel thread executes. -/
def KThread.names (x : KThread) : Bool :=
  match x.ctl with
  | .thread _ _ => true
  | .sched (.exitBody _) | .sched (.dispUnlock _) | .sched (.dispReady _)
  | .sched (.dispSet _) => true
  | _ => false

/-! ### Local variables and stages of a call -/

/-- The value of `current_tcb` in a suspended call. -/
def Resume.cur? : Resume → Option (Option Ptr)
  | .semWoken _ cur => some cur
  | _ => none

/-- The values of the local variable `current_tcb`, where it is live. -/
def Pc.curs : Pc → List (Option Ptr)
  | .swap cur r => cur :: r.cur?.toList
  | .join _ _ (.lock cur _) | .join _ _ (.test cur _) => [cur]
  | .wait _ (.test cur) | .wait _ (.tcbLock cur) | .wait _ (.park cur) | .wait _ (.resumed cur)
  | .wait _ (.relock cur) => [cur]
  | _ => []

/-- The local variable `current_tcb` holds the running thread. -/
def Ctl.LocalsOk : Ctl → Prop
  | .thread p pc => ∀ c ∈ pc.curs, c = some p
  | _ => True

/-- The queue recorded in `sched_info` fits the task. -/
def KThread.QueueOk (x : KThread) : Prop :=
  (x.task = .join → ∃ q, x.queue = some (.join q)) ∧
    (x.task = .semWait → x.queue = x.lock.map .sem)

/-- The task that a suspended thread left for the scheduler. -/
def Resume.task : Resume → SchedTask × Option SemId
  | .start => (.none, none)
  | .yielded _ => (.yield, none)
  | .joined _ _ => (.join, none)
  | .semWoken i _ => (.semWait, some i)
  | .teardown => (.teardown, none)

/-- The target of a join and the local variable `target_tcb`, where it is live. -/
def Pc.target : Pc → Option (Tid × Option Ptr)
  | .join t _ (.lock _ tgt) | .join t _ (.test _ tgt) => some (t, tgt)
  | _ => none

/-- The identifier that a thread joins which is about to switch to its scheduler. -/
def Pc.parksJoin : Pc → Option Tid
  | .swap _ (.joined t _) => some t
  | _ => none

/-- The identifier of a joined thread, once it is known to have finished. -/
def Pc.waited : Pc → Option Tid
  | .join _ _ .read | .join _ _ (.lock _ _) | .join _ _ (.test _ _) | .join _ _ (.ret _) => none
  | .join t _ _ => some t
  | _ => none

/-- The identifier of a joined thread, once `uthread_join` has released `tcbs_lock` for the last
time or is about to. -/
def Pc.passed : Pc → Option Tid
  | .join t _ (.unlock _) | .join t _ (.bvLock _) | .join t _ (.bvClear _)
  | .join t _ (.bvUnlock _) | .join t _ (.destroy _) => some t
  | _ => none

/-- The identifier that `uthread_create` has taken and not yet entered in the table. -/
def Pc.claims : Pc → Option Tid
  | .create _ (.bvUnlock t) | .create _ (.lock t) | .create _ (.body t) => some t
  | _ => none

/-- The identifier that a kernel thread has taken for a new thread. -/
def KThread.claims (x : KThread) : Option Tid := x.ctl.pc?.bind Pc.claims

/-- The identifier that a kernel thread has given back and whose control block it is about to
destroy. -/
def KThread.releasing (x : KThread) : Option Tid := x.ctl.pc?.bind Pc.releasing

/-- The thread is inside `uthread_teardown`. -/
def Pc.tearing : Pc → Bool
  | .teardown _ | .swap _ .teardown => true
  | _ => false

/-- The loop over the kernel threads in `uthread_teardown`: `some j` when it waits for number `j`,
`none` when it has ended. -/
def Pc.awaits : Pc → Option (Option ℕ)
  | .teardown (.join j) => some (some j)
  | .teardown .free => some none
  | _ => none

end Uthread
