import Uthread.Basic

/-!
# Control points

A kernel thread executes either a user thread or its scheduler. Where it stands is a value of
`Ctl`: for a user thread, its control block and a point `Pc` of the library function it is inside;
for the scheduler, a point `SchedPc` of `schedule`. Each point carries the local variables of the
source that are live there.

A step of the machine leads from one point to the next. Every mutex operation, every kernel
semaphore operation, every context switch and every unlocked access to shared data is a step of
its own; a section between a `lock` and an `unlock` is one further step.

What a saved context remembers is the point `Resume` it continues from; `Resume.pc` and
`Op.start` give the corresponding points of the functions.
-/

namespace Uthread

/-- The points of `ready_enqueue`. -/
inductive EnqPc
  | lock
  | insert
  | unlock
  | post
  deriving DecidableEq, Repr

/-- The points of `uthread_yield` before the context switch. -/
inductive YieldPc
  | task
  | lock
  | body
  deriving DecidableEq, Repr

/-- The points of `trampoline` before `start_func`. -/
inductive TrampPc
  | lock
  | check
  | unlock
  deriving DecidableEq, Repr

/-- The points of `uthread_exit` after `check_preempted`. -/
inductive ExitPc
  | lock
  | body
  | switch
  deriving DecidableEq, Repr

/-- The points of `uthread_join` after `check_preempted`: `cur` and `tgt` are `current_tcb` and
`target_tcb`, `rv` is the value stored through `pret`. -/
inductive JoinPc
  | read
  | lock (cur tgt : Option Ptr)
  | test (cur tgt : Option Ptr)
  | resumed
  | relock
  | finish
  | unlock (rv : Option Val)
  | bvLock (rv : Option Val)
  | bvClear (rv : Option Val)
  | bvUnlock (rv : Option Val)
  | destroy (rv : Option Val)
  | ret (rv : Option Val)
  deriving DecidableEq, Repr

/-- The points of `uthread_create` after `check_preempted`: `tid` is `new_tid`, `q` the new
control block. -/
inductive CreatePc
  | bvLock
  | next
  | bvUnlock (tid : Tid)
  | lock (tid : Tid)
  | body (tid : Tid)
  | enq (tid : Tid) (q : Ptr) (x : EnqPc)
  | unlock (tid : Tid)
  | ret (tid : Tid) (ret : ℕ)
  deriving DecidableEq, Repr

/-- The points of `uthread_sem_post` after `check_preempted`: `q` is the waiter taken from the
queue. -/
inductive PostPc
  | lock
  | body
  | tcbLock (q : Ptr)
  | setReady (q : Ptr)
  | tcbUnlock (q : Ptr)
  | enq (q : Ptr) (x : EnqPc)
  | unlock
  | ret
  deriving DecidableEq, Repr

/-- The points of `uthread_sem_wait` after `check_preempted`: `cur` is `current_tcb`. -/
inductive WaitPc
  | lock
  | read
  | test (cur : Option Ptr)
  | tcbLock (cur : Option Ptr)
  | park (cur : Option Ptr)
  | resumed (cur : Option Ptr)
  | relock (cur : Option Ptr)
  | dec
  | unlock
  | ret
  deriving DecidableEq, Repr

/-- The points of `uthread_teardown` until the control blocks are freed. -/
inductive TeardownPc
  | loop (j : ℕ)
  | enq (j : ℕ) (x : EnqPc)
  | task
  | lock
  | read
  | resumed
  | join (j : ℕ)
  | free
  deriving DecidableEq, Repr

/-- Where a saved context continues. -/
inductive Resume
  | start
  | yielded (o : Option Op)
  | joined (tid : Tid) (pret : Bool)
  | semWoken (i : SemId) (cur : Option Ptr)
  | teardown
  deriving DecidableEq, Repr

/-- Where a user thread stands: in user code, or at a point of a library function. -/
inductive Pc
  | init (j : ℕ)
  | initRet
  | user (r : Ret)
  | preempt (o : Op)
  | yield (o : Option Op) (x : YieldPc)
  | swap (cur : Option Ptr) (r : Resume)
  | tramp (x : TrampPc)
  | exit (v : Val) (x : ExitPc)
  | join (tid : Tid) (pret : Bool) (x : JoinPc)
  | create (stackBase : Bool) (x : CreatePc)
  | semInit (i : SemId) (value : ℤ)
  | post (i : SemId) (x : PostPc)
  | wait (i : SemId) (x : WaitPc)
  | semDestroy (i : SemId)
  | semRet
  | teardown (x : TeardownPc)
  deriving DecidableEq, Repr

/-- The points of `schedule`, with `ready_dequeue` inlined: `cur` is `current_tcb`, `q` the thread
it is moving or has taken. -/
inductive SchedPc
  | entry
  | exitBody (cur : Ptr)
  | joinBody (cur : Ptr)
  | semBody (cur : Ptr)
  | semUnlock
  | teardownBody (cur : Ptr)
  | enq (q : Ptr) (x : EnqPc)
  | unlockTcbs
  | reset
  | deqWait
  | deqLock
  | deqRemove
  | deqUnlock (e : Entry)
  | next (e : Entry)
  | exitWait (j : ℕ)
  | exitPost
  | dispLock (q : Ptr)
  | dispBody (q : Ptr)
  | dispUnlock (q : Ptr)
  | dispReady (q : Ptr)
  | dispSet (q : Ptr)
  deriving DecidableEq, Repr

/-- The end of `uthread_teardown`, after the control blocks are freed. -/
inductive ClosingPc
  | unblock
  | inited
  | done
  deriving DecidableEq, Repr

/-- Where a kernel thread stands. -/
inductive Ctl
  | kmain
  | kmainStart
  | thread (p : Ptr) (pc : Pc)
  | sched (pc : SchedPc)
  | closing (pc : ClosingPc)
  | exited
  deriving DecidableEq, Repr

/-- The first point of a function after its `check_preempted`. -/
def Op.start : Op → Pc
  | .create sb => .create sb .bvLock
  | .exit v => .exit v .lock
  | .join t pret => .join t pret .read
  | .semInit i v => .semInit i v
  | .semPost i => .post i .lock
  | .semWait i => .wait i .lock
  | .semDestroy i => .semDestroy i

/-- The point that a restored context continues from. A yield that was requested by
`check_preempted` goes on with the function that called it. -/
def Resume.pc : Resume → Pc
  | .start => .tramp .lock
  | .yielded none => .user .unit
  | .yielded (some o) => o.start
  | .joined t pret => .join t pret .resumed
  | .semWoken i cur => .wait i (.resumed cur)
  | .teardown => .teardown .resumed

end Uthread
