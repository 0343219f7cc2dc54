import Mathlib.Data.Nat.Notation
import Mathlib.Data.Int.Notation

/-!
# Identifiers, enumerations and constants of the library

The data of `uthread.h`. A `uthread_tcb_t *` is modelled by the serial number of its allocation,
so that an address is never reused; the static `exitall` block has no number and is a constructor
of `Entry`. A `void *` return value is a number, a user semaphore is named by a number.
-/

namespace Uthread

/-- `UTHREAD_MAX_THREADS`. -/
def maxThreads : ℕ := 1024

/-- `UTHREAD_TID_MAIN`. -/
def tidMain : ℕ := 0

/-- A thread identifier, an index into `tcbs`. -/
abbrev Tid := ℕ

/-- The address of a thread control block. -/
abbrev Ptr := ℕ

/-- The name of a `uthread_sem_t`. -/
abbrev SemId := ℕ

/-- A `void *` handed to `uthread_exit`. -/
abbrev Val := ℕ

/-- `enum thread_state`. -/
inductive ThreadState
  | ready
  | running
  | waitingJoin
  | waitingSem
  | finished
  deriving DecidableEq, Repr

/-- `enum sched_task`. -/
inductive SchedTask
  | none
  | yield
  | exit
  | join
  | semWait
  | teardown
  deriving DecidableEq, Repr

/-- The mutexes of the library. -/
inductive Lock
  | bitvec
  | tcbs
  | rqueue
  | sem (i : SemId)
  deriving DecidableEq, Repr

/-- The queues that `sched_info.queue` can point to. -/
inductive QueueRef
  | join (q : Ptr)
  | sem (i : SemId)
  deriving DecidableEq, Repr

/-- An item of the ready queue: a thread control block, or the block `exitall` that signals
teardown. -/
inductive Entry
  | tcb (p : Ptr)
  | exitall
  deriving DecidableEq, Repr

/-- The public functions that begin with `check_preempted`. For `uthread_create` only whether the
caller provides the stack is kept: `start_func` and `arg` are user code. -/
inductive Op
  | create (stackBase : Bool)
  | exit (ret : Val)
  | join (tid : Tid) (pret : Bool)
  | semInit (i : SemId) (value : ℤ)
  | semPost (i : SemId)
  | semWait (i : SemId)
  | semDestroy (i : SemId)
  deriving DecidableEq, Repr

/-- The calls that user code can make. -/
inductive Call
  | op (o : Op)
  | yield
  | teardown
  | self
  deriving DecidableEq, Repr

/-- What the last library call of a thread returned to its user code. -/
inductive Ret
  | unit
  | code (ret : ℕ)
  | created (tid : Tid) (ret : ℕ)
  | joined (tid : Tid) (pret : Option Val) (ret : ℕ)
  | self (tid : ℤ)
  deriving DecidableEq, Repr

/-- The places where an atomic step calls `malloc`. -/
inductive AllocSite
  | tcb
  | stack
  | node
  deriving DecidableEq, Repr

/-- How a run can stop: a failed `assert` or an explicit `abort`, or an access through a null or
dangling pointer. -/
inductive Halt
  | abort
  | fault
  deriving DecidableEq, Repr

end Uthread
