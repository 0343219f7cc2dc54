import Uthread.Bitvec
import Uthread.Model.Control
import Mathlib.Logic.Function.Basic
import Mathlib.Algebra.Ring.Int.Defs
import Mathlib.Algebra.Ring.Nat

/-!
# The state of the library

The shared data of `uthread.c` and one record for each of the `n` kernel threads. The record holds
what `kthread_info` holds for the kernel thread together with its control point and its signal
mask; a kernel thread reads and writes its own record only.

The control blocks live in a heap `heap : Ptr → Option Tcb`: `none` is an address that is not
allocated, before its allocation or after `free`. A queue of the library is the list of its items.

The functions below are the parts from which the steps are put together. They return
`some` of the next state, and `none` where the kernel thread has to wait.
-/

namespace Uthread

/-- A library with one kernel thread has kernel thread `0`. -/
instance neZero_one : NeZero 1 := ⟨Nat.one_ne_zero⟩

/-- A `ucontext_t` that has been written: whose stack it runs on, where it continues, and the
signal mask it restores. -/
structure Ctx where
  thread : Ptr
  resume : Resume
  blocked : Bool
  deriving DecidableEq, Repr

/-- `uthread_tcb_t`. The field `ctx` is `none` as long as no context has been written into it. -/
structure Tcb where
  tid : Tid
  stackAllocated : Bool
  state : ThreadState
  retval : Val := 0
  joinQueue : List Ptr := []
  ctx : Option Ctx := none
  deriving DecidableEq, Repr

/-- `uthread_sem_t`; the owner of its mutex is in `State.owner`. -/
structure Sem where
  counter : ℤ
  queue : List Ptr
  deriving DecidableEq, Repr

/-- A kernel thread: its control point, the fields of its `uthread_kinfo_t`, whether `SIGRTMIN` is
blocked in it and whether a timer signal is pending for it. -/
structure KThread where
  ctl : Ctl
  task : SchedTask := .none
  lock : Option SemId := none
  queue : Option QueueRef := none
  currentTid : ℤ := -1
  preempted : Bool := false
  blocked : Bool := false
  pending : Bool := false
  deriving DecidableEq, Repr

/-- The library with `n` kernel threads. -/
structure State (n : ℕ) where
  kt : Fin n → KThread
  heap : Ptr → Option Tcb
  fresh : Ptr
  tcbs : Tid → Option Ptr
  bitvec : Bitvec
  rqueue : List Entry
  notEmpty : ℕ
  sems : SemId → Option Sem
  owner : Lock → Option (Fin n)
  initedSem : ℕ
  exitallSem : ℕ
  inited : Bool
  infoFreed : Bool
  halt : Option Halt

/-- What `uthread_init` fixes for the whole run, besides the number of kernel threads. -/
structure Config where
  quantum : ℤ

/-- Whether preemption is on. -/
def Config.preemptive (cfg : Config) : Bool := decide (cfg.quantum ≠ 0)

/-- `block_sigrtmin`. -/
def KThread.block (cfg : Config) (x : KThread) : KThread :=
  { x with blocked := x.blocked || cfg.preemptive }

/-- `unblock_sigrtmin`. -/
def KThread.unblock (cfg : Config) (x : KThread) : KThread :=
  { x with blocked := x.blocked && !cfg.preemptive }

/-- `counter++` on a 32-bit `int`. -/
def intIncr (c : ℤ) : ℤ := Int.bmod (c + 1) (2 ^ 32)

theorem intIncr_eq {c : ℤ} (h0 : 0 ≤ c) (h : c < 2 ^ 31 - 1) : intIncr c = c + 1 := by
  rw [intIncr, Int.bmod_eq_of_le] <;> omega

namespace State

variable {n : ℕ} (s : State n) (k : Fin n)

/-- Replace the record of kernel thread `k`. -/
def setK (x : KThread) : State n := { s with kt := Function.update s.kt k x }

@[simp] theorem setK_kt (x : KThread) : (s.setK k x).kt k = x := by simp [setK]

/-- Kernel thread `k` moves on to another control point. -/
def goto (c : Ctl) : State n := s.setK k { s.kt k with ctl := c }

/-- Write a control block. -/
def setTcb (p : Ptr) (x : Tcb) : State n := { s with heap := Function.update s.heap p (some x) }

/-- Write a semaphore. -/
def setSem (i : SemId) (x : Option Sem) : State n :=
  { s with sems := Function.update s.sems i x }

@[simp] theorem setTcb_kt (p : Ptr) (x : Tcb) : (s.setTcb p x).kt = s.kt := rfl

@[simp] theorem setSem_kt (i : SemId) (x : Option Sem) : (s.setSem i x).kt = s.kt := rfl

/-- A failed assertion or an `abort`. -/
def abort : State n := { s with halt := some .abort }

/-- An access through a null or dangling pointer. -/
def fault : State n := { s with halt := some .fault }

/-- Lock a mutex, which has to be free, and move on. -/
def acquire (L : Lock) (c : Ctl) : Option (State n) :=
  if s.owner L = none then
    some ({ s with owner := Function.update s.owner L (some k) }.goto k c)
  else none

/-- Unlock a mutex and move on. -/
def release (L : Lock) (c : Ctl) : Option (State n) :=
  some ({ s with owner := Function.update s.owner L none }.goto k c)

/-- `tcbs[uthread_self()]`, null when the kernel thread has no current thread. -/
def currentTcb : Option Ptr :=
  if 0 ≤ (s.kt k).currentTid then s.tcbs (s.kt k).currentTid.toNat else none

/-- Dereference a `uthread_tcb_t *`. -/
def withTcb (o : Option Ptr) (f : Ptr → Tcb → Option (State n)) : Option (State n) :=
  match o with
  | none => some s.fault
  | some c =>
    match s.heap c with
    | none => some s.fault
    | some x => f c x

/-- Dereference a `uthread_sem_t *`. -/
def withSem (i : SemId) (f : Sem → Option (State n)) : Option (State n) :=
  match s.sems i with
  | none => some s.fault
  | some x => f x

/-- `queue_enqueue` on the queue that `sched_info.queue` points to; a failing allocation ends in
`abort`. -/
def queueEnqueue (fail : Option AllocSite) (r : Option QueueRef) (p : Ptr) (c : Ctl) :
    Option (State n) :=
  if fail = some .node then some s.abort
  else
    match r with
    | none => some s.fault
    | some (.join q) =>
      s.withTcb (some q) fun q x =>
        some ((s.setTcb q { x with joinQueue := x.joinQueue ++ [p] }).goto k c)
    | some (.sem i) =>
      s.withSem i fun x =>
        some ((s.setSem i (some { x with queue := x.queue ++ [p] })).goto k c)

/-- `ready_enqueue`: the points inside are `next x`, and it returns to `done`. -/
def readyEnqueue (fail : Option AllocSite) (e : Entry) (next : EnqPc → Ctl) (done : Ctl) :
    EnqPc → Option (State n)
  | .lock => s.acquire k .rqueue (next .insert)
  | .insert =>
    if fail = some .node then some s.abort
    else some ({ s with rqueue := s.rqueue ++ [e] }.goto k (next .unlock))
  | .unlock => s.release k .rqueue (next .post)
  | .post => some ({ s with notEmpty := s.notEmpty + 1 }.goto k done)

end State

end Uthread
