import Uthread.Lib.Exclusive
import Uthread.Invariant.Locks

/-!
# The invariant of the library

A thread that is not finished is in exactly one *place*: the ready queue, the hands of a kernel
thread that executes it or moves it, the join queue of another thread, or the queue of a
semaphore. `State.holds` gives the contents of the places, and the state recorded in the control
block of a thread is the one that its place prescribes (`State.placeState`).

The other parts of the invariant say that the table `tcbs` and the control blocks agree
(`TableInv`), that a thread which is not executed has saved its own context (`CtxInv`), what a
join knows about its target (`JoinInv`), which identifiers are taken (`BitInv`), and what the end of
`uthread_teardown` waits for (`TeardownInv`).

## Main definitions

* `Place`, `State.holds`, `State.placeState`.
* `PlaceInv`, `TableInv`, `CtxInv`, `JoinInv`, `BitInv`, `TeardownInv`, and `Inv`, their
  conjunction.
* `AloneInv`: a thread in `uthread_teardown` is alone, if it was called so.
-/

namespace Uthread

variable {n : ℕ} {cfg : Config} {s s' : State n} {e : Event n} {k : Fin n}

/-- The places where a thread can be. -/
inductive Place (n : ℕ)
  | ready
  | exec (k : Fin n)
  | hand (k : Fin n)
  | joinq (q : Ptr)
  | semq (i : SemId)
  deriving DecidableEq

namespace State

variable (s : State n)

/-- The thread that kernel thread `k` executes or moves. -/
def exec (k : Fin n) : Option Ptr := (s.kt k).exec s.tcbs

/-- The join queue of a thread. -/
def joinQueue (q : Ptr) : List Ptr := ((s.heap q).map (·.joinQueue)).getD []

/-- The queue of a semaphore. -/
def semQueue (i : SemId) : List Ptr := ((s.sems i).map (·.queue)).getD []

/-- The state of a thread, when its control block is allocated. -/
def stateOf (p : Ptr) : Option ThreadState := (s.heap p).map (·.state)

/-- The threads in a place, in order. -/
def holds : Place n → List Ptr
  | .ready => s.rqueue.filterMap Entry.ptr?
  | .exec k => (s.exec k).toList
  | .hand k => (s.kt k).hand.toList
  | .joinq q => s.joinQueue q
  | .semq i => s.semQueue i

/-- The state of a thread in a place. -/
def placeState : Place n → ThreadState
  | .ready => .ready
  | .exec k => (s.kt k).execState
  | .hand k => (s.kt k).handState
  | .joinq _ => .waitingJoin
  | .semq _ => .waitingSem

end State

/-- Every thread that is not finished is in exactly one place and has the state that goes with
it. -/
structure PlaceInv (s : State n) : Prop where
  excl : Exclusive s.holds
  alive : ∀ c, ∀ p ∈ s.holds c, s.stateOf p = some (s.placeState c)
  cover : ∀ p st, s.stateOf p = some st → st ≠ .finished → ∃ c, p ∈ s.holds c
  bound : ∀ p, s.fresh ≤ p → s.heap p = none

/-- The table of threads and the control blocks agree, and each kernel thread knows the thread it
executes. -/
structure TableInv (s : State n) : Prop where
  slot : ∀ t p, s.tcbs t = some p → ∃ x, s.heap p = some x ∧ x.tid = t
  tid : ∀ p x, s.heap p = some x → s.tcbs x.tid = some p
  cur : ∀ k, (s.kt k).names → s.currentTcb k = s.exec k
  handing : ∀ k, (s.kt k).ctl = .sched .entry → (s.kt k).task ≠ .none → ∃ p, s.exec k = some p
  locals : ∀ k, (s.kt k).ctl.LocalsOk
  queue : ∀ k, (s.kt k).QueueOk

/-- The context in a control block, unless the thread is finished. -/
def Tcb.saved (x : Tcb) : Option (Option Ctx) :=
  if x.state = .finished then none else some x.ctx

/-- The context of a thread that is neither finished nor executed by a kernel thread. -/
def State.context (s : State n) (p : Ptr) : Option (Option Ctx) :=
  if ∃ k, (s.kt k).ctl.thread? = some p then none else (s.heap p).bind Tcb.saved

/-- A thread that is neither finished nor executed has saved its own context, at a point that
matches the task it left and the queue it is in. -/
structure CtxInv (s : State n) : Prop where
  saved : ∀ p o, s.context p = some o →
    ∃ r b, o = some ⟨p, r, b⟩ ∧ ∀ c ∈ r.cur?, c = some p
  handed : ∀ k p r, (s.kt k).hands → s.exec k = some p → s.suspended p = some r →
    r.task = ((s.kt k).task, (s.kt k).lock)
  parked : ∀ i p, p ∈ s.semQueue i → s.suspended p = some (.semWoken i (some p))

/-- The thread that a kernel thread executes and the identifier that it is joining. -/
def Ctl.joining : Ctl → Option (Ptr × Tid)
  | .thread p pc => pc.joins.map (p, ·)
  | _ => none

/-- Thread `p` is inside `uthread_join` of `t`. -/
def State.JoinsAt (s : State n) (p : Ptr) (t : Tid) : Prop :=
  (∃ k, (s.kt k).ctl.joining = some (p, t)) ∨ (s.suspended p).bind Resume.joins = some t

/-- Kernel thread `k` is handing a thread that joins `t` to its scheduler. -/
def State.HandsJoin (s : State n) (k : Fin n) (t : Tid) : Prop :=
  (s.kt k).ctl.pc?.bind Pc.parksJoin = some t ∨
    ((s.kt k).hands ∧ ∃ p pret, s.exec k = some p ∧ s.suspended p = some (.joined t pret))

/-- What a join knows about its target. -/
structure JoinInv (s : State n) : Prop where
  unique : ∀ p p' t, s.JoinsAt p t → s.JoinsAt p' t → p = p'
  target : ∀ p t, s.JoinsAt p t → ∃ q, s.tcbs t = some q ∧ q ≠ p
  read : ∀ k t tgt, (s.kt k).ctl.pc?.bind Pc.target = some (t, tgt) → s.tcbs t = tgt
  parked : ∀ q, ∀ p ∈ s.joinQueue q,
    ∃ t pret, s.suspended p = some (.joined t pret) ∧ s.tcbs t = some q
  handing : ∀ k t, s.HandsJoin k t → ∃ q, (s.kt k).queue = some (.join q) ∧ s.tcbs t = some q ∧
    s.stateOf q ≠ some .finished
  woken : ∀ p t pret q, s.suspended p = some (.joined t pret) → s.tcbs t = some q →
    p ∈ s.joinQueue q ∨ (∃ k, (s.kt k).hands ∧ s.exec k = some p) ∨
      s.stateOf q = some .finished
  waited : ∀ k t q, (s.kt k).ctl.pc?.bind Pc.waited = some t → s.tcbs t = some q →
    s.stateOf q = some .finished
  passed : ∀ k t q, (s.kt k).ctl.pc?.bind Pc.passed = some t → s.tcbs t = some q →
    ∀ k', s.exec k' ≠ some q
  exiting : ∀ q, s.stateOf q = some .finished → s.joinQueue q ≠ [] → ∃ k, s.exec k = some q

/-- The identifiers whose bit is set are those in the table, less the ones being released, and
those that a creation has taken; teardown destroys the vector. -/
structure BitInv (s : State n) : Prop where
  size : s.bitvec.nbytes = maxThreads / 8 ∧ s.bitvec.vec.length = maxThreads / 8
  lt : ∀ t p, s.tcbs t = some p → t < maxThreads
  claim : ∀ k t, (s.kt k).claims = some t → s.tcbs t = none ∧ t < maxThreads
  claimUnique : ∀ k k' t, (s.kt k).claims = some t → (s.kt k').claims = some t → k = k'
  bit : s.infoFreed = false → ∀ t < maxThreads, bitvecGet s.bitvec t ≠ 0 ↔
    (∃ k, (s.kt k).claims = some t) ∨
      (s.tcbs t ≠ none ∧ ∀ k, (s.kt k).releasing ≠ some t)

/-- The thread inside `uthread_teardown` that a kernel thread executes. -/
def Ctl.tearing : Ctl → Option Ptr
  | .thread p pc => if pc.tearing then some p else none
  | _ => none

/-- Thread `p` is inside `uthread_teardown`. -/
def State.TearsDown (s : State n) (p : Ptr) : Prop :=
  (∃ k, (s.kt k).ctl.tearing = some p) ∨ s.suspended p = some .teardown

/-- What the loop knows when it waits for number `j`, or when it has ended. -/
def State.Awaited (s : State n) (k : Fin n) : Option ℕ → Prop
  | some j => k.val = 0 ∧ ∀ k', 0 < k'.val → k'.val < j → (s.kt k').ctl = .exited
  | none => ∀ k', k' ≠ k → (s.kt k').ctl = .exited

/-- `uthread_teardown` frees the control blocks, all of them, only when the other kernel threads have
exited. -/
structure TeardownInv (s : State n) : Prop where
  awaited : ∀ k o, (s.kt k).ctl.pc?.bind Pc.awaits = some o → s.Awaited k o
  freed : s.infoFreed = true → ∀ p, s.heap p = none

/-- A thread inside `uthread_teardown` is the only one that is not finished. -/
def AloneInv (s : State n) : Prop :=
  ∀ p, s.TearsDown p → ∀ q st, q ≠ p → s.stateOf q = some st → st = .finished

/-- When the control blocks are freed the other threads have finished. -/
def FreeOk (s : State n) : Event n → Prop
  | (k, .run _) => ∀ p, (s.kt k).ctl = .thread p (.teardown .free) →
      ∀ q st, q ≠ p → s.stateOf q = some st → st = .finished
  | _ => True

/-- The event keeps to the preconditions. Teardown may be called at any time, but the control blocks are
freed only when the other threads have finished. -/
structure Admits (s : State n) (e : Event n) : Prop extends Keeps s e where
  free : FreeOk s e

/-- The invariant of the library. -/
structure Inv (s : State n) : Prop where
  task : ∀ k, (s.kt k).TaskOk
  lock : ∀ L, LockInv s L
  place : PlaceInv s
  table : TableInv s
  ctx : CtxInv s
  join : JoinInv s
  bits : BitInv s
  teardown : TeardownInv s

end Uthread
