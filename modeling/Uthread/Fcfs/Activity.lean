import Uthread.Fcfs.Machine
import Uthread.Safety.Calls
import Uthread.Safety.Reissue

/-!
# One kernel thread without preemption

The queues of the library, as the machine of `Fcfs.Machine` has them. With one kernel thread a thread may be
under way from one queue to another: the running thread or the scheduler carries it. It counts for the queue
that it is going to, except that the scheduler carries the thread that it gives control to at the head of the
ready queue.

## Main definitions

* `Activity`, `KThread.activity`: what the kernel thread is doing.
* `State.readyList`, `State.waitersOf`, `State.joinersOf`: the queues.
* `Agrees`: the library and the machine are in the same state.
* `State.pendingCall`: the call that has been made and has not taken effect.
-/

namespace Uthread

/-- What the kernel thread is doing: it executes a thread, which may have another one in its hands; it carries a
thread to the ready queue, ends one, carries one to a join queue or to the queue of a semaphore; it has taken a
thread from the ready queue; or none of these. -/
inductive Activity
  | runs (p : Ptr) (hand : Option Ptr)
  | appends (p : Ptr)
  | exits (p : Ptr)
  | joins (p q : Ptr)
  | parks (p : Ptr) (i : SemId)
  | takes (q : Ptr)
  | idle
  deriving DecidableEq, Repr

/-- The activity of a kernel thread that carries out the task that `p` has left. -/
def KThread.leaving (x : KThread) (p : Ptr) : Activity :=
  match x.task with
  | .yield => .appends p
  | .exit => .exits p
  | .join =>
    match x.queue with
    | some (.join q) => .joins p q
    | _ => .idle
  | .semWait =>
    match x.lock with
    | some i => .parks p i
    | none => .idle
  | .none | .teardown => .idle

/-- The points from which a thread goes to the scheduler and does not run any more. -/
def Pc.leaves : Pc → Bool
  | .swap _ _ | .exit _ .switch => true
  | _ => false

/-- What the kernel thread is doing. -/
def KThread.activity (x : KThread) (tcbs : Tid → Option Ptr) : Activity :=
  match x.ctl with
  | .thread p pc => if pc.leaves then x.leaving p else .runs p pc.hand
  | .sched .entry =>
    match x.exec tcbs with
    | some p => x.leaving p
    | none => .idle
  | .sched (.exitBody p) | .sched (.joinBody p) | .sched (.semBody p) => x.leaving p
  | .sched (.enq q .lock) | .sched (.enq q .insert) => .appends q
  | .sched (.deqUnlock (.tcb q)) | .sched (.next (.tcb q)) | .sched (.dispLock q) | .sched (.dispBody q)
  | .sched (.dispUnlock q) | .sched (.dispReady q) | .sched (.dispSet q) => .takes q
  | _ => .idle

namespace Activity

/-- The running thread. -/
def running : Activity → Option Ptr
  | .runs p _ => some p
  | _ => none

/-- The thread that comes before those in the ready queue. -/
def front : Activity → List Ptr
  | .takes q => [q]
  | _ => []

/-- The threads that come after those in the ready queue; the exiting thread is followed by the one that waits
to join it. -/
def back (joinQueue : Ptr → List Ptr) : Activity → List Ptr
  | .runs _ hand => hand.toList
  | .appends p => [p]
  | .exits p => joinQueue p
  | _ => []

/-- The thread that comes after those in the queue of a semaphore. -/
def parked (i : SemId) : Activity → List Ptr
  | .parks p j => if j = i then [p] else []
  | _ => []

/-- The thread that comes after those in a join queue. -/
def joining (q : Ptr) : Activity → List Ptr
  | .joins p r => if r = q then [p] else []
  | _ => []

end Activity

namespace State

variable (s : State 1)

/-- What the only kernel thread is doing. -/
def activity : Activity := (s.kt 0).activity s.tcbs

/-- The ready queue, with the threads that are under way. -/
def readyList : List Ptr :=
  s.activity.front ++ s.rqueue.filterMap Entry.ptr? ++ s.activity.back s.joinQueue

/-- The queue of a semaphore, with the thread that is under way. -/
def waitersOf (i : SemId) : List Ptr := s.semQueue i ++ s.activity.parked i

/-- The join queue of a thread, with the thread that is under way. -/
def joinersOf (q : Ptr) : List Ptr := s.joinQueue q ++ s.activity.joining q

end State

/-! ### Waits that are tried again -/

/-- The semaphore that a suspended thread was parked on. -/
def Resume.retries : Resume → Option SemId
  | .semWoken i _ => some i
  | _ => none

/-- The semaphore whose counter was zero at the last look; the thread goes to the context switch. -/
def Pc.zero : Pc → Option SemId
  | .wait i (.tcbLock _) | .wait i (.park _) => some i
  | _ => none

/-- What a control point says about the semaphore that the thread was parked on. The loop of `uthread_sem_wait`
is entered for the first time and again. -/
def Pc.Retries : Pc → Option SemId → Prop
  | .wait i (.resumed _), w | .wait i (.relock _), w => w = some i
  | .wait i (.test _), w | .wait i (.tcbLock _), w | .wait i (.park _), w | .wait i .dec, w => w = none ∨ w = some i
  | .swap _ r, w => w = r.retries
  | _, w => w = none

/-! ### The relation -/

/-- The library and the machine are in the same state. -/
structure Agrees (s : State 1) (a : Fcfs Ptr SemId) : Prop where
  running : a.running = s.activity.running
  ready : a.ready = s.readyList
  waiters : ∀ i, a.waiters i = s.waitersOf i
  counter : ∀ i, a.counter i = (s.sems i).map (·.counter)
  joiner : ∀ q st, s.stateOf q = some st → st ≠ .finished → s.joinersOf q = (a.joiner q).toList
  finished : ∀ q st, s.stateOf q = some st → (a.finished q = true ↔ st = .finished)
  point : ∀ p pc, (s.kt 0).ctl = .thread p pc → pc.Retries (a.retries p)
  saved : ∀ q c, s.context q = some (some c) → a.retries q = c.resume.retries
  zero : ∀ p pc i, (s.kt 0).ctl = .thread p pc → pc.zero = some i → a.counter i = some 0

/-! ### Calls -/

/-- A call as the machine has it: a new thread gets the address that comes next, and the thread that is joined
is looked up in the table. -/
def Call.fcfs (s : State 1) : Call → Option (FcfsCall Ptr SemId)
  | .op (.create _) => some (.create s.fresh)
  | .op (.exit _) => some .exit
  | .op (.join t _) => (s.tcbs t).map .join
  | .op (.semInit i v) => some (.semInit i v)
  | .op (.semDestroy i) => some (.semDestroy i)
  | .op (.semPost i) => some (.semPost i)
  | .op (.semWait i) => some (.semWait i)
  | .yield => some .yield
  | .self => some .self
  | .teardown => none

/-- The call that a thread makes in an event. -/
def State.fcfsCall (s : State 1) : Event 1 → Option (Ptr × FcfsCall Ptr SemId)
  | (k, .call c) =>
    match (s.kt k).ctl with
    | .thread p _ => (c.fcfs s).map (p, ·)
    | _ => none
  | _ => none

/-- The thread that `schedule` gives control to in an event. -/
def State.dispatches (s : State 1) : Event 1 → Option Ptr
  | (k, .run _) =>
    match (s.kt k).ctl with
    | .sched (.dispSet q) => some q
    | _ => none
  | _ => none

/-- The calls in a history, the first one first. -/
def calls (h : List (State 1 × Event 1)) : List (Ptr × FcfsCall Ptr SemId) :=
  (h.filterMap fun x => x.1.fcfsCall x.2).reverse

/-- The threads that `schedule` has given control to, the first one first. -/
def dispatches (h : List (State 1 × Event 1)) : List Ptr := (h.filterMap fun x => x.1.dispatches x.2).reverse

/-- The call that a thread is inside and that has not taken effect, if it has not been parked in it. -/
def Pc.todo : Pc → Option Call
  | .preempt o => some (.op o)
  | .yield _ _ => some .yield
  | .exit v .lock | .exit v .body => some (.op (.exit v))
  | .join t pret .read | .join t pret (.lock _ _) | .join t pret (.test _ _) => some (.op (.join t pret))
  | .create sb .bvLock | .create sb .next | .create sb (.bvUnlock _) | .create sb (.lock _)
  | .create sb (.body _) => some (.op (.create sb))
  | .semInit i v => some (.op (.semInit i v))
  | .semDestroy i => some (.op (.semDestroy i))
  | .post i .lock | .post i .body => some (.op (.semPost i))
  | .wait _ .unlock | .wait _ .ret => none
  | .wait i _ => some (.op (.semWait i))
  | _ => none

/-- The call that has been made and has not taken effect. A thread that was parked in a wait has made it
before. -/
def State.pendingCall (s : State 1) (a : Fcfs Ptr SemId) : Option (Ptr × FcfsCall Ptr SemId) :=
  match (s.kt 0).ctl with
  | .thread p pc => if a.retries p = none then (pc.todo.bind (Call.fcfs s)).map (p, ·) else none
  | _ => none

/-! ### Cooperative runs -/

/-- The documented preconditions, in a program that does not tear the library down. -/
structure Cooperative (s : State 1) (e : Event 1) : Prop where
  documented : Documented s e
  call : e.2 ≠ .call .teardown

instance (s : State 1) (e : Event 1) : Decidable (Cooperative s e) :=
  decidable_of_iff (Documented s e ∧ e.2 ≠ .call .teardown) ⟨fun ⟨h₁, h₂⟩ => ⟨h₁, h₂⟩, fun ⟨h₁, h₂⟩ => ⟨h₁, h₂⟩⟩

/-- With one kernel thread no identifier is handed out while its control block is being destroyed. -/
theorem Cooperative.obeys {s : State 1} {e : Event 1} (o : Cooperative s e) : Obeys s e := by
  refine ⟨o.documented.alloc, o.documented.call, o.documented.sem, o.documented.tids, ?_⟩
  obtain ⟨k, i⟩ := e
  cases i with
  | run f =>
    intro hall k' hrel
    obtain rfl := Subsingleton.elim k k'
    obtain ⟨pc, hpc, hall⟩ := (Option.any_eq_true _ _).mp hall
    rw [hpc, Option.bind_some] at hrel
    cases pc <;> simp_all [Pc.allocates, Pc.releasing]
  | _ => trivial

end Uthread
