import Uthread.Lib.EventMachine
import Uthread.Model.Threads
import Uthread.Model.Semaphore
import Uthread.Model.Schedule

/-!
# The library as an event machine

An event names a kernel thread and what it does: its user code makes a call, it executes the next
step of the library, a timer signal becomes pending for it, or a pending signal is delivered. User
code is arbitrary: any call may be made whenever a thread is in user code. A run therefore stands
for any program and any interleaving of the kernel threads.

The initial state is the one in which `uthread_init` sets `inited`: the other kernel threads exist
and wait for `inited_sem`, the main user thread is about to post it.

What the documentation asks of the callers is stated as conditions on the events of a run:

* `AllocOk`: no allocation fails;
* `CallOk`: a thread is joined at most once and not by itself, semaphores are used only when
  initialised, teardown is called by the main thread when all others have finished;
* `SemOk`: a semaphore is initialised with a value that is not negative, and is not initialised
  or destroyed while in use;
* `TidsLeft`: an identifier is free when a thread is created;
* `NoReissue`: no identifier is handed out between a join's `reclaim_tid` and its
  `destroy_thread`.

`Obeys` is their conjunction.
-/

namespace Uthread

variable {n : ℕ}

/-- What a kernel thread does in one event. -/
inductive Input
  | call (c : Call)
  | run (fail : Option AllocSite)
  | tick
  | deliver
  deriving DecidableEq, Repr

/-- An event of the machine. -/
abbrev Event (n : ℕ) := Fin n × Input

/-- The control block of the main thread. -/
def mainTcb : Ptr := 0

/-- The first lines of a public function, before `check_preempted` where it has one. -/
def Call.enter (cfg : Config) (x : KThread) (p : Ptr) : Call → KThread
  | .op (.semDestroy i) => { x with ctl := .thread p (.preempt (.semDestroy i)) }
  | .op o => { x.block cfg with ctl := .thread p (.preempt o) }
  | .yield => { x with ctl := .thread p (.yield none .task) }
  | .teardown => { x.block cfg with ctl := .thread p (.teardown (.loop 0)) }
  | .self => { x with ctl := .thread p (.user (.self x.currentTid)) }

namespace State

/-- The state in which `uthread_init` sets `inited`. -/
def init (n : ℕ) (cfg : Config) : State n where
  kt k :=
    if k.val = 0 then
      { ctl := .thread mainTcb (.init 0), currentTid := tidMain, blocked := cfg.preemptive }
    else { ctl := .kmain, blocked := cfg.preemptive }
  heap p :=
    if p = mainTcb then some { tid := tidMain, stackAllocated := false, state := .running }
    else none
  fresh := 1
  tcbs t := if t = tidMain then some mainTcb else none
  bitvec := (getNextTid (bitvecInit maxThreads)).2
  rqueue := []
  notEmpty := 0
  sems _ := none
  owner _ := none
  initedSem := 0
  exitallSem := 0
  inited := true
  infoFreed := false
  halt := none

variable (cfg : Config) (s : State n) (k : Fin n)

/-- User code of thread `p` calls a function of the library. -/
def stepCall (p : Ptr) (c : Call) : Option (State n) :=
  if s.inited then some (s.setK k (c.enter cfg (s.kt k) p)) else some s.abort

/-- A step of the library on behalf of thread `p`. -/
def stepThread (fail : Option AllocSite) (p : Ptr) : Pc → Option (State n)
  | .init j => s.stepInit k p j
  | .initRet => s.stepInitRet cfg k p
  | .user _ => none
  | .preempt o => s.checkPreempted cfg k p o
  | .yield o x => s.stepYield cfg k p o x
  | .swap cur r => s.stepSwap cfg k p cur r
  | .tramp x => s.stepTrampoline k p x
  | .exit v x => s.stepExit cfg k p v x
  | .join t pret x => s.stepJoin cfg k p t pret x
  | .create sb x => s.stepCreate cfg k p fail sb x
  | .semInit i v => s.stepSemInit k p i v
  | .post i x => s.stepPost cfg k p fail i x
  | .wait i x => s.stepWait cfg k p i x
  | .semDestroy i => s.stepSemDestroy cfg k p i
  | .semRet => s.stepSemRet cfg k p
  | .teardown x => s.stepTeardown k p fail x

/-- A step of the library. -/
def stepRun (fail : Option AllocSite) : Option (State n) :=
  match (s.kt k).ctl with
  | .kmain => s.stepKthreadMain k
  | .kmainStart => s.stepKthreadStart cfg k
  | .thread p pc => s.stepThread cfg k fail p pc
  | .sched pc => s.stepSchedule cfg k fail pc
  | .closing pc => s.stepClosing cfg k pc
  | .exited => none

/-- `sigrtmin_handler`, run when a pending signal is delivered. -/
def stepDeliver : Option (State n) :=
  if (s.kt k).pending && !(s.kt k).blocked then
    if s.inited && cfg.preemptive then
      if s.infoFreed then some s.fault
      else some (s.setK k { s.kt k with pending := false, preempted := true })
    else some (s.setK k { s.kt k with pending := false })
  else none

/-- One event. Nothing happens in a run that has stopped. -/
def step (e : Event n) : Option (State n) :=
  if s.halt = none then
    match e.2 with
    | .call c =>
      match (s.kt e.1).ctl with
      | .thread p (.user _) => s.stepCall cfg e.1 p c
      | _ => none
    | .run fail => s.stepRun cfg e.1 fail
    | .tick =>
      if cfg.preemptive then some (s.setK e.1 { s.kt e.1 with pending := true }) else none
    | .deliver => s.stepDeliver cfg e.1
  else none

end State

/-- The library with `n` kernel threads. -/
def machine (n : ℕ) (cfg : Config) : EventMachine (State n) (Event n) where
  init := State.init n cfg
  step s e := s.step cfg e

/-- Kernel thread `k` takes `m` steps of the library; no allocation fails. -/
def runs (k : Fin n) (m : ℕ) : List (Event n) := List.replicate m (k, .run none)

/-! ### Threads inside a call -/

/-- The identifier that a call joins. -/
def Op.joins : Op → Option Tid
  | .join t _ => some t
  | _ => none

/-- The semaphore that a call posts or waits on. -/
def Op.uses : Op → Option SemId
  | .semPost i => some i
  | .semWait i => some i
  | _ => none

/-- The identifier that a suspended thread is joining. -/
def Resume.joins : Resume → Option Tid
  | .joined t _ => some t
  | .yielded o => o.bind Op.joins
  | _ => none

/-- The semaphore that a suspended thread posts or waits on. -/
def Resume.uses : Resume → Option SemId
  | .semWoken i _ => some i
  | .yielded o => o.bind Op.uses
  | _ => none

/-- The identifier that a thread is joining: from its call until the joined control block is
destroyed. -/
def Pc.joins : Pc → Option Tid
  | .preempt o => o.joins
  | .yield o _ => o.bind Op.joins
  | .swap _ r => r.joins
  | .join _ _ (.ret _) => none
  | .join t _ _ => some t
  | _ => none

/-- The semaphore that a thread posts or waits on, from its call until the mutex is released for
the last time. -/
def Pc.uses : Pc → Option SemId
  | .preempt o => o.uses
  | .yield o _ => o.bind Op.uses
  | .swap _ r => r.uses
  | .post _ .ret => none
  | .post i _ => some i
  | .wait _ .ret => none
  | .wait i _ => some i
  | _ => none

/-- The identifier whose bit is cleared and whose control block is not yet destroyed. -/
def Pc.releasing : Pc → Option Tid
  | .join t _ (.bvUnlock _) => some t
  | .join t _ (.destroy _) => some t
  | _ => none

/-- The point of the user thread that a kernel thread executes. -/
def Ctl.pc? : Ctl → Option Pc
  | .thread _ pc => some pc
  | _ => none

/-- The user thread that a kernel thread executes. -/
def Ctl.thread? : Ctl → Option Ptr
  | .thread p _ => some p
  | _ => none

namespace State

variable (s : State n)

/-- Where a thread continues that is not finished and not executed by any kernel thread. -/
def suspended (p : Ptr) : Option Resume :=
  if ∃ k, (s.kt k).ctl.thread? = some p then none
  else
    match s.heap p with
    | some x => if x.state = .finished then none else x.ctx.map (·.resume)
    | none => none

/-- Some thread is inside `uthread_join` of `t`. -/
def Joining (t : Tid) : Prop :=
  (∃ k, (s.kt k).ctl.pc?.bind Pc.joins = some t) ∨
    ∃ p < s.fresh, (s.suspended p).bind Resume.joins = some t

/-- Some thread is inside `uthread_sem_post` or `uthread_sem_wait` on `i`, or a scheduler is
still parking one there. -/
def SemBusy (i : SemId) : Prop :=
  (∃ k, (s.kt k).ctl.pc?.bind Pc.uses = some i ∨ (s.kt k).lock = some i) ∨
    ∃ p < s.fresh, (s.suspended p).bind Resume.uses = some i

instance (t : Tid) : Decidable (s.Joining t) :=
  inferInstanceAs (Decidable (_ ∨ ∃ p < s.fresh, _))

instance (i : SemId) : Decidable (s.SemBusy i) :=
  inferInstanceAs (Decidable (_ ∨ ∃ p < s.fresh, _))

end State

/-! ### What the callers promise -/

/-- No allocation fails. -/
def AllocOk : Event n → Prop
  | (_, .run fail) => fail = none
  | _ => True

/-- The documented preconditions of a call made by thread `p`. -/
def State.CallOk (s : State n) (p : Ptr) : Call → Prop
  | .op (.join t _) => (s.tcbs t).any (· ≠ p) ∧ ¬ s.Joining t
  | .op (.semPost i) => (s.sems i).isSome
  | .op (.semWait i) => (s.sems i).isSome
  | .teardown => p = mainTcb ∧ ∀ q < s.fresh, q ≠ p → (s.heap q).all (·.state = .finished)
  | _ => True

/-- The precondition of the call that an event makes. -/
def CallOk (s : State n) : Event n → Prop
  | (k, .call c) => ∀ p ∈ (s.kt k).ctl.thread?, s.CallOk p c
  | _ => True

/-- The conditions on semaphores, at the steps where they matter. -/
def Pc.SemOk (s : State n) : Pc → Prop
  | .semInit i v => 0 ≤ v ∧ ¬ s.SemBusy i
  | .semDestroy i => ¬ s.SemBusy i
  | _ => True

/-- The conditions on semaphores. -/
def SemOk (s : State n) : Event n → Prop
  | (k, .run _) => ∀ pc ∈ (s.kt k).ctl.pc?, pc.SemOk s
  | _ => True

/-- The step of `get_next_tid` is about to be taken. -/
def Pc.allocates : Pc → Bool
  | .create _ .next => true
  | _ => false

/-- An identifier is free when one is taken. -/
def TidsLeft (s : State n) : Event n → Prop
  | (k, .run _) => (s.kt k).ctl.pc?.any Pc.allocates → 0 ≤ bitvecFirstClearedIndex s.bitvec
  | _ => True

/-- The identifier that is taken is not one whose control block is yet to be destroyed. -/
def NoReissue (s : State n) : Event n → Prop
  | (k, .run _) => (s.kt k).ctl.pc?.any Pc.allocates →
      ∀ k', (s.kt k').ctl.pc?.bind Pc.releasing ≠
        some (bitvecFirstClearedIndex s.bitvec).toNat
  | _ => True

/-- The event keeps to the documented preconditions and to the assumptions on allocation and
identifiers. -/
structure Obeys (s : State n) (e : Event n) : Prop where
  alloc : AllocOk e
  call : CallOk s e
  sem : SemOk s e
  tids : TidsLeft s e
  reissue : NoReissue s e

/-- The preconditions of a call made by thread `p`, without the one that the other threads have finished when
teardown is called. -/
def State.CallAllowed (s : State n) (p : Ptr) : Call → Prop
  | .teardown => p = mainTcb
  | c => s.CallOk p c

/-- The precondition of the call that an event makes, without the one on the other threads. -/
def CallAllowed (s : State n) : Event n → Prop
  | (k, .call c) => ∀ p ∈ (s.kt k).ctl.thread?, s.CallAllowed p c
  | _ => True

/-- The event keeps to the preconditions, but the other threads need not have finished when teardown is
called. -/
structure Keeps (s : State n) (e : Event n) : Prop where
  alloc : AllocOk e
  call : CallAllowed s e
  sem : SemOk s e
  tids : TidsLeft s e
  reissue : NoReissue s e

theorem Obeys.keeps {s : State n} {e : Event n} (o : Obeys s e) : Keeps s e := by
  refine ⟨o.alloc, ?_, o.sem, o.tids, o.reissue⟩
  obtain ⟨k, i⟩ := e
  cases i with
  | call c =>
    intro p hp
    have hc := o.call p hp
    cases c with
    | teardown => exact hc.1
    | _ => exact hc
  | _ => trivial

instance (s : State n) (p : Ptr) (c : Call) : Decidable (s.CallOk p c) :=
  match c with
  | .op (.join _ _) => inferInstanceAs (Decidable (_ ∧ _))
  | .op (.semPost i) => inferInstanceAs (Decidable ((s.sems i).isSome = true))
  | .op (.semWait i) => inferInstanceAs (Decidable ((s.sems i).isSome = true))
  | .teardown => inferInstanceAs (Decidable (_ ∧ ∀ q < s.fresh, _))
  | .op (.create _) | .op (.exit _) | .op (.semInit _ _) | .op (.semDestroy _) | .yield
  | .self => isTrue trivial

instance (s : State n) (pc : Pc) : Decidable (pc.SemOk s) :=
  match pc with
  | .semInit i v => inferInstanceAs (Decidable (0 ≤ v ∧ ¬ s.SemBusy i))
  | .semDestroy i => inferInstanceAs (Decidable (¬ s.SemBusy i))
  | .init _ | .initRet | .user _ | .preempt _ | .yield _ _ | .swap _ _ | .tramp _ | .exit _ _
  | .join _ _ _ | .create _ _ | .post _ _ | .wait _ _ | .semRet | .teardown _ => isTrue trivial

instance (e : Event n) : Decidable (AllocOk e) :=
  match e with
  | (_, .run fail) => inferInstanceAs (Decidable (fail = none))
  | (_, .call _) | (_, .tick) | (_, .deliver) => isTrue trivial

instance (s : State n) (e : Event n) : Decidable (CallOk s e) :=
  match e with
  | (k, .call c) =>
    match h : (s.kt k).ctl.thread? with
    | some p => decidable_of_iff (s.CallOk p c) (by simp [CallOk, h])
    | none => isTrue (by simp [CallOk, h])
  | (_, .run _) | (_, .tick) | (_, .deliver) => isTrue trivial

instance (s : State n) (e : Event n) : Decidable (SemOk s e) :=
  match e with
  | (k, .run _) =>
    match h : (s.kt k).ctl.pc? with
    | some pc => decidable_of_iff (pc.SemOk s) (by simp [SemOk, h])
    | none => isTrue (by simp [SemOk, h])
  | (_, .call _) | (_, .tick) | (_, .deliver) => isTrue trivial

instance (s : State n) (e : Event n) : Decidable (TidsLeft s e) :=
  match e with
  | (_, .run _) => inferInstanceAs (Decidable (_ → _))
  | (_, .call _) | (_, .tick) | (_, .deliver) => isTrue trivial

instance (s : State n) (e : Event n) : Decidable (NoReissue s e) :=
  match e with
  | (_, .run _) => inferInstanceAs (Decidable (_ → ∀ _, _))
  | (_, .call _) | (_, .tick) | (_, .deliver) => isTrue trivial

instance (s : State n) (e : Event n) : Decidable (Obeys s e) :=
  decidable_of_iff (AllocOk e ∧ CallOk s e ∧ SemOk s e ∧ TidsLeft s e ∧ NoReissue s e)
    ⟨fun ⟨h₁, h₂, h₃, h₄, h₅⟩ => ⟨h₁, h₂, h₃, h₄, h₅⟩,
      fun ⟨h₁, h₂, h₃, h₄, h₅⟩ => ⟨h₁, h₂, h₃, h₄, h₅⟩⟩

end Uthread
