import Uthread.Model.Machine

/-!
# From `uthread_init` to the end

The machine of `Model.Machine` starts where `uthread_init` sets `inited`. This file models what comes
before: the table `kthread_info` is filled, and the other kernel threads are created one after the other
by `kthread_create`, which waits until the new kernel thread has entered itself in the map of `kthread.c`
and has stored its kernel id through the pointer it was given. Then the library goes on as the machine
says.

The kernel ids are a parameter `kid`, one for each of the kernel threads.
-/

namespace Uthread

variable {n : ℕ}

/-- `MAX_KTHREADS`. -/
def maxKthreads : ℕ := 64

/-- An entry of `kthread_info`: the kernel id, and whether its scheduler context has been made. -/
structure KInfo where
  ktid : ℤ
  schedCtx : Bool
  deriving DecidableEq, Repr

/-- One round of the loop of `get_kthread_info`. An entry that is missing is a dangling pointer. -/
def scanInfo (info : Fin n → Option KInfo) (ktid : ℤ) (kinfo : Option (Fin n)) (i : Fin n) :
    Except Halt (Option (Fin n)) :=
  match info i with
  | none => .error .fault
  | some x => .ok (if x.ktid = ktid then some i else kinfo)

/-- `get_kthread_info`: the assertion fails when no entry has the kernel id. -/
def getKthreadInfo (info : Fin n → Option KInfo) (ktid : ℤ) : Except Halt (Fin n) := do
  match ← (List.finRange n).foldlM (scanInfo info ktid) none with
  | none => .error .abort
  | some i => .ok i

/-- `tidmap_find_tid`, on the kernel ids in the map of `kthread.c`. A free entry has the id `0`. -/
def tidmapFindTid (kthreads : List ℤ) (tid : ℤ) : Option ℕ := kthreads.findIdx? (· = tid)

/-- `tidmap_add_self`; it fails when no entry is free. -/
def tidmapAddSelf (kthreads : List ℤ) (self : ℤ) : Option (List ℤ) :=
  (tidmapFindTid kthreads 0).map fun i => kthreads.set i self

/-- The points of `uthread_init`, from the loop that fills `kthread_info`, with `kthread_create` inlined. -/
inductive BootPc
  | fill (i : ℕ)
  | create (i : ℕ)
  | wait (i : ℕ)
  | inited
  deriving DecidableEq, Repr

/-- The points of `kthread_trampoline`, and `kthread_main` before its wait for `inited_sem`. A kernel thread
that finds no entry in the map reports the error and ends. -/
inductive WorkerPc
  | unborn
  | add
  | store (id : ℤ)
  | post (error : Bool)
  | kmain
  | ended
  deriving DecidableEq, Repr

/-- The state until `uthread_init` sets `inited`. The fields `kthreads` and `kinited` are those of `kthread.c`,
`sem` and `error` those of the latest `struct trampoline_args`. -/
structure Boot (n : ℕ) where
  pc : BootPc
  worker : Fin n → WorkerPc
  info : Fin n → Option KInfo
  kthreads : List ℤ
  kinited : Bool
  sem : ℕ
  error : Bool
  pending : Fin n → Bool
  halt : Option Halt

namespace Boot

variable (kid : Fin n → ℤ) (b : Boot n)

/-- The state in which `uthread_init` has set up the rest and begins to fill `kthread_info`. -/
def init (n : ℕ) : Boot n where
  pc := .fill 0
  worker _ := .unborn
  info _ := none
  kthreads := List.replicate maxKthreads 0
  kinited := false
  sem := 0
  error := false
  pending _ := false
  halt := none

/-- A step of `uthread_init` before `inited` is set; `self` is the main kernel thread. A failing allocation
or a failing `pthread_create` ends in `abort`. -/
def stepMain (self : Fin n) (fail : Option AllocSite) : Option (Boot n) :=
  if fail ≠ none then some { b with halt := some .abort }
  else
    match b.pc with
    | .fill i =>
      if h : i < n then
        some { b with
          info := Function.update b.info ⟨i, h⟩ (some ⟨if i = 0 then kid self else -1, true⟩)
          pc := .fill (i + 1) }
      else some { b with pc := .create 1 }
    | .create i =>
      if h : i < n then
        some { b with
          kthreads := if b.kinited then b.kthreads
            else (tidmapAddSelf b.kthreads (kid self)).getD b.kthreads
          kinited := true
          sem := 0
          error := false
          worker := Function.update b.worker ⟨i, h⟩ .add
          pc := .wait i }
      else some { b with pc := .inited }
    | .wait i =>
      if 0 < b.sem then
        if b.error then some { b with halt := some .abort }
        else some { b with sem := b.sem - 1, pc := .create (i + 1) }
      else none
    | .inited => none

/-- A step of the kernel thread `k`, created by `uthread_init`. -/
def stepWorker (k : Fin n) : Option (Boot n) :=
  match b.worker k with
  | .unborn => none
  | .add =>
    match tidmapAddSelf b.kthreads (kid k) with
    | some l => some { b with kthreads := l, worker := Function.update b.worker k (.store (kid k)) }
    | none => some { b with error := true, worker := Function.update b.worker k (.post true) }
  | .store id =>
    match b.info k with
    | some x => some { b with
        info := Function.update b.info k (some { x with ktid := id })
        worker := Function.update b.worker k (.post false) }
    | none => some { b with halt := some .fault }
  | .post error =>
    some { b with
      sem := b.sem + 1
      worker := Function.update b.worker k (if error then .ended else .kmain) }
  | .kmain => none
  | .ended => none

/-- One event before `inited` is set. The signal is blocked in all kernel threads. -/
def step (cfg : Config) (e : Event n) : Option (Boot n) :=
  if b.halt = none then
    match e.2 with
    | .run fail => if e.1.val = 0 then b.stepMain kid e.1 fail else b.stepWorker kid e.1
    | .tick =>
      if cfg.preemptive then some { b with pending := Function.update b.pending e.1 true } else none
    | .call _ | .deliver => none
  else none

end Boot

/-- The state in which `uthread_init` sets `inited`, with the signals that have become pending. -/
def State.start (cfg : Config) (pending : Fin n → Bool) : State n :=
  { State.init n cfg with
    kt := fun k => { (State.init n cfg).kt k with pending := pending k } }

/-- The library from the beginning of `uthread_init`: before and after `inited` is set. In the second phase
`info` and `kthreads` are as they are at that moment. -/
inductive Life (n : ℕ)
  | boot (b : Boot n)
  | live (info : Fin n → Option KInfo) (kthreads : List ℤ) (s : State n)

namespace Life

variable (cfg : Config) (kid : Fin n → ℤ)

/-- One event. Setting `inited` begins the second phase. -/
def step : Life n → Event n → Option (Life n)
  | .boot b, e =>
    if b.pc = .inited ∧ e.1.val = 0 ∧ e.2 = .run none ∧ b.halt = none then
      some (.live b.info b.kthreads (State.start cfg b.pending))
    else (b.step kid cfg e).map .boot
  | .live info kthreads s, e => (s.step cfg e).map (.live info kthreads)

/-- The table `kthread_info`; its entries are gone when `uthread_teardown` has freed them. -/
def info : Life n → Fin n → Option KInfo
  | .boot b => b.info
  | .live info _ s => if s.infoFreed then fun _ => none else info

/-- The flag `inited`. -/
def inited : Life n → Bool
  | .boot _ => false
  | .live _ _ s => s.inited

/-- What is promised of an event: the documented preconditions in the second phase, and allocations that
succeed in both. -/
def Ok : Life n → Event n → Prop
  | .boot _, e => AllocOk e
  | .live _ _ s, e => Obeys s e

instance (L : Life n) (e : Event n) : Decidable (L.Ok e) :=
  match L with
  | .boot _ => inferInstanceAs (Decidable (AllocOk e))
  | .live _ _ s => inferInstanceAs (Decidable (Obeys s e))

end Life

/-- The library from the beginning of `uthread_init`. -/
def lifeMachine (n : ℕ) (cfg : Config) (kid : Fin n → ℤ) : EventMachine (Life n) (Event n) where
  init := .boot (.init n)
  step := Life.step cfg kid

end Uthread
