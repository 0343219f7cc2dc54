import Uthread.Lib.EventMachine
import Uthread.Model.Boot

/-!
# The map of kernel threads

`kthread.c` keeps a map from kernel ids to pthreads. A kernel thread enters itself in the map when it begins,
in `tidmap_add_self`, and its entry stays until `kthread_join` has joined it, longer than the kernel
knows the id.

A pthread is named by a number that is never reused. Every use of the map is made under
`kthreads_lock`, so that what a function does under the lock is one step; `kthread_join` takes the lock twice.
The kernel gives a new pthread its id, and the variable `*ptid` is kept together with the `struct
trampoline_args` of the call of `kthread_create` that made the pthread.

## Main definitions

* `Registry`, `Registry.step`, `registryMachine`: the map, the kernel threads and their steps.
* `Registry.KernelOk`: what is assumed of the kernel and of the callers.
-/

namespace Uthread

/-- A `pthread_t`. The main kernel thread is `0`. -/
abbrev Pthread := ℕ

/-- `struct kthread_info` of `kthread.c`; `thread` is `none` as long as nothing has been stored. -/
structure KthreadInfo where
  tid : ℤ := 0
  thread : Option Pthread := none
  deriving DecidableEq, Repr

/-- `struct trampoline_args`, with what is stored through `ptid`. -/
structure TrampolineArgs where
  sem : ℕ := 0
  ptid : Option ℤ := none
  error : ℤ := 0
  deriving DecidableEq, Repr

/-- `EAGAIN`. -/
def eagain : ℤ := 11

/-- The points of `kthread_create`. -/
inductive KthreadCreatePc
  | test
  | addSelf
  | setInited
  | spawn
  | wait (thr : Pthread)
  deriving DecidableEq, Repr

/-- The points of `kthread_trampoline`. -/
inductive TrampolinePc
  | addSelf
  | added (entry : ℕ)
  | check (id : ℤ)
  | store (id : ℤ)
  | post (error : Bool)
  deriving DecidableEq, Repr

/-- The points of `kthread_join`. -/
inductive KthreadJoinPc
  | find
  | join (entry : ℕ) (thread : Option Pthread)
  | del (entry : ℕ) (thread : Pthread)
  deriving DecidableEq, Repr

/-- Where a kernel thread is. Outside of the functions of this file `ret` is what the latest call has
returned. -/
inductive KthreadPc
  | unborn
  | user (ret : Option ℤ)
  | create (x : KthreadCreatePc)
  | trampoline (x : TrampolinePc)
  | join (tid : ℤ) (x : KthreadJoinPc)
  | exited
  deriving DecidableEq, Repr

/-- The map with its kernel threads: `fresh` of them have been made. For each of them there are its point, its
kernel id, whether `pthread_join` has returned for it, and the arguments with which it was made. -/
structure Registry where
  kthreads : List KthreadInfo
  inited : Bool
  fresh : Pthread
  pc : Pthread → KthreadPc
  tid : Pthread → ℤ
  joined : Pthread → Bool
  args : Pthread → TrampolineArgs

/-- What a kernel thread does in one event: it calls a function, it exits, it makes the next step, or
`pthread_create` makes a kernel thread with the given id or fails with the given error. -/
inductive KthreadInput
  | create
  | join (tid : ℤ)
  | exit
  | run
  | made (id : ℤ)
  | failed (rv : ℤ)
  deriving DecidableEq, Repr

/-- An event of the map. -/
abbrev KthreadEvent := Pthread × KthreadInput

namespace Registry

variable (s : Registry) (p : Pthread)

/-- The map of a program whose main kernel thread has the kernel id `mainTid`. -/
def init (mainTid : ℤ) : Registry where
  kthreads := List.replicate maxKthreads {}
  inited := false
  fresh := 1
  pc q := if q = 0 then .user none else .unborn
  tid _ := mainTid
  joined _ := false
  args _ := {}

/-- The kernel ids in the map. -/
def ids : List ℤ := s.kthreads.map (·.tid)

/-- The kernel thread moves on to another point. -/
def goto (x : KthreadPc) : Registry := { s with pc := Function.update s.pc p x }

/-- The locked part of `tidmap_add_self`, executed by `p`: it goes on with `next i` when it has taken entry
`i`, and with `full` when no entry is free. -/
def addSelf (next : ℕ → KthreadPc) (full : KthreadPc) : Registry :=
  match tidmapFindTid s.ids 0 with
  | some i => { s with kthreads := s.kthreads.set i ⟨s.tid p, some p⟩ }.goto p (next i)
  | none => s.goto p full

/-- A step of `kthread_create`. -/
def stepCreate : KthreadCreatePc → Option Registry
  | .test => some (s.goto p (.create (if s.inited then .spawn else .addSelf)))
  | .addSelf => some (s.addSelf p (fun _ => .create .setInited) (.create .setInited))
  | .setInited => some ({ s with inited := true }.goto p (.create .spawn))
  | .spawn => none
  | .wait q =>
    if 0 < (s.args q).sem then
      some ({ s with
        args := Function.update s.args q { s.args q with sem := (s.args q).sem - 1 } }.goto p
          (.user (some (if (s.args q).error = 0 then 0 else -1))))
    else none

/-- A step of `kthread_trampoline`. In `added` the id is read back from the entry. -/
def stepTrampoline : TrampolinePc → Option Registry
  | .addSelf => some (s.addSelf p (fun i => .trampoline (.added i)) (.trampoline (.check (-1))))
  | .added i => s.kthreads[i]?.map fun x => s.goto p (.trampoline (.check x.tid))
  | .check id =>
    if id < 0 then
      some ({ s with args := Function.update s.args p { s.args p with error := eagain } }.goto p
        (.trampoline (.post true)))
    else some (s.goto p (.trampoline (.store id)))
  | .store id =>
    some ({ s with args := Function.update s.args p { s.args p with ptid := some id } }.goto p
      (.trampoline (.post false)))
  | .post error =>
    some ({ s with
      args := Function.update s.args p { s.args p with sem := (s.args p).sem + 1 } }.goto p
        (if error then .exited else .user none))

/-- A step of `kthread_join`. `pthread_join` returns when the pthread has exited. -/
def stepJoin (tid : ℤ) : KthreadJoinPc → Option Registry
  | .find =>
    match tidmapFindTid s.ids tid with
    | some i => s.kthreads[i]?.map fun x => s.goto p (.join tid (.join i x.thread))
    | none => some (s.goto p (.user (some (-1))))
  | .join i thread =>
    match thread with
    | some q =>
      if s.pc q = .exited then
        some ({ s with joined := Function.update s.joined q true }.goto p (.join tid (.del i q)))
      else none
    | none => none
  | .del i _ =>
    some ({ s with kthreads := s.kthreads.modify i fun x => { x with tid := 0 } }.goto p
      (.user (some 0)))

/-- The next step of a kernel thread. -/
def stepRun : Option Registry :=
  match s.pc p with
  | .create x => s.stepCreate p x
  | .trampoline x => s.stepTrampoline p x
  | .join tid x => s.stepJoin p tid x
  | .unborn | .user _ | .exited => none

/-- `pthread_create` makes a kernel thread with the kernel id `id`. -/
def spawn (id : ℤ) : Registry :=
  { s with
    fresh := s.fresh + 1
    tid := Function.update s.tid s.fresh id
    args := Function.update s.args s.fresh {}
    pc := Function.update (Function.update s.pc s.fresh (.trampoline .addSelf)) p
      (.create (.wait s.fresh)) }

/-- One event. -/
def step (e : KthreadEvent) : Option Registry :=
  match e.2 with
  | .run => s.stepRun e.1
  | .create =>
    match s.pc e.1 with
    | .user _ => some (s.goto e.1 (.create .test))
    | _ => none
  | .join tid =>
    match s.pc e.1 with
    | .user _ => some (s.goto e.1 (.join tid .find))
    | _ => none
  | .exit =>
    match s.pc e.1 with
    | .user _ => some (s.goto e.1 .exited)
    | _ => none
  | .made id => if s.pc e.1 = .create .spawn then some (s.spawn e.1 id) else none
  | .failed rv =>
    if s.pc e.1 = .create .spawn then some (s.goto e.1 (.user (some rv))) else none

/-- The pthread that is about to be joined. -/
def joins : Option Pthread :=
  match s.pc p with
  | .join _ (.join _ thread) => thread
  | _ => none

/-- What is assumed: a new kernel id is positive and not that of a kernel thread that is alive, an error is
positive, and a pthread is joined at most once. -/
def KernelOk : KthreadEvent → Prop
  | (_, .made id) => 0 < id ∧ ∀ q < s.fresh, s.pc q ≠ .exited → s.tid q ≠ id
  | (_, .failed rv) => 0 < rv
  | (p, .run) => ∀ q ∈ s.joins p, s.joined q = false
  | _ => True

/-- The kernel thread is about to enter itself in the map. -/
def Adds : Prop := s.pc p = .create .addSelf ∨ s.pc p = .trampoline .addSelf

/-- A kernel thread that takes an entry has no id that is in the map already: the kernel has not
reissued the id of a kernel thread that has exited and whose entry is not free yet. -/
def IdFresh : KthreadEvent → Prop
  | (p, .run) => s.Adds p → (tidmapFindTid s.ids 0).isSome → s.tid p ∉ s.ids
  | _ => True

instance (e : KthreadEvent) : Decidable (s.KernelOk e) :=
  match e with
  | (_, .made id) => inferInstanceAs (Decidable (0 < id ∧ ∀ q < s.fresh, s.pc q ≠ .exited → s.tid q ≠ id))
  | (_, .failed rv) => inferInstanceAs (Decidable (0 < rv))
  | (p, .run) =>
    match h : s.joins p with
    | some q => decidable_of_iff (s.joined q = false) (by simp [KernelOk, h])
    | none => isTrue (by simp [KernelOk, h])
  | (_, .create) | (_, .join _) | (_, .exit) => isTrue trivial

instance : Decidable (s.Adds p) := inferInstanceAs (Decidable (_ ∨ _))

instance (e : KthreadEvent) : Decidable (s.IdFresh e) :=
  match e with
  | (_, .run) => inferInstanceAs (Decidable (_ → _ → _))
  | (_, .create) | (_, .join _) | (_, .exit) | (_, .made _) | (_, .failed _) => isTrue trivial

/-- The ids of the map are those of the list in `tidmapAddSelf`. -/
theorem addSelf_ids (next : ℕ → KthreadPc) (full : KthreadPc) :
    (s.addSelf p next full).ids = (tidmapAddSelf s.ids (s.tid p)).getD s.ids := by
  unfold addSelf tidmapAddSelf
  cases tidmapFindTid s.ids 0 with
  | none => rfl
  | some i => simp [ids, goto, List.map_set]

end Registry

/-- The map, in a program whose main kernel thread has the kernel id `mainTid`. -/
def registryMachine (mainTid : ℤ) : EventMachine Registry KthreadEvent where
  init := .init mainTid
  step := Registry.step

end Uthread
