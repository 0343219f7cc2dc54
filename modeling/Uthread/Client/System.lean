import Uthread.Model.Machine

/-!
# Programs over the library

The machine of `Model.Machine` lets user code make any call at any time. Here the user threads follow a
program: each of them has a program point, at which it may make certain calls or take a step on the memory that
the threads share. A system is the library together with such a program. Any user code may be preempted
between two of its steps, as the kernel threads take their steps in any order.

The atomic machine is what the program is written for: the operations on semaphores take effect at once, a wait
when the counter is positive, and everything else that the library does is left out.

## Main definitions

* `Client`: a program.
* `SystemState`, `systemMachine`: the library with a program.
* `AtomicState`, `atomicMachine`: the program with atomic semaphores.
-/

namespace Uthread

/-- A program, with shared memory of type `σ` and program points of type `π`: the initial memory, where a
thread begins, where it goes on after a call that it may make, and its steps on the memory, which may depend
on an input. -/
structure Client (σ π : Type) where
  mem : σ
  start : Ptr → π
  call : π → Call → Option π
  exec : σ → π → ℤ → Option (σ × π)

variable {n : ℕ} {σ π : Type}

/-- The library, the shared memory and the program point of each thread; while a thread is inside a call, the
point is the one behind it. -/
structure SystemState (n : ℕ) (σ π : Type) where
  lib : State n
  mem : σ
  point : Ptr → π

/-- An event of the library, or a step on the memory by the user thread that kernel thread `k` executes. -/
inductive SystemEvent (n : ℕ)
  | lib (e : Event n)
  | user (k : Fin n) (x : ℤ)
  deriving DecidableEq, Repr

/-- The user thread that kernel thread `k` executes, when it is in user code. -/
def State.userThread (s : State n) (k : Fin n) : Option Ptr :=
  match (s.kt k).ctl with
  | .thread p (.user _) => some p
  | _ => none

namespace SystemState

variable (C : Client σ π) (cfg : Config) (a : SystemState n σ π)

/-- A call that the program makes. -/
def stepCall (k : Fin n) (c : Call) : Option (SystemState n σ π) := do
  let p ← a.lib.userThread k
  let q ← C.call (a.point p) c
  let s ← a.lib.step cfg (k, .call c)
  return { a with lib := s, point := Function.update a.point p q }

/-- A step of the program on the memory. -/
def stepUser (k : Fin n) (x : ℤ) : Option (SystemState n σ π) :=
  if a.lib.halt = none then do
    let p ← a.lib.userThread k
    let (m, q) ← C.exec a.mem (a.point p) x
    return { a with mem := m, point := Function.update a.point p q }
  else none

/-- One event. -/
def step : SystemEvent n → Option (SystemState n σ π)
  | .lib (k, .call c) => a.stepCall C cfg k c
  | .lib e => (a.lib.step cfg e).map fun s => { a with lib := s }
  | .user k x => a.stepUser C k x

end SystemState

/-- The library with `n` kernel threads and a program. -/
def systemMachine (n : ℕ) (cfg : Config) (C : Client σ π) :
    EventMachine (SystemState n σ π) (SystemEvent n) where
  init := ⟨.init n cfg, C.mem, C.start⟩
  step a e := a.step C cfg e

/-- A condition on the events of the library. -/
def SystemEvent.lift (P : State n → Event n → Prop) (a : SystemState n σ π) : SystemEvent n → Prop
  | .lib e => P a.lib e
  | .user _ _ => True

instance (P : State n → Event n → Prop) [∀ s e, Decidable (P s e)] (a : SystemState n σ π) (e : SystemEvent n) :
    Decidable (SystemEvent.lift P a e) :=
  match e with
  | .lib e => inferInstanceAs (Decidable (P a.lib e))
  | .user _ _ => inferInstanceAs (Decidable True)

theorem State.userThread_eq_some {s : State n} {k : Fin n} {p : Ptr} :
    s.userThread k = some p ↔ ∃ r, (s.kt k).ctl = .thread p (.user r) := by
  unfold State.userThread
  split <;> simp_all

/-- The steps of a system: the program makes a call, the library goes on, or the program takes a step on the
memory. -/
inductive SystemStep (C : Client σ π) (cfg : Config) (a : SystemState n σ π) :
    SystemEvent n → SystemState n σ π → Prop
  | call {k c p r q s} (hc : (a.lib.kt k).ctl = .thread p (.user r)) (hq : C.call (a.point p) c = some q)
      (hs : a.lib.step cfg (k, .call c) = some s) :
      SystemStep C cfg a (.lib (k, .call c)) { a with lib := s, point := Function.update a.point p q }
  | lib {e s} (he : ∀ c, e.2 ≠ .call c) (hs : a.lib.step cfg e = some s) :
      SystemStep C cfg a (.lib e) { a with lib := s }
  | user {k i p r m q} (hh : a.lib.halt = none) (hc : (a.lib.kt k).ctl = .thread p (.user r))
      (hq : C.exec a.mem (a.point p) i = some (m, q)) :
      SystemStep C cfg a (.user k i) { a with mem := m, point := Function.update a.point p q }

theorem SystemState.step_cases {C : Client σ π} {cfg : Config} {a a' : SystemState n σ π} {e : SystemEvent n}
    (hs : a.step C cfg e = some a') : SystemStep C cfg a e a' := by
  cases e with
  | lib e =>
    obtain ⟨k, j⟩ := e
    cases j with
    | call c =>
      simp only [SystemState.step, SystemState.stepCall, Option.bind_eq_bind, Option.pure_def,
        Option.bind_eq_some_iff, Option.some.injEq] at hs
      obtain ⟨p, hp, q, hq, s, hs, rfl⟩ := hs
      obtain ⟨r, hc⟩ := State.userThread_eq_some.mp hp
      exact .call hc hq hs
    | _ =>
      obtain ⟨s, hs', rfl⟩ := Option.map_eq_some_iff.mp hs
      exact .lib (by simp) hs'
  | user k i =>
    simp only [SystemState.step, SystemState.stepUser, Option.bind_eq_bind, Option.pure_def] at hs
    split_ifs at hs with hh
    simp only [Option.bind_eq_some_iff, Option.some.injEq] at hs
    obtain ⟨p, hp, ⟨m, q⟩, hq, rfl⟩ := hs
    obtain ⟨r, hc⟩ := State.userThread_eq_some.mp hp
    exact .user hh hc hq

/-! ### Atomic semaphores -/

/-- The semaphore that a call operates on, and what it does to its counter; it has to wait where this is not
defined. A semaphore that is not initialised has no counter. -/
def Op.effect : Op → Option (SemId × (Option ℤ → Option (Option ℤ)))
  | .semInit i v => some (i, fun _ => some (some v))
  | .semDestroy i => some (i, fun _ => some none)
  | .semPost i => some (i, fun o => o.map fun c => some (intIncr c))
  | .semWait i => some (i, fun o => o.bind fun c => if 0 < c then some (some (c - 1)) else none)
  | _ => none

/-- The effect of a call. -/
def Call.effect : Call → Option (SemId × (Option ℤ → Option (Option ℤ)))
  | .op o => o.effect
  | _ => none

/-- The counters of the semaphores, the shared memory and the program point of each thread. -/
structure AtomicState (σ π : Type) where
  counter : SemId → Option ℤ
  mem : σ
  point : Ptr → π

/-- Thread `p` makes a call or takes a step on the memory. -/
inductive AtomicEvent
  | call (p : Ptr) (c : Call)
  | user (p : Ptr) (x : ℤ)

/-- One event: a call takes effect at once. -/
def AtomicState.step (C : Client σ π) (a : AtomicState σ π) : AtomicEvent → Option (AtomicState σ π)
  | .call p c => do
    let q ← C.call (a.point p) c
    match c.effect with
    | none => return { a with point := Function.update a.point p q }
    | some (i, f) =>
      let o ← f (a.counter i)
      return { a with counter := Function.update a.counter i o, point := Function.update a.point p q }
  | .user p x => do
    let (m, q) ← C.exec a.mem (a.point p) x
    return { a with mem := m, point := Function.update a.point p q }

/-- The program with atomic semaphores. -/
def atomicMachine (C : Client σ π) : EventMachine (AtomicState σ π) AtomicEvent where
  init := ⟨fun _ => none, C.mem, C.start⟩
  step := AtomicState.step C

namespace AtomicState

variable {C : Client σ π} {a a' : AtomicState σ π} {p : Ptr}

theorem step_call {c : Call} (hs : a.step C (.call p c) = some a') : ∃ q, C.call (a.point p) c = some q ∧
    a'.mem = a.mem ∧ a'.point = Function.update a.point p q ∧
    ((c.effect = none ∧ a'.counter = a.counter) ∨
      ∃ i f o, c.effect = some (i, f) ∧ f (a.counter i) = some o ∧ a'.counter = Function.update a.counter i o) := by
  simp only [step, Option.bind_eq_bind, Option.bind_eq_some_iff, Option.pure_def] at hs
  obtain ⟨q, hq, hs⟩ := hs
  split at hs
  · next heff =>
    obtain rfl := Option.some.inj hs
    exact ⟨q, hq, rfl, rfl, .inl ⟨heff, rfl⟩⟩
  · next i f heff =>
    obtain ⟨o, ho, hs⟩ := Option.bind_eq_some_iff.mp hs
    obtain rfl := Option.some.inj hs
    exact ⟨q, hq, rfl, rfl, .inr ⟨i, f, o, heff, ho, rfl⟩⟩

theorem step_user {x : ℤ} (hs : a.step C (.user p x) = some a') : ∃ m q, C.exec a.mem (a.point p) x = some (m, q) ∧
    a' = { a with mem := m, point := Function.update a.point p q } := by
  simp only [step, Option.bind_eq_bind, Option.bind_eq_some_iff, Option.pure_def] at hs
  obtain ⟨⟨m, q⟩, hq, hs⟩ := hs
  exact ⟨m, q, hq, (Option.some.inj hs).symm⟩

/-- A wait takes effect when the counter is positive. -/
theorem step_wait {i : SemId} {v : ℕ} (hs : a.step C (.call p (.op (.semWait i))) = some a')
    (hv : a.counter i = some (v : ℤ)) :
    0 < v ∧ a'.counter = Function.update a.counter i (some ((v - 1 : ℕ) : ℤ)) := by
  obtain ⟨q, -, -, -, ⟨heff, -⟩ | ⟨j, f, o, heff, ho, hcounter⟩⟩ := step_call hs
  · cases heff
  · simp only [Call.effect, Op.effect, Option.some.injEq, Prod.mk.injEq] at heff
    obtain ⟨rfl, rfl⟩ := heff
    simp only [hv, Option.bind_some] at ho
    split_ifs at ho with hpos
    refine ⟨by omega, ?_⟩
    rw [hcounter, ← Option.some.inj ho]
    congr 2
    omega

/-- A semaphore that is not initialised, or is 0, lets nobody pass. -/
theorem not_wait {i : SemId} (hi : a.counter i = none ∨ a.counter i = some 0) :
    a.step C (.call p (.op (.semWait i))) = none := by
  rw [Option.eq_none_iff_forall_ne_some]
  intro a' hs
  obtain ⟨q, -, -, -, ⟨heff, -⟩ | ⟨j, f, o, heff, ho, -⟩⟩ := step_call hs
  · cases heff
  · simp only [Call.effect, Op.effect, Option.some.injEq, Prod.mk.injEq] at heff
    obtain ⟨rfl, rfl⟩ := heff
    rcases hi with hi | hi <;> simp [hi] at ho

/-- A post takes effect, without overflow below `INT_MAX`. -/
theorem step_post {i : SemId} {v : ℕ} (hs : a.step C (.call p (.op (.semPost i))) = some a')
    (hv : a.counter i = some (v : ℤ)) (hlt : v < 2 ^ 31 - 1) :
    a'.counter = Function.update a.counter i (some ((v + 1 : ℕ) : ℤ)) := by
  obtain ⟨q, -, -, -, ⟨heff, -⟩ | ⟨j, f, o, heff, ho, hcounter⟩⟩ := step_call hs
  · cases heff
  · simp only [Call.effect, Op.effect, Option.some.injEq, Prod.mk.injEq] at heff
    obtain ⟨rfl, rfl⟩ := heff
    simp only [hv, Option.map_some, Option.some.injEq] at ho
    rw [hcounter, ← ho, intIncr_eq (by omega) (by omega)]
    rfl

end AtomicState

end Uthread
