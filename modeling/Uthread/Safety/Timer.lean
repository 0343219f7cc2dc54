import Uthread.Safety.Lookup

/-!
# The preemption timer

Each kernel thread programs a timer of its own: the main one at the end of `uthread_init`, the others in
`kthread_main`. The parameter of `uthread_init` is documented in microseconds, and `set_timer_interrupt` writes
it into the field for nanoseconds.

## Main definitions

* `setTimerInterrupt`, `Life.setsTimer`: the function, and the kernel thread that executes it.
* `TimerAtQuantum`: a timer runs at the requested quantum.

## Main results

* `setTimerInterrupt_of_reachable`: what is programmed.
* `timer_never_at_quantum`.
-/

namespace Uthread

variable {n : ℕ} {cfg : Config} {kid : Fin n → ℤ} {L : Life n} {e : Event n} {k : Fin n}

/-- `struct timespec`. -/
structure Timespec where
  sec : ℤ
  nsec : ℤ
  deriving DecidableEq, Repr

/-- `struct itimerspec`. -/
structure Itimerspec where
  interval : Timespec
  value : Timespec
  deriving DecidableEq, Repr

namespace Timespec

variable (t : Timespec)

/-- What `timer_settime` asks of a time. -/
def Valid : Prop := 0 ≤ t.sec ∧ 0 ≤ t.nsec ∧ t.nsec < 10 ^ 9

instance : Decidable t.Valid := inferInstanceAs (Decidable (_ ∧ _ ∧ _))

/-- The time in nanoseconds. -/
def nanoseconds : ℤ := t.sec * 10 ^ 9 + t.nsec

end Timespec

/-- The `itimerspec` of `set_timer_interrupt`. -/
def timerSpec (quantum : ℤ) : Itimerspec :=
  let value : Timespec := ⟨0, quantum⟩
  { value, interval := ⟨value.sec, value.nsec⟩ }

/-- `set_timer_interrupt`, when the signal and the timer can be set up: whose timer is started, and how. A time
that is not valid is rejected by `timer_settime`, and the function aborts. -/
def setTimerInterrupt (info : Fin n → Option KInfo) (kid : ℤ) (quantum : ℤ) :
    Except Halt (Fin n × Itimerspec) := do
  let kinfo ← getKthreadInfo info kid
  let its := timerSpec quantum
  if its.value.Valid ∧ its.interval.Valid then return (kinfo, its)
  else .error .abort

/-- The kernel thread that executes `set_timer_interrupt` in an event. -/
def Life.setsTimer (cfg : Config) : Life n → Event n → Option (Fin n)
  | .live _ _ s, (k, .run _) =>
    if cfg.quantum = 0 then none
    else
      match (s.kt k).ctl with
      | .thread _ .initRet | .kmainStart => some k
      | _ => none
  | _, _ => none

/-- A call of `set_timer_interrupt` starts a timer whose first expiration and whose interval are the quantum, given
in microseconds. -/
def TimerAtQuantum (r : Except Halt (Fin n × Itimerspec)) (quantum_us : ℤ) : Prop :=
  ∃ k its, r = .ok (k, its) ∧ its.value.Valid ∧ its.interval.Valid ∧
    its.value.nanoseconds = 1000 * quantum_us ∧ its.interval.nanoseconds = 1000 * quantum_us

theorem setTimerInterrupt_eq {info : Fin n → Option KInfo} {id quantum : ℤ} (hk : getKthreadInfo info id = .ok k)
    (h0 : 0 ≤ quantum) : setTimerInterrupt info id quantum =
      if quantum < 10 ^ 9 then .ok (k, ⟨⟨0, quantum⟩, ⟨0, quantum⟩⟩) else .error .abort := by
  have hvalid : (timerSpec quantum).value.Valid ∧ (timerSpec quantum).interval.Valid ↔ quantum < 10 ^ 9 :=
    ⟨fun h => h.1.2.2, fun hlt => ⟨⟨le_rfl, h0, hlt⟩, le_rfl, h0, hlt⟩⟩
  simp only [setTimerInterrupt, hk, hvalid, bind, Except.bind, pure, Except.pure]
  rfl

/-- Every kernel thread starts its own timer, with a time of as many nanoseconds as microseconds were requested;
from a thousand seconds on the library aborts. -/
theorem setTimerInterrupt_of_reachable (hinj : Function.Injective kid) (hpos : ∀ k, 0 < kid k)
    (hq : 0 ≤ cfg.quantum) (hr : (lifeMachine n cfg kid).Reachable Life.Ok L) (he : L.setsTimer cfg e = some k) :
    setTimerInterrupt L.info (kid k) cfg.quantum =
      if cfg.quantum < 10 ^ 9 then .ok (k, ⟨⟨0, cfg.quantum⟩, ⟨0, cfg.quantum⟩⟩) else .error .abort := by
  refine setTimerInterrupt_eq ?_ hq
  have hL := lifeInv_of_reachable hpos hr
  cases L with
  | boot b => simp [Life.setsTimer] at he
  | live info kthreads s =>
    obtain ⟨rfl, -, h, hrun⟩ := hL
    -- a kernel thread that sets its timer has not exited
    have hf : s.infoFreed = false := by
      by_contra hfreed
      obtain ⟨j, i⟩ := e
      cases i with
      | run f =>
        simp only [Life.setsTimer] at he
        split_ifs at he
        have hend := (freedInv_of_run hrun).freed (by simpa using hfreed) j
        split at he
        · next hc => simp [hc] at hend
        · next hc => simp [hc] at hend
        · cases he
      | _ => simp [Life.setsTimer] at he
    have hinfo : (Life.live (bootInfo kid n) kthreads s).info = bootInfo kid n := by simp [Life.info, hf]
    rw [hinfo]
    exact getKthreadInfo_eq hinj fun i => by simp [bootInfo, i.isLt]

/-- For every quantum, and whichever kernel thread calls `set_timer_interrupt` and whatever the table of kernel
threads contains, the timer that is started does not run at the requested quantum. -/
theorem timer_never_at_quantum (info : Fin n → Option KInfo) (id : ℤ) {quantum_us : ℤ} (hq : 0 < quantum_us) :
    ¬ TimerAtQuantum (setTimerInterrupt info id quantum_us) quantum_us := by
  rintro ⟨k, its, hr, -, -, hvalue, -⟩
  cases hk : getKthreadInfo info id with
  | error h => simp [setTimerInterrupt, hk, bind, Except.bind] at hr
  | ok j =>
    rw [setTimerInterrupt_eq hk hq.le] at hr
    split_ifs at hr
    obtain ⟨-, rfl⟩ := Prod.mk.inj (Except.ok.inj hr)
    simp only [Timespec.nanoseconds] at hvalue
    omega

/-- One kernel thread, and a quantum of one millisecond. -/
theorem timer_never_at_quantum_millisecond :
    setTimerInterrupt (fun _ : Fin 1 => some ⟨101, true⟩) 101 1000 = .ok (0, ⟨⟨0, 1000⟩, ⟨0, 1000⟩⟩) ∧
      ¬ TimerAtQuantum (setTimerInterrupt (fun _ : Fin 1 => some ⟨101, true⟩) 101 1000) 1000 :=
  ⟨rfl, timer_never_at_quantum _ _ (by decide)⟩

/-- For a quantum of one microsecond the timer expires every nanosecond. -/
theorem timer_fails_at_one : ¬ ∀ quantum_us : ℤ, 0 < quantum_us →
    TimerAtQuantum (setTimerInterrupt (fun _ : Fin 1 => some ⟨101, true⟩) 101 quantum_us) quantum_us := by
  intro hall
  obtain ⟨k, its, hr, -, -, hvalue, -⟩ := hall 1 (by decide)
  have hone : setTimerInterrupt (fun _ : Fin 1 => some ⟨101, true⟩) 101 1 = .ok (0, ⟨⟨0, 1⟩, ⟨0, 1⟩⟩) := rfl
  obtain ⟨-, rfl⟩ := Prod.mk.inj (Except.ok.inj (hone.symm.trans hr))
  exact absurd hvalue (by decide)

end Uthread
