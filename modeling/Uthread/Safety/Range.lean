import Uthread.Safety.Accounting

/-!
# The range of a semaphore's counter

The counter of a semaphore is an `int`, and the assertions of `uthread_sem_wait` ask that it is not negative
and that it is positive before it is decremented. `uthread_sem_init` stores every value that it is given, and
`uthread_sem_post` increments every counter: neither looks at the value. So the counter stays in range exactly
in the runs in which the callers take care of it.

## Main definitions

* `SemUse`: a semaphore is not initialised or destroyed while it is in use.
* `KeepsRange`: what a step has to do with the counters.
* `CounterOk`: an initial value is not negative, and no counter is incremented beyond `INT_MAX`.

## Main results

* `sem_range_iff`.
-/

namespace Uthread

variable {n : ℕ} {cfg : Config} {s s' : State n} {e : Event n} {k : Fin n} {p : Ptr} {i : SemId}
  {h : List (State n × Event n)}

/-! ### The conditions -/

/-- A semaphore is not initialised or destroyed while it is in use. -/
def Pc.SemUse (s : State n) : Pc → Prop
  | .semInit i _ => ¬ s.SemBusy i
  | .semDestroy i => ¬ s.SemBusy i
  | _ => True

/-- The callers initialise and destroy no semaphore that is in use. Any initial value is allowed. -/
def SemUse (s : State n) : Event n → Prop
  | (k, .run _) => ∀ pc ∈ (s.kt k).ctl.pc?, pc.SemUse s
  | _ => True

/-- An initial value is not negative, and a counter is below `INT_MAX` when it is incremented. -/
def Pc.CounterOk (s : State n) : Pc → Prop
  | .semInit _ v => 0 ≤ v ∧ v ≤ 2 ^ 31 - 1
  | .post i .body => ∀ x ∈ s.sems i, x.counter < 2 ^ 31 - 1
  | _ => True

/-- The event does not take a counter out of its range. -/
def CounterOk (s : State n) : Event n → Prop
  | (k, .run _) => ∀ pc ∈ (s.kt k).ctl.pc?, pc.CounterOk s
  | _ => True

/-- All counters are in the range from `0` to `INT_MAX`. -/
def State.InRange (s : State n) : Prop := ∀ i x, s.sems i = some x → 0 ≤ x.counter ∧ x.counter ≤ 2 ^ 31 - 1

/-- The points of `uthread_sem_init` and `uthread_sem_post` from which every return is one of `0`. -/
def Pc.succeeds : Pc → Bool
  | .semRet => true
  | .post _ _ => true
  | _ => false

/-- What a step has to do with the counters: they are in range after it; it does not fail at one of the two
assertions of `uthread_sem_wait`; an increment does not overflow; and an initialisation or an increment that
would leave the range leaves the semaphore unchanged and does not go on to a return of `0`. -/
structure KeepsRange (s : State n) (e : Event n) (s' : State n) : Prop where
  range : s'.InRange
  asserts : ∀ f p i pc, e.2 = .run f → (s.kt e.1).ctl = .thread p (.wait i pc) → pc = .read ∨ pc = .dec →
    (s.sems i).isSome → s'.halt = none
  increment : ∀ f p i x, e.2 = .run f → (s.kt e.1).ctl = .thread p (.post i .body) → s.sems i = some x →
    intIncr x.counter = x.counter + 1
  init_refused : ∀ f p i v, e.2 = .run f → (s.kt e.1).ctl = .thread p (.semInit i v) →
    ¬ (0 ≤ v ∧ v ≤ 2 ^ 31 - 1) →
      s'.sems i = s.sems i ∧ ((s'.kt e.1).ctl.pc?.any Pc.succeeds) = false
  post_refused : ∀ f p i x, e.2 = .run f → (s.kt e.1).ctl = .thread p (.post i .body) → s.sems i = some x →
    x.counter = 2 ^ 31 - 1 → s'.sems i = s.sems i ∧ ((s'.kt e.1).ctl.pc?.any Pc.succeeds) = false

instance (s : State n) (pc : Pc) : Decidable (pc.SemUse s) :=
  match pc with
  | .semInit i _ => inferInstanceAs (Decidable (¬ s.SemBusy i))
  | .semDestroy i => inferInstanceAs (Decidable (¬ s.SemBusy i))
  | .init _ | .initRet | .user _ | .preempt _ | .yield _ _ | .swap _ _ | .tramp _ | .exit _ _
  | .join _ _ _ | .create _ _ | .post _ _ | .wait _ _ | .semRet | .teardown _ => isTrue trivial

instance (s : State n) (e : Event n) : Decidable (SemUse s e) :=
  match e with
  | (k, .run _) =>
    match h : (s.kt k).ctl.pc? with
    | some pc => decidable_of_iff (pc.SemUse s) (by simp [SemUse, h])
    | none => isTrue (by simp [SemUse, h])
  | (_, .call _) | (_, .tick) | (_, .deliver) => isTrue trivial

/-! ### One step -/

theorem semOk_of_counterOk (hu : SemUse s e) (hc : CounterOk s e) : SemOk s e := by
  obtain ⟨k, j⟩ := e
  cases j with
  | run f =>
    intro pc hpc
    have hu := hu pc hpc
    have hc := hc pc hpc
    cases pc with
    | semInit i v => exact ⟨hc.1, hu⟩
    | semDestroy i => exact hu
    | _ => trivial
  | _ => trivial

theorem CounterOk.semInit (hc : CounterOk s e) {f : Option AllocSite} {v : ℤ} (he : e.2 = .run f)
    (hctl : (s.kt e.1).ctl = .thread p (.semInit i v)) : 0 ≤ v ∧ v ≤ 2 ^ 31 - 1 := by
  obtain ⟨k, j⟩ := e
  obtain rfl : j = .run f := he
  simpa [CounterOk, hctl, Ctl.pc?, Pc.CounterOk] using hc

theorem CounterOk.post (hc : CounterOk s e) {f : Option AllocSite} {x : Sem} (he : e.2 = .run f)
    (hctl : (s.kt e.1).ctl = .thread p (.post i .body)) (hx : s.sems i = some x) : x.counter < 2 ^ 31 - 1 := by
  obtain ⟨k, j⟩ := e
  obtain rfl : j = .run f := he
  simpa [CounterOk, hctl, Ctl.pc?, Pc.CounterOk, hx] using hc

theorem State.InRange.trans (R : s.InRange) (hc : CounterOk s e) (ht : Trans cfg s e s') : s'.InRange := by
  intro i x' hx'
  have hcount : (s'.sems i).map (·.counter) = some x'.counter := by simp [hx']
  cases ht.counts i with
  | frame _ hs =>
    obtain ⟨x, hx, heq⟩ : ∃ x, s.sems i = some x ∧ x.counter = x'.counter := by simpa [hcount] using hs.symm
    exact heq ▸ R i x hx
  | init _ he hctl hs =>
    obtain rfl := Option.some.inj (hs.symm.trans hx')
    exact hc.semInit he hctl
  | destroy _ _ _ hs => simp [hs] at hx'
  | @inc p x f _ he hctl hx hs =>
    have hlt := hc.post he hctl hx
    obtain ⟨h0, -⟩ := R i x hx
    rw [hcount, intIncr_eq h0 hlt, Option.some.injEq] at hs
    omega
  | @dec p x f _ _ _ hx h0 hs =>
    obtain ⟨-, hle⟩ := R i x hx
    rw [hcount, Option.some.injEq] at hs
    omega

theorem State.InRange.step (R : s.InRange) (hc : CounterOk s e) (hs : s.step cfg e = some s') : s'.InRange := by
  obtain rfl | rfl | ht := State.step_cases hs
  · exact R
  · exact R
  · exact R.trans hc ht

/-- The callers have kept all counters in range. -/
theorem inRange_of_run (hr : (machine n cfg).Run (fun s e => SemUse s e ∧ CounterOk s e) h s) : s.InRange :=
  hr.invariant (by intro i x hx; cases hx) fun _ _ _ R hp hs => R.step hp.2 hs

/-- The assertions of `uthread_sem_wait` hold when the counter is in range and nobody destroys it. -/
theorem State.InRange.asserts (R : s.InRange) (hpass : ∀ k p x, (s.kt k).ctl = .thread p (.wait i .dec) →
      s.sems i = some x → x.counter ≠ 0)
    {f : Option AllocSite} {pc : WaitPc} (hs : s.step cfg e = some s') (he : e.2 = .run f)
    (hctl : (s.kt e.1).ctl = .thread p (.wait i pc)) (hpc : pc = .read ∨ pc = .dec) (hi : (s.sems i).isSome) :
    s'.halt = none := by
  have hhalt := State.halt_of_step hs
  obtain ⟨k, j⟩ := e
  obtain rfl : j = .run f := he
  obtain ⟨x, hx⟩ := Option.isSome_iff_exists.mp hi
  obtain ⟨h0, -⟩ := R i x hx
  rcases hpc with rfl | rfl
  · simp only [State.step, hhalt, if_true, State.stepRun, hctl, State.stepThread, State.stepWait, State.withSem,
      hx, h0] at hs
    exact Option.some.inj hs ▸ hhalt
  · have hpos : 0 < x.counter := by
      have := hpass k p x hctl hx
      omega
    simp only [State.step, hhalt, if_true, State.stepRun, hctl, State.stepThread, State.stepWait, State.withSem,
      hx, hpos] at hs
    exact Option.some.inj hs ▸ hhalt

/-- A step at which the callers take care of the counters keeps them in range. -/
theorem keepsRange_of_counterOk (hr : (machine n cfg).Run (fun s e => SemUse s e ∧ CounterOk s e) h s)
    (hc : CounterOk s e) (hs : s.step cfg e = some s') : KeepsRange s e s' where
  range := (inRange_of_run hr).step hc hs
  asserts f p i pc he hctl hpc hi :=
    (inRange_of_run hr).asserts
      (tallyInv_of_run (hr.mono fun _ _ hp => semOk_of_counterOk hp.1 hp.2) i).passes hs he hctl hpc hi
  increment f p i x he hctl hx := intIncr_eq (inRange_of_run hr i x hx).1 (hc.post he hctl hx)
  init_refused f p i v he hctl hv := absurd (hc.semInit he hctl) hv
  post_refused f p i x he hctl hx hmax := absurd (hc.post he hctl hx) (by omega)

/-- A step that keeps the counters in range is one at which the callers take care of them. -/
theorem KeepsRange.counterOk (hkeep : KeepsRange s e s') (hs : s.step cfg e = some s') : CounterOk s e := by
  have hhalt := State.halt_of_step hs
  obtain ⟨k, j⟩ := e
  cases j with
  | run f =>
    intro pc hpc
    obtain ⟨p, hctl⟩ : ∃ p, (s.kt k).ctl = .thread p pc := by
      cases hc : (s.kt k).ctl <;> simp_all [Ctl.pc?]
    simp only [State.step, hhalt, if_true, State.stepRun, hctl, State.stepThread] at hs
    cases pc with
    | semInit i v =>
      simp only [State.stepSemInit, Option.some.injEq] at hs
      exact hkeep.range i ⟨v, []⟩ (by simp [← hs, State.goto, State.setK, State.setSem])
    | post i pc =>
      cases pc with
      | body =>
        intro x hx
        have hincr := hkeep.increment f p i x rfl hctl hx
        simp only [State.stepPost, State.withSem, Option.mem_def.mp hx] at hs
        have hcounter : (s'.sems i).map (·.counter) = some (intIncr x.counter) := by
          split at hs <;> simp [← Option.some.inj hs, State.goto, State.setK, State.setSem]
        obtain ⟨x', hx', heq⟩ := Option.map_eq_some_iff.mp hcounter
        have := (hkeep.range i x' hx').2
        omega
      | _ => trivial
    | _ => trivial
  | _ => trivial

/-! ### The runs -/

/-- Over every run in which no semaphore is initialised or destroyed while it is in use: every step keeps the
counters in range exactly when no semaphore is initialised with a negative value and no counter is incremented
at `INT_MAX`. -/
theorem sem_range_iff (hr : (machine n cfg).Run SemUse h s) :
    (∀ s₁ e s₂, (s₁, e) ∈ h → s₁.step cfg e = some s₂ → KeepsRange s₁ e s₂) ↔
      ∀ x ∈ h, CounterOk x.1 x.2 := by
  induction hr with
  | init => simp
  | @step h s s' e hr hu hs ih =>
    have hs : s.step cfg e = some s' := hs
    constructor
    · intro hall x hx
      rcases List.mem_cons.mp hx with rfl | hx
      · exact (hall s e s' List.mem_cons_self hs).counterOk hs
      · exact ih.mp (fun s₁ e₁ s₂ hmem => hall s₁ e₁ s₂ (List.mem_cons_of_mem _ hmem)) x hx
    · intro hall s₁ e₁ s₂ hmem hs₁
      have hall' : ∀ x ∈ h, CounterOk x.1 x.2 := fun x hx => hall x (List.mem_cons_of_mem _ hx)
      rcases List.mem_cons.mp hmem with heq | hmem
      · obtain ⟨rfl, rfl⟩ := Prod.mk.inj heq
        exact keepsRange_of_counterOk (hr.of_forall_mem hall') (hall (s₁, e₁) List.mem_cons_self) hs₁
      · exact ih.mpr hall' s₁ e₁ s₂ hmem hs₁

/-- A semaphore is initialised with `1`. -/
theorem sem_range_iff_one : ∃ (h : List (State 1 × Event 1)) (s : State 1),
    (s.sems 0).map (·.counter) = some 1 ∧
      ((∀ s₁ e s₂, (s₁, e) ∈ h → s₁.step ⟨0⟩ e = some s₂ → KeepsRange s₁ e s₂) ↔
        ∀ x ∈ h, CounterOk x.1 x.2) := by
  obtain ⟨h, s, hr, hs⟩ := EventMachine.exists_run_of_exec (M := machine 1 ⟨0⟩) (P := SemUse)
    (runs 0 2 ++ [(0, .call (.op (.semInit 0 1)))] ++ runs 0 3)
    (p := fun x => (x.2.sems 0).map (·.counter) = some 1) (by decide +kernel)
  exact ⟨h, s, of_decide_eq_true hs, sem_range_iff hr⟩

/-- An initialisation with `-1` returns `0`, and the next wait fails at its assertion. A post at `INT_MAX`
returns `0`, and leaves the counter at the smallest `int`. -/
theorem sem_leaves_range :
    (∃ (h : List (State 1 × Event 1)) (s : State 1),
      (machine 1 ⟨0⟩).Run (fun s e => AllocOk e ∧ CallOk s e ∧ SemUse s e) h s ∧
        lastCall h mainTcb = some (.op (.semInit 0 (-1))) ∧
        (s.kt 0).ctl = .thread mainTcb (.user (.code 0)) ∧ (s.sems 0).map (·.counter) = some (-1)) ∧
    (∃ (h : List (State 1 × Event 1)) (s : State 1),
      (machine 1 ⟨0⟩).Run (fun s e => AllocOk e ∧ CallOk s e ∧ SemUse s e) h s ∧
        lastCall h mainTcb = some (.op (.semWait 0)) ∧ (s.sems 0).map (·.counter) = some (-1) ∧
        s.halt = some .abort) ∧
    ∃ (h : List (State 1 × Event 1)) (s : State 1),
      (machine 1 ⟨0⟩).Run (fun s e => AllocOk e ∧ CallOk s e ∧ SemUse s e) h s ∧
        lastCall h mainTcb = some (.op (.semPost 0)) ∧
        (s.kt 0).ctl = .thread mainTcb (.user (.code 0)) ∧ (s.sems 0).map (·.counter) = some (-2 ^ 31) := by
  refine ⟨?_, ?_, ?_⟩
  · obtain ⟨h, s, hr, hs⟩ := EventMachine.exists_run_of_exec (M := machine 1 ⟨0⟩)
      (P := fun s e => AllocOk e ∧ CallOk s e ∧ SemUse s e)
      (runs 0 2 ++ [(0, .call (.op (.semInit 0 (-1))))] ++ runs 0 3)
      (p := fun x => lastCall x.1 mainTcb = some (.op (.semInit 0 (-1))) ∧
        (x.2.kt 0).ctl = .thread mainTcb (.user (.code 0)) ∧ (x.2.sems 0).map (·.counter) = some (-1))
      (by decide +kernel)
    exact ⟨h, s, hr, of_decide_eq_true hs⟩
  · obtain ⟨h, s, hr, hs⟩ := EventMachine.exists_run_of_exec (M := machine 1 ⟨0⟩)
      (P := fun s e => AllocOk e ∧ CallOk s e ∧ SemUse s e)
      (runs 0 2 ++ [(0, .call (.op (.semInit 0 (-1))))] ++ runs 0 3 ++
        [(0, .call (.op (.semWait 0)))] ++ runs 0 3)
      (p := fun x => lastCall x.1 mainTcb = some (.op (.semWait 0)) ∧
        (x.2.sems 0).map (·.counter) = some (-1) ∧ x.2.halt = some .abort) (by decide +kernel)
    exact ⟨h, s, hr, of_decide_eq_true hs⟩
  · obtain ⟨h, s, hr, hs⟩ := EventMachine.exists_run_of_exec (M := machine 1 ⟨0⟩)
      (P := fun s e => AllocOk e ∧ CallOk s e ∧ SemUse s e)
      (runs 0 2 ++ [(0, .call (.op (.semInit 0 (2 ^ 31 - 1))))] ++ runs 0 3 ++
        [(0, .call (.op (.semPost 0)))] ++ runs 0 5)
      (p := fun x => lastCall x.1 mainTcb = some (.op (.semPost 0)) ∧
        (x.2.kt 0).ctl = .thread mainTcb (.user (.code 0)) ∧
        (x.2.sems 0).map (·.counter) = some (-2 ^ 31)) (by decide +kernel)
    exact ⟨h, s, hr, of_decide_eq_true hs⟩

end Uthread
