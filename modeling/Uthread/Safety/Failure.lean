import Uthread.Invariant.Reachable

/-!
# Creations that fail

When an allocation fails in `uthread_create`, the function leaves by the label `end`: the identifier stays
taken and `tcbs_lock` stays locked, by a kernel thread that goes on in user code. The mutex is not
recursive and no other kernel thread unlocks it, so it stays locked for the rest of the run.

## Main definitions

* `State.createFails`: the creation that fails in an event.
* `NoTrace`: what would have to hold for the call to have left no trace.

## Main results

* `failed_create_leaves_trace`.
-/

namespace Uthread

variable {n : ℕ} {cfg : Config} {s s' : State n} {e : Event n} {k : Fin n} {t : Tid}
  {h : List (State n × Event n)} {P : State n → Event n → Prop}

/-- The creation whose allocation fails in an event: its kernel thread and the identifier it has taken. -/
def State.createFails (s : State n) : Event n → Option (Fin n × Tid)
  | (k, .run (some .tcb)) =>
    match (s.kt k).ctl with
    | .thread _ (.create _ (.body t)) => some (k, t)
    | _ => none
  | (k, .run (some .stack)) =>
    match (s.kt k).ctl with
    | .thread _ (.create false (.body t)) => some (k, t)
    | _ => none
  | _ => none

/-- The creation on kernel thread `k` that took the identifier `t`, called in state `s₀`, has left no trace in
state `s`. -/
structure NoTrace (s₀ s : State n) (k : Fin n) (t : Tid) : Prop where
  bit : bitvecGet s.bitvec t = 0
  entry : s.tcbs t = none
  queue : s.rqueue = s₀.rqueue
  lock : s.owner .tcbs ≠ some k

/-! ### The mutex before the failure -/

/-- As long as no creation fails, `tcbs_lock` is owned by the kernel thread whose control point holds it. -/
theorem LockInv.of_not_createFails (hL : LockInv s .tcbs) (htask : ∀ k, (s.kt k).TaskOk)
    (hs : s.step cfg e = some s') (ht : Trans cfg s e s') (hf : s.createFails e = none) :
    LockInv s' .tcbs := by
  by_cases hb : ∃ p sb t, (s.kt e.1).ctl = .thread p (.create sb (.body t))
  · obtain ⟨p, sb, t, hc⟩ := hb
    obtain ⟨k, i⟩ := e
    cases i with
    | run f =>
      -- the control block is installed, whatever allocation is said to fail
      have ht' : Trans cfg s (k, .run none) s' := by
        simp only [State.step, State.stepRun, hc, State.stepThread, State.stepCreate] at hs
        split_ifs at hs with _ htcb hstack
        · simp [State.createFails, htcb, hc] at hf
        · obtain ⟨rfl, rfl⟩ := hstack
          simp [State.createFails, hc] at hf
        · exact Option.some.inj hs ▸ .createBody hc
      exact ht'.lockInv htask (fun _ => .inl rfl) (by simp) hL
    | _ => exact ht.lockInv htask (fun _ => .inl trivial) (by simp) hL
  · exact ht.lockInv htask (fun _ => .inr fun p sb t hc => hb ⟨p, sb, t, hc⟩) (by simp) hL

/-- What a creation does whose allocation fails. -/
theorem State.step_of_createFails (hf : s.createFails e = some (k, t)) (hs : s.step cfg e = some s') :
    ∃ p sb, (s.kt k).ctl = .thread p (.create sb (.body t)) ∧
      (s'.kt k).ctl = .thread p (.create sb (.ret t 1)) ∧ (∀ k' ≠ k, s'.kt k' = s.kt k') ∧
      s'.owner = s.owner ∧ s'.rqueue = s.rqueue ∧ s'.bitvec = s.bitvec := by
  unfold State.createFails at hf
  split at hf
  · next k₀ =>
    split at hf
    · next p sb t₀ hc =>
      obtain ⟨rfl, rfl⟩ : k₀ = k ∧ t₀ = t := by simpa using hf
      simp only [State.step, State.stepRun, hc, State.stepThread, State.stepCreate, if_true] at hs
      split_ifs at hs
      obtain rfl := Option.some.inj hs
      exact ⟨p, sb, hc, by simp [State.goto], fun k' hk => by simp [State.goto, State.setK, hk], rfl, rfl, rfl⟩
    · cases hf
  · next k₀ =>
    split at hf
    · next p t₀ hc =>
      obtain ⟨rfl, rfl⟩ : k₀ = k ∧ t₀ = t := by simpa using hf
      simp only [State.step, State.stepRun, hc, State.stepThread, State.stepCreate] at hs
      split_ifs at hs with h₁ h₂ h₃
      · simp at h₂
      · obtain rfl := Option.some.inj hs
        exact ⟨p, false, hc, by simp [State.goto], fun k' hk => by simp [State.goto, State.setK, hk], rfl, rfl, rfl⟩
      · simp at h₃
    · cases hf
  · cases hf

/-! ### The mutex after the failure -/

/-- Kernel thread `k` owns `tcbs_lock` and no kernel thread is going to unlock it. -/
structure State.Stuck (s : State n) (k : Fin n) : Prop where
  owner : s.owner .tcbs = some k
  held : ∀ k', Lock.tcbs ∉ (s.kt k').held

/-- A step does not come to hold `tcbs_lock` when that is locked. -/
theorem Trans.stuck (h : Trans cfg s e s') (htask : ∀ k, (s.kt k).TaskOk) (S : s.Stuck k) : s'.Stuck k := by
  have hkeep (ho : s'.owner .tcbs = s.owner .tcbs) (hh : Lock.tcbs ∉ (s'.kt e.1).held) : s'.Stuck k := by
    refine ⟨ho.trans S.owner, fun k' => ?_⟩
    by_cases hk : k' = e.1
    · exact hk ▸ hh
    · rw [h.kt_of_ne hk]
      exact S.held k'
  have hte := htask e.1
  have hne := S.held e.1
  cases h with
  | @call k c p r hc =>
    refine hkeep rfl ?_
    cases c with
    | op o => cases o <;> simp [Call.enter, State.setK, KThread.held, KThread.block, Pc.held]
    | _ => simp [Call.enter, State.setK, KThread.held, KThread.block, Pc.held]
  | tick => exact hkeep rfl (by simpa [State.setK, KThread.held] using hne)
  | deliver => exact hkeep rfl (by simpa [State.setK, KThread.held] using hne)
  | @acquire k₀ f L c h hfree =>
    have hL : Lock.tcbs ≠ L := by
      rintro rfl
      simp [S.owner] at hfree
    refine hkeep (by simp [State.goto, State.setK, hL]) ?_
    simpa [State.goto, State.setK, h.held_iff, hL] using hne
  | @release k₀ f L c h =>
    have hL : Lock.tcbs ≠ L := fun hL => hne (hL ▸ h.mem_held)
    refine hkeep (by simp [State.goto, State.setK, hL]) ?_
    simpa [State.goto, State.setK, h.held_iff, hL] using hne
  | quiet h => exact hkeep rfl (by simpa [State.setK, h.held_iff hte] using hne)
  | signal h =>
    refine hkeep (by cases h <;> rfl) ?_
    cases h <;> rename_i hc <;>
      simp_all [State.goto, State.setK, KThread.held, Pc.held, EnqPc.held]
  | insert h =>
    generalize hc : (s.kt _).ctl = c at h
    refine hkeep rfl ?_
    cases h <;> simp_all [State.goto, State.setK, KThread.held, Pc.held, EnqPc.held]
  | @swap k₀ f p c x r hc hx =>
    refine hkeep rfl ?_
    cases r <;> simp_all [KThread.held, KThread.TaskOk, Pc.held, Pc.task]
  | entry hc hcur h =>
    refine hkeep rfl ?_
    generalize hta : (s.kt _).task = ta at h
    cases h <;> simp_all [KThread.held]
  | parkJoin h hq hx =>
    generalize hc : (s.kt _).ctl = c at h
    refine hkeep rfl ?_
    cases h <;> simp_all [KThread.held]
  | parkSem h hq hx =>
    generalize hc : (s.kt _).ctl = c at h
    refine hkeep rfl ?_
    cases h <;> simp_all [KThread.held]
  | dispSet hc hx hctx => exact hkeep rfl (by simp [State.setK, KThread.held, Resume.pc_held])
  | semInit hc =>
    refine hkeep (by simp [State.goto, State.setK, State.setSem]) ?_
    simp [State.goto, State.setK, State.setSem, KThread.held, Pc.held]
  | _ =>
    refine hkeep rfl ?_
    simp_all [State.goto, State.setK, State.setTcb, State.setSem, KThread.held, KThread.TaskOk,
      KThread.block, Pc.held, Pc.task]

/-- What holds of `tcbs_lock` before and after the first creation that fails. -/
structure FailInv (h : List (State n × Event n)) (s : State n) : Prop where
  task : ∀ k, (s.kt k).TaskOk
  before : (∀ x ∈ h, x.1.createFails x.2 = none) → LockInv s .tcbs
  after : ∀ x ∈ h, ∀ k t, x.1.createFails x.2 = some (k, t) → s.Stuck k

/-- No creation fails once one has failed: it would have to lock `tcbs_lock` first. -/
theorem State.Stuck.createFails (S : s.Stuck k) (hs : s.step cfg e = some s') : s.createFails e = none := by
  rw [Option.eq_none_iff_forall_ne_some]
  rintro ⟨k', t⟩ hf
  obtain ⟨p, sb, hc, -⟩ := State.step_of_createFails hf hs
  exact S.held k' (by simp [KThread.held, hc, Pc.held])

/-- The first creation that fails leaves `tcbs_lock` locked. -/
theorem LockInv.stuck (hL : LockInv s .tcbs) (hf : s.createFails e = some (k, t))
    (hs : s.step cfg e = some s') : s'.Stuck k := by
  obtain ⟨p, sb, hc, hc', hkt, ho, -⟩ := State.step_of_createFails hf hs
  have hheld : Lock.tcbs ∈ (s.kt k).held := by simp [KThread.held, hc, Pc.held]
  refine ⟨ho ▸ (hL k).2 hheld, fun k' => ?_⟩
  by_cases hk : k' = k
  · simp [hk, KThread.held, hc', Pc.held]
  · rw [hkt k' hk]
    exact fun hm => hk (hL.unique hm hheld)

theorem failInv_of_run (hr : (machine n cfg).Run P h s) : FailInv h s := by
  refine hr.history_invariant (I := FailInv) ?_ ?_
  · exact ⟨State.init_taskOk, fun _ => State.init_lockInv _, by simp⟩
  · intro h s e s' _ F _ hs
    have hs : s.step cfg e = some s' := hs
    have htask : ∀ k, (s'.kt k).TaskOk := by
      obtain rfl | rfl | ht := State.step_cases hs
      · exact F.task
      · exact F.task
      · intro k
        by_cases hk : k = e.1
        · exact hk ▸ ht.taskOk (F.task e.1)
        · exact ht.kt_of_ne hk ▸ F.task k
    cases hf : s.createFails e with
    | some a =>
      -- this is the first creation that fails
      obtain ⟨k, t⟩ := a
      have hnone (x : State n × Event n) (hx : x ∈ h) : x.1.createFails x.2 = none := by
        by_contra hne
        obtain ⟨⟨k', t'⟩, hx'⟩ := Option.ne_none_iff_exists'.mp hne
        simp [(F.after x hx k' t' hx').createFails hs] at hf
      refine ⟨htask, fun hall => ?_, fun x hx k' t' hx' => ?_⟩
      · simp [hall (s, e) List.mem_cons_self] at hf
      · rcases List.mem_cons.mp hx with rfl | hx
        · obtain ⟨rfl, rfl⟩ : k = k' ∧ t = t' := by simpa [hf] using hx'
          exact (F.before hnone).stuck hf hs
        · simp [hnone x hx] at hx'
    | none =>
      refine ⟨htask, fun hall => ?_, fun x hx k t hx' => ?_⟩
      · have hL := F.before fun x hx => hall x (List.mem_cons_of_mem _ hx)
        obtain rfl | rfl | ht := State.step_cases hs
        · exact hL
        · exact hL
        · exact hL.of_not_createFails F.task hs ht hf
      · rcases List.mem_cons.mp hx with rfl | hx
        · simp [hf] at hx'
        · have S := F.after x hx k t hx'
          obtain rfl | rfl | ht := State.step_cases hs
          · exact ⟨S.owner, S.held⟩
          · exact ⟨S.owner, S.held⟩
          · exact ht.stuck F.task S

/-- **A failed creation leaves its trace.** In every run, whatever its events are, a creation whose
allocation fails returns a nonzero value and leaves `tcbs_lock` locked, by its kernel thread and for the
rest of the run. So none leaves the library as it was before the call. -/
theorem failed_create_leaves_trace (hr : (machine n cfg).Run P h s) :
    (∀ e s' k t, s.createFails e = some (k, t) → s.step cfg e = some s' → ∃ p sb,
      (s'.kt k).ctl = .thread p (.create sb (.ret t 1)) ∧ s'.rqueue = s.rqueue ∧ s'.bitvec = s.bitvec) ∧
    ∀ x ∈ h, ∀ k t, x.1.createFails x.2 = some (k, t) →
      s.owner .tcbs = some k ∧ ∀ s₀, ¬ NoTrace s₀ s k t := by
  constructor
  · intro e s' k t hf hs
    obtain ⟨p, sb, -, hc', -, -, hq, hb⟩ := State.step_of_createFails hf hs
    exact ⟨p, sb, hc', hq, hb⟩
  · intro x hx k t hf
    have S := (failInv_of_run hr).after x hx k t hf
    exact ⟨S.owner, fun s₀ N => N.lock S.owner⟩

/-- The documented preconditions, in runs in which allocations may fail. -/
def Unreliable (s : State n) (e : Event n) : Prop :=
  CallOk s e ∧ SemOk s e ∧ TidsLeft s e ∧ NoReissue s e

instance (s : State n) (e : Event n) : Decidable (Unreliable s e) :=
  inferInstanceAs (Decidable (_ ∧ _ ∧ _ ∧ _))

/-- The main thread creates a thread, and the allocation of the control block fails. -/
def failedRun : List (Event 1) :=
  runs 0 2 ++ [(0, .call (.op (.create false)))] ++ runs 0 5 ++ [(0, .run (some .tcb))]

/-- The creation is about to return `1`; the identifier `1` stays taken. -/
theorem failed_create_leaves_trace_main : ∃ s : State 1,
    (s.kt 0).ctl = .thread mainTcb (.create false (.ret 1 1)) ∧ bitvecGet s.bitvec 1 ≠ 0 ∧
      s.owner .tcbs = some 0 := by
  obtain ⟨h, s, hr, hs⟩ := EventMachine.exists_run_of_exec
    (M := machine 1 ⟨0⟩) (P := Unreliable) failedRun
    (p := fun x => (x.2.kt 0).ctl = .thread mainTcb (.create false (.ret 1 1)) ∧
      bitvecGet x.2.bitvec 1 ≠ 0 ∧ ∃ y ∈ x.1, y.1.createFails y.2 = some (0, 1)) (by decide +kernel)
  obtain ⟨hc, hb, y, hy, hf⟩ := of_decide_eq_true hs
  exact ⟨s, hc, hb, ((failed_create_leaves_trace hr).2 y hy 0 1 hf).1⟩

/-- The trace is there when the creation returns. -/
theorem failed_create_has_trace : ¬ ∀ (n : ℕ) (cfg : Config) (h : List (State n × Event n)) (s : State n)
    (x : State n × Event n) (k : Fin n) (p : Ptr) (sb : Bool) (t : Tid), (machine n cfg).Run Unreliable h s →
    x ∈ h → x.1.createFails x.2 = some (k, t) → (s.kt k).ctl = .thread p (.create sb (.ret t 1)) →
      ∃ s₀, NoTrace s₀ s k t := by
  intro hall
  obtain ⟨h, s, hr, hs⟩ := EventMachine.exists_run_of_exec
    (M := machine 1 ⟨0⟩) (P := Unreliable) failedRun
    (p := fun x => (x.2.kt 0).ctl = .thread mainTcb (.create false (.ret 1 1)) ∧
      bitvecGet x.2.bitvec 1 ≠ 0 ∧ ∃ y ∈ x.1, y.1.createFails y.2 = some (0, 1)) (by decide +kernel)
  obtain ⟨hc, hb, y, hy, hf⟩ := of_decide_eq_true hs
  obtain ⟨s₀, N⟩ := hall 1 ⟨0⟩ h s y 0 mainTcb false 1 hr hy hf hc
  exact hb N.bit

end Uthread
