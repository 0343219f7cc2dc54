import Uthread.Model.Transition
import Uthread.Invariant.Roles

/-!
# Tasks and mutexes

The two invariants that need nothing else. A kernel thread's `sched_info` is determined by its
control point (`KThread.TaskOk`), and a mutex is owned by exactly the kernel thread whose control
point says so (`LockInv`). Both hold in every run in which no allocation fails; for the mutex of a
semaphore, in every run in which semaphores are not initialised while in use.
-/

namespace Uthread

variable {n : ℕ} {cfg : Config} {s s' : State n} {e : Event n} {k : Fin n}

/-- A step changes the record of the kernel thread that takes it, and no other. -/
theorem Trans.kt_eq (h : Trans cfg s e s') : s'.kt = Function.update s.kt e.1 (s'.kt e.1) := by
  cases h with
  | signal h => cases h <;> simp [State.goto, State.setK]
  | _ => simp [State.goto, State.setK, State.setTcb, State.setSem]

theorem Trans.kt_of_ne (h : Trans cfg s e s') (hk : k ≠ e.1) : s'.kt k = s.kt k := by
  rw [h.kt_eq, Function.update_of_ne hk]

theorem Trans.halt_eq (h : Trans cfg s e s') : s'.halt = s.halt := by
  cases h with
  | signal h => cases h <;> rfl
  | _ => rfl

/-! ### Tasks -/

theorem Op.start_task (o : Op) : o.start.task = some (.none, none) := by cases o <;> rfl

theorem Resume.pc_task (r : Resume) : r.pc.task = some (.none, none) := by
  cases r with
  | yielded o => cases o <;> first | rfl | exact Op.start_task _
  | _ => rfl

/-- The task is recorded, kept and reset along the control points of one kernel thread. -/
theorem Trans.taskOk (h : Trans cfg s e s') (ht : (s.kt e.1).TaskOk) : (s'.kt e.1).TaskOk := by
  cases h with
  | @call k c p r hc =>
    simp only [KThread.TaskOk, hc, Pc.task, Option.some.injEq, Prod.mk.injEq] at ht
    cases c with
    | op o => cases o <;> simp [Call.enter, KThread.TaskOk, KThread.block, State.setK, Pc.task, ht]
    | _ => simp [Call.enter, KThread.TaskOk, KThread.block, State.setK, Pc.task, ht]
  | tick => simpa [State.setK, KThread.TaskOk] using ht
  | deliver => simpa [State.setK, KThread.TaskOk] using ht
  | acquire h =>
    generalize hc : (s.kt _).ctl = c at h
    cases h <;> simp_all [State.goto, State.setK, KThread.TaskOk, Pc.task]
  | release h =>
    cases h <;> rename_i hc <;>
      simp_all [State.goto, State.setK, KThread.TaskOk, Pc.task]
  | quiet h =>
    cases h with
    | start hc =>
      simp only [KThread.TaskOk, hc, Pc.task, Option.some.injEq, Prod.mk.injEq] at ht
      simp [State.setK, KThread.TaskOk, Op.start_task, ht]
    | _ => simp_all [State.setK, KThread.TaskOk, KThread.block, KThread.unblock, Pc.task]
  | signal h =>
    cases h <;> rename_i hc <;>
      simp_all [State.goto, State.setK, KThread.TaskOk, Pc.task]
  | insert h =>
    generalize hc : (s.kt _).ctl = c at h
    cases h <;> simp_all [State.goto, State.setK, KThread.TaskOk, Pc.task]
  | @swap k f p c x r hc hx =>
    cases r <;> simp_all [State.setK, KThread.TaskOk, Pc.task]
  | entry hc hcur h =>
    generalize hta : (s.kt _).task = ta at h
    cases h <;> simp_all [State.setK, KThread.TaskOk, KThread.block]
  | parkJoin h hq hx =>
    generalize hc : (s.kt _).ctl = c at h
    cases h <;> simp_all [State.goto, State.setK, State.setTcb, KThread.TaskOk]
  | parkSem h hq hx =>
    generalize hc : (s.kt _).ctl = c at h
    cases h <;> simp_all [State.goto, State.setK, State.setSem, KThread.TaskOk]
  | dispSet hc hx hctx =>
    simp_all [State.setK, KThread.TaskOk, Resume.pc_task]
  | _ =>
    simp_all [State.goto, State.setK, State.setTcb, State.setSem, KThread.TaskOk, KThread.block,
      Pc.task]

/-! ### Mutexes -/

theorem Op.start_held (o : Op) : o.start.held = [] := by cases o <;> rfl

theorem Resume.pc_held (r : Resume) : r.pc.held = [] := by
  cases r with
  | yielded o => cases o <;> first | rfl | exact Op.start_held _
  | _ => rfl

theorem Acquires.held_iff {x : KThread} {L L' : Lock} {c : Ctl} (h : Acquires x.ctl L c) :
    L' ∈ { x with ctl := c }.held ↔ L' = L ∨ L' ∈ x.held := by
  generalize hc : x.ctl = c₀ at h
  cases h <;> simp [KThread.held, Pc.held, EnqPc.held, hc] <;> tauto

theorem Acquires.notMem_held {x : KThread} {L : Lock} {c : Ctl} (h : Acquires x.ctl L c) :
    L ∉ x.held := by
  generalize hc : x.ctl = c₀ at h
  cases h <;> simp [KThread.held, Pc.held, EnqPc.held, hc]

theorem Releases.mem_held {x : KThread} {L : Lock} {c : Ctl} (h : Releases x L c) :
    L ∈ x.held := by
  cases h <;> rename_i hc <;> simp_all [KThread.held, Pc.held, EnqPc.held]

theorem Releases.held_iff {x : KThread} {L L' : Lock} {c : Ctl} (h : Releases x L c) :
    L' ∈ { x with ctl := c }.held ↔ L' ≠ L ∧ L' ∈ x.held := by
  cases h <;> rename_i hc <;>
    simp_all [KThread.held, Pc.held, EnqPc.held] <;> aesop

theorem Quiet.held_iff {x : KThread} {L : Lock} (h : Quiet cfg s k x) (ht : (s.kt k).TaskOk) :
    L ∈ x.held ↔ L ∈ (s.kt k).held := by
  cases h with
  | @start p o hc =>
    have hx : (s.kt k).held = [] := by simp [KThread.held, hc, Pc.held]
    rw [hx]
    exact iff_of_eq (congrArg (L ∈ ·) o.start_held)
  | _ => simp_all [KThread.held, KThread.TaskOk, KThread.block, Pc.held, Pc.task, EnqPc.held]

/-- A mutex is owned by the kernel thread whose control point holds it. -/
def LockInv (s : State n) (L : Lock) : Prop := ∀ k, s.owner L = some k ↔ L ∈ (s.kt k).held

theorem LockInv.unique {L : Lock} (h : LockInv s L) {j k : Fin n} (hj : L ∈ (s.kt j).held)
    (hk : L ∈ (s.kt k).held) : j = k :=
  Option.some.inj (((h j).2 hj).symm.trans ((h k).2 hk))

theorem LockInv.keep {L : Lock} (h : LockInv s L) (hkt : ∀ k' ≠ k, s'.kt k' = s.kt k')
    (ho : s'.owner L = s.owner L) (hh : L ∈ (s'.kt k).held ↔ L ∈ (s.kt k).held) :
    LockInv s' L := by
  intro k'
  rw [ho, h k']
  by_cases hk : k' = k
  · rw [hk, hh]
  · rw [hkt k' hk]

/-- A kernel thread that holds the mutex of a semaphore is using the semaphore. -/
theorem KThread.uses_of_held {x : KThread} {i : SemId} (h : Lock.sem i ∈ x.held) :
    x.ctl.pc?.bind Pc.uses = some i ∨ x.lock = some i := by
  obtain ⟨c, ta, lk, q, ct, pre, bl, pe⟩ := x
  cases c with
  | thread p pc =>
    cases pc with
    | swap cur r => cases r <;> simp_all [KThread.held, Pc.held, Ctl.pc?, Pc.uses, Resume.uses]
    | yield o x => cases x <;> simp_all [KThread.held, Pc.held]
    | tramp x => cases x <;> simp_all [KThread.held, Pc.held]
    | exit v x => cases x <;> simp_all [KThread.held, Pc.held]
    | join t pret x => cases x <;> simp_all [KThread.held, Pc.held]
    | create sb x =>
      cases x with
      | enq t q x => cases x <;> simp_all [KThread.held, Pc.held, EnqPc.held]
      | _ => simp_all [KThread.held, Pc.held]
    | post j x =>
      cases x with
      | enq q x => cases x <;> simp_all [KThread.held, Pc.held, EnqPc.held, Ctl.pc?, Pc.uses]
      | _ => simp_all [KThread.held, Pc.held, Ctl.pc?, Pc.uses]
    | wait j x => cases x <;> simp_all [KThread.held, Pc.held, Ctl.pc?, Pc.uses]
    | teardown x =>
      cases x with
      | enq j x => cases x <;> simp_all [KThread.held, Pc.held, EnqPc.held]
      | _ => simp_all [KThread.held, Pc.held]
    | _ => simp_all [KThread.held, Pc.held]
  | sched pc =>
    cases pc with
    | entry => cases ta <;> simp_all [KThread.held]
    | enq q x => cases x <;> simp_all [KThread.held, EnqPc.held]
    | _ => simp_all [KThread.held]
  | _ => simp_all [KThread.held]

/-- A mutex stays owned by the kernel thread whose control point holds it. The mutex `tcbs_lock`
is left behind by a failed creation, that of a semaphore is reset by its initialisation. -/
theorem Trans.lockInv {L : Lock} (h : Trans cfg s e s') (ht : ∀ k, (s.kt k).TaskOk)
    (ha : L = .tcbs → AllocOk e ∨ ∀ p sb t, (s.kt e.1).ctl ≠ .thread p (.create sb (.body t)))
    (hs : ∀ i, L = .sem i → SemOk s e) (hL : LockInv s L) : LockInv s' L := by
  have hkt := fun k hk => h.kt_of_ne (k := k) hk
  have hte := ht e.1
  cases h with
  | @call k c p r hc =>
    refine hL.keep hkt rfl ?_
    cases c with
    | op o => cases o <;> simp [Call.enter, State.setK, KThread.held, KThread.block, Pc.held, hc]
    | _ => simp [Call.enter, State.setK, KThread.held, KThread.block, Pc.held, hc]
  | tick => exact hL.keep hkt rfl (by simp [State.setK, KThread.held])
  | deliver => exact hL.keep hkt rfl (by simp [State.setK, KThread.held])
  | @acquire k f L₀ c h hfree =>
    by_cases hLL : L = L₀
    · subst hLL
      intro k'
      by_cases hk : k' = k
      · subst hk
        simp [State.goto, State.setK, h.held_iff]
      · have : L ∉ (s.kt k').held := fun hm => by simp [(hL k').2 hm] at hfree
        simp [State.goto, State.setK, hk, this, Ne.symm hk]
    · refine hL.keep hkt (by simp [State.goto, State.setK, hLL]) ?_
      simp [State.goto, State.setK, h.held_iff, hLL]
  | @release k f L₀ c h =>
    by_cases hLL : L = L₀
    · subst hLL
      intro k'
      by_cases hk : k' = k
      · subst hk
        simp [State.goto, State.setK, h.held_iff]
      · have : L ∉ (s.kt k').held := fun hm => hk (hL.unique hm h.mem_held)
        simp [State.goto, State.setK, hk, this]
    · refine hL.keep hkt (by simp [State.goto, State.setK, hLL]) ?_
      simp [State.goto, State.setK, h.held_iff, hLL]
  | quiet h => exact hL.keep hkt rfl (by simp [State.setK, h.held_iff hte])
  | @signal k f s₁ c h =>
    refine hL.keep hkt (by cases h <;> rfl) ?_
    cases h <;> rename_i hc <;>
      simp_all [State.goto, State.setK, KThread.held, Pc.held, EnqPc.held]
  | insert h =>
    generalize hc : (s.kt _).ctl = c at h
    refine hL.keep hkt rfl ?_
    cases h <;> simp [State.goto, State.setK, KThread.held, Pc.held, EnqPc.held, hc]
  | @swap k f p c x r hc hx =>
    refine hL.keep hkt rfl ?_
    cases r <;> simp_all [State.setK, KThread.held, KThread.TaskOk, Pc.held, Pc.task]
  | entry hc hcur h =>
    refine hL.keep hkt rfl ?_
    generalize hta : (s.kt _).task = ta at h
    cases h <;> simp_all [State.setK, KThread.held, KThread.block, EnqPc.held]
  | parkJoin h hq hx =>
    generalize hc : (s.kt _).ctl = c at h
    refine hL.keep hkt rfl ?_
    cases h <;> simp_all [State.goto, State.setK, State.setTcb, KThread.held]
  | parkSem h hq hx =>
    generalize hc : (s.kt _).ctl = c at h
    refine hL.keep hkt rfl ?_
    cases h <;> simp_all [State.goto, State.setK, State.setSem, KThread.held]
  | dispSet hc hx hctx =>
    exact hL.keep hkt rfl (by simp [State.setK, KThread.held, Resume.pc_held, hc])
  | @semInit k f p i v hc =>
    have hh : L ∈ KThread.held { s.kt k with ctl := .thread p .semRet } ↔ L ∈ (s.kt k).held := by
      simp [KThread.held, Pc.held, hc]
    by_cases hLL : L = .sem i
    · subst hLL
      have hbusy : ¬ s.SemBusy i := by
        have := hs i rfl
        simp only [SemOk, hc, Ctl.pc?, Option.mem_some_iff, forall_eq'] at this
        exact this.2
      intro k'
      have hn : Lock.sem i ∉ (s.kt k').held := fun hm =>
        hbusy (.inl ⟨k', KThread.uses_of_held hm⟩)
      by_cases hk : k' = k
      · subst hk
        simpa [State.goto, State.setK, State.setSem, hh] using hn
      · simpa [State.goto, State.setK, State.setSem, hk] using hn
    · exact hL.keep hkt (by simp [State.goto, State.setK, State.setSem, hLL])
        (by simpa [State.goto, State.setK, State.setSem] using hh)
  | createNoTcb hc =>
    refine hL.keep hkt rfl ?_
    have : L ≠ .tcbs := fun hLL => by simpa [AllocOk, hc] using ha hLL
    simp [State.goto, State.setK, KThread.held, Pc.held, hc, this]
  | createNoStack hc =>
    refine hL.keep hkt rfl ?_
    have : L ≠ .tcbs := fun hLL => by simpa [AllocOk, hc] using ha hLL
    simp [State.goto, State.setK, KThread.held, Pc.held, hc, this]
  | _ =>
    refine hL.keep hkt rfl ?_
    simp_all [State.goto, State.setK, State.setTcb, State.setSem, KThread.held, KThread.TaskOk,
      KThread.block, Pc.held, Pc.task, EnqPc.held]

end Uthread
