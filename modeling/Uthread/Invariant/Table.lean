import Uthread.Invariant.Places

/-!
# The table of threads

`TableInv` is kept by every step. The table changes only when a thread is created or destroyed;
the entry that is written then belongs to no thread in the hands of a kernel thread, so that what
the others know about their threads stays true.
-/

namespace Uthread

variable {n : ℕ} {cfg : Config} {s s' : State n} {e : Event n} {k : Fin n}

/-- At a point where `current_tid` names a thread there is one. -/
theorem State.exec_ne_none_of_names (h : (s.kt k).names = true) : s.exec k ≠ none := by
  unfold KThread.names at h
  split at h <;> simp_all [State.exec, KThread.exec, SchedPc.moving]

/-! ### Control blocks keep their identifiers -/

/-- The table and the identifiers in the control blocks stay the same. -/
structure SameTable (s s' : State n) : Prop where
  tcbs : s'.tcbs = s.tcbs
  tid : ∀ p, (s'.heap p).map (·.tid) = (s.heap p).map (·.tid)

theorem SameTable.of_heap_eq (ht : s'.tcbs = s.tcbs) (hh : s'.heap = s.heap) : SameTable s s' :=
  ⟨ht, fun p => by rw [hh]⟩

theorem SameTable.setTcb {p : Ptr} {x y : Tcb} (hx : s.heap p = some x)
    (hh : s'.heap = Function.update s.heap p (some y)) (hy : y.tid = x.tid)
    (ht : s'.tcbs = s.tcbs) : SameTable s s' := by
  refine ⟨ht, fun q => ?_⟩
  by_cases hq : q = p <;> simp [hh, hq, hx, hy]

theorem SameTable.slot (h : SameTable s s') (T : TableInv s) (t : Tid) (p : Ptr)
    (ht : s'.tcbs t = some p) : ∃ x, s'.heap p = some x ∧ x.tid = t := by
  rw [h.tcbs] at ht
  obtain ⟨x, hx, hxt⟩ := T.slot t p ht
  have := h.tid p
  rw [hx] at this
  simpa [hxt] using this

theorem SameTable.tid_mem (h : SameTable s s') (T : TableInv s) (p : Ptr) (x : Tcb)
    (hx : s'.heap p = some x) : s'.tcbs x.tid = some p := by
  have := h.tid p
  rw [hx] at this
  obtain ⟨y, hy, hyt⟩ := Option.map_eq_some_iff.mp this.symm
  rw [h.tcbs, ← show y.tid = x.tid from hyt]
  exact T.tid p y hy

/-- The steps that create or destroy threads. -/
inductive Edits (s : State n) (k : Fin n) : State n → Prop
  | create {p sb t} (hc : (s.kt k).ctl = .thread p (.create sb (.body t))) :
      Edits s k ({ s with
        heap := Function.update s.heap s.fresh
          (some (State.newTcb t s.fresh sb (s.kt k).blocked))
        tcbs := Function.update s.tcbs t (some s.fresh)
        fresh := s.fresh + 1 }.goto k (.thread p (.create sb (.enq t s.fresh .lock))))
  | destroy {p t pret rv q x} (hc : (s.kt k).ctl = .thread p (.join t pret (.destroy rv)))
      (hq : s.tcbs t = some q) (hx : s.heap q = some x) :
      Edits s k ({ s with
        heap := Function.update s.heap q none
        tcbs := Function.update s.tcbs t none }.goto k (.thread p (.join t pret (.ret rv))))
  | free {p q x} (hc : (s.kt k).ctl = .thread p (.teardown .free))
      (hq : s.tcbs tidMain = some q) (hx : s.heap q = some x) :
      Edits s k ({ s with
        heap := fun q => if (List.range maxThreads).any (s.tcbs · == some q) then none
          else s.heap q
        tcbs := fun t => if t < maxThreads then none else s.tcbs t
        rqueue := []
        infoFreed := true }.goto k (.closing .unblock))

/-- A step that neither creates nor destroys a thread keeps the table. -/
theorem Trans.table_cases (h : Trans cfg s e s') (ha : AllocOk e) :
    SameTable s s' ∨ Edits s e.1 s' := by
  cases h with
  | createBody hc => exact .inr (.create hc)
  | joinDestroy hc hq hx => exact .inr (.destroy hc hq hx)
  | teardownFree hc hq hx => exact .inr (.free hc hq hx)
  | createNoTcb => exact absurd ha (by simp [AllocOk])
  | createNoStack => exact absurd ha (by simp [AllocOk])
  | signal h => cases h <;> exact .inl (.of_heap_eq rfl rfl)
  | swap hc hx => exact .inl (.setTcb hx rfl rfl rfl)
  | yieldBody hc hcur hx hst => exact .inl (.setTcb hx rfl rfl rfl)
  | exitBody hc hcur hx hst => exact .inl (.setTcb hx rfl rfl rfl)
  | joinBlock hc hx hst hy hj => exact .inl (.setTcb hy rfl rfl rfl)
  | postReady hc hx hst => exact .inl (.setTcb hx rfl rfl rfl)
  | waitPark hc hx => exact .inl (.setTcb hx rfl rfl rfl)
  | @schedExitWake k f cur x j rest y hc hx hj hy hst =>
    have h₁ : SameTable s (s.setTcb cur { x with joinQueue := rest }) := .setTcb hx rfl rfl rfl
    have h₂ : SameTable (s.setTcb cur { x with joinQueue := rest })
        (((s.setTcb cur { x with joinQueue := rest }).setTcb j { y with state := .ready }).goto k
          (.sched (.enq j .lock))) := .setTcb hy rfl rfl rfl
    exact .inl ⟨h₂.tcbs.trans h₁.tcbs, fun p => (h₂.tid p).trans (h₁.tid p)⟩
  | parkJoin h hq hx => exact .inl (.setTcb hx rfl rfl rfl)
  | schedTeardown hc hx => exact .inl (.setTcb hx rfl rfl rfl)
  | dispBody hc hx hst => exact .inl (.setTcb hx rfl rfl rfl)
  | _ => exact .inl (.of_heap_eq rfl rfl)

/-- A control block changes only when a kernel thread takes a step. -/
theorem Trans.run_of_heap_ne (h : Trans cfg s e s') (hq : s'.heap q ≠ s.heap q) :
    ∃ f, e.2 = .run f := by
  cases h with
  | call => exact absurd rfl hq
  | tick => exact absurd rfl hq
  | deliver => exact absurd rfl hq
  | _ => exact ⟨_, rfl⟩

/-- A step leaves the other kernel threads with the threads they have. -/
theorem Trans.exec_of_ne (h : Trans cfg s e s') (I : Inv s) (ha : AllocOk e) (hk : k ≠ e.1) :
    s'.exec k = s.exec k := by
  have hkt := h.kt_of_ne hk
  rcases h.table_cases ha with ht | ht
  · rw [State.exec, hkt, ht.tcbs]
    rfl
  · rw [State.exec, hkt]
    cases ht with
    | @create p sb t hc =>
      have hclaim := I.bits.claim e.1 t (by simp [KThread.claims, hc, Ctl.pc?, Pc.claims])
      exact I.table.exec_update (by simp [hclaim.1]) k
    | @destroy p t pret rv q x hc hq hx =>
      have hexec := I.join.passed e.1 t q (by simp [hc, Ctl.pc?, Pc.passed]) hq
      exact I.table.exec_update (fun q' hq' => Option.some.inj (hq.symm.trans hq') ▸ hexec) k
    | free hc hq hx => simp [State.exec, KThread.exec, I.exited_of_free hc hk]

/-- A table entry that belongs to no thread in the hands of a kernel thread is not the one that a
`current_tid` in use names. -/
theorem TableInv.currentTcb_update (T : TableInv s) {t : Tid} {o : Option Ptr}
    (ht : ∀ q, s.tcbs t = some q → ∀ k, s.exec k ≠ some q) (hn : (s.kt k).names = true)
    (hu : s'.tcbs = Function.update s.tcbs t o)
    (hc : (s'.kt k).currentTid = (s.kt k).currentTid) : s'.currentTcb k = s.currentTcb k := by
  obtain ⟨p, hp⟩ := Option.ne_none_iff_exists'.mp (State.exec_ne_none_of_names hn)
  have hcur := T.cur k hn
  simp only [State.currentTcb, hc, hu]
  split
  · next h0 =>
    refine Function.update_of_ne ?_ _ _
    rintro rfl
    refine ht p ?_ k hp
    rw [← hp, ← hcur]
    simp [State.currentTcb, h0]
  · rfl

/-- A step leaves the other kernel threads with the right `current_tid`. -/
theorem Trans.currentTcb_of_ne (h : Trans cfg s e s') (I : Inv s) (ha : AllocOk e) (hk : k ≠ e.1)
    (hn : (s.kt k).names = true) : s'.currentTcb k = s.currentTcb k := by
  have hkt := h.kt_of_ne hk
  rcases h.table_cases ha with ht | ht
  · rw [State.currentTcb, hkt, ht.tcbs]
    rfl
  · cases ht with
    | @create p sb t hc =>
      have hclaim := I.bits.claim e.1 t (by simp [KThread.claims, hc, Ctl.pc?, Pc.claims])
      exact I.table.currentTcb_update (by simp [hclaim.1]) hn rfl (by rw [hkt])
    | @destroy p t pret rv q x hc hq hx =>
      have hexec := I.join.passed e.1 t q (by simp [hc, Ctl.pc?, Pc.passed]) hq
      exact I.table.currentTcb_update (fun q' hq' => Option.some.inj (hq.symm.trans hq') ▸ hexec)
        hn rfl (by rw [hkt])
    | free hc hq hx => simp [KThread.names, I.exited_of_free hc hk] at hn

/-- The acting kernel thread knows the thread it executes. -/
theorem Trans.currentTcb_eq (h : Trans cfg s e s') (I : Inv s) (ha : AllocOk e)
    (hn : (s'.kt e.1).names = true) : s'.currentTcb e.1 = s'.exec e.1 := by
  -- a step that keeps the table, `current_tid` and the thread
  have hkeep (ht : s'.tcbs = s.tcbs) (hc : (s'.kt e.1).currentTid = (s.kt e.1).currentTid)
      (hx : (s'.kt e.1).exec s.tcbs = (s.kt e.1).exec s.tcbs) (hn : (s.kt e.1).names = true) :
      s'.currentTcb e.1 = s'.exec e.1 := by
    rw [State.exec, ht, hx, ← State.exec, ← I.table.cur e.1 hn]
    simp only [State.currentTcb, ht, hc]
  cases h with
  | @call k c p r hc =>
    refine hkeep rfl ?_ ?_ (by simp [KThread.names, hc])
    · cases c with
      | op o => cases o <;> simp [Call.enter, KThread.block]
      | _ => simp [Call.enter, KThread.block]
    · have hrole : SameRole s.tcbs (s.kt k) (c.enter cfg (s.kt k) p) :=
        Call.enter_sameRole hc s.tcbs
      simpa using hrole.exec
  | tick =>
    exact hkeep rfl (by simp) (by simp [KThread.exec]) (by simpa [KThread.names] using hn)
  | deliver =>
    exact hkeep rfl (by simp) (by simp [KThread.exec]) (by simpa [KThread.names] using hn)
  | acquire h =>
    refine hkeep rfl (by simp [State.goto]) (by simpa [State.goto] using (h.sameRole s.tcbs).exec) ?_
    generalize hc : (s.kt _).ctl = c at h
    cases h <;> simp_all [KThread.names, State.goto]
  | release h =>
    refine hkeep rfl (by simp [State.goto]) (by simpa [State.goto] using (h.sameRole s.tcbs).exec) ?_
    cases h <;> simp_all [KThread.names, State.goto]
  | quiet h =>
    refine hkeep rfl ?_ (by simpa using (h.sameRole (I.task _)).exec) ?_
    · cases h <;> simp [KThread.block, KThread.unblock]
    · cases h <;> simp_all [KThread.names]
  | signal h =>
    have hr := (h.sameRole s.tcbs).exec
    cases h <;> refine hkeep rfl (by simp [State.goto]) (by simpa [State.goto] using hr) ?_ <;>
      simp_all [KThread.names, State.goto]
  | insert h =>
    generalize hc : (s.kt _).ctl = c at h
    cases h <;> refine hkeep rfl ?_ ?_ ?_ <;> simp_all [KThread.names, KThread.exec, State.exec, State.goto]
  | dispBody hc hx hst =>
    have := I.table.tid _ _ hx
    simpa [State.currentTcb, State.exec, State.setTcb, State.setK, KThread.exec, SchedPc.moving] using this
  | @entry k f cur pc hc hcur h =>
    generalize hta : (s.kt k).task = ta at h
    cases h <;> simp_all [KThread.names, KThread.block, State.currentTcb, State.exec, KThread.exec, SchedPc.moving, State.setK]
  | @dispSet k f q x c hc hx hctx =>
    have hq : s.exec k = some q := by simp [State.exec, KThread.exec, SchedPc.moving, hc]
    have hth := (I.ctx.thread_eq I.place hq (by simp [KThread.execState, hc])
      (by simp [hc, Ctl.thread?]) hx hctx).1
    refine hkeep rfl (by simp) ?_ (by simp [KThread.names, hc])
    simp [KThread.exec, SchedPc.moving, hc, hth]
  | @createBody k f p sb t hc =>
    have hclaim := I.bits.claim k t (by simp [KThread.claims, hc, Ctl.pc?, Pc.claims])
    refine (I.table.currentTcb_update (by simp [hclaim.1]) (by simp [KThread.names, hc]) rfl
      (by simp [State.goto])).trans ?_
    rw [I.table.currentTcb_thread hc]
    simp [State.exec, State.goto, KThread.exec]
  | @joinDestroy k f p t pret rv q x hc hq hx =>
    have hexec := I.join.passed k t q (by simp [hc, Ctl.pc?, Pc.passed]) hq
    refine (I.table.currentTcb_update (fun q' hq' => Option.some.inj (hq.symm.trans hq') ▸ hexec)
      (by simp [KThread.names, hc]) rfl (by simp [State.goto])).trans ?_
    rw [I.table.currentTcb_thread hc]
    simp [State.exec, State.goto, KThread.exec]
  | createNoTcb => exact absurd ha (by simp [AllocOk])
  | createNoStack => exact absurd ha (by simp [AllocOk])
  | parkJoin h hq hx =>
    generalize hc : (s.kt _).ctl = c at h
    cases h <;> simp [KThread.names, State.goto] at hn
  | parkSem h hq hx =>
    generalize hc : (s.kt _).ctl = c at h
    cases h <;> simp [KThread.names, State.goto] at hn
  | exitSwitch | swap | schedExit | schedExitWake | schedTeardown | deqRemove | teardownFree =>
    exact absurd hn (by simp [KThread.names, State.goto])
  | _ hc =>
    refine hkeep rfl ?_ ?_ (by simp [KThread.names, hc])
    · simp [State.goto, State.setTcb, State.setSem, KThread.block]
    · simp [KThread.exec, State.goto, State.setTcb, State.setSem, KThread.block, hc]

/-! ### What a kernel thread knows about its thread -/

theorem Op.start_curs (o : Op) : o.start.curs = [] := by cases o <;> rfl

theorem Resume.pc_curs (r : Resume) : r.pc.curs = r.cur?.toList := by
  cases r with
  | yielded o => cases o <;> first | rfl | exact Op.start_curs _
  | _ => rfl

/-- The acting kernel thread enters its scheduler with a thread whenever it leaves a task. -/
theorem Trans.handing (h : Trans cfg s e s') (I : Inv s) (hc' : (s'.kt e.1).ctl = .sched .entry)
    (ht' : (s'.kt e.1).task ≠ .none) : ∃ p, s'.exec e.1 = some p := by
  have hte := I.task e.1
  cases h with
  | @call k c p r hc =>
    cases c with
    | op o => cases o <;> simp [Call.enter] at hc'
    | _ => simp [Call.enter] at hc'
  | tick =>
    simp only [State.setK_kt] at hc' ht'
    simpa [State.exec, KThread.exec, State.setK] using I.table.handing _ hc' ht'
  | deliver =>
    simp only [State.setK_kt] at hc' ht'
    simpa [State.exec, KThread.exec, State.setK] using I.table.handing _ hc' ht'
  | acquire h =>
    generalize hc : (s.kt _).ctl = c at h
    cases h <;> simp [State.goto] at hc'
  | release h => cases h <;> simp [State.goto] at hc'
  | quiet h =>
    cases h with
    | @start p o hc => simp at hc'
    | _ => simp_all [KThread.TaskOk, KThread.block]
  | signal h => cases h <;> simp [State.goto] at hc'
  | insert h =>
    generalize hc : (s.kt _).ctl = c at h
    cases h <;> simp [State.goto] at hc'
  | @exitSwitch k f p v hc =>
    refine ⟨p, (State.exec_entry hc' ht' rfl).trans ?_⟩
    simpa [State.currentTcb, State.setK] using I.table.currentTcb_thread hc
  | @swap k f p c x r hc hx =>
    refine ⟨p, (State.exec_entry hc' ht' rfl).trans ?_⟩
    simpa [State.currentTcb, State.setK, State.setTcb] using I.table.currentTcb_thread hc
  | entry hc hcur h =>
    generalize hta : (s.kt _).task = ta at h
    cases h <;> simp at hc'
  | parkJoin h hq hx =>
    generalize hc : (s.kt _).ctl = c at h
    cases h <;> simp [State.goto] at hc'
  | parkSem h hq hx =>
    generalize hc : (s.kt _).ctl = c at h
    cases h <;> simp [State.goto] at hc'
  | _ => simp [State.goto] at hc'

/-- The local variable `current_tcb` holds the running thread. -/
theorem Trans.localsOk (h : Trans cfg s e s') (I : Inv s) : (s'.kt e.1).ctl.LocalsOk := by
  have hloc := I.table.locals e.1
  cases h with
  | @call k c q r hc =>
    cases c with
    | op o => cases o <;> simp [Call.enter, Ctl.LocalsOk, Pc.curs]
    | _ => simp [Call.enter, Ctl.LocalsOk, Pc.curs]
  | tick => simpa using hloc
  | deliver => simpa using hloc
  | acquire h =>
    generalize hc : (s.kt _).ctl = c at h
    cases h <;> simp_all [State.goto, Ctl.LocalsOk, Pc.curs]
  | release h => cases h <;> simp_all [State.goto, Ctl.LocalsOk, Pc.curs]
  | quiet h =>
    cases h with
    | @start p o hc => simp [Ctl.LocalsOk, Op.start_curs]
    | _ => simp_all [KThread.block, Ctl.LocalsOk, Pc.curs]
  | signal h => cases h <;> simp [State.goto, Ctl.LocalsOk, Pc.curs]
  | insert h =>
    generalize hc : (s.kt _).ctl = c at h
    cases h <;> simp [State.goto, Ctl.LocalsOk, Pc.curs]
  | yieldBody hc hcur hx hst =>
    have := I.table.currentTcb_thread hc
    simp_all [State.goto, Ctl.LocalsOk, Pc.curs, Resume.cur?]
  | joinRead hc =>
    have := I.table.currentTcb_thread hc
    simp_all [State.goto, Ctl.LocalsOk, Pc.curs]
  | waitRead hc hx h0 =>
    have := I.table.currentTcb_thread hc
    simp_all [State.goto, Ctl.LocalsOk, Pc.curs]
  | teardownRead hc =>
    have := I.table.currentTcb_thread hc
    simp_all [State.goto, Ctl.LocalsOk, Pc.curs, Resume.cur?]
  | entry hc hcur h =>
    generalize hta : (s.kt _).task = ta at h
    cases h <;> simp [Ctl.LocalsOk]
  | parkJoin h hq hx =>
    generalize hc : (s.kt _).ctl = c at h
    cases h <;> simp [State.goto, Ctl.LocalsOk]
  | parkSem h hq hx =>
    generalize hc : (s.kt _).ctl = c at h
    cases h <;> simp [State.goto, Ctl.LocalsOk]
  | @dispSet k f q x c hc hx hctx =>
    have hq : s.exec k = some q := by simp [State.exec, KThread.exec, SchedPc.moving, hc]
    obtain ⟨hth, hcur⟩ := I.ctx.thread_eq I.place hq (by simp [KThread.execState, hc])
      (by simp [hc, Ctl.thread?]) hx hctx
    simpa [Ctl.LocalsOk, Resume.pc_curs, hth] using hcur
  | _ => simp_all [State.goto, Ctl.LocalsOk, Pc.curs, Resume.cur?]

/-- The queue that is recorded fits the task. -/
theorem Trans.queueOk (h : Trans cfg s e s') (ht : (s.kt e.1).TaskOk)
    (hq : (s.kt e.1).QueueOk) : (s'.kt e.1).QueueOk := by
  cases h with
  | @call k c q r hc =>
    cases c with
    | op o => cases o <;> simpa [Call.enter, KThread.QueueOk, KThread.block] using hq
    | _ => simpa [Call.enter, KThread.QueueOk, KThread.block] using hq
  | quiet h =>
    cases h <;> simp_all [KThread.QueueOk, KThread.TaskOk, KThread.block, KThread.unblock, Pc.task]
  | signal h => cases h <;> simpa [State.goto, KThread.QueueOk] using hq
  | exitBody => simp [KThread.QueueOk]
  | joinBlock => simp [KThread.QueueOk]
  | _ => simpa [State.goto, State.setTcb, State.setSem, KThread.QueueOk, KThread.block] using hq

theorem Edits.slot (h : Edits s k s') (I : Inv s) (t : Tid) (p : Ptr) (ht : s'.tcbs t = some p) :
    ∃ x, s'.heap p = some x ∧ x.tid = t := by
  cases h with
  | @create p₀ sb t₀ hc =>
    by_cases htt : t = t₀
    · subst htt
      obtain rfl : s.fresh = p := by simpa [State.goto, State.setK] using ht
      exact ⟨State.newTcb t s.fresh sb (s.kt k).blocked, by simp [State.goto, State.setK], rfl⟩
    · obtain ⟨x, hx, hxt⟩ := I.table.slot t p (by simpa [State.goto, State.setK, htt] using ht)
      have hp : p ≠ s.fresh := by
        rintro rfl
        simp [I.place.bound s.fresh (Nat.le_refl _)] at hx
      exact ⟨x, by simpa [State.goto, State.setK, hp] using hx, hxt⟩
  | @destroy p₀ t₀ pret rv q x₀ hc hq hx₀ =>
    have htt : t ≠ t₀ := by
      rintro rfl
      simp [State.goto, State.setK] at ht
    obtain ⟨x, hx, hxt⟩ := I.table.slot t p (by simpa [State.goto, State.setK, htt] using ht)
    have hp : p ≠ q := by
      rintro rfl
      obtain ⟨y, hy, hyt⟩ := I.table.slot t₀ p hq
      rw [hx, Option.some.injEq] at hy
      exact htt (hxt.symm.trans (hy ▸ hyt))
    exact ⟨x, by simpa [State.goto, State.setK, hp] using hx, hxt⟩
  | free hc hq hx =>
    simp only [State.goto, State.setK, Option.ite_none_left_eq_some] at ht
    exact absurd (I.bits.lt t p ht.2) ht.1

theorem Edits.tid_mem (h : Edits s k s') (I : Inv s) (p : Ptr) (x : Tcb)
    (hx : s'.heap p = some x) : s'.tcbs x.tid = some p := by
  cases h with
  | @create p₀ sb t₀ hc =>
    have hclaim := I.bits.claim k t₀ (by simp [KThread.claims, hc, Ctl.pc?, Pc.claims])
    by_cases hp : p = s.fresh
    · obtain rfl : State.newTcb t₀ s.fresh sb (s.kt k).blocked = x := by
        simpa [State.goto, State.setK, hp] using hx
      simp [State.goto, State.setK, State.newTcb, hp]
    · have ht := I.table.tid p x (by simpa [State.goto, State.setK, hp] using hx)
      have htt : x.tid ≠ t₀ := by
        rintro rfl
        simp [hclaim.1] at ht
      simpa [State.goto, State.setK, htt] using ht
  | @destroy p₀ t₀ pret rv q x₀ hc hq hx₀ =>
    have hp : p ≠ q := by
      rintro rfl
      simp [State.goto, State.setK] at hx
    have ht := I.table.tid p x (by simpa [State.goto, State.setK, hp] using hx)
    have htt : x.tid ≠ t₀ := by
      rintro rfl
      exact hp (Option.some.inj (ht.symm.trans hq))
    simpa [State.goto, State.setK, htt] using ht
  | free hc hq hx₀ =>
    simp only [State.goto, State.setK, Option.ite_none_left_eq_some] at hx
    have ht := I.table.tid p x hx.2
    refine absurd ?_ hx.1
    simpa using ⟨x.tid, I.bits.lt _ _ ht, ht⟩

/-- Every step keeps the table and the control blocks in agreement. -/
theorem Trans.tableInv (h : Trans cfg s e s') (I : Inv s) (ha : AllocOk e) : TableInv s' := by
  have hkt := fun k hk => h.kt_of_ne (k := k) hk
  refine ⟨?_, ?_, fun k hn => ?_, fun k hc ht => ?_, fun k => ?_, fun k => ?_⟩
  · rcases h.table_cases ha with hs | hs
    · exact hs.slot I.table
    · exact hs.slot I
  · rcases h.table_cases ha with hs | hs
    · exact hs.tid_mem I.table
    · exact hs.tid_mem I
  · by_cases hk : k = e.1
    · subst hk
      exact h.currentTcb_eq I ha hn
    · rw [hkt k hk] at hn
      rw [h.currentTcb_of_ne I ha hk hn, h.exec_of_ne I ha hk, I.table.cur k hn]
  · by_cases hk : k = e.1
    · subst hk
      exact h.handing I hc ht
    · rw [hkt k hk] at hc ht
      rw [h.exec_of_ne I ha hk]
      exact I.table.handing k hc ht
  · by_cases hk : k = e.1
    · subst hk
      exact h.localsOk I
    · rw [hkt k hk]
      exact I.table.locals k
  · by_cases hk : k = e.1
    · subst hk
      exact h.queueOk (I.task e.1) (I.table.queue e.1)
    · rw [hkt k hk]
      exact I.table.queue k

end Uthread
