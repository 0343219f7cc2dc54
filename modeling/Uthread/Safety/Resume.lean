import Uthread.Invariant.Reachable

/-!
# Contexts are saved before they are resumed

A run determines when the context of a thread was last written, by `makecontext` at its creation
or by `swapcontext` at a suspension, and when it was last resumed by `schedule`. Whenever a context
is about to be resumed it was written later than it was resumed, by the thread itself. A thread is
executed by one kernel thread at a time, which knows its identifier, and it is not destroyed while
it is executed.

## Main definitions

* `lastCtxAct`, `createdTid`: history variables.

## Main results

* `save_before_resume`.
-/

namespace Uthread

variable {n : ℕ} {cfg : Config} {s s' : State n} {e : Event n} {k : Fin n} {p q : Ptr}
  {h : List (State n × Event n)}

/-! ### The contexts in a history -/

/-- What an event does to the saved context of a thread. -/
inductive CtxAct
  | write (c : Ctx)
  | resume
  deriving DecidableEq

/-- `swapcontext` and `makecontext` write the context of `q`, the `setcontext` of `schedule`
resumes it. -/
def State.ctxAct (s : State n) (q : Ptr) : Event n → Option CtxAct
  | (k, .run _) =>
    match (s.kt k).ctl with
    | .thread p (.swap (some c) r) =>
      if c = q then some (.write ⟨p, r, (s.kt k).blocked⟩) else none
    | .thread _ (.create _ (.body _)) =>
      if s.fresh = q then some (.write ⟨q, .start, (s.kt k).blocked⟩) else none
    | .sched (.dispSet c) => if c = q then some .resume else none
    | _ => none
  | _ => none

/-- The latest of these in a history. -/
def lastCtxAct (h : List (State n × Event n)) (q : Ptr) : Option CtxAct :=
  h.findSome? fun x => x.1.ctxAct q x.2

/-- A context changes only when a kernel thread takes a step. -/
theorem Trans.run_of_context_ne (h : Trans cfg s e s') (hq : s'.context q ≠ s.context q) :
    ∃ f, e.2 = .run f := by
  have hsame {x : KThread} (hs : s' = s.setK e.1 x)
      (hx : x.ctl.thread? = (s.kt e.1).ctl.thread?) : False := by
    refine hq (State.context_eq_of_saved (fun k => ?_) (by rw [hs]; rfl))
    by_cases hk : k = e.1
    · rw [hk, hs, State.setK_kt, hx]
    · rw [h.kt_of_ne hk]
  cases h with
  | @call k c p r hc =>
    refine (hsame rfl ?_).elim
    cases c with
    | op o => cases o <;> simp [Call.enter, Ctl.thread?, hc]
    | _ => simp [Call.enter, Ctl.thread?, hc]
  | tick => exact (hsame rfl rfl).elim
  | deliver => exact (hsame rfl rfl).elim
  | _ => exact ⟨_, rfl⟩

/-- A step that does not write the context of `q` leaves it, or `q` is executed or freed. -/
theorem Trans.context_eq_of_ctxAct (ht : Trans cfg s e s') (I : Inv s) (ha : AllocOk e) {c : Ctx}
    (hact : s.ctxAct q e = none) (hc' : s'.context q = some (some c)) :
    s.context q = some (some c) := by
  by_cases heq : s'.context q = s.context q
  · rw [← heq, hc']
  · obtain ⟨f, hf⟩ := ht.run_of_context_ne heq
    obtain ⟨k, i⟩ := e
    obtain rfl : i = .run f := hf
    cases ht.suspends I ha q with
    | same h => exact absurd h heq
    | saves hc => simp [State.ctxAct, hc] at hact
    | resumes _ _ _ h' => simp [h'] at hc'
    | creates hc hq => simp [State.ctxAct, hc, hq] at hact
    | frees _ h => simp [State.context_of_heap_eq_none (h q)] at hc'

/-- A context that is written is the one that the thread has. -/
theorem Trans.context_of_write (ht : Trans cfg s e s') (I : Inv s) (ha : AllocOk e) {c c' : Ctx}
    (hact : s.ctxAct q e = some (.write c)) (hc' : s'.context q = some (some c')) : c' = c := by
  obtain ⟨k, i⟩ := e
  cases i with
  | run f =>
    simp only [State.ctxAct] at hact
    split at hact
    · next p c₀ r hc =>
      split_ifs at hact with hcq
      obtain rfl := hcq
      obtain rfl : c₀ = p := I.table.cur_eq hc (by simp [Pc.curs])
      have hnone := State.context_of_executed (s := s) (k := k) (p := c₀) (by simp [hc, Ctl.thread?])
      cases ht.suspends I ha c₀ with
      | same h => simp [h, hnone] at hc'
      | saves hc₁ _ h => simp_all
      | resumes hc₁ => simp [hc] at hc₁
      | creates hc₁ => simp [hc] at hc₁
      | frees hc₁ => simp [hc] at hc₁
    · next p sb t hc =>
      split_ifs at hact with hq
      have hnone := State.context_of_heap_eq_none (I.place.bound q (Nat.le_of_eq hq))
      cases ht.suspends I ha q with
      | same h => simp [h, hnone] at hc'
      | saves hc₁ => simp [hc] at hc₁
      | resumes hc₁ => simp [hc] at hc₁
      | creates hc₁ _ h =>
        simp only [Option.some.injEq, CtxAct.write.injEq] at hact
        exact (Option.some.inj (Option.some.inj (hc'.symm.trans h))).trans hact
      | frees hc₁ => simp [hc] at hc₁
    · split_ifs at hact
      simp at hact
    · cases hact
  | _ => simp [State.ctxAct] at hact

/-- The context of a thread that a scheduler is about to resume. -/
theorem Inv.context_of_dispSet (I : Inv s) (hc : (s.kt k).ctl = .sched (.dispSet q)) :
    ∃ x c, s.heap q = some x ∧ x.ctx = some c ∧ c.thread = q ∧ s.context q = some (some c) := by
  have hexec : s.exec k = some q := by simp [State.exec, KThread.exec, SchedPc.moving, hc]
  have hst := I.place.alive (.exec k) q (PlaceInv.mem_exec hexec)
  obtain ⟨x, hx, -⟩ := Option.map_eq_some_iff.mp hst
  have hcontext := I.place.context_eq hexec (by simp [KThread.execState, hc])
    (by simp [hc, Ctl.thread?]) hx
  obtain ⟨r, b, hctx, -⟩ := I.ctx.saved q x.ctx hcontext
  exact ⟨x, ⟨q, r, b⟩, hx, hctx, rfl, hctx ▸ hcontext⟩

/-- A step that resumes a thread executes it. -/
theorem Inv.executed_of_resume (I : Inv s) (hact : s.ctxAct q e = some .resume)
    (hs : s.step cfg e = some s') : (s'.kt e.1).ctl.thread? = some q := by
  obtain ⟨k, i⟩ := e
  cases i with
  | run f =>
    obtain ⟨c, hc, rfl⟩ : ∃ c, (s.kt k).ctl = .sched (.dispSet c) ∧ c = q := by
      simp only [State.ctxAct] at hact
      split at hact
      · split_ifs at hact
        simp at hact
      · split_ifs at hact
        simp at hact
      · next c hc =>
        split_ifs at hact with hcq
        exact ⟨c, hc, hcq⟩
      · cases hact
    obtain ⟨x, c', hx, hctx, hth, -⟩ := I.context_of_dispSet hc
    simp only [State.step, State.stepRun, hc, State.stepSchedule, State.withTcb, hx, hctx] at hs
    split_ifs at hs with hhalt
    obtain rfl := Option.some.inj hs
    simp [Ctl.thread?, hth]
  | _ => simp [State.ctxAct] at hact

/-- No step that writes a context stops the run. -/
theorem Inv.trans_of_write (I : Inv s) (ha : AllocOk e) {c : Ctx}
    (hact : s.ctxAct q e = some (.write c)) (hs : s.step cfg e = some s') :
    Trans cfg s e s' := by
  obtain ⟨k, i⟩ := e
  cases i with
  | run f =>
    simp only [State.ctxAct] at hact
    split at hact
    · next p c₀ r hc =>
      obtain rfl : c₀ = p := I.table.cur_eq hc (by simp [Pc.curs])
      obtain ⟨x, hx, -⟩ := Option.map_eq_some_iff.mp
        (I.place.alive (.exec k) c₀ (PlaceInv.mem_exec (State.exec_thread hc)))
      simp only [State.step, State.stepRun, hc, State.stepThread, State.stepSwap, State.withTcb,
        hx] at hs
      split_ifs at hs
      obtain rfl := Option.some.inj hs
      exact .swap hc hx
    · next p sb t hc =>
      obtain rfl : f = none := ha
      simp only [State.step, State.stepRun, hc, State.stepThread, State.stepCreate] at hs
      split_ifs at hs with hhalt h₁ h₂
      · cases h₁
      · cases h₂.1
      · obtain rfl := Option.some.inj hs
        exact .createBody hc
    · split_ifs at hact
      simp at hact
    · cases hact
  | _ => simp [State.ctxAct] at hact

/-- The context of a thread that is neither finished nor executed is the one that was last written,
and it has not been resumed since. -/
theorem lastCtxAct_of_context (hn : 0 < n) (hr : (machine n cfg).Run Obeys h s) :
    ∀ q c, s.context q = some (some c) → lastCtxAct h q = some (.write c) := by
  refine hr.history_invariant ?_ ?_
    (I := fun h s => ∀ q c, s.context q = some (some c) → lastCtxAct h q = some (.write c))
  · intro q c hc
    have hs : (State.init n cfg).suspended q = none := State.init_suspended hn q
    have hc : (State.init n cfg).context q = some (some c) := hc
    simp [State.suspended_eq_context, hc] at hs
  · intro h s e s' hr ih o hs q c hc
    have I := inv_of_reachable hn hr.reachable
    simp only [lastCtxAct, List.findSome?_cons]
    cases hact : s.ctxAct q e with
    | none =>
      refine ih q c ?_
      obtain rfl | rfl | ht := State.step_cases hs
      · exact hc
      · exact hc
      · exact ht.context_eq_of_ctxAct I o.alloc hact hc
    | some a =>
      cases a with
      | write c' =>
        rw [(I.trans_of_write o.alloc hact hs).context_of_write I o.alloc hact hc]
      | resume =>
        have := State.context_of_executed (I.executed_of_resume hact hs)
        simp [this] at hc

/-! ### The identifier of a thread -/

/-- The identifier that a step gives to thread `p` when it creates it. -/
def State.creates (s : State n) (p : Ptr) : Event n → Option Tid
  | (k, .run _) =>
    match (s.kt k).ctl with
    | .thread _ (.create _ (.body t)) => if s.fresh = p then some t else none
    | _ => none
  | _ => none

/-- The identifier that `uthread_create` stored for thread `p`. -/
def createdTid (h : List (State n × Event n)) (p : Ptr) : Option Tid :=
  (h.findSome? fun x => x.1.creates p x.2).or (if p = mainTcb then some tidMain else none)

theorem PlaceInv.creates_eq_none (I : PlaceInv s) (hp : s.heap p ≠ none) :
    s.creates p e = none := by
  have hne : s.fresh ≠ p := fun hf => hp (I.bound p (Nat.le_of_eq hf))
  unfold State.creates
  split
  · split
    · simp [hne]
    · rfl
  · rfl

/-- The identifier of a thread never changes. -/
theorem createdTid_of_heap (hn : 0 < n) (hr : (machine n cfg).Run Obeys h s) :
    ∀ p x, s.heap p = some x → createdTid h p = some x.tid := by
  refine hr.history_invariant ?_ ?_
    (I := fun h s => ∀ p x, s.heap p = some x → createdTid h p = some x.tid)
  · intro p x hx
    by_cases hp : p = mainTcb
    · obtain rfl : _ = x := by simpa [machine, State.init_heap, hp] using hx
      simp [createdTid, hp]
    · simp [machine, State.init_heap, hp] at hx
  · intro h s e s' hr ih o hs p x hx
    have I := inv_of_reachable hn hr.reachable
    -- a thread that was there before the step has kept its identifier
    have hold {y : Tcb} (hy : s.heap p = some y) (hyx : y.tid = x.tid) :
        createdTid ((s, e) :: h) p = some x.tid := by
      have := I.place.creates_eq_none (e := e) (p := p) (by simp [hy])
      simpa [createdTid, this, hyx] using ih p y hy
    obtain rfl | rfl | ht := State.step_cases hs
    · exact hold hx rfl
    · exact hold hx rfl
    · rcases ht.table_cases o.alloc with hsame | hedit
      · have htid := hsame.tid p
        rw [hx] at htid
        obtain ⟨y, hy, hyx⟩ := Option.map_eq_some_iff.mp htid.symm
        exact hold hy hyx
      · cases hedit with
        | @create p₀ sb t hc =>
          by_cases hp : p = s.fresh
          · obtain rfl : State.newTcb t s.fresh sb (s.kt e.1).blocked = x := by
              simpa [State.goto, State.setK, hp] using hx
            have hnone := I.place.bound p (Nat.le_of_eq hp.symm)
            obtain ⟨f, hf⟩ := ht.run_of_heap_ne (q := p) (by rw [hx, hnone]; simp)
            obtain ⟨k, i⟩ := e
            obtain rfl : i = .run f := hf
            simp [createdTid, State.creates, hc, hp, State.newTcb]
          · exact hold (by simpa [State.goto, State.setK, hp] using hx) rfl
        | @destroy p₀ t pret rv q y hc hq hy =>
          by_cases hp : p = q
          · simp [State.goto, State.setK, hp] at hx
          · exact hold (by simpa [State.goto, State.setK, hp] using hx) rfl
        | free hc hq hy =>
          simp only [State.goto, State.setK, I.heap_free] at hx
          cases hx

/-- The value that `uthread_self` returned is `current_tid`. -/
def SelfOk (s : State n) : Prop :=
  ∀ k p v, (s.kt k).ctl = .thread p (.user (.self v)) → v = (s.kt k).currentTid

theorem Op.start_ne_user (o : Op) (r : Ret) : o.start ≠ .user r := by cases o <;> simp [Op.start]

theorem Resume.pc_ne_self (r : Resume) (v : ℤ) : r.pc ≠ .user (.self v) := by
  cases r with
  | yielded o =>
    cases o with
    | none => simp [Resume.pc]
    | some o => exact o.start_ne_user _
  | _ => simp [Resume.pc]

theorem Trans.selfOk (h : Trans cfg s e s') (hs : SelfOk s) : SelfOk s' := by
  intro k p v hk
  by_cases hke : k = e.1
  · subst hke
    have hs := hs e.1 p v
    cases h with
    | @call k c p r hc =>
      cases c with
      | op o => cases o <;> simp [Call.enter] at hk
      | _ => simp_all [Call.enter]
    | tick =>
      simp only [State.setK_kt] at hk ⊢
      exact hs hk
    | deliver =>
      simp only [State.setK_kt] at hk ⊢
      exact hs hk
    | acquire h =>
      generalize hc : (s.kt _).ctl = c at h
      cases h <;> simp [State.goto] at hk
    | release h => cases h <;> simp [State.goto] at hk
    | quiet h =>
      cases h with
      | @start p o hc =>
        simp only [State.setK_kt, Ctl.thread.injEq] at hk
        exact absurd hk.2 (o.start_ne_user _)
      | _ => simp at hk
    | signal h => cases h <;> simp [State.goto] at hk
    | insert h =>
      generalize hc : (s.kt _).ctl = c at h
      cases h <;> simp [State.goto] at hk
    | parkJoin h =>
      generalize hc : (s.kt _).ctl = c at h
      cases h <;> simp [State.goto] at hk
    | parkSem h =>
      generalize hc : (s.kt _).ctl = c at h
      cases h <;> simp [State.goto] at hk
    | dispSet hc hx hctx =>
      simp only [State.setK_kt, Ctl.thread.injEq] at hk
      exact absurd hk.2 (Resume.pc_ne_self _ _)
    | _ => simp [State.goto] at hk
  · rw [h.kt_of_ne hke] at hk ⊢
    exact hs k p v hk

theorem selfOk_of_reachable (hr : (machine n cfg).Reachable Obeys s) : SelfOk s := by
  refine hr.invariant ?_ ?_
  · intro k p v hk
    obtain ⟨-, h⟩ | ⟨-, h⟩ := State.init_kt_cases n cfg k <;> simp [machine, h] at hk
  · intro s e s' hs _ h
    obtain rfl | rfl | h := State.step_cases h
    · exact hs
    · exact hs
    · exact h.selfOk hs

/-! ### The main result -/

/-- A kernel thread in user code executes a running thread, whose identifier it knows. -/
theorem Inv.running_of_user (I : Inv s) {r : Ret} (hc : (s.kt k).ctl = .thread p (.user r)) :
    ∃ x, s.heap p = some x ∧ x.state = .running ∧ (s.kt k).currentTid = x.tid := by
  obtain ⟨x, hx, hst⟩ := Option.map_eq_some_iff.mp
    (I.place.alive (.exec k) p (PlaceInv.mem_exec (State.exec_thread hc)))
  have hst : x.state = .running := by
    simpa [State.placeState, KThread.execState, hc, Pc.state] using hst
  have hcur := I.table.currentTcb_thread hc
  simp only [State.currentTcb] at hcur
  split_ifs at hcur with h0
  obtain ⟨y, hy, hyt⟩ := I.table.slot _ _ hcur
  obtain rfl : x = y := Option.some.inj (hx.symm.trans hy)
  exact ⟨x, hx, hst, by rw [hyt, Int.toNat_of_nonneg h0]⟩

/-- For any number of kernel threads and any interleaving of a program that obeys the documented
preconditions:

* when `schedule` is about to execute `setcontext(&q->ctx)`, the context there is the one that was
  last written for `q`, by `q` itself or at its creation, and it has not been resumed since;
* no two kernel threads execute the same thread;
* a kernel thread that executes user code has in `current_tid` the identifier that
  `uthread_create` stored for the thread, which is what `uthread_self` returned if that was the last
  call, and the thread is `RUNNING`;
* a thread that `uthread_join` is about to destroy is not executed by any kernel thread. -/
theorem save_before_resume (hn : 0 < n) (hr : (machine n cfg).Run Obeys h s) :
    (∀ k q, (s.kt k).ctl = .sched (.dispSet q) →
      ∃ x c, s.heap q = some x ∧ x.ctx = some c ∧ c.thread = q ∧
        lastCtxAct h q = some (.write c)) ∧
    (∀ k k' p, (s.kt k).ctl.thread? = some p → (s.kt k').ctl.thread? = some p → k = k') ∧
    (∀ k p r, (s.kt k).ctl = .thread p (.user r) →
      ∃ x t, s.heap p = some x ∧ x.state = .running ∧ createdTid h p = some t ∧
        (s.kt k).currentTid = t ∧ ∀ v, r = .self v → v = t) ∧
    ∀ k p t pret rv q, (s.kt k).ctl = .thread p (.join t pret (.destroy rv)) →
      s.tcbs t = some q → ∀ k', s.exec k' ≠ some q := by
  have I := inv_of_reachable hn hr.reachable
  refine ⟨fun k q hc => ?_, fun k k' p hk hk' => I.place.thread_unique hk hk', ?_, ?_⟩
  · obtain ⟨x, c, hx, hctx, hth, hcontext⟩ := I.context_of_dispSet hc
    exact ⟨x, c, hx, hctx, hth, lastCtxAct_of_context hn hr q c hcontext⟩
  · intro k p r hc
    obtain ⟨x, hx, hst, hcur⟩ := I.running_of_user hc
    refine ⟨x, x.tid, hx, hst, createdTid_of_heap hn hr p x hx, hcur, ?_⟩
    rintro v rfl
    rw [selfOk_of_reachable hr.reachable k p v hc, hcur]
  · intro k p t pret rv q hc hq
    exact I.join.passed k t q (by simp [hc, Ctl.pc?, Pc.passed]) hq

/-- The main thread has yielded, and the thread that it created is about to be resumed. -/
theorem save_before_resume_yielded : ∃ (h : List (State 1 × Event 1)) (s : State 1),
    (s.kt 0).ctl = .sched (.dispSet 1) ∧
      ∃ x c, s.heap 1 = some x ∧ x.ctx = some c ∧ c.thread = 1 ∧
        lastCtxAct h 1 = some (.write c) := by
  obtain ⟨h, s, hr, hs⟩ := EventMachine.exists_run_of_exec
    (M := machine 1 ⟨0⟩) (P := Obeys)
    (runs 0 2 ++ [(0, .call (.op (.create false)))] ++ runs 0 12 ++ [(0, .call .yield)] ++
      runs 0 20)
    (p := fun x => (x.2.kt 0).ctl = .sched (.dispSet 1)) (by decide +kernel)
  have hc := of_decide_eq_true hs
  exact ⟨h, s, hc, (save_before_resume Nat.one_pos hr).1 0 1 hc⟩

end Uthread
