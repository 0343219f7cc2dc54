import Uthread.Invariant.Table

/-!
# Saved contexts

Where a thread is suspended changes only at a context switch, at its creation and when the control
blocks are freed (`Trans.suspends`). From this follows that `CtxInv` is kept by every step.
-/

namespace Uthread

variable {n : ℕ} {cfg : Config} {s s' : State n} {e : Event n} {k : Fin n} {p q : Ptr}

/-! ### Where a thread is suspended -/

theorem State.suspended_eq_context (p : Ptr) :
    s.suspended p = (s.context p).bind fun c => c.map (·.resume) := by
  unfold State.suspended State.context
  split
  · rfl
  · cases s.heap p with
    | none => rfl
    | some x => by_cases hx : x.state = .finished <;> simp [Tcb.saved, hx]

theorem State.suspended_of_finished (h : s.stateOf p = some .finished) : s.suspended p = none := by
  obtain ⟨x, hx, hst⟩ := Option.map_eq_some_iff.mp h
  rw [State.suspended_eq_context, State.context, hx]
  split <;> simp [Tcb.saved, hst]

theorem State.heap_ne_none_of_suspended {r : Resume} (h : s.suspended p = some r) :
    s.heap p ≠ none := fun hn => by
  simp [State.suspended, hn] at h

theorem State.not_executed_of_context {o : Option Ctx} (h : s.context p = some o) (k : Fin n) :
    (s.kt k).ctl.thread? ≠ some p := fun hk => by
  simp [State.context_of_executed hk] at h

theorem State.context_of_heap_eq_none (h : s.heap p = none) : s.context p = none := by
  simp [State.context, h]

theorem State.context_eq_of_saved
    (hth : ∀ k, (s'.kt k).ctl.thread? = some p ↔ (s.kt k).ctl.thread? = some p)
    (hs : (s'.heap p).bind Tcb.saved = (s.heap p).bind Tcb.saved) :
    s'.context p = s.context p := by
  simp only [State.context, hth, hs]

theorem State.setTcb_saved {x y : Tcb} (hx : s.heap q = some x) (hy : y.saved = x.saved)
    (p : Ptr) : ((s.setTcb q y).heap p).bind Tcb.saved = (s.heap p).bind Tcb.saved := by
  by_cases hp : p = q <;> simp [State.setTcb, hp, hx, hy]

/-- The steps after which a kernel thread executes another context. -/
inductive Switches (cfg : Config) (s : State n) (k : Fin n) : State n → Prop
  | swap {p c x r} (hc : (s.kt k).ctl = .thread p (.swap (some c) r)) (hx : s.heap c = some x) :
      Switches cfg s k ((s.setTcb c { x with ctx := some ⟨p, r, (s.kt k).blocked⟩ }).setK k
        { s.kt k with ctl := .sched .entry, blocked := cfg.preemptive })
  | exitSwitch {p v} (hc : (s.kt k).ctl = .thread p (.exit v .switch)) :
      Switches cfg s k
        (s.setK k { s.kt k with ctl := .sched .entry, blocked := cfg.preemptive })
  | dispSet {q x c} (hc : (s.kt k).ctl = .sched (.dispSet q)) (hx : s.heap q = some x)
      (hctx : x.ctx = some c) :
      Switches cfg s k (s.setK k { s.kt k with
        ctl := .thread c.thread c.resume.pc, blocked := c.blocked })
  | free {p q x} (hc : (s.kt k).ctl = .thread p (.teardown .free))
      (hq : s.tcbs tidMain = some q) (hx : s.heap q = some x) :
      Switches cfg s k ({ s with
        heap := fun q => if (List.range maxThreads).any (s.tcbs · == some q) then none
          else s.heap q
        tcbs := fun t => if t < maxThreads then none else s.tcbs t
        rqueue := []
        infoFreed := true }.goto k (.closing .unblock))

/-- The other steps keep what the kernel thread executes. -/
theorem Trans.switch_cases (h : Trans cfg s e s') :
    (s'.kt e.1).ctl.thread? = (s.kt e.1).ctl.thread? ∨ Switches cfg s e.1 s' := by
  cases h with
  | @call k c p r hc =>
    left
    cases c with
    | op o => cases o <;> simp [Call.enter, Ctl.thread?, hc]
    | _ => simp [Call.enter, Ctl.thread?, hc]
  | tick => exact .inl (by simp)
  | deliver => exact .inl (by simp)
  | acquire h =>
    left
    generalize hc : (s.kt _).ctl = c at h
    cases h <;> simp [State.goto, Ctl.thread?]
  | release h =>
    left
    cases h <;> rename_i hc <;> simp_all [State.goto, Ctl.thread?]
  | quiet h =>
    left
    cases h <;> simp_all [Ctl.thread?, KThread.block]
  | signal h =>
    left
    cases h <;> simp_all [State.goto, Ctl.thread?]
  | insert h =>
    left
    generalize hc : (s.kt _).ctl = c at h
    cases h <;> simp [State.goto, Ctl.thread?]
  | entry hc hcur h =>
    left
    generalize hta : (s.kt _).task = ta at h
    cases h <;> simp [Ctl.thread?, hc]
  | parkJoin h hq hx =>
    left
    generalize hc : (s.kt _).ctl = c at h
    cases h <;> simp [State.goto, Ctl.thread?]
  | parkSem h hq hx =>
    left
    generalize hc : (s.kt _).ctl = c at h
    cases h <;> simp [State.goto, Ctl.thread?]
  | swap hc hx => exact .inr (.swap hc hx)
  | exitSwitch hc => exact .inr (.exitSwitch hc)
  | dispSet hc hx hctx => exact .inr (.dispSet hc hx hctx)
  | teardownFree hc hq hx => exact .inr (.free hc hq hx)
  | _ hc =>
    left
    simp [State.goto, Ctl.thread?, hc]

/-- What a step of kernel thread `k` does to the context of thread `q`. -/
inductive Suspends (s : State n) (k : Fin n) (s' : State n) (q : Ptr) : Prop
  | same (h : s'.context q = s.context q)
  | saves {r : Resume} (hc : (s.kt k).ctl = .thread q (.swap (some q) r))
      (hc' : (s'.kt k).ctl = .sched .entry)
      (h : s'.context q = some (some ⟨q, r, (s.kt k).blocked⟩))
  | resumes {c : Ctx} (hc : (s.kt k).ctl = .sched (.dispSet q))
      (hc' : (s'.kt k).ctl = .thread q c.resume.pc) (h : s.context q = some (some c))
      (h' : s'.context q = none)
  | creates {p' : Ptr} {sb : Bool} {t : Tid}
      (hc : (s.kt k).ctl = .thread p' (.create sb (.body t))) (hq : q = s.fresh)
      (h : s'.context q = some (some ⟨q, .start, (s.kt k).blocked⟩))
  | frees {p' : Ptr} (hc : (s.kt k).ctl = .thread p' (.teardown .free))
      (h : ∀ r, s'.heap r = none)

/-- A step that switches no context keeps what is saved in the control blocks of the threads that
are not executed, besides the one it creates. -/
theorem Trans.saved_eq (h : Trans cfg s e s') (I : Inv s) (ha : AllocOk e)
    (hsame : (s'.kt e.1).ctl.thread? = (s.kt e.1).ctl.thread?)
    (hq : (s.kt e.1).ctl.thread? ≠ some q) (hq' : q ≠ s.fresh) :
    (s'.heap q).bind Tcb.saved = (s.heap q).bind Tcb.saved := by
  cases h with
  | signal h => cases h <;> rfl
  | @yieldBody k f p o c x hc hcur hx hst => exact State.setTcb_saved hx (by simp [Tcb.saved, hst]) q
  | @exitBody k f p v c x hc hcur hx hst =>
    obtain rfl : p = c := by simpa [I.table.currentTcb_thread hc] using hcur
    have hqp : q ≠ p := fun h => hq (by simp [hc, Ctl.thread?, h])
    simp [State.setK, State.setTcb, hqp]
  | @joinBlock k f p t pret c q₀ x y hc hx hst hy hj =>
    obtain rfl : c = p := I.table.cur_eq hc (by simp [Pc.curs])
    have hqp : q ≠ c := fun h => hq (by simp [hc, Ctl.thread?, h])
    simp [State.setK, State.setTcb, hqp]
  | @postReady k f p i q x hc hx hst => exact State.setTcb_saved hx (by simp [Tcb.saved, hst]) _
  | @waitPark k f p i c x hc hx =>
    obtain rfl : c = p := I.table.cur_eq hc (by simp [Pc.curs])
    have hqp : q ≠ c := fun h => hq (by simp [hc, Ctl.thread?, h])
    simp [State.goto, State.setK, State.setTcb, hqp]
  | @schedExitWake k f cur x j rest y hc hx hj hy hst => 
    exact (State.setTcb_saved hy (by simp [Tcb.saved, hst]) q).trans (State.setTcb_saved hx (by rfl) q)
  | parkJoin h hq hx => exact State.setTcb_saved hx (by rfl) q
  | @schedTeardown k f cur x hc hx =>
    have hst : x.state = .running := by
      simpa [State.stateOf, State.placeState, KThread.execState, hx, hc] using
        I.place.alive (.exec k) cur (PlaceInv.mem_exec (by
          simp [State.exec, KThread.exec, SchedPc.moving, hc]))
    exact State.setTcb_saved hx (by simp [Tcb.saved, hst]) q
  | dispBody hc hx hst => exact State.setTcb_saved hx (by simp [Tcb.saved, hst]) _
  | @createBody k f p sb t hc => simp [State.goto, State.setK, hq']
  | @joinDestroy k f p t pret rv q₀ x hc hq₀ hx =>
    have hst : x.state = .finished := by
      simpa [State.stateOf, hx] using I.join.waited k t q₀ (by simp [hc, Ctl.pc?, Pc.waited]) hq₀
    by_cases hqq : q = q₀
    · simp [State.goto, State.setK, Tcb.saved, hqq, hx, hst]
    · simp [State.goto, State.setK, hqq]
  | swap hc => simp [hc, Ctl.thread?] at hsame
  | teardownFree hc => simp [hc, Ctl.thread?, State.goto] at hsame
  | _ => rfl

/-- The next address to be allocated is that of no thread, unless the step creates one. -/
theorem Trans.suspends_fresh (h : Trans cfg s e s') (I : Inv s) (ha : AllocOk e)
    (hf : q = s.fresh) (hq : ∀ k, (s'.kt k).ctl.thread? ≠ some q) : Suspends s e.1 s' q := by
  have hnone : s.heap q = none := I.place.bound q (Nat.le_of_eq hf.symm)
  have hsame (h : s'.heap q = none) : Suspends s e.1 s' q :=
    .same (by rw [State.context_of_heap_eq_none h, State.context_of_heap_eq_none hnone])
  rcases h.table_cases ha with ht | ht
  · refine hsame ?_
    simpa [hnone] using ht.tid q
  · cases ht with
    | create hc =>
      refine .creates hc hf ?_
      rw [State.context_of_not_executed hq]
      simp [State.goto, State.setK, hf, Tcb.saved, State.newTcb]
    | @destroy p t pret rv q₀ x hc hq₀ hx =>
      refine hsame ?_
      have : q ≠ q₀ := by
        rintro rfl
        simp [hnone] at hx
      simp [State.goto, State.setK, this, hnone]
    | free hc hq₀ hx => exact hsame (by simp only [State.goto, State.setK, I.heap_free])

/-- A thread that switches to the scheduler leaves behind where it goes on. -/
theorem Inv.context_of_swap (I : Inv s) {p : Ptr} {r : Resume} {x y : Tcb} {c : Ctl} {b : Bool}
    (hc : (s.kt k).ctl = .thread p (.swap (some p) r)) (hx : s.heap p = some x) (hy : y.state = x.state)
    (hth : c.thread? = none) :
    ((s.setTcb p y).setK k { s.kt k with ctl := c, blocked := b }).context p = some y.ctx := by
  have hp := State.exec_thread hc
  have hst : x.state = Pc.state (.swap (some p) r) := by
    simpa [State.stateOf, State.placeState, KThread.execState, hx, hc] using
      I.place.alive (.exec k) p (PlaceInv.mem_exec hp)
  rw [State.context_of_not_executed]
  · have : y.state ≠ .finished := by
      rw [hy, hst]
      cases r <;> simp [Pc.state]
    simp [State.setK, State.setTcb, Tcb.saved, this]
  · intro k'
    by_cases hk : k' = k
    · simp [hk, hth]
    · have hne : (s.kt k').ctl.thread? ≠ some p := fun hk' =>
        hk (I.place.thread_unique hk' (by simp [hc, Ctl.thread?]))
      simpa [State.setK, State.setTcb, Function.update_of_ne hk] using hne

/-- A context switch saves or resumes the thread that the kernel thread has. -/
theorem Switches.suspends (hsw : Switches cfg s k s') (I : Inv s)
    (hkt : ∀ k', k' ≠ k → s'.kt k' = s.kt k') (q : Ptr) : Suspends s k s' q := by
  -- nobody executes the thread `p` besides kernel thread `k`
  have huniq {p : Ptr} (hp : s.exec k = some p) (k' : Fin n) (hk : k' ≠ k) :
      (s'.kt k').ctl.thread? ≠ some p := by
    rw [hkt k' hk]
    intro hk'
    refine hk ?_
    simpa using I.place.excl.unique (PlaceInv.mem_exec (State.exec_of_thread? hk'))
      (PlaceInv.mem_exec hp)
  have hother {p : Ptr} (hp : s.exec k = some p) (hqp : q ≠ p)
      (hp' : (s'.kt k).ctl.thread? = none ∨ (s'.kt k).ctl.thread? = some p) (k' : Fin n) :
      (s'.kt k').ctl.thread? = some q ↔ (s.kt k').ctl.thread? = some q := by
    by_cases hk : k' = k
    · subst hk
      have : (s.kt k').ctl.thread? ≠ some q := fun h =>
        hqp (Option.some.inj ((State.exec_of_thread? h).symm.trans hp))
      rcases hp' with h | h <;> simp [h, this, Ne.symm hqp]
    · rw [hkt k' hk]
  cases hsw with
  | @swap p c x r hc hx =>
    obtain rfl : c = p := I.table.cur_eq hc (by simp [Pc.curs])
    have hp := State.exec_thread hc
    by_cases hqp : q = c
    · subst hqp
      exact .saves hc (by simp) (I.context_of_swap hc hx rfl rfl)
    · refine .same (State.context_eq_of_saved (hother hp hqp (by simp [Ctl.thread?])) ?_)
      simp [State.setK, State.setTcb, hqp]
  | @exitSwitch p v hc =>
    have hp := State.exec_thread hc
    by_cases hqp : q = p
    · subst hqp
      refine .same ?_
      rw [State.context_of_executed (s := s) (k := k) (by simp [hc, Ctl.thread?]),
        State.context_of_not_executed]
      · have hst := I.place.alive (.exec k) q (PlaceInv.mem_exec hp)
        simp only [State.stateOf, State.placeState, KThread.execState, hc, Pc.state,
          Option.map_eq_some_iff] at hst
        obtain ⟨x, hx, hst⟩ := hst
        simp [State.setK, hx, Tcb.saved, hst]
      · intro k'
        by_cases hk : k' = k
        · simp [hk, Ctl.thread?]
        · exact huniq hp k' hk
    · exact .same (State.context_eq_of_saved (hother hp hqp (by simp [Ctl.thread?])) rfl)
  | @dispSet q₀ x c hc hx hctx =>
    have hp : s.exec k = some q₀ := by simp [State.exec, KThread.exec, SchedPc.moving, hc]
    have hth := (I.ctx.thread_eq I.place hp (by simp [KThread.execState, hc])
      (by simp [hc, Ctl.thread?]) hx hctx).1
    by_cases hqp : q = q₀
    · subst hqp
      have hst : x.state = .running := by
        simpa [State.stateOf, State.placeState, KThread.execState, hx, hc] using
          I.place.alive (.exec k) q (PlaceInv.mem_exec hp)
      refine .resumes (c := c) hc (by simp [hth]) ?_ ?_
      · rw [State.context_of_not_executed (I.place.not_executed hp (by simp [hc, Ctl.thread?]))]
        simp [hx, Tcb.saved, hst, hctx]
      · exact State.context_of_executed (k := k) (by simp [Ctl.thread?, hth])
    · exact .same (State.context_eq_of_saved (hother hp hqp (by simp [Ctl.thread?, hth])) rfl)
  | @free p q₀ x hc hq hx =>
    refine .frees hc fun r => ?_
    simp only [State.goto, State.setK, I.heap_free]

/-- Where a thread is suspended changes at a context switch, at its creation and when the control
blocks are freed. -/
theorem Trans.suspends (h : Trans cfg s e s') (I : Inv s) (ha : AllocOk e) (q : Ptr) :
    Suspends s e.1 s' q := by
  have hkt := fun k hk => h.kt_of_ne (k := k) hk
  rcases h.switch_cases with hsame | hsw
  · have hth (k : Fin n) : (s'.kt k).ctl.thread? = some q ↔ (s.kt k).ctl.thread? = some q := by
      by_cases hk : k = e.1
      · rw [hk, hsame]
      · rw [hkt k hk]
    by_cases hq : ∃ k, (s.kt k).ctl.thread? = some q
    · obtain ⟨k, hq⟩ := hq
      refine .same ?_
      rw [State.context_of_executed hq, State.context_of_executed ((hth k).2 hq)]
    · have hq : ∀ k, (s.kt k).ctl.thread? ≠ some q := by simpa using hq
      by_cases hf : q = s.fresh
      · exact h.suspends_fresh I ha hf fun k hk => hq k ((hth k).1 hk)
      · exact .same (State.context_eq_of_saved hth (h.saved_eq I ha hsame (hq e.1) hf))
  · exact hsw.suspends I hkt q

/-- A kernel thread that begins to execute a thread resumes its context. -/
theorem Trans.resumes (h : Trans cfg s e s') (I : Inv s) (hc : (s.kt e.1).ctl = .sched (.dispSet q))
    (hth : (s'.kt e.1).ctl.thread? = some p) :
    p = q ∧ ∃ c : Ctx, s.context q = some (some c) ∧
      (s'.kt e.1).ctl = .thread q c.resume.pc := by
  rcases h.switch_cases with hsame | hsw
  · rw [hsame, hc] at hth
    cases hth
  · generalize e.1 = k at hsw hc hth
    cases hsw with
    | @dispSet q₀ x c hc₀ hx hctx =>
      obtain rfl : q₀ = q := by simpa [hc₀] using hc
      have hp : s.exec k = some q₀ := by simp [State.exec, KThread.exec, SchedPc.moving, hc]
      have hst : (s.kt k).execState ≠ .finished := by simp [KThread.execState, hc]
      have hk : (s.kt k).ctl.thread? = none := by simp [hc, Ctl.thread?]
      have hthread := (I.ctx.thread_eq I.place hp hst hk hx hctx).1
      refine ⟨?_, c, by rw [I.place.context_eq hp hst hk hx, hctx], by simp [hthread]⟩
      simpa [Ctl.thread?, hthread] using hth.symm
    | _ hc₀ => simp [hc₀] at hc

/-- A thread that has saved its context is in the hands of its scheduler. -/
theorem Trans.exec_of_swap (h : Trans cfg s e s') (I : Inv s) {r : Resume}
    (hc : (s.kt e.1).ctl = .thread p (.swap (some p) r))
    (hc' : (s'.kt e.1).ctl = .sched .entry) : s'.exec e.1 = some p := by
  have ht := I.task e.1
  have hcur := I.table.currentTcb_thread hc
  rcases h.switch_cases with hsame | hsw
  · rw [hc, hc'] at hsame
    cases hsame
  · generalize e.1 = k at hsw hc hc' ht hcur
    cases hsw with
    | @swap p₀ c x r₀ hc₀ hx =>
      rw [hc] at hc₀
      cases hc₀
      simp only [KThread.TaskOk, hc] at ht
      have ht' : (s.kt k).task ≠ .none := by cases r <;> simp_all [Pc.task]
      refine (State.exec_entry hc' (by simpa using ht') rfl).trans ?_
      simpa [State.currentTcb, State.setK, State.setTcb] using hcur
    | _ hc₀ => simp [hc] at hc₀

/-- A thread in a place that does not belong to the acting kernel thread stays suspended where it
is. -/
theorem Trans.context_eq_of_mem (h : Trans cfg s e s') (I : Inv s) (ha : AllocOk e)
    {c : Place n} (hp : p ∈ s.holds c) (hc : c ≠ .exec e.1) (hp' : s'.heap p ≠ none) :
    s'.context p = s.context p := by
  have hne (hk : s.exec e.1 = some p) : False :=
    hc (I.place.excl.unique hp (PlaceInv.mem_exec hk))
  cases h.suspends I ha p with
  | same h => exact h
  | saves hc => exact (hne (State.exec_thread hc)).elim
  | resumes hc =>
    refine (hne ?_).elim
    simp [State.exec, KThread.exec, SchedPc.moving, hc]
  | creates hc hq =>
    have := I.place.alive c p hp
    simp [State.stateOf, I.place.bound p (Nat.le_of_eq hq.symm)] at this
  | frees hc h => exact absurd (h p) hp'

theorem Trans.suspended_eq_of_mem (h : Trans cfg s e s') (I : Inv s) (ha : AllocOk e)
    {c : Place n} (hp : p ∈ s.holds c) (hc : c ≠ .exec e.1) (hp' : s'.heap p ≠ none) :
    s'.suspended p = s.suspended p := by
  rw [State.suspended_eq_context, State.suspended_eq_context, h.context_eq_of_mem I ha hp hc hp']

/-- Every step keeps the contexts of the suspended threads. -/
theorem Trans.ctx_saved (h : Trans cfg s e s') (I : Inv s) (ha : AllocOk e) (p : Ptr)
    (o : Option Ctx) (hp : s'.context p = some o) :
    ∃ r b, o = some ⟨p, r, b⟩ ∧ ∀ c ∈ r.cur?, c = some p := by
  cases h.suspends I ha p with
  | same h => exact I.ctx.saved p o (h ▸ hp)
  | @saves r hc hc' h =>
    have hl := I.table.locals e.1
    rw [hp] at h
    refine ⟨r, _, Option.some.inj h, fun c hcur => ?_⟩
    simp only [Ctl.LocalsOk, hc, Pc.curs, List.mem_cons, Option.mem_toList] at hl
    exact hl c (.inr hcur)
  | resumes hc hc' h h' => simp [h'] at hp
  | creates hc hq h =>
    exact ⟨.start, _, Option.some.inj (hp.symm.trans h), by simp [Resume.cur?]⟩
  | frees hc h => simp [State.context_of_heap_eq_none (h p)] at hp

theorem Pc.task_swap {cur : Option Ptr} {r : Resume} {ta : SchedTask × Option SemId}
    (h : Pc.task (.swap cur r) = some ta) : r.task = ta := by
  cases r <;> simp_all [Pc.task, Resume.task]

/-- A kernel thread that is about to carry out a task switches no context. -/
theorem Trans.context_eq_of_hands (h : Trans cfg s e s') (I : Inv s) (ha : AllocOk e)
    (hk : (s.kt e.1).hands = true) (p : Ptr) : s'.context p = s.context p := by
  cases h.suspends I ha p with
  | same h => exact h
  | _ hc => simp [KThread.hands, hc] at hk

theorem Trans.suspended_eq_of_hands (h : Trans cfg s e s') (I : Inv s) (ha : AllocOk e)
    (hk : (s.kt e.1).hands = true) (p : Ptr) : s'.suspended p = s.suspended p := by
  rw [State.suspended_eq_context, State.suspended_eq_context, h.context_eq_of_hands I ha hk]

/-- The steps after which the acting kernel thread is about to carry out a task. -/
theorem Trans.hands_cases (h : Trans cfg s e s') (I : Inv s) (hk' : (s'.kt e.1).hands = true)
    (hp : s'.exec e.1 = some p) :
    ((s.kt e.1).hands = true ∧ s.exec e.1 = some p ∧ (s'.kt e.1).task = (s.kt e.1).task ∧
        (s'.kt e.1).lock = (s.kt e.1).lock ∧ (s'.kt e.1).queue = (s.kt e.1).queue) ∨
      (∃ r, (s.kt e.1).ctl = .thread p (.swap (some p) r) ∧
        (s'.kt e.1).task = (s.kt e.1).task ∧ (s'.kt e.1).lock = (s.kt e.1).lock ∧
        (s'.kt e.1).queue = (s.kt e.1).queue) ∨
      s'.stateOf p = some .finished := by
  have ht := I.task e.1
  cases h with
  | @call k c p r hc =>
    cases c with
    | op o => cases o <;> simp [Call.enter, KThread.hands] at hk'
    | _ => simp [Call.enter, KThread.hands] at hk'
  | tick =>
    simp only [State.setK_kt, KThread.hands] at hk'
    refine .inl ⟨hk', ?_, by simp⟩
    simpa [State.exec, KThread.exec, State.setK] using hp
  | deliver =>
    simp only [State.setK_kt, KThread.hands] at hk'
    refine .inl ⟨hk', ?_, by simp⟩
    simpa [State.exec, KThread.exec, State.setK] using hp
  | acquire h =>
    generalize hc : (s.kt _).ctl = c at h
    cases h <;> simp [State.goto, KThread.hands] at hk'
  | release h => cases h <;> simp [State.goto, KThread.hands] at hk'
  | quiet h =>
    cases h with
    | kmainStart hc => simp_all [KThread.TaskOk, State.exec, KThread.exec, KThread.block]
    | exitWaited hc => simp_all [KThread.TaskOk, State.exec, KThread.exec]
    | _ => simp [KThread.hands] at hk'
  | signal h => cases h <;> simp [State.goto, KThread.hands] at hk'
  | insert h =>
    generalize hc : (s.kt _).ctl = c at h
    cases h <;> simp [State.goto, KThread.hands] at hk'
  | @exitSwitch k f p₀ v hc =>
    have hp₀ := I.table.currentTcb_thread hc
    have hex : s.currentTcb k = some p := (State.exec_entry (by simp) (by
      simp only [KThread.TaskOk, hc, Pc.task, Option.some.injEq, Prod.mk.injEq] at ht
      simp [ht]) (by simp)).symm.trans hp
    obtain rfl : p₀ = p := Option.some.inj (hp₀.symm.trans hex)
    have := I.place.alive (.exec k) p₀ (PlaceInv.mem_exec (State.exec_thread hc))
    simp only [State.placeState, KThread.execState, hc, Pc.state] at this
    exact .inr (.inr this)
  | @swap k f p₀ c x r hc hx =>
    have hp₀ := I.table.currentTcb_thread hc
    have hex : s.currentTcb k = some p := (State.exec_entry (by simp) (by
      simp only [KThread.TaskOk, hc] at ht
      cases r <;> simp_all [Pc.task]) (by simp)).symm.trans hp
    obtain rfl : p₀ = p := Option.some.inj (hp₀.symm.trans hex)
    obtain rfl : c = p₀ := I.table.cur_eq hc (by simp [Pc.curs])
    exact .inr (.inl ⟨r, hc, by simp⟩)
  | entry hc hcur h =>
    refine .inl ⟨by simp [KThread.hands, hc], ?_, by simp [KThread.block]⟩
    have hex (hta : (s.kt _).task ≠ .none) := State.exec_entry (s := s) hc hta rfl
    generalize hta : (s.kt _).task = ta at h
    rw [State.exec, hex (by cases h <;> simp [hta]), hcur]
    cases h <;> simpa [State.exec, KThread.exec, SchedPc.moving, KThread.hands] using hp
  | parkJoin h hq hx =>
    generalize hc : (s.kt _).ctl = c at h
    cases h <;> simp [State.goto, KThread.hands] at hk'
  | parkSem h hq hx =>
    generalize hc : (s.kt _).ctl = c at h
    cases h <;> simp [State.goto, KThread.hands] at hk'
  | _ => simp [State.goto, KThread.hands] at hk'

/-- A thread that has saved its context continues at the point it saved. -/
theorem Trans.suspended_of_swap (h : Trans cfg s e s') (I : Inv s) (ha : AllocOk e) {r r' : Resume}
    (hc : (s.kt e.1).ctl = .thread p (.swap (some p) r')) (hr : s'.suspended p = some r) :
    r = r' := by
  rw [State.suspended_eq_context] at hr
  cases h.suspends I ha p with
  | same h => simp [h, State.context_of_executed (s := s) (k := e.1), hc, Ctl.thread?] at hr
  | saves hc₁ hc' h =>
    rw [hc] at hc₁
    cases hc₁
    simpa [h] using hr.symm
  | resumes hc₁ => simp [hc] at hc₁
  | creates hc₁ => simp [hc] at hc₁
  | frees hc₁ => simp [hc] at hc₁

/-- The task recorded in `sched_info` is the one of the thread that left it. -/
theorem Trans.ctx_handed (h : Trans cfg s e s') (I : Inv s) (ha : AllocOk e) (k : Fin n) (p : Ptr)
    (r : Resume) (hk : (s'.kt k).hands = true) (hp : s'.exec k = some p)
    (hr : s'.suspended p = some r) : r.task = ((s'.kt k).task, (s'.kt k).lock) := by
  by_cases hke : k = e.1
  · subst hke
    rcases h.hands_cases I hk hp with ⟨hk₀, hp₀, ht, hl, -⟩ | ⟨r', hc, ht, hl, -⟩ | hfin
    · rw [h.suspended_eq_of_hands I ha hk₀] at hr
      rw [ht, hl]
      exact I.ctx.handed e.1 p r hk₀ hp₀ hr
    · have hta := I.task e.1
      simp only [KThread.TaskOk, hc] at hta
      obtain rfl := h.suspended_of_swap I ha hc hr
      rw [ht, hl]
      exact Pc.task_swap hta.symm
    · simp [State.suspended_of_finished hfin] at hr
  · rw [h.exec_of_ne I ha hke] at hp
    rw [h.suspended_eq_of_mem I ha (PlaceInv.mem_exec hp) (by simpa using hke)
      (State.heap_ne_none_of_suspended hr)] at hr
    rw [h.kt_of_ne hke] at hk ⊢
    exact I.ctx.handed k p r hk hp hr

/-- A thread whose task is not yet carried out is suspended at the point that goes with it. -/
theorem Inv.handed_resume (I : Inv s) (hp : s.exec k = some p) (hk : (s.kt k).hands = true)
    (hst : (s.kt k).execState ≠ .finished) :
    ∃ r, s.suspended p = some r ∧ r.task = ((s.kt k).task, (s.kt k).lock) ∧
      ∀ c ∈ r.cur?, c = some p := by
  have hth : (s.kt k).ctl.thread? = none := by
    cases hc : (s.kt k).ctl <;> simp_all [KThread.hands, Ctl.thread?]
  obtain ⟨x, hx, -⟩ := Option.map_eq_some_iff.mp
    (I.place.alive (.exec k) p (PlaceInv.mem_exec hp))
  have hctx := I.place.context_eq hp hst hth hx
  obtain ⟨r, b, hr, hcur⟩ := I.ctx.saved p _ hctx
  have hs : s.suspended p = some r := by
    rw [State.suspended_eq_context, hctx, hr]
    rfl
  exact ⟨r, hs, I.ctx.handed k p r hk hp hs, hcur⟩

/-- A thread in the queue of a semaphore was there before, or a scheduler has put it there. -/
theorem Trans.mem_semQueue (h : Trans cfg s e s') (I : Inv s) {i : SemId}
    (hp : p ∈ s'.semQueue i) :
    p ∈ s.semQueue i ∨
      (s.kt e.1).ctl = .sched (.semBody p) ∧ (s.kt e.1).queue = some (.sem i) := by
  -- a write to semaphore `j` whose queue holds only threads that waited there before
  have hset {j : SemId} {o : Option Sem} (hs : s'.sems = Function.update s.sems j o)
      (ho : ∀ r ∈ (o.map (·.queue)).getD [], r ∈ s.semQueue j) : p ∈ s.semQueue i := by
    by_cases hij : i = j
    · subst hij
      exact ho p (by simpa [State.semQueue, hs] using hp)
    · simpa [State.semQueue, hs, hij] using hp
  cases h with
  | signal h => cases h <;> exact .inl hp
  | semInit => exact .inl (hset rfl (by simp))
  | semDestroy => exact .inl (hset rfl (by simp))
  | postBump hc hx hq => exact .inl (hset rfl (by simp [hq]))
  | postWake hc hx hq =>
    refine .inl (hset rfl fun r hr => ?_)
    simpa [State.semQueue, hx, hq] using .inr (by simpa using hr)
  | waitDec hc hx h0 => exact .inl (hset rfl (by simp [State.semQueue, hx]))
  | @parkSem k f cur c j x h hq hx =>
    by_cases hij : i = j
    · subst hij
      have hp : p ∈ x.queue ∨ p = cur := by
        simpa [State.semQueue, State.goto, State.setK, State.setSem] using hp
      rcases hp with hp | rfl
      · exact .inl (by simpa [State.semQueue, hx] using hp)
      · exact .inr ⟨(I.parks_sem h hq).1, hq⟩
    · exact .inl (by simpa [State.semQueue, State.goto, State.setK, State.setSem, hij] using hp)
  | _ => exact .inl hp

/-- Every step keeps the threads in the queues of semaphores suspended in `uthread_sem_wait`. -/
theorem Trans.ctx_parked (h : Trans cfg s e s') (I : Inv s) (o : Admits s e) (i : SemId) (p : Ptr)
    (hp : p ∈ s'.semQueue i) : s'.suspended p = some (.semWoken i (some p)) := by
  have hheap : s'.heap p ≠ none := fun hn => by
    simpa [State.stateOf, hn] using (h.placeInv I o).alive (.semq i) p hp
  rcases h.mem_semQueue I hp with hp₀ | ⟨hc, hq⟩
  · rw [h.suspended_eq_of_mem I o.alloc (c := .semq i) hp₀ (by simp) hheap]
    exact I.ctx.parked i p hp₀
  · -- the context is one of `uthread_sem_wait`, because of the task that was left with it
    have hhands : (s.kt e.1).hands = true := by simp [KThread.hands, hc]
    obtain ⟨r, hr, htask, hcur⟩ := I.handed_resume (k := e.1) (p := p)
      (by simp [State.exec, KThread.exec, SchedPc.moving, hc]) hhands
      (by simp [KThread.execState, hc])
    have ht := I.task e.1
    have hqu := (I.table.queue e.1).2
    simp only [KThread.TaskOk, hc] at ht
    rw [h.suspended_eq_of_hands I o.alloc hhands, hr]
    cases r <;> simp_all [Resume.task, Resume.cur?]

/-- Every step keeps `CtxInv`. -/
theorem Trans.ctxInv (h : Trans cfg s e s') (I : Inv s) (o : Admits s e) : CtxInv s' where
  saved := h.ctx_saved I o.alloc
  handed := h.ctx_handed I o.alloc
  parked := h.ctx_parked I o

end Uthread
