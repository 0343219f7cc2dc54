import Uthread.Invariant.Contexts

/-!
# Joins

`JoinInv` is kept by every step. A thread is inside `uthread_join` of `t` from its call until it
has destroyed the control block, wherever it is suspended in between (`Trans.joinsAt`), and during
this time the table entry of `t` stays as it is (`Trans.tcbs_eq_of_joinsAt`). A thread finishes
under `tcbs_lock` and stays finished (`Trans.finished_cases`, `Trans.finished_mono`).
-/

namespace Uthread

variable {n : ℕ} {cfg : Config} {s s' : State n} {e : Event n} {k : Fin n} {p q : Ptr} {t : Tid}

/-! ### Being inside a join -/

theorem Op.start_joins (o : Op) : o.start.joins = o.joins := by cases o <;> rfl

theorem Resume.pc_joins (r : Resume) : r.pc.joins = r.joins := by
  cases r with
  | yielded o => cases o <;> first | rfl | exact Op.start_joins _
  | _ => rfl

/-- The acting kernel thread executes a join that began before the step, unless the step is the
call or resumes the thread. -/
theorem Trans.joining (h : Trans cfg s e s') (hj : (s'.kt e.1).ctl.joining = some (p, t)) :
    (s.kt e.1).ctl.joining = some (p, t) ∨
      (∃ pret r, e.2 = .call (.op (.join t pret)) ∧ (s.kt e.1).ctl = .thread p (.user r)) ∨
      ∃ q, (s.kt e.1).ctl = .sched (.dispSet q) := by
  cases h with
  | @call k c p₀ r hc₀ =>
    cases c with
    | op o => cases o <;> simp_all [Call.enter, Ctl.joining, Pc.joins, Op.joins]
    | _ => simp_all [Call.enter, Ctl.joining, Pc.joins]
  | tick => exact .inl (by simpa using hj)
  | deliver => exact .inl (by simpa using hj)
  | acquire h =>
    generalize hc₀ : (s.kt _).ctl = c at h
    cases h <;> simp_all [State.goto, Ctl.joining, Pc.joins]
  | release h => cases h <;> simp_all [State.goto, Ctl.joining, Pc.joins]
  | quiet h =>
    cases h with
    | start hc =>
      simp only [State.setK_kt, Ctl.joining, Op.start_joins] at hj
      exact .inl (by simpa [Ctl.joining, Pc.joins, hc] using hj)
    | _ => simp_all [Ctl.joining, Pc.joins]
  | signal h => cases h <;> simp_all [State.goto, Ctl.joining, Pc.joins]
  | insert h =>
    generalize hc₀ : (s.kt _).ctl = c at h
    cases h <;> simp_all [State.goto, Ctl.joining, Pc.joins]
  | entry hc hcur h =>
    generalize hta : (s.kt _).task = ta at h
    cases h <;> simp_all [Ctl.joining]
  | parkJoin h hq hx =>
    generalize hc : (s.kt _).ctl = c at h
    cases h <;> simp_all [State.goto, Ctl.joining]
  | parkSem h hq hx =>
    generalize hc : (s.kt _).ctl = c at h
    cases h <;> simp_all [State.goto, Ctl.joining]
  | dispSet hc hx hctx => exact .inr (.inr ⟨_, hc⟩)
  | _ hc => simp_all [State.goto, Ctl.joining, Pc.joins, Resume.joins]

theorem Ctl.thread?_of_joining {c : Ctl} (h : c.joining = some (p, t)) : c.thread? = some p := by
  cases c <;> simp_all [Ctl.joining, Ctl.thread?]

theorem PlaceInv.heap_ne_none (P : PlaceInv s) (hp : s.exec k = some p) : s.heap p ≠ none :=
  fun hn => by simpa [State.stateOf, hn] using P.alive (.exec k) p (PlaceInv.mem_exec hp)

theorem State.JoinsAt.heap_ne_none (h : s.JoinsAt p t) (P : PlaceInv s) : s.heap p ≠ none := by
  rcases h with ⟨k, hk⟩ | hs
  · exact P.heap_ne_none (State.exec_of_thread? (Ctl.thread?_of_joining hk))
  · obtain ⟨r, hr, -⟩ := Option.bind_eq_some_iff.mp hs
    exact State.heap_ne_none_of_suspended hr

theorem State.JoinsAt.joining (h : s.JoinsAt p t) (P : PlaceInv s) : s.Joining t := by
  rcases h with ⟨k, hk⟩ | hs
  · refine .inl ⟨k, ?_⟩
    cases hc : (s.kt k).ctl with
    | thread q pc =>
      rw [hc] at hk
      obtain ⟨t', ht, heq⟩ := Option.map_eq_some_iff.mp hk
      cases heq
      exact ht
    | _ => simp [hc, Ctl.joining] at hk
  · refine .inr ⟨p, Nat.lt_of_not_le fun hle => ?_, hs⟩
    simp [State.suspended, P.bound p hle] at hs

/-- A thread is inside a join that began before the step, unless the step is its call. -/
theorem Trans.joinsAt (h : Trans cfg s e s') (I : Inv s) (ha : AllocOk e) (hj : s'.JoinsAt p t) :
    s.JoinsAt p t ∨
      ∃ pret r, e.2 = .call (.op (.join t pret)) ∧ (s.kt e.1).ctl = .thread p (.user r) := by
  rcases hj with ⟨k, hk⟩ | hs
  · by_cases hke : k = e.1
    · subst hke
      rcases h.joining hk with hk | hcall | ⟨q, hc⟩
      · exact .inl (.inl ⟨e.1, hk⟩)
      · exact .inr hcall
      · refine .inl (.inr ?_)
        obtain ⟨rfl, c, hctx, hc'⟩ := h.resumes I hc (Ctl.thread?_of_joining hk)
        rw [State.suspended_eq_context, hctx]
        simpa [hc', Ctl.joining, Resume.pc_joins] using hk
    · rw [h.kt_of_ne hke] at hk
      exact .inl (.inl ⟨k, hk⟩)
  · rw [State.suspended_eq_context] at hs
    cases h.suspends I ha p with
    | same h =>
      refine .inl (.inr ?_)
      rwa [State.suspended_eq_context, ← h]
    | saves hc hc' h =>
      refine .inl (.inl ⟨e.1, ?_⟩)
      simpa [hc, Ctl.joining, Pc.joins, h] using hs
    | resumes hc hc' h h' => simp [h'] at hs
    | creates hc hq h => simp [h, Resume.joins] at hs
    | frees hc h => simp [State.context_of_heap_eq_none (h p)] at hs

/-- The table entry of a thread that is being joined stays as it is until the join destroys it. -/
theorem Trans.tcbs_eq_of_joinsAt (h : Trans cfg s e s') (I : Inv s) (o : Admits s e)
    (hj : s.JoinsAt p t) (hj' : s'.JoinsAt p t) : s'.tcbs t = s.tcbs t := by
  rcases h.table_cases o.alloc with ht | ht
  · rw [ht.tcbs]
  · obtain ⟨q, hq, -⟩ := I.join.target p t hj
    have hkt := fun k hk => h.kt_of_ne (k := k) hk
    have P' := h.placeInv I o
    generalize e.1 = k at ht hkt
    cases ht with
    | @create p₀ sb t₀ hc =>
      have hclaim := I.bits.claim k t₀ (by simp [KThread.claims, hc, Ctl.pc?, Pc.claims])
      have htt : t ≠ t₀ := by
        rintro rfl
        simp [hclaim.1] at hq
      simp [State.goto, State.setK, htt]
    | @destroy p₀ t₀ pret rv q₀ x hc hq₀ hx =>
      by_cases htt : t = t₀
      · subst htt
        -- the destroying thread is the only one that joins `t`, and it has done so
        obtain rfl := I.join.unique p p₀ t hj (.inl ⟨k, by simp [hc, Ctl.joining, Pc.joins]⟩)
        exfalso
        rcases hj' with ⟨k', hk'⟩ | hs
        · obtain rfl := P'.thread_unique (Ctl.thread?_of_joining hk')
            (k := k) (by simp [State.goto, Ctl.thread?])
          simp [State.goto, Ctl.joining, Pc.joins] at hk'
        · rw [State.suspended_eq_context, State.context_of_executed (k := k)] at hs
          · simp at hs
          · simp [State.goto, Ctl.thread?]
      · simp [State.goto, State.setK, htt]
    | free hc hq₀ hx =>
      refine absurd ?_ (hj'.heap_ne_none P')
      simp only [State.goto, State.setK, I.heap_free]

/-! ### Finishing -/

theorem State.finished_setTcb_iff {x y : Tcb} (hx : s.heap p = some x)
    (hy : y.state = .finished ↔ x.state = .finished) (q : Ptr) :
    (s.setTcb p y).stateOf q = some .finished ↔ s.stateOf q = some .finished := by
  by_cases hq : q = p
  · simp [State.stateOf, State.setTcb, hq, hx, hy]
  · simp [State.stateOf, State.setTcb, hq]

/-- The state of the thread that a kernel thread executes or moves. -/
theorem PlaceInv.state_exec (P : PlaceInv s) {x : Tcb} (hp : s.exec k = some p)
    (hx : s.heap p = some x) : x.state = (s.kt k).execState := by
  simpa [State.stateOf, State.placeState, hx] using P.alive (.exec k) p (PlaceInv.mem_exec hp)

/-- A thread finishes by `uthread_exit`, which it executes under `tcbs_lock`, and stays finished
until it is destroyed. -/
theorem Trans.finished_cases (h : Trans cfg s e s') (I : Inv s) (ha : AllocOk e) (q : Ptr) :
    (s'.stateOf q = some .finished ↔ s.stateOf q = some .finished) ∨ s'.heap q = none ∨
      ∃ v, (s.kt e.1).ctl = .thread q (.exit v .body) := by
  cases h with
  | signal h => cases h <;> exact .inl Iff.rfl
  | swap hc hx => exact .inl (State.finished_setTcb_iff hx (by simp) q)
  | yieldBody hc hcur hx hst => exact .inl (State.finished_setTcb_iff hx (by simp [hst]) q)
  | @exitBody k f p v c x hc hcur hx hst =>
    obtain rfl : p = c := by simpa [I.table.currentTcb_thread hc] using hcur
    by_cases hqp : q = p
    · exact .inr (.inr ⟨v, hqp ▸ hc⟩)
    · exact .inl (by simp [State.stateOf, State.setK, State.setTcb, hqp])
  | @joinBlock k f p t pret c q₀ x y hc hx hst hy hj =>
    obtain rfl : c = p := I.table.cur_eq hc (by simp [Pc.curs])
    have hrun := I.place.state_exec (State.exec_thread hc) hy
    refine .inl (State.finished_setTcb_iff hy ?_ q)
    simp [hrun, KThread.execState, Pc.state, hc]
  | postReady hc hx hst => exact .inl (State.finished_setTcb_iff hx (by simp [hst]) q)
  | @waitPark k f p i c x hc hx =>
    obtain rfl : c = p := I.table.cur_eq hc (by simp [Pc.curs])
    have hrun := I.place.state_exec (State.exec_thread hc) hx
    refine .inl (State.finished_setTcb_iff hx ?_ q)
    simp [hrun, KThread.execState, Pc.state, hc]
  | schedExitWake hc hx hj hy hst =>
    exact .inl ((State.finished_setTcb_iff hy (by simp [hst]) q).trans
      (State.finished_setTcb_iff hx (by simp) q))
  | parkJoin h hq hx => exact .inl (State.finished_setTcb_iff hx (by simp) q)
  | @schedTeardown k f cur x hc hx =>
    have hrun := I.place.state_exec (k := k) (p := cur)
      (by simp [State.exec, KThread.exec, SchedPc.moving, hc]) hx
    refine .inl (State.finished_setTcb_iff hx ?_ q)
    simp [hrun, KThread.execState, hc]
  | dispBody hc hx hst => exact .inl (State.finished_setTcb_iff hx (by simp [hst]) q)
  | createBody hc =>
    by_cases hq : q = s.fresh
    · simp [State.stateOf, State.goto, State.setK, hq, State.newTcb,
        I.place.bound s.fresh (Nat.le_refl _)]
    · exact .inl (by simp [State.stateOf, State.goto, State.setK, hq])
  | @joinDestroy k f p t pret rv q₀ x hc hq₀ hx =>
    by_cases hq : q = q₀
    · exact .inr (.inl (by simp [State.goto, State.setK, hq]))
    · exact .inl (by simp [State.stateOf, State.goto, State.setK, hq])
  | teardownFree hc hq₀ hx =>
    exact .inr (.inl (by simp only [State.goto, State.setK, I.heap_free]))
  | createNoTcb => exact absurd ha (by simp [AllocOk])
  | createNoStack => exact absurd ha (by simp [AllocOk])
  | _ => exact .inl Iff.rfl

theorem Trans.finished_mono (h : Trans cfg s e s') (I : Inv s) (ha : AllocOk e)
    (hq : s.stateOf q = some .finished) (hq' : s'.heap q ≠ none) :
    s'.stateOf q = some .finished := by
  rcases h.finished_cases I ha q with hiff | hn | ⟨v, hc⟩
  · exact hiff.2 hq
  · exact absurd hn hq'
  · -- an exiting thread is still running
    have := I.place.alive (.exec e.1) q (PlaceInv.mem_exec (State.exec_thread hc))
    simp [hq, State.placeState, KThread.execState, hc, Pc.state] at this

theorem Trans.not_finished (h : Trans cfg s e s') (I : Inv s) (ha : AllocOk e)
    (hq : s.stateOf q ≠ some .finished) (hc : ∀ v, (s.kt e.1).ctl ≠ .thread q (.exit v .body)) :
    s'.stateOf q ≠ some .finished := by
  rcases h.finished_cases I ha q with hiff | hn | ⟨v, hc'⟩
  · rwa [Ne, hiff]
  · simp [State.stateOf, hn]
  · exact absurd hc' (hc v)

/-! ### Join queues -/

theorem State.joinQueue_setTcb {x y : Tcb} (hx : s.heap p = some x)
    (hy : y.joinQueue = x.joinQueue) (q : Ptr) : (s.setTcb p y).joinQueue q = s.joinQueue q := by
  by_cases hq : q = p <;> simp [State.joinQueue, State.setTcb, hq, hx, hy]

/-- A join queue changes when a scheduler parks a thread in it, and when the thread it belongs to
exits. -/
theorem Trans.joinQueue_cases (h : Trans cfg s e s') (I : Inv s) (ha : AllocOk e) (q : Ptr) :
    s'.joinQueue q = s.joinQueue q ∨
      (∃ cur, (s.kt e.1).ctl = .sched (.joinBody cur) ∧
        (s.kt e.1).queue = some (.join q) ∧ s'.joinQueue q = s.joinQueue q ++ [cur]) ∨
      (∃ j, (s.kt e.1).ctl = .sched (.exitBody q) ∧ s.joinQueue q = j :: s'.joinQueue q) ∨
      s'.heap q = none := by
  cases h with
  | signal h => cases h <;> exact .inl rfl
  | swap hc hx => exact .inl (State.joinQueue_setTcb hx (by rfl) q)
  | yieldBody hc hcur hx hst => exact .inl (State.joinQueue_setTcb hx (by rfl) q)
  | exitBody hc hcur hx hst => exact .inl (State.joinQueue_setTcb hx (by rfl) q)
  | joinBlock hc hx hst hy hj => exact .inl (State.joinQueue_setTcb hy (by rfl) q)
  | postReady hc hx hst => exact .inl (State.joinQueue_setTcb hx (by rfl) q)
  | waitPark hc hx => exact .inl (State.joinQueue_setTcb hx (by rfl) q)
  | @schedExitWake k f cur x j rest y hc hx hj hy hst =>
    have hq := State.joinQueue_setTcb (y := { y with state := .ready }) hy rfl q
    by_cases hqc : q = cur
    · subst hqc
      refine .inr (.inr (.inl ⟨j, hc, ?_⟩))
      refine Eq.trans ?_ (congrArg (List.cons j) hq.symm)
      simp [State.joinQueue, State.setTcb, hx, hj]
    · refine .inl (Eq.trans hq ?_)
      simp [State.joinQueue, State.setTcb, hqc]
  | @parkJoin k f cur c q₀ x h hq hx =>
    obtain ⟨hc, rfl⟩ := I.parks_join h hq
    by_cases hqq : q = q₀
    · subst hqq
      refine .inr (.inl ⟨cur, hc, hq, ?_⟩)
      simp [State.joinQueue, State.goto, State.setK, State.setTcb, hx]
    · exact .inl (by simp [State.joinQueue, State.goto, State.setK, State.setTcb, hqq])
  | schedTeardown hc hx => exact .inl (State.joinQueue_setTcb hx (by rfl) q)
  | dispBody hc hx hst => exact .inl (State.joinQueue_setTcb hx (by rfl) q)
  | createBody hc =>
    by_cases hq : q = s.fresh
    · simp [State.joinQueue, State.goto, State.setK, hq, State.newTcb,
        I.place.bound s.fresh (Nat.le_refl _)]
    · exact .inl (by simp [State.joinQueue, State.goto, State.setK, hq])
  | @joinDestroy k f p t pret rv q₀ x hc hq₀ hx =>
    by_cases hq : q = q₀
    · exact .inr (.inr (.inr (by simp [State.goto, State.setK, hq])))
    · exact .inl (by simp [State.joinQueue, State.goto, State.setK, hq])
  | teardownFree hc hq₀ hx =>
    exact .inr (.inr (.inr (by simp only [State.goto, State.setK, I.heap_free])))
  | createNoTcb => exact absurd ha (by simp [AllocOk])
  | createNoStack => exact absurd ha (by simp [AllocOk])
  | _ => exact .inl rfl

/-- The points at which a thread is handed over, or finished and not yet gone, hold `tcbs_lock`. -/
theorem KThread.tcbs_mem_held {x : KThread} {tcbs : Tid → Option Ptr}
    (hp : x.exec tcbs = some p) (h : x.hands = true ∨ x.execState = .finished) :
    Lock.tcbs ∈ x.held := by
  obtain ⟨c, ta, lk, qu, ct, pre, bl, pe⟩ := x
  cases c with
  | thread p pc =>
    cases pc with
    | exit v x =>
      cases x <;>
        simp_all [KThread.hands, KThread.execState, KThread.held, Pc.held, Pc.state]
    | swap cur r => cases r <;> simp_all [KThread.hands, KThread.execState, Pc.state]
    | _ => simp_all [KThread.hands, KThread.execState, Pc.state]
  | sched pc =>
    cases pc with
    | entry => cases ta <;> simp_all [KThread.exec, KThread.held]
    | _ => simp_all [KThread.hands, KThread.execState, KThread.held]
  | _ => simp_all [KThread.exec]

/-! ### The parts of the invariant -/

/-- A thread that calls `uthread_join` is the first to join its target. -/
theorem Admits.not_joinsAt (o : Admits s e) (P : PlaceInv s) {p' : Ptr} {pret : Bool} {r : Ret}
    (he : e.2 = .call (.op (.join t pret))) (hc : (s.kt e.1).ctl = .thread p (.user r)) :
    ¬ s.JoinsAt p' t := by
  intro hp'
  have hok := o.call
  obtain ⟨k, i⟩ := e
  simp only at he hc
  subst he
  simp only [CallAllowed, hc, Ctl.thread?, Option.mem_some_iff, forall_eq', State.CallAllowed,
    State.CallOk] at hok
  exact hok.2 (hp'.joining P)

theorem Trans.join_unique (h : Trans cfg s e s') (I : Inv s) (o : Admits s e) (p p' : Ptr) (t : Tid)
    (hp : s'.JoinsAt p t) (hp' : s'.JoinsAt p' t) : p = p' := by
  rcases h.joinsAt I o.alloc hp with hp | ⟨pret, r, he, hc⟩ <;>
    rcases h.joinsAt I o.alloc hp' with hp' | ⟨pret', r', he', hc'⟩
  · exact I.join.unique p p' t hp hp'
  · exact absurd hp (o.not_joinsAt I.place he' hc')
  · exact absurd hp' (o.not_joinsAt I.place he hc)
  · rw [hc] at hc'
    cases hc'
    rfl

theorem Trans.join_target (h : Trans cfg s e s') (I : Inv s) (o : Admits s e) (p : Ptr) (t : Tid)
    (hp : s'.JoinsAt p t) : ∃ q, s'.tcbs t = some q ∧ q ≠ p := by
  rcases h.joinsAt I o.alloc hp with hp₀ | ⟨pret, r, he, hc⟩
  · rw [h.tcbs_eq_of_joinsAt I o hp₀ hp]
    exact I.join.target p t hp₀
  · obtain ⟨k, i⟩ := e
    simp only at he hc
    subst he
    have hok := o.call
    simp only [CallAllowed, hc, Ctl.thread?, Option.mem_some_iff, forall_eq', State.CallAllowed,
    State.CallOk] at hok
    cases h with
    | call hc' =>
      cases hq : s.tcbs t with
      | none => simp [hq] at hok
      | some q => exact ⟨q, hq, by simpa [hq] using hok.1⟩

theorem Op.start_target (o : Op) : o.start.target = none := by cases o <;> rfl

theorem Resume.pc_target (r : Resume) : r.pc.target = none := by
  cases r with
  | yielded o => cases o <;> first | rfl | exact Op.start_target _
  | _ => rfl

theorem Trans.target_cases (h : Trans cfg s e s') {tgt : Option Ptr}
    (ht : (s'.kt e.1).ctl.pc?.bind Pc.target = some (t, tgt)) :
    (s.kt e.1).ctl.pc?.bind Pc.target = some (t, tgt) ∨ s'.tcbs t = tgt := by
  cases h with
  | @call k c p₀ r hc₀ =>
    cases c with
    | op o => cases o <;> simp [Call.enter, Ctl.pc?, Pc.target] at ht
    | _ => simp [Call.enter, Ctl.pc?, Pc.target] at ht
  | tick => exact .inl (by simpa using ht)
  | deliver => exact .inl (by simpa using ht)
  | acquire h =>
    generalize hc₀ : (s.kt _).ctl = c at h
    cases h <;> simp_all [State.goto, Ctl.pc?, Pc.target]
  | release h => cases h <;> simp_all [State.goto, Ctl.pc?, Pc.target]
  | quiet h =>
    cases h with
    | start hc => simp [Ctl.pc?, Op.start_target] at ht
    | _ => simp_all [Ctl.pc?, Pc.target]
  | signal h => cases h <;> simp_all [State.goto, Ctl.pc?, Pc.target]
  | insert h =>
    generalize hc₀ : (s.kt _).ctl = c at h
    cases h <;> simp_all [State.goto, Ctl.pc?, Pc.target]
  | entry hc hcur h =>
    generalize hta : (s.kt _).task = ta at h
    cases h <;> simp [Ctl.pc?] at ht
  | parkJoin h hq hx =>
    generalize hc : (s.kt _).ctl = c at h
    cases h <;> simp [State.goto, Ctl.pc?] at ht
  | parkSem h hq hx =>
    generalize hc : (s.kt _).ctl = c at h
    cases h <;> simp [State.goto, Ctl.pc?] at ht
  | dispSet hc hx hctx => simp [Ctl.pc?, Resume.pc_target] at ht
  | joinRead hc =>
    simp only [State.goto, State.setK_kt, Ctl.pc?, Pc.target, Option.bind_some,
      Option.some.injEq, Prod.mk.injEq] at ht
    exact .inr (by rw [← ht.2, ← ht.1]; rfl)
  | _ hc => simp [State.goto, Ctl.pc?, Pc.target] at ht

theorem Pc.joins_of_target {pc : Pc} {tgt : Option Ptr} (h : pc.target = some (t, tgt)) :
    pc.joins = some t := by
  cases pc with
  | join t pret x => cases x <;> simp_all [Pc.target, Pc.joins]
  | _ => simp [Pc.target] at h

theorem Pc.joins_of_waited {pc : Pc} (h : pc.waited = some t) : pc.joins = some t := by
  cases pc with
  | join t pret x => cases x <;> simp_all [Pc.waited, Pc.joins]
  | _ => simp [Pc.waited] at h

theorem Pc.waited_of_passed {pc : Pc} (h : pc.passed = some t) : pc.waited = some t := by
  cases pc with
  | join t pret x => cases x <;> simp_all [Pc.waited, Pc.passed]
  | _ => simp [Pc.passed] at h

/-- A kernel thread at a stage of a join of `t` executes a thread that joins `t`. -/
theorem State.joinsAt_of_pc {α : Type*} {f : Pc → Option α} {a : α}
    (hf : ∀ {pc}, f pc = some a → pc.joins = some t) (h : (s.kt k).ctl.pc?.bind f = some a) :
    ∃ p, (s.kt k).ctl.thread? = some p ∧ s.JoinsAt p t := by
  cases hc : (s.kt k).ctl with
  | thread p pc =>
    refine ⟨p, rfl, .inl ⟨k, ?_⟩⟩
    have : f pc = some a := by simpa [hc, Ctl.pc?] using h
    simp [hc, Ctl.joining, hf this]
  | _ => simp [hc, Ctl.pc?] at h

/-- A thread that a scheduler is about to park in a join queue is suspended in `uthread_join`. -/
theorem Inv.joined_of_joinBody (I : Inv s) (hc : (s.kt k).ctl = .sched (.joinBody p)) :
    ∃ t pret, s.suspended p = some (.joined t pret) := by
  obtain ⟨r, hr, htask, -⟩ := I.handed_resume (k := k) (p := p)
    (by simp [State.exec, KThread.exec, SchedPc.moving, hc]) (by simp [KThread.hands, hc])
    (by simp [KThread.execState, hc])
  have ht := I.task k
  simp only [KThread.TaskOk, hc] at ht
  cases r <;> simp_all [Resume.task]

/-- A thread that is inside a join of `t` after a step was so before, if some thread was. -/
theorem Trans.joinsAt_of_joinsAt (h : Trans cfg s e s') (I : Inv s) (o : Admits s e) {p₀ : Ptr}
    (hj₀ : s.JoinsAt p₀ t) (hj' : s'.JoinsAt p t) : s.JoinsAt p t := by
  rcases h.joinsAt I o.alloc hj' with hj | ⟨pret, r, he, hc⟩
  · exact hj
  · exact absurd hj₀ (o.not_joinsAt I.place he hc)

/-- The table entry of the target is the same before and after a step between two points of a
join. -/
theorem Trans.tcbs_eq_of_pc {α β : Type*} {f : Pc → Option α} {g : Pc → Option β} {a : α} {b : β}
    (h : Trans cfg s e s') (I : Inv s) (o : Admits s e) {k' : Fin n}
    (hf : ∀ {pc}, f pc = some a → pc.joins = some t)
    (hg : ∀ {pc}, g pc = some b → pc.joins = some t)
    (hk : (s.kt k).ctl.pc?.bind f = some a) (hk' : (s'.kt k').ctl.pc?.bind g = some b) :
    s'.tcbs t = s.tcbs t := by
  obtain ⟨p, -, hj⟩ := State.joinsAt_of_pc hf hk
  obtain ⟨p', -, hj'⟩ := State.joinsAt_of_pc hg hk'
  exact h.tcbs_eq_of_joinsAt I o (h.joinsAt_of_joinsAt I o hj hj') hj'

theorem Trans.join_read (h : Trans cfg s e s') (I : Inv s) (o : Admits s e) (k : Fin n) (t : Tid)
    (tgt : Option Ptr) (hk' : (s'.kt k).ctl.pc?.bind Pc.target = some (t, tgt)) :
    s'.tcbs t = tgt := by
  have hkeep (hk : (s.kt k).ctl.pc?.bind Pc.target = some (t, tgt)) : s'.tcbs t = tgt := by
    rw [h.tcbs_eq_of_pc I o Pc.joins_of_target Pc.joins_of_target hk hk']
    exact I.join.read k t tgt hk
  by_cases hk : k = e.1
  · subst hk
    rcases h.target_cases hk' with hk | hread
    · exact hkeep hk
    · exact hread
  · refine hkeep ?_
    rwa [← h.kt_of_ne hk]

theorem Trans.join_parked (h : Trans cfg s e s') (I : Inv s) (o : Admits s e) (q p : Ptr)
    (hp : p ∈ s'.joinQueue q) :
    ∃ t pret, s'.suspended p = some (.joined t pret) ∧ s'.tcbs t = some q := by
  have P' := h.placeInv I o
  have hheap : s'.heap p ≠ none := fun hn => by
    simpa [State.stateOf, hn] using P'.alive (.joinq q) p hp
  -- it suffices to know where the thread was suspended before the step
  have hkeep {t : Tid} {pret : Bool} (hs : s.suspended p = some (.joined t pret))
      (hq : s.tcbs t = some q) (hs' : s'.suspended p = s.suspended p) :
      ∃ t pret, s'.suspended p = some (.joined t pret) ∧ s'.tcbs t = some q := by
    refine ⟨t, pret, hs'.trans hs, ?_⟩
    rw [h.tcbs_eq_of_joinsAt I o (p := p) (.inr (by simp [hs, Resume.joins]))
      (.inr (by simp [hs', hs, Resume.joins])), hq]
  have hold (hp : p ∈ s.joinQueue q) :
      ∃ t pret, s'.suspended p = some (.joined t pret) ∧ s'.tcbs t = some q := by
    obtain ⟨t, pret, hs, hq⟩ := I.join.parked q p hp
    exact hkeep hs hq (h.suspended_eq_of_mem I o.alloc (c := .joinq q) hp (by simp) hheap)
  rcases h.joinQueue_cases I o.alloc q with heq | ⟨cur, hc, hqu, heq⟩ | ⟨j, hc, heq⟩ | hn
  · exact hold (heq ▸ hp)
  · rw [heq, List.mem_append, List.mem_singleton] at hp
    rcases hp with hp | rfl
    · exact hold hp
    · -- the scheduler has just parked the thread
      have hexec : s.exec e.1 = some p := by simp [State.exec, KThread.exec, SchedPc.moving, hc]
      have hhands : (s.kt e.1).hands = true := by simp [KThread.hands, hc]
      obtain ⟨t, pret, hs⟩ := I.joined_of_joinBody hc
      obtain ⟨q', hq', ht, -⟩ := I.join.handing e.1 t (.inr ⟨hhands, p, pret, hexec, hs⟩)
      obtain rfl : q' = q := by simpa [hqu] using hq'.symm
      exact hkeep hs ht (h.suspended_eq_of_hands I o.alloc hhands p)
  · exact hold (heq ▸ List.mem_cons_of_mem _ hp)
  · simp [State.joinQueue, hn] at hp

theorem Pc.joins_of_parksJoin {pc : Pc} (h : pc.parksJoin = some t) : pc.joins = some t := by
  cases pc with
  | swap cur r => cases r <;> simp_all [Pc.parksJoin, Pc.joins, Resume.joins]
  | _ => simp [Pc.parksJoin] at h

theorem Op.start_parksJoin (o : Op) : o.start.parksJoin = none := by cases o <;> rfl

theorem Resume.pc_parksJoin (r : Resume) : r.pc.parksJoin = none := by
  cases r with
  | yielded o => cases o <;> first | rfl | exact Op.start_parksJoin _
  | _ => rfl

theorem State.HandsJoin.joinsAt (h : s.HandsJoin k t) : ∃ p, s.JoinsAt p t := by
  rcases h with hk | ⟨-, p, pret, -, hs⟩
  · obtain ⟨p, -, hj⟩ := State.joinsAt_of_pc Pc.joins_of_parksJoin hk
    exact ⟨p, hj⟩
  · exact ⟨p, .inr (by simp [hs, Resume.joins])⟩

/-- A thread is handed to the scheduler under `tcbs_lock`. -/
theorem State.HandsJoin.held (h : s.HandsJoin k t) : Lock.tcbs ∈ (s.kt k).held := by
  rcases h with hk | ⟨hk, p, pret, hp, -⟩
  · cases hc : (s.kt k).ctl with
    | thread p pc =>
      have hpc : pc.parksJoin = some t := by simpa [hc, Ctl.pc?] using hk
      cases pc with
      | swap cur r => cases r <;> simp_all [Pc.parksJoin, KThread.held, Pc.held]
      | _ => simp [Pc.parksJoin] at hpc
    | _ => simp [hc, Ctl.pc?] at hk
  · exact KThread.tcbs_mem_held hp (.inl hk)

/-- A thread that is about to be handed over was so before the step, or it has just found its
target unfinished. -/
theorem Trans.parksJoin_cases (h : Trans cfg s e s')
    (hk' : (s'.kt e.1).ctl.pc?.bind Pc.parksJoin = some t) :
    ((s.kt e.1).ctl.pc?.bind Pc.parksJoin = some t ∧ (s'.kt e.1).queue = (s.kt e.1).queue) ∨
      ∃ q x, (s.kt e.1).ctl.pc?.bind Pc.target = some (t, some q) ∧ s.heap q = some x ∧
        x.state ≠ .finished ∧ (s'.kt e.1).queue = some (.join q) := by
  cases h with
  | @call k c p₀ r hc₀ =>
    cases c with
    | op o => cases o <;> simp [Call.enter, Ctl.pc?, Pc.parksJoin] at hk'
    | _ => simp [Call.enter, Ctl.pc?, Pc.parksJoin] at hk'
  | tick => exact .inl (by simpa using hk')
  | deliver => exact .inl (by simpa using hk')
  | acquire h =>
    generalize hc₀ : (s.kt _).ctl = c at h
    cases h <;> simp_all [State.goto, Ctl.pc?, Pc.parksJoin]
  | release h => cases h <;> simp_all [State.goto, Ctl.pc?, Pc.parksJoin]
  | quiet h =>
    cases h with
    | start hc => simp [Ctl.pc?, Op.start_parksJoin] at hk'
    | _ => simp_all [Ctl.pc?, Pc.parksJoin]
  | signal h => cases h <;> simp_all [State.goto, Ctl.pc?, Pc.parksJoin]
  | insert h =>
    generalize hc₀ : (s.kt _).ctl = c at h
    cases h <;> simp_all [State.goto, Ctl.pc?, Pc.parksJoin]
  | entry hc hcur h =>
    generalize hta : (s.kt _).task = ta at h
    cases h <;> simp [Ctl.pc?] at hk'
  | parkJoin h hq hx =>
    generalize hc : (s.kt _).ctl = c at h
    cases h <;> simp [State.goto, Ctl.pc?] at hk'
  | parkSem h hq hx =>
    generalize hc : (s.kt _).ctl = c at h
    cases h <;> simp [State.goto, Ctl.pc?] at hk'
  | dispSet hc hx hctx => simp [Ctl.pc?, Resume.pc_parksJoin] at hk'
  | @joinBlock k f p t₀ pret c q x y hc hx hst hy hj =>
    obtain rfl : t₀ = t := by simpa [Ctl.pc?, Pc.parksJoin] using hk'
    exact .inr ⟨q, x, by simp [hc, Ctl.pc?, Pc.target], hx, hst, by simp⟩
  | _ hc => simp [State.goto, Ctl.pc?, Pc.parksJoin] at hk'

theorem Trans.join_handing (h : Trans cfg s e s') (I : Inv s) (o : Admits s e) (k : Fin n) (t : Tid)
    (hk' : s'.HandsJoin k t) :
    ∃ q, (s'.kt k).queue = some (.join q) ∧ s'.tcbs t = some q ∧
      s'.stateOf q ≠ some .finished := by
  obtain ⟨p', hj'⟩ := hk'.joinsAt
  -- a thread that was handed over before the step keeps its target, which cannot exit meanwhile
  have hkeep (hk : s.HandsJoin k t) (hqu : (s'.kt k).queue = (s.kt k).queue) :
      ∃ q, (s'.kt k).queue = some (.join q) ∧ s'.tcbs t = some q ∧
        s'.stateOf q ≠ some .finished := by
    obtain ⟨p, hj⟩ := hk.joinsAt
    obtain ⟨q, hq, ht, hst⟩ := I.join.handing k t hk
    refine ⟨q, hqu.trans hq, ?_, h.not_finished I o.alloc hst fun v hc => ?_⟩
    · rw [h.tcbs_eq_of_joinsAt I o (h.joinsAt_of_joinsAt I o hj hj') hj', ht]
    · obtain rfl := (I.lock .tcbs).unique hk.held (k := e.1) (by simp [KThread.held, Pc.held, hc])
      rcases hk with hk | ⟨hk, -⟩
      · simp [hc, Ctl.pc?, Pc.parksJoin] at hk
      · simp [KThread.hands, hc] at hk
  by_cases hke : k = e.1
  · subst hke
    rcases hk' with hk' | ⟨hk', p, pret, hp, hs⟩
    · rcases h.parksJoin_cases hk' with ⟨hk, hqu⟩ | ⟨q, x, htgt, hx, hst, hqu⟩
      · exact hkeep (.inl hk) hqu
      · have ht := I.join.read e.1 t (some q) htgt
        refine ⟨q, hqu, ?_, h.not_finished I o.alloc (by simpa [State.stateOf, hx] using hst) fun v hc => ?_⟩
        · rw [h.tcbs_eq_of_pc I o Pc.joins_of_target Pc.joins_of_parksJoin htgt hk', ht]
        · simp [hc, Ctl.pc?, Pc.target] at htgt
    · rcases h.hands_cases I hk' hp with ⟨hk, hp₀, -, -, hqu⟩ | ⟨r, hc, -, -, hqu⟩ | hfin
      · rw [h.suspended_eq_of_hands I o.alloc hk] at hs
        exact hkeep (.inr ⟨hk, p, pret, hp₀, hs⟩) hqu
      · obtain rfl := h.suspended_of_swap I o.alloc hc hs
        exact hkeep (.inl (by simp [hc, Ctl.pc?, Pc.parksJoin])) hqu
      · simp [State.suspended_of_finished hfin] at hs
  · have hkt := h.kt_of_ne hke
    refine hkeep ?_ (by rw [hkt])
    rcases hk' with hk' | ⟨hk', p, pret, hp, hs⟩
    · exact .inl (by rwa [← hkt])
    · rw [h.exec_of_ne I o.alloc hke] at hp
      rw [h.suspended_eq_of_mem I o.alloc (PlaceInv.mem_exec hp) (by simpa using hke)
        (State.heap_ne_none_of_suspended hs)] at hs
      exact .inr ⟨by rwa [← hkt], p, pret, hp, hs⟩
/-- A scheduler that is handed a thread suspended in `uthread_join` parks it. -/
theorem Trans.woken_of_hands (h : Trans cfg s e s') (I : Inv s) (o : Admits s e) {pret : Bool}
    (hk : (s.kt e.1).hands = true) (hp : s.exec e.1 = some p)
    (hs : s.suspended p = some (.joined t pret)) (hq : s.tcbs t = some q) :
    p ∈ s'.joinQueue q ∨ (∃ k, (s'.kt k).hands = true ∧ s'.exec k = some p) ∨
      s'.stateOf q = some .finished := by
  have htask := I.ctx.handed e.1 p _ hk hp hs
  obtain ⟨q', hqu, hq', -⟩ := I.join.handing e.1 t (.inr ⟨hk, p, pret, hp, hs⟩)
  obtain rfl : q = q' := Option.some.inj (hq.symm.trans hq')
  simp only [Resume.task, Prod.mk.injEq] at htask
  have hctl : (s.kt e.1).ctl = .sched .entry ∨ (s.kt e.1).ctl = .sched (.joinBody p) := by
    have ht := I.task e.1
    unfold KThread.hands at hk
    split at hk <;> simp_all [State.exec, KThread.exec, KThread.TaskOk, SchedPc.moving]
  cases h with
  | @tick k =>
    refine .inr (.inl ⟨k, by simpa [KThread.hands] using hk, ?_⟩)
    simpa [State.exec, State.setK, KThread.exec] using hp
  | @deliver k =>
    refine .inr (.inl ⟨k, by simpa [KThread.hands] using hk, ?_⟩)
    simpa [State.exec, State.setK, KThread.exec] using hp
  | acquire h =>
    generalize hc₀ : (s.kt _).ctl = c at h
    cases h <;> simp_all
  | release h => cases h <;> simp_all
  | quiet h => cases h <;> simp_all
  | signal h => cases h <;> simp_all
  | insert h =>
    generalize hc₀ : (s.kt _).ctl = c at h
    cases h <;> simp_all
  | @entry k f cur pc hc hcur h =>
    have hta : (s.kt k).task = .join := htask.1.symm
    have hcp : s.currentTcb k = some p := by
      rw [← State.exec_entry hc (by simp [hta]) rfl]
      exact hp
    obtain rfl : cur = p := Option.some.inj (hcur.symm.trans hcp)
    rw [hta] at h
    cases h
    refine .inr (.inl ⟨k, by simp [KThread.hands], ?_⟩)
    simp [State.exec, KThread.exec, SchedPc.moving]
  | @parkJoin k f cur c q₀ x h hq₀ hx =>
    obtain ⟨hc, rfl⟩ := I.parks_join h hq₀
    obtain rfl : q₀ = q := by simpa [hq₀] using hqu
    obtain rfl : cur = p := by simpa [hc] using hctl
    exact .inl (by simp [State.joinQueue, State.goto, State.setK, State.setTcb])
  | parkSem h hq₀ hx => simp_all
  | _ hc => simp_all

theorem Trans.join_woken (h : Trans cfg s e s') (I : Inv s) (o : Admits s e) (p : Ptr) (t : Tid)
    (pret : Bool) (q : Ptr) (hs' : s'.suspended p = some (.joined t pret))
    (hq' : s'.tcbs t = some q) :
    p ∈ s'.joinQueue q ∨ (∃ k, (s'.kt k).hands = true ∧ s'.exec k = some p) ∨
      s'.stateOf q = some .finished := by
  have hheap : s'.heap q ≠ none := by
    obtain ⟨x, hx, -⟩ := (h.tableInv I o.alloc).slot t q hq'
    simp [hx]
  have hj' : s'.JoinsAt p t := .inr (by simp [hs', Resume.joins])
  have hsus := h.suspends I o.alloc p
  have hsc := s'.suspended_eq_context p
  rw [hs'] at hsc
  cases hsus with
  | same hctx =>
    have hs : s.suspended p = some (.joined t pret) := by
      rw [State.suspended_eq_context, ← hctx, ← State.suspended_eq_context, hs']
    have hj : s.JoinsAt p t := .inr (by simp [hs, Resume.joins])
    have hq : s.tcbs t = some q := by rw [← h.tcbs_eq_of_joinsAt I o hj hj', hq']
    rcases I.join.woken p t pret q hs hq with hp | ⟨k, hk, hp⟩ | hfin
    · -- parked: only the exit of the target takes the thread from the queue
      rcases h.joinQueue_cases I o.alloc q with heq | ⟨cur, -, -, heq⟩ | ⟨j, hc, heq⟩ | hn
      · exact .inl (heq ▸ hp)
      · exact .inl (by simp [heq, hp])
      · refine .inr (.inr (h.finished_mono I o.alloc ?_ hheap))
        simpa [State.placeState, KThread.execState, hc] using I.place.alive (.exec e.1) q
          (PlaceInv.mem_exec (by simp [State.exec, KThread.exec, SchedPc.moving, hc]))
      · exact absurd hn hheap
    · by_cases hke : k = e.1
      · subst hke
        exact h.woken_of_hands I o hk hp hs hq
      · refine .inr (.inl ⟨k, by rwa [h.kt_of_ne hke], by rwa [h.exec_of_ne I o.alloc hke]⟩)
    · exact .inr (.inr (h.finished_mono I o.alloc hfin hheap))
  | @saves r hc hc' hctx =>
    obtain rfl : Resume.joined t pret = r := by simpa [hctx] using hsc
    exact .inr (.inl ⟨e.1, by simp [KThread.hands, hc'], h.exec_of_swap I hc hc'⟩)
  | resumes hc hc' hctx hctx' => simp [hctx'] at hsc
  | creates hc hq₀ hctx => simp [hctx] at hsc
  | frees hc hn => exact absurd (hn q) hheap

theorem Op.start_waited (o : Op) : o.start.waited = none := by cases o <;> rfl

theorem Resume.joined_of_waited {r : Resume} (h : r.pc.waited = some t) :
    ∃ pret, r = .joined t pret := by
  cases r with
  | yielded o =>
    cases o with
    | none => simp [Resume.pc, Pc.waited] at h
    | some o => simp [Resume.pc, Op.start_waited] at h
  | joined t' pret => exact ⟨pret, by simp_all [Resume.pc, Pc.waited]⟩
  | _ => simp [Resume.pc, Pc.waited] at h

/-- A join that knows its target to be finished knew so before the step, has just seen it, or has
just been resumed. -/
theorem Trans.waited_cases (h : Trans cfg s e s')
    (hk' : (s'.kt e.1).ctl.pc?.bind Pc.waited = some t) :
    (s.kt e.1).ctl.pc?.bind Pc.waited = some t ∨
      (∃ q, (s.kt e.1).ctl.pc?.bind Pc.target = some (t, some q) ∧
        s.stateOf q = some .finished) ∨
      ∃ q, (s.kt e.1).ctl = .sched (.dispSet q) := by
  cases h with
  | @call k c p₀ r hc₀ =>
    cases c with
    | op o => cases o <;> simp [Call.enter, Ctl.pc?, Pc.waited] at hk'
    | _ => simp [Call.enter, Ctl.pc?, Pc.waited] at hk'
  | tick => exact .inl (by simpa using hk')
  | deliver => exact .inl (by simpa using hk')
  | acquire h =>
    generalize hc₀ : (s.kt _).ctl = c at h
    cases h <;> simp_all [State.goto, Ctl.pc?, Pc.waited]
  | release h => cases h <;> simp_all [State.goto, Ctl.pc?, Pc.waited]
  | quiet h =>
    cases h with
    | start hc => simp [Ctl.pc?, Op.start_waited] at hk'
    | _ => simp_all [Ctl.pc?, Pc.waited]
  | signal h => cases h <;> simp_all [State.goto, Ctl.pc?, Pc.waited]
  | insert h =>
    generalize hc₀ : (s.kt _).ctl = c at h
    cases h <;> simp_all [State.goto, Ctl.pc?, Pc.waited]
  | entry hc hcur h =>
    generalize hta : (s.kt _).task = ta at h
    cases h <;> simp [Ctl.pc?] at hk'
  | parkJoin h hq hx =>
    generalize hc : (s.kt _).ctl = c at h
    cases h <;> simp [State.goto, Ctl.pc?] at hk'
  | parkSem h hq hx =>
    generalize hc : (s.kt _).ctl = c at h
    cases h <;> simp [State.goto, Ctl.pc?] at hk'
  | dispSet hc => exact .inr (.inr ⟨_, hc⟩)
  | @joinFinished k f p t₀ pret cur q x hc hx hst =>
    obtain rfl : t₀ = t := by simpa [State.goto, Ctl.pc?, Pc.waited] using hk'
    exact .inr (.inl ⟨q, by simp [hc, Ctl.pc?, Pc.target], by simp [State.stateOf, hx, hst]⟩)
  | _ hc => simp_all [State.goto, Ctl.pc?, Pc.waited]

theorem Trans.join_waited (h : Trans cfg s e s') (I : Inv s) (o : Admits s e) (k : Fin n) (t : Tid)
    (q : Ptr) (hk' : (s'.kt k).ctl.pc?.bind Pc.waited = some t) (hq' : s'.tcbs t = some q) :
    s'.stateOf q = some .finished := by
  have hheap : s'.heap q ≠ none := by
    obtain ⟨x, hx, -⟩ := (h.tableInv I o.alloc).slot t q hq'
    simp [hx]
  refine h.finished_mono I o.alloc ?_ hheap
  have hkeep (hk : (s.kt k).ctl.pc?.bind Pc.waited = some t) : s.stateOf q = some .finished := by
    rw [h.tcbs_eq_of_pc I o Pc.joins_of_waited Pc.joins_of_waited hk hk'] at hq'
    exact I.join.waited k t q hk hq'
  by_cases hke : k = e.1
  · subst hke
    rcases h.waited_cases hk' with hk | ⟨q₀, htgt, hfin⟩ | ⟨q₀, hc⟩
    · exact hkeep hk
    · rw [h.tcbs_eq_of_pc I o Pc.joins_of_target Pc.joins_of_waited htgt hk',
        I.join.read e.1 t _ htgt] at hq'
      rwa [← Option.some.inj hq']
    · -- a joiner is resumed only after its target has exited
      obtain ⟨p, hp, hj'⟩ := State.joinsAt_of_pc Pc.joins_of_waited hk'
      obtain ⟨rfl, c, hctx, hc'⟩ := h.resumes I hc hp
      have hexec : s.exec e.1 = some p := by simp [State.exec, KThread.exec, SchedPc.moving, hc]
      have hs : s.suspended p = some c.resume := by rw [State.suspended_eq_context, hctx]; rfl
      obtain ⟨pret, hr⟩ : ∃ pret, c.resume = .joined t pret := by
        have hw : c.resume.pc.waited = some t := by simpa [hc', Ctl.pc?] using hk'
        exact Resume.joined_of_waited hw
      rw [hr] at hs
      rw [h.tcbs_eq_of_joinsAt I o (p := p) (.inr (by simp [hs, Resume.joins])) hj'] at hq'
      have hmem := PlaceInv.mem_exec hexec
      rcases I.join.woken p t pret q hs hq' with hp' | ⟨k, hk, hp'⟩ | hfin
      · simpa using I.place.excl.unique (b := .joinq q) hmem hp'
      · have : e.1 = k := by simpa using I.place.excl.unique hmem (PlaceInv.mem_exec hp')
        subst this
        simp [KThread.hands, hc] at hk
      · exact hfin
  · exact hkeep (by rwa [← h.kt_of_ne hke])

/-- A finished thread in the hands of the acting kernel thread was there before the step. -/
theorem Trans.exec_of_finished (h : Trans cfg s e s') (I : Inv s)
    (hst : (s'.kt e.1).execState = .finished) (hq : s'.exec e.1 = some q) :
    s.exec e.1 = some q := by
  have ht := I.task e.1
  cases h with
  | @call k c p₀ r hc =>
    cases c with
    | op o => cases o <;> simp [Call.enter, KThread.execState, Pc.state] at hst
    | _ => simp [Call.enter, KThread.execState, Pc.state] at hst
  | tick => simpa [State.exec, State.setK, KThread.exec] using hq
  | deliver => simpa [State.exec, State.setK, KThread.exec] using hq
  | acquire h =>
    generalize hc : (s.kt _).ctl = c at h
    cases h <;> simp [State.goto, KThread.execState, Pc.state] at hst
  | release h => cases h <;> simp [State.goto, KThread.execState, Pc.state] at hst
  | quiet h =>
    cases h with
    | @start p o hc => simp [KThread.execState, Op.start_state] at hst
    | _ => simp_all [KThread.execState, KThread.TaskOk, KThread.block, SchedTask.state, Pc.state]
  | signal h => cases h <;> simp [State.goto, KThread.execState, Pc.state] at hst
  | insert h =>
    generalize hc : (s.kt _).ctl = c at h
    cases h <;> simp [State.goto, KThread.execState, Pc.state] at hst
  | entry hc hcur h =>
    have hex (hta : (s.kt _).task ≠ .none) := State.exec_entry (s := s) hc hta rfl
    generalize hta : (s.kt _).task = ta at h
    cases h <;>
      simp_all [State.exec, State.setK, KThread.exec, KThread.execState, SchedPc.moving]
  | parkJoin h hq hx =>
    generalize hc : (s.kt _).ctl = c at h
    cases h <;> simp [State.goto, KThread.execState] at hst
  | parkSem h hq hx =>
    generalize hc : (s.kt _).ctl = c at h
    cases h <;> simp [State.goto, KThread.execState] at hst
  | @dispSet k f q x c hc hx hctx => simp [KThread.execState, Resume.pc_state] at hst
  | exitBody hc => simpa [State.exec, State.setK, KThread.exec, hc] using hq
  | @exitSwitch k f p v hc =>
    simp only [KThread.TaskOk, hc, Pc.task, Option.some.injEq, Prod.mk.injEq] at ht
    rw [State.exec_thread hc, ← I.table.currentTcb_thread hc]
    exact (State.exec_entry (by simp) (by simp [ht]) (by simp)).symm.trans hq
  | @swap k f p c x r hc hx =>
    simp only [KThread.TaskOk, hc] at ht
    cases r <;> simp_all [KThread.execState, SchedTask.state, Pc.task]
  | _ hc => simp [State.goto, KThread.execState, Pc.state] at hst

/-- A finished thread stays in the hands of the acting kernel thread until its exit is carried
out. -/
theorem Trans.exec_keep_finished (h : Trans cfg s e s') (I : Inv s) (hq : s.exec e.1 = some q)
    (hst : (s.kt e.1).execState = .finished) :
    s'.exec e.1 = some q ∨ s.joinQueue q = [] ∨ ∃ j, s.joinQueue q = j :: s'.joinQueue q := by
  have ht := I.task e.1
  cases h with
  | @call k c p₀ r hc => simp [KThread.execState, hc, Pc.state] at hst
  | tick => exact .inl (by simpa [State.exec, State.setK, KThread.exec] using hq)
  | deliver => exact .inl (by simpa [State.exec, State.setK, KThread.exec] using hq)
  | acquire h =>
    generalize hc : (s.kt _).ctl = c at h
    cases h <;> simp [KThread.execState, Pc.state, hc] at hst
  | release h => cases h <;> simp_all [KThread.execState, Pc.state]
  | quiet h => cases h <;> simp_all [KThread.execState, SchedTask.state, Pc.state]
  | signal h => cases h <;> simp_all [KThread.execState, Pc.state]
  | insert h =>
    generalize hc : (s.kt _).ctl = c at h
    cases h <;> simp [KThread.execState, Pc.state, hc] at hst
  | @entry k f cur pc hc hcur h =>
    have hta : (s.kt k).task = .exit := by
      simp only [KThread.execState, hc] at hst
      cases hta : (s.kt k).task <;> simp_all [SchedTask.state]
    have hex : s.currentTcb k = some q := (State.exec_entry hc (by simp [hta]) rfl).symm.trans hq
    obtain rfl : cur = q := Option.some.inj (hcur.symm.trans hex)
    rw [hta] at h
    cases h
    exact .inl (by simp [State.exec, KThread.exec, SchedPc.moving])
  | parkJoin h hq hx =>
    generalize hc : (s.kt _).ctl = c at h
    cases h <;> simp [KThread.execState, hc] at hst
  | parkSem h hq hx =>
    generalize hc : (s.kt _).ctl = c at h
    cases h <;> simp [KThread.execState, hc] at hst
  | @exitSwitch k f p v hc =>
    simp only [KThread.TaskOk, hc, Pc.task, Option.some.injEq, Prod.mk.injEq] at ht
    rw [State.exec_thread hc, ← I.table.currentTcb_thread hc] at hq
    exact .inl ((State.exec_entry (s := s) (k := k) (by simp) (by simp [ht]) (by simp)).trans hq)
  | @swap k f p c x r hc hx => cases r <;> simp [KThread.execState, Pc.state, hc] at hst
  | @schedExit k f cur x hc hx hj =>
    obtain rfl : cur = q := by simpa [State.exec, KThread.exec, SchedPc.moving, hc] using hq
    exact .inr (.inl (by simp [State.joinQueue, hx, hj]))
  | @schedExitWake k f cur x j rest y hc hx hj hy hst' =>
    obtain rfl : cur = q := by simpa [State.exec, KThread.exec, SchedPc.moving, hc] using hq
    have hq' := State.joinQueue_setTcb (y := { y with state := .ready }) hy rfl cur
    refine .inr (.inr ⟨j, Eq.trans ?_ (congrArg (List.cons j) hq'.symm)⟩)
    simp [State.joinQueue, State.setTcb, hx, hj]
  | _ hc => simp [KThread.execState, Pc.state, hc] at hst

theorem Inv.joinQueue_eq_singleton (I : Inv s) {j : Ptr} {rest : List Ptr}
    (hq : s.joinQueue q = j :: rest) : rest = [] := by
  cases rest with
  | nil => rfl
  | cons j' rest =>
    obtain ⟨t, pret, hs, ht⟩ := I.join.parked q j (by simp [hq])
    obtain ⟨t', pret', hs', ht'⟩ := I.join.parked q j' (by simp [hq])
    obtain ⟨x, hx, hxt⟩ := I.table.slot t q ht
    obtain ⟨x', hx', hxt'⟩ := I.table.slot t' q ht'
    obtain rfl : x = x' := Option.some.inj (hx.symm.trans hx')
    obtain rfl : t = t' := hxt.symm.trans hxt'
    obtain rfl : j = j' := I.join.unique j j' t (.inr (by simp [hs, Resume.joins]))
      (.inr (by simp [hs', Resume.joins]))
    have := I.place.excl.nodup (.joinq q)
    simp [State.holds, hq] at this

theorem Op.start_passed (o : Op) : o.start.passed = none := by cases o <;> rfl

theorem Resume.pc_passed (r : Resume) : r.pc.passed = none := by
  cases r with
  | yielded o => cases o <;> first | rfl | exact Op.start_passed _
  | _ => rfl

theorem Trans.passed_cases (h : Trans cfg s e s')
    (hk' : (s'.kt e.1).ctl.pc?.bind Pc.passed = some t) :
    (s.kt e.1).ctl.pc?.bind Pc.passed = some t ∨
      ∃ p pret, (s.kt e.1).ctl = .thread p (.join t pret .finish) := by
  cases h with
  | @call k c p₀ r hc₀ =>
    cases c with
    | op o => cases o <;> simp [Call.enter, Ctl.pc?, Pc.passed] at hk'
    | _ => simp [Call.enter, Ctl.pc?, Pc.passed] at hk'
  | tick => exact .inl (by simpa using hk')
  | deliver => exact .inl (by simpa using hk')
  | acquire h =>
    generalize hc₀ : (s.kt _).ctl = c at h
    cases h <;> simp_all [State.goto, Ctl.pc?, Pc.passed]
  | release h => cases h <;> simp_all [State.goto, Ctl.pc?, Pc.passed]
  | quiet h =>
    cases h with
    | start hc => simp [Ctl.pc?, Op.start_passed] at hk'
    | _ => simp_all [Ctl.pc?, Pc.passed]
  | signal h => cases h <;> simp_all [State.goto, Ctl.pc?, Pc.passed]
  | insert h =>
    generalize hc₀ : (s.kt _).ctl = c at h
    cases h <;> simp_all [State.goto, Ctl.pc?, Pc.passed]
  | entry hc hcur h =>
    generalize hta : (s.kt _).task = ta at h
    cases h <;> simp [Ctl.pc?] at hk'
  | parkJoin h hq hx =>
    generalize hc : (s.kt _).ctl = c at h
    cases h <;> simp [State.goto, Ctl.pc?] at hk'
  | parkSem h hq hx =>
    generalize hc : (s.kt _).ctl = c at h
    cases h <;> simp [State.goto, Ctl.pc?] at hk'
  | dispSet hc => simp [Ctl.pc?, Resume.pc_passed] at hk'
  | @joinFinish k f p t₀ pret q x hc hq hx hst =>
    obtain rfl : t₀ = t := by simpa [State.goto, Ctl.pc?, Pc.passed] using hk'
    exact .inr ⟨p, pret, hc⟩
  | _ hc => simp_all [State.goto, Ctl.pc?, Pc.passed]

theorem Trans.join_passed (h : Trans cfg s e s') (I : Inv s) (o : Admits s e) (k : Fin n) (t : Tid)
    (q : Ptr) (hk' : (s'.kt k).ctl.pc?.bind Pc.passed = some t) (hq' : s'.tcbs t = some q)
    (k' : Fin n) : s'.exec k' ≠ some q := by
  have P' := h.placeInv I o
  have hfin' := h.join_waited I o k t q (by
    cases hc : (s'.kt k).ctl with
    | thread p pc =>
      simp only [hc, Ctl.pc?, Option.bind_some] at hk' ⊢
      exact Pc.waited_of_passed hk'
    | _ => simp [hc, Ctl.pc?] at hk') hq'
  -- the thread is in the hands of no kernel thread before the step
  suffices hs : ∀ k'', s.exec k'' ≠ some q by
    intro hk''
    by_cases hke : k' = e.1
    · subst hke
      refine hs e.1 (h.exec_of_finished I ?_ hk'')
      have := P'.alive (.exec e.1) q (PlaceInv.mem_exec hk'')
      exact Option.some.inj (this.symm.trans hfin')
    · exact hs k' (h.exec_of_ne I o.alloc hke ▸ hk'')
  have hjp {pc : Pc} (hpc : pc.passed = some t) := Pc.joins_of_waited (Pc.waited_of_passed hpc)
  have hkeep (hk : (s.kt k).ctl.pc?.bind Pc.passed = some t) : ∀ k'', s.exec k'' ≠ some q := by
    rw [h.tcbs_eq_of_pc I o hjp hjp hk hk'] at hq'
    exact I.join.passed k t q hk hq'
  by_cases hke : k = e.1
  · subst hke
    rcases h.passed_cases hk' with hk | ⟨p, pret, hc⟩
    · exact hkeep hk
    · intro k'' hk''
      have hw : (s.kt e.1).ctl.pc?.bind Pc.waited = some t := by simp [hc, Ctl.pc?, Pc.waited]
      rw [h.tcbs_eq_of_pc I o Pc.joins_of_waited hjp hw hk'] at hq'
      have hfin := I.join.waited e.1 t q hw hq'
      have hst := I.place.alive (.exec k'') q (PlaceInv.mem_exec hk'')
      -- a kernel thread with a finished thread would hold `tcbs_lock` as well
      obtain rfl := (I.lock .tcbs).unique (j := k'') (k := e.1)
        (KThread.tcbs_mem_held hk'' (.inr (Option.some.inj (hst.symm.trans hfin))))
        (by simp [KThread.held, Pc.held, hc])
      obtain ⟨q', hq'', hne⟩ := I.join.target p t
        (.inl ⟨e.1, by simp [hc, Ctl.joining, Pc.joins]⟩)
      rw [State.exec_thread hc] at hk''
      exact hne (Option.some.inj (hq''.symm.trans (hq'.trans hk''.symm)))
  · exact hkeep (by rwa [← h.kt_of_ne hke])

theorem Trans.join_exiting (h : Trans cfg s e s') (I : Inv s) (o : Admits s e) (q : Ptr)
    (hfin' : s'.stateOf q = some .finished) (hne' : s'.joinQueue q ≠ []) :
    ∃ k, s'.exec k = some q := by
  have hheap : s'.heap q ≠ none := fun hn => by simp [State.stateOf, hn] at hfin'
  rcases h.finished_cases I o.alloc q with hiff | hn | ⟨v, hc⟩
  · have hfin := hiff.1 hfin'
    have hne : s.joinQueue q ≠ [] := by
      rcases h.joinQueue_cases I o.alloc q with heq | ⟨cur, hc, hqu, -⟩ | ⟨j, -, heq⟩ | hn
      · rwa [← heq]
      · -- nobody is parked in the queue of a finished thread
        obtain ⟨t, pret, hs⟩ := I.joined_of_joinBody hc
        obtain ⟨q', hqu', -, hst⟩ := I.join.handing e.1 t (.inr ⟨by simp [KThread.hands, hc],
          cur, pret, by simp [State.exec, KThread.exec, SchedPc.moving, hc], hs⟩)
        obtain rfl : q = q' := by simpa [hqu] using hqu'
        exact absurd hfin hst
      · simp [heq]
      · exact absurd hn hheap
    obtain ⟨k, hk⟩ := I.join.exiting q hfin hne
    by_cases hke : k = e.1
    · subst hke
      have hst := I.place.alive (.exec e.1) q (PlaceInv.mem_exec hk)
      rcases h.exec_keep_finished I hk (Option.some.inj (hst.symm.trans hfin)) with
        hk' | hnil | ⟨j, heq⟩
      · exact ⟨e.1, hk'⟩
      · exact absurd hnil hne
      · exact absurd (I.joinQueue_eq_singleton heq) hne'
    · exact ⟨k, by rwa [h.exec_of_ne I o.alloc hke]⟩
  · exact absurd hn hheap
  · rcases h.switch_cases with hsame | hsw
    · exact ⟨e.1, State.exec_of_thread? (by rw [hsame, hc]; rfl)⟩
    · generalize e.1 = k at hsw hc
      cases hsw <;> simp_all

/-- Every step keeps `JoinInv`. -/
theorem Trans.joinInv (h : Trans cfg s e s') (I : Inv s) (o : Admits s e) : JoinInv s' where
  unique := h.join_unique I o
  target := h.join_target I o
  read := h.join_read I o
  parked := h.join_parked I o
  handing := h.join_handing I o
  woken := h.join_woken I o
  waited := h.join_waited I o
  passed := h.join_passed I o
  exiting := h.join_exiting I o

end Uthread
