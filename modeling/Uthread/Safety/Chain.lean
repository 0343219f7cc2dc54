import Uthread.Model.Blocked
import Uthread.Safety.Target
import Mathlib.Logic.Relation
import Mathlib.Order.Basic

/-!
# Chains of joins

A thread may join another one while a third one is blocked joining it. Every step of `uthread_join` and
of the branches of `schedule` that serve it goes through then, except for one: the assertion before the
caller blocks is made on the join queue of the caller, not on that of its target. So a join passes its test
exactly when its target has finished or nobody is waiting to join the caller.

## Main definitions

* `JoinsChain`: no join stops the run; the caller is parked in the join queue of its target, and the exit
  of the target makes ready exactly the thread that is parked there.

## Main results

* `joins_chain_iff`.
-/

namespace Uthread

variable {n : ℕ} {cfg : Config} {s s' : State n} {k : Fin n} {p q : Ptr} {t : Tid}

/-- What is asked of the joins in a state. -/
structure JoinsChain (cfg : Config) (s : State n) : Prop where
  goes : ∀ k p t pret x f s', (s.kt k).ctl = .thread p (.join t pret x) →
    s.step cfg (k, .run f) = some s' → s'.halt = none
  blocks : ∀ k p t pret cur q, (s.kt k).ctl = .thread p (.join t pret (.test cur (some q))) →
    s.stateOf q ≠ some .finished → ∃ s', s.step cfg (k, .run none) = some s' ∧
      (s'.kt k).ctl = .thread p (.swap (some p) (.joined t pret)) ∧
      (s'.kt k).queue = some (.join q) ∧ s'.stateOf p = some .waitingJoin
  saves : ∀ k p t pret cur, (s.kt k).ctl = .thread p (.swap cur (.joined t pret)) →
    ∃ s', s.step cfg (k, .run none) = some s' ∧ s'.halt = none ∧ (s'.kt k).ctl = .sched .entry ∧
      (s'.kt k).task = .join ∧ s'.exec k = some p
  enters : ∀ k p, (s.kt k).ctl = .sched .entry → (s.kt k).task = .join → s.exec k = some p →
    ∃ s', s.step cfg (k, .run none) = some s' ∧ s'.halt = none ∧
      (s'.kt k).ctl = .sched (.joinBody p)
  parks : ∀ k p, (s.kt k).ctl = .sched (.joinBody p) → ∃ t pret q s',
    s.suspended p = some (.joined t pret) ∧ s.tcbs t = some q ∧
    s.step cfg (k, .run none) = some s' ∧ s'.halt = none ∧ s'.joinQueue q = [p]
  wakes : ∀ k q, (s.kt k).ctl = .sched (.exitBody q) → ∃ s',
    s.step cfg (k, .run none) = some s' ∧ s'.halt = none ∧ s'.joinQueue q = [] ∧
    ((s.joinQueue q = [] ∧ s'.heap = s.heap ∧ (s'.kt k).ctl = .sched .unlockTcbs) ∨
      ∃ j, s.joinQueue q = [j] ∧ s'.stateOf j = some .ready ∧
        (∀ r, r ≠ j → s'.stateOf r = s.stateOf r) ∧ (s'.kt k).ctl = .sched (.enq j .lock))
  returns : ∀ k p t pret rv, (s.kt k).ctl = .thread p (.join t pret (.ret rv)) →
    ∃ s', s.step cfg (k, .run none) = some s' ∧ (s'.kt k).ctl = .thread p (.user (.joined t rv 0))

/-- At the test of a join the target has finished, or no thread waits to join the caller. -/
def JoinTestOk (s : State n) : Prop :=
  ∀ k p t pret cur q, (s.kt k).ctl = .thread p (.join t pret (.test cur (some q))) →
    s.stateOf q = some .finished ∨ s.joinQueue p = []

/-- Thread `p` is inside a join of thread `q`. -/
def State.Joins (s : State n) (p q : Ptr) : Prop := ∃ t, s.JoinsAt p t ∧ s.tcbs t = some q

/-! ### The test -/

/-- At the test the local variables hold the caller and the target, and both are allocated. -/
theorem Inv.join_test (I : Inv s) {pret : Bool} {cur tgt : Option Ptr}
    (hc : (s.kt k).ctl = .thread p (.join t pret (.test cur tgt))) :
    ∃ q x y, cur = some p ∧ tgt = some q ∧ s.tcbs t = some q ∧ s.heap q = some x ∧
      s.heap p = some y := by
  have hcur := I.table.locals k
  simp only [hc, Ctl.LocalsOk, Pc.curs, List.mem_cons, List.not_mem_nil, or_false, forall_eq] at hcur
  obtain ⟨q, hq, -⟩ := I.join.target p t (.inl ⟨k, by simp [hc, Ctl.joining, Pc.joins]⟩)
  have htgt : s.tcbs t = tgt := I.join.read k t tgt (by simp [hc, Ctl.pc?, Pc.target])
  obtain ⟨x, hx, -⟩ := I.table.slot t q hq
  obtain ⟨y, hy⟩ := Option.ne_none_iff_exists'.mp (I.place.heap_ne_none (State.exec_thread hc))
  exact ⟨q, x, y, hcur, by rw [← htgt, hq], hq, hx, hy⟩

/-- The test stops the run exactly when the target has not finished and a thread waits to join the
caller. -/
theorem Inv.join_test_iff (I : Inv s) (hh : s.halt = none) {pret : Bool} {cur : Option Ptr}
    {f : Option AllocSite} (hc : (s.kt k).ctl = .thread p (.join t pret (.test cur (some q))))
    (hs : s.step cfg (k, .run f) = some s') :
    s'.halt = none ↔ s.stateOf q = some .finished ∨ s.joinQueue p = [] := by
  obtain ⟨q', x, y, rfl, hq, -, hx, hy⟩ := I.join_test hc
  obtain rfl := Option.some.inj hq
  simp only [State.step, hh, if_true, State.stepRun, hc, State.stepThread, State.stepJoin, State.withTcb,
    hx, hy] at hs
  simp only [State.stateOf, State.joinQueue, hx, hy, Option.map_some, Option.some.injEq, Option.getD_some]
  split_ifs at hs with hst hj <;> obtain rfl := Option.some.inj hs
  · simp [State.goto, State.setK, hh, hst]
  · simp [State.setK, State.setTcb, hh, hj]
  · simp [State.abort, hst, hj]

/-! ### The other steps of a join -/

/-- No other step of `uthread_join` stops the run. -/
theorem Inv.join_goes (I : Inv s) (hh : s.halt = none) {pret : Bool} {x : JoinPc}
    {f : Option AllocSite} (hc : (s.kt k).ctl = .thread p (.join t pret x))
    (hx : ∀ cur tgt, x ≠ .test cur tgt) (hs : s.step cfg (k, .run f) = some s') : s'.halt = none := by
  simp only [State.step, hh, if_true, State.stepRun, hc, State.stepThread] at hs
  have hacq {L : Lock} {c : Ctl} (ha : s.acquire k L c = some s') : s'.halt = none := by
    unfold State.acquire at ha
    split_ifs at ha
    exact Option.some.inj ha ▸ hh
  -- the target is in the table until it is destroyed
  have htarget (hj : (Pc.join t pret x).joins = some t) : ∃ q y, s.tcbs t = some q ∧ s.heap q = some y := by
    obtain ⟨q, hq, -⟩ := I.join.target p t (.inl ⟨k, by simp [hc, Ctl.joining, hj]⟩)
    obtain ⟨y, hy, -⟩ := I.table.slot t q hq
    exact ⟨q, y, hq, hy⟩
  cases x with
  | test cur tgt => exact absurd rfl (hx cur tgt)
  | lock cur tgt => exact hacq hs
  | relock => exact hacq hs
  | bvLock rv => exact hacq hs
  | finish =>
    obtain ⟨q, y, hq, hy⟩ := htarget rfl
    have hfin : y.state = .finished := by
      simpa [State.stateOf, hy] using I.join.waited k t q (by simp [hc, Ctl.pc?, Pc.waited]) hq
    simp only [State.stepJoin, State.withTcb, hq, hy, hfin, if_true] at hs
    exact Option.some.inj hs ▸ hh
  | destroy rv =>
    obtain ⟨q, y, hq, hy⟩ := htarget rfl
    simp only [State.stepJoin, State.destroyThread, State.withTcb, hq, hy] at hs
    exact Option.some.inj hs ▸ hh
  | _ => exact Option.some.inj hs ▸ hh

/-! ### The scheduler -/

/-- Nobody is in the join queue of the target when the scheduler parks the caller there. -/
theorem Inv.joinQueue_of_parking (I : Inv s) {pret : Bool} (hc : (s.kt k).ctl = .sched (.joinBody p))
    (hsus : s.suspended p = some (.joined t pret)) (hq : s.tcbs t = some q) : s.joinQueue q = [] := by
  rw [List.eq_nil_iff_forall_not_mem]
  intro j hj
  obtain ⟨u, b, hsus', hq'⟩ := I.join.parked q j hj
  obtain ⟨x, hx, htx⟩ := I.table.slot t q hq
  obtain ⟨x', hx', hux⟩ := I.table.slot u q hq'
  obtain rfl : x = x' := Option.some.inj (hx.symm.trans hx')
  obtain rfl : t = u := htx.symm.trans hux
  obtain rfl : j = p := I.join.unique j p t (.inr (by simp [hsus', Resume.joins]))
    (.inr (by simp [hsus, Resume.joins]))
  have hexec : j ∈ s.holds (.exec k) := by
    simp [State.holds, State.exec, KThread.exec, SchedPc.moving, hc]
  have hne : Place.joinq q ≠ Place.exec k := by simp
  exact I.place.excl.notMem_of_ne hexec hne hj

/-- The scheduler parks the caller of a join in the join queue of its target. -/
theorem Inv.join_parks (I : Inv s) (hh : s.halt = none) (hc : (s.kt k).ctl = .sched (.joinBody p)) :
    ∃ t pret q s', s.suspended p = some (.joined t pret) ∧ s.tcbs t = some q ∧
      s.step cfg (k, .run none) = some s' ∧ s'.halt = none ∧ s'.joinQueue q = [p] := by
  obtain ⟨t, pret, hsus⟩ := I.joined_of_joinBody hc
  have hexec : s.exec k = some p := by simp [State.exec, KThread.exec, SchedPc.moving, hc]
  obtain ⟨q, hqueue, hq, -⟩ := I.join.handing k t
    (.inr ⟨by simp [KThread.hands, hc], p, pret, hexec, hsus⟩)
  obtain ⟨x, hx, -⟩ := I.table.slot t q hq
  have hnil : x.joinQueue = [] := by
    simpa [State.joinQueue, hx] using I.joinQueue_of_parking hc hsus hq
  have hstep : s.step cfg (k, .run none) = some ((s.setTcb q { x with joinQueue := x.joinQueue ++ [p] }).goto k
      (.sched .unlockTcbs)) := by
    simp [State.step, hh, State.stepRun, hc, State.stepSchedule, State.queueEnqueue, hqueue,
      State.withTcb, hx]
  refine ⟨t, pret, q, _, hsus, hq, hstep, hh, ?_⟩
  simp [State.joinQueue, State.goto, State.setK, State.setTcb, hnil]

/-- The thread whose exit the scheduler carries out is finished, and `current_tid` names it. -/
theorem Inv.exit_cur (I : Inv s) (hc : (s.kt k).ctl = .sched (.exitBody q)) :
    ∃ x, s.heap q = some x ∧ (x.tid : ℤ) = (s.kt k).currentTid ∧ x.state = .finished := by
  have hexec : s.exec k = some q := by simp [State.exec, KThread.exec, SchedPc.moving, hc]
  obtain ⟨x, hx⟩ := Option.ne_none_iff_exists'.mp (I.place.heap_ne_none hexec)
  have hcur : s.currentTcb k = some q := by
    rw [I.table.cur k (by simp [KThread.names, hc]), hexec]
  have hst : x.state = .finished := by
    simpa [KThread.execState, hc] using I.place.state_exec hexec hx
  unfold State.currentTcb at hcur
  split_ifs at hcur with h0
  obtain ⟨x', hx', htid⟩ := I.table.slot _ q hcur
  obtain rfl : x = x' := Option.some.inj (hx.symm.trans hx')
  exact ⟨x, hx, by rw [htid, Int.toNat_of_nonneg h0], hst⟩

/-- The exit of a thread makes ready exactly the thread that is parked in its join queue. -/
theorem Inv.join_wakes (I : Inv s) (hh : s.halt = none) (hc : (s.kt k).ctl = .sched (.exitBody q)) :
    ∃ s', s.step cfg (k, .run none) = some s' ∧ s'.halt = none ∧ s'.joinQueue q = [] ∧
      ((s.joinQueue q = [] ∧ s'.heap = s.heap ∧ (s'.kt k).ctl = .sched .unlockTcbs) ∨
        ∃ j, s.joinQueue q = [j] ∧ s'.stateOf j = some .ready ∧
          (∀ r, r ≠ j → s'.stateOf r = s.stateOf r) ∧ (s'.kt k).ctl = .sched (.enq j .lock)) := by
  obtain ⟨x, hx, htid, hst⟩ := I.exit_cur hc
  have hjq : s.joinQueue q = x.joinQueue := by simp [State.joinQueue, hx]
  cases hl : x.joinQueue with
  | nil =>
    have hstep : s.step cfg (k, .run none) = some (s.goto k (.sched .unlockTcbs)) := by
      simp [State.step, hh, State.stepRun, hc, State.stepSchedule, State.scheduleExit, State.withTcb, hx, hl]
    refine ⟨_, hstep, hh, ?_, .inl ⟨?_, rfl, by simp [State.goto]⟩⟩
    · simpa [State.joinQueue, State.goto, State.setK, hx] using hl
    · rw [hjq, hl]
  | cons j rest =>
    obtain rfl := I.joinQueue_eq_singleton (hjq.trans hl)
    have hmem : j ∈ s.holds (.joinq q) := by simp [State.holds, hjq, hl]
    have hjst := I.place.alive _ j hmem
    obtain ⟨y, hy, hyst⟩ : ∃ y, s.heap j = some y ∧ y.state = .waitingJoin := by
      simpa [State.stateOf, State.placeState] using hjst
    have hjq' : j ≠ q := by
      rintro rfl
      obtain rfl : x = y := Option.some.inj (hx.symm.trans hy)
      simp [hst] at hyst
    -- the assertion on the identifiers
    have hytid : (y.tid : ℤ) ≠ (s.kt k).currentTid := by
      intro h
      have htids : y.tid = x.tid := Int.ofNat_inj.mp (h.trans htid.symm)
      have hj := I.table.tid j y hy
      rw [htids, I.table.tid q x hx] at hj
      exact hjq' (Option.some.inj hj).symm
    have hstep : s.step cfg (k, .run none) = some (((s.setTcb q { x with joinQueue := [] }).setTcb j
        { y with state := .ready }).goto k (.sched (.enq j .lock))) := by
      simp [State.step, hh, State.stepRun, hc, State.stepSchedule, State.scheduleExit, State.withTcb, hx, hl,
        State.setTcb, hjq', hy, hytid, hyst]
    refine ⟨_, hstep, hh, ?_, .inr ⟨j, hjq.trans hl, ?_, fun r hr => ?_, by simp [State.goto]⟩⟩
    · simp [State.joinQueue, State.goto, State.setK, State.setTcb, hjq'.symm]
    · simp [State.stateOf, State.goto, State.setK, State.setTcb]
    · by_cases hrq : r = q
      · simp [State.stateOf, State.goto, State.setK, State.setTcb, hrq, hjq'.symm, hx]
      · simp [State.stateOf, State.goto, State.setK, State.setTcb, hr, hrq]

/-- The context of the caller of a join is saved, and its scheduler knows the task. -/
theorem Inv.join_saves (I : Inv s) (hh : s.halt = none) {pret : Bool} {cur : Option Ptr}
    (hc : (s.kt k).ctl = .thread p (.swap cur (.joined t pret))) :
    ∃ s', s.step cfg (k, .run none) = some s' ∧ s'.halt = none ∧ (s'.kt k).ctl = .sched .entry ∧
      (s'.kt k).task = .join ∧ s'.exec k = some p := by
  have hcur := I.table.locals k
  simp only [hc, Ctl.LocalsOk, Pc.curs, List.mem_cons, forall_eq_or_imp] at hcur
  obtain ⟨x, hx⟩ := Option.ne_none_iff_exists'.mp (I.place.heap_ne_none (State.exec_thread hc))
  have htask : (s.kt k).task = .join := by
    have := I.task k
    simp only [KThread.TaskOk, hc, Pc.task, Option.some.injEq, Prod.mk.injEq] at this
    exact this.1
  have hstep : s.step cfg (k, .run none) =
      some ((s.setTcb p { x with ctx := some ⟨p, .joined t pret, (s.kt k).blocked⟩ }).setK k
        { s.kt k with ctl := .sched .entry, blocked := cfg.preemptive }) := by
    simp [State.step, hh, State.stepRun, hc, State.stepThread, State.stepSwap, State.withTcb, hcur.1, hx]
  refine ⟨_, hstep, hh, by simp, by simpa using htask, ?_⟩
  have hself := I.table.currentTcb_thread hc
  simpa [State.exec, KThread.exec, State.setK, State.setTcb, htask, State.currentTcb] using hself

/-- The scheduler of the caller of a join goes on to park it. -/
theorem State.join_enters (hh : s.halt = none) (hc : (s.kt k).ctl = .sched .entry)
    (ht : (s.kt k).task = .join) (hp : s.exec k = some p) :
    ∃ s', s.step cfg (k, .run none) = some s' ∧ s'.halt = none ∧
      (s'.kt k).ctl = .sched (.joinBody p) := by
  have hcur : s.currentTcb k = some p := by
    simpa [State.exec, KThread.exec, hc, ht, State.currentTcb] using hp
  have hstep : s.step cfg (k, .run none) =
      some ((s.setK k ((s.kt k).block cfg)).goto k (.sched (.joinBody p))) := by
    simp [State.step, hh, State.stepRun, hc, State.stepSchedule, State.scheduleEntry, ht, hcur]
  exact ⟨_, hstep, hh, by simp [State.goto]⟩

/-- **Joins may be chained, but for one test.** In every reachable state the joins of the library work,
whatever chain of joins the threads form, if and only if at every test of a join the target has finished
or no thread waits to join the caller. -/
theorem joins_chain_iff (hn : 0 < n) (hr : (machine n cfg).Reachable Obeys s) (hh : s.halt = none) :
    JoinsChain cfg s ↔ JoinTestOk s := by
  have I := inv_of_reachable hn hr
  have htest {k : Fin n} {p q : Ptr} {t : Tid} {pret : Bool} {cur : Option Ptr}
      (hc : (s.kt k).ctl = .thread p (.join t pret (.test cur (some q)))) :
      ∃ s', s.step cfg (k, .run none) = some s' := by
    refine Option.ne_none_iff_exists'.mp fun hnone => ?_
    cases State.blocked_of_step_eq_none hh hnone with
    | mutex h => rw [hc] at h; cases h
    | _ => simp_all
  constructor
  · intro J k p t pret cur q hc
    obtain ⟨s', hs⟩ := htest hc
    exact (I.join_test_iff hh hc hs).1 (J.goes k p t pret _ none s' hc hs)
  · intro hok
    refine ⟨?_, ?_, fun k p t pret cur hc => I.join_saves hh hc,
      fun k p hc ht hp => State.join_enters hh hc ht hp, fun k p hc => I.join_parks hh hc,
      fun k q hc => I.join_wakes hh hc, ?_⟩
    · intro k p t pret x f s' hc hs
      by_cases hx : ∃ cur tgt, x = .test cur tgt
      · obtain ⟨cur, tgt, rfl⟩ := hx
        obtain ⟨q, -, -, -, rfl, -⟩ := I.join_test hc
        exact (I.join_test_iff hh hc hs).2 (hok k p t pret cur q hc)
      · exact I.join_goes hh hc (fun cur tgt h => hx ⟨cur, tgt, h⟩) hs
    · intro k p t pret cur q hc hst
      obtain ⟨q', x, y, rfl, hq, -, hx, hy⟩ := I.join_test hc
      obtain rfl := Option.some.inj hq
      have hne : x.state ≠ .finished := by simpa [State.stateOf, hx] using hst
      have hnil : y.joinQueue = [] := by
        simpa [State.joinQueue, hy] using (hok k p t pret _ q hc).resolve_left hst
      refine ⟨_, by simp [State.step, hh, State.stepRun, hc, State.stepThread, State.stepJoin,
        State.withTcb, hx, hy, hne, hnil]; rfl, ?_⟩
      simp [State.stateOf, State.setTcb, State.setK]
    · intro k p t pret rv hc
      refine ⟨_, by simp [State.step, hh, State.stepRun, hc, State.stepThread, State.stepJoin]; rfl, ?_⟩
      simp

/-- The main thread joins a thread that has not finished, and nobody joins the main thread. -/
theorem joins_chain_iff_main : ∃ s : State 1,
    (s.kt 0).ctl = .thread mainTcb (.join 1 true (.test (some mainTcb) (some 1))) ∧
      s.stateOf 1 = some .ready ∧ JoinsChain ⟨0⟩ s := by
  obtain ⟨h, s, hr, hs⟩ := EventMachine.exists_run_of_exec
    (M := machine 1 ⟨0⟩) (P := Obeys)
    (runs 0 2 ++ [(0, .call (.op (.create false)))] ++ runs 0 12 ++
      [(0, .call (.op (.join 1 true)))] ++ runs 0 3)
    (p := fun x => x.2.halt = none ∧
      (x.2.kt 0).ctl = .thread mainTcb (.join 1 true (.test (some mainTcb) (some 1))) ∧
      x.2.stateOf 1 = some .ready ∧ x.2.joinQueue mainTcb = []) (by decide +kernel)
  obtain ⟨hh, hc, hst, hq⟩ : s.halt = none ∧
      (s.kt 0).ctl = .thread mainTcb (.join 1 true (.test (some mainTcb) (some 1))) ∧
      s.stateOf 1 = some .ready ∧ s.joinQueue mainTcb = [] := of_decide_eq_true hs
  refine ⟨s, hc, hst, (joins_chain_iff Nat.one_pos hr.reachable hh).2 fun k p t pret cur q hc' => ?_⟩
  rw [Subsingleton.elim k 0, hc] at hc'
  obtain ⟨rfl, -⟩ : mainTcb = p ∧ _ := by simpa using hc'
  exact .inr hq

/-- The main thread joins thread `1`, which then joins thread `2`: the second join aborts. -/
theorem joins_chain_fails : ¬ ∀ (n : ℕ) (cfg : Config) (s : State n), 0 < n →
    (machine n cfg).Reachable Obeys s → s.halt = none →
    (∀ p, ¬ Relation.TransGen s.Joins p p) → JoinsChain cfg s := by
  intro hall
  obtain ⟨h, s, hr, hs⟩ := EventMachine.exists_run_of_exec
    (M := machine 1 ⟨0⟩) (P := Obeys)
    (runs 0 2 ++ [(0, .call (.op (.create false)))] ++ runs 0 12 ++
      [(0, .call (.op (.join 1 true)))] ++ runs 0 22 ++
      [(0, .call (.op (.create false)))] ++ runs 0 12 ++
      [(0, .call (.op (.join 2 true)))] ++ runs 0 3)
    (p := fun x => (x.2.halt = none ∧ x.2.fresh = 3 ∧
      (x.2.kt 0).ctl = .thread 1 (.join 2 true (.test (some 1) (some 2))) ∧
      (x.2.step ⟨0⟩ (0, .run none)).map (·.halt) = some (some .abort)) ∧
      (∀ q : ℕ, q < 3 → (x.2.heap q).map (·.tid) = some q) ∧
      ∀ p : ℕ, p < 3 → ∀ t : ℕ, t < 3 → (x.2.kt 0).ctl.joining = some (p, t) ∨
        (x.2.suspended p).bind Resume.joins = some t → p < t) (by decide +kernel)
  obtain ⟨⟨hh, hf, hc, habort⟩, htid, hlt⟩ : (s.halt = none ∧ s.fresh = 3 ∧
      (s.kt 0).ctl = .thread 1 (.join 2 true (.test (some 1) (some 2))) ∧
      (s.step ⟨0⟩ (0, .run none)).map (·.halt) = some (some .abort)) ∧
      (∀ q : ℕ, q < 3 → (s.heap q).map (·.tid) = some q) ∧
      ∀ p : ℕ, p < 3 → ∀ t : ℕ, t < 3 → (s.kt 0).ctl.joining = some (p, t) ∨
        (s.suspended p).bind Resume.joins = some t → p < t := of_decide_eq_true hs
  have I := inv_of_reachable Nat.one_pos hr.reachable
  have hbound (p : ℕ) (hp : s.heap p ≠ none) : p < 3 := by
    by_contra hle
    exact hp (I.place.bound p (hf ▸ Nat.le_of_not_lt hle))
  -- in this state a thread joins a younger one
  have hstep (p q : ℕ) (hpq : s.Joins p q) : p < q := by
    obtain ⟨t, hj, hq⟩ := hpq
    obtain ⟨x, hx, rfl⟩ := I.table.slot t q hq
    have hq3 := hbound q (by simp [hx])
    obtain rfl : x.tid = q := by simpa [hx] using htid q hq3
    refine hlt p (hbound p (hj.heap_ne_none I.place)) _ hq3 (hj.imp_left ?_)
    rintro ⟨k, hk⟩
    rwa [Subsingleton.elim k 0] at hk
  have hacyclic (p : ℕ) : ¬ Relation.TransGen s.Joins p p := by
    intro hp
    have hlt : Relation.TransGen s.Joins ≤ ((· < ·) : ℕ → ℕ → Prop) := Relation.transGen_minimal hstep
    exact lt_irrefl p (hlt p p hp)
  obtain ⟨s', hs', habort⟩ := Option.map_eq_some_iff.mp habort
  have := (hall 1 ⟨0⟩ s Nat.one_pos hr.reachable hh hacyclic).goes 0 1 2 true _ none s' hc hs'
  simp [habort] at this

end Uthread
