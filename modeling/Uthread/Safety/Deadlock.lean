import Uthread.Lib.Waits
import Uthread.Safety.Quiescence

/-!
# No deadlock by joins

A thread that begins to wait in `uthread_join` is waited for by nobody: the assertion there makes sure of it. So
the threads that wait in the join queues of others never wait in a circle. When all the kernel threads wait for
the ready queue and it is empty, all threads have finished or some thread waits at a semaphore.

## Main definitions

* `State.Awaits`: a thread waits in the join queue of another one.

## Main results

* `joins_noCycle`: no circle of joins.
* `all_idle_cases`: what it takes that nothing can go on.
-/

namespace Uthread

variable {n : ℕ} {cfg : Config} {s s' : State n} {e : Event n} {k : Fin n} {p q : Ptr} {i : SemId}
  {h : List (State n × Event n)}

/-- Thread `p` waits in the join queue of thread `q`. -/
def State.Awaits (s : State n) (p q : Ptr) : Prop := p ∈ s.joinQueue q

/-- Nobody waits to join a thread that is about to be parked in a join queue, and nobody waits in a circle. -/
structure AwaitInv (s : State n) : Prop where
  parking : ∀ k t p, s.HandsJoin k t → s.exec k = some p → s.joinQueue p = []
  noCycle : NoCycle s.Awaits

/-- A thread is about to switch to its scheduler in `uthread_join` because it was before, or because it passes the
test there, with nobody in its join queue. -/
theorem Trans.swap_joined (ht : Trans cfg s e s') (I : Inv s) {cur : Option Ptr} {t : Tid} {pret : Bool}
    (hc' : (s'.kt e.1).ctl = .thread p (.swap cur (.joined t pret))) :
    (s.kt e.1).ctl = .thread p (.swap cur (.joined t pret)) ∨ s'.joinQueue p = [] := by
  cases ht with
  | @call k c p₀ r hc =>
    cases c with
    | op o => cases o <;> simp [Call.enter] at hc'
    | _ => simp [Call.enter] at hc'
  | tick | deliver => exact .inl (by simpa using hc')
  | acquire h | insert h | parkJoin h | parkSem h =>
    generalize hc : (s.kt _).ctl = x at h
    cases h <;> simp [State.goto] at hc'
  | release h => cases h <;> simp [State.goto] at hc'
  | quiet h =>
    cases h with
    | @start p₀ o hc => cases o <;> simp [Op.start] at hc'
    | _ hc => simp at hc'
  | signal h => cases h <;> simp [State.goto] at hc'
  | @joinBlock k f p₀ t₀ pret₀ c q x y hc hx hst hy hj =>
    obtain ⟨rfl, -⟩ : p₀ = p ∧ _ := by simpa using hc'
    obtain rfl : c = p₀ := I.table.cur_eq hc (by simp [Pc.curs])
    exact .inr (by simp [State.joinQueue, State.setK, State.setTcb, hj])
  | @dispSet k f q x c hc hx hctx =>
    rw [State.setK_kt] at hc'
    cases hr : c.resume with
    | yielded o =>
      cases o with
      | none => simp [hr, Resume.pc] at hc'
      | some o => cases o <;> simp [hr, Resume.pc, Op.start] at hc'
    | _ => simp [hr, Resume.pc] at hc'
  | _ hc => simp [State.goto] at hc'

/-- A scheduler parks a thread in the join queue of another thread. -/
theorem Inv.joinBody_ne (I : Inv s) (hc : (s.kt k).ctl = .sched (.joinBody p)) :
    (∃ t, s.HandsJoin k t) ∧ s.exec k = some p ∧ (s.kt k).queue ≠ some (.join p) := by
  have hexec : s.exec k = some p := by simp [State.exec, KThread.exec, SchedPc.moving, hc]
  obtain ⟨t, pret, hsus⟩ := I.joined_of_joinBody hc
  have hk : s.HandsJoin k t := .inr ⟨by simp [KThread.hands, hc], p, pret, hexec, hsus⟩
  refine ⟨⟨t, hk⟩, hexec, fun hq => ?_⟩
  obtain ⟨q, hqu, hqt, -⟩ := I.join.handing k t hk
  obtain rfl : p = q := by simpa [hq] using hqu
  obtain ⟨q, hqt', hne⟩ := I.join.target p t (.inr (by simp [hsus, Resume.joins]))
  exact hne (Option.some.inj (hqt'.symm.trans hqt))

/-- The join queue of a thread that a kernel thread is handing over stays empty. -/
theorem Trans.joinQueue_of_handsJoin (ht : Trans cfg s e s') (I : Inv s) (ha : AllocOk e) {t : Tid}
    (hk : s.HandsJoin k t) (hp : s.exec k = some p) (hnil : s.joinQueue p = []) : s'.joinQueue p = [] := by
  rcases ht.joinQueue_cases I ha p with hsame | ⟨cur, hc, hq, -⟩ | ⟨j, -, hj⟩ | hnone
  · rw [hsame, hnil]
  · -- another scheduler cannot park a thread meanwhile, and this one has to do with another queue
    obtain rfl : k = e.1 := (I.lock .tcbs).unique hk.held (by simp [KThread.held, hc])
    obtain ⟨-, hexec, hne⟩ := I.joinBody_ne hc
    obtain rfl : p = cur := Option.some.inj (hp.symm.trans hexec)
    exact absurd hq hne
  · rw [hnil] at hj
    cases hj
  · simp [State.joinQueue, hnone]

theorem AwaitInv.step (W : AwaitInv s) (I : Inv s) (o : Admits s e) (ht : Trans cfg s e s') : AwaitInv s' := by
  have hkeep {k : Fin n} {t : Tid} {p : Ptr} (hk : s.HandsJoin k t) (hp : s.exec k = some p) :
      s'.joinQueue p = [] := ht.joinQueue_of_handsJoin I o.alloc hk hp (W.parking k t p hk hp)
  refine ⟨fun k t p hk hp => ?_, ?_⟩
  · by_cases hke : k = e.1
    · subst hke
      rcases hk with hk | ⟨hk, p', pret, hp', hs⟩
      · -- the thread is at its context switch
        obtain ⟨pc, hc', hpc⟩ : ∃ pc, (s'.kt e.1).ctl = .thread p pc ∧ pc.parksJoin = some t := by
          cases hc' : (s'.kt e.1).ctl with
          | thread p' pc =>
            obtain rfl : p' = p := by simpa [State.exec, KThread.exec, hc'] using hp
            exact ⟨pc, rfl, by simpa [hc', Ctl.pc?] using hk⟩
          | _ => simp [hc', Ctl.pc?] at hk
        obtain ⟨cur, pret, rfl⟩ : ∃ cur pret, pc = .swap cur (.joined t pret) := by
          cases pc with
          | swap cur r => cases r <;> simp_all [Pc.parksJoin]
          | _ => simp [Pc.parksJoin] at hpc
        rcases ht.swap_joined I hc' with hc | hnil
        · exact hkeep (t := t) (.inl (by rw [hc]; rfl)) (State.exec_thread hc)
        · exact hnil
      · obtain rfl : p = p' := Option.some.inj (hp.symm.trans hp')
        rcases ht.hands_cases I hk hp with ⟨hk₀, hp₀, -⟩ | ⟨r, hc, -⟩ | hfin
        · rw [ht.suspended_eq_of_hands I o.alloc hk₀] at hs
          exact hkeep (.inr ⟨hk₀, p, pret, hp₀, hs⟩) hp₀
        · obtain rfl := ht.suspended_of_swap I o.alloc hc hs
          exact hkeep (t := t) (.inl (by rw [hc]; rfl)) (State.exec_thread hc)
        · rw [State.suspended_of_finished hfin] at hs
          cases hs
    · rw [ht.exec_of_ne I o.alloc hke] at hp
      refine hkeep (k := k) (t := t) ?_ hp
      rcases hk with hk | ⟨hk, p', pret, hp', hs⟩
      · exact .inl (by rwa [ht.kt_of_ne hke] at hk)
      · rw [ht.exec_of_ne I o.alloc hke] at hp'
        rw [ht.suspended_eq_of_mem I o.alloc (PlaceInv.mem_exec hp') (by simpa using hke)
          (State.heap_ne_none_of_suspended hs)] at hs
        exact .inr ⟨by rwa [ht.kt_of_ne hke] at hk, p', pret, hp', hs⟩
  · by_cases hc : ∃ cur, (s.kt e.1).ctl = .sched (.joinBody cur)
    · obtain ⟨cur, hc⟩ := hc
      obtain ⟨⟨t, hk⟩, hexec, -⟩ := I.joinBody_ne hc
      refine W.noCycle.begin (x := cur) (fun a b hab => ?_) fun a ha => ?_
      · rcases ht.joinQueue_cases I o.alloc b with hsame | ⟨cur', hc', -, happ⟩ | ⟨j, hc', -⟩ | hnone
        · exact .inl (by rwa [State.Awaits, hsame] at hab)
        · obtain rfl : cur = cur' := by simpa [hc] using hc'
          rw [State.Awaits, happ, List.mem_append, List.mem_singleton] at hab
          exact hab
        · simp [hc] at hc'
        · simp [State.Awaits, State.joinQueue, hnone] at hab
      · rw [State.Awaits, hkeep hk hexec] at ha
        cases ha
    · refine W.noCycle.mono fun a b hab => ?_
      rcases ht.joinQueue_cases I o.alloc b with hsame | ⟨cur, hc', -⟩ | ⟨j, -, hj⟩ | hnone
      · rwa [State.Awaits, hsame] at hab
      · exact absurd ⟨cur, hc'⟩ hc
      · rw [State.Awaits, hj]
        exact List.mem_cons_of_mem _ hab
      · simp [State.Awaits, State.joinQueue, hnone] at hab

theorem awaitInv_of_run (hn : 0 < n) (hr : (machine n cfg).Run Admits h s) : AwaitInv s := by
  induction hr with
  | init =>
    have hnil (p : Ptr) : (machine n cfg).init.joinQueue p = [] := State.init_joinQueue p
    refine ⟨fun k t p _ _ => hnil p, fun p hp => ?_⟩
    obtain ⟨q, -, hq⟩ := Relation.TransGen.tail'_iff.1 hp
    simp [State.Awaits, hnil] at hq
  | step hr o hs ih =>
    obtain rfl | rfl | ht := State.step_cases hs
    · exact ⟨ih.parking, ih.noCycle⟩
    · exact ⟨ih.parking, ih.noCycle⟩
    · exact ih.step (inv_of_admits hn hr.reachable) o ht

/-! ### Nothing goes on -/

/-- If nobody waits at a semaphore and no thread is ready or runs, all threads have finished. -/
theorem AwaitInv.all_finished (W : AwaitInv s) (P : PlaceInv s)
    (hjoins : ∀ p st, s.stateOf p = some st → st ≠ .finished →
      ∃ q st', p ∈ s.joinQueue q ∧ s.stateOf q = some st' ∧ st' ≠ .finished) {p : Ptr} {st : ThreadState}
    (hp : s.stateOf p = some st) : st = .finished := by
  by_contra hst
  let S : Set Ptr := {p | ∃ st, s.stateOf p = some st ∧ st ≠ .finished}
  have hfin : S.Finite := (Set.finite_lt_nat s.fresh).subset fun p ⟨st, hp, _⟩ => by
    by_contra hle
    simp [State.stateOf, P.bound p (Nat.le_of_not_lt hle)] at hp
  obtain ⟨a, ⟨sta, ha, hsta⟩, hend⟩ := W.noCycle.exists_end hfin ⟨p, st, hp, hst⟩
  obtain ⟨q, stq, hq, hstq, hne⟩ := hjoins a sta ha hsta
  exact hend q ⟨stq, hstq, hne⟩ hq

/-- For any number of kernel threads and any interleaving: nobody waits for himself in `uthread_join`, be it through
others. A thread waits to join one other thread at most, and one thread at most waits to join it, so that the
threads that wait form chains. -/
theorem joins_noCycle (hn : 0 < n) (hr : (machine n cfg).Run Obeys h s) :
    NoCycle s.Awaits ∧ (∀ p q q', s.Awaits p q → s.Awaits p q' → q = q') ∧
      ∀ p p' q, s.Awaits p q → s.Awaits p' q → p = p' := by
  have I := inv_of_reachable hn hr.reachable
  refine ⟨(awaitInv_of_run hn (run_admits hn hr)).noCycle, fun p q q' hq hq' => ?_, fun p p' q hp hp' => ?_⟩
  · have hplace : Place.joinq (n := n) q = Place.joinq q' := I.place.excl.unique (r := p) hq hq'
    exact Place.joinq.inj hplace
  · obtain ⟨t, pret, hs, ht⟩ := I.join.parked q p hp
    obtain ⟨t', pret', hs', ht'⟩ := I.join.parked q p' hp'
    obtain ⟨x, hx, htx⟩ := I.table.slot t q ht
    obtain ⟨x', hx', htx'⟩ := I.table.slot t' q ht'
    obtain rfl : x = x' := Option.some.inj (hx.symm.trans hx')
    obtain rfl : t = t' := htx.symm.trans htx'
    exact I.join.unique p p' t (.inr (by simp [hs, Resume.joins])) (.inr (by simp [hs', Resume.joins]))

/-- Thread `1` waits to join thread `2`, and the main thread to join thread `1`. -/
theorem joins_noCycle_chain : ∃ s : State 1, s.Awaits 1 2 ∧ s.Awaits mainTcb 1 ∧ ¬ s.Awaits 2 mainTcb := by
  obtain ⟨h, s, hr, hs⟩ := EventMachine.exists_run_of_exec
    (M := machine 1 ⟨0⟩) (P := Obeys)
    (runs 0 2 ++ [(0, .call (.op (.create false)))] ++ runs 0 12 ++ [(0, .call (.op (.create false)))] ++
      runs 0 12 ++ [(0, .call .yield)] ++ runs 0 24 ++ [(0, .call (.op (.join 2 false)))] ++ runs 0 22 ++
      [(0, .call .yield)] ++ runs 0 21 ++ [(0, .call (.op (.join 1 false)))] ++ runs 0 7)
    (p := fun x => x.2.joinQueue 2 = [1] ∧ x.2.joinQueue 1 = [mainTcb]) (by decide +kernel)
  obtain ⟨h1, h2⟩ : s.joinQueue 2 = [1] ∧ s.joinQueue 1 = [mainTcb] := of_decide_eq_true hs
  have h12 : s.Awaits 1 2 := by simp [State.Awaits, h1]
  have h01 : s.Awaits mainTcb 1 := by simp [State.Awaits, h2]
  refine ⟨s, h12, h01, fun h20 => (joins_noCycle Nat.one_pos hr).1 2 ?_⟩
  exact ((Relation.TransGen.single h20).tail h01).tail h12

/-- The library is at rest when all kernel threads are idle. -/
theorem rests_of_idle (hn : 0 < n) (hr : (machine n cfg).Run Obeys h s) (hh : s.halt = none)
    (hidle : ∀ k, (s.kt k).ctl = .sched .deqWait) (h0 : s.notEmpty = 0) : s.infoFreed = false ∧ s.Rests := by
  have hf : s.infoFreed = false := by
    by_contra hf
    rcases (freedInv_of_run hr).freed (by simpa using hf) ⟨0, hn⟩ with hc | ⟨x, hc⟩ <;> simp [hidle] at hc
  refine ⟨hf, rests_of_quiescent hn hr (fun k => ?_) hh hf⟩
  simp [State.step, hh, State.stepRun, hidle k, State.stepSchedule, h0]

/-- When all kernel threads are idle, a thread that has not finished waits to join another one, or at a semaphore
whose counter is not positive. -/
theorem State.Rests.waits (R : s.Rests) (hn : 0 < n) (hidle : ∀ k, (s.kt k).ctl = .sched .deqWait) {p : Ptr}
    {st : ThreadState} (hp : s.stateOf p = some st) (hst : st ≠ .finished) :
    (∃ q st', p ∈ s.joinQueue q ∧ s.stateOf q = some st' ∧ st' ≠ .finished) ∨
      ∃ i x, s.sems i = some x ∧ p ∈ x.queue ∧ x.counter ≤ 0 := by
  have hnil := R.idle ⟨0, hn⟩ (hidle _)
  cases R.thread p st hp hst with
  | runs hc => simp [hidle] at hc
  | ready hmem => simp [hnil] at hmem
  | joins hmem hq hst' => exact .inl ⟨_, _, hmem, hq, hst'⟩
  | @waits i x hx hmem hle => exact .inr ⟨i, x, hx, hmem, by simpa [hnil] using hle⟩

/-- For any number of kernel threads and any interleaving: when all the kernel threads wait for the ready queue and
it is empty, no call and no step of the library is possible any more, and then all threads have finished, or one of
them waits at a semaphore whose counter is not positive. -/
theorem all_idle_cases (hn : 0 < n) (hr : (machine n cfg).Run Obeys h s) (hh : s.halt = none)
    (hidle : ∀ k, (s.kt k).ctl = .sched .deqWait) (h0 : s.notEmpty = 0) :
    (∀ k c f, s.step cfg (k, .call c) = none ∧ s.step cfg (k, .run f) = none) ∧
      ((∀ p st, s.stateOf p = some st → st = .finished) ∨
        ∃ i x p, s.sems i = some x ∧ p ∈ x.queue ∧ x.counter ≤ 0) := by
  have W := awaitInv_of_run hn (run_admits hn hr)
  have I := inv_of_reachable hn hr.reachable
  refine ⟨fun k c f => ?_, ?_⟩
  · constructor
    · simp [State.step, hh, hidle k]
    · simp [State.step, hh, State.stepRun, hidle k, State.stepSchedule, h0]
  · obtain ⟨-, R⟩ := rests_of_idle hn hr hh hidle h0
    by_cases hsem : ∃ i x p, s.sems i = some x ∧ p ∈ x.queue ∧ x.counter ≤ 0
    · exact .inr hsem
    · refine .inl fun p st hp => W.all_finished I.place (fun p st hp hst => ?_) hp
      rcases R.waits hn hidle hp hst with ⟨q, st', hq, hst', hne⟩ | ⟨i, x, hx, hmem, hle⟩
      · exact ⟨q, st', hq, hst', hne⟩
      · exact absurd ⟨i, x, p, hx, hmem, hle⟩ hsem

/-- The main thread, which is the only one, waits at a semaphore with value `0`. -/
theorem all_idle_cases_waiting : ∃ s : State 1, s.stateOf mainTcb = some .waitingSem ∧
    ∃ i x p, s.sems i = some x ∧ p ∈ x.queue ∧ x.counter ≤ 0 := by
  obtain ⟨h, s, hr, hs⟩ := EventMachine.exists_run_of_exec
    (M := machine 1 ⟨0⟩) (P := Obeys)
    (runs 0 2 ++ [(0, .call (.op (.semInit 0 0)))] ++ runs 0 3 ++ [(0, .call (.op (.semWait 0)))] ++ runs 0 12)
    (p := fun x => x.2.halt = none ∧ (x.2.kt 0).ctl = .sched .deqWait ∧ x.2.notEmpty = 0 ∧
      x.2.stateOf mainTcb = some .waitingSem) (by decide +kernel)
  obtain ⟨hh, hc, h0, hst⟩ : s.halt = none ∧ (s.kt 0).ctl = .sched .deqWait ∧ s.notEmpty = 0 ∧
      s.stateOf mainTcb = some .waitingSem := of_decide_eq_true hs
  have hidle (k : Fin 1) : (s.kt k).ctl = .sched .deqWait := Subsingleton.elim k 0 ▸ hc
  refine ⟨s, hst, (all_idle_cases Nat.one_pos hr hh hidle h0).2.resolve_left fun hall => ?_⟩
  cases hall mainTcb _ hst

end Uthread
