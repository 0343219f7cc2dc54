import Uthread.Safety.Exitall

/-!
# Handing over to the main kernel thread

`uthread_teardown` puts one `exitall` entry for each kernel thread into the ready queue and then switches to
its scheduler, which puts the thread itself into the queue. The rest of the function is to be executed by the
main kernel thread when all the others have exited.

## Main definitions

* `HandedOver`: the other kernel threads have each taken one entry, posted and exited, and no entry is left.
-/

namespace Uthread

variable {n : ℕ} {cfg : Config} {s s' : State n} {e : Event n} {k : Fin n} {p : Ptr}
  {h : List (State n × Event n)} {P : State n → Event n → Prop}

/-- Kernel thread `k` is the main one, and the others have each taken one `exitall` entry, have posted
`exitall_sem` and have exited; no `exitall` entry is left. -/
structure HandedOver (h : List (State n × Event n)) (s : State n) (k : Fin n) : Prop where
  main : k.val = 0
  others : ∀ j, j ≠ k → takes h j = 1 ∧ posts h j = 1 ∧ (s.kt j).ctl = .exited
  queue : Entry.exitall ∉ s.rqueue

/-! ### All the entries are taken -/

/-- A sum of numbers below two that reaches the number of its terms has no other term than one. -/
theorem eq_one_of_card_le_sum {ι : Type*} {S : Finset ι} {f : ι → ℕ} (hle : ∀ i ∈ S, f i ≤ 1)
    (hsum : S.card ≤ ∑ i ∈ S, f i) : ∀ i ∈ S, f i = 1 := by
  have hone : ∑ i ∈ S, f i = ∑ _i ∈ S, 1 := by
    refine le_antisymm (Finset.sum_le_sum hle) ?_
    simpa using hsum
  exact (Finset.sum_eq_sum_iff_of_le hle).1 hone

/-- A sum of numbers below two with a term zero does not reach the number of its terms. -/
theorem sum_lt_card_of_zero {ι : Type*} {S : Finset ι} {f : ι → ℕ} (hle : ∀ i ∈ S, f i ≤ 1) {i : ι}
    (hi : i ∈ S) (h0 : f i = 0) : ∑ i ∈ S, f i < S.card := by
  by_contra hge
  have hone := eq_one_of_card_le_sum hle (Nat.le_of_not_lt hge) i hi
  omega

theorem ExitStage.numTaken_le (x : ExitStage) : x.numTaken ≤ 1 := by cases x <;> simp [ExitStage.numTaken]

theorem ExitStage.numPosted_le (x : ExitStage) : x.numPosted ≤ 1 := by cases x <;> simp [ExitStage.numPosted]

theorem ExitStage.toWait_le {x : ExitStage} (hx : ∀ j, x = .waiting j → j ≤ n - 1) : x.toWait n ≤ n - 1 := by
  cases x with
  | waiting j => exact hx j rfl
  | _ => simp [ExitStage.toWait]

/-- The numbers of the kernel threads other than the main one. -/
theorem ExitInv.sums (X : ExitInv h s) {k₀ : Fin n} (h0 : k₀.val = 0) :
    ∑ j, takes h j = takes h k₀ + ∑ j ∈ Finset.univ.erase k₀, (s.kt j).ctl.exitStage.numTaken ∧
      s.exitallSem + waits h k₀ = ∑ j ∈ Finset.univ.erase k₀, (s.kt j).ctl.exitStage.numPosted := by
  have hne {j : Fin n} (hj : j ∈ Finset.univ.erase k₀) : j.val ≠ 0 := by
    intro hz
    exact Finset.ne_of_mem_erase hj (Fin.ext (hz.trans h0.symm))
  constructor
  · rw [← Finset.add_sum_erase _ _ (Finset.mem_univ k₀)]
    exact congrArg _ (Finset.sum_congr rfl fun j hj => X.takes_other j (hne hj))
  · have hsem := X.sem
    rw [← Finset.add_sum_erase _ (posts h) (Finset.mem_univ k₀), X.posts_main k₀ h0,
      ← Finset.add_sum_erase _ (waits h) (Finset.mem_univ k₀),
      Finset.sum_eq_zero fun j hj => X.waits_other j (hne hj)] at hsem
    rw [Finset.sum_congr rfl fun j hj => X.posts_other j (hne hj)] at hsem
    simpa using hsem

/-- The kernel thread that takes a thread from the queue when all the entries have been taken is the main one,
and the others have exited. -/
theorem ExitInv.handed (X : ExitInv h s) (hn : 0 < n) (hall : ∑ j, takes h j = n)
    (hk : (s.kt k).ctl.exitStage = .none) :
    k.val = 0 ∧ ∀ j, j ≠ k → takes h j = 1 ∧ posts h j = 1 ∧ (s.kt j).ctl.exitStage = .exited := by
  obtain ⟨htakes, hposts⟩ := X.sums (rfl : (⟨0, hn⟩ : Fin n).val = 0)
  have hcard : (Finset.univ.erase (⟨0, hn⟩ : Fin n)).card = n - 1 := by simp
  have hwaits := X.waits_main ⟨0, hn⟩ rfl
  have hle_taken : ∀ j ∈ Finset.univ.erase (⟨0, hn⟩ : Fin n), (s.kt j).ctl.exitStage.numTaken ≤ 1 :=
    fun j _ => ExitStage.numTaken_le _
  have hle_posted : ∀ j ∈ Finset.univ.erase (⟨0, hn⟩ : Fin n), (s.kt j).ctl.exitStage.numPosted ≤ 1 :=
    fun j _ => ExitStage.numPosted_le _
  have hsum_taken := Finset.sum_le_card_nsmul _ _ 1 hle_taken
  have hsum_posted := Finset.sum_le_card_nsmul _ _ 1 hle_posted
  rw [hcard, smul_eq_mul, mul_one] at hsum_taken hsum_posted
  -- otherwise the main kernel thread would have taken two entries, and waited for more posts than there are
  have hzero : k.val = 0 := by
    by_contra hne
    have hmem : k ∈ Finset.univ.erase (⟨0, hn⟩ : Fin n) :=
      Finset.mem_erase.2 ⟨fun h => hne (congrArg Fin.val h), Finset.mem_univ k⟩
    have hlt_taken := sum_lt_card_of_zero hle_taken hmem (by simp [hk, ExitStage.numTaken])
    have hlt_posted := sum_lt_card_of_zero hle_posted hmem (by simp [hk, ExitStage.numPosted])
    have htwo : 2 ≤ takes h ⟨0, hn⟩ := by omega
    have hmul : 2 * (n - 1) ≤ takes h ⟨0, hn⟩ * (n - 1) := Nat.mul_le_mul_right _ htwo
    have htow := ExitStage.toWait_le (X.wait_le ⟨0, hn⟩)
    omega
  obtain rfl : k = ⟨0, hn⟩ := Fin.ext hzero
  refine ⟨rfl, fun j hj => ?_⟩
  have hmem : j ∈ Finset.univ.erase (⟨0, hn⟩ : Fin n) := Finset.mem_erase.2 ⟨hj, Finset.mem_univ j⟩
  have hone : 1 ≤ takes h ⟨0, hn⟩ := by omega
  have hmul : 1 * (n - 1) ≤ takes h ⟨0, hn⟩ * (n - 1) := Nat.mul_le_mul_right _ hone
  have hfull : (Finset.univ.erase (⟨0, hn⟩ : Fin n)).card ≤
      ∑ j ∈ Finset.univ.erase (⟨0, hn⟩ : Fin n), (s.kt j).ctl.exitStage.numPosted := by
    simp only [hk, ExitStage.toWait] at hwaits
    rw [hcard, ← hposts]
    omega
  have hexited : (s.kt j).ctl.exitStage = .exited := by
    have hp := eq_one_of_card_le_sum hle_posted hfull j hmem
    generalize (s.kt j).ctl.exitStage = x at hp
    cases x <;> simp [ExitStage.numPosted] at hp
    rfl
  have hj0 : j.val ≠ 0 := fun hz => hj (Fin.ext hz)
  refine ⟨?_, ?_, hexited⟩
  · rw [X.takes_other j hj0, hexited]
    rfl
  · rw [X.posts_other j hj0, hexited]
    rfl

/-! ### The order of the queue -/

/-- No `exitall` entry comes after the thread that has left `uthread_teardown` for the queue. -/
def OrderInv (s : State n) : Prop :=
  s.suspended mainTcb = some .teardown →
    ∀ l r, s.rqueue = l ++ .tcb mainTcb :: r → Entry.exitall ∉ r

/-- A thread that is executed is not in the ready queue. -/
theorem Inv.notMem_rqueue (I : Inv s) {pc : Pc} (hc : (s.kt k).ctl = .thread p pc) :
    Entry.tcb p ∉ s.rqueue := by
  intro hmem
  have hready : p ∈ s.holds .ready := List.mem_filterMap.2 ⟨.tcb p, hmem, rfl⟩
  simpa using I.place.excl.unique hready (PlaceInv.mem_exec (State.exec_thread hc))

/-- The thread suspended in `uthread_teardown` was so before the step, or has just left. -/
theorem Trans.suspended_cases (ht : Trans cfg s e s') (I : Inv s) (ha : AllocOk e)
    (hs : s'.suspended p = some .teardown) :
    s.suspended p = some .teardown ∨ ((s.kt e.1).ctl = .thread p (.swap (some p) .teardown) ∧
      (s'.kt e.1).ctl = .sched .entry) := by
  have hctx := hs
  rw [State.suspended_eq_context] at hctx
  cases ht.suspends I ha p with
  | same h => exact .inl (by rwa [State.suspended_eq_context, ← h])
  | @saves r hc hc' h =>
    obtain rfl : r = .teardown := by simpa [h] using hctx
    exact .inr ⟨hc, hc'⟩
  | resumes hc hc' h h' => simp [h'] at hctx
  | creates hc hq h => simp [h] at hctx
  | frees hc h => exact absurd (h p) (State.heap_ne_none_of_suspended hs)

/-- The entry that an event inserts is not `exitall` while the main thread is suspended in teardown. -/
theorem PutInv.enqueues_ne (Q : PutInv h s) (hs : s.suspended mainTcb = some .teardown) :
    s.enqueues e ≠ some .exitall := by
  intro he
  obtain ⟨p, j, hc⟩ := State.put_of_enqueues he
  obtain rfl := Q.main p (.inl ⟨e.1, by simp [hc, Ctl.tearing, Pc.tearing]⟩)
  simp [State.suspended_of_thread hc] at hs

theorem OrderInv.step (O : OrderInv s) (Q : PutInv h s) (I : Inv s) (ha : AllocOk e)
    (ht : Trans cfg s e s') (hq : QueueAct s e s') (hf : s'.infoFreed = false) : OrderInv s' := by
  intro hs l r hr
  rcases ht.suspended_cases I ha hs with hs | ⟨hc, -⟩
  · cases hq with
    | frame he hd hq | post he hd hq | wait he hd hq => exact O hs l r (hq ▸ hr)
    | @insert en he hd hq =>
      rw [hq] at hr
      rcases List.eq_nil_or_concat r with rfl | ⟨r', x, rfl⟩
      · simp
      · have hlast : s.rqueue ++ [en] = (l ++ .tcb mainTcb :: r') ++ [x] := by simpa using hr
        obtain ⟨hpre, hx⟩ := List.append_inj' hlast rfl
        obtain rfl : en = x := by simpa using hx
        have hen : en ≠ .exitall := fun h => Q.enqueues_ne (e := e) hs (h ▸ he)
        simpa [Ne.symm hen] using O hs l r' hpre
    | remove he hd hq => exact O hs (_ :: l) r (by rw [hq, hr]; rfl)
    | free hf' => simp [hf'] at hf
  · -- the thread was executed, so it is not yet in the queue
    have hnot := I.notMem_rqueue hc
    cases hq with
    | frame he hd hq | post he hd hq | wait he hd hq => exact absurd (hq ▸ hr ▸ by simp) hnot
    | @insert en he hd hq =>
      obtain ⟨k, i⟩ := e
      cases i with
      | run f => simp [State.enqueues, hc] at he
      | _ => cases he
    | @remove en he hd hq =>
      have hmem : Entry.tcb mainTcb ∈ s'.rqueue := by simp [hr]
      exact absurd (by rw [hq]; exact List.mem_cons_of_mem _ hmem) hnot
    | free hf' => simp [hf'] at hf

/-! ### Resuming `uthread_teardown` -/

/-- The thread that a kernel thread has taken from the ready queue and is about to resume. -/
def Ctl.dispatching : Ctl → Option Ptr
  | .sched (.deqUnlock (.tcb q)) | .sched (.next (.tcb q)) | .sched (.dispLock q) | .sched (.dispBody q)
  | .sched (.dispUnlock q) | .sched (.dispReady q) | .sched (.dispSet q) => some q
  | _ => none

theorem Ctl.moving_of_dispatching {c : Ctl} {q : Ptr} (hc : c.dispatching = some q) :
    ∃ pc, c = .sched pc ∧ pc.moving = some q ∧ pc ≠ .entry := by
  cases c with
  | sched pc =>
    refine ⟨pc, rfl, ?_, ?_⟩
    · cases pc with
      | deqUnlock en | next en => cases en <;> simp_all [Ctl.dispatching, SchedPc.moving, Entry.ptr?]
      | _ => simp_all [Ctl.dispatching, SchedPc.moving]
    · rintro rfl
      simp [Ctl.dispatching] at hc
  | _ => simp [Ctl.dispatching] at hc

theorem State.exec_of_dispatching {q : Ptr} (hc : (s.kt k).ctl.dispatching = some q) : s.exec k = some q := by
  obtain ⟨pc, hctl, hmov, hne⟩ := Ctl.moving_of_dispatching hc
  unfold State.exec KThread.exec
  rw [hctl]
  cases pc <;> simp_all

/-- A kernel thread comes to resume a thread by taking it from the queue. -/
theorem Trans.dispatching_cases (ht : Trans cfg s e s') {q : Ptr}
    (hc' : (s'.kt e.1).ctl.dispatching = some q) : (s.kt e.1).ctl.dispatching = some q ∨
      ((s.kt e.1).ctl = .sched .deqRemove ∧ s.rqueue = .tcb q :: s'.rqueue) := by
  cases ht with
  | @call k c p r hc =>
    cases c with
    | op o => cases o <;> simp [Call.enter, Ctl.dispatching] at hc'
    | _ => simp [Call.enter, Ctl.dispatching] at hc'
  | tick | deliver => exact .inl (by simpa using hc')
  | acquire h =>
    generalize hc : (s.kt _).ctl = x at h
    cases h <;> simp [State.goto, Ctl.dispatching] at hc' ⊢
    exact hc'
  | insert h | parkJoin h | parkSem h =>
    generalize hc : (s.kt _).ctl = x at h
    cases h <;> simp [State.goto, Ctl.dispatching] at hc'
  | release h =>
    cases h with
    | @deq en hc =>
      left
      cases en with
      | tcb r => simpa [State.goto, hc, Ctl.dispatching] using hc'
      | exitall => simp [State.goto, Ctl.dispatching] at hc'
    | dispTcbs hc => exact .inl (by simpa [State.goto, hc, Ctl.dispatching] using hc')
    | _ hc => simp [State.goto, Ctl.dispatching] at hc'
  | quiet h =>
    cases h with
    | nextTcb hc => exact .inl (by simpa [hc, Ctl.dispatching] using hc')
    | dispReady hc => exact .inl (by simpa [hc, Ctl.dispatching] using hc')
    | _ hc => simp [Ctl.dispatching] at hc'
  | signal h => cases h <;> simp [State.goto, Ctl.dispatching] at hc'
  | entry hc hcur h =>
    generalize (s.kt _).task = x at h
    cases h <;> simp [Ctl.dispatching] at hc'
  | @deqRemove k f en rest hc hq =>
    cases en with
    | tcb r =>
      obtain rfl : r = q := by simpa [State.goto, Ctl.dispatching] using hc'
      exact .inr ⟨hc, hq⟩
    | exitall => simp [State.goto, Ctl.dispatching] at hc'
  | dispBody hc hx hst => exact .inl (by simpa [hc, Ctl.dispatching] using hc')
  | _ hc => simp [State.goto, Ctl.dispatching] at hc'

/-- A kernel thread that comes to the point after the context switch resumes a thread suspended there. -/
theorem Trans.resumed_cases (ht : Trans cfg s e s') (I : Inv s)
    (hc' : (s'.kt e.1).ctl = .thread p (.teardown .resumed)) :
    (s.kt e.1).ctl = .thread p (.teardown .resumed) ∨
      ((s.kt e.1).ctl.dispatching = some p ∧ s.suspended p = some .teardown) := by
  rcases ht.tearing_cases (p := p) (by simp [hc', Ctl.tearing, Pc.tearing]) with hk | ⟨r, hi, hc⟩ | ⟨q, hc⟩
  · left
    cases ht with
    | tick | deliver => simpa using hc'
    | acquire h | insert h | parkJoin h | parkSem h =>
      generalize hc : (s.kt _).ctl = x at h
      cases h <;> simp [State.goto] at hc'
    | release h => cases h <;> simp [State.goto] at hc'
    | quiet h =>
      cases h with
      | @start q o hc => cases o <;> simp [Op.start] at hc'
      | _ hc => simp at hc'
    | signal h => cases h <;> simp [State.goto] at hc'
    | @call k c q r hc =>
      cases c with
      | op o => cases o <;> simp [Call.enter] at hc'
      | _ => simp [Call.enter] at hc'
    | dispSet hc => simp [hc, Ctl.tearing] at hk
    | _ hc => simp [State.goto] at hc'
  · cases ht with
    | call hc =>
      obtain rfl : _ = Call.teardown := by simpa using hi
      simp [Call.enter] at hc'
    | _ => cases hi
  · obtain ⟨rfl, c, hctx, hctl⟩ := ht.resumes I hc (p := p) (by simp [hc', Ctl.thread?])
    refine .inr ⟨by simp [hc, Ctl.dispatching], ?_⟩
    have hpc : c.resume.pc = .teardown .resumed := by simpa [hctl] using hc'
    have hres := Resume.teardown_of_tearing (r := c.resume) (by simp [hpc, Pc.tearing])
    simp [State.suspended_eq_context, hctx, hres]

/-- A kernel thread that has exited takes part in no further step. -/
theorem Trans.not_exited (ht : Trans cfg s e s') (hc : (s.kt e.1).ctl = .exited) :
    s'.rqueue = s.rqueue ∧ s.takesExitall e = false ∧ s.postsExitall e = false := by
  cases ht with
  | tick => exact ⟨rfl, rfl, rfl⟩
  | deliver => exact ⟨rfl, rfl, rfl⟩
  | acquire h | insert h | parkJoin h | parkSem h =>
    rw [hc] at h
    cases h
  | release h => cases h <;> simp_all
  | quiet h => cases h <;> simp_all
  | signal h => cases h <;> simp_all
  | _ hc₁ => simp [hc] at hc₁

/-- What has been handed over stays so. -/
theorem HandedOver.step (H : HandedOver h s k) (ht : Trans cfg s e s') (hq : QueueAct s e s')
    (he : s.enqueues e ≠ some .exitall) (hf : s'.infoFreed = false) : HandedOver ((s, e) :: h) s' k := by
  refine ⟨H.main, fun j hj => ?_, ?_⟩
  · obtain ⟨htake, hpost, hexit⟩ := H.others j hj
    by_cases hje : j = e.1
    · subst hje
      obtain ⟨-, ht0, hp0⟩ := ht.not_exited hexit
      refine ⟨?_, ?_, ht.exited hexit⟩
      · rw [takes, countOf_cons, ht0]
        simpa [takes] using htake
      · rw [posts, countOf_cons, hp0]
        simpa [posts] using hpost
    · refine ⟨?_, ?_, ht.exited hexit⟩
      · rw [takes, countOf_of_ne _ hje]
        exact htake
      · rw [posts, countOf_of_ne _ hje]
        exact hpost
  · cases hq with
    | frame _ hd hq | post _ hd hq | wait _ hd hq => exact hq ▸ H.queue
    | @insert en hen hd hq =>
      rw [hq, List.mem_append, List.mem_singleton]
      rintro (hmem | rfl)
      · exact H.queue hmem
      · exact he hen
    | remove hen hd hq => exact fun hmem => H.queue (hq ▸ List.mem_cons_of_mem _ hmem)
    | free hf' => simp [hf'] at hf

/-- When the thread in `uthread_teardown` is about to be resumed, or is resumed, all is handed over. -/
structure DoneInv (h : List (State n × Event n)) (s : State n) : Prop where
  order : OrderInv s
  disp : ∀ k, (s.kt k).ctl.dispatching = some mainTcb → s.suspended mainTcb = some .teardown → HandedOver h s k
  resumed : ∀ k p, (s.kt k).ctl = .thread p (.teardown .resumed) → HandedOver h s k

theorem DoneInv.step (D : DoneInv h s) (hn : 0 < n) (hr : (machine n cfg).Run Admits h s) (o : Admits s e)
    (ht : Trans cfg s e s') (hq : QueueAct s e s') (hf : s'.infoFreed = false) : DoneInv ((s, e) :: h) s' := by
  have hf₀ := ht.infoFreed_mono hf
  have I := inv_of_admits hn hr.reachable
  have Q := putInv_of_run hn hr hf₀
  have X := exitInv_of_run hr
  refine ⟨D.order.step Q I o.alloc ht hq hf, fun k hk hs => ?_, fun k p hk => ?_⟩
  · rcases ht.suspended_cases I o.alloc hs with hs₀ | ⟨hc, hc'⟩
    · have he := Q.enqueues_ne (e := e) hs₀
      have hold (hk₀ : (s.kt k).ctl.dispatching = some mainTcb) : HandedOver ((s, e) :: h) s' k :=
        (D.disp k hk₀ hs₀).step ht hq he hf
      by_cases hke : k = e.1
      · subst hke
        rcases ht.dispatching_cases hk with hk₀ | ⟨hc, hrem⟩
        · exact hold hk₀
        · -- the thread comes after all the entries
          have hnot : Entry.exitall ∉ s.rqueue := by
            rw [hrem]
            simpa using D.order hs₀ [] s'.rqueue hrem
          have hsum := sum_takes_add_count hr hf₀
          rw [Q.susp mainTcb hs₀, List.count_eq_zero_of_not_mem hnot, Nat.add_zero] at hsum
          obtain ⟨h0, hothers⟩ := X.handed hn hsum (k := e.1) (by simp [hc, Ctl.exitStage])
          have H : HandedOver h s e.1 := by
            refine ⟨h0, fun j hj => ?_, hnot⟩
            obtain ⟨htake, hpost, hst⟩ := hothers j hj
            refine ⟨htake, hpost, ?_⟩
            generalize hctl : (s.kt j).ctl = c at hst
            unfold Ctl.exitStage at hst
            split at hst <;> simp_all
          exact H.step ht hq he hf
      · exact hold (ht.kt_of_ne hke ▸ hk)
    · -- the thread has just left, so that no kernel thread has it in its hands
      exfalso
      by_cases hke : k = e.1
      · subst hke
        simp [hc', Ctl.dispatching] at hk
      · rw [ht.kt_of_ne hke] at hk
        have hexec := PlaceInv.mem_exec (State.exec_of_dispatching hk)
        have hne := I.place.excl.unique hexec (PlaceInv.mem_exec (State.exec_thread hc))
        exact hke (by simpa using hne)
  · by_cases hke : k = e.1
    · subst hke
      rcases ht.resumed_cases I hk with hk₀ | ⟨hk₀, hs⟩
      · exact (D.resumed e.1 p hk₀).step ht hq (State.enqueues_ne_exitall hk₀ (by simp)) hf
      · obtain rfl := Q.main p (.inr hs)
        exact (D.disp e.1 hk₀ hs).step ht hq (Q.enqueues_ne hs) hf
    · have hk₀ := ht.kt_of_ne hke ▸ hk
      refine (D.resumed k p hk₀).step ht hq (fun he => ?_) hf
      obtain ⟨q, j, hc⟩ := State.put_of_enqueues he
      obtain rfl := Q.main q (.inl ⟨e.1, by simp [hc, Ctl.tearing, Pc.tearing]⟩)
      obtain rfl := Q.main p (.inl ⟨k, by simp [hk₀, Ctl.tearing, Pc.tearing]⟩)
      have hkth : (s.kt k).ctl.thread? = some mainTcb := by simp [hk₀, Ctl.thread?]
      exact hke (I.place.thread_unique hkth (by simp [hc, Ctl.thread?]))

theorem doneInv_of_run (hn : 0 < n) (hr : (machine n cfg).Run Admits h s) (hf : s.infoFreed = false) :
    DoneInv h s := by
  revert hf
  refine hr.history_invariant (I := fun h s => s.infoFreed = false → DoneInv h s) (fun _ => ?_) ?_
  · refine ⟨fun hs => ?_, fun k hk => ?_, fun k p hk => ?_⟩
    · exact absurd (Or.inr hs : (State.init n cfg).TearsDown mainTcb) (State.init_not_tearsDown hn mainTcb)
    · obtain ⟨-, h⟩ | ⟨-, h⟩ := State.init_kt_cases n cfg k <;> simp [machine, h, Ctl.dispatching] at hk
    · obtain ⟨-, h⟩ | ⟨-, h⟩ := State.init_kt_cases n cfg k <;> simp [machine, h] at hk
  · intro h s e s' hrun D o hs hf
    have hstop {y : Halt} (hy : s' = { s with halt := some y }) : DoneInv ((s, e) :: h) s' := by
      obtain ⟨ht0, hp0, -⟩ := State.not_exitall_of_halt hs (by simp [hy])
      subst hy
      have hkeep {k : Fin n} (H : HandedOver h s k) : HandedOver ((s, e) :: h) { s with halt := some y } k := by
        refine ⟨H.main, fun j hj => ?_, H.queue⟩
        simpa [takes, posts, countOf_cons, ht0, hp0] using H.others j hj
      obtain ⟨ho, hd, hres⟩ := D hf
      exact ⟨ho, fun k hk hs => hkeep (hd k hk hs), fun k p hk => hkeep (hres k p hk)⟩
    obtain hs' | hs' | ht := State.step_cases hs
    · exact hstop hs'
    · exact hstop hs'
    · refine (D (ht.infoFreed_mono hf)).step hn hrun o ht (ht.queueAct fun f en c he hi => ?_) hf
      obtain ⟨k, j⟩ := e
      obtain rfl : j = .run f := he
      have hnone : f = none := o.alloc
      simp [hnone]

end Uthread
