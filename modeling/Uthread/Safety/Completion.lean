import Uthread.Safety.Resume
import Uthread.Safety.Chain
import Uthread.Safety.Mutex
import Uthread.Safety.Signals
import Uthread.Safety.HandOver

/-!
# The hand-over comes to an end

From the call of `uthread_teardown` until the thread is resumed in it some kernel thread can always take a
step, and only finitely many steps are taken.

## Main definitions

* `State.HandingOver`: the main thread is in `uthread_teardown` and has not been resumed there.
* `Ctl.rank`, `handRank`: a number that every step of the library decreases during the hand-over.

## Main results

* `teardown_hand_over`.
-/

namespace Uthread

variable {n : ℕ} {cfg : Config} {s s' : State n} {e : Event n} {k : Fin n} {p q : Ptr}
  {h : List (State n × Event n)} {P : State n → Event n → Prop}

/-- The points of `uthread_teardown` up to the context switch. -/
def Pc.handing : Pc → Bool
  | .teardown (.loop _) | .teardown (.enq _ _) | .teardown .task | .teardown .lock | .teardown .read
  | .swap _ .teardown => true
  | _ => false

/-- The thread that a kernel thread executes in `uthread_teardown`, up to the context switch. -/
def Ctl.handing : Ctl → Option Ptr
  | .thread p pc => if pc.handing then some p else none
  | _ => none

/-- The main thread is in `uthread_teardown` and has not been resumed there. -/
def State.HandingOver (s : State n) : Prop :=
  (∃ k, (s.kt k).ctl.handing = some mainTcb) ∨ s.suspended mainTcb = some .teardown

theorem Ctl.handing_iff {c : Ctl} : c.handing = some p ↔ ∃ pc, c = .thread p pc ∧ pc.handing = true := by
  cases c <;> simp [Ctl.handing, and_comm]

theorem Pc.tearing_of_handing {pc : Pc} (hp : pc.handing = true) : pc.tearing = true := by
  cases pc with
  | teardown x => rfl
  | swap cur r => cases r <;> simp_all [Pc.handing, Pc.tearing]
  | _ => simp [Pc.handing] at hp

theorem State.HandingOver.tearsDown (H : s.HandingOver) : s.TearsDown mainTcb := by
  rcases H with ⟨k, hk⟩ | hs
  · obtain ⟨pc, hc, hp⟩ := Ctl.handing_iff.1 hk
    exact .inl ⟨k, by simp [hc, Ctl.tearing, Pc.tearing_of_handing hp]⟩
  · exact .inr hs

/-- During the hand-over no kernel thread executes anything else than the main thread before the context
switch, or a thread that has finished. -/
theorem State.HandingOver.thread_cases (H : s.HandingOver) (I : Inv s) (A : AloneInv s) {pc : Pc}
    (hc : (s.kt k).ctl = .thread p pc) :
    (p = mainTcb ∧ pc.handing = true) ∨ ∃ v, pc = .exit v .switch := by
  by_cases hp : p = mainTcb
  · subst hp
    rcases H with ⟨k', hk'⟩ | hs
    · obtain ⟨pc', hc', hpc'⟩ := Ctl.handing_iff.1 hk'
      obtain rfl : k = k' := by
        have hth : (s.kt k).ctl.thread? = some mainTcb := by simp [hc, Ctl.thread?]
        exact I.place.thread_unique hth (by simp [hc', Ctl.thread?])
      obtain rfl : pc' = pc := by simpa [hc] using hc'.symm
      exact .inl ⟨rfl, hpc'⟩
    · simp [State.suspended_of_thread hc] at hs
  · right
    have hst := I.place.alive (.exec k) p (PlaceInv.mem_exec (State.exec_thread hc))
    have hfin := A mainTcb H.tearsDown p _ hp hst
    simp only [State.placeState, KThread.execState, hc] at hfin
    cases pc with
    | exit v x =>
      cases x with
      | switch => exact ⟨v, rfl⟩
      | _ => simp [Pc.state] at hfin
    | swap cur r => cases r <;> simp [Pc.state] at hfin
    | _ => simp [Pc.state] at hfin

theorem State.HandingOver.infoFreed (H : s.HandingOver) (I : Inv s) : s.infoFreed = false := by
  rcases H with ⟨k, hk⟩ | hs
  · obtain ⟨pc, hc, -⟩ := Ctl.handing_iff.1 hk
    exact I.infoFreed_of_thread hc
  · by_contra hf
    exact State.heap_ne_none_of_suspended hs (I.teardown.freed (by simpa using hf) mainTcb)

/-- The thread that a scheduler has, and that has not finished, is the main one, suspended in teardown. -/
theorem State.HandingOver.suspended_of_exec (H : s.HandingOver) (I : Inv s) (A : AloneInv s)
    (hexec : s.exec k = some p) (hth : (s.kt k).ctl.thread? = none)
    (hst : (s.kt k).execState ≠ .finished) : s.suspended p = some .teardown := by
  have hstate := I.place.alive (.exec k) p (PlaceInv.mem_exec hexec)
  obtain rfl : p = mainTcb := by
    by_contra hp
    exact hst (A mainTcb H.tearsDown p _ hp hstate)
  rcases H with ⟨k', hk'⟩ | hs
  · obtain ⟨pc, hc, -⟩ := Ctl.handing_iff.1 hk'
    exact absurd (by simp [hc, Ctl.thread?]) (I.place.not_executed hexec hth k')
  · exact hs

/-- No thread is parked at a semaphore during the hand-over. -/
theorem State.HandingOver.ne_semBody (H : s.HandingOver) (I : Inv s) (A : AloneInv s) :
    (s.kt k).ctl ≠ .sched (.semBody p) := by
  intro hc
  have hexec : s.exec k = some p := by simp [State.exec, KThread.exec, SchedPc.moving, hc]
  have hs := H.suspended_of_exec I A hexec (by simp [hc, Ctl.thread?]) (by simp [KThread.execState, hc])
  have htask := I.ctx.handed k p _ (by simp [KThread.hands, hc]) hexec hs
  have hok := I.task k
  simp only [KThread.TaskOk, hc] at hok
  simp [Resume.task, hok.1] at htask

/-! ### No step stops the run -/

theorem State.halt_of_acquire {L : Lock} {c : Ctl} (hs : s.acquire k L c = some s') : s'.halt = s.halt := by
  unfold State.acquire at hs
  split_ifs at hs
  obtain rfl := Option.some.inj hs
  rfl

theorem State.halt_of_readyEnqueue {en : Entry} {next : EnqPc → Ctl} {done : Ctl} {x : EnqPc}
    (hs : s.readyEnqueue k none en next done x = some s') : s'.halt = s.halt := by
  cases x with
  | lock => exact State.halt_of_acquire hs
  | _ =>
    obtain rfl := Option.some.inj hs
    rfl

/-- The scheduler stops the run at no point, except that the semaphore at which it parks a thread may have
been destroyed. -/
theorem Inv.schedule_goes (I : Inv s) (hr : (machine n cfg).Run P h s) (hf : s.infoFreed = false) {pc : SchedPc}
    (hc : (s.kt k).ctl = .sched pc) (hpc : ∀ cur, pc ≠ .semBody cur)
    (hs : s.step cfg (k, .run none) = some s') : s'.halt = none := by
  have hh := State.halt_of_step hs
  have hgo : s.stepSchedule cfg k none pc = some s' := by
    simpa [State.step, hh, State.stepRun, hc] using hs
  have hmove {q : Ptr} (hmov : pc.moving = some q) (hne : pc ≠ .entry) : ∃ x, s.heap q = some x ∧
      x.state = (s.kt k).execState := by
    have hexec : s.exec k = some q := by
      unfold State.exec KThread.exec
      rw [hc]
      cases pc <;> simp_all
    obtain ⟨x, hx⟩ := Option.ne_none_iff_exists'.1 (I.place.heap_ne_none hexec)
    exact ⟨x, hx, I.place.state_exec hexec hx⟩
  cases pc with
  | entry =>
    have hcur : (s.kt k).task = .none ∨ ∃ cur, s.currentTcb k = some cur := by
      by_cases ht : (s.kt k).task = .none
      · exact .inl ht
      · obtain ⟨p, hp⟩ := I.table.handing k hc ht
        exact .inr ⟨p, by simpa [State.currentTcb, State.exec, KThread.exec, hc, ht] using hp⟩
    simp only [State.stepSchedule, State.scheduleEntry] at hgo
    rcases hcur with ht | ⟨cur, hcur⟩
    · simp only [ht, Option.some.injEq] at hgo
      exact hgo ▸ hh
    · rw [hcur] at hgo
      cases ht : (s.kt k).task <;> simp only [ht, Option.some.injEq] at hgo <;> exact hgo ▸ hh
  | exitBody cur =>
    obtain ⟨s₁, hs₁, hh₁, -⟩ : ∃ s₁, s.step cfg (k, .run none) = some s₁ ∧ s₁.halt = none ∧ _ :=
      I.join_wakes hh hc
    exact Option.some.inj (hs₁.symm.trans hs) ▸ hh₁
  | joinBody cur =>
    obtain ⟨_, _, _, s₁, -, -, hs₁, hh₁, -⟩ : ∃ t pret q s₁, s.suspended cur = some (.joined t pret) ∧
        s.tcbs t = some q ∧ s.step cfg (k, .run none) = some s₁ ∧ s₁.halt = none ∧ _ := I.join_parks hh hc
    exact Option.some.inj (hs₁.symm.trans hs) ▸ hh₁
  | semBody cur => exact absurd rfl (hpc cur)
  | semUnlock =>
    have hok := I.task k
    simp only [KThread.TaskOk, hc, Option.isSome_iff_exists] at hok
    obtain ⟨-, i, hi⟩ := hok
    simp only [State.stepSchedule, hi, State.release, Option.some.injEq] at hgo
    exact hgo ▸ hh
  | teardownBody cur =>
    obtain ⟨x, hx, -⟩ := hmove (q := cur) rfl (by simp)
    simp only [State.stepSchedule, State.withTcb, hx, Option.some.injEq] at hgo
    exact hgo ▸ hh
  | enq q x =>
    simp only [State.stepSchedule] at hgo
    exact (State.halt_of_readyEnqueue hgo).trans hh
  | deqLock | dispLock q => exact (State.halt_of_acquire hgo).trans hh
  | deqWait =>
    simp only [State.stepSchedule] at hgo
    split_ifs at hgo
    exact Option.some.inj hgo ▸ hh
  | deqRemove =>
    obtain ⟨en, rest, hq⟩ := List.exists_cons_of_ne_nil ((ready_queue_agrees hr hf).2.1 k hc)
    simp only [State.stepSchedule, hq, Option.some.injEq] at hgo
    exact hgo ▸ hh
  | next en =>
    cases en with
    | tcb q => exact Option.some.inj hgo ▸ hh
    | exitall =>
      simp only [State.stepSchedule] at hgo
      split_ifs at hgo <;> exact Option.some.inj hgo ▸ hh
  | exitWait j =>
    cases j with
    | zero => exact Option.some.inj hgo ▸ hh
    | succ j =>
      simp only [State.stepSchedule] at hgo
      split_ifs at hgo
      exact Option.some.inj hgo ▸ hh
  | dispBody q =>
    obtain ⟨x, hx, hst⟩ := hmove (q := q) rfl (by simp)
    have hready : x.state = .ready := by simpa [KThread.execState, hc] using hst
    simp only [State.stepSchedule, State.withTcb, hx, hready, if_true, Option.some.injEq] at hgo
    exact hgo ▸ hh
  | dispSet q =>
    obtain ⟨x, c, hx, hctx, -, -⟩ := I.context_of_dispSet hc
    simp only [State.stepSchedule, State.withTcb, hx, hctx, Option.some.injEq] at hgo
    exact hgo ▸ hh
  | _ => exact Option.some.inj hgo ▸ hh

/-- Up to the context switch `uthread_teardown` stops the run at no point. -/
theorem Inv.teardown_goes (I : Inv s) {pc : Pc} (hc : (s.kt k).ctl = .thread p pc) (hp : pc.handing = true)
    (hh : s.halt = none) (hs : s.stepThread cfg k none p pc = some s') : s'.halt = none := by
  cases pc with
  | teardown x =>
    cases x with
    | loop j =>
      simp only [State.stepThread, State.stepTeardown] at hs
      split_ifs at hs <;> exact Option.some.inj hs ▸ hh
    | enq j x =>
      simp only [State.stepThread, State.stepTeardown] at hs
      exact (State.halt_of_readyEnqueue hs).trans hh
    | lock => exact (State.halt_of_acquire hs).trans hh
    | task | read => exact Option.some.inj hs ▸ hh
    | _ => simp [Pc.handing] at hp
  | swap cur r =>
    have hcur := I.table.locals k
    simp only [hc, Ctl.LocalsOk, Pc.curs, List.mem_cons, forall_eq_or_imp] at hcur
    obtain ⟨x, hx⟩ := Option.ne_none_iff_exists'.1 (I.place.heap_ne_none (State.exec_thread hc))
    simp only [State.stepThread, State.stepSwap, State.withTcb, hcur.1, hx, Option.some.injEq] at hs
    exact hs ▸ hh
  | _ => simp [Pc.handing] at hp

/-- A step of the library during the hand-over does not stop the run. -/
theorem State.HandingOver.step_goes (H : s.HandingOver) (I : Inv s) (A : AloneInv s)
    (hr : (machine n cfg).Run P h s) (ha : AllocOk e) (hs : s.step cfg e = some s') : s'.halt = none := by
  have hh := State.halt_of_step hs
  have hf := H.infoFreed I
  have hi := inited_of_run hr hf
  obtain ⟨k, i⟩ := e
  cases i with
  | call c =>
    simp only [State.step, hh, if_true] at hs
    split at hs
    · next hc =>
      rcases H.thread_cases I A hc with ⟨-, hp⟩ | ⟨v, hp⟩
      · simp [Pc.handing] at hp
      · cases hp
    · cases hs
  | tick =>
    simp only [State.step, hh, if_true] at hs
    split_ifs at hs
    exact Option.some.inj hs ▸ hh
  | deliver =>
    simp only [State.step, hh, if_true, State.stepDeliver, hf] at hs
    split_ifs at hs <;> first | exact Option.some.inj hs ▸ hh | simp at *
  | run f =>
    obtain rfl : f = none := ha
    cases hc : (s.kt k).ctl with
    | sched pc => exact I.schedule_goes hr hf hc (fun cur hpc => H.ne_semBody I A (hpc ▸ hc)) hs
    | thread p pc =>
      have hgo : s.stepThread cfg k none p pc = some s' := by
        simpa [State.step, hh, State.stepRun, hc] using hs
      rcases H.thread_cases I A hc with ⟨rfl, hp⟩ | ⟨v, rfl⟩
      · exact I.teardown_goes hc hp hh hgo
      · exact Option.some.inj hgo ▸ hh
    | closing x => simp [(initedInv_of_run hr).closing k x hc] at hf
    | kmain =>
      simp only [State.step, hh, if_true, State.stepRun, hc, State.stepKthreadMain] at hs
      split_ifs at hs
      exact Option.some.inj hs ▸ rfl
    | kmainStart =>
      simp only [State.step, hh, if_true, State.stepRun, hc, State.stepKthreadStart, hi, Option.some.injEq] at hs
      exact hs ▸ hh
    | exited => simp [State.step, hh, State.stepRun, hc] at hs

/-! ### The end of the hand-over -/

/-- A step of a thread before the context switch of `uthread_teardown`. -/
theorem Trans.handing_cases (ht : Trans cfg s e s') (hk : (s.kt e.1).ctl.handing = some p) :
    (s'.kt e.1).ctl.handing = some p ∨
      ∃ cur, (s.kt e.1).ctl = .thread p (.swap cur .teardown) ∧ (s'.kt e.1).ctl = .sched .entry := by
  cases ht with
  | tick | deliver => exact .inl (by simpa using hk)
  | acquire h | insert h =>
    generalize hc : (s.kt _).ctl = x at h
    cases h <;> simp [hc, Ctl.handing, Pc.handing] at hk
    all_goals exact .inl (by simpa [State.goto, Ctl.handing, Pc.handing] using hk)
  | parkJoin h | parkSem h =>
    generalize hc : (s.kt _).ctl = x at h
    cases h <;> simp [hc, Ctl.handing] at hk
  | release h =>
    cases h with
    | teardownEnq hc => exact .inl (by simpa [State.goto, hc, Ctl.handing, Pc.handing] using hk)
    | _ hc => simp [hc, Ctl.handing, Pc.handing] at hk
  | quiet h =>
    cases h with
    | teardownEnq hc | teardownLoop hc | teardownTask hc =>
      exact .inl (by simpa [hc, Ctl.handing, Pc.handing] using hk)
    | _ hc => simp [hc, Ctl.handing, Pc.handing] at hk
  | signal h =>
    cases h with
    | teardownPost hc => exact .inl (by simpa [State.goto, hc, Ctl.handing, Pc.handing] using hk)
    | _ hc => simp [hc, Ctl.handing, Pc.handing] at hk
  | teardownRead hc => exact .inl (by simpa [State.goto, hc, Ctl.handing, Pc.handing] using hk)
  | @swap k f p' c x r hc =>
    obtain ⟨pc, hc₁, hp⟩ := Ctl.handing_iff.1 hk
    obtain ⟨rfl, rfl⟩ : p' = p ∧ Pc.swap (some c) r = pc := by simpa [hc] using hc₁
    cases r with
    | teardown => exact .inr ⟨_, hc, by simp⟩
    | _ => simp [Pc.handing] at hp
  | _ hc => simp [hc, Ctl.handing, Pc.handing] at hk

/-- The hand-over ends when the main thread is resumed in `uthread_teardown`. -/
theorem State.HandingOver.step (H : s.HandingOver) (I : Inv s) (A : AloneInv s) (ha : AllocOk e)
    (ht : Trans cfg s e s') :
    s'.HandingOver ∨ ∃ k, (s'.kt k).ctl = .thread mainTcb (.teardown .resumed) := by
  have hfree {p' : Ptr} (hc : (s.kt e.1).ctl = .thread p' (.teardown .free)) : False := by
    rcases H.thread_cases I A hc with ⟨-, hp⟩ | ⟨v, hp⟩
    · simp [Pc.handing] at hp
    · cases hp
  rcases H with ⟨k, hk⟩ | hs
  · left
    by_cases hke : k = e.1
    · subst hke
      rcases ht.handing_cases hk with hk' | ⟨cur, hc, hc'⟩
      · exact .inl ⟨e.1, hk'⟩
      · exact .inr (ht.suspended_of_leave I hc hc')
    · exact .inl ⟨k, ht.kt_of_ne hke ▸ hk⟩
  · have hctx := hs
    rw [State.suspended_eq_context] at hctx
    cases ht.suspends I ha mainTcb with
    | same h => exact .inl (.inr (by rwa [State.suspended_eq_context, h]))
    | saves hc => simp [State.suspended_of_thread hc] at hs
    | @resumes c hc hc' h =>
      have hres : c.resume = .teardown := by simpa [h] using hctx
      exact .inr ⟨e.1, by rw [hc', hres]; rfl⟩
    | creates hc hq =>
      exact absurd (I.place.bound mainTcb (Nat.le_of_eq hq.symm)) (State.heap_ne_none_of_suspended hs)
    | frees hc => exact (hfree hc).elim

/-- A run that obeys the preconditions does not stop during the hand-over. -/
theorem State.HandingOver.halt (hn : 0 < n) (hr : (machine n cfg).Run Obeys h s) :
    s.HandingOver → s.halt = none := by
  induction hr with
  | init => exact fun _ => rfl
  | @step h s s' e hr o hs ih =>
    intro H
    obtain ⟨I, A⟩ := inv_alone_of_reachable hn hr.reachable
    have hh := State.halt_of_step hs
    by_cases H₀ : s.HandingOver
    · exact H₀.step_goes I A hr o.alloc hs
    · obtain rfl | rfl | ht := State.step_cases hs
      · exact absurd H H₀
      · exact absurd H H₀
      · exact ht.halt_eq.trans hh

/-! ### Some kernel thread can go on -/

/-- When every kernel thread is stuck no mutex is locked. -/
theorem Inv.owner_eq_none_of_blocked (I : Inv s) (hb : ∀ k, s.Blocked k) (L : Lock) : s.owner L = none := by
  -- the kernel thread that holds the mutex waits for one of a higher rank
  generalize hm : 2 - L.rank = m
  induction m using Nat.strongRecOn generalizing L with
  | ind m ih =>
    by_contra ho
    obtain ⟨j, hj⟩ := Option.ne_none_iff_exists'.1 ho
    have hheld := (I.lock L j).1 hj
    cases hb j with
    | @mutex L' c hA ho' =>
      have hlt := hA.rank_lt hheld
      have hle : L'.rank ≤ 2 := by cases L' <;> simp [Lock.rank]
      exact ho' (ih (2 - L'.rank) (by omega) L' rfl)
    | _ hc => simp [KThread.held, Pc.held, hc] at hheld

/-- The kernel threads that are all stuck during the hand-over wait for the ready queue, for `exitall_sem` or
for `inited_sem`, or have exited. -/
theorem State.HandingOver.waiting (H : s.HandingOver) (I : Inv s) (A : AloneInv s)
    (hr : (machine n cfg).Run P h s) (hb : ∀ k, s.Blocked k) (k : Fin n) :
    ((s.kt k).ctl = .kmain ∧ s.initedSem = 0) ∨ ((s.kt k).ctl = .sched .deqWait ∧ s.notEmpty = 0) ∨
      (∃ j, (s.kt k).ctl = .sched (.exitWait (j + 1)) ∧ s.exitallSem = 0) ∨ (s.kt k).ctl = .exited := by
  cases hb k with
  | mutex hA ho => exact absurd (I.owner_eq_none_of_blocked hb _) ho
  | user hc | join hc =>
    rcases H.thread_cases I A hc with ⟨-, hp⟩ | ⟨v, hp⟩
    · simp [Pc.handing] at hp
    · cases hp
  | kmain hc h0 => exact .inl ⟨hc, h0⟩
  | notEmpty hc h0 => exact .inr (.inl ⟨hc, h0⟩)
  | @exitall j hc h0 => exact .inr (.inr (.inl ⟨j, hc, h0⟩))
  | exited hc => exact .inr (.inr (.inr hc))
  | done hc =>
    have hf := H.infoFreed I
    simp [(initedInv_of_run hr).closing k _ hc] at hf

/-- A thread suspended in teardown, that no kernel thread has, is in the ready queue. -/
theorem Inv.mem_rqueue (I : Inv s) (hs : s.suspended p = some .teardown) (hexec : ∀ k, s.exec k ≠ some p)
    (hhand : ∀ k, (s.kt k).hand ≠ some p) : Entry.tcb p ∈ s.rqueue := by
  obtain ⟨x, hx⟩ := Option.ne_none_iff_exists'.1 (State.heap_ne_none_of_suspended hs)
  have hst : x.state ≠ .finished := by
    intro hfin
    have hnone : s.suspended p = none := State.suspended_of_finished (by simp [State.stateOf, hx, hfin])
    simp [hnone] at hs
  obtain ⟨c, hc⟩ := I.place.cover p x.state (by simp [State.stateOf, hx]) hst
  cases c with
  | ready =>
    obtain ⟨en, hen, hptr⟩ := List.mem_filterMap.1 hc
    cases en with
    | tcb q =>
      obtain rfl : q = p := by simpa [Entry.ptr?] using hptr
      exact hen
    | exitall => simp [Entry.ptr?] at hptr
  | exec k => exact absurd (by simpa [State.holds] using hc) (hexec k)
  | hand k => exact absurd (by simpa [State.holds] using hc) (hhand k)
  | joinq q =>
    obtain ⟨t, pret, hj, -⟩ := I.join.parked q p hc
    simp [hs] at hj
  | semq i =>
    have hw := I.ctx.parked i p hc
    simp [hs] at hw

/-- A run that obeys the preconditions calls teardown when the other threads have finished, and so frees no
others. -/
theorem run_admits (hn : 0 < n) (hr : (machine n cfg).Run Obeys h s) : (machine n cfg).Run Admits h s := by
  induction hr with
  | init => exact .init
  | step hr o hs ih => exact ih.step (o.admits hn hr.reachable) hs

/-- If the others have all exited, and so have posted, the main kernel thread does not wait for a post. -/
theorem ExitInv.not_all_waiting (X : ExitInv h s) (hn : 0 < n) (hle : ∑ k, takes h k ≤ n)
    (hexit : ∀ k, (∃ j, (s.kt k).ctl.exitStage = .waiting (j + 1) ∧ s.exitallSem = 0) ∨
      (s.kt k).ctl.exitStage = .exited) : False := by
  obtain ⟨htakes, hposts⟩ := X.sums (rfl : (⟨0, hn⟩ : Fin n).val = 0)
  have hother (j : Fin n) (hj : j ∈ Finset.univ.erase ⟨0, hn⟩) : (s.kt j).ctl.exitStage = .exited := by
    have hj0 : j.val ≠ 0 := fun hz => Finset.ne_of_mem_erase hj (Fin.ext hz)
    rcases hexit j with ⟨i, hst, -⟩ | hst
    · exact absurd hst (X.not_waiting j hj0 (i + 1))
    · exact hst
  have htaken : ∑ j ∈ Finset.univ.erase (⟨0, hn⟩ : Fin n), (s.kt j).ctl.exitStage.numTaken = n - 1 := by
    rw [Finset.sum_congr rfl fun j hj => congrArg ExitStage.numTaken (hother j hj)]
    simp [ExitStage.numTaken]
  have hposted : ∑ j ∈ Finset.univ.erase (⟨0, hn⟩ : Fin n), (s.kt j).ctl.exitStage.numPosted = n - 1 := by
    rw [Finset.sum_congr rfl fun j hj => congrArg ExitStage.numPosted (hother j hj)]
    simp [ExitStage.numPosted]
  rcases hexit ⟨0, hn⟩ with ⟨j, hst, h0⟩ | hst
  · have hwaits := X.waits_main ⟨0, hn⟩ rfl
    simp only [hst, ExitStage.toWait] at hwaits
    have hone : takes h ⟨0, hn⟩ ≤ 1 := by omega
    have hmul : takes h ⟨0, hn⟩ * (n - 1) ≤ 1 * (n - 1) := Nat.mul_le_mul_right _ hone
    omega
  · exact (X.not_posting ⟨0, hn⟩ rfl).2 hst

/-- During the hand-over some kernel thread can take a step of the library. -/
theorem State.HandingOver.not_stuck (H : s.HandingOver) (hn : 0 < n) (hr : (machine n cfg).Run Obeys h s) :
    ∃ k s', s.step cfg (k, .run none) = some s' := by
  by_contra hstuck
  obtain ⟨I, A⟩ := inv_alone_of_reachable hn hr.reachable
  have hf := H.infoFreed I
  have hb (k : Fin n) : s.Blocked k := by
    have hnone : s.step cfg (k, .run none) = none :=
      Option.eq_none_iff_forall_ne_some.2 fun s' hs => hstuck ⟨k, s', hs⟩
    exact State.blocked_of_step_eq_none (State.HandingOver.halt hn hr H) hnone
  have hw := H.waiting I A hr hb
  have hth (k : Fin n) : (s.kt k).ctl.thread? = none ∧ s.exec k = none ∧ (s.kt k).hand = none ∧
      (s.kt k).ctl.inserted = 0 ∧ (s.kt k).ctl.claimed = 0 ∧ (s.kt k).ctl.owesInit n = 0 := by
    rcases hw k with ⟨hc, -⟩ | ⟨hc, -⟩ | ⟨j, hc, -⟩ | hc <;>
      simp [State.exec, KThread.exec, KThread.hand, Ctl.pc?, SchedPc.moving, hc, Ctl.thread?, Ctl.inserted,
        Ctl.claimed, Ctl.owesInit]
  -- so the main thread is in the ready queue, and the queue has been posted
  have hs : s.suspended mainTcb = some .teardown := by
    rcases H with ⟨k, hk⟩ | hs
    · obtain ⟨pc, hc, -⟩ := Ctl.handing_iff.1 hk
      have hnone := (hth k).1
      simp [hc, Ctl.thread?] at hnone
    · exact hs
  have hmem : Entry.tcb mainTcb ∈ s.rqueue :=
    I.mem_rqueue hs (fun k => by simp [(hth k).2.1]) fun k => by simp [(hth k).2.2.1]
  have hsize := (queueInv_of_run hr).size hf
  have hpos : 0 < s.notEmpty := by
    have hins : s.inserted = 0 := Finset.sum_eq_zero fun k _ => (hth k).2.2.2.1
    have hclaim : s.claimed = 0 := Finset.sum_eq_zero fun k _ => (hth k).2.2.2.2.1
    have hlen := List.length_pos_of_mem hmem
    omega
  -- and all the kernel threads have been let go
  have hkmain (k : Fin n) : (s.kt k).ctl ≠ .kmain := by
    intro hc
    have hrel := releaseInv_of_run hr
    have h0 : s.initedSem = 0 := by
      rcases hw k with ⟨-, h0⟩ | ⟨hc₁, -⟩ | ⟨j, hc₁, -⟩ | hc₁
      · exact h0
      all_goals simp [hc] at hc₁
    have howes : ∑ k, (s.kt k).ctl.owesInit n = 0 := Finset.sum_eq_zero fun k _ => (hth k).2.2.2.2.2
    rw [ReleaseInv, h0, howes, Nat.add_zero, Finset.sum_eq_zero_iff] at hrel
    simpa [hc, Ctl.awaitsInit] using hrel k (Finset.mem_univ k)
  have hexit (k : Fin n) : (∃ j, (s.kt k).ctl.exitStage = .waiting (j + 1) ∧ s.exitallSem = 0) ∨
      (s.kt k).ctl.exitStage = .exited := by
    rcases hw k with ⟨hc, -⟩ | ⟨-, h0⟩ | ⟨j, hc, h0⟩ | hc
    · exact absurd hc (hkmain k)
    · omega
    · exact .inl ⟨j, by rw [hc]; rfl, h0⟩
    · exact .inr (by rw [hc]; rfl)
  have Q := putInv_of_run hn (run_admits hn hr) hf
  have hsum := sum_takes_add_count hr hf
  rw [Q.susp mainTcb hs] at hsum
  exact (exitInv_of_run hr).not_all_waiting hn (by omega) hexit

/-! ### Only finitely many steps -/

/-- How many steps of `ready_enqueue` are left. -/
def EnqPc.rank : EnqPc → ℕ
  | .lock => 4
  | .insert => 3
  | .unlock => 2
  | .post => 1

/-- A bound for the steps that a thread in `uthread_teardown`, or one that has finished, takes before its
kernel thread waits for the ready queue. -/
def Pc.rank (n : ℕ) : Pc → ℕ
  | .teardown (.loop j) => 26 + 5 * (n - j)
  | .teardown (.enq j x) => 26 + 5 * (n - (j + 1)) + x.rank
  | .teardown .task => 25
  | .teardown .lock => 24
  | .teardown .read => 23
  | .swap _ .teardown => 22
  | .exit _ .switch => 21
  | _ => 0

/-- A bound for the steps that a scheduler takes before it takes an `exitall` entry or resumes a thread. -/
def SchedPc.rank (n : ℕ) : SchedPc → ℕ
  | .deqUnlock .exitall => 24 + n
  | .next .exitall => 23 + n
  | .exitWait j => 21 + j
  | .entry => 20
  | .exitBody _ | .joinBody _ | .semBody _ | .teardownBody _ => 19
  | .enq _ x => 14 + x.rank
  | .semUnlock => 15
  | .unlockTcbs => 14
  | .reset => 13
  | .deqWait => 12
  | .deqLock => 11
  | .deqRemove => 10
  | .deqUnlock (.tcb _) => 9
  | .next (.tcb _) => 8
  | .dispLock _ => 7
  | .dispBody _ => 6
  | .dispUnlock _ => 5
  | .dispReady _ => 4
  | .dispSet _ => 3
  | .exitPost => 1

/-- A bound for the steps that a kernel thread takes. -/
def Ctl.rank (n : ℕ) : Ctl → ℕ
  | .kmain => 22
  | .kmainStart => 21
  | .thread _ pc => pc.rank n
  | .sched pc => pc.rank n
  | .closing _ | .exited => 0

theorem Resume.pc_rank (r : Resume) : r.pc.rank n = 0 := by
  cases r with
  | yielded o =>
    cases o with
    | none => rfl
    | some o => cases o <;> rfl
  | _ => rfl

/-- A step of the library decreases the bound, unless it takes an `exitall` entry. -/
theorem Trans.rank_lt {f : Option AllocSite} (ht : Trans cfg s e s') (he : e.2 = .run f)
    (hpos : 0 < (s.kt e.1).ctl.rank n) :
    (s'.kt e.1).ctl.rank n < (s.kt e.1).ctl.rank n + if s.takesExitall e then n + 15 else 0 := by
  cases ht with
  | call | tick | deliver => cases he
  | acquire h | insert h | parkJoin h | parkSem h =>
    generalize hc : (s.kt _).ctl = x at h
    refine Nat.lt_add_right _ ?_
    cases h <;> simp [hc, Ctl.rank, Pc.rank] at hpos <;>
      simp [State.goto, Ctl.rank, Pc.rank, SchedPc.rank, EnqPc.rank]
  | release h =>
    refine Nat.lt_add_right _ ?_
    cases h with
    | @deq en hc => cases en <;> simp [State.goto, hc, Ctl.rank, SchedPc.rank]
    | _ hc =>
      simp [hc, Ctl.rank, Pc.rank] at hpos <;>
        simp [State.goto, hc, Ctl.rank, Pc.rank, SchedPc.rank, EnqPc.rank]
  | quiet h =>
    refine Nat.lt_add_right _ ?_
    cases h with
    | teardownEnq hc hj =>
      simp [hc, Ctl.rank, Pc.rank, EnqPc.rank]
      omega
    | teardownLoop hc hj =>
      simp [hc, Ctl.rank, Pc.rank]
      omega
    | nextMain hc hk | nextOther hc hk =>
      simp [hc, Ctl.rank, SchedPc.rank]
      omega
    | _ hc =>
      simp [hc, Ctl.rank, Pc.rank] at hpos <;> simp [hc, Ctl.rank, Pc.rank, SchedPc.rank]
  | signal h =>
    refine Nat.lt_add_right _ ?_
    cases h with
    | _ hc =>
      simp [hc, Ctl.rank, Pc.rank] at hpos <;>
        simp [State.goto, hc, Ctl.rank, Pc.rank, SchedPc.rank, EnqPc.rank]
  | @deqRemove k f en rest hc hq =>
    cases en with
    | exitall =>
      simp [State.goto, hc, Ctl.rank, SchedPc.rank, State.takesExitall, State.dequeues, hq]
      omega
    | tcb q => simp [State.goto, hc, Ctl.rank, SchedPc.rank, State.takesExitall, State.dequeues, hq]
  | entry hc hcur h =>
    refine Nat.lt_add_right _ ?_
    generalize (s.kt _).task = x at h
    cases h <;> simp [hc, Ctl.rank, SchedPc.rank, EnqPc.rank]
  | dispSet hc hx hctx =>
    refine Nat.lt_add_right _ ?_
    simp [hc, Ctl.rank, SchedPc.rank, Resume.pc_rank]
  | @swap k f p c x r hc =>
    refine Nat.lt_add_right _ ?_
    cases r with
    | teardown => simp [hc, Ctl.rank, Pc.rank, SchedPc.rank]
    | _ => simp [hc, Ctl.rank, Pc.rank] at hpos
  | _ hc =>
    refine Nat.lt_add_right _ ?_
    simp [hc, Ctl.rank, Pc.rank] at hpos <;>
      simp [State.goto, hc, Ctl.rank, Pc.rank, SchedPc.rank, EnqPc.rank]

/-- The event is a step of the library. -/
def Input.isRun : Input → Bool
  | .run _ => true
  | _ => false

/-- How many steps of the library a history consists of. -/
def numSteps (h : List (State n × Event n)) : ℕ := h.countP fun x => x.2.2.isRun

/-- A bound for the steps of the library until the end of the hand-over. -/
def handRank (h : List (State n × Event n)) (s : State n) : ℕ :=
  ∑ k, (s.kt k).ctl.rank n + (n + 15) * (n - ∑ k, takes h k)

theorem State.mem_rqueue_of_takes (htake : s.takesExitall e = true) : Entry.exitall ∈ s.rqueue := by
  obtain ⟨k, i⟩ := e
  cases i with
  | run f =>
    have hdeq : s.dequeues (k, .run f) = some .exitall := of_decide_eq_true htake
    simp only [State.dequeues] at hdeq
    split at hdeq
    · exact List.mem_of_mem_head? hdeq
    · cases hdeq
  | _ => simp [State.takesExitall, State.dequeues] at htake

theorem State.HandingOver.puts_le (H : s.HandingOver) (Q : PutInv h s) : puts h ≤ n := by
  rcases H with ⟨k, hk⟩ | hs
  · obtain ⟨pc, hc, hp⟩ := Ctl.handing_iff.1 hk
    have htear : (s.kt k).ctl.tearing = some mainTcb := by simp [hc, Ctl.tearing, Pc.tearing_of_handing hp]
    obtain ⟨m, hm⟩ := Ctl.tearing_iff_put (n := n).1 htear
    obtain ⟨heq, hle⟩ := Q.exec k _ m hm
    omega
  · exact (Q.susp _ hs).le

theorem State.HandingOver.rank_pos (H : s.HandingOver) (I : Inv s) (A : AloneInv s)
    (hr : (machine n cfg).Run P h s) {f : Option AllocSite} (hs : s.step cfg (k, .run f) = some s') :
    0 < (s.kt k).ctl.rank n := by
  have hh := State.halt_of_step hs
  cases hc : (s.kt k).ctl with
  | kmain | kmainStart => simp [Ctl.rank]
  | sched pc =>
    cases pc with
    | deqUnlock en | next en => cases en <;> simp [Ctl.rank, SchedPc.rank]
    | _ => simp [Ctl.rank, SchedPc.rank]
  | thread p pc =>
    rcases H.thread_cases I A hc with ⟨-, hp⟩ | ⟨v, rfl⟩
    · cases pc with
      | teardown x => cases x <;> simp [Pc.handing, Ctl.rank, Pc.rank] at hp ⊢
      | swap cur r => cases r <;> simp [Pc.handing, Ctl.rank, Pc.rank] at hp ⊢
      | _ => simp [Pc.handing] at hp
    · simp [Ctl.rank, Pc.rank]
  | closing x =>
    have hf := H.infoFreed I
    simp [(initedInv_of_run hr).closing k x hc] at hf
  | exited => simp [State.step, hh, State.stepRun, hc] at hs

/-- Every step of the library decreases the bound, and signals do not change it. -/
theorem State.HandingOver.handRank_step (H : s.HandingOver) (hn : 0 < n) (hr : (machine n cfg).Run Obeys h s)
    (o : Obeys s e) (hs : s.step cfg e = some s') :
    handRank ((s, e) :: h) s' + (if e.2.isRun then 1 else 0) ≤ handRank h s := by
  obtain ⟨I, A⟩ := inv_alone_of_reachable hn hr.reachable
  have hf := H.infoFreed I
  have hgo := H.step_goes I A hr o.alloc hs
  have ht : Trans cfg s e s' := by
    obtain rfl | rfl | ht := State.step_cases hs
    · simp [State.abort] at hgo
    · simp [State.fault] at hgo
    · exact ht
  have hsum := ht.sum_ctl (Ctl.rank n)
  have htakes : ∑ k, takes ((s, e) :: h) k = ∑ k, takes h k + if s.takesExitall e = true then 1 else 0 :=
    sum_countOf_cons State.takesExitall
  have hle : s.takesExitall e = true → ∑ k, takes h k < n := by
    intro htake
    have hmem : Entry.exitall ∈ s.rqueue := State.mem_rqueue_of_takes htake
    have hpos := List.count_pos_iff.2 hmem
    have hput := H.puts_le (putInv_of_run hn (run_admits hn hr) hf)
    have hcount := sum_takes_add_count hr hf
    omega
  unfold handRank
  rw [htakes]
  by_cases hrun : ∃ f, e.2 = .run f
  · obtain ⟨f, he⟩ := hrun
    have hpos := H.rank_pos I A hr (k := e.1) (f := f) (by rw [← he]; exact hs)
    have hlt := ht.rank_lt he hpos
    simp only [he, Input.isRun, if_true]
    by_cases htake : s.takesExitall e = true
    · have hlt' := hle htake
      have hmul : (n + 15) * (n - ∑ k, takes h k) = (n + 15) * (n - (∑ k, takes h k + 1)) + (n + 15) := by
        rw [← Nat.mul_succ]
        congr 1
        omega
      simp only [htake, if_true] at hlt ⊢
      omega
    · simp only [htake] at hlt ⊢
      simp at hlt ⊢
      omega
  · -- signals do not move control
    obtain ⟨k, i⟩ := e
    have hrank : (s'.kt k).ctl.rank n = (s.kt k).ctl.rank n := by
      cases ht with
      | tick | deliver => simp
      | @call k c p r hc =>
        rcases H.thread_cases I A hc with ⟨-, hp⟩ | ⟨v, hp⟩
        · simp [Pc.handing] at hp
        · cases hp
      | _ => exact absurd ⟨_, rfl⟩ hrun
    cases i with
    | run f => exact absurd ⟨f, rfl⟩ hrun
    | _ =>
      simp only [State.takesExitall, State.dequeues, Input.isRun] at hsum ⊢
      simp
      omega

/-- The number of steps of the library in a part of a run that stays within the hand-over is bounded. -/
theorem State.HandingOver.numSteps_le (hn : 0 < n) (hr : (machine n cfg).Run Obeys h s)
    {h' : List (State n × Event n)} (hr' : (machine n cfg).Run Obeys (h' ++ h) s')
    (hall : ∀ x ∈ h', x.1.HandingOver) : handRank (h' ++ h) s' + numSteps h' ≤ handRank h s := by
  induction h' generalizing s' with
  | nil =>
    obtain rfl := hr.state_unique hr'
    simp [numSteps]
  | cons x h' ih =>
    cases hr' with
    | @step _ s₁ _ e hr₁ o hs =>
      have hle := ih hr₁ fun y hy => hall y (List.mem_cons_of_mem _ hy)
      have H : s₁.HandingOver := hall (s₁, e) List.mem_cons_self
      have hlt := H.handRank_step hn hr₁ o hs
      have hcount : numSteps ((s₁, e) :: h') = numSteps h' + if e.2.isRun then 1 else 0 := List.countP_cons
      rw [List.cons_append, hcount]
      change handRank ((s₁, e) :: (h' ++ h)) s' + _ ≤ _
      change handRank ((s₁, e) :: (h' ++ h)) s' + _ ≤ handRank (h' ++ h) s₁ at hlt
      omega

/-! ### The main result -/

/-- A signal becomes pending only with preemption. -/
theorem preemptive_of_pending (hr : (machine n cfg).Run P h s) (hp : (s.kt k).pending = true) :
    cfg.preemptive = true := by
  refine hr.invariant (I := fun s => ∀ k, (s.kt k).pending = true → cfg.preemptive = true) ?_ ?_ k hp
  · intro k hk
    obtain ⟨-, h⟩ | ⟨-, h⟩ := State.init_kt_cases n cfg k <;> simp [machine, h] at hk
  · intro s e s' I _ hs k hk
    by_cases htick : e.2 = .tick
    · obtain ⟨j, i⟩ := e
      obtain rfl : i = .tick := htick
      simp only [machine, State.step] at hs
      split_ifs at hs with _ hq
      exact hq
    obtain rfl | rfl | ht := State.step_cases hs
    · exact I k hk
    · exact I k hk
    · by_cases hke : k = e.1
      · subst hke
        refine I e.1 ?_
        cases ht with
        | tick => exact absurd rfl htick
        | deliver => simp at hk
        | @call k c p r hc =>
          cases c with
          | op o => cases o <;> simpa [Call.enter, KThread.block] using hk
          | _ => simpa [Call.enter, KThread.block] using hk
        | quiet h => cases h <;> simpa [KThread.block, KThread.unblock] using hk
        | signal h => cases h <;> simpa [State.goto] using hk
        | _ => simpa [State.goto, KThread.block] using hk
      · exact I k (ht.kt_of_ne hke ▸ hk)

/-- A kernel thread that has exited takes part in no event, except that a signal may become pending for it. -/
theorem tick_of_exited (hr : (machine n cfg).Run P h s) (hc : (s.kt k).ctl = .exited) {i : Input}
    (hs : s.step cfg (k, i) = some s') : i = .tick := by
  have hh := State.halt_of_step hs
  cases i with
  | tick => rfl
  | call c => simp [State.step, hh, hc] at hs
  | run f => simp [State.step, hh, State.stepRun, hc] at hs
  | deliver =>
    simp only [State.step, hh, if_true, State.stepDeliver] at hs
    split at hs
    · next hp =>
      obtain ⟨hpend, hblocked⟩ : (s.kt k).pending = true ∧ (s.kt k).blocked = false := by simpa using hp
      have hmask := (signalInv_of_run (preemptive_of_pending hr hpend) hr).mask.ctl k (by simp [hc, Ctl.masked])
      simp [hblocked] at hmask
    · cases hs

/-- During the hand-over every step of the library keeps to the preconditions. -/
theorem State.HandingOver.obeys (H : s.HandingOver) (I : Inv s) (A : AloneInv s) (k : Fin n) :
    Obeys s (k, .run none) := by
  have hno {pc : Pc} (hpc : (s.kt k).ctl.pc? = some pc) : pc.SemOk s ∧ pc.allocates = false := by
    cases hc : (s.kt k).ctl with
    | thread p pc₁ =>
      obtain rfl : pc₁ = pc := by simpa [hc, Ctl.pc?] using hpc
      rcases H.thread_cases I A hc with ⟨-, hp⟩ | ⟨v, rfl⟩
      · cases pc₁ <;> simp [Pc.handing] at hp <;> exact ⟨trivial, rfl⟩
      · exact ⟨trivial, rfl⟩
    | _ => simp [hc, Ctl.pc?] at hpc
  have halloc : ¬ (s.kt k).ctl.pc?.any Pc.allocates = true := by
    cases hpc : (s.kt k).ctl.pc? with
    | none => simp
    | some pc => simp [(hno hpc).2]
  exact ⟨rfl, trivial, fun pc hpc => (hno hpc).1, fun ha => absurd ha halloc, fun ha => absurd ha halloc⟩

/-- For any number of kernel threads and any interleaving:

* `uthread_teardown` is resumed after its context switch only by the main kernel thread, when each other one has
  taken one `exitall` entry, has posted `exitall_sem` and has exited; no `exitall` entry is then left;
* a kernel thread that has posted `exitall_sem` has exited, and takes no step of the library any more;
* in a run that obeys the documented preconditions, until then some kernel thread can take a step, every step
  leads to a state of the same kind or resumes `uthread_teardown`, and only finitely many steps are taken.

For the first two the other threads need not have finished when teardown is called. -/
theorem teardown_hand_over (hn : 0 < n) (hr : (machine n cfg).Run Admits h s) :
    (∀ k p, (s.kt k).ctl = .thread p (.teardown .resumed) → HandedOver h s k) ∧
    (∀ j, posts h j ≠ 0 →
      (s.kt j).ctl = .exited ∧ ∀ i s', s.step cfg (j, i) = some s' → i = .tick) ∧
    ((machine n cfg).Run Obeys h s → s.HandingOver →
      (∃ k s', Obeys s (k, .run none) ∧ s.step cfg (k, .run none) = some s' ∧ s'.halt = none) ∧
      (∀ e s', Obeys s e → s.step cfg e = some s' →
        s'.HandingOver ∨ ∃ k, (s'.kt k).ctl = .thread mainTcb (.teardown .resumed)) ∧
      ∃ N, ∀ h' s', (machine n cfg).Run Obeys (h' ++ h) s' → (∀ x ∈ h', x.1.HandingOver) →
        numSteps h' ≤ N) := by
  have X := exitInv_of_run hr
  refine ⟨fun k p hc => ?_, fun j hj => ?_, fun ho H => ⟨?_, fun e s' o hs => ?_, ?_⟩⟩
  · have hf := (inv_of_admits hn hr.reachable).infoFreed_of_thread hc
    exact (doneInv_of_run hn hr hf).resumed k p hc
  · have hj0 : j.val ≠ 0 := fun hz => hj (X.posts_main j hz)
    have hst : (s.kt j).ctl.exitStage.numPosted ≠ 0 := X.posts_other j hj0 ▸ hj
    have hc : (s.kt j).ctl = .exited := by
      generalize (s.kt j).ctl = c at hst
      unfold Ctl.exitStage at hst
      split at hst <;> simp [ExitStage.numPosted] at hst ⊢
    exact ⟨hc, fun i s' hs => tick_of_exited hr hc hs⟩
  · obtain ⟨I, A⟩ := inv_alone_of_reachable hn ho.reachable
    obtain ⟨k, s', hs⟩ := H.not_stuck hn ho
    exact ⟨k, s', H.obeys I A k, hs, H.step_goes I A ho (H.obeys I A k).alloc hs⟩
  · obtain ⟨I, A⟩ := inv_alone_of_reachable hn ho.reachable
    have hgo := H.step_goes I A ho o.alloc hs
    obtain rfl | rfl | ht := State.step_cases hs
    · simp [State.abort] at hgo
    · simp [State.fault] at hgo
    · exact H.step I A o.alloc ht
  · refine ⟨handRank h s, fun h' s' hr' hall => ?_⟩
    have := State.HandingOver.numSteps_le hn ho hr' hall
    omega

/-- The main thread calls teardown on the main kernel thread; the second one takes an entry and exits. -/
theorem teardown_hand_over_two : ∃ (h : List (State 2 × Event 2)) (s : State 2),
    (s.kt 0).ctl = .thread mainTcb (.teardown .resumed) ∧ HandedOver h s 0 := by
  obtain ⟨h, s, hr, hs⟩ := EventMachine.exists_run_of_exec
    (M := machine 2 ⟨0⟩) (P := Obeys)
    (runs 0 3 ++ [(0, .call .teardown)] ++ runs 0 15 ++ runs 1 10 ++ runs 0 27)
    (p := fun x => (x.2.kt 0).ctl = .thread mainTcb (.teardown .resumed)) (by decide +kernel)
  have hc : (s.kt 0).ctl = .thread mainTcb (.teardown .resumed) := of_decide_eq_true hs
  exact ⟨h, s, hc, (teardown_hand_over Nat.two_pos (run_admits Nat.two_pos hr)).1 0 mainTcb hc⟩

end Uthread
