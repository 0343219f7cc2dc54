import Uthread.Safety.Completion
import Uthread.Safety.Waiters

/-!
# When nothing is left to do

The library comes to rest when no kernel thread can take a step of it. Then no mutex is locked, and a kernel
thread executes user code or waits for the ready queue, and it waits only if that is empty. A thread that has not
finished runs, is ready while all the kernel threads run others, waits to join a thread that has not finished, or
waits at a semaphore for whose counter there is no use. After `uthread_teardown` the library is at rest when all
its kernel threads have come to their ends.

## Main definitions

* `State.Quiescent`: no kernel thread can take a step.
* `State.Rests`: the library is at rest, and what its threads do.

## Main results

* `quiescent_iff`.
-/

namespace Uthread

variable {n : ℕ} {cfg : Config} {s s' : State n} {e : Event n} {k : Fin n} {p q : Ptr} {i : SemId}
  {h : List (State n × Event n)}

/-! ### After the hand-over -/

/-- The kernel thread has resumed `uthread_teardown` after its context switch. -/
def Ctl.after : Ctl → Bool
  | .thread _ (.teardown .resumed) | .thread _ (.teardown (.join _)) | .thread _ (.teardown .free)
  | .closing _ => true
  | _ => false

theorem Op.start_after (o : Op) : (Ctl.thread p o.start).after = false := by cases o <;> rfl

theorem Trans.after_cases (ht : Trans cfg s e s') (hk : (s'.kt e.1).ctl.after = true) :
    (s.kt e.1).ctl.after = true ∨ ∃ p, (s'.kt e.1).ctl = .thread p (.teardown .resumed) := by
  cases ht with
  | @call k c p r hc =>
    cases c with
    | op o => cases o <;> simp [Call.enter, Ctl.after] at hk
    | _ => simp [Call.enter, Ctl.after] at hk
  | tick | deliver => exact .inl (by simpa using hk)
  | acquire h | insert h | parkJoin h | parkSem h =>
    generalize hc : (s.kt _).ctl = x at h
    cases h <;> simp [State.goto, Ctl.after] at hk
  | release h => cases h <;> simp [State.goto, Ctl.after] at hk
  | quiet h =>
    cases h with
    | start hc => simp [Op.start_after] at hk
    | teardownResumed hc | teardownJoin hc | teardownJoined hc | closing hc =>
      exact .inl (by rw [hc]; rfl)
    | _ hc => simp [Ctl.after] at hk
  | signal h =>
    cases h with
    | inited hc => exact .inl (by rw [hc]; rfl)
    | _ hc => simp [State.goto, Ctl.after] at hk
  | teardownFree hc => exact .inl (by rw [hc]; rfl)
  | @dispSet k f q x c hc hx hctx =>
    refine .inr ⟨c.thread, ?_⟩
    rw [State.setK_kt] at hk ⊢
    cases hr : c.resume with
    | yielded o =>
      cases o with
      | none => simp [hr, Resume.pc, Ctl.after] at hk
      | some o => simp [hr, Resume.pc, Op.start_after] at hk
    | teardown => rfl
    | _ => simp [hr, Resume.pc, Ctl.after] at hk
  | _ hc => simp [State.goto, Ctl.after] at hk

/-- From then on the other kernel threads have exited. -/
theorem exited_of_after (hn : 0 < n) (hr : (machine n cfg).Run Admits h s) (hk : (s.kt k).ctl.after = true)
    {j : Fin n} (hj : j ≠ k) : (s.kt j).ctl = .exited := by
  induction hr generalizing k j with
  | init => obtain ⟨-, h⟩ | ⟨-, h⟩ := State.init_kt_cases n cfg k <;> simp [machine, h, Ctl.after] at hk
  | @step h s s' e hr o hs ih =>
    obtain rfl | rfl | ht := State.step_cases hs
    · exact ih hk hj
    · exact ih hk hj
    by_cases hke : k = e.1
    · subst hke
      rcases ht.after_cases hk with hk₀ | ⟨p, hc⟩
      · exact ht.exited (ih hk₀ hj)
      · have hf := (inv_of_admits hn (hr.step o hs).reachable).infoFreed_of_thread hc
        exact (((doneInv_of_run hn (hr.step o hs) hf).resumed e.1 p hc).others j hj).2.2
    · exact ht.exited (ih (ht.kt_of_ne hke ▸ hk) hj)

/-- The loop over the other kernel threads does not wait for the main one. -/
theorem join_pos_of_run (hr : (machine n cfg).Run Obeys h s) {j : ℕ}
    (hk : (s.kt k).ctl.pc?.bind Pc.awaits = some (some j)) : 0 < j := by
  induction hr generalizing k j with
  | init => obtain ⟨-, h⟩ | ⟨-, h⟩ := State.init_kt_cases n cfg k <;> simp [machine, h, Ctl.pc?, Pc.awaits] at hk
  | @step h s s' e hr o hs ih =>
    obtain rfl | rfl | ht := State.step_cases hs
    · exact ih hk
    · exact ih hk
    by_cases hke : k = e.1
    · subst hke
      rcases ht.awaits_cases hk with hk₀ | ⟨hj, -⟩ | ⟨i, -, hj, -, -⟩ | ⟨i, -, hj, -⟩
      · exact ih hk₀
      · obtain rfl := Option.some.inj hj
        exact Nat.one_pos
      · obtain rfl := Option.some.inj hj
        exact Nat.succ_pos i
      · cases hj
    · exact ih (ht.kt_of_ne hke ▸ hk)

/-- A thread in `uthread_teardown` is in the hand-over or after it. -/
theorem Ctl.handing_or_after {c : Ctl} (hc : c.tearing = some p) : c.handing = some p ∨ c.after = true := by
  cases c with
  | thread q pc =>
    cases pc with
    | teardown x => cases x <;> simp_all [Ctl.tearing, Pc.tearing, Ctl.handing, Pc.handing, Ctl.after]
    | swap cur r => cases r <;> simp_all [Ctl.tearing, Pc.tearing, Ctl.handing, Pc.handing]
    | _ => simp [Ctl.tearing, Pc.tearing] at hc
  | _ => simp [Ctl.tearing] at hc

/-! ### The state of rest -/

/-- No kernel thread can take a step of the library. -/
def State.Quiescent (s : State n) (cfg : Config) : Prop := ∀ k, s.step cfg (k, .run none) = none

/-- What a thread does that has not finished, when the library is at rest. -/
inductive State.Settled (s : State n) (p : Ptr) : Prop
  | runs {k r} (hc : (s.kt k).ctl = .thread p (.user r))
  | ready (hp : Entry.tcb p ∈ s.rqueue) (hall : ∀ k, ∃ q r, (s.kt k).ctl = .thread q (.user r))
  | joins {q st} (hp : p ∈ s.joinQueue q) (hq : s.stateOf q = some st) (hst : st ≠ .finished)
  | waits {i x} (hx : s.sems i = some x) (hp : p ∈ x.queue) (hle : x.counter ≤ s.rqueue.length)

/-- The library is at rest. -/
structure State.Rests (s : State n) : Prop where
  point : ∀ k, (∃ p r, (s.kt k).ctl = .thread p (.user r)) ∨ (s.kt k).ctl = .sched .deqWait
  lock : ∀ L, s.owner L = none
  ready : s.rqueue.length = s.notEmpty
  idle : ∀ k, (s.kt k).ctl = .sched .deqWait → s.rqueue = []
  thread : ∀ p st, s.stateOf p = some st → st ≠ .finished → s.Settled p

/-- The library has been torn down. -/
structure State.Ended (s : State n) : Prop where
  point : ∃ k, (s.kt k).ctl = .closing .done ∧ ∀ j, j ≠ k → (s.kt j).ctl = .exited
  freed : ∀ p, s.heap p = none

theorem State.Quiescent.blocked (Q : s.Quiescent cfg) (hh : s.halt = none) (k : Fin n) : s.Blocked k :=
  State.blocked_of_step_eq_none hh (Q k)

/-- Nothing is left to do in `uthread_teardown` only at its end. -/
theorem ended_of_freed (hn : 0 < n) (hr : (machine n cfg).Run Obeys h s) (hb : ∀ k, s.Blocked k)
    (hf : s.infoFreed = true) : s.Ended := by
  have I := inv_of_reachable hn hr.reachable
  let k₀ : Fin n := ⟨0, hn⟩
  have hk₀ : (s.kt k₀).ctl = .closing .done := by
    rcases (freedInv_of_run hr).freed hf k₀ with hc | ⟨x, hc⟩
    · exact absurd (by rw [hc]; rfl) ((exitInv_of_run hr).not_posting k₀ rfl).2
    · cases hb k₀ with
      | mutex hA =>
        rw [hc] at hA
        cases hA
      | done hc' => exact hc'
      | _ hc' => simp [hc] at hc'
  refine ⟨⟨k₀, hk₀, fun j hj => ?_⟩, I.teardown.freed hf⟩
  exact exited_of_after hn (run_admits hn hr) (by rw [hk₀]; rfl) hj

/-- During `uthread_teardown` something is left to do. -/
theorem not_tearsDown_of_blocked (hn : 0 < n) (hr : (machine n cfg).Run Obeys h s)
    (Q : s.Quiescent cfg) (hh : s.halt = none) (hf : s.infoFreed = false) (p : Ptr) : ¬ s.TearsDown p := by
  intro hp
  have I := inv_of_reachable hn hr.reachable
  obtain rfl := (putInv_of_run hn (run_admits hn hr) hf).main p hp
  have hnot : ¬ s.HandingOver := fun H => by
    obtain ⟨k, s', hs⟩ := H.not_stuck hn hr
    simp [Q k] at hs
  rcases hp with ⟨k, hk⟩ | hs
  · -- the thread has been resumed, and the other kernel threads have exited
    have hafter := (Ctl.handing_or_after hk).resolve_left fun hk => hnot (.inl ⟨k, hk⟩)
    cases Q.blocked hh k with
    | mutex hA =>
      generalize hc : (s.kt k).ctl = c at hA hafter
      cases hA <;> simp [Ctl.after] at hafter
    | @join p j hc hj hx =>
      by_cases hjk : (⟨j, hj⟩ : Fin n) = k
      · have haw : (s.kt k).ctl.pc?.bind Pc.awaits = some (some j) := by rw [hc]; rfl
        have h0 := (I.teardown.awaited k (some j) haw).1
        have hpos := join_pos_of_run hr haw
        rw [← hjk] at h0
        exact absurd h0 (Nat.ne_of_gt hpos)
      · exact hx (exited_of_after hn (run_admits hn hr) hafter hjk)
    | done hc => simp [(initedInv_of_run hr).closing k _ hc] at hf
    | _ hc => simp [hc, Ctl.after] at hafter
  · exact hnot (.inr hs)

/-- As long as `uthread_teardown` has not been called no kernel thread has begun to exit. -/
theorem exitStage_of_not_tearsDown (hn : 0 < n) (hr : (machine n cfg).Run Obeys h s) (hf : s.infoFreed = false)
    (hT : ∀ p, ¬ s.TearsDown p) (k : Fin n) :
    (s.kt k).ctl ≠ .exited ∧ ∀ j, (s.kt k).ctl ≠ .sched (.exitWait (j + 1)) := by
  have X := exitInv_of_run hr
  have hputs := (putInv_of_run hn (run_admits hn hr) hf).zero hT
  have htakes : takes h k = 0 := by
    have hsum := sum_takes_add_count hr hf
    have hle : takes h k ≤ ∑ k, takes h k :=
      Finset.single_le_sum (f := fun k => takes h k) (fun _ _ => Nat.zero_le _) (Finset.mem_univ k)
    omega
  by_cases hk : k.val = 0
  · refine ⟨fun hc => (X.not_posting k hk).2 (by rw [hc]; rfl), fun j hc => ?_⟩
    have hw := X.waits_main k hk
    rw [htakes, hc, show (Ctl.sched (.exitWait (j + 1))).exitStage = .waiting (j + 1) from rfl] at hw
    simp [ExitStage.toWait] at hw
  · refine ⟨fun hc => ?_, fun j hc => X.not_waiting k hk (j + 1) (by rw [hc]; rfl)⟩
    have hw := X.takes_other k hk
    rw [htakes, hc] at hw
    simp [Ctl.exitStage, ExitStage.numTaken] at hw

/-- Where the kernel threads are when the library is at rest. -/
theorem points_of_quiescent (hn : 0 < n) (hr : (machine n cfg).Run Obeys h s) (Q : s.Quiescent cfg)
    (hh : s.halt = none) (hf : s.infoFreed = false) (k : Fin n) :
    (∃ p r, (s.kt k).ctl = .thread p (.user r)) ∨ (s.kt k).ctl = .sched .deqWait ∧ s.notEmpty = 0 := by
  have I := inv_of_reachable hn hr.reachable
  have hT := not_tearsDown_of_blocked hn hr Q hh hf
  have hlock := I.owner_eq_none_of_blocked (Q.blocked hh)
  -- nobody is about to let the other kernel threads go
  have howes (k : Fin n) : (s.kt k).ctl.owesInit n = 0 := by
    cases Q.blocked hh k with
    | mutex hA ho => exact absurd (hlock _) ho
    | _ hc => simp [hc, Ctl.owesInit]
  cases Q.blocked hh k with
  | mutex hA ho => exact absurd (hlock _) ho
  | @user p r hc => exact .inl ⟨p, r, hc⟩
  | kmain hc h0 =>
    have hrel := releaseInv_of_run hr
    rw [ReleaseInv, h0, Finset.sum_eq_zero fun k _ => howes k, Nat.add_zero, Finset.sum_eq_zero_iff] at hrel
    simpa [hc, Ctl.awaitsInit] using hrel k (Finset.mem_univ k)
  | notEmpty hc h0 => exact .inr ⟨hc, h0⟩
  | @exitall j hc => exact absurd hc ((exitStage_of_not_tearsDown hn hr hf hT k).2 j)
  | @join p j hc => exact absurd (.inl ⟨k, by simp [hc, Ctl.tearing, Pc.tearing]⟩) (hT p)
  | exited hc => exact absurd hc (exitStage_of_not_tearsDown hn hr hf hT k).1
  | done hc => simp [(initedInv_of_run hr).closing k _ hc] at hf

/-- The places of a thread when the library is at rest. -/
theorem Inv.places_of_rest (I : Inv s)
    (hpt : ∀ k, (∃ p r, (s.kt k).ctl = .thread p (.user r)) ∨ (s.kt k).ctl = .sched .deqWait)
    {st : ThreadState} (hp : s.stateOf p = some st) (hst : st ≠ .finished) :
    (∃ k r, (s.kt k).ctl = .thread p (.user r)) ∨ Entry.tcb p ∈ s.rqueue ∨ (∃ q, p ∈ s.joinQueue q) ∨
      ∃ i, p ∈ s.semQueue i := by
  obtain ⟨c, hc⟩ := I.place.cover p st hp hst
  cases c with
  | ready =>
    obtain ⟨en, hen, hptr⟩ := List.mem_filterMap.1 hc
    cases en with
    | tcb q =>
      obtain rfl : q = p := by simpa [Entry.ptr?] using hptr
      exact .inr (.inl hen)
    | exitall => simp [Entry.ptr?] at hptr
  | exec k =>
    rcases hpt k with ⟨q, r, hk⟩ | hk
    · obtain rfl : p = q := by simpa [State.holds, State.exec, KThread.exec, hk] using hc
      exact .inl ⟨k, r, hk⟩
    · simp [State.holds, State.exec, KThread.exec, hk, SchedPc.moving] at hc
  | hand k =>
    rcases hpt k with ⟨q, r, hk⟩ | hk <;> simp [State.holds, KThread.hand, hk, Ctl.pc?, Pc.hand] at hc
  | joinq q => exact .inr (.inr (.inl ⟨q, hc⟩))
  | semq i => exact .inr (.inr (.inr ⟨i, hc⟩))

/-- The threads that a post has woken are in the ready queue when the library is at rest. -/
theorem State.Returning.mem_rqueue (R : s.Returning i p) (I : Inv s)
    (hpt : ∀ k, (∃ p r, (s.kt k).ctl = .thread p (.user r)) ∨ (s.kt k).ctl = .sched .deqWait) :
    Entry.tcb p ∈ s.rqueue := by
  cases R with
  | suspended hs hq hh =>
    obtain ⟨x, hx⟩ := Option.ne_none_iff_exists'.1 (State.heap_ne_none_of_suspended hs)
    have hp : s.stateOf p = some x.state := by simp [State.stateOf, hx]
    have hst : x.state ≠ .finished := fun hfin => by
      rw [State.suspended_of_finished (hp.trans (congrArg some hfin))] at hs
      cases hs
    rcases I.places_of_rest hpt hp hst with ⟨k, r, hc⟩ | hmem | ⟨q, hj⟩ | ⟨j, hj⟩
    · simp [State.suspended_of_thread hc] at hs
    · exact hmem
    · obtain ⟨t, pret, hsus, -⟩ := I.join.parked q p hj
      simp [hs] at hsus
    · have hsus := I.ctx.parked j p hj
      obtain rfl : i = j := by simpa [hs] using hsus
      exact absurd hj hq
  | @resumed k cur hc | @relocks k cur hc =>
    rcases hpt k with ⟨q, r, hc'⟩ | hc' <;> simp [hc] at hc'

/-- **The library at rest.** -/
theorem rests_of_quiescent (hn : 0 < n) (hr : (machine n cfg).Run Obeys h s) (Q : s.Quiescent cfg)
    (hh : s.halt = none) (hf : s.infoFreed = false) : s.Rests := by
  have I := inv_of_reachable hn hr.reachable
  have hpoints := points_of_quiescent hn hr Q hh hf
  have hpt (k : Fin n) : (∃ p r, (s.kt k).ctl = .thread p (.user r)) ∨ (s.kt k).ctl = .sched .deqWait :=
    (hpoints k).imp_right And.left
  have hlock := I.owner_eq_none_of_blocked (Q.blocked hh)
  -- nothing is on its way to or from the ready queue
  have hsize : s.rqueue.length = s.notEmpty := by
    have hins : s.inserted = 0 := Finset.sum_eq_zero fun k _ => by
      rcases hpt k with ⟨p, r, hc⟩ | hc <;> simp [hc, Ctl.inserted]
    have hclaim : s.claimed = 0 := Finset.sum_eq_zero fun k _ => by
      rcases hpt k with ⟨p, r, hc⟩ | hc <;> simp [hc, Ctl.claimed]
    have := (queueInv_of_run hr).size hf
    omega
  have hidle (k : Fin n) (hc : (s.kt k).ctl = .sched .deqWait) : s.rqueue = [] := by
    rcases hpoints k with ⟨p, r, hc'⟩ | ⟨-, h0⟩
    · simp [hc] at hc'
    · exact List.eq_nil_of_length_eq_zero (hsize.trans h0)
  refine ⟨hpt, hlock, hsize, hidle, fun p st hp hst => ?_⟩
  rcases I.places_of_rest hpt hp hst with ⟨k, r, hc⟩ | hmem | ⟨q, hj⟩ | ⟨i, hi⟩
  · exact .runs hc
  · refine .ready hmem fun k => (hpt k).resolve_right fun hc => ?_
    simp [hidle k hc] at hmem
  · obtain ⟨t, pret, -, hq⟩ := I.join.parked q p hj
    obtain ⟨x, hx, -⟩ := I.table.slot t q hq
    have hst : s.stateOf q = some x.state := by simp [State.stateOf, hx]
    refine .joins hj hst fun hfin => ?_
    obtain ⟨k, hk⟩ := I.join.exiting q (by simp [State.stateOf, hx, hfin]) (List.ne_nil_of_mem hj)
    rcases hpt k with ⟨p', r, hc⟩ | hc
    · obtain rfl : p' = q := by simpa [State.exec, KThread.exec, hc] using hk
      obtain ⟨y, hy, hrun, -⟩ := I.running_of_user hc
      obtain rfl : x = y := Option.some.inj (hx.symm.trans hy)
      rw [hrun] at hfin
      cases hfin
    · simp [State.exec, KThread.exec, hc, SchedPc.moving] at hk
  · -- a wakeup that is not lost is in the ready queue
    obtain ⟨x, hx⟩ : ∃ x, s.sems i = some x := Option.ne_none_iff_exists'.1 fun hnone => by
      simp [State.semQueue, hnone] at hi
    have hmem : p ∈ x.queue := by simpa [State.semQueue, hx] using hi
    have hW := wokenInv_of_run hn (run_admits hn hr) i
    have hR := semRunInv_of_run (hr.mono fun _ _ o => o.sem)
    have hle := ((hR.wake i).enough x hx).resolve_left (List.ne_nil_of_mem hmem)
    rw [(hR.lock i).rechecking_eq_zero (hlock _)] at hle
    have hwoken : (woken h i).length ≤ s.rqueue.length := by
      have hsub : (woken h i).map Entry.tcb ⊆ s.rqueue := fun en hen => by
        obtain ⟨q, hq, rfl⟩ := List.mem_map.1 hen
        exact (hW.returning q hq).mem_rqueue I hpt
      have hnodup : ((woken h i).map Entry.tcb).Nodup := hW.nodup.map fun a b hab => Entry.tcb.inj hab
      simpa using (hnodup.subperm hsub).length_le
    exact .waits hx hmem (by omega)

/-- For any number of kernel threads and any interleaving: no kernel thread can take a step of the library exactly
when the library is at rest or has been torn down. At rest no mutex is locked, every kernel thread executes user
code or waits for the ready queue, the latter only if that is empty, and a thread that has not finished runs user
code, is ready while all the kernel threads are occupied, waits to join a thread that has not finished, or waits at
a semaphore whose counter is at most the number of ready threads. -/
theorem quiescent_iff (hn : 0 < n) (hr : (machine n cfg).Run Obeys h s) (hh : s.halt = none) :
    s.Quiescent cfg ↔ s.Rests ∨ s.Ended := by
  constructor
  · intro Q
    cases hf : s.infoFreed with
    | false => exact .inl (rests_of_quiescent hn hr Q hh hf)
    | true => exact .inr (ended_of_freed hn hr (Q.blocked hh) hf)
  · rintro (R | E) k
    · rcases R.point k with ⟨p, r, hc⟩ | hc
      · simp [State.step, hh, State.stepRun, hc, State.stepThread]
      · have h0 : s.notEmpty = 0 := by rw [← R.ready, R.idle k hc, List.length_nil]
        simp [State.step, hh, State.stepRun, hc, State.stepSchedule, h0]
    · obtain ⟨k₀, hc₀, hex⟩ := E.point
      by_cases hk : k = k₀
      · simp [State.step, hh, State.stepRun, hk, hc₀, State.stepClosing]
      · simp [State.step, hh, State.stepRun, hex k hk]

/-- Of two kernel threads one executes the main thread, which has created thread `1`, and the other one thread `1`
up to its wait at a semaphore with value `0`. -/
theorem quiescent_iff_waiting : ∃ (h : List (State 2 × Event 2)) (s : State 2),
    (machine 2 ⟨0⟩).Run Obeys h s ∧ s.halt = none ∧ s.semQueue 0 = [1] ∧ s.Quiescent ⟨0⟩ ∧ (s.Rests ∨ s.Ended) := by
  obtain ⟨h, s, hr, hs⟩ := EventMachine.exists_run_of_exec
    (M := machine 2 ⟨0⟩) (P := Obeys)
    (runs 0 3 ++ runs 1 4 ++ [(0, .call (.op (.semInit 0 0)))] ++ runs 0 3 ++
      [(0, .call (.op (.create false)))] ++ runs 0 12 ++ runs 1 13 ++
      [(1, .call (.op (.semWait 0)))] ++ runs 1 12)
    (p := fun x => x.2.halt = none ∧ x.2.semQueue 0 = [1] ∧
      ∀ k, (x.2.step ⟨0⟩ (k, .run none)).isNone) (by decide +kernel)
  obtain ⟨hh, hq, hstep⟩ : s.halt = none ∧ s.semQueue 0 = [1] ∧ ∀ k, (s.step ⟨0⟩ (k, .run none)).isNone :=
    of_decide_eq_true hs
  have Q : s.Quiescent ⟨0⟩ := fun k => Option.isNone_iff_eq_none.1 (hstep k)
  exact ⟨h, s, hr, hh, hq, Q, (quiescent_iff Nat.two_pos hr hh).1 Q⟩

end Uthread
