import Uthread.Fcfs.Refinement
import Uthread.Safety.Lookup

/-!
# The order of the threads

A run of the library with one kernel thread and without preemption is followed by a run of the machine of
`Fcfs.Machine`, which makes the same calls and gives control to the same threads.

## Main definitions

* `Follows`: a run of the machine goes along with one of the library.

## Main results

* `Follows.extend`: a run of the machine that goes along with one of the library is continued with it.
* `State.readyList_nodup`: a thread waits for control in one place.
* `fcfs_refinement`: the order in which `schedule` gives control to the threads.
-/

namespace Uthread

variable {s s' : State 1} {e : Event 1} {a a' : Fcfs Ptr SemId} {p q : Ptr} {h h' : List (State 1 × Event 1)}
  {l : List (Fcfs Ptr SemId × FcfsEvent Ptr SemId)} {x : KThread} {tcbs : Tid → Option Ptr}

/-! ### Runs -/

theorem inv_of_cooperative (hr : (machine 1 ⟨0⟩).Run Cooperative h s) : Inv s :=
  inv_of_reachable Nat.one_pos (hr.mono fun _ _ => Cooperative.obeys).reachable

theorem coopInv_of_run (hr : (machine 1 ⟨0⟩).Run Cooperative h s) : CoopInv s := by
  induction hr with
  | init => exact State.init_coopInv
  | step hr o hs ih =>
    obtain rfl | rfl | ht := State.step_cases hs
    · exact ⟨ih.task, ih.pending, ih.point, ih.saved⟩
    · exact ⟨ih.task, ih.pending, ih.point, ih.saved⟩
    · exact ih.step (inv_of_cooperative hr) o hs ht

/-- An event that stops the run makes no call and gives control to no thread. -/
theorem State.quiet_of_halt (hr : (machine 1 ⟨0⟩).Run Cooperative h s) (hs : s.step ⟨0⟩ e = some s')
    (hh : s'.halt ≠ none) : s.fcfsCall e = none ∧ s.dispatches e = none := by
  have hhalt := State.halt_of_step hs
  obtain ⟨k, i⟩ := e
  obtain rfl : k = 0 := Subsingleton.elim k 0
  cases i with
  | call c =>
    simp only [State.step, hhalt, if_true] at hs
    split at hs
    · next p r hc =>
      have hfreed : s.infoFreed = false := by
        by_contra hf
        obtain h | ⟨y, h⟩ := (freedInv_of_run hr).freed (by simpa using hf) 0 <;> simp [hc] at h
      simp only [State.stepCall, inited_of_run hr hfreed, if_true] at hs
      exact absurd (Option.some.inj hs ▸ hhalt) hh
    · cases hs
  | run f =>
    refine ⟨rfl, ?_⟩
    simp only [State.step, hhalt, if_true, State.stepRun] at hs
    simp only [State.dispatches]
    split
    · next q hc =>
      obtain ⟨x, c, hx, hctx, -, -⟩ := (inv_of_cooperative hr).context_of_dispSet hc
      simp only [hc, State.stepSchedule, State.withTcb, hx, hctx, Option.some.injEq] at hs
      exact absurd (hs ▸ hhalt) hh
    · rfl
  | tick => exact ⟨rfl, rfl⟩
  | deliver => exact ⟨rfl, rfl⟩

/-- A run of the machine makes the same calls as one of the library, and gives control to the same threads. A
call that has not taken effect is still to be made. -/
structure Follows (h : List (State 1 × Event 1)) (s : State 1)
    (l : List (Fcfs Ptr SemId × FcfsEvent Ptr SemId)) (a : Fcfs Ptr SemId) : Prop where
  run : (fcfs mainTcb).Run (fun _ _ => True) l a
  calls : calls h = fcfsCalls l ++ (s.pendingCall a).toList
  dispatches : dispatches h = fcfsDispatches l
  agrees : Agrees s a

theorem calls_cons : calls ((s, e) :: h) = calls h ++ (s.fcfsCall e).toList := by
  cases hc : s.fcfsCall e <;> simp [calls, hc]

theorem dispatches_cons : dispatches ((s, e) :: h) = dispatches h ++ (s.dispatches e).toList := by
  cases hd : s.dispatches e <;> simp [dispatches, hd]

theorem dispatches_append : dispatches (h' ++ h) = dispatches h ++ dispatches h' := by
  simp [dispatches, List.filterMap_append]

/-- At first `main` runs, and nothing has been called. -/
theorem Follows.init : Follows [] (State.init 1 ⟨0⟩) [] (fcfs mainTcb).init where
  run := .init
  calls := rfl
  dispatches := rfl
  agrees := by
    have hact : (State.init 1 ⟨0⟩).activity = .runs mainTcb none := rfl
    constructor
    case running => rfl
    case ready =>
      rw [State.readyList, hact]
      rfl
    case waiters =>
      intro i
      rw [State.waitersOf, hact]
      rfl
    case counter => exact fun i => rfl
    case joiner =>
      intro q st _ _
      rw [State.joinersOf, hact, State.init_joinQueue]
      rfl
    case finished =>
      intro q st hst
      by_cases hq : q = mainTcb
      · obtain rfl : ThreadState.running = st := by simpa [State.stateOf, State.init_heap, hq] using hst
        simp [fcfs]
      · simp [State.stateOf, State.init_heap, hq] at hst
    case point =>
      intro p pc hc
      obtain ⟨rfl, rfl⟩ : mainTcb = p ∧ Pc.init 0 = pc := by simpa [State.init] using hc
      rfl
    case saved =>
      intro q c hq
      cases (State.init_context q).symm.trans hq
    case zero =>
      intro p pc i hc hz
      obtain ⟨rfl, rfl⟩ : mainTcb = p ∧ Pc.init 0 = pc := by simpa [State.init] using hc
      cases hz

/-- What the machine does along with one step of the library. -/
theorem Follows.step (F : Follows h s l a) (hr : (machine 1 ⟨0⟩).Run Cooperative h s) (o : Cooperative s e)
    (hs : s.step ⟨0⟩ e = some s') : ∃ l' a', Follows ((s, e) :: h) s' (l' ++ l) a' := by
  have hstop {y : Halt} (hy : s' = { s with halt := some y }) : Follows ((s, e) :: h) s' l a := by
    obtain ⟨hcall, hdisp⟩ := State.quiet_of_halt hr hs (by simp [hy])
    subst hy
    refine ⟨F.run, ?_, ?_, ⟨F.agrees.running, F.agrees.ready, F.agrees.waiters, F.agrees.counter,
      F.agrees.joiner, F.agrees.finished, F.agrees.point, F.agrees.saved, F.agrees.zero⟩⟩
    · rw [calls_cons, hcall, F.calls, Option.toList_none, List.append_nil]
      rfl
    · simp [dispatches_cons, hdisp, F.dispatches]
  obtain hs' | hs' | ht := State.step_cases hs
  · exact ⟨[], a, hstop hs'⟩
  · exact ⟨[], a, hstop hs'⟩
  have hr' := hr.step o hs
  obtain ⟨a', ev, S⟩ := F.agrees.step (inv_of_cooperative hr) (coopInv_of_run hr) (coopInv_of_run hr') o hs ht
  cases ev with
  | none =>
    obtain rfl : a = a' := Option.some.inj S.step
    refine ⟨[], a, F.run, ?_, ?_, S.agrees⟩
    · rw [calls_cons, F.calls, List.append_assoc, S.calls]
      rfl
    · rw [dispatches_cons, F.dispatches, S.dispatches]
      simp
  | some ev =>
    refine ⟨[(a, ev)], a', F.run.step trivial S.step, ?_, ?_, S.agrees⟩
    · rw [calls_cons, F.calls, List.append_assoc, S.calls, List.singleton_append, fcfsCalls_cons, List.append_assoc]
      rfl
    · rw [dispatches_cons, F.dispatches, S.dispatches, List.singleton_append, fcfsDispatches_cons]
      rfl

/-- A run of the machine that goes along with one of the library is continued with it. -/
theorem Follows.extend (F : Follows h s l a) (hr : (machine 1 ⟨0⟩).Run Cooperative h s)
    (hr' : (machine 1 ⟨0⟩).Run Cooperative (h' ++ h) s') : ∃ l' a', Follows (h' ++ h) s' (l' ++ l) a' := by
  induction h' generalizing s' with
  | nil =>
    obtain rfl := hr.state_unique hr'
    exact ⟨[], a, F⟩
  | cons x h' ih =>
    cases hr' with
    | step hr' o hs =>
      obtain ⟨l', a', F'⟩ := ih hr'
      obtain ⟨l'', a'', F''⟩ := F'.step hr' o hs
      exact ⟨l'' ++ l', a'', by rwa [List.append_assoc]⟩

/-! ### The ready queue -/

/-- A thread that has left is carried, or no thread is. -/
theorem KThread.leaving_cases (x : KThread) (p : Ptr) : x.leaving p = .appends p ∨ x.leaving p = .exits p ∨
    (∀ f, (x.leaving p).back f = []) ∧ (x.leaving p).front = [] := by
  unfold KThread.leaving
  split
  · exact .inl rfl
  · exact .inr (.inl rfl)
  · split <;> exact .inr (.inr ⟨fun _ => rfl, rfl⟩)
  · split <;> exact .inr (.inr ⟨fun _ => rfl, rfl⟩)
  · exact .inr (.inr ⟨fun _ => rfl, rfl⟩)
  · exact .inr (.inr ⟨fun _ => rfl, rfl⟩)

/-- Where the threads are that are under way to the ready queue. -/
inductive Carries (x : KThread) (tcbs : Tid → Option Ptr) : Activity → Prop
  | hand (p : Ptr) : Carries x tcbs (.runs p x.hand)
  | appends {p : Ptr} (h : x.exec tcbs = some p) : Carries x tcbs (.appends p)
  | exits (p : Ptr) : Carries x tcbs (.exits p)
  | takes {q : Ptr} (h : x.exec tcbs = some q) : Carries x tcbs (.takes q)
  | other {A : Activity} (hf : A.front = []) (hb : ∀ f, A.back f = []) : Carries x tcbs A

theorem KThread.carries_leaving (h : x.exec tcbs = some p) : Carries x tcbs (x.leaving p) := by
  obtain hl | hl | ⟨hb, hf⟩ := x.leaving_cases p
  · exact hl ▸ .appends h
  · exact hl ▸ .exits p
  · exact .other hf hb

theorem KThread.carries (x : KThread) (tcbs : Tid → Option Ptr) : Carries x tcbs (x.activity tcbs) := by
  unfold KThread.activity
  split
  · next p pc hc =>
    split
    · exact KThread.carries_leaving (by simp [KThread.exec, hc])
    · have hhand : x.hand = pc.hand := by simp [KThread.hand, hc, Ctl.pc?]
      exact hhand ▸ .hand p
  · split
    · next h => exact KThread.carries_leaving h
    · exact .other rfl fun _ => rfl
  all_goals first
    | exact KThread.carries_leaving (by simp [KThread.exec, SchedPc.moving, *])
    | exact .appends (by simp [KThread.exec, SchedPc.moving, *])
    | exact .takes (by simp [KThread.exec, SchedPc.moving, Entry.ptr?, *])
    | exact .other rfl fun _ => rfl

/-- A thread waits for control in one place. -/
theorem State.readyList_nodup (I : Inv s) : s.readyList.Nodup := by
  have hready : (s.holds .ready).Nodup := I.place.excl.nodup .ready
  have hone {c : Place 1} {t : List Ptr} (hc : c ≠ .ready) (ht : t = s.holds c) :
      (s.rqueue.filterMap Entry.ptr?).Disjoint t := by
    intro q hq hq'
    exact I.place.excl.notMem_of_ne (ht ▸ hq') hc.symm hq
  have hexec {q : Ptr} (h : s.exec 0 = some q) : [q] = s.holds (.exec 0) := by simp [State.holds, h]
  have hA := (s.kt 0).carries s.tcbs
  unfold State.readyList State.activity
  generalize (s.kt 0).activity s.tcbs = A at hA
  cases hA with
  | hand p =>
    exact hready.append (I.place.excl.nodup (.hand 0)) (hone (c := .hand 0) (by simp) rfl)
  | appends h =>
    exact hready.append (List.nodup_singleton _) (hone (c := .exec 0) (by simp) (hexec h))
  | exits p =>
    exact hready.append (I.place.excl.nodup (.joinq p)) (hone (c := .joinq p) (by simp) rfl)
  | @takes q h =>
    have hdisj := List.Disjoint.symm (hone (c := .exec 0) (by simp) (hexec h))
    show ([q] ++ _ ++ []).Nodup
    rw [List.append_nil]
    exact (List.nodup_singleton _).append hready hdisj
  | other hf hb =>
    rw [hf, hb, List.nil_append, List.append_nil]
    exact hready
/-! ### The main result -/

/-- With one kernel thread and without preemption, in every run of a program that obeys the documented
preconditions and does not tear the library down: there is a run of the machine that makes the same calls, with
the exception of one that has been made and has not taken effect, and `schedule` has given control to the
threads in its order. In user code the two have the same running thread, the same queues and the same counters.
Every run of the machine with the same calls has this order, as far as it goes. A thread at position `k` of the
ready queue is given control after exactly `k` others, however the run goes on. -/
theorem fcfs_refinement (hr : (machine 1 ⟨0⟩).Run Cooperative h s) :
    ∃ l a, (fcfs mainTcb).Run (fun _ _ => True) l a ∧ fcfsDispatches l = dispatches h ∧
      calls h = fcfsCalls l ++ (s.pendingCall a).toList ∧ a.ready = s.readyList ∧
      (∀ p r, (s.kt 0).ctl = .thread p (.user r) → calls h = fcfsCalls l ∧ a.running = some p ∧
        a.ready = s.rqueue.filterMap Entry.ptr? ∧ ∀ i, a.waiters i = s.semQueue i ∧
        a.counter i = (s.sems i).map (·.counter)) ∧
      (∀ l' a', (fcfs mainTcb).Run (fun _ _ => True) l' a' → fcfsCalls l' = calls h →
        fcfsDispatches l' <+: dispatches h ∨ dispatches h <+: fcfsDispatches l') ∧
      ∀ k q, s.readyList[k]? = some q → ∀ h' s', (machine 1 ⟨0⟩).Run Cooperative (h' ++ h) s' →
        k < (dispatches h').length → (dispatches h')[k]? = some q ∧ q ∉ (dispatches h').take k := by
  obtain ⟨l, a, F⟩ : ∃ l a, Follows h s l a := by
    have hnil : (machine 1 ⟨0⟩).Run Cooperative (h ++ []) s := by rwa [List.append_nil]
    obtain ⟨l, a, F⟩ := Follows.init.extend .init hnil
    exact ⟨l, a, by simpa using F⟩
  refine ⟨l, a, F.run, F.dispatches.symm, F.calls, F.agrees.ready, fun p r hc => ?_, fun l' a' hr' hcalls => ?_,
    fun k q hk h' s' hr' hlen => ?_⟩
  · have hact := State.activity_runs hc rfl
    have hpending : s.pendingCall a = none := by
      simp [State.pendingCall_thread hc, Pc.todo]
    refine ⟨by simp [F.calls, hpending], by rw [F.agrees.running, hact]; rfl, ?_, fun i => ⟨?_, F.agrees.counter i⟩⟩
    · rw [F.agrees.ready, State.readyList, hact]
      simp [Activity.front, Activity.back, Pc.hand]
    · rw [F.agrees.waiters, State.waitersOf, hact]
      simp [Activity.parked]
  · rw [F.dispatches]
    rcases fcfs_comparable F.run hr' ⟨_, by rw [hcalls, F.calls]⟩ with ⟨u, rfl⟩ | ⟨u, rfl⟩
    · exact .inr (by simp [fcfsDispatches_append])
    · exact .inl (by simp [fcfsDispatches_append])
  · obtain ⟨l', a', F'⟩ := F.extend hr hr'
    have hdisp : dispatches h' = fcfsDispatches l' := by
      have happ := F'.dispatches
      rwa [dispatches_append, fcfsDispatches_append, F.dispatches, List.append_cancel_left_eq] at happ
    rw [← F.agrees.ready] at hk
    rw [hdisp] at hlen ⊢
    have hnodup : a.ready.Nodup := F.agrees.ready ▸ State.readyList_nodup (inv_of_cooperative hr)
    exact ⟨fcfs_dispatch_position F'.run F.run hk hlen, fcfs_not_dispatched_before F'.run F.run hnodup hk hlen⟩

/-- `main` has created two threads and yields, and then the first of them yields. -/
theorem fcfs_refinement_yield : ∃ (h h' : List (State 1 × Event 1)) (s s' : State 1),
    (machine 1 ⟨0⟩).Run Cooperative h s ∧ (machine 1 ⟨0⟩).Run Cooperative (h' ++ h) s' ∧
      s.readyList = [1, 2] ∧ dispatches h' = [1, 2] ∧ (dispatches h')[1]? = some 2 ∧
      2 ∉ (dispatches h').take 1 ∧ ∃ l a, (fcfs mainTcb).Run (fun _ _ => True) l a ∧
        fcfsDispatches l = dispatches h ∧ calls h = fcfsCalls l ∧ a.ready = [1, 2] := by
  obtain ⟨h, s, hr, hs⟩ := EventMachine.exists_run_of_exec (M := machine 1 ⟨0⟩) (P := Cooperative)
    (runs 0 2 ++ [(0, .call (.op (.create false)))] ++ runs 0 12 ++ [(0, .call (.op (.create false)))] ++
      runs 0 12)
    (p := fun x => x.2.readyList = [1, 2] ∧ dispatches x.1 = [] ∧ (x.2.kt 0).ctl = .thread 0 (.user (.created 2 0)) ∧
      ((machine 1 ⟨0⟩).exec Cooperative x.1 x.2
        ([(0, .call .yield)] ++ runs 0 24 ++ [(0, .call .yield)] ++ runs 0 24)).any
          (fun y => dispatches y.1 = [1, 2]) = true) (by decide +kernel)
  obtain ⟨hready, hnone, hc, hany⟩ := of_decide_eq_true hs
  obtain ⟨y, hy, hdisp⟩ := (Option.any_eq_true _ _).mp hany
  obtain ⟨h', hh'⟩ := EventMachine.exec_suffix hy
  have hr' := hh' ▸ hr.exec hy
  have hdisp' : dispatches h' = [1, 2] := by
    have hall : dispatches y.1 = [1, 2] := of_decide_eq_true hdisp
    rwa [← hh', dispatches_append, hnone, List.nil_append] at hall
  obtain ⟨l, a, hl, hd, -, ha, huser, -, hpos⟩ := fcfs_refinement hr
  obtain ⟨hk, htake⟩ := hpos 1 2 (by rw [hready]; rfl) h' y.2 hr' (by simp [hdisp'])
  exact ⟨h, h', s, y.2, hr, hr', hready, hdisp', hk, htake, l, a, hl, hd, (huser 0 (.created 2 0) hc).1, ha.trans hready⟩

end Uthread
