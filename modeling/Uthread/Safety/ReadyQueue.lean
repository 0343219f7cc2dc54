import Mathlib.Algebra.BigOperators.Fin
import Mathlib.Algebra.Order.BigOperators.Group.Finset
import Uthread.Invariant.Reachable

/-!
# The ready queue and its semaphore

`ready_enqueue` inserts an entry and then posts `not_empty`, `ready_dequeue` waits for `not_empty` and
then removes an entry, and each does so outside one common lock. The length of the queue is the value of
the semaphore together with the entries that are inserted and not yet posted and those that a dequeuer
has claimed and not yet removed. So a dequeuer that has passed the semaphore finds an entry, and the
entries leave the queue in the order in which they came.

## Main definitions

* `State.inserted`, `State.claimed`: the operations that are under way.
* `enqueued`, `dequeued`: the entries that have been inserted and removed in a history.

## Main results

* `ready_queue_agrees`.
-/

namespace Uthread

variable {n : ℕ} {cfg : Config} {s s' : State n} {e : Event n} {k : Fin n}
  {h : List (State n × Event n)} {P : State n → Event n → Prop}

/-! ### Operations under way -/

/-- Whether an enqueuer at this point of `ready_enqueue` has inserted its entry and not yet posted. -/
def EnqPc.owes : EnqPc → ℕ
  | .unlock | .post => 1
  | .lock | .insert => 0

/-- Whether a kernel thread has inserted an entry that it has not yet posted. -/
def Ctl.inserted : Ctl → ℕ
  | .thread _ (.create _ (.enq _ _ x)) | .thread _ (.post _ (.enq _ x))
  | .thread _ (.teardown (.enq _ x)) | .sched (.enq _ x) => x.owes
  | _ => 0

/-- Whether a kernel thread has passed the wait of `ready_dequeue` and not yet removed its entry. -/
def Ctl.claimed : Ctl → ℕ
  | .sched .deqLock | .sched .deqRemove => 1
  | _ => 0

namespace State

/-- The number of enqueuers that have inserted their entry and not yet posted. -/
def inserted (s : State n) : ℕ := ∑ k, (s.kt k).ctl.inserted

/-- The number of dequeuers that have passed the wait and not yet removed an entry. -/
def claimed (s : State n) : ℕ := ∑ k, (s.kt k).ctl.claimed

/-- The entry that an event inserts into the ready queue. -/
def enqueues (s : State n) : Event n → Option Entry
  | (k, .run fail) =>
    if fail = some .node then none
    else
      match (s.kt k).ctl with
      | .thread _ (.create _ (.enq _ q .insert)) | .thread _ (.post _ (.enq q .insert))
      | .sched (.enq q .insert) => some (.tcb q)
      | .thread _ (.teardown (.enq _ .insert)) => some .exitall
      | _ => none
  | _ => none

/-- The entry that an event removes from the ready queue. -/
def dequeues (s : State n) : Event n → Option Entry
  | (k, .run _) =>
    match (s.kt k).ctl with
    | .sched .deqRemove => s.rqueue.head?
    | _ => none
  | _ => none

end State

/-- The entries inserted in a history, the first one first. -/
def enqueued (h : List (State n × Event n)) : List Entry :=
  (h.filterMap fun x => x.1.enqueues x.2).reverse

/-- The entries removed in a history, the first one first. -/
def dequeued (h : List (State n × Event n)) : List Entry :=
  (h.filterMap fun x => x.1.dequeues x.2).reverse

/-- A step changes one term of a sum over the kernel threads. -/
theorem Trans.sum_kt (h : Trans cfg s e s') (f : KThread → ℕ) :
    ∑ k, f (s'.kt k) + f (s.kt e.1) = ∑ k, f (s.kt k) + f (s'.kt e.1) := by
  rw [← Finset.add_sum_erase _ _ (Finset.mem_univ e.1),
    ← Finset.add_sum_erase _ (fun k => f (s.kt k)) (Finset.mem_univ e.1)]
  have : ∑ k ∈ Finset.univ.erase e.1, f (s'.kt k) = ∑ k ∈ Finset.univ.erase e.1, f (s.kt k) :=
    Finset.sum_congr rfl fun k hk => by rw [h.kt_of_ne (Finset.ne_of_mem_erase hk)]
  omega

theorem Trans.sum_ctl (h : Trans cfg s e s') (f : Ctl → ℕ) :
    ∑ k, f (s'.kt k).ctl + f (s.kt e.1).ctl = ∑ k, f (s.kt k).ctl + f (s'.kt e.1).ctl :=
  h.sum_kt fun x => f x.ctl

/-- What a step does to the ready queue and its semaphore. -/
inductive QueueAct (s : State n) (e : Event n) (s' : State n) : Prop
  | frame (he : s.enqueues e = none) (hd : s.dequeues e = none) (hq : s'.rqueue = s.rqueue)
      (hn : s'.notEmpty = s.notEmpty) (hi : (s'.kt e.1).ctl.inserted = (s.kt e.1).ctl.inserted)
      (hc : (s'.kt e.1).ctl.claimed = (s.kt e.1).ctl.claimed)
  | insert {en} (he : s.enqueues e = some en) (hd : s.dequeues e = none)
      (hq : s'.rqueue = s.rqueue ++ [en]) (hn : s'.notEmpty = s.notEmpty)
      (hi : (s'.kt e.1).ctl.inserted = (s.kt e.1).ctl.inserted + 1)
      (hc : (s'.kt e.1).ctl.claimed = (s.kt e.1).ctl.claimed)
  | post (he : s.enqueues e = none) (hd : s.dequeues e = none) (hq : s'.rqueue = s.rqueue)
      (hn : s'.notEmpty = s.notEmpty + 1)
      (hi : (s.kt e.1).ctl.inserted = (s'.kt e.1).ctl.inserted + 1)
      (hc : (s'.kt e.1).ctl.claimed = (s.kt e.1).ctl.claimed)
  | wait (he : s.enqueues e = none) (hd : s.dequeues e = none) (hq : s'.rqueue = s.rqueue)
      (hn : s.notEmpty = s'.notEmpty + 1)
      (hi : (s'.kt e.1).ctl.inserted = (s.kt e.1).ctl.inserted)
      (hc : (s'.kt e.1).ctl.claimed = (s.kt e.1).ctl.claimed + 1)
  | remove {en} (he : s.enqueues e = none) (hd : s.dequeues e = some en)
      (hq : s.rqueue = en :: s'.rqueue) (hn : s'.notEmpty = s.notEmpty)
      (hi : (s'.kt e.1).ctl.inserted = (s.kt e.1).ctl.inserted)
      (hc : (s.kt e.1).ctl.claimed = (s'.kt e.1).ctl.claimed + 1)
  | free (hf : s'.infoFreed = true)

theorem Op.start_inserted (o : Op) (p : Ptr) : (Ctl.thread p o.start).inserted = 0 := by
  cases o <;> rfl

theorem Resume.pc_inserted (r : Resume) (p : Ptr) : (Ctl.thread p r.pc).inserted = 0 := by
  cases r with
  | yielded o => cases o <;> first | rfl | exact Op.start_inserted _ _
  | _ => rfl

/-- An entry is inserted only if the allocation of its node succeeds. -/
theorem State.ne_node_of_inserts {f : Option AllocSite} {en : Entry} {c : Ctl}
    (hs : s.step cfg (k, .run f) = some s') (hh : s'.halt = none)
    (hi : Inserts (s.kt k).ctl en c) : f ≠ some .node := by
  rintro rfl
  have hhalt := State.halt_of_step hs
  generalize hc : (s.kt k).ctl = x at hi
  cases hi <;>
    · simp [State.step, hhalt, State.stepRun, hc, State.stepThread, State.stepCreate, State.stepPost,
        State.stepTeardown, State.stepSchedule, State.readyEnqueue] at hs
      simp [← hs, State.abort] at hh

theorem Inserts.queueAct {f : Option AllocSite} {en : Entry} {c : Ctl}
    (hi : Inserts (s.kt k).ctl en c) (hf : f ≠ some .node) :
    QueueAct s (k, .run f) ({ s with rqueue := s.rqueue ++ [en] }.goto k c) := by
  generalize hc : (s.kt k).ctl = x at hi
  cases hi <;>
    exact .insert (by simp [State.enqueues, hc, hf]) (by simp [State.dequeues, hc]) rfl rfl
      (by simp [State.goto, hc, Ctl.inserted, EnqPc.owes]) (by simp [State.goto, hc, Ctl.claimed])

theorem Trans.queueAct (h : Trans cfg s e s')
    (hf : ∀ f en c, e.2 = .run f → Inserts (s.kt e.1).ctl en c → f ≠ some .node) :
    QueueAct s e s' := by
  cases h with
  | @call k c p r hc =>
    refine .frame rfl rfl rfl rfl ?_ ?_ <;>
      · rw [hc]
        cases c with
        | op o => cases o <;> simp [Call.enter, Ctl.inserted, Ctl.claimed]
        | _ => simp [Call.enter, Ctl.inserted, Ctl.claimed]
  | tick => exact .frame rfl rfl rfl rfl (by simp) (by simp)
  | deliver => exact .frame rfl rfl rfl rfl (by simp) (by simp)
  | insert h => exact h.queueAct (hf _ _ _ rfl h)
  | acquire h =>
    generalize hc : (s.kt _).ctl = x at h
    cases h <;>
      exact .frame (by simp [State.enqueues, hc]) (by simp [State.dequeues, hc]) rfl rfl
        (by simp [State.goto, hc, Ctl.inserted, EnqPc.owes]) (by simp [State.goto, hc, Ctl.claimed])
  | release h =>
    cases h with
    | _ hc =>
      exact .frame (by simp [State.enqueues, hc]) (by simp [State.dequeues, hc]) rfl rfl
        (by simp [State.goto, hc, Ctl.inserted, EnqPc.owes]) (by simp [State.goto, hc, Ctl.claimed])
  | quiet h =>
    cases h with
    | @start p o hc =>
      refine .frame (by simp [State.enqueues, hc]) (by simp [State.dequeues, hc]) rfl rfl ?_ ?_ <;>
        cases o <;> simp [hc, Op.start, Ctl.inserted, Ctl.claimed]
    | _ hc =>
      exact .frame (by simp [State.enqueues, hc]) (by simp [State.dequeues, hc]) rfl rfl
        (by simp [hc, Ctl.inserted, EnqPc.owes]) (by simp [hc, Ctl.claimed])
  | signal h =>
    cases h with
    | createPost hc | postPost hc | teardownPost hc | schedPost hc =>
      exact .post (by simp [State.enqueues, hc]) (by simp [State.dequeues, hc]) rfl rfl
        (by simp [State.goto, hc, Ctl.inserted, EnqPc.owes]) (by simp [State.goto, hc, Ctl.claimed])
    | deqWait hc h0 =>
      exact .wait (by simp [State.enqueues, hc]) (by simp [State.dequeues, hc]) rfl
        (Nat.sub_add_cancel h0).symm (by simp [State.goto, hc, Ctl.inserted])
        (by simp [State.goto, hc, Ctl.claimed])
    | _ hc =>
      exact .frame (by simp [State.enqueues, hc]) (by simp [State.dequeues, hc]) rfl rfl
        (by simp [State.goto, hc, Ctl.inserted]) (by simp [State.goto, hc, Ctl.claimed])
  | entry hc hcur h =>
    generalize hta : (s.kt _).task = ta at h
    cases h <;>
      exact .frame (by simp [State.enqueues, hc]) (by simp [State.dequeues, hc]) rfl rfl
        (by simp [hc, Ctl.inserted, EnqPc.owes]) (by simp [hc, Ctl.claimed])
  | parkJoin h | parkSem h =>
    generalize hc : (s.kt _).ctl = x at h
    cases h <;>
      exact .frame (by simp [State.enqueues, hc]) (by simp [State.dequeues, hc]) rfl rfl
        (by simp [State.goto, hc, Ctl.inserted]) (by simp [State.goto, hc, Ctl.claimed])
  | deqRemove hc hq =>
    exact .remove (by simp [State.enqueues, hc]) (by simp [State.dequeues, hc, hq]) hq rfl
      (by simp [State.goto, hc, Ctl.inserted]) (by simp [State.goto, hc, Ctl.claimed])
  | dispSet hc hx hctx =>
    exact .frame (by simp [State.enqueues, hc]) (by simp [State.dequeues, hc]) rfl rfl
      (by simpa [hc, show (Ctl.sched (.dispSet _)).inserted = 0 from rfl] using
        Resume.pc_inserted _ _) (by simp [hc, Ctl.claimed])
  | teardownFree hc hq hx => exact .free rfl
  | _ hc =>
    exact .frame (by simp [State.enqueues, hc]) (by simp [State.dequeues, hc]) rfl rfl
      (by simp [State.goto, hc, Ctl.inserted, EnqPc.owes]) (by simp [State.goto, hc, Ctl.claimed])

/-! ### The invariant -/

/-- Until the queue is destroyed, its length is the value of the semaphore and the operations under way,
and it holds what has been inserted and not removed. -/
structure QueueInv (h : List (State n × Event n)) (s : State n) : Prop where
  size : s.infoFreed = false → s.rqueue.length = s.notEmpty + s.inserted + s.claimed
  order : s.infoFreed = false → enqueued h = dequeued h ++ s.rqueue

theorem Trans.infoFreed_mono (h : Trans cfg s e s') (hf : s'.infoFreed = false) :
    s.infoFreed = false := by
  cases h with
  | signal h => cases h <;> exact hf
  | teardownFree => cases hf
  | _ => exact hf

theorem QueueInv.step (Q : QueueInv h s) (ht : Trans cfg s e s') (ha : QueueAct s e s') :
    QueueInv ((s, e) :: h) s' := by
  have hsum := ht.sum_ctl Ctl.inserted
  have hsum' := ht.sum_ctl Ctl.claimed
  have hsize (hf : s'.infoFreed = false) := Q.size (ht.infoFreed_mono hf)
  have horder (hf : s'.infoFreed = false) := Q.order (ht.infoFreed_mono hf)
  simp only [State.inserted, State.claimed] at hsize
  cases ha with
  | frame he hd hq hn hi hc =>
    refine ⟨fun hf => ?_, fun hf => ?_⟩
    · have := hsize hf
      simp only [hq, hn, State.inserted, State.claimed]
      omega
    · simpa [enqueued, dequeued, he, hd, hq] using horder hf
  | insert he hd hq hn hi hc =>
    refine ⟨fun hf => ?_, fun hf => ?_⟩
    · have := hsize hf
      simp only [hq, hn, State.inserted, State.claimed, List.length_append, List.length_singleton]
      omega
    · have := horder hf
      simp only [enqueued, dequeued] at this ⊢
      simp [he, hd, hq, this]
  | post he hd hq hn hi hc | wait he hd hq hn hi hc =>
    refine ⟨fun hf => ?_, fun hf => ?_⟩
    · have := hsize hf
      simp only [hq, State.inserted, State.claimed]
      omega
    · simpa [enqueued, dequeued, he, hd, hq] using horder hf
  | remove he hd hq hn hi hc =>
    refine ⟨fun hf => ?_, fun hf => ?_⟩
    · have := hsize hf
      simp only [hq, hn, State.inserted, State.claimed, List.length_cons] at this ⊢
      omega
    · have := horder hf
      simp only [enqueued, dequeued] at this ⊢
      simp [he, hd, this, hq]
  | free hf => exact ⟨by simp [hf], by simp [hf]⟩

/-- A step that stops the run does nothing to the queue, as long as the queue agrees with its
semaphore. -/
theorem State.enqueues_of_halt (hs : s.step cfg e = some s') (hh : s'.halt ≠ none) :
    s.enqueues e = none := by
  have hhalt := State.halt_of_step hs
  obtain ⟨k, j⟩ := e
  cases j with
  | run f =>
    simp only [State.enqueues]
    split_ifs with hf
    · rfl
    · simp only [State.step, hhalt, if_true, State.stepRun] at hs
      split
      all_goals first
        | rfl
        | next hc =>
          simp only [hc, State.stepThread, State.stepCreate, State.stepPost, State.stepTeardown,
            State.stepSchedule, State.readyEnqueue, hf, if_false, Option.some.injEq] at hs
          exact absurd (hs ▸ hhalt) hh
  | _ => rfl

theorem State.dequeues_of_halt (hs : s.step cfg e = some s') (hh : s'.halt ≠ none) :
    s.dequeues e = none := by
  have hhalt := State.halt_of_step hs
  obtain ⟨k, j⟩ := e
  cases j with
  | run f =>
    simp only [State.step, hhalt, if_true, State.stepRun] at hs
    simp only [State.dequeues]
    split
    · next hc =>
      simp only [hc, State.stepSchedule] at hs
      split at hs
      · next hq => simp [hq]
      · exact absurd (Option.some.inj hs ▸ hhalt) hh
    · rfl
  | _ => rfl

theorem queueInv_of_run (hr : (machine n cfg).Run P h s) : QueueInv h s := by
  refine hr.history_invariant (I := QueueInv) ?_ ?_
  · refine ⟨fun _ => ?_, fun _ => rfl⟩
    have hzero (k : Fin n) : ((State.init n cfg).kt k).ctl.inserted = 0 ∧
        ((State.init n cfg).kt k).ctl.claimed = 0 := by
      obtain ⟨-, h⟩ | ⟨-, h⟩ := State.init_kt_cases n cfg k <;>
        simp [h, Ctl.inserted, Ctl.claimed]
    have hi : (machine n cfg).init.inserted = 0 := Finset.sum_eq_zero fun k _ => (hzero k).1
    have hc : (machine n cfg).init.claimed = 0 := Finset.sum_eq_zero fun k _ => (hzero k).2
    rw [hi, hc]
    rfl
  · intro h s e s' _ Q _ hs
    have hstop {y : Halt} (hy : s' = { s with halt := some y }) : QueueInv ((s, e) :: h) s' := by
      have he := State.enqueues_of_halt hs (by simp [hy])
      have hd := State.dequeues_of_halt hs (by simp [hy])
      subst hy
      exact ⟨Q.size, by simpa [enqueued, dequeued, he, hd] using Q.order⟩
    obtain hs' | hs' | ht := State.step_cases hs
    · exact hstop hs'
    · exact hstop hs'
    · refine Q.step ht (ht.queueAct fun f en c he hi => ?_)
      obtain ⟨k, j⟩ := e
      obtain rfl : j = .run f := he
      have hs : s.step cfg (k, .run f) = some s' := hs
      exact State.ne_node_of_inserts hs (ht.halt_eq.trans (State.halt_of_step hs)) hi

/-! ### The main result -/

/-- For any number of kernel threads, any program and any interleaving, as long as the ready queue
exists: its length is the value of `not_empty` plus the enqueuers that have inserted and not yet posted
plus the dequeuers that have passed the wait and not yet removed an entry. So a dequeuer that is about to
remove an entry finds one, a kernel thread waits for `not_empty` only while every entry is claimed or not
yet posted, and the entries that have been handed out, followed by those in the queue, are the entries that
have been inserted, in the same order. -/
theorem ready_queue_agrees (hr : (machine n cfg).Run P h s) (hf : s.infoFreed = false) :
    s.rqueue.length = s.notEmpty + s.inserted + s.claimed ∧
    (∀ k, (s.kt k).ctl = .sched .deqRemove → s.rqueue ≠ []) ∧
    (∀ k f, s.halt = none → (s.kt k).ctl = .sched .deqWait → s.step cfg (k, .run f) = none →
      s.rqueue.length = s.inserted + s.claimed) ∧
    dequeued h ++ s.rqueue = enqueued h ∧ dequeued h <+: enqueued h := by
  have Q := queueInv_of_run hr
  have hsize := Q.size hf
  have horder := Q.order hf
  refine ⟨hsize, fun k hk hnil => ?_, fun k f hhalt hk hstep => ?_, horder.symm,
    s.rqueue, horder.symm⟩
  · have hle : (s.kt k).ctl.claimed ≤ s.claimed :=
      Finset.single_le_sum (f := fun k => (s.kt k).ctl.claimed) (fun _ _ => Nat.zero_le _)
        (Finset.mem_univ k)
    simp only [hk, Ctl.claimed] at hle
    rw [hnil, List.length_nil] at hsize
    omega
  · simp only [State.step, hhalt, if_true, State.stepRun, hk, State.stepSchedule] at hstep
    split_ifs at hstep
    omega

/-- The main thread has inserted a new thread and not yet posted `not_empty`. -/
theorem ready_queue_agrees_inserted : ∃ (h : List (State 1 × Event 1)) (s : State 1),
    s.rqueue = [.tcb 1] ∧ s.notEmpty = 0 ∧ s.notEmpty + s.inserted + s.claimed = 1 ∧
      dequeued h ++ [.tcb 1] = enqueued h := by
  obtain ⟨h, s, hr, hs⟩ := EventMachine.exists_run_of_exec
    (M := machine 1 ⟨0⟩) (P := Obeys)
    (runs 0 2 ++ [(0, .call (.op (.create false)))] ++ runs 0 8)
    (p := fun x => x.2.rqueue = [.tcb 1] ∧ x.2.notEmpty = 0 ∧ x.2.infoFreed = false)
    (by decide +kernel)
  obtain ⟨hq, h0, hf⟩ : s.rqueue = [.tcb 1] ∧ s.notEmpty = 0 ∧ s.infoFreed = false :=
    of_decide_eq_true hs
  obtain ⟨hsize, -, -, horder, -⟩ := ready_queue_agrees hr hf
  exact ⟨h, s, hq, h0, by rw [← hsize, hq, List.length_singleton], hq ▸ horder⟩

end Uthread
