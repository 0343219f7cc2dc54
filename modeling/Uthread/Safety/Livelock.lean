import Uthread.Lib.Ledger
import Uthread.Safety.Quiescence
import Uthread.Safety.Stops

/-!
# No livelock

Every step of the library costs one unit. A call brings enough units for its own steps, and for an entry that it
puts into the ready queue. The entry pays for the steps of the scheduler that takes it and for those of the thread
that is resumed, up to the point at which that waits again or returns. So between the calls the library takes a
bounded number of steps only, in any interleaving. In particular a thread that is woken at a semaphore and finds
the counter at `0` is not woken again for nothing.

## Main definitions

* `KThread.cost`: what the next steps of a kernel thread cost.
* `State.potential`: the units that are left in a state.

## Main results

* `numSteps_le_of_calls`: the steps of a run are bounded by its calls.
* `comes_to_rest`: between calls the library comes to rest.
-/

namespace Uthread

variable {n : ℕ} {cfg : Config} {s s' : State n} {e : Event n} {k : Fin n} {p q : Ptr} {i : SemId}
  {h : List (State n × Event n)} {P : State n → Event n → Prop}

/-! ### What steps cost -/

/-- What an entry of the ready queue pays for. -/
def entryCost (n : ℕ) : ℕ := n + 22

/-- The cost of the rest of `ready_enqueue`, with the entry. -/
@[simp] def EnqPc.cost (n : ℕ) : EnqPc → ℕ
  | .lock => entryCost n + 4
  | .insert => entryCost n + 3
  | .unlock => entryCost n + 2
  | .post => entryCost n + 1

/-- The cost of the rest of `uthread_create`. -/
@[simp] def CreatePc.cost (n : ℕ) : CreatePc → ℕ
  | .bvLock => entryCost n + 11
  | .next => entryCost n + 10
  | .bvUnlock _ => entryCost n + 9
  | .lock _ => entryCost n + 8
  | .body _ => entryCost n + 7
  | .enq _ _ x => 2 + x.cost n
  | .unlock _ => 2
  | .ret _ _ => 1

/-- The cost of the rest of `uthread_sem_post`. -/
@[simp] def PostPc.cost (n : ℕ) : PostPc → ℕ
  | .lock => entryCost n + 11
  | .body => entryCost n + 10
  | .tcbLock _ => entryCost n + 9
  | .setReady _ => entryCost n + 8
  | .tcbUnlock _ => entryCost n + 7
  | .enq _ x => 2 + x.cost n
  | .unlock => 2
  | .ret => 1

/-- The cost of `uthread_sem_wait` up to its return or to the scheduler's wait after the thread was parked. -/
@[simp] def WaitPc.cost : WaitPc → ℕ
  | .lock => 11
  | .read => 10
  | .resumed _ => 11
  | .relock _ => 10
  | .test _ => 9
  | .tcbLock _ => 8
  | .park _ => 7
  | .dec => 3
  | .unlock => 2
  | .ret => 1

/-- The cost of `uthread_join` up to its return or to the scheduler's wait after the thread was parked. -/
@[simp] def JoinPc.cost : JoinPc → ℕ
  | .read => 10
  | .lock _ _ => 9
  | .test _ _ => 8
  | .resumed => 9
  | .relock => 8
  | .finish => 7
  | .unlock _ => 6
  | .bvLock _ => 5
  | .bvClear _ => 4
  | .bvUnlock _ => 3
  | .destroy _ => 2
  | .ret _ => 1

/-- The cost of the rest of `uthread_exit`, with the entry for a thread that waits to join. -/
@[simp] def ExitPc.cost (n : ℕ) : ExitPc → ℕ
  | .lock => entryCost n + 11
  | .body => entryCost n + 10
  | .switch => entryCost n + 9

/-- The cost of a call from the point after `check_preempted`. -/
@[simp] def Op.cost (n : ℕ) : Op → ℕ
  | .create _ | .exit _ | .semPost _ => entryCost n + 11
  | .join _ _ => 10
  | .semWait _ => 11
  | .semInit _ _ | .semDestroy _ => 2

/-- What a suspended thread has still to spend on a call that was interrupted at its start. -/
def Resume.cost (n : ℕ) : Resume → ℕ
  | .yielded (some o) => o.cost n
  | _ => 0

/-- The cost of the branch of `schedule` for a task. -/
@[simp] def SchedTask.cost (n : ℕ) : SchedTask → ℕ
  | .none => 2
  | .yield => entryCost n + 7
  | .exit | .teardown => entryCost n + 8
  | .join => 4
  | .semWait => 5

/-- The cost of the rest of `uthread_yield` up to the context switch. -/
@[simp] def YieldPc.cost : YieldPc → ℕ
  | .task => 3
  | .lock => 2
  | .body => 1

/-- The cost of the rest of `trampoline`. -/
@[simp] def TrampPc.cost : TrampPc → ℕ
  | .lock => 3
  | .check => 2
  | .unlock => 1

/-- The cost of `uthread_teardown` up to the context switch, and after it. -/
@[simp] def TeardownPc.cost (n : ℕ) : TeardownPc → ℕ
  | .loop j => entryCost n + 13 + (entryCost n + 5) * (n - j)
  | .enq j x => entryCost n + 13 + (entryCost n + 5) * (n - (j + 1)) + x.cost n
  | .task => entryCost n + 12
  | .lock => entryCost n + 11
  | .read => entryCost n + 10
  | .resumed => n + 5
  | .join j => 4 + (n - j)
  | .free => 3

/-- The cost of the next steps at a point of a user thread. -/
@[simp] def Pc.cost (n : ℕ) : Pc → ℕ
  | .init j => 2 + (n - j)
  | .initRet => 1
  | .user _ => 0
  | .preempt o => o.cost n + (entryCost n + 12)
  | .yield o x => (Resume.yielded o).cost n + (entryCost n + 8) + x.cost
  | .swap _ r => r.task.1.cost n + r.cost n + 1
  | .tramp x => x.cost
  | .exit _ x => x.cost n
  | .join _ _ x => x.cost
  | .create _ x => x.cost n
  | .semInit _ _ | .semDestroy _ => 2
  | .semRet => 1
  | .post _ x => x.cost n
  | .wait _ x => x.cost
  | .teardown x => x.cost n

/-- The cost of the next steps of `schedule` after its entry, up to its wait for the ready queue or to the context
switch. -/
@[simp] def SchedPc.cost (n : ℕ) : SchedPc → ℕ
  | .exitBody _ | .teardownBody _ => entryCost n + 7
  | .semBody _ => 4
  | .joinBody _ | .semUnlock => 3
  | .enq _ x => 2 + x.cost n
  | .unlockTcbs => 2
  | .reset => 1
  | .entry | .deqWait => 0
  | .deqLock => n + 21
  | .deqRemove => n + 20
  | .deqUnlock _ => n + 19
  | .next _ => n + 18
  | .exitWait j => 3 + j
  | .exitPost => 1
  | .dispLock _ => n + 17
  | .dispBody _ => n + 16
  | .dispUnlock _ => n + 15
  | .dispReady _ => n + 14
  | .dispSet _ => n + 13

/-- The cost of the end of `uthread_teardown`. -/
@[simp] def ClosingPc.cost : ClosingPc → ℕ
  | .unblock => 2
  | .inited => 1
  | .done => 0

/-- The cost of the next steps of a kernel thread. -/
def KThread.cost (n : ℕ) (x : KThread) : ℕ :=
  match x.ctl with
  | .kmain => 4
  | .kmainStart => 3
  | .thread _ pc => pc.cost n
  | .sched .entry => x.task.cost n
  | .sched pc => pc.cost n
  | .closing pc => pc.cost
  | .exited => 0

/-- The units that a step puts aside for the thread whose context it saves. -/
@[simp] def Ctl.saves (n : ℕ) : Ctl → ℕ
  | .thread _ (.swap _ r) => r.cost n
  | _ => 0

@[simp] theorem Resume.yielded_cost (o : Op) : (Resume.yielded (some o)).cost n = o.cost n := rfl

@[simp] theorem Resume.start_cost : Resume.start.cost n = 0 := rfl

theorem Op.start_cost (o : Op) : o.start.cost n = o.cost n := by cases o <;> rfl

/-- A resumed thread spends what was put aside for it, and what the entry of the ready queue has brought. -/
theorem Resume.pc_cost_le (r : Resume) : r.pc.cost n ≤ r.cost n + (n + 12) := by
  cases r with
  | yielded o =>
    cases o with
    | none => exact Nat.zero_le _
    | some o => exact (Op.start_cost o).trans_le (Nat.le_add_right _ _)
  | _ => simp only [Resume.pc, Pc.cost, TrampPc.cost, JoinPc.cost, WaitPc.cost, TeardownPc.cost, Resume.cost]; omega

theorem Op.cost_le (o : Op) : o.cost n ≤ entryCost n + 11 := by
  cases o <;> simp only [Op.cost, entryCost] <;> omega

/-- Every step of the library but the resumption of a thread costs one unit at least, besides what it puts aside. -/
theorem Trans.cost_lt {f : Option AllocSite} (ht : Trans cfg s e s') (he : e.2 = .run f) (hta : (s.kt e.1).TaskOk)
    (hd : ∀ q, (s.kt e.1).ctl ≠ .sched (.dispSet q)) :
    (s'.kt e.1).cost n + (s.kt e.1).ctl.saves n + entryCost n * s'.notEmpty + 1 ≤
      (s.kt e.1).cost n + entryCost n * s.notEmpty := by
  have hentry : entryCost n = n + 22 := rfl
  cases ht with
  | call | tick | deliver => cases he
  | acquire h | insert h =>
    generalize hc : (s.kt _).ctl = x at h
    cases h <;> simp [State.goto, State.setK, KThread.cost, hc] <;> omega
  | parkJoin h | parkSem h =>
    generalize hc : (s.kt _).ctl = x at h
    cases h <;> simp [State.goto, State.setK, State.setTcb, State.setSem, KThread.cost, hc] <;> omega
  | release h =>
    cases h with
    | _ hc =>
      simp [State.goto, State.setK, KThread.cost, hc]
      all_goals omega
  | @quiet k _ x h =>
    cases h with
    | @start p o hc =>
      cases o <;> simp [State.setK, KThread.cost, hc, Op.start] <;> omega
    | @teardownEnq p j hc hj =>
      have hsub : n - j = n - (j + 1) + 1 := by omega
      simp [State.setK, KThread.cost, hc, hsub, Nat.mul_succ]
      omega
    | kmainStart hc | entryNone hc | exitWaited hc =>
      have ht : (s.kt k).task = .none := by simp_all [KThread.TaskOk]
      simp [State.setK, KThread.block, KThread.cost, hc, ht]
      all_goals omega
    | _ hc =>
      simp [State.setK, KThread.cost, hc]
      all_goals omega
  | signal h =>
    cases h with
    | deqWait hc h0 =>
      obtain ⟨m, hm⟩ : ∃ m, s.notEmpty = m + 1 := ⟨s.notEmpty - 1, by omega⟩
      simp [State.goto, State.setK, KThread.cost, hc, hm, Nat.mul_succ]
      omega
    | _ hc =>
      simp [State.goto, State.setK, KThread.cost, hc, Nat.mul_succ]
      all_goals omega
  | @exitSwitch k f p v hc =>
    have ht : (s.kt k).task = .exit := by simp_all [KThread.TaskOk, Pc.task]
    simp [State.setK, KThread.cost, hc, ht]
    all_goals omega
  | @swap k f p c x r hc =>
    have ht : (s.kt k).task = r.task.1 := by
      simp only [KThread.TaskOk, hc] at hta
      cases r <;> simp_all [Pc.task, Resume.task]
    simp only [State.setK, State.setTcb, Function.update_self, KThread.cost, hc, ht, Pc.cost, Ctl.saves]
    omega
  | entry hc hcur h =>
    generalize ht : (s.kt _).task = x at h
    cases h <;> simp [State.setK, KThread.cost, hc, ht] <;> omega
  | dispSet hc => exact absurd hc (hd _)
  | _ hc =>
    simp [State.goto, State.setK, State.setTcb, State.setSem, KThread.cost, hc, Resume.task, Resume.cost]
    all_goals omega

/-! ### What is put aside for the suspended threads -/

/-- The units that are put aside for a thread. -/
def State.savedCost (s : State n) (q : Ptr) : ℕ := ((s.suspended q).map (Resume.cost n)).getD 0

theorem State.savedCost_of_context {o : Option (Option Ctx)} (h : s.context q = o) :
    s.savedCost q = ((o.bind fun c => c.map (·.resume)).map (Resume.cost n)).getD 0 := by
  rw [State.savedCost, State.suspended_eq_context, h]

theorem State.savedCost_eq_zero (h : s.heap q = none) : s.savedCost q = 0 :=
  State.savedCost_of_context (State.context_of_heap_eq_none h)

/-- The units that are put aside. -/
def State.savedTotal (s : State n) : ℕ := ∑ q ∈ Finset.range s.fresh, s.savedCost q

/-- Addresses that have not been allocated yet do not matter. -/
theorem Inv.savedTotal_eq (I : Inv s) {b : ℕ} (hb : s.fresh ≤ b) :
    s.savedTotal = ∑ q ∈ Finset.range b, s.savedCost q := by
  refine Finset.sum_subset (Finset.range_mono hb) fun q _ hq => ?_
  exact State.savedCost_eq_zero (I.place.bound q (by simpa using hq))

/-- A step that resumes no thread puts units aside for the thread whose context it saves only. -/
theorem Trans.savedCost_le (ht : Trans cfg s e s') (I : Inv s) (ha : AllocOk e)
    (hd : ∀ q, (s.kt e.1).ctl = .sched (.dispSet q) → (s'.kt e.1).ctl.thread? = none) (q : Ptr) :
    s'.savedCost q ≤ s.savedCost q +
      if (s.kt e.1).ctl.thread? = some q ∧ (s'.kt e.1).ctl = .sched .entry then (s.kt e.1).ctl.saves n else 0 := by
  cases ht.suspends I ha q with
  | same h =>
    rw [State.savedCost_of_context h, ← State.savedCost_of_context rfl]
    exact Nat.le_add_right _ _
  | saves hc hc' h => simp [State.savedCost_of_context h, hc, hc', Ctl.thread?]
  | resumes hc hc' => simp [hc', Ctl.thread?] at hd; exact absurd hc (hd q)
  | creates hc hq h => simp [State.savedCost_of_context h]
  | frees hc h => simp [State.savedCost_eq_zero (h q)]

theorem Trans.savedTotal_le (ht : Trans cfg s e s') (I : Inv s) (ha : AllocOk e)
    (hd : ∀ q, (s.kt e.1).ctl = .sched (.dispSet q) → (s'.kt e.1).ctl.thread? = none) :
    s'.savedTotal ≤ s.savedTotal + if (s'.kt e.1).ctl = .sched .entry then (s.kt e.1).ctl.saves n else 0 := by
  rw [I.savedTotal_eq ht.fresh_le]
  refine (Finset.sum_le_sum fun q _ => ht.savedCost_le I ha hd q).trans ?_
  rw [Finset.sum_add_distrib]
  refine Nat.add_le_add_left ?_ _
  by_cases hc : (s'.kt e.1).ctl = .sched .entry
  · cases hth : (s.kt e.1).ctl.thread? with
    | none => simp
    | some p =>
      simp only [Option.some.injEq, hc, and_true, if_true, Finset.sum_ite_eq]
      split
      · exact Nat.le_refl _
      · exact Nat.zero_le _
  · simp [hc]

/-- A scheduler that resumes a thread. -/
theorem Trans.resumes_of_run {f : Option AllocSite} (ht : Trans cfg s e s') (I : Inv s) (he : e.2 = .run f)
    (hc : (s.kt e.1).ctl = .sched (.dispSet q)) :
    s'.notEmpty = s.notEmpty ∧
      ∃ c : Ctx, s.context q = some (some c) ∧ (s'.kt e.1).ctl = .thread q c.resume.pc := by
  have hth : s'.notEmpty = s.notEmpty ∧ (s'.kt e.1).ctl.thread? ≠ none := by
    cases ht with
    | call | tick | deliver => cases he
    | acquire h | insert h | parkJoin h | parkSem h =>
      rw [hc] at h
      cases h
    | release h | quiet h | signal h => cases h <;> simp_all
    | dispSet hc hx hctx => simp [State.setK, Ctl.thread?]
    | _ hc' => simp [hc] at hc'
  obtain ⟨p, hp⟩ := Option.ne_none_iff_exists'.1 hth.2
  obtain ⟨-, h⟩ := ht.resumes I hc hp
  exact ⟨hth.1, h⟩

/-- The thread that is resumed takes what was put aside for it. -/
theorem Trans.savedTotal_resume (ht : Trans cfg s e s') (I : Inv s) (ha : AllocOk e)
    (hc : (s.kt e.1).ctl = .sched (.dispSet q)) {c : Ctx} (hctx : s.context q = some (some c))
    (hc' : (s'.kt e.1).ctl = .thread q c.resume.pc) :
    s'.savedTotal + c.resume.cost n ≤ s.savedTotal := by
  have hq : q < s'.fresh := by
    refine Nat.lt_of_lt_of_le ?_ ht.fresh_le
    by_contra hlt
    rw [State.context_of_heap_eq_none (I.place.bound q (Nat.le_of_not_lt hlt))] at hctx
    cases hctx
  have hle (q' : Ptr) : s'.savedCost q' + (if q = q' then c.resume.cost n else 0) ≤ s.savedCost q' := by
    by_cases hq' : q = q'
    · subst hq'
      have h0 : s'.savedCost q = 0 := by
        rw [State.savedCost, State.suspended_of_thread hc']
        rfl
      simp [h0, State.savedCost_of_context hctx]
    · cases ht.suspends I ha q' with
      | same h =>
        rw [if_neg hq', State.savedCost_of_context h, ← State.savedCost_of_context rfl]
        exact Nat.le_refl _
      | resumes hc₁ => simp_all
      | saves hc₁ | creates hc₁ | frees hc₁ => simp [hc] at hc₁
  have hsum := Finset.sum_le_sum fun q' (_ : q' ∈ Finset.range s'.fresh) => hle q'
  rw [Finset.sum_add_distrib, Finset.sum_ite_eq, if_pos (by simpa using hq)] at hsum
  rw [I.savedTotal_eq ht.fresh_le]
  exact hsum

/-! ### The potential -/

/-- The units that are left. The last one is for the step that ends the run. -/
def State.potential (s : State n) : ℕ :=
  ∑ k, (s.kt k).cost n + entryCost n * s.notEmpty + s.savedTotal + if s.halt = none then 1 else 0

/-- Every step of the library costs one unit. -/
theorem Trans.potential_lt {f : Option AllocSite} (ht : Trans cfg s e s') (I : Inv s) (ha : AllocOk e)
    (he : e.2 = .run f) (hh : s.halt = none) : s'.potential + 1 ≤ s.potential := by
  have hsum := ht.sum_kt (KThread.cost n)
  have hhalt : (if s'.halt = none then 1 else 0) ≤ 1 := by split <;> omega
  unfold State.potential
  rw [if_pos hh]
  by_cases hd : ∃ q, (s.kt e.1).ctl = .sched (.dispSet q)
  · obtain ⟨q, hc⟩ := hd
    obtain ⟨hne, c, hctx, hc'⟩ := ht.resumes_of_run I he hc
    have hsaved := ht.savedTotal_resume I ha hc hctx hc'
    have hcost := c.resume.pc_cost_le (n := n)
    have hk : (s.kt e.1).cost n = n + 13 := by simp [KThread.cost, hc]
    have hk' : (s'.kt e.1).cost n = c.resume.pc.cost n := by simp only [KThread.cost, hc']
    rw [hne]
    omega
  · have hd' : ∀ q, (s.kt e.1).ctl ≠ .sched (.dispSet q) := not_exists.1 hd
    have hlt := ht.cost_lt he (I.task e.1) hd'
    have hsaved := ht.savedTotal_le I ha fun q hc => absurd hc (hd' q)
    have hle : (if (s'.kt e.1).ctl = .sched .entry then (s.kt e.1).ctl.saves n else 0) ≤ (s.kt e.1).ctl.saves n := by
      split <;> omega
    omega

/-- What a call brings. -/
def callCost (n : ℕ) : ℕ := (entryCost n + 5) * n + (2 * entryCost n + 23)

/-- The event is a call of the library. -/
def Input.isCall : Input → Bool
  | .call _ => true
  | _ => false

/-- How many calls a history contains. -/
def numCalls (h : List (State n × Event n)) : ℕ := h.countP fun x => x.2.2.isCall

theorem Call.cost_enter_le (c : Call) (x : KThread) (p : Ptr) : (c.enter cfg x p).cost n ≤ callCost n := by
  unfold callCost
  cases c with
  | op o =>
    have ho := o.cost_le (n := n)
    have h : (Call.enter cfg x p (.op o)).cost n = o.cost n + (entryCost n + 12) := by cases o <;> rfl
    omega
  | yield | teardown | self =>
    simp [Call.enter, KThread.cost, KThread.block, Resume.cost]
    try omega

/-- Calls and signals put nothing aside. -/
theorem Trans.savedTotal_le_of_notRun (ht : Trans cfg s e s') (I : Inv s) (ha : AllocOk e) (he : e.2.isRun = false) :
    s'.savedTotal ≤ s.savedTotal := by
  have hctl : (s'.kt e.1).ctl = (s.kt e.1).ctl ∨ ∃ p r, (s.kt e.1).ctl = .thread p (.user r) := by
    cases ht with
    | call hc => exact .inr ⟨_, _, hc⟩
    | tick | deliver => exact .inl (by simp)
    | _ => cases he
  have hle := ht.savedTotal_le I ha fun q hc => by
    rcases hctl with h | ⟨p, r, h⟩
    · rw [h, hc]
      rfl
    · cases hc.symm.trans h
  refine hle.trans (Nat.le_of_eq ?_)
  split
  · next hc' =>
    rcases hctl with h | ⟨p, r, h⟩
    · rw [← h, hc']
      rfl
    · rw [h]
      rfl
  · rfl

/-- The other events cost nothing, and a call brings what it needs. -/
theorem Trans.potential_le (ht : Trans cfg s e s') (I : Inv s) (ha : AllocOk e) (he : e.2.isRun = false) :
    s'.potential ≤ s.potential + if e.2.isCall = true then callCost n else 0 := by
  have hsum := ht.sum_kt (KThread.cost n)
  have hsaved := ht.savedTotal_le_of_notRun I ha he
  have hcost : (s'.kt e.1).cost n ≤ (s.kt e.1).cost n + if e.2.isCall = true then callCost n else 0 := by
    cases ht with
    | @call k c p r hc =>
      have hle : (c.enter cfg (s.kt k) p).cost n ≤ callCost n := c.cost_enter_le (s.kt k) p
      simp [State.setK, Input.isCall]
      omega
    | tick | deliver => simp [State.setK, KThread.cost]
    | _ => cases he
  have hne : s'.notEmpty = s.notEmpty := by
    cases ht with
    | call | tick | deliver => rfl
    | _ => cases he
  unfold State.potential
  rw [ht.halt_eq, hne]
  omega

/-- The step that ends the run. -/
theorem State.potential_stop (hh : s.halt = none) (e : Event n) {x : Halt} (hs : s' = { s with halt := some x }) :
    (if e.2.isRun = true then 1 else 0) + s'.potential ≤ s.potential + if e.2.isCall = true then callCost n else 0 := by
  have hle : s'.potential + 1 = s.potential := by
    subst hs
    simp only [State.potential, hh]
    rfl
  split <;> omega

/-- A step of the machine. -/
theorem State.potential_step (hn : 0 < n) (hr : (machine n cfg).Run Obeys h s) (o : Obeys s e)
    (hs : s.step cfg e = some s') :
    (if e.2.isRun = true then 1 else 0) + s'.potential ≤
      s.potential + if e.2.isCall = true then callCost n else 0 := by
  have I := inv_of_reachable hn hr.reachable
  have hh := State.halt_of_step hs
  obtain rfl | rfl | ht := State.step_cases hs
  · exact State.potential_stop hh e rfl
  · exact State.potential_stop hh e rfl
  · by_cases he : e.2.isRun = true
    · obtain ⟨f, hf⟩ : ∃ f, e.2 = .run f := by
        obtain ⟨k, i⟩ := e
        cases i with
        | run f => exact ⟨f, rfl⟩
        | _ => cases he
      have hlt := ht.potential_lt I o.alloc hf hh
      simp [he]
      omega
    · have hle := ht.potential_le I o.alloc (Bool.eq_false_iff.2 he)
      simp [he]
      omega

theorem State.init_potential_le (hn : 0 < n) : (State.init n cfg).potential ≤ 5 * n + 1 := by
  have hk (k : Fin n) : ((State.init n cfg).kt k).cost n ≤ 4 + if k = ⟨0, hn⟩ then n else 0 := by
    obtain ⟨hk, h⟩ | ⟨hk, h⟩ := State.init_kt_cases n cfg k
    · rw [h, if_pos (Fin.ext hk)]
      simp [KThread.cost]
    · simp [h, KThread.cost]
  have hsum := Finset.sum_le_sum fun k (_ : k ∈ Finset.univ) => hk k
  have hsaved : (State.init n cfg).savedTotal = 0 := by
    refine Finset.sum_eq_zero fun q _ => ?_
    rw [State.savedCost, State.init_suspended hn]
    rfl
  rw [Finset.sum_add_distrib, Finset.sum_ite_eq', if_pos (Finset.mem_univ _), Finset.sum_const, Finset.card_univ,
    Fintype.card_fin, smul_eq_mul] at hsum
  have hne : (State.init n cfg).notEmpty = 0 := rfl
  have hhalt : (State.init n cfg).halt = none := rfl
  rw [State.potential, hsaved, hne, hhalt, if_pos rfl]
  omega

/-- The number of steps that the library takes is bounded by the number of calls, in every run: whatever the order
in which the kernel threads take their steps, however many threads there are and whenever the timer fires. So the
library never goes on for ever by itself. -/
theorem numSteps_le_of_calls (hn : 0 < n) (hr : (machine n cfg).Run Obeys h s) :
    numSteps h ≤ callCost n * numCalls h + (5 * n + 1) := by
  have hle := hr.total_le fun h s e s' hr o hs => State.potential_step hn hr o hs
  rw [EventMachine.total_ite, EventMachine.total_ite] at hle
  have hinit : (machine n cfg).init.potential ≤ 5 * n + 1 := State.init_potential_le hn
  unfold numSteps numCalls
  omega

/-- The main thread creates a thread and yields to it, and that waits at a semaphore. -/
theorem numSteps_le_of_calls_waiting : ∃ (h : List (State 1 × Event 1)) (s : State 1), (machine 1 ⟨0⟩).Run Obeys h s ∧
    numCalls h = 4 ∧ numSteps h = 63 ∧ numSteps h ≤ callCost 1 * numCalls h + (5 * 1 + 1) := by
  obtain ⟨h, s, hr, hs⟩ := EventMachine.exists_run_of_exec
    (M := machine 1 ⟨0⟩) (P := Obeys)
    (runs 0 2 ++ [(0, .call (.op (.semInit 0 0)))] ++ runs 0 3 ++
      [(0, .call (.op (.create false)))] ++ runs 0 12 ++
      [(0, .call .yield)] ++ runs 0 24 ++
      [(0, .call (.op (.semWait 0)))] ++ runs 0 22)
    (p := fun x => numCalls x.1 = 4 ∧ numSteps x.1 = 63) (by decide +kernel)
  obtain ⟨hc, hs⟩ : numCalls h = 4 ∧ numSteps h = 63 := of_decide_eq_true hs
  exact ⟨h, s, hr, hc, hs, numSteps_le_of_calls Nat.one_pos hr⟩

/-! ### Between calls -/

/-- Without calls, what is left is an upper bound of the steps that follow. -/
theorem State.numSteps_add_potential_le (hn : 0 < n) {h' : List (State n × Event n)}
    (hr' : (machine n cfg).Run Obeys (h' ++ h) s') (hr : (machine n cfg).Run Obeys h s)
    (hcall : ∀ x ∈ h', x.2.2.isCall = false) : numSteps h' + s'.potential ≤ s.potential := by
  induction h' generalizing s' with
  | nil =>
    obtain rfl := hr.state_unique hr'
    simp [numSteps]
  | cons x h' ih =>
    cases hr' with
    | @step _ s₁ _ e hr₁ o hs =>
      have hle := ih hr₁ fun y hy => hcall y (List.mem_cons_of_mem _ hy)
      have hlt := State.potential_step hn hr₁ o hs
      have hcount : numSteps ((s₁, e) :: h') = numSteps h' + if e.2.isRun = true then 1 else 0 := List.countP_cons
      have hno : e.2.isCall = false := hcall (s₁, e) List.mem_cons_self
      rw [hno] at hlt
      simp only [Bool.false_eq_true, if_false] at hlt
      omega

/-- In every state of a run, whatever the kernel threads do, the library takes a bounded number of steps only before
the next call. And its kernel threads can go on until the library is at rest or has been torn down, unless the
run stops or the next step is one that breaks a promise. -/
theorem comes_to_rest (hn : 0 < n) (hr : (machine n cfg).Run Obeys h s) :
    (∀ h' s', (machine n cfg).Run Obeys (h' ++ h) s' → (∀ x ∈ h', x.2.2.isCall = false) →
      numSteps h' ≤ s.potential) ∧
    ∃ h' s', (machine n cfg).Run Obeys (h' ++ h) s' ∧ (∀ x ∈ h', x.2.2 = .run none) ∧
      (s'.halt ≠ none ∨ s'.Rests ∨ s'.Ended ∨ ∃ k, ¬ Obeys s' (k, .run none)) := by
  refine ⟨fun h' s' hr' hcall => ?_, ?_⟩
  · have hle := State.numSteps_add_potential_le hn hr' hr hcall
    omega
  · -- by induction on what is left
    induction hm : s.potential using Nat.strong_induction_on generalizing h s with
    | _ m ih =>
      by_cases hstop : s.halt ≠ none ∨ ∃ k, ¬ Obeys s (k, .run none)
      · exact ⟨[], s, hr, by simp, hstop.imp_right fun h => .inr (.inr h)⟩
      obtain ⟨hh, hobeys⟩ := not_or.1 hstop
      have hh : s.halt = none := not_not.1 hh
      by_cases Q : s.Quiescent cfg
      · refine ⟨[], s, hr, by simp, .inr ?_⟩
        cases hf : s.infoFreed with
        | false => exact .inl (rests_of_quiescent hn hr Q hh hf)
        | true => exact .inr (.inl (ended_of_freed hn hr (Q.blocked hh) hf))
      · obtain ⟨k, hk⟩ := not_forall.1 Q
        obtain ⟨s₁, hs⟩ := Option.ne_none_iff_exists'.1 hk
        have o : Obeys s (k, .run none) := not_not.1 (not_exists.1 hobeys k)
        have hlt := State.potential_step hn hr o hs
        simp only [Input.isRun, Input.isCall, if_true, Bool.false_eq_true, if_false] at hlt
        obtain ⟨h', s', hr', hrun, hend⟩ := ih s₁.potential (by omega) (hr.step o hs) rfl
        refine ⟨h' ++ [(s, (k, .run none))], s', by simpa using hr', fun x hx => ?_, hend⟩
        rcases List.mem_append.1 hx with hx | hx
        · exact hrun x hx
        · rw [List.mem_singleton.1 hx]

/-- Two kernel threads from the beginning. -/
theorem comes_to_rest_init :
    (∀ h' s', (machine 2 ⟨0⟩).Run Obeys h' s' → (∀ x ∈ h', x.2.2.isCall = false) → numSteps h' ≤ 9) ∧
    ∃ h' s', (machine 2 ⟨0⟩).Run Obeys h' s' ∧ (∀ x ∈ h', x.2.2 = .run none) ∧
      (s'.halt ≠ none ∨ s'.Rests ∨ s'.Ended ∨ ∃ k, ¬ Obeys s' (k, .run none)) := by
  have hpot : (machine 2 ⟨0⟩).init.potential = 9 := by decide +kernel
  simpa only [List.append_nil, hpot] using comes_to_rest Nat.two_pos (.init : (machine 2 ⟨0⟩).Run Obeys [] _)

end Uthread
