import Uthread.Fcfs.Activity
import Uthread.Safety.Resume

/-!
# Runs without preemption and teardown

When there is no timer, `check_preempted` goes on with the call, so a thread yields only when it calls
`uthread_yield`; and in a program that does not call `uthread_teardown` no thread is inside it.

## Main definitions

* `CoopInv`: what does not occur.

## Main results

* `CoopInv.step`.
-/

namespace Uthread

variable {s s' : State 1} {e : Event 1} {a a' : Fcfs Ptr SemId} {p q : Ptr}

/-! ### No preemption and no teardown -/

/-- A point from which a thread continues without preemption and teardown. -/
def Resume.plain : Resume → Bool
  | .yielded o => o.isNone
  | .teardown => false
  | _ => true

/-- A point that a thread reaches without preemption and teardown. -/
def Pc.plain : Pc → Bool
  | .yield o _ => o.isNone
  | .swap _ r => r.plain
  | .teardown _ => false
  | _ => true

/-- No thread is preempted or tears the library down, and no signal is sent. -/
structure CoopInv (s : State 1) : Prop where
  task : (s.kt 0).task ≠ .teardown
  pending : (s.kt 0).pending = false
  point : ∀ p pc, (s.kt 0).ctl = .thread p pc → pc.plain = true
  saved : ∀ q c, s.context q = some (some c) → c.resume.plain = true

theorem Op.start_plain (o : Op) : o.start.plain = true := by cases o <;> rfl

theorem Resume.pc_plain {r : Resume} (h : r.plain = true) : r.pc.plain = true := by
  cases r with
  | yielded o => cases o with
    | none => rfl
    | some o => cases h
  | teardown => cases h
  | _ => rfl

/-- Without preemption `check_preempted` goes on. -/
theorem State.step_preempt {f : Option AllocSite} {o : Op} (hc : (s.kt 0).ctl = .thread p (.preempt o))
    (hs : s.step ⟨0⟩ (0, .run f) = some s') : (s'.kt 0).ctl = .thread p o.start := by
  simp only [State.step, State.stepRun, hc, State.stepThread, State.checkPreempted, Config.preemptive] at hs
  split_ifs at hs with h₁ h₂
  · simp at h₂
  · rw [← Option.some.inj hs, State.goto, State.setK_kt]

theorem CoopInv.point_step (C : CoopInv s) (I : Inv s) (o : Cooperative s e) (hs : s.step ⟨0⟩ e = some s')
    (ht : Trans ⟨0⟩ s e s') {pc : Pc} (hc' : (s'.kt 0).ctl = .thread p pc) : pc.plain = true := by
  obtain ⟨k, i⟩ := e
  obtain rfl : k = 0 := Subsingleton.elim k 0
  -- a step from one point of a thread to another
  have hgo {p₀ : Ptr} {pc₀ pc₁ : Pc} (hc : (s.kt 0).ctl = .thread p₀ pc₀) (hc₁ : (s'.kt 0).ctl = .thread p₀ pc₁)
      (hpc : pc₀.plain = true → pc₁.plain = true) : pc.plain = true := by
    obtain ⟨rfl, rfl⟩ := Ctl.thread.inj (hc₁.symm.trans hc')
    exact hpc (C.point _ _ hc)
  cases ht with
  | @call _ c p₀ r hc =>
    cases c with
    | op c =>
      have hc₁ : ((s.setK 0 (Call.enter ⟨0⟩ (s.kt 0) p₀ (.op c))).kt 0).ctl = .thread p₀ (.preempt c) := by
        cases c <;> simp [Call.enter]
      exact hgo hc hc₁ fun _ => rfl
    | yield => exact hgo hc (congrArg KThread.ctl (State.setK_kt _ _ _)) fun _ => rfl
    | self => exact hgo hc (congrArg KThread.ctl (State.setK_kt _ _ _)) fun _ => rfl
    | teardown => exact absurd rfl o.call
  | tick => exact C.point p pc (by simpa using hc')
  | deliver => exact C.point p pc (by simpa using hc')
  | acquire h =>
    generalize hc : (s.kt _).ctl = x at h
    cases h <;> first
      | exact hgo hc (congrArg KThread.ctl (State.setK_kt _ _ _)) fun _ => rfl
      | exact hgo hc (congrArg KThread.ctl (State.setK_kt _ _ _)) id
      | simp [State.goto] at hc'
  | release h =>
    cases h with
    | _ hc => first
      | exact hgo hc (congrArg KThread.ctl (State.setK_kt _ _ _)) fun _ => rfl
      | exact hgo hc (congrArg KThread.ctl (State.setK_kt _ _ _)) id
      | simp [State.goto] at hc'
  | quiet h =>
    cases h with
    | start hc => exact hgo hc (congrArg KThread.ctl (State.setK_kt _ _ _)) fun _ => Op.start_plain _
    | preempted hc => exact hgo hc (State.step_preempt hc hs) fun _ => Op.start_plain _
    | _ hc => first
      | exact hgo hc (congrArg KThread.ctl (State.setK_kt _ _ _)) fun _ => rfl
      | exact hgo hc (congrArg KThread.ctl (State.setK_kt _ _ _)) id
      | simp at hc'
  | signal h =>
    cases h with
    | _ hc => first
      | exact hgo hc (congrArg KThread.ctl (State.setK_kt _ _ _)) fun _ => rfl
      | exact hgo hc (congrArg KThread.ctl (State.setK_kt _ _ _)) id
      | simp [State.goto] at hc'
  | insert h =>
    generalize hc : (s.kt _).ctl = x at h
    cases h <;> first
      | exact hgo hc (congrArg KThread.ctl (State.setK_kt _ _ _)) fun _ => rfl
      | exact hgo hc (congrArg KThread.ctl (State.setK_kt _ _ _)) id
      | simp [State.goto] at hc'
  | entry hc hcur h => simp at hc'
  | parkJoin h | parkSem h =>
    generalize hc : (s.kt _).ctl = x at h
    cases h <;> simp [State.goto] at hc'
  | @dispSet _ f q x c hc hx hctx =>
    obtain ⟨x', c', hx', hctx', hth, hcontext⟩ := I.context_of_dispSet hc
    obtain rfl : x' = x := Option.some.inj (hx'.symm.trans hx)
    obtain rfl : c' = c := Option.some.inj (hctx'.symm.trans hctx)
    obtain ⟨-, rfl⟩ : c'.thread = p ∧ c'.resume.pc = pc := by simpa using hc'
    exact Resume.pc_plain (C.saved q c' hcontext)
  | _ hc => first
    | exact hgo hc (congrArg KThread.ctl (State.setK_kt _ _ _)) fun _ => rfl
    | exact hgo hc (congrArg KThread.ctl (State.setK_kt _ _ _)) id
    | simp [State.goto] at hc'
theorem CoopInv.task_step (C : CoopInv s) (o : Cooperative s e) (ht : Trans ⟨0⟩ s e s') :
    (s'.kt 0).task ≠ .teardown := by
  obtain ⟨k, i⟩ := e
  obtain rfl : k = 0 := Subsingleton.elim k 0
  have h := C.task
  cases ht with
  | @call _ c _ _ _ =>
    cases c with
    | op c => cases c <;> simpa [Call.enter, KThread.block] using h
    | teardown => exact absurd rfl o.call
    | _ => simpa [Call.enter] using h
  | quiet hq =>
    cases hq with
    | teardownTask hc => cases C.point _ _ hc
    | _ => first
      | exact h
      | simp
  | signal hs => cases hs <;> simpa [State.goto] using h
  | _ => first
    | exact h
    | simp

/-- Without a quantum there is no timer. -/
theorem State.step_tick {k : Fin 1} : s.step ⟨0⟩ (k, .tick) = none := by
  simp [State.step, Config.preemptive]

theorem CoopInv.pending_step (C : CoopInv s) (hs : s.step ⟨0⟩ e = some s') (ht : Trans ⟨0⟩ s e s') :
    (s'.kt 0).pending = false := by
  obtain ⟨k, i⟩ := e
  obtain rfl : k = 0 := Subsingleton.elim k 0
  have h := C.pending
  cases ht with
  | @call _ c _ _ _ =>
    cases c with
    | op c => cases c <;> simpa [Call.enter, KThread.block] using h
    | _ => simpa [Call.enter, KThread.block] using h
  | tick => cases State.step_tick.symm.trans hs
  | quiet hq => cases hq <;> exact h
  | signal hq => cases hq <;> exact h
  | deliver => simp
  | _ => exact h

theorem CoopInv.step (C : CoopInv s) (I : Inv s) (o : Cooperative s e) (hs : s.step ⟨0⟩ e = some s')
    (ht : Trans ⟨0⟩ s e s') : CoopInv s' := by
  refine ⟨C.task_step o ht, C.pending_step hs ht, fun p pc hc' => C.point_step I o hs ht hc', fun q c hq => ?_⟩
  obtain ⟨k, i⟩ := e
  obtain rfl : k = 0 := Subsingleton.elim k 0
  cases ht.suspends I o.documented.alloc q with
  | same h => exact C.saved q c (h ▸ hq)
  | saves hc _ h =>
    obtain rfl : c = _ := by simpa [hq] using h
    exact C.point q _ hc
  | resumes _ _ _ h' => cases hq.symm.trans h'
  | creates _ _ h =>
    obtain rfl : c = _ := by simpa [hq] using h
    rfl
  | frees hc => cases C.point _ _ hc

theorem State.init_context (q : Ptr) : (State.init 1 ⟨0⟩).context q = none := by
  by_cases hq : q = mainTcb
  · exact State.context_of_executed (k := 0) (by simp [State.init, Ctl.thread?, hq])
  · exact State.context_of_heap_eq_none (by simp [State.init, hq])

theorem State.init_coopInv : CoopInv (State.init 1 ⟨0⟩) := by
  refine ⟨by simp [State.init], by simp [State.init], fun p pc hc => ?_, fun q c hq => ?_⟩
  · obtain ⟨rfl, rfl⟩ : mainTcb = p ∧ Pc.init 0 = pc := by simpa [State.init] using hc
    rfl
  · cases (State.init_context q).symm.trans hq

end Uthread
