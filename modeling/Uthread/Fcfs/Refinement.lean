import Uthread.Fcfs.Transfers

/-!
# The library runs first come, first served

With one kernel thread and without preemption, the threads are given control in the order of the machine of
`Fcfs.Machine`, whatever they call.

## Main results

* `Agrees.step`: a step of the library is a step of the machine, or none.
-/

namespace Uthread

variable {s s' : State 1} {e : Event 1} {a a' : Fcfs Ptr SemId} {p q : Ptr} {f : Option AllocSite}

/-- A step of the library is a step of the machine, or none. -/
theorem Agrees.step (A : Agrees s a) (I : Inv s) (C : CoopInv s) (C' : CoopInv s') (o : Cooperative s e)
    (hs : s.step ⟨0⟩ e = some s') (ht : Trans ⟨0⟩ s e s') : ∃ a' ev, Simulated s e s' a a' ev := by
  obtain ⟨k, i⟩ := e
  obtain rfl : k = 0 := Subsingleton.elim k 0
  have ha := o.documented.alloc
  have ht' := ht
  have hthread {f : Option AllocSite} (ht : Trans ⟨0⟩ s (0, .run f) s') (ha : AllocOk ((0, .run f) : Event 1))
      {p : Ptr} {pc pc' : Pc} (hc : (s.kt 0).ctl = .thread p pc) (hc' : (s'.kt 0).ctl = .thread p pc')
      (hdata : SameData s s') (hpc : pc.Goes pc') (hzero : pc'.zero = pc.zero) :
      ∃ a' ev, Simulated s (0, .run f) s' a a' ev :=
    ⟨a, none, A.go I C ht ha hc hc' hdata hpc fun i hi => A.zero p pc i hc (hzero ▸ hi)⟩
  have hsched {f : Option AllocSite} (ht : Trans ⟨0⟩ s (0, .run f) s') (ha : AllocOk ((0, .run f) : Event 1))
      {c c' : Ctl} (hc : (s.kt 0).ctl = c) (hc' : (s'.kt 0).ctl = c') (hth : c.thread? = none)
      (hth' : c'.thread? = none) (hdata : SameData s s') (hdisp : ∀ q, c ≠ .sched (.dispSet q))
      (hact : s'.activity = s.activity) : ∃ a' ev, Simulated s (0, .run f) s' a a' ev :=
    ⟨a, none, A.goSched I C ht ha (hc ▸ hth) (hc' ▸ hth') hdata (hc ▸ hdisp) hact⟩
  cases ht with
  | call hc => exact A.enter I C (fun h => o.call (congrArg _ h)) ht' hc rfl
  | tick => cases State.step_tick.symm.trans hs
  | deliver hp => cases C.pending.symm.trans hp
  | acquire h =>
    generalize hc : (s.kt 0).ctl = x at h
    cases h with
    | schedEnq | deq | disp =>
      exact hsched ht' ha hc rfl rfl rfl ⟨rfl, rfl, rfl, rfl, rfl⟩ (by simp)
        (by simp [State.activity, KThread.activity, hc, State.goto])
    | waitAgain =>
      exact hthread ht' ha hc rfl ⟨rfl, rfl, rfl, rfl, rfl⟩ ⟨rfl, rfl, rfl, rfl, fun _ => .inr, by simp⟩ rfl
    | _ => exact hthread ht' ha hc rfl ⟨rfl, rfl, rfl, rfl, rfl⟩ ⟨rfl, rfl, rfl, rfl, fun _ h => h, by simp⟩ rfl
  | release h =>
    cases h with
    | schedEnq hc | schedSem hc | schedTcbs hc | dispTcbs hc =>
      exact hsched ht' ha hc rfl rfl rfl ⟨rfl, rfl, rfl, rfl, rfl⟩ (by simp)
        (by simp [State.activity, KThread.activity, hc, State.goto])
    | @deq en hc =>
      refine hsched ht' ha hc rfl rfl rfl ⟨rfl, rfl, rfl, rfl, rfl⟩ (by simp) ?_
      cases en <;> simp [State.activity, KThread.activity, hc, State.goto]
    | _ hc => exact hthread ht' ha hc rfl ⟨rfl, rfl, rfl, rfl, rfl⟩ ⟨rfl, rfl, rfl, rfl, fun _ h => h, by simp⟩ rfl
  | signal h =>
    cases h with
    | init hc | createPost hc | postPost hc | teardownPost hc =>
      exact hthread ht' ha hc rfl ⟨rfl, rfl, rfl, rfl, rfl⟩ ⟨rfl, rfl, rfl, rfl, fun _ h => h, by simp⟩ rfl
    | _ hc =>
      exact hsched ht' ha hc rfl rfl rfl ⟨rfl, rfl, rfl, rfl, rfl⟩ (by simp)
        (by simp [State.activity, KThread.activity, hc, State.goto])
  | quiet h =>
    cases h with
    | preempted hc => cases C'.point _ _ (congrArg KThread.ctl (State.setK_kt _ _ _))
    | @start p o hc =>
      refine hthread ht' ha hc rfl ⟨rfl, rfl, rfl, rfl, rfl⟩ ⟨rfl, ?_, ?_, ?_, ?_, by simp⟩ ?_ <;>
        cases o <;> first
          | rfl
          | exact fun _ h => h
    | @waitBlock p i cur x hc hx h0 =>
      refine ⟨a, none, A.go I C ht' ha hc rfl ⟨rfl, rfl, rfl, rfl, rfl⟩
        ⟨rfl, rfl, rfl, rfl, fun _ h => h, by simp⟩ fun j hj => ?_⟩
      obtain rfl : i = j := Option.some.inj hj
      rw [A.counter, hx, Option.map_some, h0]
    | kmainStart hc | entryNone hc | exitWaited hc =>
      have htask := I.task 0
      simp only [KThread.TaskOk, hc] at htask
      refine hsched ht' ha hc rfl rfl rfl ⟨rfl, rfl, rfl, rfl, rfl⟩ (by simp) ?_
      simp_all [State.activity, KThread.activity, KThread.exec, KThread.block]
    | reset hc | nextTcb hc | nextMain hc | nextOther hc | dispReady hc | closing hc =>
      exact hsched ht' ha hc rfl rfl rfl ⟨rfl, rfl, rfl, rfl, rfl⟩ (by simp)
        (by simp [State.activity, KThread.activity, hc])
    | _ hc => exact hthread ht' ha hc rfl ⟨rfl, rfl, rfl, rfl, rfl⟩ ⟨rfl, rfl, rfl, rfl, fun _ h => h, by simp⟩ rfl
  | insert h =>
    generalize hc : (s.kt 0).ctl = x at h
    cases h with
    | create | post =>
      exact ⟨a, none, A.insertRuns I C ha ht' hc rfl rfl rfl rfl rfl rfl rfl rfl rfl rfl⟩
    | teardown => cases C.point _ _ hc
    | sched => exact ⟨a, none, A.insertSched I C ha ht' hc rfl⟩
  | exitSwitch hc =>
    have htask := I.task 0
    simp only [KThread.TaskOk, hc, Pc.task, Option.some.injEq, Prod.mk.injEq] at htask
    exact ⟨a, none, A.toSched I C ha ht' hc rfl rfl (by simp [htask]) (State.setK_kt _ _ _) rfl rfl rfl rfl rfl⟩
  | @swap _ f p c x r hc hx =>
    have htask := I.task 0
    obtain rfl : c = p := I.table.cur_eq hc (by simp [Pc.curs])
    have hne : (s.kt 0).task ≠ .none := by
      intro h
      cases r <;> simp [KThread.TaskOk, hc, Pc.task, h] at htask
    refine ⟨a, none, A.toSched I C ha ht' hc rfl rfl hne (State.setK_kt _ _ _) ?_ ?_ rfl rfl rfl⟩
    · exact funext fun q => State.joinQueue_setTcb hx (by rfl) q
    · funext q
      by_cases hq : q = c
      · simp [State.stateOf, State.setK, State.setTcb, hq, hx]
      · simp [State.stateOf, State.setK, State.setTcb, hq]
  | yieldBody hc hcur hx hst => exact A.yieldBody I C ha hc hcur hx hst rfl
  | exitBody hc hcur hx hst => exact A.exitBody I C ha hc hcur hx hst rfl
  | joinFinished hc hx hst => exact A.joinFinished I C ha hc hx hst rfl
  | joinBlock hc hx hst hy hj => exact A.joinBlock I C ha hc hx hst hy hj rfl
  | joinDestroy hc hq hx =>
    exact ⟨a, none, A.goWrite I C ha ht' hc (congrArg KThread.ctl (State.setK_kt _ _ _))
      ⟨rfl, rfl, rfl, rfl, fun _ h => h, by simp⟩ rfl rfl (.of_free rfl) rfl rfl⟩
  | createBody hc => exact A.createBody I C ha hc rfl
  | createNoTcb | createNoStack => cases ha
  | semInit hc => exact A.semInit I C ha hc rfl
  | semDestroy hc => exact A.semDestroy I C ha hc rfl
  | postBump hc hx hq => exact A.postBump I C ha hc hx hq rfl
  | postWake hc hx hq => exact A.postWake I C ha hc hx hq rfl
  | postReady hc hx hst =>
    exact ⟨a, none, A.goWrite I C ha ht' hc (congrArg KThread.ctl (State.setK_kt _ _ _))
      ⟨rfl, rfl, rfl, rfl, fun _ h => h, by simp⟩ rfl rfl (.of_write hx rfl rfl (by simp [hst])) rfl rfl⟩
  | waitRead hc hx h0 =>
    exact hthread ht' ha hc rfl ⟨rfl, rfl, rfl, rfl, rfl⟩ ⟨rfl, rfl, rfl, rfl, fun _ => .inl, by simp⟩ rfl
  | waitPark hc hx => exact A.waitPark I C ha hc hx rfl
  | waitDec hc hx h0 => exact A.waitDec I C ha hc hx h0 rfl
  | teardownRead hc | teardownFree hc => cases C.point _ _ hc
  | entry hc hcur h => exact ⟨a, none, A.entry I C ha ht' hc hcur h rfl⟩
  | schedExit hc hx hj => exact ⟨a, none, A.schedExit I C ha ht' hc hx hj rfl⟩
  | schedExitWake hc hx hj hy hst => exact ⟨a, none, A.schedExitWake I C ha ht' hc hx hj hy hst rfl⟩
  | parkJoin h hq hx => exact ⟨a, none, A.parkJoin I C ha ht' h hq hx rfl⟩
  | parkSem h hq hx => exact ⟨a, none, A.parkSem I C ha ht' h hq hx rfl⟩
  | schedTeardown hc =>
    have htask := I.task 0
    simp only [KThread.TaskOk, hc] at htask
    exact absurd htask.1 C.task
  | deqRemove hc hq => exact ⟨a, none, A.deqRemove I C ha ht' hc hq rfl⟩
  | dispBody hc hx hst => exact ⟨a, none, A.dispBody I C ha ht' hc hx hst rfl⟩
  | dispSet hc hx hctx => exact A.dispSet I C ha ht' hc hx hctx rfl
  | _ hc => exact hthread ht' ha hc rfl ⟨rfl, rfl, rfl, rfl, rfl⟩ ⟨rfl, rfl, rfl, rfl, fun _ h => h, by simp⟩ rfl

end Uthread
