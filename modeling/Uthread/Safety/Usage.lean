import Uthread.Safety.Resume

/-!
# Semaphores that are in use

A semaphore that a thread posts on or waits on has been initialised, and is destroyed only after the call has
released its mutex for the last time: so a call finds the semaphore at each of its points, and so does the
scheduler when it parks a thread there.

## Main definitions

* `UsesInv`: what a kernel thread or a suspended thread uses exists.

## Main results

* `Trans.uses_cases`: how a thread comes to use a semaphore.
* `usesInv_of_run`.
-/

namespace Uthread

variable {n : ℕ} {cfg : Config} {s s' : State n} {e : Event n} {k : Fin n} {p q : Ptr} {i : SemId}
  {h : List (State n × Event n)}

/-- The semaphores in use are initialised. -/
structure UsesInv (s : State n) : Prop where
  point : ∀ k i, (s.kt k).ctl.pc?.bind Pc.uses = some i → (s.sems i).isSome
  lock : ∀ k i, (s.kt k).lock = some i → (s.sems i).isSome
  saved : ∀ q c i, s.context q = some (some c) → c.resume.uses = some i → (s.sems i).isSome

theorem Op.start_uses (o : Op) : o.start.uses = o.uses := by cases o <;> rfl

theorem Resume.pc_uses {r : Resume} (h : r.pc.uses = some i) : r.uses = some i := by
  cases r with
  | yielded o =>
    cases o with
    | none => cases h
    | some o => rwa [Resume.pc, Op.start_uses] at h
  | start => cases h
  | _ => exact h

/-- A thread uses a semaphore because it has before, because it makes a call, or because it is resumed in one. -/
inductive Uses (s : State n) (e : Event n) (i : SemId) : Prop
  | stays (h : (s.kt e.1).ctl.pc?.bind Pc.uses = some i)
  | call {p : Ptr} {r : Ret} {o : Op} (hc : (s.kt e.1).ctl = .thread p (.user r)) (he : e.2 = .call (.op o))
      (ho : o.uses = some i)
  | resumes {q : Ptr} {c : Ctx} (h : s.context q = some (some c)) (hc : c.resume.uses = some i)

theorem Trans.uses_cases (ht : Trans cfg s e s') (I : Inv s) (hi : (s'.kt e.1).ctl.pc?.bind Pc.uses = some i) :
    Uses s e i := by
  -- a step from one point of a call to another
  have hgo {p : Ptr} {pc pc' : Pc} (hc : (s.kt e.1).ctl = .thread p pc) (hc' : (s'.kt e.1).ctl = .thread p pc')
      (hpc : pc'.uses = pc.uses ∨ pc'.uses = none) : Uses s e i := by
    have hi' : pc'.uses = some i := by rwa [hc'] at hi
    rcases hpc with hpc | hpc
    · exact .stays (by rw [hc]; exact hpc.symm.trans hi')
    · cases hpc.symm.trans hi'
  cases ht with
  | @call k c p r hc =>
    rw [State.setK_kt] at hi
    cases c with
    | op o => exact .call hc rfl (by cases o <;> exact hi)
    | _ => simp [Call.enter, Ctl.pc?, Pc.uses] at hi
  | tick => exact .stays (by simpa using hi)
  | deliver => exact .stays (by simpa using hi)
  | acquire h =>
    generalize hc : (s.kt _).ctl = x at h
    cases h <;> first
      | exact hgo hc (congrArg KThread.ctl (State.setK_kt _ _ _)) (.inl rfl)
      | simp [State.goto, Ctl.pc?] at hi
  | release h =>
    cases h with
    | _ hc => first
      | exact hgo hc (congrArg KThread.ctl (State.setK_kt _ _ _)) (.inl rfl)
      | exact hgo hc (congrArg KThread.ctl (State.setK_kt _ _ _)) (.inr rfl)
      | simp [State.goto, Ctl.pc?] at hi
  | quiet h =>
    cases h with
    | start hc => exact hgo hc (congrArg KThread.ctl (State.setK_kt _ _ _)) (.inl (Op.start_uses _))
    | _ hc => first
      | exact hgo hc (congrArg KThread.ctl (State.setK_kt _ _ _)) (.inl rfl)
      | exact hgo hc (congrArg KThread.ctl (State.setK_kt _ _ _)) (.inr rfl)
      | simp [Ctl.pc?] at hi
  | signal h =>
    cases h with
    | _ hc => first
      | exact hgo hc (congrArg KThread.ctl (State.setK_kt _ _ _)) (.inl rfl)
      | simp [State.goto, Ctl.pc?] at hi
  | insert h =>
    generalize hc : (s.kt _).ctl = x at h
    cases h <;> first
      | exact hgo hc (congrArg KThread.ctl (State.setK_kt _ _ _)) (.inl rfl)
      | simp [State.goto, Ctl.pc?] at hi
  | entry hc hcur h => simp [Ctl.pc?] at hi
  | parkJoin h | parkSem h =>
    generalize hc : (s.kt _).ctl = x at h
    cases h <;> simp [State.goto, Ctl.pc?] at hi
  | dispSet hc hx hctx =>
    obtain ⟨x', c', hx', hctx', hth, hcontext⟩ := I.context_of_dispSet hc
    rw [hx] at hx'
    cases hx'
    rw [hctx] at hctx'
    cases hctx'
    exact .resumes hcontext (Resume.pc_uses (by simpa [Ctl.pc?] using hi))
  | _ hc => first
    | exact hgo hc (congrArg KThread.ctl (State.setK_kt _ _ _)) (.inl rfl)
    | exact hgo hc (congrArg KThread.ctl (State.setK_kt _ _ _)) (.inr rfl)
    | simp [State.goto, Ctl.pc?] at hi

/-- The semaphore in `sched_info` is the one that the thread waits on. -/
theorem Trans.lock_cases (ht : Trans cfg s e s') (hi : (s'.kt e.1).lock = some i) :
    (s.kt e.1).lock = some i ∨ (s.kt e.1).ctl.pc?.bind Pc.uses = some i := by
  cases ht with
  | @call k c p r hc =>
    refine .inl ?_
    cases c with
    | op o => cases o <;> simpa [Call.enter, KThread.block] using hi
    | _ => simpa [Call.enter, KThread.block] using hi
  | tick => exact .inl (by simpa using hi)
  | deliver => exact .inl (by simpa using hi)
  | quiet h =>
    cases h with
    | waitBlock hc => exact .inr (by simpa [hc, Ctl.pc?, Pc.uses] using hi)
    | reset hc => simp at hi
    | _ => exact .inl (by simpa [KThread.block, KThread.unblock] using hi)
  | signal h => exact .inl (by cases h <;> simpa [State.goto] using hi)
  | _ => exact .inl (by simpa [State.goto, KThread.block] using hi)

/-- Only `uthread_sem_destroy` removes a semaphore. -/
theorem Trans.sems_isSome (ht : Trans cfg s e s') (hi : (s.sems i).isSome) :
    (s'.sems i).isSome ∨ (s.kt e.1).ctl.pc? = some (.semDestroy i) ∧ ∃ f, e.2 = .run f := by
  -- a step that writes one semaphore
  have hset {x : Sem} {j : SemId} : (Function.update s.sems j (some x) i).isSome := by
    by_cases hij : i = j
    · simp [hij]
    · simpa [Function.update_of_ne hij] using hi
  cases ht with
  | signal h => exact .inl (by cases h <;> exact hi)
  | semInit | postBump | postWake | waitDec | parkSem => exact .inl hset
  | @semDestroy k f p j hc =>
    by_cases hij : i = j
    · exact .inr ⟨by rw [hc, hij]; rfl, _, rfl⟩
    · exact .inl (by simpa [State.setK, State.setSem, Function.update_of_ne hij] using hi)
  | _ => exact .inl hi

theorem SemOk.not_semBusy (ho : SemOk s e) (hc : (s.kt e.1).ctl.pc? = some (.semDestroy i))
    (he : ∃ f, e.2 = .run f) : ¬ s.SemBusy i := by
  obtain ⟨k, j⟩ := e
  obtain ⟨f, rfl⟩ := he
  exact ho _ hc

/-- A call is made on a semaphore that is initialised. -/
theorem CallOk.sems_isSome {o : Op} (ho : CallOk s e) (he : e.2 = .call (.op o)) (hu : o.uses = some i)
    (hth : (s.kt e.1).ctl.thread? = some p) : (s.sems i).isSome := by
  obtain ⟨k, j⟩ := e
  obtain rfl : j = .call (.op o) := he
  have h := ho p hth
  cases o with
  | semPost j =>
    obtain rfl : j = i := Option.some.inj hu
    exact h
  | semWait j =>
    obtain rfl : j = i := Option.some.inj hu
    exact h
  | _ => cases hu

theorem UsesInv.step (U : UsesInv s) (I : Inv s) (ha : AllocOk e) (hcall : CallOk s e) (hsem : SemOk s e)
    (ht : Trans cfg s e s') : UsesInv s' := by
  have hbound {q : Ptr} {c : Ctx} (hq : s.context q = some (some c)) : q < s.fresh := by
    by_contra hle
    simp [State.context_of_heap_eq_none (I.place.bound q (Nat.le_of_not_lt hle))] at hq
  -- what is used before the step is kept
  have hkeep {i : SemId} (hb : s.SemBusy i) (hi : (s.sems i).isSome) : (s'.sems i).isSome :=
    (ht.sems_isSome hi).resolve_right fun h => hsem.not_semBusy h.1 h.2 hb
  have hpoint {k : Fin n} {i : SemId} (hk : (s.kt k).ctl.pc?.bind Pc.uses = some i) : (s'.sems i).isSome :=
    hkeep (.inl ⟨k, .inl hk⟩) (U.point k i hk)
  have hlock {k : Fin n} {i : SemId} (hk : (s.kt k).lock = some i) : (s'.sems i).isSome :=
    hkeep (.inl ⟨k, .inr hk⟩) (U.lock k i hk)
  have hsaved {q : Ptr} {c : Ctx} {i : SemId} (hq : s.context q = some (some c)) (hu : c.resume.uses = some i) :
      (s'.sems i).isSome :=
    hkeep (.inr ⟨q, hbound hq, by simpa [State.suspended_eq_context, hq] using hu⟩) (U.saved q c i hq hu)
  have huses {i : SemId} (hu : Uses s e i) : (s'.sems i).isSome := by
    cases hu with
    | stays hu => exact hpoint hu
    | call hc he ho =>
      have hi := hcall.sems_isSome he ho (congrArg Ctl.thread? hc)
      refine (ht.sems_isSome hi).resolve_right fun hd => ?_
      simp [he] at hd
    | resumes hq hu => exact hsaved hq hu
  refine ⟨fun k i hk => ?_, fun k i hk => ?_, fun q c i hq hu => ?_⟩
  · by_cases hke : k = e.1
    · exact huses (ht.uses_cases I (hke ▸ hk))
    · exact hpoint (ht.kt_of_ne hke ▸ hk)
  · by_cases hke : k = e.1
    · subst hke
      rcases ht.lock_cases hk with hk | hk
      · exact hlock hk
      · exact hpoint hk
    · exact hlock (ht.kt_of_ne hke ▸ hk)
  · cases ht.suspends I ha q with
    | same hsame => exact hsaved (hsame ▸ hq) hu
    | saves hc _ hsave =>
      obtain rfl : c = _ := by simpa [hq] using hsave
      exact hpoint (k := e.1) (by rw [hc]; exact hu)
    | resumes _ _ _ hnone => cases hq.symm.trans hnone
    | creates _ _ hnew =>
      obtain rfl : c = _ := by simpa [hq] using hnew
      cases hu
    | frees _ hnone => cases hq.symm.trans (State.context_of_heap_eq_none (hnone q))

theorem usesInv_of_run (hn : 0 < n) (hr : (machine n cfg).Run Obeys h s) : UsesInv s := by
  induction hr with
  | init =>
    refine ⟨fun k i hk => ?_, fun k i hk => ?_, fun q c i hq => ?_⟩
    · obtain ⟨-, h⟩ | ⟨-, h⟩ := State.init_kt_cases n cfg k <;> simp [machine, h, Ctl.pc?, Pc.uses] at hk
    · obtain ⟨-, h⟩ | ⟨-, h⟩ := State.init_kt_cases n cfg k <;> simp [machine, h] at hk
    · have hsus : (State.init n cfg).suspended q = some c.resume := by
        simp [State.suspended_eq_context, show (State.init n cfg).context q = _ from hq]
      simp [State.init_suspended hn] at hsus
  | step hr o hs ih =>
    obtain rfl | rfl | ht := State.step_cases hs
    · exact ⟨ih.point, ih.lock, ih.saved⟩
    · exact ⟨ih.point, ih.lock, ih.saved⟩
    · exact ih.step (inv_of_reachable hn hr.reachable) o.alloc o.call o.sem ht

end Uthread
