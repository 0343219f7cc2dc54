import Uthread.Safety.Calls
import Uthread.Safety.Target

/-!
# Join delivers the exit value

`uthread_join` finds its target finished or parks its caller in the join queue of the target, where the
exit of the target finds it: the check and the parking are done under one hold of `tcbs_lock`, handed to
the scheduler, and so is the look of the exit at the queue. So no thread is left in the join queue of a
finished thread, and every join that returns delivers the value of the exit of its target, releases the
identifier and destroys the control block, on both paths.

## Main definitions

* `Exited`: a thread has executed `uthread_exit` with a value.
* `JoinAct`, `joinLog`: the steps of a join that change shared data.

## Main results

* `join_delivers`.
-/

namespace Uthread

variable {n : ℕ} {cfg : Config} {s s' : State n} {e : Event n} {k : Fin n} {p q : Ptr} {t : Tid}
  {h : List (State n × Event n)}

/-! ### Exit values -/

/-- The thread that finishes in an event, and its exit value. -/
def State.exits (s : State n) : Event n → Option (Ptr × Val)
  | (k, .run _) =>
    match (s.kt k).ctl with
    | .thread p (.exit v .body) => if s.stateOf p = some .running then some (p, v) else none
    | _ => none
  | _ => none

/-- Thread `q` has executed `uthread_exit(v)`. -/
def Exited (h : List (State n × Event n)) (q : Ptr) (v : Val) : Prop :=
  ∃ x ∈ h, x.1.exits x.2 = some (q, v)

theorem Exited.cons {v : Val} (hq : Exited h q v) (x : State n × Event n) : Exited (x :: h) q v := by
  obtain ⟨y, hy, heq⟩ := hq
  exact ⟨y, List.mem_cons_of_mem _ hy, heq⟩

/-- Writing a control block keeps the value of a thread that is finished. -/
theorem State.retval_setTcb {x y z : Tcb} (hx : s.heap p = some x) (hy : y.retval = x.retval)
    (hst : y.state = .finished → x.state = .finished) (hz : (s.setTcb p y).heap q = some z)
    (hfin : z.state = .finished) :
    ∃ w, s.heap q = some w ∧ w.state = .finished ∧ w.retval = z.retval := by
  by_cases hq : q = p
  · subst hq
    obtain rfl : y = z := by simpa [State.setTcb] using hz
    exact ⟨x, hx, hst hfin, hy.symm⟩
  · exact ⟨z, by simpa [State.setTcb, hq] using hz, hfin, rfl⟩

/-- A thread that is finished was so before the step, with the same value, or it has just exited. -/
theorem Trans.retval_cases (ht : Trans cfg s e s') (I : Inv s) (ha : AllocOk e) {z : Tcb}
    (hz : s'.heap q = some z) (hfin : z.state = .finished) :
    (∃ w, s.heap q = some w ∧ w.state = .finished ∧ w.retval = z.retval) ∨
      s.exits e = some (q, z.retval) := by
  have hsame (hq : s'.heap q = s.heap q) : ∃ w, s.heap q = some w ∧ w.state = .finished ∧
      w.retval = z.retval := ⟨z, hq ▸ hz, hfin, rfl⟩
  cases ht with
  | signal h => cases h <;> exact .inl (hsame rfl)
  | swap hc hx | parkJoin hc _ hx =>
    refine .inl (State.retval_setTcb hx ?_ ?_ hz hfin)
    · rfl
    · exact id
  | yieldBody hc hcur hx | postReady hc hx | dispBody hc hx | schedTeardown hc hx | waitPark hc hx =>
    refine .inl (State.retval_setTcb hx ?_ ?_ hz hfin)
    · rfl
    · simp
  | joinBlock hc hx hst hy =>
    refine .inl (State.retval_setTcb hy ?_ ?_ hz hfin)
    · rfl
    · simp
  | @exitBody k f p v c x hc hcur hx hst =>
    obtain rfl : p = c := by simpa [I.table.currentTcb_thread hc] using hcur
    by_cases hq : q = p
    · subst hq
      right
      obtain rfl := Option.some.inj (by simpa [State.setTcb, State.setK] using hz)
      simp [State.exits, hc, State.stateOf, hx, hst]
    · exact .inl (hsame (by simp [State.setTcb, State.setK, hq]))
  | @schedExitWake k f cur x j rest y hc hx hj hy hst =>
    obtain ⟨w, hw, hwfin, hwval⟩ := State.retval_setTcb (y := { y with state := .ready }) hy rfl (by simp)
      hz hfin
    obtain ⟨u, hu, hufin, huval⟩ :=
      State.retval_setTcb (y := { x with joinQueue := rest }) hx rfl (fun h => h) hw hwfin
    exact .inl ⟨u, hu, hufin, huval.trans hwval⟩
  | createBody hc =>
    by_cases hq : q = s.fresh
    · obtain rfl := Option.some.inj (by simpa [State.goto, State.setK, hq] using hz)
      simp [State.newTcb] at hfin
    · exact .inl (hsame (by simp [State.goto, State.setK, hq]))
  | @joinDestroy k f p t pret rv q₀ x hc hq₀ hx =>
    by_cases hq : q = q₀
    · simp [State.goto, State.setK, hq] at hz
    · exact .inl (hsame (by simp [State.goto, State.setK, hq]))
  | teardownFree hc hq₀ hx =>
    have hz' : s.heap q = some z := by
      simp only [State.goto, State.setK] at hz
      split_ifs at hz
      exact hz
    exact .inl ⟨z, hz', hfin, rfl⟩
  | _ => exact .inl (hsame rfl)

/-- A finished thread has exited with the value in its control block. -/
theorem exited_of_finished (hn : 0 < n) (hr : (machine n cfg).Run Obeys h s) :
    ∀ q x, s.heap q = some x → x.state = .finished → Exited h q x.retval := by
  refine hr.history_invariant
    (I := fun h s => ∀ q x, s.heap q = some x → x.state = .finished → Exited h q x.retval) ?_ ?_
  · intro q x hx hfin
    have hx : (State.init n cfg).heap q = some x := hx
    rw [State.init_heap] at hx
    split at hx
    · obtain rfl := Option.some.inj hx
      simp at hfin
    · simp at hx
  · intro h s e s' hr ih o hs q x hx hfin
    have I := inv_of_reachable hn hr.reachable
    obtain rfl | rfl | ht := State.step_cases hs
    · exact (ih q x hx hfin).cons _
    · exact (ih q x hx hfin).cons _
    · obtain ⟨w, hw, hwfin, hval⟩ | hexit := ht.retval_cases I o.alloc hx hfin
      · exact hval ▸ (ih q w hw hwfin).cons _
      · exact ⟨_, List.mem_cons_self, hexit⟩

/-- Only a thread whose exit the scheduler has not yet carried out has others in its join queue, and then
`tcbs_lock` is held. -/
theorem Inv.joinQueue_of_finished (I : Inv s) (ho : s.owner .tcbs = none)
    (hq : s.stateOf q = some .finished) : s.joinQueue q = [] := by
  by_contra hne
  obtain ⟨k, hk⟩ := I.join.exiting q hq hne
  have hst : (s.kt k).execState = .finished := by
    have hal := I.place.alive (.exec k) q (by simp [State.holds, hk])
    simpa [hq, State.placeState] using hal.symm
  have hheld := (I.lock .tcbs k).2 (KThread.tcbs_mem_held hk (.inr hst))
  simp [ho] at hheld

/-! ### The changes that a join makes -/

/-- What a join does to shared data: it records that its caller waits, saves its context and parks it,
releases the identifier, and destroys the control block in the table. -/
inductive JoinAct
  | block
  | save
  | park
  | reclaim (t : Tid)
  | destroy (t : Tid) (q : Option Ptr)
  deriving DecidableEq

/-- The change comes before the target is known to have finished. -/
def JoinAct.early : JoinAct → Bool
  | .block | .save | .park => true
  | .reclaim _ | .destroy _ _ => false

/-- What the join of thread `p` does in an event. -/
def State.joinAct (s : State n) (p : Ptr) : Event n → Option JoinAct
  | (k, .run _) =>
    match (s.kt k).ctl with
    | .thread p' (.join _ _ (.test _ (some q))) =>
      if p' = p ∧ s.stateOf q ≠ some .finished then some .block else none
    | .thread p' (.swap _ (.joined _ _)) => if p' = p then some .save else none
    | .sched (.joinBody p') => if p' = p then some .park else none
    | .thread p' (.join t _ (.bvClear _)) => if p' = p then some (.reclaim t) else none
    | .thread p' (.join t _ (.destroy _)) => if p' = p then some (.destroy t (s.tcbs t)) else none
    | _ => none
  | _ => none

/-- The changes made by the latest call of thread `p`, when it is a join, the most recent first. -/
def joinLog : List (State n × Event n) → Ptr → List JoinAct
  | [], _ => []
  | x :: h, p => if (x.1.callBy p x.2).isSome then [] else (x.1.joinAct p x.2).toList ++ joinLog h p

/-- What the changes of a join are at a point of it: `q` is the thread that it joins. -/
def Pc.LogOk (q : Option Ptr) (l : List JoinAct) : Pc → Prop
  | .join t _ (.bvUnlock _) | .join t _ (.destroy _) =>
    ∃ l', l = .reclaim t :: l' ∧ ∀ a ∈ l', a.early
  | .join t _ (.ret _) => ∃ l', l = .destroy t q :: .reclaim t :: l' ∧ ∀ a ∈ l', a.early
  | _ => ∀ a ∈ l, a.early

/-- The value that a join is to return, once it is known. -/
def Pc.delivers : Pc → Option (Tid × Bool × Option Val)
  | .join t pret (.unlock rv) | .join t pret (.bvLock rv) | .join t pret (.bvClear rv)
  | .join t pret (.bvUnlock rv) | .join t pret (.destroy rv) | .join t pret (.ret rv) =>
    some (t, pret, rv)
  | _ => none

/-- Before the target is known to have finished, the caller of a join is at most parked. -/
theorem State.joinAct_early (hp : ∀ t b rv, (s.kt e.1).ctl ≠ .thread p (.join t b (.bvClear rv)) ∧
    (s.kt e.1).ctl ≠ .thread p (.join t b (.destroy rv))) : ∀ a ∈ (s.joinAct p e).toList, a.early := by
  intro a ha
  obtain ⟨k, i⟩ := e
  cases i with
  | run f =>
    simp only [State.joinAct] at ha
    split at ha
    · split_ifs at ha <;> simp_all [JoinAct.early]
    · split_ifs at ha <;> simp_all [JoinAct.early]
    · split_ifs at ha <;> simp_all [JoinAct.early]
    · next hc =>
      split_ifs at ha with h
      · exact absurd (h ▸ hc) (hp _ _ _).1
      · simp at ha
    · next hc =>
      split_ifs at ha with h
      · exact absurd (h ▸ hc) (hp _ _ _).2
      · simp at ha
    · simp at ha
  | _ => simp [State.joinAct] at ha

/-- The join of a thread that another kernel thread executes does nothing. -/
theorem Inv.joinAct_eq_none (I : Inv s) (hk : (s.kt k).ctl.thread? = some p) (hne : k ≠ e.1) :
    s.joinAct p e = none := by
  have hth : (s.kt e.1).ctl.thread? ≠ some p := fun h => hne (I.place.thread_unique hk h)
  have hex : s.exec e.1 ≠ some p := fun h => by
    have hpk : p ∈ s.holds (.exec k) := by simp [State.holds, State.exec_of_thread? hk]
    have hpe : p ∈ s.holds (.exec e.1) := by simp [State.holds, h]
    have hplace : Place.exec e.1 ≠ Place.exec k := by simpa using hne.symm
    exact I.place.excl.notMem_of_ne hpk hplace hpe
  obtain ⟨j, i⟩ := e
  unfold State.joinAct
  split
  · split <;> simp_all [Ctl.thread?, State.exec, KThread.exec, SchedPc.moving]
  · rfl

/-- From `pc` to `pc'` the value that the join is to return stays as it is, or it is read from the control
block of the target. -/
def Delivers (s : State n) (pc pc' : Pc) : Prop :=
  pc'.delivers = pc.delivers ∨ ∃ t pret q x, pc = .join t pret .finish ∧ s.tcbs t = some q ∧
    s.heap q = some x ∧ x.state = .finished ∧
      pc'.delivers = some (t, pret, if pret then some x.retval else none)

/-- How the acting kernel thread comes to the point `pc'` of a join: by the call, by resuming the thread,
or from another point, and then the changes fit the new point. -/
inductive JoinStep (s : State n) (e : Event n) (p : Ptr) (pc' : Pc) (o : Option Ptr) : Prop
  | call (h : (s.callBy p e).isSome) (hlog : ∀ q, pc'.LogOk q []) (hval : pc'.delivers = none)
  | resumes {q : Ptr} (hc : (s.kt e.1).ctl = .sched (.dispSet q))
  | goes {pc : Pc} (hc : (s.kt e.1).ctl = .thread p pc) (hin : pc.inside = pc'.inside)
      (hlog : ∀ l, pc.LogOk o l → pc'.LogOk o ((s.joinAct p e).toList ++ l))
      (hval : Delivers s pc pc')

theorem Trans.joinStep (h : Trans cfg s e s') {pc' : Pc} {pret : Bool} {o : Option Ptr}
    (hc' : (s'.kt e.1).ctl = .thread p pc') (hin : pc'.inside = some (.op (.join t pret), false))
    (ho : ∀ u b rv, (s.kt e.1).ctl = .thread p (.join u b (.destroy rv)) → s.tcbs u = o) :
    JoinStep s e p pc' o := by
  have hgo {p₀ : Ptr} {pc pc₁ : Pc} (hc : (s.kt e.1).ctl = .thread p₀ pc)
      (hc₁ : (s'.kt e.1).ctl = .thread p₀ pc₁) (hpc : pc.inside = pc₁.inside)
      (hlog : ∀ l, pc.LogOk o l → pc₁.LogOk o ((s.joinAct p₀ e).toList ++ l))
      (hval : Delivers s pc pc₁) :
      JoinStep s e p pc' o := by
    obtain ⟨rfl, rfl⟩ : p₀ = p ∧ pc₁ = pc' := by simpa [hc₁] using hc'
    exact .goes hc hpc hlog hval
  have hout {p₀ : Ptr} {pc₁ : Pc} (hc₁ : (s'.kt e.1).ctl = .thread p₀ pc₁)
      (hpc : pc₁.inside ≠ some (.op (.join t pret), false)) : JoinStep s e p pc' o := by
    obtain ⟨rfl, rfl⟩ : p₀ = p ∧ pc₁ = pc' := by simpa [hc₁] using hc'
    exact absurd hin hpc
  have hstay (hc : (s.kt e.1).ctl = (s'.kt e.1).ctl) (hact : s.joinAct p e = none) :=
    hgo (hc.trans hc') hc' rfl (fun l hl => by simpa [hact] using hl) (.inl rfl)
  have hkt {x : KThread} {y : State n} {j : Fin n} : ((y.setK j x).kt j).ctl = x.ctl :=
    congrArg KThread.ctl (State.setK_kt _ _ _)
  cases h with
  | @call k c p₀ r hc =>
    have hcall : p₀ = p ∧ (∀ q, pc'.LogOk q []) ∧ pc'.delivers = none := by
      cases c with
      | op o =>
        obtain ⟨rfl, rfl⟩ : p₀ = p ∧ .preempt o = pc' := by
          cases o <;> simpa [Call.enter] using hc'
        exact ⟨rfl, fun _ a ha => by simp at ha, rfl⟩
      | _ =>
        obtain ⟨rfl, rfl⟩ : p₀ = p ∧ _ = pc' := by simpa [Call.enter] using hc'
        exact ⟨rfl, fun _ a ha => by simp at ha, rfl⟩
    obtain ⟨rfl, hlog, hval⟩ := hcall
    exact .call (by simp [State.callBy, hc, Ctl.thread?]) hlog hval
  | tick => exact hstay (by simp) rfl
  | deliver => exact hstay (by simp) rfl
  | acquire h =>
    generalize hc : (s.kt _).ctl = x at h
    cases h <;> first
      | exact hgo hc hkt rfl (fun l hl => by simpa [State.joinAct, hc, Pc.LogOk] using hl) (.inl rfl)
      | simp [State.goto] at hc'
  | release h =>
    cases h with
    | _ hc => first
      | exact hgo hc hkt rfl (fun l hl => by simpa [State.joinAct, hc, Pc.LogOk] using hl) (.inl rfl)
      | simp [State.goto] at hc'
  | quiet h =>
    cases h with
    | @start p₀ o₀ hc =>
      refine hgo hc hkt (Op.start_inside _).symm (fun l hl => ?_) (.inl (by cases o₀ <;> rfl))
      cases o₀ <;> simpa [State.joinAct, hc, Pc.LogOk, Op.start] using hl
    | _ hc => first
      | exact hgo hc hkt rfl (fun l hl => by simpa [State.joinAct, hc, Pc.LogOk] using hl) (.inl rfl)
      | exact hout hkt (by simp [Pc.inside])
      | simp at hc'
  | signal h =>
    cases h with
    | _ hc => first
      | exact hgo hc hkt rfl (fun l hl => by simpa [State.joinAct, hc, Pc.LogOk] using hl) (.inl rfl)
      | simp [State.goto] at hc'
  | insert h =>
    generalize hc : (s.kt _).ctl = x at h
    cases h <;> first
      | exact hgo hc hkt rfl (fun l hl => by simpa [State.joinAct, hc, Pc.LogOk] using hl) (.inl rfl)
      | simp [State.goto] at hc'
  | entry hc hcur h => simp at hc'
  | parkJoin h hq hx =>
    generalize hc : (s.kt _).ctl = x at h
    cases h <;> simp [State.goto] at hc'
  | parkSem h hq hx =>
    generalize hc : (s.kt _).ctl = x at h
    cases h <;> simp [State.goto] at hc'
  | dispSet hc hx hctx => exact .resumes hc
  | joinFinished hc hx hst =>
    refine hgo hc hkt rfl (fun l hl => ?_) (.inl rfl)
    simpa [State.joinAct, hc, State.stateOf, hx, hst, Pc.LogOk] using hl
  | joinBlock hc hx hst hy hj =>
    refine hgo hc hkt rfl (fun l hl a ha => ?_) (.inl rfl)
    have ha : a = .block ∨ a ∈ l := by
      simpa [State.joinAct, hc, State.stateOf, hx, hst] using ha
    obtain rfl | ha := ha
    · rfl
    · exact hl a ha
  | joinFinish hc hq hx hst =>
    refine hgo hc hkt rfl (fun l hl => ?_) (.inr ⟨_, _, _, _, rfl, hq, hx, hst, rfl⟩)
    simpa [State.joinAct, hc, Pc.LogOk] using hl
  | joinClear hc =>
    refine hgo hc hkt rfl (fun l hl => ⟨l, ?_, hl⟩) (.inl rfl)
    simp [State.joinAct, hc]
  | @joinDestroy k f p₀ u b rv q x hc hq hx =>
    obtain ⟨rfl, -⟩ : p₀ = p ∧ _ = pc' := by simpa [State.goto] using hc'
    refine hgo hc hkt rfl (fun l hl => ?_) (.inl rfl)
    obtain ⟨l', rfl, hl'⟩ := hl
    refine ⟨l', ?_, hl'⟩
    simp [State.joinAct, hc, ← ho _ _ _ hc]
  | _ hc => first
    | exact hgo hc hkt rfl (fun l hl => by simpa [State.joinAct, hc, Pc.LogOk] using hl) (.inl rfl)
    | exact hout hkt (by simp [Pc.inside])
    | simp [State.goto] at hc'

theorem Resume.pc_logOk (r : Resume) {o : Option Ptr} {l : List JoinAct} (hl : ∀ a ∈ l, a.early) :
    r.pc.LogOk o l := by
  cases r with
  | yielded o => cases o with
    | none => exact hl
    | some o => cases o <;> exact hl
  | _ => exact hl

theorem Resume.pc_delivers (r : Resume) : r.pc.delivers = none := by
  cases r with
  | yielded o => cases o with
    | none => rfl
    | some o => cases o <;> rfl
  | _ => rfl

theorem Pc.inside_of_delivers {pc : Pc} {pret : Bool} {rv : Option Val}
    (h : pc.delivers = some (t, pret, rv)) : pc.inside = some (.op (.join t pret), false) := by
  unfold Pc.delivers at h
  split at h <;> simp_all [Pc.inside]

/-! ### The run of a join -/

/-- The join of thread `p` returns the value with which the thread that it joins has exited. -/
def Delivered (h : List (State n × Event n)) (p : Ptr) (pret : Bool) (rv : Option Val) : Prop :=
  ∃ q v, joinTarget h p = some q ∧ Exited h q v ∧ rv = if pret then some v else none

/-- The changes made by the join of thread `p`, and the value that it is to return, at a point. -/
structure JoinPoint (h : List (State n × Event n)) (p : Ptr) (pc : Pc) : Prop where
  log : pc.LogOk (joinTarget h p) (joinLog h p)
  value : ∀ t pret rv, pc.delivers = some (t, pret, rv) → Delivered h p pret rv

/-- What holds of the joins of all threads. -/
structure JoinRunInv (h : List (State n × Event n)) (s : State n) : Prop where
  point : ∀ k p pc t pret, (s.kt k).ctl = .thread p pc →
    pc.inside = some (.op (.join t pret), false) → JoinPoint h p pc
  parked : ∀ p t pret, (s.suspended p).bind Resume.inside = some (.op (.join t pret), false) →
    ∀ a ∈ joinLog h p, a.early

theorem joinTarget_cons (hcall : s.callBy p e = none) :
    joinTarget ((s, e) :: h) p = joinTarget h p := by
  have hj : s.joinCall p e = none := by
    unfold State.joinCall
    split
    · simpa [State.callBy] using hcall
    · rfl
  simp [joinTarget, hj]

theorem joinLog_cons (hcall : s.callBy p e = none) :
    joinLog ((s, e) :: h) p = (s.joinAct p e).toList ++ joinLog h p := by
  simp [joinLog, hcall]

theorem Delivered.cons {pret : Bool} {rv : Option Val} (hd : Delivered h p pret rv)
    (hcall : s.callBy p e = none) : Delivered ((s, e) :: h) p pret rv := by
  obtain ⟨q, v, hq, hv, hrv⟩ := hd
  exact ⟨q, v, by rw [joinTarget_cons hcall, hq], hv.cons _, hrv⟩

/-- The acting kernel thread comes to a point of a join. -/
theorem JoinRunInv.joinStep (J : JoinRunInv h s) (hn : 0 < n) (hr : (machine n cfg).Run Obeys h s)
    (hs : s.step cfg e = some s') (ht : Trans cfg s e s') {pc' : Pc} {pret : Bool}
    (hc' : (s'.kt e.1).ctl = .thread p pc') (hin : pc'.inside = some (.op (.join t pret), false)) :
    JoinPoint ((s, e) :: h) p pc' := by
  have I := inv_of_reachable hn hr.reachable
  have hdestroy (u : Tid) (b : Bool) (rv : Option Val)
      (hc : (s.kt e.1).ctl = .thread p (.join u b (.destroy rv))) : s.tcbs u = joinTarget h p := by
    refine (joinTarget_of_joinsAt hn hr p u (.inl ⟨e.1, ?_⟩)).symm
    simp [hc, Ctl.joining, Pc.joins]
  cases ht.joinStep hc' hin hdestroy with
  | call hcall hlog hval =>
    constructor
    · have hnil : joinLog ((s, e) :: h) p = [] := by simp [joinLog, hcall]
      exact hnil ▸ hlog _
    · intro t pret rv hd
      simp [hval] at hd
  | resumes hc =>
    obtain ⟨rfl, x, hctx, hx⟩ := ht.resumes I hc (by rw [hc', Ctl.thread?])
    obtain rfl : pc' = x.resume.pc := by simpa [hc'] using hx
    have hsus : (s.suspended p).bind Resume.inside = some (.op (.join t pret), false) := by
      rw [State.suspended_eq_context, hctx]
      exact Resume.inside_of_pc hin
    have hcall := I.callBy_eq_none hs (.inr hsus)
    constructor
    · refine Resume.pc_logOk _ fun a ha => ?_
      rw [joinLog_cons hcall] at ha
      rcases List.mem_append.mp ha with ha | ha
      · exact State.joinAct_early (by simp [hc]) a ha
      · exact J.parked p t pret hsus a ha
    · intro t pret rv hd
      simp [Resume.pc_delivers] at hd
  | @goes pc hc hpc hlog hval =>
    have hJ := J.point e.1 p pc t pret hc (hpc.trans hin)
    have hcall := I.callBy_eq_none hs (.inl ⟨e.1, by rw [hc, Ctl.inside, hpc, hin]; rfl⟩)
    constructor
    · rw [joinTarget_cons hcall, joinLog_cons hcall]
      exact hlog _ hJ.log
    · intro u b rv hd
      obtain hval | ⟨u', b', q, x, rfl, hq, hx, hst, hval⟩ := hval
      · exact (hJ.value u b rv (hval ▸ hd)).cons hcall
      · obtain ⟨rfl, rfl, rfl⟩ : u' = u ∧ b' = b ∧ _ = rv := by simpa [hd, eq_comm] using hval
        have htgt := joinTarget_of_joinsAt hn hr p u' (.inl ⟨e.1, by simp [hc, Ctl.joining, Pc.joins]⟩)
        exact Delivered.cons ⟨q, x.retval, by rw [htgt, hq], exited_of_finished hn hr q x hx hst, rfl⟩ hcall

/-- What holds of the joins is kept by a step. -/
theorem JoinRunInv.step (J : JoinRunInv h s) (hn : 0 < n) (hr : (machine n cfg).Run Obeys h s)
    (o : Obeys s e) (hs : s.step cfg e = some s') (ht : Trans cfg s e s') :
    JoinRunInv ((s, e) :: h) s' := by
  have I := inv_of_reachable hn hr.reachable
  constructor
  · intro k p pc t pret hc' hin
    by_cases hk : k = e.1
    · subst hk
      exact J.joinStep hn hr hs ht hc' hin
    · -- the thread is executed by a kernel thread that does not act
      rw [ht.kt_of_ne hk] at hc'
      have hcall := I.callBy_eq_none hs (.inl ⟨k, by rw [hc', Ctl.inside, hin]; rfl⟩)
      have hact := I.joinAct_eq_none (e := e) (by rw [hc', Ctl.thread?]) hk
      have hJ := J.point k p pc t pret hc' hin
      constructor
      · rw [joinTarget_cons hcall, joinLog_cons hcall, hact]
        exact hJ.log
      · intro u b rv hd
        exact (hJ.value u b rv hd).cons hcall
  · intro p t pret hsus a ha
    rw [State.suspended_eq_context] at hsus
    cases ht.suspends I o.alloc p with
    | same heq =>
      rw [heq, ← State.suspended_eq_context] at hsus
      rw [joinLog_cons (I.callBy_eq_none hs (.inr hsus))] at ha
      rcases List.mem_append.mp ha with ha | ha
      · refine State.joinAct_early (fun u b rv => ⟨fun hc => ?_, fun hc => ?_⟩) a ha
        all_goals
          have hth : (s.kt e.1).ctl.thread? = some p := by rw [hc, Ctl.thread?]
          simp [State.suspended_eq_context, State.context_of_executed hth] at hsus
      · exact J.parked p t pret hsus a ha
    | @saves r hc hc' hctx =>
      have hin : r.inside = some (.op (.join t pret), false) := by simpa [hctx] using hsus
      have hJ := J.point e.1 p _ t pret hc hin
      rw [joinLog_cons (I.callBy_eq_none hs (.inl ⟨e.1, by rw [hc, Ctl.inside, Pc.inside, hin]; rfl⟩))] at ha
      rcases List.mem_append.mp ha with ha | ha
      · exact State.joinAct_early (by simp [hc]) a ha
      · exact hJ.log a ha
    | resumes hc hc' hctx hctx' => simp [hctx'] at hsus
    | creates hc hq hctx => simp [hctx, Resume.inside] at hsus
    | frees hc hctx => simp [State.context_of_heap_eq_none (hctx p)] at hsus

/-- What holds of the joins, in a run that has not stopped. -/
theorem joinRunInv_of_run (hn : 0 < n) (hr : (machine n cfg).Run Obeys h s) :
    s.halt = none → JoinRunInv h s := by
  refine hr.history_invariant (I := fun h s => s.halt = none → JoinRunInv h s) ?_ ?_
  · intro _
    constructor
    · intro k p pc t pret hc hin
      have hcall : (State.init n cfg).InCall p (.op (.join t pret), false) := by
        refine .inl ⟨k, ?_⟩
        rw [show ((State.init n cfg).kt k).ctl = _ from hc, Ctl.inside, hin]
        rfl
      exact absurd hcall (State.init_not_inCall hn p _)
    · intro p t pret hsus
      exact absurd (.inr hsus) (State.init_not_inCall hn p (.op (.join t pret), false))
  · intro h s e s' hr ih o hs hh
    obtain rfl | rfl | ht := State.step_cases hs
    · simp [State.abort] at hh
    · simp [State.fault] at hh
    · exact (ih (ht.halt_eq ▸ hh)).step hn hr o hs ht

/-! ### What a join leaves alone -/

/-- Kernel thread `k` takes a step of the join of thread `p`: it executes `p` inside `uthread_join`, or its
scheduler parks `p`. -/
def State.JoinsIn (s : State n) (k : Fin n) (p : Ptr) : Prop :=
  (∃ t pret, (s.kt k).ctl.inside = some (p, .op (.join t pret), false)) ∨
    (s.kt k).ctl = .sched (.joinBody p)

/-- The table and the bit vector after a change made by a join. -/
def JoinAct.effect (s : State n) : Option JoinAct → (Tid → Option Ptr) × Bitvec
  | some (.reclaim t) => (s.tcbs, bitvecClear s.bitvec (t - tidMain))
  | some (.destroy t _) => (Function.update s.tcbs t none, s.bitvec)
  | _ => (s.tcbs, s.bitvec)

/-- A step of the join of thread `p`, which joins thread `o`, writes no control block but those two, and
it changes the table and the bit vector as its record says. At a point of `uthread_join` where nothing is
recorded it writes no control block at all. -/
structure JoinFrame (s : State n) (e : Event n) (s' : State n) (p : Ptr) (o : Option Ptr) : Prop where
  others : ∀ r, r ≠ p → o ≠ some r → s'.heap r = s.heap r
  own : s.joinAct p e = none → (∃ t pret x, (s.kt e.1).ctl = .thread p (.join t pret x)) →
    s'.heap = s.heap
  tables : (s'.tcbs, s'.bitvec) = JoinAct.effect s (s.joinAct p e)
  queues : s'.rqueue = s.rqueue ∧ s'.sems = s.sems

theorem State.setTcb_heap_of_ne {x : Tcb} {r : Ptr} (hr : r ≠ q) : (s.setTcb q x).heap r = s.heap r :=
  Function.update_of_ne hr _ _

theorem State.JoinsIn.eq_of_thread {p₀ : Ptr} {pc : Pc} (hj : s.JoinsIn k p)
    (hc : (s.kt k).ctl = .thread p₀ pc) : p₀ = p := by
  obtain ⟨t, pret, hin⟩ | hin := hj
  · simpa [hc, Ctl.thread?] using Ctl.thread?_of_inside hin
  · simp [hc] at hin

theorem Trans.joinFrame (h : Trans cfg s e s') (I : Inv s) {f : Option AllocSite} (he : e.2 = .run f)
    (hj : s.JoinsIn e.1 p) {o : Option Ptr} (ho : ∀ t, s.JoinsAt p t → s.tcbs t = o) :
    JoinFrame s e s' p o := by
  have hnone (hh : s'.heap = s.heap) (ht : s'.tcbs = s.tcbs) (hb : s'.bitvec = s.bitvec)
      (hq : s'.rqueue = s.rqueue) (hs : s'.sems = s.sems) (ha : s.joinAct p e = none) :
      JoinFrame s e s' p o :=
    ⟨fun r _ _ => congrFun hh r, fun _ _ => hh, by simp [ha, JoinAct.effect, ht, hb], hq, hs⟩
  -- a step that writes the control block of the caller only
  have hself {c : Ptr} {x : Tcb} (hh : s'.heap = (s.setTcb c x).heap) (hcp : c = p)
      (hpc : ∀ t pret y, (s.kt e.1).ctl = .thread p (.join t pret y) → s.joinAct p e ≠ none)
      (heff : JoinAct.effect s (s.joinAct p e) = (s.tcbs, s.bitvec)) (ht : s'.tcbs = s.tcbs)
      (hb : s'.bitvec = s.bitvec) (hq : s'.rqueue = s.rqueue) (hs : s'.sems = s.sems) :
      JoinFrame s e s' p o := by
    subst hcp
    refine ⟨fun r hr _ => ?_, fun ha ⟨t, pret, y, hc⟩ => absurd ha (hpc t pret y hc), ?_, hq, hs⟩
    · rw [hh, State.setTcb_heap_of_ne hr]
    · rw [heff, ht, hb]
  cases h with
  | call | tick | deliver => cases he
  | acquire h =>
    refine hnone rfl rfl rfl rfl rfl ?_
    generalize hc : (s.kt _).ctl = x at h
    cases h <;> simp [State.joinAct, hc]
  | release h =>
    refine hnone rfl rfl rfl rfl rfl ?_
    cases h with
    | _ hc => simp [State.joinAct, hc]
  | quiet h =>
    refine hnone rfl rfl rfl rfl rfl ?_
    cases h with
    | _ hc => simp [State.joinAct, hc]
  | signal h =>
    cases h with
    | _ hc => exact hnone rfl rfl rfl rfl rfl (by simp [State.joinAct, hc])
  | exitSwitch hc | joinRead hc | waitRead hc | teardownRead hc | dispSet hc | schedExit hc =>
    exact hnone rfl rfl rfl rfl rfl (by simp [State.joinAct, hc])
  | joinFinished hc hx hst =>
    exact hnone rfl rfl rfl rfl rfl (by simp [State.joinAct, hc, State.stateOf, hx, hst])
  | joinFinish hc => exact hnone rfl rfl rfl rfl rfl (by simp [State.joinAct, hc])
  | @swap k f p₀ c x r hc hx =>
    obtain rfl := hj.eq_of_thread hc
    have hcp := I.table.locals k
    simp only [hc, Ctl.LocalsOk, Pc.curs, List.mem_cons, forall_eq_or_imp, Option.some.injEq] at hcp
    refine hself rfl hcp.1 (by simp [hc]) ?_ rfl rfl rfl rfl
    cases r <;> simp [State.joinAct, hc, JoinAct.effect]
  | @yieldBody k f p₀ o₀ c x hc hcur hx hst =>
    obtain rfl := hj.eq_of_thread hc
    obtain rfl : p₀ = c := by simpa [I.table.currentTcb_thread hc] using hcur
    exact hself rfl rfl (by simp [hc]) (by simp [State.joinAct, hc, JoinAct.effect]) rfl rfl rfl rfl
  | @joinBlock k f p₀ t pret c q x y hc hx hst hy hjq =>
    obtain rfl := hj.eq_of_thread hc
    have hcp := I.table.locals k
    simp only [hc, Ctl.LocalsOk, Pc.curs, List.mem_cons, List.not_mem_nil, or_false, forall_eq,
      Option.some.injEq] at hcp
    have hact : s.joinAct p₀ (k, .run f) = some .block := by
      simp [State.joinAct, hc, State.stateOf, hx, hst]
    exact hself rfl hcp (by simp [hact]) (by simp [hact, JoinAct.effect]) rfl rfl rfl rfl
  | @joinClear k f p₀ t pret rv hc =>
    obtain rfl := hj.eq_of_thread hc
    exact ⟨fun _ _ _ => rfl, fun _ _ => rfl, by simp [State.joinAct, hc, JoinAct.effect, State.goto,
      State.setK], rfl, rfl⟩
  | @joinDestroy k f p₀ t pret rv q x hc hq hx =>
    obtain rfl := hj.eq_of_thread hc
    have hact : s.joinAct p₀ (k, .run f) = some (.destroy t (s.tcbs t)) := by simp [State.joinAct, hc]
    have htgt := ho t (.inl ⟨k, by simp [hc, Ctl.joining, Pc.joins]⟩)
    refine ⟨fun r _ hr => ?_, by simp [hact], by simp [hact, JoinAct.effect, State.goto, State.setK],
      rfl, rfl⟩
    refine Function.update_of_ne (fun h => hr ?_) _ _
    rw [← htgt, hq, h]
  | @parkJoin k f cur c q x h hq hx =>
    generalize hc : (s.kt k).ctl = y at h
    cases h with
    | sem => simp [State.JoinsIn, hc, Ctl.inside] at hj
    | join =>
      obtain rfl : cur = p := by simpa [State.JoinsIn, hc, Ctl.inside] using hj
      obtain ⟨t, pret, hsus⟩ := I.joined_of_joinBody hc
      obtain ⟨q', hq', htq, -⟩ := I.join.handing k t (.inr ⟨by simp [KThread.hands, hc], cur, pret,
        by simp [State.exec, KThread.exec, SchedPc.moving, hc], hsus⟩)
      obtain rfl : q = q' := by simpa [hq] using hq'
      have htgt := ho t (.inr (by simp [hsus, Resume.joins]))
      have hact : s.joinAct cur (k, .run f) = some .park := by simp [State.joinAct, hc]
      refine ⟨fun r _ hr => ?_, by simp [hact], by simp [hact, JoinAct.effect, State.goto, State.setK,
        State.setTcb], rfl, rfl⟩
      refine State.setTcb_heap_of_ne fun h => hr ?_
      rw [← htgt, htq, h]
  | insert h =>
    generalize hc : (s.kt _).ctl = y at h
    cases h <;> simp [State.JoinsIn, hc, Ctl.inside, Pc.inside] at hj
  | parkSem h hq hx =>
    have hc := (I.parks_sem h hq).1
    simp [State.JoinsIn, hc, Ctl.inside] at hj
  | _ hc => simp [State.JoinsIn, hc, Ctl.inside, Pc.inside] at hj

/-- **Join delivers the exit value.** While `tcbs_lock` is free, no thread is in the join queue of a
finished thread. A thread that is about to return from `uthread_join(t, pret)` returns `0` and, through
`pret`, the value with which the thread that it joins has exited; the last changes that the call made are
the release of `t` and the removal of the table entry. Its steps write no control block but those of the
two threads. -/
theorem join_delivers (hn : 0 < n) (hr : (machine n cfg).Run Obeys h s) :
    (s.owner .tcbs = none → ∀ q, s.stateOf q = some .finished → s.joinQueue q = []) ∧
    (∀ k p t pret rv, s.halt = none → (s.kt k).ctl = .thread p (.join t pret (.ret rv)) →
      lastCall h p = some (.op (.join t pret)) ∧
      (∃ q v l, joinTarget h p = some q ∧ Exited h q v ∧ rv = (if pret then some v else none) ∧
        joinLog h p = .destroy t (some q) :: .reclaim t :: l ∧ ∀ a ∈ l, a.early) ∧
      ∀ f, s.step cfg (k, .run f) = some (s.setK k
        { (s.kt k).unblock cfg with ctl := .thread p (.user (.joined t rv 0)) })) ∧
    ∀ k p f s', s.JoinsIn k p → s.step cfg (k, .run f) = some s' → s'.halt = none →
      JoinFrame s (k, .run f) s' p (joinTarget h p) := by
  have I := inv_of_reachable hn hr.reachable
  refine ⟨fun ho q hq => I.joinQueue_of_finished ho hq, ?_, ?_⟩
  · intro k p t pret rv hh hc
    have hin : s.InCall p (.op (.join t pret), false) := .inl ⟨k, by simp [hc, Ctl.inside, Pc.inside]⟩
    have J := (joinRunInv_of_run hn hr hh).point k p _ t pret hc rfl
    obtain ⟨q, v, hq, hv, hrv⟩ := J.value t pret rv rfl
    obtain ⟨l, hl, hearly⟩ := J.log
    refine ⟨lastCall_of_inCall hn hr p _ _ hin, ⟨q, v, l, hq, hv, hrv, hq ▸ hl, hearly⟩, fun f => ?_⟩
    simp [State.step, hh, State.stepRun, hc, State.stepThread, State.stepJoin]
  · intro k p f s' hj hs hh
    obtain rfl | rfl | ht := State.step_cases hs
    · simp [State.abort] at hh
    · simp [State.fault] at hh
    · exact ht.joinFrame I rfl hj fun t ht => (joinTarget_of_joinsAt hn hr p t ht).symm

/-- The main thread has blocked in a join of a thread that then exited with the value `7`. -/
theorem join_delivers_blocked : ∃ (h : List (State 1 × Event 1)) (s : State 1),
    (s.kt 0).ctl = .thread mainTcb (.join 1 true (.ret (some 7))) ∧ Exited h 1 7 ∧
      joinLog h mainTcb = [.destroy 1 (some 1), .reclaim 1, .park, .save, .block] := by
  obtain ⟨h, s, hr, hs⟩ := EventMachine.exists_run_of_exec
    (M := machine 1 ⟨0⟩) (P := Obeys)
    (runs 0 2 ++ [(0, .call (.op (.create false)))] ++ runs 0 12 ++
      [(0, .call (.op (.join 1 true)))] ++ runs 0 22 ++
      [(0, .call (.op (.exit 7)))] ++ runs 0 30)
    (p := fun x => x.2.halt = none ∧
      (x.2.kt 0).ctl = .thread mainTcb (.join 1 true (.ret (some 7))) ∧
      joinTarget x.1 mainTcb = some 1 ∧
      joinLog x.1 mainTcb = [.destroy 1 (some 1), .reclaim 1, .park, .save, .block]) (by decide +kernel)
  obtain ⟨hh, hc, ht, hl⟩ : s.halt = none ∧
      (s.kt 0).ctl = .thread mainTcb (.join 1 true (.ret (some 7))) ∧
      joinTarget h mainTcb = some 1 ∧
      joinLog h mainTcb = [.destroy 1 (some 1), .reclaim 1, .park, .save, .block] := of_decide_eq_true hs
  obtain ⟨-, ⟨q, v, -, hq, hv, hrv, -⟩, -⟩ := (join_delivers Nat.one_pos hr).2.1 0 mainTcb 1 true (some 7) hh hc
  obtain rfl : 1 = q := by simpa [ht] using hq
  obtain rfl : 7 = v := by simpa using hrv
  exact ⟨h, s, hc, hv, hl⟩

end Uthread
