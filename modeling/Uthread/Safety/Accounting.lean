import Uthread.Safety.Calls
import Uthread.Safety.Wakeup

/-!
# Semaphore accounting

Along a run we count what happens to a semaphore since its last initialisation: the increments of
`uthread_sem_post`, the decrements of `uthread_sem_wait`, and the waits that have returned. The counter
is the initial value plus the increments less the decrements, as long as this sum fits into an `int`,
and it is never negative. A wait decrements the counter once, however often it was woken.

## Main definitions

* `CounterAct`, `Tally`, `tally`: the steps on a semaphore and their count.
* `callDecs`: the decrements of a thread since its latest call.
* `Bracketed`: every post on a semaphore is called by a thread that has passed a wait on it.

## Main results

* `sem_accounting`.
-/

namespace Uthread

variable {n : ℕ} {cfg : Config} {s s' : State n} {e : Event n} {k : Fin n} {p : Ptr} {i : SemId}
  {h : List (State n × Event n)}

/-! ### Counting -/

/-- A step on a semaphore: it is initialised, destroyed, incremented or decremented by a thread, or a
wait on it returns. -/
inductive CounterAct
  | init (v : ℤ)
  | destroy
  | inc (p : Ptr)
  | dec (p : Ptr)
  | ret
  deriving DecidableEq

/-- What an event does on a semaphore. -/
def State.counterAct (s : State n) : Event n → Option (SemId × CounterAct)
  | (k, .run _) =>
    match (s.kt k).ctl with
    | .thread _ (.semInit i v) => some (i, .init v)
    | .thread _ (.semDestroy i) => some (i, .destroy)
    | .thread p (.post i .body) => if (s.sems i).isSome then some (i, .inc p) else none
    | .thread p (.wait i .dec) =>
      if (s.sems i).any (0 < ·.counter) then some (i, .dec p) else none
    | .thread _ (.wait i .ret) => some (i, .ret)
    | _ => none
  | _ => none

/-- What has happened to a semaphore since it was initialised with `value`. `leaving` are the kernel
threads on which a wait has decremented the counter and not yet returned, `holders` the threads that
have decremented it and not yet incremented it again. -/
structure Tally (n : ℕ) where
  value : ℤ
  incs : ℕ := 0
  decs : ℕ := 0
  rets : ℕ := 0
  leaving : List (Fin n) := []
  holders : List Ptr := []

/-- One more step, taken by kernel thread `k`. -/
def Tally.next (o : Option (Tally n)) (k : Fin n) : CounterAct → Option (Tally n)
  | .init v => some { value := v }
  | .destroy => none
  | .inc p => o.map fun t => { t with incs := t.incs + 1, holders := t.holders.erase p }
  | .dec p => o.map fun t =>
      { t with decs := t.decs + 1, leaving := k :: t.leaving, holders := p :: t.holders }
  | .ret => o.map fun t =>
      if k ∈ t.leaving then { t with rets := t.rets + 1, leaving := t.leaving.erase k } else t

/-- What has happened to semaphore `i` in a history. -/
def tally : List (State n × Event n) → SemId → Option (Tally n)
  | [], _ => none
  | (s, e) :: h, i =>
    match s.counterAct e with
    | some (j, a) => if j = i then Tally.next (tally h i) e.1 a else tally h i
    | none => tally h i

/-- The decrements that thread `p` has made since its latest call. -/
def callDecs : List (State n × Event n) → Ptr → ℕ
  | [], _ => 0
  | (s, e) :: h, p =>
    if (s.callBy p e).isSome then 0
    else if (s.counterAct e).any (·.2 = .dec p) then callDecs h p + 1 else callDecs h p

/-- Whenever a thread calls `uthread_sem_post` on `i`, it has passed a wait on `i` and not posted
since. -/
def Bracketed : List (State n × Event n) → SemId → Prop
  | [], _ => True
  | (s, e) :: h, i => Bracketed h i ∧
    ∀ p, s.callBy p e = some (.op (.semPost i)) → ∃ t, tally h i = some t ∧ p ∈ t.holders

/-! ### The steps on a semaphore and its counter -/

/-- What a step does to the counter of semaphore `i`. -/
inductive Counts (s : State n) (e : Event n) (s' : State n) (i : SemId) : Prop
  | frame (ha : ∀ a, s.counterAct e = some (i, a) → a = .ret)
      (hs : (s'.sems i).map (·.counter) = (s.sems i).map (·.counter))
  | init {p v f} (ha : s.counterAct e = some (i, .init v)) (he : e.2 = .run f)
      (hc : (s.kt e.1).ctl = .thread p (.semInit i v)) (hs : s'.sems i = some ⟨v, []⟩)
  | destroy {p f} (ha : s.counterAct e = some (i, .destroy)) (he : e.2 = .run f)
      (hc : (s.kt e.1).ctl = .thread p (.semDestroy i)) (hs : s'.sems i = none)
  | inc {p x f} (ha : s.counterAct e = some (i, .inc p)) (he : e.2 = .run f)
      (hc : (s.kt e.1).ctl = .thread p (.post i .body)) (hx : s.sems i = some x)
      (hs : (s'.sems i).map (·.counter) = some (intIncr x.counter))
  | dec {p x f} (ha : s.counterAct e = some (i, .dec p)) (he : e.2 = .run f)
      (hc : (s.kt e.1).ctl = .thread p (.wait i .dec)) (hx : s.sems i = some x)
      (h0 : 0 < x.counter) (hs : (s'.sems i).map (·.counter) = some (x.counter - 1))

theorem Trans.counts (h : Trans cfg s e s') (i : SemId) : Counts s e s' i := by
  have hframe (ha : s.counterAct e = none) (hs : s'.sems = s.sems) : Counts s e s' i :=
    .frame (by simp [ha]) (by rw [hs])
  cases h with
  | call | tick | deliver => exact hframe rfl rfl
  | acquire h | insert h | parkJoin h =>
    generalize hc : (s.kt _).ctl = c at h
    cases h <;> exact hframe (by simp [State.counterAct, hc]) rfl
  | release h =>
    cases h with
    | _ hc => exact hframe (by simp [State.counterAct, hc]) rfl
  | quiet h =>
    cases h with
    | waitRet hc => exact .frame (by simp [State.counterAct, hc]) rfl
    | _ hc => exact hframe (by simp [State.counterAct, hc]) rfl
  | signal h =>
    cases h with
    | _ hc => exact hframe (by simp [State.counterAct, hc]) rfl
  | @parkSem k f cur c j x h hq hx =>
    refine .frame (fun a ha => ?_) ?_
    · generalize hc : (s.kt _).ctl = c at h
      cases h <;> simp [State.counterAct, hc] at ha
    · by_cases hij : i = j
      · subst hij
        simp [State.goto, State.setK, State.setSem, hx]
      · simp [State.goto, State.setK, State.setSem, Function.update_of_ne hij]
  | @semInit k f p j v hc =>
    by_cases hij : i = j
    · subst hij
      exact .init (by simp [State.counterAct, hc]) rfl hc
        (by simp [State.goto, State.setK, State.setSem])
    · refine .frame (fun a ha => ?_) ?_
      · simp [State.counterAct, hc, Ne.symm hij] at ha
      · simp [State.goto, State.setK, State.setSem, Function.update_of_ne hij]
  | @semDestroy k f p j hc =>
    by_cases hij : i = j
    · subst hij
      exact .destroy (by simp [State.counterAct, hc]) rfl hc (by simp [State.setK, State.setSem])
    · refine .frame (fun a ha => ?_) ?_
      · simp [State.counterAct, hc, Ne.symm hij] at ha
      · simp [State.setK, State.setSem, Function.update_of_ne hij]
  | @postBump k f p j x hc hx hq | @postWake k f p j x q rest hc hx hq | @waitDec k f p j x hc hx h0 =>
    by_cases hij : i = j
    · subst hij
      first
        | exact .inc (by simp [State.counterAct, hc, hx]) rfl hc hx
            (by simp [State.goto, State.setK, State.setSem])
        | exact .dec (by simp [State.counterAct, hc, hx, h0]) rfl hc hx h0
            (by simp [State.goto, State.setK, State.setSem])
    · refine .frame (fun a ha => ?_) ?_
      · simp [State.counterAct, hc, hx, Ne.symm hij] at ha
      · simp [State.goto, State.setK, State.setSem, Function.update_of_ne hij]
  | exitSwitch hc | swap hc | dispSet hc => exact hframe (by simp [State.counterAct, hc]) rfl
  | _ hc => exact hframe (by simp [State.counterAct, hc]) rfl

/-- A step that stops the run does nothing on a semaphore. -/
theorem State.counterAct_of_halt (hs : s.step cfg e = some s') (hh : s'.halt ≠ none) :
    s.counterAct e = none := by
  have hhalt : s.halt = none := by
    by_contra hne
    simp [State.step, hne] at hs
  obtain ⟨k, j⟩ := e
  cases j with
  | run f =>
    simp only [State.step, hhalt, if_true, State.stepRun] at hs
    simp only [State.counterAct]
    split
    · next hc =>
      simp only [hc] at hs
      exact absurd (Option.some.inj hs ▸ hhalt) hh
    · next hc =>
      simp only [hc] at hs
      exact absurd (Option.some.inj hs ▸ hhalt) hh
    · next p i hc =>
      simp only [hc, State.stepThread, State.stepPost, State.withSem] at hs
      cases hx : s.sems i with
      | none => simp
      | some x =>
        simp only [hx] at hs
        split at hs <;> exact absurd (Option.some.inj hs ▸ hhalt) hh
    · next p i hc =>
      simp only [hc, State.stepThread, State.stepWait, State.withSem] at hs
      cases hx : s.sems i with
      | none => simp
      | some x =>
        simp only [hx] at hs
        split_ifs at hs with h0
        · exact absurd (Option.some.inj hs ▸ hhalt) hh
        · simp [h0]
    · next hc =>
      simp only [hc] at hs
      exact absurd (Option.some.inj hs ▸ hhalt) hh
    · rfl
  | _ => rfl

/-- The step from a point that changes a counter does so, unless it stops the run. -/
theorem State.counterAct_of_counts {f : Option AllocSite} (hs : s.step cfg (k, .run f) = some s')
    (hh : s'.halt = none) (hc : (s.kt k).ctl = .thread p (.wait i .dec)) :
    s.counterAct (k, .run f) = some (i, .dec p) := by
  have hhalt := State.halt_of_step hs
  simp only [State.step, hhalt, if_true, State.stepRun, hc, State.stepThread, State.stepWait,
    State.withSem] at hs
  cases hx : s.sems i with
  | none =>
    simp only [hx, Option.some.injEq] at hs
    simp [← hs, State.fault] at hh
  | some x =>
    simp only [hx] at hs
    split_ifs at hs with h0
    · simp [State.counterAct, hc, hx, h0]
    · simp only [Option.some.injEq] at hs
      simp [← hs, State.abort] at hh

theorem State.counterAct_dec (ha : s.counterAct e = some (i, .dec p)) :
    ∃ f, e.2 = .run f ∧ (s.kt e.1).ctl = .thread p (.wait i .dec) := by
  unfold State.counterAct at ha
  split at ha
  · split at ha <;> simp_all
  · cases ha

theorem State.counterAct_inc (ha : s.counterAct e = some (i, .inc p)) :
    ∃ f, e.2 = .run f ∧ (s.kt e.1).ctl = .thread p (.post i .body) := by
  unfold State.counterAct at ha
  split at ha
  · split at ha <;> simp_all
  · cases ha

/-- A thread is about to decrement a counter that it has found not to be zero. -/
theorem Trans.passes (h : Trans cfg s e s') (hc' : (s'.kt e.1).ctl = .thread p (.wait i .dec)) :
    s'.sems = s.sems ∧ ((s.kt e.1).ctl = .thread p (.wait i .dec) ∨
      ∃ x, s.sems i = some x ∧ x.counter ≠ 0) := by
  cases h with
  | call hc =>
    rename_i c _ _
    cases c with
    | op o => cases o <;> simp [Call.enter] at hc'
    | _ => simp [Call.enter] at hc'
  | tick => exact ⟨rfl, .inl (by simpa using hc')⟩
  | deliver => exact ⟨rfl, .inl (by simpa using hc')⟩
  | acquire h | insert h | parkJoin h | parkSem h =>
    generalize hc : (s.kt _).ctl = c at h
    cases h <;> simp [State.goto] at hc'
  | release h => cases h <;> simp [State.goto] at hc'
  | quiet h =>
    cases h with
    | waitPass hc hx h0 =>
      obtain ⟨rfl, rfl⟩ : _ = p ∧ _ = i := by simpa using hc'
      exact ⟨rfl, .inr ⟨_, hx, h0⟩⟩
    | @start p o hc => cases o <;> simp [Op.start] at hc'
    | _ hc => simp at hc'
  | signal h => cases h <;> simp [State.goto] at hc'
  | @dispSet k f q x c hc hx hctx =>
    have hpc : c.resume.pc = .wait i .dec := by simpa using (Ctl.thread.inj (by simpa using hc')).2
    cases hr : c.resume with
    | yielded o =>
      cases o with
      | none => simp [hr, Resume.pc] at hpc
      | some o => cases o <;> simp [hr, Resume.pc, Op.start] at hpc
    | _ => simp [hr, Resume.pc] at hpc
  | _ hc => simp [State.goto] at hc'

/-! ### The invariant -/

/-- The counter of a semaphore is the one that the count gives, as long as it fits into an `int`. -/
structure TallyInv (h : List (State n × Event n)) (s : State n) (i : SemId) : Prop where
  tally : ∀ x, s.sems i = some x → ∃ t, tally h i = some t ∧ 0 ≤ t.value ∧
    t.decs = t.rets + t.leaving.length ∧
    (t.value + t.incs ≤ 2 ^ 31 - 1 → x.counter = t.value + t.incs - t.decs ∧ 0 ≤ x.counter)
  passes : ∀ k p x, (s.kt k).ctl = .thread p (.wait i .dec) → s.sems i = some x → x.counter ≠ 0

theorem tally_of_ne (ha : ∀ a, s.counterAct e ≠ some (i, a)) :
    tally ((s, e) :: h) i = tally h i := by
  simp only [tally]
  split
  · next j a hact =>
    rw [if_neg]
    rintro rfl
    exact ha a hact
  · rfl

theorem tally_of_act {a : CounterAct} (ha : s.counterAct e = some (i, a)) :
    tally ((s, e) :: h) i = Tally.next (tally h i) e.1 a := by
  simp [tally, ha]

theorem TallyInv.step_tally (T : TallyInv h s i) (hs : SemOk s e) (ha : Counts s e s' i) (x' : Sem)
    (hx' : s'.sems i = some x') : ∃ t, Uthread.tally ((s, e) :: h) i = some t ∧ 0 ≤ t.value ∧
      t.decs = t.rets + t.leaving.length ∧ (t.value + t.incs ≤ 2 ^ 31 - 1 →
        x'.counter = t.value + t.incs - t.decs ∧ 0 ≤ x'.counter) := by
  cases ha with
  | frame hret hs' =>
    obtain ⟨x, hx, hcounter⟩ : ∃ x, s.sems i = some x ∧ x.counter = x'.counter := by
      rw [hx'] at hs'
      simpa using hs'.symm
    obtain ⟨t, ht, hv, hdecs, hcount⟩ := T.tally x hx
    by_cases hact : s.counterAct e = some (i, .ret)
    · rw [tally_of_act hact, ht]
      by_cases hk : e.1 ∈ t.leaving
      · refine ⟨{ t with rets := t.rets + 1, leaving := t.leaving.erase e.1 },
          by simp [Tally.next, hk], hv, ?_, hcounter ▸ hcount⟩
        have hlen := List.length_erase_of_mem hk
        have hpos := List.length_pos_of_mem hk
        simp only
        omega
      · exact ⟨t, by simp [Tally.next, hk], hv, hdecs, hcounter ▸ hcount⟩
    · refine ⟨t, ?_, hv, hdecs, hcounter ▸ hcount⟩
      rw [tally_of_ne, ht]
      rintro a ha
      obtain rfl := hret a ha
      exact hact ha
  | @init p v f hact he hc hs' =>
    obtain rfl := Option.some.inj (hs'.symm.trans hx')
    refine ⟨{ value := v }, by rw [tally_of_act hact]; rfl, (hs.not_parks he hc).1, rfl, fun _ => ?_⟩
    simpa using (hs.not_parks he hc).1
  | destroy hact he hc hs' => simp [hs'] at hx'
  | @inc p x f hact he hc hx hs' =>
    obtain ⟨t, ht, hv, hdecs, hcount⟩ := T.tally x hx
    have hcounter : x'.counter = intIncr x.counter := by simpa [hx'] using hs'
    refine ⟨{ t with incs := t.incs + 1, holders := t.holders.erase p },
      by rw [tally_of_act hact, ht]; rfl, hv, hdecs, fun hle => ?_⟩
    simp only [Nat.cast_add, Nat.cast_one] at hle ⊢
    obtain ⟨heq, h0⟩ := hcount (by omega)
    rw [hcounter, intIncr_eq h0 (by omega)]
    omega
  | @dec p x f hact he hc hx h0 hs' =>
    obtain ⟨t, ht, hv, hdecs, hcount⟩ := T.tally x hx
    have hcounter : x'.counter = x.counter - 1 := by simpa [hx'] using hs'
    refine ⟨{ t with
        decs := t.decs + 1, leaving := e.1 :: t.leaving, holders := p :: t.holders },
      by rw [tally_of_act hact, ht]; rfl, hv, ?_, fun hle => ?_⟩
    · simp only [List.length_cons]
      omega
    · obtain ⟨heq, -⟩ := hcount hle
      simp only [Nat.cast_add, Nat.cast_one]
      omega

theorem TallyInv.step_passes (T : TallyInv h s i) (hL : LockInv s (.sem i)) (hs : SemOk s e)
    (ht : Trans cfg s e s') (k : Fin n) (p : Ptr) (x' : Sem)
    (hc' : (s'.kt k).ctl = .thread p (.wait i .dec)) (hx' : s'.sems i = some x') :
    x'.counter ≠ 0 := by
  by_cases hk : k = e.1
  · subst hk
    obtain ⟨hsems, hc | ⟨x, hx, h0⟩⟩ := ht.passes hc'
    · exact T.passes _ p x' hc (hsems ▸ hx')
    · rw [hsems, hx] at hx'
      exact Option.some.inj hx' ▸ h0
  · rw [ht.kt_of_ne hk] at hc'
    have hheld : Lock.sem i ∈ (s.kt k).held := by simp [KThread.held, Pc.held, hc']
    cases ht.counts i with
    | frame _ hs' =>
      obtain ⟨x, hx, hcounter⟩ : ∃ x, s.sems i = some x ∧ x.counter = x'.counter := by
        rw [hx'] at hs'
        simpa using hs'.symm
      exact hcounter ▸ T.passes k p x hc' hx
    | init _ he hc =>
      obtain ⟨j, a⟩ := e
      obtain rfl : a = _ := he
      simp only [SemOk, hc, Ctl.pc?, Option.mem_some_iff, forall_eq', Pc.SemOk] at hs
      exact absurd (.inl ⟨k, KThread.uses_of_held hheld⟩) hs.2
    | destroy _ _ _ hs' => simp [hs'] at hx'
    | inc _ _ hc => exact absurd (hL.unique hheld (by simp [KThread.held, Pc.held, hc])) hk
    | dec _ _ hc => exact absurd (hL.unique hheld (by simp [KThread.held, Pc.held, hc])) hk

theorem tallyInv_of_run (hr : (machine n cfg).Run SemOk h s) (i : SemId) : TallyInv h s i := by
  refine hr.history_invariant (I := fun h s => TallyInv h s i) ?_ ?_
  · have hnone : (machine n cfg).init.sems i = none := rfl
    exact ⟨by simp [hnone], by simp [hnone]⟩
  · intro h s e s' hr T hs hstep
    have hstop {y : Halt} (hy : s' = { s with halt := some y }) : TallyInv ((s, e) :: h) s' i := by
      have hnone := State.counterAct_of_halt hstep (by simp [hy])
      subst hy
      exact ⟨by rw [tally_of_ne (by simp [hnone])]; exact T.tally, T.passes⟩
    obtain hs' | hs' | ht := State.step_cases hstep
    · exact hstop hs'
    · exact hstop hs'
    · exact ⟨T.step_tally hs (ht.counts i), T.step_passes ((semRunInv_of_run hr).lock i) hs ht⟩

/-! ### One decrement for each wait -/

theorem callDecs_of_inCall (hn : 0 < n) (hr : (machine n cfg).Run Obeys h s) :
    ∀ p i b, s.InCall p (.op (.semWait i), b) → callDecs h p = if b then 1 else 0 := by
  refine hr.history_invariant (I := fun h s => ∀ p i b, s.InCall p (.op (.semWait i), b) →
    callDecs h p = if b then 1 else 0) ?_ ?_
  · intro p i b hin
    exact absurd hin (State.init_not_inCall hn p _)
  · intro h s e s' hr ih o hs p i b hin'
    have I := inv_of_reachable hn hr.reachable
    have hstop {y : Halt} (hy : s' = { s with halt := some y }) :
        callDecs ((s, e) :: h) p = if b then 1 else 0 := by
      have hnone := State.counterAct_of_halt hs (by simp [hy])
      subst hy
      simp [callDecs, I.callBy_eq_none hs hin', hnone, ih p i b hin']
    obtain hs' | hs' | ht := State.step_cases hs
    · exact hstop hs'
    · exact hstop hs'
    · cases ht.inCall_cases I o.alloc hin' with
      | stays hin hcount =>
        have hdec : (s.counterAct e).any (·.2 = .dec p) = false := by
          cases hact : s.counterAct e with
          | none => rfl
          | some a =>
            obtain ⟨j, a⟩ := a
            simp only [Option.any_some, decide_eq_false_iff_not]
            rintro rfl
            obtain ⟨f, he, hc⟩ := State.counterAct_dec hact
            have := hcount f he (by simp [hc, Ctl.thread?])
            simp [hc, Ctl.pc?, Pc.counts] at this
        simp [callDecs, I.callBy_eq_none hs hin, hdec, ih p i b hin]
      | @call r he hc =>
        obtain ⟨k, j⟩ := e
        obtain rfl : j = _ := he
        simp [callDecs, State.callBy, show (s.kt k).ctl = _ from hc, Ctl.thread?]
      | @counts f pc he hc hpc =>
        obtain ⟨k, j⟩ := e
        obtain rfl : j = .run f := he
        obtain rfl : pc = .wait i .dec := by
          unfold Pc.counts at hpc
          split at hpc <;> simp_all
        have hs : s.step cfg (k, .run f) = some s' := hs
        have hact := State.counterAct_of_counts hs (ht.halt_eq.trans (State.halt_of_step hs)) hc
        have hin : s.InCall p (.op (.semWait i), false) :=
          .inl ⟨k, by simp [show (s.kt k).ctl = _ from hc, Ctl.inside, Pc.inside]⟩
        simp [callDecs, I.callBy_eq_none hs hin, hact, ih p i false hin]

/-! ### Brackets of wait and post -/

/-- A semaphore on which a thread is about to post is in use. -/
theorem State.InCall.semBusy (hin : s.InCall p (.op (.semPost i), false)) (P : PlaceInv s) :
    s.SemBusy i := by
  rcases hin with ⟨k, hk⟩ | hs
  · refine .inl ⟨k, .inl ?_⟩
    cases hc : (s.kt k).ctl with
    | thread q pc =>
      rw [hc] at hk
      obtain ⟨a, ha, heq⟩ := Option.map_eq_some_iff.mp hk
      obtain ⟨-, rfl⟩ := Prod.mk.inj heq
      cases pc with
      | yield o x => cases o <;> simp_all [Pc.inside, Resume.inside, Ctl.pc?, Pc.uses, Op.uses]
      | swap c r =>
        cases r with
        | yielded o => cases o <;> simp_all [Pc.inside, Resume.inside, Ctl.pc?, Pc.uses, Resume.uses, Op.uses]
        | _ => simp_all [Pc.inside, Resume.inside]
      | post j x => cases x <;> simp_all [Pc.inside, Ctl.pc?, Pc.uses]
      | wait j x => cases x <;> simp_all [Pc.inside]
      | preempt o => simp_all [Pc.inside, Ctl.pc?, Pc.uses, Op.uses]
      | _ => simp [Pc.inside] at ha
    | _ => simp [hc, Ctl.inside] at hk
  · refine .inr ⟨p, ?_, ?_⟩
    · by_contra hle
      simp [State.suspended, P.bound p (Nat.le_of_not_lt hle)] at hs
    · obtain ⟨r, hr, hin⟩ := Option.bind_eq_some_iff.mp hs
      rw [hr]
      cases r with
      | yielded o => cases o <;> simp_all [Resume.inside, Resume.uses, Op.uses]
      | _ => simp_all [Resume.inside]

theorem SemOk.not_semBusy_of_init (hs : SemOk s e) {v : ℤ}
    (ha : s.counterAct e = some (i, .init v)) : ¬ s.SemBusy i := by
  unfold State.counterAct at ha
  split at ha
  · split at ha <;> simp_all [SemOk, Ctl.pc?, Pc.SemOk]
  · cases ha

theorem SemOk.not_semBusy_of_destroy (hs : SemOk s e)
    (ha : s.counterAct e = some (i, .destroy)) : ¬ s.SemBusy i := by
  unfold State.counterAct at ha
  split at ha
  · split at ha <;> simp_all [SemOk, Ctl.pc?, Pc.SemOk]
  · cases ha

/-- In a program that brackets, a thread that is about to post is one of the holders, and the holders
are as many as the decrements exceed the increments. -/
structure BracketInv (h : List (State n × Event n)) (s : State n) (i : SemId) : Prop where
  holds : ∀ p, s.InCall p (.op (.semPost i), false) → ∃ t, tally h i = some t ∧ p ∈ t.holders
  count : ∀ t, tally h i = some t → t.decs = t.incs + t.holders.length

theorem BracketInv.step (B : BracketInv h s i) (I : Inv s) (o : Obeys s e)
    (ht : Trans cfg s e s') (hb : Bracketed ((s, e) :: h) i) :
    BracketInv ((s, e) :: h) s' i := by
  -- a holder stays one, unless it increments the counter itself
  have hkeep (p : Ptr) (hin : s.InCall p (.op (.semPost i), false))
      (hne : s.counterAct e ≠ some (i, .inc p)) :
      ∃ t, tally ((s, e) :: h) i = some t ∧ p ∈ t.holders := by
    obtain ⟨t, htl, hp⟩ := B.holds p hin
    by_cases hact : ∃ a, s.counterAct e = some (i, a)
    · obtain ⟨a, hact⟩ := hact
      rw [tally_of_act hact, htl]
      cases a with
      | init v => exact absurd (hin.semBusy I.place) (o.sem.not_semBusy_of_init hact)
      | destroy => exact absurd (hin.semBusy I.place) (o.sem.not_semBusy_of_destroy hact)
      | inc q =>
        refine ⟨_, rfl, ?_⟩
        have hpq : p ≠ q := by
          rintro rfl
          exact hne hact
        exact (List.mem_erase_of_ne hpq).2 hp
      | dec q => exact ⟨_, rfl, List.mem_cons_of_mem _ hp⟩
      | ret =>
        by_cases hk : e.1 ∈ t.leaving
        · exact ⟨{ t with rets := t.rets + 1, leaving := t.leaving.erase e.1 },
            by simp [Tally.next, hk], hp⟩
        · exact ⟨t, by simp [Tally.next, hk], hp⟩
    · rw [tally_of_ne fun a ha => hact ⟨a, ha⟩]
      exact ⟨t, htl, hp⟩
  refine ⟨fun p hin' => ?_, fun t htl => ?_⟩
  · cases ht.inCall_cases I o.alloc hin' with
    | stays hin hcount =>
      refine hkeep p hin fun hact => ?_
      obtain ⟨f, he, hc⟩ := State.counterAct_inc hact
      have := hcount f he (by simp [hc, Ctl.thread?])
      simp [hc, Ctl.pc?, Pc.counts] at this
    | @call r he hc =>
      obtain ⟨k, j⟩ := e
      obtain rfl : j = _ := he
      rw [tally_of_ne (by simp [State.counterAct])]
      exact hb.2 p (by simp [State.callBy, show (s.kt k).ctl = _ from hc, Ctl.thread?])
  · by_cases hact : ∃ a, s.counterAct e = some (i, a)
    · obtain ⟨a, hact⟩ := hact
      rw [tally_of_act hact] at htl
      cases a with
      | init v =>
        obtain rfl := Option.some.inj htl
        rfl
      | destroy => cases htl
      | inc q =>
        obtain ⟨t₀, ht₀, rfl⟩ := Option.map_eq_some_iff.mp htl
        obtain ⟨f, he, hc⟩ := State.counterAct_inc hact
        obtain ⟨t₁, ht₁, hq⟩ := B.holds q (.inl ⟨e.1, by simp [hc, Ctl.inside, Pc.inside]⟩)
        obtain rfl := Option.some.inj (ht₁.symm.trans ht₀)
        have hlen := List.length_erase_of_mem hq
        have hpos := List.length_pos_of_mem hq
        have := B.count t₁ ht₁
        simp only
        omega
      | dec q =>
        obtain ⟨t₀, ht₀, rfl⟩ := Option.map_eq_some_iff.mp htl
        have := B.count t₀ ht₀
        simp only [List.length_cons]
        omega
      | ret =>
        obtain ⟨t₀, ht₀, rfl⟩ := Option.map_eq_some_iff.mp htl
        have := B.count t₀ ht₀
        split_ifs <;> exact this
    · rw [tally_of_ne fun a ha => hact ⟨a, ha⟩] at htl
      exact B.count t htl

theorem bracketInv_of_run (hn : 0 < n) (hr : (machine n cfg).Run Obeys h s) (hb : Bracketed h i) :
    BracketInv h s i := by
  refine hr.history_invariant (I := fun h s => Bracketed h i → BracketInv h s i) ?_ ?_ hb
  · exact fun _ => ⟨fun p hin => absurd hin (State.init_not_inCall hn p _), by simp [tally]⟩
  · intro h s e s' hr ih o hs hb
    have I := inv_of_reachable hn hr.reachable
    have B := ih hb.1
    have hstop {y : Halt} (hy : s' = { s with halt := some y }) : BracketInv ((s, e) :: h) s' i := by
      have hnone := State.counterAct_of_halt hs (by simp [hy])
      have htl : tally ((s, e) :: h) i = tally h i := tally_of_ne (by simp [hnone])
      subst hy
      exact ⟨by rw [htl]; exact B.holds, by rw [htl]; exact B.count⟩
    obtain hs' | hs' | ht := State.step_cases hs
    · exact hstop hs'
    · exact hstop hs'
    · exact B.step I o ht hb

/-! ### The main result -/

/-- For any number of kernel threads and any interleaving: as long as the value with which a semaphore
was initialised and the increments together fit into an `int`, its counter is the value plus the
increments less the decrements and is not negative, and it is positive where `uthread_sem_wait` is about
to decrement it, so that its assertions hold. A returned wait is a decrement, so the waits that have
returned are at most the value plus the increments. In a program that obeys the documented preconditions
a wait that returns has decremented the counter exactly once since it was called, and a semaphore with
value `1` that is used in brackets is held by one thread at a time. -/
theorem sem_accounting (hn : 0 < n) (hr : (machine n cfg).Run SemOk h s) {x : Sem}
    (hx : s.sems i = some x) : ∃ t, tally h i = some t ∧ 0 ≤ t.value ∧
    t.decs = t.rets + t.leaving.length ∧
    (t.value + t.incs ≤ 2 ^ 31 - 1 →
      x.counter = t.value + t.incs - t.decs ∧ 0 ≤ x.counter ∧ t.rets ≤ t.value + t.incs ∧
      ∀ k p, (s.kt k).ctl = .thread p (.wait i .dec) → 0 < x.counter) ∧
    ((machine n cfg).Run Obeys h s →
      (∀ k p, (s.kt k).ctl = .thread p (.wait i .ret) → callDecs h p = 1) ∧
      (Bracketed h i → t.value = 1 → t.incs ≤ 2 ^ 31 - 2 → t.holders.length ≤ 1)) := by
  have T := tallyInv_of_run hr i
  obtain ⟨t, htl, hv, hdecs, hcount⟩ := T.tally x hx
  refine ⟨t, htl, hv, hdecs, fun hle => ?_, fun hobeys => ⟨fun k p hc => ?_, fun hb h1 hle => ?_⟩⟩
  · obtain ⟨heq, h0⟩ := hcount hle
    refine ⟨heq, h0, by omega, fun k p hc => ?_⟩
    have := T.passes k p x hc hx
    omega
  · exact callDecs_of_inCall hn hobeys p i true (.inl ⟨k, by simp [hc, Ctl.inside, Pc.inside]⟩)
  · obtain ⟨heq, h0⟩ := hcount (by omega)
    have := (bracketInv_of_run hn hobeys hb).count t htl
    omega

/-- The main thread is about to return from a wait on a semaphore with value `1`. -/
theorem sem_accounting_waited : ∃ (h : List (State 1 × Event 1)) (s : State 1) (x : Sem) (t : Tally 1),
    s.sems 0 = some x ∧ (s.kt 0).ctl = .thread mainTcb (.wait 0 .ret) ∧ tally h 0 = some t ∧
      t.value = 1 ∧ x.counter = 1 + t.incs - t.decs ∧ callDecs h mainTcb = 1 := by
  obtain ⟨h, s, hr, hs⟩ := EventMachine.exists_run_of_exec
    (M := machine 1 ⟨0⟩) (P := Obeys)
    (runs 0 2 ++ [(0, .call (.op (.semInit 0 1)))] ++ runs 0 3 ++
      [(0, .call (.op (.semWait 0)))] ++ runs 0 6)
    (p := fun x => x.2.sems 0 = some ⟨0, []⟩ ∧
      (x.2.kt 0).ctl = .thread mainTcb (.wait 0 .ret) ∧
      (tally x.1 0).map (fun t => (t.value, t.incs)) = some (1, 0)) (by decide +kernel)
  obtain ⟨hx, hc, hv⟩ : s.sems 0 = some ⟨0, []⟩ ∧ (s.kt 0).ctl = .thread mainTcb (.wait 0 .ret) ∧
      (tally h 0).map (fun t => (t.value, t.incs)) = some (1, 0) := of_decide_eq_true hs
  obtain ⟨t, htl, -, -, hcount, hobeys⟩ :=
    sem_accounting Nat.one_pos (hr.mono fun _ _ o => o.sem) hx
  obtain ⟨h1, h0⟩ : t.value = 1 ∧ t.incs = 0 := by simpa [htl] using hv
  refine ⟨h, s, _, t, hx, hc, htl, h1, ?_, (hobeys hr).1 0 mainTcb hc⟩
  rw [(hcount (by omega)).1, h1]

end Uthread
