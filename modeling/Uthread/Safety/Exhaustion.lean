import Uthread.Safety.ReadyQueue
import Uthread.Safety.Failure

/-!
# Running out of thread identifiers

`get_next_tid` searches the bit vector for an identifier that is not in use. When there is none it returns
`1`, and `uthread_create` goes on with it: `new_tid` is unsigned, and its test for a negative value never
succeeds. This file is about one kernel thread, on which every call of `uthread_create` runs from its search
to its return without a context switch.

## Main definitions

* `liveTids`: the identifiers of the threads that have been created and not yet joined, read off the returns
  of the calls.
* `CreateCall`, `creates`: the calls of `uthread_create` that have returned.
* `CreateCall.Ok`: the identifier is exclusive, and exhaustion is reported.

## Main results

* `creates_ok_iff`: the calls of `uthread_create` are all right if and only if each of them was made while an
  identifier was free.
-/

namespace Uthread

variable {n : ℕ} {cfg : Config} {s s' : State n} {e : Event n} {k : Fin n} {t : Tid}
  {h : List (State n × Event n)}

/-- A call that returns the identifier of a new thread, or has joined a thread. -/
inductive TidRet
  | created (t : Tid)
  | joined (t : Tid)
  deriving DecidableEq

/-- The return of `uthread_create` with `0`, or of `uthread_join`. -/
def State.tidRet (s : State n) : Event n → Option TidRet
  | (k, .run _) =>
    match (s.kt k).ctl with
    | .thread _ (.create _ (.ret t 0)) => some (.created t)
    | .thread _ (.join t _ (.ret _)) => some (.joined t)
    | _ => none
  | _ => none

/-- The identifiers of the threads created and not yet joined, the main thread included. -/
def liveTids : List (State n × Event n) → List Tid
  | [] => [tidMain]
  | (s, e) :: h =>
    match s.tidRet e with
    | some (.created t) => t :: liveTids h
    | some (.joined t) => (liveTids h).filter (· ≠ t)
    | none => liveTids h

/-- The event searches the bit vector for an identifier. -/
def State.searches (s : State n) : Event n → Bool
  | (k, .run _) => (s.kt k).ctl.pc?.any Pc.allocates
  | _ => false

/-- The last search, with the history before it. -/
def lastSearch : List (State n × Event n) → Option (List (State n × Event n) × State n)
  | [] => none
  | (s, e) :: h => if s.searches e then some (h, s) else lastSearch h

/-- A call of `uthread_create`: the history and the state when it searches for an identifier, what it stores
through `ptid`, what it returns, and the state when it returns. -/
structure CreateCall (n : ℕ) where
  before : List (State n × Event n)
  start : State n
  tid : Tid
  ret : ℕ
  final : State n

/-- What an event that returns from `uthread_create` returns. -/
def State.createRet (s : State n) : Event n → Option (Tid × ℕ)
  | (k, .run _) =>
    match (s.kt k).ctl with
    | .thread _ (.create _ (.ret t r)) => some (t, r)
    | _ => none
  | _ => none

/-- The calls of `uthread_create` that have returned, the most recent first. -/
def creates : List (State n × Event n) → List (CreateCall n)
  | [] => []
  | (s, e) :: h =>
    match s.createRet e, lastSearch h with
    | some (t, r), some (h₀, s₀) => ⟨h₀, s₀, t, r, s⟩ :: creates h
    | _, _ => creates h

namespace CreateCall

/-- If the call returns `0` its identifier is below `UTHREAD_MAX_THREADS` and not in use; if all identifiers
are in use it fails, and changes neither the bit vector nor the table nor the ready queue. -/
structure Ok (c : CreateCall n) : Prop where
  exclusive : c.ret = 0 → c.tid < maxThreads ∧ c.tid ∉ liveTids c.before
  exhausted : (∀ t < maxThreads, t ∈ liveTids c.before) → c.ret ≠ 0 ∧
    c.final.bitvec = c.start.bitvec ∧ c.final.tcbs = c.start.tcbs ∧ c.final.rqueue = c.start.rqueue

/-- Some identifier is not in use when the call searches for one. -/
def Supplied (c : CreateCall n) : Prop := ∃ t < maxThreads, t ∉ liveTids c.before

end CreateCall

/-- The documented preconditions, with allocations that succeed. That an identifier is free is not among
them. -/
structure Fits (s : State n) (e : Event n) : Prop where
  alloc : AllocOk e
  call : CallOk s e
  sem : SemOk s e

/-- With one kernel thread no identifier is handed out during a join. -/
theorem Fits.obeys {s : State 1} {e : Event 1} (hf : Fits s e) (ht : TidsLeft s e) : Obeys s e := by
  refine ⟨hf.alloc, hf.call, hf.sem, ht, ?_⟩
  obtain ⟨k, i⟩ := e
  cases i with
  | run f =>
    intro ha k' hk'
    obtain rfl : k' = k := Subsingleton.elim _ _
    cases hc : (s.kt k').ctl.pc? with
    | none => simp [hc] at ha
    | some pc =>
      rw [hc] at ha hk'
      cases pc with
      | create sb x => cases x <;> simp [Pc.releasing] at hk'
      | _ => simp [Pc.allocates] at ha
  | _ => trivial

/-! ### The identifiers in use and the table -/

/-- What the call that a kernel thread is in will return. -/
def Ctl.owes : Ctl → Option TidRet
  | .thread _ (.create _ (.enq t _ _)) | .thread _ (.create _ (.unlock t))
  | .thread _ (.create _ (.ret t 0)) => some (.created t)
  | .thread _ (.join t _ (.ret _)) => some (.joined t)
  | _ => none

/-- What a step does to the table and to the identifiers in use. -/
inductive LiveStep (s : State n) (e : Event n) (s' : State n) : Prop
  | body {t : Tid} {q : Ptr} (hk : (s.kt e.1).claims = some t)
      (ht : s'.tcbs = Function.update s.tcbs t (some q)) (ho : (s.kt e.1).ctl.owes = none)
      (ho' : (s'.kt e.1).ctl.owes = some (.created t)) (hr : s.tidRet e = none)
  | destroy {t : Tid} {q : Ptr} (hq : s.tcbs t = some q) (ht : s'.tcbs = Function.update s.tcbs t none)
      (ho : (s.kt e.1).ctl.owes = none) (ho' : (s'.kt e.1).ctl.owes = some (.joined t))
      (hr : s.tidRet e = none)
  | ret {a : TidRet} (ht : s'.tcbs = s.tcbs) (ho : (s.kt e.1).ctl.owes = some a)
      (ho' : (s'.kt e.1).ctl.owes = none) (hr : s.tidRet e = some a)
  | free (hf : s'.infoFreed = true)
  | frame (ht : s'.tcbs = s.tcbs) (ho : (s'.kt e.1).ctl.owes = (s.kt e.1).ctl.owes)
      (hr : s.tidRet e = none)

theorem Op.start_owes (o : Op) (p : Ptr) : (Ctl.thread p o.start).owes = none := by cases o <;> rfl

theorem Resume.pc_owes (r : Resume) (p : Ptr) : (Ctl.thread p r.pc).owes = none := by
  cases r with
  | yielded o =>
    cases o with
    | none => rfl
    | some o => exact Op.start_owes o p
  | _ => rfl

theorem Trans.liveStep (ht : Trans cfg s e s') (ha : AllocOk e) : LiveStep s e s' := by
  cases ht with
  | @call k c p r hc =>
    refine .frame rfl ?_ rfl
    cases c with
    | op o => cases o <;> simp [Call.enter, hc, Ctl.owes]
    | _ => simp [Call.enter, hc, Ctl.owes]
  | tick => exact .frame rfl (by simp) rfl
  | deliver => exact .frame rfl (by simp) rfl
  | acquire h | insert h | parkJoin h | parkSem h =>
    generalize hc : (s.kt _).ctl = x at h
    cases h <;> exact .frame rfl (by simp [State.goto, hc, Ctl.owes]) (by simp [State.tidRet, hc])
  | release h =>
    cases h with
    | _ hc => exact .frame rfl (by simp [State.goto, hc, Ctl.owes]) (by simp [State.tidRet, hc])
  | quiet h =>
    cases h with
    | start hc =>
      refine .frame rfl ?_ (by simp [State.tidRet, hc])
      simp only [State.setK_kt, Op.start_owes, hc]
      rfl
    | @joinRet p t pret rv hc =>
      exact .ret (a := .joined t) rfl (by simp [hc, Ctl.owes]) (by simp [Ctl.owes]) (by simp [State.tidRet, hc])
    | @createRet p sb t r hc =>
      cases r with
      | zero =>
        exact .ret (a := .created t) rfl (by simp [hc, Ctl.owes]) (by simp [Ctl.owes]) (by simp [State.tidRet, hc])
      | succ r => exact .frame rfl (by simp [hc, Ctl.owes]) (by simp [State.tidRet, hc])
    | _ hc => exact .frame rfl (by simp [hc, Ctl.owes]) (by simp [State.tidRet, hc])
  | signal h =>
    cases h with
    | _ hc => exact .frame rfl (by simp [State.goto, hc, Ctl.owes]) (by simp [State.tidRet, hc])
  | createBody hc =>
    exact .body (by simp [KThread.claims, hc, Ctl.pc?, Pc.claims]) rfl (by simp [hc, Ctl.owes])
      (by simp [State.goto, Ctl.owes]) (by simp [State.tidRet, hc])
  | joinDestroy hc hq hx =>
    exact .destroy hq rfl (by simp [hc, Ctl.owes]) (by simp [State.goto, Ctl.owes])
      (by simp [State.tidRet, hc])
  | teardownFree => exact .free rfl
  | createNoTcb => exact absurd ha (by simp [AllocOk])
  | createNoStack => exact absurd ha (by simp [AllocOk])
  | dispSet hc hx hctx =>
    refine .frame rfl ?_ (by simp [State.tidRet, hc])
    simp only [State.setK_kt, Resume.pc_owes, hc]
    rfl
  | _ hc => exact .frame rfl (by simp [State.goto, hc, Ctl.owes]) (by simp [State.tidRet, hc])

/-- The identifiers in use are those in the table, up to the call that is about to return. -/
structure LiveInv (h : List (State 1 × Event 1)) (s : State 1) : Prop where
  created : ∀ t, (s.kt 0).ctl.owes = some (.created t) → s.tcbs t ≠ none
  joined : ∀ t, (s.kt 0).ctl.owes = some (.joined t) → s.tcbs t = none
  live : ∀ t, t ∈ liveTids h ↔ (s.tcbs t ≠ none ∧ (s.kt 0).ctl.owes ≠ some (.created t)) ∨
    (s.kt 0).ctl.owes = some (.joined t)

theorem liveTids_of_none (hr : s.tidRet e = none) : liveTids ((s, e) :: h) = liveTids h := by
  simp [liveTids, hr]

theorem LiveInv.step {h : List (State 1 × Event 1)} {s s' : State 1} {e : Event 1} (L : LiveInv h s)
    (I : Inv s) (hs : LiveStep s e s') (hf : s'.infoFreed = false) : LiveInv ((s, e) :: h) s' := by
  have he : e.1 = 0 := Subsingleton.elim _ _
  cases hs with
  | @body t q hk ht ho ho' hr =>
    rw [he] at hk ho ho'
    have hnone := (I.bits.claim 0 t hk).1
    refine ⟨fun u hu => ?_, fun u hu => ?_, fun u => ?_⟩
    · obtain rfl : t = u := by simpa [ho'] using hu
      simp [ht]
    · simp [ho'] at hu
    · rw [liveTids_of_none hr, L.live u, ho, ho', ht]
      by_cases hut : u = t
      · simp [hut, hnone]
      · simp [hut, Ne.symm hut]
  | @destroy t q hq ht ho ho' hr =>
    rw [he] at ho ho'
    refine ⟨fun u hu => ?_, fun u hu => ?_, fun u => ?_⟩
    · simp [ho'] at hu
    · obtain rfl : t = u := by simpa [ho'] using hu
      simp [ht]
    · rw [liveTids_of_none hr, L.live u, ho, ho', ht]
      by_cases hut : u = t
      · simp [hut, hq]
      · simp [hut, Ne.symm hut]
  | @ret a ht ho ho' hr =>
    rw [he] at ho ho'
    refine ⟨fun u hu => ?_, fun u hu => ?_, fun u => ?_⟩
    · simp [ho'] at hu
    · simp [ho'] at hu
    · have hlive := L.live u
      rw [ho', ht]
      cases a with
      | created t =>
        have hne := L.created t ho
        by_cases hut : u = t
        · simp [liveTids, hr, hut, hne]
        · simpa [liveTids, hr, hut, Ne.symm hut, ho] using hlive
      | joined t =>
        have hnone := L.joined t ho
        by_cases hut : u = t
        · simp [liveTids, hr, hut, hnone]
        · simpa [liveTids, hr, hut, Ne.symm hut, ho] using hlive
  | free hf' => simp [hf'] at hf
  | frame ht ho hr =>
    rw [he] at ho
    refine ⟨?_, ?_, ?_⟩
    · rw [ho, ht]
      exact L.created
    · rw [ho, ht]
      exact L.joined
    · rw [ho, ht, liveTids_of_none hr]
      exact L.live

/-- A step that stops the run is not a return and does not search. -/
theorem State.not_ret_of_halt (hs : s.step cfg e = some s') (hh : s'.halt ≠ none) :
    s.tidRet e = none ∧ s.createRet e = none ∧ s.searches e = false := by
  have hhalt := State.halt_of_step hs
  obtain ⟨k, i⟩ := e
  cases i with
  | run f =>
    simp only [State.step, hhalt, if_true, State.stepRun] at hs
    have hgo {p : Ptr} {pc : Pc} {s₁ : State n} (hc : (s.kt k).ctl = .thread p pc)
        (h₁ : s.stepThread cfg k f p pc = some s₁) (h0 : s₁.halt = none) : False := by
      rw [hc] at hs
      exact hh (Option.some.inj (hs.symm.trans h₁) ▸ h0)
    simp only [State.tidRet, State.createRet, State.searches]
    cases hc : (s.kt k).ctl with
    | thread p pc =>
      cases pc with
      | join t pret x =>
        cases x with
        | ret rv => exact absurd hhalt fun h0 => hgo hc rfl h0
        | _ => simp [Ctl.pc?, Pc.allocates]
      | create sb x =>
        cases x with
        | ret t r => exact absurd hhalt fun h0 => hgo hc rfl h0
        | next => exact absurd hhalt fun h0 => hgo hc rfl h0
        | _ => simp [Ctl.pc?, Pc.allocates]
      | _ => simp [Ctl.pc?, Pc.allocates]
    | _ => simp [Ctl.pc?]
  | _ => exact ⟨rfl, rfl, rfl⟩

theorem liveInv_of_run {h : List (State 1 × Event 1)} {s : State 1} (hr : (machine 1 cfg).Run Obeys h s)
    (hf : s.infoFreed = false) : LiveInv h s := by
  revert hf
  refine hr.history_invariant (I := fun h s => s.infoFreed = false → LiveInv h s) (fun _ => ?_) ?_
  · refine ⟨fun t ht => ?_, fun t ht => ?_, fun t => ?_⟩
    · simp [machine, State.init, Ctl.owes] at ht
    · simp [machine, State.init, Ctl.owes] at ht
    · simp [machine, State.init, Ctl.owes, liveTids]
  · intro h s e s' hrun L ho hs hf
    have I := inv_of_reachable Nat.one_pos hrun.reachable
    have hstop {y : Halt} (hy : s' = { s with halt := some y }) : LiveInv ((s, e) :: h) s' := by
      have hret := (State.not_ret_of_halt hs (by simp [hy])).1
      subst hy
      obtain ⟨hc, hj, hl⟩ := L hf
      exact ⟨hc, hj, by rwa [liveTids_of_none hret]⟩
    obtain hs' | hs' | ht := State.step_cases hs
    · exact hstop hs'
    · exact hstop hs'
    · exact (L (ht.infoFreed_mono hf)).step I (ht.liveStep ho.alloc) hf

/-! ### The call that is being executed -/

/-- The identifier that a call of `uthread_create` has got. -/
def CreatePc.tid? : CreatePc → Option Tid
  | .bvUnlock t | .lock t | .body t | .enq t _ _ | .unlock t | .ret t _ => some t
  | .bvLock | .next => none

/-- The identifier that the call of `uthread_create` executed by a kernel thread has got. -/
def Ctl.creating : Ctl → Option Tid
  | .thread _ (.create _ x) => x.tid?
  | _ => none

/-- What a step does to the call of `uthread_create`: it searches for an identifier, returns, or goes on. -/
inductive CreateStep (s : State n) (e : Event n) (s' : State n) : Prop
  | search (hs : s.searches e = true) (hr : s.createRet e = none) (hc : (s.kt e.1).ctl.creating = none)
      (hc' : (s'.kt e.1).ctl.creating = some (State.getNextTid s.bitvec).1.toNat)
  | ret {t : Tid} {r : ℕ} (hs : s.searches e = false) (hr : s.createRet e = some (t, r))
      (hc : (s.kt e.1).ctl.creating = some t) (hc' : (s'.kt e.1).ctl.creating = none)
  | frame (hs : s.searches e = false) (hr : s.createRet e = none)
      (hc : (s'.kt e.1).ctl.creating = (s.kt e.1).ctl.creating)

theorem Op.start_creating (o : Op) (p : Ptr) : (Ctl.thread p o.start).creating = none := by
  cases o <;> rfl

theorem Resume.pc_creating (r : Resume) (p : Ptr) : (Ctl.thread p r.pc).creating = none := by
  cases r with
  | yielded o =>
    cases o with
    | none => rfl
    | some o => exact Op.start_creating o p
  | _ => rfl

/-- The events of a kernel thread that is not in `uthread_create` neither search nor return from it. -/
theorem CreateStep.of_not_create (hc : ∀ p sb x, (s.kt e.1).ctl ≠ .thread p (.create sb x))
    (hc' : (s'.kt e.1).ctl.creating = none) : CreateStep s e s' := by
  obtain ⟨k, i⟩ := e
  have hnone : (s.kt k).ctl.creating = none := by
    unfold Ctl.creating
    split
    · next h => exact absurd h (hc _ _ _)
    · rfl
  refine .frame ?_ ?_ (hc'.trans hnone.symm)
  · cases i with
    | run f =>
      simp only [State.searches]
      cases hctl : (s.kt k).ctl with
      | thread p pc =>
        cases pc with
        | create sb x => exact absurd hctl (hc p sb x)
        | _ => rfl
      | _ => rfl
    | _ => rfl
  · cases i with
    | run f =>
      simp only [State.createRet]
      split
      · next h => exact absurd h (hc _ _ _)
      · rfl
    | _ => rfl

theorem Trans.createStep (ht : Trans cfg s e s') : CreateStep s e s' := by
  cases ht with
  | @call k c p r hc =>
    refine .of_not_create (by simp [hc]) ?_
    cases c with
    | op o => cases o <;> simp [Call.enter, Ctl.creating]
    | _ => simp [Call.enter, Ctl.creating]
  | tick => exact .frame rfl rfl (by simp)
  | deliver => exact .frame rfl rfl (by simp)
  | acquire h | insert h | parkJoin h | parkSem h =>
    generalize hc : (s.kt _).ctl = x at h
    cases h <;> exact .frame (by simp [State.searches, hc, Ctl.pc?, Pc.allocates])
      (by simp [State.createRet, hc]) (by simp [State.goto, hc, Ctl.creating, CreatePc.tid?])
  | release h =>
    cases h with
    | _ hc =>
      exact .frame (by simp [State.searches, hc, Ctl.pc?, Pc.allocates])
        (by simp [State.createRet, hc]) (by simp [State.goto, hc, Ctl.creating, CreatePc.tid?])
  | quiet h =>
    cases h with
    | start hc => exact .of_not_create (by simp [hc]) (by simp [Op.start_creating])
    | @createRet p sb t r hc =>
      exact .ret (t := t) (r := r) (by simp [State.searches, hc, Ctl.pc?, Pc.allocates]) (by simp [State.createRet, hc])
        (by simp [hc, Ctl.creating, CreatePc.tid?]) (by simp [Ctl.creating])
    | _ hc => exact .of_not_create (by simp [hc]) (by simp [Ctl.creating])
  | signal h =>
    cases h with
    | _ hc =>
      exact .frame (by simp [State.searches, hc, Ctl.pc?, Pc.allocates])
        (by simp [State.createRet, hc]) (by simp [State.goto, hc, Ctl.creating, CreatePc.tid?])
  | createNext hc =>
    exact .search (by simp [State.searches, hc, Ctl.pc?, Pc.allocates]) (by simp [State.createRet, hc])
      (by simp [hc, Ctl.creating, CreatePc.tid?]) (by simp [State.goto, Ctl.creating, CreatePc.tid?])
  | createBody hc | createNoTcb hc | createNoStack hc =>
    exact .frame (by simp [State.searches, hc, Ctl.pc?, Pc.allocates])
      (by simp [State.createRet, hc]) (by simp [State.goto, hc, Ctl.creating, CreatePc.tid?])
  | dispSet hc hx hctx => exact .of_not_create (by simp [hc]) (by simp [Resume.pc_creating])
  | _ hc => exact .of_not_create (by simp [hc]) (by simp [State.goto, Ctl.creating])

/-- The code that a call of `uthread_create` is about to return. -/
def Ctl.createCode : Ctl → Option ℕ
  | .thread _ (.create _ (.ret _ r)) => some r
  | _ => none

theorem Op.start_createCode (o : Op) (p : Ptr) : (Ctl.thread p o.start).createCode = none := by
  cases o <;> rfl

theorem Resume.pc_createCode (r : Resume) (p : Ptr) : (Ctl.thread p r.pc).createCode = none := by
  cases r with
  | yielded o =>
    cases o with
    | none => rfl
    | some o => exact Op.start_createCode o p
  | _ => rfl

/-- As long as allocations succeed, `uthread_create` does not fail. -/
theorem Trans.createCode (ht : Trans cfg s e s') (ha : AllocOk e) {r : ℕ}
    (hr : (s'.kt e.1).ctl.createCode = some r) : r = 0 ∨ (s.kt e.1).ctl.createCode = some r := by
  cases ht with
  | @call k c p r hc =>
    cases c with
    | op o => cases o <;> simp [Call.enter, Ctl.createCode] at hr
    | _ => simp [Call.enter, Ctl.createCode] at hr
  | tick => exact .inr (by simpa using hr)
  | deliver => exact .inr (by simpa using hr)
  | acquire h | insert h | parkJoin h | parkSem h =>
    generalize hc : (s.kt _).ctl = x at h
    cases h <;> simp [State.goto, Ctl.createCode] at hr
  | release h =>
    cases h with
    | create hc => exact .inl (by simpa [State.goto, Ctl.createCode, eq_comm] using hr)
    | _ hc => simp [State.goto, Ctl.createCode] at hr
  | quiet h =>
    cases h with
    | start hc => simp [Op.start_createCode] at hr
    | _ hc => simp [Ctl.createCode] at hr
  | signal h => cases h <;> simp [State.goto, Ctl.createCode] at hr
  | createNoTcb => exact absurd ha (by simp [AllocOk])
  | createNoStack => exact absurd ha (by simp [AllocOk])
  | dispSet hc hx hctx => simp [Resume.pc_createCode] at hr
  | _ hc => simp [State.goto, Ctl.createCode] at hr

/-! ### One kernel thread -/

section Single

variable {h h₀ : List (State 1 × Event 1)} {s s' s₀ : State 1} {e : Event 1}

/-- The call of `uthread_create` in progress has got the identifier that its search found. -/
structure CreateInv (h : List (State 1 × Event 1)) (s : State 1) : Prop where
  code : ∀ r, (s.kt 0).ctl.createCode = some r → r = 0
  search : ∀ t, (s.kt 0).ctl.creating = some t → ∃ h₀ s₀ f, lastSearch h = some (h₀, s₀) ∧
    s₀.searches (0, .run f) = true ∧ t = (State.getNextTid s₀.bitvec).1.toNat

theorem State.exists_run_of_searches (hs : s.searches e = true) : ∃ f, e = (0, .run f) := by
  obtain ⟨k, i⟩ := e
  cases i with
  | run f => exact ⟨f, by rw [Subsingleton.elim k 0]⟩
  | _ => cases hs

theorem CreateInv.step (C : CreateInv h s) (ht : Trans cfg s e s') (ha : AllocOk e) :
    CreateInv ((s, e) :: h) s' := by
  have he : e.1 = 0 := Subsingleton.elim _ _
  refine ⟨fun r hr => ?_, fun t htid => ?_⟩
  · rcases ht.createCode ha (he ▸ hr) with hr | hr
    · exact hr
    · exact C.code r (he ▸ hr)
  · have hstep := ht.createStep
    rw [← he] at htid
    cases hstep with
    | search hs hr hc hc' =>
      obtain ⟨f, rfl⟩ := State.exists_run_of_searches hs
      exact ⟨h, s, f, by simp [lastSearch, hs], hs, Option.some.inj (htid.symm.trans hc')⟩
    | ret hs hr hc hc' => simp [hc'] at htid
    | frame hs hr hc =>
      simpa [lastSearch, hs] using C.search t (by rw [← he, ← hc, htid])

theorem createInv_of_run (hr : (machine 1 cfg).Run Fits h s) : CreateInv h s := by
  refine hr.history_invariant (I := CreateInv) ?_ ?_
  · refine ⟨fun r hr => ?_, fun t ht => ?_⟩
    · simp [machine, State.init, Ctl.createCode] at hr
    · simp [machine, State.init, Ctl.creating] at ht
  · intro h s e s' _ C hf hs
    have hstop {y : Halt} (hy : s' = { s with halt := some y }) : CreateInv ((s, e) :: h) s' := by
      obtain ⟨-, -, hsearch⟩ := State.not_ret_of_halt hs (by simp [hy])
      subst hy
      exact ⟨C.code, by simpa [lastSearch, hsearch] using C.search⟩
    obtain hs' | hs' | ht := State.step_cases hs
    · exact hstop hs'
    · exact hstop hs'
    · exact C.step ht hf.alloc

/-- When the vector is searched its bits are those of the identifiers in use. -/
theorem bit_iff_live (hr : (machine 1 cfg).Run Obeys h s) {f : Option AllocSite}
    (hs : s.searches (0, .run f) = true) {t : Tid} (ht : t < maxThreads) :
    bitvecGet s.bitvec t ≠ 0 ↔ t ∈ liveTids h := by
  have I := inv_of_reachable Nat.one_pos hr.reachable
  cases hc : (s.kt 0).ctl with
  | thread p pc =>
    have hf := I.infoFreed_of_thread hc
    have L := liveInv_of_run hr hf
    cases pc with
    | create sb x =>
      cases x with
      | next =>
        have hcl (k : Fin 1) : (s.kt k).claims = none := by
          rw [Subsingleton.elim k 0, KThread.claims, hc]
          rfl
        have hre (k : Fin 1) : (s.kt k).releasing = none := by
          rw [Subsingleton.elim k 0, KThread.releasing, hc]
          rfl
        have howes : (s.kt 0).ctl.owes = none := by
          rw [hc]
          rfl
        rw [I.bits.bit hf t ht, L.live t, howes]
        simp [hcl, hre]
      | _ => simp [State.searches, hc, Ctl.pc?, Pc.allocates] at hs
    | _ => simp [State.searches, hc, Ctl.pc?, Pc.allocates] at hs
  | _ => simp [State.searches, hc, Ctl.pc?] at hs

/-- An identifier is found if and only if one is not in use. -/
theorem found_iff_free (hr : (machine 1 cfg).Run Obeys h s) {f : Option AllocSite}
    (hs : s.searches (0, .run f) = true) :
    0 ≤ bitvecFirstClearedIndex s.bitvec ↔ ∃ t < maxThreads, t ∉ liveTids h := by
  have I := inv_of_reachable Nat.one_pos hr.reachable
  have hsize : 8 * s.bitvec.nbytes = maxThreads := by rw [I.bits.size.1]; rfl
  rw [← not_lt, bitvecFirstClearedIndex_neg_iff, hsize]
  constructor
  · intro hne
    by_contra hall
    refine hne fun t ht => (bit_iff_live hr hs ht).2 ?_
    by_contra hmem
    exact hall ⟨t, ht, hmem⟩
  · rintro ⟨t, ht, hmem⟩ hall
    exact hmem ((bit_iff_live hr hs ht).1 (hall t ht))

/-- A search that finds an identifier finds one that is not in use. -/
theorem getNextTid_free (hr : (machine 1 cfg).Run Obeys h s) {f : Option AllocSite}
    (hs : s.searches (0, .run f) = true) (hfree : ∃ t < maxThreads, t ∉ liveTids h) :
    (State.getNextTid s.bitvec).1.toNat < maxThreads ∧
      (State.getNextTid s.bitvec).1.toNat ∉ liveTids h := by
  have I := inv_of_reachable Nat.one_pos hr.reachable
  have hpos := (found_iff_free hr hs).2 hfree
  obtain ⟨hlt, hzero, -⟩ := bitvecFirstClearedIndex_spec hpos
  rw [I.bits.size.1] at hlt
  rw [(getNextTid_eq hpos).1]
  exact ⟨hlt, fun hmem => (bit_iff_live hr hs hlt).2 hmem hzero⟩

/-- A call is all right if and only if an identifier was free. -/
theorem CreateCall.ok_iff {c : CreateCall 1} (hr : (machine 1 cfg).Run Obeys c.before c.start)
    {f : Option AllocSite} (hs : c.start.searches (0, .run f) = true)
    (htid : c.tid = (State.getNextTid c.start.bitvec).1.toNat) (hret : c.ret = 0) : c.Ok ↔ c.Supplied := by
  constructor
  · intro hok
    -- the call does not fail, so the identifier it returns must have been free
    exact ⟨c.tid, hok.exclusive hret⟩
  · intro hfree
    refine ⟨fun _ => htid ▸ getNextTid_free hr hs hfree, fun hall => ?_⟩
    obtain ⟨t, ht, hmem⟩ := hfree
    exact absurd (hall t ht) hmem

/-- As long as every call found an identifier, the run keeps to all the preconditions; so does the run up to
the search of the call in progress. -/
structure SuppliedInv (cfg : Config) (h : List (State 1 × Event 1)) (s : State 1) : Prop where
  idle : (s.kt 0).ctl.creating = none → (machine 1 cfg).Run Obeys h s
  busy : ∀ h₀ s₀, (s.kt 0).ctl.creating ≠ none → lastSearch h = some (h₀, s₀) →
    (machine 1 cfg).Run Obeys h₀ s₀ ∧ ((∃ t < maxThreads, t ∉ liveTids h₀) → (machine 1 cfg).Run Obeys h s)

theorem tidsLeft_of_not_searches (hs : s.searches e = false) : TidsLeft s e := by
  obtain ⟨k, i⟩ := e
  cases i with
  | run f => exact fun ha => absurd ha (by simpa [State.searches] using hs)
  | _ => trivial

theorem creates_of_none (hr : s.createRet e = none) : creates ((s, e) :: h) = creates h := by
  simp [creates, hr]

/-- A step that neither searches nor returns keeps the invariant. -/
theorem SuppliedInv.of_frame (S : SuppliedInv cfg h s) (hf : Fits s e)
    (hstep : (machine 1 cfg).step s e = some s') (hs : s.searches e = false)
    (hc : (s'.kt 0).ctl.creating = (s.kt 0).ctl.creating) : SuppliedInv cfg ((s, e) :: h) s' := by
  have ho : Obeys s e := hf.obeys (tidsLeft_of_not_searches hs)
  refine ⟨fun hnone => (S.idle (hc ▸ hnone)).step ho hstep, fun h₀ s₀ hne hlast => ?_⟩
  obtain ⟨hrun, hgo⟩ := S.busy h₀ s₀ (hc ▸ hne) (by simpa [lastSearch, hs] using hlast)
  exact ⟨hrun, fun hfree => (hgo hfree).step ho hstep⟩

theorem SuppliedInv.step (S : SuppliedInv cfg h s) (C : CreateInv h s) (hf : Fits s e)
    (hstep : (machine 1 cfg).step s e = some s') (ht : Trans cfg s e s')
    (hall : ∀ c ∈ creates ((s, e) :: h), c.Supplied) : SuppliedInv cfg ((s, e) :: h) s' := by
  have he : e.1 = 0 := Subsingleton.elim _ _
  cases ht.createStep with
  | search hs hr hc hc' =>
    rw [he] at hc hc'
    have hrun := S.idle hc
    obtain ⟨f, rfl⟩ := State.exists_run_of_searches hs
    refine ⟨fun hnone => by simp [hc'] at hnone, fun h₀ s₀ _ hlast => ?_⟩
    obtain ⟨rfl, rfl⟩ : h = h₀ ∧ s = s₀ := by simpa [lastSearch, hs] using hlast
    refine ⟨hrun, fun hfree => hrun.step (hf.obeys fun _ => ?_) hstep⟩
    exact (found_iff_free hrun hs).2 hfree
  | @ret t r hs hr hc hc' =>
    rw [he] at hc hc'
    obtain ⟨h₀, s₀, f, hlast, -, -⟩ := C.search t hc
    have hmem : ⟨h₀, s₀, t, r, s⟩ ∈ creates ((s, e) :: h) := by simp [creates, hr, hlast]
    obtain ⟨-, hgo⟩ := S.busy h₀ s₀ (by simp [hc]) hlast
    have hrun := (hgo (hall _ hmem)).step (hf.obeys (tidsLeft_of_not_searches hs)) hstep
    exact ⟨fun _ => hrun, fun _ _ hne => absurd hc' hne⟩
  | frame hs hr hc =>
    rw [he] at hc
    exact S.of_frame hf hstep hs hc

/-- The calls so far are all right if and only if an identifier was free for each of them. -/
structure CreatesInv (cfg : Config) (h : List (State 1 × Event 1)) (s : State 1) : Prop where
  create : CreateInv h s
  iff : (∀ c ∈ creates h, c.Ok) ↔ ∀ c ∈ creates h, c.Supplied
  run : (∀ c ∈ creates h, c.Supplied) → SuppliedInv cfg h s

theorem CreatesInv.step (J : CreatesInv cfg h s) (hf : Fits s e)
    (hstep : (machine 1 cfg).step s e = some s') (ht : Trans cfg s e s') :
    CreatesInv cfg ((s, e) :: h) s' := by
  have he : e.1 = 0 := Subsingleton.elim _ _
  have hsub : creates h ⊆ creates ((s, e) :: h) := by
    intro c hc
    simp only [creates]
    split
    · exact List.mem_cons_of_mem _ hc
    · exact hc
  refine ⟨J.create.step ht hf.alloc, ?_, fun hall => ?_⟩
  · cases ht.createStep with
    | search hs hr hc hc' => rw [creates_of_none hr, J.iff]
    | frame hs hr hc => rw [creates_of_none hr, J.iff]
    | @ret t r hs hr hc hc' =>
      rw [he] at hc
      obtain ⟨h₀, s₀, f, hlast, hsearch, htid⟩ := J.create.search t hc
      have hzero : r = 0 := by
        refine J.create.code r ?_
        obtain ⟨k, i⟩ := e
        cases i with
        | run f =>
          obtain rfl : k = 0 := he
          simp only [State.createRet] at hr
          split at hr
          · next hctl => simpa [hctl, Ctl.createCode] using congrArg Prod.snd (Option.some.inj hr)
          · cases hr
        | _ => cases hr
      have hlist : creates ((s, e) :: h) = ⟨h₀, s₀, t, r, s⟩ :: creates h := by simp [creates, hr, hlast]
      rw [hlist, List.forall_mem_cons, List.forall_mem_cons, J.iff]
      -- the run up to the search of this call keeps to the preconditions if the earlier calls were supplied
      refine and_congr_left fun hall => ?_
      have hrun := ((J.run hall).busy h₀ s₀ (by simp [hc]) hlast).1
      exact CreateCall.ok_iff hrun hsearch htid hzero
  · exact (J.run fun c hc => hall c (hsub hc)).step J.create hf hstep ht hall

theorem createsInv_of_run (hr : (machine 1 cfg).Run Fits h s) : CreatesInv cfg h s := by
  refine hr.history_invariant (I := CreatesInv cfg) ?_ ?_
  · refine ⟨createInv_of_run .init, by simp [creates], fun _ => ⟨fun _ => .init, fun h₀ s₀ hne => ?_⟩⟩
    simp [machine, State.init, Ctl.creating] at hne
  · intro h s e s' hrun J hf hs
    have hstop {y : Halt} (hy : s' = { s with halt := some y }) : CreatesInv cfg ((s, e) :: h) s' := by
      obtain ⟨-, hret, hsearch⟩ := State.not_ret_of_halt hs (by simp [hy])
      have hctl : s'.kt = s.kt := by rw [hy]
      refine ⟨createInv_of_run (hrun.step hf hs), by rw [creates_of_none hret, J.iff], fun hall => ?_⟩
      rw [creates_of_none hret] at hall
      exact (J.run hall).of_frame hf hs hsearch (by rw [hctl])
    obtain hs' | hs' | ht := State.step_cases hs
    · exact hstop hs'
    · exact hstop hs'
    · exact J.step hf hs ht

/-- **Identifiers are exclusive as long as one is free.** With one kernel thread, in every run in which
allocations succeed and the calls obey their preconditions: every call of `uthread_create` returns an
identifier that is not in use, or reports that there is none and changes nothing, if and only if each of the
calls was made while an identifier was free. -/
theorem creates_ok_iff (hr : (machine 1 cfg).Run Fits h s) :
    (∀ c ∈ creates h, c.Ok) ↔ ∀ c ∈ creates h, c.Supplied :=
  (createsInv_of_run hr).iff

instance (s : State n) (e : Event n) : Decidable (Fits s e) :=
  decidable_of_iff (AllocOk e ∧ CallOk s e ∧ SemOk s e)
    ⟨fun ⟨h₁, h₂, h₃⟩ => ⟨h₁, h₂, h₃⟩, fun ⟨h₁, h₂, h₃⟩ => ⟨h₁, h₂, h₃⟩⟩

/-- The main thread creates the first thread; its identifier is `1`. -/
theorem creates_ok_iff_first : ∃ (h : List (State 1 × Event 1)) (c : CreateCall 1),
    c ∈ creates h ∧ c.tid = 1 ∧ c.ret = 0 ∧ c.Ok := by
  obtain ⟨h, s, hr, hs⟩ := EventMachine.exists_run_of_exec (M := machine 1 ⟨0⟩) (P := Fits)
    (runs 0 2 ++ [(0, .call (.op (.create true)))] ++ runs 0 12)
    (p := fun x => (creates x.1).map (fun c => (c.tid, c.ret, liveTids c.before)) = [(1, 0, [0])])
    (by decide +kernel)
  have hs : (creates h).map (fun c => (c.tid, c.ret, liveTids c.before)) = [(1, 0, [0])] := of_decide_eq_true hs
  obtain ⟨c, hc, hval⟩ := List.map_eq_singleton_iff.mp hs
  obtain ⟨htid, hret, hlive⟩ : c.tid = 1 ∧ c.ret = 0 ∧ liveTids c.before = [0] := by simpa using hval
  have hok := (creates_ok_iff hr).2 fun c' hc' => by
    obtain rfl : c' = c := by simpa [hc] using hc'
    exact ⟨1, by decide, by simp [hlive]⟩
  exact ⟨h, c, by simp [hc], htid, hret, hok c (by simp [hc])⟩

/-! ### Using up the identifiers -/

/-- The main thread is in user code and no mutex that `uthread_create` needs is locked. -/
structure Idle (s : State 1) : Prop where
  halt : s.halt = none
  inited : s.inited = true
  ctl : ∃ r, (s.kt 0).ctl = .thread mainTcb (.user r)
  owner : s.owner .bitvec = none ∧ s.owner .tcbs = none ∧ s.owner .rqueue = none

/-- The state inside a call of `uthread_create`. -/
def State.during (s : State 1) (b : Bitvec) (o : Lock → Option (Fin 1)) (c : Ctl) : State 1 :=
  { s with bitvec := b, owner := o, kt := Function.update s.kt 0 { s.kt 0 with ctl := c } }

/-- The state with the control block of the new thread. -/
def State.installed (s : State 1) (t : Tid) : State 1 :=
  { s with
    heap := Function.update s.heap s.fresh (some (State.newTcb t s.fresh true (s.kt 0).blocked))
    tcbs := Function.update s.tcbs t (some s.fresh)
    fresh := s.fresh + 1 }

section Steps

variable {b : Bitvec} {o : Lock → Option (Fin 1)} {p : Ptr} {t : Tid} {q : Ptr}

/-- A step of `uthread_create` from a state inside the call. -/
theorem step_during (hh : s.halt = none) {x : CreatePc} :
    (machine 1 ⟨0⟩).step (s.during b o (.thread p (.create true x))) (0, .run none) =
      (s.during b o (.thread p (.create true x))).stepCreate ⟨0⟩ 0 p none true x := by
  simp [machine, State.step, State.during, hh, State.stepRun, State.stepThread]

theorem during_goto (c c' : Ctl) : (s.during b o c).goto 0 c' = s.during b o c' := by
  simp [State.during, State.goto, State.setK]

theorem during_acquire {L : Lock} (ho : o L = none) (c c' : Ctl) :
    (s.during b o c).acquire 0 L c' = some (s.during b (Function.update o L (some 0)) c') := by
  simp [State.during, State.acquire, State.goto, State.setK, ho]

theorem during_release (L : Lock) (c c' : Ctl) :
    (s.during b o c).release 0 L c' = some (s.during b (Function.update o L none) c') := by
  simp [State.during, State.release, State.goto, State.setK]

theorem fits_during {x : CreatePc} : Fits (s.during b o (.thread p (.create true x))) (0, .run none) := by
  refine ⟨rfl, trivial, ?_⟩
  simp [SemOk, State.during, Ctl.pc?, Pc.SemOk]

variable {P : State 1 → Event 1 → Prop}

/-- A run goes on inside a call of `uthread_create`. -/
theorem run_during {b₀ : Bitvec} (hP : ∀ s₁ e, Fits s₁ e → (s₁.searches e = true → s₁.bitvec = b₀) → P s₁ e)
    {x : CreatePc} (hr : (machine 1 ⟨0⟩).Run P h (s.during b o (.thread p (.create true x))))
    (hh : s.halt = none) (hx : x = .next → b = b₀)
    (hs : (s.during b o (.thread p (.create true x))).stepCreate ⟨0⟩ 0 p none true x = some s') :
    (machine 1 ⟨0⟩).Run P ((s.during b o (.thread p (.create true x)), (0, .run none)) :: h) s' := by
  refine hr.step (hP _ _ fits_during fun hsearch => ?_) ((step_during hh).trans hs)
  cases x with
  | next => exact hx rfl
  | _ => simp [State.searches, State.during, Ctl.pc?, Pc.allocates] at hsearch

/-- A call of `uthread_create` by the main thread runs from its search to its return. -/
theorem run_of_next {b₀ : Bitvec} (hP : ∀ s₁ e, Fits s₁ e → (s₁.searches e = true → s₁.bitvec = b₀) → P s₁ e)
    (hh : s.halt = none) (hr : (machine 1 ⟨0⟩).Run P h (s.during b₀ o (.thread p (.create true .next))))
    (htcbs : o .tcbs = none) (hrq : o .rqueue = none) :
    ∃ h' s', (machine 1 ⟨0⟩).Run P h' s' ∧
      (s.during b₀ o (.thread p (.create true .next)), (0, .run none)) ∈ h' ∧ s'.halt = none ∧
      s'.inited = s.inited ∧ (∃ r, (s'.kt 0).ctl = .thread p (.user r)) ∧
      s'.owner .bitvec = none ∧ s'.owner .tcbs = none ∧ s'.owner .rqueue = none ∧
      s'.tcbs = Function.update s.tcbs (State.getNextTid b₀).1.toNat (some s.fresh) := by
  obtain ⟨b₁, hb₁⟩ : ∃ b₁, b₁ = (State.getNextTid b₀).2 := ⟨_, rfl⟩
  obtain ⟨t, ht⟩ : ∃ t, t = (State.getNextTid b₀).1.toNat := ⟨_, rfl⟩
  have r1 : (machine 1 ⟨0⟩).Run P _ (s.during b₁ o (.thread p (.create true (.bvUnlock t)))) :=
    run_during hP hr hh (fun _ => rfl) (by
      simp [State.stepCreate, State.during, State.goto, State.setK, hb₁, ht])
  have r2 := run_during hP r1 hh (by simp) (during_release _ _ _)
  have r3 := run_during hP r2 hh (by simp) (during_acquire (by simpa using htcbs) _ _)
  -- the new control block
  have r4 : (machine 1 ⟨0⟩).Run P _ ((s.installed t).during b₁ _ (.thread p (.create true (.enq t s.fresh .lock)))) :=
    run_during hP r3 hh (by simp) (by
      simp [State.stepCreate, State.during, State.installed, State.goto, State.setK]
      rfl)
  have r5 := run_during hP r4 hh (by simp) (during_acquire (by simpa using hrq) _ _)
  have r6 : (machine 1 ⟨0⟩).Run P _ ({ s.installed t with rqueue := s.rqueue ++ [Entry.tcb s.fresh] }.during b₁ _
      (.thread p (.create true (.enq t s.fresh .unlock)))) :=
    run_during hP r5 hh (by simp) (by
      simp [State.stepCreate, State.readyEnqueue, State.during, State.installed, State.goto, State.setK]
      rfl)
  have r7 := run_during hP r6 hh (by simp) (during_release _ _ _)
  have r8 : (machine 1 ⟨0⟩).Run P _ ({ s.installed t with
      rqueue := s.rqueue ++ [Entry.tcb s.fresh]
      notEmpty := s.notEmpty + 1 }.during b₁ _ (.thread p (.create true (.unlock t)))) :=
    run_during hP r7 hh (by simp) (by
      simp [State.stepCreate, State.readyEnqueue, State.during, State.installed, State.goto, State.setK]
      rfl)
  have r9 := run_during hP r8 hh (by simp) (during_release _ _ _)
  have r10 : (machine 1 ⟨0⟩).Run P _ ({ s.installed t with
      rqueue := s.rqueue ++ [Entry.tcb s.fresh]
      notEmpty := s.notEmpty + 1 }.during b₁ _ (.thread p (.user (.created t 0)))) :=
    run_during hP r9 hh (by simp) (by
      simp [State.stepCreate, State.during, State.installed, State.setK, KThread.unblock, Config.preemptive]
      rfl)
  refine ⟨_, _, r10, by simp, hh, rfl, ⟨.created t 0, ?_⟩, ?_, ?_, ?_, ?_⟩
  · simp [State.during]
  · simp [State.during]
  · simp [State.during]
  · simp [State.during]
  · simp [State.during, State.installed, ht]

end Steps

/-- A call of `uthread_create` by the main thread. -/
theorem Idle.create {P : State 1 → Event 1 → Prop} (I : Idle s) (hr : (machine 1 ⟨0⟩).Run P h s)
    (hP : ∀ s₁ e, Fits s₁ e → (s₁.searches e = true → s₁.bitvec = s.bitvec) → P s₁ e) :
    ∃ h' s' s₁, (machine 1 ⟨0⟩).Run P h' s' ∧ Idle s' ∧ (s₁, (0, .run none)) ∈ h' ∧
      s₁.searches (0, .run none) = true ∧ s₁.bitvec = s.bitvec ∧
      s'.tcbs = Function.update s.tcbs (State.getNextTid s.bitvec).1.toNat (some s.fresh) := by
  obtain ⟨hhalt, hinit, ⟨r, hc⟩, hbv, htcbs, hrq⟩ := I
  have hcall : (machine 1 ⟨0⟩).step s (0, .call (.op (.create true))) =
      some (s.during s.bitvec s.owner (.thread mainTcb (.preempt (.create true)))) := by
    simp [machine, State.step, hhalt, hc, State.stepCall, hinit, Call.enter, State.during, State.setK,
      KThread.block, Config.preemptive]
  have hfits : Fits s (0, .call (.op (.create true))) := ⟨trivial, fun _ _ => trivial, trivial⟩
  have r1 := hr.step (hP _ _ hfits (by simp [State.searches])) hcall
  have hstart : (machine 1 ⟨0⟩).step (s.during s.bitvec s.owner (.thread mainTcb (.preempt (.create true))))
      (0, .run none) = some (s.during s.bitvec s.owner (.thread mainTcb (.create true .bvLock))) := by
    simp [machine, State.step, hhalt, State.during, State.stepRun, State.stepThread, State.checkPreempted,
      Config.preemptive, State.goto, State.setK, Op.start]
  have hfits' : Fits (s.during s.bitvec s.owner (.thread mainTcb (.preempt (.create true)))) (0, .run none) := by
    refine ⟨rfl, trivial, ?_⟩
    simp [SemOk, State.during, Ctl.pc?, Pc.SemOk]
  have r2 := r1.step (hP _ _ hfits' fun _ => rfl) hstart
  have r3 := run_during hP r2 hhalt (by simp) (during_acquire hbv _ _)
  obtain ⟨h', s', hr', hmem, hh, hin, hctl, ho₁, ho₂, ho₃, ht⟩ :=
    run_of_next hP hhalt r3 (by simpa using htcbs) (by simpa using hrq)
  refine ⟨h', s', _, hr', ⟨hh, hin.trans hinit, hctl, ho₁, ho₂, ho₃⟩, hmem, ?_, rfl, ht⟩
  simp [State.searches, State.during, Ctl.pc?, Pc.allocates]

/-- In user code the bits are those of the table. -/
theorem Idle.bit_iff (I : Idle s) (hr : (machine 1 cfg).Run Obeys h s) {t : Tid} (ht : t < maxThreads) :
    bitvecGet s.bitvec t ≠ 0 ↔ s.tcbs t ≠ none := by
  obtain ⟨r, hc⟩ := I.ctl
  have hI := inv_of_reachable Nat.one_pos hr.reachable
  have hcl (k : Fin 1) : (s.kt k).claims = none := by
    rw [Subsingleton.elim k 0, KThread.claims, hc]
    rfl
  have hre (k : Fin 1) : (s.kt k).releasing = none := by
    rw [Subsingleton.elim k 0, KThread.releasing, hc]
    rfl
  rw [hI.bits.bit (hI.infoFreed_of_thread hc) t ht]
  simp [hcl, hre]

/-- The first `m` identifiers can be in use. -/
theorem exists_run_full (m : ℕ) (hm : m ≤ maxThreads) : ∃ (h : List (State 1 × Event 1)) (s : State 1),
    (machine 1 ⟨0⟩).Run Obeys h s ∧ Idle s ∧ ∀ t < m, s.tcbs t ≠ none := by
  induction m with
  | zero =>
    obtain ⟨h, s, hr, hs⟩ := EventMachine.exists_run_of_exec (M := machine 1 ⟨0⟩) (P := Obeys) (runs 0 2)
      (p := fun x => x.2.halt = none ∧ x.2.inited = true ∧ (x.2.kt 0).ctl = .thread mainTcb (.user .unit) ∧
        x.2.owner .bitvec = none ∧ x.2.owner .tcbs = none ∧ x.2.owner .rqueue = none) (by decide +kernel)
    have hs : s.halt = none ∧ s.inited = true ∧ (s.kt 0).ctl = .thread mainTcb (.user .unit) ∧
      s.owner .bitvec = none ∧ s.owner .tcbs = none ∧ s.owner .rqueue = none := of_decide_eq_true hs
    exact ⟨h, s, hr, ⟨hs.1, hs.2.1, ⟨_, hs.2.2.1⟩, hs.2.2.2⟩, nofun⟩
  | succ m ih =>
    obtain ⟨h, s, hr, I, hall⟩ := ih (Nat.le_of_succ_le hm)
    by_cases hfree : s.tcbs m = none
    · have hzero : bitvecGet s.bitvec m = 0 := by
        by_contra hne
        exact (I.bit_iff hr hm).1 hne hfree
      have hI := inv_of_reachable Nat.one_pos hr.reachable
      have hsize : 8 * s.bitvec.nbytes = maxThreads := by rw [hI.bits.size.1]; rfl
      have hpos : 0 ≤ bitvecFirstClearedIndex s.bitvec := by
        rw [← not_lt, bitvecFirstClearedIndex_neg_iff, hsize]
        exact fun hset => hset m hm hzero
      -- the search finds `m`: the smaller identifiers are in use and `m` is not
      obtain ⟨hlt, hclear, hset⟩ := bitvecFirstClearedIndex_spec hpos
      rw [hsize] at hlt
      have hle : ¬ m < (bitvecFirstClearedIndex s.bitvec).toNat := fun hlt => hset m hlt hzero
      have hge : ¬ (bitvecFirstClearedIndex s.bitvec).toNat < m := fun hlt' =>
        (I.bit_iff hr hlt).2 (hall _ hlt') hclear
      have hnext : (State.getNextTid s.bitvec).1.toNat = m := by
        rw [(getNextTid_eq hpos).1]
        omega
      obtain ⟨h', s', -, hr', I', -, -, -, htcbs⟩ := I.create hr fun s₁ e hf hb => by
        refine hf.obeys ?_
        cases hs : s₁.searches e with
        | true =>
          obtain ⟨f, rfl⟩ := State.exists_run_of_searches hs
          exact fun _ => hb hs ▸ hpos
        | false => exact tidsLeft_of_not_searches hs
      refine ⟨h', s', hr', I', fun t ht => ?_⟩
      rw [htcbs, hnext]
      by_cases htm : t = m
      · simp [htm]
      · simpa [htm] using hall t (Nat.lt_of_le_of_ne (Nat.le_of_lt_succ ht) htm)
    · refine ⟨h, s, hr, I, fun t ht => ?_⟩
      by_cases htm : t = m
      · exact htm ▸ hfree
      · exact hall t (Nat.lt_of_le_of_ne (Nat.le_of_lt_succ ht) htm)

/-- With `UTHREAD_MAX_THREADS` threads the next call of `uthread_create` returns `0` and an identifier that is
in use. -/
theorem creates_fail_exhausted : ¬ ∀ (cfg : Config) (h : List (State 1 × Event 1)) (s : State 1),
    (machine 1 cfg).Run Fits h s → ∀ c ∈ creates h, c.Ok := by
  intro hall
  obtain ⟨h, s, hr, I, hfull⟩ := exists_run_full maxThreads le_rfl
  have hrf : (machine 1 ⟨0⟩).Run Fits h s := hr.mono fun _ _ ho => ⟨ho.alloc, ho.call, ho.sem⟩
  obtain ⟨h', s', s₁, hr', I', hmem, hsearch, hb, -⟩ := I.create hrf fun _ _ hf _ => hf
  have J := createsInv_of_run hr'
  obtain ⟨r, hc⟩ := I'.ctl
  -- if the calls were all right, an identifier would have been free for the last one
  have hobeys := ((J.run (J.iff.1 (hall _ h' s' hr'))).idle (by simp [hc, Ctl.creating])).reachable_of_mem hmem
  have hpos := hobeys.2.tids (by simpa [State.searches] using hsearch)
  rw [hb] at hpos
  obtain ⟨hlt, hzero, -⟩ := bitvecFirstClearedIndex_spec hpos
  rw [(inv_of_reachable Nat.one_pos hr.reachable).bits.size.1] at hlt
  exact (I.bit_iff hr hlt).2 (hfull _ hlt) hzero

end Single

end Uthread
