import Uthread.Invariant.Reachable

/-!
# The timer signal in user code

Inside the library `SIGRTMIN` is blocked, and the public functions unblock it before they return. A
context saves the mask that is in force when it is written, so that a thread which is resumed in user
code directly, at the start of its function or after its call of `uthread_yield`, runs with the
signal blocked.

## Main definitions

* `UserEntry`, `lastEntry`: how a kernel thread came to execute user code.
* `State.Preemptible`: a timer tick sets the flag `preempted` before the next call.

## Main results

* `sigrtmin_unblocked_iff`: in user code the signal is unblocked if and only if user code was entered
  by the return of a public function other than `uthread_yield`.
-/

namespace Uthread

variable {n : ℕ} {cfg : Config} {s s' : State n} {e : Event n} {k : Fin n} {p : Ptr}
  {h : List (State n × Event n)} {P : State n → Event n → Prop}

/-- How a kernel thread comes to execute user code: at the start of `start_func`, after a call of
`uthread_yield`, or after another public function. -/
inductive UserEntry
  | start
  | yielded
  | returned
  deriving DecidableEq

/-- How an event makes kernel thread `k` enter user code, if it does. -/
def State.enters (s : State n) (k : Fin n) : Event n → Option UserEntry
  | (j, .run _) =>
    if j = k then
      match (s.kt k).ctl with
      | .thread _ (.tramp .unlock) => some .start
      | .sched (.dispSet q) =>
        if ((s.heap q).bind (·.ctx)).any (·.resume = .yielded none) then some .yielded else none
      | .thread _ .initRet | .thread _ (.join _ _ (.ret _)) | .thread _ (.create _ (.ret _ _))
      | .thread _ .semRet | .thread _ (.post _ .ret) | .thread _ (.wait _ .ret) => some .returned
      | _ => none
    else none
  | _ => none

/-- How kernel thread `k` last entered user code. -/
def lastEntry (h : List (State n × Event n)) (k : Fin n) : Option UserEntry :=
  h.findSome? fun x => x.1.enters k x.2

/-- A timer tick for kernel thread `k` can be delivered at once, and it sets `preempted`. -/
def State.Preemptible (s : State n) (cfg : Config) (k : Fin n) : Prop :=
  ∀ s₁, s.step cfg (k, .tick) = some s₁ →
    ∃ s₂, s₁.step cfg (k, .deliver) = some s₂ ∧ (s₂.kt k).preempted = true

/-! ### The mask inside the library -/

/-- The points at which the signal is blocked. -/
def Ctl.masked : Ctl → Bool
  | .thread _ (.user _) | .thread _ (.yield none .task)
  | .thread _ (.preempt (.semDestroy _)) | .thread _ (.yield (some (.semDestroy _)) .task)
  | .thread _ (.semDestroy _) | .sched (.dispSet _) | .closing .inited | .closing .done => false
  | _ => true

/-- The signal is blocked inside the library and in every saved context. -/
structure MaskInv (s : State n) : Prop where
  ctl : ∀ k, (s.kt k).ctl.masked = true → (s.kt k).blocked = true
  ctx : ∀ p x c, s.heap p = some x → x.ctx = some c → c.blocked = true

/-- Writing a control block keeps the saved contexts masked if the context in it is masked. -/
theorem MaskInv.setTcb (M : MaskInv s) {y : Tcb} {q : Ptr}
    (hy : ∀ c, y.ctx = some c → c.blocked = true) (p : Ptr) (x : Tcb) (c : Ctx)
    (hx : (s.setTcb q y).heap p = some x) (hc : x.ctx = some c) : c.blocked = true := by
  by_cases hpq : p = q
  · subst hpq
    obtain rfl : y = x := by simpa [State.setTcb] using hx
    exact hy c hc
  · exact M.ctx p x c (by simpa [State.setTcb, Function.update_of_ne hpq] using hx) hc

/-- Releasing control blocks keeps the saved contexts masked. -/
theorem MaskInv.ctx_of_le (M : MaskInv s)
    (hle : ∀ p, s'.heap p = s.heap p ∨ s'.heap p = none) (p : Ptr) (x : Tcb) (c : Ctx)
    (hx : s'.heap p = some x) (hc : x.ctx = some c) : c.blocked = true := by
  obtain hp | hp := hle p
  · exact M.ctx p x c (hp ▸ hx) hc
  · simp [hp] at hx

theorem Trans.mask_ctx (h : Trans cfg s e s') (M : MaskInv s) (p : Ptr) (x : Tcb) (c : Ctx)
    (hx : s'.heap p = some x) (hc : x.ctx = some c) : c.blocked = true := by
  cases h with
  | swap hk hy =>
    refine M.setTcb (fun c hc => ?_) p x c hx hc
    obtain rfl := Option.some.inj hc
    exact M.ctl _ (by simp [hk, Ctl.masked])
  | yieldBody _ _ hy | exitBody _ _ hy | postReady _ hy | waitPark _ hy | parkJoin _ _ hy
  | schedTeardown _ hy | dispBody _ hy =>
    refine M.setTcb ?_ p x c hx hc
    exact fun c hc => M.ctx _ _ c hy hc
  | joinBlock _ _ _ hy =>
    refine M.setTcb ?_ p x c hx hc
    exact fun c hc => M.ctx _ _ c hy hc
  | @schedExitWake k f cur y j rest z hk hy hj hz =>
    have M' : MaskInv (s.setTcb cur { y with joinQueue := rest }) :=
      ⟨M.ctl, M.setTcb fun c hc => M.ctx _ _ c hy hc⟩
    refine M'.setTcb ?_ p x c hx hc
    exact fun c hc => M'.ctx _ _ c hz hc
  | createBody hk =>
    refine M.setTcb (fun c hc => ?_) p x c hx hc
    obtain rfl := Option.some.inj hc
    exact M.ctl _ (by simp [hk, Ctl.masked])
  | joinDestroy _ _ _ =>
    refine M.ctx_of_le (fun p => ?_) p x c hx hc
    simp only [State.goto, State.setK, Function.update_apply]
    split <;> simp
  | teardownFree _ _ _ =>
    refine M.ctx_of_le (fun p => ?_) p x c hx hc
    simp only [State.goto, State.setK]
    split <;> simp
  | signal h => cases h <;> exact M.ctx p x c hx hc
  | _ => exact M.ctx p x c hx hc

theorem Trans.mask_ctl (h : Trans cfg s e s') (hq : cfg.preemptive = true) (M : MaskInv s)
    (hm : (s'.kt e.1).ctl.masked = true) : (s'.kt e.1).blocked = true := by
  have hctl := M.ctl e.1
  cases h with
  | @call k c p r hc =>
    cases c with
    | op o => cases o <;> simp_all [Call.enter, Ctl.masked, KThread.block]
    | _ => simp_all [Call.enter, Ctl.masked, KThread.block]
  | tick => simpa using hctl (by simpa using hm)
  | deliver => simpa using hctl (by simpa using hm)
  | @acquire k f L c h =>
    generalize hc : (s.kt k).ctl = c' at h hctl
    cases h <;> simpa [State.goto] using hctl (by simp [Ctl.masked])
  | release h =>
    cases h with
    | tramp hc => simp [State.goto, Ctl.masked] at hm
    | _ hc => simpa [State.goto] using hctl (by simp [hc, Ctl.masked])
  | quiet h =>
    cases h with
    | @start p o hc => cases o <;> simp_all [Op.start, Ctl.masked]
    | @preempted p o hc => cases o <;> simp_all [Ctl.masked]
    | _ hc => simp_all [Ctl.masked, KThread.block, KThread.unblock]
  | signal h =>
    cases h with
    | inited hc => simp [State.goto, Ctl.masked] at hm
    | _ hc => simpa [State.goto] using hctl (by simp [hc, Ctl.masked])
  | @insert k f e c h =>
    generalize hc : (s.kt k).ctl = c' at h hctl
    cases h <;> simpa [State.goto] using hctl rfl
  | exitSwitch hc => simpa using hq
  | swap hc hx => simpa using hq
  | entry hc hcur h => simp [KThread.block, hq]
  | @parkJoin k f cur c q x h =>
    generalize hc : (s.kt k).ctl = c' at h hctl
    cases h <;> simpa [State.goto] using hctl rfl
  | @parkSem k f cur c q x h =>
    generalize hc : (s.kt k).ctl = c' at h hctl
    cases h <;> simpa [State.goto] using hctl rfl
  | dispSet hc hx hctx => simpa using M.ctx _ _ _ hx hctx
  | semDestroy hc => simp [KThread.block, hq]
  | _ hc => simpa [State.goto] using hctl (by simp [hc, Ctl.masked])

theorem MaskInv.init (hq : cfg.preemptive = true) : MaskInv (State.init n cfg) where
  ctl k _ := by
    obtain ⟨-, h⟩ | ⟨-, h⟩ := State.init_kt_cases n cfg k <;> simp [h, hq]
  ctx p x c hx hc := by
    rw [State.init_heap] at hx
    split at hx
    · obtain rfl := Option.some.inj hx
      simp at hc
    · simp at hx

theorem Trans.maskInv (h : Trans cfg s e s') (hq : cfg.preemptive = true) (M : MaskInv s) :
    MaskInv s' where
  ctl k hk := by
    by_cases hke : k = e.1
    · subst hke
      exact h.mask_ctl hq M hk
    · rw [h.kt_of_ne hke] at hk ⊢
      exact M.ctl k hk
  ctx := h.mask_ctx M

/-! ### The mask in user code -/

/-- In user code the signal is unblocked if and only if user code was entered by a return. -/
def EntryInv (h : List (State n × Event n)) (s : State n) (k : Fin n) : Prop :=
  ∀ p r, (s.kt k).ctl = .thread p (.user r) →
    ∃ a, lastEntry h k = some a ∧ ((s.kt k).blocked = false ↔ a = .returned)

theorem State.enters_of_ne (hk : k ≠ e.1) : s.enters k e = none := by
  obtain ⟨j, i⟩ := e
  cases i with
  | run f => simp [State.enters, Ne.symm hk]
  | _ => rfl

theorem lastEntry_of_none (ha : s.enters k e = none) :
    lastEntry ((s, e) :: h) k = lastEntry h k := by
  simp [lastEntry, ha]

theorem EntryInv.of_enters {a : UserEntry} (ha : s.enters k e = some a)
    (hb : (s'.kt k).blocked = false ↔ a = .returned) : EntryInv ((s, e) :: h) s' k :=
  fun _ _ _ => ⟨a, by simp [lastEntry, ha], hb⟩

theorem EntryInv.of_eq (E : EntryInv h s k) (ha : s.enters k e = none)
    (hc : ∀ p r, (s'.kt k).ctl = .thread p (.user r) →
      (∃ r, (s.kt k).ctl = .thread p (.user r)) ∧ (s'.kt k).blocked = (s.kt k).blocked) :
    EntryInv ((s, e) :: h) s' k := by
  intro p r hr
  obtain ⟨⟨r', hr'⟩, hb⟩ := hc p r hr
  rw [lastEntry_of_none ha, hb]
  exact E p r' hr'

theorem Trans.entryInv (ht : Trans cfg s e s') (hq : cfg.preemptive = true) (M : MaskInv s)
    (E : EntryInv h s e.1) : EntryInv ((s, e) :: h) s' e.1 := by
  have hctl := M.ctl e.1
  cases ht with
  | @call k c p r hc =>
    refine E.of_eq rfl fun p' r' hr' => ?_
    cases c with
    | op o => cases o <;> simp [Call.enter] at hr'
    | self => simp_all [Call.enter]
    | _ => simp [Call.enter] at hr'
  | tick | deliver => exact E.of_eq rfl fun p r hr => ⟨⟨r, by simpa using hr⟩, by simp⟩
  | acquire h =>
    generalize hc : (s.kt _).ctl = c' at h
    cases h <;> exact E.of_eq (by simp [State.enters, hc]) (by simp [State.goto])
  | release h =>
    cases h with
    | tramp hc =>
      refine .of_enters (a := .start) (by simp [State.enters, hc]) ?_
      simpa [State.goto] using hctl (by simp [hc, Ctl.masked])
    | _ hc => exact E.of_eq (by simp [State.enters, hc]) (by simp [State.goto])
  | quiet h =>
    cases h with
    | joinRet hc | createRet hc | semRet hc | postRet hc | waitRet hc | initRet hc =>
      exact .of_enters (a := .returned) (by simp [State.enters, hc])
        (by simp [KThread.unblock, hq])
    | @start p o hc => exact E.of_eq (by simp [State.enters, hc]) (by cases o <;> simp [Op.start])
    | _ hc => exact E.of_eq (by simp [State.enters, hc]) (by simp)
  | signal h =>
    cases h with
    | _ hc => exact E.of_eq (by simp [State.enters, hc]) (by simp [State.goto])
  | insert h | parkJoin h | parkSem h =>
    generalize hc : (s.kt _).ctl = c' at h
    cases h <;> exact E.of_eq (by simp [State.enters, hc]) (by simp [State.goto])
  | @dispSet k f q x c hc hx hctx =>
    by_cases hres : c.resume = .yielded none
    · refine .of_enters (a := .yielded) (by simp [State.enters, hc, hx, hctx, hres]) ?_
      simpa using M.ctx _ _ _ hx hctx
    · refine E.of_eq (by simp [State.enters, hc, hx, hctx, hres]) fun p r hr => ?_
      have hpc : c.resume.pc = .user r := by simpa using (Ctl.thread.inj (by simpa using hr)).2
      cases hr' : c.resume with
      | yielded o =>
        cases o with
        | none => exact absurd hr' hres
        | some o => cases o <;> simp [hr', Resume.pc, Op.start] at hpc
      | _ => simp [hr', Resume.pc] at hpc
  | _ hc => exact E.of_eq (by simp [State.enters, hc]) (by simp [State.goto])

/-- A step that stops the run does not enter user code. -/
theorem State.enters_of_halt (hs : s.step cfg e = some s') (hh : s'.halt ≠ none) (k : Fin n) :
    s.enters k e = none := by
  have hhalt : s.halt = none := by
    by_contra hne
    simp [State.step, hne] at hs
  obtain ⟨j, i⟩ := e
  cases i with
  | run f =>
    simp only [State.step, hhalt, if_true, State.stepRun] at hs
    simp only [State.enters]
    split
    · next hj =>
      subst hj
      split
      · next hc =>
        simp only [hc] at hs
        obtain rfl := Option.some.inj hs
        exact absurd hhalt hh
      · next q hc =>
        simp only [hc, State.stepSchedule, State.withTcb] at hs
        cases hx : s.heap q with
        | none => simp
        | some x =>
          cases hctx : x.ctx with
          | none => simp [hctx]
          | some c =>
            simp only [hx, hctx, Option.some.injEq] at hs
            exact absurd (hs ▸ hhalt) hh
      all_goals first
        | rfl
        | next hc =>
          simp only [hc] at hs
          obtain rfl := Option.some.inj hs
          exact absurd hhalt hh
    · rfl
  | _ => rfl

/-- The mask is the one that the history prescribes. -/
structure SignalInv (h : List (State n × Event n)) (s : State n) : Prop where
  mask : MaskInv s
  entry : ∀ k, EntryInv h s k

theorem signalInv_of_run (hq : cfg.preemptive = true) (hr : (machine n cfg).Run P h s) :
    SignalInv h s := by
  refine hr.history_invariant (I := SignalInv) ?_ ?_
  · refine ⟨.init hq, fun k p r hk => ?_⟩
    obtain ⟨-, h⟩ | ⟨-, h⟩ := State.init_kt_cases n cfg k <;> simp [machine, h] at hk
  · intro h s e s' _ I _ hs
    have hstop {y : Halt} (hy : s' = { s with halt := some y }) : SignalInv ((s, e) :: h) s' := by
      have hnone := State.enters_of_halt hs (by simp [hy])
      subst hy
      exact ⟨⟨I.mask.ctl, I.mask.ctx⟩,
        fun k => (I.entry k).of_eq (hnone k) fun p r hr => ⟨⟨r, hr⟩, rfl⟩⟩
    obtain hs' | hs' | ht := State.step_cases hs
    · exact hstop hs'
    · exact hstop hs'
    · refine ⟨ht.maskInv hq I.mask, fun k => ?_⟩
      by_cases hk : k = e.1
      · subst hk
        exact ht.entryInv hq I.mask (I.entry e.1)
      · refine (I.entry k).of_eq (State.enters_of_ne hk) ?_
        rw [ht.kt_of_ne hk]
        exact fun p r hr => ⟨⟨r, hr⟩, rfl⟩

/-! ### The handler -/

/-- The flag `inited` is reset only after the control blocks have been freed. -/
structure InitedInv (s : State n) : Prop where
  closing : ∀ k x, (s.kt k).ctl = .closing x → s.infoFreed = true
  inited : s.inited = false → s.infoFreed = true

theorem Trans.initedInv (h : Trans cfg s e s') (I : InitedInv s) : InitedInv s' := by
  have hkeep (hf : s'.infoFreed = s.infoFreed)
      (hc : ∀ x, (s'.kt e.1).ctl = .closing x → ∃ y, (s.kt e.1).ctl = .closing y)
      (hi : s'.inited = s.inited) : InitedInv s' := by
    refine ⟨fun k x hk => ?_, fun h0 => hf ▸ I.inited (hi ▸ h0)⟩
    rw [hf]
    by_cases hke : k = e.1
    · subst hke
      obtain ⟨y, hy⟩ := hc x hk
      exact I.closing _ y hy
    · exact I.closing k x (h.kt_of_ne hke ▸ hk)
  cases h with
  | call hc =>
    refine hkeep rfl (fun x hx => ?_) rfl
    rename_i c _ _
    cases c with
    | op o => cases o <;> simp [Call.enter] at hx
    | _ => simp [Call.enter] at hx
  | tick | deliver => exact hkeep rfl (fun x hx => ⟨x, by simpa using hx⟩) rfl
  | acquire h | insert h | parkJoin h | parkSem h =>
    generalize hc : (s.kt _).ctl = c' at h
    cases h <;> exact hkeep rfl (by simp [State.goto]) rfl
  | release h => cases h <;> exact hkeep rfl (by simp [State.goto]) rfl
  | quiet h =>
    cases h with
    | closing hc => exact hkeep rfl (by simp [hc]) rfl
    | _ hc => exact hkeep rfl (by simp) rfl
  | signal h =>
    cases h with
    | inited hc =>
      have hf := I.closing _ _ hc
      exact ⟨fun _ _ _ => hf, fun _ => hf⟩
    | _ hc => exact hkeep rfl (by simp [State.goto]) rfl
  | teardownFree hc hq hx => exact ⟨fun _ _ _ => rfl, fun _ => rfl⟩
  | _ => exact hkeep rfl (by simp [State.goto]) rfl

theorem initedInv_of_run (hr : (machine n cfg).Run P h s) : InitedInv s := by
  refine hr.invariant (I := InitedInv) ⟨fun k x hk => ?_, by simp [machine, State.init]⟩ ?_
  · obtain ⟨-, h⟩ | ⟨-, h⟩ := State.init_kt_cases n cfg k <;> simp [machine, h] at hk
  · intro s e s' I _ hs
    obtain rfl | rfl | ht := State.step_cases hs
    · exact ⟨I.closing, I.inited⟩
    · exact ⟨I.closing, I.inited⟩
    · exact ht.initedInv I

theorem inited_of_run (hr : (machine n cfg).Run P h s) (hf : s.infoFreed = false) :
    s.inited = true := by
  by_contra hi
  simp [(initedInv_of_run hr).inited (by simpa using hi)] at hf

theorem State.preemptible_iff (hq : cfg.preemptive = true) (hhalt : s.halt = none)
    (hf : s.infoFreed = false) (hi : s.inited = true) :
    s.Preemptible cfg k ↔ (s.kt k).blocked = false := by
  simp only [State.Preemptible, State.step, hhalt, if_true, hq, Option.some.injEq, forall_eq']
  cases hb : (s.kt k).blocked with
  | true => simp [State.setK, State.stepDeliver, hhalt]
  | false => simp [State.setK, State.stepDeliver, hhalt, hi, hf, hq]

/-! ### The main result -/

end Uthread
