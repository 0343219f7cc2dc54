import Uthread.Client.System
import Uthread.Safety.Accounting
import Uthread.Safety.Lookup

/-!
# The library implements atomic semaphores

A call on a semaphore takes effect at one step of the library: where the counter is written. Until then the
thread is inside the call, wherever it is suspended in between, and nothing else that it does is seen by the
program. So a program over the library does no more than the same program with atomic semaphores.

## Main definitions

* `State.Pending`: a call on a semaphore that has not taken effect.
* `Simulates`: the relation between the system and the atomic machine.
* `Linearizes`: how a step of the system shows in the atomic machine.

## Main results

* `Trans.effect_cases`: a step of the library is silent, or one pending call takes effect.
* `atomic_of_run`: what the system reaches is simulated.
-/

namespace Uthread

variable {n : ℕ} {cfg : Config} {s s' : State n} {e : Event n} {k : Fin n} {p : Ptr} {o : Op} {i : SemId}
  {h : List (State n × Event n)}

/-! ### Pending calls -/

/-- Thread `p` is inside a call on a semaphore that has not taken effect. -/
def State.Pending (s : State n) (p : Ptr) (o : Op) : Prop := o.effect.isSome ∧ s.InCall p (.op o, false)

/-- An executed thread is inside the call that its point shows. -/
theorem Inv.inCall_iff (I : Inv s) (hth : (s.kt k).ctl.thread? = some p) {a : Call × Bool} :
    s.InCall p a ↔ (s.kt k).ctl.inside = some (p, a) := by
  constructor
  · rintro (⟨k', hk'⟩ | hs)
    · exact I.place.thread_unique hth (Ctl.thread?_of_inside hk') ▸ hk'
    · simp [State.suspended_eq_context, State.context_of_executed hth] at hs
  · exact fun h => .inl ⟨k, h⟩

/-- A thread is inside one call only. -/
theorem Inv.inCall_unique (I : Inv s) {a b : Call × Bool} (ha : s.InCall p a) (hb : s.InCall p b) : a = b := by
  rcases ha with ⟨k, ha⟩ | ha
  · rw [I.inCall_iff (Ctl.thread?_of_inside ha), ha] at hb
    simpa using hb
  · rcases hb with ⟨k, hb⟩ | hb
    · simp [State.suspended_eq_context, State.context_of_executed (Ctl.thread?_of_inside hb)] at ha
    · exact Option.some.inj (ha.symm.trans hb)

/-- A pending call was pending, or it is made. -/
theorem Trans.pending_cases (ht : Trans cfg s e s') (I : Inv s) (ha : AllocOk e) (hp : s'.Pending p o) :
    s.Pending p o ∨ (e.2 = .call (.op o) ∧ ∃ r, (s.kt e.1).ctl = .thread p (.user r)) := by
  obtain ⟨ho, hin⟩ := hp
  cases ht.inCall_cases I ha hin with
  | stays h => exact .inl ⟨ho, h⟩
  | call he hc => exact .inr ⟨he, _, hc⟩

/-- Where the acting kernel thread goes on with a pending call: it stays in it, the thread is suspended in it, or
it takes effect. -/
inductive Stays (cfg : Config) (s : State n) (e : Event n) (s' : State n) (p : Ptr) (o : Op) : Prop
  | inside (h : (s'.kt e.1).ctl.inside = some (p, .op o, false))
  | swap {c x r} (hc : (s.kt e.1).ctl = .thread p (.swap (some c) r)) (hx : s.heap c = some x)
      (hs : s' = (s.setTcb c { x with ctx := some ⟨p, r, (s.kt e.1).blocked⟩ }).setK e.1
        { s.kt e.1 with ctl := .sched .entry, blocked := cfg.preemptive })
  | acts {i a} (h : s.counterAct e = some (i, a)) (ha : a ≠ .ret)

theorem Trans.stays (ht : Trans cfg s e s') (ho : o.effect.isSome)
    (hin : (s.kt e.1).ctl.inside = some (p, .op o, false)) : Stays cfg s e s' p o := by
  -- a step inside of a call
  have hgo {p₀ : Ptr} {pc pc' : Pc} (hc : (s.kt e.1).ctl = .thread p₀ pc)
      (hc' : (s'.kt e.1).ctl = .thread p₀ pc') (hpc : pc'.inside = pc.inside) : Stays cfg s e s' p o :=
    .inside (by rw [← hin, hc, hc', Ctl.inside, Ctl.inside, hpc])
  -- the calls that are not on a semaphore
  have hno {o' : Op} {p₀ : Ptr} (hin : p₀ = p ∧ o' = o) (ho' : o'.effect = none) :
      Stays cfg s e s' p o := by
    simp [← hin.2, ho'] at ho
  cases ht with
  | call hc => simp [hc, Ctl.inside, Pc.inside] at hin
  | tick => exact .inside (by simpa using hin)
  | deliver => exact .inside (by simpa using hin)
  | acquire h =>
    generalize hc : (s.kt _).ctl = x at h
    cases h <;> first
      | exact hgo hc (congrArg KThread.ctl (State.setK_kt _ _ _)) rfl
      | simp [hc, Ctl.inside] at hin
  | release h =>
    cases h with
    | _ hc => first
      | exact hgo hc (congrArg KThread.ctl (State.setK_kt _ _ _)) rfl
      | simp [hc, Ctl.inside] at hin
  | quiet h =>
    cases h with
    | start hc => exact hgo hc (congrArg KThread.ctl (State.setK_kt _ _ _)) (Op.start_inside _)
    | joinRet hc => exact hno (by simpa [hc, Ctl.inside, Pc.inside] using hin) rfl
    | createRet hc => exact hno (by simpa [hc, Ctl.inside, Pc.inside] using hin) rfl
    | _ hc => first
      | exact hgo hc (congrArg KThread.ctl (State.setK_kt _ _ _)) rfl
      | simp [hc, Ctl.inside, Pc.inside] at hin
  | signal h =>
    cases h with
    | _ hc => first
      | exact hgo hc (congrArg KThread.ctl (State.setK_kt _ _ _)) rfl
      | simp [hc, Ctl.inside] at hin
  | insert h =>
    generalize hc : (s.kt _).ctl = x at h
    cases h <;> first
      | exact hgo hc (congrArg KThread.ctl (State.setK_kt _ _ _)) rfl
      | simp [hc, Ctl.inside] at hin
  | parkJoin h | parkSem h =>
    generalize hc : (s.kt _).ctl = x at h
    cases h <;> simp [hc, Ctl.inside] at hin
  | exitSwitch hc => exact hno (by simpa [hc, Ctl.inside, Pc.inside] using hin) rfl
  | @swap k f p₀ c x r hc hx =>
    obtain rfl : p₀ = p := by
      have hth := Ctl.thread?_of_inside hin
      simpa [hc, Ctl.thread?] using hth
    exact .swap hc hx rfl
  | @semInit k f p₀ i v hc => exact .acts (i := i) (a := .init v) (by simp [State.counterAct, hc]) (by simp)
  | @semDestroy k f p₀ i hc => exact .acts (i := i) (a := .destroy) (by simp [State.counterAct, hc]) (by simp)
  | @postBump k f p₀ i x hc hx | @postWake k f p₀ i x _ _ hc hx =>
    exact .acts (i := i) (a := .inc p₀) (by simp [State.counterAct, hc, hx]) (by simp)
  | @waitDec k f p₀ i x hc hx h0 =>
    exact .acts (i := i) (a := .dec p₀) (by simp [State.counterAct, hc, hx, h0]) (by simp)
  | _ hc => first
    | exact hgo hc (congrArg KThread.ctl (State.setK_kt _ _ _)) rfl
    | simp [hc, Ctl.inside, Pc.inside] at hin

theorem Resume.pc_inside {r : Resume} {b : Bool} (h : r.inside = some (.op o, b)) :
    r.pc.inside = some (.op o, b) := by
  cases r with
  | yielded o' =>
    cases o' with
    | none => simp [Resume.inside] at h
    | some o' => rw [← h, Resume.pc, Op.start_inside, Resume.inside]
  | start => simp [Resume.inside] at h
  | _ => exact h

/-- A pending call stays pending until it takes effect. -/
theorem Trans.pending_stays (ht : Trans cfg s e s') (I : Inv s) (A : AloneInv s) (ha : AllocOk e)
    (hp : s.Pending p o) :
    s'.Pending p o ∨
      ((s.kt e.1).ctl.thread? = some p ∧ ∃ i a, s.counterAct e = some (i, a) ∧ a ≠ .ret) := by
  obtain ⟨ho, ⟨k, hk⟩ | hs⟩ := hp
  · by_cases hke : k = e.1
    · subst hke
      cases ht.stays ho hk with
      | inside h => exact .inl ⟨ho, .inl ⟨_, h⟩⟩
      | @swap c x r hc hx hs' =>
        refine .inl ⟨ho, .inr ?_⟩
        obtain rfl : c = p := I.table.cur_eq hc (by simp [Pc.curs])
        have hctx : s'.context c = some (some ⟨c, r, (s.kt e.1).blocked⟩) := by
          rw [hs']
          exact I.context_of_swap hc hx rfl rfl
        rw [State.suspended_eq_context, hctx]
        simpa [hc, Ctl.inside, Pc.inside] using hk
      | acts h ha => exact .inr ⟨Ctl.thread?_of_inside hk, _, _, h, ha⟩
    · refine .inl ⟨ho, .inl ⟨k, ?_⟩⟩
      rwa [ht.kt_of_ne hke]
  · obtain ⟨r, hr, hin⟩ := Option.bind_eq_some_iff.mp hs
    have hctx := hr
    rw [State.suspended_eq_context] at hctx
    cases ht.suspends I ha p with
    | same h =>
      refine .inl ⟨ho, .inr ?_⟩
      rw [State.suspended_eq_context, h, hctx]
      exact hin
    | saves hc =>
      rw [State.context_of_executed (k := e.1) (by simp [hc, Ctl.thread?])] at hctx
      cases hctx
    | @resumes c hc hc' h h' =>
      obtain rfl : c.resume = r := by simpa [h] using hctx
      refine .inl ⟨ho, .inl ⟨e.1, ?_⟩⟩
      rw [hc', Ctl.inside, Resume.pc_inside hin]
      rfl
    | creates hc hq h =>
      exact absurd (I.place.bound p (Nat.le_of_eq hq.symm)) (State.heap_ne_none_of_suspended hr)
    | @frees p' hc h =>
      -- the other threads have finished, and the one that frees them is executed
      have htears : s.TearsDown p' := .inl ⟨e.1, by simp [hc, Ctl.tearing, Pc.tearing]⟩
      have hne : p ≠ p' := by
        rintro rfl
        rw [State.context_of_executed (k := e.1) (by simp [hc, Ctl.thread?])] at hctx
        cases hctx
      obtain ⟨x, hx⟩ := Option.ne_none_iff_exists'.mp (State.heap_ne_none_of_suspended hr)
      have hfin := A p' htears p x.state hne (by simp [State.stateOf, hx])
      rw [State.suspended_of_finished (by simp [State.stateOf, hx, hfin])] at hr
      cases hr

/-! ### Where a call takes effect -/

/-- The counter of a semaphore that is initialised. -/
def State.counterOf (s : State n) (i : SemId) : Option ℤ := (s.sems i).map (·.counter)

/-- In the step the pending call `o` of `p` takes effect. -/
structure TakesEffect (s : State n) (e : Event n) (s' : State n) (p : Ptr) (o : Op) : Prop where
  thread : (s.kt e.1).ctl.thread? = some p
  pending : s.Pending p o
  effect : ∃ i f, o.effect = some (i, f) ∧ f (s.counterOf i) = some (s'.counterOf i) ∧
    ∀ j, j ≠ i → s'.counterOf j = s.counterOf j
  done : ∃ pc, (s'.kt e.1).ctl = .thread p pc ∧ ∀ o', pc.inside ≠ some (.op o', false)

theorem Trans.silent (ht : Trans cfg s e s') (hno : ∀ a, s.counterAct e = some (i, a) → a = .ret) :
    s'.counterOf i = s.counterOf i := by
  cases ht.counts i with
  | frame _ hs => exact hs
  | init ha => cases hno _ ha
  | destroy ha => cases hno _ ha
  | inc ha => cases hno _ ha
  | dec ha => cases hno _ ha

/-- The point after the one at which a call takes effect. -/
theorem Trans.acted (ht : Trans cfg s e s') {a : CounterAct} (hact : s.counterAct e = some (i, a))
    (ha : a ≠ .ret) (hth : (s.kt e.1).ctl.thread? = some p) :
    ∃ pc, (s'.kt e.1).ctl = .thread p pc ∧ ∀ o', pc.inside ≠ some (.op o', false) := by
  cases ht with
  | semInit hc | semDestroy hc | postBump hc | postWake hc | waitDec hc =>
    obtain rfl : _ = p := by simpa [hc, Ctl.thread?] using hth
    exact ⟨_, by simp [State.goto]; rfl, by simp [Pc.inside]⟩
  | call | tick | deliver => cases hact
  | acquire h | insert h | parkJoin h | parkSem h =>
    generalize hc : (s.kt _).ctl = x at h
    cases h <;> simp [State.counterAct, hc] at hact
  | release h =>
    cases h with
    | _ hc => simp [State.counterAct, hc] at hact
  | quiet h =>
    cases h with
    | waitRet hc =>
      obtain ⟨-, rfl⟩ : _ = i ∧ CounterAct.ret = a := by simpa [State.counterAct, hc] using hact
      exact absurd rfl ha
    | _ hc => simp [State.counterAct, hc] at hact
  | signal h =>
    cases h with
    | _ hc => simp [State.counterAct, hc] at hact
  | _ hc => simp [State.counterAct, hc] at hact

theorem Trans.takesEffect (ht : Trans cfg s e s') {a : CounterAct} (hact : s.counterAct e = some (i, a))
    (ha : a ≠ .ret) : ∃ p o, TakesEffect s e s' p o := by
  have hother {j : SemId} (hj : j ≠ i) : s'.counterOf j = s.counterOf j := by
    refine ht.silent fun b hb => ?_
    rw [hact, Option.some.injEq, Prod.mk.injEq] at hb
    exact absurd hb.1.symm hj
  have heff {p : Ptr} {pc : Pc} {o : Op} {f : Option ℤ → Option (Option ℤ)} (hc : (s.kt e.1).ctl = .thread p pc)
      (hpc : pc.inside = some (.op o, false)) (ho : o.effect = some (i, f))
      (hf : f (s.counterOf i) = some (s'.counterOf i)) : ∃ p o, TakesEffect s e s' p o := by
    have hth : (s.kt e.1).ctl.thread? = some p := by simp [hc, Ctl.thread?]
    exact ⟨p, o, hth, ⟨by simp [ho], .inl ⟨e.1, by simp [hc, Ctl.inside, hpc]⟩⟩, ⟨i, f, ho, hf, fun _ => hother⟩,
      ht.acted hact ha hth⟩
  cases ht.counts i with
  | frame hret => exact absurd (hret a hact) ha
  | init _ _ hc hs => exact heff hc rfl rfl (by simp [State.counterOf, hs])
  | destroy _ _ hc hs => exact heff hc rfl rfl (by simp [State.counterOf, hs])
  | inc _ _ hc hx hs => exact heff hc rfl rfl (by simp [State.counterOf, hx, hs])
  | dec _ _ hc hx h0 hs => exact heff hc rfl rfl (by simp [State.counterOf, hx, h0, hs])

/-! ### The steps of a system -/

variable {σ π : Type} {C : Client σ π} {x x' : SystemState n σ π} {a : AtomicState σ π}
  {ev : SystemEvent n} {P : State n → Event n → Prop} {hx : List (SystemState n σ π × SystemEvent n)}

/-- The library of a system takes part in a run of the library. -/
theorem lib_run (hr : (systemMachine n cfg C).Run (SystemEvent.lift P) hx x) :
    ∃ h, (machine n cfg).Run P h x.lib := by
  induction hr with
  | init => exact ⟨[], .init⟩
  | step _ hp hs ih =>
    obtain ⟨h, ih⟩ := ih
    cases SystemState.step_cases hs with
    | call hc hq hlib => exact ⟨_, ih.step hp hlib⟩
    | lib he hlib => exact ⟨_, ih.step hp hlib⟩
    | user => exact ⟨h, ih⟩

/-! ### The simulation -/

/-- The atomic machine has the memory and the counters of the system. A thread is at the same point in both,
unless it is inside a call on a semaphore that has not taken effect: then the atomic machine has it before
the call. -/
structure Simulates (C : Client σ π) (x : SystemState n σ π) (a : AtomicState σ π) : Prop where
  mem : a.mem = x.mem
  counter : ∀ i, a.counter i = x.lib.counterOf i
  pending : ∀ p o, x.lib.Pending p o → C.call (a.point p) (.op o) = some (x.point p)
  settled : ∀ p, (∀ o, ¬ x.lib.Pending p o) → a.point p = x.point p

/-- The thread of an event. -/
def AtomicEvent.thread : AtomicEvent → Ptr
  | .call p _ | .user p _ => p

/-- How a step of the system shows: the event that the program makes, and the one that takes effect in the atomic
machine. -/
inductive Linearizes (C : Client σ π) (x x' : SystemState n σ π) (a : AtomicState σ π) :
    Option AtomicEvent → Option AtomicEvent → AtomicState σ π → Prop
  | silent (hp : ∀ p o, x'.lib.Pending p o ↔ x.lib.Pending p o) : Linearizes C x x' a none none a
  /-- A call on a semaphore is made, and has not taken effect. -/
  | begins {p : Ptr} {o : Op} (hp : ∀ o, ¬ x.lib.Pending p o) (hp' : x'.lib.Pending p o)
      (hother : ∀ q o, q ≠ p → (x'.lib.Pending q o ↔ x.lib.Pending q o)) :
      Linearizes C x x' a (some (.call p (.op o))) none a
  /-- It takes effect. -/
  | effect {p : Ptr} {o : Op} {a' : AtomicState σ π} (hs : a.step C (.call p (.op o)) = some a') (hp : x.lib.Pending p o)
      (hp' : ∀ o, ¬ x'.lib.Pending p o) (hother : ∀ q o, q ≠ p → (x'.lib.Pending q o ↔ x.lib.Pending q o)) :
      Linearizes C x x' a none (some (.call p (.op o))) a'
  /-- Any other event takes effect when it is made. -/
  | atOnce {b : AtomicEvent} {a' : AtomicState σ π} (hs : a.step C b = some a') (hp : ∀ o, ¬ x.lib.Pending b.thread o)
      (hother : ∀ q o, x'.lib.Pending q o ↔ x.lib.Pending q o) : Linearizes C x x' a (some b) (some b) a'

theorem Linearizes.atomic {a' : AtomicState σ π} {b d : Option AtomicEvent} (L : Linearizes C x x' a b d a') :
    a' = a ∨ ∃ b, a.step C b = some a' := by
  cases L with
  | silent | begins => exact .inl rfl
  | effect hs | atOnce hs => exact .inr ⟨_, hs⟩

theorem Simulates.init (hn : 0 < n) : Simulates C (systemMachine n cfg C).init (atomicMachine C).init where
  mem := rfl
  counter _ := rfl
  pending p _ hp := absurd hp.2 (State.init_not_inCall hn p _)
  settled _ _ := rfl

/-- A step of the library that is not a call: it is silent, or a pending call takes effect. -/
theorem Simulates.trans (S : Simulates C x a) (I : Inv x.lib) (I' : Inv s') (A : AloneInv x.lib) (ha : AllocOk e)
    (ht : Trans cfg x.lib e s') (he : ∀ c, e.2 ≠ .call c) :
    ∃ a' d, Linearizes C x { x with lib := s' } a none d a' ∧ Simulates C { x with lib := s' } a' := by
  have hpend {p : Ptr} {o : Op} (hp : s'.Pending p o) : x.lib.Pending p o :=
    (ht.pending_cases I ha hp).resolve_right fun h => he _ h.1
  by_cases hact : ∃ i b, x.lib.counterAct e = some (i, b) ∧ b ≠ .ret
  · obtain ⟨i, b, hact, hb⟩ := hact
    obtain ⟨p₀, o₀, T⟩ := ht.takesEffect hact hb
    obtain ⟨i, f, ho, hf, hother⟩ := T.effect
    obtain ⟨pc, hpc, hdone⟩ := T.done
    have hth' : (s'.kt e.1).ctl.thread? = some p₀ := by simp [hpc, Ctl.thread?]
    have hsettled (o : Op) : ¬ s'.Pending p₀ o := by
      rintro ⟨-, hin⟩
      rw [I'.inCall_iff hth', hpc] at hin
      exact hdone o (by simpa [Ctl.inside] using hin)
    have hstays {p : Ptr} {o : Op} (hne : p ≠ p₀) (hp : x.lib.Pending p o) : s'.Pending p o := by
      refine (ht.pending_stays I A ha hp).resolve_right fun h => hne ?_
      exact Option.some.inj (h.1.symm.trans T.thread)
    refine ⟨{ a with
      counter := Function.update a.counter i (s'.counterOf i)
      point := Function.update a.point p₀ (x.point p₀) }, some (.call p₀ (.op o₀)),
      .effect ?_ T.pending hsettled fun q o hne => ⟨hpend, hstays hne⟩, ?_⟩
    · simp [AtomicState.step, S.pending p₀ o₀ T.pending, Call.effect, ho, S.counter i, hf]
    · constructor
      case mem => exact S.mem
      case counter =>
        intro j
        by_cases hj : j = i
        · subst hj
          simp
        · simpa [Function.update_of_ne hj, hother j hj] using S.counter j
      case pending =>
        intro p o hp
        have hne : p ≠ p₀ := by
          rintro rfl
          exact hsettled o hp
        simpa [Function.update_of_ne hne] using S.pending p o (hpend hp)
      case settled =>
        intro p hp
        by_cases hne : p = p₀
        · subst hne
          simp
        · simp only [Function.update_of_ne hne]
          exact S.settled p fun o ho => hp o (hstays hne ho)
  · have hstays {p : Ptr} {o : Op} (hp : x.lib.Pending p o) : s'.Pending p o :=
      (ht.pending_stays I A ha hp).resolve_right fun h => hact h.2
    refine ⟨a, none, .silent fun p o => ⟨hpend, hstays⟩, S.mem, fun i => ?_, fun p o hp => S.pending p o (hpend hp),
      fun p hp => S.settled p fun o ho => hp o (hstays ho)⟩
    rw [S.counter i]
    refine (ht.silent fun b hb => ?_).symm
    by_contra hne
    exact hact ⟨i, b, hb, hne⟩

/-- A call of the program: it is pending when it is on a semaphore, and otherwise the atomic machine makes it
at once. -/
theorem Simulates.call (S : Simulates C x a) (I : Inv x.lib) (I' : Inv s') (A : AloneInv x.lib)
    {c : Call} {r : Ret} {q : π} (hc : (x.lib.kt k).ctl = .thread p (.user r))
    (hq : C.call (x.point p) c = some q) (ht : Trans cfg x.lib (k, .call c) s')
    (hc' : (s'.kt k).ctl = (c.enter cfg (x.lib.kt k) p).ctl) (hsems : s'.sems = x.lib.sems) :
    ∃ a' d, Linearizes C x { x with lib := s', point := Function.update x.point p q } a (some (.call p c)) d a' ∧
      Simulates C { x with lib := s', point := Function.update x.point p q } a' := by
  have hth' : (s'.kt k).ctl.thread? = some p := by
    rw [hc']
    cases c with
    | op o => cases o <;> rfl
    | _ => rfl
  have hpoint : a.point p = x.point p := S.settled p fun o ho => I.not_inCall_of_user hc _ ho.2
  have hself (o : Op) : s'.Pending p o ↔ c = .op o ∧ o.effect.isSome := by
    rw [State.Pending, I'.inCall_iff hth', hc', and_comm]
    refine and_congr_left fun _ => ?_
    cases c with
    | op o' => cases o' <;> simp [Call.enter, Ctl.inside, Pc.inside]
    | _ => simp [Call.enter, Ctl.inside, Pc.inside, Resume.inside]
  have hpend {p' : Ptr} {o : Op} (hne : p' ≠ p) (hp : s'.Pending p' o) : x.lib.Pending p' o := by
    refine (ht.pending_cases I trivial hp).resolve_right fun h => hne ?_
    obtain ⟨r', h⟩ := h.2
    exact (Ctl.thread.inj (h.symm.trans hc)).1
  have hstays {p' : Ptr} {o : Op} (hp : x.lib.Pending p' o) : s'.Pending p' o := by
    refine (ht.pending_stays I A trivial hp).resolve_right fun h => ?_
    obtain ⟨-, i, b, hb, -⟩ := h
    cases hb
  cases heff : c.effect with
  | none =>
    have hnone (o : Op) : ¬ s'.Pending p o := fun hp => by
      obtain ⟨rfl, ho⟩ := (hself o).mp hp
      simp only [Call.effect] at heff
      simp [heff] at ho
    refine ⟨{ a with point := Function.update a.point p q }, some (.call p c),
      .atOnce ?_ (fun o ho => I.not_inCall_of_user hc _ ho.2) fun p' o => ⟨fun hp => ?_, hstays⟩, ?_⟩
    · simp [AtomicState.step, hpoint, hq, heff]
    · refine hpend ?_ hp
      rintro rfl
      exact hnone o hp
    · constructor
      case mem => exact S.mem
      case counter =>
        intro i
        simpa [State.counterOf, hsems] using S.counter i
      case pending =>
        intro p' o hp
        have hne : p' ≠ p := by
          rintro rfl
          exact hnone o hp
        simpa [Function.update_of_ne hne] using S.pending p' o (hpend hne hp)
      case settled =>
        intro p' hp
        by_cases hne : p' = p
        · subst hne
          simp
        · simp only [Function.update_of_ne hne]
          exact S.settled p' fun o ho => hp o (hstays ho)
  | some f =>
    obtain ⟨o, rfl⟩ : ∃ o, c = .op o := by
      cases c with
      | op o => exact ⟨o, rfl⟩
      | _ => cases heff
    have ho : o.effect.isSome := by simpa [Call.effect] using Option.isSome_of_eq_some heff
    have hbegins : Linearizes C x { x with lib := s', point := Function.update x.point p q } a
        (some (.call p (.op o))) none a :=
      .begins (fun o ho => I.not_inCall_of_user hc _ ho.2) ((hself o).mpr ⟨rfl, ho⟩)
        fun p' o' hne => ⟨hpend hne, hstays⟩
    refine ⟨a, none, hbegins, S.mem, fun i => ?_, fun p' o' hp => ?_, fun p' hp => ?_⟩
    · simpa [State.counterOf, hsems] using S.counter i
    · by_cases hne : p' = p
      · subst hne
        obtain ⟨heq, -⟩ := (hself o').mp hp
        simp [hpoint, ← heq, hq]
      · simpa [Function.update_of_ne hne] using S.pending p' o' (hpend hne hp)
    · have hne : p' ≠ p := by
        rintro rfl
        exact hp o ((hself o).mpr ⟨rfl, ho⟩)
      simp only [Function.update_of_ne hne]
      exact S.settled p' fun o ho => hp o (hstays ho)

/-- A step of the program on the memory is one of the atomic machine. -/
theorem Simulates.user (S : Simulates C x a) (I : Inv x.lib) {r : Ret} {j : ℤ} {m : σ} {q : π}
    (hc : (x.lib.kt k).ctl = .thread p (.user r)) (hq : C.exec x.mem (x.point p) j = some (m, q)) :
    ∃ a' d, Linearizes C x { x with mem := m, point := Function.update x.point p q } a (some (.user p j)) d a' ∧
      Simulates C { x with mem := m, point := Function.update x.point p q } a' := by
  have hpoint : a.point p = x.point p := S.settled p fun o ho => I.not_inCall_of_user hc _ ho.2
  refine ⟨{ a with mem := m, point := Function.update a.point p q }, some (.user p j),
    .atOnce ?_ (fun o ho => I.not_inCall_of_user hc _ ho.2) fun _ _ => Iff.rfl, ?_⟩
  · simp [AtomicState.step, S.mem, hpoint, hq]
  · refine ⟨rfl, S.counter, fun p' o hp => ?_, fun p' hp => ?_⟩
    · have hne : p' ≠ p := by
        rintro rfl
        exact I.not_inCall_of_user hc _ hp.2
      simpa [Function.update_of_ne hne] using S.pending p' o hp
    · by_cases hne : p' = p
      · subst hne
        simp
      · simpa [Function.update_of_ne hne] using S.settled p' hp

/-- The event of the program that an event of the system is. -/
def SystemState.makes (x : SystemState n σ π) : SystemEvent n → Option AtomicEvent
  | .lib (k, .call c) => (x.lib.userThread k).map (.call · c)
  | .lib _ => none
  | .user k i => (x.lib.userThread k).map (.user · i)

/-- A step of the system. -/
theorem Simulates.step (S : Simulates C x a) (hn : 0 < n) {h : List (State n × Event n)}
    (hr : (machine n cfg).Run Obeys h x.lib) (ho : SystemEvent.lift Obeys x ev)
    (hs : (systemMachine n cfg C).step x ev = some x') :
    ∃ a' d, Linearizes C x x' a (x.makes ev) d a' ∧ Simulates C x' a' := by
  obtain ⟨I, A⟩ := inv_alone_of_reachable hn hr.reachable
  cases SystemState.step_cases hs with
  | @call k c p r q s' hc hq hlib =>
    have I' := inv_of_reachable hn (hr.step ho hlib).reachable
    have hmakes : x.makes (.lib (k, .call c)) = some (.call p c) := by
      simp [SystemState.makes, State.userThread_eq_some.mpr ⟨r, hc⟩]
    have hfreed : x.lib.infoFreed = false := by
      by_contra hf
      obtain h | ⟨y, h⟩ := (freedInv_of_run hr).freed (by simpa using hf) k <;> simp [hc] at h
    have hinited := inited_of_run hr hfreed
    have hhalt := State.halt_of_step hlib
    obtain rfl : x.lib.setK k (c.enter cfg (x.lib.kt k) p) = s' := by
      simpa [State.step, hhalt, hc, State.stepCall, hinited] using hlib
    rw [hmakes]
    exact S.call I I' A hc hq (.call hc) (by simp) rfl
  | @lib e s' he hlib =>
    have I' := inv_of_reachable hn (hr.step ho hlib).reachable
    have hmakes : x.makes (.lib e) = none := by
      obtain ⟨k, i⟩ := e
      cases i with
      | call c => exact absurd rfl (he c)
      | _ => rfl
    rw [hmakes]
    obtain rfl | rfl | ht := State.step_cases hlib
    · exact ⟨a, none, .silent fun _ _ => Iff.rfl, S.mem, S.counter, S.pending, S.settled⟩
    · exact ⟨a, none, .silent fun _ _ => Iff.rfl, S.mem, S.counter, S.pending, S.settled⟩
    · exact S.trans I I' A ho.alloc ht he
  | @user k i p r m q _ hc hq =>
    have hmakes : x.makes (.user k i) = some (.user p i) := by
      simp [SystemState.makes, State.userThread_eq_some.mpr ⟨r, hc⟩]
    rw [hmakes]
    exact S.user I hc hq

/-- What a system reaches when it obeys the documented preconditions is simulated by the program with atomic
semaphores. -/
theorem atomic_of_run (hn : 0 < n) (hr : (systemMachine n cfg C).Run (SystemEvent.lift Obeys) hx x) :
    ∃ a, (atomicMachine C).Reachable (fun _ _ => True) a ∧ Simulates C x a := by
  induction hr with
  | init => exact ⟨_, ⟨[], .init⟩, .init hn⟩
  | @step hx x x' e hr ho hs ih =>
    obtain ⟨a, ⟨ha, hra⟩, S⟩ := ih
    obtain ⟨h, hrun⟩ := lib_run hr
    obtain ⟨a', d, L, S'⟩ := S.step hn hrun ho hs
    rcases L.atomic with rfl | ⟨b, hb⟩
    · exact ⟨_, ⟨ha, hra⟩, S'⟩
    · exact ⟨a', ⟨_, hra.step trivial hb⟩, S'⟩

end Uthread
