import Uthread.Invariant.Reachable

/-!
# The call that a thread is inside

A thread is inside a call of the library from the call until it is back in user code, wherever it is
suspended in between, and during this time it makes no other call. So the latest call that a run shows
for a thread is the one that the thread is inside. For a semaphore operation we also keep whether it has
changed the counter.

## Main definitions

* `State.InCall`: the call that a thread is inside, and whether it has changed a counter.
* `lastCall`: the latest call of a thread in a history.

## Main results

* `Trans.inCall_cases`: how a thread comes to be inside a call.
* `lastCall_of_inCall`.
-/

namespace Uthread

variable {n : ℕ} {cfg : Config} {s s' : State n} {e : Event n} {k : Fin n} {p : Ptr} {c : Call}
  {b : Bool} {h : List (State n × Event n)}

/-- The call that a suspended thread is inside; it has changed no counter yet. -/
def Resume.inside : Resume → Option (Call × Bool)
  | .start => none
  | .yielded none => some (.yield, false)
  | .yielded (some o) => some (.op o, false)
  | .joined t pret => some (.op (.join t pret), false)
  | .semWoken i _ => some (.op (.semWait i), false)
  | .teardown => some (.teardown, false)

/-- The call that a thread is inside, and whether it has changed the counter of a semaphore. -/
def Pc.inside : Pc → Option (Call × Bool)
  | .preempt o => some (.op o, false)
  | .yield o _ => (Resume.yielded o).inside
  | .swap _ r => r.inside
  | .exit v _ => some (.op (.exit v), false)
  | .join t pret _ => some (.op (.join t pret), false)
  | .create sb _ => some (.op (.create sb), false)
  | .semInit i v => some (.op (.semInit i v), false)
  | .post i .lock | .post i .body => some (.op (.semPost i), false)
  | .post i _ => some (.op (.semPost i), true)
  | .wait i .unlock | .wait i .ret => some (.op (.semWait i), true)
  | .wait i _ => some (.op (.semWait i), false)
  | .semDestroy i => some (.op (.semDestroy i), false)
  | .teardown _ => some (.teardown, false)
  | .init _ | .initRet | .user _ | .tramp _ | .semRet => none

/-- The thread that a kernel thread executes, and the call that it is inside. -/
def Ctl.inside : Ctl → Option (Ptr × Call × Bool)
  | .thread p pc => pc.inside.map (p, ·)
  | _ => none

/-- Thread `p` is inside a call. -/
def State.InCall (s : State n) (p : Ptr) (a : Call × Bool) : Prop :=
  (∃ k, (s.kt k).ctl.inside = some (p, a)) ∨ (s.suspended p).bind Resume.inside = some a

/-- The points at which the counter of a semaphore changes, and the call. -/
def Pc.counts : Pc → Option Call
  | .post i .body => some (.op (.semPost i))
  | .wait i .dec => some (.op (.semWait i))
  | _ => none

/-! ### How a thread comes to be inside a call -/

theorem Op.start_inside (o : Op) : o.start.inside = some (.op o, false) := by cases o <;> rfl

theorem Resume.inside_of_pc {r : Resume} {a : Call × Bool} (h : r.pc.inside = some a) :
    r.inside = some a := by
  cases r with
  | yielded o =>
    cases o with
    | none => simp [Resume.pc, Pc.inside] at h
    | some o => rwa [Resume.pc, Op.start_inside] at h
  | start => simp [Resume.pc, Pc.inside] at h
  | _ => exact h

theorem Ctl.thread?_of_inside {x : Ctl} {a : Call × Bool} (h : x.inside = some (p, a)) :
    x.thread? = some p := by
  cases x <;> simp_all [Ctl.inside, Ctl.thread?]

/-- What the acting kernel thread does when it is inside a call after its step: it goes on with the
call, it makes it, it changes the counter of a semaphore, or it resumes the thread. -/
inductive Enters (s : State n) (e : Event n) (p : Ptr) (c : Call) : Bool → Prop
  | stays {b : Bool} (h : (s.kt e.1).ctl.inside = some (p, c, b))
      (hc : ∀ f, e.2 = .run f → (s.kt e.1).ctl.pc?.bind Pc.counts = none) : Enters s e p c b
  | call {r} (he : e.2 = .call c) (hc : (s.kt e.1).ctl = .thread p (.user r)) : Enters s e p c false
  | counts {f pc} (he : e.2 = .run f) (hc : (s.kt e.1).ctl = .thread p pc)
      (hpc : pc.counts = some c) : Enters s e p c true
  | resumes {b : Bool} {q} (hc : (s.kt e.1).ctl = .sched (.dispSet q)) : Enters s e p c b

theorem Trans.enters (h : Trans cfg s e s') (hj : (s'.kt e.1).ctl.inside = some (p, c, b)) :
    Enters s e p c b := by
  -- a step inside of a call that changes no counter
  have hgo {p₀ : Ptr} {pc pc' : Pc} (hc : (s.kt e.1).ctl = .thread p₀ pc)
      (hc' : (s'.kt e.1).ctl = .thread p₀ pc') (hpc : pc.inside = pc'.inside)
      (hcount : pc.counts = none) : Enters s e p c b :=
    .stays (by rw [← hj, hc, hc', Ctl.inside, Ctl.inside, hpc])
      fun _ _ => by simp [hc, Ctl.pc?, hcount]
  cases h with
  | @call k c₀ p₀ r hc =>
    cases c₀ with
    | op o =>
      obtain ⟨rfl, rfl, rfl⟩ : p₀ = p ∧ .op o = c ∧ false = b := by
        cases o <;> simpa [Call.enter, Ctl.inside, Pc.inside] using hj
      exact .call rfl hc
    | self => simp [Call.enter, Ctl.inside, Pc.inside] at hj
    | _ =>
      obtain ⟨rfl, rfl, rfl⟩ : p₀ = p ∧ _ = c ∧ false = b := by
        simpa [Call.enter, Ctl.inside, Pc.inside, Resume.inside, and_comm, eq_comm] using hj
      exact .call rfl hc
  | tick => exact .stays (by simpa using hj) (by simp)
  | deliver => exact .stays (by simpa using hj) (by simp)
  | acquire h =>
    generalize hc : (s.kt _).ctl = x at h
    cases h <;> first
      | exact hgo hc (congrArg KThread.ctl (State.setK_kt _ _ _)) rfl rfl
      | simp [State.goto, Ctl.inside] at hj
  | release h =>
    cases h with
    | _ hc => first
      | exact hgo hc (congrArg KThread.ctl (State.setK_kt _ _ _)) rfl rfl
      | simp [State.goto, Ctl.inside] at hj
  | quiet h =>
    cases h with
    | start hc => exact hgo hc (congrArg KThread.ctl (State.setK_kt _ _ _)) (Op.start_inside _).symm rfl
    | _ hc => first
      | exact hgo hc (congrArg KThread.ctl (State.setK_kt _ _ _)) rfl rfl
      | simp [Ctl.inside, Pc.inside] at hj
  | signal h =>
    cases h with
    | _ hc => first
      | exact hgo hc (congrArg KThread.ctl (State.setK_kt _ _ _)) rfl rfl
      | simp [State.goto, Ctl.inside] at hj
  | insert h =>
    generalize hc : (s.kt _).ctl = x at h
    cases h <;> first
      | exact hgo hc (congrArg KThread.ctl (State.setK_kt _ _ _)) rfl rfl
      | simp [State.goto, Ctl.inside] at hj
  | entry hc hcur h => simp [Ctl.inside] at hj
  | parkJoin h hq hx =>
    generalize hc : (s.kt _).ctl = x at h
    cases h <;> simp [State.goto, Ctl.inside] at hj
  | parkSem h hq hx =>
    generalize hc : (s.kt _).ctl = x at h
    cases h <;> simp [State.goto, Ctl.inside] at hj
  | dispSet hc hx hctx => exact .resumes hc
  | postBump hc hx hq | postWake hc hx hq | waitDec hc hx h0 =>
    obtain ⟨rfl, rfl, rfl⟩ : _ = p ∧ _ = c ∧ true = b := by
      simpa [State.goto, Ctl.inside, Pc.inside] using hj
    exact .counts rfl hc rfl
  | _ hc => first
    | exact hgo hc (congrArg KThread.ctl (State.setK_kt _ _ _)) rfl rfl
    | simp [State.goto, Ctl.inside, Pc.inside] at hj

/-- How thread `p` comes to be inside a call after a step: it was so before, unless the step is its
call, or the one at which it changes the counter of a semaphore. -/
inductive EntersCall (s : State n) (e : Event n) (p : Ptr) (c : Call) : Bool → Prop
  | stays {b : Bool} (h : s.InCall p (c, b))
      (hc : ∀ f, e.2 = .run f → (s.kt e.1).ctl.thread? = some p →
        (s.kt e.1).ctl.pc?.bind Pc.counts = none) : EntersCall s e p c b
  | call {r} (he : e.2 = .call c) (hc : (s.kt e.1).ctl = .thread p (.user r)) :
      EntersCall s e p c false
  | counts {f pc} (he : e.2 = .run f) (hc : (s.kt e.1).ctl = .thread p pc)
      (hpc : pc.counts = some c) : EntersCall s e p c true

/-- A thread that is executed by another kernel thread, or by none, is not the acting one. -/
theorem Trans.inCall_cases (h : Trans cfg s e s') (I : Inv s) (ha : AllocOk e)
    (hj : s'.InCall p (c, b)) : EntersCall s e p c b := by
  rcases hj with ⟨k, hk⟩ | hs
  · by_cases hke : k = e.1
    · subst hke
      cases h.enters hk with
      | stays hin hcount => exact .stays (.inl ⟨e.1, hin⟩) fun f hf _ => hcount f hf
      | call he hc => exact .call he hc
      | counts he hc hpc => exact .counts he hc hpc
      | resumes hc =>
        refine .stays (.inr ?_) fun f _ hp => by simp [hc, Ctl.thread?] at hp
        obtain ⟨rfl, x, hctx, hc'⟩ := h.resumes I hc (Ctl.thread?_of_inside hk)
        rw [State.suspended_eq_context, hctx]
        refine Resume.inside_of_pc ?_
        simpa [hc', Ctl.inside] using hk
    · rw [h.kt_of_ne hke] at hk
      refine .stays (.inl ⟨k, hk⟩) fun f _ hp => ?_
      exact absurd (I.place.thread_unique (Ctl.thread?_of_inside hk) hp) hke
  · rw [State.suspended_eq_context] at hs
    cases h.suspends I ha p with
    | same heq =>
      rw [heq] at hs
      refine .stays (.inr (by rwa [State.suspended_eq_context])) fun f _ hp => ?_
      simp [State.context_of_executed hp] at hs
    | saves hc hc' hctx =>
      refine .stays (.inl ⟨e.1, ?_⟩) fun f _ _ => by simp [hc, Ctl.pc?, Pc.counts]
      simpa [hc, Ctl.inside, Pc.inside, hctx] using hs
    | resumes hc hc' hctx hctx' => simp [hctx'] at hs
    | creates hc hq hctx => simp [hctx, Resume.inside] at hs
    | frees hc hctx => simp [State.context_of_heap_eq_none (hctx p)] at hs

/-! ### The latest call -/

/-- The call that thread `p` makes in an event. -/
def State.callBy (s : State n) (p : Ptr) : Event n → Option Call
  | (k, .call c) => if (s.kt k).ctl.thread? = some p then some c else none
  | _ => none

/-- The latest call of thread `p`. -/
def lastCall (h : List (State n × Event n)) (p : Ptr) : Option Call :=
  h.findSome? fun x => x.1.callBy p x.2

/-- A thread in user code is inside no call. -/
theorem Inv.not_inCall_of_user (I : Inv s) {r : Ret} (hc : (s.kt k).ctl = .thread p (.user r))
    (a : Call × Bool) : ¬ s.InCall p a := by
  have hth : (s.kt k).ctl.thread? = some p := by simp [hc, Ctl.thread?]
  rintro (⟨k', hk'⟩ | hs)
  · obtain rfl := I.place.thread_unique hth (Ctl.thread?_of_inside hk')
    simp [hc, Ctl.inside, Pc.inside] at hk'
  · simp [State.suspended_eq_context, State.context_of_executed hth] at hs

/-- A thread that is inside a call makes no other one. -/
theorem Inv.callBy_eq_none (I : Inv s) (hs : s.step cfg e = some s') {a : Call × Bool}
    (hin : s.InCall p a) : s.callBy p e = none := by
  unfold State.callBy
  split
  · next k c =>
    split_ifs with hth
    · simp only [State.step] at hs
      split_ifs at hs
      split at hs
      · next p' r hc =>
        obtain rfl : p' = p := by simpa [hc, Ctl.thread?] using hth
        exact absurd hin (I.not_inCall_of_user hc a)
      · cases hs
    · rfl
  · rfl

theorem State.init_not_inCall (hn : 0 < n) (p : Ptr) (a : Call × Bool) :
    ¬ (State.init n cfg).InCall p a := by
  rintro (⟨k, hk⟩ | hs)
  · obtain ⟨-, h⟩ | ⟨-, h⟩ := State.init_kt_cases n cfg k <;>
      simp [h, Ctl.inside, Pc.inside] at hk
  · simp [State.init_suspended hn] at hs

/-- The call that a thread is inside is the latest one that it made. -/
theorem lastCall_of_inCall (hn : 0 < n) (hr : (machine n cfg).Run Obeys h s) :
    ∀ p c b, s.InCall p (c, b) → lastCall h p = some c := by
  refine hr.history_invariant (I := fun h s => ∀ p c b, s.InCall p (c, b) → lastCall h p = some c) ?_ ?_
  · intro p c b hin
    exact absurd hin (State.init_not_inCall hn p _)
  · intro h s e s' hr ih o hs p c b hin'
    have I := inv_of_reachable hn hr.reachable
    have hkeep (b' : Bool) (hin : s.InCall p (c, b')) : lastCall ((s, e) :: h) p = some c := by
      rw [← ih p c b' hin]
      simp [lastCall, I.callBy_eq_none hs hin]
    obtain rfl | rfl | ht := State.step_cases hs
    · exact hkeep b hin'
    · exact hkeep b hin'
    · cases ht.inCall_cases I o.alloc hin' with
      | stays hin => exact hkeep b hin
      | @call r he hc =>
        obtain ⟨k, i⟩ := e
        obtain rfl : i = .call c := he
        simp [lastCall, State.callBy, show (s.kt k).ctl = _ from hc, Ctl.thread?]
      | @counts f pc he hc hpc =>
        refine hkeep false (.inl ⟨e.1, ?_⟩)
        unfold Pc.counts at hpc
        split at hpc <;> simp_all [Ctl.inside, Pc.inside]

end Uthread
