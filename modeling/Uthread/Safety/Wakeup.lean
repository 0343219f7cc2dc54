import Uthread.Invariant.Reachable

/-!
# No wakeup of a semaphore is lost

`uthread_sem_wait` checks the counter again after it has been woken. A run determines which threads
a `uthread_sem_post` has taken from the queue of a semaphore that have not locked its mutex again.
As long as threads wait in the queue there are at least as many of these as the counter says, so
that a unit of the semaphore is never left to nobody.

The steps that concern a semaphore are listed once (`SemAct`). The only assumptions on the program
are that semaphores are initialised with a value that is not negative, and neither initialised nor
destroyed while in use.

## Main definitions

* `SemAct`: what a step does to a semaphore.
* `woken`: the threads on their way from the queue to the next check.

## Main results

* `no_lost_wakeup`.
-/

namespace Uthread

variable {n : ℕ} {cfg : Config} {s s' : State n} {e : Event n} {k : Fin n} {p : Ptr} {i : SemId}
  {h : List (State n × Event n)}

/-! ### The steps on a semaphore -/

/-- The semaphore whose counter a thread is about to check or to decrement. -/
def Pc.rechecks : Pc → Option SemId
  | .wait i (.test _) | .wait i .dec => some i
  | _ => none

/-- The semaphore whose counter a kernel thread is about to check or to decrement. -/
def KThread.rechecks (x : KThread) : Option SemId := x.ctl.pc?.bind Pc.rechecks

/-- The semaphore in whose queue a kernel thread is going to park the thread it executes. -/
def KThread.parks (x : KThread) : Option SemId :=
  match x.ctl with
  | .thread _ (.wait i (.tcbLock _)) | .thread _ (.wait i (.park _))
  | .thread _ (.swap _ (.semWoken i _)) => some i
  | .sched .entry => if x.task = .semWait then x.lock else none
  | .sched (.semBody _) => x.lock
  | _ => none

/-- The threads that a post on `i` has taken from its queue and that have not locked the mutex of
`i` again, after one more event. -/
def State.woken (s : State n) (i : SemId) (w : List Ptr) : Event n → List Ptr
  | (k, .run _) =>
    match (s.kt k).ctl with
    | .thread _ (.semInit j _) => if j = i then [] else w
    | .thread _ (.post j .body) => if j = i then (s.semQueue i).head?.toList ++ w else w
    | .thread p (.wait j (.relock _)) => if j = i then w.erase p else w
    | _ => w
  | _ => w

/-- The threads that were taken from the queue of `i` by a post and have not locked its mutex
again, at the end of a history. -/
def woken (h : List (State n × Event n)) (i : SemId) : List Ptr :=
  h.foldr (fun x w => x.1.woken i w x.2) []

theorem KThread.sem_mem_held_of_rechecks {x : KThread} (h : x.rechecks = some i) :
    Lock.sem i ∈ x.held := by
  unfold KThread.rechecks Ctl.pc? Pc.rechecks at h
  split at h
  · next hc => simp only [Option.bind_some] at h; split at h <;> simp_all [KThread.held, Pc.held]
  · simp at h

theorem KThread.sem_mem_held_of_parks {x : KThread} (h : x.parks = some i) :
    Lock.sem i ∈ x.held := by
  unfold KThread.parks at h
  split at h <;> simp_all [KThread.held, Pc.held]

/-- What a step of kernel thread `e.1` does to semaphore `i`. -/
inductive SemAct (s : State n) (e : Event n) (s' : State n) (i : SemId) : Prop
  | frame (hs : s'.sems i = s.sems i) (hw : ∀ w, s.woken i w e = w)
      (hr : (s.kt e.1).rechecks = some i → (s'.kt e.1).rechecks = some i)
      (hp : (s'.kt e.1).parks = some i → (s.kt e.1).parks = some i)
  | init {p v} (hc : (s.kt e.1).ctl = .thread p (.semInit i v)) (hs : s'.sems i = some ⟨v, []⟩)
      (hrun : ∃ f, e.2 = .run f) (hw : ∀ w, s.woken i w e = []) (hp : (s'.kt e.1).parks ≠ some i)
  | destroy {p : Ptr} (hc : (s.kt e.1).ctl = .thread p (.semDestroy i)) (hs : s'.sems i = none)
      (hrun : ∃ f, e.2 = .run f) (hp : (s'.kt e.1).parks ≠ some i)
  | bump {p x} (hc : (s.kt e.1).ctl = .thread p (.post i .body)) (hx : s.sems i = some x)
      (hq : x.queue = []) (hs : s'.sems i = some { x with counter := intIncr x.counter })
      (hw : ∀ w, s.woken i w e = w) (hp : (s'.kt e.1).parks ≠ some i)
  | wake {p x q rest} (hc : (s.kt e.1).ctl = .thread p (.post i .body)) (hx : s.sems i = some x)
      (hq : x.queue = q :: rest) (hs : s'.sems i = some ⟨intIncr x.counter, rest⟩)
      (hw : ∀ w, s.woken i w e = q :: w) (hp : (s'.kt e.1).parks ≠ some i)
  | relock {p cur} (hc : (s.kt e.1).ctl = .thread p (.wait i (.relock cur)))
      (ho : s.owner (.sem i) = none) (hs : s'.sems i = s.sems i)
      (hw : ∀ w, s.woken i w e = w.erase p) (hr : (s'.kt e.1).rechecks = some i)
      (hp : (s'.kt e.1).parks ≠ some i)
  | block {x} (hx : s.sems i = some x) (h0 : x.counter = 0) (hs : s'.sems i = s.sems i)
      (hw : ∀ w, s.woken i w e = w)
  | dec {p x} (hc : (s.kt e.1).ctl = .thread p (.wait i .dec)) (hx : s.sems i = some x)
      (h0 : 0 < x.counter) (hs : s'.sems i = some { x with counter := x.counter - 1 })
      (hw : ∀ w, s.woken i w e = w) (hp : (s'.kt e.1).parks ≠ some i)
  | park {x cur} (hk : (s.kt e.1).parks = some i) (hx : s.sems i = some x)
      (hs : s'.sems i = some { x with queue := x.queue ++ [cur] })
      (hw : ∀ w, s.woken i w e = w) (hp : (s'.kt e.1).parks ≠ some i)

/-- The semaphore that the next step from a point is about. -/
def Ctl.concerns : Ctl → Option SemId
  | .thread _ (.semInit i _) | .thread _ (.post i .body) | .thread _ (.wait i (.relock _))
  | .thread _ (.wait i (.test _)) | .thread _ (.wait i .dec) => some i
  | _ => none

theorem SemAct.of_concerns_ne (hs : s'.sems i = s.sems i)
    (hc : (s.kt e.1).ctl.concerns ≠ some i)
    (hp : (s'.kt e.1).parks = some i → (s.kt e.1).parks = some i) : SemAct s e s' i := by
  refine .frame hs (fun w => ?_) (fun hr => absurd ?_ hc) hp
  · unfold State.woken
    split
    · split
      · next hc' => simp_all [Ctl.concerns]
      · next hc' => simp_all [Ctl.concerns]
      · next hc' => simp_all [Ctl.concerns]
      · rfl
    · rfl
  · unfold KThread.rechecks Ctl.pc? at hr
    split at hr
    · next p pc hc' =>
      simp only [Option.bind_some] at hr
      unfold Pc.rechecks at hr
      split at hr <;> simp_all [Ctl.concerns]
    · simp at hr

theorem KThread.parks_start {x : KThread} {o : Op} (hx : x.ctl = .thread p o.start) :
    x.parks = none := by
  cases o <;> simp [KThread.parks, hx, Op.start]

theorem KThread.parks_resume {x : KThread} {r : Resume} (hx : x.ctl = .thread p r.pc) :
    x.parks = none := by
  cases r with
  | yielded o =>
    cases o with
    | none => simp [KThread.parks, hx, Resume.pc]
    | some o => exact KThread.parks_start hx
  | _ => simp [KThread.parks, hx, Resume.pc]

/-- The steps of the library, as seen from a semaphore. -/
theorem Trans.semAct (h : Trans cfg s e s') (ht : (s.kt e.1).TaskOk) (hq : (s.kt e.1).QueueOk)
    (i : SemId) : SemAct s e s' i := by
  cases h with
  | @call k c p r hc =>
    refine .of_concerns_ne rfl (by simp [Ctl.concerns, hc]) ?_
    cases c with
    | op o => cases o <;> simp [Call.enter, KThread.parks]
    | _ => simp [Call.enter, KThread.parks]
  | tick =>
    exact .frame rfl (by simp [State.woken]) (by simp [KThread.rechecks]) (by simp [KThread.parks])
  | deliver =>
    exact .frame rfl (by simp [State.woken]) (by simp [KThread.rechecks]) (by simp [KThread.parks])
  | @acquire k f L c h hL =>
    generalize hc : (s.kt k).ctl = c at h
    cases h with
    | waitAgain p j cur =>
      by_cases hj : j = i
      · subst hj
        exact .relock hc hL rfl (by simp [State.woken, hc])
          (by simp [State.goto, KThread.rechecks, Ctl.pc?, Pc.rechecks])
          (by simp [State.goto, KThread.parks])
      · exact .of_concerns_ne rfl (by simpa [Ctl.concerns, hc] using hj)
          (by simp [State.goto, KThread.parks])
    | _ =>
      exact .of_concerns_ne rfl (by simp [Ctl.concerns, hc])
        (by simp [State.goto, KThread.parks, hc])
  | release h =>
    cases h <;>
      exact .of_concerns_ne rfl (by simp [Ctl.concerns, *]) (by simp [State.goto, KThread.parks])
  | @quiet k f x h =>
    cases h with
    | @start p o hc =>
      refine .of_concerns_ne rfl (by simp [Ctl.concerns, hc]) ?_
      rw [State.setK_kt, KThread.parks_start rfl]
      simp
    | @waitBlock p j cur x hc hx h0 =>
      by_cases hj : j = i
      · subst hj
        exact .block hx h0 rfl (by simp [State.woken, hc])
      · exact .of_concerns_ne rfl (by simpa [Ctl.concerns, hc] using hj)
          (by simp [KThread.parks, hj])
    | @waitPass p j cur x hc hx h0 =>
      exact .frame rfl (by simp [State.woken, hc])
        (by simp [KThread.rechecks, hc, Ctl.pc?, Pc.rechecks]) (by simp [KThread.parks])
    | kmainStart hc =>
      simp only [KThread.TaskOk, hc] at ht
      exact .of_concerns_ne rfl (by simp [Ctl.concerns, hc])
        (by simp [KThread.parks, KThread.block, ht])
    | exitWaited hc =>
      simp only [KThread.TaskOk, hc] at ht
      exact .of_concerns_ne rfl (by simp [Ctl.concerns, hc]) (by simp [KThread.parks, ht])
    | _ =>
      exact .of_concerns_ne rfl (by simp [Ctl.concerns, *]) (by simp [KThread.parks])
  | signal h =>
    cases h <;>
      exact .of_concerns_ne rfl (by simp [Ctl.concerns, *]) (by simp [State.goto, KThread.parks])
  | insert h =>
    generalize hc : (s.kt _).ctl = c at h
    cases h <;>
      exact .of_concerns_ne rfl (by simp [Ctl.concerns, hc]) (by simp [State.goto, KThread.parks])
  | exitSwitch hc =>
    simp only [KThread.TaskOk, hc, Pc.task, Option.some.injEq, Prod.mk.injEq] at ht
    exact .of_concerns_ne rfl (by simp [Ctl.concerns, hc]) (by simp [KThread.parks, ht])
  | @swap k f p c x r hc hx =>
    refine .of_concerns_ne rfl (by simp [Ctl.concerns, hc]) ?_
    cases r <;> simp_all [State.setTcb, KThread.parks, KThread.TaskOk, Pc.task]
  | @semInit k f p j v hc =>
    by_cases hj : j = i
    · subst hj
      exact .init hc (by simp [State.goto, State.setK, State.setSem]) ⟨f, rfl⟩
        (by simp [State.woken, hc])
        (by simp [State.goto, KThread.parks])
    · exact .of_concerns_ne (by simp [State.goto, State.setK, State.setSem, Ne.symm hj])
        (by simpa [Ctl.concerns, hc] using hj) (by simp [State.goto, KThread.parks])
  | @semDestroy k f p j hc =>
    by_cases hj : j = i
    · subst hj
      exact .destroy hc (by simp [State.setK, State.setSem]) ⟨f, rfl⟩ (by simp [KThread.parks])
    · exact .of_concerns_ne (by simp [State.setK, State.setSem, Ne.symm hj])
        (by simp [Ctl.concerns, hc]) (by simp [KThread.parks])
  | @postBump k f p j x hc hx hxq =>
    by_cases hj : j = i
    · subst hj
      exact .bump hc hx hxq (by simp [State.goto, State.setK, State.setSem])
        (by simp [State.woken, hc, State.semQueue, hx, hxq]) (by simp [State.goto, KThread.parks])
    · exact .of_concerns_ne (by simp [State.goto, State.setK, State.setSem, Ne.symm hj])
        (by simpa [Ctl.concerns, hc] using hj) (by simp [State.goto, KThread.parks])
  | @postWake k f p j x q rest hc hx hxq =>
    by_cases hj : j = i
    · subst hj
      exact .wake hc hx hxq (by simp [State.goto, State.setK, State.setSem])
        (by simp [State.woken, hc, State.semQueue, hx, hxq]) (by simp [State.goto, KThread.parks])
    · exact .of_concerns_ne (by simp [State.goto, State.setK, State.setSem, Ne.symm hj])
        (by simpa [Ctl.concerns, hc] using hj) (by simp [State.goto, KThread.parks])
  | @waitDec k f p j x hc hx h0 =>
    by_cases hj : j = i
    · subst hj
      exact .dec hc hx h0 (by simp [State.goto, State.setK, State.setSem])
        (by simp [State.woken, hc]) (by simp [State.goto, KThread.parks])
    · exact .of_concerns_ne (by simp [State.goto, State.setK, State.setSem, Ne.symm hj])
        (by simpa [Ctl.concerns, hc] using hj) (by simp [State.goto, KThread.parks])
  | entry hc hcur h =>
    refine .of_concerns_ne rfl (by simp [Ctl.concerns, hc]) ?_
    generalize hta : (s.kt _).task = ta at h
    cases h <;> simp_all [KThread.parks, KThread.block]
  | parkJoin h hq hx =>
    generalize hc : (s.kt _).ctl = c at h
    cases h <;> exact .of_concerns_ne rfl (by simp [Ctl.concerns, hc]) (by simp [State.goto, KThread.parks])
  | @parkSem k f cur c j x h hqr hx =>
    generalize hc : (s.kt k).ctl = c₀ at h
    have hnp : KThread.parks { s.kt k with ctl := c } ≠ some i := by
      cases h <;> simp [KThread.parks]
    by_cases hj : j = i
    · subst hj
      have hk : (s.kt k).parks = some j := by
        cases h with
        | join => simp_all [KThread.TaskOk, KThread.QueueOk]
        | sem =>
          simp only [KThread.TaskOk, hc] at ht
          obtain ⟨l, hl, hlj⟩ := Option.map_eq_some_iff.mp ((hq.2 ht.1).symm.trans hqr)
          simp only [KThread.parks, hc, hl, QueueRef.sem.inj hlj]
      refine .park hk hx (by simp [State.goto, State.setK, State.setSem]; rfl) ?_
        (by simpa [State.goto, State.setSem] using hnp)
      cases h <;> simp [State.woken, hc]
    · refine .of_concerns_ne (by simp [State.goto, State.setK, State.setSem, Ne.symm hj]) ?_
        (fun hp => absurd (by simpa [State.goto, State.setSem] using hp) hnp)
      cases h <;> simp [Ctl.concerns, hc]
  | dispSet hc hx hctx =>
    refine .of_concerns_ne rfl (by simp [Ctl.concerns, hc]) ?_
    rw [State.setK_kt, KThread.parks_resume rfl]
    simp
  | waitPark hc hx =>
    exact .of_concerns_ne rfl (by simp [Ctl.concerns, hc]) (by simp [State.goto, KThread.parks, hc])
  | waitRead hc hx h0 =>
    exact .of_concerns_ne rfl (by simp [Ctl.concerns, hc]) (by simp [State.goto, KThread.parks])
  | _ =>
    exact .of_concerns_ne rfl (by simp [Ctl.concerns, *]) (by simp [State.goto, KThread.parks])

/-! ### The invariant -/

/-- The number of threads that hold the mutex of `i` and are about to check or to decrement. -/
def State.rechecking (s : State n) (i : SemId) : ℕ :=
  if ∃ k, (s.kt k).rechecks = some i then 1 else 0

theorem State.rechecking_eq_one (hk : (s.kt k).rechecks = some i) : s.rechecking i = 1 :=
  if_pos ⟨k, hk⟩

theorem State.rechecking_le_one (s : State n) (i : SemId) : s.rechecking i ≤ 1 := by
  unfold State.rechecking
  split <;> omega

theorem State.rechecking_le (hk : ∀ k, (s.kt k).rechecks = some i → (s'.kt k).rechecks = some i) :
    s.rechecking i ≤ s'.rechecking i := by
  by_cases h : ∃ k, (s.kt k).rechecks = some i
  · obtain ⟨k, h⟩ := h
    exact Nat.le_of_eq ((State.rechecking_eq_one h).trans (State.rechecking_eq_one (hk k h)).symm)
  · rw [State.rechecking, if_neg h]
    exact Nat.zero_le _

/-- Nobody is about to check when the mutex is free. -/
theorem LockInv.rechecking_eq_zero (hL : LockInv s (.sem i)) (ho : s.owner (.sem i) = none) :
    s.rechecking i = 0 := by
  refine if_neg ?_
  rintro ⟨k, hk⟩
  have := (hL k).2 (KThread.sem_mem_held_of_rechecks hk)
  simp [ho] at this

theorem LockInv.rechecking_eq_zero_of_held (hL : LockInv s (.sem i))
    (hk : Lock.sem i ∈ (s.kt k).held) (hr : (s.kt k).rechecks ≠ some i) :
    s.rechecking i = 0 := by
  refine if_neg ?_
  rintro ⟨k', hk'⟩
  obtain rfl := hL.unique (KThread.sem_mem_held_of_rechecks hk') hk
  exact hr hk'

/-- As many threads are on their way as the counter says, unless nobody waits; one more while a
thread that has locked the mutex again is about to check. -/
structure WakeInv (h : List (State n × Event n)) (s : State n) (i : SemId) : Prop where
  enough : ∀ x, s.sems i = some x → x.queue = [] ∨
    x.counter ≤ (woken h i).length + s.rechecking i
  parking : ∀ k, (s.kt k).parks = some i → ∃ x, s.sems i = some x ∧ x.counter = 0
  low : ∀ x, s.sems i = some x → -2 ^ 31 ≤ x.counter

theorem intIncr_le {c : ℤ} (hc : -2 ^ 31 ≤ c) : intIncr c ≤ c + 1 ∧ -2 ^ 31 ≤ intIncr c := by
  dsimp only [intIncr, Int.bmod]
  split <;> omega

/-- Another kernel thread is not about to park where this one holds the mutex. -/
theorem LockInv.parks_eq {k' : Fin n} (hL : LockInv s (.sem i)) (hk : Lock.sem i ∈ (s.kt k).held)
    (hk' : (s.kt k').parks = some i) : k' = k :=
  hL.unique (KThread.sem_mem_held_of_parks hk') hk

theorem State.not_parks_of_not_semBusy (hb : ¬ s.SemBusy i) (k : Fin n) :
    (s.kt k).parks ≠ some i := fun hk =>
  hb (.inl ⟨k, KThread.uses_of_held (KThread.sem_mem_held_of_parks hk)⟩)

/-- Nobody is about to park at a semaphore that is being initialised. -/
theorem SemOk.not_parks (hs : SemOk s e) {f : Option AllocSite} (he : e.2 = .run f) {v : ℤ}
    (hc : (s.kt e.1).ctl = .thread p (.semInit i v)) :
    0 ≤ v ∧ ∀ k, (s.kt k).parks ≠ some i := by
  obtain ⟨k, j⟩ := e
  obtain rfl : j = .run f := he
  simp only [SemOk, hc, Ctl.pc?, Option.mem_some_iff, forall_eq', Pc.SemOk] at hs
  exact ⟨hs.1, State.not_parks_of_not_semBusy hs.2⟩

/-- Nobody is about to park at a semaphore that is being destroyed. -/
theorem SemOk.not_parks_of_destroy (hs : SemOk s e) {f : Option AllocSite} (he : e.2 = .run f)
    (hc : (s.kt e.1).ctl = .thread p (.semDestroy i)) (k : Fin n) :
    (s.kt k).parks ≠ some i := by
  obtain ⟨k', j⟩ := e
  obtain rfl : j = .run f := he
  simp only [SemOk, hc, Ctl.pc?, Option.mem_some_iff, forall_eq', Pc.SemOk] at hs
  exact State.not_parks_of_not_semBusy hs k

theorem WakeInv.step (W : WakeInv h s i) (hL : LockInv s (.sem i)) (hs : SemOk s e)
    (ht : Trans cfg s e s') (ha : SemAct s e s' i) : WakeInv ((s, e) :: h) s' i := by
  have hkt := fun k hk => ht.kt_of_ne (k := k) hk
  have hcons : woken ((s, e) :: h) i = s.woken i (woken h i) e := rfl
  -- a step of the holder of the mutex after which it does not park
  have hnone (hh : Lock.sem i ∈ (s.kt e.1).held) (hp : (s'.kt e.1).parks ≠ some i) (k : Fin n)
      (hk : (s'.kt k).parks = some i) : False := by
    by_cases hke : k = e.1
    · exact hp (hke ▸ hk)
    · rw [hkt k hke] at hk
      exact hke (hL.parks_eq hh hk)
  cases ha with
  | frame hs' hw hr hp =>
    refine ⟨fun x hx => ?_, fun k hk => hs' ▸ W.parking k ?_, fun x hx => W.low x (hs' ▸ hx)⟩
    · have hle : s.rechecking i ≤ s'.rechecking i := State.rechecking_le fun k hk => by
        by_cases hke : k = e.1
        · exact hke ▸ hr (hke ▸ hk)
        · rwa [hkt k hke]
      rw [hcons, hw]
      refine (W.enough x (hs' ▸ hx)).imp_right fun henough => ?_
      omega
    · by_cases hke : k = e.1
      · exact hke ▸ hp (hke ▸ hk)
      · rwa [hkt k hke] at hk
  | @init p v hc hs' hrun hw hp =>
    obtain ⟨f, hf⟩ := hrun
    obtain ⟨hv, hno⟩ := hs.not_parks hf hc
    refine ⟨fun x hx => ?_, fun k hk => ?_, fun x hx => ?_⟩
    · obtain rfl := Option.some.inj (hs'.symm.trans hx)
      exact .inl rfl
    · by_cases hke : k = e.1
      · exact absurd (hke ▸ hk) hp
      · rw [hkt k hke] at hk
        exact absurd hk (hno k)
    · obtain rfl := Option.some.inj (hs'.symm.trans hx)
      simp only
      omega
  | @destroy p hc hs' hrun hp =>
    obtain ⟨f, hf⟩ := hrun
    refine ⟨by simp [hs'], fun k hk => ?_, by simp [hs']⟩
    by_cases hke : k = e.1
    · exact absurd (hke ▸ hk) hp
    · rw [hkt k hke] at hk
      exact absurd hk (hs.not_parks_of_destroy hf hc k)
  | bump hc hx hq hs' hw hp =>
    refine ⟨fun x hx' => ?_, fun k hk => ?_, fun x hx' => ?_⟩
    · obtain rfl := Option.some.inj (hs'.symm.trans hx')
      exact .inl hq
    · exact (hnone (by simp [KThread.held, Pc.held, hc]) hp k hk).elim
    · obtain rfl := Option.some.inj (hs'.symm.trans hx')
      exact (intIncr_le (W.low _ hx)).2
  | @wake p x q rest hc hx hq hs' hw hp =>
    refine ⟨fun x' hx' => ?_, fun k hk => ?_, fun x hx' => ?_⟩
    · obtain rfl := Option.some.inj (hs'.symm.trans hx')
      have hle : x.counter ≤ (woken h i).length + s.rechecking i :=
        (W.enough x hx).resolve_left (by simp [hq])
      have hincr := (intIncr_le (W.low x hx)).1
      have hzero : s.rechecking i = 0 := hL.rechecking_eq_zero_of_held (k := e.1)
        (by simp [KThread.held, Pc.held, hc]) (by simp [KThread.rechecks, Ctl.pc?, Pc.rechecks, hc])
      rw [hcons, hw, List.length_cons]
      right
      push_cast
      omega
    · exact (hnone (by simp [KThread.held, Pc.held, hc]) hp k hk).elim
    · obtain rfl := Option.some.inj (hs'.symm.trans hx')
      exact (intIncr_le (W.low _ hx)).2
  | @relock p cur hc ho hs' hw hr hp =>
    refine ⟨fun x hx => ?_, fun k hk => ?_, fun x hx => W.low x (hs' ▸ hx)⟩
    · rw [hcons, hw, State.rechecking_eq_one hr]
      refine (W.enough x (hs' ▸ hx)).imp_right fun hle => ?_
      have hzero := hL.rechecking_eq_zero ho
      have := List.length_erase (a := p) (l := woken h i)
      split at this <;> omega
    · by_cases hke : k = e.1
      · exact absurd (hke ▸ hk) hp
      · rw [hkt k hke] at hk
        exact hs' ▸ W.parking k hk
  | @block x hx h0 hs' hw =>
    have hx' {y : Sem} (hy : s'.sems i = some y) : y = x :=
      Option.some.inj (hy.symm.trans (hs'.trans hx))
    refine ⟨fun y hy => .inr ?_, fun k _ => ⟨x, hs'.trans hx, h0⟩,
      fun y hy => W.low y (hs' ▸ hy)⟩
    rw [hx' hy, h0]
    omega
  | @dec p x hc hx h0 hs' hw hp =>
    refine ⟨fun y hy => ?_, fun k hk => ?_, fun y hy => ?_⟩
    · obtain rfl := Option.some.inj (hs'.symm.trans hy)
      rw [hcons, hw]
      refine (W.enough x hx).imp_right fun hle => ?_
      have := s.rechecking_le_one i
      simp only
      omega
    · exact (hnone (by simp [KThread.held, Pc.held, hc]) hp k hk).elim
    · obtain rfl := Option.some.inj (hs'.symm.trans hy)
      simp only
      omega
  | @park x cur hk₀ hx hs' hw hp =>
    obtain ⟨x', hx', h0⟩ := W.parking e.1 hk₀
    obtain rfl : x = x' := Option.some.inj (hx.symm.trans hx')
    refine ⟨fun y hy => .inr ?_, fun k hk => ?_, fun y hy => ?_⟩
    · obtain rfl := Option.some.inj (hs'.symm.trans hy)
      simp only [h0]
      omega
    · exact (hnone (KThread.sem_mem_held_of_parks hk₀) hp k hk).elim
    · obtain rfl := Option.some.inj (hs'.symm.trans hy)
      exact W.low x hx

/-! ### The main result -/

/-- What is needed of the kernel threads: it holds without any assumption on the program besides
those on semaphores. -/
structure SemRunInv (h : List (State n × Event n)) (s : State n) : Prop where
  task : ∀ k, (s.kt k).TaskOk
  queue : ∀ k, (s.kt k).QueueOk
  lock : ∀ i, LockInv s (.sem i)
  wake : ∀ i, WakeInv h s i

/-- A step that stops the run wakes nobody. -/
theorem State.woken_of_halt (hs : s.step cfg e = some s') (hh : s'.halt ≠ none) (w : List Ptr) :
    s.woken i w e = w := by
  obtain ⟨k, j⟩ := e
  cases j with
  | run f =>
    have hhalt : s.halt = none := by
      by_contra hne
      simp [State.step, hne] at hs
    simp only [State.step, hhalt, if_true, State.stepRun] at hs
    simp only [State.woken]
    split
    · next hc =>
      simp only [hc, State.stepThread, State.stepSemInit, Option.some.injEq] at hs
      exact absurd (hs ▸ hhalt) hh
    · next p j hc =>
      simp only [hc, State.stepThread, State.stepPost, State.withSem] at hs
      split at hs
      · next hx =>
        split_ifs with hj
        · subst hj
          simp [State.semQueue, hx]
        · rfl
      · split at hs <;> exact absurd (Option.some.inj hs ▸ hhalt) hh
    · next p j cur hc =>
      simp only [hc, State.stepThread, State.stepWait, State.acquire] at hs
      split_ifs at hs
      exact absurd (Option.some.inj hs ▸ hhalt) hh
    · rfl
  | _ => rfl

theorem semRunInv_of_run (hr : (machine n cfg).Run SemOk h s) : SemRunInv h s := by
  refine hr.history_invariant (I := SemRunInv) ?_ ?_
  · have hnone (i : SemId) : (machine n cfg).init.sems i = none := rfl
    refine ⟨State.init_taskOk, State.init_tableInv.queue, fun i => State.init_lockInv _,
      fun i => ⟨by simp [hnone], fun k hk => ?_, by simp [hnone]⟩⟩
    obtain ⟨-, h⟩ | ⟨-, h⟩ := State.init_kt_cases n cfg k <;>
      simp [machine, h, KThread.parks] at hk
  · intro h s e s' _ I hs hstep
    have hstop {y : Halt} (hy : s' = { s with halt := some y }) : SemRunInv ((s, e) :: h) s' := by
      have hw (i : SemId) : woken ((s, e) :: h) i = woken h i :=
        State.woken_of_halt hstep (by simp [hy]) _
      subst hy
      exact ⟨I.task, I.queue, I.lock, fun i => ⟨hw i ▸ (I.wake i).enough, (I.wake i).parking,
        (I.wake i).low⟩⟩
    obtain hs' | hs' | ht := State.step_cases hstep
    · exact hstop hs'
    · exact hstop hs'
    · refine ⟨fun k => ?_, fun k => ?_, fun i => ?_, fun i => ?_⟩
      · by_cases hk : k = e.1
        · exact hk ▸ ht.taskOk (I.task e.1)
        · exact ht.kt_of_ne hk ▸ I.task k
      · by_cases hk : k = e.1
        · exact hk ▸ ht.queueOk (I.task e.1) (I.queue e.1)
        · exact ht.kt_of_ne hk ▸ I.queue k
      · exact ht.lockInv I.task (by simp) (fun _ _ => hs) (I.lock i)
      · exact (I.wake i).step (I.lock i) hs ht (ht.semAct (I.task e.1) (I.queue e.1) i)

/-- For any number of kernel threads, any threads and any interleaving: when the mutex of a
semaphore is free, either nobody waits in its queue, or the threads that a post has taken from the
queue and that have not locked the mutex again are at least as many as the counter says. So there
are never a waiting thread and a positive counter with nobody on the way to check it. -/
theorem no_lost_wakeup (hr : (machine n cfg).Run SemOk h s) {x : Sem} (hx : s.sems i = some x)
    (ho : s.owner (.sem i) = none) :
    (x.queue = [] ∨ x.counter ≤ (woken h i).length) ∧
      ¬ (0 < x.counter ∧ x.queue ≠ [] ∧ woken h i = []) := by
  have I := semRunInv_of_run hr
  have henough := (I.wake i).enough x hx
  rw [(I.lock i).rechecking_eq_zero ho] at henough
  refine ⟨by simpa using henough, fun ⟨hpos, hq, hw⟩ => ?_⟩
  have hle := henough.resolve_left hq
  simp only [hw, List.length_nil] at hle
  omega

/-- A thread waits at a semaphore with value `0`, and nobody is on the way. -/
theorem no_lost_wakeup_waiting : ∃ (h : List (State 1 × Event 1)) (s : State 1) (x : Sem),
    s.sems 0 = some x ∧ s.owner (.sem 0) = none ∧ x.queue = [1] ∧
      (x.queue = [] ∨ x.counter ≤ (woken h 0).length) ∧
      ¬ (0 < x.counter ∧ x.queue ≠ [] ∧ woken h 0 = []) := by
  obtain ⟨h, s, hr, hs⟩ := EventMachine.exists_run_of_exec
    (M := machine 1 ⟨0⟩) (P := SemOk)
    (runs 0 2 ++ [(0, .call (.op (.semInit 0 0)))] ++ runs 0 3 ++
      [(0, .call (.op (.create false)))] ++ runs 0 12 ++ [(0, .call .yield)] ++ runs 0 24 ++
      [(0, .call (.op (.semWait 0)))] ++ runs 0 22)
    (p := fun x => x.2.sems 0 = some ⟨0, [1]⟩ ∧ x.2.owner (.sem 0) = none) (by decide +kernel)
  obtain ⟨hx, ho⟩ := of_decide_eq_true hs
  exact ⟨h, s, ⟨0, [1]⟩, hx, ho, rfl, no_lost_wakeup hr hx ho⟩

end Uthread
