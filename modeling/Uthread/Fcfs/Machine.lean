import Mathlib.Data.List.Nodup
import Uthread.Lib.EventMachine
import Uthread.Model.State

/-!
# First come, first served

What the scheduler is for, without kernel threads, mutexes and contexts: one thread runs, the others wait in
queues, and a thread that leaves is followed by the head of the ready queue. The machine takes the calls of the
running thread; a thread that was woken in a wait on a semaphore looks at the counter again before it makes
another call.

The threads and the semaphores are of any type. The calls come from outside, everything else is determined.

## Main definitions

* `Fcfs`, `fcfs`: the states and the machine.
* `fcfsCalls`, `fcfsDispatches`: the calls in a history, and the threads that were given control.

## Main results

* `fcfs_comparable`: the calls determine a run, up to what the machine does on its own at the end.
* `fcfs_dispatch_position`: a thread at position `k` of the ready queue is the one that is dispatched after `k`
  others.
-/

namespace Uthread

variable {τ ι : Type*}

/-- A call of a user thread. A `create` names the child, a `join` the thread that is joined. -/
inductive FcfsCall (τ ι : Type*)
  | create (child : τ)
  | yield
  | exit
  | join (target : τ)
  | semInit (i : ι) (value : ℤ)
  | semDestroy (i : ι)
  | semWait (i : ι)
  | semPost (i : ι)
  | self
  deriving DecidableEq

/-- The running thread makes a call, it looks again at the counter of the semaphore that it was parked on, or
the head of the ready queue is given control. -/
inductive FcfsEvent (τ ι : Type*)
  | call (p : τ) (c : FcfsCall τ ι)
  | again
  | dispatch
  deriving DecidableEq

/-- The running thread, the queues and the counters; `retries p` is the semaphore that `p` was parked on and
whose counter it has to look at again. -/
structure Fcfs (τ ι : Type*) where
  running : Option τ
  ready : List τ := []
  finished : τ → Bool := fun _ => false
  joiner : τ → Option τ := fun _ => none
  counter : ι → Option ℤ := fun _ => none
  waiters : ι → List τ := fun _ => []
  retries : τ → Option ι := fun _ => none

namespace Fcfs

variable [DecidableEq τ] [DecidableEq ι] (a : Fcfs τ ι) (p : τ)

/-- The running thread looks at the counter of a semaphore: it goes on, or it is parked. -/
def look (i : ι) : Option (Fcfs τ ι) :=
  match a.counter i with
  | none => none
  | some c =>
    if c = 0 then
      some { a with
        running := none
        waiters := Function.update a.waiters i (a.waiters i ++ [p])
        retries := Function.update a.retries p (some i) }
    else
      some { a with
        counter := Function.update a.counter i (some (c - 1))
        retries := Function.update a.retries p none }

/-- `sem_post` raises the counter, and the thread that has waited longest is appended. -/
def post (i : ι) : Option (Fcfs τ ι) :=
  match a.counter i with
  | none => none
  | some c =>
    let a' := { a with counter := Function.update a.counter i (some (intIncr c)) }
    match a.waiters i with
    | [] => some a'
    | q :: rest => some { a' with waiters := Function.update a.waiters i rest, ready := a.ready ++ [q] }

/-- A call of the running thread `p`. A thread is joined by one other thread at most. -/
def call : FcfsCall τ ι → Option (Fcfs τ ι)
  | .create q =>
    some { a with
      ready := a.ready ++ [q]
      finished := Function.update a.finished q false
      joiner := Function.update a.joiner q none
      retries := Function.update a.retries q none }
  | .yield => some { a with running := none, ready := a.ready ++ [p] }
  | .exit =>
    some { a with
      running := none
      ready := a.ready ++ (a.joiner p).toList
      finished := Function.update a.finished p true }
  | .join q =>
    if a.finished q = true then some a
    else if a.joiner q = none then
      some { a with running := none, joiner := Function.update a.joiner q (some p) }
    else none
  | .semInit i v =>
    some { a with
      counter := Function.update a.counter i (some v)
      waiters := Function.update a.waiters i [] }
  | .semDestroy i =>
    some { a with
      counter := Function.update a.counter i none
      waiters := Function.update a.waiters i [] }
  | .semWait i => a.look p i
  | .semPost i => a.post i
  | .self => some a

/-- One event. A call is made by the running thread when it does not have to look at a counter again; the head of
the ready queue is given control when no thread runs. -/
def step : FcfsEvent τ ι → Option (Fcfs τ ι)
  | .call p c => if a.running = some p ∧ a.retries p = none then a.call p c else none
  | .again =>
    match a.running with
    | some p =>
      match a.retries p with
      | some i => a.look p i
      | none => none
    | none => none
  | .dispatch =>
    match a.running, a.ready with
    | none, q :: rest => some { a with running := some q, ready := rest }
    | _, _ => none

end Fcfs

/-- The machine; at first `main` runs. -/
def fcfs [DecidableEq τ] [DecidableEq ι] (main : τ) : EventMachine (Fcfs τ ι) (FcfsEvent τ ι) where
  init := { running := some main }
  step := Fcfs.step

/-- The call that an event makes, and by which thread. -/
def FcfsEvent.call? : FcfsEvent τ ι → Option (τ × FcfsCall τ ι)
  | .call p c => some (p, c)
  | _ => none

/-- The thread that is given control. -/
def Fcfs.dispatched (a : Fcfs τ ι) : FcfsEvent τ ι → Option τ
  | .dispatch => a.ready.head?
  | _ => none

/-- The calls of a history, the first one first. -/
def fcfsCalls (l : List (Fcfs τ ι × FcfsEvent τ ι)) : List (τ × FcfsCall τ ι) :=
  (l.filterMap fun x => x.2.call?).reverse

/-- The threads that were given control in a history, the first one first. -/
def fcfsDispatches (l : List (Fcfs τ ι × FcfsEvent τ ι)) : List τ :=
  (l.filterMap fun x => x.1.dispatched x.2).reverse

section History

variable {a : Fcfs τ ι} {ev : FcfsEvent τ ι} {l l' : List (Fcfs τ ι × FcfsEvent τ ι)}

theorem fcfsCalls_append : fcfsCalls (l' ++ l) = fcfsCalls l ++ fcfsCalls l' := by
  simp [fcfsCalls, List.filterMap_append]

theorem fcfsDispatches_append : fcfsDispatches (l' ++ l) = fcfsDispatches l ++ fcfsDispatches l' := by
  simp [fcfsDispatches, List.filterMap_append]

theorem fcfsCalls_cons : fcfsCalls ((a, ev) :: l) = fcfsCalls l ++ ev.call?.toList := by
  cases h : ev.call? <;> simp [fcfsCalls, h]

theorem fcfsDispatches_cons : fcfsDispatches ((a, ev) :: l) = fcfsDispatches l ++ (a.dispatched ev).toList := by
  cases h : a.dispatched ev <;> simp [fcfsDispatches, h]

theorem FcfsEvent.call?_eq_some {p : τ} {c : FcfsCall τ ι} (h : ev.call? = some (p, c)) : ev = .call p c := by
  cases ev <;> simp_all [FcfsEvent.call?]

end History

variable [DecidableEq τ] [DecidableEq ι] {main : τ} {a a' : Fcfs τ ι} {ev : FcfsEvent τ ι}
  {l l' : List (Fcfs τ ι × FcfsEvent τ ι)}

/-! ### The machine is deterministic -/

/-- Where the machine can take a step on its own it cannot do anything else. -/
theorem Fcfs.internal_unique {ev ev' : FcfsEvent τ ι} (h : a.step ev ≠ none) (h' : a.step ev' ≠ none)
    (hev : ev.call? = none) : ev' = ev := by
  cases hr : a.running with
  | none => cases ev <;> cases ev' <;> simp_all [Fcfs.step, FcfsEvent.call?]
  | some p => cases hp : a.retries p <;> cases ev <;> cases ev' <;> simp_all [Fcfs.step, FcfsEvent.call?]

/-- Two events that a state allows are the same, if they make the same call whenever both make one. -/
theorem Fcfs.event_unique {b b' : Fcfs τ ι} {ev' : FcfsEvent τ ι} (h : a.step ev = some b)
    (h' : a.step ev' = some b') (hcall : ∀ c c', ev.call? = some c → ev'.call? = some c' → c = c') : ev' = ev := by
  have hne : a.step ev ≠ none := by simp [h]
  have hne' : a.step ev' ≠ none := by simp [h']
  cases hev : ev.call? with
  | none => exact Fcfs.internal_unique hne hne' hev
  | some c =>
    cases hev' : ev'.call? with
    | none => exact (Fcfs.internal_unique hne' hne hev').symm
    | some c' =>
      obtain rfl := hcall c c' hev hev'
      rw [FcfsEvent.call?_eq_some hev, FcfsEvent.call?_eq_some hev']

/-- The calls determine a run: when those of one run begin those of another, one of the runs continues the
other. -/
theorem fcfs_comparable (hr : (fcfs main).Run (fun _ _ => True) l a)
    (hr' : (fcfs main).Run (fun _ _ => True) l' a') (hcalls : fcfsCalls l <+: fcfsCalls l') :
    l <:+ l' ∨ l' <:+ l := by
  induction hr with
  | init => exact .inl (List.nil_suffix)
  | @step l b b' ev hr _ hs ih =>
    rw [fcfsCalls_cons] at hcalls
    rcases ih ((List.prefix_append _ _).trans hcalls) with ⟨u, rfl⟩ | h
    · rcases u.eq_nil_or_concat with rfl | ⟨u, ⟨c, ev'⟩, rfl⟩
      · exact .inr (List.suffix_cons _ _)
      · rw [List.concat_append] at hr' hcalls ⊢
        -- the other run goes on from the same state, with the same event
        obtain ⟨d, hd⟩ := hr'.of_append
        cases hd with
        | step hd _ hstep =>
          obtain rfl := hd.state_unique hr
          obtain rfl : ev' = ev := by
            refine Fcfs.event_unique hs hstep fun x x' hx hx' => ?_
            rw [fcfsCalls_append, fcfsCalls_cons, hx, hx', List.append_assoc,
              List.prefix_append_right_inj] at hcalls
            simpa using hcalls
          exact .inl (List.suffix_append _ _)
    · exact .inr (h.trans (List.suffix_cons _ _))

/-! ### The ready queue -/

theorem Fcfs.look_ready {p : τ} {i : ι} (h : a.look p i = some a') : a'.ready = a.ready := by
  unfold Fcfs.look at h
  split at h
  · cases h
  · split_ifs at h <;> rw [← Option.some.inj h]

/-- A call appends to the ready queue. -/
theorem Fcfs.call_ready {p : τ} {c : FcfsCall τ ι} (h : a.call p c = some a') : ∃ t, a'.ready = a.ready ++ t := by
  cases c with
  | create q => exact ⟨[q], by rw [← Option.some.inj h]⟩
  | yield => exact ⟨[p], by rw [← Option.some.inj h]⟩
  | exit => exact ⟨_, by rw [← Option.some.inj h]⟩
  | join q =>
    simp only [Fcfs.call] at h
    split_ifs at h <;> exact ⟨[], by simp [← Option.some.inj h]⟩
  | semInit i v => exact ⟨[], by simp [← Option.some.inj h]⟩
  | semDestroy i => exact ⟨[], by simp [← Option.some.inj h]⟩
  | semWait i => exact ⟨[], by rw [Fcfs.look_ready h, List.append_nil]⟩
  | semPost i =>
    simp only [Fcfs.call, Fcfs.post] at h
    split at h
    · cases h
    · split at h
      · exact ⟨[], by simp [← Option.some.inj h]⟩
      · next q rest _ => exact ⟨[q], by rw [← Option.some.inj h]⟩
  | self => exact ⟨[], by simp [← Option.some.inj h]⟩

/-- An event takes the head of the ready queue when it gives control to it, and otherwise appends. -/
theorem Fcfs.step_ready (h : a.step ev = some a') :
    ∃ t, (a.dispatched ev).toList ++ a'.ready = a.ready ++ t := by
  cases ev with
  | call p c =>
    simp only [Fcfs.step] at h
    split_ifs at h
    exact Fcfs.call_ready h
  | again =>
    simp only [Fcfs.step] at h
    split at h
    · split at h
      · exact ⟨[], by simp [Fcfs.dispatched, Fcfs.look_ready h]⟩
      · cases h
    · cases h
  | dispatch =>
    simp only [Fcfs.step] at h
    split at h
    · next q rest _ hready => exact ⟨[], by simp [← Option.some.inj h, Fcfs.dispatched, hready]⟩
    · cases h

/-- The threads leave the ready queue in its order, and later ones follow. -/
theorem fcfs_ready (hr : (fcfs main).Run (fun _ _ => True) (l' ++ l) a')
    (hr₀ : (fcfs main).Run (fun _ _ => True) l a) : ∃ t, fcfsDispatches l' ++ a'.ready = a.ready ++ t := by
  induction l' generalizing a' with
  | nil =>
    obtain rfl := hr.state_unique hr₀
    exact ⟨[], by simp [fcfsDispatches]⟩
  | cons x l' ih =>
    cases hr with
    | @step _ b _ ev hr _ hs =>
      obtain ⟨t, ht⟩ := ih hr
      obtain ⟨t', ht'⟩ := Fcfs.step_ready hs
      refine ⟨t ++ t', ?_⟩
      rw [fcfsDispatches_cons, List.append_assoc, ht', ← List.append_assoc, ht, List.append_assoc]

/-- The thread at position `k` of the ready queue is given control after `k` others, whatever is called. -/
theorem fcfs_dispatch_position (hr : (fcfs main).Run (fun _ _ => True) (l' ++ l) a')
    (hr₀ : (fcfs main).Run (fun _ _ => True) l a) {k : ℕ} {q : τ} (hk : a.ready[k]? = some q)
    (hlen : k < (fcfsDispatches l').length) : (fcfsDispatches l')[k]? = some q := by
  obtain ⟨t, ht⟩ := fcfs_ready hr hr₀
  have hk' : k < a.ready.length := (List.getElem?_eq_some_iff.mp hk).1
  calc (fcfsDispatches l')[k]? = (fcfsDispatches l' ++ a'.ready)[k]? := (List.getElem?_append_left hlen).symm
    _ = (a.ready ++ t)[k]? := by rw [ht]
    _ = some q := by rw [List.getElem?_append_left hk', hk]

/-- When a thread occurs once in the ready queue, it is not given control before. -/
theorem fcfs_not_dispatched_before (hr : (fcfs main).Run (fun _ _ => True) (l' ++ l) a')
    (hr₀ : (fcfs main).Run (fun _ _ => True) l a) (hnodup : a.ready.Nodup) {k : ℕ} {q : τ}
    (hk : a.ready[k]? = some q) (hlen : k < (fcfsDispatches l').length) : q ∉ (fcfsDispatches l').take k := by
  intro hq
  obtain ⟨j, hj⟩ := List.mem_iff_getElem?.mp hq
  obtain ⟨hlt, hj⟩ : j < k ∧ (fcfsDispatches l')[j]? = some q := by
    rw [List.getElem?_take] at hj
    split_ifs at hj with hlt
    exact ⟨hlt, hj⟩
  obtain ⟨hk', rfl⟩ := List.getElem?_eq_some_iff.mp hk
  have hready : a.ready[j]? = some a.ready[j] := List.getElem?_eq_getElem (Nat.lt_trans hlt hk')
  have hsame : a.ready[j] = a.ready[k] :=
    Option.some.inj ((fcfs_dispatch_position hr hr₀ hready (Nat.lt_trans hlt hlen)).symm.trans hj)
  exact Nat.ne_of_lt hlt ((List.Nodup.getElem_inj_iff hnodup).mp hsame)

end Uthread
