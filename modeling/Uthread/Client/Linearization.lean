import Uthread.Client.BoundedBuffer

/-!
# The semaphores are linearizable

A run of a program over the library has a linearization: a run of the same program with atomic semaphores that ends
with the same memory, the same counters and, except for calls that have not taken effect, at the same points. Each
thread makes the same calls and steps in the same order in both. A linearization of a run goes on to be part of
one of what follows, so that a call takes effect between the step at which it is made and the one at which the thread
is back in its own code, and calls that do not overlap take effect in their order.

## Main definitions

* `made`, `done`: the events of the program in a run of the system and in one of the atomic machine.
* `Linearization`.

## Main results

* `semaphores_linearizable`.
-/

namespace Uthread

variable {n : ℕ} {cfg : Config} {σ π : Type} {C : Client σ π} {x x' : SystemState n σ π} {a a' : AtomicState σ π}
  {ev : SystemEvent n} {p : Ptr} {h h' : List (SystemState n σ π × SystemEvent n)}
  {l : List (AtomicState σ π × AtomicEvent)} {b d : Option AtomicEvent}

/-- The calls and steps that the program makes in a run, in their order. -/
def made (h : List (SystemState n σ π × SystemEvent n)) : List AtomicEvent :=
  (h.filterMap fun y => y.1.makes y.2).reverse

/-- The events of a run of the atomic machine, in their order. -/
def done (l : List (AtomicState σ π × AtomicEvent)) : List AtomicEvent := (l.map Prod.snd).reverse

/-- Those of one thread. -/
def eventsOf (p : Ptr) (es : List AtomicEvent) : List AtomicEvent := es.filter (·.thread = p)

/-- A run of the atomic machine in which each thread makes the events of a run of the system, in the same order,
and the state at its end. The call that a thread is inside may be missing, as long as it has not taken effect. -/
structure Linearization (C : Client σ π) (h : List (SystemState n σ π × SystemEvent n)) (x : SystemState n σ π)
    (l : List (AtomicState σ π × AtomicEvent)) (a : AtomicState σ π) : Prop where
  run : (atomicMachine C).Run (fun _ _ => True) l a
  simulates : Simulates C x a
  pending : ∀ p o, x.lib.Pending p o → eventsOf p (made h) = eventsOf p (done l) ++ [.call p (.op o)]
  settled : ∀ p, (∀ o, ¬ x.lib.Pending p o) → eventsOf p (made h) = eventsOf p (done l)

theorem made_cons : made ((x, ev) :: h) = made h ++ (x.makes ev).toList := by
  rw [made, List.filterMap_cons]
  cases x.makes ev <;> simp [made]

theorem done_cons {e : AtomicEvent} : done ((a, e) :: l) = done l ++ [e] := List.reverse_cons ..

theorem eventsOf_append (es fs : List AtomicEvent) : eventsOf p (es ++ fs) = eventsOf p es ++ eventsOf p fs :=
  List.filter_append ..

theorem eventsOf_self (e : AtomicEvent) : eventsOf e.thread [e] = [e] := by simp [eventsOf]

theorem eventsOf_of_ne {e : AtomicEvent} (hp : e.thread ≠ p) : eventsOf p [e] = [] := by simp [eventsOf, hp]

namespace Linearization

theorem init (hn : 0 < n) : Linearization C [] (systemMachine n cfg C).init [] (atomicMachine C).init where
  run := .init
  simulates := .init hn
  pending p _ hp := absurd hp.2 (State.init_not_inCall hn p _)
  settled _ _ := rfl

/-- After a step of the system. -/
theorem next (L : Linearization C h x l a) (I : Inv x'.lib) (hl : Linearizes C x x' a (x.makes ev) d a')
    (S : Simulates C x' a') : Linearization C ((x, ev) :: h) x' ((d.map (a, ·)).toList ++ l) a' := by
  have hmade (p : Ptr) : eventsOf p (made ((x, ev) :: h)) = eventsOf p (made h) ++ eventsOf p (x.makes ev).toList := by
    rw [made_cons, eventsOf_append]
  generalize x.makes ev = b at hl hmade
  cases hl with
  | silent hp =>
    have hsame (q : Ptr) : eventsOf q (made ((x, ev) :: h)) = eventsOf q (made h) :=
      (hmade q).trans (List.append_nil _)
    refine ⟨L.run, S, fun q o ho => ?_, fun q ho => ?_⟩
    · exact (hsame q).trans (L.pending q o ((hp q o).mp ho))
    · exact (hsame q).trans (L.settled q fun o h => ho o ((hp q o).mpr h))
  | @begins p o hp hp' hother =>
    have hne {q : Ptr} (hq : q ≠ p) : eventsOf q (made ((x, ev) :: h)) = eventsOf q (made h) := by
      rw [hmade, Option.toList_some, eventsOf_of_ne (e := .call p (.op o)) hq.symm, List.append_nil]
    refine ⟨L.run, S, fun q o' ho => ?_, fun q ho => ?_⟩
    · by_cases hq : q = p
      · subst hq
        obtain rfl : o = o' := by simpa using I.inCall_unique hp'.2 ho.2
        rw [hmade, L.settled q hp, Option.toList_some]
        exact congrArg _ (eventsOf_self (.call q (.op o)))
      · exact (hne hq).trans (L.pending q o' ((hother q o' hq).mp ho))
    · by_cases hq : q = p
      · subst hq
        exact absurd hp' (ho o)
      · exact (hne hq).trans (L.settled q fun o' h => ho o' ((hother q o' hq).mpr h))
  | @effect p o _ hs hp hp' hother =>
    have hsame (q : Ptr) : eventsOf q (made ((x, ev) :: h)) = eventsOf q (made h) :=
      (hmade q).trans (List.append_nil _)
    have hne {q : Ptr} (hq : q ≠ p) :
        eventsOf q (done ((a, .call p (.op o)) :: l)) = eventsOf q (done l) := by
      rw [done_cons, eventsOf_append, eventsOf_of_ne (e := .call p (.op o)) hq.symm, List.append_nil]
    refine ⟨L.run.step trivial hs, S, fun q o' ho => ?_, fun q ho => ?_⟩
    · have hq : q ≠ p := by
        rintro rfl
        exact hp' o' ho
      exact ((hsame q).trans (L.pending q o' ((hother q o' hq).mp ho))).trans (by rw [← hne hq]; rfl)
    · by_cases hq : q = p
      · subst hq
        rw [hsame, L.pending q o hp]
        show _ = eventsOf q (done ((a, .call q (.op o)) :: l))
        rw [done_cons, eventsOf_append]
        exact congrArg _ (eventsOf_self (.call q (.op o))).symm
      · exact ((hsame q).trans (L.settled q fun o' h => ho o' ((hother q o' hq).mpr h))).trans (hne hq).symm
  | @atOnce e _ hs hp hother =>
    have hdone (q : Ptr) : eventsOf q (done ((a, e) :: l)) = eventsOf q (done l) ++ eventsOf q [e] := by
      rw [done_cons, eventsOf_append]
    refine ⟨L.run.step trivial hs, S, fun q o ho => ?_, fun q ho => ?_⟩
    · have hq : q ≠ e.thread := by
        rintro rfl
        exact hp o ((hother _ o).mp ho)
      show _ = eventsOf q (done ((a, e) :: l)) ++ _
      rw [hmade, hdone, Option.toList_some, eventsOf_of_ne hq.symm, List.append_nil, List.append_nil]
      exact L.pending q o ((hother q o).mp ho)
    · show _ = eventsOf q (done ((a, e) :: l))
      rw [hmade, hdone, Option.toList_some, L.settled q fun o h => ho o ((hother q o).mpr h)]

/-- A linearization goes on with the run. -/
theorem extend (hn : 0 < n) (hr : (systemMachine n cfg C).Run (SystemEvent.lift Obeys) (h' ++ h) x')
    (hs : (systemMachine n cfg C).Run (SystemEvent.lift Obeys) h x) (L : Linearization C h x l a) :
    ∃ l' a', Linearization C (h' ++ h) x' (l' ++ l) a' := by
  induction h' generalizing x' with
  | nil =>
    obtain rfl := hr.state_unique hs
    exact ⟨[], a, L⟩
  | cons y h' ih =>
    have hr' := hr
    cases hr with
    | @step _ x₁ _ ev hr₁ o hstep =>
      obtain ⟨l₁, a₁, L₁⟩ := ih hr₁
      obtain ⟨hl, hlib⟩ := lib_run hr₁
      obtain ⟨hl', hlib'⟩ := lib_run hr'
      obtain ⟨a', d, hlin, S⟩ := L₁.simulates.step hn hlib o hstep
      refine ⟨(d.map (a₁, ·)).toList ++ l₁, a', ?_⟩
      rw [List.append_assoc]
      exact L₁.next (inv_of_reachable hn hlib'.reachable) hlin S

end Linearization

/-- **The semaphores are linearizable**, online: for any program, any number of threads and of kernel threads and any
interleaving, a run has a linearization, and every linearization of a run is the beginning of one of whatever run
follows. So a call on a semaphore takes effect at one moment while the thread is inside it, which is never revised. -/
theorem semaphores_linearizable (hn : 0 < n) (hr : (systemMachine n cfg C).Run (SystemEvent.lift Obeys) h x) :
    (∃ l a, Linearization C h x l a) ∧
      ∀ l a, Linearization C h x l a → ∀ h' x', (systemMachine n cfg C).Run (SystemEvent.lift Obeys) (h' ++ h) x' →
        ∃ l' a', Linearization C (h' ++ h) x' (l' ++ l) a' := by
  refine ⟨?_, fun l a L h' x' hr' => L.extend hn hr' hr⟩
  rw [← List.append_nil h] at hr ⊢
  obtain ⟨l, a, L⟩ := Linearization.extend hn hr .init (Linearization.init hn)
  exact ⟨l ++ [], a, L⟩

deriving instance DecidableEq for AtomicEvent

/-- A producer has called `uthread_sem_wait`, and the call takes effect before it returns. -/
theorem semaphores_linearizable_wait : ∃ (h h' : List (SystemState 1 Slots BufferPc × SystemEvent 1))
    (x x' : SystemState 1 Slots BufferPc) (l l' : List (AtomicState Slots BufferPc × AtomicEvent))
    (a a' : AtomicState Slots BufferPc), Linearization (bufferClient 2 fun p => p = 1) h x l a ∧
      Linearization (bufferClient 2 fun p => p = 1) (h' ++ h) x' (l' ++ l) a' ∧
      eventsOf 1 (done l) = [.user 1 7] ∧ eventsOf 1 (done (l' ++ l)) = [.user 1 7, .call 1 (.op (.semWait 2))] := by
  let C := bufferClient 2 fun p => p = 1
  let M := systemMachine 1 ⟨0⟩ C
  let es : List (SystemEvent 1) := bufferSetup.map .lib ++ [.user 0 7] ++ [.lib (0, .call (.op (.semWait 2)))]
  have hx : (M.exec (SystemEvent.lift Obeys) [] M.init es).any (fun x =>
      eventsOf 1 (made x.1) = [.user 1 7, .call 1 (.op (.semWait 2))] ∧
      (x.2.lib.kt 0).ctl.inside = some (1, .op (.semWait 2), false) ∧
      (M.exec (SystemEvent.lift Obeys) x.1 x.2 ((runs 0 7).map .lib)).any fun y =>
        eventsOf 1 (made y.1) = [.user 1 7, .call 1 (.op (.semWait 2))] ∧ y.2.lib.userThread 0 = some 1) = true := by
    decide +kernel
  obtain ⟨⟨h, x⟩, hs, hx⟩ := Option.any_eq_true _ _ |>.1 hx
  obtain ⟨hmade, hin, hy⟩ := of_decide_eq_true hx
  obtain ⟨⟨h₁, x'⟩, hs', hy⟩ := Option.any_eq_true _ _ |>.1 hy
  obtain ⟨hmade', huser⟩ := of_decide_eq_true hy
  have hr : M.Run (SystemEvent.lift Obeys) h x := .of_exec hs
  have hr' : M.Run (SystemEvent.lift Obeys) h₁ x' := hr.exec hs'
  obtain ⟨h', hh'⟩ := EventMachine.exec_suffix hs'
  obtain rfl : h' ++ h = h₁ := hh'
  obtain ⟨⟨l, a, L⟩, hall⟩ := semaphores_linearizable Nat.one_pos hr
  obtain ⟨l', a', L'⟩ := hall l a L h' x' hr'
  refine ⟨h, h', x, x', l, l', a, a', L, L', ?_, ?_⟩
  · have hpend := L.pending 1 (.semWait 2) ⟨rfl, .inl ⟨0, hin⟩⟩
    rw [hmade] at hpend
    have hcancel : [AtomicEvent.user 1 7] = eventsOf 1 (done l) := List.append_cancel_right hpend
    exact hcancel.symm
  · obtain ⟨r, hc⟩ := State.userThread_eq_some.mp huser
    obtain ⟨hl, hlib⟩ := lib_run hr'
    have I := inv_of_reachable Nat.one_pos hlib.reachable
    rw [← L'.settled 1 fun o ho => I.not_inCall_of_user hc _ ho.2, hmade']

end Uthread
