import Uthread.Safety.Target

/-!
# Joining and creating threads at the same time

`uthread_join` gives the identifier of the joined thread back before it destroys the control block,
and it holds no mutex in between. A `uthread_create` on another kernel thread can take the identifier
and install a new control block in that window; the join then destroys the new thread.

In every run in which `get_next_tid` does not hand out an identifier inside the window, a thread
stays in the table until it is joined, and a join destroys the thread it joined.

## Main definitions

* `live`: the threads that were created and neither joined nor torn down.
* `Untrampled`: they are in the table, and joins destroy what they joined.

## Main results

* `untrampled_of_run`, and `untrampled_fails` for the window.
-/

namespace Uthread

variable {n : ℕ} {cfg : Config} {s s' : State n} {e : Event n} {k : Fin n} {p q : Ptr} {t : Tid}
  {h : List (State n × Event n)}

/-- The documented preconditions, with allocations that succeed and identifiers that suffice. -/
structure Documented (s : State n) (e : Event n) : Prop where
  alloc : AllocOk e
  call : CallOk s e
  sem : SemOk s e
  tids : TidsLeft s e

instance (s : State n) (e : Event n) : Decidable (Documented s e) :=
  decidable_of_iff (AllocOk e ∧ CallOk s e ∧ SemOk s e ∧ TidsLeft s e)
    ⟨fun ⟨h₁, h₂, h₃, h₄⟩ => ⟨h₁, h₂, h₃, h₄⟩, fun ⟨h₁, h₂, h₃, h₄⟩ => ⟨h₁, h₂, h₃, h₄⟩⟩

/-- What a step does to the table of threads. -/
inductive TableAct
  | install (q : Ptr) (t : Tid)
  | destroy (p : Ptr)
  | clear

/-- A successful `uthread_create` installs a control block, the `destroy_thread` of a `uthread_join`
by thread `p` removes one, and `uthread_teardown` removes all. -/
def State.tableAct (s : State n) : Event n → Option TableAct
  | (k, .run fail) =>
    match (s.kt k).ctl with
    | .thread _ (.create sb (.body t)) =>
      if fail = some .tcb ∨ (fail = some .stack ∧ sb = false) then none
      else some (.install s.fresh t)
    | .thread p (.join _ _ (.destroy _)) => some (.destroy p)
    | .thread _ (.teardown .free) => some .clear
    | _ => none
  | _ => none

/-- The threads that `uthread_create` has installed, with their identifiers, until the join of that
very thread destroys one, or teardown runs. -/
def live : List (State n × Event n) → List (Ptr × Tid)
  | [] => []
  | (s, e) :: h =>
    match s.tableAct e with
    | some (.install q t) => (q, t) :: live h
    | some (.destroy p) => (live h).filter fun x => some x.1 ≠ joinTarget h p
    | some .clear => []
    | none => live h

/-- The live threads are in the table and not destroyed, and a `uthread_join` that is about to
execute `destroy_thread` destroys the thread that it joined. -/
structure Untrampled (h : List (State n × Event n)) (s : State n) : Prop where
  stays : ∀ x ∈ live h, s.tcbs x.2 = some x.1 ∧ (s.heap x.1).isSome
  destroys : ∀ k p t pret rv, (s.kt k).ctl = .thread p (.join t pret (.destroy rv)) →
    ∃ q, s.tcbs t = some q ∧ joinTarget h p = some q

theorem Inv.heap_of_install (I : Inv s) (ha : AllocOk e) (hact : s.tableAct e = some (.install q t))
    (hs : s.step cfg e = some s') {l : List (Ptr × Tid)}
    (ih : ∀ x ∈ l, ∃ y, s.heap x.1 = some y ∧ y.tid = x.2) {x : Ptr × Tid} (hx : x ∈ (q, t) :: l) :
    ∃ y, s'.heap x.1 = some y ∧ y.tid = x.2 := by
  unfold State.tableAct at hact
  split at hact
  · next k fail =>
    obtain rfl : fail = none := ha
    split at hact
    · next p sb t₀ hc =>
      simp only [reduceCtorEq, false_and, or_self, if_false, Option.some.injEq,
        TableAct.install.injEq] at hact
      obtain ⟨rfl, rfl⟩ := hact
      simp only [State.step, State.stepRun, hc, State.stepThread, State.stepCreate, reduceCtorEq,
        false_and, if_false] at hs
      split_ifs at hs
      obtain rfl := Option.some.inj hs
      rcases List.mem_cons.mp hx with rfl | hx
      · exact ⟨State.newTcb t₀ s.fresh sb (s.kt k).blocked, by simp [State.goto, State.setK], rfl⟩
      · obtain ⟨y, hy, hyt⟩ := ih x hx
        have hne : x.1 ≠ s.fresh := fun hf => by
          simp [hf, I.place.bound s.fresh (Nat.le_refl _)] at hy
        exact ⟨y, by simp [State.goto, State.setK, hne, hy], hyt⟩
    · simp at hact
    · simp at hact
    · cases hact
  · cases hact

theorem Inv.heap_of_destroy (I : Inv s) (hact : s.tableAct e = some (.destroy p))
    (hs : s.step cfg e = some s') :
    ∃ t q, s.JoinsAt p t ∧ s.tcbs t = some q ∧ s'.heap = Function.update s.heap q none := by
  unfold State.tableAct at hact
  split at hact
  · next k fail =>
    split at hact
    · split_ifs at hact
      simp at hact
    · next p' t pret rv hc =>
      obtain rfl : p' = p := by simpa using hact
      have hj : s.JoinsAt p' t := .inl ⟨k, by simp [hc, Ctl.joining, Pc.joins]⟩
      obtain ⟨q, hq, -⟩ := I.join.target p' t hj
      obtain ⟨x, hx, -⟩ := I.table.slot t q hq
      simp only [State.step, State.stepRun, hc, State.stepThread, State.stepJoin,
        State.destroyThread, State.withTcb, hq, hx] at hs
      split_ifs at hs
      obtain rfl := Option.some.inj hs
      exact ⟨t, q, hj, hq, rfl⟩
    · simp at hact
    · cases hact
  · cases hact

/-- The other steps keep the identifiers of all threads. -/
theorem State.tid_of_tableAct_eq_none (ha : AllocOk e) (hact : s.tableAct e = none)
    (hs : s.step cfg e = some s') {y : Tcb} (hy : s.heap q = some y) :
    (s'.heap q).map (·.tid) = some y.tid := by
  obtain rfl | rfl | ht := State.step_cases hs
  · simp [State.abort, hy]
  · simp [State.fault, hy]
  · by_cases heq : s'.heap q = s.heap q
    · simp [heq, hy]
    · obtain ⟨f, hf⟩ := ht.run_of_heap_ne heq
      rcases ht.table_cases ha with hsame | hedit
      · simp [hsame.tid q, hy]
      · obtain ⟨k, i⟩ := e
        obtain rfl : i = .run f := hf
        obtain rfl : f = none := ha
        cases hedit with
        | create hc => simp [State.tableAct, hc] at hact
        | destroy hc => simp [State.tableAct, hc] at hact
        | free hc => simp [State.tableAct, hc] at hact

/-- A live thread has kept its identifier. -/
theorem heap_of_live (hn : 0 < n) (hr : (machine n cfg).Run Obeys h s) :
    ∀ x ∈ live h, ∃ y, s.heap x.1 = some y ∧ y.tid = x.2 := by
  refine hr.history_invariant
    (I := fun h s => ∀ x ∈ live h, ∃ y, s.heap x.1 = some y ∧ y.tid = x.2) (by simp [live]) ?_
  intro h s e s' hr ih o hs x hx
  have I := inv_of_reachable hn hr.reachable
  simp only [live] at hx
  split at hx
  · next q t hact => exact I.heap_of_install o.alloc hact hs ih hx
  · next p hact =>
    rw [List.mem_filter] at hx
    obtain ⟨y, hy, hyt⟩ := ih x hx.1
    obtain ⟨t, q, hj, hq, hheap⟩ := I.heap_of_destroy hact hs
    have hne : x.1 ≠ q := by
      intro hxq
      have htarget := joinTarget_of_joinsAt hn hr p t hj
      simp [htarget, hq, hxq] at hx
    exact ⟨y, by rw [hheap, Function.update_of_ne hne, hy], hyt⟩
  · cases hx
  · next hact =>
    obtain ⟨y, hy, hyt⟩ := ih x hx
    have htid := State.tid_of_tableAct_eq_none o.alloc hact hs hy
    rw [hyt] at htid
    simpa using htid

/-- In every run that obeys the preconditions and in which no identifier is handed out between a
join's `reclaim_tid` and its `destroy_thread`, a thread stays in the table until it is joined or
teardown runs, and every join destroys the thread that it joined. -/
theorem untrampled_of_run (hn : 0 < n) (hr : (machine n cfg).Run Obeys h s) : Untrampled h s := by
  have I := inv_of_reachable hn hr.reachable
  refine ⟨fun x hx => ?_, fun k p t pret rv hc => ?_⟩
  · obtain ⟨y, hy, hyt⟩ := heap_of_live hn hr x hx
    exact ⟨hyt ▸ I.table.tid x.1 y hy, by simp [hy]⟩
  · have hj : s.JoinsAt p t := .inl ⟨k, by simp [hc, Ctl.joining, Pc.joins]⟩
    obtain ⟨q, hq, -⟩ := I.join.target p t hj
    exact ⟨q, hq, by rw [joinTarget_of_joinsAt hn hr p t hj, hq]⟩

/-- Two kernel threads. The main thread, on the first, joins thread `1`, which has finished, and
stops after `reclaim_tid`; thread `2` runs on the second. -/
def reclaimRun : List (Event 2) :=
  runs 0 3 ++ [(0, .call (.op (.create false)))] ++ runs 0 12 ++
    [(0, .call (.op (.create false)))] ++ runs 0 12 ++ runs 1 17 ++
    [(1, .call (.op (.exit 42)))] ++ runs 1 21 ++ [(0, .call (.op (.join 1 true)))] ++ runs 0 9

/-- The join is about to destroy the thread that it joined. -/
theorem untrampled_of_run_reclaimed : ∃ (h : List (State 2 × Event 2)) (s : State 2),
    (s.kt 0).ctl = .thread 0 (.join 1 true (.destroy (some 42))) ∧ live h = [(2, 2), (1, 1)] ∧
      Untrampled h s := by
  obtain ⟨h, s, hr, hs⟩ := EventMachine.exists_run_of_exec
    (M := machine 2 ⟨0⟩) (P := Obeys) reclaimRun
    (p := fun x => (x.2.kt 0).ctl = .thread 0 (.join 1 true (.destroy (some 42))) ∧
      live x.1 = [(2, 2), (1, 1)]) (by decide +kernel)
  obtain ⟨hc, hl⟩ := of_decide_eq_true hs
  exact ⟨h, s, hc, hl, untrampled_of_run Nat.two_pos hr⟩

/-- The join is about to destroy a thread that thread `2` has created in between. -/
theorem untrampled_fails : ¬ ∀ (n : ℕ) (cfg : Config) (h : List (State n × Event n)) (s : State n),
    0 < n → (machine n cfg).Run Documented h s → Untrampled h s := by
  intro hall
  obtain ⟨h, s, hr, hs⟩ := EventMachine.exists_run_of_exec
    (M := machine 2 ⟨0⟩) (P := Documented)
    (reclaimRun ++ [(1, .call (.op (.create false)))] ++ runs 1 6)
    (p := fun x => (x.2.kt 0).ctl = .thread 0 (.join 1 true (.destroy (some 42))) ∧
      x.2.tcbs 1 = some 3 ∧ joinTarget x.1 0 = some 1) (by decide +kernel)
  obtain ⟨hc, ht, hj⟩ := of_decide_eq_true hs
  obtain ⟨q, hq, hq'⟩ := (hall 2 ⟨0⟩ h s (by decide) hr).destroys 0 0 1 true _ hc
  simp_all

end Uthread
