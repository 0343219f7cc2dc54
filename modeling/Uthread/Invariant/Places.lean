import Uthread.Invariant.Relocation

/-!
# Every thread keeps to one place

`PlaceInv` is kept by every step: the steps that move a thread one by one, then all of them
(`Trans.placeInv`).
-/

namespace Uthread

variable {n : ℕ} {cfg : Config} {s s' : State n} {e : Event n} {k : Fin n} {p : Ptr}

/-! ### The ready queue -/

theorem Inserts.placeInv {en : Entry} {c : Ctl} (h : Inserts (s.kt k).ctl en c) (I : PlaceInv s) :
    PlaceInv ({ s with rqueue := s.rqueue ++ [en] }.goto k c) := by
  generalize hc : (s.kt k).ctl = c₀ at h
  have hready (q : Ptr) : { s with rqueue := s.rqueue ++ [Entry.tcb q] }.holds =
      Function.update s.holds .ready (s.holds .ready ++ [q]) := by
    rw [State.holds_rqueue]
    simp [State.holds, Entry.ptr?]
  cases h with
  | teardown p j =>
    refine I.of_sameRole (k := k) (fun k' hk => by simp [State.goto, State.setK, hk]) ?_ rfl rfl
      ?_ (fun i => rfl) rfl
    · constructor <;> simp [State.goto, State.setK, KThread.exec, KThread.hand, KThread.execState,
        KThread.handState, Ctl.pc?, Pc.hand, Pc.state, hc]
    · simp [State.goto, State.setK, State.holds, Entry.ptr?]
  | sched q =>
    refine I.giveExec (b := .ready) (r := q) ?_ rfl ?_ rfl (by simp) (by simp) (hready q) rfl rfl ?_ I.bound
    · simp [State.exec, KThread.exec, SchedPc.moving, hc]
    · simp [KThread.hand, Ctl.pc?, hc]
    · simp [State.placeState, KThread.execState, hc]
  | create p sb t q =>
    refine I.giveHand (b := .ready) (r := q) ?_ rfl ?_ ?_ (by simp) (by simp) (hready q) rfl rfl ?_ I.bound
    · simp [KThread.hand, Ctl.pc?, Pc.hand, hc]
    · simp [State.exec, KThread.exec, hc]
    · simp [KThread.execState, Pc.state, hc]
    · simp [State.placeState, KThread.handState, hc]
  | post p i q =>
    refine I.giveHand (b := .ready) (r := q) ?_ rfl ?_ ?_ (by simp) (by simp) (hready q) rfl rfl ?_ I.bound
    · simp [KThread.hand, Ctl.pc?, Pc.hand, hc]
    · simp [State.exec, KThread.exec, hc]
    · simp [KThread.execState, Pc.state, hc]
    · simp [State.placeState, KThread.handState, hc]
theorem PlaceInv.deqRemove (I : PlaceInv s) {en : Entry} {rest : List Entry}
    (hc : (s.kt k).ctl = .sched .deqRemove) (hq : s.rqueue = en :: rest) :
    PlaceInv ({ s with rqueue := rest }.goto k (.sched (.deqUnlock en))) := by
  cases en with
  | exitall =>
    refine I.of_sameRole (k := k) (fun k' hk => by simp [State.goto, State.setK, hk]) ?_ rfl rfl
      (by simp [State.goto, State.setK, State.holds, hq, List.filterMap_cons, Entry.ptr?])
      (fun i => rfl) rfl
    constructor <;>
      simp [State.goto, State.setK, KThread.exec, KThread.hand, SchedPc.moving, Entry.ptr?, Ctl.pc?,
        hc]
  | tcb q =>
    refine I.takeExec (a := .ready) (r := q) (l := rest.filterMap Entry.ptr?) ?_ (by simp) ?_ rfl
      ?_ rfl (State.holds_rqueue rest) rfl rfl rfl I.bound
    · simp [State.holds, hq, Entry.ptr?]
    · simp [State.exec, KThread.exec, SchedPc.moving, hc]
    · simp [KThread.hand, Ctl.pc?, hc]

theorem PlaceInv.postWake (I : PlaceInv s) {p q : Ptr} {i : SemId} {x : Sem} {c : ℤ} {rest : List Ptr}
    (hc : (s.kt k).ctl = .thread p (.post i .body)) (hx : s.sems i = some x)
    (hq : x.queue = q :: rest) :
    PlaceInv ((s.setSem i (some ⟨c, rest⟩)).goto k (.thread p (.post i (.tcbLock q)))) := by
  refine I.takeHand (a := .semq i) (r := q) (l := rest) ?_ (by simp) ?_ rfl ?_ ?_
    (State.holds_setSem i _) rfl rfl rfl I.bound
  · simp [State.holds, State.semQueue, hx, hq]
  · simp [KThread.hand, Ctl.pc?, Pc.hand, hc]
  · simp [State.exec, State.setSem, KThread.exec, hc]
  · simp [KThread.execState, Pc.state, hc]

theorem PlaceInv.parkJoin (I : PlaceInv s) {cur q : Ptr} {x : Tcb}
    (hc : (s.kt k).ctl = .sched (.joinBody cur)) (hx : s.heap q = some x) :
    PlaceInv ((s.setTcb q { x with joinQueue := x.joinQueue ++ [cur] }).goto k
      (.sched .unlockTcbs)) := by
  have hst : (s.setTcb q { x with joinQueue := x.joinQueue ++ [cur] }).stateOf = s.stateOf := by
    rw [State.stateOf_setTcb, Function.update_eq_self_iff]
    simp [State.stateOf, hx]
  refine I.giveExec (b := .joinq q) (r := cur) ?_ rfl ?_ rfl (by simp) (by simp) ?_ rfl hst ?_
    (State.setTcb_bound hx I.bound)
  · simp [State.exec, KThread.exec, SchedPc.moving, hc]
  · simp [State.setTcb, KThread.hand, Ctl.pc?, hc]
  · rw [State.holds_setTcb]
    simp [State.holds, State.joinQueue, hx]
  · simp [State.placeState, KThread.execState, hc]

theorem PlaceInv.parkSem (I : PlaceInv s) {cur : Ptr} {i : SemId} {x : Sem}
    (hc : (s.kt k).ctl = .sched (.semBody cur)) (hx : s.sems i = some x) :
    PlaceInv ((s.setSem i (some { x with queue := x.queue ++ [cur] })).goto k
      (.sched .semUnlock)) := by
  refine I.giveExec (b := .semq i) (r := cur) ?_ rfl ?_ rfl (by simp) (by simp) ?_ rfl rfl ?_
    I.bound
  · simp [State.exec, KThread.exec, SchedPc.moving, hc]
  · simp [State.setSem, KThread.hand, Ctl.pc?, hc]
  · rw [State.holds_setSem]
    simp [State.holds, State.semQueue, hx]
  · simp [State.placeState, KThread.execState, hc]

/-- An exiting thread that nobody joins leaves the hands of its kernel thread. -/
theorem PlaceInv.schedExit (I : PlaceInv s) {cur : Ptr}
    (hc : (s.kt k).ctl = .sched (.exitBody cur)) :
    PlaceInv (s.goto k (.sched .unlockTcbs)) := by
  have hcur : s.holds (.exec k) = [cur] := by
    simp [State.holds, State.exec, KThread.exec, SchedPc.moving, hc]
  have hh : s.holds (.hand k) = [] := by simp [State.holds, KThread.hand, Ctl.pc?, hc]
  have hfin : s.stateOf cur = some .finished := by
    simpa [State.placeState, KThread.execState, hc] using I.alive (.exec k) cur (by simp [hcur])
  have hholds : (s.goto k (.sched .unlockTcbs)).holds = Function.update s.holds (.exec k) [] := by
    refine State.holds_setK_exec ?_
    simp [KThread.hand, Ctl.pc?, hc]
  refine I.shrink (fun c => ?_) (fun p st h => h) (fun c p hp => rfl) (fun c hne => ?_)
    (fun c p hp hp' st hst => ?_) I.bound
  · by_cases hce : c = .exec k <;> simp [hholds, hce]
  · refine State.placeState_setK_of_ne ?_ ?_
    · rintro rfl
      simp [hholds] at hne
    · rintro rfl
      simp [hholds, hh] at hne
  · by_cases hce : c = .exec k
    · rw [hce, hcur, List.mem_singleton] at hp
      exact Option.some.inj (hst.symm.trans (hp ▸ hfin))
    · simp [hholds, hce, hp] at hp'

/-- An exiting thread leaves the hands of its kernel thread, which takes the joiner instead. -/
theorem PlaceInv.schedExitWake (I : PlaceInv s) {cur j : Ptr} {x y : Tcb} {rest : List Ptr}
    (hc : (s.kt k).ctl = .sched (.exitBody cur)) (hx : s.heap cur = some x)
    (hj : x.joinQueue = j :: rest)
    (hy : (s.setTcb cur { x with joinQueue := rest }).heap j = some y) :
    PlaceInv (((s.setTcb cur { x with joinQueue := rest }).setTcb j
      { y with state := .ready }).goto k (.sched (.enq j .lock))) := by
  have hcur : s.holds (.exec k) = [cur] := by
    simp [State.holds, State.exec, KThread.exec, SchedPc.moving, hc]
  have hjq : s.holds (.joinq cur) = j :: rest := by simp [State.holds, State.joinQueue, hx, hj]
  have hfin : s.stateOf cur = some .finished := by
    simpa [State.placeState, KThread.execState, hc] using I.alive (.exec k) cur (by simp [hcur])
  have hne : j ≠ cur := by
    rintro rfl
    simpa using I.excl.unique (a := .exec k) (b := .joinq j) (r := j) (by simp [hcur])
      (by simp [hjq])
  have hy' : s.heap j = some y := by simpa [State.setTcb, hne] using hy
  have hself : Function.update (Function.update s.holds (.joinq cur) rest) (.joinq j)
      y.joinQueue = Function.update s.holds (.joinq cur) rest :=
    Function.update_eq_self_iff.mpr (by simp [hne, State.holds, State.joinQueue, hy'])
  refine I.move (a := .joinq cur) (b := .exec k) (r := j) (l := []) (by simp) (by simp [hjq])
    (by simp) ?_ (by simp [hcur, hfin]) ?_ ?_ ?_
  · rw [State.holds_goto, State.holds_setK_exec, State.holds_setTcb, State.holds_setTcb, hself, hjq,
      List.erase_cons_head]
    · rfl
    · simp [State.setTcb, KThread.hand, Ctl.pc?, hc]
  · have : (s.setTcb cur { x with joinQueue := rest }).stateOf = s.stateOf := by
      rw [State.stateOf_setTcb, Function.update_eq_self_iff]
      simp [State.stateOf, hx]
    exact (State.stateOf_setTcb j _).trans (by rw [this]; simp [State.placeState, State.goto, State.setK, KThread.execState])
  · intro c p hp hpr
    have hce : c ≠ .exec k := by
      rintro rfl
      simp [State.holds, State.exec, State.goto, State.setK, KThread.exec, SchedPc.moving] at hp
      exact hpr hp
    have hch : c ≠ .hand k := by
      rintro rfl
      simp [State.holds, State.goto, State.setK, KThread.hand, Ctl.pc?] at hp
    exact State.placeState_setK_of_ne hce hch
  · exact State.setTcb_bound hy (State.setTcb_bound hx I.bound)

/-- A table entry that belongs to no thread in the hands of a kernel thread can be changed without
effect on what the kernel threads execute. -/
theorem TableInv.exec_update (T : TableInv s) {t : Tid} {o : Option Ptr}
    (ht : ∀ q, s.tcbs t = some q → ∀ k, s.exec k ≠ some q) (k : Fin n) :
    (s.kt k).exec (Function.update s.tcbs t o) = s.exec k := by
  by_cases hc : (s.kt k).ctl = .sched .entry
  · by_cases hta : (s.kt k).task = .none
    · simp [State.exec, KThread.exec, hc, hta]
    · obtain ⟨q, hq⟩ := T.handing k hc hta
      have hne : 0 ≤ (s.kt k).currentTid → (s.kt k).currentTid.toNat ≠ t := by
        rintro h0 rfl
        refine ht q ?_ k hq
        simpa [State.exec, KThread.exec, hc, hta, h0] using hq
      by_cases h0 : 0 ≤ (s.kt k).currentTid
      · simp [State.exec, KThread.exec, hc, h0, hne h0]
      · simp [State.exec, KThread.exec, hc, h0]
  · unfold State.exec KThread.exec
    split <;> first | rfl | contradiction

/-- Such a change keeps every thread in its place. -/
theorem TableInv.holds_update (T : TableInv s) {t : Tid} {o : Option Ptr}
    (ht : ∀ q, s.tcbs t = some q → ∀ k, s.exec k ≠ some q) :
    { s with tcbs := Function.update s.tcbs t o }.holds = s.holds := by
  funext c
  cases c with
  | exec k => exact congrArg Option.toList (T.exec_update ht k)
  | _ => rfl

/-- A new thread enters the hands of the kernel thread that creates it. -/
theorem PlaceInv.createBody (I : PlaceInv s) (T : TableInv s) {p : Ptr} {sb : Bool} {t : Tid}
    {y : Tcb} (hc : (s.kt k).ctl = .thread p (.create sb (.body t))) (ht : s.tcbs t = none)
    (hy : y.state = .ready) (hj : y.joinQueue = []) :
    PlaceInv ({ s with
        heap := Function.update s.heap s.fresh (some y)
        tcbs := Function.update s.tcbs t (some s.fresh)
        fresh := s.fresh + 1 }.goto k (.thread p (.create sb (.enq t s.fresh .lock)))) := by
  have hnew : s.heap s.fresh = none := I.bound s.fresh (Nat.le_refl _)
  have hnot (c : Place n) : s.fresh ∉ s.holds c := fun hm => by
    simpa [State.stateOf, hnew] using I.alive c s.fresh hm
  have hh : s.holds (.hand k) = [] := by simp [State.holds, KThread.hand, Ctl.pc?, Pc.hand, hc]
  let s₁ := { s with tcbs := Function.update s.tcbs t (some s.fresh) }
  have hs₁ : (s₁.setTcb s.fresh y).holds = s.holds := by
    rw [State.holds_setTcb, T.holds_update (by simp [ht]), Function.update_eq_self_iff]
    simp [State.holds, State.joinQueue, hnew, hj]
  have hholds : ((s₁.setTcb s.fresh y).goto k
      (.thread p (.create sb (.enq t s.fresh .lock)))).holds =
      Function.update s.holds (.hand k) [s.fresh] := by
    rw [State.holds_goto, State.holds_setK_hand, hs₁]
    · rfl
    · simp [s₁, State.exec, State.setTcb, KThread.exec, hc]
  refine I.enter (b := .hand k) (r := s.fresh) (l := []) (fun c hcb => ?_) ?_ (by simp) (by simp)
    (fun c hcb => ?_) ?_ (fun q hq => ?_) (fun c q hq hqr => ?_) (fun c q hq hqr => .inl ?_)
    fun q hq => ?_
  · change (((s₁.setTcb s.fresh y).goto k _).holds c).Sublist _
    simp [hholds, hcb]
  · change ((s₁.setTcb s.fresh y).goto k _).holds (.hand k) = _
    simp [hholds]
  · change _ ∉ ((s₁.setTcb s.fresh y).goto k _).holds c
    simp [hholds, hcb, hnot]
  · simp [State.stateOf, State.placeState, State.goto, State.setK, KThread.handState, hy]
  · simp [State.stateOf, State.goto, State.setK, hq]
  · change q ∈ ((s₁.setTcb s.fresh y).goto k _).holds c at hq
    have hch : c ≠ .hand k := by
      rintro rfl
      simp [hholds] at hq
      exact hqr hq
    by_cases hce : c = .exec k
    · subst hce
      simp [State.placeState, State.goto, State.setK, KThread.execState, Pc.state, hc]
    · exact State.placeState_setK_of_ne hce hch
  · change q ∈ ((s₁.setTcb s.fresh y).goto k _).holds c
    have hch : c ≠ .hand k := by
      rintro rfl
      simp [hh] at hq
    simpa [hholds, hch] using hq
  · change s.fresh + 1 ≤ q at hq
    have hne : q ≠ s.fresh := (Nat.ne_of_lt hq).symm
    simpa [State.goto, State.setK, hne] using I.bound q (Nat.le_of_lt hq)

/-- A place whose threads are finished is in the hands of a kernel thread. -/
theorem PlaceInv.exec_of_finished (I : PlaceInv s) {c : Place n} {q : Ptr} (hq : q ∈ s.holds c)
    (hfin : s.stateOf q = some .finished) : ∃ k, s.exec k = some q := by
  have hst : s.placeState c = .finished := Option.some.inj ((I.alive c q hq).symm.trans hfin)
  cases c with
  | exec k => exact ⟨k, by simpa [State.holds] using hq⟩
  | hand k =>
    simp only [State.placeState, KThread.handState] at hst
    split at hst <;> simp at hst
  | _ => simp [State.placeState] at hst

/-- A finished thread that no kernel thread has and whose join queue is empty can be destroyed. -/
theorem PlaceInv.joinDestroy (I : PlaceInv s) (T : TableInv s) {p q : Ptr} {t : Tid} {pret : Bool}
    {rv : Option Val} (hc : (s.kt k).ctl = .thread p (.join t pret (.destroy rv)))
    (hq : s.tcbs t = some q) (hfin : s.stateOf q = some .finished)
    (hexec : ∀ k', s.exec k' ≠ some q) (hjq : s.joinQueue q = []) :
    PlaceInv ({ s with
        heap := Function.update s.heap q none
        tcbs := Function.update s.tcbs t none }.goto k (.thread p (.join t pret (.ret rv)))) := by
  have hnot (c : Place n) : q ∉ s.holds c := fun hm =>
    (I.exec_of_finished hm hfin).elim fun k' hk' => hexec k' hk'
  have hholds : ({ s with
        heap := Function.update s.heap q none
        tcbs := Function.update s.tcbs t none }.goto k
          (.thread p (.join t pret (.ret rv)))).holds = s.holds := by
    rw [← T.holds_update (t := t) (o := none) fun q' hq' => Option.some.inj (hq.symm.trans hq') ▸ hexec]
    funext c
    cases c with
    | exec k' =>
      by_cases hk : k' = k
      · simp [State.holds, State.exec, State.goto, State.setK, KThread.exec, hk, hc]
      · simp [State.holds, State.exec, State.goto, State.setK, hk]
    | hand k' =>
      by_cases hk : k' = k
      · simp [State.holds, State.goto, State.setK, KThread.hand, Ctl.pc?, Pc.hand, hk, hc]
      · simp [State.holds, State.goto, State.setK, hk]
    | joinq q' =>
      by_cases hqq : q' = q
      · subst hqq
        simpa [State.holds, State.joinQueue, State.goto, State.setK] using hjq.symm
      · simp [State.holds, State.joinQueue, State.goto, State.setK, hqq]
    | _ => rfl
  refine I.shrink (fun c => by rw [hholds]) (fun r st hr => ?_) (fun c r hr => ?_) (fun c _ => ?_)
    (fun c r hr hr' => by rw [hholds] at hr'; exact absurd hr hr') fun r hr => ?_
  · by_cases hrq : r = q
    · simp [State.stateOf, State.goto, State.setK, hrq] at hr
    · simpa [State.stateOf, State.goto, State.setK, hrq] using hr
  · have hrq : r ≠ q := by
      rintro rfl
      exact hnot c (by rwa [hholds] at hr)
    simp [State.stateOf, State.goto, State.setK, hrq]
  · exact congrFun (State.placeState_setK_eq (by simp [KThread.execState, Pc.state, hc])
      (by simp [KThread.handState, hc])) c
  · by_cases hrq : r = q
    · simp [State.goto, State.setK, hrq]
    · simpa [State.goto, State.setK, hrq] using I.bound r hr
/-- No thread is parked on a semaphore that is not in use. -/
theorem CtxInv.semQueue_eq_nil (C : CtxInv s) (I : PlaceInv s) {i : SemId} (hi : ¬ s.SemBusy i) :
    s.semQueue i = [] := by
  refine List.eq_nil_iff_forall_not_mem.mpr fun p hp => hi (.inr ⟨p, ?_, ?_⟩)
  · refine Nat.lt_of_not_le fun hle => ?_
    simpa [State.stateOf, I.bound p hle] using I.alive (.semq i) p hp
  · simp [C.parked i p hp, Resume.uses]

/-- Every control block is in the table, so that teardown frees all of them. -/
theorem Inv.heap_free (I : Inv s) (q : Ptr) :
    (if (List.range maxThreads).any (s.tcbs · == some q) then none else s.heap q) = none := by
  cases hx : s.heap q with
  | none => simp
  | some x =>
    have ht := I.table.tid q x hx
    have : ∃ t < maxThreads, s.tcbs t = some q := ⟨x.tid, I.bits.lt _ _ ht, ht⟩
    simp [this]

/-- When the control blocks are freed, no thread is left in any place. -/
theorem PlaceInv.teardownFree (I : Inv s) {p : Ptr}
    (hc : (s.kt k).ctl = .thread p (.teardown .free))
    (halone : ∀ q st, q ≠ p → s.stateOf q = some st → st = .finished) :
    PlaceInv ({ s with
        heap := fun q => if (List.range maxThreads).any (s.tcbs · == some q) then none
          else s.heap q
        tcbs := fun t => if t < maxThreads then none else s.tcbs t
        rqueue := []
        infoFreed := true }.goto k (.closing .unblock)) := by
  set s' := { s with
        heap := fun q => if (List.range maxThreads).any (s.tcbs · == some q) then none
          else s.heap q
        tcbs := fun t => if t < maxThreads then none else s.tcbs t
        rqueue := []
        infoFreed := true }.goto k (.closing .unblock) with hs'
  have hheap (q : Ptr) : s'.heap q = none := by
    simp only [hs', State.goto, State.setK, I.heap_free]
  have hctl (k' : Fin n) : (s'.kt k').ctl = .closing .unblock ∨ (s'.kt k').ctl = .exited := by
    by_cases hk : k' = k
    · simp [hs', State.goto, State.setK, hk]
    · simp [hs', State.goto, State.setK, hk, I.exited_of_free hc hk]
  have hholds (c : Place n) : s'.holds c = [] := by
    cases c with
    | ready => rfl
    | exec k' => rcases hctl k' with h | h <;> simp [State.holds, State.exec, KThread.exec, h]
    | hand k' => rcases hctl k' with h | h <;> simp [State.holds, KThread.hand, Ctl.pc?, h]
    | joinq q => simp [State.holds, State.joinQueue, hheap]
    | semq i =>
      -- a parked thread would be another thread that is not finished
      refine List.eq_nil_iff_forall_not_mem.mpr fun r hr => ?_
      have hr : r ∈ s.holds (.semq i) := hr
      have hrp : r ≠ p := by
        rintro rfl
        simpa using I.place.excl.unique hr (PlaceInv.mem_exec (s := s) (k := k)
          (by simp [State.exec, KThread.exec, hc]))
      have hst := halone r _ hrp (I.place.alive _ r hr)
      simp [State.placeState] at hst
  refine I.place.shrink (fun c => by simp [hholds]) ?_ ?_ ?_ ?_ fun r _ => hheap r
  · simp [State.stateOf, hheap]
  · simp [hholds]
  · simp [hholds]
  · simp [State.stateOf, hheap]
theorem State.exec_of_thread? (hk : (s.kt k).ctl.thread? = some p) : s.exec k = some p := by
  cases hc : (s.kt k).ctl with
  | thread q pc =>
    obtain rfl : q = p := by simpa [hc, Ctl.thread?] using hk
    exact State.exec_thread hc
  | _ => simp [hc, Ctl.thread?] at hk

/-- A thread is executed by at most one kernel thread. -/
theorem PlaceInv.thread_unique (I : PlaceInv s) {j k : Fin n}
    (hj : (s.kt j).ctl.thread? = some p) (hk : (s.kt k).ctl.thread? = some p) : j = k := by
  simpa using I.excl.unique (PlaceInv.mem_exec (State.exec_of_thread? hj))
    (PlaceInv.mem_exec (State.exec_of_thread? hk))

/-- A thread that a scheduler has is not executed. -/
theorem PlaceInv.not_executed (I : PlaceInv s) (hp : s.exec k = some p)
    (hk : (s.kt k).ctl.thread? = none) (k' : Fin n) : (s.kt k').ctl.thread? ≠ some p := by
  intro hk'
  have : k = k' := by
    simpa using I.excl.unique (PlaceInv.mem_exec hp) (PlaceInv.mem_exec (State.exec_of_thread? hk'))
  rw [this, hk'] at hk
  cases hk

theorem State.context_of_executed (h : (s.kt k).ctl.thread? = some p) : s.context p = none :=
  if_pos ⟨k, h⟩

theorem State.context_of_not_executed (h : ∀ k, (s.kt k).ctl.thread? ≠ some p) :
    s.context p = (s.heap p).bind Tcb.saved :=
  if_neg (by simpa using h)

/-- The context of a thread that a scheduler has, and that is not finished. -/
theorem PlaceInv.context_eq (I : PlaceInv s) {x : Tcb} (hp : s.exec k = some p)
    (hst : (s.kt k).execState ≠ .finished) (hk : (s.kt k).ctl.thread? = none)
    (hx : s.heap p = some x) : s.context p = some x.ctx := by
  have hxs : x.state = (s.kt k).execState := by
    simpa [State.stateOf, State.placeState, hx] using I.alive _ p (PlaceInv.mem_exec hp)
  rw [State.context_of_not_executed (I.not_executed hp hk), hx]
  simp [Tcb.saved, hxs, hst]

/-- A thread that a scheduler is about to resume saved its own context. -/
theorem CtxInv.thread_eq (C : CtxInv s) (I : PlaceInv s) {x : Tcb} {c : Ctx}
    (hp : s.exec k = some p) (hst : (s.kt k).execState ≠ .finished)
    (hk : (s.kt k).ctl.thread? = none) (hx : s.heap p = some x) (hctx : x.ctx = some c) :
    c.thread = p ∧ ∀ cur ∈ c.resume.cur?, cur = some p := by
  obtain ⟨r, b, h, hr⟩ := C.saved p x.ctx (I.context_eq hp hst hk hx)
  obtain rfl := Option.some.inj (hctx.symm.trans h)
  exact ⟨rfl, hr⟩

/-- A thread is put into a join queue when it left the task to join. -/
theorem Inv.parks_join (I : Inv s) {cur q : Ptr} {c : Ctl} (h : Parks (s.kt k).ctl cur c)
    (hq : (s.kt k).queue = some (.join q)) :
    (s.kt k).ctl = .sched (.joinBody cur) ∧ c = .sched .unlockTcbs := by
  have ht := I.task k
  generalize hc : (s.kt k).ctl = c₀ at h
  cases h with
  | join => exact ⟨rfl, rfl⟩
  | sem =>
    simp only [KThread.TaskOk, hc] at ht
    simp [(I.table.queue k).2 ht.1] at hq

/-- A thread is put into the queue of a semaphore when it left the task to wait for it. -/
theorem Inv.parks_sem (I : Inv s) {cur : Ptr} {i : SemId} {c : Ctl}
    (h : Parks (s.kt k).ctl cur c) (hq : (s.kt k).queue = some (.sem i)) :
    (s.kt k).ctl = .sched (.semBody cur) ∧ c = .sched .semUnlock := by
  have ht := I.task k
  generalize hc : (s.kt k).ctl = c₀ at h
  cases h with
  | sem => exact ⟨rfl, rfl⟩
  | join =>
    simp only [KThread.TaskOk, hc] at ht
    simpa [hq] using (I.table.queue k).1 ht.1

/-- Every step keeps every thread in one place. -/
theorem Trans.placeInv (h : Trans cfg s e s') (I : Inv s) (o : Admits s e) : PlaceInv s' := by
  have hkt := fun k hk => h.kt_of_ne (k := k) hk
  have P := I.place
  cases h with
  | @call k c p r hc =>
    refine P.of_sameRole hkt ?_ rfl rfl rfl (fun i => rfl) rfl
    simpa [State.setK] using Call.enter_sameRole hc s.tcbs
  | tick =>
    refine P.of_sameRole hkt ?_ rfl rfl rfl (fun i => rfl) rfl
    constructor <;> simp [State.setK, KThread.exec, KThread.hand, KThread.execState,
      KThread.handState]
  | deliver =>
    refine P.of_sameRole hkt ?_ rfl rfl rfl (fun i => rfl) rfl
    constructor <;> simp [State.setK, KThread.exec, KThread.hand, KThread.execState,
      KThread.handState]
  | acquire h =>
    refine P.of_sameRole hkt ?_ rfl rfl rfl (fun i => rfl) rfl
    simpa [State.goto, State.setK] using h.sameRole s.tcbs
  | release h =>
    refine P.of_sameRole hkt ?_ rfl rfl rfl (fun i => rfl) rfl
    simpa [State.goto, State.setK] using h.sameRole s.tcbs
  | quiet h =>
    refine P.of_sameRole hkt ?_ rfl rfl rfl (fun i => rfl) rfl
    simpa [State.setK] using h.sameRole (I.task _)
  | signal h =>
    have hr := h.sameRole s.tcbs
    cases h <;> exact P.of_sameRole hkt (by simpa [State.goto, State.setK] using hr) rfl rfl rfl
      (fun i => rfl) rfl
  | insert h => exact h.placeInv P
  | @exitSwitch k f p v hc =>
    have ht := I.task k
    have hcur := I.table.currentTcb_thread hc
    simp only [KThread.TaskOk, hc, Pc.task, Option.some.injEq, Prod.mk.injEq] at ht
    refine P.of_sameRole hkt ?_ rfl rfl rfl (fun i => rfl) rfl
    constructor
    · have hentry : KThread.exec { s.kt k with ctl := .sched .entry, blocked := cfg.preemptive }
          s.tcbs = s.currentTcb k := State.exec_entry rfl (by simp [ht]) rfl
      rw [State.setK_kt]
      exact hentry.trans (hcur.trans (State.exec_thread hc).symm)
    · simp [State.setK, KThread.hand, Ctl.pc?, Pc.hand, hc]
    · simp [State.setK, KThread.execState, Pc.state, SchedTask.state, hc, ht]
    · simp [KThread.hand, Ctl.pc?, Pc.hand, hc]
  | @swap k f p c x r hc hx =>
    have ht := I.task k
    have hcur := I.table.currentTcb_thread hc
    obtain rfl : c = p := I.table.cur_eq hc (by simp [Pc.curs])
    have hst : x.state = Pc.state (.swap (some c) r) := by
      simpa [State.stateOf, State.placeState, KThread.execState, hx, hc] using
        P.alive (.exec k) c (PlaceInv.mem_exec (State.exec_thread hc))
    simp only [KThread.TaskOk, hc] at ht
    refine P.writeExec (State.exec_thread hc) hx rfl ?_ ?_ ?_ rfl
    · rw [← hcur]
      refine State.exec_entry rfl ?_ rfl
      cases r <;> simp_all [Pc.task]
    · cases r <;> simp_all [KThread.execState, Pc.task, Pc.state, SchedTask.state]
    · simp [KThread.hand, Ctl.pc?, Pc.hand, hc]
  | @yieldBody k f p o c x hc hcur hx hst =>
    obtain rfl : p = c := by simpa [I.table.currentTcb_thread hc] using hcur
    refine P.writeExec (State.exec_thread hc) hx rfl rfl rfl ?_ rfl
    simp [KThread.hand, Ctl.pc?, Pc.hand, hc]
  | @exitBody k f p v c x hc hcur hx hst =>
    obtain rfl : p = c := by simpa [I.table.currentTcb_thread hc] using hcur
    refine P.writeExec (State.exec_thread hc) hx rfl rfl rfl ?_ rfl
    simp [KThread.hand, Ctl.pc?, Pc.hand, hc]
  | @joinBlock k f p t pret c q x y hc hx hst hy hj =>
    obtain rfl : c = p := I.table.cur_eq hc (by simp [Pc.curs])
    refine P.writeExec (State.exec_thread hc) hy rfl rfl rfl ?_ rfl
    simp [KThread.hand, Ctl.pc?, Pc.hand, hc]
  | @waitPark k f p i c x hc hx =>
    obtain rfl : c = p := I.table.cur_eq hc (by simp [Pc.curs])
    refine P.writeExec (State.exec_thread hc) hx rfl rfl rfl ?_ rfl
    simp [KThread.hand, Ctl.pc?, Pc.hand, hc]
  | @schedTeardown k f cur x hc hx =>
    refine P.writeExec ?_ hx rfl rfl rfl ?_ rfl
    · simp [State.exec, KThread.exec, SchedPc.moving, hc]
    · simp [KThread.hand, Ctl.pc?, hc]
  | @dispBody k f q x hc hx hst =>
    refine P.writeExec ?_ hx rfl rfl rfl ?_ rfl
    · simp [State.exec, KThread.exec, SchedPc.moving, hc]
    · simp [KThread.hand, Ctl.pc?, hc]
  | @dispSet k f q x c hc hx hctx =>
    have hq : s.exec k = some q := by simp [State.exec, KThread.exec, SchedPc.moving, hc]
    have hth := (I.ctx.thread_eq P hq (by simp [KThread.execState, hc])
      (by simp [hc, Ctl.thread?]) hx hctx).1
    refine P.of_sameRole hkt ?_ rfl rfl rfl (fun i => rfl) rfl
    constructor
    · simp [State.setK, KThread.exec, SchedPc.moving, hc, hth]
    · simp [State.setK, KThread.hand, Ctl.pc?, Resume.pc_hand, hc]
    · simp [State.setK, KThread.execState, Resume.pc_state, hc]
    · simp [KThread.hand, Ctl.pc?, hc]
  | @createBody k f p sb t hc =>
    exact P.createBody I.table hc (I.bits.claim k t (by simp [KThread.claims, hc, Ctl.pc?, Pc.claims])).1 rfl rfl
  | @createNoTcb k p sb t hc => exact absurd o.alloc (by simp [AllocOk])
  | @createNoStack k p sb t hc => exact absurd o.alloc (by simp [AllocOk])
  | @joinDestroy k f p t pret rv q x hc hq hx =>
    have hexec := I.join.passed k t q (by simp [hc, Ctl.pc?, Pc.passed]) hq
    have hfin := I.join.waited k t q (by simp [hc, Ctl.pc?, Pc.waited]) hq
    refine P.joinDestroy I.table hc hq hfin hexec ?_
    by_contra hne
    obtain ⟨k', hk'⟩ := I.join.exiting q hfin hne
    exact hexec k' hk'
  | @semInit k f p i v hc =>
    have hi : s.semQueue i = [] := by
      have := o.sem
      simp only [SemOk, hc, Ctl.pc?, Option.mem_some_iff, forall_eq', Pc.SemOk] at this
      exact I.ctx.semQueue_eq_nil P this.2
    refine P.of_sameRole hkt ?_ rfl rfl rfl (fun j => ?_) rfl
    · constructor <;> simp [State.goto, State.setK, State.setSem, KThread.exec, KThread.hand,
        KThread.execState, KThread.handState, Ctl.pc?, Pc.hand, Pc.state, hc]
    · by_cases hj : j = i
      · simpa [State.semQueue, State.goto, State.setK, State.setSem, hj] using hi.symm
      · simp [State.semQueue, State.goto, State.setK, State.setSem, hj]
  | @semDestroy k f p i hc =>
    have hi : s.semQueue i = [] := by
      have := o.sem
      simp only [SemOk, hc, Ctl.pc?, Option.mem_some_iff, forall_eq', Pc.SemOk] at this
      exact I.ctx.semQueue_eq_nil P this
    refine P.of_sameRole hkt ?_ rfl rfl rfl (fun j => ?_) rfl
    · constructor <;> simp [State.setK, State.setSem, KThread.exec, KThread.hand,
        KThread.execState, KThread.handState, Ctl.pc?, Pc.hand, Pc.state, hc]
    · by_cases hj : j = i
      · simpa [State.semQueue, State.setK, State.setSem, hj] using hi.symm
      · simp [State.semQueue, State.setK, State.setSem, hj]
  | postWake hc hx hq => exact P.postWake hc hx hq
  | @postReady k f p i q x hc hx hst =>
    have hq : (s.kt k).hand = some q := by simp [KThread.hand, Ctl.pc?, Pc.hand, hc]
    refine P.write (a := .hand k) (by simp [State.holds, hq]) hx rfl ?_ ?_ ?_ (fun _ _ => ?_)
      (fun h => absurd rfl h)
    · simp [State.exec, KThread.exec, hc]
    · rw [hq]
      rfl
    · simp [State.placeState, State.setK, KThread.handState]
    · simp [KThread.execState, Pc.state, hc]
  | teardownFree hc hq hx => exact PlaceInv.teardownFree I hc (o.free _ hc)
  | @entry k f cur pc hc hcur h =>
    refine P.of_sameRole hkt ?_ rfl rfl rfl (fun i => rfl) rfl
    have hex (ht : (s.kt k).task ≠ .none) : (s.kt k).exec s.tcbs = some cur := by
      rw [State.exec_entry hc ht rfl, hcur]
    generalize hta : (s.kt k).task = ta at h
    cases h <;> constructor <;>
      simp_all [State.setK, KThread.exec, KThread.hand, KThread.execState, KThread.handState,
        KThread.block, SchedPc.moving, SchedTask.state, Ctl.pc?]
  | schedExit hc hx hj => exact P.schedExit hc
  | schedExitWake hc hx hj hy hst => exact P.schedExitWake hc hx hj hy
  | parkJoin h hq hx =>
    obtain ⟨hc, rfl⟩ := I.parks_join h hq
    exact P.parkJoin hc hx
  | parkSem h hq hx =>
    obtain ⟨hc, rfl⟩ := I.parks_sem h hq
    exact P.parkSem hc hx
  | deqRemove hc hq => exact P.deqRemove hc hq
  | @postBump k f p i x hc hx hq =>
    refine P.of_sameRole hkt ?_ rfl rfl rfl (fun j => ?_) rfl
    · constructor <;> simp [State.goto, State.setK, State.setSem, KThread.exec, KThread.hand,
        KThread.execState, KThread.handState, Ctl.pc?, Pc.hand, Pc.state, hc]
    · by_cases hj : j = i <;>
        simp [State.semQueue, State.goto, State.setK, State.setSem, hj, hx]
  | @waitDec k f p i x hc hx h0 =>
    refine P.of_sameRole hkt ?_ rfl rfl rfl (fun j => ?_) rfl
    · constructor <;> simp [State.goto, State.setK, State.setSem, KThread.exec, KThread.hand,
        KThread.execState, KThread.handState, Ctl.pc?, Pc.hand, Pc.state, hc]
    · by_cases hj : j = i <;>
        simp [State.semQueue, State.goto, State.setK, State.setSem, hj, hx]
  | _ hc =>
    refine P.of_sameRole hkt ?_ rfl rfl rfl (fun i => rfl) rfl
    constructor <;> simp [State.goto, State.setK, KThread.exec, KThread.hand, KThread.execState,
      KThread.handState, Ctl.pc?, Pc.hand, Pc.state, hc]

end Uthread
