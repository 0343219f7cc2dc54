import Uthread.Invariant.Statement

/-!
# Moving threads between places

The rules by which `PlaceInv` is kept. A step leaves every thread where it is
(`PlaceInv.of_sameRole`), writes the control block of one thread in its place (`PlaceInv.write`),
lets finished threads leave (`PlaceInv.shrink`), lets one thread enter a place
(`PlaceInv.enter`), or moves one from a place to another (`PlaceInv.move`). The last rule comes in
four forms: a kernel thread gives away or takes the thread it executes or the one in its hands.
-/

namespace Uthread

variable {n : ℕ} {cfg : Config} {s s' : State n} {e : Event n} {k : Fin n}

/-! ### Steps that leave every thread in its place -/

/-- The record of a kernel thread changes, but not the threads it has in its hands. -/
structure SameRole (tcbs : Tid → Option Ptr) (x x' : KThread) : Prop where
  exec : x'.exec tcbs = x.exec tcbs
  hand : x'.hand = x.hand
  execState : x.exec tcbs ≠ none → x'.execState = x.execState
  handState : x.hand ≠ none → x'.handState = x.handState

theorem PlaceInv.of_sameRole (I : PlaceInv s) (hkt : ∀ k' ≠ k, s'.kt k' = s.kt k')
    (hrole : SameRole s.tcbs (s.kt k) (s'.kt k)) (htcbs : s'.tcbs = s.tcbs)
    (hheap : s'.heap = s.heap) (hready : s'.holds .ready = s.holds .ready)
    (hsem : ∀ i, s'.semQueue i = s.semQueue i) (hfresh : s'.fresh = s.fresh) : PlaceInv s' := by
  have hexec (k' : Fin n) : s'.exec k' = s.exec k' := by
    by_cases hk : k' = k
    · rw [hk, State.exec, State.exec, htcbs, hrole.exec]
    · rw [State.exec, State.exec, htcbs, hkt k' hk]
  have hhand (k' : Fin n) : (s'.kt k').hand = (s.kt k').hand := by
    by_cases hk : k' = k
    · rw [hk, hrole.hand]
    · rw [hkt k' hk]
  have hholds (c : Place n) : s'.holds c = s.holds c := by
    cases c with
    | ready => exact hready
    | exec k' => simp only [State.holds, hexec]
    | hand k' => simp only [State.holds, hhand]
    | joinq q => simp only [State.holds, State.joinQueue, hheap]
    | semq i => simp only [State.holds, hsem]
  have hstate (c : Place n) (hc : s.holds c ≠ []) : s'.placeState c = s.placeState c := by
    cases c with
    | exec k' =>
      by_cases hk : k' = k
      · subst hk
        exact hrole.execState fun h => hc (by simp [State.holds, State.exec, h])
      · simp only [State.placeState, hkt k' hk]
    | hand k' =>
      by_cases hk : k' = k
      · subst hk
        exact hrole.handState fun h => hc (by simp [State.holds, h])
      · simp only [State.placeState, hkt k' hk]
    | _ => rfl
  have hst (p : Ptr) : s'.stateOf p = s.stateOf p := by rw [State.stateOf, hheap]; rfl
  refine ⟨I.excl.shrink fun c => by rw [hholds], fun c p hp => ?_, fun p st hp hne => ?_, ?_⟩
  · rw [hholds] at hp
    rw [hst, hstate c (List.ne_nil_of_mem hp), I.alive c p hp]
  · obtain ⟨c, hc⟩ := I.cover p st (by rw [← hst, hp]) hne
    exact ⟨c, by rwa [hholds]⟩
  · rw [hheap, hfresh]
    exact I.bound

theorem Op.start_hand (o : Op) : o.start.hand = none := by cases o <;> rfl

theorem Op.start_state (o : Op) : o.start.state = .running := by cases o <;> rfl

theorem Resume.pc_hand (r : Resume) : r.pc.hand = none := by
  cases r with
  | yielded o => cases o <;> first | rfl | exact Op.start_hand _
  | _ => rfl

theorem Resume.pc_state (r : Resume) : r.pc.state = .running := by
  cases r with
  | yielded o => cases o <;> first | rfl | exact Op.start_state _
  | _ => rfl

theorem Acquires.sameRole {x : KThread} {L : Lock} {c : Ctl} (h : Acquires x.ctl L c)
    (tcbs : Tid → Option Ptr) : SameRole tcbs x { x with ctl := c } := by
  generalize hc : x.ctl = c₀ at h
  cases h <;> constructor <;>
    simp [KThread.exec, KThread.hand, KThread.execState, KThread.handState, Ctl.pc?, Pc.hand,
      Pc.state, SchedPc.moving, hc]

theorem Releases.sameRole {x : KThread} {L : Lock} {c : Ctl} (h : Releases x L c)
    (tcbs : Tid → Option Ptr) : SameRole tcbs x { x with ctl := c } := by
  cases h <;> rename_i hc <;> constructor <;>
    simp_all [KThread.exec, KThread.hand, KThread.execState, KThread.handState, Ctl.pc?, Pc.hand,
      Pc.state, SchedPc.moving]

theorem Quiet.sameRole {x : KThread} (h : Quiet cfg s k x) (ht : (s.kt k).TaskOk) :
    SameRole s.tcbs (s.kt k) x := by
  cases h with
  | start hc =>
    constructor <;>
      simp [KThread.exec, KThread.hand, KThread.execState, KThread.handState, Ctl.pc?, hc]
    · exact Op.start_hand _
    · exact Op.start_state _
    · exact fun h => absurd rfl h
  | _ =>
    constructor <;>
      simp_all [KThread.TaskOk, KThread.exec, KThread.hand, KThread.execState,
        KThread.handState, KThread.block, Ctl.pc?, Pc.hand, Pc.state, Pc.task, SchedPc.moving,
        Entry.ptr?]

theorem Signals.sameRole {s₁ : State n} {c : Ctl} (h : Signals s k s₁ c)
    (tcbs : Tid → Option Ptr) : SameRole tcbs (s.kt k) { s.kt k with ctl := c } := by
  cases h <;> rename_i hc <;> constructor <;>
    simp_all [KThread.exec, KThread.hand, KThread.execState, KThread.handState, Ctl.pc?, Pc.hand,
      Pc.state, SchedPc.moving]

theorem Call.enter_sameRole {c : Call} {p : Ptr} {r : Ret} {x : KThread}
    (hc : x.ctl = .thread p (.user r)) (tcbs : Tid → Option Ptr) :
    SameRole tcbs x (c.enter cfg x p) := by
  cases c with
  | op o =>
    cases o <;> constructor <;>
      simp [Call.enter, KThread.exec, KThread.hand, KThread.execState, KThread.handState,
        KThread.block, Ctl.pc?, Pc.hand, Pc.state, hc]
  | _ =>
    constructor <;>
      simp [Call.enter, KThread.exec, KThread.hand, KThread.execState, KThread.handState,
        KThread.block, Ctl.pc?, Pc.hand, Pc.state, hc]

/-! ### Steps that write a control block -/

/-- A kernel thread that executes user thread `p` has it. -/
theorem State.exec_thread {p : Ptr} {pc : Pc} (hc : (s.kt k).ctl = .thread p pc) :
    s.exec k = some p := by
  simp [State.exec, KThread.exec, hc]

/-- At the entry of `schedule`, the thread that has left a task is the one `current_tid` names. -/
theorem State.exec_entry {x : KThread} (hc : x.ctl = .sched .entry) (ht : x.task ≠ .none)
    (hcur : x.currentTid = (s.kt k).currentTid) : x.exec s.tcbs = s.currentTcb k := by
  simp [KThread.exec, State.currentTcb, hc, ht, hcur]

/-- The value of `tcbs[uthread_self()]` is the running thread. -/
theorem TableInv.currentTcb_thread (T : TableInv s) {p : Ptr} {pc : Pc}
    (hc : (s.kt k).ctl = .thread p pc) : s.currentTcb k = some p := by
  rw [T.cur k (by simp [KThread.names, hc]), State.exec_thread hc]

/-- The control blocks are freed when the other kernel threads have exited. -/
theorem Inv.exited_of_free (I : Inv s) {p : Ptr} {k' : Fin n}
    (hc : (s.kt k).ctl = .thread p (.teardown .free)) (hk : k' ≠ k) : (s.kt k').ctl = .exited :=
  I.teardown.awaited k none (by simp [hc, Ctl.pc?, Pc.awaits]) k' hk

theorem TableInv.cur_eq (T : TableInv s) {p c : Ptr} {pc : Pc} (hc : (s.kt k).ctl = .thread p pc)
    (hcur : some c ∈ pc.curs) : c = p := by
  have := T.locals k
  simp only [Ctl.LocalsOk, hc] at this
  exact Option.some.inj (this (some c) hcur)

theorem PlaceInv.mem_exec {p : Ptr} (hp : s.exec k = some p) : p ∈ s.holds (.exec k) := by
  simp [State.holds, hp]

theorem PlaceInv.mem_hand {p : Ptr} (hp : (s.kt k).hand = some p) : p ∈ s.holds (.hand k) := by
  simp [State.holds, hp]

theorem State.stateOf_setTcb (p : Ptr) (x : Tcb) :
    (s.setTcb p x).stateOf = Function.update s.stateOf p (some x.state) := by
  funext q
  by_cases hq : q = p <;> simp [State.stateOf, State.setTcb, hq]

theorem State.setTcb_bound {p : Ptr} {x y : Tcb} (hx : s.heap p = some x)
    (hb : ∀ q, s.fresh ≤ q → s.heap q = none) (q : Ptr) (hq : s.fresh ≤ q) :
    (s.setTcb p y).heap q = none := by
  have hqp : q ≠ p := by
    rintro rfl
    simp [hb q hq] at hx
  simpa [State.setTcb, hqp] using hb q hq

/-- A kernel thread writes the control block of the one thread in a place, and every thread stays
where it is. -/
theorem PlaceInv.write (I : PlaceInv s) {a : Place n} {p : Ptr} {x y : Tcb} {x' : KThread}
    (hp : s.holds a = [p]) (hx : s.heap p = some x) (hj : y.joinQueue = x.joinQueue)
    (he : x'.exec s.tcbs = s.exec k) (hh : x'.hand = (s.kt k).hand)
    (hst : ((s.setTcb p y).setK k x').placeState a = y.state)
    (hes : a ≠ .exec k → s.exec k ≠ none → x'.execState = (s.kt k).execState)
    (hhs : a ≠ .hand k → (s.kt k).hand ≠ none → x'.handState = (s.kt k).handState) :
    PlaceInv ((s.setTcb p y).setK k x') := by
  have hholds (c : Place n) : ((s.setTcb p y).setK k x').holds c = s.holds c := by
    cases c with
    | exec k' =>
      by_cases hk : k' = k
      · simp [State.holds, State.exec, State.setK, State.setTcb, hk, he]
      · simp [State.holds, State.exec, State.setK, State.setTcb, hk]
    | hand k' =>
      by_cases hk : k' = k
      · simp [State.holds, State.setK, State.setTcb, hk, hh]
      · simp [State.holds, State.setK, State.setTcb, hk]
    | joinq q =>
      by_cases hq : q = p
      · simp [State.holds, State.joinQueue, State.setK, State.setTcb, hq, hx, hj]
      · simp [State.holds, State.joinQueue, State.setK, State.setTcb, hq]
    | _ => rfl
  have hstate {r : Ptr} (hr : r ≠ p) :
      ((s.setTcb p y).setK k x').stateOf r = s.stateOf r := by
    simp [State.stateOf, State.setK, State.setTcb, hr]
  have hp₀ : p ∈ s.holds a := by simp [hp]
  refine ⟨I.excl.shrink fun c => by rw [hholds], fun c r hr => ?_, fun r st hr hne => ?_, ?_⟩
  · rw [hholds] at hr
    by_cases hrp : r = p
    · obtain rfl := I.excl.unique hr (hrp ▸ hp₀)
      rw [hst, hrp]
      simp [State.stateOf, State.setK, State.setTcb]
    · have hc : c ≠ a := by
        rintro rfl
        exact hrp (by simpa [hp] using hr)
      rw [hstate hrp, I.alive c r hr]
      cases c with
      | exec k' =>
        by_cases hk : k' = k
        · subst hk
          simp [State.placeState, State.setK, State.setTcb,
            hes hc.symm fun h => by simp [State.holds, h] at hr]
        · simp [State.placeState, State.setK, State.setTcb, hk]
      | hand k' =>
        by_cases hk : k' = k
        · subst hk
          simp [State.placeState, State.setK, State.setTcb,
            hhs hc.symm fun h => by simp [State.holds, h] at hr]
        · simp [State.placeState, State.setK, State.setTcb, hk]
      | _ => rfl
  · simp only [hholds]
    by_cases hrp : r = p
    · exact ⟨a, hrp ▸ hp₀⟩
    · exact I.cover r st (hstate hrp ▸ hr) hne
  · exact State.setTcb_bound hx I.bound

/-- A kernel thread writes the control block of the thread it executes or moves. -/
theorem PlaceInv.writeExec (I : PlaceInv s) {p : Ptr} {x y : Tcb} {x' : KThread}
    (hp : s.exec k = some p) (hx : s.heap p = some x) (hj : y.joinQueue = x.joinQueue)
    (hp' : x'.exec s.tcbs = some p) (hst : x'.execState = y.state)
    (hh : (s.kt k).hand = none) (hh' : x'.hand = none) :
    PlaceInv ((s.setTcb p y).setK k x') :=
  I.write (a := .exec k) (by simp [State.holds, hp]) hx hj (by rw [hp, hp']) (by rw [hh, hh'])
    (by simp [State.placeState, State.setK, hst]) (fun h => absurd rfl h)
    (fun _ h => absurd hh h)

/-! ### Steps that move a thread -/

/-- Threads leave their places; those that do are finished or no longer allocated. -/
theorem PlaceInv.shrink (I : PlaceInv s) (hs : ∀ c, (s'.holds c).Sublist (s.holds c))
    (hst : ∀ p st, s'.stateOf p = some st → s.stateOf p = some st)
    (hin : ∀ c, ∀ p ∈ s'.holds c, s'.stateOf p = s.stateOf p)
    (hpl : ∀ c, s'.holds c ≠ [] → s'.placeState c = s.placeState c)
    (hkeep : ∀ c, ∀ p ∈ s.holds c, p ∉ s'.holds c → ∀ st, s'.stateOf p = some st → st = .finished)
    (hbound : ∀ p, s'.fresh ≤ p → s'.heap p = none) : PlaceInv s' := by
  refine ⟨I.excl.shrink hs, fun c p hp => ?_, fun p st hp hne => ?_, hbound⟩
  · rw [hin c p hp, hpl c (List.ne_nil_of_mem hp), I.alive c p ((hs c).subset hp)]
  · obtain ⟨c, hc⟩ := I.cover p st (hst p st hp) hne
    by_cases hp' : p ∈ s'.holds c
    · exact ⟨c, hp'⟩
    · exact absurd (hkeep c p hc hp' st hp) hne

/-- Thread `r` enters the place `b` at its end, while finished threads may leave theirs. -/
theorem PlaceInv.enter (I : PlaceInv s) {b : Place n} {r : Ptr} {l : List Ptr}
    (hs : ∀ c, c ≠ b → (s'.holds c).Sublist (s.holds c)) (hb : s'.holds b = l ++ [r])
    (hl : l.Sublist (s.holds b)) (hrl : r ∉ l) (hr : ∀ c, c ≠ b → r ∉ s'.holds c)
    (hstr : s'.stateOf r = some (s'.placeState b))
    (hst : ∀ p ≠ r, s'.stateOf p = s.stateOf p)
    (hpl : ∀ c, ∀ p ∈ s'.holds c, p ≠ r → s'.placeState c = s.placeState c)
    (hkeep : ∀ c, ∀ p ∈ s.holds c, p ≠ r → p ∈ s'.holds c ∨ s.stateOf p = some .finished)
    (hbound : ∀ p, s'.fresh ≤ p → s'.heap p = none) : PlaceInv s' := by
  have hold (c : Place n) (p : Ptr) (hp : p ∈ s'.holds c) (hpr : p ≠ r) : p ∈ s.holds c := by
    by_cases hc : c = b
    · rw [hc, hb, List.mem_append, List.mem_singleton] at hp
      exact hc ▸ hl.subset (hp.resolve_right hpr)
    · exact (hs c hc).subset hp
  refine ⟨I.excl.enter hs hb hl hrl hr, fun c p hp => ?_, fun p st hp hne => ?_, hbound⟩
  · by_cases hpr : p = r
    · subst hpr
      have hc : c = b := by_contra fun hc => hr c hc hp
      rw [hc, hstr]
    · rw [hst p hpr, hpl c p hp hpr, I.alive c p (hold c p hp hpr)]
  · by_cases hpr : p = r
    · exact ⟨b, by simp [hb, hpr]⟩
    · rw [hst p hpr] at hp
      obtain ⟨c, hc⟩ := I.cover p st hp hne
      rcases hkeep c p hc hpr with hc' | hfin
      · exact ⟨c, hc'⟩
      · exact absurd (Option.some.inj (hp.symm.trans hfin)) hne

namespace State

@[simp] theorem holds_goto (c : Ctl) :
    (s.goto k c).holds = (s.setK k { s.kt k with ctl := c }).holds := rfl

/-- The places of a kernel thread. -/
theorem holds_setK (x : KThread) : (s.setK k x).holds =
    Function.update (Function.update s.holds (.exec k) (x.exec s.tcbs).toList) (.hand k)
      x.hand.toList := by
  funext c
  cases c with
  | exec k' => by_cases hk : k' = k <;> simp [holds, exec, setK, hk]
  | hand k' => by_cases hk : k' = k <;> simp [holds, setK, hk]
  | _ => rfl

theorem holds_setTcb (q : Ptr) (x : Tcb) :
    (s.setTcb q x).holds = Function.update s.holds (.joinq q) x.joinQueue := by
  funext c
  cases c with
  | joinq q' =>
    by_cases hq : q' = q <;> simp [holds, joinQueue, setTcb, hq]
  | _ => rfl

theorem holds_setSem (i : SemId) (o : Option Sem) :
    (s.setSem i o).holds = Function.update s.holds (.semq i) ((o.map (·.queue)).getD []) := by
  funext c
  cases c with
  | semq j => by_cases hj : j = i <;> simp [holds, semQueue, setSem, hj]
  | _ => rfl

theorem holds_rqueue (l : List Entry) :
    { s with rqueue := l }.holds = Function.update s.holds .ready (l.filterMap Entry.ptr?) := by
  funext c
  cases c <;> rfl

theorem placeState_setK (x : KThread) : (s.setK k x).placeState =
    Function.update (Function.update s.placeState (.exec k) x.execState) (.hand k)
      x.handState := by
  funext c
  cases c with
  | exec k' => by_cases hk : k' = k <;> simp [placeState, setK, hk]
  | hand k' => by_cases hk : k' = k <;> simp [placeState, setK, hk]
  | _ => rfl

end State

/-- Thread `r` moves from the place `a` to the end of the place `b`. -/
theorem PlaceInv.move (I : PlaceInv s) {a b : Place n} {r : Ptr} {l : List Ptr} (hab : a ≠ b)
    (ha : r ∈ s.holds a) (hl : l.Sublist (s.holds b))
    (hholds : s'.holds =
      Function.update (Function.update s.holds a ((s.holds a).erase r)) b (l ++ [r]))
    (hdrop : ∀ p ∈ s.holds b, p ∉ l → s.stateOf p = some .finished)
    (hst : s'.stateOf = Function.update s.stateOf r (some (s'.placeState b)))
    (hpl : ∀ c, ∀ p ∈ s'.holds c, p ≠ r → s'.placeState c = s.placeState c)
    (hbound : ∀ p, s'.fresh ≤ p → s'.heap p = none) : PlaceInv s' := by
  have hb : s'.holds b = l ++ [r] := by simp [hholds]
  have ha' : s'.holds a = (s.holds a).erase r := by simp [hholds, hab]
  have hc (c : Place n) (hca : c ≠ a) (hcb : c ≠ b) : s'.holds c = s.holds c := by
    simp [hholds, hca, hcb]
  have hra : r ∉ s'.holds a := by rw [ha', (I.excl.nodup a).mem_erase_iff]; simp
  have hrb : r ∉ s.holds b := I.excl.notMem_of_ne ha hab.symm
  have hs (c : Place n) (hcb : c ≠ b) : (s'.holds c).Sublist (s.holds c) := by
    by_cases hca : c = a
    · rw [hca, ha']
      exact List.erase_sublist
    · rw [hc c hca hcb]
  refine I.enter hs hb hl (fun hm => hrb (hl.subset hm)) ?_ (by simp [hst])
    (fun p hp => by simp [hst, hp]) hpl ?_ hbound
  · intro c hcb hm
    by_cases hca : c = a
    · exact hra (hca ▸ hm)
    · exact I.excl.notMem_of_ne ha hca ((hs c hcb).subset hm)
  · intro c p hp hpr
    by_cases hca : c = a
    · rw [hca, ha']
      exact .inl ((List.mem_erase_of_ne hpr).mpr (hca ▸ hp))
    · by_cases hcb : c = b
      · subst hcb
        by_cases hpl' : p ∈ l
        · exact .inl (by simp [hb, hpl'])
        · exact .inr (hdrop p hp hpl')
      · exact .inl (by rwa [hc c hca hcb])


theorem State.holds_setK_exec {x : KThread} (hh : x.hand = (s.kt k).hand) :
    (s.setK k x).holds = Function.update s.holds (.exec k) (x.exec s.tcbs).toList := by
  rw [State.holds_setK, Function.update_eq_self_iff]
  simp [State.holds, hh]

theorem State.holds_setK_hand {x : KThread} (he : x.exec s.tcbs = s.exec k) :
    (s.setK k x).holds = Function.update s.holds (.hand k) x.hand.toList := by
  have : Function.update s.holds (.exec k) (x.exec s.tcbs).toList = s.holds :=
    Function.update_eq_self_iff.mpr (by rw [he]; rfl)
  rw [State.holds_setK, this]

theorem State.placeState_setK_of_ne {x : KThread} {c : Place n} (he : c ≠ .exec k)
    (hh : c ≠ .hand k) : (s.setK k x).placeState c = s.placeState c := by
  simp [State.placeState_setK, he, hh]

theorem State.placeState_setK_eq {x : KThread} (he : x.execState = (s.kt k).execState)
    (hh : x.handState = (s.kt k).handState) : (s.setK k x).placeState = s.placeState := by
  rw [State.placeState_setK, Function.update_eq_self_iff.mpr (by simp [State.placeState, hh]),
    Function.update_eq_self_iff.mpr (by simp [State.placeState, he])]

/-- Thread `r` moves from the place `a` to the end of the place `b`, and at least one of the two
belongs to kernel thread `k`. -/
theorem PlaceInv.carry (I : PlaceInv s) {a b : Place n} {r : Ptr} {s₁ : State n} {x : KThread}
    (hab : a ≠ b) (ha : r ∈ s.holds a)
    (hholds : (s₁.setK k x).holds =
      Function.update (Function.update s.holds a ((s.holds a).erase r)) b (s.holds b ++ [r]))
    (hpl : s₁.placeState = s.placeState) (hst : s₁.stateOf = s.stateOf)
    (hb : (s₁.setK k x).placeState b = s.placeState a)
    (hes : ∀ p ∈ (s₁.setK k x).holds (.exec k), p ≠ r → x.execState = (s.kt k).execState)
    (hhs : ∀ p ∈ (s₁.setK k x).holds (.hand k), p ≠ r → x.handState = (s.kt k).handState)
    (hbound : ∀ p, s₁.fresh ≤ p → s₁.heap p = none) : PlaceInv (s₁.setK k x) := by
  refine I.move (a := a) (b := b) (r := r) hab ha (.refl _) hholds (fun p hp h => absurd hp h)
    ?_ ?_ hbound
  · have hr : some (s.placeState a) = s₁.stateOf r := by rw [hst, I.alive a r ha]
    rw [hb, ← hst, Function.update_eq_self_iff.mpr hr]
    rfl
  · intro c p hp hpr
    rw [State.placeState_setK, hpl]
    by_cases hh : c = .hand k
    · subst hh
      rw [Function.update_self, hhs p hp hpr]
      rfl
    · rw [Function.update_of_ne hh]
      by_cases he : c = .exec k
      · subst he
        rw [Function.update_self, hes p hp hpr]
        rfl
      · rw [Function.update_of_ne he]

/-- Kernel thread `k` puts the thread it executes or moves at the end of the queue `b`. -/
theorem PlaceInv.giveExec (I : PlaceInv s) {b : Place n} {r : Ptr} {s₁ : State n} {x : KThread}
    (hr : s.exec k = some r) (hx : x.exec s₁.tcbs = none) (hh : (s₁.kt k).hand = none)
    (hxh : x.hand = none) (hb : b ≠ .exec k) (hb' : b ≠ .hand k)
    (hs₁ : s₁.holds = Function.update s.holds b (s.holds b ++ [r]))
    (hpl : s₁.placeState = s.placeState) (hst : s₁.stateOf = s.stateOf)
    (hbs : s.placeState b = (s.kt k).execState) (hbound : ∀ p, s₁.fresh ≤ p → s₁.heap p = none) :
    PlaceInv (s₁.setK k x) := by
  have hq : s.holds (.exec k) = [r] := by simp [State.holds, hr]
  have hholds : (s₁.setK k x).holds = Function.update s₁.holds (.exec k) [] := by
    rw [State.holds_setK_exec (by rw [hh, hxh]), hx, Option.toList]
  refine I.carry (a := .exec k) (r := r) hb.symm (by simp [hq]) ?_ hpl hst ?_ ?_ ?_ hbound
  · rw [hholds, hs₁, hq, List.erase_cons_head, Function.update_comm hb]
  · rw [State.placeState_setK_of_ne hb hb', hpl, hbs]
    rfl
  · simp [hholds]
  · simp [State.holds_setK, hxh]

/-- Kernel thread `k` puts the thread it has in its hands at the end of the queue `b`. -/
theorem PlaceInv.giveHand (I : PlaceInv s) {b : Place n} {r : Ptr} {s₁ : State n} {x : KThread}
    (hr : (s.kt k).hand = some r) (hx : x.hand = none) (he : x.exec s₁.tcbs = s₁.exec k)
    (hes : x.execState = (s.kt k).execState) (hb : b ≠ .exec k) (hb' : b ≠ .hand k)
    (hs₁ : s₁.holds = Function.update s.holds b (s.holds b ++ [r]))
    (hpl : s₁.placeState = s.placeState) (hst : s₁.stateOf = s.stateOf)
    (hbs : s.placeState b = (s.kt k).handState) (hbound : ∀ p, s₁.fresh ≤ p → s₁.heap p = none) :
    PlaceInv (s₁.setK k x) := by
  have hq : s.holds (.hand k) = [r] := by simp [State.holds, hr]
  have hholds : (s₁.setK k x).holds = Function.update s₁.holds (.hand k) [] := by
    rw [State.holds_setK_hand he, hx, Option.toList]
  refine I.carry (a := .hand k) (r := r) hb'.symm (by simp [hq]) ?_ hpl hst ?_ (fun _ _ _ => hes)
    ?_ hbound
  · rw [hholds, hs₁, hq, List.erase_cons_head, Function.update_comm hb']
  · rw [State.placeState_setK_of_ne hb hb', hpl, hbs]
    rfl
  · simp [hholds]

/-- Kernel thread `k`, which has no thread, takes the first one of the queue `a`. -/
theorem PlaceInv.takeExec (I : PlaceInv s) {a : Place n} {r : Ptr} {l : List Ptr} {s₁ : State n}
    {x : KThread} (ha : s.holds a = r :: l) (hae : a ≠ .exec k) (he : s.exec k = none)
    (hr : x.exec s₁.tcbs = some r) (hh : (s₁.kt k).hand = none) (hxh : x.hand = none)
    (hs₁ : s₁.holds = Function.update s.holds a l)
    (hpl : s₁.placeState = s.placeState) (hst : s₁.stateOf = s.stateOf)
    (hbs : x.execState = s.placeState a) (hbound : ∀ p, s₁.fresh ≤ p → s₁.heap p = none) :
    PlaceInv (s₁.setK k x) := by
  have hholds : (s₁.setK k x).holds = Function.update s₁.holds (.exec k) [r] := by
    rw [State.holds_setK_exec (by rw [hh, hxh]), hr, Option.toList]
  refine I.carry (b := .exec k) (r := r) hae (by simp [ha]) ?_ hpl hst ?_ ?_ ?_ hbound
  · rw [hholds, hs₁, ha, List.erase_cons_head]
    simp [State.holds, he]
  · simpa [State.placeState, State.setK] using hbs
  · simp only [hholds, Function.update_self, List.mem_singleton]
    exact fun p hp hpr => absurd hp hpr
  · simp [State.holds_setK, hxh]

/-- Kernel thread `k`, which has nothing in its hands, takes the first thread of the queue `a` into
them. -/
theorem PlaceInv.takeHand (I : PlaceInv s) {a : Place n} {r : Ptr} {l : List Ptr} {s₁ : State n}
    {x : KThread} (ha : s.holds a = r :: l) (hah : a ≠ .hand k) (hh : (s.kt k).hand = none)
    (hr : x.hand = some r) (he : x.exec s₁.tcbs = s₁.exec k)
    (hes : x.execState = (s.kt k).execState) (hs₁ : s₁.holds = Function.update s.holds a l)
    (hpl : s₁.placeState = s.placeState) (hst : s₁.stateOf = s.stateOf)
    (hbs : x.handState = s.placeState a) (hbound : ∀ p, s₁.fresh ≤ p → s₁.heap p = none) :
    PlaceInv (s₁.setK k x) := by
  have hholds : (s₁.setK k x).holds = Function.update s₁.holds (.hand k) [r] := by
    rw [State.holds_setK_hand he, hr, Option.toList]
  refine I.carry (b := .hand k) (r := r) hah (by simp [ha]) ?_ hpl hst ?_ (fun _ _ _ => hes) ?_
    hbound
  · rw [hholds, hs₁, ha, List.erase_cons_head]
    simp [State.holds, hh]
  · simpa [State.placeState, State.setK] using hbs
  · simp only [hholds, Function.update_self, List.mem_singleton]
    exact fun p hp hpr => absurd hp hpr

end Uthread
