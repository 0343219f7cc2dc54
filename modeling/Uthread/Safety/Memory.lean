import Uthread.Lib.Ledger
import Uthread.Safety.Completion
import Uthread.Safety.Stops
import Mathlib.Algebra.BigOperators.Intervals

/-!
# The memory of the threads

`uthread_create` allocates a control block, and a stack unless the caller provides one; `destroy_thread` frees them,
for one thread in `uthread_join` and for those that are left in `uthread_teardown`. What has been allocated is at
any time what has been freed and what the control blocks of the table own: nothing is freed twice, and after
`uthread_teardown` nothing is left. A control block and a stack are freed when no kernel thread executes the thread
any more and no queue refers to it.

## Main definitions

* `Block`: a piece of memory of a thread.
* `State.allocates`, `State.frees`: the blocks that an event allocates and frees.
* `State.owned`: the blocks of the threads that exist.

## Main results

* `blocks_balance`.
-/

namespace Uthread

variable {n : ℕ} {cfg : Config} {s s' : State n} {e : Event n} {k : Fin n} {p q : Ptr} {t : Tid}
  {h : List (State n × Event n)}

/-- A piece of memory of a thread: its control block, or its stack. -/
inductive Block
  | tcb (p : Ptr)
  | stack (p : Ptr)
  deriving DecidableEq, Repr

/-- The thread whose memory it is. -/
def Block.ptr : Block → Ptr
  | .tcb p | .stack p => p

/-- The memory of a thread. A stack that the caller provided is not the library's. -/
def Tcb.blocks (x : Tcb) (p : Ptr) : Multiset Block :=
  if x.stackAllocated then {.stack p, .tcb p} else {.tcb p}

namespace State

variable (s : State n)

/-- The memory of thread `p`. -/
def blocks (p : Ptr) : Multiset Block := (s.heap p).elim 0 (·.blocks p)

/-- The memory of all threads. -/
def owned : Multiset Block := ∑ p ∈ Finset.range s.fresh, s.blocks p

/-- What `destroy_thread` frees. -/
def destroyed (t : Tid) : Multiset Block := (s.tcbs t).elim 0 s.blocks

/-- What an event frees: `uthread_teardown` destroys the main thread last. -/
def frees : Event n → Multiset Block
  | (k, .run _) =>
    match (s.kt k).ctl with
    | .thread _ (.join t _ (.destroy _)) => s.destroyed t
    | .thread _ (.teardown .free) =>
      ∑ i ∈ Finset.Ico (tidMain + 1) maxThreads, s.destroyed i + s.destroyed tidMain
    | _ => 0
  | _ => 0

/-- What an event allocates: the thread that `uthread_create` makes. -/
def allocates : Event n → Multiset Block
  | (k, .run fail) =>
    match (s.kt k).ctl with
    | .thread _ (.create sb (.body t)) =>
      if fail = none then (newTcb t s.fresh sb (s.kt k).blocked).blocks s.fresh else 0
    | _ => 0
  | _ => 0

end State

/-- What has been allocated. The control block of the main thread is there when the run begins. -/
def allocated (h : List (State n × Event n)) : Multiset Block :=
  {.tcb mainTcb} + EventMachine.total State.allocates h

/-- What has been freed. -/
def freed (h : List (State n × Event n)) : Multiset Block := EventMachine.total State.frees h

/-! ### The blocks of a thread -/

theorem PlaceInv.lt_fresh (I : PlaceInv s) {x : Tcb} (hx : s.heap p = some x) : p < s.fresh := by
  by_contra hle
  rw [I.bound p (Nat.le_of_not_lt hle)] at hx
  cases hx

theorem Tcb.mem_blocks {x : Tcb} {b : Block} (hb : b ∈ x.blocks p) : b.ptr = p := by
  unfold Tcb.blocks at hb
  split at hb
  · simp only [Multiset.insert_eq_cons, Multiset.mem_cons, Multiset.mem_singleton] at hb
    obtain rfl | rfl := hb <;> rfl
  · obtain rfl := Multiset.mem_singleton.1 hb
    rfl

theorem Tcb.blocks_nodup (x : Tcb) (p : Ptr) : (x.blocks p).Nodup := by
  unfold Tcb.blocks
  split <;> simp

theorem State.blocks_of_heap {x : Tcb} (hx : s.heap p = some x) : s.blocks p = x.blocks p := by
  rw [State.blocks, hx]
  rfl

theorem State.blocks_eq_zero (hx : s.heap p = none) : s.blocks p = 0 := by
  rw [State.blocks, hx]
  rfl

theorem State.mem_blocks {b : Block} (hb : b ∈ s.blocks p) : b.ptr = p ∧ s.heap p ≠ none := by
  cases hx : s.heap p with
  | none => simp [State.blocks_eq_zero hx] at hb
  | some x =>
    rw [State.blocks_of_heap hx] at hb
    exact ⟨Tcb.mem_blocks hb, Option.some_ne_none x⟩

theorem State.blocks_of_update {x y : Tcb} (hx : s.heap q = some x)
    (hh : s'.heap = Function.update s.heap q (some y)) (hy : y.stackAllocated = x.stackAllocated) (p : Ptr) :
    s'.blocks p = s.blocks p := by
  by_cases hp : p = q
  · subst hp
    have hu : s'.heap p = some y := by simp [hh]
    rw [State.blocks_of_heap hx, State.blocks_of_heap hu, Tcb.blocks, Tcb.blocks, hy]
  · simp [State.blocks, hh, hp]

/-! ### Every step keeps the balance -/

theorem State.balance_frame (hf : s.frees e = 0) (ha : s.allocates e = 0) (hfresh : s'.fresh = s.fresh)
    (hb : ∀ q, s'.blocks q = s.blocks q) : s.frees e + s'.owned = s.owned + s.allocates e := by
  rw [hf, ha, zero_add, add_zero, State.owned, State.owned, hfresh]
  exact Finset.sum_congr rfl fun q _ => hb q

/-- A step that writes one control block, and leaves the stack in it. -/
theorem State.balance_update {x y : Tcb} (hx : s.heap q = some x)
    (hh : s'.heap = Function.update s.heap q (some y)) (hy : y.stackAllocated = x.stackAllocated)
    (hfresh : s'.fresh = s.fresh) (hf : s.frees e = 0) (ha : s.allocates e = 0) :
    s.frees e + s'.owned = s.owned + s.allocates e :=
  State.balance_frame hf ha hfresh (State.blocks_of_update hx hh hy)

/-- Every thread has its entry in the table, so that teardown destroys all of them. -/
theorem Inv.sum_destroyed (I : Inv s) : ∑ t ∈ Finset.range maxThreads, s.destroyed t = s.owned := by
  have hslot (t : Tid) : s.destroyed t = ∑ q ∈ Finset.range s.fresh, if s.tcbs t = some q then s.blocks q else 0 := by
    cases ht : s.tcbs t with
    | none => simp [State.destroyed, ht]
    | some p =>
      obtain ⟨x, hx, -⟩ := I.table.slot t p ht
      have hp : p ∈ Finset.range s.fresh := Finset.mem_range.2 (I.place.lt_fresh hx)
      simp only [State.destroyed, ht, Option.elim_some, Option.some.injEq, Finset.sum_ite_eq, if_pos hp]
  have hblocks (q : Ptr) : ∑ t ∈ Finset.range maxThreads, (if s.tcbs t = some q then s.blocks q else 0) = s.blocks q := by
    cases hx : s.heap q with
    | none => simp [State.blocks_eq_zero hx]
    | some x =>
      have ht := I.table.tid q x hx
      rw [Finset.sum_eq_single x.tid, if_pos ht]
      · intro t _ hne
        refine if_neg fun ht' => hne ?_
        obtain ⟨y, hy, hyt⟩ := I.table.slot t q ht'
        rw [← hyt, Option.some.inj (hx.symm.trans hy)]
      · exact fun hmem => absurd (Finset.mem_range.2 (I.bits.lt _ _ ht)) hmem
  calc ∑ t ∈ Finset.range maxThreads, s.destroyed t
      = ∑ t ∈ Finset.range maxThreads, ∑ q ∈ Finset.range s.fresh, if s.tcbs t = some q then s.blocks q else 0 :=
        Finset.sum_congr rfl fun t _ => hslot t
    _ = ∑ q ∈ Finset.range s.fresh, ∑ t ∈ Finset.range maxThreads, if s.tcbs t = some q then s.blocks q else 0 :=
        Finset.sum_comm
    _ = s.owned := Finset.sum_congr rfl fun q _ => hblocks q

theorem Inv.frees_teardown (I : Inv s) {f : Option AllocSite} (hc : (s.kt k).ctl = .thread p (.teardown .free)) :
    s.frees (k, .run f) = s.owned := by
  rw [← I.sum_destroyed, Finset.range_eq_Ico, Finset.sum_eq_sum_Ico_succ_bot (by decide), add_comm]
  simp [State.frees, hc, tidMain]

/-- What is freed and owned after a step was owned before it, or is allocated. -/
theorem Trans.balance (ht : Trans cfg s e s') (I : Inv s) (ha : AllocOk e) :
    s.frees e + s'.owned = s.owned + s.allocates e := by
  cases ht with
  | @createBody k f p sb t hc =>
    obtain rfl : f = none := ha
    have hfree : s.frees (k, .run none) = 0 := by simp [State.frees, hc]
    have hnew : s.allocates (k, .run none) = (State.newTcb t s.fresh sb (s.kt k).blocked).blocks s.fresh := by
      simp [State.allocates, hc]
    rw [hfree, zero_add, hnew]
    refine (Finset.sum_range_succ _ _).trans (congrArg₂ _ (Finset.sum_congr rfl fun q hq => ?_) ?_)
    · have hne : q ≠ s.fresh := (Finset.mem_range.1 hq).ne
      simp [State.blocks, State.goto, State.setK, hne]
    · exact State.blocks_of_heap (by simp [State.goto, State.setK])
  | @joinDestroy k f p t pret rv q x hc hq hx =>
    have hfree : s.frees (k, .run f) = s.blocks q := by simp [State.frees, hc, State.destroyed, hq]
    have hnew : s.allocates (k, .run f) = 0 := by simp [State.allocates, hc]
    have hmem : q ∈ Finset.range s.fresh := Finset.mem_range.2 (I.place.lt_fresh hx)
    rw [hfree, hnew, add_zero, State.owned, State.owned, ← Finset.add_sum_erase _ _ hmem]
    refine congrArg _ ((Finset.add_sum_erase _ _ hmem).symm.trans ?_)
    rw [State.blocks_eq_zero (by simp [State.goto, State.setK]), zero_add]
    refine Finset.sum_congr rfl fun r hr => ?_
    simp [State.blocks, State.goto, State.setK, Finset.ne_of_mem_erase hr]
  | @teardownFree k f p q x hc hq hx =>
    have hnew : s.allocates (k, .run f) = 0 := by simp [State.allocates, hc]
    rw [I.frees_teardown hc, hnew]
    refine congrArg _ (Finset.sum_eq_zero fun r _ => State.blocks_eq_zero ?_)
    simp only [State.goto, State.setK, I.heap_free]
  | createNoTcb | createNoStack => exact absurd ha (by simp [AllocOk])
  | call | tick | deliver => exact State.balance_frame rfl rfl rfl fun q => rfl
  | acquire h | insert h =>
    generalize hc : (s.kt _).ctl = x at h
    refine State.balance_frame ?_ ?_ rfl fun q => rfl <;> cases h <;> simp [State.frees, State.allocates, hc]
  | parkSem h =>
    generalize hc : (s.kt _).ctl = x at h
    refine State.balance_frame ?_ ?_ rfl fun q => rfl <;> cases h <;> simp [State.frees, State.allocates, hc]
  | parkJoin h hq hx =>
    generalize hc : (s.kt _).ctl = x at h
    refine State.balance_update hx rfl rfl rfl ?_ ?_ <;> cases h <;> simp [State.frees, State.allocates, hc]
  | release h | quiet h =>
    refine State.balance_frame ?_ ?_ rfl fun q => rfl <;> cases h <;> simp_all [State.frees, State.allocates]
  | signal h =>
    refine State.balance_frame ?_ ?_ ?_ fun q => ?_ <;> cases h <;> first | rfl | simp_all [State.frees, State.allocates]
  | swap hc hx | postReady hc hx | waitPark hc hx | schedTeardown hc hx | dispBody hc hx =>
    refine State.balance_update hx rfl rfl rfl ?_ ?_ <;> simp [State.frees, State.allocates, hc]
  | yieldBody hc hcur hx | exitBody hc hcur hx =>
    refine State.balance_update hx rfl rfl rfl ?_ ?_ <;> simp [State.frees, State.allocates, hc]
  | joinBlock hc hx hst hy hj =>
    refine State.balance_update hy rfl rfl rfl ?_ ?_ <;> simp [State.frees, State.allocates, hc]
  | @schedExitWake k f cur x j rest y hc hx hj hy hst =>
    have h₁ (q : Ptr) : (s.setTcb cur { x with joinQueue := rest }).blocks q = s.blocks q :=
      State.blocks_of_update (y := { x with joinQueue := rest }) hx rfl rfl q
    refine State.balance_frame ?_ ?_ rfl fun q =>
      (State.blocks_of_update (y := { y with state := .ready }) hy rfl rfl q).trans (h₁ q) <;>
      simp [State.frees, State.allocates, hc]
  | _ hc => refine State.balance_frame ?_ ?_ rfl fun q => rfl <;> simp [State.frees, State.allocates, hc]

/-! ### Over a run -/

/-- A new thread gets a new address. -/
theorem State.allocates_cases (hs : s.step cfg e = some s') :
    s.allocates e = 0 ∨ ∃ x : Tcb, s.allocates e = x.blocks s.fresh ∧ s'.fresh = s.fresh + 1 := by
  obtain ⟨k, i⟩ := e
  cases i with
  | run f =>
    have hh := State.halt_of_step hs
    simp only [State.allocates]
    split
    · next p sb t hc =>
      split
      · next hf =>
        subst hf
        obtain rfl : _ = s' := by
          simpa [State.step, hh, State.stepRun, hc, State.stepThread, State.stepCreate] using hs
        exact .inr ⟨_, rfl, rfl⟩
      · exact .inl rfl
    · exact .inl rfl
  | _ => exact .inl rfl

theorem allocated_cons (s : State n) (e : Event n) (h : List (State n × Event n)) :
    allocated ((s, e) :: h) = allocated h + s.allocates e := by
  rw [allocated, EventMachine.total_cons, add_comm (s.allocates e), ← add_assoc]
  rfl

/-- Nothing is allocated twice, and the main thread has no stack of the library's. -/
theorem allocated_of_run (hr : (machine n cfg).Run Obeys h s) :
    (allocated h).Nodup ∧ ∀ b ∈ allocated h, b.ptr < s.fresh ∧ (b.ptr = mainTcb → b = .tcb mainTcb) := by
  induction hr with
  | init =>
    refine ⟨Multiset.nodup_singleton _, fun b hb => ?_⟩
    obtain rfl : b = .tcb mainTcb := by simpa [allocated] using hb
    exact ⟨Nat.one_pos, fun _ => rfl⟩
  | @step h s s' e hr o hs ih =>
    obtain ⟨hnd, hlt⟩ := ih
    have hfresh : s.fresh ≤ s'.fresh := by
      obtain rfl | rfl | ht := State.step_cases hs
      · exact Nat.le_refl _
      · exact Nat.le_refl _
      · exact ht.fresh_le
    rw [allocated_cons]
    rcases State.allocates_cases hs with h0 | ⟨x, hx, hf⟩
    · rw [h0, add_zero]
      exact ⟨hnd, fun b hb => ⟨(hlt b hb).1.trans_le hfresh, (hlt b hb).2⟩⟩
    · rw [hx]
      refine ⟨Multiset.nodup_add.2 ⟨hnd, x.blocks_nodup _, ?_⟩, fun b hb => ?_⟩
      · refine Multiset.disjoint_left.2 fun hb hb' => ?_
        exact absurd (Tcb.mem_blocks hb') (hlt _ hb).1.ne
      · rcases Multiset.mem_add.1 hb with hb | hb
        · exact ⟨(hlt b hb).1.trans_le hfresh, (hlt b hb).2⟩
        · have hptr := Tcb.mem_blocks hb
          have hmain : Block.tcb mainTcb ∈ allocated h := Multiset.mem_add.2 (.inl (Multiset.mem_singleton_self _))
          have hpos : mainTcb < s.fresh := (hlt _ hmain).1
          exact ⟨by rw [hptr, hf]; exact Nat.lt_succ_self _, fun hm => absurd (hm.symm.trans hptr) hpos.ne⟩

/-- An event that stops the run neither allocates nor frees anything. -/
theorem State.frees_of_fails (hf : s.fails cfg e ≠ none) : s.frees e = 0 ∧ s.allocates e = 0 := by
  obtain ⟨k, i⟩ := e
  cases i with
  | run f =>
    simp only [State.fails] at hf
    split at hf
    · next hc => simp [State.frees, State.allocates, hc]
    · next hc => simp [State.frees, State.allocates, hc]
    · next hc => simp [State.frees, State.allocates, hc]
    · exact absurd rfl hf
  | _ => exact ⟨rfl, rfl⟩

theorem State.init_owned : (State.init n cfg).owned = {.tcb mainTcb} := by
  rw [State.owned, show (State.init n cfg).fresh = 1 from rfl, Finset.sum_range_one]
  rfl

/-- What has been freed and what the threads own has been allocated. -/
theorem freed_add_owned (hn : 0 < n) (hr : (machine n cfg).Run Obeys h s) : freed h + s.owned = allocated h := by
  have hstep (h : List (State n × Event n)) (s : State n) (e : Event n) (s' : State n)
      (hr : (machine n cfg).Run Obeys h s) (o : Obeys s e) (hs : s.step cfg e = some s') :
      s.frees e + s'.owned = s.owned + s.allocates e := by
    have hstop (hf : s'.halt ≠ none) : s.frees e = 0 ∧ s.allocates e = 0 :=
      State.frees_of_fails (halt_of_run hn hr o hs ▸ hf)
    obtain rfl | rfl | ht := State.step_cases hs
    · obtain ⟨hf, ha⟩ := hstop (by simp [State.abort])
      exact State.balance_frame hf ha rfl fun q => rfl
    · obtain ⟨hf, ha⟩ := hstop (by simp [State.fault])
      exact State.balance_frame hf ha rfl fun q => rfl
    · exact ht.balance (inv_of_reachable hn hr.reachable) o.alloc
  have hbal := hr.total_eq hstep
  rwa [show (machine n cfg).init.owned = {.tcb mainTcb} from State.init_owned] at hbal

theorem State.mem_owned {b : Block} : b ∈ s.owned ↔ b.ptr < s.fresh ∧ b ∈ s.blocks b.ptr := by
  rw [State.owned, Multiset.mem_sum]
  constructor
  · rintro ⟨p, hp, hb⟩
    obtain rfl := (State.mem_blocks hb).1
    exact ⟨Finset.mem_range.1 hp, hb⟩
  · exact fun ⟨hp, hb⟩ => ⟨_, Finset.mem_range.2 hp, hb⟩

/-- A thread that has finished and that no kernel thread has is in no place, and nobody waits to join it. -/
theorem Inv.not_mem_of_finished (I : Inv s) (hfin : s.stateOf q = some .finished) (hexec : ∀ k, s.exec k ≠ some q) :
    s.joinQueue q = [] ∧ ∀ c, q ∉ s.holds c := by
  refine ⟨by_contra fun hne => ?_, fun c hc => ?_⟩
  · obtain ⟨k, hk⟩ := I.join.exiting q hfin hne
    exact hexec k hk
  · obtain ⟨k, hk⟩ := I.place.exec_of_finished hc hfin
    exact hexec k hk

/-- It is the main thread that frees what is left. -/
theorem main_of_free (hn : 0 < n) (hr : (machine n cfg).Run Obeys h s)
    (hc : (s.kt k).ctl = .thread p (.teardown .free)) : p = mainTcb := by
  have I := inv_of_reachable hn hr.reachable
  have hst := I.place.alive (.exec k) p (PlaceInv.mem_exec (State.exec_thread hc))
  have hf : s.infoFreed = false := Bool.eq_false_iff.2 fun hf => by
    simp [State.stateOf, I.teardown.freed hf p] at hst
  exact (putInv_of_run hn (run_admits hn hr) hf).main p (.inl ⟨k, by simp [hc, Ctl.tearing, Pc.tearing]⟩)

/-- A thread whose memory is freed is in no place, except that the main thread frees its own control block. -/
theorem frees_of_run (hn : 0 < n) (hr : (machine n cfg).Run Obeys h s) {b : Block} (hb : b ∈ s.frees e) :
    s.joinQueue b.ptr = [] ∧ ((∀ c, b.ptr ∉ s.holds c) ∨ b = .tcb mainTcb) := by
  obtain ⟨I, A⟩ := inv_alone_of_reachable hn hr.reachable
  have hb₀ := hb
  obtain ⟨k, i⟩ := e
  cases i with
  | run f =>
    simp only [State.frees] at hb
    split at hb
    · next p t pret rv hc =>
      -- the thread that is joined has finished, and has left its kernel thread
      obtain ⟨q, hq⟩ : ∃ q, s.tcbs t = some q := Option.ne_none_iff_exists'.1 fun hnone => by
        simp [State.destroyed, hnone] at hb
      rw [State.destroyed, hq] at hb
      obtain ⟨rfl, hheap⟩ := State.mem_blocks hb
      have hfin := I.join.waited k t b.ptr (by simp [hc, Ctl.pc?, Pc.waited]) hq
      have hexec := I.join.passed k t b.ptr (by simp [hc, Ctl.pc?, Pc.passed]) hq
      obtain ⟨hnil, hplace⟩ := I.not_mem_of_finished hfin hexec
      exact ⟨hnil, .inl hplace⟩
    · next p hc =>
      have hexec : s.exec k = some p := State.exec_thread hc
      have halone := A.freeOk (e := (k, .run f)) p hc
      obtain rfl : p = mainTcb := main_of_free hn hr hc
      rw [I.frees_teardown hc, State.mem_owned] at hb₀
      by_cases hmain : b.ptr = mainTcb
      · -- a thread that waits to join the main thread would be one that has not finished
        have hall : b ∈ allocated h :=
          freed_add_owned hn hr ▸ Multiset.mem_add.2 (.inr (State.mem_owned.2 hb₀))
        refine ⟨List.eq_nil_iff_forall_not_mem.2 fun r hr' => ?_, .inr ((allocated_of_run hr).2 b hall |>.2 hmain)⟩
        have hr' : r ∈ s.holds (.joinq b.ptr) := hr'
        have hne : r ≠ mainTcb := by
          rintro rfl
          simpa using I.place.excl.unique hr' (PlaceInv.mem_exec hexec)
        have hst := halone r _ hne (I.place.alive _ r hr')
        simp [State.placeState] at hst
      · obtain ⟨x, hx⟩ := Option.ne_none_iff_exists'.1 (State.mem_blocks hb₀.2).2
        have hfin : s.stateOf b.ptr = some .finished := by
          rw [State.stateOf, hx, Option.map_some, halone b.ptr x.state hmain (by rw [State.stateOf, hx]; rfl)]
        have hno (k' : Fin n) : s.exec k' ≠ some b.ptr := by
          by_cases hk : k' = k
          · rw [hk, hexec]
            exact fun heq => hmain (Option.some.inj heq).symm
          · simp [State.exec, KThread.exec, I.exited_of_free hc hk]
        obtain ⟨hnil, hplace⟩ := I.not_mem_of_finished hfin hno
        exact ⟨hnil, .inl hplace⟩
    · simp at hb
  | _ => simp [State.frees] at hb

end Uthread
