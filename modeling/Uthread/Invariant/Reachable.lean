import Uthread.Invariant.Teardown

/-!
# The invariant holds in every run

The parts of the invariant are put together: `Inv` holds when `uthread_init` has set `inited`, and
every step of a run that obeys the documented preconditions keeps it. A run that stops keeps it
too, since a failed assertion changes nothing else.

## Main results

* `Inv.step`: one step.
* `inv_of_reachable`: every reachable state.
-/

namespace Uthread

variable {n : ℕ} {cfg : Config} {s s' : State n} {e : Event n} {k : Fin n}

/-! ### The initial state -/

theorem State.init_kt_cases (n : ℕ) (cfg : Config) (k : Fin n) :
    (k.val = 0 ∧ (State.init n cfg).kt k =
      { ctl := .thread mainTcb (.init 0), currentTid := tidMain, blocked := cfg.preemptive }) ∨
    (k.val ≠ 0 ∧ (State.init n cfg).kt k = { ctl := .kmain, blocked := cfg.preemptive }) := by
  by_cases hk : k.val = 0
  · exact .inl ⟨hk, by simp [State.init, hk]⟩
  · exact .inr ⟨hk, by simp [State.init, hk]⟩

theorem State.init_heap (p : Ptr) : (State.init n cfg).heap p =
    if p = mainTcb then some { tid := tidMain, stackAllocated := false, state := .running }
    else none := rfl

theorem State.init_tcbs (t : Tid) :
    (State.init n cfg).tcbs t = if t = tidMain then some mainTcb else none := rfl

theorem State.init_suspended (hn : 0 < n) (p : Ptr) : (State.init n cfg).suspended p = none := by
  by_cases hp : p = mainTcb
  · subst hp
    have : ∃ k, ((State.init n cfg).kt k).ctl.thread? = some mainTcb :=
      ⟨⟨0, hn⟩, by simp [State.init, Ctl.thread?]⟩
    simp [State.suspended, this]
  · simp [State.suspended, State.init_heap, hp]

theorem State.init_taskOk (k : Fin n) : ((State.init n cfg).kt k).TaskOk := by
  obtain ⟨-, h⟩ | ⟨-, h⟩ := State.init_kt_cases n cfg k <;> simp [h, KThread.TaskOk, Pc.task]

theorem State.init_lockInv (L : Lock) : LockInv (State.init n cfg) L := by
  intro k
  have ho : (State.init n cfg).owner L = none := rfl
  obtain ⟨-, h⟩ | ⟨-, h⟩ := State.init_kt_cases n cfg k <;>
    simp [h, ho, KThread.held, Pc.held]

theorem State.init_holds (c : Place n) (p : Ptr) :
    p ∈ (State.init n cfg).holds c ↔ p = mainTcb ∧ ∃ k, c = .exec k ∧ k.val = 0 := by
  cases c with
  | ready => simp [State.holds, State.init]
  | exec k =>
    obtain ⟨hk, h⟩ | ⟨hk, h⟩ := State.init_kt_cases n cfg k
    · simp [State.holds, State.exec, h, KThread.exec, hk]
    · simp [State.holds, State.exec, h, KThread.exec, hk]
  | hand k =>
    obtain ⟨hk, h⟩ | ⟨hk, h⟩ := State.init_kt_cases n cfg k <;>
      simp [State.holds, h, KThread.hand, Ctl.pc?, Pc.hand]
  | joinq q => by_cases hq : q = mainTcb <;> simp [State.holds, State.joinQueue, State.init, hq]
  | semq i => simp [State.holds, State.semQueue, State.init]

theorem State.init_placeInv (hn : 0 < n) : PlaceInv (State.init n cfg) where
  excl := by
    refine ⟨fun c => ?_, fun {c c' p} hp hp' => ?_⟩
    · cases c with
      | ready => simp [State.holds, State.init]
      | exec k => exact Option.toList_nodup _
      | hand k => exact Option.toList_nodup _
      | joinq q => by_cases hq : q = mainTcb <;> simp [State.holds, State.joinQueue, State.init, hq]
      | semq i => simp [State.holds, State.semQueue, State.init]
    · obtain ⟨-, k, rfl, hk⟩ := (State.init_holds c p).1 hp
      obtain ⟨-, k', rfl, hk'⟩ := (State.init_holds c' p).1 hp'
      rw [Fin.ext (hk.trans hk'.symm)]
  alive c p hp := by
    obtain ⟨rfl, k, rfl, hk⟩ := (State.init_holds c p).1 hp
    simp [State.stateOf, State.placeState, State.init, hk, KThread.execState, Pc.state]
  cover p st hp hst := by
    refine ⟨.exec ⟨0, hn⟩, (State.init_holds _ p).2 ⟨?_, _, rfl, rfl⟩⟩
    by_contra hne
    simp [State.stateOf, State.init_heap, hne] at hp
  bound p hp := by
    have : p ≠ mainTcb := by
      rintro rfl
      exact Nat.not_succ_le_zero _ hp
    simp [State.init_heap, this]

theorem State.init_tableInv : TableInv (State.init n cfg) where
  slot t p h := by
    by_cases ht : t = tidMain
    · obtain rfl : mainTcb = p := by simpa [State.init_tcbs, ht] using h
      exact ⟨_, rfl, ht.symm⟩
    · simp [State.init_tcbs, ht] at h
  tid p x h := by
    by_cases hp : p = mainTcb
    · obtain rfl : _ = x := by simpa [State.init_heap, hp] using h
      simp [State.init_tcbs, hp]
    · simp [State.init_heap, hp] at h
  cur k hk := by
    obtain ⟨-, h⟩ | ⟨-, h⟩ := State.init_kt_cases n cfg k
    · simp [State.currentTcb, State.exec, h, KThread.exec, State.init_tcbs, tidMain]
    · simp [h, KThread.names] at hk
  handing k hk := by
    obtain ⟨-, h⟩ | ⟨-, h⟩ := State.init_kt_cases n cfg k <;> simp [h] at hk
  locals k := by
    obtain ⟨-, h⟩ | ⟨-, h⟩ := State.init_kt_cases n cfg k <;> simp [h, Ctl.LocalsOk, Pc.curs]
  queue k := by
    obtain ⟨-, h⟩ | ⟨-, h⟩ := State.init_kt_cases n cfg k <;> simp [h, KThread.QueueOk]

theorem State.init_ctxInv (hn : 0 < n) : CtxInv (State.init n cfg) where
  saved p o h := by
    by_cases hp : p = mainTcb
    · subst hp
      have : ∃ k, ((State.init n cfg).kt k).ctl.thread? = some mainTcb :=
        ⟨⟨0, hn⟩, by simp [State.init, Ctl.thread?]⟩
      simp [State.context, this] at h
    · simp [State.context, State.init_heap, hp] at h
  handed k p r _ _ hr := by simp [State.init_suspended hn] at hr
  parked i p hp := by simp [State.semQueue, State.init] at hp

theorem State.init_not_joinsAt (hn : 0 < n) (p : Ptr) (t : Tid) :
    ¬ (State.init n cfg).JoinsAt p t := by
  rintro (⟨k, hk⟩ | hr)
  · obtain ⟨-, h⟩ | ⟨-, h⟩ := State.init_kt_cases n cfg k <;>
      simp [h, Ctl.joining, Pc.joins] at hk
  · simp [State.init_suspended hn] at hr

theorem State.init_joinQueue (q : Ptr) : (State.init n cfg).joinQueue q = [] := by
  by_cases hq : q = mainTcb <;> simp [State.joinQueue, State.init_heap, hq]

theorem State.init_joinInv (hn : 0 < n) : JoinInv (State.init n cfg) where
  unique p _ t h := absurd h (State.init_not_joinsAt hn p t)
  target p t h := absurd h (State.init_not_joinsAt hn p t)
  read k t tgt hk := by
    obtain ⟨-, h⟩ | ⟨-, h⟩ := State.init_kt_cases n cfg k <;> simp [h, Ctl.pc?, Pc.target] at hk
  parked q p hp := by simp [State.init_joinQueue] at hp
  handing k t hk := by
    rcases hk with hk | ⟨-, p, pret, -, hr⟩
    · obtain ⟨-, h⟩ | ⟨-, h⟩ := State.init_kt_cases n cfg k <;>
        simp [h, Ctl.pc?, Pc.parksJoin] at hk
    · simp [State.init_suspended hn] at hr
  woken p t pret q hr := by simp [State.init_suspended hn] at hr
  waited k t q hk := by
    obtain ⟨-, h⟩ | ⟨-, h⟩ := State.init_kt_cases n cfg k <;> simp [h, Ctl.pc?, Pc.waited] at hk
  passed k t q hk := by
    obtain ⟨-, h⟩ | ⟨-, h⟩ := State.init_kt_cases n cfg k <;> simp [h, Ctl.pc?, Pc.passed] at hk
  exiting q _ hq := absurd (State.init_joinQueue q) hq

theorem State.init_bitInv : BitInv (State.init n cfg) where
  size := by
    have hbv : (State.getNextTid (bitvecInit maxThreads)).2.nbytes = maxThreads / 8 ∧
        (State.getNextTid (bitvecInit maxThreads)).2.vec.length = maxThreads / 8 := by
      decide +kernel
    exact hbv
  lt t p h := by
    by_cases ht : t = tidMain
    · subst ht
      decide
    · simp [State.init_tcbs, ht] at h
  claim k t hk := by
    obtain ⟨-, h⟩ | ⟨-, h⟩ := State.init_kt_cases n cfg k <;>
      simp [h, KThread.claims, Ctl.pc?, Pc.claims] at hk
  claimUnique k k' t hk := by
    obtain ⟨-, h⟩ | ⟨-, h⟩ := State.init_kt_cases n cfg k <;>
      simp [h, KThread.claims, Ctl.pc?, Pc.claims] at hk
  bit _ t ht := by
    have hclaims (k : Fin n) : ((State.init n cfg).kt k).claims = none := by
      obtain ⟨-, h⟩ | ⟨-, h⟩ := State.init_kt_cases n cfg k <;>
        simp [h, KThread.claims, Ctl.pc?, Pc.claims]
    have hreleasing (k : Fin n) : ((State.init n cfg).kt k).releasing = none := by
      obtain ⟨-, h⟩ | ⟨-, h⟩ := State.init_kt_cases n cfg k <;>
        simp [h, KThread.releasing, Ctl.pc?, Pc.releasing]
    have hbits : ∀ t < maxThreads,
        bitvecGet (State.getNextTid (bitvecInit maxThreads)).2 t ≠ 0 ↔ t = tidMain := by
      decide +kernel
    have hbv : (State.init n cfg).bitvec = (State.getNextTid (bitvecInit maxThreads)).2 := rfl
    simp only [hclaims, hreleasing, State.init_tcbs, hbv]
    simpa using hbits t ht

theorem State.init_not_tearsDown (hn : 0 < n) (p : Ptr) : ¬ (State.init n cfg).TearsDown p := by
  rintro (⟨k, hk⟩ | hr)
  · obtain ⟨-, h⟩ | ⟨-, h⟩ := State.init_kt_cases n cfg k <;> simp [h, Ctl.tearing, Pc.tearing] at hk
  · simp [State.init_suspended hn] at hr

theorem State.init_teardownInv : TeardownInv (State.init n cfg) where
  awaited k o hk := by
    obtain ⟨-, h⟩ | ⟨-, h⟩ := State.init_kt_cases n cfg k <;> simp [h, Ctl.pc?, Pc.awaits] at hk
  freed h := by simp [State.init] at h

theorem State.init_inv (hn : 0 < n) : Inv (State.init n cfg) where
  task := State.init_taskOk
  lock := State.init_lockInv
  place := State.init_placeInv hn
  table := State.init_tableInv
  ctx := State.init_ctxInv hn
  join := State.init_joinInv hn
  bits := State.init_bitInv
  teardown := State.init_teardownInv

/-! ### Every step -/

theorem Trans.inv (h : Trans cfg s e s') (I : Inv s) (o : Admits s e) : Inv s' where
  task k := by
    by_cases hk : k = e.1
    · exact hk ▸ h.taskOk (I.task e.1)
    · exact h.kt_of_ne hk ▸ I.task k
  lock L := h.lockInv I.task (fun _ => .inl o.alloc) (fun _ _ => o.sem) (I.lock L)
  place := h.placeInv I o
  table := h.tableInv I o.alloc
  ctx := h.ctxInv I o
  join := h.joinInv I o
  bits := h.bitInv I o
  teardown := h.teardownInv I o

/-- The invariant says nothing about how a run stopped. -/
theorem Inv.of_halt (I : Inv s) (h : Option Halt) : Inv { s with halt := h } where
  task := I.task
  lock := I.lock
  place := ⟨I.place.excl, I.place.alive, I.place.cover, I.place.bound⟩
  table := ⟨I.table.slot, I.table.tid, I.table.cur, I.table.handing, I.table.locals,
    I.table.queue⟩
  ctx := ⟨I.ctx.saved, I.ctx.handed, I.ctx.parked⟩
  join := ⟨I.join.unique, I.join.target, I.join.read, I.join.parked, I.join.handing,
    I.join.woken, I.join.waited, I.join.passed, I.join.exiting⟩
  bits := ⟨I.bits.size, I.bits.lt, I.bits.claim, I.bits.claimUnique, I.bits.bit⟩
  teardown := ⟨I.teardown.awaited, I.teardown.freed⟩

/-- One event of a run that keeps to the preconditions. -/
theorem Inv.step (I : Inv s) (o : Admits s e) (h : s.step cfg e = some s') : Inv s' := by
  obtain rfl | rfl | h := State.step_cases h
  · exact I.of_halt _
  · exact I.of_halt _
  · exact h.inv I o

/-- The invariant holds in every run, up to the moment when `uthread_teardown` frees the control blocks of
threads that have not finished. -/
theorem inv_of_admits (hn : 0 < n) (hr : (machine n cfg).Reachable Admits s) : Inv s :=
  hr.invariant (State.init_inv hn) fun _ _ _ I o h => I.step o h

theorem AloneInv.freeOk (A : AloneInv s) : FreeOk s e := by
  obtain ⟨k, i⟩ := e
  cases i with
  | run f => exact fun p hc => A p (.inl ⟨k, by simp [hc, Ctl.tearing, Pc.tearing]⟩)
  | _ => trivial

/-- In a run that obeys the preconditions a thread in `uthread_teardown` is alone. -/
theorem inv_alone_of_reachable (hn : 0 < n) (hr : (machine n cfg).Reachable Obeys s) :
    Inv s ∧ AloneInv s := by
  refine hr.invariant (I := fun s => Inv s ∧ AloneInv s) ?_ ?_
  · exact ⟨State.init_inv hn, fun p hp => absurd hp (State.init_not_tearsDown hn p)⟩
  · rintro s e s' ⟨I, A⟩ o hs
    refine ⟨I.step ⟨o.keeps, A.freeOk⟩ hs, ?_⟩
    obtain rfl | rfl | ht := State.step_cases hs
    · exact A
    · exact A
    · exact ht.aloneInv I A o

theorem Obeys.admits (o : Obeys s e) (hn : 0 < n) (hr : (machine n cfg).Reachable Obeys s) : Admits s e :=
  ⟨o.keeps, (inv_alone_of_reachable hn hr).2.freeOk⟩

/-- The invariant holds in every state of every run that obeys the preconditions. -/
theorem inv_of_reachable (hn : 0 < n) (hr : (machine n cfg).Reachable Obeys s) : Inv s :=
  (inv_alone_of_reachable hn hr).1

end Uthread
