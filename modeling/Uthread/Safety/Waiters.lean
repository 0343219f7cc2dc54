import Uthread.Safety.Usage
import Uthread.Safety.Wakeup
import Uthread.Safety.Exitall

/-!
# The threads that wait at a semaphore

The queue of a semaphore is served in order: a post takes the thread at its head, and the others move up. The
semaphore is not initialised or destroyed as long as a thread waits there.

A thread that a `uthread_sem_post` has taken from the queue is on its way back to the check in
`uthread_sem_wait` until it has locked the mutex again: it is suspended there, in no queue of a semaphore and not
in the hands of a scheduler that is about to park it, or it is running again and about to lock the mutex.

## Main definitions

* `State.Returning`: where a woken thread is.
* `increments`, `wakes`: the posts on a semaphore, and the threads that they have taken from its queue.

## Main results

* `wokenInv_of_run`: the woken threads are on their way, each of them once.
* `sem_fifo`: the thread at position `m` of the queue is taken by the post with `m` posts before it.
-/

namespace Uthread

variable {n : ℕ} {cfg : Config} {s s' : State n} {e : Event n} {k : Fin n} {p : Ptr} {i : SemId}
  {h : List (State n × Event n)}

/-- A thread that is to check the counter of semaphore `i` again. -/
inductive State.Returning (s : State n) (i : SemId) (p : Ptr) : Prop
  | suspended (hs : s.suspended p = some (.semWoken i (some p))) (hq : p ∉ s.semQueue i)
      (hh : ∀ k, (s.kt k).hands = true → s.exec k ≠ some p)
  | resumed {k cur} (hc : (s.kt k).ctl = .thread p (.wait i (.resumed cur)))
  | relocks {k cur} (hc : (s.kt k).ctl = .thread p (.wait i (.relock cur)))

theorem State.Returning.uses (R : s.Returning i p) :
    (s.suspended p).bind Resume.uses = some i ∨ ∃ k, (s.kt k).ctl.pc?.bind Pc.uses = some i := by
  cases R with
  | suspended hs => exact .inl (by rw [hs]; rfl)
  | resumed hc => exact .inr ⟨_, by rw [hc]; rfl⟩
  | relocks hc => exact .inr ⟨_, by rw [hc]; rfl⟩

theorem State.Returning.semBusy (R : s.Returning i p) (P : PlaceInv s) : s.SemBusy i := by
  rcases R.uses with hs | ⟨k, hk⟩
  · refine .inr ⟨p, ?_, hs⟩
    by_contra hle
    have hnone := P.bound p (Nat.le_of_not_lt hle)
    obtain ⟨r, hr, -⟩ := Option.bind_eq_some_iff.1 hs
    exact State.heap_ne_none_of_suspended hr hnone
  · exact .inl ⟨k, .inl hk⟩

/-- The thread at the head of the queue is on its way once it has been taken out. -/
theorem Inv.suspended_of_semQueue (I : Inv s) (hp : p ∈ s.semQueue i) :
    s.suspended p = some (.semWoken i (some p)) ∧ ∀ k, s.exec k ≠ some p := by
  refine ⟨I.ctx.parked i p hp, fun k hk => ?_⟩
  have hne : Place.semq i ≠ Place.exec k := by simp
  exact I.place.excl.notMem_of_ne hp hne.symm (PlaceInv.mem_exec hk)

/-- A thread that continues after the context switch goes on to lock the mutex. -/
theorem Trans.resumed_next (ht : Trans cfg s e s') {cur : Option Ptr}
    (hc : (s.kt e.1).ctl = .thread p (.wait i (.resumed cur))) :
    (s'.kt e.1).ctl = .thread p (.wait i (.resumed cur)) ∨ (s'.kt e.1).ctl = .thread p (.wait i (.relock cur)) := by
  cases ht with
  | tick | deliver => exact .inl (by simpa using hc)
  | acquire h | insert h | parkJoin h | parkSem h =>
    rw [hc] at h
    cases h
  | release h => cases h <;> simp_all
  | quiet h =>
    cases h with
    | waitResumed hc' =>
      rw [hc] at hc'
      cases hc'
      exact .inr (by simp)
    | _ hc' => simp [hc] at hc'
  | signal h => cases h <;> simp_all
  | _ hc' => simp [hc] at hc'

/-- A thread that is about to lock the mutex stays so, unless it takes a step. -/
theorem Trans.relock_next (ht : Trans cfg s e s') {cur : Option Ptr}
    (hc : (s.kt e.1).ctl = .thread p (.wait i (.relock cur))) :
    (s'.kt e.1).ctl = .thread p (.wait i (.relock cur)) ∨ ∃ f, e.2 = .run f := by
  cases ht with
  | call hc' => simp [hc] at hc'
  | tick | deliver => exact .inl (by simpa using hc)
  | _ => exact .inr ⟨_, rfl⟩

/-- A step leaves a woken thread on its way, as long as it is not parked again, unless it locks the mutex. -/
theorem Trans.returning (ht : Trans cfg s e s') (I : Inv s) (o : Admits s e) (R : s.Returning i p)
    (hq : p ∉ s'.semQueue i) : s'.Returning i p ∨
      ∃ f cur, e.2 = .run f ∧ (s.kt e.1).ctl = .thread p (.wait i (.relock cur)) := by
  -- a thread that runs again and that another kernel thread executes
  have hother {k : Fin n} {pc : Pc} (hc : (s.kt k).ctl = .thread p pc) (hk : k ≠ e.1) :
      (s'.kt k).ctl = .thread p pc := by rw [ht.kt_of_ne hk, hc]
  cases R with
  | suspended hs hq₀ hh =>
    cases ht.suspends I o.alloc p with
    | same hsame =>
      refine .inl (.suspended (by rw [State.suspended_eq_context, hsame, ← State.suspended_eq_context, hs]) hq
        fun k hk hp => ?_)
      by_cases hke : k = e.1
      · subst hke
        rcases ht.hands_cases I hk hp with ⟨hk₀, hp₀, -⟩ | ⟨r, hc, -⟩ | hfin
        · exact hh _ hk₀ hp₀
        · rw [State.suspended_of_thread hc] at hs
          cases hs
        · rw [State.suspended_eq_context, ← hsame, ← State.suspended_eq_context, State.suspended_of_finished hfin] at hs
          cases hs
      · rw [ht.kt_of_ne hke] at hk
        exact hh k hk (ht.exec_of_ne I o.alloc hke ▸ hp)
    | saves hc =>
      rw [State.suspended_of_thread hc] at hs
      cases hs
    | @resumes c hc hc' hctx =>
      obtain hr : c.resume = .semWoken i (some p) := by simpa [State.suspended_eq_context, hctx] using hs
      have hk : (s'.kt e.1).ctl = .thread p (.wait i (.resumed (some p))) := by
        rw [hc', hr]
        rfl
      exact .inl (.resumed hk)
    | creates hc hp =>
      exact absurd (I.place.bound p (Nat.le_of_eq hp.symm)) (State.heap_ne_none_of_suspended hs)
    | frees hc hnone =>
      have hheap := State.heap_ne_none_of_suspended hs
      obtain ⟨f, hf⟩ := ht.run_of_heap_ne (q := p) (by rw [hnone]; exact hheap.symm)
      obtain ⟨x, hx⟩ := Option.ne_none_iff_exists'.1 hheap
      have hfree := o.free
      rw [show e = (e.1, .run f) from Prod.ext rfl hf] at hfree
      have hne : p ≠ _ := fun hp => by
        rw [hp, State.suspended_of_thread hc] at hs
        cases hs
      have hfin := hfree _ hc p x.state hne (by simp [State.stateOf, hx])
      rw [State.suspended_of_finished (by simp [State.stateOf, hx, hfin])] at hs
      cases hs
  | @resumed k cur hc =>
    by_cases hk : k = e.1
    · subst hk
      rcases ht.resumed_next hc with hc' | hc'
      · exact .inl (.resumed hc')
      · exact .inl (.relocks hc')
    · exact .inl (.resumed (hother hc hk))
  | @relocks k cur hc =>
    by_cases hk : k = e.1
    · subst hk
      rcases ht.relock_next hc with hc' | ⟨f, hf⟩
      · exact .inl (.relocks hc')
      · exact .inr ⟨f, cur, hf, hc⟩
    · exact .inl (.relocks (hother hc hk))

/-- No step parks a woken thread before it has checked the counter. -/
theorem Trans.notMem_semQueue (ht : Trans cfg s e s') (I : Inv s) (R : s.Returning i p) : p ∉ s'.semQueue i := by
  -- a thread that runs again is in no queue, and in no other hands
  have hrunning {k : Fin n} {pc : Pc} (hc : (s.kt k).ctl = .thread p pc) : p ∉ s'.semQueue i := by
    intro hp
    rcases ht.mem_semQueue I hp with hp₀ | ⟨hc', -⟩
    · exact (I.suspended_of_semQueue hp₀).2 k (State.exec_thread hc)
    · have hexec : s.exec e.1 = some p := by simp [State.exec, KThread.exec, SchedPc.moving, hc']
      exact I.place.not_executed hexec (by simp [hc', Ctl.thread?]) k (by simp [hc, Ctl.thread?])
  cases R with
  | suspended hs hq hh =>
    intro hp
    rcases ht.mem_semQueue I hp with hp₀ | ⟨hc, -⟩
    · exact hq hp₀
    · exact hh e.1 (by simp [KThread.hands, hc]) (by simp [State.exec, KThread.exec, SchedPc.moving, hc])
  | resumed hc => exact hrunning hc
  | relocks hc => exact hrunning hc

/-- The thread that a post takes from the queue is on its way. -/
theorem Trans.returning_of_wake (ht : Trans cfg s e s') (I : Inv s) (o : Admits s e) {p' : Ptr} {x : Sem}
    {rest : List Ptr} (hc : (s.kt e.1).ctl = .thread p' (.post i .body)) (hx : s.sems i = some x)
    (hq : x.queue = p :: rest) (hs : s'.sems i = some ⟨intIncr x.counter, rest⟩) : s'.Returning i p := by
  have hmem : p ∈ s.semQueue i := by simp [State.semQueue, hx, hq]
  obtain ⟨hsus, hexec⟩ := I.suspended_of_semQueue hmem
  have hnodup : (p :: rest).Nodup := by
    have h := I.place.excl.nodup (.semq i)
    simpa [State.holds, State.semQueue, hx, hq] using h
  have hsus' : s'.suspended p = some (.semWoken i (some p)) := by
    rw [← hsus, State.suspended_eq_context, State.suspended_eq_context]
    cases ht.suspends I o.alloc p with
    | same h => rw [h]
    | saves h | resumes h | creates h | frees h => simp [hc] at h
  refine .suspended hsus' (by simpa [State.semQueue, hs] using (List.nodup_cons.1 hnodup).1) fun k hk hp => ?_
  by_cases hke : k = e.1
  · subst hke
    rcases ht.hands_cases I hk hp with ⟨-, hp₀, -⟩ | ⟨r, hc', -⟩ | hfin
    · exact hexec _ hp₀
    · simp [hc] at hc'
    · rw [State.suspended_of_finished hfin] at hsus'
      cases hsus'
  · exact hexec k (ht.exec_of_ne I o.alloc hke ▸ hp)

/-! ### The invariant -/

/-- The threads that were woken are on their way to the check, each of them once. -/
structure WokenInv (h : List (State n × Event n)) (s : State n) (i : SemId) : Prop where
  nodup : (woken h i).Nodup
  returning : ∀ p ∈ woken h i, s.Returning i p

theorem woken_cons : woken ((s, e) :: h) i = s.woken i (woken h i) e := rfl

theorem WokenInv.step (W : WokenInv h s i) (I : Inv s) (o : Admits s e) (ht : Trans cfg s e s') :
    WokenInv ((s, e) :: h) s' i := by
  have hback {p : Ptr} (hp : p ∈ woken h i) := ht.returning I o (W.returning p hp)
    (ht.notMem_semQueue I (W.returning p hp))
  -- nobody locks the mutex again
  have hkeep (hw : ∀ w, s.woken i w e = w) : WokenInv ((s, e) :: h) s' i := by
    have hsame : woken ((s, e) :: h) i = woken h i := hw _
    refine ⟨hsame ▸ W.nodup, fun p hp => ?_⟩
    rcases hback (hsame ▸ hp) with R | ⟨f, cur, hf, hc⟩
    · exact R
    · have hw₁ := hw [p]
      rw [show e = (e.1, .run f) from Prod.ext rfl hf] at hw₁
      simp [State.woken, hc] at hw₁
  cases ht.semAct (I.task e.1) (I.table.queue e.1) i with
  | frame hs hw => exact hkeep hw
  | init hc hs hrun hw => exact ⟨by rw [woken_cons, hw]; exact List.nodup_nil, by simp [woken_cons, hw]⟩
  | @destroy p hc hs hrun =>
    have hnone : woken h i = [] := by
      refine List.eq_nil_iff_forall_not_mem.2 fun q hq => ?_
      obtain ⟨f, hf⟩ := hrun
      have hok := o.sem
      rw [show e = (e.1, .run f) from Prod.ext rfl hf] at hok
      exact hok (.semDestroy i) (by simp [hc, Ctl.pc?]) ((W.returning q hq).semBusy I.place)
    have hw : woken ((s, e) :: h) i = [] := by
      obtain ⟨f, hf⟩ := hrun
      rw [woken_cons, hnone, show e = (e.1, .run f) from Prod.ext rfl hf]
      simp [State.woken, hc]
    exact ⟨hw ▸ List.nodup_nil, by simp [hw]⟩
  | bump hc hx hq hs hw => exact hkeep hw
  | @wake p' x q rest hc hx hq hs hw =>
    have hcons : woken ((s, e) :: h) i = q :: woken h i := hw _
    have hmem : q ∈ s.semQueue i := by simp [State.semQueue, hx, hq]
    have hnot : q ∉ woken h i := fun hq' => by
      cases W.returning q hq' with
      | suspended _ hq₀ => exact hq₀ hmem
      | resumed hc' | relocks hc' => exact (I.suspended_of_semQueue hmem).2 _ (State.exec_thread hc')
    refine ⟨hcons ▸ List.nodup_cons.2 ⟨hnot, W.nodup⟩, fun p hp => ?_⟩
    rcases List.mem_cons.1 (hcons ▸ hp) with rfl | hp
    · exact ht.returning_of_wake I o hc hx hq hs
    · rcases hback hp with R | ⟨f, cur, -, hc'⟩
      · exact R
      · simp [hc] at hc'
  | @relock p₀ cur hc ho hs hw =>
    have herase : woken ((s, e) :: h) i = (woken h i).erase p₀ := hw _
    refine ⟨herase ▸ W.nodup.erase p₀, fun p hp => ?_⟩
    obtain ⟨hne, hp⟩ := W.nodup.mem_erase_iff.1 (herase ▸ hp)
    rcases hback hp with R | ⟨f, cur', -, hc'⟩
    · exact R
    · -- the thread that locks it is another one
      have hp₀ : p₀ = p ∧ cur = cur' := by simpa using hc.symm.trans hc'
      exact absurd hp₀.1.symm hne
  | block hx h0 hs hw => exact hkeep hw
  | dec hc hx h0 hs hw => exact hkeep hw
  | park hk hx hs hw => exact hkeep hw

/-- The woken threads are on their way. -/
theorem wokenInv_of_run (hn : 0 < n) (hr : (machine n cfg).Run Admits h s) (i : SemId) : WokenInv h s i := by
  refine hr.history_invariant (I := fun h s => WokenInv h s i) ⟨by simp [woken], by simp [woken]⟩ ?_
  intro h s e s' hr W o hs
  have hstop {y : Halt} (hy : s' = { s with halt := some y }) : WokenInv ((s, e) :: h) s' i := by
    have hw : woken ((s, e) :: h) i = woken h i := State.woken_of_halt hs (by simp [hy]) _
    subst hy
    refine ⟨hw ▸ W.nodup, fun p hp => ?_⟩
    cases W.returning p (hw ▸ hp) with
    | suspended hs hq hh => exact .suspended hs hq hh
    | resumed hc => exact .resumed hc
    | relocks hc => exact .relocks hc
  obtain hs' | hs' | ht := State.step_cases hs
  · exact hstop hs'
  · exact hstop hs'
  · exact W.step (inv_of_admits hn hr.reachable) o ht

/-! ### The order in which threads are woken -/

/-- The event is the increment of a post on semaphore `i`. -/
def State.increments (s : State n) (i : SemId) : Event n → Bool
  | (k, .run _) =>
    match (s.kt k).ctl with
    | .thread _ (.post j .body) => j = i
    | _ => false
  | _ => false

/-- The thread that an event takes from the queue of semaphore `i`. -/
def State.wakes (s : State n) (i : SemId) (e : Event n) : Option Ptr :=
  if s.increments i e then (s.semQueue i).head? else none

/-- How many posts have incremented the counter of a semaphore. -/
def increments (h : List (State n × Event n)) (i : SemId) : ℕ := h.countP fun x => x.1.increments i x.2

/-- The threads that were taken from the queue of a semaphore, the first one first. -/
def wakes (h : List (State n × Event n)) (i : SemId) : List Ptr :=
  (h.filterMap fun x => x.1.wakes i x.2).reverse

theorem increments_cons : increments ((s, e) :: h) i = increments h i + if s.increments i e then 1 else 0 := by
  rw [increments, List.countP_cons, ← increments]

theorem wakes_cons : wakes ((s, e) :: h) i = wakes h i ++ (s.wakes i e).toList := by
  cases hw : s.wakes i e <;> simp [wakes, hw]

/-- An event that wakes nobody is no increment while threads wait. -/
theorem State.increments_eq_false (hw : ∀ w, s.woken i w e = w) (hne : s.semQueue i ≠ []) :
    s.increments i e = false := by
  have hw₁ := hw []
  obtain ⟨k, j⟩ := e
  cases j with
  | run f =>
    simp only [State.increments]
    split
    · next hc =>
      simp only [State.woken, hc, List.append_nil] at hw₁
      refine decide_eq_false fun hji => ?_
      rw [if_pos hji, Option.toList_eq_nil_iff, List.head?_eq_none_iff] at hw₁
      exact hne hw₁
    · rfl
  | _ => rfl

/-- A post takes the thread at the head of the queue; other steps leave the threads that wait where they are, as
long as the semaphore exists. -/
theorem Trans.semQueue_cases (ht : Trans cfg s e s') (I : Inv s) (o : SemOk s e) (hne : s.semQueue i ≠ []) :
    (s.increments i e = false ∧ s.semQueue i <+: s'.semQueue i) ∨
      s.increments i e = true ∧ ∃ q, s.semQueue i = q :: s'.semQueue i := by
  obtain ⟨p, hp⟩ := List.exists_mem_of_ne_nil _ hne
  have hbusy : s.SemBusy i := by
    have hs := I.ctx.parked i p hp
    refine .inr ⟨p, ?_, by rw [hs]; rfl⟩
    by_contra hle
    exact State.heap_ne_none_of_suspended hs (I.place.bound p (Nat.le_of_not_lt hle))
  have hrun (hr : ∃ f, e.2 = .run f) : ∃ f, e = (e.1, .run f) := hr.imp fun f hf => Prod.ext rfl hf
  -- a step that is no increment, and leaves the queue as it is
  have hsame (hs : s'.sems i = s.sems i) (hw : ∀ w, s.woken i w e = w) :
      s.increments i e = false ∧ s.semQueue i <+: s'.semQueue i :=
    ⟨State.increments_eq_false hw hne, by rw [State.semQueue, State.semQueue, hs]⟩
  cases ht.semAct (I.task e.1) (I.table.queue e.1) i with
  | frame hs hw => exact .inl (hsame hs hw)
  | @init p' v hc hs hr =>
    obtain ⟨f, he⟩ := hrun hr
    rw [he] at o
    exact absurd hbusy (o (.semInit i v) (by rw [hc]; rfl)).2
  | destroy hc hs hr => exact absurd hbusy (o.not_semBusy (by rw [hc]; rfl) hr)
  | bump hc hx hq => exact absurd (by simp [State.semQueue, hx, hq]) hne
  | @wake p' x q rest hc hx hq hs hw =>
    refine .inr ⟨?_, q, by simp [State.semQueue, hx, hq, hs]⟩
    have hw₁ := hw []
    obtain ⟨k, j⟩ := e
    cases j with
    | run f => simp [State.increments, hc]
    | _ => simp [State.woken] at hw₁
  | relock hc ho hs hw =>
    refine .inl ⟨?_, by rw [State.semQueue, State.semQueue, hs]⟩
    obtain ⟨k, j⟩ := e
    cases j <;> simp [State.increments, hc]
  | block hx h0 hs hw => exact .inl (hsame hs hw)
  | dec hc hx h0 hs hw =>
    refine .inl ⟨?_, by simp [State.semQueue, hx, hs]⟩
    obtain ⟨k, j⟩ := e
    cases j <;> simp [State.increments, hc]
  | park hk hx hs hw =>
    refine .inl ⟨?_, by simp [State.semQueue, hx, hs]⟩
    obtain ⟨k, j⟩ := e
    cases j with
    | run f =>
      simp only [State.increments]
      split
      · next hc => simp [KThread.parks, hc] at hk
      · rfl
    | _ => rfl

/-- Where a thread is that was at position `m` of the queue of a semaphore. -/
def Served (h' : List (State n × Event n)) (s' : State n) (i : SemId) (p : Ptr) (m : ℕ) : Prop :=
  if increments h' i ≤ m then
    (s'.semQueue i)[m - increments h' i]? = some p ∧ (wakes h' i).length = increments h' i
  else (wakes h' i)[m]? = some p

theorem Served.step {h' : List (State n × Event n)} {m : ℕ} (S : Served h' s i p m)
    (hq : s.semQueue i ≠ [] → (s.increments i e = false ∧ s.semQueue i <+: s'.semQueue i) ∨
      s.increments i e = true ∧ ∃ q, s.semQueue i = q :: s'.semQueue i) :
    Served ((s, e) :: h') s' i p m := by
  unfold Served at S ⊢
  rw [increments_cons, wakes_cons]
  split_ifs at S with hle
  · obtain ⟨hget, hlen⟩ := S
    obtain ⟨hlt, -⟩ := List.getElem?_eq_some_iff.1 hget
    rcases hq (List.ne_nil_of_length_pos (Nat.zero_lt_of_lt hlt)) with ⟨hinc, hpre⟩ | ⟨hinc, q, hcons⟩
    · simp only [hinc, State.wakes, Bool.false_eq_true, if_false, Option.toList_none, List.append_nil, Nat.add_zero]
      obtain ⟨l, hl⟩ := hpre
      rw [if_pos hle, ← hl, List.getElem?_append_left hlt]
      exact ⟨hget, hlen⟩
    · have hw : s.wakes i e = some q := by simp [State.wakes, hinc, hcons]
      rw [hinc, hw, Option.toList_some, List.length_append, hlen]
      simp only [if_true, List.length_singleton, and_true]
      split_ifs with hle'
      · rw [hcons] at hget
        rwa [show m - increments h' i = m - (increments h' i + 1) + 1 by omega, List.getElem?_cons_succ] at hget
      · obtain rfl : m = increments h' i := by omega
        rw [hcons, Nat.sub_self, List.getElem?_cons_zero] at hget
        rw [List.getElem?_append_right (Nat.le_of_eq hlen), hlen, Nat.sub_self]
        exact hget
  · rw [if_neg (by split <;> omega), List.getElem?_append_left (List.getElem?_eq_some_iff.1 S).1]
    exact S

/-- **The queue of a semaphore is served in order.** Of the posts on a semaphore that follow, a thread at
position `m` of the queue is taken by the one with `m` posts before it, whoever comes to wait in the meantime. -/
theorem sem_fifo (hn : 0 < n) {h' : List (State n × Event n)} (hr : (machine n cfg).Run Obeys (h' ++ h) s')
    (hs : (machine n cfg).Run Obeys h s) {m : ℕ} (hp : (s.semQueue i)[m]? = some p) :
    (increments h' i ≤ m → (s'.semQueue i)[m - increments h' i]? = some p) ∧
      (m < increments h' i → (wakes h' i)[m]? = some p) := by
  have hserved : Served h' s' i p m := by
    induction h' generalizing s' with
    | nil =>
      obtain rfl := hr.state_unique hs
      simpa [Served, increments, wakes] using hp
    | cons x h' ih =>
      cases hr with
      | @step _ s₁ _ e hr o hstep =>
        refine (ih hr).step fun hne => ?_
        have I := inv_of_reachable hn hr.reachable
        have hstop {y : Halt} (hy : s' = { s₁ with halt := some y }) :
            s₁.increments i e = false ∧ s₁.semQueue i <+: s'.semQueue i := by
          refine ⟨State.increments_eq_false (State.woken_of_halt hstep (by simp [hy])) hne, ?_⟩
          rw [hy]
          exact List.prefix_refl _
        obtain hs' | hs' | ht := State.step_cases hstep
        · exact .inl (hstop hs')
        · exact .inl (hstop hs')
        · exact ht.semQueue_cases I o.sem hne
  unfold Served at hserved
  refine ⟨fun hle => ?_, fun hlt => ?_⟩
  · rw [if_pos hle] at hserved
    exact hserved.1
  · rwa [if_neg (Nat.not_le_of_lt hlt)] at hserved

/-- Threads `1` and `2` wait in this order, and the main thread posts twice: thread `2` is taken by the second
post. -/
theorem sem_fifo_second : ∃ (h' h : List (State 1 × Event 1)) (s s' : State 1),
    (machine 1 ⟨0⟩).Run Obeys (h' ++ h) s' ∧ s.semQueue 0 = [1, 2] ∧ increments h' 0 = 2 ∧
      (wakes h' 0)[1]? = some 2 := by
  let fork : List (Event 1) := [(0, .call (.op (.create false)))] ++ runs 0 12
  let post : List (Event 1) := [(0, .call (.op (.semPost 0)))]
  let es : List (Event 1) := runs 0 2 ++ [(0, .call (.op (.semInit 0 0)))] ++ runs 0 3 ++ fork ++ fork ++
    [(0, .call .yield)] ++ runs 0 24 ++ [(0, .call (.op (.semWait 0)))] ++ runs 0 25 ++
    [(0, .call (.op (.semWait 0)))] ++ runs 0 22
  let M := machine 1 ⟨0⟩
  have hx : (M.exec Obeys [] M.init es).any (fun x => x.2.semQueue 0 = [1, 2] ∧
      (M.exec Obeys x.1 x.2 (post ++ runs 0 12 ++ post ++ runs 0 3)).any
        fun y => increments (y.1.take 17) 0 = 2 ∧ y.1.length = 17 + x.1.length) = true := by decide +kernel
  obtain ⟨⟨h, s⟩, hs, hx⟩ := Option.any_eq_true _ _ |>.1 hx
  obtain ⟨hq, hy⟩ := of_decide_eq_true hx
  obtain ⟨⟨h₁, s'⟩, hs', hy⟩ := Option.any_eq_true _ _ |>.1 hy
  obtain ⟨hinc, hlen⟩ := of_decide_eq_true hy
  have hr : M.Run Obeys h s := .of_exec hs
  have hr' : M.Run Obeys h₁ s' := hr.exec hs'
  obtain ⟨h', hh'⟩ := EventMachine.exec_suffix hs'
  obtain rfl : h' ++ h = h₁ := hh'
  rw [List.take_left' (by simpa using hlen)] at hinc
  refine ⟨h', h, s, s', hr', hq, hinc, (sem_fifo Nat.one_pos hr' hr (m := 1) ?_).2 (by omega)⟩
  rw [hq]
  rfl

end Uthread
