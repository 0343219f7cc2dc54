import Uthread.Client.BoundedBuffer
import Uthread.Safety.Deadlock
import Uthread.Safety.Lifecycle

/-!
# The bounded buffer at rest

When all the kernel threads wait for the ready queue and nothing is in it, the program of `Client.Buffer` has come
to its natural end: nobody waits for `mutex`, and there are not both producers that wait for a free slot and
consumers that wait for an item. If some wait for a slot the buffer is full, and if some wait for an item it is
empty. So the program does not deadlock over the library.

## Main definitions

* `PointInv`: the points of the threads that have not begun, or have finished.
* `BufferRests`: the program at rest.

## Main results

* `buffer_rests`.
-/

namespace Uthread

variable {n : ℕ} {cfg : Config} {S : ℕ} {producing : Ptr → Bool} {x x' : SystemState n Slots BufferPc}
  {s s' : State n} {e : Event n} {k : Fin n} {p : Ptr} {h : List (SystemState n Slots BufferPc × SystemEvent n)}

/-! ### Threads that have finished -/

/-- A step allocates no address, or the thread at the new address is ready afterwards. -/
theorem Trans.fresh_cases (ht : Trans cfg s e s') (ha : AllocOk e) :
    s'.fresh = s.fresh ∨ (s'.fresh = s.fresh + 1 ∧ s'.stateOf s.fresh = some .ready) := by
  cases ht with
  | signal h => cases h <;> exact .inl rfl
  | createBody hc => exact .inr ⟨rfl, by simp [State.stateOf, State.goto, State.setK, State.newTcb]⟩
  | createNoStack => exact absurd ha (by simp [AllocOk])
  | _ => exact .inl rfl

/-- A thread that does not exist, or has finished. -/
def State.Over (s : State n) (p : Ptr) : Prop := p < s.fresh ∧ ∀ st, s.stateOf p = some st → st = .finished

/-- A thread is over after a step if it was before, unless it finishes in that step. -/
theorem Trans.over_cases (ht : Trans cfg s e s') (hn : 0 < n) {h : List (State n × Event n)}
    (hr : (machine n cfg).Run Obeys h s) (ha : AllocOk e) (hf : s'.infoFreed = false) (ho : s'.Over p) :
    s.Over p ∨ ∃ v, s.InCall p (.op (.exit v), false) := by
  obtain ⟨hlt, hover⟩ := ho
  have hlt₀ : p < s.fresh := by
    rcases ht.fresh_cases ha with hfr | ⟨hfr, hst⟩
    · exact hfr ▸ hlt
    · by_contra hle
      obtain rfl : p = s.fresh := Nat.eq_of_lt_succ_of_not_lt (hfr ▸ hlt) hle
      cases hover _ hst
  rcases ht.moves hn hr ha p with hsame | hm
  · exact .inl ⟨hlt₀, fun st hst => hover st (hsame.trans hst)⟩
  · generalize hst : s.stateOf p = a at hm
    generalize hst' : s'.stateOf p = a' at hm
    cases hm with
    | @exits v hc => exact .inr ⟨v, .inl ⟨e.1, by simp [hc, Ctl.inside, Pc.inside]⟩⟩
    | destroyed => exact .inl ⟨hlt₀, fun st h => Option.some.inj (h.symm.trans hst)⟩
    | freed hc =>
      rcases ht.table_cases ha with hsame | hedit
      · have hnone := hsame.tid p
        simp only [State.stateOf, Option.map_eq_none_iff] at hst'
        rw [hst', Option.map_none, eq_comm, Option.map_eq_none_iff] at hnone
        simp [State.stateOf, hnone] at hst
      · cases hedit with
        | create hc' | destroy hc' => simp [hc] at hc'
        | free => cases hf
    | _ => cases hover _ hst'

/-! ### The program points -/

theorem bufferCall_idle {c : Call} {y q : BufferPc} (hq : bufferCall S y c = some q)
    (hy : y = .done ∨ ∃ num, y = .main num) : q = .done ∨ ∃ num, q = .main num := by
  cases c with
  | yield | self => exact Option.some.inj hq ▸ hy
  | teardown =>
    simp only [bufferCall] at hq
    split_ifs at hq
    exact Option.some.inj hq ▸ hy
  | op o =>
    rcases hy with rfl | ⟨num, rfl⟩
    · cases hq
    · simp only [bufferCall] at hq
      unfold mainCall at hq
      split at hq
      case h_7 => cases hq
      all_goals
        try split_ifs at hq
        obtain rfl := Option.some.inj hq
        simp

theorem bufferCall_exit {v : Val} {y q : BufferPc} (hq : bufferCall S y (.op (.exit v)) = some q) : q = .done := by
  cases y with
  | main num =>
    simp only [bufferCall] at hq
    unfold mainCall at hq
    split at hq <;> simp_all
  | producer y =>
    obtain ⟨item, ⟨-, h, -⟩ | ⟨-, h, -⟩ | ⟨-, h, -⟩ | ⟨-, h, -⟩ | ⟨-, -, h⟩⟩ := ProducerPc.call_cases hq
    all_goals first | exact h | cases h
  | consumer y =>
    obtain ⟨-, h, -⟩ | ⟨-, h, -⟩ | ⟨item, ⟨-, h, -⟩ | ⟨-, h, -⟩ | ⟨-, -, h⟩⟩ := ConsumerPc.call_cases hq
    all_goals first | exact h | cases h
  | done => cases hq

theorem bufferExec_idle {m : Slots} {y : BufferPc} {i : ℤ} (hy : y = .done ∨ ∃ num, y = .main num) :
    bufferExec S m y i = none := by
  rcases hy with rfl | ⟨num, rfl⟩ <;> rfl

/-- The points of the main thread, of the threads that the library knows nothing of and of those that it has done
with. -/
structure PointInv (producing : Ptr → Bool) (S : ℕ) (x : SystemState n Slots BufferPc) : Prop where
  main : x.point mainTcb = .done ∨ ∃ num, x.point mainTcb = .main num
  fresh : ∀ p, x.lib.fresh ≤ p → x.point p = (bufferClient S producing).start p
  exits : ∀ p v b, x.lib.InCall p (.op (.exit v), b) → x.point p = .done
  finished : x.lib.infoFreed = false → ∀ p, x.lib.Over p → x.point p = .done

namespace PointInv

theorem init (hn : 0 < n) : PointInv producing S (systemMachine n cfg (bufferClient S producing)).init where
  main := .inr ⟨0, by simp [systemMachine, bufferClient]⟩
  fresh p _ := rfl
  exits p v b hin := absurd hin (State.init_not_inCall hn p _)
  finished _ p ho := by
    obtain ⟨hlt, hover⟩ := ho
    obtain rfl : p = mainTcb := Nat.lt_one_iff.mp hlt
    cases hover .running rfl

variable (X : PointInv producing S x)
include X

/-- A thread in user code goes on to another point. -/
theorem update (I : Inv x.lib) {r : Ret} {q : BufferPc} (m : Slots) (hc : (x.lib.kt k).ctl = .thread p (.user r))
    (hmain : p = mainTcb → q = .done ∨ ∃ num, q = .main num) :
    PointInv producing S { x with mem := m, point := Function.update x.point p q } := by
  obtain ⟨y, hy, hrun, -⟩ := I.running_of_user hc
  have hother {p' : Ptr} (hne : p' ≠ p) : Function.update x.point p q p' = x.point p' := by
    rw [Function.update_of_ne hne]
  constructor
  case main =>
    show Function.update x.point p q mainTcb = .done ∨ ∃ num, Function.update x.point p q mainTcb = .main num
    by_cases hp : mainTcb = p
    · rw [← hp, Function.update_self]
      exact hmain hp.symm
    · rw [hother hp]
      exact X.main
  case fresh =>
    intro p' hle
    have hne : p' ≠ p := by
      rintro rfl
      simp [I.place.bound p' hle] at hy
    exact (hother hne).trans (X.fresh p' hle)
  case exits =>
    intro p' v b hin
    have hne : p' ≠ p := by
      rintro rfl
      exact I.not_inCall_of_user hc _ hin
    exact (hother hne).trans (X.exits p' v b hin)
  case finished =>
    intro hf p' ho
    have hne : p' ≠ p := by
      rintro rfl
      cases ho.2 .running (by simp [State.stateOf, hy, hrun])
    exact (hother hne).trans (X.finished hf p' ho)

/-- A step of the library. -/
theorem trans (hn : 0 < n) {h : List (State n × Event n)} (hr : (machine n cfg).Run Obeys h x.lib) (ha : AllocOk e)
    (ht : Trans cfg x.lib e s')
    (hcall : ∀ v r p, e.2 = .call (.op (.exit v)) → (x.lib.kt e.1).ctl = .thread p (.user r) → x.point p = .done) :
    PointInv producing S { x with lib := s' } := by
  have I := inv_of_reachable hn hr.reachable
  constructor
  case main => exact X.main
  case fresh => exact fun p hle => X.fresh p (ht.fresh_le.trans hle)
  case exits =>
    intro p v b hin
    cases ht.inCall_cases I ha hin with
    | stays hin => exact X.exits p v b hin
    | call he hc => exact hcall v _ p he hc
    | counts he hc hpc =>
      unfold Pc.counts at hpc
      split at hpc <;> cases hpc
  case finished =>
    intro hf p ho
    rcases ht.over_cases hn hr ha hf ho with ho | ⟨v, hin⟩
    · exact X.finished (ht.infoFreed_mono hf) p ho
    · exact X.exits p v false hin

theorem step (hn : 0 < n) {h : List (State n × Event n)} (hr : (machine n cfg).Run Obeys h x.lib)
    {ev : SystemEvent n} (ha : SystemEvent.lift (fun _ e => AllocOk e) x ev)
    (hs : (systemMachine n cfg (bufferClient S producing)).step x ev = some x') : PointInv producing S x' := by
  have I := inv_of_reachable hn hr.reachable
  cases SystemState.step_cases hs with
  | @call k c p r q s' hc hq hlib =>
    have X' := X.update I x.mem hc fun hp => bufferCall_idle hq (hp ▸ X.main)
    obtain rfl | rfl | ht := State.step_cases hlib
    · exact ⟨X'.main, X'.fresh, X'.exits, X'.finished⟩
    · exact ⟨X'.main, X'.fresh, X'.exits, X'.finished⟩
    · refine X'.trans hn hr (e := (k, .call c)) trivial ht fun v r' p' he hc' => ?_
      obtain rfl : c = .op (.exit v) := Input.call.inj he
      obtain rfl : p' = p := (Ctl.thread.inj (hc'.symm.trans hc)).1
      have hq : q = .done := bufferCall_exit hq
      simp [hq]
  | lib he hlib =>
    obtain rfl | rfl | ht := State.step_cases hlib
    · exact ⟨X.main, X.fresh, X.exits, X.finished⟩
    · exact ⟨X.main, X.fresh, X.exits, X.finished⟩
    · exact X.trans hn hr ha ht fun v _ _ hcall => absurd hcall (he _)
  | @user k i p r m q hh hc hq =>
    refine X.update I m hc fun hp => ?_
    rw [show (bufferClient S producing).exec = bufferExec S from rfl, bufferExec_idle (hp ▸ X.main)] at hq
    cases hq

end PointInv

theorem pointInv_of_run (hn : 0 < n)
    (hr : (systemMachine n cfg (bufferClient S producing)).Run (SystemEvent.lift Obeys) h x) :
    PointInv producing S x := by
  induction hr with
  | init => exact .init hn
  | @step h x x' ev hr o hs ih =>
    obtain ⟨hl, hlib⟩ := lib_run hr
    refine ih.step hn hlib ?_ hs
    cases ev with
    | lib e => exact o.alloc
    | user => trivial

/-! ### The threads at rest -/

theorem State.suspended_of_idle (hidle : ∀ k, (s.kt k).ctl = .sched .deqWait) {a : Call × Bool} (hp : s.InCall p a) :
    (s.suspended p).bind Resume.inside = some a := by
  rcases hp with ⟨k, hk⟩ | hs
  · simp [hidle, Ctl.inside] at hk
  · exact hs

theorem bufferCall_wait {i : SemId} {y q : BufferPc} (hq : bufferCall S y (.op (.semWait i)) = some q) :
    (i = semEmpty ∧ ∃ item, y = .producer (.waitEmpty item)) ∨ (i = semFull ∧ y = .consumer .waitFull) ∨
      (i = semMutex ∧ y.token ≠ none) := by
  cases y with
  | main num =>
    simp only [bufferCall] at hq
    unfold mainCall at hq
    split at hq <;> simp_all
  | producer y =>
    obtain ⟨item, ⟨rfl, h, -⟩ | ⟨rfl, h, -⟩ | ⟨-, h, -⟩ | ⟨-, h, -⟩ | ⟨-, ⟨v, h⟩, -⟩⟩ := ProducerPc.call_cases hq
    · exact .inl ⟨Op.semWait.inj h, item, rfl⟩
    · exact .inr (.inr ⟨Op.semWait.inj h, by simp [BufferPc.token]⟩)
    all_goals cases h
  | consumer y =>
    obtain ⟨rfl, h, -⟩ | ⟨rfl, h, -⟩ | ⟨item, ⟨-, h, -⟩ | ⟨-, h, -⟩ | ⟨-, ⟨v, h⟩, -⟩⟩ := ConsumerPc.call_cases hq
    · exact .inr (.inl ⟨Op.semWait.inj h, rfl⟩)
    · exact .inr (.inr ⟨Op.semWait.inj h, by simp [BufferPc.token]⟩)
    all_goals cases h
  | done => cases hq

/-- Where the threads of the program are when all kernel threads are idle, with atomic semaphores: a thread has not
begun, has finished or is the main one, or it is about to wait at a semaphore that lets nobody pass. -/
inductive IdlePoint (S : ℕ) (producing : Ptr → Bool) (a : AtomicState Slots BufferPc) (p : Ptr) : Prop
  | fresh (h : a.point p = (bufferClient S producing).start p)
  | idle (h : a.point p = .done ∨ ∃ num, a.point p = .main num)
  | waits {i v q} (hv : a.counter i = some v) (hle : v ≤ 0)
      (hq : bufferCall S (a.point p) (.op (.semWait i)) = some q)

theorem IdlePoint.locks {a : AtomicState Slots BufferPc} (P : IdlePoint S producing a p) : (a.point p).locks = 0 := by
  cases P with
  | fresh h =>
    rw [h]
    simp only [bufferClient]
    split_ifs <;> rfl
  | idle h => rcases h with h | ⟨num, h⟩ <;> rw [h] <;> rfl
  | waits hv hle hq =>
    cases hx : a.point p with
    | producer y =>
      rw [hx] at hq
      obtain ⟨item, ⟨rfl, -⟩ | ⟨rfl, -⟩ | ⟨-, h, -⟩ | ⟨-, h, -⟩ | ⟨-, ⟨v, h⟩, -⟩⟩ := ProducerPc.call_cases hq
      all_goals first | rfl | cases h
    | consumer y =>
      rw [hx] at hq
      obtain ⟨rfl, -⟩ | ⟨rfl, -⟩ | ⟨item, ⟨-, h, -⟩ | ⟨-, h, -⟩ | ⟨-, ⟨v, h⟩, -⟩⟩ := ConsumerPc.call_cases hq
      all_goals first | rfl | cases h
    | _ => rfl

theorem IdlePoint.token {a : AtomicState Slots BufferPc} (P : IdlePoint S producing a p)
    (hmutex : a.counter semMutex = some 1) : (a.point p).token = none := by
  cases P with
  | fresh h =>
    rw [h]
    simp only [bufferClient]
    split_ifs <;> rfl
  | idle h => rcases h with h | ⟨num, h⟩ <;> rw [h] <;> rfl
  | waits hv hle hq =>
    rcases bufferCall_wait hq with ⟨-, item, h⟩ | ⟨-, h⟩ | ⟨rfl, -⟩
    · rw [h]
      rfl
    · rw [h]
      rfl
    · obtain rfl := Option.some.inj (hmutex.symm.trans hv)
      omega

/-- A state of the system in which all kernel threads are idle, and the atomic machine. -/
structure AllIdle (S : ℕ) (producing : Ptr → Bool) (x : SystemState n Slots BufferPc)
    (a : AtomicState Slots BufferPc) : Prop where
  pos : 0 < n
  inv : Inv x.lib
  rests : x.lib.Rests
  idle : ∀ k, (x.lib.kt k).ctl = .sched .deqWait
  main : MainOnly x
  points : PointInv producing S x
  kept : x.lib.infoFreed = false
  simulates : Simulates (bufferClient S producing) x a

namespace AllIdle

variable {a : AtomicState Slots BufferPc} (A : AllIdle S producing x a)
include A

/-- A thread in the queue of a semaphore is about to wait there, and cannot pass. -/
theorem waiting {i : SemId} (hp : p ∈ x.lib.semQueue i) : ∃ v q, a.counter i = some v ∧ v ≤ 0 ∧
    bufferCall S (a.point p) (.op (.semWait i)) = some q := by
  have hs := (A.inv.suspended_of_semQueue hp).1
  have hst : x.lib.stateOf p = some .waitingSem := A.inv.place.alive (.semq i) p hp
  rcases A.rests.waits A.pos A.idle hst (by simp) with ⟨q, -, hq, -⟩ | ⟨j, y, hy, hmem, hle⟩
  · obtain ⟨t, pret, hs', -⟩ := A.inv.join.parked q p hq
    simp [hs] at hs'
  · have hmem : p ∈ x.lib.semQueue j := by simpa [State.semQueue, hy] using hmem
    have hs' := (A.inv.suspended_of_semQueue hmem).1
    obtain rfl : i = j := by simpa [hs] using hs'
    have hpend : x.lib.Pending p (.semWait i) := ⟨rfl, .inr (by rw [hs]; rfl)⟩
    refine ⟨y.counter, x.point p, ?_, hle, A.simulates.pending p _ hpend⟩
    rw [A.simulates.counter, State.counterOf, hy]
    rfl

/-- A thread that has not finished is the main one, which waits to join another, or waits at a semaphore. -/
theorem unfinished {st : ThreadState} (hp : x.lib.stateOf p = some st) (hst : st ≠ .finished) :
    (p = mainTcb ∧ ∀ o, ¬ x.lib.Pending p o) ∨ ∃ i, p ∈ x.lib.semQueue i := by
  rcases A.rests.waits A.pos A.idle hp hst with ⟨q, -, hq, -⟩ | ⟨i, y, hy, hmem, -⟩
  · obtain ⟨t, pret, hs, -⟩ := A.inv.join.parked q p hq
    have hin : x.lib.InCall p (.op (.join t pret), false) := .inr (by rw [hs]; rfl)
    refine .inl ⟨A.main.inside p _ false hin trivial, fun o ho => ?_⟩
    obtain rfl : Op.join t pret = o := by simpa using A.inv.inCall_unique hin ho.2
    cases ho.1
  · exact .inr ⟨i, by simpa [State.semQueue, hy] using hmem⟩

theorem point (p : Ptr) : IdlePoint S producing a p := by
  by_cases hwait : ∃ i, p ∈ x.lib.semQueue i
  · obtain ⟨i, hp⟩ := hwait
    obtain ⟨v, q, hv, hle, hq⟩ := A.waiting hp
    exact .waits hv hle hq
  by_cases hover : ∀ st, x.lib.stateOf p = some st → st = .finished
  · -- the thread is not inside a call
    have hpoint : a.point p = x.point p := by
      refine A.simulates.settled p fun o ho => ?_
      obtain ⟨r, hr, -⟩ := Option.bind_eq_some_iff.mp (State.suspended_of_idle A.idle ho.2)
      obtain ⟨y, hy⟩ := Option.ne_none_iff_exists'.mp (State.heap_ne_none_of_suspended hr)
      have hst : x.lib.stateOf p = some y.state := by simp [State.stateOf, hy]
      rw [State.suspended_of_finished (hst.trans (congrArg some (hover _ hst)))] at hr
      cases hr
    by_cases hlt : p < x.lib.fresh
    · exact .idle (.inl (hpoint.trans (A.points.finished A.kept p ⟨hlt, hover⟩)))
    · exact .fresh (hpoint.trans (A.points.fresh p (Nat.le_of_not_lt hlt)))
  · obtain ⟨st, hp, hst⟩ := by simpa using hover
    obtain ⟨rfl, hpend⟩ := (A.unfinished hp hst).resolve_right hwait
    exact .idle (A.simulates.settled mainTcb hpend ▸ A.points.main)

/-- Nobody waits for `mutex` when it is free. -/
theorem mutex_queue (hmutex : a.counter semMutex = some 1) : x.lib.semQueue semMutex = [] := by
  refine List.eq_nil_iff_forall_not_mem.mpr fun p hp => ?_
  obtain ⟨v, q, hv, hle, -⟩ := A.waiting hp
  obtain rfl := Option.some.inj (hmutex.symm.trans hv)
  omega

/-- The main thread waits at no semaphore, and the others at `full` and `empty` only. -/
theorem unfinished_cases (hmutex : x.lib.semQueue semMutex = []) {st : ThreadState} (hp : x.lib.stateOf p = some st)
    (hst : st ≠ .finished) : p = mainTcb ∨ p ∈ x.lib.semQueue semFull ∨ p ∈ x.lib.semQueue semEmpty := by
  rcases A.unfinished hp hst with ⟨rfl, -⟩ | ⟨i, hi⟩
  · exact .inl rfl
  · obtain ⟨v, q, -, -, hq⟩ := A.waiting hi
    rcases bufferCall_wait hq with ⟨rfl, -⟩ | ⟨rfl, -⟩ | ⟨rfl, -⟩
    · exact .inr (.inr hi)
    · exact .inr (.inl hi)
    · simp [hmutex] at hi

end AllIdle

/-! ### The bounded buffer -/

/-- What is left of the program when all kernel threads are idle. -/
structure BufferRests (S : ℕ) (x : SystemState n Slots BufferPc) : Prop where
  /-- Nobody waits for `mutex`. -/
  mutex : x.lib.semQueue semMutex = []
  /-- The threads that have not finished, besides the main one, wait at `full` or at `empty`. -/
  thread : ∀ p st, x.lib.stateOf p = some st → st ≠ .finished →
    p = mainTcb ∨ p ∈ x.lib.semQueue semFull ∨ p ∈ x.lib.semQueue semEmpty
  /-- Consumers and producers do not wait for one another. -/
  one : x.lib.semQueue semFull = [] ∨ x.lib.semQueue semEmpty = []
  /-- Consumers wait only while all the items have been taken. -/
  full : x.lib.semQueue semFull ≠ [] → x.mem.written.length = x.mem.taken.length
  /-- Producers wait only while all the slots are filled. -/
  empty : x.lib.semQueue semEmpty ≠ [] → x.mem.written.length = x.mem.taken.length + S

theorem SetupInv.token {num : ℕ} {a : AtomicState Slots BufferPc} (B : SetupInv num a) (p : Ptr) :
    (a.point p).token = none := by
  by_cases hp : p = mainTcb
  · rw [hp, B.main]
    rfl
  · have hfresh := B.fresh p hp
    revert hfresh
    unfold BufferPc.Fresh
    split <;> simp_all [BufferPc.token]

theorem SetupInv.bufferRests {num : ℕ} {a : AtomicState Slots BufferPc} (B : SetupInv num a)
    (A : AllIdle S producing x a) : BufferRests S x := by
  have hmem : x.mem = {} := A.simulates.mem ▸ B.mem
  have hempty : x.lib.semQueue semEmpty = [] := by
    refine List.eq_nil_iff_forall_not_mem.mpr fun p hp => ?_
    obtain ⟨v, q, hv, -⟩ := A.waiting hp
    cases B.emptyNone.symm.trans hv
  have hmutex : x.lib.semQueue semMutex = [] := by
    refine List.eq_nil_iff_forall_not_mem.mpr fun p hp => ?_
    obtain ⟨v, q, -, -, hq⟩ := A.waiting hp
    rcases bufferCall_wait hq with ⟨h, -⟩ | ⟨h, -⟩ | ⟨-, h⟩
    · cases h
    · cases h
    · exact h (B.token p)
  exact ⟨hmutex, fun p st => A.unfinished_cases hmutex, .inr hempty, fun _ => by rw [hmem], fun h => absurd hempty h⟩

theorem BufferInv.bufferRests {a : AtomicState Slots BufferPc} (B : BufferInv S a) (h1 : 1 ≤ S)
    (A : AllIdle S producing x a) : BufferRests S x := by
  obtain ⟨m, f, e, held, l, T⟩ := B.tokens
  have hmem : a.mem = x.mem := A.simulates.mem
  -- nobody has locked `mutex`, and nobody holds a token
  have hl : l = 0 := T.locks.unique (.zero fun p => (A.point p).locks)
  have hm : m = 1 := by
    have := T.one
    omega
  have hmutex : a.counter semMutex = some 1 := by rw [T.counterMutex, hm]; rfl
  have hheld (t : Token) : held t = 0 :=
    (T.tokens t).unique (.zero fun p => by simp [BufferPc.tokens, (A.point p).token hmutex])
  have hslots := T.slots
  have hitems := T.items
  rw [hheld, hheld, hheld] at hslots
  rw [hheld, hheld] at hitems
  have hfull (h : x.lib.semQueue semFull ≠ []) : f = 0 := by
    obtain ⟨p, hp⟩ := List.exists_mem_of_ne_nil _ h
    obtain ⟨v, q, hv, hle, -⟩ := A.waiting hp
    obtain rfl := Option.some.inj (T.counterFull.symm.trans hv)
    omega
  have hempty (h : x.lib.semQueue semEmpty ≠ []) : e = 0 := by
    obtain ⟨p, hp⟩ := List.exists_mem_of_ne_nil _ h
    obtain ⟨v, q, hv, hle, -⟩ := A.waiting hp
    obtain rfl := Option.some.inj (T.counterEmpty.symm.trans hv)
    omega
  have hnobody := A.mutex_queue hmutex
  refine ⟨hnobody, fun p st => A.unfinished_cases hnobody, ?_, fun h => ?_, fun h => ?_⟩
  · by_contra hboth
    obtain ⟨hf, he⟩ := not_or.mp hboth
    have := hfull hf
    have := hempty he
    omega
  · have := hfull h
    rw [← hmem]
    omega
  · have := hempty h
    rw [← hmem]
    omega

/-- **The bounded buffer does not deadlock.** For any number of slots, of producers, of consumers and of kernel
threads and any interleaving: when all the kernel threads are idle, nobody waits for `mutex`, the threads that have not
finished wait at `full` or at `empty`, besides the main one, and not both producers and consumers wait; producers wait
only for the slots of a buffer that is full, and consumers for the items of one that is empty. -/
theorem buffer_rests (hn : 0 < n) (h1 : 1 ≤ S) (hS : S ≤ 2 ^ 31 - 1)
    (hr : (systemMachine n cfg (bufferClient S producing)).Reachable (SystemEvent.lift Documented) x)
    (hh : x.lib.halt = none) (hidle : ∀ k, (x.lib.kt k).ctl = .sched .deqWait) (h0 : x.lib.notEmpty = 0) :
    BufferRests S x := by
  obtain ⟨h, hr⟩ := hr
  obtain ⟨hobeys, M⟩ := obeys_of_documented hn hr
  obtain ⟨a, ha, hsim⟩ := atomic_of_run hn hobeys
  obtain ⟨hl, hlib⟩ := lib_run hobeys
  obtain ⟨hf, R⟩ := rests_of_idle hn hlib hh hidle h0
  have A : AllIdle S producing x a :=
    ⟨hn, inv_of_reachable hn hlib.reachable, R, hidle, M, pointInv_of_run hn hobeys, hf, hsim⟩
  obtain ⟨num, B⟩ | B := bufferInv_of_reachable hS ha
  · exact B.bufferRests A
  · exact B.bufferRests h1 A

/-- The main thread initialises the semaphores for one slot, creates thread `1` and joins it. -/
def slotSetup : List (Event 1) :=
  runs 0 2 ++ [(0, .call (.op (.semInit 0 1)))] ++ runs 0 3 ++ [(0, .call (.op (.semInit 1 0)))] ++ runs 0 3 ++
    [(0, .call (.op (.semInit 2 1)))] ++ runs 0 3 ++ [(0, .call (.op (.create false)))] ++ runs 0 12 ++
    [(0, .call (.op (.join 1 false)))] ++ runs 0 22

/-- Thread `1` posts `mutex` and `full`. -/
def producerPosts : List (Event 1) :=
  [(0, .call (.op (.semPost 0)))] ++ runs 0 5 ++ [(0, .call (.op (.semPost 1)))] ++ runs 0 5

/-- One slot and a producer, which waits at `empty`: nobody waits at `full`, and the slot is filled. -/
theorem buffer_rests_full : ∃ x : SystemState 1 Slots BufferPc, x.lib.semQueue semEmpty = [1] ∧
    BufferRests 1 x ∧ x.lib.semQueue semFull = [] ∧ x.mem.written.length = x.mem.taken.length + 1 := by
  obtain ⟨h, x, hr, hx⟩ := EventMachine.exists_run_of_exec
    (M := systemMachine 1 ⟨0⟩ (bufferClient 1 fun p => p = 1)) (P := SystemEvent.lift Documented)
    (slotSetup.map .lib ++ [.user 0 7] ++ producerWaits.map .lib ++ List.replicate 3 (.user 0 0) ++
      producerPosts.map .lib ++ [.user 0 0, .user 0 8] ++ [.lib (0, .call (.op (.semWait 2)))] ++
      (runs 0 12).map .lib)
    (p := fun x => x.2.lib.halt = none ∧ (x.2.lib.kt 0).ctl = .sched .deqWait ∧ x.2.lib.notEmpty = 0 ∧
      x.2.lib.semQueue semEmpty = [1]) (by decide +kernel)
  obtain ⟨hh, hc, h0, hq⟩ := of_decide_eq_true hx
  have hidle (k : Fin 1) : (x.lib.kt k).ctl = .sched .deqWait := Subsingleton.elim k 0 ▸ hc
  have B := buffer_rests Nat.one_pos (Nat.le_refl 1) (by decide) ⟨h, hr⟩ hh hidle h0
  have hne : x.lib.semQueue semEmpty ≠ [] := by simp [hq]
  exact ⟨x, hq, B, B.one.resolve_right hne, B.empty hne⟩

end Uthread
