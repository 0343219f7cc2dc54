import Uthread.Client.Buffer
import Uthread.Client.Refinement
import Uthread.Safety.Reissue

/-!
# The bounded buffer over the library

The program of `Client.Buffer` runs over the library, with any number of kernel threads. Only the main thread
creates and joins threads, so no identifier is handed out again while its control block is being destroyed, and
the library implements atomic semaphores.

## Main definitions

* `BufferOk`: what the producers and the consumers rely on.

## Main results

* `bounded_buffer`.
-/

namespace Uthread

variable {n : ℕ} {cfg : Config} {S : ℕ} {producing : Ptr → Bool} {x x' : SystemState n Slots BufferPc}
  {s s' : State n} {e : Event n} {p : Ptr} {h : List (SystemState n Slots BufferPc × SystemEvent n)}

/-! ### Only the main thread creates and joins threads -/

/-- The calls that use the identifiers of threads. -/
def Call.usesTids : Call → Prop
  | .op (.create _) | .op (.join _ _) => True
  | _ => False

/-- The main thread is the only one at its points, and the only one inside the calls that use identifiers. -/
structure MainOnly (x : SystemState n Slots BufferPc) : Prop where
  point : ∀ p num, x.point p = .main num → p = mainTcb
  inside : ∀ p c b, x.lib.InCall p (c, b) → c.usesTids → p = mainTcb

theorem bufferCall_main {c : Call} {y : BufferPc} {num : ℕ} (hq : bufferCall S y c = some (.main num)) :
    ∃ num, y = .main num := by
  cases c with
  | yield | self => exact ⟨num, Option.some.inj hq⟩
  | teardown =>
    simp only [bufferCall] at hq
    split_ifs at hq with hy
    exact ⟨3, hy⟩
  | op o =>
    cases y with
    | main num => exact ⟨num, rfl⟩
    | producer y =>
      obtain ⟨item, ⟨-, -, h⟩ | ⟨-, -, h⟩ | ⟨-, -, h⟩ | ⟨-, -, h⟩ | ⟨-, -, h⟩⟩ := ProducerPc.call_cases hq <;> cases h
    | consumer y =>
      obtain ⟨-, -, h⟩ | ⟨-, -, h⟩ | ⟨item, ⟨-, -, h⟩ | ⟨-, -, h⟩ | ⟨-, -, h⟩⟩ := ConsumerPc.call_cases hq <;> cases h
    | done => cases hq

theorem bufferCall_usesTids {c : Call} {y q : BufferPc} (hq : bufferCall S y c = some q) (hc : c.usesTids) :
    ∃ num, y = .main num := by
  cases c with
  | op o =>
    cases y with
    | main num => exact ⟨num, rfl⟩
    | producer y =>
      obtain ⟨item, ⟨-, rfl, -⟩ | ⟨-, rfl, -⟩ | ⟨-, rfl, -⟩ | ⟨-, rfl, -⟩ | ⟨-, ⟨v, rfl⟩, -⟩⟩ :=
        ProducerPc.call_cases hq <;> exact hc.elim
    | consumer y =>
      obtain ⟨-, rfl, -⟩ | ⟨-, rfl, -⟩ | ⟨item, ⟨-, rfl, -⟩ | ⟨-, rfl, -⟩ | ⟨-, ⟨v, rfl⟩, -⟩⟩ :=
        ConsumerPc.call_cases hq <;> exact hc.elim
    | done => cases hq
  | _ => exact hc.elim

theorem bufferExec_main {m m' : Slots} {y : BufferPc} {i : ℤ} {num : ℕ} :
    bufferExec S m y i ≠ some (m', .main num) := by
  unfold bufferExec
  split <;> simp

theorem Pc.not_usesTids_of_counts {pc : Pc} {c : Call} (h : pc.counts = some c) : ¬ c.usesTids := by
  unfold Pc.counts at h
  split at h
  · obtain rfl := Option.some.inj h
    exact id
  · obtain rfl := Option.some.inj h
    exact id
  · cases h

theorem Ctl.thread_of_pc? {c : Ctl} {pc : Pc} (h : c.pc? = some pc) : ∃ p, c = .thread p pc := by
  cases c with
  | thread p pc' => exact ⟨p, by rw [← Option.some.inj h]⟩
  | _ => cases h

theorem Pc.usesTids_of_allocates {pc : Pc} (h : pc.allocates = true) :
    ∃ c, pc.inside = some (c, false) ∧ c.usesTids := by
  unfold Pc.allocates at h
  split at h
  · exact ⟨_, rfl, trivial⟩
  · cases h

theorem Pc.usesTids_of_releasing {pc : Pc} {t : Tid} (h : pc.releasing = some t) :
    ∃ c, pc.inside = some (c, false) ∧ c.usesTids := by
  unfold Pc.releasing at h
  split at h
  · exact ⟨_, rfl, trivial⟩
  · exact ⟨_, rfl, trivial⟩
  · cases h

namespace MainOnly

theorem init (hn : 0 < n) : MainOnly (systemMachine n cfg (bufferClient S producing)).init where
  point p num hp := by
    by_contra hne
    simp only [systemMachine, bufferClient, hne, if_false] at hp
    split_ifs at hp
  inside p c b hin := absurd hin (State.init_not_inCall hn p _)

variable (M : MainOnly x)
include M

theorem point_update {q : BufferPc} (hq : ∀ num, q = .main num → ∃ num, x.point p = .main num) :
    ∀ p' num, Function.update x.point p q p' = .main num → p' = mainTcb := by
  intro p' num hp'
  by_cases hne : p' = p
  · rw [hne, Function.update_self] at hp'
    obtain ⟨num, hx⟩ := hq num hp'
    exact hne ▸ M.point p num hx
  · rw [Function.update_of_ne hne] at hp'
    exact M.point p' num hp'

/-- A step of the library that is not a call, or one of the program. -/
theorem inside_step (I : Inv x.lib) (ha : AllocOk e) (ht : Trans cfg x.lib e s')
    (hcall : ∀ c r p, e.2 = .call c → (x.lib.kt e.1).ctl = .thread p (.user r) → c.usesTids → p = mainTcb) :
    ∀ p c b, s'.InCall p (c, b) → c.usesTids → p = mainTcb := by
  intro p c b hin hc
  cases ht.inCall_cases I ha hin with
  | stays hin => exact M.inside p c b hin hc
  | call he hctl => exact hcall c _ p he hctl hc
  | counts he hctl hpc => exact absurd hc (Pc.not_usesTids_of_counts hpc)

theorem step (I : Inv x.lib) {ev : SystemEvent n} (ha : SystemEvent.lift (fun _ e => AllocOk e) x ev)
    (hs : (systemMachine n cfg (bufferClient S producing)).step x ev = some x') : MainOnly x' := by
  cases SystemState.step_cases hs with
  | @call k c p r q s' hctl hq hlib =>
    refine ⟨M.point_update fun num hnum => bufferCall_main (hnum ▸ hq), ?_⟩
    obtain rfl | rfl | ht := State.step_cases hlib
    · exact M.inside
    · exact M.inside
    · refine M.inside_step I (e := (k, .call c)) trivial ht fun c' r' p' he hctl' hc => ?_
      obtain rfl : c = c' := Input.call.inj he
      obtain rfl : p' = p := (Ctl.thread.inj (hctl'.symm.trans hctl)).1
      obtain ⟨num, hx⟩ := bufferCall_usesTids hq hc
      exact M.point _ num hx
  | lib he hlib =>
    refine ⟨M.point, ?_⟩
    obtain rfl | rfl | ht := State.step_cases hlib
    · exact M.inside
    · exact M.inside
    · exact M.inside_step I ha ht fun c _ _ hc => absurd hc (he c)
  | user _ _ hq => exact ⟨M.point_update fun num hnum => absurd (hnum ▸ hq) bufferExec_main, M.inside⟩

/-- Two kernel threads cannot both execute the main thread inside such calls. -/
theorem noReissue (I : Inv x.lib) : NoReissue x.lib e := by
  obtain ⟨k, i⟩ := e
  cases i with
  | run f =>
    intro hall k' hrel
    obtain ⟨pc, hpc, hall⟩ := (Option.any_eq_true _ _).mp hall
    obtain ⟨pc', hpc', hrel⟩ := Option.bind_eq_some_iff.mp hrel
    obtain ⟨p, hc⟩ := Ctl.thread_of_pc? hpc
    obtain ⟨p', hc'⟩ := Ctl.thread_of_pc? hpc'
    obtain ⟨c, hin, huse⟩ := Pc.usesTids_of_allocates hall
    obtain ⟨c', hin', huse'⟩ := Pc.usesTids_of_releasing hrel
    obtain rfl := M.inside p c false (.inl ⟨k, by simp [hc, Ctl.inside, hin]⟩) huse
    obtain rfl := M.inside p' c' false (.inl ⟨k', by simp [hc', Ctl.inside, hin']⟩) huse'
    obtain rfl : k = k' := I.place.thread_unique (by rw [hc]; rfl) (by rw [hc']; rfl)
    obtain rfl : pc = pc' := (Ctl.thread.inj (hc.symm.trans hc')).2
    cases pc <;> simp_all [Pc.releasing, Pc.allocates]
  | _ => trivial

end MainOnly

/-- A run that obeys the documented preconditions hands no identifier out too early. -/
theorem obeys_of_documented (hn : 0 < n)
    (hr : (systemMachine n cfg (bufferClient S producing)).Run (SystemEvent.lift Documented) h x) :
    (systemMachine n cfg (bufferClient S producing)).Run (SystemEvent.lift Obeys) h x ∧ MainOnly x := by
  induction hr with
  | init => exact ⟨.init, .init hn⟩
  | @step h x x' ev hr ho hs ih =>
    obtain ⟨hobeys, M⟩ := ih
    obtain ⟨hl, hlib⟩ := lib_run hobeys
    have I := inv_of_reachable hn hlib.reachable
    refine ⟨hobeys.step ?_ hs, M.step I ?_ hs⟩
    · cases ev with
      | lib e => exact ⟨ho.alloc, ho.call, ho.sem, ho.tids, M.noReissue I⟩
      | user => trivial
    · cases ev with
      | lib e => exact ho.alloc
      | user => trivial

/-! ### The buffer -/

/-- What the producers and the consumers rely on. The items are numbered in the order in which they are written:
the item with number `j` is written to slot `j % S`, and read from there. -/
structure BufferOk (S : ℕ) (x : SystemState n Slots BufferPc) : Prop where
  /-- The items are read in the order in which they were written. -/
  fifo : x.mem.taken <+: x.mem.written
  /-- At most `S` items are in the buffer. -/
  items : x.mem.written.length - x.mem.taken.length ≤ S
  /-- The two counters together do not exceed the number of slots. -/
  counters : ∀ full empty, x.lib.counterOf semFull = some full → x.lib.counterOf semEmpty = some empty →
    full + empty ≤ S
  /-- A producer writes the next item to its slot, and no item that has not been read is in that slot. -/
  store : ∀ k p item, x.lib.userThread k = some p → x.point p = .producer (.store item) →
    x.mem.tail < S ∧ x.mem.tail = x.mem.written.length % S ∧
      ∀ j, x.mem.taken.length ≤ j → j < x.mem.written.length → j % S ≠ x.mem.tail
  /-- A consumer reads a slot that has been filled, with the next item. -/
  load : ∀ k p, x.lib.userThread k = some p → x.point p = .consumer .load →
    x.mem.head < S ∧ x.mem.head = x.mem.taken.length % S ∧
      x.mem.written[x.mem.taken.length]? = some (x.mem.queue x.mem.head)

theorem SetupInv.bufferOk {num : ℕ} {a : AtomicState Slots BufferPc} (B : SetupInv num a)
    (hS : Simulates (bufferClient S producing) x a)
    (hpoint : ∀ k p, x.lib.userThread k = some p → x.point p = a.point p) : BufferOk S x := by
  have hmem : x.mem = {} := hS.mem ▸ B.mem
  have hfresh {p : Ptr} {y : BufferPc} (hy : ¬ y.Fresh) (hmain : ∀ num, y ≠ .main num) : a.point p ≠ y := by
    rintro rfl
    by_cases hp : p = mainTcb
    · exact hmain num (hp ▸ B.main)
    · exact hy (B.fresh p hp)
  constructor
  case fifo => rw [hmem]
  case items => simp [hmem]
  case counters =>
    intro full empty _ hempty
    rw [← hS.counter, B.emptyNone] at hempty
    cases hempty
  case store =>
    intro k p item hk hp
    exact absurd ((hpoint k p hk).symm.trans hp) (hfresh id (by simp))
  case load =>
    intro k p hk hp
    exact absurd ((hpoint k p hk).symm.trans hp) (hfresh id (by simp))

theorem BufferInv.bufferOk {a : AtomicState Slots BufferPc} (B : BufferInv S a) (h1 : 1 ≤ S)
    (hS : Simulates (bufferClient S producing) x a)
    (hpoint : ∀ k p, x.lib.userThread k = some p → x.point p = a.point p) : BufferOk S x := by
  have hmem : a.mem = x.mem := hS.mem
  obtain ⟨m, f, e, held, l, T⟩ := B.tokens
  have hslots := T.slots
  have hitems := T.items
  constructor
  case fifo => exact hmem ▸ B.ring.isPrefix
  case items =>
    rw [← hmem]
    omega
  case counters =>
    intro full empty hfull hempty
    rw [← hS.counter, T.counterFull, Option.some.injEq] at hfull
    rw [← hS.counter, T.counterEmpty, Option.some.injEq] at hempty
    omega
  case store =>
    intro k p item hk hp
    rw [hpoint k p hk] at hp
    have htail := B.tail_eq (p := p) (by rw [hp]; rfl) (by rw [hp]; rfl)
    have hroom := B.room (p := p) (by rw [hp]; rfl)
    rw [← hmem]
    refine ⟨?_, htail, fun j hj hj' => ?_⟩
    · rw [htail]
      exact Nat.mod_lt _ h1
    · rw [htail]
      exact RingHolds.mod_ne hroom hj hj'
  case load =>
    intro k p hk hp
    rw [hpoint k p hk] at hp
    have hhead := B.head_eq (p := p) (by rw [hp]; rfl) (by rw [hp]; rfl)
    have hitem := B.item (p := p) (by rw [hp]; rfl)
    rw [← hmem]
    refine ⟨?_, hhead, ?_⟩
    · rw [hhead]
      exact Nat.mod_lt _ h1
    · rw [hhead, B.ring.holds _ (Nat.le_refl _) hitem, List.getElem?_eq_getElem hitem]

/-- For any number of slots, of producers, of consumers and of kernel threads and any interleaving of their steps
and of voluntary yields: no slot is overwritten before its item has been read and none is read before it has been
filled, at most `S` items are in the buffer, `full` and `empty` together do not exceed `S`, and the items are
read in the order in which they were written. -/
theorem bounded_buffer (hn : 0 < n) (h1 : 1 ≤ S) (hS : S ≤ 2 ^ 31 - 1)
    (hr : (systemMachine n cfg (bufferClient S producing)).Reachable (SystemEvent.lift Documented) x) :
    BufferOk S x := by
  obtain ⟨h, hr⟩ := hr
  have hobeys := (obeys_of_documented hn hr).1
  obtain ⟨a, ha, hsim⟩ := atomic_of_run hn hobeys
  obtain ⟨hl, hlib⟩ := lib_run hobeys
  have I := inv_of_reachable hn hlib.reachable
  have hpoint (k : Fin n) (p : Ptr) (hk : x.lib.userThread k = some p) : x.point p = a.point p := by
    obtain ⟨r, hc⟩ := State.userThread_eq_some.mp hk
    exact (hsim.settled p fun o ho => I.not_inCall_of_user hc _ ho.2).symm
  obtain ⟨num, B⟩ | B := bufferInv_of_reachable hS ha
  · exact B.bufferOk hsim hpoint
  · exact B.bufferOk h1 hsim hpoint

/-- The main thread initialises the semaphores for two slots, creates thread `1` and joins it. -/
def bufferSetup : List (Event 1) :=
  runs 0 2 ++ [(0, .call (.op (.semInit 0 1)))] ++ runs 0 3 ++ [(0, .call (.op (.semInit 1 0)))] ++ runs 0 3 ++
    [(0, .call (.op (.semInit 2 2)))] ++ runs 0 3 ++ [(0, .call (.op (.create false)))] ++ runs 0 12 ++
    [(0, .call (.op (.join 1 false)))] ++ runs 0 22

/-- Thread `1` waits on `empty` and on `mutex`. -/
def producerWaits : List (Event 1) :=
  [(0, .call (.op (.semWait 2)))] ++ runs 0 7 ++ [(0, .call (.op (.semWait 0)))] ++ runs 0 7

/-- Two slots: the producer that the main thread has created is about to write the item `7`. -/
theorem bounded_buffer_store : ∃ x : SystemState 1 Slots BufferPc,
    x.lib.userThread 0 = some 1 ∧ x.point 1 = .producer (.store 7) ∧ BufferOk 2 x := by
  obtain ⟨h, x, hr, hx⟩ := EventMachine.exists_run_of_exec
    (M := systemMachine 1 ⟨0⟩ (bufferClient 2 fun p => p = 1)) (P := SystemEvent.lift Documented)
    (bufferSetup.map .lib ++ [.user 0 7] ++ producerWaits.map .lib)
    (p := fun x => x.2.lib.userThread 0 = some 1 ∧ x.2.point 1 = .producer (.store 7)) (by decide +kernel)
  obtain ⟨hu, hp⟩ := of_decide_eq_true hx
  exact ⟨x, hu, hp, bounded_buffer Nat.one_pos (by decide) (by decide) ⟨h, hr⟩⟩

end Uthread
