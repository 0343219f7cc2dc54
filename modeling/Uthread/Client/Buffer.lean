import Uthread.Lib.Ring
import Uthread.Lib.Total
import Uthread.Client.System

/-!
# The bounded buffer

`test-m2m-pc.c`: producers put items into the slots of a ring and consumers take them out. The semaphore
`mutex` protects the two indices, `full` counts the items and `empty` the free slots. Here there are any number
of slots and any number of producers and consumers, and every thread may call `uthread_yield` and
`uthread_self` wherever it is in its own code.

The main thread initialises the semaphores and then creates and joins threads. The statement
`queue[tail++] = item` and the one after it are three steps: the slot is written, the index is incremented,
and it is reduced.

## Main definitions

* `bufferClient`: the program.
* `BufferInv`: its invariant over atomic semaphores.

## Main results

* `bufferInv_of_reachable`.
-/

namespace Uthread

/-- The semaphores of the program. -/
def semMutex : SemId := 0

def semFull : SemId := 1

def semEmpty : SemId := 2

/-- The points of `producer`. -/
inductive ProducerPc
  | produce
  | waitEmpty (item : ℤ)
  | waitMutex (item : ℤ)
  | store (item : ℤ)
  | incr (item : ℤ)
  | wrap (item : ℤ)
  | postMutex (item : ℤ)
  | postFull (item : ℤ)
  | test (item : ℤ)
  deriving DecidableEq, Repr

/-- The points of `consumer`. -/
inductive ConsumerPc
  | waitFull
  | waitMutex
  | load
  | incr (item : ℤ)
  | wrap (item : ℤ)
  | postMutex (item : ℤ)
  | postEmpty (item : ℤ)
  | test (item : ℤ)
  deriving DecidableEq, Repr

/-- The points of the program; the main thread has initialised `num` of the semaphores. -/
inductive BufferPc
  | main (num : ℕ)
  | producer (x : ProducerPc)
  | consumer (x : ConsumerPc)
  | done
  deriving DecidableEq, Repr

/-- The memory of the program, and the items that have been written to the slots and read from them. -/
structure Slots where
  queue : ℕ → ℤ := fun _ => 0
  head : ℕ := 0
  tail : ℕ := 0
  written : List ℤ := []
  taken : List ℤ := []

/-- The calls of `producer`. -/
def ProducerPc.call : ProducerPc → Op → Option BufferPc
  | .waitEmpty item, .semWait i => if i = semEmpty then some (.producer (.waitMutex item)) else none
  | .waitMutex item, .semWait i => if i = semMutex then some (.producer (.store item)) else none
  | .postMutex item, .semPost i => if i = semMutex then some (.producer (.postFull item)) else none
  | .postFull item, .semPost i => if i = semFull then some (.producer (.test item)) else none
  | .test item, .exit _ => if item < 0 then some .done else none
  | _, _ => none

/-- The calls of `consumer`. -/
def ConsumerPc.call : ConsumerPc → Op → Option BufferPc
  | .waitFull, .semWait i => if i = semFull then some (.consumer .waitMutex) else none
  | .waitMutex, .semWait i => if i = semMutex then some (.consumer .load) else none
  | .postMutex item, .semPost i => if i = semMutex then some (.consumer (.postEmpty item)) else none
  | .postEmpty item, .semPost i => if i = semEmpty then some (.consumer (.test item)) else none
  | .test item, .exit _ => if item < 0 then some .done else none
  | _, _ => none

/-- The calls of the main thread, for a ring of `S` slots: it initialises the semaphores, and then creates and
joins threads. -/
def mainCall (S : ℕ) : ℕ → Op → Option BufferPc
  | 0, .semInit i v => if i = semMutex ∧ v = 1 then some (.main 1) else none
  | 1, .semInit i v => if i = semFull ∧ v = 0 then some (.main 2) else none
  | 2, .semInit i v => if i = semEmpty ∧ v = S then some (.main 3) else none
  | 3, .create _ => some (.main 3)
  | 3, .join _ _ => some (.main 3)
  | 3, .exit _ => some .done
  | _, _ => none

/-- The calls of the program. -/
def bufferCall (S : ℕ) (x : BufferPc) : Call → Option BufferPc
  | .op o =>
    match x with
    | .main num => mainCall S num o
    | .producer y => y.call o
    | .consumer y => y.call o
    | .done => none
  | .yield => some x
  | .self => some x
  | .teardown => if x = .main 3 then some x else none

/-- The steps of the program on its memory. What `produce` returns is the input. -/
def bufferExec (S : ℕ) (m : Slots) : BufferPc → ℤ → Option (Slots × BufferPc)
  | .producer .produce, item => some (m, .producer (.waitEmpty item))
  | .producer (.store item), _ =>
    some ({ m with queue := Function.update m.queue m.tail item, written := m.written ++ [item] },
      .producer (.incr item))
  | .producer (.incr item), _ => some ({ m with tail := m.tail + 1 }, .producer (.wrap item))
  | .producer (.wrap item), _ => some ({ m with tail := m.tail % S }, .producer (.postMutex item))
  | .producer (.test item), _ => if item < 0 then none else some (m, .producer .produce)
  | .consumer .load, _ =>
    some ({ m with taken := m.taken ++ [m.queue m.head] }, .consumer (.incr (m.queue m.head)))
  | .consumer (.incr item), _ => some ({ m with head := m.head + 1 }, .consumer (.wrap item))
  | .consumer (.wrap item), _ => some ({ m with head := m.head % S }, .consumer (.postMutex item))
  | .consumer (.test item), _ => if item < 0 then none else some (m, .consumer .waitFull)
  | _, _ => none

/-- The program with `S` slots; `producing` says which threads are producers. -/
def bufferClient (S : ℕ) (producing : Ptr → Bool) : Client Slots BufferPc where
  mem := {}
  start p :=
    if p = mainTcb then .main 0 else if producing p then .producer .produce else .consumer .waitFull
  call := bufferCall S
  exec := bufferExec S

/-! ### What a thread holds -/

/-- What a thread holds: a free slot, an item that is in the buffer and not counted in `full` yet, or an item
that is still in the buffer and not counted in `full` any more. -/
inductive Token
  | free
  | stored
  | unread
  deriving DecidableEq, Repr

/-- The token of a thread. -/
def BufferPc.token : BufferPc → Option Token
  | .producer (.waitMutex _) | .producer (.store _) => some .free
  | .producer (.incr _) | .producer (.wrap _) | .producer (.postMutex _) | .producer (.postFull _) => some .stored
  | .consumer .waitMutex | .consumer .load => some .unread
  | .consumer (.incr _) | .consumer (.wrap _) | .consumer (.postMutex _) | .consumer (.postEmpty _) => some .free
  | _ => none

/-- The number of tokens of one kind that a thread holds. -/
def BufferPc.tokens (t : Token) (x : BufferPc) : ℕ := if x.token = some t then 1 else 0

/-- Whether a thread has locked `mutex`. -/
def BufferPc.locks : BufferPc → ℕ
  | .producer (.store _) | .producer (.incr _) | .producer (.wrap _) | .producer (.postMutex _) => 1
  | .consumer .load | .consumer (.incr _) | .consumer (.wrap _) | .consumer (.postMutex _) => 1
  | _ => 0

/-- Where a producer is with respect to `tail`. -/
def BufferPc.tailPhase : BufferPc → CursorPhase
  | .producer (.incr _) => .used
  | .producer (.wrap _) => .incremented
  | _ => .rest

/-- Where a consumer is with respect to `head`. -/
def BufferPc.headPhase : BufferPc → CursorPhase
  | .consumer (.incr _) => .used
  | .consumer (.wrap _) => .incremented
  | _ => .rest

theorem BufferPc.tailPhase_of_locks {x : BufferPc} (h : x.locks = 0) : x.tailPhase = .rest := by
  cases x with
  | producer y => cases y <;> first | rfl | cases h
  | _ => rfl

theorem BufferPc.headPhase_of_locks {x : BufferPc} (h : x.locks = 0) : x.headPhase = .rest := by
  cases x with
  | consumer y => cases y <;> first | rfl | cases h
  | _ => rfl

/-! ### The invariant -/

variable {S : ℕ} {producing : Ptr → Bool} {a a' : AtomicState Slots BufferPc} {p : Ptr}

/-- The points of a producer or a consumer before it has waited for the first time. -/
def BufferPc.Fresh : BufferPc → Prop
  | .producer .produce | .producer (.waitEmpty _) | .consumer .waitFull => True
  | _ => False

/-- Until the main thread has initialised the semaphores nobody gets past the first wait. -/
structure SetupInv (num : ℕ) (a : AtomicState Slots BufferPc) : Prop where
  lt : num < 3
  main : a.point mainTcb = .main num
  fresh : ∀ p, p ≠ mainTcb → (a.point p).Fresh
  mutex : 1 ≤ num → a.counter semMutex = some 1
  full : 2 ≤ num → a.counter semFull = some 0
  fullNone : num < 2 → a.counter semFull = none
  emptyNone : a.counter semEmpty = none
  mem : a.mem = {}

/-- The counters and the tokens of the threads: a slot is free, holds an item, or is held by a thread. -/
structure TokenInv (S : ℕ) (a : AtomicState Slots BufferPc) (mutex full empty : ℕ) (held : Token → ℕ)
    (locked : ℕ) : Prop where
  counterMutex : a.counter semMutex = some (mutex : ℤ)
  counterFull : a.counter semFull = some (full : ℤ)
  counterEmpty : a.counter semEmpty = some (empty : ℤ)
  tokens : ∀ t, HasTotal (fun p => (a.point p).tokens t) (held t)
  locks : HasTotal (fun p => (a.point p).locks) locked
  one : mutex + locked = 1
  slots : empty + full + held .free + held .stored + held .unread = S
  items : a.mem.written.length = a.mem.taken.length + full + held .stored + held .unread

/-- The invariant of the program once the semaphores are initialised. -/
structure BufferInv (S : ℕ) (a : AtomicState Slots BufferPc) : Prop where
  main : ∀ p num, a.point p = .main num → num = 3
  tokens : ∃ mutex full empty held locked, TokenInv S a mutex full empty held locked
  tail : SharedCursor S a.mem.written.length a.mem.tail fun p => (a.point p).tailPhase
  head : SharedCursor S a.mem.taken.length a.mem.head fun p => (a.point p).headPhase
  ring : RingHolds S a.mem.queue a.mem.written a.mem.taken

/-! ### The tokens in one step -/

/-- Thread `p` moves to the point `q`: what it has more or less shows in the counters and in the items. -/
theorem TokenInv.step {m f e m' f' e' l : ℕ} {held : Token → ℕ} {q : BufferPc} (T : TokenInv S a m f e held l)
    (hpoint : a'.point = Function.update a.point p q) (hm : a'.counter semMutex = some (m' : ℤ))
    (hf : a'.counter semFull = some (f' : ℤ)) (he : a'.counter semEmpty = some (e' : ℤ))
    (hone : m' + q.locks = m + (a.point p).locks)
    (hslots : e' + f' + q.tokens .free + q.tokens .stored + q.tokens .unread =
      e + f + (a.point p).tokens .free + (a.point p).tokens .stored + (a.point p).tokens .unread)
    (hitems : a'.mem.written.length + a.mem.taken.length + f + (a.point p).tokens .stored +
        (a.point p).tokens .unread =
      a.mem.written.length + a'.mem.taken.length + f' + q.tokens .stored + q.tokens .unread) :
    ∃ m f e held l, TokenInv S a' m f e held l := by
  have htokens (t : Token) := (T.tokens t).update_comp p q
  choose held' hheld heq using htokens
  obtain ⟨l', hl', hleq⟩ := T.locks.update_comp p q
  have hfree := heq .free
  have hstored := heq .stored
  have hunread := heq .unread
  have h1 := T.one
  have h2 := T.slots
  have h3 := T.items
  refine ⟨m', f', e', held', l', hm, hf, he, ?_, ?_, ?_, ?_, ?_⟩
  · rwa [hpoint]
  · rwa [hpoint]
  · omega
  · omega
  · omega

/-- The thread that has locked `mutex` is the only one. -/
theorem TokenInv.locks_eq_zero {m f e l : ℕ} {held : Token → ℕ} (T : TokenInv S a m f e held l)
    (hp : (a.point p).locks = 1) {p' : Ptr} (hne : p' ≠ p) : (a.point p').locks = 0 := by
  have := T.locks.add_le hne
  have := T.one
  omega

/-- A thread that moves without changing its phase leaves the phases as they are. -/
theorem point_phase {β : Type} (g : BufferPc → β) {q : BufferPc} (hq : g q = g (a.point p))
    (hpoint : a'.point = Function.update a.point p q) :
    (fun p' => g (a'.point p')) = fun p' => g (a.point p') := by
  rw [hpoint]
  funext p'
  by_cases hp' : p' = p
  · rw [hp', Function.update_self, hq]
  · rw [Function.update_of_ne hp']

namespace BufferInv

variable (B : BufferInv S a)
include B

/-- A step that changes neither the memory nor the phase of a thread. -/
theorem move {m f e l : ℕ} {held : Token → ℕ} {q : BufferPc} (T : TokenInv S a m f e held l) (m' f' e' : ℕ)
    (hpoint : a'.point = Function.update a.point p q) (hmem : a'.mem = a.mem)
    (hm : a'.counter semMutex = some (m' : ℤ)) (hf : a'.counter semFull = some (f' : ℤ))
    (he : a'.counter semEmpty = some (e' : ℤ))
    (hone : m' + q.locks = m + (a.point p).locks)
    (hslots : e' + f' + q.tokens .free + q.tokens .stored + q.tokens .unread =
      e + f + (a.point p).tokens .free + (a.point p).tokens .stored + (a.point p).tokens .unread)
    (hitems : f + (a.point p).tokens .stored + (a.point p).tokens .unread =
      f' + q.tokens .stored + q.tokens .unread)
    (htail : q.tailPhase = (a.point p).tailPhase) (hhead : q.headPhase = (a.point p).headPhase)
    (hmain : ∀ num, q = .main num → num = 3) : BufferInv S a' where
  main p' num hp' := by
    by_cases hne : p' = p
    · exact hmain num (by simpa [hpoint, hne] using hp')
    · exact B.main p' num (by simpa [hpoint, Function.update_of_ne hne] using hp')
  tokens := T.step hpoint hm hf he hone hslots (by rw [hmem]; omega)
  tail := by rw [point_phase BufferPc.tailPhase htail hpoint, hmem]; exact B.tail
  head := by rw [point_phase BufferPc.headPhase hhead hpoint, hmem]; exact B.head
  ring := hmem ▸ B.ring

/-- A step that shows nowhere. -/
theorem move_silent {q : BufferPc} (hpoint : a'.point = Function.update a.point p q) (hmem : a'.mem = a.mem)
    (hcounter : a'.counter = a.counter) (htoken : q.token = (a.point p).token)
    (hlocks : q.locks = (a.point p).locks) (htail : q.tailPhase = (a.point p).tailPhase)
    (hhead : q.headPhase = (a.point p).headPhase) (hmain : ∀ num, q = .main num → num = 3) : BufferInv S a' := by
  obtain ⟨m, f, e, held, l, T⟩ := B.tokens
  have htokens (t : Token) : q.tokens t = (a.point p).tokens t := by simp only [BufferPc.tokens, htoken]
  refine B.move T m f e hpoint hmem (hcounter ▸ T.counterMutex) (hcounter ▸ T.counterFull) (hcounter ▸ T.counterEmpty)
    (by rw [hlocks]) ?_ ?_ htail hhead hmain
  · simp only [htokens]
  · simp only [htokens]

/-- The thread that has locked `mutex` takes a step on the memory. -/
theorem write {q : BufferPc} (hpoint : a'.point = Function.update a.point p q)
    (hcounter : a'.counter = a.counter) (hp : (a.point p).locks = 1) (hq : q.locks = 1)
    (hslots : q.tokens .free + q.tokens .stored + q.tokens .unread =
      (a.point p).tokens .free + (a.point p).tokens .stored + (a.point p).tokens .unread)
    (hitems : a'.mem.written.length + a.mem.taken.length + (a.point p).tokens .stored +
        (a.point p).tokens .unread =
      a.mem.written.length + a'.mem.taken.length + q.tokens .stored + q.tokens .unread)
    (htail : Cursor S a.mem.written.length a.mem.tail (a.point p).tailPhase →
      Cursor S a'.mem.written.length a'.mem.tail q.tailPhase)
    (hhead : Cursor S a.mem.taken.length a.mem.head (a.point p).headPhase →
      Cursor S a'.mem.taken.length a'.mem.head q.headPhase)
    (hring : RingHolds S a'.mem.queue a'.mem.written a'.mem.taken) : BufferInv S a' := by
  obtain ⟨m, f, e, held, l, T⟩ := B.tokens
  have hothers {p' : Ptr} (hne : p' ≠ p) := T.locks_eq_zero hp hne
  have hmove (g : BufferPc → CursorPhase) : (fun p' => g (a'.point p')) =
      Function.update (fun p' => g (a.point p')) p (g q) := by
    rw [hpoint]
    exact funext fun p' => Function.apply_update (fun _ => g) a.point p q p'
  refine ⟨fun p' num hp' => ?_, ?_, ?_, ?_, hring⟩
  · by_cases hne : p' = p
    · rw [hpoint, hne, Function.update_self] at hp'
      simp [hp', BufferPc.locks] at hq
    · exact B.main p' num (by simpa [hpoint, Function.update_of_ne hne] using hp')
  · exact T.step hpoint (hcounter ▸ T.counterMutex) (hcounter ▸ T.counterFull) (hcounter ▸ T.counterEmpty)
      (by rw [hp, hq]) (by omega) (by omega)
  · rw [hmove]
    have hrest (p' : Ptr) (hne : p' ≠ p) := BufferPc.tailPhase_of_locks (hothers hne)
    exact .update hrest (htail (B.tail.cursor hrest))
  · rw [hmove]
    have hrest (p' : Ptr) (hne : p' ≠ p) := BufferPc.headPhase_of_locks (hothers hne)
    exact .update hrest (hhead (B.head.cursor hrest))

/-- A wait of the program. -/
theorem wait {i : SemId} {q : BufferPc} (hs : a.step (bufferClient S producing) (.call p (.op (.semWait i))) = some a')
    (hpoint : a'.point = Function.update a.point p q) (hmem : a'.mem = a.mem)
    (hcase : (i = semMutex ∧ (a.point p).locks = 0 ∧ q.locks = 1 ∧ q.token = (a.point p).token) ∨
      (i = semFull ∧ (a.point p).token = none ∧ q.token = some .unread ∧ q.locks = (a.point p).locks) ∨
      (i = semEmpty ∧ (a.point p).token = none ∧ q.token = some .free ∧ q.locks = (a.point p).locks))
    (htail : q.tailPhase = (a.point p).tailPhase) (hhead : q.headPhase = (a.point p).headPhase)
    (hmain : ∀ num, q ≠ .main num) : BufferInv S a' := by
  obtain ⟨m, vf, e, held, l, T⟩ := B.tokens
  have hmain' (num : ℕ) (h : q = .main num) : num = 3 := absurd h (hmain num)
  obtain ⟨rfl, hl, hl', htok⟩ | ⟨rfl, htok, htok', hl⟩ | ⟨rfl, htok, htok', hl⟩ := hcase
  · obtain ⟨hpos, hcounter⟩ := AtomicState.step_wait hs T.counterMutex
    refine B.move T (m - 1) vf e hpoint hmem (by simp [hcounter]) ?_ ?_ (by omega) ?_ ?_ htail hhead hmain'
    · rw [hcounter, Function.update_of_ne (by decide), T.counterFull]
    · rw [hcounter, Function.update_of_ne (by decide), T.counterEmpty]
    · simp only [BufferPc.tokens, htok]
    · simp only [BufferPc.tokens, htok]
  · obtain ⟨hpos, hcounter⟩ := AtomicState.step_wait hs T.counterFull
    refine B.move T m (vf - 1) e hpoint hmem ?_ (by simp [hcounter]) ?_ (by rw [hl]) ?_ ?_ htail hhead hmain'
    · rw [hcounter, Function.update_of_ne (by decide), T.counterMutex]
    · rw [hcounter, Function.update_of_ne (by decide), T.counterEmpty]
    · simp only [BufferPc.tokens, htok, htok', reduceCtorEq, Option.some.injEq, if_true, if_false]
      omega
    · simp only [BufferPc.tokens, htok, htok', reduceCtorEq, Option.some.injEq, if_true, if_false]
      omega
  · obtain ⟨hpos, hcounter⟩ := AtomicState.step_wait hs T.counterEmpty
    refine B.move T m vf (e - 1) hpoint hmem ?_ ?_ (by simp [hcounter]) (by rw [hl]) ?_ ?_ htail hhead hmain'
    · rw [hcounter, Function.update_of_ne (by decide), T.counterMutex]
    · rw [hcounter, Function.update_of_ne (by decide), T.counterFull]
    · simp only [BufferPc.tokens, htok, htok', reduceCtorEq, Option.some.injEq, if_true, if_false]
      omega
    · simp only [BufferPc.tokens, htok, htok', reduceCtorEq, Option.some.injEq, if_false]

/-- A post of the program. -/
theorem post {i : SemId} {q : BufferPc} (hS : S ≤ 2 ^ 31 - 1)
    (hs : a.step (bufferClient S producing) (.call p (.op (.semPost i))) = some a')
    (hpoint : a'.point = Function.update a.point p q) (hmem : a'.mem = a.mem)
    (hcase : (i = semMutex ∧ (a.point p).locks = 1 ∧ q.locks = 0 ∧ q.token = (a.point p).token) ∨
      (i = semFull ∧ (a.point p).token = some .stored ∧ q.token = none ∧ q.locks = (a.point p).locks) ∨
      (i = semEmpty ∧ (a.point p).token = some .free ∧ q.token = none ∧ q.locks = (a.point p).locks))
    (htail : q.tailPhase = (a.point p).tailPhase) (hhead : q.headPhase = (a.point p).headPhase)
    (hmain : ∀ num, q ≠ .main num) : BufferInv S a' := by
  obtain ⟨m, vf, e, held, l, T⟩ := B.tokens
  have hmain' (num : ℕ) (h : q = .main num) : num = 3 := absurd h (hmain num)
  have hheld {t : Token} (ht : (a.point p).token = some t) : 1 ≤ held t := by
    have hle := (T.tokens t).le p
    simpa [BufferPc.tokens, ht] using hle
  have hslots := T.slots
  obtain ⟨rfl, hl, hl', htok⟩ | ⟨rfl, htok, htok', hl⟩ | ⟨rfl, htok, htok', hl⟩ := hcase
  · have hle := T.locks.le p
    have hone := T.one
    have hm : m = 0 := by omega
    have hcounter := AtomicState.step_post hs T.counterMutex (by omega)
    refine B.move T (m + 1) vf e hpoint hmem (by simp [hcounter]) ?_ ?_ (by omega) ?_ ?_ htail hhead hmain'
    · rw [hcounter, Function.update_of_ne (by decide), T.counterFull]
    · rw [hcounter, Function.update_of_ne (by decide), T.counterEmpty]
    · simp only [BufferPc.tokens, htok]
    · simp only [BufferPc.tokens, htok]
  · have hpos := hheld htok
    have hcounter := AtomicState.step_post hs T.counterFull (by omega)
    refine B.move T m (vf + 1) e hpoint hmem ?_ (by simp [hcounter]) ?_ (by rw [hl]) ?_ ?_ htail hhead hmain'
    · rw [hcounter, Function.update_of_ne (by decide), T.counterMutex]
    · rw [hcounter, Function.update_of_ne (by decide), T.counterEmpty]
    · simp only [BufferPc.tokens, htok, htok', reduceCtorEq, Option.some.injEq, if_true, if_false]
      omega
    · simp only [BufferPc.tokens, htok, htok', reduceCtorEq, Option.some.injEq, if_true, if_false]
  · have hpos := hheld htok
    have hcounter := AtomicState.step_post hs T.counterEmpty (by omega)
    refine B.move T m vf (e + 1) hpoint hmem ?_ ?_ (by simp [hcounter]) (by rw [hl]) ?_ ?_ htail hhead hmain'
    · rw [hcounter, Function.update_of_ne (by decide), T.counterMutex]
    · rw [hcounter, Function.update_of_ne (by decide), T.counterFull]
    · simp only [BufferPc.tokens, htok, htok', reduceCtorEq, Option.some.injEq, if_true, if_false]
      omega
    · simp only [BufferPc.tokens, htok, htok', reduceCtorEq, Option.some.injEq, if_false]

end BufferInv

/-! ### The steps of the program -/

/-- The calls of `producer`, one after the other. -/
theorem ProducerPc.call_cases {y : ProducerPc} {o : Op} {q : BufferPc} (h : y.call o = some q) : ∃ item,
    (y = .waitEmpty item ∧ o = .semWait semEmpty ∧ q = .producer (.waitMutex item)) ∨
    (y = .waitMutex item ∧ o = .semWait semMutex ∧ q = .producer (.store item)) ∨
    (y = .postMutex item ∧ o = .semPost semMutex ∧ q = .producer (.postFull item)) ∨
    (y = .postFull item ∧ o = .semPost semFull ∧ q = .producer (.test item)) ∨
    (y = .test item ∧ (∃ v, o = .exit v) ∧ q = .done) := by
  unfold ProducerPc.call at h
  split at h
  case h_6 => cases h
  all_goals
    split_ifs at h with hi
    obtain rfl := Option.some.inj h
    simp [hi]

/-- The calls of `consumer`, one after the other. -/
theorem ConsumerPc.call_cases {y : ConsumerPc} {o : Op} {q : BufferPc} (h : y.call o = some q) :
    (y = .waitFull ∧ o = .semWait semFull ∧ q = .consumer .waitMutex) ∨
    (y = .waitMutex ∧ o = .semWait semMutex ∧ q = .consumer .load) ∨ ∃ item,
    (y = .postMutex item ∧ o = .semPost semMutex ∧ q = .consumer (.postEmpty item)) ∨
    (y = .postEmpty item ∧ o = .semPost semEmpty ∧ q = .consumer (.test item)) ∨
    (y = .test item ∧ (∃ v, o = .exit v) ∧ q = .done) := by
  unfold ConsumerPc.call at h
  split at h
  case h_6 => cases h
  all_goals
    split_ifs at h with hi
    obtain rfl := Option.some.inj h
    simp [hi]

/-- Once the semaphores are initialised the main thread calls nothing that the semaphores show. -/
theorem mainCall_cases {o : Op} {q : BufferPc} (h : mainCall S 3 o = some q) :
    o.effect = none ∧ (q = .main 3 ∨ q = .done) := by
  cases o with
  | create _ | join _ _ => exact ⟨rfl, .inl (Option.some.inj h).symm⟩
  | exit _ => exact ⟨rfl, .inr (Option.some.inj h).symm⟩
  | _ => cases h

namespace BufferInv

variable (B : BufferInv S a)
include B

/-- A call of the program. -/
theorem call {c : Call} (hS : S ≤ 2 ^ 31 - 1) (hs : a.step (bufferClient S producing) (.call p c) = some a') :
    BufferInv S a' := by
  obtain ⟨q, hq, hmem, hpoint, heff⟩ := AtomicState.step_call hs
  have hsilent (hnone : c.effect = none) (htoken : q.token = (a.point p).token)
      (hlocks : q.locks = (a.point p).locks) (htail : q.tailPhase = (a.point p).tailPhase)
      (hhead : q.headPhase = (a.point p).headPhase) (hmain : ∀ num, q = .main num → num = 3) :
      BufferInv S a' := by
    obtain ⟨-, hcounter⟩ | ⟨i, f, o, heff, -⟩ := heff
    · exact B.move_silent hpoint hmem hcounter htoken hlocks htail hhead hmain
    · cases hnone.symm.trans heff
  have hsame (hnone : c.effect = none) (hq : q = a.point p) : BufferInv S a' :=
    hsilent hnone (by rw [hq]) (by rw [hq]) (by rw [hq]) (by rw [hq]) fun num h => B.main p num (hq ▸ h)
  cases c with
  | yield => exact hsame rfl (Option.some.inj hq).symm
  | self => exact hsame rfl (Option.some.inj hq).symm
  | teardown =>
    simp only [bufferClient, bufferCall] at hq
    split_ifs at hq
    exact hsame rfl (Option.some.inj hq).symm
  | op o =>
    cases hx : a.point p with
    | done => simp [bufferClient, bufferCall, hx] at hq
    | main num =>
      obtain rfl := B.main p num hx
      have hq : mainCall S 3 o = some q := by simpa [bufferClient, bufferCall, hx] using hq
      obtain ⟨hnone, rfl | rfl⟩ := mainCall_cases hq
      · exact hsame hnone hx.symm
      · exact hsilent hnone (by rw [hx]; rfl) (by rw [hx]; rfl) (by rw [hx]; rfl) (by rw [hx]; rfl) (by simp)
    | producer y =>
      have hq : y.call o = some q := by simpa [bufferClient, bufferCall, hx] using hq
      obtain ⟨item, ⟨rfl, rfl, rfl⟩ | ⟨rfl, rfl, rfl⟩ | ⟨rfl, rfl, rfl⟩ | ⟨rfl, rfl, rfl⟩ | ⟨rfl, ⟨v, rfl⟩, rfl⟩⟩ :=
        ProducerPc.call_cases hq
      · refine B.wait hs hpoint hmem ?_ ?_ ?_ ?_ <;>
          simp [hx, BufferPc.token, BufferPc.locks, BufferPc.tailPhase, BufferPc.headPhase]
      · refine B.wait hs hpoint hmem ?_ ?_ ?_ ?_ <;>
          simp [hx, BufferPc.token, BufferPc.locks, BufferPc.tailPhase, BufferPc.headPhase]
      · refine B.post hS hs hpoint hmem ?_ ?_ ?_ ?_ <;>
          simp [hx, BufferPc.token, BufferPc.locks, BufferPc.tailPhase, BufferPc.headPhase]
      · refine B.post hS hs hpoint hmem ?_ ?_ ?_ ?_ <;>
          simp [hx, BufferPc.token, BufferPc.locks, BufferPc.tailPhase, BufferPc.headPhase]
      · exact hsilent rfl (by rw [hx]; rfl) (by rw [hx]; rfl) (by rw [hx]; rfl) (by rw [hx]; rfl) (by simp)
    | consumer y =>
      have hq : y.call o = some q := by simpa [bufferClient, bufferCall, hx] using hq
      obtain ⟨rfl, rfl, rfl⟩ | ⟨rfl, rfl, rfl⟩ | ⟨item, ⟨rfl, rfl, rfl⟩ | ⟨rfl, rfl, rfl⟩ | ⟨rfl, ⟨v, rfl⟩, rfl⟩⟩ :=
        ConsumerPc.call_cases hq
      · refine B.wait hs hpoint hmem ?_ ?_ ?_ ?_ <;>
          simp [hx, BufferPc.token, BufferPc.locks, BufferPc.tailPhase, BufferPc.headPhase]
      · refine B.wait hs hpoint hmem ?_ ?_ ?_ ?_ <;>
          simp [hx, BufferPc.token, BufferPc.locks, BufferPc.tailPhase, BufferPc.headPhase]
      · refine B.post hS hs hpoint hmem ?_ ?_ ?_ ?_ <;>
          simp [hx, BufferPc.token, BufferPc.locks, BufferPc.tailPhase, BufferPc.headPhase]
      · refine B.post hS hs hpoint hmem ?_ ?_ ?_ ?_ <;>
          simp [hx, BufferPc.token, BufferPc.locks, BufferPc.tailPhase, BufferPc.headPhase]
      · exact hsilent rfl (by rw [hx]; rfl) (by rw [hx]; rfl) (by rw [hx]; rfl) (by rw [hx]; rfl) (by simp)

/-- The thread that has locked `mutex` moves an index. -/
theorem advance {q : BufferPc} {i j : ℕ} (hp : (a.point p).locks = 1) (hq : q.locks = 1)
    (htoken : q.token = (a.point p).token)
    (htail : Cursor S a.mem.written.length a.mem.tail (a.point p).tailPhase →
      Cursor S a.mem.written.length i q.tailPhase)
    (hhead : Cursor S a.mem.taken.length a.mem.head (a.point p).headPhase →
      Cursor S a.mem.taken.length j q.headPhase) :
    BufferInv S { a with mem := { a.mem with tail := i, head := j }, point := Function.update a.point p q } := by
  have htokens (t : Token) : q.tokens t = (a.point p).tokens t := by simp only [BufferPc.tokens, htoken]
  refine B.write rfl rfl hp hq ?_ ?_ htail hhead B.ring
  · simp only [htokens]
  · simp only [htokens]

/-- A producer that is about to write holds a free slot. -/
theorem room (hp : (a.point p).token = some .free) : a.mem.written.length < a.mem.taken.length + S := by
  obtain ⟨m, f, e, held, l, T⟩ := B.tokens
  have hle := (T.tokens .free).le p
  have h2 := T.slots
  have h3 := T.items
  simp only [BufferPc.tokens, hp, if_true] at hle
  omega

/-- A consumer that is about to read has an item. -/
theorem item (hp : (a.point p).token = some .unread) : a.mem.taken.length < a.mem.written.length := by
  obtain ⟨m, f, e, held, l, T⟩ := B.tokens
  have hle := (T.tokens .unread).le p
  have h3 := T.items
  simp only [BufferPc.tokens, hp, if_true] at hle
  omega

/-- A producer that is about to write has `tail` at the next slot. -/
theorem tail_eq (hp : (a.point p).locks = 1) (hrest : (a.point p).tailPhase = .rest) :
    a.mem.tail = a.mem.written.length % S := by
  obtain ⟨m, f, e, held, l, T⟩ := B.tokens
  have h := B.tail.cursor fun p' hne => BufferPc.tailPhase_of_locks (T.locks_eq_zero hp hne)
  rwa [hrest] at h

/-- A consumer that is about to read has `head` at the next item. -/
theorem head_eq (hp : (a.point p).locks = 1) (hrest : (a.point p).headPhase = .rest) :
    a.mem.head = a.mem.taken.length % S := by
  obtain ⟨m, f, e, held, l, T⟩ := B.tokens
  have h := B.head.cursor fun p' hne => BufferPc.headPhase_of_locks (T.locks_eq_zero hp hne)
  rwa [hrest] at h

/-- A step of the program on its memory. -/
theorem user {x : ℤ} (hs : a.step (bufferClient S producing) (.user p x) = some a') : BufferInv S a' := by
  obtain ⟨m, q, hq, rfl⟩ := AtomicState.step_user hs
  simp only [bufferClient] at hq
  unfold bufferExec at hq
  split at hq <;> rename_i hx
  · -- `produce`
    obtain ⟨rfl, rfl⟩ := by simpa using hq
    refine B.move_silent rfl rfl rfl ?_ ?_ ?_ ?_ ?_ <;>
      simp [hx, BufferPc.token, BufferPc.locks, BufferPc.tailPhase, BufferPc.headPhase]
  · -- `queue[tail] = item`
    obtain ⟨rfl, rfl⟩ := by simpa using hq
    have hroom := B.room (p := p) (by rw [hx]; rfl)
    have htail := B.tail_eq (p := p) (by rw [hx]; rfl) (by rw [hx]; rfl)
    refine B.write rfl rfl (by rw [hx]; rfl) rfl ?_ ?_ ?_ ?_ ?_
    · simp [hx, BufferPc.tokens, BufferPc.token]
    · simp [hx, BufferPc.tokens, BufferPc.token]
      omega
    · rw [hx]
      simp only [List.length_append, List.length_singleton]
      exact Cursor.use
    · rw [hx]
      exact id
    · simpa [htail] using B.ring.write hroom
  · -- `tail++`
    obtain ⟨rfl, rfl⟩ := by simpa using hq
    refine B.advance (by rw [hx]; rfl) rfl (by rw [hx]; rfl) ?_ ?_ <;> rw [hx]
    · exact Cursor.increment
    · exact id
  · -- `tail %= S`
    obtain ⟨rfl, rfl⟩ := by simpa using hq
    refine B.advance (by rw [hx]; rfl) rfl (by rw [hx]; rfl) ?_ ?_ <;> rw [hx]
    · exact Cursor.wrap
    · exact id
  · split_ifs at hq
    obtain ⟨rfl, rfl⟩ := by simpa using hq
    refine B.move_silent rfl rfl rfl ?_ ?_ ?_ ?_ ?_ <;>
      simp [hx, BufferPc.token, BufferPc.locks, BufferPc.tailPhase, BufferPc.headPhase]
  · -- `item = queue[head]`
    obtain ⟨rfl, rfl⟩ := by simpa using hq
    have hitem := B.item (p := p) (by rw [hx]; rfl)
    have hhead := B.head_eq (p := p) (by rw [hx]; rfl) (by rw [hx]; rfl)
    refine B.write rfl rfl (by rw [hx]; rfl) rfl ?_ ?_ ?_ ?_ ?_
    · simp [hx, BufferPc.tokens, BufferPc.token]
    · simp [hx, BufferPc.tokens, BufferPc.token]
      omega
    · rw [hx]
      exact id
    · rw [hx]
      simp only [List.length_append, List.length_singleton]
      exact Cursor.use
    · simpa [hhead] using B.ring.take hitem
  · -- `head++`
    obtain ⟨rfl, rfl⟩ := by simpa using hq
    refine B.advance (by rw [hx]; rfl) rfl (by rw [hx]; rfl) ?_ ?_ <;> rw [hx]
    · exact id
    · exact Cursor.increment
  · -- `head %= S`
    obtain ⟨rfl, rfl⟩ := by simpa using hq
    refine B.advance (by rw [hx]; rfl) rfl (by rw [hx]; rfl) ?_ ?_ <;> rw [hx]
    · exact id
    · exact Cursor.wrap
  · split_ifs at hq
    obtain ⟨rfl, rfl⟩ := by simpa using hq
    refine B.move_silent rfl rfl rfl ?_ ?_ ?_ ?_ ?_ <;>
      simp [hx, BufferPc.token, BufferPc.locks, BufferPc.tailPhase, BufferPc.headPhase]
  · cases hq

theorem step {b : AtomicEvent} (hS : S ≤ 2 ^ 31 - 1) (hs : a.step (bufferClient S producing) b = some a') :
    BufferInv S a' := by
  cases b with
  | call p c => exact B.call hS hs
  | user p x => exact B.user hs

end BufferInv

/-! ### The initialisation -/

theorem SetupInv.init (producing : Ptr → Bool) : SetupInv 0 (atomicMachine (bufferClient S producing)).init where
  lt := by decide
  main := rfl
  fresh p hp := by
    cases hprod : producing p <;> simp [atomicMachine, bufferClient, hp, hprod, BufferPc.Fresh]
  mutex h := absurd h (by decide)
  full h := absurd h (by decide)
  fullNone _ := rfl
  emptyNone := rfl
  mem := rfl

namespace SetupInv

variable {num : ℕ} (B : SetupInv num a)
include B

/-- A thread other than the main thread moves. -/
theorem move {q : BufferPc} (hp : p ≠ mainTcb) (hq : q.Fresh) :
    SetupInv num { a with point := Function.update a.point p q } where
  lt := B.lt
  main := by simpa [Function.update_of_ne hp.symm] using B.main
  fresh p' hp' := by
    by_cases hne : p' = p
    · simpa [hne] using hq
    · simpa [Function.update_of_ne hne] using B.fresh p' hp'
  mutex := B.mutex
  full := B.full
  fullNone := B.fullNone
  emptyNone := B.emptyNone
  mem := B.mem

theorem full_eq : a.counter semFull = none ∨ a.counter semFull = some 0 := by
  by_cases h : num < 2
  · exact .inl (B.fullNone h)
  · exact .inr (B.full (by omega))

/-- When the last semaphore is initialised nobody holds anything, and the ring is empty. -/
theorem bufferInv (hnum : num = 2) (hcounter : a'.counter = Function.update a.counter semEmpty (some (S : ℤ)))
    (hpoint : a'.point = Function.update a.point mainTcb (.main 3)) (hmem : a'.mem = a.mem) : BufferInv S a' := by
  subst hnum
  have hfresh (p : Ptr) : a'.point p = .main 3 ∨ (a'.point p).Fresh := by
    rw [hpoint]
    by_cases hp : p = mainTcb
    · exact .inl (by rw [hp, Function.update_self])
    · exact .inr (by rw [Function.update_of_ne hp]; exact B.fresh p hp)
  have hnone (p : Ptr) : (a'.point p).token = none ∧ (a'.point p).locks = 0 := by
    rcases hfresh p with h | h
    · rw [h]
      exact ⟨rfl, rfl⟩
    · revert h
      generalize a'.point p = x
      intro h
      unfold BufferPc.Fresh at h
      split at h
      · exact ⟨rfl, rfl⟩
      · exact ⟨rfl, rfl⟩
      · exact ⟨rfl, rfl⟩
      · exact h.elim
  have hmem' : a'.mem = {} := hmem.trans B.mem
  refine ⟨fun p num hp => ?_, ⟨1, 0, S, fun _ => 0, 0, ?_, ?_, ?_, fun t => ?_, ?_, rfl, rfl, ?_⟩, ?_, ?_, ?_⟩
  · rcases hfresh p with h | h
    · exact (BufferPc.main.inj (hp.symm.trans h))
    · simp [hp, BufferPc.Fresh] at h
  · rw [hcounter, Function.update_of_ne (by decide)]
    exact B.mutex (by decide)
  · rw [hcounter, Function.update_of_ne (by decide)]
    exact B.full (by decide)
  · rw [hcounter, Function.update_self]
  · exact .zero fun p => by simp [BufferPc.tokens, hnone]
  · exact .zero fun p => (hnone p).2
  · rw [hmem']
    rfl
  · rw [hmem']
    refine ⟨fun p hp => absurd (BufferPc.tailPhase_of_locks (hnone p).2) hp, fun _ => ?_⟩
    exact (Nat.zero_mod S).symm
  · rw [hmem']
    refine ⟨fun p hp => absurd (BufferPc.headPhase_of_locks (hnone p).2) hp, fun _ => ?_⟩
    exact (Nat.zero_mod S).symm
  · rw [hmem']
    exact .nil

/-- The main thread initialises a semaphore. -/
theorem mainStep {o : Op} (hs : a.step (bufferClient S producing) (.call mainTcb (.op o)) = some a') :
    (∃ num, SetupInv num a') ∨ BufferInv S a' := by
  obtain ⟨q, hq, hmem, hpoint, heff⟩ := AtomicState.step_call hs
  replace hq : mainCall S num o = some q := by simpa [bufferClient, bufferCall, B.main] using hq
  have hlt := B.lt
  have hfresh (p : Ptr) (hp : p ≠ mainTcb) : (a'.point p).Fresh := by
    rw [hpoint, Function.update_of_ne hp]
    exact B.fresh p hp
  have hinit {i : SemId} {v : ℤ} (ho : o = .semInit i v) :
      a'.counter = Function.update a.counter i (some v) := by
    subst ho
    obtain ⟨heff, -⟩ | ⟨j, f, o, heff, ho, hcounter⟩ := heff
    · cases heff
    · simp only [Call.effect, Op.effect, Option.some.injEq, Prod.mk.injEq] at heff
      obtain ⟨rfl, rfl⟩ := heff
      rw [hcounter, ← Option.some.inj ho]
  unfold mainCall at hq
  split at hq
  · split_ifs at hq with hi
    obtain ⟨rfl, rfl⟩ := hi
    obtain rfl := Option.some.inj hq
    have hcounter := hinit rfl
    refine .inl ⟨1, by decide, by rw [hpoint, Function.update_self], hfresh, fun _ => ?_, fun h => ?_, fun _ => ?_, ?_,
      hmem.trans B.mem⟩
    · rw [hcounter, Function.update_self]
    · exact absurd h (by decide)
    · rw [hcounter, Function.update_of_ne (by decide)]
      exact B.fullNone (by decide)
    · rw [hcounter, Function.update_of_ne (by decide)]
      exact B.emptyNone
  · split_ifs at hq with hi
    obtain ⟨rfl, rfl⟩ := hi
    obtain rfl := Option.some.inj hq
    have hcounter := hinit rfl
    refine .inl ⟨2, by decide, by rw [hpoint, Function.update_self], hfresh, fun _ => ?_, fun h => ?_, fun h => ?_, ?_,
      hmem.trans B.mem⟩
    · rw [hcounter, Function.update_of_ne (by decide)]
      exact B.mutex (by decide)
    · rw [hcounter, Function.update_self]
    · exact absurd h (by decide)
    · rw [hcounter, Function.update_of_ne (by decide)]
      exact B.emptyNone
  · split_ifs at hq with hi
    obtain ⟨rfl, rfl⟩ := hi
    obtain rfl := Option.some.inj hq
    exact .inr (B.bufferInv rfl (hinit rfl) hpoint hmem)
  · omega
  · omega
  · omega
  · cases hq

theorem step {b : AtomicEvent} (hs : a.step (bufferClient S producing) b = some a') :
    (∃ num, SetupInv num a') ∨ BufferInv S a' := by
  have hsame {p : Ptr} {c : Call} (hs : a.step (bufferClient S producing) (.call p c) = some a')
      (hnone : c.effect = none) (hq : ∀ q, bufferCall S (a.point p) c = some q → q = a.point p) :
      (∃ num, SetupInv num a') ∨ BufferInv S a' := by
    obtain ⟨q, hq', hmem, hpoint, ⟨-, hcounter⟩ | ⟨i, f, o, heff, -⟩⟩ := AtomicState.step_call hs
    · obtain rfl := hq q hq'
      rw [Function.update_eq_self] at hpoint
      obtain rfl : a' = a := by
        cases a
        cases a'
        simp_all
      exact .inl ⟨num, B⟩
    · cases hnone.symm.trans heff
  cases b with
  | call p c =>
    cases c with
    | yield => exact hsame hs rfl fun q hq => (Option.some.inj hq).symm
    | self => exact hsame hs rfl fun q hq => (Option.some.inj hq).symm
    | teardown =>
      refine hsame hs rfl fun q hq => ?_
      simp only [bufferCall] at hq
      split_ifs at hq
      exact (Option.some.inj hq).symm
    | op o =>
      by_cases hp : p = mainTcb
      · subst hp
        exact B.mainStep hs
      · obtain ⟨q, hq, -⟩ := AtomicState.step_call hs
        have hfresh := B.fresh p hp
        cases hx : a.point p with
        | producer y =>
          have hq : y.call o = some q := by simpa [bufferClient, bufferCall, hx] using hq
          rw [hx] at hfresh
          obtain ⟨item, ⟨rfl, rfl, rfl⟩ | ⟨rfl, -⟩ | ⟨rfl, -⟩ | ⟨rfl, -⟩ | ⟨rfl, -⟩⟩ := ProducerPc.call_cases hq
          · rw [AtomicState.not_wait (.inl B.emptyNone)] at hs
            cases hs
          all_goals exact hfresh.elim
        | consumer y =>
          have hq : y.call o = some q := by simpa [bufferClient, bufferCall, hx] using hq
          rw [hx] at hfresh
          obtain ⟨rfl, rfl, rfl⟩ | ⟨rfl, -⟩ | ⟨item, ⟨rfl, -⟩ | ⟨rfl, -⟩ | ⟨rfl, -⟩⟩ := ConsumerPc.call_cases hq
          · rw [AtomicState.not_wait B.full_eq] at hs
            cases hs
          all_goals exact hfresh.elim
        | _ =>
          rw [hx] at hfresh
          exact hfresh.elim
  | user p x =>
    obtain ⟨m, q, hq, rfl⟩ := AtomicState.step_user hs
    simp only [bufferClient] at hq
    by_cases hp : p = mainTcb
    · simp [hp, B.main, bufferExec] at hq
    · have hfresh := B.fresh p hp
      unfold bufferExec at hq
      split at hq
      case h_1 hx =>
        obtain ⟨rfl, rfl⟩ := by simpa using hq
        exact .inl ⟨num, B.move hp trivial⟩
      case h_10 => cases hq
      all_goals
        rename_i hx
        rw [hx] at hfresh
        exact hfresh.elim

end SetupInv

/-- Whatever the program does, with atomic semaphores: they are being initialised, or the invariant holds. -/
theorem bufferInv_of_reachable (hS : S ≤ 2 ^ 31 - 1)
    (hr : (atomicMachine (bufferClient S producing)).Reachable (fun _ _ => True) a) :
    (∃ num, SetupInv num a) ∨ BufferInv S a := by
  refine EventMachine.Reachable.invariant (I := fun a => (∃ num, SetupInv num a) ∨ BufferInv S a) ?_ ?_ hr
  · exact .inl ⟨0, .init producing⟩
  · rintro a a' b (⟨num, B⟩ | B) - hs
    · exact B.step hs
    · exact .inr (B.step hS hs)

end Uthread
