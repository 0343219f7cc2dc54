import Uthread.Lib.Segment
import Uthread.Queue.Linked

/-!
# The linked queue refines a list

`Queue.Holds q xs`: the chain from the first node is a list that ends in null, its items are `xs`,
`size` is its length, and `tail` points to its last node or, if it is empty, to the embedded one.
Every operation keeps such a relation, with the result of the corresponding operation on the list.

## Main definitions

* `Queue.Rep`, `Queue.Holds`.
* `QueueCmd`, `QueueCmd.exec`, `QueueCmd.spec`: the operations on the queue and on the list.

## Main results

* `queue_refines_list`.
-/

namespace Uthread

variable {α : Type*}

namespace Queue

/-- The item and the link of the node at an address. -/
def read (q : Queue α) (p : NodePtr) : Option (Option α × Option NodePtr) :=
  (q.nodes p).map fun x => (x.item, x.next)

/-- The nodes of the queue from the heap, with their items. -/
structure Rep (q : Queue α) (l : List (NodePtr × Option α)) : Prop where
  list : Seg q.read q.head.next l none
  tail : q.tail = (l.getLast?.map Prod.fst).getD .head
  size : q.size = l.length

/-- The queue is well formed and holds the items `xs`. -/
def Holds (q : Queue α) (xs : List α) : Prop := ∃ l, q.Rep l ∧ l.map Prod.snd = xs.map some

variable {q : Queue α} {l : List (NodePtr × Option α)} {xs : List α} {p : NodePtr}

@[simp] theorem read_head : q.read .head = some (q.head.item, q.head.next) := rfl

theorem read_store (x : QueueNode α) :
    (q.store p x).read = Function.update q.read p (some (x.item, x.next)) := by
  funext p'
  cases p with
  | head => cases p' <;> simp [read, nodes, store]
  | node a =>
    cases p' with
    | head => simp [read, nodes, store]
    | node a' => by_cases h : a' = a <;> simp [read, nodes, store, h]

@[simp] theorem store_tail (x : QueueNode α) : (q.store p x).tail = q.tail := by cases p <;> rfl

@[simp] theorem store_size (x : QueueNode α) : (q.store p x).size = q.size := by cases p <;> rfl

theorem nodes_of_read {o : Option α} {next : Option NodePtr} (h : q.read p = some (o, next)) :
    q.nodes p = some ⟨o, next⟩ := by
  obtain ⟨⟨_, _⟩, hx, heq⟩ := Option.map_eq_some_iff.mp h
  cases heq
  exact hx

theorem load_of_read {o : Option α} {next : Option NodePtr} (h : q.read p = some (o, next)) :
    q.load p = .ok ⟨o, next⟩ := by
  simp [load, nodes_of_read h]

/-- The whole chain, with the embedded node. -/
theorem Rep.seg (h : q.Rep l) :
    Seg q.read (some .head) ((.head, q.head.item) :: l) none :=
  ⟨rfl, q.head.next, rfl, h.list⟩

theorem Rep.ne_head (h : q.Rep l) {x : NodePtr × Option α} (hx : x ∈ l) : x.1 ≠ .head := by
  have hnodup := h.seg.nodup
  rw [List.map_cons, List.nodup_cons] at hnodup
  intro he
  exact hnodup.1 (List.mem_map.mpr ⟨x, hx, he⟩)

/-- The nodes of the chain are allocated in the heap. -/
theorem Rep.isSome_of_mem (h : q.Rep l) {x : NodePtr × Option α} (hx : x ∈ l) :
    ∃ a, x.1 = .node a ∧ (q.heap a).isSome := by
  obtain ⟨next, hnext⟩ := h.list.read_of_mem hx
  cases hx₁ : x.1 with
  | head => exact absurd hx₁ (h.ne_head hx)
  | node a =>
    refine ⟨a, rfl, ?_⟩
    rw [hx₁] at hnext
    cases hnone : q.heap a with
    | none => simp [read, nodes, hnone] at hnext
    | some _ => rfl

theorem Rep.of_seg {o : Option α} (hseg : Seg q.read (some .head) ((.head, o) :: l) none)
    (htail : q.tail = (l.getLast?.map Prod.fst).getD .head) (hsize : q.size = l.length) :
    q.Rep l := by
  obtain ⟨-, next, hnext, hl⟩ := hseg
  obtain ⟨-, rfl⟩ : q.head.item = o ∧ q.head.next = next := by simpa using hnext
  exact ⟨hl, htail, hsize⟩

/-- The chain has a last node, to which `tail` points. -/
theorem Rep.last (h : q.Rep l) :
    ∃ l₁ o, (NodePtr.head, q.head.item) :: l = l₁ ++ [(q.tail, o)] := by
  rcases List.eq_nil_or_concat l with rfl | ⟨l₁, x, rfl⟩
  · exact ⟨[], q.head.item, by simp [h.tail]⟩
  · exact ⟨(.head, q.head.item) :: l₁, x.2, by simp [h.tail]⟩

/-- An address at which there is no node is not in the chain. -/
theorem Rep.ne_of_read (h : q.Rep l) (hp : q.read p = none) {x : NodePtr × Option α}
    (hx : x ∈ (NodePtr.head, q.head.item) :: l) : x.1 ≠ p := by
  rintro rfl
  obtain ⟨next, hnext⟩ := h.seg.read_of_mem hx
  simp [hp] at hnext

theorem Rep.holds (h : q.Rep l) (hl : l.map Prod.snd = xs.map some) : q.Holds xs := ⟨l, h, hl⟩

theorem holds_init (q : Queue α) : (queueInit q).Holds [] :=
  ⟨[], ⟨rfl, rfl, rfl⟩, rfl⟩

theorem Rep.enqueue (h : q.Rep l) {a : ℕ} (ha : q.heap a = none) (x : α)
    (hsize : intIncr q.size = q.size + 1) :
    ∃ q', queueEnqueue q (some x) (.ok a) = .ok (0, q') ∧ q'.Rep (l ++ [(.node a, some x)]) := by
  have hread : q.read (.node a) = none := by simp [read, nodes, ha]
  obtain ⟨l₁, o, hl⟩ := h.last
  have hseg := h.seg
  rw [hl] at hseg
  obtain ⟨r, -, -, next, hlast, rfl⟩ := Seg.append_iff.mp hseg
  have hne : q.tail ≠ .node a := h.ne_of_read hread (x := (q.tail, o)) (by simp [hl])
  -- the new node is written, and then linked to the last one
  have hseg₁ : Seg (q.store (.node a) ⟨some x, none⟩).read (some .head) (l₁ ++ [(q.tail, o)]) none := by
    refine hseg.congr fun y hy => ?_
    rw [read_store, Function.update_of_ne (h.ne_of_read hread (hl ▸ hy))]
  have hlast₁ : (q.store (.node a) ⟨some x, none⟩).read q.tail = some (o, none) := by
    rw [read_store, Function.update_of_ne hne, hlast]
  set q₁ := q.store (.node a) ⟨some x, none⟩ with hq₁
  set q₂ := q₁.store q.tail ⟨o, some (.node a)⟩ with hq₂
  refine ⟨{ q₂ with tail := .node a, size := intIncr q₂.size }, ?_, ?_⟩
  · have htail : q₁.tail = q.tail := store_tail _
    simp [queueEnqueue, ← hq₁, hq₂, htail, load_of_read hlast₁, bind, Except.bind, pure, Except.pure]
  · have hseg₂ : Seg q₂.read (some .head) (l₁ ++ (q.tail, o) :: [(.node a, some x)]) none := by
      refine hseg₁.setNext (read_store _) ?_
      refine ⟨rfl, none, ?_, rfl⟩
      rw [read_store, Function.update_of_ne hne.symm, hq₁, read_store]
      simp
    have hsize₂ : q₂.size = q.size := by simp [hq₂, hq₁]
    refine Rep.of_seg (o := q.head.item) ?_ (by simp) ?_
    · rw [← List.cons_append, hl, List.append_assoc]
      exact hseg₂
    · rw [hsize₂, hsize, h.size]
      simp

theorem Rep.next_isNone (h : q.Rep l) : q.head.next.isNone = l.isEmpty := by
  cases l with
  | nil => simpa using h.list
  | cons x l => simp [h.list.1]

theorem Rep.insertFirst (h : q.Rep l) {a : ℕ} (ha : q.heap a = none) (x : α)
    (hsize : intIncr q.size = q.size + 1) :
    ∃ q', queueInsertFirst q (some x) (.ok a) = .ok (0, q') ∧ q'.Rep ((.node a, some x) :: l) := by
  have hread : q.read (.node a) = none := by simp [read, nodes, ha]
  let q' : Queue α :=
    { head := { q.head with next := some (.node a) }
      tail := if q.head.next.isNone then .node a else q.tail
      size := q.size + 1
      heap := Function.update q.heap a (some ⟨some x, q.head.next⟩) }
  have hread' : ∀ p, p ≠ .head → p ≠ .node a → q'.read p = q.read p := by
    intro p hp hpa
    cases p with
    | head => exact absurd rfl hp
    | node b =>
      have hb : b ≠ a := fun hb => hpa (hb ▸ rfl)
      simp [q', read, nodes, hb]
  refine ⟨q', ?_, ⟨?_, ?_, ?_⟩⟩
  · cases hnext : q.head.next <;> simp [q', queueInsertFirst, store, hnext, hsize]
  · refine ⟨rfl, q.head.next, by simp [q', read, nodes], h.list.congr fun y hy => ?_⟩
    exact hread' _ (h.ne_head hy) (h.ne_of_read hread (List.mem_cons_of_mem _ hy))
  · simp only [q', h.next_isNone, h.tail]
    cases l with
    | nil => rfl
    | cons y l => simp [List.getLast?_cons_cons]
  · simp [q', h.size]

theorem Rep.dequeue {x : NodePtr × Option α} (h : q.Rep (x :: l)) :
    ∃ q', queueDequeue q = .ok (x.2, q') ∧ q'.Rep l := by
  obtain ⟨hp, next, hx, hl⟩ := h.list
  have hxl : ∀ y ∈ l, y.1 ≠ x.1 := by
    have hnodup := h.list.nodup
    rw [List.map_cons, List.nodup_cons] at hnodup
    exact fun y hy hyx => hnodup.1 (List.mem_map.mpr ⟨y, hy, hyx⟩)
  obtain ⟨a, ha, hheap⟩ := h.isSome_of_mem List.mem_cons_self
  have hload : q.load (.node a) = .ok ⟨x.2, next⟩ := by rw [← ha]; exact load_of_read hx
  let q' : Queue α :=
    { head := { q.head with next := next }
      tail := if next.isNone then .head else q.tail
      size := q.size - 1
      heap := Function.update q.heap a none }
  refine ⟨q', ?_, ⟨?_, ?_, ?_⟩⟩
  · cases next <;>
      simp [q', queueDequeue, hp, ha, hload, free, hheap, bind, Except.bind, pure, Except.pure]
  · refine hl.congr fun y hy => ?_
    cases hy₁ : y.1 with
    | head => exact absurd hy₁ (h.ne_head (List.mem_cons_of_mem _ hy))
    | node b =>
      have hb : b ≠ a := fun hb => hxl y hy (by rw [hy₁, ha, hb])
      simp [q', read, nodes, hb]
  · simp only [q', h.tail]
    cases l with
    | nil => simp [Seg.nil_iff.mp hl]
    | cons y l => simp [hl.1, List.getLast?_cons_cons]
  · simp [q', h.size]

theorem Rep.peek (h : q.Rep l) : queuePeek q = .ok (l.head?.bind Prod.snd) := by
  cases l with
  | nil => simp [queuePeek, Seg.nil_iff.mp h.list]
  | cons x l =>
    obtain ⟨hp, next, hx, -⟩ := h.list
    simp [queuePeek, hp, load_of_read hx, bind, Except.bind, pure, Except.pure]

theorem Rep.dequeue_nil (h : q.Rep []) : queueDequeue q = .ok (none, q) := by
  simp [queueDequeue, Seg.nil_iff.mp h.list]

end Queue

/-! ### Sequences of operations -/

/-- An operation on a queue of non-null items, with the outcome of its `malloc`. -/
inductive QueueCmd (α : Type*)
  | init
  | enqueue (item : α) (m : Malloc)
  | insertFirst (item : α) (m : Malloc)
  | dequeue
  | peek
  | size

/-- What an operation returns. -/
inductive QueueRes (α : Type*)
  | code (c : ℕ)
  | item (o : Option α)
  | size (n : ℤ)
  deriving DecidableEq

namespace QueueCmd

/-- An operation on the linked queue. -/
def exec (q : Queue α) : QueueCmd α → Except Halt (QueueRes α × Queue α)
  | .init => .ok (.code 0, queueInit q)
  | .enqueue x m => (queueEnqueue q (some x) m).map fun r => (.code r.1, r.2)
  | .insertFirst x m => (queueInsertFirst q (some x) m).map fun r => (.code r.1, r.2)
  | .dequeue => (queueDequeue q).map fun r => (.item r.1, r.2)
  | .peek => (queuePeek q).map fun r => (.item r, q)
  | .size => .ok (.size (queueSize q), q)

/-- The operation on the list. -/
def spec (xs : List α) : QueueCmd α → QueueRes α × List α
  | .init => (.code 0, [])
  | .enqueue x (.ok _) => (.code 0, xs ++ [x])
  | .insertFirst x (.ok _) => (.code 0, x :: xs)
  | .enqueue _ (.error errno) | .insertFirst _ (.error errno) => (.code errno, xs)
  | .dequeue => (.item xs.head?, xs.tail)
  | .peek => (.item xs.head?, xs)
  | .size => (.size xs.length, xs)

/-- The operations of a sequence, on the linked queue. -/
def execAll (q : Queue α) : List (QueueCmd α) → Except Halt (List (QueueRes α) × Queue α)
  | [] => .ok ([], q)
  | c :: cs => do
    let (r, q) ← c.exec q
    let (rs, q) ← execAll q cs
    return (r :: rs, q)

/-- The operations of a sequence, on the list. -/
def specAll (xs : List α) : List (QueueCmd α) → List (QueueRes α) × List α
  | [] => ([], xs)
  | c :: cs => ((c.spec xs).1 :: (specAll (c.spec xs).2 cs).1, (specAll (c.spec xs).2 cs).2)

/-- What `malloc` promises, and that the length stays an `int`: an address that it returns is not in
use, and `errno` is not zero. -/
def Allowed (q : Queue α) (xs : List α) : QueueCmd α → Prop
  | .enqueue _ (.ok a) | .insertFirst _ (.ok a) => q.heap a = none ∧ xs.length < 2 ^ 31 - 1
  | .enqueue _ (.error errno) | .insertFirst _ (.error errno) => errno ≠ 0
  | _ => True

/-- Every operation of a sequence is allowed where it is made. -/
def AllAllowed (q : Queue α) (xs : List α) : List (QueueCmd α) → Prop
  | [] => True
  | c :: cs => c.Allowed q xs ∧
    ∀ r q', c.exec q = .ok (r, q') → AllAllowed q' (c.spec xs).2 cs

variable {q : Queue α} {xs : List α}

/-- An operation on a queue that holds a list gives the result of the operation on the list, and a
queue that holds the new list. -/
theorem exec_of_holds (h : q.Holds xs) {c : QueueCmd α} (hc : c.Allowed q xs) :
    ∃ q', c.exec q = .ok ((c.spec xs).1, q') ∧ q'.Holds (c.spec xs).2 := by
  obtain ⟨l, hrep, hl⟩ := h
  have hlen : l.length = xs.length := by simpa using congrArg List.length hl
  have hincr (hlt : xs.length < 2 ^ 31 - 1) : intIncr q.size = q.size + 1 := by
    rw [hrep.size, hlen, intIncr_eq (by omega) (by omega)]
  cases c with
  | init => exact ⟨_, rfl, q.holds_init⟩
  | enqueue x m =>
    cases m with
    | error errno => exact ⟨q, rfl, l, hrep, hl⟩
    | ok a =>
      obtain ⟨q', hq', hrep'⟩ := hrep.enqueue hc.1 x (hincr hc.2)
      exact ⟨q', by simp [exec, spec, hq', Except.map], _, hrep', by simp [spec, hl]⟩
  | insertFirst x m =>
    cases m with
    | error errno => exact ⟨q, rfl, l, hrep, hl⟩
    | ok a =>
      obtain ⟨q', hq', hrep'⟩ := hrep.insertFirst hc.1 x (hincr hc.2)
      exact ⟨q', by simp [exec, spec, hq', Except.map], _, hrep', by simp [spec, hl]⟩
  | dequeue =>
    cases l with
    | nil =>
      obtain rfl : xs = [] := by simpa using hl.symm
      exact ⟨q, by simp [exec, spec, hrep.dequeue_nil, Except.map], _, hrep, rfl⟩
    | cons y l =>
      obtain ⟨x, xs, rfl⟩ : ∃ x xs', xs = x :: xs' := by
        cases xs with
        | nil => simp at hl
        | cons x xs => exact ⟨x, xs, rfl⟩
      obtain ⟨hy, hl⟩ : y.2 = some x ∧ l.map Prod.snd = xs.map some := by simpa using hl
      obtain ⟨q', hq', hrep'⟩ := hrep.dequeue
      exact ⟨q', by simp [exec, spec, hq', hy, Except.map], l, hrep', hl⟩
  | peek =>
    refine ⟨q, ?_, l, hrep, hl⟩
    have hhead : l.head?.bind Prod.snd = xs.head? := by
      cases l <;> cases xs <;> simp_all
    simp [exec, spec, hrep.peek, hhead, Except.map]
  | size => exact ⟨q, by simp [exec, spec, queueSize, hrep.size, hlen], l, hrep, hl⟩

theorem execAll_of_holds (cs : List (QueueCmd α)) (h : q.Holds xs) (hcs : AllAllowed q xs cs) :
    ∃ q', execAll q cs = .ok ((specAll xs cs).1, q') ∧ q'.Holds (specAll xs cs).2 := by
  induction cs generalizing q xs with
  | nil => exact ⟨q, rfl, h⟩
  | cons c cs ih =>
    obtain ⟨q₁, hq₁, h₁⟩ := exec_of_holds h hcs.1
    obtain ⟨q', hq', h'⟩ := ih h₁ (hcs.2 _ _ hq₁)
    exact ⟨q', by simp [execAll, hq₁, hq', specAll, bind, Except.bind, pure, Except.pure], h'⟩

end QueueCmd

/-- Every sequence of operations on a queue of non-null items, from its initialisation on and with any
outcomes of `malloc`, gives the results of the same operations on a list. The chain of nodes then visits
no node twice and ends in null, its items are the list, `size` is its length and `tail` points to its
last node, or to the embedded one exactly when it is empty; `queue_dequeue` and `queue_peek` give null
exactly when the list is empty, and an operation whose allocation fails returns `errno` and leaves the
queue as it is. -/
theorem queue_refines_list (q₀ : Queue α) (cs : List (QueueCmd α))
    (hcs : QueueCmd.AllAllowed (queueInit q₀) [] cs) :
    ∃ rs xs q l, QueueCmd.specAll [] cs = (rs, xs) ∧
      QueueCmd.execAll (queueInit q₀) cs = .ok (rs, q) ∧
      q.Rep l ∧ (l.map Prod.fst).Nodup ∧ l.map Prod.snd = xs.map some ∧ q.size = xs.length ∧
      (q.tail = .head ↔ xs = []) ∧
      (∃ o q', queueDequeue q = .ok (o, q') ∧ (o = none ↔ xs = [])) ∧
      (∃ o, queuePeek q = .ok o ∧ (o = none ↔ xs = [])) ∧
      ∀ x errno, queueEnqueue q (some x) (.error errno) = .ok (errno, q) ∧
        queueInsertFirst q (some x) (.error errno) = .ok (errno, q) := by
  obtain ⟨q, hq, l, hrep, hl⟩ := QueueCmd.execAll_of_holds cs q₀.holds_init hcs
  set xs := (QueueCmd.specAll [] cs).2
  have hlen : l.length = xs.length := by simpa using congrArg List.length hl
  have hdeq : ∃ q', queueDequeue q = .ok (l.head?.bind Prod.snd, q') := by
    cases l with
    | nil => exact ⟨q, hrep.dequeue_nil⟩
    | cons x l =>
      obtain ⟨q', hq', -⟩ := hrep.dequeue
      exact ⟨q', hq'⟩
  obtain ⟨q', hq'⟩ := hdeq
  have hnone : l.head?.bind Prod.snd = none ↔ xs = [] := by
    cases l <;> cases hxs : xs <;> simp_all
  refine ⟨_, xs, q, l, rfl, hq, hrep, hrep.list.nodup, hl, by rw [hrep.size, hlen], ?_,
    ⟨_, q', hq', hnone⟩, ⟨_, hrep.peek, hnone⟩, fun x errno => ⟨rfl, rfl⟩⟩
  rw [hrep.tail, ← List.length_eq_zero_iff, ← hlen, List.length_eq_zero_iff]
  rcases List.eq_nil_or_concat l with rfl | ⟨l₁, x, rfl⟩
  · simp
  · simpa using hrep.ne_head (x := x) (by simp)

/-- Items are added at both ends, one is taken out and its node is used again, and an allocation
fails. -/
theorem queue_refines_list_mixed : ∃ q : Queue ℕ,
    QueueCmd.execAll (queueInit ⟨⟨none, none⟩, .head, 0, fun _ => none⟩)
      [.enqueue 5 (.ok 0), .insertFirst 7 (.ok 1), .dequeue, .enqueue 9 (.ok 1),
        .enqueue 3 (.error 12), .peek, .size] =
      .ok ([.code 0, .code 0, .item (some 7), .code 0, .code 12, .item (some 5), .size 2], q) ∧
    q.Holds [5, 9] := by
  obtain ⟨rs, xs, q, l, hspec, hq, hrep, -, hl, -⟩ :=
    queue_refines_list (⟨⟨none, none⟩, .head, 0, fun _ => none⟩ : Queue ℕ)
      [.enqueue 5 (.ok 0), .insertFirst 7 (.ok 1), .dequeue, .enqueue 9 (.ok 1),
        .enqueue 3 (.error 12), .peek, .size] (by
          simp [QueueCmd.AllAllowed, QueueCmd.Allowed, QueueCmd.exec, QueueCmd.spec, queueInit,
            queueEnqueue, queueInsertFirst, queueDequeue, queuePeek, Queue.load, Queue.store,
            Queue.free, Queue.nodes, Except.map, bind, Except.bind, pure, Except.pure])
  obtain ⟨rfl, rfl⟩ := Prod.mk.inj hspec
  exact ⟨q, hq, l, hrep, hl⟩

end Uthread
