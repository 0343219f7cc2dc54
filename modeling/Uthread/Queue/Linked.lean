import Uthread.Model.State

/-!
# The linked queue

The functions of `queue.c` over an explicit heap of nodes. The first node of the chain is embedded in
the queue itself and holds no item; `tail` points to the last node, which is the embedded one when the
queue is empty. A `void *` is an `Option α`, null being `none`, and the items are compared as pointers
are, by equality.

A function that accesses memory through a null or dangling pointer stops with `Halt.fault`, one whose
assertion fails with `Halt.abort`. The outcome of `malloc` is an argument: the address of the new node,
or the value of `errno`. The loop of `queue_remove_item` runs on fuel, `none` meaning that there was
too little of it.
-/

namespace Uthread

/-- A `queuenode_t *` that is not null: the node embedded in the queue, or one from the heap. -/
inductive NodePtr
  | head
  | node (a : ℕ)
  deriving DecidableEq, Repr

/-- `queuenode_t`. -/
structure QueueNode (α : Type*) where
  item : Option α
  next : Option NodePtr
  deriving DecidableEq, Repr

/-- `queue_t`, together with the heap of nodes. -/
structure Queue (α : Type*) where
  head : QueueNode α
  tail : NodePtr
  size : ℤ
  heap : ℕ → Option (QueueNode α)

/-- The outcome of `malloc`: the address of a node, or `errno`. -/
abbrev Malloc := Except ℕ ℕ

variable {α : Type*}

namespace Queue

variable (q : Queue α)

/-- The node at an address. -/
def nodes : NodePtr → Option (QueueNode α)
  | .head => some q.head
  | .node a => q.heap a

/-- Read the node at an address. -/
def load (p : NodePtr) : Except Halt (QueueNode α) :=
  match q.nodes p with
  | some x => .ok x
  | none => .error .fault

/-- Write the node at an address. -/
def store (p : NodePtr) (x : QueueNode α) : Queue α :=
  match p with
  | .head => { q with head := x }
  | .node a => { q with heap := Function.update q.heap a (some x) }

/-- `free`; only an allocated node of the heap can be freed. -/
def free : NodePtr → Except Halt (Queue α)
  | .head => .error .fault
  | .node a =>
    if (q.heap a).isSome then .ok { q with heap := Function.update q.heap a none }
    else .error .fault

end Queue

/-- `queue_init`; it returns `0`. -/
def queueInit (q : Queue α) : Queue α := { q with head := ⟨none, none⟩, tail := .head, size := 0 }

/-- `queue_enqueue`. -/
def queueEnqueue (q : Queue α) (item : Option α) (m : Malloc) : Except Halt (ℕ × Queue α) :=
  if item.isNone then .error .abort
  else
    match m with
    | .error errno => .ok (errno, q)
    | .ok a => do
      let q := q.store (.node a) ⟨item, none⟩
      let last ← q.load q.tail
      let q := q.store q.tail { last with next := some (.node a) }
      return (0, { q with tail := .node a, size := intIncr q.size })

/-- `queue_insert_first`. -/
def queueInsertFirst (q : Queue α) (item : Option α) (m : Malloc) : Except Halt (ℕ × Queue α) :=
  if item.isNone then .error .abort
  else
    match m with
    | .error errno => .ok (errno, q)
    | .ok a =>
      let q := q.store (.node a) ⟨item, q.head.next⟩
      let q := if q.head.next.isNone then { q with tail := .node a } else q
      .ok (0, { q with head := { q.head with next := some (.node a) }, size := intIncr q.size })

/-- `queue_peek`. -/
def queuePeek (q : Queue α) : Except Halt (Option α) :=
  match q.head.next with
  | none => .ok none
  | some n => do
    let x ← q.load n
    return x.item

/-- `queue_dequeue`. -/
def queueDequeue (q : Queue α) : Except Halt (Option α × Queue α) :=
  match q.head.next with
  | none => .ok (none, q)
  | some n => do
    let x ← q.load n
    let q := { q with head := { q.head with next := x.next } }
    let q := if x.next.isNone then { q with tail := .head } else q
    let q := { q with size := q.size - 1 }
    let q ← q.free n
    return (x.item, q)

/-- `queue_size`. -/
def queueSize (q : Queue α) : ℤ := q.size

/-- The body of the loop of `queue_remove_item` where the item is found in node `n`, whose content
is `x`. -/
def Queue.unlink (q : Queue α) (prev n : NodePtr) (x : QueueNode α) : Except Halt (ℤ × Queue α) := do
  let q := if x.next.isNone then { q with tail := prev } else q
  let y ← q.load prev
  let q := q.store prev { y with next := x.next }
  let q := { q with size := q.size - 1 }
  let q ← q.free n
  return (0, q)

/-- The loop of `queue_remove_item`. Where the item is not found, `n` moves on in the body of the loop
and again in its header. -/
def Queue.removeLoop [DecidableEq α] (q : Queue α) (item : Option α) :
    ℕ → NodePtr → Option NodePtr → Option (Except Halt (ℤ × Queue α))
  | 0, _, _ => none
  | _ + 1, _, none => some (.ok (-1, q))
  | fuel + 1, prev, some n =>
    match q.nodes n with
    | none => some (.error .fault)
    | some x =>
      if x.item = item then some (q.unlink prev n x)
      else
        match x.next.bind q.nodes with
        | none => some (.error .fault)
        | some y => q.removeLoop item fuel n y.next

/-- `queue_remove_item`. -/
def queueRemoveItem [DecidableEq α] (fuel : ℕ) (q : Queue α) (item : Option α) :
    Option (Except Halt (ℤ × Queue α)) :=
  q.removeLoop item fuel .head q.head.next

end Uthread
