import Uthread.Queue.Refinement

/-!
# Clearing the linked queue

`queue_clear` releases the nodes of the chain and resets `tail` and `size`, but not the link of the embedded node.
So the queue it leaves is like a new one only if there was no node to release; else its first link dangles.

## Main definitions

* `queueClear`.
* `QueueOp`, `QueueOp.outputs`: what a sequence of operations returns, with those that loop.
* `Queue.ClearsLikeNew`: the cleared queue behaves like a new one.

## Main results

* `queueClear_iff`: when it does.
* `Queue.Rep.clear`, `Queue.Rep.clear_enqueue`: what `queue_clear` does, and that the next `queue_enqueue` repairs
  the link.
-/

namespace Uthread

variable {α : Type*}

/-- The loop of `queue_clear`. -/
def Queue.clearLoop (q : Queue α) : ℕ → Option NodePtr → Option (Except Halt (Queue α))
  | 0, _ => none
  | _ + 1, none => some (.ok q)
  | fuel + 1, some n =>
    match q.nodes n with
    | none => some (.error .fault)
    | some x =>
      match q.free n with
      | .error e => some (.error e)
      | .ok q => q.clearLoop fuel x.next

/-- `queue_clear`. -/
def queueClear (fuel : ℕ) (q : Queue α) : Option (Except Halt (Queue α)) :=
  (q.clearLoop fuel q.head.next).map fun r => r.map fun q => { q with tail := .head, size := 0 }

/-- An operation on a queue of non-null items: one of `QueueCmd`, or one with a loop. -/
inductive QueueOp (α : Type*)
  | cmd (c : QueueCmd α)
  | removeItem (item : α)
  | clear

/-- What an operation returns. -/
inductive QueueOut (α : Type*)
  | res (r : QueueRes α)
  | removed (c : ℤ)
  | cleared
  deriving DecidableEq

namespace QueueOp

variable [DecidableEq α]

/-- Execute an operation; a loop runs on the fuel. -/
def exec (fuel : ℕ) (q : Queue α) : QueueOp α → Option (Except Halt (QueueOut α × Queue α))
  | .cmd c => some ((c.exec q).map fun r => (.res r.1, r.2))
  | .removeItem x => (queueRemoveItem fuel q (some x)).map fun r => r.map fun r => (.removed r.1, r.2)
  | .clear => (queueClear fuel q).map fun r => r.map fun q => (.cleared, q)

/-- What the operations of a sequence return. -/
def outputs (fuel : ℕ) (q : Queue α) : List (QueueOp α) → Option (Except Halt (List (QueueOut α)))
  | [] => some (.ok [])
  | o :: os =>
    match o.exec fuel q with
    | none => none
    | some (.error e) => some (.error e)
    | some (.ok (r, q)) => (outputs fuel q os).map fun rs => rs.map fun rs => r :: rs

end QueueOp

/-! ### Well-formed queues -/

/-- The queue holds the items `xs`, and none in the embedded node. -/
structure Queue.WellFormed (q : Queue α) (xs : List α) : Prop where
  holds : q.Holds xs
  item : q.head.item = none

theorem queueEnqueue_head_item {q q' : Queue α} {x : α} {m : Malloc} {c : ℕ}
    (h : queueEnqueue q (some x) m = .ok (c, q')) : q'.head.item = q.head.item := by
  cases m with
  | error errno =>
    obtain ⟨-, rfl⟩ := Prod.mk.inj (Except.ok.inj h)
    rfl
  | ok a =>
    simp only [queueEnqueue, Option.isNone_some, Bool.false_eq_true, if_false, bind, Except.bind, pure,
      Except.pure] at h
    split at h
    · cases h
    · next last hlast =>
      obtain ⟨-, rfl⟩ := Prod.mk.inj (Except.ok.inj h)
      -- the last node may be the embedded one
      cases htail : q.tail with
      | node b => simp [Queue.store, htail]
      | head =>
        obtain rfl : q.head = last := by simpa [Queue.load, Queue.nodes, Queue.store, htail] using hlast
        simp [Queue.store, htail]

theorem queueInsertFirst_head_item {q q' : Queue α} {x : α} {m : Malloc} {c : ℕ}
    (h : queueInsertFirst q (some x) m = .ok (c, q')) : q'.head.item = q.head.item := by
  cases m with
  | error errno =>
    obtain ⟨-, rfl⟩ := Prod.mk.inj (Except.ok.inj h)
    rfl
  | ok a =>
    simp only [queueInsertFirst, Option.isNone_some, Bool.false_eq_true, if_false, Queue.store] at h
    obtain ⟨-, rfl⟩ := Prod.mk.inj (Except.ok.inj h)
    change (if q.head.next.isNone then _ else _ : Queue α).head.item = q.head.item
    rw [apply_ite Queue.head, ite_self]

theorem queueDequeue_head_item {q q' : Queue α} {o : Option α} (h : queueDequeue q = .ok (o, q')) :
    q'.head.item = q.head.item := by
  simp only [queueDequeue, bind, Except.bind, pure, Except.pure] at h
  split at h
  · obtain ⟨-, rfl⟩ := Prod.mk.inj (Except.ok.inj h)
    rfl
  · next n hn =>
    split at h
    · cases h
    · next x hx =>
      split at h
      · cases h
      · next q₁ hfree =>
        obtain ⟨-, rfl⟩ := Prod.mk.inj (Except.ok.inj h)
        cases n with
        | head => cases hfree
        | node a =>
          simp only [Queue.free] at hfree
          split_ifs at hfree <;> obtain rfl := Except.ok.inj hfree <;> rfl

theorem QueueCmd.ok_of_map {β : Type*} {y : Except Halt (β × Queue α)} {f : β → QueueRes α} {r : QueueRes α}
    {q' : Queue α} (hy : (y.map fun r => (f r.1, r.2)) = .ok (r, q')) : ∃ b, y = .ok (b, q') := by
  cases y with
  | error e => cases hy
  | ok z =>
    obtain ⟨-, rfl⟩ := Prod.mk.inj (Except.ok.inj hy)
    exact ⟨z.1, rfl⟩

/-- No operation writes the item of the embedded node, except that `queue_init` clears it. -/
theorem QueueCmd.head_item_of_exec {q q' : Queue α} {c : QueueCmd α} {r : QueueRes α}
    (h : c.exec q = .ok (r, q')) (h0 : q.head.item = none) : q'.head.item = none := by
  cases c with
  | init =>
    obtain ⟨-, rfl⟩ := Prod.mk.inj (Except.ok.inj h)
    rfl
  | enqueue x m =>
    obtain ⟨b, hb⟩ := ok_of_map h
    exact (queueEnqueue_head_item hb).trans h0
  | insertFirst x m =>
    obtain ⟨b, hb⟩ := ok_of_map h
    exact (queueInsertFirst_head_item hb).trans h0
  | dequeue =>
    obtain ⟨b, hb⟩ := ok_of_map h
    exact (queueDequeue_head_item hb).trans h0
  | peek =>
    simp only [exec] at h
    cases hp : queuePeek q with
    | error e => simp [hp, Except.map] at h
    | ok o =>
      obtain ⟨-, rfl⟩ : _ ∧ q = q' := by simpa [hp, Except.map] using h
      exact h0
  | size =>
    obtain ⟨-, rfl⟩ := Prod.mk.inj (Except.ok.inj h)
    exact h0

/-- Every sequence of operations on a new queue leads to a well-formed one. -/
theorem Queue.WellFormed.execAll {q : Queue α} {xs : List α} (W : q.WellFormed xs) (cs : List (QueueCmd α))
    (hcs : QueueCmd.AllAllowed q xs cs) :
    ∃ rs q', QueueCmd.execAll q cs = .ok (rs, q') ∧ q'.WellFormed (QueueCmd.specAll xs cs).2 := by
  induction cs generalizing q xs with
  | nil => exact ⟨[], q, rfl, W⟩
  | cons c cs ih =>
    obtain ⟨q₁, hq₁, h₁⟩ := QueueCmd.exec_of_holds W.holds hcs.1
    obtain ⟨rs, q', hq', W'⟩ := ih ⟨h₁, QueueCmd.head_item_of_exec hq₁ W.item⟩ (hcs.2 _ _ hq₁)
    refine ⟨(c.spec xs).1 :: rs, q', ?_, W'⟩
    simp [QueueCmd.execAll, hq₁, hq', bind, Except.bind, pure, Except.pure]

namespace Queue

variable {q q' : Queue α} {l : List (NodePtr × Option α)} {xs : List α} {n : Option NodePtr}

/-- `queue_clear` terminates without an invalid access, releases the nodes of the chain, each once, and no others,
and every sequence of operations then returns what it returns on a new queue. -/
def ClearsLikeNew [DecidableEq α] (q : Queue α) : Prop :=
  ∃ fuel q', queueClear fuel q = some (.ok q') ∧
    (∀ l, q.Rep l → ∀ a, q'.heap a = if .node a ∈ l.map Prod.fst then none else q.heap a) ∧
    ∀ fuel os, QueueOp.outputs fuel q' os = QueueOp.outputs fuel (queueInit q') os

/-! ### The loop -/

/-- The loop ends after the last node, and every node of the chain has been released. A node that is released is
allocated before, so that none is released twice. -/
theorem clearLoop_seg (hl : Seg q.read n l none) (hne : ∀ x ∈ l, x.1 ≠ .head) :
    ∃ fuel q', q.clearLoop fuel n = some (.ok q') ∧ q'.head = q.head ∧
      ∀ a, q'.heap a = if .node a ∈ l.map Prod.fst then none else q.heap a := by
  induction l generalizing q n with
  | nil =>
    obtain rfl : n = none := hl
    exact ⟨1, q, rfl, rfl, by simp⟩
  | cons x l ih =>
    have hnodup := hl.nodup
    rw [List.map_cons, List.nodup_cons] at hnodup
    obtain ⟨rfl, next, hx, hl⟩ := hl
    obtain ⟨a, ha⟩ : ∃ a, x.1 = .node a := by
      cases hx₁ : x.1 with
      | head => exact absurd hx₁ (hne x List.mem_cons_self)
      | node a => exact ⟨a, rfl⟩
    have hnode := nodes_of_read hx
    have hsome : (q.heap a).isSome := by
      rw [ha] at hnode
      simp [show q.heap a = _ from hnode]
    let q₁ : Queue α := { q with heap := Function.update q.heap a none }
    have hfree : q.free x.1 = .ok q₁ := by simp [ha, free, hsome, q₁]
    -- the rest of the chain is not touched
    have hl₁ : Seg q₁.read next l none := by
      refine hl.congr fun y hy => ?_
      cases hy₁ : y.1 with
      | head => exact absurd hy₁ (hne y (List.mem_cons_of_mem _ hy))
      | node b =>
        have hb : b ≠ a := by
          rintro rfl
          exact hnodup.1 (List.mem_map.2 ⟨y, hy, hy₁.trans ha.symm⟩)
        simp [q₁, read, nodes, hb]
    obtain ⟨fuel, q', hq', hhead, hheap⟩ := ih hl₁ fun y hy => hne y (List.mem_cons_of_mem _ hy)
    refine ⟨fuel + 1, q', by simp [clearLoop, hnode, hfree, hq'], hhead, fun b => ?_⟩
    rw [hheap b]
    by_cases hb : b = a
    · subst hb
      simp [q₁, ha]
    · have hne' : NodePtr.node b ≠ x.1 := by simp [ha, hb]
      simp only [q₁, List.map_cons, List.mem_cons, hne', false_or, Function.update_of_ne hb]

/-- `queue_clear` on a well-formed queue. The link of the embedded node stays as it is. -/
theorem Rep.clear (h : q.Rep l) : ∃ fuel q', queueClear fuel q = some (.ok q') ∧ q'.head = q.head ∧
    q'.tail = .head ∧ q'.size = 0 ∧ ∀ a, q'.heap a = if .node a ∈ l.map Prod.fst then none else q.heap a := by
  obtain ⟨fuel, q', hq', hhead, hheap⟩ := clearLoop_seg h.list fun x hx => h.ne_head hx
  exact ⟨fuel, { q' with tail := .head, size := 0 }, by simp [queueClear, hq', Except.map], hhead, rfl, rfl, hheap⟩

theorem clearLoop_head {fuel : ℕ} (h : q.clearLoop fuel n = some (.ok q')) : q'.head = q.head := by
  induction fuel generalizing q n with
  | zero => simp [clearLoop] at h
  | succ fuel ih =>
    cases n with
    | none =>
      obtain rfl : q = q' := by simpa [clearLoop] using h
      rfl
    | some n =>
      simp only [clearLoop] at h
      split at h
      · cases h
      · split at h
        · cases h
        · next q₁ hfree =>
          rw [ih h]
          cases n with
          | head => cases hfree
          | node a =>
            simp only [free] at hfree
            split_ifs at hfree
            obtain rfl := Except.ok.inj hfree
            rfl

theorem queueClear_head {fuel : ℕ} (h : queueClear fuel q = some (.ok q')) : q'.head = q.head := by
  obtain ⟨r, hr, hmap⟩ := Option.map_eq_some_iff.1 h
  cases r with
  | error e => cases hmap
  | ok q₁ =>
    obtain rfl := Except.ok.inj hmap
    have hhead : q₁.head = q.head := clearLoop_head hr
    exact hhead

/-- The next `queue_enqueue` repairs the link, and the queue holds the new item. -/
theorem Rep.clear_enqueue (h : q.Rep l) {a : ℕ} (x : α) :
    ∃ fuel q₁ q₂, queueClear fuel q = some (.ok q₁) ∧ queueEnqueue q₁ (some x) (.ok a) = .ok (0, q₂) ∧
      q₂.Holds [x] := by
  obtain ⟨fuel, q₁, hq₁, -, htail, hsize, -⟩ := h.clear
  let q₂ : Queue α :=
    { head := { q₁.head with next := some (.node a) }
      tail := .node a
      size := 1
      heap := Function.update q₁.heap a (some ⟨some x, none⟩) }
  refine ⟨fuel, q₁, q₂, hq₁, ?_, [(.node a, some x)], ⟨⟨rfl, none, by simp [q₂, read, nodes], rfl⟩, rfl, rfl⟩, rfl⟩
  have hincr : intIncr q₁.size = 1 := by rw [hsize, intIncr_eq] <;> decide
  simp [q₂, queueEnqueue, htail, load, nodes, store, hincr, bind, Except.bind, pure, Except.pure]

variable [DecidableEq α]

/-- A well-formed queue is cleared to a queue that behaves like a new one if and only if it is empty. -/
theorem queueClear_iff (h : q.WellFormed xs) : q.ClearsLikeNew ↔ xs = [] := by
  obtain ⟨⟨l, hrep, hl⟩, h0⟩ := h
  constructor
  · rintro ⟨fuel, q', hq', hheap, hout⟩
    by_contra hne
    obtain ⟨x, l, rfl⟩ : ∃ x l', l = x :: l' := by
      cases l with
      | nil => exact absurd (by simpa using hl) hne
      | cons x l => exact ⟨x, l, rfl⟩
    -- `queue_peek` reaches the first node, which has been released
    obtain ⟨a, ha, -⟩ := hrep.isSome_of_mem List.mem_cons_self
    have hnext : q'.head.next = some (.node a) := by rw [queueClear_head hq', hrep.list.1, ha]
    have hnone : q'.heap a = none := by
      rw [hheap _ hrep a, if_pos]
      simp [ha]
    have hpeek := hout 0 [.cmd .peek]
    simp [QueueOp.outputs, QueueOp.exec, QueueCmd.exec, queuePeek, queueInit, hnext, load, nodes, hnone, Except.map,
      bind, Except.bind] at hpeek
  · rintro rfl
    obtain rfl : l = [] := by simpa using hl
    obtain ⟨fuel, q', hq', hhead, htail, hsize, hheap⟩ := hrep.clear
    refine ⟨fuel, q', hq', fun l' hrep' => ?_, fun fuel os => ?_⟩
    · obtain rfl := hrep.list.unique hrep'.list
      exact hheap
    · -- all that `queue_init` writes is there already
      have hnew : queueInit q' = q' := by
        have hnext : q.head.next = none := Seg.nil_iff.1 hrep.list
        obtain ⟨⟨item, next⟩, tail, size, heap⟩ := q'
        simp only [queueInit] at hhead htail hsize ⊢
        rw [hhead.symm] at h0 hnext
        simp only at h0 hnext
        rw [h0, hnext, htail, hsize]
      rw [hnew]

/-- A new queue is cleared. -/
theorem queueClear_iff_new :
    (queueInit (⟨⟨none, none⟩, .head, 0, fun _ => none⟩ : Queue ℕ)).ClearsLikeNew :=
  (queueClear_iff ⟨holds_init _, rfl⟩).2 rfl

/-- A queue of one item is cleared, and the first link still leads to the node that has been released. -/
theorem queueClear_dangling : ¬ ∀ (q : Queue ℕ) (xs : List ℕ), q.WellFormed xs → q.ClearsLikeNew := by
  intro hall
  let q : Queue ℕ :=
    ⟨⟨none, some (.node 0)⟩, .node 0, 1, Function.update (fun _ => none) 0 (some ⟨some 7, none⟩)⟩
  have hq : q.Holds [7] := ⟨[(.node 0, some 7)], ⟨⟨rfl, none, rfl, rfl⟩, rfl, rfl⟩, rfl⟩
  obtain ⟨fuel, q', hq', hheap, hout⟩ := hall q [7] ⟨hq, rfl⟩
  have hnone : q'.heap 0 = none := by
    rw [hheap [(.node 0, some 7)] ⟨⟨rfl, none, rfl, rfl⟩, rfl, rfl⟩ 0, if_pos (by simp)]
  have hnext : q'.head.next = some (.node 0) := by rw [queueClear_head hq']
  have hpeek := hout 0 [.cmd .peek]
  simp [QueueOp.outputs, QueueOp.exec, QueueCmd.exec, queuePeek, queueInit, hnext, load, nodes, hnone, Except.map,
    bind, Except.bind] at hpeek

end Queue

end Uthread
