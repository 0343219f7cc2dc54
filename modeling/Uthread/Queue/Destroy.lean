import Uthread.Queue.Clear

/-!
# The memory of the linked queue

The nodes of a queue are its own: `queue_enqueue` and `queue_insert_first` allocate them, `queue_dequeue` releases
the first one, and `queue_destroy` those that are left. So a queue that is destroyed leaves the heap as it was before
it was initialised, whatever has been done with it in between, unless `queue_init` was called again while there were
items in it: then the nodes of these items are lost.

## Main definitions

* `queueDestroy`.
* `Queue.Owns`: the nodes of the queue, against a heap without them.

## Main results

* `queueDestroy_iff`: when the heap is left as it was.
-/

namespace Uthread

variable {α : Type*}

/-- `queue_destroy`. -/
def queueDestroy (fuel : ℕ) (q : Queue α) : Option (Except Halt (Queue α)) := q.clearLoop fuel q.head.next

/-- In a sequence of operations on a queue with the items `xs`, `queue_init` is called on an empty queue only. -/
def QueueCmd.InitsEmpty (xs : List α) : List (QueueCmd α) → Prop
  | [] => True
  | c :: cs => (c = .init → xs = []) ∧ InitsEmpty (c.spec xs).2 cs

namespace Queue

/-- The queue holds the items `xs`, and `base` is the heap without its nodes. -/
def Owns (base : ℕ → Option (QueueNode α)) (q : Queue α) (xs : List α) : Prop :=
  ∃ l, q.Rep l ∧ l.map Prod.snd = xs.map some ∧
    ∀ a, base a = if .node a ∈ l.map Prod.fst then none else q.heap a

variable {q q' : Queue α} {xs : List α} {base : ℕ → Option (QueueNode α)} {l : List (NodePtr × Option α)}

theorem owns_init (q : Queue α) : Owns q.heap (queueInit q) [] :=
  ⟨[], ⟨rfl, rfl, rfl⟩, rfl, fun _ => rfl⟩

/-- The last node, or the embedded one, is written besides the new one. -/
theorem Rep.heap_enqueue (h : q.Rep l) {a b c : ℕ} {x : α} (hq' : queueEnqueue q (some x) (.ok a) = .ok (c, q'))
    (hb : .node b ∉ l.map Prod.fst) (hba : b ≠ a) : q'.heap b = q.heap b := by
  simp only [queueEnqueue, Option.isNone_some, Bool.false_eq_true, if_false, bind, Except.bind, pure,
    Except.pure] at hq'
  split at hq'
  · cases hq'
  · obtain ⟨-, rfl⟩ := Prod.mk.inj (Except.ok.inj hq')
    cases htail : q.tail with
    | head => simp [store, htail, hba]
    | node d =>
      have hbd : b ≠ d := by
        rintro rfl
        have hlast := h.tail
        rw [htail] at hlast
        cases hl : l.getLast? with
        | none => simp [hl] at hlast
        | some y =>
          refine hb (List.mem_map.mpr ⟨y, List.mem_of_getLast? hl, ?_⟩)
          simpa [hl] using hlast.symm
      simp [store, htail, hba, hbd]

theorem heap_insertFirst {a b c : ℕ} {x : α} (hq' : queueInsertFirst q (some x) (.ok a) = .ok (c, q')) (hba : b ≠ a) :
    q'.heap b = q.heap b := by
  simp only [queueInsertFirst, Option.isNone_some, Bool.false_eq_true, if_false] at hq'
  obtain ⟨-, rfl⟩ := Prod.mk.inj (Except.ok.inj hq')
  split_ifs <;> simp [store, hba]

theorem heap_dequeue {a b : ℕ} {o : Option α} (hq' : queueDequeue q = .ok (o, q')) (ha : q.head.next = some (.node a)) :
    q'.heap b = if b = a then none else q.heap b := by
  simp only [queueDequeue, ha, bind, Except.bind, pure, Except.pure] at hq'
  split at hq'
  · cases hq'
  · split at hq'
    · cases hq'
    · next q₁ hfree =>
      obtain ⟨-, rfl⟩ := Prod.mk.inj (Except.ok.inj hq')
      simp only [free] at hfree
      split_ifs at hfree <;>
        · obtain rfl := Except.ok.inj hfree
          by_cases hba : b = a <;> simp [hba]

/-- A new node in the chain. -/
theorem Owns.insert {a : ℕ} {ys : List α} {l' : List (NodePtr × Option α)}
    (hown : ∀ b, base b = if .node b ∈ l.map Prod.fst then none else q.heap b) (ha : q.heap a = none)
    (hrep : q'.Rep l') (hl' : l'.map Prod.snd = ys.map some)
    (hmem : ∀ b, NodePtr.node b ∈ l'.map Prod.fst ↔ .node b ∈ l.map Prod.fst ∨ b = a)
    (hheap : ∀ b, .node b ∉ l.map Prod.fst → b ≠ a → q'.heap b = q.heap b) : q'.Owns base ys := by
  refine ⟨l', hrep, hl', fun b => ?_⟩
  rw [hown b]
  by_cases hbl : NodePtr.node b ∈ l.map Prod.fst
  · rw [if_pos hbl, if_pos ((hmem b).mpr (.inl hbl))]
  · rw [if_neg hbl]
    by_cases hba : b = a
    · rw [if_pos ((hmem b).mpr (.inr hba)), hba, ha]
    · rw [if_neg fun h => ((hmem b).mp h).elim hbl hba, hheap b hbl hba]

/-- No other operation loses a node. -/
theorem Owns.exec (O : q.Owns base xs) {c : QueueCmd α} (hc : c.Allowed q xs) (hinit : c = .init → xs = []) :
    ∃ q', c.exec q = .ok ((c.spec xs).1, q') ∧ q'.Owns base (c.spec xs).2 := by
  obtain ⟨l, hrep, hl, hown⟩ := O
  have hlen : l.length = xs.length := by simpa using congrArg List.length hl
  have hincr (hlt : xs.length < 2 ^ 31 - 1) : intIncr q.size = q.size + 1 := by
    rw [hrep.size, hlen, intIncr_eq (by omega) (by omega)]
  cases c with
  | init =>
    obtain rfl := hinit rfl
    obtain rfl : l = [] := by simpa using hl
    obtain rfl : base = q.heap := funext hown
    exact ⟨_, rfl, owns_init q⟩
  | enqueue x m =>
    cases m with
    | error errno => exact ⟨q, rfl, l, hrep, hl, hown⟩
    | ok a =>
      obtain ⟨q', hq', hrep'⟩ := hrep.enqueue hc.1 x (hincr hc.2)
      refine ⟨q', by simp [QueueCmd.exec, QueueCmd.spec, hq', Except.map], ?_⟩
      exact .insert hown hc.1 hrep' (by simp [QueueCmd.spec, hl]) (fun b => by simp) fun b => hrep.heap_enqueue hq'
  | insertFirst x m =>
    cases m with
    | error errno => exact ⟨q, rfl, l, hrep, hl, hown⟩
    | ok a =>
      obtain ⟨q', hq', hrep'⟩ := hrep.insertFirst hc.1 x (hincr hc.2)
      refine ⟨q', by simp [QueueCmd.exec, QueueCmd.spec, hq', Except.map], ?_⟩
      exact .insert hown hc.1 hrep' (by simp [QueueCmd.spec, hl]) (fun b => by simp [or_comm])
        fun b _ => heap_insertFirst hq'
  | dequeue =>
    cases l with
    | nil =>
      obtain rfl : xs = [] := by simpa using hl.symm
      exact ⟨q, by simp [QueueCmd.exec, QueueCmd.spec, hrep.dequeue_nil, Except.map], [], hrep, rfl, hown⟩
    | cons y l =>
      obtain ⟨x, xs, rfl⟩ : ∃ x xs', xs = x :: xs' := by
        cases xs with
        | nil => simp at hl
        | cons x xs => exact ⟨x, xs, rfl⟩
      obtain ⟨hy, hl⟩ : y.2 = some x ∧ l.map Prod.snd = xs.map some := by simpa using hl
      obtain ⟨q', hq', hrep'⟩ := hrep.dequeue
      refine ⟨q', by simp [QueueCmd.exec, QueueCmd.spec, hq', hy, Except.map], l, hrep', hl, fun b => ?_⟩
      -- the first node is released
      obtain ⟨a, ha, -⟩ := hrep.isSome_of_mem List.mem_cons_self
      have hheap := heap_dequeue (b := b) hq' (by rw [hrep.list.1, ha])
      rw [hown b, hheap]
      by_cases hba : b = a
      · rw [if_pos (by simp [ha, hba]), if_pos hba, ite_self]
      · have hmem : NodePtr.node b ∈ (y :: l).map Prod.fst ↔ .node b ∈ l.map Prod.fst := by simp [ha, hba]
        simp only [hmem, if_neg hba]
  | peek =>
    refine ⟨q, ?_, l, hrep, hl, hown⟩
    have hhead : l.head?.bind Prod.snd = xs.head? := by
      cases l <;> cases xs <;> simp_all
    simp [QueueCmd.exec, QueueCmd.spec, hrep.peek, hhead, Except.map]
  | size => exact ⟨q, by simp [QueueCmd.exec, QueueCmd.spec, queueSize, hrep.size, hlen], l, hrep, hl, hown⟩

/-- What `queue_init` loses. -/
theorem Owns.lost (O : q.Owns base xs) (hne : xs ≠ []) :
    (∀ a, base a ≠ none → q.heap a ≠ none) ∧ ∃ a, base a = none ∧ q.heap a ≠ none := by
  obtain ⟨l, hrep, hl, hown⟩ := O
  refine ⟨fun a ha hnone => ha ?_, ?_⟩
  · rw [hown a, hnone, ite_self]
  · obtain ⟨x, l, rfl⟩ : ∃ x l', l = x :: l' := by
      cases l with
      | nil => exact absurd (by simpa using hl) hne
      | cons x l => exact ⟨x, l, rfl⟩
    obtain ⟨a, ha, hsome⟩ := hrep.isSome_of_mem List.mem_cons_self
    refine ⟨a, ?_, Option.isSome_iff_ne_none.mp hsome⟩
    rw [hown a, if_pos (by simp [ha])]

/-- A sequence of operations keeps what the heap has besides the nodes of the queue, and adds to it exactly if
`queue_init` loses nodes. -/
theorem Owns.execAll (O : q.Owns base xs) (cs : List (QueueCmd α)) (hcs : QueueCmd.AllAllowed q xs cs) :
    ∃ q' base', QueueCmd.execAll q cs = .ok ((QueueCmd.specAll xs cs).1, q') ∧
      q'.Owns base' (QueueCmd.specAll xs cs).2 ∧ (∀ a, base a ≠ none → base' a ≠ none) ∧
      (base' = base ↔ QueueCmd.InitsEmpty xs cs) := by
  induction cs generalizing q xs base with
  | nil => exact ⟨q, base, rfl, O, fun _ => id, iff_of_true rfl trivial⟩
  | cons c cs ih =>
    by_cases hinit : c = .init → xs = []
    · obtain ⟨q₁, hq₁, O₁⟩ := O.exec hcs.1 hinit
      obtain ⟨q', base', hq', O', hmono, hiff⟩ := ih O₁ (hcs.2 _ _ hq₁)
      refine ⟨q', base', ?_, O', hmono, ?_⟩
      · simp [QueueCmd.execAll, hq₁, hq', QueueCmd.specAll, bind, Except.bind, pure, Except.pure]
      · rw [hiff]
        exact (and_iff_right hinit).symm
    · obtain ⟨rfl, hne⟩ := Classical.not_imp.mp hinit
      obtain ⟨hmono, a, hnone, hsome⟩ := O.lost hne
      obtain ⟨q', base', hq', O', hmono', -⟩ := ih (owns_init q) (hcs.2 _ _ rfl)
      refine ⟨q', base', ?_, O', fun b hb => hmono' b (hmono b hb), ?_⟩
      · simp [QueueCmd.execAll, QueueCmd.exec, QueueCmd.spec, hq', QueueCmd.specAll, bind, Except.bind, pure,
          Except.pure]
      · refine iff_of_false (fun heq => hmono' a hsome (heq ▸ hnone)) fun hall => hinit hall.1

/-- `queue_destroy` releases the nodes that are left, each once. -/
theorem Owns.destroy (O : q.Owns base xs) : ∃ fuel q', queueDestroy fuel q = some (.ok q') ∧ q'.heap = base := by
  obtain ⟨l, hrep, hl, hown⟩ := O
  obtain ⟨fuel, q', hq', -, hheap⟩ := clearLoop_seg hrep.list fun x hx => hrep.ne_head hx
  exact ⟨fuel, q', hq', funext fun a => (hheap a).trans (hown a).symm⟩

end Queue

/-- Every sequence of operations from `queue_init` to `queue_destroy` runs without an invalid access, and leaves the
heap as it was before if and only if `queue_init` is called again on an empty queue only. Otherwise there are nodes
that are never released. -/
theorem queueDestroy_iff (q₀ : Queue α) (cs : List (QueueCmd α)) (hcs : QueueCmd.AllAllowed (queueInit q₀) [] cs) :
    ∃ rs q fuel q', QueueCmd.execAll (queueInit q₀) cs = .ok (rs, q) ∧ queueDestroy fuel q = some (.ok q') ∧
      (∀ a, q₀.heap a ≠ none → q'.heap a ≠ none) ∧ (q'.heap = q₀.heap ↔ QueueCmd.InitsEmpty [] cs) := by
  obtain ⟨q, base, hq, O, hmono, hiff⟩ := (Queue.owns_init q₀).execAll cs hcs
  obtain ⟨fuel, q', hq', rfl⟩ := O.destroy
  exact ⟨_, q, fuel, q', hq, hq', hmono, hiff⟩

/-- Items are added at both ends and one is taken out, and all the memory is released. When `queue_init` is called
after an item has been added, its node is not. -/
theorem queueDestroy_iff_lost :
    (∃ rs q fuel q', QueueCmd.execAll (queueInit (⟨⟨none, none⟩, .head, 0, fun _ => none⟩ : Queue ℕ))
      [.enqueue 5 (.ok 0), .insertFirst 7 (.ok 1), .dequeue] = .ok (rs, q) ∧
      queueDestroy fuel q = some (.ok q') ∧ q'.heap = fun _ => none) ∧
    ∃ rs q fuel q', QueueCmd.execAll (queueInit (⟨⟨none, none⟩, .head, 0, fun _ => none⟩ : Queue ℕ))
      [.enqueue 5 (.ok 0), .init] = .ok (rs, q) ∧
      queueDestroy fuel q = some (.ok q') ∧ q'.heap ≠ fun _ => none := by
  constructor
  · obtain ⟨rs, q, fuel, q', hq, hq', -, hiff⟩ := queueDestroy_iff
      (⟨⟨none, none⟩, .head, 0, fun _ => none⟩ : Queue ℕ) [.enqueue 5 (.ok 0), .insertFirst 7 (.ok 1), .dequeue] (by
        simp [QueueCmd.AllAllowed, QueueCmd.Allowed, QueueCmd.exec, QueueCmd.spec, queueInit, queueEnqueue,
          queueInsertFirst, queueDequeue, Queue.load, Queue.store, Queue.free, Queue.nodes, Except.map, bind,
          Except.bind, pure, Except.pure])
    exact ⟨rs, q, fuel, q', hq, hq', hiff.mpr (by simp [QueueCmd.InitsEmpty])⟩
  · obtain ⟨rs, q, fuel, q', hq, hq', -, hiff⟩ := queueDestroy_iff
      (⟨⟨none, none⟩, .head, 0, fun _ => none⟩ : Queue ℕ) [.enqueue 5 (.ok 0), .init] (by
        simp [QueueCmd.AllAllowed, QueueCmd.Allowed, QueueCmd.exec, queueInit, queueEnqueue, Queue.load, Queue.store,
          Queue.nodes, Except.map, bind, Except.bind, pure, Except.pure])
    exact ⟨rs, q, fuel, q', hq, hq', fun heq => by simpa [QueueCmd.InitsEmpty, QueueCmd.spec] using hiff.mp heq⟩

end Uthread
