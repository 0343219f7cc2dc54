import Uthread.Queue.Refinement
import Mathlib.Algebra.Group.Nat.Even
import Mathlib.Data.List.Induction

/-!
# Removing an item from the linked queue

The loop of `queue_remove_item` looks at every second node only, and its pointer `prev` is then two
nodes behind `n`. So it removes an item correctly only from the head of the queue, and reports an item
as missing correctly only when the number of nodes is even.

## Main results

* `queueRemoveItem_iff`: when `queue_remove_item` does the removal from the list.
-/

namespace Uthread

variable {α : Type*}

namespace Queue

variable {q : Queue α} {l : List (NodePtr × Option α)} {xs : List α} {x : α} {prev : NodePtr}
  {n : Option NodePtr}

/-- At the head of the queue the item is taken out as `queue_dequeue` does it. -/
theorem unlink_head {a : NodePtr} {y : QueueNode α} (hn : q.head.next = some a)
    (hy : q.load a = .ok y) :
    q.unlink .head a y = (queueDequeue q).map fun r => (0, r.2) := by
  have hhead (q : Queue α) : q.load .head = .ok q.head := rfl
  cases hnext : y.next with
  | none =>
    simp only [unlink, queueDequeue, hn, hy, hnext, hhead, store, bind, Except.bind, pure, Except.pure,
      Option.isNone_none, if_true]
    cases free _ a <;> rfl
  | some b =>
    simp only [unlink, queueDequeue, hn, hy, hnext, hhead, store, bind, Except.bind, pure, Except.pure,
      Option.isNone_some, Bool.false_eq_true, if_false]
    cases free _ a <;> rfl

theorem free_cases {a : NodePtr} {q' : Queue α} (h : q.free a = .ok q') :
    q'.head = q.head ∧ q'.size = q.size ∧ q'.read = Function.update q.read a none := by
  cases a with
  | head => cases h
  | node a =>
    simp only [free] at h
    split_ifs at h
    obtain rfl := Except.ok.inj h
    refine ⟨rfl, rfl, ?_⟩
    funext p
    cases p with
    | head => simp [read, nodes]
    | node b => by_cases hb : b = a <;> simp [read, nodes, hb]

theorem unlink_cases {prev a : NodePtr} {y : QueueNode α} {o : Option α} {next : Option NodePtr}
    {r : ℤ} {q' : Queue α} (hprev : q.read prev = some (o, next))
    (h : q.unlink prev a y = .ok (r, q')) : q'.size = q.size - 1 ∧
      q'.read = Function.update (Function.update q.read prev (some (o, y.next))) a none := by
  obtain ⟨q₁, hq₁, hsize, hread⟩ : ∃ q₁, (if y.next.isNone then { q with tail := prev } else q) = q₁ ∧
      q₁.size = q.size ∧ q₁.read = q.read := by
    split_ifs
    · exact ⟨_, rfl, rfl, rfl⟩
    · exact ⟨_, rfl, rfl, rfl⟩
  rw [← hread] at hprev
  simp only [unlink, hq₁, load_of_read hprev, bind, Except.bind, pure, Except.pure] at h
  split at h
  · cases h
  · next q₂ hq₂ =>
    obtain ⟨-, rfl⟩ := Prod.mk.inj (Except.ok.inj h)
    obtain ⟨-, hsize₂, hread₂⟩ := free_cases hq₂
    refine ⟨by rw [hsize₂, store_size, hsize], ?_⟩
    have hstore : (q₁.store prev ⟨o, y.next⟩).read =
        Function.update q.read prev (some (o, y.next)) := by rw [read_store, hread]
    rw [hread₂, ← hstore]
    rfl

/-- Elsewhere the item is taken out together with its predecessor, and `size` no longer fits. -/
theorem Rep.not_holds_of_unlink {l₁ l₂ : List (NodePtr × Option α)} {c b : NodePtr × Option α}
    {a : NodePtr} {next : Option NodePtr} {r : ℤ} {q' : Queue α}
    (h : q.Rep (l₁ ++ c :: b :: (a, some x) :: l₂)) (hl : Seg q.read next l₂ none)
    (hq' : q.unlink c.1 a ⟨some x, next⟩ = .ok (r, q')) (ys : List α) : ¬ q'.Holds ys := by
  obtain ⟨hsize, hread⟩ : q'.size = q.size - 1 ∧
      q'.read = Function.update (Function.update q.read c.1 (some (c.2, next))) a none := by
    obtain ⟨nc, hc⟩ := h.list.read_of_mem (x := c) (by simp)
    exact unlink_cases hc hq'
  have hseg := h.seg
  rw [← List.cons_append] at hseg
  have hnodup := hseg.nodup
  simp only [List.map_append, List.map_cons, List.nodup_append, List.nodup_cons, List.mem_cons,
    List.mem_map, List.cons_append] at hnodup
  have hseg' : Seg q'.read (some .head) ((.head, q.head.item) :: l₁ ++ c :: l₂) none := by
    have hl' : Seg (Function.update q.read c.1 (some (c.2, next))) next l₂ none := by
      refine hl.congr fun y hy => Function.update_of_ne ?_ _ _
      grind
    refine (hseg.setNext rfl hl').congr fun y hy => ?_
    rw [hread, Function.update_of_ne]
    grind
  rintro ⟨l', hrep', -⟩
  have hlen := congrArg List.length (hrep'.seg.unique hseg')
  have hsize' := hrep'.size
  rw [hsize, h.size] at hsize'
  simp at hlen hsize'
  omega

variable [DecidableEq α]

/-- `queue_remove_item` terminates without an invalid access, returns `0` if and only if the item
occurs in the queue, and leaves a well-formed queue from which its first occurrence is removed. -/
def RemovesItem (q : Queue α) (xs : List α) (x : α) : Prop :=
  ∃ fuel r q', queueRemoveItem fuel q (some x) = some (.ok (r, q')) ∧ (r = 0 ↔ x ∈ xs) ∧
    q'.Holds (xs.erase x)

/-- More fuel gives the same outcome. -/
theorem removeLoop_mono {fuel m : ℕ} (hm : fuel ≤ m) {o : Option α}
    {res : Except Halt (ℤ × Queue α)} (h : q.removeLoop o fuel prev n = some res) :
    q.removeLoop o m prev n = some res := by
  induction fuel generalizing m prev n with
  | zero => simp [removeLoop] at h
  | succ fuel ih =>
    obtain ⟨m, rfl⟩ : ∃ m', m = m' + 1 := ⟨m - 1, by omega⟩
    cases n with
    | none => exact h
    | some n =>
      simp only [removeLoop] at h ⊢
      split at h
      · exact h
      · split_ifs at h ⊢
        · exact h
        · split at h
          · exact h
          · exact ih (by omega) h

/-- The outcome does not depend on the fuel. -/
theorem removeLoop_unique {fuel m : ℕ} {o : Option α} {res res' : Except Halt (ℤ × Queue α)}
    (h : q.removeLoop o fuel prev n = some res) (h' : q.removeLoop o m prev n = some res') :
    res = res' := by
  obtain hle | hle := Nat.le_total fuel m
  · exact Option.some.inj ((removeLoop_mono hle h).symm.trans h')
  · exact Option.some.inj (h.symm.trans (removeLoop_mono hle h'))

/-- How the loop ends when it has the nodes `l` still before it. -/
inductive LoopEnd (q : Queue α) (x : α) (prev : NodePtr) :
    List (NodePtr × Option α) → Except Halt (ℤ × Queue α) → Prop
  | missing {l₁} (hl : Even l₁.length) : LoopEnd q x prev l₁ (.ok (-1, q))
  | fault {l₁} : LoopEnd q x prev l₁ (.error .fault)
  | first {a l₁ next} (hl : Seg q.read next l₁ none) :
      LoopEnd q x prev ((a, some x) :: l₁) (q.unlink prev a ⟨some x, next⟩)
  | later {l₁ c b a l₂ next} (hl : Seg q.read next l₂ none) :
      LoopEnd q x prev (l₁ ++ c :: b :: (a, some x) :: l₂) (q.unlink c.1 a ⟨some x, next⟩)

theorem removeLoop_cases (l : List (NodePtr × Option α)) (prev : NodePtr) (n : Option NodePtr)
    (hl : Seg q.read n l none) :
    ∃ fuel res, q.removeLoop (some x) fuel prev n = some res ∧ LoopEnd q x prev l res := by
  induction l using List.twoStepInduction generalizing prev n with
  | nil =>
    obtain rfl : n = none := hl
    exact ⟨1, _, rfl, .missing (by simp)⟩
  | singleton y =>
    obtain ⟨a, o⟩ := y
    obtain ⟨rfl, next, hy, rfl⟩ := hl
    by_cases hx : o = some x
    · subst hx
      exact ⟨1, _, by simp [removeLoop, nodes_of_read hy], .first rfl⟩
    · exact ⟨1, .error .fault, by simp [removeLoop, nodes_of_read hy, hx], .fault⟩
  | cons_cons y z l ih _ =>
    obtain ⟨a, o⟩ := y
    obtain ⟨rfl, next, hy, hzl⟩ := hl
    by_cases hx : o = some x
    · subst hx
      exact ⟨1, _, by simp [removeLoop, nodes_of_read hy], .first hzl⟩
    · obtain ⟨rfl, next, hz, hl⟩ := hzl
      obtain ⟨fuel, res, hres, hend⟩ := ih a next hl
      refine ⟨fuel + 1, res, by simp [removeLoop, nodes_of_read hy, nodes_of_read hz, hx, hres], ?_⟩
      cases hend with
      | missing hl => exact .missing (by simpa [Nat.even_add_one] using hl)
      | fault => exact .fault
      | first hl' =>
        change LoopEnd q x prev ([] ++ (a, o) :: z :: _) _
        exact .later hl'
      | @later l₁ c b a' l₂ next hl' =>
        change LoopEnd q x prev (((a, o) :: z :: l₁) ++ c :: b :: _) _
        exact .later hl'

/-- An item that does not occur is reported as missing if the number of nodes is even. -/
theorem removeLoop_of_notMem (l : List (NodePtr × Option α)) (prev : NodePtr) (n : Option NodePtr)
    (hl : Seg q.read n l none) (hx : ∀ y ∈ l, y.2 ≠ some x) (heven : Even l.length) :
    ∃ fuel, q.removeLoop (some x) fuel prev n = some (.ok (-1, q)) := by
  induction l using List.twoStepInduction generalizing prev n with
  | nil =>
    obtain rfl : n = none := hl
    exact ⟨1, rfl⟩
  | singleton y => simp at heven
  | cons_cons y z l ih _ =>
    obtain ⟨rfl, next, hy, rfl, next', hz, hl⟩ := hl
    obtain ⟨fuel, hfuel⟩ := ih y.1 next' hl (fun w hw => hx w (by simp [hw]))
      (by simpa [Nat.even_add_one] using heven)
    refine ⟨fuel + 1, ?_⟩
    simp [removeLoop, nodes_of_read hy, nodes_of_read hz, hx y (by simp), hfuel]

/-- `queue_remove_item` removes the item from the list if and only if the item is at the head, or it
does not occur and the number of items is even. -/
theorem queueRemoveItem_iff (h : q.Holds xs) (x : α) :
    q.RemovesItem xs x ↔ xs.head? = some x ∨ (Even xs.length ∧ x ∉ xs) := by
  obtain ⟨l, hrep, hl⟩ := h
  have hlen : l.length = xs.length := by simpa using congrArg List.length hl
  constructor
  · rintro ⟨fuel, r, q', hfuel, hr, hq'⟩
    obtain ⟨m, res, hres, hend⟩ := removeLoop_cases (x := x) l .head q.head.next hrep.list
    obtain rfl : res = .ok (r, q') := removeLoop_unique hres hfuel
    generalize hres' : Except.ok (r, q') = res at hend
    cases hend with
    | missing heven =>
      obtain ⟨rfl, rfl⟩ := Prod.mk.inj (Except.ok.inj hres')
      refine .inr ⟨hlen ▸ heven, fun hx => ?_⟩
      simpa using hr.2 hx
    | fault => cases hres'
    | first hl' =>
      left
      cases xs with
      | nil => simp at hl
      | cons y xs =>
        obtain ⟨hy, -⟩ : x = y ∧ _ := by simpa using hl
        rw [hy, List.head?_cons]
    | later hl' => exact absurd hq' (hrep.not_holds_of_unlink hl' hres'.symm _)
  · rintro (hx | ⟨heven, hx⟩)
    · obtain ⟨xs, rfl⟩ : ∃ xs', xs = x :: xs' := by
        cases xs with
        | nil => simp at hx
        | cons y xs => exact ⟨xs, by simpa using hx⟩
      obtain ⟨⟨a, o⟩, l, rfl⟩ : ∃ y l', l = y :: l' := by
        cases l with
        | nil => simp at hl
        | cons y l => exact ⟨y, l, rfl⟩
      obtain ⟨rfl, hl⟩ : o = some x ∧ l.map Prod.snd = xs.map some := by simpa using hl
      obtain ⟨q', hq', hrep'⟩ := hrep.dequeue
      obtain ⟨hn, next, hnext, -⟩ := hrep.list
      refine ⟨1, 0, q', ?_, by simp, l, hrep', by simpa using hl⟩
      simp [queueRemoveItem, hn, removeLoop, nodes_of_read hnext,
        unlink_head hn (load_of_read hnext), hq', Except.map]
    · have hx' (y) (hy : y ∈ l) : y.2 ≠ some x := by
        intro hyx
        have : some x ∈ l.map Prod.snd := List.mem_map.mpr ⟨y, hy, hyx⟩
        exact hx (by simpa [hl] using this)
      obtain ⟨fuel, hfuel⟩ :=
        removeLoop_of_notMem l .head q.head.next hrep.list hx' (hlen ▸ heven)
      refine ⟨fuel, -1, q, hfuel, by simp [hx], l, hrep, ?_⟩
      rw [List.erase_of_not_mem hx, hl]

/-- The item at the head of a queue of one. -/
theorem queueRemoveItem_iff_head :
    (⟨⟨none, some (.node 0)⟩, .node 0, 1, Function.update (fun _ => none) 0 (some ⟨some 7, none⟩)⟩ :
      Queue ℕ).RemovesItem [7] 7 := by
  refine (queueRemoveItem_iff ⟨[(.node 0, some 7)], ⟨?_, rfl, rfl⟩, rfl⟩ 7).2 (.inl rfl)
  exact ⟨rfl, none, rfl, rfl⟩

/-- From a queue of one item, another item is not reported as missing: the loop follows the null
pointer behind the last node. -/
theorem queueRemoveItem_fails : ¬ ∀ (q : Queue ℕ) (xs : List ℕ) (x : ℕ),
    q.Holds xs → q.RemovesItem xs x := by
  intro hall
  let q : Queue ℕ :=
    ⟨⟨none, some (.node 0)⟩, .node 0, 1, Function.update (fun _ => none) 0 (some ⟨some 7, none⟩)⟩
  have hq : q.Holds [7] :=
    ⟨[(.node 0, some 7)], ⟨⟨rfl, none, rfl, rfl⟩, rfl, rfl⟩, rfl⟩
  obtain ⟨fuel, r, q', hfuel, -⟩ := hall q [7] 5 hq
  have hfault : q.removeLoop (some 5) 1 .head q.head.next = some (.error .fault) := rfl
  cases removeLoop_unique hfuel hfault

end Queue

end Uthread
