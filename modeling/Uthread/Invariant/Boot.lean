import Uthread.Model.Boot
import Mathlib.Data.List.FinRange

/-!
# How `uthread_init` starts the kernel threads

`kthread_create` waits for the kernel thread that it creates, so they enter the map and store their
kernel ids one after the other: `Booting` says what the state is at each point. When `inited` is set, the
table is complete and all the others wait for `inited_sem`. From then on the library is in a reachable state
of its machine (`LifeInv`).

## Main definitions

* `Booting`, `LifeInv`.

## Main results

* `lifeInv_of_reachable`.
-/

namespace Uthread

variable {n : ℕ} {cfg : Config} {kid : Fin n → ℤ} {e : Event n}

/-! ### The map of `kthread.c` -/

/-- The first free entry of the map is taken. -/
theorem tidmapAddSelf_append {l r : List ℤ} {self : ℤ} (hl : ∀ x ∈ l, x ≠ 0) :
    tidmapAddSelf (l ++ 0 :: r) self = some (l ++ self :: r) := by
  have hfind : tidmapFindTid (l ++ 0 :: r) 0 = some l.length := by
    induction l with
    | nil => simp [tidmapFindTid, List.findIdx?_cons]
    | cons x l ih =>
      have hx : x ≠ 0 := hl x List.mem_cons_self
      have ih := ih fun y hy => hl y (List.mem_cons_of_mem _ hy)
      simp only [tidmapFindTid] at ih
      simp [tidmapFindTid, List.findIdx?_cons, hx, ih]
  simp [tidmapAddSelf, hfind]

/-- The map with the ids of the first `i` kernel threads. -/
def bootMap (kid : Fin n → ℤ) (i : ℕ) : List ℤ :=
  ((List.finRange n).take i).map kid ++ List.replicate (maxKthreads - i) 0

theorem bootMap_zero : bootMap kid 0 = List.replicate maxKthreads 0 := by simp [bootMap]

theorem bootMap_ne_zero {i : ℕ} (hpos : ∀ k, 0 < kid k) :
    ∀ x ∈ ((List.finRange n).take i).map kid, x ≠ 0 := by
  intro x hx
  obtain ⟨k, -, rfl⟩ := List.mem_map.mp hx
  exact (hpos k).ne'

theorem tidmapAddSelf_bootMap {i : ℕ} (hpos : ∀ k, 0 < kid k) (hi : i < n) (him : i < maxKthreads) :
    tidmapAddSelf (bootMap kid i) (kid ⟨i, hi⟩) = some (bootMap kid (i + 1)) := by
  obtain ⟨m, hm⟩ : ∃ m, maxKthreads - i = m + 1 := ⟨maxKthreads - i - 1, by omega⟩
  have hm' : maxKthreads - (i + 1) = m := by omega
  rw [bootMap, hm, List.replicate_succ, tidmapAddSelf_append]
  · rw [bootMap, hm', List.take_add_one]
    simp [List.getElem?_eq_getElem (show i < (List.finRange n).length by simpa using hi)]
  · exact bootMap_ne_zero hpos

/-- There is no entry for a kernel thread beyond `MAX_KTHREADS`. -/
theorem tidmapAddSelf_full {self : ℤ} (hpos : ∀ k, 0 < kid k) :
    tidmapAddSelf (bootMap kid maxKthreads) self = none := by
  have hne := bootMap_ne_zero (i := maxKthreads) hpos
  simp only [tidmapAddSelf, tidmapFindTid, bootMap, Nat.sub_self, List.replicate_zero, List.append_nil,
    Option.map_eq_none_iff, List.findIdx?_eq_none_iff, decide_eq_false_iff_not]
  exact hne

/-! ### The stages of `uthread_init` -/

/-- The other kernel threads, when those before number `i` wait for `inited_sem`. -/
def bootWorkers (i : ℕ) (j : Fin n) : WorkerPc := if 0 < j.val ∧ j.val < i then .kmain else .unborn

/-- The table, when the entries before number `i` have their kernel id. -/
def bootInfo (kid : Fin n → ℤ) (i : ℕ) (j : Fin n) : Option KInfo :=
  some ⟨if j.val < i then kid j else -1, true⟩

/-- The states of `uthread_init` until `inited` is set. -/
inductive Booting (kid : Fin n → ℤ) : Boot n → Prop
  | fill {i pending} (hi : i ≤ n) : Booting kid
      ⟨.fill i, bootWorkers 1, fun j => if j.val < i then bootInfo kid 1 j else none, bootMap kid 0, false, 0,
        false, pending, none⟩
  | create {i pending} (h1 : 1 ≤ i) (hi : i ≤ n) (him : i ≤ maxKthreads) : Booting kid
      ⟨.create i, bootWorkers i, bootInfo kid i, if i = 1 then bootMap kid 0 else bootMap kid i,
        decide (i ≠ 1), 0, false, pending, none⟩
  | add {i pending} (h1 : 1 ≤ i) (hi : i < n) (him : i ≤ maxKthreads) : Booting kid
      ⟨.wait i, Function.update (bootWorkers i) ⟨i, hi⟩ .add, bootInfo kid i, bootMap kid i, true, 0, false,
        pending, none⟩
  | store {i pending} (h1 : 1 ≤ i) (hi : i < n) (him : i < maxKthreads) : Booting kid
      ⟨.wait i, Function.update (bootWorkers i) ⟨i, hi⟩ (.store (kid ⟨i, hi⟩)), bootInfo kid i,
        bootMap kid (i + 1), true, 0, false, pending, none⟩
  | post {i pending} (h1 : 1 ≤ i) (hi : i < n) (him : i < maxKthreads) : Booting kid
      ⟨.wait i, Function.update (bootWorkers i) ⟨i, hi⟩ (.post false), bootInfo kid (i + 1),
        bootMap kid (i + 1), true, 0, false, pending, none⟩
  | posted {i pending} (h1 : 1 ≤ i) (hi : i < n) (him : i < maxKthreads) : Booting kid
      ⟨.wait i, bootWorkers (i + 1), bootInfo kid (i + 1), bootMap kid (i + 1), true, 1, false, pending, none⟩
  | inited {kthreads kinited pending} (hk : 1 < n → kthreads = bootMap kid n) : Booting kid
      ⟨.inited, bootWorkers n, bootInfo kid n, kthreads, kinited, 0, false, pending, none⟩
  | full {pending} (hi : maxKthreads < n) : Booting kid
      ⟨.wait maxKthreads, Function.update (bootWorkers maxKthreads) ⟨maxKthreads, hi⟩ (.post true),
        bootInfo kid maxKthreads, bootMap kid maxKthreads, true, 0, true, pending, none⟩
  | refused {pending} (hi : maxKthreads < n) : Booting kid
      ⟨.wait maxKthreads, Function.update (bootWorkers maxKthreads) ⟨maxKthreads, hi⟩ .ended,
        bootInfo kid maxKthreads, bootMap kid maxKthreads, true, 1, true, pending, none⟩
  | aborted {b : Boot n} (hi : maxKthreads < n) (hh : b.halt ≠ none) (hpc : b.pc ≠ .inited) : Booting kid b

theorem bootWorkers_cases (i : ℕ) (j : Fin n) : bootWorkers i j = .kmain ∨ bootWorkers i j = .unborn := by
  unfold bootWorkers
  split <;> simp

theorem update_bootWorkers {i : ℕ} (h1 : 1 ≤ i) (hi : i < n) :
    Function.update (bootWorkers i) ⟨i, hi⟩ .kmain = bootWorkers (n := n) (i + 1) := by
  funext j
  by_cases hj : j = ⟨i, hi⟩
  · subst hj
    simp [bootWorkers, Nat.one_le_iff_ne_zero.mp h1, Nat.pos_of_ne_zero]
  · have hne : j.val ≠ i := fun h => hj (Fin.ext h)
    have hiff : j.val < i + 1 ↔ j.val < i := by omega
    simp [hj, bootWorkers, hiff]

theorem update_bootInfo {i : ℕ} (hi : i < n) :
    Function.update (bootInfo kid i) ⟨i, hi⟩ (some ⟨kid ⟨i, hi⟩, true⟩) = bootInfo kid (i + 1) := by
  funext j
  by_cases hj : j = ⟨i, hi⟩
  · subst hj
    simp [bootInfo]
  · have hne : j.val ≠ i := fun h => hj (Fin.ext h)
    have hiff : j.val < i + 1 ↔ j.val < i := by omega
    simp [hj, bootInfo, hiff]

theorem update_fill {i : ℕ} {k : Fin n} (hi : i < n) (hk : k.val = 0) :
    Function.update (fun j : Fin n => if j.val < i then bootInfo kid 1 j else none) ⟨i, hi⟩
      (some ⟨if i = 0 then kid k else -1, true⟩) =
      fun j => if j.val < i + 1 then bootInfo kid 1 j else none := by
  funext j
  by_cases hj : j = ⟨i, hi⟩
  · subst hj
    by_cases h0 : i = 0
    · subst h0
      obtain rfl : k = ⟨0, hi⟩ := Fin.ext hk
      simp [bootInfo]
    · simp [bootInfo, h0]
  · have hne : j.val ≠ i := fun h => hj (Fin.ext h)
    have hiff : j.val < i + 1 ↔ j.val < i := by omega
    simp [hj, hiff]

/-- The first creation also enters the main kernel thread in the map. -/
theorem bootMap_create {i : ℕ} {k : Fin n} (hpos : ∀ k, 0 < kid k) (hi : i < n) (hk : k.val = 0) :
    (if decide (i ≠ 1) = true then if i = 1 then bootMap kid 0 else bootMap kid i
      else (tidmapAddSelf (if i = 1 then bootMap kid 0 else bootMap kid i) (kid k)).getD
        (if i = 1 then bootMap kid 0 else bootMap kid i)) = bootMap kid i := by
  by_cases hi1 : i = 1
  · have hk0 : k = ⟨0, Nat.zero_lt_of_lt hi⟩ := Fin.ext hk
    simp [hi1, hk0, tidmapAddSelf_bootMap hpos (Nat.zero_lt_of_lt hi) (show 0 < maxKthreads by decide)]
  · simp [hi1]

/-- A kernel thread that is not being created takes no step. -/
theorem Boot.stepWorker_of_bootWorkers {b : Boot n} {k : Fin n} {i : ℕ} (hw : b.worker k = bootWorkers i k) :
    b.stepWorker kid k = none := by
  obtain h | h := bootWorkers_cases i k <;> simp [Boot.stepWorker, hw, h]

/-- The steps of `uthread_init` and of the kernel threads that it creates, until `inited` is set. -/
theorem Booting.step {b b' : Boot n} (hB : Booting kid b) (hpos : ∀ k, 0 < kid k)
    (ha : AllocOk e) (hs : b.step kid cfg e = some b') : Booting kid b' := by
  obtain ⟨k, i⟩ := e
  cases i with
  | call c => simp [Boot.step] at hs
  | deliver => simp [Boot.step] at hs
  | tick =>
    simp only [Boot.step] at hs
    split_ifs at hs
    obtain rfl := Option.some.inj hs
    cases hB with
    | fill hi => exact .fill hi
    | create h1 hi him => exact .create h1 hi him
    | add h1 hi him => exact .add h1 hi him
    | store h1 hi him => exact .store h1 hi him
    | post h1 hi him => exact .post h1 hi him
    | posted h1 hi him => exact .posted h1 hi him
    | inited hk => exact .inited hk
    | full hi => exact .full hi
    | refused hi => exact .refused hi
    | aborted hi hh hpc => exact .aborted hi hh hpc
  | run f =>
    obtain rfl : f = none := ha
    by_cases hk : k.val = 0
    · -- the main kernel thread
      simp only [Boot.step, hk, if_true, Boot.stepMain, ne_eq, not_true_eq_false, if_false] at hs
      cases hB with
      | @fill i pending hi =>
        rw [if_pos rfl] at hs
        by_cases h : i < n
        · obtain rfl := Option.some.inj ((dif_pos h).symm.trans hs)
          rw [update_fill h hk]
          exact .fill h
        · obtain rfl := Option.some.inj ((dif_neg h).symm.trans hs)
          obtain rfl : i = n := Nat.le_antisymm hi (Nat.le_of_not_lt h)
          have hinfo : (fun j : Fin i => if j.val < i then bootInfo kid 1 j else none) = bootInfo kid 1 := by
            funext j
            simp [j.isLt]
          rw [hinfo]
          exact @Booting.create i kid 1 pending (Nat.le_refl 1) (Nat.one_le_of_lt k.isLt) (by decide)
      | @create i pending h1 hi him =>
        rw [if_pos rfl] at hs
        by_cases h : i < n
        · obtain rfl := Option.some.inj ((dif_pos h).symm.trans hs)
          simp only [bootMap_create hpos h hk]
          exact .add h1 h him
        · obtain rfl := Option.some.inj ((dif_neg h).symm.trans hs)
          obtain rfl : i = n := Nat.le_antisymm hi (Nat.le_of_not_lt h)
          exact .inited fun h1 => by simp [Nat.ne_of_gt h1]
      | add | store | post | full => simp at hs
      | @posted i pending h1 hi him =>
        obtain rfl := Option.some.inj (by simpa using hs)
        simpa [Nat.one_le_iff_ne_zero.mp h1] using
          @Booting.create n kid (i + 1) pending (Nat.le_add_left 1 i) hi him
      | inited => simp at hs
      | refused hi =>
        obtain rfl := Option.some.inj (by simpa using hs)
        exact .aborted hi (by simp) (by simp)
      | aborted hi hh => simp [hh] at hs
    · -- a kernel thread that is being created
      simp only [Boot.step, hk, if_false] at hs
      cases hB with
      | fill | create | posted | inited =>
        rw [if_pos rfl, Boot.stepWorker_of_bootWorkers rfl] at hs
        cases hs
      | @add i pending h1 hi him =>
        by_cases hki : k = ⟨i, hi⟩
        · subst hki
          rcases Nat.lt_or_eq_of_le him with him | rfl
          · obtain rfl := Option.some.inj
              (by simpa [Boot.stepWorker, tidmapAddSelf_bootMap hpos hi him] using hs)
            exact .store h1 hi him
          · obtain rfl := Option.some.inj (by simpa [Boot.stepWorker, tidmapAddSelf_full hpos] using hs)
            exact .full hi
        · rw [if_pos rfl, Boot.stepWorker_of_bootWorkers (Function.update_of_ne hki _ _)] at hs
          cases hs
      | @store i pending h1 hi him =>
        by_cases hki : k = ⟨i, hi⟩
        · subst hki
          obtain rfl := Option.some.inj (by simpa [Boot.stepWorker, bootInfo] using hs)
          simpa [← update_bootInfo hi] using Booting.post h1 hi him
        · rw [if_pos rfl, Boot.stepWorker_of_bootWorkers (Function.update_of_ne hki _ _)] at hs
          cases hs
      | @post i pending h1 hi him =>
        by_cases hki : k = ⟨i, hi⟩
        · subst hki
          obtain rfl := Option.some.inj (by simpa [Boot.stepWorker] using hs)
          rw [update_bootWorkers h1 hi]
          exact .posted h1 hi him
        · rw [if_pos rfl, Boot.stepWorker_of_bootWorkers (Function.update_of_ne hki _ _)] at hs
          cases hs
      | @full pending hi =>
        by_cases hki : k = ⟨maxKthreads, hi⟩
        · subst hki
          obtain rfl := Option.some.inj (by simpa [Boot.stepWorker] using hs)
          exact .refused hi
        · rw [if_pos rfl, Boot.stepWorker_of_bootWorkers (Function.update_of_ne hki _ _)] at hs
          cases hs
      | @refused pending hi =>
        by_cases hki : k = ⟨maxKthreads, hi⟩
        · subst hki
          simp [Boot.stepWorker] at hs
        · rw [if_pos rfl, Boot.stepWorker_of_bootWorkers (Function.update_of_ne hki _ _)] at hs
          cases hs
      | aborted hi hh => simp [hh] at hs

/-! ### The whole life of the library -/

theorem State.start_false : State.start cfg (fun _ : Fin n => false) = State.init n cfg := by
  have hkt : (fun k => { (State.init n cfg).kt k with pending := false }) = (State.init n cfg).kt := by
    funext k
    simp only [State.init]
    split <;> rfl
  simp [State.start, hkt]

/-- A signal that becomes pending before `inited` is set may as well become pending at that moment. -/
theorem State.start_tick {pending : Fin n → Bool} {k : Fin n} (hq : cfg.preemptive = true) :
    (State.start cfg pending).step cfg (k, .tick) =
      some (State.start cfg (Function.update pending k true)) := by
  have hkt : Function.update (State.start cfg pending).kt k
      { (State.start cfg pending).kt k with pending := true } =
        (State.start cfg (Function.update pending k true)).kt := by
    funext j
    by_cases hj : j = k
    · subst hj
      simp [State.start]
    · simp [State.start, hj]
  simp only [State.step, hq, if_true, State.setK, hkt]
  rfl

/-- The steps before `inited` is set keep the pending signals; only a tick adds one. -/
theorem Boot.pending_cases {b b' : Boot n} (hs : b.step kid cfg e = some b') :
    b'.pending = b.pending ∨ ∃ k, e = (k, .tick) ∧ cfg.preemptive = true ∧
      b'.pending = Function.update b.pending k true := by
  obtain ⟨k, i⟩ := e
  cases i with
  | call c => simp [Boot.step] at hs
  | deliver => simp [Boot.step] at hs
  | tick =>
    simp only [Boot.step] at hs
    split_ifs at hs with _ hq
    exact .inr ⟨k, rfl, hq, congrArg Boot.pending (Option.some.inj hs).symm⟩
  | run f =>
    left
    simp only [Boot.step] at hs
    split_ifs at hs
    · unfold Boot.stepMain at hs
      repeat' split at hs
      all_goals cases hs <;> rfl
    · unfold Boot.stepWorker at hs
      repeat' split at hs
      all_goals cases hs <;> rfl

/-- What holds before and after `inited` is set. -/
def LifeInv (cfg : Config) (kid : Fin n → ℤ) : Life n → Prop
  | .boot b => Booting kid b ∧ (machine n cfg).Reachable Obeys (State.start cfg b.pending)
  | .live info kthreads s => info = bootInfo kid n ∧ (1 < n → kthreads = bootMap kid n) ∧
      (machine n cfg).Reachable Obeys s

theorem lifeInv_of_reachable {L : Life n} (hpos : ∀ k, 0 < kid k)
    (hr : (lifeMachine n cfg kid).Reachable Life.Ok L) : LifeInv cfg kid L := by
  refine hr.invariant (I := LifeInv cfg kid) ?_ ?_
  · have hw : (fun _ : Fin n => WorkerPc.unborn) = bootWorkers 1 := by
      funext j
      rw [bootWorkers, if_neg (by omega)]
    have hinit := @Booting.fill n kid 0 (fun _ => false) (Nat.zero_le n)
    refine ⟨by simpa [Boot.init, hw, bootMap_zero] using hinit, ?_⟩
    exact State.start_false ▸ EventMachine.Run.init.reachable
  · intro L e L' hL ho hs
    have hs : L.step cfg kid e = some L' := hs
    cases L with
    | boot b =>
      obtain ⟨hB, hreach⟩ := hL
      simp only [Life.step] at hs
      split_ifs at hs with hin
      · obtain rfl := Option.some.inj hs
        refine ⟨?_, ?_, hreach⟩
        · cases hB <;> simp_all
        · cases hB <;> simp_all
      · obtain ⟨b', hb', rfl⟩ := Option.map_eq_some_iff.mp hs
        refine ⟨hB.step hpos ho hb', ?_⟩
        rcases Boot.pending_cases hb' with hp | ⟨k, rfl, hq, hp⟩
        · exact hp ▸ hreach
        · obtain ⟨h, hrun⟩ := hreach
          have ho : Obeys (State.start cfg b.pending) (k, .tick) :=
            ⟨trivial, trivial, trivial, trivial, trivial⟩
          have hstep : (machine n cfg).step (State.start cfg b.pending) (k, .tick) = _ := State.start_tick hq
          exact hp ▸ (hrun.step ho hstep).reachable
    | live info kthreads s =>
      obtain ⟨hinfo, hmap, h, hrun⟩ := hL
      obtain ⟨s', hs', rfl⟩ := Option.map_eq_some_iff.mp hs
      exact ⟨hinfo, hmap, (hrun.step ho hs').reachable⟩

end Uthread
