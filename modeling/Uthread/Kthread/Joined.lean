import Uthread.Kthread.Distinct

/-!
# Creating and joining kernel threads

What `kthread_create` and `kthread_join` do with the map, in every run in which no kernel thread enters itself
under an id that is still in the map. The condition cannot be dropped: an id is in the map until the kernel
thread is joined, and the kernel may reissue it as soon as the kernel thread has exited.

## Main definitions

* `FullWhenAdded`: the map was full when a kernel thread tried to enter itself.
* `RegistryOk`: what is expected of the map in a state of a run.

## Main results

* `registry_ok_iff`.
-/

namespace Uthread

variable {s s' : Registry} {p q : Pthread} {i : ℕ} {tid mainTid : ℤ} {x : KthreadPc} {e : KthreadEvent}
  {h : List (Registry × KthreadEvent)} {full : Prop} {a : TrampolineArgs}

/-- All entries of the map are taken. -/
def Registry.Full (s : Registry) : Prop := ∀ x ∈ s.kthreads, x.tid ≠ 0

/-- All entries were taken when `kthread_trampoline` of `q` called `tidmap_add_self`. -/
def FullWhenAdded (h : List (Registry × KthreadEvent)) (q : Pthread) : Prop :=
  ∃ s, (s, (q, .run)) ∈ h ∧ s.pc q = .trampoline .addSelf ∧ s.Full

/-- What is expected of the map in a state of a run: the ids are distinct; `kthread_join` of an id that
`kthread_create` has stored for `q` joins `q`, frees the entry of `q` only and returns `0`; and `kthread_create`
returns `-1` when all entries were taken as its kernel thread tried to enter itself, and then only. -/
structure RegistryOk (h : List (Registry × KthreadEvent)) (s : Registry) : Prop where
  length : s.kthreads.length = maxKthreads
  distinct : s.Distinct
  finds : ∀ p tid q, s.pc p = .join tid .find → (s.args q).ptid = some tid → s.joined q = false →
    ∃ i, s.EntryOf i tid q ∧ s.step (p, .run) = some (s.goto p (.join tid (.join i (some q))))
  joins : ∀ p tid i q, s.pc p = .join tid (.join i (some q)) → s.joined q = false → s.pc q = .exited →
    s.EntryOf i tid q ∧ s.step (p, .run) = some ({ s with joined := Function.update s.joined q true }.goto p
      (.join tid (.del i q)))
  frees : ∀ p tid i q, s.pc p = .join tid (.del i q) → s.joined q = true ∧ s.EntryOf i tid q ∧
    s.step (p, .run) = some ({ s with kthreads := s.kthreads.set i ⟨0, some q⟩ }.goto p (.user (some 0)))
  changes : ∀ e s', s.step e = some s' → s'.kthreads ≠ s.kthreads →
    s.Adds e.1 ∧ ¬ s.Full ∨ ∃ tid i q, s.pc e.1 = .join tid (.del i q)
  adds : ∀ p s', s.pc p = .trampoline .addSelf → s.step (p, .run) = some s' →
    (s'.kthreads = s.kthreads ↔ s.Full)
  returns : ∀ p q s', s.pc p = .create (.wait q) → s.step (p, .run) = some s' →
    s'.pc p = .user (some (-1)) ∧ FullWhenAdded h q ∨
      s'.pc p = .user (some 0) ∧ ¬ FullWhenAdded h q ∧ (s.args q).ptid = some (s.tid q)
  fails : ∀ p rv s', s.KernelOk (p, .failed rv) → s.step (p, .failed rv) = some s' →
    s'.pc p = .user (some rv) ∧ rv ≠ -1

/-! ### What a call of `kthread_create` learns from its kernel thread -/

/-- The arguments `a` of a kernel thread with the kernel id `tid`, at its points; `full` says that the map was full
when it tried to enter itself. -/
def ArgsAt (full : Prop) (a : TrampolineArgs) (tid : ℤ) : KthreadPc → Prop
  | .unborn | .trampoline .addSelf | .trampoline (.added _) | .trampoline (.store _) =>
    a.sem = 0 ∧ a.error = 0 ∧ ¬ full
  | .trampoline (.check id) => a.sem = 0 ∧ a.error = 0 ∧ (id = -1 ↔ full)
  | .trampoline (.post error) => a.sem = 0 ∧ (error = true ↔ full) ∧ (error = true ↔ a.error ≠ 0) ∧
    (error = false → a.ptid = some tid)
  | _ => 0 < a.sem → (a.error ≠ 0 ↔ full) ∧ (a.error = 0 → a.ptid = some tid)

/-- Outside of `kthread_trampoline` only what has been posted matters. -/
theorem argsAt_outside (hx : ∀ y, x ≠ .trampoline y) (hx' : x ≠ .unborn) : ArgsAt full a tid x ↔
    (0 < a.sem → (a.error ≠ 0 ↔ full) ∧ (a.error = 0 → a.ptid = some tid)) := by
  cases x with
  | unborn => exact absurd rfl hx'
  | trampoline y => exact absurd rfl (hx y)
  | _ => exact Iff.rfl

theorem ArgsAt.take (ha : ArgsAt full a tid x) : ArgsAt full { a with sem := a.sem - 1 } tid x := by
  cases x with
  | unborn => exact ⟨by simp [ha.1], ha.2⟩
  | trampoline y => cases y <;> exact ⟨by simp [ha.1], ha.2⟩
  | _ => exact fun hpos => ha (Nat.lt_of_lt_of_le hpos (Nat.sub_le _ _))

/-- A kernel thread that has posted has entered itself or has reported that the map is full. -/
theorem ArgsAt.of_sem_pos (ha : ArgsAt full a tid x) (hpos : 0 < a.sem) :
    (a.error ≠ 0 ↔ full) ∧ (a.error = 0 → a.ptid = some tid) := by
  have hne : a.sem ≠ 0 := Nat.ne_of_gt hpos
  cases x with
  | unborn => exact absurd ha.1 hne
  | trampoline y => cases y <;> exact absurd ha.1 hne
  | _ => exact ha hpos

/-- The arguments of all kernel threads are as their points say. -/
def ArgsInv (h : List (Registry × KthreadEvent)) (s : Registry) : Prop :=
  ∀ p, ArgsAt (FullWhenAdded h p) (s.args p) (s.tid p) (s.pc p)

theorem fullWhenAdded_cons : FullWhenAdded ((s, e) :: h) q ↔
    (e = (q, .run) ∧ s.pc q = .trampoline .addSelf ∧ s.Full) ∨ FullWhenAdded h q := by
  simp only [FullWhenAdded, List.mem_cons, Prod.mk.injEq]
  constructor
  · rintro ⟨s₁, ⟨rfl, rfl⟩ | hmem, hs₁⟩
    · exact .inl ⟨rfl, hs₁⟩
    · exact .inr ⟨s₁, hmem, hs₁⟩
  · rintro (⟨rfl, hs⟩ | ⟨s₁, hmem, hs₁⟩)
    · exact ⟨s, .inl ⟨rfl, rfl⟩, hs⟩
    · exact ⟨s₁, .inr hmem, hs₁⟩

theorem fullWhenAdded_cons_of_ne (hne : ∀ f, e = (q, f) → s.pc q ≠ .trampoline .addSelf) :
    FullWhenAdded ((s, e) :: h) q ↔ FullWhenAdded h q := by
  rw [fullWhenAdded_cons, or_iff_right]
  rintro ⟨he, hpc, -⟩
  exact hne _ he hpc

/-- What a step does to another kernel thread: nothing, it takes what this one has posted, or it makes it. -/
theorem Registry.step_other (hs : s.step e = some s') (hq : q ≠ e.1) :
    (s'.pc q = s.pc q ∧ s'.tid q = s.tid q ∧
      (s'.args q = s.args q ∨ s'.args q = { s.args q with sem := (s.args q).sem - 1 })) ∨
    (q = s.fresh ∧ s'.pc q = .trampoline .addSelf ∧ s'.args q = {}) := by
  obtain ⟨p, j⟩ := e
  have hq : q ≠ p := hq
  have hadd (next : ℕ → KthreadPc) (full : KthreadPc) : (s.addSelf p next full).pc q = s.pc q ∧
      (s.addSelf p next full).tid q = s.tid q ∧ (s.addSelf p next full).args q = s.args q := by
    unfold Registry.addSelf
    split <;> simp [Registry.goto, Function.update_of_ne hq]
  cases j with
  | made id =>
    simp only [Registry.step] at hs
    split_ifs at hs
    obtain rfl := Option.some.inj hs
    by_cases hqf : q = s.fresh
    · subst hqf
      exact .inr ⟨rfl, by simp [Registry.spawn, Function.update_of_ne hq], by simp [Registry.spawn]⟩
    · exact .inl (by simp [Registry.spawn, Function.update_of_ne hq, Function.update_of_ne hqf])
  | failed rv =>
    simp only [Registry.step] at hs
    split_ifs at hs
    obtain rfl := Option.some.inj hs
    exact .inl (by simp [Registry.goto, Function.update_of_ne hq])
  | create | join tid | exit =>
    simp only [Registry.step] at hs
    split at hs
    · obtain rfl := Option.some.inj hs
      exact .inl (by simp [Registry.goto, Function.update_of_ne hq])
    · cases hs
  | run =>
    refine .inl ?_
    simp only [Registry.step, Registry.stepRun] at hs
    split at hs
    · next y hpc =>
      cases y with
      | addSelf =>
        obtain rfl := Option.some.inj hs
        exact ⟨(hadd _ _).1, (hadd _ _).2.1, .inl (hadd _ _).2.2⟩
      | wait q' =>
        simp only [Registry.stepCreate] at hs
        split at hs
        · obtain rfl := Option.some.inj hs
          by_cases hqq : q = q'
          · subst hqq
            simp [Registry.goto, Function.update_of_ne hq]
          · simp [Registry.goto, Function.update_of_ne hq, Function.update_of_ne hqq]
        · cases hs
      | spawn => cases hs
      | _ =>
        obtain rfl := Option.some.inj hs
        simp [Registry.goto, Function.update_of_ne hq]
    · next y hpc =>
      cases y with
      | addSelf =>
        obtain rfl := Option.some.inj hs
        exact ⟨(hadd _ _).1, (hadd _ _).2.1, .inl (hadd _ _).2.2⟩
      | added i =>
        obtain ⟨y, -, rfl⟩ := Option.map_eq_some_iff.mp hs
        simp [Registry.goto, Function.update_of_ne hq]
      | check id =>
        simp only [Registry.stepTrampoline] at hs
        split at hs <;> obtain rfl := Option.some.inj hs <;>
          simp [Registry.goto, Function.update_of_ne hq]
      | _ =>
        obtain rfl := Option.some.inj hs
        simp [Registry.goto, Function.update_of_ne hq]
    · next tid y hpc =>
      cases y with
      | find =>
        simp only [Registry.stepJoin] at hs
        split at hs
        · obtain ⟨y, -, rfl⟩ := Option.map_eq_some_iff.mp hs
          simp [Registry.goto, Function.update_of_ne hq]
        · obtain rfl := Option.some.inj hs
          simp [Registry.goto, Function.update_of_ne hq]
      | join i thread =>
        simp only [Registry.stepJoin] at hs
        split at hs
        · split_ifs at hs
          obtain rfl := Option.some.inj hs
          simp [Registry.goto, Function.update_of_ne hq]
        · cases hs
      | del i q' =>
        obtain rfl := Option.some.inj hs
        simp [Registry.goto, Function.update_of_ne hq]
    · cases hs
    · cases hs
    · cases hs

/-- A step outside of `kthread_trampoline` changes nothing that concerns the arguments. -/
theorem Registry.step_outside (hs : s.step (p, .run) = some s') (hpc : ∀ y, s.pc p ≠ .trampoline y) :
    (∀ y, s'.pc p ≠ .trampoline y) ∧ s'.pc p ≠ .unborn ∧ s'.tid p = s.tid p ∧
      (s'.args p = s.args p ∨ s'.args p = { s.args p with sem := (s.args p).sem - 1 }) := by
  simp only [Registry.step, Registry.stepRun] at hs
  split at hs
  · next y _ =>
    cases y with
    | addSelf =>
      obtain rfl := Option.some.inj hs
      unfold Registry.addSelf
      split <;> simp [Registry.goto]
    | wait q' =>
      simp only [Registry.stepCreate] at hs
      split at hs
      · obtain rfl := Option.some.inj hs
        by_cases hqq : p = q'
        · subst hqq
          simp [Registry.goto]
        · simp [Registry.goto, Function.update_of_ne hqq]
      · cases hs
    | spawn => cases hs
    | _ =>
      obtain rfl := Option.some.inj hs
      simp [Registry.goto]
  · next y hc => exact absurd hc (hpc y)
  · next tid y _ =>
    cases y with
    | find =>
      simp only [Registry.stepJoin] at hs
      split at hs
      · obtain ⟨y, -, rfl⟩ := Option.map_eq_some_iff.mp hs
        simp [Registry.goto]
      · obtain rfl := Option.some.inj hs
        simp [Registry.goto]
    | join i thread =>
      simp only [Registry.stepJoin] at hs
      split at hs
      · split_ifs at hs
        obtain rfl := Option.some.inj hs
        simp [Registry.goto]
      · cases hs
    | del i q' =>
      obtain rfl := Option.some.inj hs
      simp [Registry.goto]
  · cases hs
  · cases hs
  · cases hs

theorem ArgsInv.stepTrampoline (I : RegistryInv s) (A : ArgsInv h s) {y : TrampolinePc}
    (hpc : s.pc p = .trampoline y) (hs : s.stepTrampoline p y = some s') :
    ArgsAt (FullWhenAdded ((s, (p, .run)) :: h) p) (s'.args p) (s'.tid p) (s'.pc p) := by
  have ha := A p
  have hpr := I.promise p
  have hpos := I.pos p (I.lt_of_pc (by simp [hpc]))
  rw [hpc] at ha hpr
  have hfull (hy : y ≠ .addSelf) : FullWhenAdded ((s, (p, .run)) :: h) p ↔ FullWhenAdded h p :=
    fullWhenAdded_cons_of_ne fun _ _ => by simpa [hpc] using hy
  cases y with
  | addSelf =>
    obtain rfl := Option.some.inj hs
    obtain ⟨hsem, herror, hfull'⟩ := ha
    unfold Registry.addSelf
    split
    · next i hi =>
      simp only [Registry.goto, Function.update_self, ArgsAt, fullWhenAdded_cons]
      refine ⟨hsem, herror, ?_⟩
      rintro (⟨-, -, hall⟩ | hold)
      · obtain ⟨z, hz, hz0⟩ := Registry.exists_of_findTid hi
        exact hall z (List.mem_of_getElem? hz) hz0
      · exact hfull' hold
    · next hnone =>
      simp only [Registry.goto, Function.update_self, ArgsAt, fullWhenAdded_cons, true_iff]
      exact ⟨hsem, herror, .inl ⟨trivial, hpc, Registry.findTid_eq_none.mp hnone⟩⟩
  | added i =>
    have he : s.kthreads[i]? = some ⟨s.tid p, some p⟩ := hpr
    simp only [Registry.stepTrampoline, he, Option.map_some, Option.some.injEq] at hs
    obtain rfl := hs
    obtain ⟨hsem, herror, hfull'⟩ := ha
    simp only [Registry.goto, Function.update_self, ArgsAt, hfull (by simp)]
    refine ⟨hsem, herror, iff_of_false ?_ hfull'⟩
    omega
  | check id =>
    obtain ⟨hsem, herror, hfull'⟩ := ha
    simp only [Registry.stepTrampoline] at hs
    split_ifs at hs with hneg
    · obtain rfl := Option.some.inj hs
      have hid : id = -1 := by
        refine hpr.resolve_right ?_
        rintro ⟨rfl, -⟩
        omega
      simp only [Registry.goto, Function.update_self, ArgsAt, hfull (by simp)]
      exact ⟨hsem, by simp [← hfull', hid], by simp [eagain], by simp⟩
    · obtain rfl := Option.some.inj hs
      simp only [Registry.goto, Function.update_self, ArgsAt, hfull (by simp)]
      refine ⟨hsem, herror, hfull'.not.mp ?_⟩
      rintro rfl
      exact hneg (by decide)
  | store id =>
    obtain rfl := Option.some.inj hs
    obtain ⟨hsem, herror, hfull'⟩ := ha
    obtain ⟨rfl, -⟩ : id = s.tid p ∧ ∃ i, s.EntryOf i (s.tid p) p := hpr
    simp only [Registry.goto, Function.update_self, ArgsAt, hfull (by simp)]
    exact ⟨hsem, by simp [hfull'], by simp [herror], by simp⟩
  | post error =>
    obtain rfl := Option.some.inj hs
    obtain ⟨-, hfull', herror, hptid⟩ := ha
    have hend : ((s.args p).error ≠ 0 ↔ FullWhenAdded h p) ∧
        ((s.args p).error = 0 → (s.args p).ptid = some (s.tid p)) := by
      refine ⟨herror.symm.trans hfull', fun h0 => hptid ?_⟩
      by_contra hne
      exact herror.mp (by simpa using hne) h0
    cases error <;> simp only [Registry.goto, Function.update_self, hfull (by simp)] <;> exact fun _ => hend

theorem ArgsInv.step (I : RegistryInv s) (A : ArgsInv h s) (hs : s.step e = some s') : ArgsInv ((s, e) :: h) s' := by
  intro q
  by_cases hq : q = e.1
  · subst hq
    obtain ⟨p, j⟩ := e
    change ArgsAt (FullWhenAdded ((s, (p, j)) :: h) p) (s'.args p) (s'.tid p) (s'.pc p)
    have ha := A p
    -- where `kthread_trampoline` is left out, the arguments are as before
    have hout (hpc : ∀ y, s.pc p ≠ .trampoline y) (hpc' : ∀ y, s'.pc p ≠ .trampoline y) (hu : s.pc p ≠ .unborn)
        (hu' : s'.pc p ≠ .unborn) (htid : s'.tid p = s.tid p)
        (hargs : s'.args p = s.args p ∨ s'.args p = { s.args p with sem := (s.args p).sem - 1 }) :
        ArgsAt (FullWhenAdded ((s, (p, j)) :: h) p) (s'.args p) (s'.tid p) (s'.pc p) := by
      have hfull : FullWhenAdded ((s, (p, j)) :: h) p ↔ FullWhenAdded h p :=
        fullWhenAdded_cons_of_ne fun _ _ => hpc _
      rw [propext hfull, argsAt_outside hpc' hu', htid, ← argsAt_outside hpc hu]
      rcases hargs with hargs | hargs <;> rw [hargs]
      · exact ha
      · exact ha.take
    cases j with
    | run =>
      by_cases hpc : ∃ y, s.pc p = .trampoline y
      · obtain ⟨y, hpc⟩ := hpc
        refine A.stepTrampoline I hpc ?_
        simpa [Registry.step, Registry.stepRun, hpc] using hs
      · have hpc : ∀ y, s.pc p ≠ .trampoline y := fun y hy => hpc ⟨y, hy⟩
        obtain ⟨hpc', hu', htid, hargs⟩ := Registry.step_outside hs hpc
        refine hout hpc hpc' ?_ hu' htid hargs
        intro hu
        simp [Registry.step, Registry.stepRun, hu] at hs
    | made id =>
      simp only [Registry.step] at hs
      split_ifs at hs with hpc
      obtain rfl := Option.some.inj hs
      have hne : p ≠ s.fresh := Nat.ne_of_lt (I.lt_of_pc (by simp [hpc]))
      exact hout (by simp [hpc]) (by simp [Registry.spawn]) (by simp [hpc]) (by simp [Registry.spawn])
        (by simp [Registry.spawn, Function.update_of_ne hne])
        (.inl (by simp [Registry.spawn, Function.update_of_ne hne]))
    | failed rv =>
      simp only [Registry.step] at hs
      split_ifs at hs with hpc
      obtain rfl := Option.some.inj hs
      exact hout (by simp [hpc]) (by simp [Registry.goto]) (by simp [hpc]) (by simp [Registry.goto]) rfl (.inl rfl)
    | create | join tid | exit =>
      simp only [Registry.step] at hs
      split at hs
      · next r hpc =>
        obtain rfl := Option.some.inj hs
        exact hout (by simp [hpc]) (by simp [Registry.goto]) (by simp [hpc]) (by simp [Registry.goto]) rfl
          (.inl rfl)
      · cases hs
  · have hfull : FullWhenAdded ((s, e) :: h) q ↔ FullWhenAdded h q :=
      fullWhenAdded_cons_of_ne fun f he => absurd (by rw [he]) hq
    rw [propext hfull]
    obtain ⟨hpc, htid, hargs⟩ | ⟨rfl, hpc, hargs⟩ := Registry.step_other hs hq
    · rw [hpc, htid]
      rcases hargs with hargs | hargs <;> rw [hargs]
      · exact A q
      · exact (A q).take
    · have ha := A s.fresh
      rw [(I.born _).mpr le_rfl] at ha
      rw [hpc, hargs]
      exact ⟨rfl, rfl, ha.2.2⟩

/-! ### Every run -/

theorem registryInv_of_run (h0 : 0 < mainTid)
    (hr : (registryMachine mainTid).Run (fun s e => s.KernelOk e ∧ s.IdFresh e) h s) :
    RegistryInv s ∧ ArgsInv h s := by
  refine hr.history_invariant (I := fun h s => RegistryInv s ∧ ArgsInv h s) ?_ ?_
  · refine ⟨.init h0, fun p => ?_⟩
    have hfull : ¬ FullWhenAdded [] p := by simp [FullWhenAdded]
    change ArgsAt (FullWhenAdded [] p) {} mainTid (if p = 0 then .user none else .unborn)
    split_ifs
    · exact fun hpos => absurd hpos (by decide)
    · exact ⟨rfl, rfl, hfull⟩
  · rintro h s e s' - ⟨I, A⟩ hp hs
    exact ⟨I.step hp.1 hp.2 hs, A.step I hs⟩

/-- The map changes only where a kernel thread takes a free entry and where one is freed. -/
theorem Registry.changes (hs : s.step e = some s') (hne : s'.kthreads ≠ s.kthreads) :
    s.Adds e.1 ∧ ¬ s.Full ∨ ∃ tid i q, s.pc e.1 = .join tid (.del i q) := by
  obtain ⟨p, j⟩ := e
  have hadd (next : ℕ → KthreadPc) (full : KthreadPc) (hne : (s.addSelf p next full).kthreads ≠ s.kthreads) :
      ¬ s.Full := by
    intro hfull
    simp [Registry.addSelf, Registry.findTid_eq_none.mpr hfull, Registry.goto] at hne
  cases j with
  | run =>
    simp only [Registry.step, Registry.stepRun] at hs
    split at hs
    · next y hpc =>
      cases y with
      | addSelf =>
        obtain rfl := Option.some.inj hs
        exact .inl ⟨.inl hpc, hadd _ _ hne⟩
      | wait q =>
        simp only [Registry.stepCreate] at hs
        split at hs
        · obtain rfl := Option.some.inj hs
          exact absurd rfl hne
        · cases hs
      | spawn => cases hs
      | _ =>
        obtain rfl := Option.some.inj hs
        exact absurd rfl hne
    · next y hpc =>
      cases y with
      | addSelf =>
        obtain rfl := Option.some.inj hs
        exact .inl ⟨.inr hpc, hadd _ _ hne⟩
      | added i =>
        obtain ⟨y, -, rfl⟩ := Option.map_eq_some_iff.mp hs
        exact absurd rfl hne
      | check id =>
        simp only [Registry.stepTrampoline] at hs
        split at hs <;> obtain rfl := Option.some.inj hs <;> exact absurd rfl hne
      | _ =>
        obtain rfl := Option.some.inj hs
        exact absurd rfl hne
    · next tid y hpc =>
      cases y with
      | find =>
        simp only [Registry.stepJoin] at hs
        split at hs
        · obtain ⟨y, -, rfl⟩ := Option.map_eq_some_iff.mp hs
          exact absurd rfl hne
        · obtain rfl := Option.some.inj hs
          exact absurd rfl hne
      | join i thread =>
        simp only [Registry.stepJoin] at hs
        split at hs
        · split_ifs at hs
          obtain rfl := Option.some.inj hs
          exact absurd rfl hne
        · cases hs
      | del i q => exact .inr ⟨tid, i, q, hpc⟩
    · cases hs
    · cases hs
    · cases hs
  | made id =>
    simp only [Registry.step] at hs
    split_ifs at hs
    obtain rfl := Option.some.inj hs
    exact absurd rfl hne
  | failed rv =>
    simp only [Registry.step] at hs
    split_ifs at hs
    obtain rfl := Option.some.inj hs
    exact absurd rfl hne
  | create | join tid | exit =>
    simp only [Registry.step] at hs
    split at hs
    · obtain rfl := Option.some.inj hs
      exact absurd rfl hne
    · cases hs

theorem RegistryInv.registryOk (I : RegistryInv s) (A : ArgsInv h s) : RegistryOk h s where
  length := I.length
  distinct := I.distinct
  finds p tid q hpc hq hj := by
    obtain ⟨hlt, rfl, he⟩ := I.ptid q tid hq
    obtain ⟨i, he⟩ := he hj
    have hfind := I.distinct.findTid he (I.tid_ne_zero hlt)
    refine ⟨i, he, ?_⟩
    have he' : s.kthreads[i]? = some ⟨s.tid q, some q⟩ := he
    simp [Registry.step, Registry.stepRun, hpc, Registry.stepJoin, hfind, he']
  joins p tid i q hpc hj hexit := by
    have hpr := I.promise p
    rw [hpc] at hpr
    refine ⟨(hpr q rfl hj).1, ?_⟩
    simp [Registry.step, Registry.stepRun, hpc, Registry.stepJoin, hexit]
  frees p tid i q hpc := by
    have hpr := I.promise p
    rw [hpc] at hpr
    obtain ⟨hj, he, -⟩ := hpr
    have he' : s.kthreads[i]? = some ⟨tid, some q⟩ := he
    refine ⟨hj, he, ?_⟩
    simp [Registry.step, Registry.stepRun, hpc, Registry.stepJoin, List.modify_eq_set_getElem?, he']
  changes e s' hs hne := Registry.changes hs hne
  adds p s' hpc hs := by
    simp only [Registry.step, Registry.stepRun, hpc, Registry.stepTrampoline, Option.some.injEq] at hs
    subst hs
    constructor
    · intro heq x hx h0
      cases hf : tidmapFindTid s.ids 0 with
      | none => exact Registry.findTid_eq_none.mp hf x hx h0
      | some i =>
        obtain ⟨y, hy, hy0⟩ := Registry.exists_of_findTid hf
        have hlt : i < s.kthreads.length := (List.getElem?_eq_some_iff.mp hy).1
        have hset : s.kthreads.set i ⟨s.tid p, some p⟩ = s.kthreads := by
          simpa [Registry.addSelf, hf, Registry.goto] using heq
        have hself : s.kthreads[i]? = some ⟨s.tid p, some p⟩ := by
          rw [← hset]
          simp [hlt]
        obtain rfl := Option.some.inj (hy.symm.trans hself)
        exact I.tid_ne_zero (I.lt_of_pc (by simp [hpc])) hy0
    · intro hfull
      simp [Registry.addSelf, Registry.findTid_eq_none.mpr hfull, Registry.goto]
  returns p q s' hpc hs := by
    simp only [Registry.step, Registry.stepRun, hpc, Registry.stepCreate] at hs
    split at hs
    · next hpos =>
      obtain rfl := Option.some.inj hs
      obtain ⟨hfull, hptid⟩ := (A q).of_sem_pos hpos
      by_cases h0 : (s.args q).error = 0
      · exact .inr ⟨by simp [Registry.goto, h0], fun hf => hfull.mpr hf h0, hptid h0⟩
      · exact .inl ⟨by simp [Registry.goto, h0], hfull.mp h0⟩
    · cases hs
  fails p rv s' hk hs := by
    simp only [Registry.step] at hs
    split_ifs at hs
    obtain rfl := Option.some.inj hs
    have hpos : 0 < rv := hk
    exact ⟨by simp [Registry.goto], by omega⟩

/-- A kernel thread that enters itself under an id that is in the map makes two entries with one id. -/
theorem RegistryInv.idFresh (I : RegistryInv s) (hs : s.step e = some s') (hd : s'.Distinct) : s.IdFresh e := by
  obtain ⟨p, j⟩ := e
  cases j with
  | run =>
    intro hadds hsome hmem
    obtain ⟨i, hi⟩ := Option.isSome_iff_exists.mp hsome
    obtain ⟨y, hy, hy0⟩ := Registry.exists_of_findTid hi
    obtain ⟨z, hz, hztid⟩ := List.mem_map.mp hmem
    obtain ⟨j, hj⟩ := List.mem_iff_getElem?.mp hz
    have hlt : i < s.kthreads.length := (List.getElem?_eq_some_iff.mp hy).1
    have hp : s.tid p ≠ 0 := I.tid_ne_zero (I.lt_of_pc (by rcases hadds with h | h <;> simp [h]))
    have hne : j ≠ i := by
      rintro rfl
      obtain rfl := Option.some.inj (hj.symm.trans hy)
      exact hp (hztid.symm.trans hy0)
    have hset : s'.kthreads = s.kthreads.set i ⟨s.tid p, some p⟩ := by
      rcases hadds with hpc | hpc
      all_goals
        simp only [Registry.step, Registry.stepRun, hpc, Registry.stepCreate, Registry.stepTrampoline,
          Registry.addSelf, hi, Option.some.injEq] at hs
        rw [← hs]
        rfl
    refine hne (hd j i z ⟨s.tid p, some p⟩ ?_ ?_ (hztid ▸ hp) hztid)
    · rw [hset, List.getElem?_set_ne hne.symm, hj]
    · simp [hset, hlt]
  | _ => trivial

/-- Over every run, in which the kernel issues ids that are positive and not in use and each pthread is joined at
most once: the map is as expected in every state of the run exactly when every kernel thread that takes an entry
has an id that is not in the map. -/
theorem registry_ok_iff (h0 : 0 < mainTid) (hr : (registryMachine mainTid).Run Registry.KernelOk h s) :
    (∀ h₁ s₁, h₁ <:+ h → (registryMachine mainTid).Run Registry.KernelOk h₁ s₁ → RegistryOk h₁ s₁) ↔
      ∀ x ∈ h, x.1.IdFresh x.2 := by
  have hok {h₁ : List (Registry × KthreadEvent)} {s₁ : Registry}
      (hr₁ : (registryMachine mainTid).Run Registry.KernelOk h₁ s₁) (hfresh : ∀ x ∈ h₁, x.1.IdFresh x.2) :
      RegistryInv s₁ ∧ ArgsInv h₁ s₁ :=
    registryInv_of_run h0 (hr₁.of_forall_mem hfresh)
  constructor
  · intro hall
    induction hr with
    | init => simp
    | @step h s s' e hr hk hs ih =>
      have hfresh := ih fun h₁ s₁ hsuf => hall h₁ s₁ (hsuf.trans (List.suffix_cons _ _))
      have hnext := hall _ _ List.suffix_rfl (.step hr hk hs)
      intro x hx
      rcases List.mem_cons.mp hx with rfl | hx
      · exact (hok hr hfresh).1.idFresh hs hnext.distinct
      · exact hfresh x hx
  · intro hfresh h₁ s₁ hsuf hr₁
    obtain ⟨I, A⟩ := hok hr₁ fun x hx => hfresh x (hsuf.mem hx)
    exact I.registryOk A

/-- A kernel thread is created and exits, and is being joined. -/
theorem registry_ok_iff_joined : ∃ (h : List (Registry × KthreadEvent)) (s : Registry),
    s.pc 0 = .join 101 (.del 1 1) ∧ s.ids.take 3 = [100, 101, 0] ∧
      ((∀ h₁ s₁, h₁ <:+ h → (registryMachine 100).Run Registry.KernelOk h₁ s₁ → RegistryOk h₁ s₁) ↔
        ∀ x ∈ h, x.1.IdFresh x.2) := by
  obtain ⟨h, s, hr, hs⟩ := EventMachine.exists_run_of_exec (M := registryMachine 100) (P := Registry.KernelOk)
    ([(0, .create), (0, .run), (0, .run), (0, .run), (0, .made 101)] ++ List.replicate 5 (1, .run) ++
      [(0, .run), (1, .exit), (0, .join 101), (0, .run), (0, .run)])
    (p := fun x => x.2.pc 0 = .join 101 (.del 1 1) ∧ x.2.ids.take 3 = [100, 101, 0]) (by decide +kernel)
  obtain ⟨hpc, hids⟩ : s.pc 0 = .join 101 (.del 1 1) ∧ s.ids.take 3 = [100, 101, 0] := of_decide_eq_true hs
  exact ⟨h, s, hpc, hids, registry_ok_iff (by decide) hr⟩

/-- The kernel thread `1` has exited and is not joined, and the kernel has given its id to `2`. Both are in the
map, and a join of the id that was returned for `2` is about to join `1`. -/
theorem registry_reissued : ∃ (h : List (Registry × KthreadEvent)) (s : Registry),
    (registryMachine 100).Run Registry.KernelOk h s ∧ s.ids.take 3 = [100, 101, 101] ∧ ¬ s.Distinct ∧
      (s.args 2).ptid = some 101 ∧ s.joined 2 = false ∧ s.pc 0 = .join 101 (.join 1 (some 1)) := by
  obtain ⟨h, s, hr, hs⟩ := EventMachine.exists_run_of_exec (M := registryMachine 100) (P := Registry.KernelOk)
    ([(0, .create), (0, .run), (0, .run), (0, .run), (0, .made 101)] ++ List.replicate 5 (1, .run) ++
      [(0, .run), (1, .exit), (0, .create), (0, .run), (0, .made 101)] ++ List.replicate 5 (2, .run) ++
      [(0, .run), (0, .join 101), (0, .run)])
    (p := fun x => x.2.ids.take 3 = [100, 101, 101] ∧
      (x.2.kthreads[1]? = some ⟨101, some 1⟩ ∧ x.2.kthreads[2]? = some ⟨101, some 2⟩) ∧
      (x.2.args 2).ptid = some 101 ∧ x.2.joined 2 = false ∧ x.2.pc 0 = .join 101 (.join 1 (some 1)))
    (by decide +kernel)
  obtain ⟨hids, ⟨h1, h2⟩, hargs⟩ : s.ids.take 3 = [100, 101, 101] ∧
      (s.kthreads[1]? = some ⟨101, some 1⟩ ∧ s.kthreads[2]? = some ⟨101, some 2⟩) ∧
      (s.args 2).ptid = some 101 ∧ s.joined 2 = false ∧ s.pc 0 = .join 101 (.join 1 (some 1)) :=
    of_decide_eq_true hs
  refine ⟨h, s, hr, hids, fun hd => ?_, hargs⟩
  exact absurd (hd 1 2 _ _ h1 h2 (by decide) rfl) (by decide)

end Uthread
