import Uthread.Invariant.Boot
import Uthread.Safety.ReadyQueue
import Uthread.Safety.Signals

/-!
# Looking up a kernel thread

Every function of the library finds the data of its kernel thread by `get_kthread_info`. The table is filled
by `uthread_init` and by the kernel threads that it creates, and freed at the end of `uthread_teardown`;
`inited_sem` keeps the kernel threads out of the library until the table is complete.

## Main definitions

* `FreedInv`: when the table is freed, all the other kernel threads have exited.
* `ReleaseInv`: how many kernel threads wait for `inited_sem`.
* `LookupOk`.

## Main results

* `kthread_lookup`.
-/

namespace Uthread

variable {n : ℕ} {cfg : Config} {s s' : State n} {e : Event n} {k : Fin n} {kid : Fin n → ℤ}
  {h : List (State n × Event n)} {P : State n → Event n → Prop}

/-! ### The lookup in a complete table -/

/-- The loop over a table of distinct kernel ids keeps the entry that it finds. -/
theorem foldlM_scanInfo (hinj : Function.Injective kid) {info : Fin n → Option KInfo}
    (hinfo : ∀ i, info i = some ⟨kid i, true⟩) (l : List (Fin n)) (r : Option (Fin n)) :
    l.foldlM (scanInfo info (kid k)) r = .ok (if k ∈ l then some k else r) := by
  induction l generalizing r with
  | nil => rfl
  | cons i l ih =>
    have hscan : scanInfo info (kid k) r i = .ok (if i = k then some k else r) := by
      by_cases hi : i = k
      · simp [scanInfo, hinfo, hi]
      · simp [scanInfo, hinfo, hi, hinj.ne hi]
    rw [List.foldlM_cons, hscan]
    refine (ih _).trans ?_
    by_cases hi : i = k
    · simp [hi]
    · simp [hi, Ne.symm hi]

theorem getKthreadInfo_eq (hinj : Function.Injective kid) {info : Fin n → Option KInfo}
    (hinfo : ∀ i, info i = some ⟨kid i, true⟩) : getKthreadInfo info (kid k) = .ok k := by
  rw [getKthreadInfo, foldlM_scanInfo hinj hinfo]
  simp
  rfl

/-! ### Freeing the table -/

/-- When the table is freed the main kernel thread is at the end of `uthread_teardown`, and the others have
exited. -/
structure FreedInv (s : State n) : Prop where
  awaited : ∀ k o, (s.kt k).ctl.pc?.bind Pc.awaits = some o → s.Awaited k o
  main : ∀ k o, (s.kt k).ctl.pc?.bind Pc.awaits = some o → k.val = 0
  freed : s.infoFreed = true → ∀ k, (s.kt k).ctl = .exited ∨ ∃ x, (s.kt k).ctl = .closing x

theorem Trans.infoFreed_cases (h : Trans cfg s e s') :
    s'.infoFreed = s.infoFreed ∨ ∃ p, (s.kt e.1).ctl = .thread p (.teardown .free) ∧
      (s'.kt e.1).ctl = .closing .unblock := by
  cases h with
  | teardownFree hc hq hx => exact .inr ⟨_, hc, by simp [State.goto]⟩
  | signal h => cases h <;> exact .inl rfl
  | _ => exact .inl rfl

/-- A kernel thread that has exited or is at the end of `uthread_teardown` stays so. -/
theorem Trans.ended (h : Trans cfg s e s')
    (hk : (s.kt k).ctl = .exited ∨ ∃ x, (s.kt k).ctl = .closing x) :
    (s'.kt k).ctl = .exited ∨ ∃ x, (s'.kt k).ctl = .closing x := by
  by_cases hke : k = e.1
  · subst hke
    cases h with
    | tick | deliver => simpa using hk
    | acquire h | insert h | parkJoin h | parkSem h =>
      generalize hc : (s.kt _).ctl = c at h hk
      cases h <;> simp at hk
    | release h => cases h <;> simp_all
    | quiet h => cases h <;> simp_all
    | signal h => cases h <;> simp_all [State.goto]
    | _ hc => simp [hc] at hk
  · rwa [h.kt_of_ne hke]

theorem freedInv_of_run (hr : (machine n cfg).Run P h s) : FreedInv s := by
  refine hr.invariant (I := FreedInv) ?_ ?_
  · have hnone (k : Fin n) (o : Option ℕ) :
        ((State.init n cfg).kt k).ctl.pc?.bind Pc.awaits ≠ some o := by
      obtain ⟨-, h⟩ | ⟨-, h⟩ := State.init_kt_cases n cfg k <;> simp [h, Ctl.pc?, Pc.awaits]
    exact ⟨fun k o hk => absurd hk (hnone k o), fun k o hk => absurd hk (hnone k o),
      by simp [machine, State.init]⟩
  · intro s e s' F _ hs
    obtain rfl | rfl | ht := State.step_cases hs
    · exact ⟨fun k o hk => F.awaited k o hk, F.main, F.freed⟩
    · exact ⟨fun k o hk => F.awaited k o hk, F.main, F.freed⟩
    · refine ⟨ht.awaited F.awaited, fun k o hk => ?_, fun hf k => ?_⟩
      · by_cases hke : k = e.1
        · subst hke
          rcases ht.awaits_cases hk with hk | ⟨-, h0⟩ | ⟨i, -, -, hk, -⟩ | ⟨i, -, -, hk⟩
          · exact F.main e.1 o hk
          · exact h0
          · exact F.main e.1 _ hk
          · exact F.main e.1 _ hk
        · exact F.main k o (by rwa [← ht.kt_of_ne hke])
      obtain hsame | ⟨p, hc, hc'⟩ := ht.infoFreed_cases
      · exact ht.ended (F.freed (hsame ▸ hf) k)
      · by_cases hk : k = e.1
        · exact .inr ⟨.unblock, hk ▸ hc'⟩
        · exact ht.ended (.inl (F.awaited e.1 none (by simp [hc, Ctl.pc?, Pc.awaits]) k hk))

/-! ### Letting the other kernel threads go -/

/-- A kernel thread that waits for `inited_sem`. -/
def Ctl.awaitsInit : Ctl → ℕ
  | .kmain => 1
  | _ => 0

/-- How often `uthread_init` has still to post `inited_sem`. -/
def Ctl.owesInit (n : ℕ) : Ctl → ℕ
  | .thread _ (.init j) => n - 1 - j
  | _ => 0

/-- The kernel threads that wait for `inited_sem` are those that it lets go and those for which it has still
to be posted. -/
def ReleaseInv (s : State n) : Prop :=
  ∑ k, (s.kt k).ctl.awaitsInit = s.initedSem + ∑ k, (s.kt k).ctl.owesInit n

theorem Resume.pc_owesInit (r : Resume) (p : Ptr) : (Ctl.thread p r.pc).owesInit n = 0 := by
  cases r with
  | yielded o => cases o with
    | none => rfl
    | some o => cases o <;> rfl
  | _ => rfl

theorem Op.start_owesInit (o : Op) (p : Ptr) : (Ctl.thread p o.start).owesInit n = 0 := by cases o <;> rfl

/-- Posting `inited_sem` and waiting for it keep the balance. -/
theorem Trans.releaseInit (h : Trans cfg s e s') :
    (s'.kt e.1).ctl.awaitsInit + s.initedSem + (s.kt e.1).ctl.owesInit n =
      (s.kt e.1).ctl.awaitsInit + s'.initedSem + (s'.kt e.1).ctl.owesInit n := by
  have hframe (ha : (s'.kt e.1).ctl.awaitsInit = (s.kt e.1).ctl.awaitsInit)
      (ho : (s'.kt e.1).ctl.owesInit n = (s.kt e.1).ctl.owesInit n) (hi : s'.initedSem = s.initedSem) :
      (s'.kt e.1).ctl.awaitsInit + s.initedSem + (s.kt e.1).ctl.owesInit n =
        (s.kt e.1).ctl.awaitsInit + s'.initedSem + (s'.kt e.1).ctl.owesInit n := by
    rw [ha, ho, hi]
  cases h with
  | @call k c p r hc =>
    refine hframe ?_ ?_ rfl <;>
      · rw [hc]
        cases c with
        | op o => cases o <;> simp [Call.enter, Ctl.awaitsInit, Ctl.owesInit]
        | _ => simp [Call.enter, Ctl.awaitsInit, Ctl.owesInit]
  | tick => exact hframe (by simp) (by simp) rfl
  | deliver => exact hframe (by simp) (by simp) rfl
  | acquire h | insert h | parkJoin h | parkSem h =>
    generalize hc : (s.kt _).ctl = x at h
    cases h <;> simp [State.goto, Ctl.awaitsInit, Ctl.owesInit, State.setK, State.setTcb, State.setSem]
  | release h =>
    cases h with
    | _ hc => exact hframe (by simp [State.goto, hc, Ctl.awaitsInit]) (by simp [State.goto, hc, Ctl.owesInit]) rfl
  | quiet h =>
    cases h with
    | start hc =>
      exact hframe (by simp [hc, Ctl.awaitsInit]) (by simp [hc, Op.start_owesInit, show Ctl.owesInit n (.thread _ (.preempt _)) = 0 from rfl]) rfl
    | @initEnd p j hc hj =>
      refine hframe (by simp [hc, Ctl.awaitsInit]) ?_ rfl
      simp [hc, Ctl.owesInit]
      omega
    | _ hc => exact hframe (by simp [hc, Ctl.awaitsInit]) (by simp [hc, Ctl.owesInit]) rfl
  | signal h =>
    cases h with
    | @init p j hc hj =>
      simp [hc, State.goto, Ctl.awaitsInit, Ctl.owesInit, State.setK]
      omega
    | kmain hc h0 =>
      simp [hc, State.goto, Ctl.awaitsInit, Ctl.owesInit, State.setK]
      omega
    | _ hc => exact hframe (by simp [State.goto, hc, Ctl.awaitsInit]) (by simp [State.goto, hc, Ctl.owesInit]) rfl
  | dispSet hc hx hctx =>
    exact hframe (by simp [hc, Ctl.awaitsInit]) (by simp [hc, Resume.pc_owesInit, show Ctl.owesInit n (.sched _) = 0 from rfl]) rfl
  | _ hc => exact hframe (by simp [State.goto, hc, Ctl.awaitsInit]) (by simp [State.goto, hc, Ctl.owesInit]) rfl

theorem releaseInv_of_run (hr : (machine n cfg).Run P h s) : ReleaseInv s := by
  refine hr.invariant (I := ReleaseInv) ?_ ?_
  · cases n with
    | zero => simp [ReleaseInv, machine, State.init]
    | succ m => simp [ReleaseInv, machine, State.init, Fin.sum_univ_succ, Ctl.awaitsInit, Ctl.owesInit]
  · intro s e s' I _ hs
    obtain rfl | rfl | ht := State.step_cases hs
    · exact I
    · exact I
    · have hbal := ht.releaseInit
      have hawait := ht.sum_ctl Ctl.awaitsInit
      have howes := ht.sum_ctl (Ctl.owesInit n)
      simp only [ReleaseInv] at I ⊢
      omega

/-- No kernel thread comes back to the beginning of `kthread_main`. -/
theorem Trans.kmain_of (h : Trans cfg s e s') (hk : (s'.kt k).ctl = .kmain) : (s.kt k).ctl = .kmain := by
  by_cases hke : k = e.1
  · subst hke
    cases h with
    | @call k c p r hc =>
      cases c with
      | op o => cases o <;> simp [Call.enter] at hk
      | _ => simp [Call.enter] at hk
    | tick | deliver => simpa using hk
    | acquire h | insert h | parkJoin h | parkSem h =>
      generalize hc : (s.kt _).ctl = x at h
      cases h <;> simp [State.goto] at hk
    | release h => cases h <;> simp [State.goto] at hk
    | quiet h => cases h <;> simp at hk
    | signal h => cases h <;> simp [State.goto] at hk
    | _ hc => simp [State.goto] at hk
  · rwa [← h.kt_of_ne hke]

theorem ne_zero_of_kmain (hr : (machine n cfg).Run P h s) : ∀ k, (s.kt k).ctl = .kmain → k.val ≠ 0 := by
  refine hr.invariant (I := fun s => ∀ k, (s.kt k).ctl = .kmain → k.val ≠ 0) ?_ ?_
  · intro k hk h0
    simp [machine, State.init, h0] at hk
  · intro s e s' I _ hs
    obtain rfl | rfl | ht := State.step_cases hs
    · exact I
    · exact I
    · exact fun k hk => I k (ht.kmain_of hk)

/-! ### The main result -/

/-- The other kernel threads that have passed `inited_sem`. -/
def State.passed (s : State n) : Finset (Fin n) :=
  Finset.univ.filter fun k => k.val ≠ 0 ∧ (s.kt k).ctl ≠ .kmain

/-- Until `inited` is set no kernel thread passes `inited_sem`, and then the table is complete. -/
structure BootOk (cfg : Config) (kid : Fin n → ℤ) (b : Boot n) : Prop where
  halt : b.halt = none
  waits : ∀ k f, b.worker k = .kmain → k.val ≠ 0 → b.step kid cfg (k, .run f) = none
  complete : b.pc = .inited → ∀ k, b.info k = some ⟨kid k, true⟩ ∧ (k.val ≠ 0 → b.worker k = .kmain)

/-- The kernel threads and the table after `inited` is set. A kernel thread that has exited, or has freed the
table and is at the end of `uthread_teardown`, makes no lookup. -/
structure LiveOk (cfg : Config) (kid : Fin n → ℤ) (info : Fin n → Option KInfo) (kthreads : List ℤ)
    (s : State n) : Prop where
  complete : ∀ k, info k = some ⟨kid k, true⟩
  waits : ∀ k, (s.kt k).ctl = .kmain ∨ (s.kt k).ctl = .kmainStart → s.inited = true
  passes : s.passed.card + s.initedSem + ∑ k, (s.kt k).ctl.owesInit n = n - 1
  lookup : ∀ k, (s.kt k).ctl ≠ .exited → (∀ x, (s.kt k).ctl ≠ .closing x) →
    getKthreadInfo (Life.live info kthreads s).info (kid k) = .ok k ∧
      ∀ j x, (Life.live info kthreads s).info j = some x → (x.ktid = kid k ↔ j = k)
  joins : 1 < n → ∀ k, tidmapFindTid kthreads (kid k) ≠ none
  frees : ∀ e s', s.step cfg e = some s' → s.infoFreed = false → s'.infoFreed = true →
    e.1.val = 0 ∧ ∀ k ≠ e.1, (s.kt k).ctl = .exited

/-- What holds of the kernel threads and of the table. -/
def LookupOk (cfg : Config) (kid : Fin n → ℤ) : Life n → Prop
  | .boot b => BootOk cfg kid b
  | .live info kthreads s => LiveOk cfg kid info kthreads s

theorem Booting.ok {b : Boot n} (hB : Booting kid b) (hmax : n ≤ maxKthreads) : BootOk cfg kid b := by
  constructor
  · cases hB with
    | aborted hi => exact absurd hmax (Nat.not_le_of_lt hi)
    | _ => rfl
  · intro k f hw hk
    simp [Boot.step, hk, Boot.stepWorker, hw]
  · intro hpc k
    cases hB with
    | inited hk => exact ⟨by simp [bootInfo, k.isLt], fun h0 => by simp [bootWorkers, k.isLt, Nat.pos_of_ne_zero h0]⟩
    | aborted _ _ hne => exact absurd hpc hne
    | _ => simp at hpc

theorem passed_card (hn : 0 < n) (hr : (machine n cfg).Run P h s) :
    s.passed.card + s.initedSem + ∑ k, (s.kt k).ctl.owesInit n = n - 1 := by
  have hbal := releaseInv_of_run hr
  have hzero := ne_zero_of_kmain hr
  -- every kernel thread is the main one, waits or has passed
  have hone (k : Fin n) : (if k.val ≠ 0 ∧ (s.kt k).ctl ≠ .kmain then 1 else 0) +
      (s.kt k).ctl.awaitsInit + (if k = ⟨0, hn⟩ then 1 else 0) = 1 := by
    have hk0 : k = ⟨0, hn⟩ ↔ k.val = 0 := Fin.ext_iff
    by_cases hc : (s.kt k).ctl = .kmain
    · simp [hc, Ctl.awaitsInit, hk0, hzero k hc]
    · have ha : (s.kt k).ctl.awaitsInit = 0 := by
        unfold Ctl.awaitsInit
        split
        · next h => exact absurd h hc
        · rfl
      by_cases h0 : k.val = 0 <;> simp [hc, ha, hk0, h0]
  have hsum := Finset.sum_congr rfl fun k (_ : k ∈ Finset.univ) => hone k
  simp only [Finset.sum_add_distrib, Finset.sum_ite_eq', Finset.mem_univ, if_true, Finset.sum_const,
    Finset.card_univ, Fintype.card_fin, smul_eq_mul, mul_one, ← Finset.card_filter] at hsum
  simp only [ReleaseInv] at hbal
  simp only [State.passed]
  omega

/-- **Kernel threads find their own data.** For any number of kernel threads up to `MAX_KTHREADS`, with
kernel ids that are distinct, from the beginning of `uthread_init` to the end of `uthread_teardown`: no
kernel thread passes `inited_sem` before the table is complete and `inited` is set, and then all the others
pass; every lookup finds one entry, that of its kernel thread; and the table is freed when all the others have
exited. -/
theorem kthread_lookup (hn : 0 < n) (hmax : n ≤ maxKthreads) (hinj : Function.Injective kid)
    (hpos : ∀ k, 0 < kid k) {L : Life n} (hr : (lifeMachine n cfg kid).Reachable Life.Ok L) :
    LookupOk cfg kid L := by
  have hL := lifeInv_of_reachable hpos hr
  cases L with
  | boot b => exact hL.1.ok hmax
  | live info kthreads s =>
    obtain ⟨rfl, hmap, h, hrun⟩ := hL
    have F := freedInv_of_run hrun
    have hcomplete (k : Fin n) : bootInfo kid n k = some ⟨kid k, true⟩ := by simp [bootInfo, k.isLt]
    have hfreed (k : Fin n) (hx : (s.kt k).ctl ≠ .exited) (hcl : ∀ x, (s.kt k).ctl ≠ .closing x) :
        s.infoFreed = false := by
      by_contra hf
      rcases F.freed (by simpa using hf) k with hk | ⟨x, hk⟩
      · exact hx hk
      · exact hcl x hk
    refine ⟨hcomplete, ?_, passed_card hn hrun, ?_, ?_, ?_⟩
    · intro k hk
      refine inited_of_run hrun (hfreed k ?_ fun x => ?_) <;> rcases hk with hk | hk <;> simp [hk]
    · intro k hx hcl
      have hinfo : (Life.live (bootInfo kid n) kthreads s).info = bootInfo kid n := by
        simp [Life.info, hfreed k hx hcl]
      rw [hinfo]
      refine ⟨getKthreadInfo_eq hinj hcomplete, fun j x hj => ?_⟩
      obtain rfl : ⟨kid j, true⟩ = x := Option.some.inj ((hcomplete j).symm.trans hj)
      exact hinj.eq_iff
    · intro h1 k
      have hk : kid k ∈ kthreads := by
        rw [hmap h1, bootMap, List.take_of_length_le (by simp)]
        simp
      simp only [tidmapFindTid, ne_eq, List.findIdx?_eq_none_iff, decide_eq_false_iff_not]
      exact fun hall => hall _ hk rfl
    · intro e s' hs hf hf'
      obtain rfl | rfl | ht := State.step_cases hs
      · exact absurd hf' (by simp [State.abort, hf])
      · exact absurd hf' (by simp [State.fault, hf])
      · obtain hsame | ⟨p, hc, -⟩ := ht.infoFreed_cases
        · simp [hsame, hf] at hf'
        · have haw : (s.kt e.1).ctl.pc?.bind Pc.awaits = some none := by simp [hc, Ctl.pc?, Pc.awaits]
          exact ⟨F.main e.1 none haw, F.awaited e.1 none haw⟩

/-- Two kernel threads with the ids `101` and `102`; the second one has passed `inited_sem`. -/
theorem kthread_lookup_passed : ∃ (info : Fin 2 → Option KInfo) (kthreads : List ℤ) (s : State 2),
    (s.kt 1).ctl = .kmainStart ∧ s.inited = true ∧
      getKthreadInfo (Life.live info kthreads s).info 102 = .ok 1 := by
  obtain ⟨h, L, hr, hs⟩ := EventMachine.exists_run_of_exec
    (M := lifeMachine 2 ⟨0⟩ fun k => k.val + 101) (P := Life.Ok)
    (runs 0 4 ++ runs 1 3 ++ runs 0 4 ++ runs 1 1)
    (p := fun x =>
      match x.2 with
      | .boot _ => false
      | .live _ _ s => (s.kt 1).ctl = .kmainStart) (by decide +kernel)
  cases L with
  | boot b => cases hs
  | live info kthreads s =>
    have hc : (s.kt 1).ctl = .kmainStart := of_decide_eq_true hs
    have hinj : Function.Injective fun k : Fin 2 => (k.val : ℤ) + 101 := by
      intro j k hjk
      exact Fin.ext (by simpa using hjk)
    have hok : LiveOk ⟨0⟩ _ info kthreads s :=
      kthread_lookup Nat.two_pos (by decide) hinj (fun k => by omega) hr.reachable
    exact ⟨info, kthreads, s, hc, hok.waits 1 (.inr hc), (hok.lookup 1 (by simp [hc]) (by simp [hc])).1⟩

end Uthread
