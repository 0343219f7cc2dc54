import Uthread.Invariant.Tids

/-!
# Teardown

`TeardownInv` is kept by every step, and so is `AloneInv` when `uthread_teardown` is entered with all other
threads finished: a finished thread creates none.
-/

namespace Uthread

variable {n : ℕ} {cfg : Config} {s s' : State n} {e : Event n} {k : Fin n} {p q : Ptr} {t : Tid}

theorem Op.start_tearing (o : Op) : o.start.tearing = false := by cases o <;> rfl

theorem Resume.teardown_of_tearing {r : Resume} (h : r.pc.tearing = true) : r = .teardown := by
  cases r with
  | yielded o =>
    cases o with
    | none => simp [Resume.pc, Pc.tearing] at h
    | some o => simp [Resume.pc, Op.start_tearing] at h
  | teardown => rfl
  | _ => simp [Resume.pc, Pc.tearing] at h

theorem Ctl.thread?_of_tearing {c : Ctl} (h : c.tearing = some p) : c.thread? = some p := by
  cases c <;> simp_all [Ctl.tearing, Ctl.thread?]

/-- The acting kernel thread executes a teardown that began before the step, unless the step is the
call or resumes the thread. -/
theorem Trans.tearing_cases (h : Trans cfg s e s') (hk' : (s'.kt e.1).ctl.tearing = some p) :
    (s.kt e.1).ctl.tearing = some p ∨
      (∃ r, e.2 = .call .teardown ∧ (s.kt e.1).ctl = .thread p (.user r)) ∨
      ∃ q, (s.kt e.1).ctl = .sched (.dispSet q) := by
  cases h with
  | @call k c p₀ r hc₀ =>
    cases c with
    | op o => cases o <;> simp [Call.enter, Ctl.tearing, Pc.tearing] at hk'
    | teardown => simp_all [Call.enter, Ctl.tearing, Pc.tearing]
    | _ => simp [Call.enter, Ctl.tearing, Pc.tearing] at hk'
  | tick => exact .inl (by simpa using hk')
  | deliver => exact .inl (by simpa using hk')
  | acquire h =>
    generalize hc₀ : (s.kt _).ctl = c at h
    cases h <;> simp_all [State.goto, Ctl.tearing, Pc.tearing]
  | release h => cases h <;> simp_all [State.goto, Ctl.tearing, Pc.tearing]
  | quiet h =>
    cases h with
    | start hc => simp [Ctl.tearing, Op.start_tearing] at hk'
    | _ => simp_all [Ctl.tearing, Pc.tearing]
  | signal h => cases h <;> simp_all [State.goto, Ctl.tearing, Pc.tearing]
  | insert h =>
    generalize hc₀ : (s.kt _).ctl = c at h
    cases h <;> simp_all [State.goto, Ctl.tearing, Pc.tearing]
  | entry hc hcur h =>
    generalize hta : (s.kt _).task = ta at h
    cases h <;> simp [Ctl.tearing] at hk'
  | parkJoin h hq hx =>
    generalize hc : (s.kt _).ctl = c at h
    cases h <;> simp [State.goto, Ctl.tearing] at hk'
  | parkSem h hq hx =>
    generalize hc : (s.kt _).ctl = c at h
    cases h <;> simp [State.goto, Ctl.tearing] at hk'
  | dispSet hc => exact .inr (.inr ⟨_, hc⟩)
  | _ hc => simp_all [State.goto, Ctl.tearing, Pc.tearing]

/-- A thread is inside a teardown that began before the step, unless the step is its call. -/
theorem Trans.tearsDown (h : Trans cfg s e s') (I : Inv s) (ha : AllocOk e)
    (hp' : s'.TearsDown p) :
    s.TearsDown p ∨ ∃ r, e.2 = .call .teardown ∧ (s.kt e.1).ctl = .thread p (.user r) := by
  rcases hp' with ⟨k, hk⟩ | hs
  · by_cases hke : k = e.1
    · subst hke
      rcases h.tearing_cases hk with hk | hcall | ⟨q, hc⟩
      · exact .inl (.inl ⟨e.1, hk⟩)
      · exact .inr hcall
      · obtain ⟨rfl, c, hctx, hc'⟩ := h.resumes I hc (Ctl.thread?_of_tearing hk)
        have : c.resume = .teardown := by
          refine Resume.teardown_of_tearing ?_
          by_contra hn
          simp [hc', Ctl.tearing, hn] at hk
        exact .inl (.inr (by simp [State.suspended_eq_context, hctx, this]))
    · exact .inl (.inl ⟨k, by rwa [← h.kt_of_ne hke]⟩)
  · rw [State.suspended_eq_context] at hs
    cases h.suspends I ha p with
    | same h => exact .inl (.inr (by rwa [State.suspended_eq_context, ← h]))
    | saves hc hc' h =>
      refine .inl (.inl ⟨e.1, ?_⟩)
      obtain rfl : _ = Resume.teardown := by simpa [h] using hs
      simp [hc, Ctl.tearing, Pc.tearing]
    | resumes hc hc' h h' => simp [h'] at hs
    | creates hc hq h => simp [h] at hs
    | frees hc h => simp [State.context_of_heap_eq_none (h p)] at hs

/-- A control block that is allocated after a step was so before, unless the step creates it. -/
theorem Trans.heap_cases (h : Trans cfg s e s') (ha : AllocOk e) (hq : s'.heap q ≠ none) :
    s.heap q ≠ none ∨ ∃ p sb t, (s.kt e.1).ctl = .thread p (.create sb (.body t)) := by
  rcases h.table_cases ha with ht | ht
  · refine .inl fun hn => hq ?_
    simpa [hn] using ht.tid q
  · generalize e.1 = k at ht
    cases ht with
    | create hc => exact .inr ⟨_, _, _, hc⟩
    | @destroy p t pret rv q₀ x hc hq₀ hx =>
      refine .inl fun hn => hq ?_
      by_cases hqq : q = q₀ <;> simp [State.goto, State.setK, hqq, hn]
    | free hc hq₀ hx =>
      refine .inl fun hn => hq ?_
      simp [State.goto, State.setK, hn]

/-- A thread that is alone in `uthread_teardown` stays so. -/
theorem Trans.aloneInv (h : Trans cfg s e s') (I : Inv s) (A : AloneInv s) (o : Obeys s e) :
    AloneInv s' := by
  intro p hp' q st hqp hq
  have hheap' : s'.heap q ≠ none := fun hn => by simp [State.stateOf, hn] at hq
  suffices hfin : s.stateOf q = some .finished from
    Option.some.inj (hq.symm.trans (h.finished_mono I o.alloc hfin hheap'))
  rcases h.tearsDown I o.alloc hp' with hp | ⟨r, he, hc⟩
  · -- a thread that runs is the one that tears down
    have hrun {k : Fin n} {p₀ : Ptr} {pc : Pc} (hc : (s.kt k).ctl = .thread p₀ pc)
        (hst : pc.state ≠ .finished) : p₀ = p := by
      by_contra hne
      have := I.place.alive (.exec k) p₀ (PlaceInv.mem_exec (State.exec_thread hc))
      simp only [State.placeState, KThread.execState, hc] at this
      exact hst (A p hp p₀ _ hne this)
    rcases h.heap_cases o.alloc hheap' with hheap | ⟨p₀, sb, t, hc⟩
    · obtain ⟨x, hx⟩ := Option.ne_none_iff_exists'.mp hheap
      have hst : s.stateOf q = some x.state := by simp [State.stateOf, hx]
      rw [hst, A p hp q _ hqp hst]
    · -- a thread that creates another does not tear down
      obtain rfl := hrun hc (by simp [Pc.state])
      exfalso
      rcases hp with ⟨k, hk⟩ | hs
      · obtain rfl := I.place.thread_unique (Ctl.thread?_of_tearing hk) (k := e.1)
          (by simp [hc, Ctl.thread?])
        simp [hc, Ctl.tearing, Pc.tearing] at hk
      · rw [State.suspended_eq_context, State.context_of_executed (k := e.1)
          (by simp [hc, Ctl.thread?])] at hs
        simp at hs
  · obtain ⟨k, i⟩ := e
    simp only at he hc
    subst he
    have hok := o.call
    simp only [CallOk, hc, Ctl.thread?, Option.mem_some_iff, forall_eq', State.CallOk] at hok
    cases h with
    | call hc' =>
      obtain ⟨x, hx⟩ := Option.ne_none_iff_exists'.mp hheap'
      have hx : s.heap q = some x := hx
      have hlt : q < s.fresh := Nat.lt_of_not_le fun hle => by simp [I.place.bound q hle] at hx
      have := hok.2 q hlt hqp
      simpa [State.stateOf, hx] using this

/-- A kernel thread that has exited stays so. -/
theorem Trans.exited (h : Trans cfg s e s') (hk : (s.kt k).ctl = .exited) :
    (s'.kt k).ctl = .exited := by
  by_cases hke : k = e.1
  · subst hke
    cases h with
    | tick => simpa using hk
    | deliver => simpa using hk
    | acquire h =>
      generalize hc : (s.kt _).ctl = c at h
      cases h <;> simp_all
    | release h => cases h <;> simp_all
    | quiet h => cases h <;> simp_all
    | signal h => cases h <;> simp_all
    | insert h =>
      generalize hc : (s.kt _).ctl = c at h
      cases h <;> simp_all
    | parkJoin h hq hx =>
      generalize hc : (s.kt _).ctl = c at h
      cases h <;> simp_all
    | parkSem h hq hx =>
      generalize hc : (s.kt _).ctl = c at h
      cases h <;> simp_all
    | _ hc => simp_all
  · rw [h.kt_of_ne hke, hk]

theorem Op.start_awaits (o : Op) : o.start.awaits = none := by cases o <;> rfl

theorem Resume.pc_awaits (r : Resume) : r.pc.awaits = none := by
  cases r with
  | yielded o => cases o <;> first | rfl | exact Op.start_awaits _
  | _ => rfl

/-- The steps of the loop over the kernel threads in `uthread_teardown`. -/
theorem Trans.awaits_cases (h : Trans cfg s e s') {o : Option ℕ}
    (hk' : (s'.kt e.1).ctl.pc?.bind Pc.awaits = some o) :
    (s.kt e.1).ctl.pc?.bind Pc.awaits = some o ∨ (o = some 1 ∧ e.1.val = 0) ∨
      (∃ i, ∃ hi : i < n, o = some (i + 1) ∧
        (s.kt e.1).ctl.pc?.bind Pc.awaits = some (some i) ∧ (s.kt ⟨i, hi⟩).ctl = .exited) ∨
      ∃ i, n ≤ i ∧ o = none ∧ (s.kt e.1).ctl.pc?.bind Pc.awaits = some (some i) := by
  cases h with
  | @call k c p₀ r hc₀ =>
    cases c with
    | op o => cases o <;> simp [Call.enter, Ctl.pc?, Pc.awaits] at hk'
    | _ => simp [Call.enter, Ctl.pc?, Pc.awaits] at hk'
  | tick => exact .inl (by simpa using hk')
  | deliver => exact .inl (by simpa using hk')
  | acquire h =>
    generalize hc₀ : (s.kt _).ctl = c at h
    cases h <;> simp [State.goto, Ctl.pc?, Pc.awaits] at hk'
  | release h => cases h <;> simp [State.goto, Ctl.pc?, Pc.awaits] at hk'
  | @quiet k f x h =>
    cases h with
    | start hc => simp [Ctl.pc?, Op.start_awaits] at hk'
    | teardownResumed hc hk =>
      exact .inr (.inl ⟨by simpa [Ctl.pc?, Pc.awaits] using hk'.symm, hk⟩)
    | @teardownJoin p j hc hj hx =>
      refine .inr (.inr (.inl ⟨j, hj, by simpa [Ctl.pc?, Pc.awaits] using hk'.symm, ?_, hx⟩))
      simp [hc, Ctl.pc?, Pc.awaits]
    | @teardownJoined p j hc hj =>
      refine .inr (.inr (.inr ⟨j, hj, by simpa [Ctl.pc?, Pc.awaits] using hk'.symm, ?_⟩))
      simp [hc, Ctl.pc?, Pc.awaits]
    | _ => simp [Ctl.pc?, Pc.awaits] at hk'
  | signal h => cases h <;> simp [State.goto, Ctl.pc?, Pc.awaits] at hk'
  | insert h =>
    generalize hc₀ : (s.kt _).ctl = c at h
    cases h <;> simp [State.goto, Ctl.pc?, Pc.awaits] at hk'
  | entry hc hcur h =>
    generalize hta : (s.kt _).task = ta at h
    cases h <;> simp [Ctl.pc?] at hk'
  | parkJoin h hq hx =>
    generalize hc : (s.kt _).ctl = c at h
    cases h <;> simp [State.goto, Ctl.pc?] at hk'
  | parkSem h hq hx =>
    generalize hc : (s.kt _).ctl = c at h
    cases h <;> simp [State.goto, Ctl.pc?] at hk'
  | dispSet hc => simp [Ctl.pc?, Resume.pc_awaits] at hk'
  | _ hc => simp [State.goto, Ctl.pc?, Pc.awaits] at hk'

theorem Trans.awaited (h : Trans cfg s e s') (hI : ∀ k o,
      (s.kt k).ctl.pc?.bind Pc.awaits = some o → s.Awaited k o) (k : Fin n) (o : Option ℕ)
    (hk' : (s'.kt k).ctl.pc?.bind Pc.awaits = some o) : s'.Awaited k o := by
  have hmono {o : Option ℕ} (hs : s.Awaited k o) : s'.Awaited k o := by
    cases o with
    | some j => exact ⟨hs.1, fun k' h0 hj => h.exited (hs.2 k' h0 hj)⟩
    | none => exact fun k' hk => h.exited (hs k' hk)
  by_cases hke : k = e.1
  · subst hke
    rcases h.awaits_cases hk' with hk | ⟨rfl, h0⟩ | ⟨i, hi, rfl, hk, hx⟩ | ⟨i, hi, rfl, hk⟩
    · exact hmono (hI e.1 o hk)
    · exact ⟨h0, fun k' h0 h1 => by omega⟩
    · obtain ⟨hz, hall⟩ := hmono (hI e.1 _ hk)
      refine ⟨hz, fun k' h0 hlt => ?_⟩
      by_cases hki : k'.val = i
      · obtain rfl : k' = ⟨i, hi⟩ := Fin.ext hki
        exact h.exited hx
      · exact hall k' h0 (by omega)
    · obtain ⟨hz, hall⟩ := hmono (hI e.1 _ hk)
      intro k' hne
      refine hall k' ?_ (by omega)
      rcases Nat.eq_zero_or_pos k'.val with h0 | h0
      · exact absurd (Fin.ext (h0.trans hz.symm)) hne
      · exact h0
  · exact hmono (hI k o (by rwa [← h.kt_of_ne hke]))

theorem Trans.teardown_freed (h : Trans cfg s e s') (I : Inv s) (o : Admits s e)
    (hf : s'.infoFreed = true) (p : Ptr) : s'.heap p = none := by
  rcases h.tid_cases o.alloc with hs | ⟨-, -, hfreed, -⟩
  · cases hs with
    | next hc => simp [State.goto, State.setK, I.infoFreed_of_thread hc] at hf
    | clear hc => simp [State.goto, State.setK, I.infoFreed_of_thread hc] at hf
    | edit h' =>
      cases h' with
      | create hc => simp [State.goto, State.setK, I.infoFreed_of_thread hc] at hf
      | destroy hc => simp [State.goto, State.setK, I.infoFreed_of_thread hc] at hf
      | free hc => simp only [State.goto, State.setK, I.heap_free]
  · have hnone := I.teardown.freed (hfreed ▸ hf)
    by_contra hne
    rcases h.heap_cases o.alloc hne with hne | ⟨p₀, sb, t, hc⟩
    · exact hne (hnone p)
    · simp [I.infoFreed_of_thread hc, hfreed] at hf

/-- Every step keeps `TeardownInv`. -/
theorem Trans.teardownInv (h : Trans cfg s e s') (I : Inv s) (o : Admits s e) : TeardownInv s' where
  awaited := h.awaited I.teardown.awaited
  freed := h.teardown_freed I o

end Uthread
