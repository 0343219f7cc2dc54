import Uthread.Invariant.Joins

/-!
# Thread identifiers

`BitInv` is kept by every step. The bit of an identifier is set from the moment `get_next_tid`
takes it until `reclaim_tid` gives it back; in between it is claimed by a creation and then in the
table.
-/

namespace Uthread

variable {n : ℕ} {cfg : Config} {s s' : State n} {e : Event n} {k : Fin n} {p q : Ptr} {t : Tid}

theorem Op.start_claims (o : Op) : o.start.claims = none := by cases o <;> rfl

theorem Op.start_releasing (o : Op) : o.start.releasing = none := by cases o <;> rfl

theorem Resume.pc_claims (r : Resume) : r.pc.claims = none := by
  cases r with
  | yielded o => cases o <;> first | rfl | exact Op.start_claims _
  | _ => rfl

theorem Resume.pc_releasing (r : Resume) : r.pc.releasing = none := by
  cases r with
  | yielded o => cases o <;> first | rfl | exact Op.start_releasing _
  | _ => rfl

/-- The steps that take, use, or give back an identifier. -/
inductive TidStep (s : State n) : Event n → State n → Prop
  | next {k f p sb} (hc : (s.kt k).ctl = .thread p (.create sb .next)) :
      TidStep s (k, .run f) ({ s with bitvec := (State.getNextTid s.bitvec).2 }.goto k
        (.thread p (.create sb (.bvUnlock (State.getNextTid s.bitvec).1.toNat))))
  | clear {k f p t pret rv} (hc : (s.kt k).ctl = .thread p (.join t pret (.bvClear rv))) :
      TidStep s (k, .run f) ({ s with bitvec := bitvecClear s.bitvec (t - tidMain) }.goto k
        (.thread p (.join t pret (.bvUnlock rv))))
  | edit {e₀ : Event n} {s₁ : State n} (h : Edits s e₀.1 s₁) : TidStep s e₀ s₁

/-- The other steps change nothing about the identifiers. -/
theorem Trans.tid_cases (h : Trans cfg s e s') (ha : AllocOk e) :
    TidStep s e s' ∨ (s'.tcbs = s.tcbs ∧ s'.bitvec = s.bitvec ∧ s'.infoFreed = s.infoFreed ∧
      (s'.kt e.1).claims = (s.kt e.1).claims ∧
      (s'.kt e.1).releasing = (s.kt e.1).releasing) := by
  cases h with
  | @call k c p r hc =>
    right
    cases c with
    | op o =>
      cases o <;> simp [Call.enter, State.setK, KThread.claims, KThread.releasing, Ctl.pc?,
        Pc.claims, Pc.releasing, hc]
    | _ =>
      simp [Call.enter, State.setK, KThread.claims, KThread.releasing, Ctl.pc?, Pc.claims,
        Pc.releasing, hc]
  | tick => exact .inr ⟨rfl, rfl, rfl, by simp [KThread.claims], by simp [KThread.releasing]⟩
  | deliver => exact .inr ⟨rfl, rfl, rfl, by simp [KThread.claims], by simp [KThread.releasing]⟩
  | acquire h =>
    right
    generalize hc : (s.kt _).ctl = c at h
    cases h <;> simp [State.goto, State.setK, KThread.claims, KThread.releasing, Ctl.pc?, Pc.claims,
      Pc.releasing, hc]
  | release h =>
    right
    cases h <;> simp_all [State.goto, State.setK, KThread.claims, KThread.releasing, Ctl.pc?,
      Pc.claims, Pc.releasing]
  | quiet h =>
    right
    cases h with
    | start hc =>
      refine ⟨rfl, rfl, rfl, ?_, ?_⟩
      · rw [State.setK_kt, KThread.claims, KThread.claims, hc]
        exact Op.start_claims _
      · rw [State.setK_kt, KThread.releasing, KThread.releasing, hc]
        exact Op.start_releasing _
    | _ =>
      simp_all [State.setK, KThread.claims, KThread.releasing, Ctl.pc?, Pc.claims, Pc.releasing]
  | signal h =>
    right
    cases h <;> simp_all [State.goto, State.setK, KThread.claims, KThread.releasing, Ctl.pc?,
      Pc.claims, Pc.releasing]
  | insert h =>
    right
    generalize hc : (s.kt _).ctl = c at h
    cases h <;> simp [State.goto, State.setK, KThread.claims, KThread.releasing, Ctl.pc?, Pc.claims,
      Pc.releasing, hc]
  | entry hc hcur h =>
    right
    generalize hta : (s.kt _).task = ta at h
    cases h <;> simp [State.setK, KThread.claims, KThread.releasing, Ctl.pc?, hc]
  | parkJoin h hq hx =>
    right
    generalize hc : (s.kt _).ctl = c at h
    cases h <;> simp [State.goto, State.setK, State.setTcb, KThread.claims, KThread.releasing,
      Ctl.pc?, hc]
  | parkSem h hq hx =>
    right
    generalize hc : (s.kt _).ctl = c at h
    cases h <;> simp [State.goto, State.setK, State.setSem, KThread.claims, KThread.releasing,
      Ctl.pc?, hc]
  | dispSet hc hx hctx =>
    right
    simp [State.setK, KThread.claims, KThread.releasing, Ctl.pc?, Resume.pc_claims,
      Resume.pc_releasing, hc]
  | createNext hc => exact .inl (.next hc)
  | joinClear hc => exact .inl (.clear hc)
  | createBody hc => exact .inl (.edit (.create hc))
  | joinDestroy hc hq hx => exact .inl (.edit (.destroy hc hq hx))
  | teardownFree hc hq hx => exact .inl (.edit (.free hc hq hx))
  | createNoTcb => exact absurd ha (by simp [AllocOk])
  | createNoStack => exact absurd ha (by simp [AllocOk])
  | _ hc =>
    right
    simp [State.goto, State.setK, State.setTcb, State.setSem, KThread.claims, KThread.releasing,
      Ctl.pc?, Pc.claims, Pc.releasing, hc]

/-- While a thread runs the control blocks are not freed. -/
theorem Inv.infoFreed_of_thread (I : Inv s) {pc : Pc} (hc : (s.kt k).ctl = .thread p pc) :
    s.infoFreed = false := by
  by_contra hf
  exact I.place.heap_ne_none (State.exec_thread hc) (I.teardown.freed (by simpa using hf) p)

/-- The value of `get_next_tid` when an identifier is free. -/
theorem getNextTid_eq {bv : Bitvec} (h : 0 ≤ bitvecFirstClearedIndex bv) :
    (State.getNextTid bv).1.toNat = (bitvecFirstClearedIndex bv).toNat ∧
      (State.getNextTid bv).2 = bitvecSet bv (bitvecFirstClearedIndex bv).toNat := by
  have : ¬ bitvecFirstClearedIndex bv < 0 := Int.not_lt.mpr h
  simp [State.getNextTid, this, tidMain]

/-- The identifier that `get_next_tid` takes is not in the table and not claimed. -/
theorem Inv.tid_free (I : Inv s) {f : Option AllocSite} {sb : Bool}
    (o : Admits s (k, .run f)) (hc : (s.kt k).ctl = .thread p (.create sb .next)) :
    0 ≤ bitvecFirstClearedIndex s.bitvec ∧
      (bitvecFirstClearedIndex s.bitvec).toNat < maxThreads ∧
      s.tcbs (bitvecFirstClearedIndex s.bitvec).toNat = none ∧
      ∀ k, (s.kt k).claims ≠ some (bitvecFirstClearedIndex s.bitvec).toNat := by
  have hpos := o.tids
  have hre := o.reissue
  simp only [TidsLeft, NoReissue, hc, Ctl.pc?, Pc.allocates, Option.any_some,
    true_implies] at hpos hre
  obtain ⟨hlt, h0, -⟩ := bitvecFirstClearedIndex_spec hpos
  rw [I.bits.size.1] at hlt
  have hbit := I.bits.bit (I.infoFreed_of_thread hc) _ hlt
  refine ⟨hpos, hlt, ?_, fun k hk => hbit.2 (.inl ⟨k, hk⟩) h0⟩
  by_contra hne
  exact hbit.2 (.inr ⟨hne, hre⟩) h0

/-- An identifier in use by a join is in the table, so that no creation claims it. -/
theorem Inv.not_claims (I : Inv s) {pc : Pc} (hc : (s.kt k).ctl = .thread p pc)
    (hj : pc.joins = some t) (k' : Fin n) : (s.kt k').claims ≠ some t := by
  intro hk'
  obtain ⟨q, hq, -⟩ := I.join.target p t (.inl ⟨k, by simp [hc, Ctl.joining, hj]⟩)
  simp [(I.bits.claim k' t hk').1] at hq

theorem Pc.joins_of_releasing {pc : Pc} (h : pc.releasing = some t) : pc.joins = some t := by
  cases pc with
  | join t pret x => cases x <;> simp_all [Pc.releasing, Pc.joins]
  | _ => simp [Pc.releasing] at h

/-! ### The vector and the table -/

theorem BitInv.of_eq (I : BitInv s) (htcbs : s'.tcbs = s.tcbs) (hbv : s'.bitvec = s.bitvec)
    (hfreed : s'.infoFreed = s.infoFreed) (hcl : ∀ k, (s'.kt k).claims = (s.kt k).claims)
    (hre : ∀ k, (s'.kt k).releasing = (s.kt k).releasing) : BitInv s' := by
  refine ⟨?_, ?_, ?_, ?_, ?_⟩
  · rw [hbv]
    exact I.size
  · rw [htcbs]
    exact I.lt
  · simp only [hcl, htcbs]
    exact I.claim
  · simp only [hcl]
    exact I.claimUnique
  · simp only [hcl, hre, hbv, hfreed, htcbs]
    exact I.bit

/-- `get_next_tid` claims the identifier it takes. -/
theorem BitInv.next (I : BitInv s) {i : Tid} (hi : i < maxThreads) (hnone : s.tcbs i = none)
    (hncl : ∀ k, (s.kt k).claims ≠ some i) (htcbs : s'.tcbs = s.tcbs)
    (hbv : s'.bitvec = bitvecSet s.bitvec i) (hfreed : s'.infoFreed = s.infoFreed)
    (hk : (s'.kt k).claims = some i) (hkn : (s.kt k).claims = none)
    (hcl : ∀ k' ≠ k, (s'.kt k').claims = (s.kt k').claims)
    (hre : ∀ k, (s'.kt k).releasing = (s.kt k).releasing) : BitInv s' := by
  have hcases {k' : Fin n} {t : Tid} (hk' : (s'.kt k').claims = some t) :
      (k' = k ∧ t = i) ∨ (k' ≠ k ∧ (s.kt k').claims = some t) := by
    by_cases hkk : k' = k
    · subst hkk
      exact .inl ⟨rfl, Option.some.inj (hk'.symm.trans hk)⟩
    · exact .inr ⟨hkk, by rwa [← hcl k' hkk]⟩
  have hex (t : Tid) : (∃ k, (s'.kt k).claims = some t) ↔
      t = i ∨ ∃ k, (s.kt k).claims = some t := by
    constructor
    · rintro ⟨k', hk'⟩
      rcases hcases hk' with ⟨-, rfl⟩ | ⟨-, h⟩
      · exact .inl rfl
      · exact .inr ⟨k', h⟩
    · rintro (rfl | ⟨k', hk'⟩)
      · exact ⟨k, hk⟩
      · refine ⟨k', ?_⟩
        rw [hcl k' (by rintro rfl; simp [hkn] at hk'), hk']
  refine ⟨⟨by rw [hbv]; exact I.size.1, by rw [hbv]; simpa [bitvecSet] using I.size.2⟩,
    by rw [htcbs]; exact I.lt, fun k' t hk' => ?_, fun k₁ k₂ t h₁ h₂ => ?_, fun hf t ht => ?_⟩
  · rcases hcases hk' with ⟨-, rfl⟩ | ⟨-, h⟩
    · rw [htcbs]
      exact ⟨hnone, hi⟩
    · rw [htcbs]
      exact I.claim k' t h
  · rcases hcases h₁ with ⟨rfl, rfl⟩ | ⟨-, h₁⟩ <;> rcases hcases h₂ with ⟨rfl, h⟩ | ⟨-, h₂⟩
    · rfl
    · exact absurd h₂ (hncl k₂)
    · exact absurd (h ▸ h₁) (hncl k₁)
    · exact I.claimUnique k₁ k₂ t h₁ h₂
  · have hlen : i / 8 < s.bitvec.vec.length := by
      rw [I.size.2]
      exact Nat.div_lt_div_of_lt_of_dvd (by decide) hi
    rw [hbv, bitvecGet_set_iff _ hlen, I.bit (hfreed ▸ hf) t ht, hex, htcbs, or_assoc]
    simp only [hre]

/-- `reclaim_tid` clears the bit of an identifier in the table. -/
theorem BitInv.clear (I : BitInv s) (ht : t < maxThreads) (hncl : ∀ k, (s.kt k).claims ≠ some t)
    (htcbs : s'.tcbs = s.tcbs) (hbv : s'.bitvec = bitvecClear s.bitvec t)
    (hfreed : s'.infoFreed = s.infoFreed) (hk : (s'.kt k).releasing = some t)
    (hkn : (s.kt k).releasing = none)
    (hre : ∀ k' ≠ k, (s'.kt k').releasing = (s.kt k').releasing)
    (hcl : ∀ k, (s'.kt k).claims = (s.kt k).claims) : BitInv s' := by
  refine ⟨⟨by rw [hbv]; exact I.size.1, by rw [hbv]; simpa [bitvecClear] using I.size.2⟩,
    by rw [htcbs]; exact I.lt, ?_, ?_, fun hf t' ht' => ?_⟩
  · simp only [hcl, htcbs]
    exact I.claim
  · simp only [hcl]
    exact I.claimUnique
  · have hlen : t / 8 < s.bitvec.vec.length := by
      rw [I.size.2]
      exact Nat.div_lt_div_of_lt_of_dvd (by decide) ht
    have hall : (∀ k', (s'.kt k').releasing ≠ some t') ↔
        t' ≠ t ∧ ∀ k', (s.kt k').releasing ≠ some t' := by
      constructor
      · intro h
        refine ⟨?_, fun k' hk' => ?_⟩
        · rintro rfl
          exact h k hk
        · by_cases hkk : k' = k
          · rw [hkk, hkn] at hk'
            cases hk'
          · exact h k' (by rw [hre k' hkk, hk'])
      · rintro ⟨hne, h⟩ k' hk'
        by_cases hkk : k' = k
        · rw [hkk, hk] at hk'
          exact hne (Option.some.inj hk').symm
        · exact h k' (by rw [← hre k' hkk, hk'])
    have hclt : (∃ k, (s.kt k).claims = some t') → t' ≠ t := by
      rintro ⟨k', hk'⟩ rfl
      exact hncl k' hk'
    rw [hbv, bitvecGet_clear_iff _ hlen, I.bit (hfreed ▸ hf) t' ht', htcbs, hall]
    simp only [hcl]
    tauto

/-- A creation enters the identifier it has claimed in the table. -/
theorem BitInv.install (I : BitInv s) (hk : (s.kt k).claims = some t)
    (hnre : ∀ k, (s.kt k).releasing ≠ some t) (htcbs : s'.tcbs = Function.update s.tcbs t (some q))
    (hbv : s'.bitvec = s.bitvec) (hfreed : s'.infoFreed = s.infoFreed)
    (hkn : (s'.kt k).claims = none) (hcl : ∀ k' ≠ k, (s'.kt k').claims = (s.kt k').claims)
    (hre : ∀ k, (s'.kt k).releasing = (s.kt k).releasing) : BitInv s' := by
  have hcases {k' : Fin n} {t' : Tid} :
      (s'.kt k').claims = some t' ↔ t' ≠ t ∧ (s.kt k').claims = some t' := by
    by_cases hkk : k' = k
    · subst hkk
      simp only [hkn, hk, Option.some.injEq, reduceCtorEq, false_iff, not_and]
      exact fun h h' => h h'.symm
    · rw [hcl k' hkk]
      refine ⟨fun h => ⟨?_, h⟩, fun h => h.2⟩
      rintro rfl
      exact hkk (I.claimUnique k' k t' h hk)
  refine ⟨by rw [hbv]; exact I.size, fun t' p ht' => ?_, fun k' t' hk' => ?_,
    fun k₁ k₂ t' h₁ h₂ => ?_, fun hf t' ht' => ?_⟩
  · by_cases htt : t' = t
    · rw [htt]
      exact (I.claim k t hk).2
    · exact I.lt t' p (by simpa [htcbs, htt] using ht')
  · obtain ⟨hne, hk'⟩ := hcases.1 hk'
    simpa [htcbs, hne] using I.claim k' t' hk'
  · exact I.claimUnique k₁ k₂ t' (hcases.1 h₁).2 (hcases.1 h₂).2
  · simp only [hbv, hre, I.bit (hfreed ▸ hf) t' ht']
    by_cases htt : t' = t
    · subst htt
      simp only [htcbs, Function.update_self]
      exact ⟨fun _ => .inr ⟨by simp, hnre⟩, fun _ => .inl ⟨k, hk⟩⟩
    · simp only [htcbs, Function.update_of_ne htt, hcases, htt, ne_eq, not_false_eq_true,
        true_and]

/-- The join that has given the identifier back removes it from the table. -/
theorem BitInv.remove (I : BitInv s) (hk : (s.kt k).releasing = some t)
    (hncl : ∀ k, (s.kt k).claims ≠ some t) (htcbs : s'.tcbs = Function.update s.tcbs t none)
    (hbv : s'.bitvec = s.bitvec) (hfreed : s'.infoFreed = s.infoFreed)
    (hkn : (s'.kt k).releasing = none)
    (hre : ∀ k' ≠ k, (s'.kt k').releasing = (s.kt k').releasing)
    (hcl : ∀ k, (s'.kt k).claims = (s.kt k).claims) : BitInv s' := by
  refine ⟨by rw [hbv]; exact I.size, fun t' p ht' => ?_, fun k' t' hk' => ?_, ?_,
    fun hf t' ht' => ?_⟩
  · by_cases htt : t' = t
    · simp [htcbs, htt] at ht'
    · exact I.lt t' p (by simpa [htcbs, htt] using ht')
  · rw [hcl] at hk'
    obtain ⟨hn, hlt⟩ := I.claim k' t' hk'
    refine ⟨?_, hlt⟩
    by_cases htt : t' = t <;> simp [htcbs, htt, hn]
  · simp only [hcl]
    exact I.claimUnique
  · simp only [hbv, hcl, I.bit (hfreed ▸ hf) t' ht']
    by_cases htt : t' = t
    · subst htt
      simp only [htcbs, Function.update_self, ne_eq, not_true_eq_false, false_and, or_false]
      exact or_iff_left fun h => h.2 k hk
    · have hall : (∀ k', (s'.kt k').releasing ≠ some t') ↔ ∀ k', (s.kt k').releasing ≠ some t' := by
        refine forall_congr' fun k' => ?_
        by_cases hkk : k' = k
        · simp [hkk, hkn, hk, Ne.symm htt]
        · rw [hre k' hkk]
      rw [hall, htcbs, Function.update_of_ne htt]

/-- Every step keeps `BitInv`. -/
theorem Trans.bitInv (h : Trans cfg s e s') (I : Inv s) (o : Admits s e) : BitInv s' := by
  have hkt := fun k hk => h.kt_of_ne (k := k) hk
  have hcl (k : Fin n) (hk : k ≠ e.1) : (s'.kt k).claims = (s.kt k).claims := by rw [hkt k hk]
  have hre (k : Fin n) (hk : k ≠ e.1) : (s'.kt k).releasing = (s.kt k).releasing := by
    rw [hkt k hk]
  -- what holds of the acting kernel thread and of the others holds of all
  have hall {f : KThread → Option Tid} (h : ∀ k ≠ e.1, f (s'.kt k) = f (s.kt k))
      (he : f (s'.kt e.1) = f (s.kt e.1)) (k : Fin n) : f (s'.kt k) = f (s.kt k) := by
    by_cases hk : k = e.1
    · rw [hk, he]
    · exact h k hk
  rcases h.tid_cases o.alloc with hs | ⟨htcbs, hbv, hfreed, hcl', hre'⟩
  · cases hs with
    | @next k f p sb hc =>
      obtain ⟨hpos, hlt, hnone, hncl⟩ := I.tid_free o hc
      obtain ⟨h1, h2⟩ := getNextTid_eq hpos
      refine I.bits.next hlt hnone hncl rfl h2 rfl ?_ ?_ hcl (hall hre ?_)
      · simp [KThread.claims, State.goto, Ctl.pc?, Pc.claims, h1]
      · simp [KThread.claims, Ctl.pc?, Pc.claims, hc]
      · simp [KThread.releasing, State.goto, Ctl.pc?, Pc.releasing, hc]
    | @clear k f p t pret rv hc =>
      obtain ⟨q, hq, -⟩ := I.join.target p t (.inl ⟨k, by simp [hc, Ctl.joining, Pc.joins]⟩)
      refine I.bits.clear (I.bits.lt t q hq) (I.not_claims hc rfl) rfl rfl rfl ?_ ?_ hre
        (hall hcl ?_)
      · simp [KThread.releasing, State.goto, Ctl.pc?, Pc.releasing]
      · simp [KThread.releasing, Ctl.pc?, Pc.releasing, hc]
      · simp [KThread.claims, State.goto, Ctl.pc?, Pc.claims, hc]
    | edit h' =>
      generalize e.1 = k at h' hcl hre hall hkt
      cases h' with
      | @create p sb t hc =>
        have hk : (s.kt k).claims = some t := by simp [KThread.claims, Ctl.pc?, Pc.claims, hc]
        refine I.bits.install hk (fun k' hk' => ?_) rfl rfl rfl ?_ hcl (hall hre ?_)
        · obtain ⟨p', -, hj⟩ := State.joinsAt_of_pc Pc.joins_of_releasing hk'
          obtain ⟨q, hq, -⟩ := I.join.target p' t hj
          simp [(I.bits.claim k t hk).1] at hq
        · simp [KThread.claims, State.goto, Ctl.pc?, Pc.claims]
        · simp [KThread.releasing, State.goto, Ctl.pc?, Pc.releasing, hc]
      | destroy hc hq hx =>
        refine I.bits.remove (k := k) ?_ (I.not_claims hc rfl) rfl rfl rfl ?_ hre (hall hcl ?_)
        · simp [KThread.releasing, Ctl.pc?, Pc.releasing, hc]
        · simp [KThread.releasing, State.goto, Ctl.pc?, Pc.releasing]
        · simp [KThread.claims, State.goto, Ctl.pc?, Pc.claims, hc]
      | @free p q x hc hq hx =>
        have hncl (k' : Fin n) : (s.kt k').claims = none := by
          by_cases hk : k' = k
          · simp [KThread.claims, Ctl.pc?, Pc.claims, hk, hc]
          · simp [KThread.claims, Ctl.pc?, I.exited_of_free hc hk]
        have hncl' := hall hcl (by simp [KThread.claims, State.goto, Ctl.pc?, Pc.claims, hc])
        refine ⟨I.bits.size, fun t r ht => ?_, fun k' t hk' => ?_, fun k' _ t hk' => ?_,
          fun hf => ?_⟩
        · simp only [State.goto, State.setK, Option.ite_none_left_eq_some] at ht
          exact I.bits.lt t r ht.2
        · rw [hncl' k', hncl k'] at hk'
          cases hk'
        · rw [hncl' k', hncl k'] at hk'
          cases hk'
        · simp [State.goto, State.setK] at hf
  · exact I.bits.of_eq htcbs hbv hfreed (hall hcl hcl') (hall hre hre')

end Uthread
