import Uthread.Bitvec.Access

/-!
# The first cleared bit

`bitvec_first_cleared_index` searches all the bytes, and so also the bits of the last byte that are not bits of
the vector. These are never set, so that a vector whose bits are all set and do not fill their bytes has such a
bit as its first cleared one. In a vector of almost `INT_MAX` bits the bound of the inner loop overflows when the
search comes to the last byte.

## Main definitions

* `Bitvec.SearchExact`: the search gives the least index of a cleared bit, or `-1` if all bits are set.

## Main results

* `firstClearedIndex_iff`: when the search is exact.
-/

namespace Uthread

variable {bv : Bitvec} {n : ℕ}

/-- `bitvec_first_cleared_index` makes no access outside of the vector, and returns the least index of a cleared
bit, or `-1` if all `n` bits are set. -/
def Bitvec.SearchExact (bv : Bitvec) (n : ℕ) : Prop :=
  (bv.firstClearedIndex = .ok (-1) ∧ ∀ l < n, bv.get l = .ok 1) ∨
    ∃ i < n, bv.firstClearedIndex = .ok (i : ℤ) ∧ bv.get i = .ok 0 ∧ ∀ l < i, bv.get l = .ok 1

/-- As long as no bound overflows the result is that of `bitvecFirstClearedIndex`. -/
theorem Bitvec.firstClearedIndex_eq (hlen : bv.vec.length = bv.nbytes) (hmax : 8 * bv.nbytes ≤ intMax) :
    bv.firstClearedIndex = .ok (bitvecFirstClearedIndex bv) := by
  have hscan : bv.scanBytes 0 bv.nbytes = .ok (firstClearedByte bv 0 bv.nbytes) :=
    scanBytes_eq (by omega) (by omega)
  simp only [firstClearedIndex, hscan, bitvecFirstClearedIndex, bind, Except.bind, pure, Except.pure]
  cases firstClearedByte bv 0 bv.nbytes <;> rfl

/-- If the bound of the last byte overflows, the search is one of the bytes before it. -/
theorem Bitvec.firstClearedIndex_of_overflow (hlen : bv.vec.length = bv.nbytes) {m : ℕ} (hm : bv.nbytes = m + 1)
    (hmax : 8 * m ≤ intMax) (hover : intMax < 8 * bv.nbytes) :
    bv.firstClearedIndex = match firstClearedByte bv 0 m with
      | some j => .ok (j : ℤ)
      | none => .error .fault := by
  have hscan : bv.scanBytes 0 m = .ok (firstClearedByte bv 0 m) := scanBytes_eq (by omega) (by omega)
  have hload : bv.load (0 + m) = .ok (bv.vec.getD (0 + m) 0) := load_eq (by omega)
  have hlast : bv.scanBytes (0 + m) 1 = .error .fault := by
    simp only [scanBytes, hload, bind, Except.bind]
    rw [if_pos (not_setWidth_ne_zero _), if_neg (by omega)]
  simp only [firstClearedIndex, hm, scanBytes_add, hscan, bind, Except.bind, pure, Except.pure]
  cases firstClearedByte bv 0 m with
  | some j => rfl
  | none => simp only [hlast]

theorem bitvecGet_ne_zero_iff_one (bv : Bitvec) (i : ℕ) : bitvecGet bv i ≠ 0 ↔ bitvecGet bv i = 1 := by
  rcases bitvecGet_zero_or_one bv i with h | h <;> simp [h]

namespace Bitvec.WellFormed

theorem get_eq_zero_iff (W : bv.WellFormed n) {i : ℕ} (hi : i < n) : bv.get i = .ok 0 ↔ bitvecGet bv i = 0 := by
  rw [Bitvec.get_eq (W.byte_lt hi), Except.ok.injEq]

theorem get_eq_one (W : bv.WellFormed n) {i : ℕ} (hi : i < n) (h : bitvecGet bv i ≠ 0) : bv.get i = .ok 1 := by
  rw [Bitvec.get_eq (W.byte_lt hi), (bitvecGet_ne_zero_iff_one bv i).1 h]

/-- A search that finds its bit among those of the vector is exact. -/
theorem exact_of_found (W : bv.WellFormed n) {i : ℕ} (hi : i < n) (hs : bv.firstClearedIndex = .ok (i : ℤ))
    (h0 : bitvecGet bv i = 0) (hlt : ∀ l < i, bitvecGet bv l ≠ 0) : bv.SearchExact n :=
  .inr ⟨i, hi, hs, (W.get_eq_zero_iff hi).2 h0, fun l hl => W.get_eq_one (Nat.lt_trans hl hi) (hlt l hl)⟩

/-- If some bit of the first `m` bytes is cleared, the first one is found there. -/
theorem firstClearedByte_of_clear {m i : ℕ} (hi : i < 8 * m) (h0 : bitvecGet bv i = 0) :
    ∃ j, firstClearedByte bv 0 m = some j ∧ j ≤ i ∧ bitvecGet bv j = 0 ∧ ∀ l < j, bitvecGet bv l ≠ 0 := by
  have hspec := firstClearedByte_spec bv 0 m
  cases hf : firstClearedByte bv 0 m with
  | none =>
    rw [hf] at hspec
    exact absurd h0 (hspec i (by omega) (by omega))
  | some j =>
    rw [hf] at hspec
    obtain ⟨-, hj, hlt⟩ := hspec
    have hle : j ≤ i := by
      by_contra hji
      exact hlt i (by omega) (by omega) h0
    exact ⟨j, rfl, hle, hj, fun l hl => hlt l (by omega) hl⟩

/-- A vector whose bits fill their bytes is searched exactly. -/
theorem exact_of_dvd (W : bv.WellFormed n) (hmax : n ≤ intMax) (hdvd : 8 ∣ n) : bv.SearchExact n := by
  have hbytes : 8 * bv.nbytes = n := by
    rw [W.nbytes]
    omega
  have hs := Bitvec.firstClearedIndex_eq W.length (by omega)
  by_cases hneg : bitvecFirstClearedIndex bv < 0
  · left
    have hall := (bitvecFirstClearedIndex_neg_iff bv).1 hneg
    refine ⟨?_, fun l hl => W.get_eq_one hl (hall l (by omega))⟩
    rw [hs]
    unfold bitvecFirstClearedIndex at hneg ⊢
    cases hf : firstClearedByte bv 0 bv.nbytes with
    | none => rfl
    | some j =>
      simp only [hf] at hneg
      omega
  · obtain ⟨hlt, h0, hall⟩ := bitvecFirstClearedIndex_spec (Int.not_lt.1 hneg)
    refine W.exact_of_found (by omega) ?_ h0 hall
    rw [hs, Int.toNat_of_nonneg (Int.not_lt.1 hneg)]

/-- If a bit before the last byte that overflows is cleared, the search is exact. -/
theorem exact_of_clear (W : bv.WellFormed n) (hmax : n ≤ intMax) {i : ℕ} (hi : i < n) (hi' : i < 2 ^ 31 - 8)
    (h0 : bitvecGet bv i = 0) : bv.SearchExact n := by
  have hnbytes := W.nbytes
  unfold intMax at hmax
  by_cases hover : 8 * bv.nbytes ≤ intMax
  · obtain ⟨j, hf, hle, hj, hlt⟩ := firstClearedByte_of_clear (m := bv.nbytes) (by omega) h0
    refine W.exact_of_found (by omega) ?_ hj hlt
    rw [Bitvec.firstClearedIndex_eq W.length hover, bitvecFirstClearedIndex, hf]
  · have hover' := Nat.lt_of_not_le hover
    unfold intMax at hover'
    have hm : bv.nbytes = (2 ^ 28 - 1) + 1 := by omega
    obtain ⟨j, hf, hle, hj, hlt⟩ := firstClearedByte_of_clear (m := 2 ^ 28 - 1) (by omega) h0
    refine W.exact_of_found (by omega) ?_ hj hlt
    rw [Bitvec.firstClearedIndex_of_overflow W.length hm (by decide) (Nat.lt_of_not_le hover), hf]

/-- If all these bits are set and the bits do not fill their bytes, the search finds a bit that is not one of the
vector, or overflows. -/
theorem not_exact (W : bv.WellFormed n) (hmax : n ≤ intMax) (hdvd : ¬ 8 ∣ n)
    (hall : ∀ i < n, i < 2 ^ 31 - 8 → bitvecGet bv i ≠ 0) : ¬ bv.SearchExact n := by
  have hnbytes := W.nbytes
  unfold intMax at hmax
  by_cases hover : 8 * bv.nbytes ≤ intMax
  · obtain ⟨j, hf, hle, hj, hlt⟩ := firstClearedByte_of_clear (m := bv.nbytes) (i := n) (by omega) (W.padding n (Nat.le_refl n))
    have hjn : j = n := by
      by_contra hne
      unfold intMax at hover
      exact hall j (by omega) (by omega) hj
    have hs : bv.firstClearedIndex = .ok (n : ℤ) := by
      rw [Bitvec.firstClearedIndex_eq W.length hover, bitvecFirstClearedIndex, hf, hjn]
    rintro (⟨h, -⟩ | ⟨i, hi, h, -⟩)
    · rw [hs, Except.ok.injEq] at h
      omega
    · rw [hs, Except.ok.injEq] at h
      omega
  · have hover' := Nat.lt_of_not_le hover
    unfold intMax at hover'
    have hm : bv.nbytes = (2 ^ 28 - 1) + 1 := by omega
    have hnone : firstClearedByte bv 0 (2 ^ 28 - 1) = none := by
      have hspec := firstClearedByte_spec bv 0 (2 ^ 28 - 1)
      cases hf : firstClearedByte bv 0 (2 ^ 28 - 1) with
      | none => rfl
      | some j =>
        rw [hf] at hspec
        exact absurd hspec.2.1 (hall j (by omega) (by omega))
    have hs := Bitvec.firstClearedIndex_of_overflow W.length hm (by decide) (Nat.lt_of_not_le hover)
    rw [hnone] at hs
    rintro (⟨h, -⟩ | ⟨i, hi, h, -⟩) <;> simp [hs] at h

end Bitvec.WellFormed

/-- The search of a vector of `n` bits, obtained by any sequence of sets and clears, is exact if and only if the
bits fill their bytes, or one of them before the byte whose bound overflows is cleared. -/
theorem firstClearedIndex_iff (hn : 0 < n) (hmax : n ≤ intMax) {ops : List BitOp} (hops : ∀ o ∈ ops, o.index < n)
    (hrun : Bitvec.run n ops = .ok bv) :
    bv.SearchExact n ↔ 8 ∣ n ∨ ∃ i < n, i < 2 ^ 31 - 8 ∧ bv.get i = .ok 0 := by
  obtain ⟨bv', hbv', W⟩ := Bitvec.run_wellFormed hn hops
  obtain rfl : bv' = bv := Except.ok.inj (hbv'.symm.trans hrun)
  constructor
  · intro hexact
    by_contra hcond
    push Not at hcond
    refine W.not_exact hmax hcond.1 (fun i hi hi' h0 => ?_) hexact
    exact hcond.2 i hi hi' ((W.get_eq_zero_iff hi).2 h0)
  · rintro (hdvd | ⟨i, hi, hi', h0⟩)
    · exact W.exact_of_dvd hmax hdvd
    · exact W.exact_of_clear hmax hi hi' ((W.get_eq_zero_iff hi).1 h0)

/-- The first of two bits is set. -/
theorem firstClearedIndex_iff_two : ∃ bv, Bitvec.run 2 [.set 0] = .ok bv ∧ bv.SearchExact 2 := by
  obtain ⟨bv, hbv⟩ : ∃ bv, Bitvec.run 2 [.set 0] = .ok bv := ⟨_, rfl⟩
  refine ⟨bv, hbv, (firstClearedIndex_iff (by decide) (by decide) (by simp [BitOp.index]) hbv).2 (.inr ⟨1, by decide, by decide, ?_⟩)⟩
  obtain rfl := Except.ok.inj hbv
  rfl

/-- The only bit of a vector is set, and the search returns the index of the bit behind it. -/
theorem firstClearedIndex_padding : ¬ ∀ (n : ℕ) (ops : List BitOp) (bv : Bitvec), 0 < n → n ≤ intMax →
    (∀ o ∈ ops, o.index < n) → Bitvec.run n ops = .ok bv → bv.SearchExact n := by
  intro hall
  have hexact := hall 1 [.set 0] _ (by decide) (by decide) (by simp [BitOp.index]) rfl
  rcases hexact with ⟨h, -⟩ | ⟨i, hi, h, -⟩
  · exact absurd h (by decide)
  · obtain rfl : i = 0 := by omega
    exact absurd h (by decide)

end Uthread
