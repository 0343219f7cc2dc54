import Mathlib.Data.List.Basic
import Mathlib.Data.Int.Notation

/-!
# The bit vector of thread identifiers

`bitvec.c`. A byte of the vector is a `BitVec 8`, and a C `int` a `BitVec 32`: the operands of the
bitwise operators are promoted to `int`, and what is stored in a byte is truncated.

## Main results

* `bitvecGet_set_iff`, `bitvecGet_clear_iff`: the bits after `bitvec_set` and `bitvec_clear`.
* `bitvecFirstClearedIndex_spec`, `bitvecFirstClearedIndex_neg_iff`: the result of
  `bitvec_first_cleared_index`.
-/

namespace Uthread

/-- `bitvec_t`. -/
structure Bitvec where
  nbits : ℕ
  nbytes : ℕ
  vec : List (BitVec 8)
  deriving DecidableEq

/-- `bitvec_init` when `calloc` succeeds. -/
def bitvecInit (n : ℕ) : Bitvec where
  nbits := n
  nbytes := (7 + n) / 8
  vec := List.replicate ((7 + n) / 8) 0

/-- The byte of the vector that holds bit `i`, promoted to `int`. -/
def Bitvec.byte (bv : Bitvec) (i : ℕ) : BitVec 32 := (bv.vec.getD (i / 8) 0).setWidth 32

/-- `bitvec_get`. -/
def bitvecGet (bv : Bitvec) (i : ℕ) : BitVec 32 :=
  (bv.byte i &&& 1#32 <<< (i % 8)).sshiftRight (i % 8)

/-- `bitvec_set`. -/
def bitvecSet (bv : Bitvec) (i : ℕ) : Bitvec :=
  { bv with vec := bv.vec.set (i / 8) ((bv.byte i ||| 1#32 <<< (i % 8)).setWidth 8) }

/-- `bitvec_clear`. -/
def bitvecClear (bv : Bitvec) (i : ℕ) : Bitvec :=
  { bv with vec := bv.vec.set (i / 8) ((bv.byte i &&& ~~~(1#32 <<< (i % 8))).setWidth 8) }

/-- The inner loop of `bitvec_first_cleared_index`: the first cleared bit among the `m` bits from
`j` on. -/
def firstClearedFrom (bv : Bitvec) (j : ℕ) : ℕ → Option ℕ
  | 0 => none
  | m + 1 => if bitvecGet bv j = 0 then some j else firstClearedFrom bv (j + 1) m

/-- The outer loop of `bitvec_first_cleared_index`, over the `m` bytes from `i` on. The byte is
promoted before it is complemented, so the test of the source never fails. -/
def firstClearedByte (bv : Bitvec) (i : ℕ) : ℕ → Option ℕ
  | 0 => none
  | m + 1 =>
    if ~~~(bv.byte (i * 8)) ≠ 0 then
      match firstClearedFrom bv (i * 8) 8 with
      | some j => some j
      | none => firstClearedByte bv (i + 1) m
    else firstClearedByte bv (i + 1) m

/-- `bitvec_first_cleared_index`, with `-1` for no such bit. -/
def bitvecFirstClearedIndex (bv : Bitvec) : ℤ :=
  match firstClearedByte bv 0 bv.nbytes with
  | some j => j
  | none => -1

/-! ### Single bits -/

theorem getBit_iff : ∀ (r : Fin 8) (x : BitVec 8),
    (x.setWidth 32 &&& 1#32 <<< r.val).sshiftRight r.val ≠ 0 ↔ x.getLsbD r.val = true := by
  decide +kernel

theorem setBit_iff {r r' : ℕ} (hr' : r' < 8) (x : BitVec 8) :
    ((x.setWidth 32 ||| 1#32 <<< r).setWidth 8).getLsbD r' = true ↔
      r' = r ∨ x.getLsbD r' = true := by
  have hrr : (r ≤ r' ∧ r' - r = 0) ↔ r' = r := by omega
  simp [hr', or_comm, hrr]

theorem clearBit_iff {r r' : ℕ} (hr' : r' < 8) (x : BitVec 8) :
    ((x.setWidth 32 &&& ~~~(1#32 <<< r)).setWidth 8).getLsbD r' = true ↔
      r' ≠ r ∧ x.getLsbD r' = true := by
  have hrr : (r' < r ∨ ¬ r' - r = 0) ↔ ¬ r' = r := by omega
  simp [hr', and_comm, hrr]

/-- The test of the outer loop of `bitvec_first_cleared_index` succeeds for every byte. -/
theorem not_setWidth_ne_zero : ∀ x : BitVec 8, ~~~(x.setWidth 32) ≠ 0 := by
  decide +kernel

theorem bitvecGet_ne_zero_iff (bv : Bitvec) (i : ℕ) :
    bitvecGet bv i ≠ 0 ↔ (bv.vec.getD (i / 8) 0).getLsbD (i % 8) = true :=
  getBit_iff ⟨i % 8, Nat.mod_lt _ (by decide)⟩ _

/-- The byte of bit `j` after the byte of bit `i` has been replaced. -/
theorem getD_set (l : List (BitVec 8)) {i j : ℕ} (x : BitVec 8) (hi : i < l.length) :
    (l.set i x).getD j 0 = if j = i then x else l.getD j 0 := by
  by_cases h : j = i
  · subst h
    simp [List.getD_eq_getElem?_getD, hi]
  · simp [List.getD_eq_getElem?_getD, List.getElem?_set_ne (Ne.symm h), h]

theorem bitvecGet_set_iff (bv : Bitvec) {i : ℕ} (hi : i / 8 < bv.vec.length) (j : ℕ) :
    bitvecGet (bitvecSet bv i) j ≠ 0 ↔ j = i ∨ bitvecGet bv j ≠ 0 := by
  rw [bitvecGet_ne_zero_iff, bitvecGet_ne_zero_iff, bitvecSet, getD_set _ _ hi]
  by_cases hb : j / 8 = i / 8
  · rw [if_pos hb, Bitvec.byte, ← hb, setBit_iff (Nat.mod_lt _ (by decide))]
    have : j % 8 = i % 8 ↔ j = i := by omega
    rw [this]
  · have : j ≠ i := by
      rintro rfl
      exact hb rfl
    simp [hb, this]

theorem bitvecGet_clear_iff (bv : Bitvec) {i : ℕ} (hi : i / 8 < bv.vec.length) (j : ℕ) :
    bitvecGet (bitvecClear bv i) j ≠ 0 ↔ j ≠ i ∧ bitvecGet bv j ≠ 0 := by
  rw [bitvecGet_ne_zero_iff, bitvecGet_ne_zero_iff, bitvecClear, getD_set _ _ hi]
  by_cases hb : j / 8 = i / 8
  · rw [if_pos hb, Bitvec.byte, ← hb, clearBit_iff (Nat.mod_lt _ (by decide))]
    have : j % 8 ≠ i % 8 ↔ j ≠ i := by omega
    rw [this]
  · have : j ≠ i := by
      rintro rfl
      exact hb rfl
    simp [hb, this]

/-! ### The first cleared bit -/

theorem firstClearedFrom_spec (bv : Bitvec) (j m : ℕ) :
    match firstClearedFrom bv j m with
    | some i => j ≤ i ∧ i < j + m ∧ bitvecGet bv i = 0 ∧ ∀ l, j ≤ l → l < i → bitvecGet bv l ≠ 0
    | none => ∀ l, j ≤ l → l < j + m → bitvecGet bv l ≠ 0 := by
  induction m generalizing j with
  | zero =>
    intro l hl hl'
    omega
  | succ m ih =>
    rw [firstClearedFrom]
    by_cases h0 : bitvecGet bv j = 0
    · rw [if_pos h0]
      exact ⟨Nat.le_refl j, by omega, h0, fun l hl hl' => by omega⟩
    · rw [if_neg h0]
      -- the bits from `j + 1` on, and bit `j` itself
      have hj {l : ℕ} (hl : j ≤ l) (h : j + 1 ≤ l → bitvecGet bv l ≠ 0) : bitvecGet bv l ≠ 0 := by
        by_cases hlj : l = j
        · rwa [hlj]
        · exact h (by omega)
      specialize ih (j + 1)
      cases hf : firstClearedFrom bv (j + 1) m with
      | some i =>
        rw [hf] at ih
        obtain ⟨h1, h2, h3, h4⟩ := ih
        exact ⟨by omega, by omega, h3, fun l hl hl' => hj hl fun h => h4 l h hl'⟩
      | none =>
        rw [hf] at ih
        exact fun l hl hl' => hj hl fun h => ih l h (by omega)

theorem firstClearedByte_spec (bv : Bitvec) (i m : ℕ) :
    match firstClearedByte bv i m with
    | some j => j < 8 * (i + m) ∧ bitvecGet bv j = 0 ∧
        ∀ l, 8 * i ≤ l → l < j → bitvecGet bv l ≠ 0
    | none => ∀ l, 8 * i ≤ l → l < 8 * (i + m) → bitvecGet bv l ≠ 0 := by
  induction m generalizing i with
  | zero =>
    intro l hl hl'
    omega
  | succ m ih =>
    rw [firstClearedByte, if_pos (show ~~~(bv.byte (i * 8)) ≠ 0 from not_setWidth_ne_zero _)]
    have hbyte := firstClearedFrom_spec bv (i * 8) 8
    cases hf : firstClearedFrom bv (i * 8) 8 with
    | some j =>
      rw [hf] at hbyte
      exact ⟨by omega, hbyte.2.2.1, fun l hl hl' => hbyte.2.2.2 l (by omega) hl'⟩
    | none =>
      rw [hf] at hbyte
      -- the bits of this byte are set, so that the search goes on with the next one
      have hl' {l : ℕ} (hl : 8 * i ≤ l) (h : 8 * (i + 1) ≤ l → bitvecGet bv l ≠ 0) :
          bitvecGet bv l ≠ 0 := by
        by_cases hlb : l < i * 8 + 8
        · exact hbyte l (by omega) hlb
        · exact h (by omega)
      specialize ih (i + 1)
      cases hg : firstClearedByte bv (i + 1) m with
      | some j =>
        rw [hg] at ih
        exact ⟨by omega, ih.2.1, fun l hl hlj => hl' hl fun h => ih.2.2 l h hlj⟩
      | none =>
        rw [hg] at ih
        exact fun l hl hlt => hl' hl fun h => ih l h (by omega)

/-- A value that is not negative is the least index of a cleared bit. -/
theorem bitvecFirstClearedIndex_spec {bv : Bitvec} (h : 0 ≤ bitvecFirstClearedIndex bv) :
    (bitvecFirstClearedIndex bv).toNat < 8 * bv.nbytes ∧
      bitvecGet bv (bitvecFirstClearedIndex bv).toNat = 0 ∧
      ∀ l < (bitvecFirstClearedIndex bv).toNat, bitvecGet bv l ≠ 0 := by
  have hs := firstClearedByte_spec bv 0 bv.nbytes
  unfold bitvecFirstClearedIndex at h ⊢
  cases hf : firstClearedByte bv 0 bv.nbytes with
  | some j =>
    rw [hf] at hs
    simpa using hs
  | none => simp [hf] at h

/-- The value is negative when every bit is set. -/
theorem bitvecFirstClearedIndex_neg_iff (bv : Bitvec) :
    bitvecFirstClearedIndex bv < 0 ↔ ∀ l < 8 * bv.nbytes, bitvecGet bv l ≠ 0 := by
  constructor
  · intro h
    have hs := firstClearedByte_spec bv 0 bv.nbytes
    unfold bitvecFirstClearedIndex at h
    cases hf : firstClearedByte bv 0 bv.nbytes with
    | some j =>
      rw [hf] at h
      simp only at h
      omega
    | none =>
      rw [hf] at hs
      simpa using hs
  · intro h
    by_contra hn
    obtain ⟨hlt, h0, -⟩ := bitvecFirstClearedIndex_spec (Int.not_lt.mp hn)
    exact h _ hlt h0

end Uthread
