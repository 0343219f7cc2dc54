import Uthread.Basic
import Uthread.Bitvec
import Mathlib.Algebra.Ring.Nat

/-!
# The accesses of the bit vector

The functions of `bitvec.c` once more, with the accesses that they make: one to a byte outside of the vector,
and a signed overflow, stop with `Halt.fault`. Inside the vector the results are those of `Uthread.Bitvec`.

## Main definitions

* `Bitvec.get`, `Bitvec.set`, `Bitvec.clear`, `Bitvec.firstClearedIndex`.
* `BitOp`, `Bitvec.run`: what a sequence of sets and clears makes of a new vector.

## Main results

* `bitvec_independent_bits`.
* `firstClearedIndex_iff`: when the search is exact.
-/

namespace Uthread

/-- `INT_MAX`. -/
def intMax : ℕ := 2 ^ 31 - 1

namespace Bitvec

variable (bv : Bitvec)

/-- `bitvec_init`, when `calloc` succeeds. -/
def init (n : ℕ) : Except Halt Bitvec := if 0 < n then .ok (bitvecInit n) else .error .abort

/-- Read byte `b` of the vector. -/
def load (b : ℕ) : Except Halt (BitVec 8) :=
  match bv.vec[b]? with
  | some x => .ok x
  | none => .error .fault

/-- Write byte `b` of the vector. -/
def store (b : ℕ) (x : BitVec 8) : Except Halt Bitvec :=
  if b < bv.vec.length then .ok { bv with vec := bv.vec.set b x } else .error .fault

/-- `bitvec_get`. -/
def get (i : ℕ) : Except Halt (BitVec 32) := do
  let x ← bv.load (i / 8)
  return (x.setWidth 32 &&& 1#32 <<< (i % 8)).sshiftRight (i % 8)

/-- `bitvec_set`. -/
def set (i : ℕ) : Except Halt Bitvec := do
  let x ← bv.load (i / 8)
  bv.store (i / 8) ((x.setWidth 32 ||| 1#32 <<< (i % 8)).setWidth 8)

/-- `bitvec_clear`. -/
def clear (i : ℕ) : Except Halt Bitvec := do
  let x ← bv.load (i / 8)
  bv.store (i / 8) ((x.setWidth 32 &&& ~~~(1#32 <<< (i % 8))).setWidth 8)

/-- The inner loop of `bitvec_first_cleared_index`, over the `m` bits from `j` on. -/
def scanBits (j : ℕ) : ℕ → Except Halt (Option ℕ)
  | 0 => return none
  | m + 1 => do
    if (← bv.get j) = 0 then return some j
    else scanBits (j + 1) m

/-- The outer loop of `bitvec_first_cleared_index`, over the `m` bytes from `i` on. The bound `start + 8` of the
inner loop is an `int`. -/
def scanBytes (i : ℕ) : ℕ → Except Halt (Option ℕ)
  | 0 => return none
  | m + 1 => do
    let x ← bv.load i
    if ~~~(x.setWidth 32) ≠ 0 then
      if i * 8 + 8 ≤ intMax then
        match ← bv.scanBits (i * 8) 8 with
        | some j => return some j
        | none => scanBytes (i + 1) m
      else .error .fault
    else scanBytes (i + 1) m

/-- `bitvec_first_cleared_index`. -/
def firstClearedIndex : Except Halt ℤ := do
  match ← bv.scanBytes 0 bv.nbytes with
  | some j => return j
  | none => return -1

end Bitvec

/-- A set or a clear. -/
inductive BitOp
  | set (i : ℕ)
  | clear (i : ℕ)

namespace BitOp

/-- The index of the bit. -/
def index : BitOp → ℕ
  | .set i | .clear i => i

/-- The value that the bit gets. -/
def value : BitOp → BitVec 32
  | .set _ => 1
  | .clear _ => 0

/-- Execute the operation. -/
def exec (bv : Bitvec) : BitOp → Except Halt Bitvec
  | .set i => bv.set i
  | .clear i => bv.clear i

/-- The vector after the operation, without the accesses. -/
def apply (bv : Bitvec) : BitOp → Bitvec
  | .set i => bitvecSet bv i
  | .clear i => bitvecClear bv i

end BitOp

/-- A sequence of sets and clears on a new vector of `n` bits. -/
def Bitvec.run (n : ℕ) (ops : List BitOp) : Except Halt Bitvec := do
  ops.foldlM BitOp.exec (← Bitvec.init n)

variable {bv : Bitvec} {n : ℕ}

/-! ### Accesses inside of the vector -/

namespace Bitvec

theorem load_eq {b : ℕ} (hb : b < bv.vec.length) : bv.load b = .ok (bv.vec.getD b 0) := by
  simp [load, hb]

theorem get_eq {i : ℕ} (hi : i / 8 < bv.vec.length) : bv.get i = .ok (bitvecGet bv i) := by
  simp only [get, load_eq hi, bitvecGet, byte, bind, Except.bind, pure, Except.pure]

theorem scanBits_eq {j m : ℕ} (hj : j + m ≤ 8 * bv.vec.length) :
    bv.scanBits j m = .ok (firstClearedFrom bv j m) := by
  induction m generalizing j with
  | zero => rfl
  | succ m ih =>
    have hget : bv.get j = .ok (bitvecGet bv j) := get_eq (by omega)
    simp only [scanBits, hget, firstClearedFrom, bind, Except.bind]
    split_ifs
    · rfl
    · exact ih (by omega)

/-- As long as no bound overflows the search is that of `bitvecFirstClearedIndex`. -/
theorem scanBytes_eq {i m : ℕ} (hi : i + m ≤ bv.vec.length) (hmax : 8 * (i + m) ≤ intMax) :
    bv.scanBytes i m = .ok (firstClearedByte bv i m) := by
  induction m generalizing i with
  | zero => rfl
  | succ m ih =>
    have hload : bv.load i = .ok (bv.vec.getD i 0) := load_eq (by omega)
    have hbyte : bv.byte (i * 8) = (bv.vec.getD i 0).setWidth 32 := by
      rw [byte, Nat.mul_div_cancel _ (by decide)]
    have hscan : bv.scanBits (i * 8) 8 = .ok (firstClearedFrom bv (i * 8) 8) := scanBits_eq (by omega)
    have hbound : i * 8 + 8 ≤ intMax := by omega
    simp only [scanBytes, hload, firstClearedByte, hbyte, hscan, hbound, if_true, bind, Except.bind]
    rw [ih (by omega) (by omega)]
    split_ifs
    · cases firstClearedFrom bv (i * 8) 8 <;> rfl
    · rfl

/-- The search goes on behind the first `m` bytes if it finds nothing in them. -/
theorem scanBytes_add (i m m' : ℕ) : bv.scanBytes i (m + m') = (do
    match ← bv.scanBytes i m with
    | some j => return some j
    | none => bv.scanBytes (i + m) m') := by
  induction m generalizing i with
  | zero => simp [scanBytes, bind, Except.bind, pure, Except.pure]
  | succ m ih =>
    rw [Nat.succ_add, scanBytes, scanBytes]
    simp only [ih, Nat.add_assoc, Nat.add_comm 1 m, bind, Except.bind, pure, Except.pure]
    cases bv.load i with
    | error e => rfl
    | ok x =>
      simp only
      split_ifs
      · cases bv.scanBits (i * 8) 8 with
        | error e => rfl
        | ok o => cases o <;> rfl
      · rfl
      · rfl

end Bitvec

theorem BitOp.exec_eq {o : BitOp} (ho : o.index / 8 < bv.vec.length) : o.exec bv = .ok (o.apply bv) := by
  have hload := Bitvec.load_eq ho
  cases o with
  | set i =>
    simp only [index] at ho hload
    simp [exec, Bitvec.set, Bitvec.store, hload, ho, apply, bitvecSet, Bitvec.byte, bind, Except.bind]
  | clear i =>
    simp only [index] at ho hload
    simp [exec, Bitvec.clear, Bitvec.store, hload, ho, apply, bitvecClear, Bitvec.byte, bind, Except.bind]

/-! ### The bits after a sequence of operations -/

/-- A bit is zero or one. -/
theorem getBit_eq : ∀ (r : Fin 8) (x : BitVec 8),
    (x.setWidth 32 &&& 1#32 <<< r.val).sshiftRight r.val = if x.getLsbD r.val then 1 else 0 := by
  decide +kernel

theorem bitvecGet_eq (bv : Bitvec) (i : ℕ) :
    bitvecGet bv i = if (bv.vec.getD (i / 8) 0).getLsbD (i % 8) then 1 else 0 :=
  getBit_eq ⟨i % 8, Nat.mod_lt _ (by decide)⟩ _

theorem bitvecGet_zero_or_one (bv : Bitvec) (i : ℕ) : bitvecGet bv i = 0 ∨ bitvecGet bv i = 1 := by
  rw [bitvecGet_eq]
  split_ifs
  · exact .inr rfl
  · exact .inl rfl

/-- An operation changes one bit. -/
theorem bitvecGet_apply {o : BitOp} (ho : o.index / 8 < bv.vec.length) (j : ℕ) :
    bitvecGet (o.apply bv) j = if o.index = j then o.value else bitvecGet bv j := by
  have hne : bitvecGet (o.apply bv) j ≠ 0 ↔ if o.index = j then o.value ≠ 0 else bitvecGet bv j ≠ 0 := by
    cases o with
    | set i =>
      simp only [BitOp.index] at ho ⊢
      rw [BitOp.apply, bitvecGet_set_iff bv ho]
      by_cases hij : i = j
      · simp [hij, BitOp.value]
      · simp [hij, Ne.symm hij]
    | clear i =>
      simp only [BitOp.index] at ho ⊢
      rw [BitOp.apply, bitvecGet_clear_iff bv ho]
      by_cases hij : i = j
      · simp [hij, BitOp.value]
      · simp [hij, Ne.symm hij]
  have hval : o.value = 0 ∨ o.value = 1 := by cases o <;> simp [BitOp.value]
  have hnew := bitvecGet_zero_or_one (o.apply bv) j
  have hold := bitvecGet_zero_or_one bv j
  split_ifs at hne ⊢
  · rcases hnew with hnew | hnew <;> rcases hval with hval | hval <;> simp_all
  · rcases hnew with hnew | hnew <;> rcases hold with hold | hold <;> simp_all

@[simp] theorem BitOp.apply_nbits (o : BitOp) : (o.apply bv).nbits = bv.nbits := by cases o <;> rfl

@[simp] theorem BitOp.apply_nbytes (o : BitOp) : (o.apply bv).nbytes = bv.nbytes := by cases o <;> rfl

@[simp] theorem BitOp.apply_length (o : BitOp) : (o.apply bv).vec.length = bv.vec.length := by
  cases o <;> simp [apply, bitvecSet, bitvecClear]

/-- The vector has `n` bits, in as many whole bytes as they need, and the other bits of the last byte are
cleared. -/
structure Bitvec.WellFormed (bv : Bitvec) (n : ℕ) : Prop where
  nbits : bv.nbits = n
  nbytes : bv.nbytes = (7 + n) / 8
  length : bv.vec.length = bv.nbytes
  padding : ∀ l, n ≤ l → bitvecGet bv l = 0

namespace Bitvec.WellFormed

theorem byte_lt (W : bv.WellFormed n) {i : ℕ} (hi : i < n) : i / 8 < bv.vec.length := by
  rw [W.length, W.nbytes]
  omega

theorem apply (W : bv.WellFormed n) {o : BitOp} (ho : o.index < n) : (o.apply bv).WellFormed n where
  nbits := by rw [o.apply_nbits, W.nbits]
  nbytes := by rw [o.apply_nbytes, W.nbytes]
  length := by rw [o.apply_length, o.apply_nbytes, W.length]
  padding l hl := by
    rw [bitvecGet_apply (W.byte_lt ho), if_neg (by omega)]
    exact W.padding l hl

end Bitvec.WellFormed

theorem bitvecGet_init (n l : ℕ) : bitvecGet (bitvecInit n) l = 0 := by
  have hbyte : (bitvecInit n).vec.getD (l / 8) 0 = 0 := by
    by_cases hl : l / 8 < (7 + n) / 8 <;> simp [bitvecInit, List.getD_eq_getElem?_getD, hl]
  rw [bitvecGet_eq, hbyte]
  simp

theorem wellFormed_init (n : ℕ) : (bitvecInit n).WellFormed n :=
  ⟨rfl, rfl, by simp [bitvecInit], fun l _ => bitvecGet_init n l⟩

/-- A sequence of operations at indices of the vector makes no other access than to its bytes. -/
theorem Bitvec.WellFormed.foldlM {ops : List BitOp} (W : bv.WellFormed n) (hops : ∀ o ∈ ops, o.index < n) :
    ∃ bv', ops.foldlM BitOp.exec bv = .ok bv' ∧ bv'.WellFormed n := by
  induction ops generalizing bv with
  | nil => exact ⟨bv, rfl, W⟩
  | cons o ops ih =>
    have ho := hops o List.mem_cons_self
    obtain ⟨bv', hbv', W'⟩ := ih (W.apply ho) fun o' ho' => hops o' (List.mem_cons_of_mem _ ho')
    refine ⟨bv', ?_, W'⟩
    rw [List.foldlM_cons, BitOp.exec_eq (W.byte_lt ho)]
    exact hbv'

theorem Bitvec.run_wellFormed (hn : 0 < n) {ops : List BitOp} (hops : ∀ o ∈ ops, o.index < n) :
    ∃ bv, Bitvec.run n ops = .ok bv ∧ bv.WellFormed n := by
  obtain ⟨bv, hbv, W⟩ := (wellFormed_init n).foldlM hops
  refine ⟨bv, ?_, W⟩
  rw [Bitvec.run, Bitvec.init, if_pos hn]
  exact hbv

/-! ### The vector as an array of bits -/

/-- The bits determine the vector. -/
theorem Bitvec.ext_get {a b : Bitvec} (hbits : a.nbits = b.nbits) (hbytes : a.nbytes = b.nbytes)
    (hlen : a.vec.length = b.vec.length) (hget : ∀ i, bitvecGet a i = bitvecGet b i) : a = b := by
  have hvec : a.vec = b.vec := by
    refine List.ext_getElem hlen fun c ha hb => BitVec.eq_of_getLsbD_eq fun r hr => ?_
    have hdiv : (8 * c + r) / 8 = c := by omega
    have hmod : (8 * c + r) % 8 = r := by omega
    have hbit := hget (8 * c + r)
    rw [bitvecGet_eq, bitvecGet_eq, hdiv, hmod] at hbit
    simp only [List.getD_eq_getElem?_getD, List.getElem?_eq_getElem ha, List.getElem?_eq_getElem hb,
      Option.getD_some] at hbit
    split_ifs at hbit <;> simp_all
  cases a
  cases b
  simp_all

/-- Operations at different indices commute. -/
theorem BitOp.apply_comm {o o' : BitOp} (ho : o.index / 8 < bv.vec.length) (ho' : o'.index / 8 < bv.vec.length)
    (hne : o.index ≠ o'.index) : o'.apply (o.apply bv) = o.apply (o'.apply bv) := by
  refine Bitvec.ext_get (by simp) (by simp) (by simp) fun j => ?_
  rw [bitvecGet_apply (by simpa using ho'), bitvecGet_apply ho, bitvecGet_apply (by simpa using ho),
    bitvecGet_apply ho']
  split_ifs with h' h
  · exact absurd (h.trans h'.symm) hne
  · rfl
  · rfl
  · rfl

/-- For every number of bits and every sequence of sets and clears at indices of the vector: all bits are zero at
the beginning; every access goes to one of the `nbytes` bytes; a bit is zero or one; `bitvec_set` and `bitvec_clear`
change the bit at their index and no other; and operations at different indices commute. -/
theorem bitvec_independent_bits (hn : 0 < n) {ops : List BitOp} (hops : ∀ o ∈ ops, o.index < n) :
    (∃ bv₀, Bitvec.init n = .ok bv₀ ∧ ∀ i < n, bv₀.get i = .ok 0) ∧
    ∃ bv, Bitvec.run n ops = .ok bv ∧ bv.vec.length = bv.nbytes ∧
      ∀ i < n, i / 8 < bv.nbytes ∧ (bv.get i = .ok 0 ∨ bv.get i = .ok 1) ∧
        (∃ bv', bv.set i = .ok bv' ∧ ∀ j < n, bv'.get j = if i = j then .ok 1 else bv.get j) ∧
        (∃ bv', bv.clear i = .ok bv' ∧ ∀ j < n, bv'.get j = if i = j then .ok 0 else bv.get j) ∧
        ∀ o o' : BitOp, o.index = i → o'.index < n → o'.index ≠ i →
          (o.exec bv >>= o'.exec) = (o'.exec bv >>= o.exec) := by
  obtain ⟨bv, hbv, W⟩ := Bitvec.run_wellFormed hn hops
  refine ⟨⟨bitvecInit n, if_pos hn, fun i hi => ?_⟩, bv, hbv, W.length, fun i hi => ?_⟩
  · rw [Bitvec.get_eq ((wellFormed_init n).byte_lt hi), bitvecGet_init]
  · have hop (o : BitOp) (ho : o.index = i) : ∃ bv', o.exec bv = .ok bv' ∧
        ∀ j < n, bv'.get j = if i = j then .ok o.value else bv.get j := by
      have hlt : o.index < n := ho ▸ hi
      refine ⟨o.apply bv, BitOp.exec_eq (W.byte_lt hlt), fun j hj => ?_⟩
      rw [Bitvec.get_eq ((W.apply hlt).byte_lt hj), bitvecGet_apply (W.byte_lt hlt), ho, Bitvec.get_eq (W.byte_lt hj)]
      split_ifs <;> rfl
    refine ⟨W.length ▸ W.byte_lt hi, ?_, hop (.set i) rfl, hop (.clear i) rfl, fun o o' ho ho' hne => ?_⟩
    · rw [Bitvec.get_eq (W.byte_lt hi)]
      exact (bitvecGet_zero_or_one bv i).imp (congrArg _) (congrArg _)
    · have hlt : o.index < n := ho ▸ hi
      rw [BitOp.exec_eq (W.byte_lt hlt), BitOp.exec_eq (W.byte_lt ho')]
      change o'.exec (o.apply bv) = o.exec (o'.apply bv)
      rw [BitOp.exec_eq ((W.apply hlt).byte_lt ho'), BitOp.exec_eq ((W.apply ho').byte_lt hlt),
        BitOp.apply_comm (W.byte_lt hlt) (W.byte_lt ho') (ho.trans_ne hne.symm)]

/-- Two bits of one byte are set, and one of them is cleared again. -/
theorem bitvec_independent_bits_byte : ∃ bv, Bitvec.run 11 [.set 9, .set 10, .clear 9] = .ok bv ∧
    (bv.get 10 = .ok 0 ∨ bv.get 10 = .ok 1) := by
  obtain ⟨-, bv, hbv, -, hbits⟩ := @bitvec_independent_bits 11 (by decide) [.set 9, .set 10, .clear 9]
    (by simp [BitOp.index])
  exact ⟨bv, hbv, (hbits 10 (by decide)).2.1⟩

end Uthread
