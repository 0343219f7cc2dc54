import Uthread.Kthread.Registry
import Mathlib.Data.List.Basic

/-!
# The entries of the map of kernel threads

An entry is taken by a kernel thread that runs, and it is freed by the `kthread_join` that has joined this
kernel thread. In between the kernel may reissue the id. As long as no kernel thread enters itself under an
id that is still in the map, the ids in the map are distinct, and `kthread_join` finds the entry of the
kernel thread that the id was returned for.

## Main definitions

* `Registry.Distinct`: the ids in the map are distinct.
* `RegistryInv`: the invariant of the entries.

## Main results

* `RegistryInv.step`.
-/

namespace Uthread

variable {s s' : Registry} {p q : Pthread} {i : ℕ} {tid : ℤ} {x : KthreadPc} {e : KthreadEvent}
  {mainTid : ℤ} {h : List (Registry × KthreadEvent)}

namespace Registry

/-- The ids in the map are pairwise distinct. -/
def Distinct (s : Registry) : Prop :=
  ∀ (i j : ℕ) (x y : KthreadInfo), s.kthreads[i]? = some x → s.kthreads[j]? = some y → x.tid ≠ 0 → x.tid = y.tid → i = j

/-- Entry `i` of the map is that of `q`. -/
def EntryOf (s : Registry) (i : ℕ) (tid : ℤ) (q : Pthread) : Prop := s.kthreads[i]? = some ⟨tid, some q⟩

/-- What is known at a point of `p`: its entry in `kthread_trampoline`, the entry of the pthread that is
joined in `kthread_join`. -/
def Promise (s : Registry) (p : Pthread) : KthreadPc → Prop
  | .trampoline (.added i) => s.EntryOf i (s.tid p) p
  | .trampoline (.check id) => id = -1 ∨ id = s.tid p ∧ ∃ i, s.EntryOf i (s.tid p) p
  | .trampoline (.store id) => id = s.tid p ∧ ∃ i, s.EntryOf i (s.tid p) p
  | .join tid (.join i thread) => ∀ q, thread = some q → s.joined q = false → s.EntryOf i tid q ∧ tid ≠ 0
  | .join tid (.del i q) => s.joined q = true ∧ s.EntryOf i tid q ∧ tid ≠ 0
  | _ => True

/-- The entry that `p` is about to free, and its pthread. -/
def frees (s : Registry) (p : Pthread) : Option (ℕ × Pthread) :=
  match s.pc p with
  | .join _ (.del i q) => some (i, q)
  | _ => none

end Registry

/-- The invariant of the map. An entry that is taken is that of a kernel thread, and when this has been joined
somebody is about to free the entry. -/
structure RegistryInv (s : Registry) : Prop where
  length : s.kthreads.length = maxKthreads
  born : ∀ p, s.pc p = .unborn ↔ s.fresh ≤ p
  joined : ∀ q, s.joined q = true → s.pc q = .exited
  pos : ∀ q < s.fresh, 0 < s.tid q
  entry : ∀ (i : ℕ) (x : KthreadInfo), s.kthreads[i]? = some x → x.tid ≠ 0 → ∃ q < s.fresh, x = ⟨s.tid q, some q⟩ ∧
    (s.joined q = true → ∃ p, s.frees p = some (i, q))
  free : ∀ (i : ℕ) (x : KthreadInfo) q, s.kthreads[i]? = some x → x.tid = 0 → x.thread = some q → s.joined q = true
  distinct : s.Distinct
  freeing : ∀ p p' i i' q, s.frees p = some (i, q) → s.frees p' = some (i', q) → p = p'
  promise : ∀ p, s.Promise p (s.pc p)
  ptid : ∀ q tid, (s.args q).ptid = some tid → q < s.fresh ∧ tid = s.tid q ∧
    (s.joined q = false → ∃ i, s.EntryOf i tid q)

/-! ### Lookups -/

namespace Registry

theorem exists_of_findTid (hf : tidmapFindTid s.ids tid = some i) :
    ∃ x, s.kthreads[i]? = some x ∧ x.tid = tid := by
  obtain ⟨hi, htid, -⟩ := List.findIdx?_eq_some_iff_getElem.mp hf
  have hi' : i < s.kthreads.length := by simpa [ids] using hi
  exact ⟨s.kthreads[i], by simp [hi'], by simpa [ids] using htid⟩

theorem findTid_eq_none : tidmapFindTid s.ids tid = none ↔ ∀ x ∈ s.kthreads, x.tid ≠ tid := by
  simp [tidmapFindTid, ids]

/-- In a map of distinct ids the first match is the only one. -/
theorem Distinct.findTid (hd : s.Distinct) (hi : s.EntryOf i tid q) (h0 : tid ≠ 0) :
    tidmapFindTid s.ids tid = some i := by
  cases hf : tidmapFindTid s.ids tid with
  | none => exact absurd rfl (findTid_eq_none.mp hf _ (List.mem_of_getElem? hi))
  | some j =>
    obtain ⟨y, hj, hy⟩ := exists_of_findTid hf
    rw [hd i j _ y hi hj h0 hy.symm]

theorem frees_eq_some : s.frees p = some (i, q) ↔ ∃ tid, s.pc p = .join tid (.del i q) := by
  unfold frees
  split <;> simp_all

end Registry

/-! ### Initially -/

theorem RegistryInv.init (h0 : 0 < mainTid) : RegistryInv (Registry.init mainTid) := by
  have hentry {i : ℕ} {x : KthreadInfo} (hx : (Registry.init mainTid).kthreads[i]? = some x) : x = {} := by
    simp only [Registry.init, List.getElem?_replicate] at hx
    split_ifs at hx
    exact (Option.some.inj hx).symm
  have hpc (p : Pthread) : (Registry.init mainTid).pc p = .user none ∨
      (Registry.init mainTid).pc p = .unborn := by
    simp only [Registry.init]
    split_ifs
    · exact .inl rfl
    · exact .inr rfl
  constructor
  case length => simp [Registry.init]
  case born =>
    intro p
    simp only [Registry.init]
    split_ifs with hp
    · simp [hp]
    · simp [Nat.one_le_iff_ne_zero, hp]
  case joined => simp [Registry.init]
  case pos => exact fun _ _ => h0
  case entry => exact fun i x hx hne => absurd (by rw [hentry hx]) hne
  case free =>
    intro i x q hx _ hq
    simp [hentry hx] at hq
  case distinct => exact fun i j x y hx _ hne => absurd (by rw [hentry hx]) hne
  case freeing =>
    intro p p' i i' q hp
    obtain ⟨tid, hp⟩ := Registry.frees_eq_some.mp hp
    rcases hpc p with h | h <;> simp [h] at hp
  case promise =>
    intro p
    rcases hpc p with h | h <;> rw [h] <;> trivial
  case ptid => simp [Registry.init]

/-! ### The steps -/

namespace RegistryInv

variable (I : RegistryInv s)
include I

theorem lt_of_pc (hpc : s.pc p ≠ .unborn) : p < s.fresh := by
  by_contra hle
  exact hpc ((I.born p).mpr (not_lt.mp hle))

theorem joined_eq_false (hpc : s.pc p ≠ .exited) : s.joined p = false := by
  by_contra hj
  exact hpc (I.joined p (by simpa using hj))

theorem tid_ne_zero (hp : p < s.fresh) : s.tid p ≠ 0 := by
  have := I.pos p hp
  omega

/-- The kernel thread moves on, and frees nothing. -/
theorem goto {a : Pthread → TrampolineArgs} {b : Bool}
    (ha : ∀ q tid, (a q).ptid = some tid → q < s.fresh ∧ tid = s.tid q ∧
      (s.joined q = false → ∃ i, s.EntryOf i tid q))
    (hpc : s.pc p ≠ .unborn) (hexit : s.pc p ≠ .exited) (hfrees : s.frees p = none)
    (hx : x ≠ .unborn) (hx' : ∀ tid i q, x ≠ .join tid (.del i q)) (hpromise : s.Promise p x) :
    RegistryInv ({ s with args := a, inited := b }.goto p x) := by
  have hf (p' : Pthread) : ({ s with args := a, inited := b }.goto p x : Registry).frees p' = s.frees p' := by
    by_cases hp' : p' = p
    · subst hp'
      rw [hfrees]
      cases x with
      | join tid y => cases y <;> simp_all [Registry.frees, Registry.goto]
      | _ => simp [Registry.frees, Registry.goto]
    · simp [Registry.frees, Registry.goto, Function.update_of_ne hp']
  constructor
  case length => exact I.length
  case born =>
    intro p'
    by_cases hp' : p' = p
    · subst hp'
      simpa [Registry.goto, hx] using (I.born p').not.mp hpc
    · simpa [Registry.goto, Function.update_of_ne hp'] using I.born p'
  case joined =>
    intro q hq
    by_cases hqp : q = p
    · exact absurd (I.joined q hq) (hqp ▸ hexit)
    · simpa [Registry.goto, Function.update_of_ne hqp] using I.joined q hq
  case pos => exact I.pos
  case entry =>
    intro i y hy h0
    obtain ⟨q, hq, hy', hj⟩ := I.entry i y hy h0
    exact ⟨q, hq, hy', fun hjoin => (hj hjoin).imp fun p' hp' => (hf p').trans hp'⟩
  case free => exact I.free
  case distinct => exact I.distinct
  case freeing => simpa only [hf] using I.freeing
  case promise =>
    intro p'
    by_cases hp' : p' = p
    · subst hp'
      simp only [Registry.goto, Function.update_self]
      exact hpromise
    · simp only [Registry.goto, Function.update_of_ne hp']
      exact I.promise p'
  case ptid => exact ha

/-- The kernel thread enters itself in the map. -/
theorem add (hi : tidmapFindTid s.ids 0 = some i) (hfresh : s.tid p ∉ s.ids) (hpc : s.pc p ≠ .unborn)
    (hexit : s.pc p ≠ .exited) (hpfrees : s.frees p = none)
    (hx : x = .create .setInited ∨ x = .trampoline (.added i)) :
    RegistryInv ({ s with kthreads := s.kthreads.set i ⟨s.tid p, some p⟩ }.goto p x) := by
  obtain ⟨y, hy, hy0⟩ := Registry.exists_of_findTid hi
  have hp := I.lt_of_pc hpc
  have hlt : i < s.kthreads.length := (List.getElem?_eq_some_iff.mp hy).1
  let m : Registry := { s with kthreads := s.kthreads.set i ⟨s.tid p, some p⟩ }
  have hself : m.EntryOf i (s.tid p) p := by simp [Registry.EntryOf, m, hlt]
  -- the other entries are as before
  have hother {j : ℕ} (hj : j ≠ i) : m.kthreads[j]? = s.kthreads[j]? := by simp [m, List.getElem?_set_ne hj.symm]
  have hkeep {j : ℕ} {tid : ℤ} {q : Pthread} (he : s.EntryOf j tid q) (h0 : tid ≠ 0) : m.EntryOf j tid q := by
    have hj : j ≠ i := by
      rintro rfl
      rw [Registry.EntryOf, hy, Option.some.injEq] at he
      exact h0 (by rw [← hy0, he])
    exact (hother hj).trans he
  have hnew {j : ℕ} {z : KthreadInfo} (hz : m.kthreads[j]? = some z) :
      j = i ∧ z = ⟨s.tid p, some p⟩ ∨ j ≠ i ∧ s.kthreads[j]? = some z := by
    by_cases hj : j = i
    · subst hj
      exact .inl ⟨rfl, Option.some.inj (hz.symm.trans hself)⟩
    · exact .inr ⟨hj, (hother hj).symm.trans hz⟩
  have M : RegistryInv m := by
    constructor
    case length => simpa [m] using I.length
    case born => exact I.born
    case joined => exact I.joined
    case pos => exact I.pos
    case entry =>
      intro j z hz h0
      obtain ⟨rfl, rfl⟩ | ⟨-, hz⟩ := hnew hz
      · refine ⟨p, hp, rfl, fun hj => ?_⟩
        simp [m, I.joined_eq_false hexit] at hj
      · exact I.entry j z hz h0
    case free =>
      intro j z q hz h0 hq
      obtain ⟨rfl, rfl⟩ | ⟨-, hz⟩ := hnew hz
      · exact absurd h0 (I.tid_ne_zero hp)
      · exact I.free j z q hz h0 hq
    case distinct =>
      intro j j' z z' hz hz' h0 heq
      obtain ⟨rfl, rfl⟩ | ⟨-, hold⟩ := hnew hz
      · obtain ⟨rfl, rfl⟩ | ⟨-, hold'⟩ := hnew hz'
        · rfl
        · have hmem : s.tid p ∈ s.ids := List.mem_map.mpr ⟨z', List.mem_of_getElem? hold', heq.symm⟩
          exact absurd hmem hfresh
      · obtain ⟨rfl, rfl⟩ | ⟨-, hold'⟩ := hnew hz'
        · have hmem : s.tid p ∈ s.ids := List.mem_map.mpr ⟨z, List.mem_of_getElem? hold, heq⟩
          exact absurd hmem hfresh
        · exact I.distinct j j' z z' hold hold' h0 heq
    case freeing => exact I.freeing
    case promise =>
      intro p'
      have hp' := I.promise p'
      have hlt' (h : s.pc p' ≠ .unborn) : s.tid p' ≠ 0 := I.tid_ne_zero (I.lt_of_pc h)
      change m.Promise p' (s.pc p')
      cases hc : s.pc p' with
      | trampoline y =>
        have h0 := hlt' (by simp [hc])
        rw [hc] at hp'
        cases y with
        | added j => exact hkeep hp' h0
        | check id => exact hp'.imp_right fun hp' => ⟨hp'.1, hp'.2.imp fun _ he => hkeep he h0⟩
        | store id => exact ⟨hp'.1, hp'.2.imp fun _ he => hkeep he h0⟩
        | _ => trivial
      | join tid y =>
        rw [hc] at hp'
        cases y with
        | find => trivial
        | join j thread =>
          intro q hq hj
          obtain ⟨he, h0⟩ := hp' q hq hj
          exact ⟨hkeep he h0, h0⟩
        | del j q => exact ⟨hp'.1, hkeep hp'.2.1 hp'.2.2, hp'.2.2⟩
      | _ => trivial
    case ptid =>
      intro q tid hq
      obtain ⟨hlt, rfl, he⟩ := I.ptid q tid hq
      exact ⟨hlt, rfl, fun hj => (he hj).imp fun _ he => hkeep he (I.tid_ne_zero hlt)⟩
  rcases hx with rfl | rfl
  · exact M.goto M.ptid hpc hexit hpfrees (by simp) (by simp) trivial
  · exact M.goto M.ptid hpc hexit hpfrees (by simp) (by simp) hself

/-- The kernel thread has joined `q`, and is about to free its entry. -/
theorem join {thread : Option Pthread} (hpc : s.pc p = .join tid (.join i thread)) (hq : thread = some q)
    (hj : s.joined q = false) (hexit : s.pc q = .exited) :
    RegistryInv ({ s with joined := Function.update s.joined q true }.goto p (.join tid (.del i q))) := by
  let s' : Registry := { s with joined := Function.update s.joined q true }.goto p (.join tid (.del i q))
  obtain ⟨he, h0⟩ : s.EntryOf i tid q ∧ tid ≠ 0 := by
    have := I.promise p
    rw [hpc] at this
    exact this q hq hj
  have hjoined (q' : Pthread) : s'.joined q' = true ↔ q' = q ∨ s.joined q' = true := by
    by_cases hq' : q' = q
    · simp [s', Registry.goto, hq']
    · simp [s', Registry.goto, hq']
  have hunjoined {q' : Pthread} (hq' : s'.joined q' = false) : s.joined q' = false := by
    by_contra hne
    rw [(hjoined q').mpr (.inr (by simpa using hne))] at hq'
    cases hq'
  have hpc' {p' : Pthread} (hp' : p' ≠ p) : s'.pc p' = s.pc p' := by
    simp [s', Registry.goto, Function.update_of_ne hp']
  have hself : s'.frees p = some (i, q) := by simp [s', Registry.frees, Registry.goto]
  have hfrees {p' : Pthread} (hp' : p' ≠ p) : s'.frees p' = s.frees p' := by simp [Registry.frees, hpc' hp']
  -- nobody else is about to free an entry of `q`, which was not joined before
  have hnobody {p' : Pthread} {j : ℕ} (hp' : s.frees p' = some (j, q)) : False := by
    obtain ⟨tid', hc⟩ := Registry.frees_eq_some.mp hp'
    have hdel := I.promise p'
    rw [hc] at hdel
    exact absurd (hj.symm.trans hdel.1) Bool.false_ne_true
  have hunborn : s.pc p ≠ .unborn := by simp [hpc]
  constructor
  case length => exact I.length
  case born =>
    intro p'
    by_cases hp' : p' = p
    · subst hp'
      simpa [Registry.goto] using I.lt_of_pc hunborn
    · rw [hpc' hp']
      exact I.born p'
  case joined =>
    intro q' hq'
    have hexit' : s.pc q' = .exited := by
      obtain rfl | hq' := (hjoined q').mp hq'
      · exact hexit
      · exact I.joined q' hq'
    rw [hpc', hexit']
    rintro rfl
    simp [hpc] at hexit'
  case pos => exact I.pos
  case entry =>
    intro j z hz hz0
    obtain ⟨q', hlt, rfl, hj'⟩ := I.entry j z hz hz0
    refine ⟨q', hlt, rfl, fun hq' => ?_⟩
    obtain rfl | hq' := (hjoined q').mp hq'
    · obtain ⟨q'', -, htid, -⟩ := I.entry i _ he h0
      obtain ⟨rfl, rfl⟩ : tid = s.tid q'' ∧ q' = q'' := by simpa using htid
      obtain rfl : i = j := I.distinct i j _ _ he hz h0 rfl
      exact ⟨p, hself⟩
    · obtain ⟨p', hp'⟩ := hj' hq'
      have hne : p' ≠ p := by
        rintro rfl
        simp [Registry.frees, hpc] at hp'
      exact ⟨p', (hfrees hne).trans hp'⟩
  case free => exact fun j z q' hz h0 hq' => (hjoined q').mpr (.inr (I.free j z q' hz h0 hq'))
  case distinct => exact I.distinct
  case freeing =>
    intro p₁ p₂ j₁ j₂ q' h₁ h₂
    by_cases hp₁ : p₁ = p <;> by_cases hp₂ : p₂ = p
    · rw [hp₁, hp₂]
    · rw [hfrees hp₂] at h₂
      rw [hp₁] at h₁
      obtain ⟨-, rfl⟩ := Prod.mk.inj (Option.some.inj (hself.symm.trans h₁))
      exact (hnobody h₂).elim
    · rw [hfrees hp₁] at h₁
      rw [hp₂] at h₂
      obtain ⟨-, rfl⟩ := Prod.mk.inj (Option.some.inj (hself.symm.trans h₂))
      exact (hnobody h₁).elim
    · exact I.freeing p₁ p₂ j₁ j₂ q' (hfrees hp₁ ▸ h₁) (hfrees hp₂ ▸ h₂)
  case promise =>
    intro p'
    by_cases hp' : p' = p
    · subst hp'
      simp only [Registry.goto, Function.update_self]
      exact ⟨(hjoined q).mpr (.inl rfl), he, h0⟩
    · have hpr := I.promise p'
      change s'.Promise p' (s'.pc p')
      rw [hpc' hp']
      cases hc : s.pc p' with
      | trampoline y =>
        rw [hc] at hpr
        cases y <;> exact hpr
      | join tid y =>
        rw [hc] at hpr
        cases y with
        | find => trivial
        | join j thread =>
          intro q' hq' hj'
          exact hpr q' hq' (hunjoined hj')
        | del j q' => exact ⟨(hjoined q').mpr (.inr hpr.1), hpr.2⟩
      | _ => trivial
  case ptid =>
    intro q' tid' hq'
    obtain ⟨hlt, rfl, he'⟩ := I.ptid q' tid' hq'
    exact ⟨hlt, rfl, fun hj' => he' (hunjoined hj')⟩

/-- The kernel thread frees the entry of the pthread that it has joined. -/
theorem del (hpc : s.pc p = .join tid (.del i q)) :
    RegistryInv ({ s with kthreads := s.kthreads.modify i fun x => { x with tid := 0 } }.goto p
      (.user (some 0))) := by
  let s' : Registry := { s with kthreads := s.kthreads.modify i fun x => { x with tid := 0 } }.goto p
    (.user (some 0))
  obtain ⟨hj, he, h0⟩ : s.joined q = true ∧ s.EntryOf i tid q ∧ tid ≠ 0 := by
    have := I.promise p
    rwa [hpc] at this
  have hself : s'.kthreads[i]? = some ⟨0, some q⟩ := by
    rw [Registry.EntryOf] at he
    simp [s', Registry.goto, he]
  have hother {j : ℕ} (hji : j ≠ i) : s'.kthreads[j]? = s.kthreads[j]? := by
    simp [s', Registry.goto, hji.symm]
  have hpc' {p' : Pthread} (hp' : p' ≠ p) : s'.pc p' = s.pc p' := by
    simp [s', Registry.goto, Function.update_of_ne hp']
  have hp : s.frees p = some (i, q) := Registry.frees_eq_some.mpr ⟨tid, hpc⟩
  have hnone : s'.frees p = none := by simp [s', Registry.frees, Registry.goto]
  have hfrees {p' : Pthread} (hp' : p' ≠ p) : s'.frees p' = s.frees p' := by simp [Registry.frees, hpc' hp']
  -- an entry of another pthread is as before
  have hkeep {j : ℕ} {tid' : ℤ} {q' : Pthread} (he' : s.EntryOf j tid' q') (hq' : q' ≠ q) : s'.EntryOf j tid' q' := by
    refine (hother ?_).trans he'
    rintro rfl
    obtain ⟨-, rfl⟩ : tid = tid' ∧ q = q' := by simpa using he.symm.trans he'
    exact hq' rfl
  have hold {j : ℕ} {z : KthreadInfo} (hz : s'.kthreads[j]? = some z) (hz0 : z.tid ≠ 0) :
      j ≠ i ∧ s.kthreads[j]? = some z := by
    have hji : j ≠ i := by
      rintro rfl
      obtain rfl := Option.some.inj (hself.symm.trans hz)
      exact hz0 rfl
    exact ⟨hji, (hother hji).symm.trans hz⟩
  have hunborn : s.pc p ≠ .unborn := by simp [hpc]
  constructor
  case length => simpa [Registry.goto] using I.length
  case born =>
    intro p'
    by_cases hp' : p' = p
    · subst hp'
      simpa [Registry.goto] using I.lt_of_pc hunborn
    · rw [hpc' hp']
      exact I.born p'
  case joined =>
    intro q' hq'
    have hexit := I.joined q' hq'
    rw [hpc', hexit]
    rintro rfl
    simp [hpc] at hexit
  case pos => exact I.pos
  case entry =>
    intro j z hz hz0
    obtain ⟨hji, hz⟩ := hold hz hz0
    obtain ⟨q', hlt, rfl, hj'⟩ := I.entry j z hz hz0
    refine ⟨q', hlt, rfl, fun hq' => (hj' hq').imp fun p' hp' => ?_⟩
    rw [hfrees, hp']
    rintro rfl
    exact hji (Prod.mk.inj (Option.some.inj (hp'.symm.trans hp))).1
  case free =>
    intro j z q' hz hz0 hq'
    by_cases hji : j = i
    · subst hji
      obtain rfl := Option.some.inj (hself.symm.trans hz)
      exact Option.some.inj hq' ▸ hj
    · exact I.free j z q' ((hother hji).symm.trans hz) hz0 hq'
  case distinct =>
    intro j j' z z' hz hz' hz0 heq
    exact I.distinct j j' z z' (hold hz hz0).2 (hold hz' (heq ▸ hz0)).2 hz0 heq
  case freeing =>
    intro p₁ p₂ j₁ j₂ q' h₁ h₂
    have hne {p' : Pthread} {j : ℕ} (h' : s'.frees p' = some (j, q')) : p' ≠ p := by
      rintro rfl
      simp [hnone] at h'
    exact I.freeing p₁ p₂ j₁ j₂ q' (hfrees (hne h₁) ▸ h₁) (hfrees (hne h₂) ▸ h₂)
  case promise =>
    intro p'
    by_cases hp' : p' = p
    · subst hp'
      simp [Registry.goto, Registry.Promise]
    · have hpr := I.promise p'
      -- `q` has exited
      have hne (hlive : s.pc p' ≠ .exited) : p' ≠ q := by
        rintro rfl
        exact hlive (I.joined p' hj)
      change s'.Promise p' (s'.pc p')
      rw [hpc' hp']
      cases hc : s.pc p' with
      | trampoline y =>
        have hne' := hne (by simp [hc])
        rw [hc] at hpr
        cases y with
        | added j => exact hkeep hpr hne'
        | check id => exact hpr.imp_right fun hpr => ⟨hpr.1, hpr.2.imp fun _ he => hkeep he hne'⟩
        | store id => exact ⟨hpr.1, hpr.2.imp fun _ he => hkeep he hne'⟩
        | _ => trivial
      | join tid' y =>
        rw [hc] at hpr
        cases y with
        | find => trivial
        | join j thread =>
          intro q' hq' hj'
          obtain ⟨he', h0'⟩ := hpr q' hq' hj'
          refine ⟨hkeep he' ?_, h0'⟩
          rintro rfl
          exact absurd (hj'.symm.trans hj) Bool.false_ne_true
        | del j q' =>
          refine ⟨hpr.1, hkeep hpr.2.1 ?_, hpr.2.2⟩
          rintro rfl
          exact hp' (I.freeing p' p j i q' (Registry.frees_eq_some.mpr ⟨tid', hc⟩) hp)
      | _ => trivial
  case ptid =>
    intro q' tid' hq'
    obtain ⟨hlt, rfl, he'⟩ := I.ptid q' tid' hq'
    refine ⟨hlt, rfl, fun hj' => (he' hj').imp fun _ he' => hkeep he' ?_⟩
    rintro rfl
    exact absurd (hj'.symm.trans hj) Bool.false_ne_true

/-- A new kernel thread is made. -/
theorem spawn {id : ℤ} (hid : 0 < id) (hpc : s.pc p = .create .spawn) : RegistryInv (s.spawn p id) := by
  have hp := I.lt_of_pc (p := p) (by simp [hpc])
  have hne : s.fresh ≠ p := Nat.ne_of_gt hp
  have hpc' {p' : Pthread} (hp' : p' ≠ p) (hp'' : p' ≠ s.fresh) : (s.spawn p id).pc p' = s.pc p' := by
    simp [Registry.spawn, Function.update_of_ne hp', Function.update_of_ne hp'']
  have hself : (s.spawn p id).pc p = .create (.wait s.fresh) := by simp [Registry.spawn]
  have hnew : (s.spawn p id).pc s.fresh = .trampoline .addSelf := by
    simp [Registry.spawn, Function.update_of_ne hne]
  have htid {q : Pthread} (hq : q < s.fresh) : (s.spawn p id).tid q = s.tid q := by
    have hq' : q ≠ s.fresh := Nat.ne_of_lt hq
    simp [Registry.spawn, Function.update_of_ne hq']
  have hfrees (p' : Pthread) : (s.spawn p id).frees p' = s.frees p' := by
    by_cases hp' : p' = p
    · subst hp'
      simp [Registry.frees, hself, hpc]
    · by_cases hp'' : p' = s.fresh
      · subst hp''
        simp [Registry.frees, hnew, (I.born s.fresh).mpr le_rfl]
      · simp [Registry.frees, hpc' hp' hp'']
  constructor
  case length => exact I.length
  case born =>
    intro p'
    change _ ↔ s.fresh + 1 ≤ p'
    by_cases hp' : p' = p
    · subst hp'
      simp only [hself, reduceCtorEq, false_iff]
      exact Nat.not_le_of_lt (Nat.lt_succ_of_lt hp)
    · by_cases hp'' : p' = s.fresh
      · subst hp''
        simp [hnew]
      · rw [hpc' hp' hp'', I.born p']
        exact ⟨fun hle => Nat.lt_of_le_of_ne hle (Ne.symm hp''), Nat.le_of_succ_le⟩
  case joined =>
    intro q hq
    have hexit := I.joined q hq
    rw [hpc', hexit]
    · rintro rfl
      simp [hpc] at hexit
    · rintro rfl
      simp [(I.born s.fresh).mpr le_rfl] at hexit
  case pos =>
    intro q hq
    by_cases hq' : q = s.fresh
    · subst hq'
      simpa [Registry.spawn] using hid
    · have hlt : q < s.fresh := Nat.lt_of_le_of_ne (Nat.le_of_lt_succ hq) hq'
      rw [htid hlt]
      exact I.pos q hlt
  case entry =>
    intro j z hz hz0
    obtain ⟨q, hlt, rfl, hj⟩ := I.entry j z hz hz0
    exact ⟨q, Nat.lt_succ_of_lt hlt, by rw [htid hlt], fun hq => (hj hq).imp fun p' hp' => (hfrees p').trans hp'⟩
  case free => exact I.free
  case distinct => exact I.distinct
  case freeing =>
    intro p₁ p₂ j₁ j₂ q h₁ h₂
    exact I.freeing p₁ p₂ j₁ j₂ q ((hfrees p₁).symm.trans h₁) ((hfrees p₂).symm.trans h₂)
  case promise =>
    intro p'
    by_cases hp' : p' = p
    · subst hp'
      rw [hself]
      trivial
    · by_cases hp'' : p' = s.fresh
      · subst hp''
        rw [hnew]
        trivial
      · have hpr := I.promise p'
        have hlt (h : s.pc p' ≠ .unborn) : (s.spawn p id).tid p' = s.tid p' := htid (I.lt_of_pc h)
        rw [hpc' hp' hp'']
        cases hc : s.pc p' with
        | trampoline y =>
          rw [hc] at hpr
          cases y <;> simp only [Registry.Promise, hlt (by simp [hc])] <;> exact hpr
        | join tid y =>
          rw [hc] at hpr
          cases y <;> exact hpr
        | _ => trivial
  case ptid =>
    intro q tid hq
    have hqf : q ≠ s.fresh := by
      rintro rfl
      simp [Registry.spawn] at hq
    obtain ⟨hlt, rfl, he⟩ := I.ptid q tid (by simpa [Registry.spawn, Function.update_of_ne hqf] using hq)
    exact ⟨Nat.lt_succ_of_lt hlt, (htid hlt).symm, he⟩

theorem addSelf {next : ℕ → KthreadPc} {full : KthreadPc} (hadds : s.Adds p)
    (hfresh : (tidmapFindTid s.ids 0).isSome → s.tid p ∉ s.ids)
    (hnext : ∀ i, next i = .create .setInited ∨ next i = .trampoline (.added i))
    (hfull : full = .create .setInited ∨ full = .trampoline (.check (-1))) :
    RegistryInv (s.addSelf p next full) := by
  have hunborn : s.pc p ≠ .unborn := by rcases hadds with h | h <;> simp [h]
  have hexit : s.pc p ≠ .exited := by rcases hadds with h | h <;> simp [h]
  have hfrees : s.frees p = none := by rcases hadds with h | h <;> simp [Registry.frees, h]
  unfold Registry.addSelf
  cases hi : tidmapFindTid s.ids 0 with
  | some i => exact I.add hi (hfresh (by simp [hi])) hunborn hexit hfrees (hnext i)
  | none =>
    rcases hfull with rfl | rfl
    · exact I.goto I.ptid hunborn hexit hfrees (by simp) (by simp) trivial
    · exact I.goto I.ptid hunborn hexit hfrees (by simp) (by simp) (.inl rfl)

/-- What `kthread_join` finds is the entry of the pthread that it then joins. -/
theorem find {y : KthreadInfo} (hi : tidmapFindTid s.ids tid = some i) (hy : s.kthreads[i]? = some y)
    (hth : y.thread = some q) (hj : s.joined q = false) : s.EntryOf i tid q ∧ tid ≠ 0 := by
  obtain ⟨y', hy', rfl⟩ := Registry.exists_of_findTid hi
  obtain rfl := Option.some.inj (hy.symm.trans hy')
  have h0 : y.tid ≠ 0 := by
    intro h0
    exact absurd (hj.symm.trans (I.free i y q hy h0 hth)) Bool.false_ne_true
  obtain ⟨id, thread⟩ := y
  obtain rfl : thread = some q := hth
  exact ⟨hy, h0⟩

theorem stepCreate {y : KthreadCreatePc} (hpc : s.pc p = .create y)
    (hf : s.IdFresh (p, .run)) (hs : s.stepCreate p y = some s') : RegistryInv s' := by
  have hunborn : s.pc p ≠ .unborn := by simp [hpc]
  have hexit : s.pc p ≠ .exited := by simp [hpc]
  have hfrees : s.frees p = none := by simp [Registry.frees, hpc]
  cases y with
  | test =>
    obtain rfl := Option.some.inj hs
    refine I.goto I.ptid hunborn hexit hfrees (by simp) (by simp) ?_
    split_ifs <;> trivial
  | addSelf =>
    obtain rfl := Option.some.inj hs
    exact I.addSelf (.inl hpc) (hf (.inl hpc)) (fun _ => .inl rfl) (.inl rfl)
  | setInited =>
    obtain rfl := Option.some.inj hs
    exact I.goto I.ptid hunborn hexit hfrees (by simp) (by simp) trivial
  | spawn => cases hs
  | wait q =>
    simp only [Registry.stepCreate] at hs
    split at hs
    · obtain rfl := Option.some.inj hs
      refine I.goto (fun q' tid hq' => I.ptid q' tid ?_) hunborn hexit hfrees (by simp) (by simp) trivial
      by_cases hqq : q' = q
      · subst hqq
        simpa using hq'
      · simpa [Function.update_of_ne hqq] using hq'
    · cases hs

theorem stepTrampoline {y : TrampolinePc} (hpc : s.pc p = .trampoline y)
    (hf : s.IdFresh (p, .run)) (hs : s.stepTrampoline p y = some s') : RegistryInv s' := by
  have hunborn : s.pc p ≠ .unborn := by simp [hpc]
  have hexit : s.pc p ≠ .exited := by simp [hpc]
  have hfrees : s.frees p = none := by simp [Registry.frees, hpc]
  have hpr := I.promise p
  rw [hpc] at hpr
  -- a step that writes `args` of `p` and keeps `ptid`
  have hargs {a : TrampolineArgs} (ha : a.ptid = (s.args p).ptid) (q : Pthread) (tid : ℤ)
      (hq : (Function.update s.args p a q).ptid = some tid) :
      q < s.fresh ∧ tid = s.tid q ∧ (s.joined q = false → ∃ i, s.EntryOf i tid q) := by
    refine I.ptid q tid ?_
    by_cases hqp : q = p
    · subst hqp
      simpa [ha] using hq
    · simpa [Function.update_of_ne hqp] using hq
  cases y with
  | addSelf =>
    obtain rfl := Option.some.inj hs
    exact I.addSelf (.inr hpc) (hf (.inr hpc)) (fun _ => .inr rfl) (.inr rfl)
  | added i =>
    have he : s.kthreads[i]? = some ⟨s.tid p, some p⟩ := hpr
    simp only [Registry.stepTrampoline, he, Option.map_some, Option.some.injEq] at hs
    obtain rfl := hs
    exact I.goto I.ptid hunborn hexit hfrees (by simp) (by simp) (.inr ⟨rfl, i, he⟩)
  | check id =>
    simp only [Registry.stepTrampoline] at hs
    split_ifs at hs with hneg
    · obtain rfl := Option.some.inj hs
      exact I.goto (hargs rfl) hunborn hexit hfrees (by simp) (by simp) trivial
    · obtain rfl := Option.some.inj hs
      refine I.goto I.ptid hunborn hexit hfrees (by simp) (by simp) (hpr.resolve_left ?_)
      rintro rfl
      exact hneg (by decide)
  | store id =>
    obtain rfl := Option.some.inj hs
    obtain ⟨rfl, he⟩ : id = s.tid p ∧ ∃ i, s.EntryOf i (s.tid p) p := hpr
    refine I.goto (fun q tid hq => ?_) hunborn hexit hfrees (by simp) (by simp) trivial
    by_cases hqp : q = p
    · subst hqp
      obtain rfl : s.tid q = tid := by simpa using hq
      exact ⟨I.lt_of_pc hunborn, rfl, fun _ => he⟩
    · exact I.ptid q tid (by simpa [Function.update_of_ne hqp] using hq)
  | post error =>
    obtain rfl := Option.some.inj hs
    refine I.goto (hargs rfl) hunborn hexit hfrees ?_ ?_ ?_
    all_goals cases error <;> simp [Registry.Promise]

theorem stepJoin {y : KthreadJoinPc} (hpc : s.pc p = .join tid y) (hk : s.KernelOk (p, .run))
    (hs : s.stepJoin p tid y = some s') : RegistryInv s' := by
  have hunborn : s.pc p ≠ .unborn := by simp [hpc]
  have hexit : s.pc p ≠ .exited := by simp [hpc]
  cases y with
  | find =>
    have hfrees : s.frees p = none := by simp [Registry.frees, hpc]
    simp only [Registry.stepJoin] at hs
    split at hs
    · next i hi =>
      obtain ⟨y, hy, rfl⟩ := Option.map_eq_some_iff.mp hs
      refine I.goto I.ptid hunborn hexit hfrees (by simp) (by simp) ?_
      exact fun q hth hj => I.find hi hy hth hj
    · obtain rfl := Option.some.inj hs
      exact I.goto I.ptid hunborn hexit hfrees (by simp) (by simp) trivial
  | join i thread =>
    simp only [Registry.stepJoin] at hs
    cases thread with
    | none => cases hs
    | some q =>
      simp only at hs
      split_ifs at hs with hq
      obtain rfl := Option.some.inj hs
      exact I.join hpc rfl (hk q (by simp [Registry.joins, hpc])) hq
  | del i q =>
    obtain rfl := Option.some.inj hs
    exact I.del hpc

/-- Every step keeps the invariant, when no id that is still in the map is entered again. -/
theorem step (hk : s.KernelOk e) (hf : s.IdFresh e) (hs : s.step e = some s') : RegistryInv s' := by
  obtain ⟨p, j⟩ := e
  have hcall {r : Option ℤ} {x : KthreadPc} (hpc : s.pc p = .user r) (hx : x ≠ .unborn)
      (hx' : ∀ tid i q, x ≠ .join tid (.del i q)) (hpromise : s.Promise p x) : RegistryInv (s.goto p x) :=
    I.goto I.ptid (by simp [hpc]) (by simp [hpc]) (by simp [Registry.frees, hpc]) hx hx' hpromise
  cases j with
  | run =>
    simp only [Registry.step, Registry.stepRun] at hs
    split at hs
    · next hpc => exact I.stepCreate hpc hf hs
    · next hpc => exact I.stepTrampoline hpc hf hs
    · next hpc => exact I.stepJoin hpc hk hs
    · cases hs
    · cases hs
    · cases hs
  | made id =>
    simp only [Registry.step] at hs
    split_ifs at hs with hpc
    obtain rfl := Option.some.inj hs
    exact I.spawn hk.1 hpc
  | failed rv =>
    simp only [Registry.step] at hs
    split_ifs at hs with hpc
    obtain rfl := Option.some.inj hs
    exact I.goto I.ptid (by simp [hpc]) (by simp [hpc]) (by simp [Registry.frees, hpc]) (by simp) (by simp)
      trivial
  | create | join tid | exit =>
    simp only [Registry.step] at hs
    split at hs
    · next r hpc =>
      obtain rfl := Option.some.inj hs
      exact hcall hpc (by simp) (by simp) trivial
    · cases hs

end RegistryInv

end Uthread
