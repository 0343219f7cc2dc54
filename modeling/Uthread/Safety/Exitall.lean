import Uthread.Safety.Lookup
import Uthread.Safety.Exhaustion

/-!
# The `exitall` entries

`uthread_teardown` puts one `exitall` entry into the ready queue for each kernel thread, and then its own
thread. A kernel thread that takes an `exitall` entry posts `exitall_sem` and exits; the main kernel thread
waits for all the others instead, and goes on scheduling. This file counts the entries, the posts and the
waits of a run.

## Main definitions

* `takes`, `posts`, `waits`: how often a kernel thread has taken an `exitall` entry, posted `exitall_sem` and
  waited for it.
* `puts`: how many `exitall` entries have been put into the queue.
* `ExitInv`: how these numbers depend on the control points.
-/

namespace Uthread

variable {n : ℕ} {cfg : Config} {s s' : State n} {e : Event n} {k : Fin n} {p : Ptr}
  {h : List (State n × Event n)} {P : State n → Event n → Prop}

namespace State

/-- The event takes an `exitall` entry from the ready queue. -/
def takesExitall (s : State n) (e : Event n) : Bool := s.dequeues e = some .exitall

/-- The event posts `exitall_sem`. -/
def postsExitall (s : State n) : Event n → Bool
  | (k, .run _) => (s.kt k).ctl = .sched .exitPost
  | _ => false

/-- The event waits for `exitall_sem`. -/
def waitsExitall (s : State n) : Event n → Bool
  | (k, .run _) =>
    match (s.kt k).ctl with
    | .sched (.exitWait (_ + 1)) => true
    | _ => false
  | _ => false

end State

/-- How often kernel thread `k` has done what `f` says. -/
def countOf (f : State n → Event n → Bool) (h : List (State n × Event n)) (k : Fin n) : ℕ :=
  h.countP fun x => x.2.1 = k ∧ f x.1 x.2 = true

/-- How often a kernel thread has taken an `exitall` entry. -/
def takes : List (State n × Event n) → Fin n → ℕ := countOf State.takesExitall

/-- How often a kernel thread has posted `exitall_sem`. -/
def posts : List (State n × Event n) → Fin n → ℕ := countOf State.postsExitall

/-- How often a kernel thread has waited for `exitall_sem`. -/
def waits : List (State n × Event n) → Fin n → ℕ := countOf State.waitsExitall

/-- How many `exitall` entries have been put into the ready queue. -/
def puts (h : List (State n × Event n)) : ℕ := (enqueued h).count .exitall

theorem countOf_cons (f : State n → Event n → Bool) (k : Fin n) :
    countOf f ((s, e) :: h) k = countOf f h k + if e.1 = k ∧ f s e = true then 1 else 0 := by
  simp [countOf, List.countP_cons]

theorem countOf_of_ne (f : State n → Event n → Bool) (hk : k ≠ e.1) :
    countOf f ((s, e) :: h) k = countOf f h k := by
  simp [countOf_cons, Ne.symm hk]

/-- The sum over the kernel threads counts each event once. -/
theorem sum_countOf_cons (f : State n → Event n → Bool) :
    ∑ k, countOf f ((s, e) :: h) k = ∑ k, countOf f h k + if f s e = true then 1 else 0 := by
  simp only [countOf_cons, Finset.sum_add_distrib]
  congr 1
  by_cases hf : f s e = true <;> simp [hf]

/-! ### The stages of a kernel thread that exits -/

/-- How far a kernel thread is after it has taken an `exitall` entry. -/
inductive ExitStage
  | none
  | taken
  | waiting (j : ℕ)
  | posting
  | exited
  deriving DecidableEq

/-- The stage at a control point. -/
def Ctl.exitStage : Ctl → ExitStage
  | .sched (.deqUnlock .exitall) | .sched (.next .exitall) => .taken
  | .sched (.exitWait j) => .waiting j
  | .sched .exitPost => .posting
  | .exited => .exited
  | _ => .none

/-- What a step does to the stage of its kernel thread. -/
inductive ExitAct (s : State n) (e : Event n) (s' : State n) : Prop
  | take (hc : (s.kt e.1).ctl.exitStage = .none) (hc' : (s'.kt e.1).ctl.exitStage = .taken)
      (ht : s.takesExitall e = true) (hp : s.postsExitall e = false) (hw : s.waitsExitall e = false)
      (hx : s'.exitallSem = s.exitallSem)
  | main (h0 : e.1.val = 0) (hc : (s.kt e.1).ctl.exitStage = .taken)
      (hc' : (s'.kt e.1).ctl.exitStage = .waiting (n - 1))
      (ht : s.takesExitall e = false) (hp : s.postsExitall e = false) (hw : s.waitsExitall e = false)
      (hx : s'.exitallSem = s.exitallSem)
  | other (h0 : e.1.val ≠ 0) (hc : (s.kt e.1).ctl.exitStage = .taken)
      (hc' : (s'.kt e.1).ctl.exitStage = .posting)
      (ht : s.takesExitall e = false) (hp : s.postsExitall e = false) (hw : s.waitsExitall e = false)
      (hx : s'.exitallSem = s.exitallSem)
  | wait {j : ℕ} (hc : (s.kt e.1).ctl.exitStage = .waiting (j + 1))
      (hc' : (s'.kt e.1).ctl.exitStage = .waiting j)
      (ht : s.takesExitall e = false) (hp : s.postsExitall e = false) (hw : s.waitsExitall e = true)
      (hx : s.exitallSem = s'.exitallSem + 1)
  | waited (hc : (s.kt e.1).ctl.exitStage = .waiting 0) (hc' : (s'.kt e.1).ctl.exitStage = .none)
      (ht : s.takesExitall e = false) (hp : s.postsExitall e = false) (hw : s.waitsExitall e = false)
      (hx : s'.exitallSem = s.exitallSem)
  | post (hc : (s.kt e.1).ctl.exitStage = .posting) (hc' : (s'.kt e.1).ctl.exitStage = .exited)
      (ht : s.takesExitall e = false) (hp : s.postsExitall e = true) (hw : s.waitsExitall e = false)
      (hx : s'.exitallSem = s.exitallSem + 1)
  | frame (hc : (s'.kt e.1).ctl.exitStage = (s.kt e.1).ctl.exitStage)
      (ht : s.takesExitall e = false) (hp : s.postsExitall e = false) (hw : s.waitsExitall e = false)
      (hx : s'.exitallSem = s.exitallSem)

theorem Op.start_exitStage (o : Op) (p : Ptr) : (Ctl.thread p o.start).exitStage = .none := by
  cases o <;> rfl

/-- A step from a point outside the exit path that does not remove an entry. -/
theorem ExitAct.of_plain {c : Ctl} (hc : (s.kt e.1).ctl = c) (hst : c.exitStage = .none)
    (hdeq : c ≠ .sched .deqRemove) (hc' : (s'.kt e.1).ctl.exitStage = .none)
    (hx : s'.exitallSem = s.exitallSem) : ExitAct s e s' := by
  obtain ⟨k, i⟩ := e
  subst hc
  refine .frame (hc'.trans hst.symm) ?_ ?_ ?_ hx
  · cases i with
    | run f =>
      simp only [State.takesExitall, State.dequeues, decide_eq_false_iff_not]
      simp
    | _ => rfl
  · cases i with
    | run f =>
      simp only [State.postsExitall]
      simp only [decide_eq_false_iff_not]
      intro hp
      simp [hp, Ctl.exitStage] at hst
    | _ => rfl
  · cases i with
    | run f =>
      simp only [State.waitsExitall]
      split
      · next h => simp [h, Ctl.exitStage] at hst
      · rfl
    | _ => rfl

theorem Trans.exitAct (ht : Trans cfg s e s') : ExitAct s e s' := by
  cases ht with
  | @call k c p r hc =>
    refine .of_plain hc rfl (by simp) ?_ rfl
    cases c with
    | op o => cases o <;> simp [Call.enter, Ctl.exitStage]
    | _ => simp [Call.enter, Ctl.exitStage]
  | tick => exact .frame (by simp) rfl rfl rfl rfl
  | deliver => exact .frame (by simp) rfl rfl rfl rfl
  | acquire h | insert h | parkJoin h | parkSem h =>
    generalize hc : (s.kt _).ctl = x at h
    cases h <;> exact .of_plain hc rfl (by simp) (by simp [State.goto, Ctl.exitStage]) rfl
  | release h =>
    cases h with
    | @deq en hc =>
      cases en with
      | exitall =>
        refine .frame ?_ ?_ ?_ ?_ rfl <;>
          simp [State.goto, hc, Ctl.exitStage, State.takesExitall, State.dequeues, State.postsExitall,
            State.waitsExitall]
      | tcb q => exact .of_plain hc rfl (by simp) (by simp [State.goto, Ctl.exitStage]) rfl
    | _ hc => exact .of_plain hc rfl (by simp) (by simp [State.goto, Ctl.exitStage]) rfl
  | quiet h =>
    cases h with
    | start hc => exact .of_plain hc rfl (by simp) (by simp [Op.start_exitStage]) rfl
    | nextMain hc hk =>
      refine .main hk ?_ ?_ ?_ ?_ ?_ rfl <;>
        simp [hc, Ctl.exitStage, State.takesExitall, State.dequeues, State.postsExitall, State.waitsExitall]
    | nextOther hc hk =>
      refine .other hk ?_ ?_ ?_ ?_ ?_ rfl <;>
        simp [hc, Ctl.exitStage, State.takesExitall, State.dequeues, State.postsExitall, State.waitsExitall]
    | exitWaited hc =>
      refine .waited ?_ ?_ ?_ ?_ ?_ rfl <;>
        simp [hc, Ctl.exitStage, State.takesExitall, State.dequeues, State.postsExitall, State.waitsExitall]
    | _ hc => exact .of_plain hc rfl (by simp) (by simp [Ctl.exitStage]) rfl
  | signal h =>
    cases h with
    | @exitWait j hc h0 =>
      refine .wait (j := j) ?_ ?_ ?_ ?_ ?_ ?_
      · simp [hc, Ctl.exitStage]
      · simp [State.goto, Ctl.exitStage]
      · simp [hc, State.takesExitall, State.dequeues]
      · simp [hc, State.postsExitall]
      · simp [hc, State.waitsExitall]
      · simp only [State.goto, State.setK]
        omega
    | exitPost hc =>
      refine .post ?_ ?_ ?_ ?_ ?_ rfl <;>
        simp [State.goto, hc, Ctl.exitStage, State.takesExitall, State.dequeues, State.postsExitall,
          State.waitsExitall]
    | _ hc => exact .of_plain hc rfl (by simp) (by simp [State.goto, Ctl.exitStage]) rfl
  | @deqRemove k f en rest hc hq =>
    cases en with
    | exitall =>
      refine .take ?_ ?_ ?_ ?_ ?_ rfl <;>
        simp [State.goto, hc, hq, Ctl.exitStage, State.takesExitall, State.dequeues, State.postsExitall,
          State.waitsExitall]
    | tcb q =>
      refine .frame ?_ ?_ ?_ ?_ rfl <;>
        simp [State.goto, hc, hq, Ctl.exitStage, State.takesExitall, State.dequeues, State.postsExitall,
          State.waitsExitall]
  | entry hc hcur h =>
    generalize (s.kt _).task = x at h
    cases h <;> exact .of_plain hc rfl (by simp) (by simp [Ctl.exitStage]) rfl
  | dispSet hc hx hctx => exact .of_plain hc rfl (by simp) (by simp [Ctl.exitStage]) rfl
  | _ hc => exact .of_plain hc rfl (by simp) (by simp [State.goto, Ctl.exitStage]) rfl

/-! ### The numbers and the stages -/

namespace ExitStage

/-- How often a kernel thread other than the main one has taken an entry. -/
def numTaken : ExitStage → ℕ
  | .none => 0
  | _ => 1

/-- How often a kernel thread other than the main one has posted. -/
def numPosted : ExitStage → ℕ
  | .exited => 1
  | _ => 0

/-- How often the main kernel thread has still to wait. -/
def toWait (n : ℕ) : ExitStage → ℕ
  | .taken => n - 1
  | .waiting j => j
  | _ => 0

end ExitStage

/-- The numbers of entries taken, of posts and of waits. -/
structure ExitInv (h : List (State n × Event n)) (s : State n) : Prop where
  takes_other : ∀ k, k.val ≠ 0 → takes h k = (s.kt k).ctl.exitStage.numTaken
  posts_other : ∀ k, k.val ≠ 0 → posts h k = (s.kt k).ctl.exitStage.numPosted
  waits_other : ∀ k, k.val ≠ 0 → waits h k = 0
  not_waiting : ∀ k, k.val ≠ 0 → ∀ j, (s.kt k).ctl.exitStage ≠ .waiting j
  waits_main : ∀ k, k.val = 0 → waits h k + (s.kt k).ctl.exitStage.toWait n = takes h k * (n - 1)
  wait_le : ∀ k j, (s.kt k).ctl.exitStage = .waiting j → j ≤ n - 1
  posts_main : ∀ k, k.val = 0 → posts h k = 0
  not_posting : ∀ k, k.val = 0 → (s.kt k).ctl.exitStage ≠ .posting ∧ (s.kt k).ctl.exitStage ≠ .exited
  sem : s.exitallSem + ∑ k, waits h k = ∑ k, posts h k

theorem ExitInv.init : ExitInv [] (State.init n cfg) := by
  have hstage (k : Fin n) : ((State.init n cfg).kt k).ctl.exitStage = .none := by
    obtain ⟨-, hk⟩ | ⟨-, hk⟩ := State.init_kt_cases n cfg k <;> simp [hk, Ctl.exitStage]
  have hsem : (State.init n cfg).exitallSem = 0 := rfl
  constructor <;>
    simp [takes, posts, waits, countOf, hstage, hsem, ExitStage.numTaken, ExitStage.numPosted, ExitStage.toWait]

/-- The conditions on the kernel threads that do not act are kept. -/
theorem ExitInv.of_own (X : ExitInv h s) (hkt : ∀ k, k ≠ e.1 → s'.kt k = s.kt k)
    (hother : e.1.val ≠ 0 → takes ((s, e) :: h) e.1 = (s'.kt e.1).ctl.exitStage.numTaken ∧
      posts ((s, e) :: h) e.1 = (s'.kt e.1).ctl.exitStage.numPosted ∧ waits ((s, e) :: h) e.1 = 0 ∧
      ∀ j, (s'.kt e.1).ctl.exitStage ≠ .waiting j)
    (hmain : e.1.val = 0 →
      waits ((s, e) :: h) e.1 + (s'.kt e.1).ctl.exitStage.toWait n = takes ((s, e) :: h) e.1 * (n - 1) ∧
      posts ((s, e) :: h) e.1 = 0 ∧ (s'.kt e.1).ctl.exitStage ≠ .posting ∧
      (s'.kt e.1).ctl.exitStage ≠ .exited)
    (hle : ∀ j, (s'.kt e.1).ctl.exitStage = .waiting j → j ≤ n - 1)
    (hsem : s'.exitallSem + ∑ k, waits ((s, e) :: h) k = ∑ k, posts ((s, e) :: h) k) :
    ExitInv ((s, e) :: h) s' := by
  constructor
  · intro k hk
    by_cases hke : k = e.1
    · subst hke
      exact (hother hk).1
    · rw [takes, countOf_of_ne _ hke, hkt k hke]
      exact X.takes_other k hk
  · intro k hk
    by_cases hke : k = e.1
    · subst hke
      exact (hother hk).2.1
    · rw [posts, countOf_of_ne _ hke, hkt k hke]
      exact X.posts_other k hk
  · intro k hk
    by_cases hke : k = e.1
    · subst hke
      exact (hother hk).2.2.1
    · rw [waits, countOf_of_ne _ hke]
      exact X.waits_other k hk
  · intro k hk
    by_cases hke : k = e.1
    · subst hke
      exact (hother hk).2.2.2
    · rw [hkt k hke]
      exact X.not_waiting k hk
  · intro k hk
    by_cases hke : k = e.1
    · subst hke
      exact (hmain hk).1
    · rw [waits, takes, countOf_of_ne _ hke, countOf_of_ne _ hke, hkt k hke]
      exact X.waits_main k hk
  · intro k
    by_cases hke : k = e.1
    · subst hke
      exact hle
    · rw [hkt k hke]
      exact X.wait_le k
  · intro k hk
    by_cases hke : k = e.1
    · subst hke
      exact (hmain hk).2.1
    · rw [posts, countOf_of_ne _ hke]
      exact X.posts_main k hk
  · intro k hk
    by_cases hke : k = e.1
    · subst hke
      exact (hmain hk).2.2
    · rw [hkt k hke]
      exact X.not_posting k hk
  · exact hsem

theorem ExitInv.step (X : ExitInv h s) (hkt : ∀ k, k ≠ e.1 → s'.kt k = s.kt k) (ha : ExitAct s e s') :
    ExitInv ((s, e) :: h) s' := by
  have htakes : takes ((s, e) :: h) e.1 = takes h e.1 + if s.takesExitall e = true then 1 else 0 := by
    simp [takes, countOf_cons]
  have hposts : posts ((s, e) :: h) e.1 = posts h e.1 + if s.postsExitall e = true then 1 else 0 := by
    simp [posts, countOf_cons]
  have hwaits : waits ((s, e) :: h) e.1 = waits h e.1 + if s.waitsExitall e = true then 1 else 0 := by
    simp [waits, countOf_cons]
  have hsumw : ∑ k, waits ((s, e) :: h) k = ∑ k, waits h k + if s.waitsExitall e = true then 1 else 0 :=
    sum_countOf_cons State.waitsExitall
  have hsump : ∑ k, posts ((s, e) :: h) k = ∑ k, posts h k + if s.postsExitall e = true then 1 else 0 :=
    sum_countOf_cons State.postsExitall
  have hsem := X.sem
  have ho1 := X.takes_other e.1
  have ho2 := X.posts_other e.1
  have ho3 := X.waits_other e.1
  have ho4 := X.not_waiting e.1
  have hm1 := X.waits_main e.1
  have hm2 := X.posts_main e.1
  have hm3 := X.not_posting e.1
  have hle := X.wait_le e.1
  cases ha with
  | take hc hc' ht hp hw hx =>
    simp only [ht, hp, hw, hc, if_true] at *
    refine X.of_own hkt (fun h0 => ?_) (fun h0 => ?_) (by simp [hc'])
      (by rw [hx, hsumw, hsump]; simpa using hsem)
    · rw [htakes, hposts, hwaits, hc', ho1 h0, ho2 h0, ho3 h0]
      simp [ExitStage.numTaken, ExitStage.numPosted]
    · have hm1 := hm1 h0
      rw [htakes, hposts, hwaits, hc', hm2 h0]
      simp only [ExitStage.toWait] at hm1 ⊢
      refine ⟨?_, rfl, by simp, by simp⟩
      rw [Nat.add_mul, ← hm1]
      simp
  | main h0 hc hc' ht hp hw hx =>
    simp only [ht, hp, hw, hc] at *
    refine X.of_own hkt (fun hne => absurd h0 hne) (fun _ => ?_) (by simp [hc'])
      (by rw [hx, hsumw, hsump]; simpa using hsem)
    rw [htakes, hposts, hwaits, hc', hm2 h0]
    simpa [ExitStage.toWait] using hm1 h0
  | other h0 hc hc' ht hp hw hx =>
    simp only [ht, hp, hw, hc] at *
    refine X.of_own hkt (fun _ => ?_) (fun hz => absurd hz h0) (by simp [hc'])
      (by rw [hx, hsumw, hsump]; simpa using hsem)
    rw [htakes, hposts, hwaits, hc', ho1 h0, ho2 h0, ho3 h0]
    simp [ExitStage.numTaken, ExitStage.numPosted]
  | @wait j hc hc' ht hp hw hx =>
    simp only [ht, hp, hw, hc, if_true] at *
    refine X.of_own hkt (fun h0 => absurd rfl (ho4 h0 (j + 1))) (fun h0 => ?_) (fun i hi => ?_) ?_
    · have hm1 := hm1 h0
      rw [htakes, hposts, hwaits, hc', hm2 h0]
      simp only [ExitStage.toWait] at hm1 ⊢
      refine ⟨?_, rfl, by simp, by simp⟩
      simp only [Bool.false_eq_true, if_false, Nat.add_zero]
      omega
    · obtain rfl : j = i := by simpa [hc'] using hi
      exact Nat.le_of_succ_le (hle (j + 1) rfl)
    · rw [hsumw, hsump]
      simp only [Bool.false_eq_true, if_false, Nat.add_zero]
      omega
  | waited hc hc' ht hp hw hx =>
    simp only [ht, hp, hw, hc] at *
    refine X.of_own hkt (fun h0 => absurd rfl (ho4 h0 0)) (fun h0 => ?_) (by simp [hc'])
      (by rw [hx, hsumw, hsump]; simpa using hsem)
    rw [htakes, hposts, hwaits, hc', hm2 h0]
    simpa [ExitStage.toWait] using hm1 h0
  | post hc hc' ht hp hw hx =>
    simp only [ht, hp, hw, hc, if_true] at *
    refine X.of_own hkt (fun h0 => ?_) (fun h0 => absurd rfl (hm3 h0).1) (by simp [hc']) ?_
    · rw [htakes, hposts, hwaits, hc', ho1 h0, ho2 h0, ho3 h0]
      simp [ExitStage.numTaken, ExitStage.numPosted]
    · rw [hsumw, hsump, hx]
      simp only [Bool.false_eq_true, if_false, Nat.add_zero]
      omega
  | frame hc ht hp hw hx =>
    simp only [ht, hp, hw] at *
    refine X.of_own hkt (fun h0 => ?_) (fun h0 => ?_) (by rwa [hc]) (by rw [hx, hsumw, hsump]; simpa using hsem)
    · rw [htakes, hposts, hwaits, hc]
      exact ⟨by simpa using ho1 h0, by simpa using ho2 h0, by simpa using ho3 h0, ho4 h0⟩
    · rw [htakes, hposts, hwaits, hc]
      exact ⟨by simpa using hm1 h0, by simpa using hm2 h0, hm3 h0⟩

/-- A step that stops the run neither takes an entry nor posts nor waits. -/
theorem State.not_exitall_of_halt (hs : s.step cfg e = some s') (hh : s'.halt ≠ none) :
    s.takesExitall e = false ∧ s.postsExitall e = false ∧ s.waitsExitall e = false := by
  have hdeq := State.dequeues_of_halt hs hh
  have hhalt := State.halt_of_step hs
  refine ⟨by simp [State.takesExitall, hdeq], ?_⟩
  obtain ⟨k, i⟩ := e
  cases i with
  | run f =>
    simp only [State.step, hhalt, if_true, State.stepRun] at hs
    cases hc : (s.kt k).ctl with
    | sched pc =>
      cases pc with
      | exitPost =>
        simp only [hc, State.stepSchedule] at hs
        exact absurd (Option.some.inj hs ▸ hhalt) hh
      | exitWait j =>
        cases j with
        | zero => simp [State.postsExitall, State.waitsExitall, hc]
        | succ j =>
          simp only [hc, State.stepSchedule] at hs
          split_ifs at hs
          exact absurd (Option.some.inj hs ▸ hhalt) hh
      | _ => simp [State.postsExitall, State.waitsExitall, hc]
    | _ => simp [State.postsExitall, State.waitsExitall, hc]
  | _ => exact ⟨rfl, rfl⟩

theorem State.exitAct_of_halt (hs : s.step cfg e = some s') {y : Halt} (hy : s' = { s with halt := some y }) :
    ExitAct s e s' := by
  obtain ⟨ht, hp, hw⟩ := State.not_exitall_of_halt hs (by simp [hy])
  subst hy
  exact .frame rfl ht hp hw rfl

theorem exitInv_of_run (hr : (machine n cfg).Run P h s) : ExitInv h s := by
  refine hr.history_invariant (I := ExitInv) .init ?_
  intro h s e s' _ X _ hs
  obtain hs' | hs' | ht := State.step_cases hs
  · exact X.step (fun k _ => by rw [hs']; rfl) (State.exitAct_of_halt hs hs')
  · exact X.step (fun k _ => by rw [hs']; rfl) (State.exitAct_of_halt hs hs')
  · exact X.step (fun k hk => ht.kt_of_ne hk) ht.exitAct

/-- The entries taken are those of the kernel threads. -/
theorem sum_takes (h : List (State n × Event n)) : ∑ k, takes h k = (dequeued h).count .exitall := by
  induction h with
  | nil => simp [takes, countOf, dequeued]
  | cons x h ih =>
    obtain ⟨s, e⟩ := x
    have hsum : ∑ k, takes ((s, e) :: h) k = ∑ k, takes h k + if s.takesExitall e = true then 1 else 0 :=
      sum_countOf_cons State.takesExitall
    rw [hsum, ih]
    cases hd : s.dequeues e with
    | none => simp [dequeued, hd, State.takesExitall]
    | some en => cases en <;> simp [dequeued, hd, State.takesExitall]

/-- Every entry that has been put into the queue has been taken or is still there. -/
theorem sum_takes_add_count (hr : (machine n cfg).Run P h s) (hf : s.infoFreed = false) :
    ∑ k, takes h k + s.rqueue.count .exitall = puts h := by
  rw [sum_takes, puts, (queueInv_of_run hr).order hf, List.count_append]

/-! ### The thread in `uthread_teardown` -/

/-- How many `exitall` entries a thread in `uthread_teardown` has put into the queue. -/
def Pc.put (n : ℕ) : Pc → Option ℕ
  | .teardown (.loop j) => some j
  | .teardown (.enq j x) => some (j + x.owes)
  | .teardown _ | .swap _ .teardown => some n
  | _ => none

/-- The thread in `uthread_teardown` that a kernel thread executes, and how many entries it has put. -/
def Ctl.put (n : ℕ) : Ctl → Option (Ptr × ℕ)
  | .thread p pc => (pc.put n).map (p, ·)
  | _ => none

theorem Ctl.tearing_iff_put {c : Ctl} : c.tearing = some p ↔ ∃ m, c.put n = some (p, m) := by
  cases c with
  | thread q pc =>
    cases pc with
    | teardown x => cases x <;> simp [Ctl.tearing, Pc.tearing, Ctl.put, Pc.put]
    | swap cur r => cases r <;> simp [Ctl.tearing, Pc.tearing, Ctl.put, Pc.put]
    | _ => simp [Ctl.tearing, Pc.tearing, Ctl.put, Pc.put]
  | _ => simp [Ctl.tearing, Ctl.put]

/-- What a step does to the number of entries put. -/
inductive PutAct (s : State n) (e : Event n) (s' : State n) : Prop
  | keep (hc : (s'.kt e.1).ctl.put n = (s.kt e.1).ctl.put n) (he : s.enqueues e ≠ some .exitall)
  | enter {p : Ptr} {r : Ret} (hi : e.2 = .call .teardown) (hc : (s.kt e.1).ctl = .thread p (.user r))
      (hc' : (s'.kt e.1).ctl.put n = some (p, 0)) (he : s.enqueues e ≠ some .exitall)
  | put {p : Ptr} {m : ℕ} (hc : (s.kt e.1).ctl.put n = some (p, m))
      (hc' : (s'.kt e.1).ctl.put n = some (p, m + 1)) (he : s.enqueues e = some .exitall)
  | full {p : Ptr} {j : ℕ} (hj : n ≤ j) (hc : (s.kt e.1).ctl.put n = some (p, j))
      (hc' : (s'.kt e.1).ctl.put n = some (p, n)) (he : s.enqueues e ≠ some .exitall)
  | leave {p : Ptr} {cur : Option Ptr} (hc : (s.kt e.1).ctl = .thread p (.swap cur .teardown))
      (hc' : (s'.kt e.1).ctl = .sched .entry) (he : s.enqueues e ≠ some .exitall)
  | resume {q : Ptr} (hc : (s.kt e.1).ctl = .sched (.dispSet q)) (he : s.enqueues e ≠ some .exitall)
  | free (hf : s'.infoFreed = true)

theorem Op.start_put (o : Op) : o.start.put n = none := by cases o <;> rfl

/-- Only the loop of `uthread_teardown` puts `exitall` entries into the queue. -/
theorem State.put_of_enqueues (he : s.enqueues e = some .exitall) :
    ∃ p j, (s.kt e.1).ctl = .thread p (.teardown (.enq j .insert)) := by
  obtain ⟨k, i⟩ := e
  cases i with
  | run f =>
    simp only [State.enqueues] at he
    split_ifs at he
    split at he
    all_goals first
      | cases he; done
      | next hc => exact ⟨_, _, hc⟩
  | _ => cases he

theorem State.enqueues_ne_exitall {c : Ctl} (hc : (s.kt e.1).ctl = c)
    (hne : ∀ p j, c ≠ .thread p (.teardown (.enq j .insert))) : s.enqueues e ≠ some .exitall := by
  intro he
  obtain ⟨p, j, hctl⟩ := State.put_of_enqueues he
  exact hne p j (hc.symm.trans hctl)

theorem Trans.putAct (ht : Trans cfg s e s') (hn : ∀ f, e.2 = .run f → f ≠ some .node) : PutAct s e s' := by
  cases ht with
  | @call k c p r hc =>
    have he : s.enqueues (k, .call c) ≠ some .exitall := by simp [State.enqueues]
    cases c with
    | teardown => exact .enter rfl hc (by simp [Call.enter, Ctl.put, Pc.put]) he
    | op o => exact .keep (by cases o <;> simp [Call.enter, hc, Ctl.put, Pc.put]) he
    | _ => exact .keep (by simp [Call.enter, hc, Ctl.put, Pc.put]) he
  | tick => exact .keep (by simp) (by simp [State.enqueues])
  | deliver => exact .keep (by simp) (by simp [State.enqueues])
  | acquire h =>
    generalize hc : (s.kt _).ctl = x at h
    cases h <;>
      exact .keep (by simp [State.goto, hc, Ctl.put, Pc.put, EnqPc.owes]) (State.enqueues_ne_exitall hc (by simp))
  | release h =>
    cases h with
    | _ hc =>
      exact .keep (by simp [State.goto, hc, Ctl.put, Pc.put, EnqPc.owes]) (State.enqueues_ne_exitall hc (by simp))
  | quiet h =>
    cases h with
    | start hc =>
      refine .keep ?_ (State.enqueues_ne_exitall hc (by simp))
      simp only [State.setK_kt, Ctl.put, Op.start_put, hc]
      rfl
    | @teardownLoop p j hc hj =>
      exact .full (p := p) hj (by simp [hc, Ctl.put, Pc.put]) (by simp [Ctl.put, Pc.put])
        (State.enqueues_ne_exitall hc (by simp))
    | _ hc =>
      exact .keep (by simp [hc, Ctl.put, Pc.put, EnqPc.owes]) (State.enqueues_ne_exitall hc (by simp))
  | signal h =>
    cases h with
    | _ hc =>
      exact .keep (by simp [State.goto, hc, Ctl.put, Pc.put, EnqPc.owes])
        (State.enqueues_ne_exitall hc (by simp))
  | @insert k f en c h =>
    generalize hc : (s.kt _).ctl = x at h
    cases h with
    | teardown p j =>
      refine .put (p := p) (m := j) (by simp [hc, Ctl.put, Pc.put, EnqPc.owes])
        (by simp [State.goto, Ctl.put, Pc.put, EnqPc.owes]) ?_
      simp [State.enqueues, hc, hn f rfl]
    | _ => exact .keep (by simp [State.goto, hc, Ctl.put, Pc.put]) (State.enqueues_ne_exitall hc (by simp))
  | parkJoin h | parkSem h =>
    generalize hc : (s.kt _).ctl = x at h
    cases h <;> exact .keep (by simp [State.goto, hc, Ctl.put]) (State.enqueues_ne_exitall hc (by simp))
  | @swap k f p c x r hc hx =>
    have he := State.enqueues_ne_exitall (e := (k, .run f)) hc (by simp)
    cases r with
    | teardown => exact .leave hc (by simp) he
    | _ => exact .keep (by simp [hc, Ctl.put, Pc.put]) he
  | dispSet hc hx hctx => exact .resume hc (State.enqueues_ne_exitall hc (by simp))
  | teardownFree => exact .free rfl
  | _ hc =>
    exact .keep (by simp [State.goto, hc, Ctl.put, Pc.put]) (State.enqueues_ne_exitall hc (by simp))

/-- A thread that leaves `uthread_teardown` for its scheduler is suspended there. -/
theorem Trans.suspended_of_leave (ht : Trans cfg s e s') (I : Inv s) {cur : Option Ptr}
    (hc : (s.kt e.1).ctl = .thread p (.swap cur .teardown)) (hc' : (s'.kt e.1).ctl = .sched .entry) :
    s'.suspended p = some .teardown := by
  have hexec := State.exec_thread hc
  have hth (k : Fin n) : (s'.kt k).ctl.thread? ≠ some p := by
    by_cases hk : k = e.1
    · subst hk
      simp [hc', Ctl.thread?]
    · rw [ht.kt_of_ne hk]
      exact fun h => hk (I.place.thread_unique h (by simp [hc, Ctl.thread?]))
  have hst := I.place.alive (.exec e.1) p (PlaceInv.mem_exec hexec)
  cases ht with
  | tick | deliver => simp [hc] at hc'
  | acquire h | insert h | parkJoin h | parkSem h =>
    rw [hc] at h
    cases h
  | release h => cases h <;> simp_all
  | quiet h => cases h <;> simp_all
  | signal h => cases h <;> simp_all
  | @swap k f p₀ c x r hc₁ hx =>
    obtain ⟨rfl, rfl, rfl⟩ : p = p₀ ∧ cur = some c ∧ .teardown = r := by simpa [hc] using hc₁
    obtain rfl : c = p := I.table.cur_eq hc (by simp [Pc.curs])
    have hx' : x.state ≠ .finished := by
      intro hfin
      simp [State.stateOf, hx, hfin, State.placeState, KThread.execState, hc, Pc.state] at hst
    unfold State.suspended
    rw [if_neg (by simpa using hth)]
    simp [State.setK, State.setTcb, hx']
  | _ hc₁ => simp [hc] at hc₁

/-- A thread that the kernel thread executes is not suspended. -/
theorem State.suspended_of_thread {pc : Pc} (hc : (s.kt k).ctl = .thread p pc) : s.suspended p = none := by
  rw [State.suspended_eq_context, State.context_of_executed (k := k) (by simp [hc, Ctl.thread?])]
  rfl

/-- Only one thread is in `uthread_teardown`, and the entries are those that it has put. -/
structure PutInv (h : List (State n × Event n)) (s : State n) : Prop where
  main : ∀ p, s.TearsDown p → p = mainTcb
  enq : ∀ k p j x, (s.kt k).ctl = .thread p (.teardown (.enq j x)) → j < n
  exec : ∀ k p m, (s.kt k).ctl.put n = some (p, m) → puts h = m ∧ m ≤ n
  susp : ∀ p, s.suspended p = some .teardown → puts h = n
  zero : (∀ p, ¬ s.TearsDown p) → puts h = 0

theorem puts_cons : puts ((s, e) :: h) = puts h + if s.enqueues e = some .exitall then 1 else 0 := by
  cases he : s.enqueues e with
  | none => simp [puts, enqueued, he]
  | some en => cases en <;> simp [puts, enqueued, he]

theorem Ctl.put_thread? {c : Ctl} {m : ℕ} (h : c.put n = some (p, m)) : c.thread? = some p :=
  Ctl.thread?_of_tearing (Ctl.tearing_iff_put.2 ⟨m, h⟩)

/-- A thread stays in `uthread_teardown` until it frees the control blocks. -/
theorem Trans.tearsDown_mono (ht : Trans cfg s e s') (I : Inv s) (ha : AllocOk e) (Q : PutInv h s)
    (hput : PutAct s e s') (hf : s'.infoFreed = false) (hp : s.TearsDown p) : s'.TearsDown p := by
  rcases hp with ⟨k, hk⟩ | hsus
  · by_cases hke : k = e.1
    · subst hke
      obtain ⟨m, hm⟩ := Ctl.tearing_iff_put (n := n).1 hk
      have hgo {m' : ℕ} (hm' : (s'.kt e.1).ctl.put n = some (p, m')) : s'.TearsDown p :=
        .inl ⟨e.1, Ctl.tearing_iff_put.2 ⟨m', hm'⟩⟩
      cases hput with
      | keep hc he => exact hgo (hc.trans hm)
      | enter hi hc hc' he => simp [hc, Ctl.put, Pc.put] at hm
      | put hc hc' he =>
        obtain ⟨rfl, rfl⟩ : _ = p ∧ _ = m := by simpa [hc] using hm
        exact hgo hc'
      | full hj hc hc' he =>
        obtain ⟨rfl, rfl⟩ : _ = p ∧ _ = m := by simpa [hc] using hm
        exact hgo hc'
      | leave hc hc' he =>
        obtain ⟨rfl, -⟩ : _ = p ∧ n = m := by simpa [hc, Ctl.put, Pc.put] using hm
        exact .inr (ht.suspended_of_leave I hc hc')
      | resume hc he => simp [hc, Ctl.put] at hm
      | free hf' => simp [hf'] at hf
    · exact .inl ⟨k, by rwa [ht.kt_of_ne hke]⟩
  · have hsus' := hsus
    rw [State.suspended_eq_context] at hsus'
    cases ht.suspends I ha p with
    | same h => exact .inr (by rwa [State.suspended_eq_context, h, ← State.suspended_eq_context])
    | saves hc hc' h => simp [State.suspended_of_thread hc] at hsus
    | @resumes c hc hc' h h' =>
      have hres : c.resume = .teardown := by simpa [h] using hsus'
      exact .inl ⟨e.1, by simp [hc', hres, Resume.pc, Ctl.tearing, Pc.tearing]⟩
    | creates hc hq h =>
      exact absurd (I.place.bound p (Nat.le_of_eq hq.symm)) (State.heap_ne_none_of_suspended hsus)
    | @frees q hc h =>
      -- the thread that frees the control blocks is the one in `uthread_teardown`
      obtain rfl : q = mainTcb := Q.main q (.inl ⟨e.1, by simp [hc, Ctl.tearing, Pc.tearing]⟩)
      obtain rfl : p = mainTcb := Q.main p (.inr hsus)
      simp [State.suspended_of_thread hc] at hsus

/-- The loop of `uthread_teardown` puts at most one entry for each kernel thread. -/
theorem Trans.teardown_enq (ht : Trans cfg s e s')
    (hs : ∀ p j x, (s.kt e.1).ctl = .thread p (.teardown (.enq j x)) → j < n) {j : ℕ} {x : EnqPc}
    (hc' : (s'.kt e.1).ctl = .thread p (.teardown (.enq j x))) : j < n := by
  cases ht with
  | @call k c p r hc =>
    cases c with
    | op o => cases o <;> simp [Call.enter] at hc'
    | _ => simp [Call.enter] at hc'
  | tick | deliver => exact hs p j x (by simpa using hc')
  | acquire h | insert h =>
    generalize hc : (s.kt _).ctl = c at h hs
    cases h <;> simp [State.goto] at hc'
    exact hc'.2.1 ▸ hs _ _ _ rfl
  | parkJoin h | parkSem h =>
    generalize hc : (s.kt _).ctl = c at h
    cases h <;> simp [State.goto] at hc'
  | release h =>
    cases h with
    | teardownEnq hc =>
      simp only [State.goto, State.setK_kt, Ctl.thread.injEq, Pc.teardown.injEq, TeardownPc.enq.injEq] at hc'
      exact hc'.2.1 ▸ hs _ _ _ hc
    | _ hc => simp [State.goto] at hc'
  | quiet h =>
    cases h with
    | @start q o hc => cases o <;> simp [Op.start] at hc'
    | teardownEnq hc hj =>
      simp only [State.setK_kt, Ctl.thread.injEq, Pc.teardown.injEq, TeardownPc.enq.injEq] at hc'
      exact hc'.2.1 ▸ hj
    | _ hc => simp at hc'
  | signal h => cases h <;> simp [State.goto] at hc'
  | @dispSet k f q y c hc hx hctx =>
    cases hr : c.resume with
    | yielded o =>
      cases o with
      | none => simp [hr, Resume.pc] at hc'
      | some o => cases o <;> simp [hr, Resume.pc, Op.start] at hc'
    | _ => simp [hr, Resume.pc] at hc'
  | _ hc => simp [State.goto] at hc'

theorem PutInv.step (Q : PutInv h s) (I : Inv s) (o : Admits s e) (ht : Trans cfg s e s')
    (hf : s'.infoFreed = false) : PutInv ((s, e) :: h) s' := by
  have hput : PutAct s e s' := by
    refine ht.putAct fun f hi => ?_
    obtain ⟨k, i⟩ := e
    obtain rfl : i = .run f := hi
    have hnone : f = none := o.alloc
    simp [hnone]
  -- the acting thread is the only one that puts entries
  have hkeep (he : s.enqueues e ≠ some .exitall) : puts ((s, e) :: h) = puts h := by simp [puts_cons, he]
  have hown (he : s.enqueues e = some .exitall) : (s.kt e.1).ctl.thread? = some mainTcb := by
    obtain ⟨p, j, hc⟩ := State.put_of_enqueues he
    obtain rfl := Q.main p (.inl ⟨e.1, by simp [hc, Ctl.tearing, Pc.tearing]⟩)
    simp [hc, Ctl.thread?]
  have hmain {c : Ctl} {k : Fin n} {p : Ptr} {m : ℕ} (hc : (s.kt k).ctl = c) (hm : c.put n = some (p, m)) :
      p = mainTcb := Q.main p (.inl ⟨k, Ctl.tearing_iff_put.2 ⟨m, hc ▸ hm⟩⟩)
  refine ⟨fun p hp => ?_, fun k p j x hc => ?_, fun k p m hk => ?_, fun p hp => ?_, fun hnone => ?_⟩
  · rcases ht.tearsDown I o.alloc hp with hp | ⟨r, hi, hc⟩
    · exact Q.main p hp
    · obtain ⟨k, i⟩ := e
      obtain rfl : i = .call .teardown := hi
      exact o.call p (by simp [hc, Ctl.thread?])
  · by_cases hke : k = e.1
    · subst hke
      exact ht.teardown_enq (Q.enq e.1) hc
    · exact Q.enq k p j x (ht.kt_of_ne hke ▸ hc)
  · by_cases hke : k = e.1
    · subst hke
      cases hput with
      | keep hc he => exact hkeep he ▸ Q.exec e.1 p m (hc ▸ hk)
      | @enter p₀ r hi hc hc' he =>
        obtain ⟨rfl, rfl⟩ : p₀ = p ∧ 0 = m := by simpa [hc'] using hk
        refine ⟨?_, Nat.zero_le n⟩
        rw [hkeep he]
        refine Q.zero fun q hq => ?_
        have hp₀ : p₀ = mainTcb := by
          obtain ⟨k, i⟩ := e
          obtain rfl : i = .call .teardown := hi
          exact o.call p₀ (by simp [hc, Ctl.thread?])
        obtain rfl : q = p₀ := (Q.main q hq).trans hp₀.symm
        rcases hq with ⟨k, hk'⟩ | hsus
        · obtain rfl := I.place.thread_unique (Ctl.thread?_of_tearing hk') (k := e.1) (by simp [hc, Ctl.thread?])
          simp [hc, Ctl.tearing, Pc.tearing] at hk'
        · simp [State.suspended_of_thread hc] at hsus
      | @put p₀ m₀ hc hc' he =>
        obtain ⟨rfl, rfl⟩ : p₀ = p ∧ m₀ + 1 = m := by simpa [hc'] using hk
        obtain ⟨q, j, hctl⟩ := State.put_of_enqueues he
        have hj := Q.enq e.1 q j .insert hctl
        obtain ⟨-, rfl⟩ : q = p₀ ∧ j = m₀ := by simpa [hctl, Ctl.put, Pc.put, EnqPc.owes] using hc
        have hputs := (Q.exec e.1 p₀ j hc).1
        simp only [puts_cons, he, if_true]
        omega
      | @full p₀ j hj hc hc' he =>
        obtain ⟨rfl, rfl⟩ : p₀ = p ∧ n = m := by simpa [hc'] using hk
        have hputs := Q.exec e.1 p₀ j hc
        rw [hkeep he]
        omega
      | leave hc hc' he => simp [hc', Ctl.put] at hk
      | @resume q hc he =>
        obtain ⟨rfl, c, hctx, hctl⟩ := ht.resumes I hc (Ctl.put_thread? hk)
        have hres : c.resume = .teardown := by
          refine Resume.teardown_of_tearing ?_
          have htear := Ctl.tearing_iff_put (n := n).2 ⟨m, hk⟩
          by_contra hno
          simp [hctl, Ctl.tearing, hno] at htear
        obtain rfl : n = m := by simpa [hctl, hres, Resume.pc, Ctl.put, Pc.put] using hk
        have hsus : s.suspended p = some .teardown := by
          simp [State.suspended_eq_context, hctx, hres]
        exact ⟨(hkeep he).trans (Q.susp p hsus), le_rfl⟩
      | free hf' => simp [hf'] at hf
    · rw [ht.kt_of_ne hke] at hk
      rw [hkeep fun he => ?_]
      · exact Q.exec k p m hk
      · obtain rfl := hmain rfl hk
        exact hke (I.place.thread_unique (Ctl.put_thread? hk) (hown he))
  · have hctx := hp
    rw [State.suspended_eq_context] at hctx
    cases ht.suspends I o.alloc p with
    | same hsame =>
      have hsus : s.suspended p = some .teardown := by
        rw [State.suspended_eq_context, ← hsame]
        exact hctx
      rw [hkeep fun he => ?_]
      · exact Q.susp p hsus
      · obtain rfl := Q.main p (.inr hsus)
        rw [State.suspended_eq_context, State.context_of_executed (hown he)] at hsus
        cases hsus
    | @saves r hc hc' hsave =>
      obtain rfl : r = .teardown := by simpa [hsave] using hctx
      rw [hkeep (State.enqueues_ne_exitall hc (by simp))]
      exact (Q.exec e.1 p n (by simp [hc, Ctl.put, Pc.put])).1
    | resumes hc hc' h h' => simp [h'] at hctx
    | creates hc hq h => simp [h] at hctx
    | frees hc h => exact absurd (h p) (State.heap_ne_none_of_suspended hp)
  · rw [hkeep fun he => ?_]
    · exact Q.zero fun p hp => hnone p (ht.tearsDown_mono I o.alloc Q hput hf hp)
    · obtain ⟨p, j, hc⟩ := State.put_of_enqueues he
      have hp : s.TearsDown p := .inl ⟨e.1, by simp [hc, Ctl.tearing, Pc.tearing]⟩
      exact hnone p (ht.tearsDown_mono I o.alloc Q hput hf hp)

theorem putInv_of_run (hn : 0 < n) (hr : (machine n cfg).Run Admits h s) (hf : s.infoFreed = false) :
    PutInv h s := by
  revert hf
  refine hr.history_invariant (I := fun h s => s.infoFreed = false → PutInv h s) (fun _ => ?_) ?_
  · refine ⟨fun p hp => absurd hp (State.init_not_tearsDown hn p), fun k p j x hc => ?_, fun k p m hk => ?_,
      fun p hp => absurd (Or.inr hp : (State.init n cfg).TearsDown p) (State.init_not_tearsDown hn p), fun _ => rfl⟩
    · obtain ⟨-, h⟩ | ⟨-, h⟩ := State.init_kt_cases n cfg k <;> simp [machine, h] at hc
    · obtain ⟨-, h⟩ | ⟨-, h⟩ := State.init_kt_cases n cfg k <;> simp [machine, h, Ctl.put, Pc.put] at hk
  · intro h s e s' hrun Q o hs hf
    have hstop {y : Halt} (hy : s' = { s with halt := some y }) : PutInv ((s, e) :: h) s' := by
      have he := State.enqueues_of_halt hs (by simp [hy])
      have hputs : puts ((s, e) :: h) = puts h := by simp [puts_cons, he]
      subst hy
      obtain ⟨h1, h2, h3, h4, h5⟩ := Q hf
      exact ⟨h1, h2, hputs ▸ h3, hputs ▸ h4, hputs ▸ h5⟩
    obtain hs' | hs' | ht := State.step_cases hs
    · exact hstop hs'
    · exact hstop hs'
    · exact (Q (ht.infoFreed_mono hf)).step (inv_of_admits hn hrun.reachable) o ht hf

end Uthread
