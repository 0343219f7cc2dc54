import Uthread.Model.State

/-!
# User semaphores

The steps of `uthread_sem_init`, `uthread_sem_post`, `uthread_sem_wait` and `uthread_sem_destroy`
that kernel thread `k` takes on behalf of the user thread `p`.
-/

namespace Uthread

namespace State

variable {n : ℕ} (cfg : Config) (s : State n) (k : Fin n) (p : Ptr)

/-- `uthread_sem_init`. -/
def stepSemInit (i : SemId) (value : ℤ) : Option (State n) :=
  some ({ s.setSem i (some ⟨value, []⟩) with
    owner := Function.update s.owner (.sem i) none }.goto k (.thread p .semRet))

/-- `uthread_sem_destroy`. -/
def stepSemDestroy (i : SemId) : Option (State n) :=
  some ((s.setSem i none).setK k { (s.kt k).block cfg with ctl := .thread p .semRet })

/-- The return from `uthread_sem_init` and `uthread_sem_destroy`. -/
def stepSemRet : Option (State n) :=
  some (s.setK k { (s.kt k).unblock cfg with ctl := .thread p (.user (.code 0)) })

/-- `uthread_sem_post`. -/
def stepPost (fail : Option AllocSite) (i : SemId) : PostPc → Option (State n)
  | .lock => s.acquire k (.sem i) (.thread p (.post i .body))
  | .body =>
    s.withSem i fun x =>
      match x.queue with
      | [] =>
        some ((s.setSem i (some { x with counter := intIncr x.counter })).goto k
          (.thread p (.post i .unlock)))
      | q :: rest =>
        some ((s.setSem i (some ⟨intIncr x.counter, rest⟩)).goto k
          (.thread p (.post i (.tcbLock q))))
  | .tcbLock q => s.acquire k .tcbs (.thread p (.post i (.setReady q)))
  | .setReady q =>
    s.withTcb (some q) fun q x =>
      if x.state = .waitingSem then
        some ((s.setTcb q { x with state := .ready }).goto k (.thread p (.post i (.tcbUnlock q))))
      else some s.abort
  | .tcbUnlock q => s.release k .tcbs (.thread p (.post i (.enq q .lock)))
  | .enq q x =>
    s.readyEnqueue k fail (.tcb q) (fun x => .thread p (.post i (.enq q x)))
      (.thread p (.post i .unlock)) x
  | .unlock => s.release k (.sem i) (.thread p (.post i .ret))
  | .ret => some (s.setK k { (s.kt k).unblock cfg with ctl := .thread p (.user (.code 0)) })

/-- `uthread_sem_wait`. The loop is `test`, `tcbLock`, `park`, the context switch, `resumed`,
`relock` and again `test`. -/
def stepWait (i : SemId) : WaitPc → Option (State n)
  | .lock => s.acquire k (.sem i) (.thread p (.wait i .read))
  | .read =>
    s.withSem i fun x =>
      if 0 ≤ x.counter then some (s.goto k (.thread p (.wait i (.test (s.currentTcb k)))))
      else some s.abort
  | .test cur =>
    s.withSem i fun x =>
      if x.counter = 0 then
        some (s.setK k { s.kt k with
          task := .semWait
          lock := some i
          queue := some (.sem i)
          ctl := .thread p (.wait i (.tcbLock cur)) })
      else some (s.goto k (.thread p (.wait i .dec)))
  | .tcbLock cur => s.acquire k .tcbs (.thread p (.wait i (.park cur)))
  | .park cur =>
    s.withTcb cur fun c x =>
      some ((s.setTcb c { x with state := .waitingSem }).goto k
        (.thread p (.swap cur (.semWoken i cur))))
  | .resumed cur =>
    some (s.setK k { (s.kt k).block cfg with ctl := .thread p (.wait i (.relock cur)) })
  | .relock cur => s.acquire k (.sem i) (.thread p (.wait i (.test cur)))
  | .dec =>
    s.withSem i fun x =>
      if 0 < x.counter then
        some ((s.setSem i (some { x with counter := x.counter - 1 })).goto k
          (.thread p (.wait i .unlock)))
      else some s.abort
  | .unlock => s.release k (.sem i) (.thread p (.wait i .ret))
  | .ret => some (s.setK k { (s.kt k).unblock cfg with ctl := .thread p (.user (.code 0)) })

end State

end Uthread
