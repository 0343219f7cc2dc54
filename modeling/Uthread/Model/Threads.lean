import Uthread.Model.State

/-!
# Creating, yielding, exiting and joining

The steps of `trampoline`, `uthread_yield`, `uthread_exit`, `uthread_join` and `uthread_create`
that kernel thread `k` takes on behalf of the user thread `p`.
-/

namespace Uthread

namespace State

variable {n : ℕ} (cfg : Config) (s : State n) (k : Fin n) (p : Ptr)

/-- `swapcontext(&cur->ctx, get_sched_ctx())`: save the context of `p`, continuing at `r`, and
start `schedule` from its top. The scheduler context was made with the signal blocked. -/
def stepSwap (cur : Option Ptr) (r : Resume) : Option (State n) :=
  s.withTcb cur fun c x =>
    some ((s.setTcb c { x with ctx := some ⟨p, r, (s.kt k).blocked⟩ }).setK k
      { s.kt k with ctl := .sched .entry, blocked := cfg.preemptive })

/-- `check_preempted`, called at the start of `o`. -/
def checkPreempted (o : Op) : Option (State n) :=
  if cfg.preemptive && (s.kt k).preempted then
    some (s.setK k { s.kt k with preempted := false, ctl := .thread p (.yield (some o) .task) })
  else some (s.goto k (.thread p o.start))

/-- `trampoline`. -/
def stepTrampoline : TrampPc → Option (State n)
  | .lock => s.acquire k .tcbs (.thread p (.tramp .check))
  | .check =>
    s.withTcb (s.currentTcb k) fun _ x =>
      if x.state = .running then some (s.goto k (.thread p (.tramp .unlock))) else some s.abort
  | .unlock => s.release k .tcbs (.thread p (.user .unit))

/-- `uthread_yield`, called by user code or by `check_preempted` at the start of `o`. -/
def stepYield (o : Option Op) : YieldPc → Option (State n)
  | .task =>
    if s.inited then
      some (s.setK k { (s.kt k).block cfg with
        task := .yield, ctl := .thread p (.yield o .lock) })
    else some s.abort
  | .lock => s.acquire k .tcbs (.thread p (.yield o .body))
  | .body =>
    s.withTcb (s.currentTcb k) fun c x =>
      if x.state = .running then
        some ((s.setTcb c { x with state := .ready }).goto k
          (.thread p (.swap (some c) (.yielded o))))
      else some s.abort

/-- `uthread_exit`. -/
def stepExit (v : Val) : ExitPc → Option (State n)
  | .lock => s.acquire k .tcbs (.thread p (.exit v .body))
  | .body =>
    s.withTcb (s.currentTcb k) fun c x =>
      if x.state = .running then
        some ((s.setTcb c { x with retval := v, state := .finished }).setK k
          { s.kt k with task := .exit, ctl := .thread p (.exit v .switch) })
      else some s.abort
  | .switch =>
    some (s.setK k { s.kt k with ctl := .sched .entry, blocked := cfg.preemptive })

/-- `destroy_thread`: free the control block in `tcbs[t]`, with its stack and its join queue, and
clear the table entry. -/
def destroyThread (t : Tid) (c : Ctl) : Option (State n) :=
  s.withTcb (s.tcbs t) fun q _ =>
    some ({ s with
      heap := Function.update s.heap q none
      tcbs := Function.update s.tcbs t none }.goto k c)

/-- `uthread_join`. The assertion is on the join queue of the caller. -/
def stepJoin (t : Tid) (pret : Bool) : JoinPc → Option (State n)
  | .read => some (s.goto k (.thread p (.join t pret (.lock (s.currentTcb k) (s.tcbs t)))))
  | .lock cur tgt => s.acquire k .tcbs (.thread p (.join t pret (.test cur tgt)))
  | .test cur tgt =>
    s.withTcb tgt fun q target =>
      if target.state = .finished then some (s.goto k (.thread p (.join t pret .finish)))
      else
        s.withTcb cur fun c current =>
          if current.joinQueue = [] then
            some ((s.setTcb c { current with state := .waitingJoin }).setK k
              { s.kt k with
                task := .join
                queue := some (.join q)
                ctl := .thread p (.swap cur (.joined t pret)) })
          else some s.abort
  | .resumed =>
    some (s.setK k { (s.kt k).block cfg with ctl := .thread p (.join t pret .relock) })
  | .relock => s.acquire k .tcbs (.thread p (.join t pret .finish))
  | .finish =>
    s.withTcb (s.tcbs t) fun _ x =>
      if x.state = .finished then
        some (s.goto k
          (.thread p (.join t pret (.unlock (if pret then some x.retval else none)))))
      else some s.abort
  | .unlock rv => s.release k .tcbs (.thread p (.join t pret (.bvLock rv)))
  | .bvLock rv => s.acquire k .bitvec (.thread p (.join t pret (.bvClear rv)))
  | .bvClear rv =>
    -- `reclaim_tid`
    some ({ s with bitvec := bitvecClear s.bitvec (t - tidMain) }.goto k
      (.thread p (.join t pret (.bvUnlock rv))))
  | .bvUnlock rv => s.release k .bitvec (.thread p (.join t pret (.destroy rv)))
  | .destroy rv => s.destroyThread k t (.thread p (.join t pret (.ret rv)))
  | .ret rv =>
    some (s.setK k { (s.kt k).unblock cfg with ctl := .thread p (.user (.joined t rv 0)) })

/-- The section of `get_next_tid` under `bitvec_lock`: the value it returns, and the vector. When
every identifier is in use the value is `1`. -/
def getNextTid (bv : Bitvec) : ℤ × Bitvec :=
  let tid := bitvecFirstClearedIndex bv
  if tid < 0 then (1, bv) else (tid + tidMain, bitvecSet bv tid.toNat)

/-- The control block that `uthread_create` installs. -/
def newTcb (tid : Tid) (q : Ptr) (stackBase blocked : Bool) : Tcb where
  tid := tid
  stackAllocated := !stackBase
  state := .ready
  ctx := some ⟨q, .start, blocked⟩

/-- `uthread_create`. The result of `get_next_tid` is stored in the unsigned `new_tid`, so the
test for a negative value has no effect. Both failing allocations leave with `tcbs_lock` held. -/
def stepCreate (fail : Option AllocSite) (sb : Bool) : CreatePc → Option (State n)
  | .bvLock => s.acquire k .bitvec (.thread p (.create sb .next))
  | .next =>
    let r := getNextTid s.bitvec
    some ({ s with bitvec := r.2 }.goto k (.thread p (.create sb (.bvUnlock r.1.toNat))))
  | .bvUnlock tid => s.release k .bitvec (.thread p (.create sb (.lock tid)))
  | .lock tid => s.acquire k .tcbs (.thread p (.create sb (.body tid)))
  | .body tid =>
    if fail = some .tcb then
      some ({ s with tcbs := Function.update s.tcbs tid none }.goto k
        (.thread p (.create sb (.ret tid 1))))
    else if fail = some .stack ∧ sb = false then
      some ({ s with
        tcbs := Function.update s.tcbs tid (some s.fresh)
        fresh := s.fresh + 1 }.goto k (.thread p (.create sb (.ret tid 1))))
    else
      some ({ s with
        heap := Function.update s.heap s.fresh
          (some (newTcb tid s.fresh sb (s.kt k).blocked))
        tcbs := Function.update s.tcbs tid (some s.fresh)
        fresh := s.fresh + 1 }.goto k (.thread p (.create sb (.enq tid s.fresh .lock))))
  | .enq tid q x =>
    s.readyEnqueue k fail (.tcb q) (fun x => .thread p (.create sb (.enq tid q x)))
      (.thread p (.create sb (.unlock tid))) x
  | .unlock tid => s.release k .tcbs (.thread p (.create sb (.ret tid 0)))
  | .ret tid r =>
    some (s.setK k { (s.kt k).unblock cfg with ctl := .thread p (.user (.created tid r)) })

end State

end Uthread
