import Uthread.Model.Machine

/-!
# What a step of the library can do

`Trans cfg s e s'` lists the steps that an event `e` can cause in state `s`: one constructor for
each point of a function that writes shared data or changes the role of a thread, and families for
the other points.

* `Acquires c L c'`: at `c` the mutex `L` is locked, and control moves to `c'`;
* `Releases x L c'`: the mutex `L` is unlocked;
* `Quiet cfg s k x'`: only the record of the kernel thread itself changes, to `x'`;
* `Signals s k s' c'`: a kernel semaphore is posted or waited for.

Every step of the machine that does not stop the run is one of these (`State.step_cases`). The
invariants of the library are proved by cases on `Trans`, so that no proof unfolds the steps.
-/

namespace Uthread

variable {n : ℕ}

/-- The points at which a mutex is locked. -/
inductive Acquires : Ctl → Lock → Ctl → Prop
  | yield (p o) : Acquires (.thread p (.yield o .lock)) .tcbs (.thread p (.yield o .body))
  | tramp (p) : Acquires (.thread p (.tramp .lock)) .tcbs (.thread p (.tramp .check))
  | exit (p v) : Acquires (.thread p (.exit v .lock)) .tcbs (.thread p (.exit v .body))
  | join (p t pret cur tgt) : Acquires (.thread p (.join t pret (.lock cur tgt))) .tcbs
      (.thread p (.join t pret (.test cur tgt)))
  | joinAgain (p t pret) : Acquires (.thread p (.join t pret .relock)) .tcbs
      (.thread p (.join t pret .finish))
  | joinBitvec (p t pret rv) : Acquires (.thread p (.join t pret (.bvLock rv))) .bitvec
      (.thread p (.join t pret (.bvClear rv)))
  | createBitvec (p sb) : Acquires (.thread p (.create sb .bvLock)) .bitvec
      (.thread p (.create sb .next))
  | create (p sb t) : Acquires (.thread p (.create sb (.lock t))) .tcbs
      (.thread p (.create sb (.body t)))
  | createEnq (p sb t q) : Acquires (.thread p (.create sb (.enq t q .lock))) .rqueue
      (.thread p (.create sb (.enq t q .insert)))
  | post (p i) : Acquires (.thread p (.post i .lock)) (.sem i) (.thread p (.post i .body))
  | postTcbs (p i q) : Acquires (.thread p (.post i (.tcbLock q))) .tcbs
      (.thread p (.post i (.setReady q)))
  | postEnq (p i q) : Acquires (.thread p (.post i (.enq q .lock))) .rqueue
      (.thread p (.post i (.enq q .insert)))
  | wait (p i) : Acquires (.thread p (.wait i .lock)) (.sem i) (.thread p (.wait i .read))
  | waitTcbs (p i cur) : Acquires (.thread p (.wait i (.tcbLock cur))) .tcbs
      (.thread p (.wait i (.park cur)))
  | waitAgain (p i cur) : Acquires (.thread p (.wait i (.relock cur))) (.sem i)
      (.thread p (.wait i (.test cur)))
  | teardown (p) : Acquires (.thread p (.teardown .lock)) .tcbs (.thread p (.teardown .read))
  | teardownEnq (p j) : Acquires (.thread p (.teardown (.enq j .lock))) .rqueue
      (.thread p (.teardown (.enq j .insert)))
  | schedEnq (q) : Acquires (.sched (.enq q .lock)) .rqueue (.sched (.enq q .insert))
  | deq : Acquires (.sched .deqLock) .rqueue (.sched .deqRemove)
  | disp (q) : Acquires (.sched (.dispLock q)) .tcbs (.sched (.dispBody q))

/-- The points at which a mutex is unlocked. -/
inductive Releases : KThread → Lock → Ctl → Prop
  | tramp {x p} (hc : x.ctl = .thread p (.tramp .unlock)) :
      Releases x .tcbs (.thread p (.user .unit))
  | join {x p t pret rv} (hc : x.ctl = .thread p (.join t pret (.unlock rv))) :
      Releases x .tcbs (.thread p (.join t pret (.bvLock rv)))
  | joinBitvec {x p t pret rv} (hc : x.ctl = .thread p (.join t pret (.bvUnlock rv))) :
      Releases x .bitvec (.thread p (.join t pret (.destroy rv)))
  | createBitvec {x p sb t} (hc : x.ctl = .thread p (.create sb (.bvUnlock t))) :
      Releases x .bitvec (.thread p (.create sb (.lock t)))
  | createEnq {x p sb t q} (hc : x.ctl = .thread p (.create sb (.enq t q .unlock))) :
      Releases x .rqueue (.thread p (.create sb (.enq t q .post)))
  | create {x p sb t} (hc : x.ctl = .thread p (.create sb (.unlock t))) :
      Releases x .tcbs (.thread p (.create sb (.ret t 0)))
  | postTcbs {x p i q} (hc : x.ctl = .thread p (.post i (.tcbUnlock q))) :
      Releases x .tcbs (.thread p (.post i (.enq q .lock)))
  | postEnq {x p i q} (hc : x.ctl = .thread p (.post i (.enq q .unlock))) :
      Releases x .rqueue (.thread p (.post i (.enq q .post)))
  | post {x p i} (hc : x.ctl = .thread p (.post i .unlock)) :
      Releases x (.sem i) (.thread p (.post i .ret))
  | wait {x p i} (hc : x.ctl = .thread p (.wait i .unlock)) :
      Releases x (.sem i) (.thread p (.wait i .ret))
  | teardownEnq {x p j} (hc : x.ctl = .thread p (.teardown (.enq j .unlock))) :
      Releases x .rqueue (.thread p (.teardown (.enq j .post)))
  | schedEnq {x q} (hc : x.ctl = .sched (.enq q .unlock)) :
      Releases x .rqueue (.sched (.enq q .post))
  | schedSem {x i} (hc : x.ctl = .sched .semUnlock) (hi : x.lock = some i) :
      Releases x (.sem i) (.sched .unlockTcbs)
  | schedTcbs {x} (hc : x.ctl = .sched .unlockTcbs) : Releases x .tcbs (.sched .reset)
  | deq {x e} (hc : x.ctl = .sched (.deqUnlock e)) : Releases x .rqueue (.sched (.next e))
  | dispTcbs {x q} (hc : x.ctl = .sched (.dispUnlock q)) :
      Releases x .tcbs (.sched (.dispReady q))

/-- The steps that change only the record of the kernel thread, and leave the roles of all
threads as they are. -/
inductive Quiet (cfg : Config) (s : State n) (k : Fin n) : KThread → Prop
  | preempted {p o} (hc : (s.kt k).ctl = .thread p (.preempt o)) :
      Quiet cfg s k { s.kt k with
        preempted := false, ctl := .thread p (.yield (some o) .task) }
  | start {p o} (hc : (s.kt k).ctl = .thread p (.preempt o)) :
      Quiet cfg s k { s.kt k with ctl := .thread p o.start }
  | tramp {p} (hc : (s.kt k).ctl = .thread p (.tramp .check)) :
      Quiet cfg s k { s.kt k with ctl := .thread p (.tramp .unlock) }
  | yieldTask {p o} (hc : (s.kt k).ctl = .thread p (.yield o .task)) :
      Quiet cfg s k { (s.kt k).block cfg with
        task := .yield, ctl := .thread p (.yield o .lock) }
  | joinResumed {p t pret} (hc : (s.kt k).ctl = .thread p (.join t pret .resumed)) :
      Quiet cfg s k { (s.kt k).block cfg with ctl := .thread p (.join t pret .relock) }
  | joinRet {p t pret rv} (hc : (s.kt k).ctl = .thread p (.join t pret (.ret rv))) :
      Quiet cfg s k { (s.kt k).unblock cfg with ctl := .thread p (.user (.joined t rv 0)) }
  | createRet {p sb t r} (hc : (s.kt k).ctl = .thread p (.create sb (.ret t r))) :
      Quiet cfg s k { (s.kt k).unblock cfg with ctl := .thread p (.user (.created t r)) }
  | semRet {p} (hc : (s.kt k).ctl = .thread p .semRet) :
      Quiet cfg s k { (s.kt k).unblock cfg with ctl := .thread p (.user (.code 0)) }
  | postRet {p i} (hc : (s.kt k).ctl = .thread p (.post i .ret)) :
      Quiet cfg s k { (s.kt k).unblock cfg with ctl := .thread p (.user (.code 0)) }
  | waitBlock {p i cur x} (hc : (s.kt k).ctl = .thread p (.wait i (.test cur)))
      (hx : s.sems i = some x) (h0 : x.counter = 0) :
      Quiet cfg s k { s.kt k with
        task := .semWait
        lock := some i
        queue := some (.sem i)
        ctl := .thread p (.wait i (.tcbLock cur)) }
  | waitPass {p i cur x} (hc : (s.kt k).ctl = .thread p (.wait i (.test cur)))
      (hx : s.sems i = some x) (h0 : x.counter ≠ 0) :
      Quiet cfg s k { s.kt k with ctl := .thread p (.wait i .dec) }
  | waitResumed {p i cur} (hc : (s.kt k).ctl = .thread p (.wait i (.resumed cur))) :
      Quiet cfg s k { (s.kt k).block cfg with ctl := .thread p (.wait i (.relock cur)) }
  | waitRet {p i} (hc : (s.kt k).ctl = .thread p (.wait i .ret)) :
      Quiet cfg s k { (s.kt k).unblock cfg with ctl := .thread p (.user (.code 0)) }
  | teardownEnq {p j} (hc : (s.kt k).ctl = .thread p (.teardown (.loop j))) (hj : j < n) :
      Quiet cfg s k { s.kt k with ctl := .thread p (.teardown (.enq j .lock)) }
  | teardownLoop {p j} (hc : (s.kt k).ctl = .thread p (.teardown (.loop j))) (hj : n ≤ j) :
      Quiet cfg s k { s.kt k with ctl := .thread p (.teardown .task) }
  | teardownTask {p} (hc : (s.kt k).ctl = .thread p (.teardown .task)) :
      Quiet cfg s k { s.kt k with task := .teardown, ctl := .thread p (.teardown .lock) }
  | teardownResumed {p} (hc : (s.kt k).ctl = .thread p (.teardown .resumed))
      (hk : k.val = 0) :
      Quiet cfg s k { s.kt k with ctl := .thread p (.teardown (.join 1)) }
  | teardownJoin {p j} (hc : (s.kt k).ctl = .thread p (.teardown (.join j))) (hj : j < n)
      (hx : (s.kt ⟨j, hj⟩).ctl = .exited) :
      Quiet cfg s k { s.kt k with ctl := .thread p (.teardown (.join (j + 1))) }
  | teardownJoined {p j} (hc : (s.kt k).ctl = .thread p (.teardown (.join j))) (hj : n ≤ j) :
      Quiet cfg s k { s.kt k with ctl := .thread p (.teardown .free) }
  | initEnd {p j} (hc : (s.kt k).ctl = .thread p (.init j)) (hj : n ≤ j + 1) :
      Quiet cfg s k { s.kt k with ctl := .thread p .initRet }
  | initRet {p} (hc : (s.kt k).ctl = .thread p .initRet) :
      Quiet cfg s k { (s.kt k).unblock cfg with ctl := .thread p (.user .unit) }
  | kmainStart (hc : (s.kt k).ctl = .kmainStart) :
      Quiet cfg s k { (s.kt k).block cfg with ctl := .sched .entry }
  | entryNone (hc : (s.kt k).ctl = .sched .entry) (ht : (s.kt k).task = .none) :
      Quiet cfg s k { (s.kt k).block cfg with ctl := .sched .reset }
  | reset (hc : (s.kt k).ctl = .sched .reset) :
      Quiet cfg s k { s.kt k with
        task := .none, lock := none, queue := none, ctl := .sched .deqWait }
  | nextTcb {q} (hc : (s.kt k).ctl = .sched (.next (.tcb q))) :
      Quiet cfg s k { s.kt k with ctl := .sched (.dispLock q) }
  | nextMain (hc : (s.kt k).ctl = .sched (.next .exitall)) (hk : k.val = 0) :
      Quiet cfg s k { s.kt k with ctl := .sched (.exitWait (n - 1)) }
  | nextOther (hc : (s.kt k).ctl = .sched (.next .exitall)) (hk : k.val ≠ 0) :
      Quiet cfg s k { s.kt k with ctl := .sched .exitPost }
  | exitWaited (hc : (s.kt k).ctl = .sched (.exitWait 0)) :
      Quiet cfg s k { s.kt k with ctl := .sched .entry }
  | dispReady {q} (hc : (s.kt k).ctl = .sched (.dispReady q)) :
      Quiet cfg s k { (s.kt k).unblock cfg with
        preempted := false, ctl := .sched (.dispSet q) }
  | closing (hc : (s.kt k).ctl = .closing .unblock) :
      Quiet cfg s k { (s.kt k).unblock cfg with ctl := .closing .inited }

/-- The points at which a kernel semaphore is posted or waited for, or `inited` is reset. -/
inductive Signals (s : State n) (k : Fin n) : State n → Ctl → Prop
  | init {p j} (hc : (s.kt k).ctl = .thread p (.init j)) (hj : j + 1 < n) :
      Signals s k { s with initedSem := s.initedSem + 1 } (.thread p (.init (j + 1)))
  | kmain (hc : (s.kt k).ctl = .kmain) (h0 : 0 < s.initedSem) :
      Signals s k { s with initedSem := s.initedSem - 1 } .kmainStart
  | createPost {p sb t q} (hc : (s.kt k).ctl = .thread p (.create sb (.enq t q .post))) :
      Signals s k { s with notEmpty := s.notEmpty + 1 } (.thread p (.create sb (.unlock t)))
  | postPost {p i q} (hc : (s.kt k).ctl = .thread p (.post i (.enq q .post))) :
      Signals s k { s with notEmpty := s.notEmpty + 1 } (.thread p (.post i .unlock))
  | teardownPost {p j} (hc : (s.kt k).ctl = .thread p (.teardown (.enq j .post))) :
      Signals s k { s with notEmpty := s.notEmpty + 1 }
        (.thread p (.teardown (.loop (j + 1))))
  | schedPost {q} (hc : (s.kt k).ctl = .sched (.enq q .post)) :
      Signals s k { s with notEmpty := s.notEmpty + 1 } (.sched .unlockTcbs)
  | deqWait (hc : (s.kt k).ctl = .sched .deqWait) (h0 : 0 < s.notEmpty) :
      Signals s k { s with notEmpty := s.notEmpty - 1 } (.sched .deqLock)
  | exitWait {j} (hc : (s.kt k).ctl = .sched (.exitWait (j + 1))) (h0 : 0 < s.exitallSem) :
      Signals s k { s with exitallSem := s.exitallSem - 1 } (.sched (.exitWait j))
  | exitPost (hc : (s.kt k).ctl = .sched .exitPost) :
      Signals s k { s with exitallSem := s.exitallSem + 1 } .exited
  | inited (hc : (s.kt k).ctl = .closing .inited) :
      Signals s k { s with inited := false } (.closing .done)

/-- The points of `schedule` that put the current thread into the queue `sched_info.queue`. -/
inductive Parks : Ctl → Ptr → Ctl → Prop
  | join (cur) : Parks (.sched (.joinBody cur)) cur (.sched .unlockTcbs)
  | sem (cur) : Parks (.sched (.semBody cur)) cur (.sched .semUnlock)

/-- The points that insert an entry into the ready queue. -/
inductive Inserts : Ctl → Entry → Ctl → Prop
  | create (p sb t q) : Inserts (.thread p (.create sb (.enq t q .insert))) (.tcb q)
      (.thread p (.create sb (.enq t q .unlock)))
  | post (p i q) : Inserts (.thread p (.post i (.enq q .insert))) (.tcb q)
      (.thread p (.post i (.enq q .unlock)))
  | teardown (p j) : Inserts (.thread p (.teardown (.enq j .insert))) .exitall
      (.thread p (.teardown (.enq j .unlock)))
  | sched (q) : Inserts (.sched (.enq q .insert)) (.tcb q) (.sched (.enq q .unlock))

/-- The branches of `schedule` for a task. -/
inductive Branches : SchedTask → Ptr → SchedPc → Prop
  | yield (cur) : Branches .yield cur (.enq cur .lock)
  | exit (cur) : Branches .exit cur (.exitBody cur)
  | join (cur) : Branches .join cur (.joinBody cur)
  | semWait (cur) : Branches .semWait cur (.semBody cur)
  | teardown (cur) : Branches .teardown cur (.teardownBody cur)

/-- The steps of the machine. -/
inductive Trans (cfg : Config) (s : State n) : Event n → State n → Prop
  | call {k c p r} (hc : (s.kt k).ctl = .thread p (.user r)) :
      Trans cfg s (k, .call c) (s.setK k (c.enter cfg (s.kt k) p))
  | tick {k} : Trans cfg s (k, .tick) (s.setK k { s.kt k with pending := true })
  | deliver {k preempted} (hp : (s.kt k).pending = true) (hb : (s.kt k).blocked = false) :
      Trans cfg s (k, .deliver)
        (s.setK k { s.kt k with pending := false, preempted := preempted })
  | acquire {k f L c} (h : Acquires (s.kt k).ctl L c) (hL : s.owner L = none) :
      Trans cfg s (k, .run f) ({ s with owner := Function.update s.owner L (some k) }.goto k c)
  | release {k f L c} (h : Releases (s.kt k) L c) :
      Trans cfg s (k, .run f) ({ s with owner := Function.update s.owner L none }.goto k c)
  | quiet {k f x} (h : Quiet cfg s k x) : Trans cfg s (k, .run f) (s.setK k x)
  | signal {k f s₁ c} (h : Signals s k s₁ c) : Trans cfg s (k, .run f) (s₁.goto k c)
  | insert {k f e c} (h : Inserts (s.kt k).ctl e c) :
      Trans cfg s (k, .run f) ({ s with rqueue := s.rqueue ++ [e] }.goto k c)
  | exitSwitch {k f p v} (hc : (s.kt k).ctl = .thread p (.exit v .switch)) :
      Trans cfg s (k, .run f)
        (s.setK k { s.kt k with ctl := .sched .entry, blocked := cfg.preemptive })
  | swap {k f p c x r} (hc : (s.kt k).ctl = .thread p (.swap (some c) r))
      (hx : s.heap c = some x) :
      Trans cfg s (k, .run f)
        ((s.setTcb c { x with ctx := some ⟨p, r, (s.kt k).blocked⟩ }).setK k
          { s.kt k with ctl := .sched .entry, blocked := cfg.preemptive })
  | yieldBody {k f p o c x} (hc : (s.kt k).ctl = .thread p (.yield o .body))
      (hcur : s.currentTcb k = some c) (hx : s.heap c = some x) (hst : x.state = .running) :
      Trans cfg s (k, .run f) ((s.setTcb c { x with state := .ready }).goto k
        (.thread p (.swap (some c) (.yielded o))))
  | exitBody {k f p v c x} (hc : (s.kt k).ctl = .thread p (.exit v .body))
      (hcur : s.currentTcb k = some c) (hx : s.heap c = some x) (hst : x.state = .running) :
      Trans cfg s (k, .run f) ((s.setTcb c { x with retval := v, state := .finished }).setK k
        { s.kt k with task := .exit, ctl := .thread p (.exit v .switch) })
  | joinRead {k f p t pret} (hc : (s.kt k).ctl = .thread p (.join t pret .read)) :
      Trans cfg s (k, .run f)
        (s.goto k (.thread p (.join t pret (.lock (s.currentTcb k) (s.tcbs t)))))
  | joinFinished {k f p t pret cur q x}
      (hc : (s.kt k).ctl = .thread p (.join t pret (.test cur (some q))))
      (hx : s.heap q = some x) (hst : x.state = .finished) :
      Trans cfg s (k, .run f) (s.goto k (.thread p (.join t pret .finish)))
  | joinBlock {k f p t pret c q x y}
      (hc : (s.kt k).ctl = .thread p (.join t pret (.test (some c) (some q))))
      (hx : s.heap q = some x) (hst : x.state ≠ .finished) (hy : s.heap c = some y)
      (hj : y.joinQueue = []) :
      Trans cfg s (k, .run f) ((s.setTcb c { y with state := .waitingJoin }).setK k
        { s.kt k with
          task := .join
          queue := some (.join q)
          ctl := .thread p (.swap (some c) (.joined t pret)) })
  | joinFinish {k f p t pret q x} (hc : (s.kt k).ctl = .thread p (.join t pret .finish))
      (hq : s.tcbs t = some q) (hx : s.heap q = some x) (hst : x.state = .finished) :
      Trans cfg s (k, .run f) (s.goto k
        (.thread p (.join t pret (.unlock (if pret then some x.retval else none)))))
  | joinClear {k f p t pret rv} (hc : (s.kt k).ctl = .thread p (.join t pret (.bvClear rv))) :
      Trans cfg s (k, .run f) ({ s with bitvec := bitvecClear s.bitvec (t - tidMain) }.goto k
        (.thread p (.join t pret (.bvUnlock rv))))
  | joinDestroy {k f p t pret rv q x}
      (hc : (s.kt k).ctl = .thread p (.join t pret (.destroy rv)))
      (hq : s.tcbs t = some q) (hx : s.heap q = some x) :
      Trans cfg s (k, .run f) ({ s with
        heap := Function.update s.heap q none
        tcbs := Function.update s.tcbs t none }.goto k (.thread p (.join t pret (.ret rv))))
  | createNext {k f p sb} (hc : (s.kt k).ctl = .thread p (.create sb .next)) :
      Trans cfg s (k, .run f) ({ s with bitvec := (State.getNextTid s.bitvec).2 }.goto k
        (.thread p (.create sb (.bvUnlock (State.getNextTid s.bitvec).1.toNat))))
  | createBody {k f p sb t} (hc : (s.kt k).ctl = .thread p (.create sb (.body t))) :
      Trans cfg s (k, .run f) ({ s with
        heap := Function.update s.heap s.fresh
          (some (State.newTcb t s.fresh sb (s.kt k).blocked))
        tcbs := Function.update s.tcbs t (some s.fresh)
        fresh := s.fresh + 1 }.goto k (.thread p (.create sb (.enq t s.fresh .lock))))
  | createNoTcb {k p sb t} (hc : (s.kt k).ctl = .thread p (.create sb (.body t))) :
      Trans cfg s (k, .run (some .tcb)) ({ s with tcbs := Function.update s.tcbs t none }.goto k
        (.thread p (.create sb (.ret t 1))))
  | createNoStack {k p sb t} (hc : (s.kt k).ctl = .thread p (.create sb (.body t))) :
      Trans cfg s (k, .run (some .stack)) ({ s with
        tcbs := Function.update s.tcbs t (some s.fresh)
        fresh := s.fresh + 1 }.goto k (.thread p (.create sb (.ret t 1))))
  | semInit {k f p i v} (hc : (s.kt k).ctl = .thread p (.semInit i v)) :
      Trans cfg s (k, .run f) ({ s.setSem i (some ⟨v, []⟩) with
        owner := Function.update s.owner (.sem i) none }.goto k (.thread p .semRet))
  | semDestroy {k f p i} (hc : (s.kt k).ctl = .thread p (.semDestroy i)) :
      Trans cfg s (k, .run f)
        ((s.setSem i none).setK k { (s.kt k).block cfg with ctl := .thread p .semRet })
  | postBump {k f p i x} (hc : (s.kt k).ctl = .thread p (.post i .body))
      (hx : s.sems i = some x) (hq : x.queue = []) :
      Trans cfg s (k, .run f)
        ((s.setSem i (some { x with counter := intIncr x.counter })).goto k
          (.thread p (.post i .unlock)))
  | postWake {k f p i x q rest} (hc : (s.kt k).ctl = .thread p (.post i .body))
      (hx : s.sems i = some x) (hq : x.queue = q :: rest) :
      Trans cfg s (k, .run f) ((s.setSem i (some ⟨intIncr x.counter, rest⟩)).goto k
        (.thread p (.post i (.tcbLock q))))
  | postReady {k f p i q x} (hc : (s.kt k).ctl = .thread p (.post i (.setReady q)))
      (hx : s.heap q = some x) (hst : x.state = .waitingSem) :
      Trans cfg s (k, .run f) ((s.setTcb q { x with state := .ready }).goto k
        (.thread p (.post i (.tcbUnlock q))))
  | waitRead {k f p i x} (hc : (s.kt k).ctl = .thread p (.wait i .read))
      (hx : s.sems i = some x) (h0 : 0 ≤ x.counter) :
      Trans cfg s (k, .run f) (s.goto k (.thread p (.wait i (.test (s.currentTcb k)))))
  | waitPark {k f p i c x} (hc : (s.kt k).ctl = .thread p (.wait i (.park (some c))))
      (hx : s.heap c = some x) :
      Trans cfg s (k, .run f) ((s.setTcb c { x with state := .waitingSem }).goto k
        (.thread p (.swap (some c) (.semWoken i (some c)))))
  | waitDec {k f p i x} (hc : (s.kt k).ctl = .thread p (.wait i .dec))
      (hx : s.sems i = some x) (h0 : 0 < x.counter) :
      Trans cfg s (k, .run f) ((s.setSem i (some { x with counter := x.counter - 1 })).goto k
        (.thread p (.wait i .unlock)))
  | teardownRead {k f p} (hc : (s.kt k).ctl = .thread p (.teardown .read)) :
      Trans cfg s (k, .run f) (s.goto k (.thread p (.swap (s.currentTcb k) .teardown)))
  | teardownFree {k f p q x} (hc : (s.kt k).ctl = .thread p (.teardown .free))
      (hq : s.tcbs tidMain = some q) (hx : s.heap q = some x) :
      Trans cfg s (k, .run f) ({ s with
        heap := fun q => if (List.range maxThreads).any (s.tcbs · == some q) then none
          else s.heap q
        tcbs := fun t => if t < maxThreads then none else s.tcbs t
        rqueue := []
        infoFreed := true }.goto k (.closing .unblock))
  | entry {k f cur pc} (hc : (s.kt k).ctl = .sched .entry) (hcur : s.currentTcb k = some cur)
      (h : Branches (s.kt k).task cur pc) :
      Trans cfg s (k, .run f) (s.setK k { (s.kt k).block cfg with ctl := .sched pc })
  | schedExit {k f cur x} (hc : (s.kt k).ctl = .sched (.exitBody cur))
      (hx : s.heap cur = some x) (hj : x.joinQueue = []) :
      Trans cfg s (k, .run f) (s.goto k (.sched .unlockTcbs))
  | schedExitWake {k f cur x j rest y} (hc : (s.kt k).ctl = .sched (.exitBody cur))
      (hx : s.heap cur = some x) (hj : x.joinQueue = j :: rest)
      (hy : (s.setTcb cur { x with joinQueue := rest }).heap j = some y)
      (hst : y.state = .waitingJoin) :
      Trans cfg s (k, .run f)
        (((s.setTcb cur { x with joinQueue := rest }).setTcb j { y with state := .ready }).goto k
          (.sched (.enq j .lock)))
  | parkJoin {k f cur c q x} (h : Parks (s.kt k).ctl cur c)
      (hq : (s.kt k).queue = some (.join q)) (hx : s.heap q = some x) :
      Trans cfg s (k, .run f)
        ((s.setTcb q { x with joinQueue := x.joinQueue ++ [cur] }).goto k c)
  | parkSem {k f cur c i x} (h : Parks (s.kt k).ctl cur c)
      (hq : (s.kt k).queue = some (.sem i)) (hx : s.sems i = some x) :
      Trans cfg s (k, .run f)
        ((s.setSem i (some { x with queue := x.queue ++ [cur] })).goto k c)
  | schedTeardown {k f cur x} (hc : (s.kt k).ctl = .sched (.teardownBody cur))
      (hx : s.heap cur = some x) :
      Trans cfg s (k, .run f)
        ((s.setTcb cur { x with state := .ready }).goto k (.sched (.enq cur .lock)))
  | deqRemove {k f e rest} (hc : (s.kt k).ctl = .sched .deqRemove) (hq : s.rqueue = e :: rest) :
      Trans cfg s (k, .run f) ({ s with rqueue := rest }.goto k (.sched (.deqUnlock e)))
  | dispBody {k f q x} (hc : (s.kt k).ctl = .sched (.dispBody q)) (hx : s.heap q = some x)
      (hst : x.state = .ready) :
      Trans cfg s (k, .run f) ((s.setTcb q { x with state := .running }).setK k
        { s.kt k with currentTid := x.tid, ctl := .sched (.dispUnlock q) })
  | dispSet {k f q x c} (hc : (s.kt k).ctl = .sched (.dispSet q)) (hx : s.heap q = some x)
      (hctx : x.ctx = some c) :
      Trans cfg s (k, .run f) (s.setK k { s.kt k with
        ctl := .thread c.thread c.resume.pc, blocked := c.blocked })

namespace State

variable {cfg : Config} {s s' : State n} {k : Fin n} {p : Ptr} {fail : Option AllocSite}

theorem withTcb_cases {o : Option Ptr} {f : Ptr → Tcb → Option (State n)}
    (h : s.withTcb o f = some s') :
    s' = s.fault ∨ ∃ c x, o = some c ∧ s.heap c = some x ∧ f c x = some s' := by
  unfold withTcb at h
  split at h
  · exact .inl (Option.some.inj h).symm
  · split at h
    · exact .inl (Option.some.inj h).symm
    · next hx => exact .inr ⟨_, _, rfl, hx, h⟩

theorem withSem_cases {i : SemId} {f : Sem → Option (State n)} (h : s.withSem i f = some s') :
    s' = s.fault ∨ ∃ x, s.sems i = some x ∧ f x = some s' := by
  unfold withSem at h
  split at h
  · exact .inl (Option.some.inj h).symm
  · next hx => exact .inr ⟨_, hx, h⟩

theorem trans_of_acquire {L : Lock} {c : Ctl} (hA : Acquires (s.kt k).ctl L c)
    (h : s.acquire k L c = some s') : Trans cfg s (k, .run fail) s' := by
  unfold acquire at h
  split at h
  · next hL =>
    obtain rfl := Option.some.inj h
    exact .acquire hA hL
  · cases h

theorem trans_of_release {L : Lock} {c : Ctl} (hR : Releases (s.kt k) L c)
    (h : s.release k L c = some s') : Trans cfg s (k, .run fail) s' := by
  obtain rfl := Option.some.inj h
  exact .release hR

theorem readyEnqueue_cases {e : Entry} {next : EnqPc → Ctl} {done : Ctl} {x : EnqPc}
    (hA : x = .lock → Acquires (s.kt k).ctl .rqueue (next .insert))
    (hI : x = .insert → Inserts (s.kt k).ctl e (next .unlock))
    (hR : x = .unlock → Releases (s.kt k) .rqueue (next .post))
    (hS : x = .post → Signals s k { s with notEmpty := s.notEmpty + 1 } done)
    (h : s.readyEnqueue k fail e next done x = some s') :
    s' = s.abort ∨ Trans cfg s (k, .run fail) s' := by
  cases x with
  | lock => exact .inr (trans_of_acquire (hA rfl) h)
  | insert =>
    simp only [readyEnqueue] at h
    split at h <;> obtain rfl := Option.some.inj h
    · exact .inl rfl
    · exact .inr (.insert (hI rfl))
  | unlock => exact .inr (trans_of_release (hR rfl) h)
  | post =>
    obtain rfl := Option.some.inj h
    exact .inr (.signal (hS rfl))

theorem queueEnqueue_cases {cur : Ptr} {c : Ctl} (hP : Parks (s.kt k).ctl cur c)
    (h : s.queueEnqueue k fail (s.kt k).queue cur c = some s') :
    s' = s.abort ∨ s' = s.fault ∨ Trans cfg s (k, .run fail) s' := by
  unfold queueEnqueue at h
  split at h
  · exact .inl (Option.some.inj h).symm
  · split at h
    · exact .inr (.inl (Option.some.inj h).symm)
    · next q hq =>
      obtain rfl | ⟨_, x, hcq, hx, h⟩ := withTcb_cases h
      · exact .inr (.inl rfl)
      · obtain rfl := Option.some.inj hcq
        obtain rfl := Option.some.inj h
        exact .inr (.inr (.parkJoin hP hq hx))
    · next i hq =>
      obtain rfl | ⟨x, hx, h⟩ := withSem_cases h
      · exact .inr (.inl rfl)
      · obtain rfl := Option.some.inj h
        exact .inr (.inr (.parkSem hP hq hx))

/-! ### The functions one by one -/

/-- What a step leads to: the run stops, or it is one of the steps of `Trans`. -/
def Leads (cfg : Config) (s : State n) (e : Event n) (s' : State n) : Prop :=
  s' = s.abort ∨ s' = s.fault ∨ Trans cfg s e s'

theorem Leads.trans {e : Event n} (h : Trans cfg s e s') : Leads cfg s e s' := .inr (.inr h)

theorem leads_of_withTcb {e : Event n} {o : Option Ptr} {f : Ptr → Tcb → Option (State n)}
    (h : s.withTcb o f = some s')
    (hf : ∀ c x, o = some c → s.heap c = some x → f c x = some s' → Leads cfg s e s') :
    Leads cfg s e s' := by
  obtain rfl | ⟨c, x, hc, hx, h⟩ := withTcb_cases h
  · exact .inr (.inl rfl)
  · exact hf c x hc hx h

theorem leads_of_withSem {e : Event n} {i : SemId} {f : Sem → Option (State n)}
    (h : s.withSem i f = some s')
    (hf : ∀ x, s.sems i = some x → f x = some s' → Leads cfg s e s') : Leads cfg s e s' := by
  obtain rfl | ⟨x, hx, h⟩ := withSem_cases h
  · exact .inr (.inl rfl)
  · exact hf x hx h

/-- A branch on an assertion. -/
theorem leads_of_assert {e : Event n} {b : Prop} [Decidable b] {s₁ : State n}
    (h : (if b then some s₁ else some s.abort) = some s') (hb : b → Trans cfg s e s₁) :
    Leads cfg s e s' := by
  split at h <;> obtain rfl := Option.some.inj h
  · next hp => exact .trans (hb hp)
  · exact .inl rfl

theorem stepYield_leads {o : Option Op} {x : YieldPc}
    (hc : (s.kt k).ctl = .thread p (.yield o x)) (h : s.stepYield cfg k p o x = some s') :
    Leads cfg s (k, .run fail) s' := by
  cases x with
  | task => exact leads_of_assert h fun _ => .quiet (.yieldTask hc)
  | lock => exact .trans (trans_of_acquire (hc ▸ .yield p o) h)
  | body =>
    refine leads_of_withTcb h fun c x hcur hx h => leads_of_assert h fun hst => ?_
    exact .yieldBody hc hcur hx hst

theorem stepTrampoline_leads {x : TrampPc} (hc : (s.kt k).ctl = .thread p (.tramp x))
    (h : s.stepTrampoline k p x = some s') : Leads cfg s (k, .run fail) s' := by
  cases x with
  | lock => exact .trans (trans_of_acquire (hc ▸ .tramp p) h)
  | check =>
    exact leads_of_withTcb h fun _ _ _ _ h => leads_of_assert h fun _ => .quiet (.tramp hc)
  | unlock => exact .trans (trans_of_release (.tramp hc) h)

theorem stepExit_leads {v : Val} {x : ExitPc} (hc : (s.kt k).ctl = .thread p (.exit v x))
    (h : s.stepExit cfg k p v x = some s') : Leads cfg s (k, .run fail) s' := by
  cases x with
  | lock => exact .trans (trans_of_acquire (hc ▸ .exit p v) h)
  | body =>
    refine leads_of_withTcb h fun c x hcur hx h => leads_of_assert h fun hst => ?_
    exact .exitBody hc hcur hx hst
  | switch =>
    obtain rfl := Option.some.inj h
    exact .trans (.exitSwitch hc)

theorem stepJoin_leads {t : Tid} {pret : Bool} {x : JoinPc}
    (hc : (s.kt k).ctl = .thread p (.join t pret x))
    (h : s.stepJoin cfg k p t pret x = some s') : Leads cfg s (k, .run fail) s' := by
  cases x with
  | read =>
    obtain rfl := Option.some.inj h
    exact .trans (.joinRead hc)
  | lock cur tgt => exact .trans (trans_of_acquire (hc ▸ .join p t pret cur tgt) h)
  | test cur tgt =>
    refine leads_of_withTcb h fun q x hq hx h' => ?_
    subst hq
    split at h'
    · next hst =>
      obtain rfl := Option.some.inj h'
      exact .trans (.joinFinished hc hx hst)
    · next hst =>
      refine leads_of_withTcb h' fun c y hcc hy h'' => ?_
      subst hcc
      exact leads_of_assert h'' fun hj => .joinBlock hc hx hst hy hj
  | resumed =>
    obtain rfl := Option.some.inj h
    exact .trans (.quiet (.joinResumed hc))
  | relock => exact .trans (trans_of_acquire (hc ▸ .joinAgain p t pret) h)
  | finish =>
    refine leads_of_withTcb h fun q x hq hx h => leads_of_assert h fun hst => ?_
    exact .joinFinish hc hq hx hst
  | unlock rv => exact .trans (trans_of_release (.join hc) h)
  | bvLock rv => exact .trans (trans_of_acquire (hc ▸ .joinBitvec p t pret rv) h)
  | bvClear rv =>
    obtain rfl := Option.some.inj h
    exact .trans (.joinClear hc)
  | bvUnlock rv => exact .trans (trans_of_release (.joinBitvec hc) h)
  | destroy rv =>
    refine leads_of_withTcb h fun q x hq hx h => ?_
    obtain rfl := Option.some.inj h
    exact .trans (.joinDestroy hc hq hx)
  | ret rv =>
    obtain rfl := Option.some.inj h
    exact .trans (.quiet (.joinRet hc))

theorem stepCreate_leads {sb : Bool} {x : CreatePc}
    (hc : (s.kt k).ctl = .thread p (.create sb x))
    (h : s.stepCreate cfg k p fail sb x = some s') : Leads cfg s (k, .run fail) s' := by
  cases x with
  | bvLock => exact .trans (trans_of_acquire (hc ▸ .createBitvec p sb) h)
  | next =>
    obtain rfl := Option.some.inj h
    exact .trans (.createNext hc)
  | bvUnlock t => exact .trans (trans_of_release (.createBitvec hc) h)
  | lock t => exact .trans (trans_of_acquire (hc ▸ .create p sb t) h)
  | body t =>
    simp only [stepCreate] at h
    split_ifs at h with h₁ h₂ <;> obtain rfl := Option.some.inj h
    · exact h₁ ▸ .trans (.createNoTcb hc)
    · exact h₂.1 ▸ .trans (.createNoStack hc)
    · exact .trans (.createBody hc)
  | enq t q x =>
    simp only [stepCreate] at h
    refine (readyEnqueue_cases ?_ ?_ ?_ ?_ h).imp_right .inr
    · rintro rfl; exact hc ▸ .createEnq p sb t q
    · rintro rfl; exact hc ▸ .create p sb t q
    · rintro rfl; exact .createEnq hc
    · rintro rfl; exact .createPost hc
  | unlock t => exact .trans (trans_of_release (.create hc) h)
  | ret t r =>
    obtain rfl := Option.some.inj h
    exact .trans (.quiet (.createRet hc))

theorem stepPost_leads {i : SemId} {x : PostPc} (hc : (s.kt k).ctl = .thread p (.post i x))
    (h : s.stepPost cfg k p fail i x = some s') : Leads cfg s (k, .run fail) s' := by
  cases x with
  | lock => exact .trans (trans_of_acquire (hc ▸ .post p i) h)
  | body =>
    refine leads_of_withSem h fun x hx h => ?_
    split at h
    · next hq =>
      obtain rfl := Option.some.inj h
      exact .trans (.postBump hc hx hq)
    · next q rest hq =>
      obtain rfl := Option.some.inj h
      exact .trans (.postWake hc hx hq)
  | tcbLock q => exact .trans (trans_of_acquire (hc ▸ .postTcbs p i q) h)
  | setReady q =>
    simp only [stepPost] at h
    refine leads_of_withTcb h fun c x hcq hx h => ?_
    obtain rfl := Option.some.inj hcq
    exact leads_of_assert h fun hst => .postReady hc hx hst
  | tcbUnlock q => exact .trans (trans_of_release (.postTcbs hc) h)
  | enq q x =>
    simp only [stepPost] at h
    refine (readyEnqueue_cases ?_ ?_ ?_ ?_ h).imp_right .inr
    · rintro rfl; exact hc ▸ .postEnq p i q
    · rintro rfl; exact hc ▸ .post p i q
    · rintro rfl; exact .postEnq hc
    · rintro rfl; exact .postPost hc
  | unlock => exact .trans (trans_of_release (.post hc) h)
  | ret =>
    obtain rfl := Option.some.inj h
    exact .trans (.quiet (.postRet hc))

theorem stepWait_leads {i : SemId} {x : WaitPc} (hc : (s.kt k).ctl = .thread p (.wait i x))
    (h : s.stepWait cfg k p i x = some s') : Leads cfg s (k, .run fail) s' := by
  cases x with
  | lock => exact .trans (trans_of_acquire (hc ▸ .wait p i) h)
  | read =>
    exact leads_of_withSem h fun x hx h => leads_of_assert h fun h0 => .waitRead hc hx h0
  | test cur =>
    refine leads_of_withSem h fun x hx h => ?_
    split at h <;> rename_i h0 <;> obtain rfl := Option.some.inj h
    · exact .trans (.quiet (.waitBlock hc hx h0))
    · exact .trans (.quiet (.waitPass hc hx h0))
  | tcbLock cur => exact .trans (trans_of_acquire (hc ▸ .waitTcbs p i cur) h)
  | park cur =>
    refine leads_of_withTcb h fun c x hcc hx h => ?_
    subst hcc
    obtain rfl := Option.some.inj h
    exact .trans (.waitPark hc hx)
  | resumed cur =>
    obtain rfl := Option.some.inj h
    exact .trans (.quiet (.waitResumed hc))
  | relock cur => exact .trans (trans_of_acquire (hc ▸ .waitAgain p i cur) h)
  | dec =>
    exact leads_of_withSem h fun x hx h => leads_of_assert h fun h0 => .waitDec hc hx h0
  | unlock => exact .trans (trans_of_release (.wait hc) h)
  | ret =>
    obtain rfl := Option.some.inj h
    exact .trans (.quiet (.waitRet hc))

theorem stepTeardown_leads {x : TeardownPc} (hc : (s.kt k).ctl = .thread p (.teardown x))
    (h : s.stepTeardown k p fail x = some s') : Leads cfg s (k, .run fail) s' := by
  cases x with
  | loop j =>
    simp only [stepTeardown] at h
    split at h <;> rename_i hj <;> obtain rfl := Option.some.inj h
    · exact .trans (.quiet (.teardownEnq hc hj))
    · exact .trans (.quiet (.teardownLoop hc (Nat.le_of_not_lt hj)))
  | enq j x =>
    simp only [stepTeardown] at h
    refine (readyEnqueue_cases ?_ ?_ ?_ ?_ h).imp_right .inr
    · rintro rfl; exact hc ▸ .teardownEnq p j
    · rintro rfl; exact hc ▸ .teardown p j
    · rintro rfl; exact .teardownEnq hc
    · rintro rfl; exact .teardownPost hc
  | task =>
    obtain rfl := Option.some.inj h
    exact .trans (.quiet (.teardownTask hc))
  | lock => exact .trans (trans_of_acquire (hc ▸ .teardown p) h)
  | read =>
    obtain rfl := Option.some.inj h
    exact .trans (.teardownRead hc)
  | resumed => exact leads_of_assert h fun hk => .quiet (.teardownResumed hc hk)
  | join j =>
    simp only [stepTeardown] at h
    split_ifs at h with hj hx <;> obtain rfl := Option.some.inj h
    · exact .trans (.quiet (.teardownJoin hc hj hx))
    · exact .trans (.quiet (.teardownJoined hc (Nat.le_of_not_lt hj)))
  | free =>
    refine leads_of_withTcb h fun q x hq hx h => ?_
    obtain rfl := Option.some.inj h
    exact .trans (.teardownFree hc hq hx)

theorem scheduleEntry_leads (hc : (s.kt k).ctl = .sched .entry)
    (h : s.scheduleEntry cfg k = some s') : Leads cfg s (k, .run fail) s' := by
  have hgoto (pc : SchedPc) : (s.setK k ((s.kt k).block cfg)).goto k (.sched pc) =
      s.setK k { (s.kt k).block cfg with ctl := .sched pc } := by
    simp [goto, setK]
  simp only [scheduleEntry, hgoto] at h
  split at h <;> obtain rfl := Option.some.inj h
  · next ht => exact .trans (.quiet (.entryNone hc ht))
  · exact .inr (.inl rfl)
  all_goals next ht hcur => exact .trans (.entry hc hcur (ht ▸ by constructor))

theorem scheduleExit_leads {cur : Ptr} (hc : (s.kt k).ctl = .sched (.exitBody cur))
    (h : s.scheduleExit k cur = some s') : Leads cfg s (k, .run fail) s' := by
  refine leads_of_withTcb h fun c x hcc hx h => ?_
  obtain rfl := Option.some.inj hcc
  split at h
  · next hj =>
    obtain rfl := Option.some.inj h
    exact .trans (.schedExit hc hx hj)
  · next j rest hj =>
    simp only at h
    split at h
    · exact .inr (.inl (Option.some.inj h).symm)
    · next y hy => exact leads_of_assert h fun hst => .schedExitWake hc hx hj hy hst.2

theorem stepSchedule_leads {pc : SchedPc} (hc : (s.kt k).ctl = .sched pc)
    (h : s.stepSchedule cfg k fail pc = some s') : Leads cfg s (k, .run fail) s' := by
  cases pc with
  | entry => exact scheduleEntry_leads hc h
  | exitBody cur => exact scheduleExit_leads hc h
  | joinBody cur => exact queueEnqueue_cases (hc ▸ .join cur) h
  | semBody cur => exact queueEnqueue_cases (hc ▸ .sem cur) h
  | semUnlock =>
    simp only [stepSchedule] at h
    split at h
    · next hi => exact .trans (trans_of_release (.schedSem hc hi) h)
    · exact .inr (.inl (Option.some.inj h).symm)
  | teardownBody cur =>
    simp only [stepSchedule] at h
    refine leads_of_withTcb h fun c x hcc hx h => ?_
    obtain rfl := Option.some.inj hcc
    obtain rfl := Option.some.inj h
    exact .trans (.schedTeardown hc hx)
  | enq q x =>
    simp only [stepSchedule] at h
    refine (readyEnqueue_cases ?_ ?_ ?_ ?_ h).imp_right .inr
    · rintro rfl; exact hc ▸ .schedEnq q
    · rintro rfl; exact hc ▸ .sched q
    · rintro rfl; exact .schedEnq hc
    · rintro rfl; exact .schedPost hc
  | unlockTcbs => exact .trans (trans_of_release (.schedTcbs hc) h)
  | reset =>
    obtain rfl := Option.some.inj h
    exact .trans (.quiet (.reset hc))
  | deqWait =>
    simp only [stepSchedule] at h
    split at h
    · next h0 =>
      obtain rfl := Option.some.inj h
      exact .trans (.signal (.deqWait hc h0))
    · cases h
  | deqLock => exact .trans (trans_of_acquire (hc ▸ .deq) h)
  | deqRemove =>
    simp only [stepSchedule] at h
    split at h <;> obtain rfl := Option.some.inj h
    · exact .inl rfl
    · next hq => exact .trans (.deqRemove hc hq)
  | deqUnlock e => exact .trans (trans_of_release (.deq hc) h)
  | next e =>
    cases e with
    | tcb q =>
      obtain rfl := Option.some.inj h
      exact .trans (.quiet (.nextTcb hc))
    | exitall =>
      simp only [stepSchedule] at h
      split at h <;> rename_i hk <;> obtain rfl := Option.some.inj h
      · exact .trans (.quiet (.nextMain hc hk))
      · exact .trans (.quiet (.nextOther hc hk))
  | exitWait j =>
    cases j with
    | zero =>
      obtain rfl := Option.some.inj h
      exact .trans (.quiet (.exitWaited hc))
    | succ j =>
      simp only [stepSchedule] at h
      split at h
      · next h0 =>
        obtain rfl := Option.some.inj h
        exact .trans (.signal (.exitWait hc h0))
      · cases h
  | exitPost =>
    obtain rfl := Option.some.inj h
    exact .trans (.signal (.exitPost hc))
  | dispLock q => exact .trans (trans_of_acquire (hc ▸ .disp q) h)
  | dispBody q =>
    simp only [stepSchedule] at h
    refine leads_of_withTcb h fun c x hcq hx h => ?_
    obtain rfl := Option.some.inj hcq
    exact leads_of_assert h fun hst => .dispBody hc hx hst
  | dispUnlock q => exact .trans (trans_of_release (.dispTcbs hc) h)
  | dispReady q =>
    obtain rfl := Option.some.inj h
    exact .trans (.quiet (.dispReady hc))
  | dispSet q =>
    simp only [stepSchedule] at h
    refine leads_of_withTcb h fun c x hcq hx h => ?_
    obtain rfl := Option.some.inj hcq
    split at h
    · exact .inr (.inl (Option.some.inj h).symm)
    · next hctx => exact Option.some.inj h ▸ .trans (.dispSet hc hx hctx)

theorem stepThread_leads {pc : Pc} (hc : (s.kt k).ctl = .thread p pc)
    (h : s.stepThread cfg k fail p pc = some s') : Leads cfg s (k, .run fail) s' := by
  cases pc with
  | init j =>
    simp only [stepThread, stepInit] at h
    split at h <;> rename_i hj <;> obtain rfl := Option.some.inj h
    · exact .trans (.signal (.init hc hj))
    · exact .trans (.quiet (.initEnd hc (Nat.le_of_not_lt hj)))
  | initRet =>
    obtain rfl := Option.some.inj h
    exact .trans (.quiet (.initRet hc))
  | user r => cases h
  | preempt o =>
    simp only [stepThread, checkPreempted] at h
    split at h <;> obtain rfl := Option.some.inj h
    · exact .trans (.quiet (.preempted hc))
    · exact .trans (.quiet (.start hc))
  | yield o x => exact stepYield_leads hc h
  | swap cur r =>
    refine leads_of_withTcb h fun c x hcc hx h' => ?_
    subst hcc
    obtain rfl := Option.some.inj h'
    exact .trans (.swap hc hx)
  | tramp x => exact stepTrampoline_leads hc h
  | exit v x => exact stepExit_leads hc h
  | join t pret x => exact stepJoin_leads hc h
  | create sb x => exact stepCreate_leads hc h
  | semInit i v =>
    obtain rfl := Option.some.inj h
    exact .trans (.semInit hc)
  | post i x => exact stepPost_leads hc h
  | wait i x => exact stepWait_leads hc h
  | semDestroy i =>
    obtain rfl := Option.some.inj h
    exact .trans (.semDestroy hc)
  | semRet =>
    obtain rfl := Option.some.inj h
    exact .trans (.quiet (.semRet hc))
  | teardown x => exact stepTeardown_leads hc h

theorem stepRun_leads (h : s.stepRun cfg k fail = some s') : Leads cfg s (k, .run fail) s' := by
  unfold stepRun at h
  split at h
  · next hc =>
    simp only [stepKthreadMain] at h
    split at h
    · next h0 =>
      obtain rfl := Option.some.inj h
      exact .trans (.signal (.kmain hc h0))
    · cases h
  · next hc => exact leads_of_assert h fun _ => .quiet (.kmainStart hc)
  · next hc => exact stepThread_leads hc h
  · next hc => exact stepSchedule_leads hc h
  · next pc hc =>
    cases pc with
    | unblock =>
      obtain rfl := Option.some.inj h
      exact .trans (.quiet (.closing hc))
    | inited =>
      obtain rfl := Option.some.inj h
      exact .trans (.signal (.inited hc))
    | done => cases h
  · cases h

/-- **What a step can do.** An enabled event stops the run, or is a step of `Trans`. -/
theorem step_cases {e : Event n} (h : s.step cfg e = some s') : Leads cfg s e s' := by
  obtain ⟨k, i⟩ := e
  unfold step at h
  split at h
  · cases i with
    | call c =>
      simp only at h
      split at h
      · next hc => exact leads_of_assert h fun _ => .call hc
      · cases h
    | run f => exact stepRun_leads h
    | tick =>
      simp only at h
      split at h
      · obtain rfl := Option.some.inj h
        exact .trans .tick
      · cases h
    | deliver =>
      simp only [stepDeliver] at h
      split at h
      · next hp =>
        simp only [Bool.and_eq_true, Bool.not_eq_true'] at hp
        split at h
        · split at h <;> obtain rfl := Option.some.inj h
          · exact .inr (.inl rfl)
          · exact .trans (.deliver hp.1 hp.2)
        · obtain rfl := Option.some.inj h
          exact .trans (.deliver hp.1 hp.2)
      · cases h
  · cases h

/-- A step is taken only as long as the run goes on. -/
theorem halt_of_step {e : Event n} (h : s.step cfg e = some s') : s.halt = none := by
  by_contra hne
  simp [step, hne] at h

end State

end Uthread
