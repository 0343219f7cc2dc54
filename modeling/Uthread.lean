import Uthread.Lib.EventMachine
import Uthread.Lib.Exclusive
import Uthread.Lib.Segment
import Uthread.Lib.Total
import Uthread.Lib.Ring
import Uthread.Basic
import Uthread.Bitvec
import Uthread.Bitvec.Access
import Uthread.Bitvec.Search
import Uthread.Model.Control
import Uthread.Model.State
import Uthread.Model.Threads
import Uthread.Model.Semaphore
import Uthread.Model.Schedule
import Uthread.Model.Machine
import Uthread.Model.Transition
import Uthread.Model.Boot
import Uthread.Invariant.Roles
import Uthread.Invariant.Locks
import Uthread.Invariant.Statement
import Uthread.Invariant.Relocation
import Uthread.Invariant.Places
import Uthread.Invariant.Table
import Uthread.Invariant.Contexts
import Uthread.Invariant.Joins
import Uthread.Invariant.Tids
import Uthread.Invariant.Teardown
import Uthread.Invariant.Reachable
import Uthread.Invariant.Boot
import Uthread.Safety.Location
import Uthread.Safety.Resume
import Uthread.Safety.Wakeup
import Uthread.Safety.Target
import Uthread.Safety.Reissue
import Uthread.Safety.HandOff
import Uthread.Model.Blocked
import Uthread.Safety.Mutex
import Uthread.Safety.Calls
import Uthread.Safety.Accounting
import Uthread.Safety.Signals
import Uthread.Queue.Linked
import Uthread.Queue.Refinement
import Uthread.Queue.Remove
import Uthread.Queue.Clear
import Uthread.Queue.Destroy
import Uthread.Safety.ReadyQueue
import Uthread.Safety.Join
import Uthread.Safety.Chain
import Uthread.Safety.Failure
import Uthread.Safety.Lookup
import Uthread.Safety.Ticks
import Uthread.Safety.Exhaustion
import Uthread.Safety.HandOver
import Uthread.Safety.Completion
import Uthread.Safety.Timer
import Uthread.Safety.Range
import Uthread.Kthread.Registry
import Uthread.Kthread.Distinct
import Uthread.Kthread.Joined
import Uthread.Client.System
import Uthread.Client.Refinement
import Uthread.Client.Buffer
import Uthread.Client.BoundedBuffer
import Uthread.Fcfs.Machine
import Uthread.Fcfs.Activity
import Uthread.Fcfs.Cooperative
import Uthread.Fcfs.Simulation
import Uthread.Fcfs.Effects
import Uthread.Fcfs.Transfers
import Uthread.Fcfs.Refinement
import Uthread.Fcfs.Dispatch
import Uthread.Safety.Usage
import Uthread.Safety.Stops
import Uthread.Safety.Waiters
import Uthread.Safety.Quiescence
import Uthread.Safety.Deadlock
import Uthread.Safety.Livelock
import Uthread.Safety.Memory
import Uthread.Safety.Lifecycle
import Uthread.Safety.Preemption
import Uthread.Client.Progress
import Uthread.Client.Linearization
