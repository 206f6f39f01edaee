import Lion.Library.Machine
import Lion.Library.Arena
import Lion.Library.Buffer
import Lion.Library.Dispatch
import Lion.Library.Least
import Lion.Library.Mailbox
import Lion.Library.Radix
import Lion.Library.Server
import Lion.Library.Tickets
import Lion.Library.Trace
import Lion.Library.Window
import Lion.Poll
import Lion.Slab
import Lion.TimerWheel.VecMap
import Lion.FiniteMaps
import Lion.TimerWheel.Wheel
import Lion.TimerWheel.Placement
import Lion.TimerWheel.Linked
import Lion.TimerWheel.Advance
import Lion.TimerWheel.Refinement
import Lion.TimerWheel.Counts
import Lion.TimerWheel.Representation
import Lion.TimerWheel.Earliest
import Lion.TimerWheel.Loops
import Lion.Reactor.Readiness
import Lion.Reactor.Resources
import Lion.Reactor.Reactor
import Lion.Reactor.Timers
import Lion.Reactor.Events
import Lion.Executor.Ledger
import Lion.Executor.Tls
import Lion.Executor.Executor
import Lion.Executor.Runtime
import Lion.Executor.Acts
import Lion.Executor.Fifo
import Lion.Executor.Wakeups
import Lion.Executor.Multiplicity
import Lion.Executor.Interrupt
import Lion.Executor.Injection
import Lion.Executor.Polling
import Lion.Executor.RootWake
import Lion.Executor.Ticks
import Lion.Executor.Service
import Lion.Executor.Specification
import Lion.Executor.Liveness
import Lion.Executor.Join
import Lion.Executor.Blocking
import Lion.Sync.Kernel
import Lion.Sync.Mpsc
import Lion.Sync.MpscFifo
import Lion.Sync.Parking
import Lion.Sync.MpscWakeup
import Lion.Sync.Unbounded
import Lion.Sync.Receiving
import Lion.Sync.Draining
import Lion.Sync.Broadcast
import Lion.Sync.BroadcastWakeup
import Lion.Sync.Closure
import Lion.Sync.Handles
import Lion.Sync.Watch
import Lion.Sync.Updates
import Lion.Sync.WatchWakeup
import Lion.Sync.WaitFor
import Lion.Sync.Oneshot
import Lion.Sync.WaitList
import Lion.Sync.Delivery
import Lion.Sync.InFlight
import Lion.Sync.Semaphore
import Lion.Sync.Notify
import Lion.Sync.Wakers
import Lion.Sync.Tables
import Lion.Sync.Mutex
import Lion.Sync.Places
import Lion.Time.Sleep
import Lion.Time.Rearming
import Lion.Time.Instants
import Lion.Time.Resources
import Lion.Time.Migration
import Lion.Reactor.IoWakes
import Lion.Reactor.Journal
import Lion.Reactor.Specification
import Lion.Reactor.Timeout
import Lion.Time.RealTime
import Lion.Time.Arithmetic
import Lion.Time.Interval
import Lion.Reactor.Ids
import Lion.Reactor.Hangups
import Lion.Net.TcpStream
import Lion.Net.Sockets
import Lion.Net.Connect
import Lion.Net.Directions
import Lion.System.Hosting
import Lion.System.Composition
import Lion.System.Delivery
import Lion.System.Primitives
import Lion.System.Awaiting
import Lion.System.Listening
import Lion.System.Queueing
import Lion.System.Timeouts
