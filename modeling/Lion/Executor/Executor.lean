import Lion.Executor.Tls
import Lion.Slab

/-!
# The executor

`Executor` of `lion-executor`, with the thread-locals it shares a thread with: the queue of task ids
to poll, the slab of tasks, the ledger of ids accepted so far, and the log of what was done. Each
definition here is one operation on that state; the order in which a tick runs them, and what other
threads do meanwhile, is `Lion.Executor.Runtime`.

Three operations fill the queue from a thread-local one (`drainReactorReadyIntoLocal`,
`drainTaskReadyIntoLocal`, `drainDeferredIntoLocal`), keeping ids the ledger knows; accepting a task
from the injection queue appends its id; polling takes the head.

## A poll in two halves

`Executor::poll_task` is one function in the source. Here it is `beginPoll` and `endPoll`, with the
future running in between, since user code may do anything meanwhile: wake the task being polled,
let it yield, spawn others, drop wakers. The task taken out of the slab is in `running` for that
time. An id for which the slab has no task is the exception, and its poll is over at once.

## Conventions

The source's ghost log is real here. A poll is logged when it ends, as in the source, so the log is
one event behind the queue while a task runs. `history` is not in the source: it records which ids
were woken and which yielded since they were last taken from the queue, for stating what must still
be queued. Nothing depends on it.

Futures are numbers. What a future does when it is polled is not the executor's business but a
matter of the labels of `Runtime`, and of the modules under `System` that say which future it is.
-/

namespace Lion

/-- `Task`: an id and a future, of which only the identity matters. -/
structure Task where
  id : TaskId
  future : ℕ
deriving DecidableEq, Repr

/-- `PollResult`: how a poll has ended. -/
inductive PollResult
  | ready
  | pending
  /-- There was no future to poll. -/
  | invalid
deriving DecidableEq, Repr

/-- `DrainSource`: which of the three queues a drain has taken over. -/
inductive DrainSource
  | taskWake
  | reactorWake
  | deferred
deriving DecidableEq, Repr

/-- `ExecutorEvent`: what the ghost log records. Every event is logged when it is over. -/
inductive ExecutorEvent
  | tickBegin
  | tickEnd
  /-- A task was accepted from the injection queue, or none was. -/
  | popInjection (task : Option Task)
  /-- A task was polled. -/
  | pollTask (id : TaskId) (task : Option Task) (result : PollResult)
  /-- Ids were moved to the local queue. -/
  | drain (source : DrainSource) (ids : List TaskId)
  | park
deriving DecidableEq, Repr

/-- What happened to each task since it was last taken from the local queue. -/
structure History where
  woken : List TaskId
  /-- Ids that yielded, since they were last taken from the queue. -/
  yielded : List TaskId
  /-- Ids that have been taken from the queue at all, whether or not there was a task. -/
  polled : List TaskId
deriving DecidableEq, Repr

/-- `Executor` and the thread-locals of its thread. -/
structure Executor where
  /-- Task ids in the order they will be polled. -/
  localQueue : List TaskId
  taskSlab : Slab Task
  ledger : TidLedger
  /-- How many polls a tick may make. -/
  eventInterval : ℕ
  /-- What was done so far, oldest first. -/
  log : List ExecutorEvent
  tls : Tls
  /-- The id and task that `poll_task` has taken out while the task runs. -/
  running : Option (TaskId × Task)
  history : History
deriving DecidableEq

namespace Executor

/-- `Executor::new`, on a thread whose thread-locals are `tls`. -/
def new (eventInterval : ℕ) (tls : Tls) : Executor where
  localQueue := []
  taskSlab := .new
  ledger := .new
  eventInterval := eventInterval
  log := []
  tls := tls
  running := none
  history := ⟨[], [], []⟩

/-- Append an event to the log, and change nothing else. -/
def record (e : Executor) (ev : ExecutorEvent) : Executor := { e with log := e.log ++ [ev] }

/-! ### Waking and yielding -/

/-- A waker of `id` is called on this thread. All wakers are created with `defer` unset. -/
def wake (e : Executor) (source : WakeSource) (id : TaskId) : Executor :=
  { e with
    tls := e.tls.wakeImpl ⟨id, source, false⟩
    history := { e.history with woken := id :: e.history.woken } }

/-- The running task yields: its id goes to the deferred queue. Nothing if no task is running. -/
def deferCurrent (e : Executor) : Option Executor := do
  let id ← e.tls.currentTask
  let tls ← e.tls.deferCurrent
  return { e with tls, history := { e.history with yielded := id :: e.history.yielded } }

/-- One turn of the loop of `drain_cross_thread`: an id received from another thread. -/
def receiveCrossThread (e : Executor) (id : TaskId) : Executor :=
  { e with
    tls := e.tls.pushTaskReady id
    history := { e.history with woken := id :: e.history.woken } }

/-! ### Draining -/

/-- `Executor::filter_and_enqueue`: append the ids that the ledger knows, and drop the others. -/
def filterAndEnqueue (e : Executor) (ids : List TaskId) : List TaskId × Executor :=
  let kept := ids.filter e.ledger.contains
  (kept, { e with localQueue := e.localQueue ++ kept })

/-- `Executor::drain_reactor_ready_into_local`: take over what the reactor woke. -/
def drainReactorReadyIntoLocal (e : Executor) : Executor :=
  let (ids, tls) := e.tls.takeReactorReady
  let (kept, e) := { e with tls }.filterAndEnqueue ids
  e.record (.drain .reactorWake kept)

/-- `Executor::drain_task_ready_into_local`, after the cross-thread queue has been drained. -/
def drainTaskReadyIntoLocal (e : Executor) : Executor :=
  let (ids, tls) := e.tls.takeTaskReady
  let (kept, e) := { e with tls }.filterAndEnqueue ids
  e.record (.drain .taskWake kept)

/-- `Executor::drain_deferred_into_local`, which `wake_deferred` is: take over what has yielded. -/
def drainDeferredIntoLocal (e : Executor) : Executor :=
  let (ids, tls) := e.tls.takeDeferred
  let (kept, e) := { e with tls }.filterAndEnqueue ids
  e.record (.drain .deferred kept)

/-! ### Accepting tasks -/

/-- `Executor::pop_injection_action` on what the channel yielded: a task whose id is in the ledger
is dropped, and counts as none. -/
def popInjectionAction (e : Executor) (raw : Option Task) : Option Task × Executor :=
  match raw with
  | none => (none, e.record (.popInjection none))
  | some task =>
    if e.ledger.contains task.id then (none, e.record (.popInjection none))
    else (some task, { e with ledger := e.ledger.mark task.id }.record (.popInjection (some task)))

/-- What `pop_injection` and `next_task` do with an accepted task: file it, and queue its id. -/
def enqueueTask (e : Executor) (task : Task) : Executor :=
  { e with
    taskSlab := e.taskSlab.insert task.id task
    localQueue := e.localQueue ++ [task.id] }

/-- Take a task from the injection queue; the result says whether one was accepted. -/
def popInjection (e : Executor) (raw : Option Task) : Bool × Executor :=
  match e.popInjectionAction raw with
  | (some task, e) => (true, e.enqueueTask task)
  | (none, e) => (false, e)

/-! ### Polling -/

/-- The start of `Executor::poll_task` for an id taken from the queue: its flag is cleared and its
task taken out of the slab. If there is none, the poll is over and logged as invalid. -/
def beginPoll (e : Executor) (id : TaskId) (rest : List TaskId) : Executor :=
  let e := { e with
    localQueue := rest
    tls := e.tls.clearNotified id
    history :=
      { woken := e.history.woken.filter (· ≠ id)
        yielded := e.history.yielded.filter (· ≠ id)
        polled := id :: e.history.polled } }
  match e.taskSlab.remove id with
  | (some task, slab) =>
    { e with
      taskSlab := slab
      running := some (id, task)
      tls := { e.tls with currentTask := some id } }
  | (none, slab) => { e with taskSlab := slab }.record (.pollTask id none .invalid)

/-- The end of `Executor::poll_task`: the poll is logged, and a task that is not done goes back. -/
def endPoll (e : Executor) (id : TaskId) (task : Task) (ready : Bool) : Executor :=
  let e := { e with running := none, tls := { e.tls with currentTask := none } }
  if ready then e.record (.pollTask id (some task) .ready)
  else
    let e := e.record (.pollTask id (some task) .pending)
    { e with taskSlab := e.taskSlab.insert id task }

/-! ### Parking -/

/-- The end of the preparations of `Executor::park`: whether the reactor may be parked with a
non-zero timeout. `hasDeferred` and `hasReactorReady` were read before the cross-thread queue was
drained. -/
def decideTimeout (e : Executor) (hasDeferred hasReactorReady : Bool) : Bool × Executor :=
  let hasTaskReady := !e.tls.taskReady.isEmpty
  let hasLocalTasks := 0 < e.localQueue.length
  let (blockOnYielded, tls) := e.tls.takeBlockOnYielded
  let requireTimeout :=
    !blockOnYielded && !hasDeferred && !hasReactorReady && !hasTaskReady && !hasLocalTasks
  (requireTimeout, { e with tls }.record .park)

/-- The timeout of `Executor::park_action`, in milliseconds: a hundred, or none. -/
def parkTimeout (requireTimeout : Bool) : UInt64 := if requireTimeout then 100 else 0

/-- Set or clear the running task, around a poll of the root. -/
def setCurrentTask (e : Executor) (id : Option TaskId) : Executor :=
  { e with tls := { e.tls with currentTask := id } }

end Executor

end Lion
