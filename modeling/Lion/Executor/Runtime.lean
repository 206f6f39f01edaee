import Lion.Executor.Executor
import Lion.Library.Machine

/-!
# The runtime: executor thread, other threads, and the interrupt

The executor's tick as a program that other threads interleave with. The program is a program
counter (`Pc`) and one step function; a step reads or writes at most one piece of shared state, so
the interleavings of steps are those of the threads. Shared are the injection queue, the
cross-thread queue, the interrupt (a flag and the mio waker behind it), and the counter of task ids.

A call of `spawn`, or of a waker on another thread, is several such steps: the queue is written,
then the flag is swapped, then, if the flag was unset, mio's waker is called. The steps left to a
call are its `Stage`. A spawn may also be made by the executor's own thread, which is then busy
until the call returns.

## Where a tick can be interrupted

The locations are cut where the shared state is read. Draining the cross-thread queue is a loop with
one step for each id (`drainCross`), so that others may push between two turns. `park` resets the
flag in one step, drains in further ones, and then waits at a location of its own for the operating
system. What lies between two accesses to the shared state is one step, however much it does to the
executor, as nobody can see it half done.

## Conventions

What futures do is arbitrary: `State.step` is driven by labels, and a label is enabled whenever user
code may run on the executor's thread (`Pc.userCode`): while a future is polled, while the reactor
calls wakers, where a future is dropped, and outside of `block_on`. What the operating system does
is arbitrary too: a poll may return at any time, with or without having consumed a pending wake.

Every call has a ticket, and queue entries carry the ticket of the call that made them. Tickets are
not in the source; they say which call an entry belongs to.

The step function computes, so that a run can be followed on a concrete runtime, and proofs go by
`ExecStepped` and `Stepped`, which have the same steps as cases with what each of them finds.

## Main results

* `State.step_cases` — what a step does
-/

namespace Lion

/-- Which of the two poll loops of a tick is running, and the polls that it has counted by now. The
second loop goes on with the count of the first. -/
structure Loop where
  second : Bool
  count : ℕ
deriving DecidableEq, Repr

/-- Where the executor's thread is: a location of `block_on`, `tick`, `next_task` or `park`. -/
inductive Pc
  /-- Outside of `block_on`. -/
  | idle
  /-- `block_on`, about to poll the root. -/
  | rootBegin
  /-- The root is being polled. -/
  | root
  /-- `tick`, at its start. -/
  | tickBegin
  /-- `wake_deferred` -/
  | wakeDeferred
  /-- The loop of `pop_injection`. -/
  | popInjection
  /-- The head of a `poll_loop`. -/
  | pollLoop (l : Loop)
  /-- `next_task`, found the local queue empty. -/
  | nextReactor (l : Loop)
  /-- `next_task`, in `drain_task_ready_into_local`. -/
  | nextCross (l : Loop)
  /-- `next_task`, about to pop again. -/
  | nextPop (l : Loop)
  /-- `next_task`, about to look at the injection queue. -/
  | nextInjection (l : Loop)
  /-- A task is being polled. -/
  | polling (l : Loop)
  /-- `park`, at its start. -/
  | parkBegin (count : ℕ)
  /-- `park`, draining the cross-thread queue after the reset. -/
  | parkCross (count : ℕ) (hasDeferred hasReactorReady : Bool)
  /-- `park`, in the poll of the operating system. -/
  | parked (count : ℕ) (timeout : UInt64)
  /-- `park`, while the reactor calls wakers. -/
  | parkWakes (count : ℕ)
  /-- `park`, in `drain_task_ready_into_local`. -/
  | parkCrossAfter (count : ℕ)
  /-- `tick`, at its end. -/
  | tickEnd
deriving DecidableEq, Repr

/-- User code may run on the executor's thread here. -/
def Pc.userCode : Pc → Bool
  | .idle | .root | .pollLoop _ | .polling _ | .parkBegin _ | .parkWakes _ | .tickEnd => true
  | _ => false

/-- What a call in progress has left to do, from its next access to the shared state on. -/
inductive Stage
  /-- `spawn`, about to send the task. -/
  | send (task : Task)
  /-- A wake on another thread, about to push the id. -/
  | push (id : TaskId)
  /-- `InterruptHandle::wake`, about to swap the flag. -/
  | swap
  /-- `InterruptHandle::wake`, about to call mio's waker. -/
  | mioWake
deriving DecidableEq, Repr

/-- A call in progress, on whichever thread. -/
structure Call where
  ticket : ℕ
  /-- The call is made by the executor's thread. -/
  own : Bool
  stage : Stage
deriving DecidableEq, Repr

/-- What the threads share. `mioPending` is the state of mio's waker, which is not in the source. -/
structure Shared where
  injection : List (Task × ℕ)
  crossQueue : List (TaskId × ℕ)
  /-- The flag of the interrupt. -/
  notified : Bool
  /-- mio's waker has been called and no poll has reported it. -/
  mioPending : Bool
  taskIdCounter : UInt64
  calls : List Call
  nextTicket : ℕ
deriving DecidableEq

/-- The state of the runtime: the executor with its thread, and what it shares with others. -/
structure State where
  exec : Executor
  pc : Pc
  shared : Shared
deriving DecidableEq

namespace Shared

/-- A new runtime's shared state, with nothing queued and no call in progress. -/
def new : Shared where
  injection := []
  crossQueue := []
  notified := false
  mioPending := false
  taskIdCounter := 1
  calls := []
  nextTicket := 0

/-- The executor's thread is inside a call. -/
def busy (sh : Shared) : Bool := sh.calls.any Call.own

/-- Start a call, which gets the next ticket. -/
def startCall (sh : Shared) (own : Bool) (stage : Stage) : Shared :=
  { sh with
    calls := sh.calls ++ [⟨sh.nextTicket, own, stage⟩]
    nextTicket := sh.nextTicket + 1 }

/-- The start of `InnerHandle::spawn`: an id is taken. -/
def startSpawn (sh : Shared) (own : Bool) (future : ℕ) : Shared :=
  { sh with taskIdCounter := sh.taskIdCounter + 1 }.startCall own
    (.send ⟨sh.taskIdCounter, future⟩)

/-- Put a call into its next stage. -/
def setStage (sh : Shared) (ticket : ℕ) (stage : Stage) : Shared :=
  { sh with calls := sh.calls.map fun c => if c.ticket = ticket then { c with stage } else c }

/-- A call returns, and is no longer in progress. -/
def endCall (sh : Shared) (ticket : ℕ) : Shared :=
  { sh with calls := sh.calls.filter (·.ticket ≠ ticket) }

/-- One step of the call with this ticket. -/
def callStep (sh : Shared) (ticket : ℕ) : Option Shared := do
  let c ← sh.calls.find? (·.ticket = ticket)
  match c.stage with
  | .send task =>
    return { sh with injection := sh.injection ++ [(task, ticket)] }.setStage ticket .swap
  | .push id =>
    return { sh with crossQueue := sh.crossQueue ++ [(id, ticket)] }.setStage ticket .swap
  | .swap =>
    if sh.notified then return sh.endCall ticket
    else return { sh with notified := true }.setStage ticket .mioWake
  | .mioWake => return { sh with mioPending := true }.endCall ticket

end Shared

/-- What can happen next: a step of the executor's thread, something that user code does on it, or
something that another thread or the operating system does. -/
inductive Label
  /-- The executor's thread takes a step of its own. -/
  | exec
  /-- User code on the executor's thread calls a waker. -/
  | wake (source : WakeSource) (id : TaskId)
  /-- User code on the executor's thread yields. -/
  | yield
  /-- The future being polled returns. -/
  | futureReturns (ready : Bool)
  | blockOn
  /-- The poll of the operating system returns, having consumed a pending wake or not. -/
  | osReturns (consumed : Bool)
  | spawn (own : Bool) (future : ℕ)
  /-- A waker is called on another thread. -/
  | wakeForeign (id : TaskId)
  /-- A call in progress takes a step. -/
  | call (ticket : ℕ)
deriving DecidableEq, Repr

namespace State

/-- Where a poll loop goes when it is over. -/
def afterLoop (l : Loop) : Pc := if l.second then .tickEnd else .parkBegin l.count

/-- Poll the head of the local queue, if there is one. A poll that finds no task is over at once. -/
def pollHead (s : State) (l : Loop) (empty : Pc) : State :=
  match s.exec.localQueue with
  | [] => { s with pc := empty }
  | id :: rest =>
    let e := s.exec.beginPoll id rest
    { s with
      exec := e
      pc := if e.running.isSome then .polling l else .pollLoop { l with count := l.count + 1 } }

/-- One turn of `drain_cross_thread`, or the end of it. -/
def drainCross (s : State) (done : State → State) : State :=
  match s.shared.crossQueue with
  | (id, _) :: rest =>
    { s with
      exec := s.exec.receiveCrossThread id
      shared := { s.shared with crossQueue := rest } }
  | [] => done s

/-- Take a task from the injection queue, if there is one, and go on according to whether it was
accepted. -/
def popInjection (s : State) (accepted rejected : Pc) : State :=
  let (ok, e) := s.exec.popInjection (s.shared.injection.head?.map Prod.fst)
  { s with
    exec := e
    shared := { s.shared with injection := s.shared.injection.tail }
    pc := if ok then accepted else rejected }

/-- A step of the executor's thread: the body of `tick`, and what `block_on` does around it. -/
def execStep (s : State) : Option State :=
  match s.pc with
  | .idle | .root | .polling _ | .parked _ _ => none
  | .rootBegin => some { s with exec := s.exec.setCurrentTask (some rootId), pc := .root }
  | .tickBegin => some { s with exec := s.exec.record .tickBegin, pc := .wakeDeferred }
  | .wakeDeferred => some { s with exec := s.exec.drainDeferredIntoLocal, pc := .popInjection }
  | .popInjection => some (s.popInjection .popInjection (.pollLoop ⟨false, 0⟩))
  | .pollLoop l =>
    if s.exec.eventInterval ≤ l.count then some { s with pc := afterLoop l }
    else some (s.pollHead l (.nextReactor l))
  | .nextReactor l => some { s with exec := s.exec.drainReactorReadyIntoLocal, pc := .nextCross l }
  | .nextCross l =>
    some (s.drainCross fun s => { s with exec := s.exec.drainTaskReadyIntoLocal, pc := .nextPop l })
  | .nextPop l => some (s.pollHead l (.nextInjection l))
  | .nextInjection l => some (s.popInjection (.nextPop l) (afterLoop l))
  | .parkBegin count =>
    some { s with
      pc := .parkCross count (!s.exec.tls.deferred.isEmpty) (!s.exec.tls.reactorReady.isEmpty)
      shared := { s.shared with notified := false } }
  | .parkCross count hasDeferred hasReactorReady =>
    some (s.drainCross fun s =>
      let (requireTimeout, e) := s.exec.decideTimeout hasDeferred hasReactorReady
      { s with exec := e, pc := .parked count (Executor.parkTimeout requireTimeout) })
  | .parkWakes count =>
    some { s with exec := s.exec.drainReactorReadyIntoLocal, pc := .parkCrossAfter count }
  | .parkCrossAfter count =>
    some (s.drainCross fun s =>
      { s with exec := s.exec.drainTaskReadyIntoLocal, pc := .pollLoop ⟨true, count⟩ })
  | .tickEnd => some { s with exec := s.exec.record .tickEnd, pc := .rootBegin }

/-- The future being polled returns, which ends the poll of the root or of a task. -/
def futureReturns (s : State) (ready : Bool) : Option State :=
  match s.pc with
  | .root =>
    some { s with exec := s.exec.setCurrentTask none, pc := if ready then .idle else .tickBegin }
  | .polling l =>
    s.exec.running.map fun (id, task) =>
      { s with
        exec := s.exec.endPoll id task ready
        pc := .pollLoop { l with count := l.count + 1 } }
  | _ => none

/-- One step of the runtime. The executor's thread does nothing else while it is inside a call. -/
def step (s : State) : Label → Option State
  | .exec => if s.shared.busy then none else s.execStep
  | .wake source id =>
    if s.pc.userCode && !s.shared.busy then some { s with exec := s.exec.wake source id } else none
  | .yield =>
    if s.pc.userCode && !s.shared.busy then
      s.exec.deferCurrent.map fun e => { s with exec := e }
    else none
  | .futureReturns ready => if s.shared.busy then none else s.futureReturns ready
  | .blockOn =>
    if s.pc = .idle ∧ s.shared.busy = false then some { s with pc := .rootBegin } else none
  | .osReturns consumed =>
    match s.pc with
    | .parked count _ =>
      some { s with
        pc := .parkWakes count
        shared := { s.shared with mioPending := s.shared.mioPending && !consumed } }
    | _ => none
  | .spawn own future =>
    if own && (!s.pc.userCode || s.shared.busy) then none
    else some { s with shared := s.shared.startSpawn own future }
  | .wakeForeign id => some { s with shared := s.shared.startCall false (.push id) }
  | .call ticket => (s.shared.callStep ticket).map fun sh => { s with shared := sh }

/-- A new runtime with budget `eventInterval`, on a thread with thread-locals `tls`. -/
def new (eventInterval : ℕ) (tls : Tls) : State := ⟨.new eventInterval tls, .idle, .new⟩

/-- The runtime as a machine. Its thread may have run other runtimes before, but is outside of any
task. -/
def machine : Machine State Label :=
  Machine.ofStep (fun s => ∃ n tls, 1 ≤ n ∧ tls.currentTask = none ∧ s = new n tls) step

/-! ### What a step does -/

/-- What a step of the executor's thread does, with one case for each location it may be taken
from. -/
inductive ExecStepped (s : State) : State → Prop
  /-- `block_on` is about to poll its future. -/
  | rootBegin (hpc : s.pc = .rootBegin) :
      ExecStepped s { s with exec := s.exec.setCurrentTask (some rootId), pc := .root }
  | tickBegin (hpc : s.pc = .tickBegin) :
      ExecStepped s { s with exec := s.exec.record .tickBegin, pc := .wakeDeferred }
  /-- Deferred tasks are queued. -/
  | wakeDeferred (hpc : s.pc = .wakeDeferred) :
      ExecStepped s { s with exec := s.exec.drainDeferredIntoLocal, pc := .popInjection }
  /-- The tick takes what was injected. -/
  | popInjection (hpc : s.pc = .popInjection) :
      ExecStepped s (s.popInjection .popInjection (.pollLoop ⟨false, 0⟩))
  /-- The budget is spent. -/
  | loopEnds (lp : Loop) (hpc : s.pc = .pollLoop lp) (hcount : s.exec.eventInterval ≤ lp.count) :
      ExecStepped s { s with pc := afterLoop lp }
  | loopPolls (lp : Loop) (hpc : s.pc = .pollLoop lp) (hcount : lp.count < s.exec.eventInterval) :
      ExecStepped s (s.pollHead lp (.nextReactor lp))
  /-- The local queue is filled, from what the reactor woke first. -/
  | nextReactor (lp : Loop) (hpc : s.pc = .nextReactor lp) :
      ExecStepped s { s with exec := s.exec.drainReactorReadyIntoLocal, pc := .nextCross lp }
  /-- And then from what others did. -/
  | nextCross (lp : Loop) (hpc : s.pc = .nextCross lp) :
      ExecStepped s (s.drainCross fun s =>
        { s with exec := s.exec.drainTaskReadyIntoLocal, pc := .nextPop lp })
  /-- The local queue is tried again. -/
  | nextPop (lp : Loop) (hpc : s.pc = .nextPop lp) :
      ExecStepped s (s.pollHead lp (.nextInjection lp))
  /-- The injection queue is the last resort. -/
  | nextInjection (lp : Loop) (hpc : s.pc = .nextInjection lp) :
      ExecStepped s (s.popInjection (.nextPop lp) (afterLoop lp))
  /-- `park` resets the interrupt. -/
  | parkBegin (count : ℕ) (hpc : s.pc = .parkBegin count) :
      ExecStepped s { s with
        pc := .parkCross count (!s.exec.tls.deferred.isEmpty) (!s.exec.tls.reactorReady.isEmpty)
        shared := { s.shared with notified := false } }
  /-- It drains the cross-thread queue, and decides for how long to block. -/
  | parkCross (count : ℕ) (hd hr : Bool) (hpc : s.pc = .parkCross count hd hr) :
      ExecStepped s (s.drainCross fun s =>
        { s with
          exec := (s.exec.decideTimeout hd hr).2
          pc := .parked count (Executor.parkTimeout (s.exec.decideTimeout hd hr).1) })
  /-- What the reactor woke is queued. -/
  | parkWakes (count : ℕ) (hpc : s.pc = .parkWakes count) :
      ExecStepped s
        { s with exec := s.exec.drainReactorReadyIntoLocal, pc := .parkCrossAfter count }
  /-- And what others did. -/
  | parkCrossAfter (count : ℕ) (hpc : s.pc = .parkCrossAfter count) :
      ExecStepped s (s.drainCross fun s =>
        { s with exec := s.exec.drainTaskReadyIntoLocal, pc := .pollLoop ⟨true, count⟩ })
  /-- A tick is over. -/
  | tickEnd (hpc : s.pc = .tickEnd) :
      ExecStepped s { s with exec := s.exec.record .tickEnd, pc := .rootBegin }

/-- What a step of the runtime does, with one case for each label. -/
inductive Stepped (s : State) : Label → State → Prop
  /-- The executor's thread does something of its own. -/
  | exec {s' : State} (hbusy : s.shared.busy = false) (h : ExecStepped s s') : Stepped s .exec s'
  /-- User code wakes a task. -/
  | wake (source : WakeSource) (id : TaskId) (huser : s.pc.userCode = true)
      (hbusy : s.shared.busy = false) :
      Stepped s (.wake source id) { s with exec := s.exec.wake source id }
  /-- The running task is deferred. -/
  | yield {e : Executor} (huser : s.pc.userCode = true) (hbusy : s.shared.busy = false)
      (he : s.exec.deferCurrent = some e) : Stepped s .yield { s with exec := e }
  /-- The future of `block_on` returns. -/
  | rootReturns (ready : Bool) (hbusy : s.shared.busy = false) (hpc : s.pc = .root) :
      Stepped s (.futureReturns ready)
        { s with exec := s.exec.setCurrentTask none, pc := if ready then .idle else .tickBegin }
  /-- The future of a task returns. -/
  | pollReturns (ready : Bool) {lp : Loop} {id : TaskId} {task : Task}
      (hbusy : s.shared.busy = false) (hpc : s.pc = .polling lp)
      (hrun : s.exec.running = some (id, task)) :
      Stepped s (.futureReturns ready)
        { s with
          exec := s.exec.endPoll id task ready
          pc := .pollLoop { lp with count := lp.count + 1 } }
  | blockOn (hbusy : s.shared.busy = false) (hpc : s.pc = .idle) :
      Stepped s .blockOn { s with pc := .rootBegin }
  /-- The operating system ends a poll. -/
  | osReturns (consumed : Bool) {count : ℕ} {timeout : UInt64}
      (hpc : s.pc = .parked count timeout) :
      Stepped s (.osReturns consumed)
        { s with
          pc := .parkWakes count
          shared := { s.shared with mioPending := s.shared.mioPending && !consumed } }
  /-- A task is spawned, by user code or by another thread. -/
  | spawn (own : Bool) (future : ℕ)
      (hown : own = true → s.pc.userCode = true ∧ s.shared.busy = false) :
      Stepped s (.spawn own future) { s with shared := s.shared.startSpawn own future }
  /-- Another thread wakes a task. -/
  | wakeForeign (id : TaskId) :
      Stepped s (.wakeForeign id) { s with shared := s.shared.startCall false (.push id) }
  /-- A call takes a step. -/
  | call {ticket : ℕ} {sh : Shared} (hcall : s.shared.callStep ticket = some sh) :
      Stepped s (.call ticket) { s with shared := sh }

variable {s s' : State} {l : Label}

theorem execStep_cases (h : s.execStep = some s') : ExecStepped s s' := by
  rw [execStep] at h
  cases hpc : s.pc with
  | idle | root | polling | parked => rw [hpc] at h; cases h
  | rootBegin =>
    rw [hpc] at h
    cases h
    exact .rootBegin hpc
  | tickBegin =>
    rw [hpc] at h
    cases h
    exact .tickBegin hpc
  | wakeDeferred =>
    rw [hpc] at h
    cases h
    exact .wakeDeferred hpc
  | popInjection =>
    rw [hpc] at h
    cases h
    exact .popInjection hpc
  | pollLoop lp =>
    rw [hpc] at h
    dsimp only at h
    split at h
    · rename_i hcount
      cases h
      exact .loopEnds lp hpc hcount
    · rename_i hcount
      cases h
      exact .loopPolls lp hpc (Nat.not_le.mp hcount)
  | nextReactor lp =>
    rw [hpc] at h
    cases h
    exact .nextReactor lp hpc
  | nextCross lp =>
    rw [hpc] at h
    cases h
    exact .nextCross lp hpc
  | nextPop lp =>
    rw [hpc] at h
    cases h
    exact .nextPop lp hpc
  | nextInjection lp =>
    rw [hpc] at h
    cases h
    exact .nextInjection lp hpc
  | parkBegin count =>
    rw [hpc] at h
    cases h
    exact .parkBegin count hpc
  | parkCross count hd hr =>
    rw [hpc] at h
    cases h
    exact .parkCross count hd hr hpc
  | parkWakes count =>
    rw [hpc] at h
    cases h
    exact .parkWakes count hpc
  | parkCrossAfter count =>
    rw [hpc] at h
    cases h
    exact .parkCrossAfter count hpc
  | tickEnd =>
    rw [hpc] at h
    cases h
    exact .tickEnd hpc

theorem step_cases (h : s.step l = some s') : Stepped s l s' := by
  cases l with
  | exec =>
    simp only [step] at h
    split at h
    · cases h
    · rename_i hbusy
      exact .exec (Bool.eq_false_of_not_eq_true hbusy) (execStep_cases h)
  | wake source id =>
    simp only [step] at h
    split at h
    · rename_i huser
      cases h
      rw [Bool.and_eq_true_iff, Bool.not_eq_true'] at huser
      exact .wake source id huser.1 huser.2
    · cases h
  | yield =>
    simp only [step] at h
    split at h
    · rename_i huser
      obtain ⟨e, he, rfl⟩ := Option.map_eq_some_iff.mp h
      rw [Bool.and_eq_true_iff, Bool.not_eq_true'] at huser
      exact .yield huser.1 huser.2 he
    · cases h
  | futureReturns ready =>
    simp only [step] at h
    split at h
    · cases h
    · rename_i hbusy
      have hbusy := Bool.eq_false_of_not_eq_true hbusy
      rw [futureReturns] at h
      cases hpc : s.pc with
      | root =>
        rw [hpc] at h
        cases h
        exact .rootReturns ready hbusy hpc
      | polling lp =>
        rw [hpc] at h
        obtain ⟨⟨id, task⟩, hrun, rfl⟩ := Option.map_eq_some_iff.mp h
        exact .pollReturns ready hbusy hpc hrun
      | _ => rw [hpc] at h; cases h
  | blockOn =>
    simp only [step] at h
    split at h
    · rename_i hidle
      cases h
      exact .blockOn hidle.2 hidle.1
    · cases h
  | osReturns consumed =>
    simp only [step] at h
    split at h
    · rename_i hpc
      cases h
      exact .osReturns consumed hpc
    · cases h
  | spawn own future =>
    simp only [step] at h
    split at h
    · cases h
    · rename_i hown
      cases h
      refine .spawn own future fun ht => ?_
      simpa [ht] using hown
  | wakeForeign id =>
    cases h
    exact .wakeForeign id
  | call ticket =>
    obtain ⟨sh, hcall, rfl⟩ := Option.map_eq_some_iff.mp h
    exact .call hcall

end State

end Lion
