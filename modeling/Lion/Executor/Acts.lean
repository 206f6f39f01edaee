import Lion.Executor.Runtime

/-!
# What a step does to the executor

A step of the runtime does at most one thing to the executor and its thread-locals. `Act` lists
these things, `Executor.Step` says what each of them does, and `State.act` which of them a step
performs. Everything later that concerns the executor alone is proved over `Executor.Step`, which
has no program counter, and transported to runs by `State.reachable_exec`.

## Why acts

The runtime has some two dozen kinds of steps, most of them for the locations of its thread, and
most of what one wants to know of the queues does not depend on where the thread is. There are
thirteen acts. Several locations perform the same one: a task may be accepted in `pop_injection` and
in `next_task`, and the task-ready queue is drained in `next_task` and in `park`. An invariant
proved act by act is proved once for all of them, and a change of the order in which a tick does
things changes this module only.

What acts cannot say is when they are performed. Properties of a tick, of the interrupt and of the
log between two events need the program counter, and are proved over `Stepped`.

## Main results

* `State.step_act` — every step of the runtime performs its act, and nothing else, on the executor
* `State.reachable_exec` — invariants of the executor from invariants of acts
-/

namespace Lion

/-- The things that are done to an executor, on whosever behalf. -/
inductive Act
  /-- A waker is called on its thread. -/
  | wake (source : WakeSource) (id : TaskId)
  /-- An id is received from another thread. -/
  | receive (id : TaskId)
  | yield
  | drainReactor
  | drainTask
  | drainDeferred
  /-- A task is taken from the injection queue. -/
  | popInjection (raw : Option Task)
  /-- The head of the local queue is taken to be polled. -/
  | beginPoll
  /-- The running task returns. -/
  | endPoll (ready : Bool)
  /-- The timeout of a park is decided. -/
  | decide (hasDeferred hasReactorReady : Bool)
  | tickBegin
  | tickEnd
  /-- A poll of the root begins or ends. -/
  | setCurrent (id : Option TaskId)
deriving DecidableEq, Repr

/-- What each act does. It is the operation of the executor under the act's name, and for a poll
what it needs to begin or end. -/
inductive Executor.Step (e : Executor) : Act → Executor → Prop
  | wake (source : WakeSource) (id : TaskId) : Step e (.wake source id) (e.wake source id)
  | receive (id : TaskId) : Step e (.receive id) (e.receiveCrossThread id)
  | yield {e' : Executor} : e.deferCurrent = some e' → Step e .yield e'
  | drainReactor : Step e .drainReactor e.drainReactorReadyIntoLocal
  | drainTask : Step e .drainTask e.drainTaskReadyIntoLocal
  | drainDeferred : Step e .drainDeferred e.drainDeferredIntoLocal
  | popInjection (raw : Option Task) : Step e (.popInjection raw) (e.popInjection raw).2
  | beginPoll {id : TaskId} {rest : List TaskId} : e.running = none → e.localQueue = id :: rest →
      Step e .beginPoll (e.beginPoll id rest)
  | endPoll {id : TaskId} {task : Task} (ready : Bool) : e.running = some (id, task) →
      Step e (.endPoll ready) (e.endPoll id task ready)
  | decide (hd hr : Bool) : Step e (.decide hd hr) (e.decideTimeout hd hr).2
  | tickBegin : Step e .tickBegin (e.record .tickBegin)
  | tickEnd : Step e .tickEnd (e.record .tickEnd)
  | setCurrent (id : Option TaskId) : Step e (.setCurrent id) (e.setCurrentTask id)

namespace Executor

/-- Taking a task from the injection queue: none was there or it was a duplicate, or it is
accepted. -/
theorem popInjection_cases (e : Executor) (raw : Option Task) :
    (∀ task, raw = some task → e.ledger.contains task.id = true) ∧
        e.popInjection raw = (false, e.record (.popInjection none)) ∨
      ∃ task, raw = some task ∧ e.ledger.contains task.id = false ∧
        e.popInjection raw = (true, { e with
          ledger := e.ledger.mark task.id
          log := e.log ++ [.popInjection (some task)]
          taskSlab := e.taskSlab.insert task.id task
          localQueue := e.localQueue ++ [task.id] }) := by
  cases raw with
  | none => exact .inl ⟨by simp, rfl⟩
  | some task =>
    cases hc : e.ledger.contains task.id with
    | true =>
      refine .inl ⟨by simp [hc], ?_⟩
      simp [popInjection, popInjectionAction, hc]
    | false =>
      refine .inr ⟨task, rfl, hc, ?_⟩
      simp [popInjection, popInjectionAction, hc, record, enqueueTask]

/-- Yielding: there is a running task, and its id is appended to the deferred queue. -/
theorem deferCurrent_cases {e e' : Executor} (h : e.deferCurrent = some e') :
    ∃ id, e.tls.currentTask = some id ∧ e' = { e with
      tls := { e.tls with
        deferred := e.tls.deferred ++ [id]
        blockOnYielded := if id = rootId then true else e.tls.blockOnYielded }
      history := { e.history with yielded := id :: e.history.yielded } } := by
  simp only [deferCurrent, Tls.deferCurrent, Option.bind_eq_bind, Option.bind_eq_some_iff,
    Option.map_eq_some_iff, Option.pure_def, Option.some.injEq] at h
  obtain ⟨id, hid, tls, ⟨id', hid', rfl⟩, rfl⟩ := h
  rw [hid] at hid'
  cases hid'
  refine ⟨id, hid, ?_⟩
  by_cases hroot : id = rootId
  · simp [hroot, Tls.pushDeferred]
  · simp [hroot, Tls.pushDeferred]

/-- The part of `beginPoll` that does not depend on the slab. -/
def takeHead (e : Executor) (id : TaskId) (rest : List TaskId) : Executor :=
  { e with
    localQueue := rest
    tls := e.tls.clearNotified id
    history :=
      { woken := e.history.woken.filter (· ≠ id)
        yielded := e.history.yielded.filter (· ≠ id)
        polled := id :: e.history.polled } }

/-- The start of a poll: the task is taken out, or there is none and the poll is over. -/
theorem beginPoll_cases (e : Executor) (id : TaskId) (rest : List TaskId) :
    (∃ task, e.taskSlab.get id = some task ∧
      e.beginPoll id rest = { e.takeHead id rest with
        taskSlab := (e.taskSlab.remove id).2
        running := some (id, task)
        tls := { (e.takeHead id rest).tls with currentTask := some id } }) ∨
    e.taskSlab.get id = none ∧
      e.beginPoll id rest = { e.takeHead id rest with
        taskSlab := (e.taskSlab.remove id).2
        log := e.log ++ [.pollTask id none .invalid] } := by
  have hfst := Slab.remove_fst e.taskSlab id
  obtain ⟨res, slab, hrem⟩ : ∃ res slab, e.taskSlab.remove id = (res, slab) := ⟨_, _, rfl⟩
  rw [hrem] at hfst
  rw [← hfst, hrem]
  cases res with
  | none =>
    refine .inr ⟨rfl, ?_⟩
    simp [beginPoll, hrem, record, takeHead]
  | some task =>
    refine .inl ⟨task, rfl, ?_⟩
    simp [beginPoll, hrem, takeHead]

end Executor

namespace State

variable {s s' : State} {l : Label}

/-- The act of `drain_cross_thread`, or of what follows it. -/
def crossAct (s : State) (done : Act) : Act :=
  match s.shared.crossQueue with
  | (id, _) :: _ => .receive id
  | [] => done

/-- The act of popping the local queue: none if it is empty. -/
def headAct (s : State) : Option Act :=
  match s.exec.localQueue with
  | [] => none
  | _ :: _ => some .beginPoll

/-- The act of `execStep`, which depends on the location. -/
def execAct (s : State) : Option Act :=
  match s.pc with
  | .idle | .root | .polling _ | .parked _ _ | .parkBegin _ => none
  | .rootBegin => some (.setCurrent (some rootId))
  | .tickBegin => some .tickBegin
  | .wakeDeferred => some .drainDeferred
  | .popInjection => some (.popInjection (s.shared.injection.head?.map Prod.fst))
  | .pollLoop l => if s.exec.eventInterval ≤ l.count then none else s.headAct
  | .nextReactor _ => some .drainReactor
  | .nextCross _ => some (s.crossAct .drainTask)
  | .nextPop _ => s.headAct
  | .nextInjection _ => some (.popInjection (s.shared.injection.head?.map Prod.fst))
  | .parkCross _ hd hr => some (s.crossAct (.decide hd hr))
  | .parkWakes _ => some .drainReactor
  | .parkCrossAfter _ => some (s.crossAct .drainTask)
  | .tickEnd => some .tickEnd

/-- The act of a step, if it performs one. -/
def act (s : State) : Label → Option Act
  | .exec => s.execAct
  | .wake source id => some (.wake source id)
  | .yield => some .yield
  | .futureReturns ready =>
    match s.pc with
    | .polling _ => some (.endPoll ready)
    | _ => some (.setCurrent none)
  | _ => none

/-- A task is out of the slab exactly while it is polled. -/
def PcOk (s : State) : Prop := s.exec.running.isSome = true ↔ ∃ l, s.pc = .polling l

/-- Performing an act, or none: then the executor stays as it is. -/
def Performs (e : Executor) (a : Option Act) (e' : Executor) : Prop :=
  match a with
  | none => e' = e
  | some a => Executor.Step e a e'

theorem not_running_of_pc (h : PcOk s) (hpc : ∀ l, s.pc ≠ .polling l) : s.exec.running = none := by
  cases hrun : s.exec.running with
  | none => rfl
  | some r =>
    obtain ⟨l, hl⟩ := h.mp (by rw [hrun]; rfl)
    exact absurd hl (hpc l)

theorem pollHead_act (h : PcOk s) (hpc : ∀ l, s.pc ≠ .polling l) (l : Loop) {pc : Pc}
    (hempty : ∀ l, pc ≠ .polling l) :
    PcOk (s.pollHead l pc) ∧ Performs s.exec s.headAct (s.pollHead l pc).exec := by
  have hrun := not_running_of_pc h hpc
  rw [pollHead, headAct]
  cases hq : s.exec.localQueue with
  | nil =>
    refine ⟨?_, rfl⟩
    simp [PcOk, hrun, hempty]
  | cons id rest =>
    refine ⟨?_, .beginPoll hrun hq⟩
    dsimp only [PcOk]
    split
    · rename_i hsome
      exact iff_of_true hsome ⟨l, rfl⟩
    · rename_i hnone
      exact iff_of_false hnone (by simp)

theorem drainCross_act (h : PcOk s) {done : State → State} {a : Act}
    (hdone : PcOk (done s) ∧ Executor.Step s.exec a (done s).exec) :
    PcOk (s.drainCross done) ∧ Performs s.exec (some (s.crossAct a)) (s.drainCross done).exec := by
  rw [drainCross, crossAct]
  cases hq : s.shared.crossQueue with
  | nil => exact hdone
  | cons x rest =>
    obtain ⟨id, k⟩ := x
    exact ⟨h, .receive id⟩

theorem popInjection_running (e : Executor) (raw : Option Task) :
    (e.popInjection raw).2.running = e.running := by
  rcases e.popInjection_cases raw with ⟨-, heq⟩ | ⟨task, _, _, heq⟩
  · rw [heq]
    rfl
  · rw [heq]

theorem popInjection_act (h : PcOk s) (hpc : ∀ l, s.pc ≠ .polling l) {accepted rejected : Pc}
    (ha : ∀ l, accepted ≠ .polling l) (hr : ∀ l, rejected ≠ .polling l) :
    PcOk (s.popInjection accepted rejected) ∧
      Performs s.exec (some (.popInjection (s.shared.injection.head?.map Prod.fst)))
        (s.popInjection accepted rejected).exec := by
  have hrun := not_running_of_pc h hpc
  refine ⟨?_, .popInjection _⟩
  dsimp only [PcOk, popInjection]
  rw [popInjection_running, hrun]
  refine iff_of_false (by simp) ?_
  rintro ⟨l, hl⟩
  split at hl
  · exact ha l hl
  · exact hr l hl

theorem afterLoop_ne (l l' : Loop) : afterLoop l ≠ .polling l' := by
  rw [afterLoop]
  split <;> simp

/-- A step of the executor's own performs its act. -/
theorem execStep_act (h : PcOk s) (hstep : ExecStepped s s') :
    PcOk s' ∧ Performs s.exec s.execAct s'.exec := by
  rw [execAct]
  -- a step that runs no future keeps `running`, and the next location polls nothing
  have hkeep : ∀ {e : Executor} {pc : Pc} {sh : Shared}, e.running = s.exec.running →
      (∀ l, s.pc ≠ .polling l) → (∀ l, pc ≠ .polling l) → PcOk ⟨e, pc, sh⟩ := by
    intro e pc sh hrun hpc hpc'
    dsimp only [PcOk]
    rw [hrun, not_running_of_pc h hpc]
    exact iff_of_false (by simp) (by simpa using hpc')
  cases hstep with
  | rootBegin hpc =>
    rw [hpc]
    exact ⟨hkeep rfl (by simp [hpc]) (by simp), .setCurrent _⟩
  | tickBegin hpc =>
    rw [hpc]
    exact ⟨hkeep rfl (by simp [hpc]) (by simp), .tickBegin⟩
  | wakeDeferred hpc =>
    rw [hpc]
    exact ⟨hkeep rfl (by simp [hpc]) (by simp), .drainDeferred⟩
  | popInjection hpc =>
    rw [hpc]
    exact popInjection_act h (by simp [hpc]) (by simp) (by simp)
  | loopEnds lp hpc hcount =>
    rw [hpc]
    dsimp only
    rw [if_pos hcount]
    exact ⟨hkeep rfl (by simp [hpc]) (afterLoop_ne lp), rfl⟩
  | loopPolls lp hpc hcount =>
    rw [hpc]
    dsimp only
    rw [if_neg (Nat.not_le.mpr hcount)]
    exact pollHead_act h (by simp [hpc]) lp (by simp)
  | nextReactor lp hpc =>
    rw [hpc]
    exact ⟨hkeep rfl (by simp [hpc]) (by simp), .drainReactor⟩
  | nextCross lp hpc =>
    rw [hpc]
    exact drainCross_act h ⟨hkeep rfl (by simp [hpc]) (by simp), .drainTask⟩
  | nextPop lp hpc =>
    rw [hpc]
    exact pollHead_act h (by simp [hpc]) lp (by simp)
  | nextInjection lp hpc =>
    rw [hpc]
    exact popInjection_act h (by simp [hpc]) (by simp) (afterLoop_ne lp)
  | parkBegin count hpc =>
    rw [hpc]
    exact ⟨hkeep rfl (by simp [hpc]) (by simp), rfl⟩
  | parkCross count hd hr hpc =>
    rw [hpc]
    exact drainCross_act h ⟨hkeep rfl (by simp [hpc]) (by simp), .decide hd hr⟩
  | parkWakes count hpc =>
    rw [hpc]
    exact ⟨hkeep rfl (by simp [hpc]) (by simp), .drainReactor⟩
  | parkCrossAfter count hpc =>
    rw [hpc]
    exact drainCross_act h ⟨hkeep rfl (by simp [hpc]) (by simp), .drainTask⟩
  | tickEnd hpc =>
    rw [hpc]
    exact ⟨hkeep rfl (by simp [hpc]) (by simp), .tickEnd⟩

/-- **Every step performs its act**, and does nothing else to the executor. -/
theorem step_act (h : PcOk s) (hstep : s.step l = some s') :
    PcOk s' ∧ Performs s.exec (s.act l) s'.exec := by
  cases step_cases hstep with
  | exec _ hexec => exact execStep_act h hexec
  | wake source id => exact ⟨h, .wake source id⟩
  | yield _ _ he =>
    refine ⟨?_, .yield he⟩
    obtain ⟨id, -, rfl⟩ := Executor.deferCurrent_cases he
    exact h
  | rootReturns ready _ hpc =>
    simp only [act, hpc]
    refine ⟨?_, .setCurrent none⟩
    have hrun := not_running_of_pc h (by simp [hpc])
    simp only [PcOk, Executor.setCurrentTask, hrun]
    refine iff_of_false (by simp) ?_
    rintro ⟨l, hl⟩
    split at hl <;> cases hl
  | pollReturns ready _ hpc hrun =>
    simp only [act, hpc]
    refine ⟨?_, .endPoll ready hrun⟩
    simp only [PcOk, Executor.endPoll, Executor.record]
    cases ready <;> exact iff_of_false (by simp) (by simp)
  | blockOn _ hpc =>
    have hrun := not_running_of_pc h (by simp [hpc])
    exact ⟨by simp [PcOk, hrun], rfl⟩
  | osReturns consumed hpc =>
    have hrun := not_running_of_pc h (by simp [hpc])
    exact ⟨by simp [PcOk, hrun], rfl⟩
  | spawn | wakeForeign | call => exact ⟨h, rfl⟩

theorem pcOk_new (n : ℕ) (tls : Tls) : PcOk (new n tls) :=
  iff_of_false (by simp [new, Executor.new]) (by simp [new])

theorem pcOk_of_reachable (h : machine.Reachable s) : PcOk s := by
  refine h.invariant ?_ ?_
  · rintro s ⟨n, tls, _, _, rfl⟩
    exact pcOk_new n tls
  · intro s l s' hs hstep
    exact (step_act hs hstep).1

/-- **Invariants of the executor.** A property of new executors that every act preserves holds in
every reachable state. -/
theorem reachable_exec {I : Executor → Prop} (h : machine.Reachable s)
    (hinit : ∀ n tls, I (.new n tls)) (hact : ∀ e a e', I e → Executor.Step e a e' → I e') :
    I s.exec := by
  suffices PcOk s ∧ I s.exec from this.2
  refine h.invariant (I := fun s => PcOk s ∧ I s.exec) ?_ ?_
  · rintro s ⟨n, tls, _, _, rfl⟩
    exact ⟨pcOk_new n tls, hinit n tls⟩
  · rintro s l s' ⟨hpc, hs⟩ hstep
    obtain ⟨hpc', hperf⟩ := step_act hpc hstep
    refine ⟨hpc', ?_⟩
    cases hact' : s.act l with
    | none =>
      rw [hact'] at hperf
      exact hperf ▸ hs
    | some a =>
      rw [hact'] at hperf
      exact hact _ _ _ hs hperf

end State

end Lion
