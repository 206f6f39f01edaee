import Lion.Executor.RootWake

/-!
# One tick

A tick runs its two poll loops on one budget, with the park between them. What follows is about one
tick from any state of the runtime, whatever its queues hold and whatever futures, wakers, other
threads and the operating system do meanwhile: the budget is kept, the first loop polls what the
queue holds before anything else and gives up early only if there is nothing to poll, and what
yields waits for the next tick.

For the last point the tick is run again with nobody yielding: up to the deferred queue and the
timeout of the park, nothing changes.

## Two phases

A tick opens by draining the deferred queue and the injection queue, with no user code running, and
then comes to its loops. What it has done in the opening is a fixed list of events but for the tasks
that were accepted (`Executor.opening`), and the queue at its end is what everything later is
measured by. From there on `Underway` holds: the events of the loops are related to the location by
`Pc.Fits`, which counts polls and parks, and the entries that were queued first are polled first.

## Running it again without the yields

That a yield has no effect within its tick cannot be seen from one run. `State.blind` takes away
from a state what yields have put there. A step commutes with it, apart from the two at which the
thread looks: where the deferred tasks are queued and where `park` decides its timeout. So the run
without the yields goes through states that are alike, and comes out with the same log
(`exists_run_without_yield`).

## Main definitions

* `State.ticking` — the steps of a tick
* `Underway` — a tick has come to its loops
* `State.blind` — a state, but for who has yielded

## Main results

* `Underway.step` — budget and order, step by step
* `map_blind_step` — a step does not look at who has yielded
* `ticking_run` — one tick
-/

namespace Lion

/-! ### What a log says -/

/-- The id that was polled, if the event is a poll. -/
def ExecutorEvent.polled : ExecutorEvent → Option TaskId
  | .pollTask id _ _ => some id
  | .popInjection _ | .drain _ _ | .tickBegin | .tickEnd | .park => none

/-- The ids that were appended to the local queue. -/
def ExecutorEvent.enqueued : ExecutorEvent → List TaskId
  | .popInjection (some task) => [task.id]
  | .drain _ ids => ids
  | .popInjection none | .pollTask _ _ _ | .tickBegin | .tickEnd | .park => []

/-- The ids polled, in order, with one entry for each poll. -/
def polledIds (evs : List ExecutorEvent) : List TaskId := evs.filterMap ExecutorEvent.polled

/-- The ids appended to the local queue, in order. -/
def enqueuedIds (evs : List ExecutorEvent) : List TaskId := evs.flatMap ExecutorEvent.enqueued

/-- How often the reactor was parked, which is once in a tick that is over. -/
def parks (evs : List ExecutorEvent) : ℕ := evs.count .park

/-- Both ready queues were drained and held nothing that could be polled. -/
def drainedReady : List ExecutorEvent := [.drain .reactorWake [], .drain .taskWake []]

@[simp] theorem polledIds_append (evs evs' : List ExecutorEvent) :
    polledIds (evs ++ evs') = polledIds evs ++ polledIds evs' :=
  List.filterMap_append

@[simp] theorem enqueuedIds_append (evs evs' : List ExecutorEvent) :
    enqueuedIds (evs ++ evs') = enqueuedIds evs ++ enqueuedIds evs' :=
  List.flatMap_append

@[simp] theorem parks_append (evs evs' : List ExecutorEvent) :
    parks (evs ++ evs') = parks evs + parks evs' :=
  List.count_append

section Snoc

variable {evs : List ExecutorEvent} {ev : ExecutorEvent}

theorem polledIds_snoc_of_none (hev : ev.polled = none) :
    polledIds (evs ++ [ev]) = polledIds evs := by
  simp [polledIds, hev]

theorem parks_snoc_of_ne (hev : ev ≠ .park) : parks (evs ++ [ev]) = parks evs := by
  rw [parks, List.count_append, List.count_singleton, if_neg (by simpa using hev)]
  rfl

end Snoc

/-! ### What an act does to the queue -/

namespace Executor

variable {e e' : Executor} {act : Act} {n : ℕ} {q : List TaskId} {evs evs' : List ExecutorEvent}

/-- The id being polled, if a task is. -/
def runningId (e : Executor) : List TaskId := (e.running.map Prod.fst).toList

/-- `e'` comes from `e` by the events `evs`, which say everything about the queue. -/
structure Logged (e : Executor) (evs : List ExecutorEvent) (e' : Executor) : Prop where
  log : e'.log = e.log ++ evs
  /-- What is polled leaves the local queue at the front, and what is added joins at the end. -/
  queue : e.runningId ++ e.localQueue ++ enqueuedIds evs =
    polledIds evs ++ e'.runningId ++ e'.localQueue
  interval : e'.eventInterval = e.eventInterval

/-- Nothing is logged, and the queue is left alone. -/
theorem Logged.of_eq (hlog : e'.log = e.log) (hrun : e'.running = e.running)
    (hq : e'.localQueue = e.localQueue) (hn : e'.eventInterval = e.eventInterval) :
    Logged e [] e' := by
  refine ⟨by rw [hlog, List.append_nil], ?_, hn⟩
  rw [runningId, runningId, hrun, hq]
  simp [enqueuedIds, polledIds]

/-- One event that is no poll is logged, and the queue gets what it says. -/
theorem Logged.of_enqueued (ev : ExecutorEvent) (hev : ev.polled = none)
    (hlog : e'.log = e.log ++ [ev]) (hrun : e'.running = e.running)
    (hq : e'.localQueue = e.localQueue ++ ev.enqueued)
    (hn : e'.eventInterval = e.eventInterval) : Logged e [ev] e' := by
  refine ⟨hlog, ?_, hn⟩
  rw [runningId, runningId, hrun, hq]
  simp [enqueuedIds, polledIds, hev]

/-- A poll begins, or is over at once because there is no task. -/
theorem logged_beginPoll {id : TaskId} {rest : List TaskId} (hrun : e.running = none)
    (hq : e.localQueue = id :: rest) :
    (∃ task, (e.beginPoll id rest).running = some (id, task)) ∧ Logged e [] (e.beginPoll id rest) ∨
      (e.beginPoll id rest).running = none ∧
        Logged e [.pollTask id none .invalid] (e.beginPoll id rest) := by
  rcases e.beginPoll_cases id rest with ⟨task, -, heq⟩ | ⟨-, heq⟩
  · rw [heq]
    refine .inl ⟨⟨task, rfl⟩, (List.append_nil _).symm, ?_, rfl⟩
    simp [runningId, takeHead, hrun, hq, enqueuedIds, polledIds]
  · rw [heq]
    refine .inr ⟨hrun, rfl, ?_, rfl⟩
    simp [runningId, takeHead, hrun, hq, enqueuedIds, polledIds, ExecutorEvent.polled,
      ExecutorEvent.enqueued]

/-- A poll ends, and is logged now. -/
theorem logged_endPoll {id : TaskId} {task : Task} (ready : Bool)
    (hrun : e.running = some (id, task)) :
    ∃ result, (e.endPoll id task ready).running = none ∧
      Logged e [.pollTask id (some task) result] (e.endPoll id task ready) := by
  cases ready with
  | true =>
    refine ⟨.ready, rfl, rfl, ?_, rfl⟩
    simp [runningId, endPoll, record, hrun, enqueuedIds, polledIds, ExecutorEvent.polled,
      ExecutorEvent.enqueued]
  | false =>
    refine ⟨.pending, rfl, rfl, ?_, rfl⟩
    simp [runningId, endPoll, record, hrun, enqueuedIds, polledIds, ExecutorEvent.polled,
      ExecutorEvent.enqueued]

end Executor

/-! ### Budget and order -/

/-- The counter of the loop `l` is right: it counts the polls, which are within the budget `n`; and
before the second loop there were the park and at least `want` of them. -/
structure Spent (n want : ℕ) (evs : List ExecutorEvent) (l : Loop) : Prop where
  polls : (polledIds evs).length = l.count
  parks : parks evs = l.second.toNat
  le : l.count ≤ n
  enough : l.second = true → want ≤ l.count

section Spent

variable {n want : ℕ} {evs : List ExecutorEvent} {l : Loop}

/-- One more poll, as far as the budget goes. -/
theorem Spent.poll {id : TaskId} {task : Option Task} {result : PollResult}
    (h : Spent n want evs l) (hlt : l.count < n) :
    Spent n want (evs ++ [.pollTask id task result]) { l with count := l.count + 1 } where
  polls := by
    have hpolls := h.polls
    simp [polledIds, ExecutorEvent.polled] at hpolls ⊢
    exact hpolls
  parks := by
    rw [parks_append, h.parks]
    rfl
  le := hlt
  enough hsecond := Nat.le_succ_of_le (h.enough hsecond)

/-- Something that is neither a poll nor a park, and so is not counted. -/
theorem Spent.event {ev : ExecutorEvent} (h : Spent n want evs l)
    (hev : ev.polled = none) (hpark : ev ≠ .park) : Spent n want (evs ++ [ev]) l where
  polls := by rw [polledIds_snoc_of_none hev, h.polls]
  parks := by rw [parks_snoc_of_ne hpark, h.parks]
  le := h.le
  enough := h.enough

end Spent

/-- What has been done when the tick is somewhere in or between its loops, or at its end. -/
def Pc.Fits (n want : ℕ) (evs : List ExecutorEvent) (queue : List TaskId) : Pc → Prop
  | .pollLoop l => Spent n want evs l
  | .polling l => Spent n want evs l ∧ l.count < n
  | .nextReactor l => Spent n want evs l ∧ l.count < n ∧ queue = []
  | .nextCross l => Spent n want evs l ∧ l.count < n ∧ [.drain .reactorWake queue] <:+ evs
  | .nextPop l => Spent n want evs l ∧ l.count < n ∧ (queue = [] → drainedReady <:+ evs)
  | .nextInjection l => Spent n want evs l ∧ l.count < n ∧ queue = [] ∧ drainedReady <:+ evs
  | .parkBegin c | .parkCross c _ _ =>
    Spent n want evs ⟨false, c⟩ ∧
      (c < n → queue = [] ∧ (drainedReady ++ [.popInjection none]) <:+ evs)
  | .parked c _ | .parkWakes c | .parkCrossAfter c => Spent n want evs ⟨true, c⟩
  | .tickEnd | .rootBegin =>
    (polledIds evs).length ≤ n ∧ want ≤ (polledIds evs).length ∧ parks evs = 1
  | .idle | .root | .tickBegin | .wakeDeferred | .popInjection => False

namespace State

variable {s s' : State} {l : Label} {n : ℕ} {q : List TaskId} {evs evs' : List ExecutorEvent}

/-- A tick that came to its loops with the queue `q`, and has done `evs` since. -/
structure Underway (n : ℕ) (q : List TaskId) (evs : List ExecutorEvent) (s : State) : Prop where
  /-- The events fit the location, with what the queue owed at first. -/
  fits : s.pc.Fits n (min q.length n) evs s.exec.localQueue
  /-- The queue's ids are polled in order. -/
  queue : q ++ enqueuedIds evs = polledIds evs ++ s.exec.runningId ++ s.exec.localQueue
  interval : s.exec.eventInterval = n
  /-- A task is out of the slab exactly while it is polled. -/
  pc_ok : PcOk s

theorem Underway.logged (h : Underway n q evs s) (hlog : s.exec.Logged evs' s'.exec)
    (hok : PcOk s') (hfits : s'.pc.Fits n (min q.length n) (evs ++ evs') s'.exec.localQueue) :
    Underway n q (evs ++ evs') s' where
  fits := hfits
  queue := by
    have hqueue := hlog.queue
    rw [enqueuedIds_append, ← List.append_assoc, h.queue, polledIds_append]
    simp only [List.append_assoc] at hqueue ⊢
    rw [hqueue]
  interval := hlog.interval.trans h.interval
  pc_ok := hok

/-- Somebody else does something, or user code that the queue does not see. -/
theorem Underway.quiet (h : Underway n q evs s) (hlog : s.exec.Logged [] s'.exec)
    (hok : PcOk s') (hpc : s'.pc = s.pc) (hq : s'.exec.localQueue = s.exec.localQueue) :
    Underway n q (evs ++ []) s' := by
  refine h.logged hlog hok ?_
  rw [List.append_nil, hpc, hq]
  exact h.fits

/-- What `next_task` polls, or where it goes on if the queue is empty. -/
theorem Underway.pollHead (h : Underway n q evs s) {l : Loop} {empty : Pc}
    (hpc : ∀ l, s.pc ≠ .polling l) (hspent : Spent n (min q.length n) evs l) (hlt : l.count < n)
    (hempty : s.exec.localQueue = [] → empty.Fits n (min q.length n) evs []) :
    ∃ evs', s.exec.Logged evs' (s.pollHead l empty).exec ∧
      (s.pollHead l empty).pc.Fits n (min q.length n) (evs ++ evs')
        (s.pollHead l empty).exec.localQueue := by
  have hrun := not_running_of_pc h.pc_ok hpc
  rw [State.pollHead]
  cases hq : s.exec.localQueue with
  | nil =>
    refine ⟨[], .of_eq rfl rfl rfl rfl, ?_⟩
    rw [List.append_nil]
    dsimp only
    rw [hq]
    exact hempty hq
  | cons id rest =>
    dsimp only
    rcases Executor.logged_beginPoll hrun hq with ⟨⟨task, hsome⟩, hlog⟩ | ⟨hnone, hlog⟩
    · refine ⟨[], hlog, ?_⟩
      rw [List.append_nil, hsome]
      exact ⟨hspent, hlt⟩
    · refine ⟨_, hlog, ?_⟩
      rw [hnone]
      exact hspent.poll hlt

/-- Ids received from other threads go to a queue that is not the local one. -/
theorem Underway.drainCross (h : Underway n q evs s) {done : State → State}
    (hdone : ∃ evs', s.exec.Logged evs' (done s).exec ∧
      (done s).pc.Fits n (min q.length n) (evs ++ evs') (done s).exec.localQueue) :
    ∃ evs', s.exec.Logged evs' (s.drainCross done).exec ∧
      (s.drainCross done).pc.Fits n (min q.length n) (evs ++ evs')
        (s.drainCross done).exec.localQueue := by
  rw [State.drainCross]
  cases hq : s.shared.crossQueue with
  | nil => exact hdone
  | cons x rest =>
    obtain ⟨id, k⟩ := x
    refine ⟨[], .of_eq rfl rfl rfl rfl, ?_⟩
    rw [List.append_nil]
    exact h.fits

/-- The end of a loop, where the first goes on to the park and the second to the end. -/
theorem fits_afterLoop {want : ℕ} {queue : List TaskId} {l : Loop} (h : Spent n want evs l)
    (hstop : l.count < n → queue = [] ∧ (drainedReady ++ [.popInjection none]) <:+ evs) :
    (afterLoop l).Fits n want evs queue := by
  obtain ⟨second, c⟩ := l
  cases second with
  | false => exact ⟨h, hstop⟩
  | true =>
    have hpolls := h.polls
    exact ⟨hpolls ▸ h.le, hpolls ▸ h.enough rfl, h.parks⟩

/-- A step of the executor's own, from whichever location in or between the loops. -/
theorem Underway.execStep (h : Underway n q evs s) (hpc : s.pc ≠ .rootBegin)
    (hstep : s.ExecStepped s') : ∃ evs', s'.exec.log = s.exec.log ++ evs' ∧
      Underway n q (evs ++ evs') s' := by
  have hok := (execStep_act h.pc_ok hstep).1
  suffices ∃ evs', s.exec.Logged evs' s'.exec ∧
      s'.pc.Fits n (min q.length n) (evs ++ evs') s'.exec.localQueue by
    obtain ⟨evs', hlog, hfits⟩ := this
    exact ⟨evs', hlog.log, h.logged hlog hok hfits⟩
  have hfits := h.fits
  cases hstep with
  | rootBegin hloc => exact absurd hloc hpc
  | tickBegin hloc | wakeDeferred hloc | popInjection hloc =>
    rw [hloc] at hfits
    exact hfits.elim
  | loopEnds l hloc hcount =>
    rw [hloc] at hfits
    rw [h.interval] at hcount
    refine ⟨[], .of_eq rfl rfl rfl rfl, ?_⟩
    rw [List.append_nil]
    exact fits_afterLoop hfits fun hlt => absurd hcount (Nat.not_le.mpr hlt)
  | loopPolls l hloc hcount =>
    rw [hloc] at hfits
    rw [h.interval] at hcount
    exact h.pollHead (by simp [hloc]) hfits hcount fun _ => ⟨hfits, hcount, rfl⟩
  | nextReactor l hloc =>
    rw [hloc] at hfits
    obtain ⟨hspent, hlt, hq⟩ := hfits
    refine ⟨_, .of_enqueued (.drain .reactorWake _) rfl rfl rfl rfl rfl, ?_⟩
    have hkept : s.exec.drainReactorReadyIntoLocal.localQueue =
        s.exec.tls.reactorReady.filter s.exec.ledger.contains := by
      show s.exec.localQueue ++ _ = _
      rw [hq]
      rfl
    refine ⟨hspent.event rfl (by simp), hlt, ?_⟩
    rw [hkept]
    exact List.suffix_append _ _
  | nextCross l hloc =>
    rw [hloc] at hfits
    obtain ⟨hspent, hlt, hlast⟩ := hfits
    refine h.drainCross ⟨_, .of_enqueued (.drain .taskWake _) rfl rfl rfl rfl rfl, ?_⟩
    refine ⟨hspent.event rfl (by simp), hlt, fun hempty => ?_⟩
    obtain ⟨hqueue, hkept⟩ := List.append_eq_nil_iff.mp hempty
    rw [hqueue] at hlast
    obtain ⟨before, rfl⟩ := hlast
    refine ⟨before, ?_⟩
    rw [drainedReady, hkept, List.append_assoc]
    rfl
  | nextPop l hloc =>
    rw [hloc] at hfits
    obtain ⟨hspent, hlt, hlast⟩ := hfits
    exact h.pollHead (by simp [hloc]) hspent hlt fun hempty => ⟨hspent, hlt, rfl, hlast hempty⟩
  | nextInjection l hloc =>
    rw [hloc] at hfits
    obtain ⟨hspent, hlt, hqueue, hlast⟩ := hfits
    rw [State.popInjection]
    rcases s.exec.popInjection_cases (s.shared.injection.head?.map Prod.fst) with
      ⟨-, heq⟩ | ⟨task, -, -, heq⟩
    · rw [heq]
      refine ⟨[.popInjection none], .of_enqueued _ rfl rfl rfl (List.append_nil _).symm rfl, ?_⟩
      refine fits_afterLoop (hspent.event rfl (by simp)) fun _ => ⟨hqueue, ?_⟩
      exact List.suffix_append_self_iff.mpr hlast
    · rw [heq]
      refine ⟨[.popInjection (some task)], .of_enqueued _ rfl rfl rfl rfl rfl, ?_⟩
      refine ⟨hspent.event rfl (by simp), hlt, fun hempty => ?_⟩
      simp at hempty
  | parkBegin c hloc =>
    rw [hloc] at hfits
    refine ⟨[], .of_eq rfl rfl rfl rfl, ?_⟩
    rw [List.append_nil]
    exact hfits
  | parkCross c hd hr hloc =>
    rw [hloc] at hfits
    obtain ⟨hspent, hstop⟩ := hfits
    refine h.drainCross ⟨[.park], .of_enqueued _ rfl rfl rfl (List.append_nil _).symm rfl, ?_⟩
    refine ⟨?_, ?_, hspent.le, fun _ => ?_⟩
    · rw [polledIds_snoc_of_none rfl]
      exact hspent.polls
    · rw [parks_append, hspent.parks]
      rfl
    · -- either the budget is spent, or the queue is empty and all of it was polled
      have hpolls := hspent.polls
      dsimp only at hpolls ⊢
      rcases Nat.lt_or_ge c n with hlt | hge
      · have hlen := congrArg List.length h.queue
        rw [(hstop hlt).1, Executor.runningId, not_running_of_pc h.pc_ok (by simp [hloc])] at hlen
        simp only [Option.map_none, Option.toList_none, List.append_nil, List.length_append] at hlen
        omega
      · omega
  | parkWakes c hloc =>
    rw [hloc] at hfits
    exact ⟨_, .of_enqueued (.drain .reactorWake _) rfl rfl rfl rfl rfl,
      Spent.event hfits rfl (by simp)⟩
  | parkCrossAfter c hloc =>
    rw [hloc] at hfits
    exact h.drainCross ⟨_, .of_enqueued (.drain .taskWake _) rfl rfl rfl rfl rfl,
      Spent.event hfits rfl (by simp)⟩
  | tickEnd hloc =>
    rw [hloc] at hfits
    refine ⟨[.tickEnd], .of_enqueued _ rfl rfl rfl (List.append_nil _).symm rfl, ?_⟩
    dsimp only [Pc.Fits] at hfits ⊢
    rw [polledIds_snoc_of_none rfl, parks_snoc_of_ne (by simp)]
    exact hfits

/-- **Budget and order, step by step.** Whatever the step is, the events still fit the location. -/
theorem Underway.step (h : Underway n q evs s) (htick : s.pc ≠ .rootBegin)
    (hstep : s.step l = some s') : ∃ evs', s'.exec.log = s.exec.log ++ evs' ∧
      Underway n q (evs ++ evs') s' := by
  have hok := (step_act h.pc_ok hstep).1
  have hquiet : s.exec.Logged [] s'.exec → s'.pc = s.pc → s'.exec.localQueue = s.exec.localQueue →
      ∃ evs', s'.exec.log = s.exec.log ++ evs' ∧ Underway n q (evs ++ evs') s' :=
    fun hlog hpc hq => ⟨[], hlog.log, h.quiet hlog hok hpc hq⟩
  have hfits := h.fits
  cases step_cases hstep with
  | exec _ hexec => exact h.execStep htick hexec
  | wake => exact hquiet (.of_eq rfl rfl rfl rfl) rfl rfl
  | yield _ _ he =>
    obtain ⟨id, -, rfl⟩ := Executor.deferCurrent_cases he
    exact hquiet (.of_eq rfl rfl rfl rfl) rfl rfl
  | pollReturns ready _ hpc hrun =>
    rw [hpc] at hfits
    obtain ⟨result, -, hlog⟩ := Executor.logged_endPoll ready hrun
    exact ⟨_, hlog.log, h.logged hlog hok (hfits.1.poll hfits.2)⟩
  | rootReturns _ _ hpc | blockOn _ hpc =>
    rw [hpc] at hfits
    exact hfits.elim
  | osReturns _ hpc =>
    rw [hpc] at hfits
    refine ⟨[], (List.append_nil _).symm, h.logged (.of_eq rfl rfl rfl rfl) hok ?_⟩
    rw [List.append_nil]
    exact hfits
  | spawn | wakeForeign | call => exact hquiet (.of_eq rfl rfl rfl rfl) rfl rfl

end State

/-! ### How a tick begins -/

/-- A tick is running: its thread is between the beginning and the end of `tick`. -/
def Pc.inTick : Pc → Bool
  | .idle | .rootBegin | .root => false
  | .tickBegin | .wakeDeferred | .popInjection | .tickEnd => true
  | .pollLoop _ | .nextReactor _ | .nextCross _ | .nextPop _ | .nextInjection _ | .polling _ => true
  | .parkBegin _ | .parkCross _ _ _ | .parked _ _ | .parkWakes _ | .parkCrossAfter _ => true

namespace Executor

/-- The ids that a tick beginning at `e` takes from the deferred queue. -/
def awoken (e : Executor) : List TaskId := e.tls.deferred.filter e.ledger.contains

/-- The events of a tick before its loops, but for the last, when it has accepted these tasks. -/
def opening (e : Executor) (accepted : List Task) : List ExecutorEvent :=
  [.tickBegin, .drain .deferred e.awoken] ++ accepted.map fun task => .popInjection (some task)

/-- The local queue that a tick comes to its loops with. -/
def openingQueue (e : Executor) (accepted : List Task) : List TaskId :=
  e.localQueue ++ e.awoken ++ accepted.map Task.id

theorem polledIds_opening (e : Executor) (accepted : List Task) :
    polledIds (e.opening accepted ++ [.popInjection none]) = [] := by
  refine List.filterMap_eq_nil_iff.mpr fun ev hev => ?_
  simp only [opening, List.cons_append, List.nil_append, List.mem_cons, List.mem_append,
    List.mem_map, List.not_mem_nil, or_false] at hev
  rcases hev with rfl | rfl | ⟨task, -, rfl⟩ | rfl
  · rfl
  · rfl
  · rfl
  · rfl

theorem parks_opening (e : Executor) (accepted : List Task) :
    parks (e.opening accepted ++ [.popInjection none]) = 0 := by
  rw [parks, List.count_eq_zero]
  simp [opening]

end Executor

namespace State

variable {s s' u u' : State} {l : Label} {ls : List Label} {evs : List ExecutorEvent}

/-- The steps of a tick, by whomever they are taken. -/
def ticking : Machine State Label := machine.restrict fun s _ => s.pc.inTick = true

/-- What a tick that began at `e` has done before its loops. -/
def Opens (e : Executor) (evs : List ExecutorEvent) (u : State) : Prop :=
  match u.pc with
  | .tickBegin => evs = [] ∧ u.exec.localQueue = e.localQueue ∧ u.exec.awoken = e.awoken
  | .wakeDeferred =>
    evs = [.tickBegin] ∧ u.exec.localQueue = e.localQueue ∧ u.exec.awoken = e.awoken
  | .popInjection =>
    ∃ accepted, evs = e.opening accepted ∧ u.exec.localQueue = e.openingQueue accepted
  | _ => False

/-- A tick that began at `e` has not come to its loops. -/
structure Opening (e : Executor) (evs : List ExecutorEvent) (u : State) : Prop where
  opens : Opens e evs u
  interval : u.exec.eventInterval = e.eventInterval
  /-- A task is out of the slab exactly while it is polled. -/
  pc_ok : PcOk u

/-- A tick that began at `e` comes to its loops at `u`. -/
structure Opened (e : Executor) (evs : List ExecutorEvent) (u : State) : Prop where
  pc_eq : u.pc = .pollLoop ⟨false, 0⟩
  opens : ∃ accepted, evs = e.opening accepted ++ [.popInjection none] ∧
    u.exec.localQueue = e.openingQueue accepted
  interval : u.exec.eventInterval = e.eventInterval
  /-- A task is out of the slab exactly while it is polled. -/
  pc_ok : PcOk u

/-- There, the loops have not done anything, and all of the queue is still owed. -/
theorem Opened.underway {e : Executor} (h : Opened e evs u) :
    Underway e.eventInterval u.exec.localQueue [] u where
  fits := by
    rw [h.pc_eq]
    exact ⟨rfl, rfl, Nat.zero_le _, fun hsecond => by cases hsecond⟩
  queue := by
    rw [Executor.runningId, not_running_of_pc h.pc_ok (by simp [h.pc_eq])]
    simp [enqueuedIds, polledIds]
  interval := h.interval
  pc_ok := h.pc_ok

/-- Before its loops, a tick runs no user code, so that nothing is woken and nobody yields. -/
theorem Opening.userCode {e : Executor} (h : Opening e evs u) : u.pc.userCode = false := by
  have hopens := h.opens
  rw [Opens] at hopens
  split at hopens
  · rename_i hpc
    rw [hpc]
    rfl
  · rename_i hpc
    rw [hpc]
    rfl
  · rename_i hpc
    rw [hpc]
    rfl
  · exact hopens.elim

/-- Somebody else does something, which a tick that is opening does not notice. -/
theorem Opening.quiet {e : Executor} (h : Opening e evs u) (hexec : u'.exec = u.exec)
    (hpc : u'.pc = u.pc) : u'.exec.log = u.exec.log ++ [] ∧ Opening e (evs ++ []) u' := by
  rw [List.append_nil, List.append_nil, hexec]
  refine ⟨rfl, ?_, hexec ▸ h.interval, ?_⟩
  · rw [Opens, hexec, hpc]
    exact h.opens
  · rw [PcOk, hexec, hpc]
    exact h.pc_ok

theorem Opening.budget {e : Executor} (h : Opening e evs u) :
    polledIds evs = [] ∧ parks evs = 0 ∧ u.pc ≠ .rootBegin ∧ ∀ c, u.pc ≠ .parkBegin c := by
  have hopens := h.opens
  rw [Opens] at hopens
  split at hopens
  · rename_i hpc
    rw [hopens.1, hpc]
    exact ⟨rfl, rfl, by simp, by simp⟩
  · rename_i hpc
    rw [hopens.1, hpc]
    exact ⟨rfl, rfl, by simp, by simp⟩
  · rename_i hpc
    obtain ⟨accepted, rfl, -⟩ := hopens
    have hpolls := e.polledIds_opening accepted
    have hparks := e.parks_opening accepted
    rw [polledIds_append] at hpolls
    rw [parks_append] at hparks
    rw [hpc]
    exact ⟨(List.append_eq_nil_iff.mp hpolls).1, (Nat.add_eq_zero_iff.mp hparks).1, by simp,
      by simp⟩
  · exact hopens.elim

theorem Opening.execStep {e : Executor} (h : Opening e evs u) (hstep : u.ExecStepped u') :
    ∃ evs', u'.exec.log = u.exec.log ++ evs' ∧
      (Opening e (evs ++ evs') u' ∨ Opened e (evs ++ evs') u') := by
  have hok := (execStep_act h.pc_ok hstep).1
  have hopens := h.opens
  rw [Opens] at hopens
  cases hstep with
  | tickBegin hpc =>
    rw [hpc] at hopens
    obtain ⟨rfl, hq, hawoken⟩ := hopens
    exact ⟨[.tickBegin], rfl, .inl ⟨⟨rfl, hq, hawoken⟩, h.interval, hok⟩⟩
  | wakeDeferred hpc =>
    rw [hpc] at hopens
    obtain ⟨rfl, hq, hawoken⟩ := hopens
    refine ⟨[.drain .deferred u.exec.awoken], rfl, .inl ⟨⟨[], ?_, ?_⟩, h.interval, hok⟩⟩
    · rw [hawoken]
      rfl
    · show u.exec.localQueue ++ u.exec.awoken = _
      rw [hq, hawoken, Executor.openingQueue, List.map_nil, List.append_nil]
  | popInjection hpc =>
    rw [hpc] at hopens
    obtain ⟨accepted, rfl, hq⟩ := hopens
    rw [State.popInjection] at hok ⊢
    rcases u.exec.popInjection_cases (u.shared.injection.head?.map Prod.fst) with
      ⟨-, heq⟩ | ⟨task, -, -, heq⟩
    · rw [heq] at hok ⊢
      exact ⟨[.popInjection none], rfl, .inr ⟨rfl, ⟨accepted, rfl, hq⟩, h.interval, hok⟩⟩
    · rw [heq] at hok ⊢
      refine ⟨[.popInjection (some task)], rfl,
        .inl ⟨⟨accepted ++ [task], ?_, ?_⟩, h.interval, hok⟩⟩
      · rw [Executor.opening, Executor.opening, List.map_append, List.append_assoc]
        rfl
      · dsimp only
        rw [hq, Executor.openingQueue, Executor.openingQueue, List.map_append,
          ← List.append_assoc]
        rfl
  | rootBegin hpc | tickEnd hpc | loopEnds _ hpc | loopPolls _ hpc | nextReactor _ hpc
  | nextCross _ hpc | nextPop _ hpc | nextInjection _ hpc | parkBegin _ hpc
  | parkCross _ _ _ hpc | parkWakes _ hpc | parkCrossAfter _ hpc =>
    rw [hpc] at hopens
    exact hopens.elim

/-- Before its loops, a tick drains the deferred queue and the injection queue. -/
theorem Opening.step {e : Executor} (h : Opening e evs u) (hstep : u.step l = some u') :
    ∃ evs', u'.exec.log = u.exec.log ++ evs' ∧
      (Opening e (evs ++ evs') u' ∨ Opened e (evs ++ evs') u') := by
  have huser := h.userCode
  have hquiet : u'.exec = u.exec → u'.pc = u.pc → ∃ evs', u'.exec.log = u.exec.log ++ evs' ∧
      (Opening e (evs ++ evs') u' ∨ Opened e (evs ++ evs') u') :=
    fun hexec hpc => ⟨[], (h.quiet hexec hpc).1, .inl (h.quiet hexec hpc).2⟩
  have hopens := h.opens
  rw [Opens] at hopens
  cases step_cases hstep with
  | exec _ hexec => exact h.execStep hexec
  | wake _ _ hcode | yield hcode =>
    rw [huser] at hcode
    cases hcode
  | rootReturns _ _ hpc | pollReturns _ _ hpc | blockOn _ hpc | osReturns _ hpc =>
    rw [hpc] at hopens
    exact hopens.elim
  | spawn | wakeForeign | call => exact hquiet rfl rfl

/-- A run of a tick has not come to the loops, or it has passed the state in which it came to
them. -/
theorem ticking_run_cases (hpc : s.pc = .tickBegin) (hidle : s.exec.running = none)
    (hrun : ticking.Run s ls u) :
    (∃ evs, u.exec.log = s.exec.log ++ evs ∧ Opening s.exec evs u) ∨
      ∃ before m after evs evs', ls = before ++ after ∧ ticking.Run s before m ∧
        ticking.Run m after u ∧ Opened s.exec evs m ∧ m.exec.log = s.exec.log ++ evs ∧
        u.exec.log = m.exec.log ++ evs' ∧
        Underway s.exec.eventInterval m.exec.localQueue evs' u := by
  induction hrun with
  | nil =>
    refine .inl ⟨[], (List.append_nil _).symm, ?_, rfl, ?_⟩
    · rw [Opens, hpc]
      exact ⟨rfl, rfl, rfl⟩
    · rw [PcOk, hidle, hpc]
      simp
  | @snoc as t u' a hrun hlast ih =>
    rcases ih with ⟨evs, hlog, hopening⟩ | ⟨before, m, after, evs, evs', rfl, hbefore, hafter,
      hopened, hlog, hlog', hunder⟩
    · obtain ⟨evs', hlog', hopening' | hopened⟩ := hopening.step hlast.1
      · exact .inl ⟨evs ++ evs', by rw [hlog', hlog, List.append_assoc], hopening'⟩
      · refine .inr ⟨as ++ [a], u', [], evs ++ evs', [], (List.append_nil _).symm, hrun.snoc hlast,
          .nil, hopened, by rw [hlog', hlog, List.append_assoc], (List.append_nil _).symm, ?_⟩
        exact hopened.underway
    · have hne : t.pc ≠ .rootBegin := by
        intro heq
        have htick : t.pc.inTick = true := hlast.2
        rw [heq] at htick
        cases htick
      obtain ⟨evs'', hlog'', hunder'⟩ := hunder.step hne hlast.1
      exact .inr ⟨before, m, after ++ [a], evs, evs' ++ evs'', List.append_assoc _ _ _, hbefore,
        hafter.snoc hlast, hopened, hlog, by rw [hlog'', hlog', List.append_assoc], hunder'⟩

end State

/-! ### Who has yielded -/

namespace Executor

variable {e e' : Executor} {act : Act}

/-- The deferred queue is taken over by one act only, at the beginning of a tick. -/
theorem Step.deferred (h : Step e act e') (hact : act ≠ .drainDeferred) :
    e.tls.deferred <+: e'.tls.deferred := by
  cases h with
  | wake source id =>
    rw [wake_tls, (Tls.pushed_pushReady _ source id).deferred_eq]
  | receive id =>
    show _ <+: (e.tls.pushReady .task id).deferred
    rw [(Tls.pushed_pushReady _ .task id).deferred_eq]
  | yield heq =>
    obtain ⟨id, -, rfl⟩ := deferCurrent_cases heq
    exact List.prefix_append _ _
  | drainDeferred => exact absurd rfl hact
  | popInjection raw =>
    rcases e.popInjection_cases raw with ⟨-, heq⟩ | ⟨task, -, -, heq⟩
    · rw [heq]
      exact List.prefix_rfl
    · rw [heq]
  | beginPoll hrun hq =>
    rename_i id rest
    rcases e.beginPoll_cases id rest with ⟨task, -, heq⟩ | ⟨-, heq⟩
    · rw [heq]
      exact List.prefix_rfl
    · rw [heq]
      exact List.prefix_rfl
  | endPoll ready hrun => cases ready <;> exact List.prefix_rfl
  | _ => exact List.prefix_rfl

end Executor

/-- The thread-locals, but for who has yielded and whether the root has. -/
def Tls.blind (tls : Tls) : Tls := { tls with deferred := [], blockOnYielded := false }

namespace Tls

theorem setNotified_blind (tls : Tls) (id : TaskId) :
    tls.blind.setNotified id = ((tls.setNotified id).1, (tls.setNotified id).2.blind) := by
  rw [setNotified, setNotified]
  split
  · rfl
  · dsimp only
    have hnotified : tls.blind.notified = tls.notified := rfl
    rw [hnotified]
    cases (tls.notified ++ List.replicate (id.toNat + 1 - tls.notified.length) false)[
      id.toNat]?.getD false <;> rfl

theorem pushReady_blind (tls : Tls) (source : WakeSource) (id : TaskId) :
    tls.blind.pushReady source id = (tls.pushReady source id).blind := by
  have hset := setNotified_blind tls id
  obtain ⟨b, w, heq⟩ : ∃ b w, tls.setNotified id = (b, w) := ⟨_, _, rfl⟩
  rw [heq] at hset
  cases source with
  | reactor =>
    simp only [pushReady, pushReactorReady]
    rw [hset, heq]
    cases b <;> rfl
  | task =>
    simp only [pushReady, pushTaskReady]
    rw [hset, heq]
    cases b <;> rfl

end Tls

namespace Executor

/-- An executor, but for who has yielded; the history forgets it too. -/
def blind (e : Executor) : Executor :=
  { e with
    tls := e.tls.blind
    history := { e.history with yielded := [] } }

variable {e e' : Executor}

theorem blind_deferCurrent (h : e.deferCurrent = some e') : e'.blind = e.blind := by
  obtain ⟨id, -, rfl⟩ := deferCurrent_cases h
  rfl

theorem wake_eq (e : Executor) (source : WakeSource) (id : TaskId) :
    e.wake source id = { e with
      tls := e.tls.pushReady source id
      history := { e.history with woken := id :: e.history.woken } } := by
  cases source <;> rfl

theorem blind_wake (e : Executor) (source : WakeSource) (id : TaskId) :
    (e.wake source id).blind = (e.blind.wake source id).blind := by
  have hpush := e.tls.pushReady_blind source id
  rw [wake_eq, wake_eq, blind, blind, blind]
  dsimp only
  rw [hpush]
  rfl

theorem blind_receiveCrossThread (e : Executor) (id : TaskId) :
    (e.receiveCrossThread id).blind = (e.blind.receiveCrossThread id).blind :=
  blind_wake e .task id

theorem blind_beginPoll (e : Executor) (id : TaskId) (rest : List TaskId) :
    (e.beginPoll id rest).blind = (e.blind.beginPoll id rest).blind := by
  rcases e.beginPoll_cases id rest with ⟨task, hget, heq⟩ | ⟨hget, heq⟩
  · rcases e.blind.beginPoll_cases id rest with ⟨task', hget', heq'⟩ | ⟨hget', -⟩
    · cases hget.symm.trans hget'
      rw [heq, heq']
      simp [blind, takeHead, Tls.blind, Tls.clearNotified]
    · cases hget.symm.trans hget'
  · rcases e.blind.beginPoll_cases id rest with ⟨task', hget', -⟩ | ⟨-, heq'⟩
    · cases hget.symm.trans hget'
    · rw [heq, heq']
      simp [blind, takeHead, Tls.blind, Tls.clearNotified]

theorem blind_popInjection (e : Executor) (raw : Option Task) :
    (e.popInjection raw).1 = (e.blind.popInjection raw).1 ∧
      (e.popInjection raw).2.blind = (e.blind.popInjection raw).2.blind := by
  cases raw with
  | none => exact ⟨rfl, rfl⟩
  | some task =>
    have hledger : e.blind.ledger = e.ledger := rfl
    simp only [popInjection, popInjectionAction]
    rw [hledger]
    cases e.ledger.contains task.id with
    | true => exact ⟨rfl, rfl⟩
    | false => exact ⟨rfl, rfl⟩

end Executor

/-- A location, but for what it knows about who has yielded. -/
def Pc.blind : Pc → Pc
  | .parkCross count _ hasReactorReady => .parkCross count false hasReactorReady
  | .parked count _ => .parked count 0
  | pc => pc

theorem Pc.blind_blind (pc : Pc) : pc.blind.blind = pc.blind := by
  cases pc <;> rfl

theorem Pc.userCode_blind (pc : Pc) : pc.blind.userCode = pc.userCode := by
  cases pc <;> rfl

namespace State

variable {s s' t : State} {l : Label} {ls : List Label}

/-- A state, but for who has yielded, at a location that does not know either. -/
def blind (s : State) : State := { s with exec := s.exec.blind, pc := s.pc.blind }

theorem blind_pollHead (s : State) (l : Loop) {empty : Pc} :
    (s.pollHead l empty).blind = (s.blind.pollHead l empty).blind := by
  have hq : s.blind.exec.localQueue = s.exec.localQueue := rfl
  rw [pollHead, pollHead, hq]
  cases s.exec.localQueue with
  | nil => rfl
  | cons id rest =>
    have hbegin := s.exec.blind_beginPoll id rest
    have hrun : (s.exec.beginPoll id rest).running = (s.exec.blind.beginPoll id rest).running := by
      change (s.exec.beginPoll id rest).blind.running = _
      rw [hbegin]
      rfl
    dsimp only [blind]
    rw [hrun, hbegin]

theorem blind_drainCross (s : State) {done done' : State → State}
    (hdone : (done s).blind = (done' s.blind).blind) :
    (s.drainCross done).blind = (s.blind.drainCross done').blind := by
  have hq : s.blind.shared = s.shared := rfl
  rw [drainCross, drainCross, hq]
  cases s.shared.crossQueue with
  | nil => exact hdone
  | cons x rest =>
    obtain ⟨id, k⟩ := x
    have hreceive := s.exec.blind_receiveCrossThread id
    dsimp only [blind]
    rw [hreceive, Pc.blind_blind]

theorem blind_popInjection (s : State) {accepted rejected : Pc} :
    (s.popInjection accepted rejected).blind = (s.blind.popInjection accepted rejected).blind := by
  have hshared : s.blind.shared = s.shared := rfl
  obtain ⟨hfst, hsnd⟩ :=
    s.exec.blind_popInjection (s.shared.injection.head?.map Prod.fst)
  rw [popInjection, popInjection, hshared]
  dsimp only [blind]
  rw [hfst, hsnd]

/-- A step of the executor's own looks at who has yielded in one place. -/
theorem map_blind_execStep (hpc : s.pc ≠ .wakeDeferred) :
    s.execStep.map blind = s.blind.execStep.map blind := by
  rw [execStep, execStep]
  have hn : s.blind.exec.eventInterval = s.exec.eventInterval := rfl
  cases hloc : s.pc with
  | wakeDeferred => exact absurd hloc hpc
  | pollLoop l =>
    have hblind : s.blind.pc = .pollLoop l := by rw [blind, hloc]; rfl
    rw [hblind]
    dsimp only
    rw [hn]
    split
    · rfl
    · exact congrArg some (s.blind_pollHead l)
  | nextPop l =>
    have hblind : s.blind.pc = .nextPop l := by rw [blind, hloc]; rfl
    rw [hblind]
    exact congrArg some (s.blind_pollHead l)
  | popInjection =>
    have hblind : s.blind.pc = .popInjection := by rw [blind, hloc]; rfl
    rw [hblind]
    exact congrArg some s.blind_popInjection
  | nextInjection l =>
    have hblind : s.blind.pc = .nextInjection l := by rw [blind, hloc]; rfl
    rw [hblind]
    exact congrArg some s.blind_popInjection
  | nextCross l =>
    have hblind : s.blind.pc = .nextCross l := by rw [blind, hloc]; rfl
    rw [hblind]
    exact congrArg some (s.blind_drainCross rfl)
  | parkCross c hd hr =>
    have hblind : s.blind.pc = .parkCross c false hr := by rw [blind, hloc]; rfl
    rw [hblind]
    exact congrArg some (s.blind_drainCross rfl)
  | parkCrossAfter c =>
    have hblind : s.blind.pc = .parkCrossAfter c := by rw [blind, hloc]; rfl
    rw [hblind]
    exact congrArg some (s.blind_drainCross rfl)
  | _ =>
    rw [blind, hloc]
    rfl

/-- **A step does not look at who has yielded**, but where the deferred queue is drained. -/
theorem map_blind_step (hl : l ≠ .yield) (hpc : s.pc ≠ .wakeDeferred) :
    (s.step l).map blind = (s.blind.step l).map blind := by
  have hshared : s.blind.shared = s.shared := rfl
  have huser : s.blind.pc.userCode = s.pc.userCode := s.pc.userCode_blind
  cases l with
  | exec =>
    simp only [step]
    rw [hshared]
    split
    · rfl
    · exact map_blind_execStep hpc
  | wake source id =>
    simp only [step]
    rw [hshared, huser]
    split
    · have hwake := s.exec.blind_wake source id
      simp only [Option.map_some, blind]
      rw [hwake, Pc.blind_blind]
    · rfl
  | yield => exact absurd rfl hl
  | futureReturns ready =>
    simp only [step]
    rw [hshared]
    split
    · rfl
    · rw [futureReturns, futureReturns]
      cases hloc : s.pc with
      | polling lp =>
        have hblind : s.blind.pc = .polling lp := by rw [blind, hloc]; rfl
        have hrun : s.blind.exec.running = s.exec.running := rfl
        rw [hblind]
        dsimp only
        rw [hrun]
        cases s.exec.running with
        | none => rfl
        | some r => cases ready <;> rfl
      | _ =>
        rw [blind, hloc]
        rfl
  | blockOn =>
    simp only [step]
    have hidle : s.blind.pc = .idle ↔ s.pc = .idle := by
      rw [blind]
      cases s.pc <;> simp [Pc.blind]
    rw [hshared]
    simp only [hidle]
    split
    · rfl
    · rfl
  | osReturns consumed =>
    simp only [step]
    cases hloc : s.pc with
    | _ =>
      rw [blind, hloc]
      rfl
  | spawn own future =>
    simp only [step]
    rw [hshared, huser]
    split
    · rfl
    · simp only [Option.map_some, blind, Pc.blind_blind]
      rfl
  | wakeForeign id =>
    simp only [step, Option.map_some, blind, Pc.blind_blind]
    rfl
  | call ticket =>
    simp only [step, hshared, Option.map_map]
    congr 1
    funext sh
    simp only [Function.comp, blind, Pc.blind_blind]
    rfl

/-- Yielding does not change what a state is but for who has yielded. -/
theorem blind_yield (h : s.step .yield = some t) : t.blind = s.blind := by
  cases step_cases h with
  | yield _ _ he =>
    simp only [blind]
    rw [Executor.blind_deferCurrent he]

/-- Two states of a tick that differ in who has yielded since its deferred tasks at most. -/
structure Alike (s t : State) : Prop where
  blind_eq : t.blind = s.blind
  eq_of_early : s.pc.early = true → t = s

theorem Alike.refl (s : State) : Alike s s := ⟨rfl, fun _ => rfl⟩

theorem early_blind (s : State) : s.blind.pc.early = s.pc.early := by
  rw [blind]
  cases s.pc <;> rfl

theorem inTick_blind (s : State) : s.blind.pc.inTick = s.pc.inTick := by
  rw [blind]
  cases s.pc <;> rfl

/-- User code runs after the deferred tasks only, so that no yield is early. -/
theorem early_of_userCode (htick : s.pc.inTick = true) (huser : s.pc.userCode = true) :
    s.pc.early = false := by
  cases hpc : s.pc with
  | root => rw [hpc] at htick; cases htick
  | tickBegin | wakeDeferred => rw [hpc] at huser; cases huser
  | _ => rfl

theorem pc_of_yield (h : s.step .yield = some t) :
    t.pc = s.pc ∧ s.pc.userCode = true ∧ ∃ id, s.exec.tls.currentTask = some id ∧
      t.exec.tls.deferred = s.exec.tls.deferred ++ [id] := by
  cases step_cases h with
  | yield huser _ he =>
    obtain ⟨id, hid, rfl⟩ := Executor.deferCurrent_cases he
    exact ⟨rfl, huser, id, hid, rfl⟩

/-- A tick does not come back to its deferred tasks. -/
theorem early_execStep (htick : s.pc.inTick = true) (hearly : s.pc.early = false)
    (hstep : s.ExecStepped s') : s'.pc.early = false := by
  cases hstep with
  | rootBegin hpc => rw [hpc] at htick; cases htick
  | tickBegin hpc | wakeDeferred hpc => rw [hpc] at hearly; cases hearly
  | popInjection =>
    exact (s.inLoop_popInjection (l := ⟨false, 0⟩) ⟨rfl, rfl, rfl⟩ ⟨rfl, rfl, rfl⟩).1
  | loopEnds lp => exact (inLoop_afterLoop lp).1
  | loopPolls | nextPop => exact (s.inLoop_pollHead ⟨rfl, rfl, rfl⟩).1
  | nextInjection lp => exact (s.inLoop_popInjection ⟨rfl, rfl, rfl⟩ (inLoop_afterLoop lp)).1
  | nextReactor | parkBegin | parkWakes | tickEnd => rfl
  | nextCross | parkCross | parkCrossAfter =>
    rw [drainCross]
    split
    · exact hearly
    · rfl

theorem early_step (htick : s.pc.inTick = true) (hearly : s.pc.early = false)
    (hstep : s.step l = some s') : s'.pc.early = false := by
  cases step_cases hstep with
  | exec _ hexec => exact early_execStep htick hearly hexec
  | rootReturns _ _ hpc => rw [hpc] at htick; cases htick
  | pollReturns | blockOn | osReturns => rfl
  | wake | yield | spawn | wakeForeign | call => exact hearly

theorem act_ne_drainDeferred (hearly : s.pc.early = false) : s.act l ≠ some .drainDeferred := by
  cases l with
  | exec =>
    rw [act, execAct]
    cases hpc : s.pc with
    | wakeDeferred => rw [hpc] at hearly; cases hearly
    | pollLoop l =>
      dsimp only
      split
      · simp
      · rw [headAct]
        split <;> simp
    | nextPop l =>
      dsimp only
      rw [headAct]
      split <;> simp
    | nextCross | parkCross | parkCrossAfter =>
      dsimp only
      rw [crossAct]
      split <;> simp
    | _ => simp
  | futureReturns ready =>
    rw [act]
    split <;> simp
  | _ => simp [act]

theorem pcOk_run (hok : PcOk s) (hrun : ticking.Run s ls t) : PcOk t := by
  induction hrun with
  | nil => exact hok
  | snoc _ hlast ih => exact (step_act ih hlast.1).1

/-- What has yielded is left in the deferred queue until the tick's end. -/
theorem deferred_run (hok : PcOk s) (hearly : s.pc.early = false) (hrun : ticking.Run s ls t) :
    s.exec.tls.deferred <+: t.exec.tls.deferred := by
  suffices t.pc.early = false ∧ s.exec.tls.deferred <+: t.exec.tls.deferred from this.2
  induction hrun with
  | nil => exact ⟨hearly, List.prefix_rfl⟩
  | @snoc as u t a hrun hlast ih =>
    obtain ⟨hearly, hprefix⟩ := ih
    obtain ⟨-, hperf⟩ := step_act (pcOk_run hok hrun) hlast.1
    refine ⟨early_step hlast.2 hearly hlast.1, hprefix.trans ?_⟩
    cases hact : u.act a with
    | none =>
      rw [hact] at hperf
      have heq : t.exec = u.exec := hperf
      rw [heq]
    | some act =>
      rw [hact] at hperf
      refine Executor.Step.deferred hperf ?_
      rintro rfl
      exact act_ne_drainDeferred hearly hact

theorem Alike.step (h : Alike s t) (htick : s.pc.inTick = true) (hl : l ≠ .yield)
    (hstep : s.step l = some s') : ∃ t', t.step l = some t' ∧ Alike s' t' := by
  cases hearly : s.pc.early with
  | true =>
    rw [h.eq_of_early hearly]
    exact ⟨s', hstep, .refl s'⟩
  | false =>
    have hpc : ∀ {u : State}, u.blind = s.blind → u.pc ≠ .wakeDeferred := by
      intro u hu heq
      rw [← early_blind, ← hu, early_blind, heq] at hearly
      cases hearly
    have hmap : (t.step l).map blind = (s.step l).map blind := by
      rw [map_blind_step hl (hpc h.blind_eq), map_blind_step hl (hpc rfl), h.blind_eq]
    rw [hstep] at hmap
    obtain ⟨t', ht', hblind⟩ := Option.map_eq_some_iff.mp hmap
    refine ⟨t', ht', hblind, fun hearly' => ?_⟩
    rw [early_step htick hearly hstep] at hearly'
    cases hearly'

/-- **Without the yields**, a tick does the same: the run exists, and its end is alike. -/
theorem exists_run_without_yield (hrun : ticking.Run s ls t) :
    ∃ t', ticking.Run s (ls.filter (· ≠ .yield)) t' ∧ Alike t t' := by
  induction hrun with
  | nil => exact ⟨s, .nil, .refl s⟩
  | @snoc as u t a hrun hlast ih =>
    obtain ⟨u', hrun', halike⟩ := ih
    rw [List.filter_append]
    by_cases ha : a = .yield
    · subst ha
      obtain ⟨hpc, huser, -⟩ := pc_of_yield hlast.1
      refine ⟨u', by simpa using hrun', halike.blind_eq.trans (blind_yield hlast.1).symm, ?_⟩
      intro hearly
      rw [hpc, early_of_userCode hlast.2 huser] at hearly
      cases hearly
    · obtain ⟨t', hstep', halike'⟩ := halike.step hlast.2 ha hlast.1
      refine ⟨t', ?_, halike'⟩
      have hone : [a].filter (· ≠ .yield) = [a] := by simp [ha]
      rw [hone]
      refine hrun'.snoc ⟨hstep', ?_⟩
      have htick : u.pc.inTick = true := hlast.2
      show u'.pc.inTick = true
      rwa [← inTick_blind, halike.blind_eq, inTick_blind]

/-! ### One tick -/

/-- What was in the queue first is polled first. -/
theorem Underway.take_prefix (h : Underway n q evs s) :
    (q.take n <+: polledIds evs ∨ polledIds evs <+: q.take n) ∧
      (min q.length n ≤ (polledIds evs).length → q.take n <+: polledIds evs) := by
  have hstarts := List.take_prefix n q
  have htake : q.take n <+: q ++ enqueuedIds evs := hstarts.trans (List.prefix_append _ _)
  have hpolled : polledIds evs <+: q ++ enqueuedIds evs := by
    rw [h.queue, List.append_assoc]
    exact List.prefix_append _ _
  have hcompare := List.prefix_or_prefix_of_prefix htake hpolled
  refine ⟨hcompare, fun hle => ?_⟩
  refine List.prefix_of_prefix_length_le htake hpolled ?_
  rw [List.length_take, Nat.min_comm]
  exact hle

/-- The budget, wherever the tick is, is not exceeded. -/
theorem Underway.budget (h : Underway n q evs s) :
    (polledIds evs).length ≤ n ∧ parks evs ≤ 1 ∧
      (s.pc = .rootBegin → parks evs = 1 ∧ min q.length n ≤ (polledIds evs).length) ∧
      ∀ count, s.pc = .parkBegin count → count = (polledIds evs).length ∧ parks evs = 0 ∧
        (count < n → s.exec.localQueue = [] ∧
          (drainedReady ++ [.popInjection none]) <:+ evs) := by
  have hspent : ∀ {l : Loop}, Spent n (min q.length n) evs l →
      (polledIds evs).length ≤ n ∧ parks evs ≤ 1 := fun hs =>
    ⟨hs.polls ▸ hs.le, hs.parks ▸ Bool.toNat_le _⟩
  have hfits := h.fits
  cases hpc : s.pc with
  | idle | root | tickBegin | wakeDeferred | popInjection =>
    rw [hpc] at hfits
    exact hfits.elim
  | pollLoop | parked | parkWakes | parkCrossAfter =>
    rw [hpc] at hfits
    exact ⟨(hspent hfits).1, (hspent hfits).2, by simp, by simp⟩
  | polling | nextReactor | nextCross | nextPop | nextInjection | parkCross =>
    rw [hpc] at hfits
    exact ⟨(hspent hfits.1).1, (hspent hfits.1).2, by simp, by simp⟩
  | parkBegin c =>
    rw [hpc] at hfits
    refine ⟨(hspent hfits.1).1, (hspent hfits.1).2, by simp, ?_⟩
    rintro _ ⟨⟩
    exact ⟨hfits.1.polls.symm, hfits.1.parks, hfits.2⟩
  | tickEnd | rootBegin =>
    rw [hpc] at hfits
    exact ⟨hfits.1, Nat.le_of_eq hfits.2.2, fun _ => ⟨hfits.2.2, hfits.2.1⟩, by simp⟩

/-- **One tick.** Whatever state a tick begins in, and whatever happens in it: it polls no more than
its budget and, by the time it returns, has parked once. Its first loop ends before the budget is
spent only if the local queue is empty, neither ready queue had anything for it, and no task was
accepted. Once the deferred queue and the injection queue have been drained, what is then in the
local queue is polled first, in order and as far as the budget goes. What yields stays in the
deferred queue, and the polls are those of the same run without the yields. -/
theorem ticking_run (hpc : s.pc = .tickBegin) (hidle : s.exec.running = none)
    (hrun : ticking.Run s ls t) :
    ∃ evs, t.exec.log = s.exec.log ++ evs ∧
      (polledIds evs).length ≤ s.exec.eventInterval ∧ parks evs ≤ 1 ∧
      (t.pc = .rootBegin → parks evs = 1) ∧
      (∀ count, t.pc = .parkBegin count → count = (polledIds evs).length ∧ parks evs = 0 ∧
        (count < s.exec.eventInterval → t.exec.localQueue = [] ∧
          [.drain .reactorWake [], .drain .taskWake [], .popInjection none] <:+ evs)) ∧
      (polledIds evs = [] ∧ t.pc ≠ .rootBegin ∨
        ∃ before m after accepted, ls = before ++ after ∧ ticking.Run s before m ∧
          ticking.Run m after t ∧ m.pc = .pollLoop ⟨false, 0⟩ ∧
          m.exec.log = s.exec.log ++ (s.exec.opening accepted ++ [.popInjection none]) ∧
          m.exec.localQueue = s.exec.openingQueue accepted ∧
          (m.exec.localQueue.take s.exec.eventInterval <+: polledIds evs ∨
            polledIds evs <+: m.exec.localQueue.take s.exec.eventInterval) ∧
          (t.pc = .rootBegin →
            m.exec.localQueue.take s.exec.eventInterval <+: polledIds evs)) ∧
      (∀ before u v after, ls = before ++ .yield :: after → ticking.Run s before u →
        ticking.step u .yield v → ticking.Run v after t →
        ∃ id, u.exec.tls.currentTask = some id ∧
          u.exec.tls.deferred ++ [id] <+: t.exec.tls.deferred) ∧
      ∃ t', ticking.Run s (ls.filter (· ≠ .yield)) t' ∧ t'.exec.log = t.exec.log ∧
        t'.exec.localQueue = t.exec.localQueue := by
  have hok : PcOk s := by
    rw [PcOk, hidle, hpc]
    simp
  have hyield : ∀ before u v after, ls = before ++ .yield :: after → ticking.Run s before u →
      ticking.step u .yield v → ticking.Run v after t →
      ∃ id, u.exec.tls.currentTask = some id ∧
        u.exec.tls.deferred ++ [id] <+: t.exec.tls.deferred := by
    intro before u v after _ hbefore hstep hafter
    obtain ⟨hpc', huser, id, hid, hdeferred⟩ := pc_of_yield hstep.1
    have hearly : v.pc.early = false := by
      rw [hpc']
      exact early_of_userCode hstep.2 huser
    have hv : PcOk v := (step_act (pcOk_run hok hbefore) hstep.1).1
    exact ⟨id, hid, hdeferred ▸ deferred_run hv hearly hafter⟩
  have hwithout : ∃ t', ticking.Run s (ls.filter (· ≠ .yield)) t' ∧ t'.exec.log = t.exec.log ∧
      t'.exec.localQueue = t.exec.localQueue := by
    obtain ⟨t', hrun', halike⟩ := exists_run_without_yield hrun
    have hexec : t'.exec.blind = t.exec.blind := congrArg State.exec halike.blind_eq
    have hlog : t'.exec.blind.log = t.exec.blind.log := congrArg Executor.log hexec
    have hqueue : t'.exec.blind.localQueue = t.exec.blind.localQueue :=
      congrArg Executor.localQueue hexec
    exact ⟨t', hrun', hlog, hqueue⟩
  rcases ticking_run_cases hpc hidle hrun with ⟨evs, hlog, hopening⟩ | ⟨before, m, after, evs, evs',
    hls, hbefore, hafter, hopened, hlog, hlog', hunder⟩
  · obtain ⟨hpolls, hparks, hroot, hbegin⟩ := hopening.budget
    refine ⟨evs, hlog, ?_, ?_, fun h => absurd h hroot, fun c h => absurd h (hbegin c),
      .inl ⟨hpolls, hroot⟩, hyield, hwithout⟩
    · rw [hpolls]
      exact Nat.zero_le _
    · rw [hparks]
      exact Nat.zero_le _
  · obtain ⟨accepted, rfl, hq⟩ := hopened.opens
    obtain ⟨hbudget, hparks, hroot, hbegin⟩ := hunder.budget
    obtain ⟨hstarts, henough⟩ := hunder.take_prefix
    have hpolls : polledIds (s.exec.opening accepted ++ [.popInjection none] ++ evs') =
        polledIds evs' := by
      rw [polledIds_append, Executor.polledIds_opening, List.nil_append]
    have hcount : parks (s.exec.opening accepted ++ [.popInjection none] ++ evs') =
        parks evs' := by
      rw [parks_append, Executor.parks_opening, Nat.zero_add]
    refine ⟨s.exec.opening accepted ++ [.popInjection none] ++ evs', ?_, ?_⟩
    · rw [hlog', hlog, List.append_assoc]
    · rw [hpolls, hcount]
      refine ⟨hbudget, hparks, fun h => (hroot h).1, fun c h => ?_, .inr ⟨before, m, after,
        accepted, hls, hbefore, hafter, hopened.pc_eq, hlog, hq, hstarts,
        fun h => henough (hroot h).2⟩, hyield, hwithout⟩
      obtain ⟨hcountc, hnone, hstop⟩ := hbegin c h
      refine ⟨hcountc, hnone, fun hlt => ⟨(hstop hlt).1, ?_⟩⟩
      exact (hstop hlt).2.trans (List.suffix_append _ _)

/-- A runtime at the start of a tick that may make one poll, with one task queued. -/
def queuedOnce : State where
  exec := { Executor.new 1 .new with
    localQueue := [1]
    taskSlab := Slab.new.insert 1 ⟨1, 0⟩
    ledger := TidLedger.new.mark 1 }
  pc := .tickBegin
  shared := .new

/-- The task yields, which spends the budget; the next tick polls it again. -/
theorem ticking_run_queuedOnce : ∃ (t : State) (evs : List ExecutorEvent), t.pc = .rootBegin ∧
    t.exec.log = queuedOnce.exec.log ++ evs ∧ (polledIds evs).length ≤ 1 ∧ parks evs = 1 ∧
    t.exec.tls.deferred = [1] := by
  obtain ⟨t, hfollow, hpc, hdeferred⟩ : ∃ t : State, Machine.follow
      (fun s l => if s.pc.inTick = true then s.step l else none)
      [.exec, .exec, .exec, .exec, .yield, .futureReturns false, .exec, .exec, .exec,
        .osReturns false, .exec, .exec, .exec, .exec] queuedOnce = some t ∧ t.pc = .rootBegin ∧
      t.exec.tls.deferred = [1] :=
    ⟨_, rfl, rfl, rfl⟩
  have hrun : ticking.Run queuedOnce _ t := .of_follow_restrict hfollow
  obtain ⟨evs, hlog, hpolls, -, hparks, -⟩ := ticking_run rfl rfl hrun
  exact ⟨t, evs, hpc, hlog, hpolls, hparks hpc, hdeferred⟩

end State

end Lion
