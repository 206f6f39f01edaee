import Lion.Executor.Acts

/-!
# First in, first out

The local queue is a function of the log: an accepted task is appended, the ids that a drain keeps
are appended in order, and a poll drops the head. Whatever futures, wakers and spawners do, the
queue the executor works on is the one replayed from its log, and what it polls is the head of it.

## Why replay

That a queue is first in first out is usually said of the order in which things leave it. Here the
same id may be in the queue several times, so that "this wake before that one" does not say which
polls are meant. The replay does: every entry has its place, and `PollsHead` says of each poll in
the log that it was of the entry in front. The order of polls is then no more than the order in
which the log says that entries were appended.

A poll is logged when it ends. While a task runs, the queue is one entry ahead of the log, and the
poll in progress is counted as an event of its own (`Executor.events`).

## Main results

* `State.reachable_fifo` — the local queue is the replayed queue, and polls are of its head
-/

namespace Lion

/-- What an event does to the queue: it appends ids, drops the head, or does nothing. -/
def replayEvent (q : List TaskId) : ExecutorEvent → List TaskId
  | .popInjection (some task) => q ++ [task.id]
  | .drain _ ids => q ++ ids
  | .pollTask _ _ _ => q.tail
  | .popInjection none | .tickBegin | .tickEnd | .park => q

/-- The queue that a log leads to, from an empty one. -/
def replay (log : List ExecutorEvent) : List TaskId := log.foldl replayEvent []

@[simp] theorem replay_snoc (log : List ExecutorEvent) (ev : ExecutorEvent) :
    replay (log ++ [ev]) = replayEvent (replay log) ev := by
  simp [replay]

/-- Every poll in the log is of the head of the queue replayed up to it. -/
def PollsHead (log : List ExecutorEvent) : Prop :=
  ∀ before id task result after, log = before ++ .pollTask id task result :: after →
    (replay before).head? = some id

theorem pollsHead_nil : PollsHead [] := by
  intro before id task result after h
  simp at h

theorem PollsHead.snoc {log : List ExecutorEvent} {ev : ExecutorEvent} (h : PollsHead log)
    (hev : ∀ id task result, ev = .pollTask id task result → (replay log).head? = some id) :
    PollsHead (log ++ [ev]) := by
  intro before id task result after heq
  rcases List.eq_nil_or_concat after with rfl | ⟨after, last, rfl⟩
  · obtain ⟨rfl, hlast⟩ := List.append_inj' heq rfl
    cases hlast
    exact hev id task result rfl
  · rw [List.concat_eq_append, ← List.cons_append, ← List.append_assoc] at heq
    obtain ⟨rfl, -⟩ := List.append_inj' heq rfl
    exact h before id task result after rfl

namespace Executor

variable {e e' : Executor} {act : Act}

/-- The events so far. A poll is logged when it ends, so one in progress is added to the log. -/
def events (e : Executor) : List ExecutorEvent :=
  e.log ++ e.running.toList.map fun (id, task) => .pollTask id (some task) .pending

/-- The replayed queue is the local queue, behind the id that is being polled. -/
structure Fifo (e : Executor) : Prop where
  queue : replay e.log = (e.running.map Prod.fst).toList ++ e.localQueue
  /-- So far, polls were of the head, including those that found no task. -/
  polls : PollsHead e.log

theorem fifo_new (n : ℕ) (tls : Tls) : Fifo (.new n tls) := ⟨rfl, pollsHead_nil⟩

/-- An act that logs nothing and does not touch the queue. -/
theorem Fifo.congr (h : Fifo e) (hlog : e'.log = e.log) (hrun : e'.running = e.running)
    (hq : e'.localQueue = e.localQueue) : Fifo e' := by
  constructor
  · rw [hlog, hrun, hq]
    exact h.queue
  · rw [hlog]
    exact h.polls

/-- An act that logs one event, which is no poll, and does to the queue what the event says. -/
theorem Fifo.logged (h : Fifo e) {ev : ExecutorEvent} {ids : List TaskId}
    (hlog : e'.log = e.log ++ [ev]) (hrun : e'.running = e.running)
    (hq : e'.localQueue = e.localQueue ++ ids) (hev : ∀ q, replayEvent q ev = q ++ ids)
    (hpoll : ∀ id task result, ev ≠ .pollTask id task result) : Fifo e' := by
  constructor
  · rw [hlog, replay_snoc, hev, h.queue, hrun, hq, List.append_assoc]
  · rw [hlog]
    exact h.polls.snoc fun id task result heq => absurd heq (hpoll id task result)

theorem Fifo.beginPoll (h : Fifo e) {id : TaskId} {rest : List TaskId} (hrun : e.running = none)
    (hq : e.localQueue = id :: rest) : Fifo (e.beginPoll id rest) := by
  have hreplay : replay e.log = id :: rest := by
    rw [h.queue, hrun, hq]
    rfl
  rcases e.beginPoll_cases id rest with ⟨task, -, heq⟩ | ⟨-, heq⟩
  · rw [heq]
    exact ⟨hreplay, h.polls⟩
  · rw [heq]
    constructor
    · rw [replay_snoc, hreplay]
      simp [replayEvent, takeHead, hrun]
    · refine h.polls.snoc ?_
      rintro _ _ _ ⟨⟩
      rw [hreplay]
      rfl

theorem Fifo.endPoll (h : Fifo e) {id : TaskId} {task : Task} (ready : Bool)
    (hrun : e.running = some (id, task)) : Fifo (e.endPoll id task ready) := by
  have hreplay : replay e.log = id :: e.localQueue := by
    rw [h.queue, hrun]
    rfl
  obtain ⟨result, hlog⟩ : ∃ result,
      (e.endPoll id task ready).log = e.log ++ [.pollTask id (some task) result] := by
    cases ready with
    | false => exact ⟨.pending, rfl⟩
    | true => exact ⟨.ready, rfl⟩
  have hframe : (e.endPoll id task ready).running = none ∧
      (e.endPoll id task ready).localQueue = e.localQueue := by
    cases ready <;> exact ⟨rfl, rfl⟩
  constructor
  · rw [hlog, replay_snoc, hreplay, hframe.1, hframe.2]
    rfl
  · rw [hlog]
    refine h.polls.snoc ?_
    rintro _ _ _ ⟨⟩
    rw [hreplay]
    rfl

/-- One step of the executor, whatever the act. -/
theorem Fifo.step (h : Fifo e) (hstep : Step e act e') : Fifo e' := by
  cases hstep with
  | wake source id => exact h.congr rfl rfl rfl
  | receive id => exact h.congr rfl rfl rfl
  | yield heq =>
    obtain ⟨id, -, rfl⟩ := deferCurrent_cases heq
    exact h.congr rfl rfl rfl
  | drainReactor => exact h.logged rfl rfl rfl (fun _ => rfl) (by simp)
  | drainTask => exact h.logged rfl rfl rfl (fun _ => rfl) (by simp)
  | drainDeferred => exact h.logged rfl rfl rfl (fun _ => rfl) (by simp)
  | popInjection raw =>
    rcases e.popInjection_cases raw with ⟨-, heq⟩ | ⟨task, -, -, heq⟩
    · rw [heq]
      exact h.logged rfl rfl (List.append_nil _).symm (fun q => (List.append_nil q).symm) (by simp)
    · rw [heq]
      exact h.logged rfl rfl rfl (fun _ => rfl) (by simp)
  | beginPoll hrun hq => exact h.beginPoll hrun hq
  | endPoll ready hrun => exact h.endPoll ready hrun
  | decide hd hr =>
    exact h.logged rfl rfl (List.append_nil _).symm (fun q => (List.append_nil q).symm) (by simp)
  | tickBegin =>
    exact h.logged rfl rfl (List.append_nil _).symm (fun q => (List.append_nil q).symm) (by simp)
  | tickEnd =>
    exact h.logged rfl rfl (List.append_nil _).symm (fun q => (List.append_nil q).symm) (by simp)
  | setCurrent id => exact h.congr rfl rfl rfl

/-- What the invariant says once a poll in progress counts as an event. -/
theorem Fifo.events (h : Fifo e) : e.localQueue = replay e.events ∧ PollsHead e.events := by
  rw [Executor.events]
  cases hrun : e.running with
  | none =>
    have hq := h.queue
    rw [hrun] at hq
    simpa using And.intro hq.symm h.polls
  | some r =>
    obtain ⟨id, task⟩ := r
    have hq : replay e.log = id :: e.localQueue := by
      rw [h.queue, hrun]
      rfl
    constructor
    · simp [replayEvent, hq]
    · refine h.polls.snoc ?_
      rintro _ _ _ ⟨⟩
      rw [hq]
      rfl

end Executor

namespace State

/-- **First in, first out.** In every run, the local queue is the one replayed from the events so
far, and every poll, also one in progress, is of the head of the queue at that moment. -/
theorem reachable_fifo {s : State} (h : machine.Reachable s) :
    s.exec.localQueue = replay s.exec.events ∧ PollsHead s.exec.events :=
  (reachable_exec h Executor.fifo_new fun _ _ _ he hstep => he.step hstep).events

/-- A task is spawned, accepted, and being polled. -/
theorem reachable_fifo_polling : ∃ s, machine.Reachable s ∧ s.exec.running ≠ none ∧
    s.exec.localQueue = replay s.exec.events ∧ PollsHead s.exec.events := by
  have hstart : machine.Reachable (new 61 .new) :=
    .of_init ⟨61, .new, by decide, rfl, rfl⟩
  obtain ⟨s, hfollow, hrun⟩ : ∃ s, Machine.follow step
      [.spawn false 0, .call 0, .blockOn, .exec, .futureReturns false, .exec, .exec, .exec, .exec,
        .exec] (new 61 .new) = some s ∧ s.exec.running ≠ none :=
    ⟨_, rfl, by decide⟩
  have hreach := hstart.follow hfollow
  exact ⟨s, hreach, hrun, reachable_fifo hreach⟩

end State

end Lion
