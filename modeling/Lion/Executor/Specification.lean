import Lion.Executor.Service
import Lion.Executor.Fifo
import Lion.Executor.Polling
import Lion.Library.Trace

/-!
# The specification of the executor's log

`lion-executor-spec` says what an executor does by saying what its log looks like: seven properties
of single events in view of the log before them, and two that something follows. They are stated
here as they are there, as instances of the two templates, and proved of every log of the runtime,
with futures, wakers, other threads and the operating system doing as they please.

What a tick must have done by its end is a matter of its program counter: a location has a `stage`,
and a tick comes to a stage only by the event that marks it.

## From where each of them follows

Three of the properties are other results in the words of the source. That polls are of the first in
the queue is `reachable_fifo`, where the queue of the source removes the first occurrence of what is
polled, which is the head (`fifoQueue_eq_replay`). That polls are valid is `injecting_polling`. That
something is polled if something can be is the server's, as a round that began with somebody waiting
serves somebody. The other six are about the order of events within a tick, and follow from its
stages (`milestones_of_reachable`).

The two that look ahead are claimed only of logs that end between ticks. In the middle of a tick the
answer may still be to come.

## Conventions

Positions in a log are written as splits of it. `pollWithinTick` is stronger here than in the source
in that the tick must not have ended either.

## Main definitions

* `Specification` — the seven properties that look back
* `Progress` — the two that look ahead

## Main results

* `State.milestones_of_reachable` — what a tick has done by a stage
* `State.reachable_specification` — the log meets its specification
-/

namespace Lion

open Trace

/-! ### The properties -/

/-- `fifo_queue_at`: a poll removes the first occurrence of its id. -/
def fifoQueue (log : List ExecutorEvent) : List TaskId :=
  log.foldl (fun q ev =>
    match ev with
    | .popInjection (some task) => q ++ [task.id]
    | .drain _ ids => q ++ ids
    | .pollTask id _ _ => q.erase id
    | .popInjection none | .tickBegin | .tickEnd | .park => q) []

/-- A task was taken from the injection queue, or looked for. -/
def ExecutorEvent.Pops (ev : ExecutorEvent) : Prop := ∃ task, ev = .popInjection task

/-- A task was polled, or an id for which there was none. -/
def ExecutorEvent.Polls (ev : ExecutorEvent) : Prop :=
  ∃ id task result, ev = .pollTask id task result

/-- `fifo_task_selection`: what is polled is the first in the queue that the log leads to. -/
def fifoTaskSelection : ActionSafety ExecutorEvent where
  acceptance _ ev := ev.Polls
  validity before ev := (fifoQueue before).head? = ev.polled

/-- `valid_task_polling`: a poll is of a task that was accepted and is not done, or invalid. -/
def validTaskPolling : ActionSafety ExecutorEvent where
  acceptance _ ev := ev.Polls
  validity before ev := ∀ id task result, ev = .pollTask id task result →
    AcceptedIn before id ∧
      (result = .invalid ↔ FinishedIn before id ∨ ¬ AcceptedIn before id)

/-- `poll_within_tick`: a poll is made after a tick has begun, and before it has ended. -/
def pollWithinTick : ActionSafety ExecutorEvent where
  acceptance _ ev := ev.Polls
  validity before _ := Since (· = .tickBegin) ExecutorEvent.Bounds before

/-- `tick_has_park` and its kin: by its end, a tick has seen an event that `p`. -/
def tickHas (p : ExecutorEvent → Prop) : ActionSafety ExecutorEvent where
  acceptance _ ev := ev = .tickEnd
  validity before _ := Since p (· = .tickBegin) before

/-- `tick_has_park`: a tick that ends has parked the reactor. -/
def tickHasPark : ActionSafety ExecutorEvent := tickHas (· = .park)

/-- `tick_has_pop_injection`: a tick that ends has looked at the injection queue. -/
def tickHasPopInjection : ActionSafety ExecutorEvent := tickHas ExecutorEvent.Pops

/-- `tick_has_drain_deferred`: a tick that ends has drained the deferred queue. -/
def tickHasDrainDeferred : ActionSafety ExecutorEvent := tickHas (ExecutorEvent.Drains .deferred)

/-- `tick_has_drain_task_wake`: a tick that ends has drained the task-ready queue. -/
def tickHasDrainTaskWake : ActionSafety ExecutorEvent := tickHas (ExecutorEvent.Drains .taskWake)

/-- `park_drain_reactor_wake`: after a park, the reactor-ready queue is drained before the tick
ends. -/
def parkDrainReactorWake : LocalLiveness ExecutorEvent where
  acceptance _ ev := ev = .park
  fulfillment := ExecutorEvent.Drains .reactorWake
  deadline := (· = .tickEnd)

/-- `tick_polls_if_runnable`: a tick that begins with something to poll polls before it ends. -/
def tickPollsIfRunnable : LocalLiveness ExecutorEvent where
  acceptance before ev := ev = .tickBegin ∧ fifoQueue before ≠ []
  fulfillment := ExecutorEvent.Polls
  deadline := (· = .tickEnd)

/-- The properties that look back, of every event of the log. -/
structure Specification (log : List ExecutorEvent) : Prop where
  fifo_task_selection : fifoTaskSelection.Satisfied log
  valid_task_polling : validTaskPolling.Satisfied log
  poll_within_tick : pollWithinTick.Satisfied log
  tick_has_park : tickHasPark.Satisfied log
  tick_has_pop_injection : tickHasPopInjection.Satisfied log
  tick_has_drain_deferred : tickHasDrainDeferred.Satisfied log
  tick_has_drain_task_wake : tickHasDrainTaskWake.Satisfied log

/-- The properties that look ahead, of logs that end between ticks. -/
structure Progress (log : List ExecutorEvent) : Prop where
  park_drain_reactor_wake : parkDrainReactorWake.Satisfied log
  tick_polls_if_runnable : tickPollsIfRunnable.Satisfied log

/-! ### The queue of a log -/

/-- Where polls are of the head, the first occurrence is the head. -/
theorem fifoQueue_eq_replay {log : List ExecutorEvent} (h : PollsHead log) :
    fifoQueue log = replay log := by
  induction log using List.reverseRecOn with
  | nil => rfl
  | append_singleton log ev ih =>
    have hbefore : PollsHead log := by
      intro before id task result after heq
      exact h before id task result (after ++ [ev]) (by simp [heq])
    have hqueue := ih hbefore
    rw [fifoQueue, List.foldl_append, ← fifoQueue, hqueue, replay_snoc]
    cases ev with
    | pollTask id task result =>
      have hhead := h log id task result [] rfl
      obtain ⟨q, hq⟩ : ∃ q, replay log = id :: q := List.head?_eq_some_iff.mp hhead
      simp [hq, replayEvent]
    | popInjection task => cases task <;> rfl
    | _ => rfl

/-! ### Stages -/

/-- What undoes a stage: another tick, and from the drains after the park on also another park. -/
def stageCut (j : ℕ) (ev : ExecutorEvent) : Prop := ev.Bounds ∨ 5 ≤ j ∧ ev = .park

/-- A tick whose log is `log` has come to stage `j`. -/
def Staged (j : ℕ) (log : List ExecutorEvent) : Prop :=
  ∀ k, 1 ≤ k → k ≤ j → Since (Milestone k) (stageCut k) log

section Stages

variable {j j' : ℕ} {log evs : List ExecutorEvent}

theorem staged_zero (log : List ExecutorEvent) : Staged 0 log := by
  intro k hk hle
  omega

/-- One more stage, or none, according to what was logged. -/
theorem Staged.marked (h : Staged j log) (hmark : Marked j j' evs) (hj : j ≤ 6) :
    Staged j' (log ++ evs) := by
  cases hmark with
  | nothing =>
    rw [List.append_nil]
    exact h
  | plain hne hbounds hpark =>
    intro k hk hle
    refine (h k hk hle).snoc_of_not ?_
    rintro (hb | ⟨-, hp⟩)
    · exact hbounds hb
    · exact hpark hp
  | @next j ev hev =>
    intro k hk hle
    rcases Nat.lt_or_ge j k with hlt | hge
    · obtain rfl : k = j + 1 := by omega
      exact Since.snoc_of_mem hev
    · refine (h k hk hge).snoc_of_not ?_
      rintro (hb | ⟨hfive, rfl⟩)
      · exact hev.not_bounds (by omega) hb
      · -- the park is what makes stage four
        match j, hev with
        | 0, hev | 2, hev => cases hev
        | 1, hev | 4, hev | 5, hev => exact nomatch hev.choose_spec
        | 3, _ => omega
  | last => exact staged_zero _

end Stages

namespace State

variable {s s' t : State} {l : Label} {ls : List Label}

theorem stage_le (pc : Pc) : pc.stage ≤ 6 := by
  cases pc with
  | pollLoop l | nextReactor l | nextCross l | nextPop l | nextInjection l | polling l =>
    rw [Pc.stage]
    split <;> simp
  | _ => simp [Pc.stage]

/-- **Stages.** By any stage, the tick has logged what marks the stages up to it. -/
theorem milestones_of_reachable (h : machine.Reachable s) : Staged s.pc.stage s.exec.log := by
  suffices PcOk s ∧ Staged s.pc.stage s.exec.log from this.2
  refine h.invariant (I := fun s => PcOk s ∧ Staged s.pc.stage s.exec.log) ?_ ?_
  · rintro s ⟨n, tls, _, _, rfl⟩
    exact ⟨pcOk_new n tls, staged_zero _⟩
  · rintro s l s' ⟨hok, hstaged⟩ hstep
    obtain ⟨evs, hlog, hmark⟩ := logged_step hok hstep
    refine ⟨(step_act hok hstep).1, ?_⟩
    rw [hlog.log]
    exact hstaged.marked hmark (stage_le _)

/-- A tick may make at least one poll, as a budget is never zero. -/
theorem one_le_interval (h : machine.Reachable s) : 1 ≤ s.exec.eventInterval := by
  suffices PcOk s ∧ 1 ≤ s.exec.eventInterval from this.2
  refine h.invariant (I := fun s => PcOk s ∧ 1 ≤ s.exec.eventInterval) ?_ ?_
  · rintro s ⟨n, tls, hn, _, rfl⟩
    exact ⟨pcOk_new n tls, hn⟩
  · rintro s l s' ⟨hok, hn⟩ hstep
    obtain ⟨evs, hlog, -⟩ := logged_step hok hstep
    exact ⟨(step_act hok hstep).1, hlog.interval ▸ hn⟩

/-! ### The properties that look back -/

/-- At its end, a tick has come through all stages. -/
def ticksDone : ActionSafety ExecutorEvent where
  acceptance _ ev := ev = .tickEnd
  validity before _ := Staged 6 before

/-- A poll is logged inside of a tick, where there is a stage. -/
theorem stage_ne_zero_of_polls {j j' : ℕ} {ev : ExecutorEvent} (h : Marked j j' [ev])
    (hev : ev.Polls) : j ≠ 0 := by
  obtain ⟨id, task, result, rfl⟩ := hev
  cases h with
  | plain hj => exact hj
  | @next j _ hev =>
    match j, hev with
    | 0, hev | 2, hev | 3, hev => cases hev
    | 1, hev | 4, hev | 5, hev => exact nomatch hev.choose_spec

/-- The end of a tick is logged when everything is done. -/
theorem stage_eq_six_of_tickEnd {j j' : ℕ} (h : Marked j j' [.tickEnd]) : j = 6 := by
  cases h with
  | plain _ hbounds => exact absurd (.inr rfl) hbounds
  | @next j _ hev =>
    match j, hev with
    | 0, hev | 2, hev | 3, hev => cases hev
    | 1, hev | 4, hev | 5, hev => exact nomatch hev.choose_spec
  | last => rfl

theorem fifo_of_reachable (h : machine.Reachable s) : s.exec.Fifo :=
  reachable_exec h Executor.fifo_new fun _ _ _ he hstep => he.step hstep

theorem validPolling_of_reachable (h : machine.Reachable s) :
    s.exec.LedgerOk ∧ s.exec.ValidPolling :=
  reachable_exec (I := fun e => e.LedgerOk ∧ e.ValidPolling) h
    (fun n tls => ⟨Executor.ledgerOk_new n tls, Executor.validPolling_new n tls⟩)
    fun _ _ _ he hstep => ⟨he.1.step hstep, he.2.step he.1 hstep⟩

/-- What is safe of single steps is safe of logs. -/
theorem satisfied_of_reachable {P : ActionSafety ExecutorEvent} (h : machine.Reachable s)
    (hstep : ∀ s l s' ev, machine.Reachable s → s.step l = some s' →
      s'.exec.log = s.exec.log ++ [ev] → Marked s.pc.stage s'.pc.stage [ev] →
      P.acceptance s.exec.log ev → P.validity s.exec.log ev) : P.Satisfied s.exec.log := by
  suffices machine.Reachable s ∧ P.Satisfied s.exec.log from this.2
  refine h.invariant (I := fun s => machine.Reachable s ∧ P.Satisfied s.exec.log) ?_ ?_
  · rintro s ⟨n, tls, hn, hidle, rfl⟩
    exact ⟨.of_init ⟨n, tls, hn, hidle, rfl⟩, ActionSafety.satisfied_nil⟩
  · rintro s l s' ⟨hs, hsat⟩ hnext
    refine ⟨hs.step hnext, ?_⟩
    obtain ⟨evs, hlog, hmark⟩ := logged_step (pcOk_of_reachable hs) hnext
    rw [hlog.log]
    rcases hmark.eq_nil_or_singleton with rfl | ⟨ev, rfl⟩
    · rw [List.append_nil]
      exact hsat
    · exact hsat.snoc (hstep s l s' ev hs hnext hlog.log hmark)

theorem ticksDone_of_reachable (h : machine.Reachable s) : ticksDone.Satisfied s.exec.log := by
  refine satisfied_of_reachable h ?_
  rintro s l s' ev hs - - hmark rfl
  have hstaged := milestones_of_reachable hs
  rwa [stage_eq_six_of_tickEnd hmark] at hstaged

/-- A tick that has come through all stages has done what marks the stage `k`. -/
theorem tickHas_of_ticksDone {log : List ExecutorEvent} (h : ticksDone.Satisfied log) {k : ℕ}
    (hk : 1 ≤ k) (hle : k ≤ 6) {p : ExecutorEvent → Prop} (hp : ∀ ev, Milestone k ev → p ev) :
    (tickHas p).Satisfied log := by
  intro before ev after heq hev
  refine (h before ev after heq hev k hk hle).mono hp ?_
  rintro x rfl
  exact .inl (.inl rfl)

theorem fifoTaskSelection_of_reachable (h : machine.Reachable s) :
    fifoTaskSelection.Satisfied s.exec.log := by
  refine satisfied_of_reachable h ?_
  rintro s l s' ev hs hstep hlog - ⟨id, task, result, rfl⟩
  have hhead := (fifo_of_reachable (hs.step hstep)).polls
  rw [hlog] at hhead
  show (fifoQueue s.exec.log).head? = some id
  rw [fifoQueue_eq_replay (fifo_of_reachable hs).polls]
  exact hhead _ _ _ _ [] rfl

theorem validTaskPolling_of_reachable (h : machine.Reachable s) :
    validTaskPolling.Satisfied s.exec.log := by
  refine satisfied_of_reachable h ?_
  rintro s l s' ev hs hstep hlog - hpolls id task result rfl
  obtain ⟨hledger, hvalid⟩ := validPolling_of_reachable (hs.step hstep)
  have hpoll : ValidPoll s.exec.log id task result := hvalid.log.polls _ _ _ _ [] hlog
  have haccepted : AcceptedIn s.exec.log id := by
    have hcontains := (known_of_reachable (hs.step hstep)).logged id task result
      (by rw [hlog]; simp)
    obtain ⟨accepted, hmem, hid⟩ := (hledger id).mp hcontains
    rw [hlog] at hmem
    exact ⟨accepted, by simpa using hmem, hid⟩
  exact ⟨haccepted, hpoll.invalid_iff.trans or_comm⟩

theorem pollWithinTick_of_reachable (h : machine.Reachable s) :
    pollWithinTick.Satisfied s.exec.log := by
  refine satisfied_of_reachable h ?_
  rintro s l s' ev hs - - hmark hpolls
  have hne := stage_ne_zero_of_polls hmark hpolls
  exact (milestones_of_reachable hs 1 le_rfl (Nat.one_le_iff_ne_zero.mpr hne)).mono
    (fun _ => id) fun _ => .inl

/-! ### The properties that look ahead -/

/-- Between ticks, the last event is the end of one. -/
theorem log_of_between (h : machine.Reachable s) (hpc : s.pc.stage = 0) :
    s.exec.log = [] ∨ ∃ log, s.exec.log = log ++ [.tickEnd] := by
  revert hpc
  suffices PcOk s ∧ (s.pc.stage = 0 → s.exec.log = [] ∨ ∃ log, s.exec.log = log ++ [.tickEnd]) from
    this.2
  refine h.invariant (I := fun s => PcOk s ∧
    (s.pc.stage = 0 → s.exec.log = [] ∨ ∃ log, s.exec.log = log ++ [.tickEnd])) ?_ ?_
  · rintro s ⟨n, tls, _, _, rfl⟩
    exact ⟨pcOk_new n tls, fun _ => .inl rfl⟩
  · rintro s l s' ⟨hok, hs⟩ hstep
    obtain ⟨evs, hlog, hmark⟩ := logged_step hok hstep
    refine ⟨(step_act hok hstep).1, fun hpc' => ?_⟩
    rw [hlog.log]
    rw [hpc'] at hmark
    by_cases hpc : s.pc.stage = 0
    · rw [hpc] at hmark
      obtain rfl := hmark.eq_nil
      rw [List.append_nil]
      exact hs hpc
    · obtain rfl := hmark.eq_tickEnd hpc
      exact .inr ⟨_, rfl⟩

/-- Between ticks, what is not the end of one is followed by one. -/
theorem tickEnd_mem_of_between {before after : List ExecutorEvent} {ev : ExecutorEvent}
    (h : machine.Reachable s) (hpc : s.pc.stage = 0) (hlog : s.exec.log = before ++ ev :: after)
    (hev : ev ≠ .tickEnd) : .tickEnd ∈ after := by
  rcases log_of_between h hpc with hnil | ⟨log, hlast⟩
  · rw [hnil] at hlog
    simp at hlog
  · rcases List.eq_nil_or_concat after with rfl | ⟨after, last, rfl⟩
    · obtain ⟨-, heq⟩ := List.append_inj' (hlog.symm.trans hlast) rfl
      exact absurd (List.cons.inj heq).1 hev
    · rw [List.concat_eq_append, ← List.cons_append, ← List.append_assoc] at hlog
      obtain ⟨-, heq⟩ := List.append_inj' (hlog.symm.trans hlast) rfl
      simp [(List.cons.inj heq).1]

theorem parkDrainReactorWake_of_between (h : machine.Reachable s) (hpc : s.pc.stage = 0) :
    parkDrainReactorWake.Satisfied s.exec.log := by
  refine LocalLiveness.satisfied_of_deadline ?_ ?_
  · rintro before ev after heq rfl
    exact ⟨_, tickEnd_mem_of_between h hpc heq (by simp), rfl⟩
  · rintro before ev mid x after heq rfl rfl -
    have hdone := ticksDone_of_reachable h (before ++ .park :: mid) .tickEnd after
      (by rw [heq]; simp) rfl 5 (by omega) (by omega)
    exact hdone.mem_of_cut (.inr ⟨le_rfl, rfl⟩) fun hd => nomatch hd.choose_spec

/-- The queue of a server is the replayed queue, since both are read off the log. -/
theorem queue_of_run_service {n : ℕ} {v : Server TaskId} {log : List ExecutorEvent}
    (h : (Server.machine TaskId n).Run ⟨[], none⟩ (log.map ExecutorEvent.service) v) :
    v.queue = replay log := by
  induction log using List.reverseRecOn generalizing v with
  | nil =>
    rw [h.eq_of_nil rfl]
    rfl
  | append_singleton log ev ih =>
    rw [List.map_append] at h
    obtain ⟨m, hfirst, hlast⟩ := h.split
    rw [replay_snoc, ← ih hfirst]
    have hstep := hlast.of_singleton rfl
    cases ev with
    | popInjection task =>
      cases task with
      | none =>
        cases hstep
        exact List.append_nil _
      | some task =>
        cases hstep
        rfl
    | park =>
      cases hstep
      exact List.append_nil _
    | tickBegin | tickEnd | drain | pollTask =>
      cases hstep
      rfl

theorem tickPollsIfRunnable_of_between (h : machine.Reachable s) (hpc : s.pc.stage = 0) :
    tickPollsIfRunnable.Satisfied s.exec.log := by
  refine LocalLiveness.satisfied_of_deadline ?_ ?_
  · rintro before ev after heq ⟨rfl, -⟩
    exact ⟨_, tickEnd_mem_of_between h hpc heq (by simp), rfl⟩
  · rintro before ev mid x after heq ⟨rfl, hqueue⟩ rfl -
    obtain ⟨v, -, hserver⟩ := serving_of_reachable h
    rw [heq, List.map_append] at hserver
    obtain ⟨m, hfirst, hrest⟩ := hserver.split
    have hbefore : PollsHead before := by
      intro a id task result b hb
      refine (fifo_of_reachable h).polls a id task result
        (b ++ .tickBegin :: (mid ++ .tickEnd :: after)) ?_
      rw [heq, hb]
      simp
    rw [fifoQueue_eq_replay hbefore, ← queue_of_run_service hfirst] at hqueue
    have htick : (ExecutorEvent.tickBegin :: (mid ++ .tickEnd :: after)).map
        ExecutorEvent.service = (.roundBegin :: (mid.map ExecutorEvent.service ++ [.roundEnd])) ++
          after.map ExecutorEvent.service := by
      simp [ExecutorEvent.service]
    rw [htick] at hrest
    obtain ⟨w, htick, -⟩ := hrest.split
    have hserved := Server.Run.served_ne_nil htick (one_le_interval h) hqueue (by
      rw [Server.rounds_snoc]
      exact Nat.le_add_left _ _)
    rw [Server.served_snoc, Server.Act.serves, Option.toList_none, List.append_nil,
      served_service] at hserved
    obtain ⟨id, hid⟩ := List.exists_mem_of_ne_nil _ hserved
    obtain ⟨ev, hmem, hev⟩ := List.mem_filterMap.mp hid
    refine ⟨ev, hmem, ?_⟩
    cases ev with
    | pollTask id task result => exact ⟨id, task, result, rfl⟩
    | _ => cases hev

/-- **The log meets its specification.** In every run, with futures, wakers, other threads and the
operating system doing as they please: every poll is of the head of the queue, valid, and inside of
a tick; every tick, by its end, has drained the deferred queue, looked for injected tasks, parked,
and drained the task-ready queue. Between ticks, every park has been followed by a drain of the
reactor-ready queue, and every tick that began with a queue by a poll, before the tick ended. -/
theorem reachable_specification (h : machine.Reachable s) :
    Specification s.exec.log ∧ (s.pc.inRound = false → Progress s.exec.log) := by
  have hdone := ticksDone_of_reachable h
  refine ⟨⟨fifoTaskSelection_of_reachable h, validTaskPolling_of_reachable h,
    pollWithinTick_of_reachable h,
    tickHas_of_ticksDone hdone (k := 4) (by omega) (by omega) fun _ => id,
    tickHas_of_ticksDone hdone (k := 3) (by omega) (by omega) fun _ hev => ⟨none, hev⟩,
    tickHas_of_ticksDone hdone (k := 2) (by omega) (by omega) fun _ => id,
    tickHas_of_ticksDone hdone (k := 6) (by omega) (by omega) fun _ => id⟩, fun hpc => ?_⟩
  have hstage : s.pc.stage = 0 := by simpa [Pc.inRound] using hpc
  exact ⟨parkDrainReactorWake_of_between h hstage, tickPollsIfRunnable_of_between h hstage⟩

/-- A tick with a park and a poll, after which nothing is owed. -/
theorem reachable_specification_oneOfTwoTicks : ∃ s : State, .park ∈ s.exec.log ∧
    1 ∈ polledIds s.exec.log ∧ Specification s.exec.log ∧ Progress s.exec.log := by
  obtain ⟨s, hreach, -, hpark, hpolled, hround, -⟩ := exists_oneOfTwoTicks
  obtain ⟨hspec, hprogress⟩ := reachable_specification hreach
  exact ⟨s, hpark, hpolled, hspec, hprogress hround⟩

end State

end Lion
