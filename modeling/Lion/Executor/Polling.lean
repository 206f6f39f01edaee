import Lion.Executor.Multiplicity

/-!
# Valid polling

A task is taken out of the slab to be polled and put back if it is not done, while its id may be
queued any number of times: copies of it wait in several queues, it is woken after it is done, and
tasks may be injected under ids that are taken. The log, the ledger and the slab nevertheless agree:
an id is accepted once, what is polled is the task that was accepted under it, and a poll finds no
task exactly if the id was never accepted or is done.

The runs are those of the runtime with an injection queue that anybody may put any task into, since
ids are not the executor's business: it gets the receiving end of a channel, and `InnerHandle` is
only one way to fill it.

## Three records of one thing

Which ids have a task can be read off three places: the slab with the task in progress, the ledger,
and the log. `ValidPolling` says what each of them knows in terms of the log. The keys of the slab
are the ids accepted and not done, less the one being polled; the task under a key is the one that
was accepted under it; the ledger holds what was accepted. A poll that is over is then valid because
the slab told the truth when it began, and nothing that happened since can have changed it.

## Main results

* `State.injecting_polling` — in every run, polling is valid
-/

namespace Lion

/-- A task was accepted under the id `t`. -/
def AcceptedIn (log : List ExecutorEvent) (t : TaskId) : Prop :=
  ∃ task, .popInjection (some task) ∈ log ∧ task.id = t

/-- A poll of `t` has returned ready, after which there is no task under it any longer. -/
def FinishedIn (log : List ExecutorEvent) (t : TaskId) : Prop :=
  ∃ task, .pollTask t task .ready ∈ log

/-- The ids accepted, in order. Ids that were rejected do not count. -/
def acceptedIds (log : List ExecutorEvent) : List TaskId :=
  (log.filterMap ExecutorEvent.accepted).map Task.id

/-- A poll of `id` that ended with `result`, of the future of `task` if there was one, agrees with
the log before it. -/
structure ValidPoll (before : List ExecutorEvent) (id : TaskId) (task : Option Task)
    (result : PollResult) : Prop where
  /-- It is invalid exactly if the id was not accepted or is done. -/
  invalid_iff : result = .invalid ↔ ¬ AcceptedIn before id ∨ FinishedIn before id
  /-- A future is polled exactly if the poll is not invalid, -/
  polled_iff : task = none ↔ result = .invalid
  /-- and it is the one that was accepted under the id. -/
  accepted : ∀ t, task = some t → .popInjection (some t) ∈ before ∧ t.id = id

/-- The log is that of an executor that polls validly, from the first event on. -/
structure ValidLog (log : List ExecutorEvent) : Prop where
  once : (acceptedIds log).Nodup
  /-- Every poll agrees with the log before it. -/
  polls : ∀ before id task result after, log = before ++ .pollTask id task result :: after →
    ValidPoll before id task result

/-- Every event but acceptances and polls. -/
def ExecutorEvent.quiet : ExecutorEvent → Bool
  | .popInjection (some _) | .pollTask _ _ _ => false
  | .popInjection none | .drain _ _ | .tickBegin | .tickEnd | .park => true

theorem mem_acceptedIds {log : List ExecutorEvent} {t : TaskId} :
    t ∈ acceptedIds log ↔ AcceptedIn log t := by
  simp only [acceptedIds, List.mem_map, List.mem_filterMap, AcceptedIn]
  constructor
  · rintro ⟨task, ⟨ev, hmem, hev⟩, hid⟩
    cases ev with
    | popInjection raw =>
      cases hev
      exact ⟨task, hmem, hid⟩
    | _ => cases hev
  · rintro ⟨task, hmem, hid⟩
    exact ⟨task, ⟨_, hmem, rfl⟩, hid⟩

theorem validLog_nil : ValidLog [] := by
  refine ⟨List.nodup_nil, ?_⟩
  intro before id task result after h
  simp at h

/-- One more event, which is an acceptance, a poll, or neither. -/
theorem ValidLog.snoc {log : List ExecutorEvent} {ev : ExecutorEvent} (h : ValidLog log)
    (haccept : ∀ task, ev.accepted = some task → ¬ AcceptedIn log task.id)
    (hpoll : ∀ id task result, ev = .pollTask id task result → ValidPoll log id task result) :
    ValidLog (log ++ [ev]) := by
  constructor
  · rw [acceptedIds, List.filterMap_append, List.map_append]
    refine h.once.append ?_ ?_
    · cases hev : ev.accepted <;> simp [hev]
    · intro t ht hnew
      cases hev : ev.accepted with
      | none => simp [hev] at hnew
      | some task =>
        simp only [List.filterMap_cons, hev, List.filterMap_nil, List.map_cons, List.map_nil,
          List.mem_singleton] at hnew
        exact haccept task hev (hnew ▸ mem_acceptedIds.mp ht)
  · intro before id task result after heq
    rcases List.eq_nil_or_concat after with rfl | ⟨after, last, rfl⟩
    · obtain ⟨rfl, hlast⟩ := List.append_inj' heq rfl
      cases hlast
      exact hpoll id task result rfl
    · rw [List.concat_eq_append, ← List.cons_append, ← List.append_assoc] at heq
      obtain ⟨rfl, -⟩ := List.append_inj' heq rfl
      exact h.polls before id task result after rfl

namespace Executor

variable {e e' : Executor} {act : Act} {t : TaskId}

/-- The log, the slab and the poll in progress agree. -/
structure ValidPolling (e : Executor) : Prop where
  log : ValidLog e.log
  /-- The poll in progress is that of a task which was accepted and is not done. -/
  running : ∀ id task, e.running = some (id, task) →
    .popInjection (some task) ∈ e.log ∧ task.id = id ∧ ¬ FinishedIn e.log id
  /-- The keys of the slab are the ids accepted and not done, less the one being polled. -/
  keys : ∀ t, (e.taskSlab.get t).isSome = true ↔
    AcceptedIn e.log t ∧ ¬ FinishedIn e.log t ∧ e.running.map Prod.fst ≠ some t
  /-- The task under a key is the one accepted under it. -/
  tasks : ∀ t task, e.taskSlab.get t = some task → .popInjection (some task) ∈ e.log ∧ task.id = t

theorem validPolling_new (n : ℕ) (tls : Tls) : ValidPolling (.new n tls) := by
  constructor
  · exact validLog_nil
  · simp [Executor.new]
  · simp [Executor.new, AcceptedIn]
  · simp [Executor.new]

/-! ### Steps -/

/-- An act that logs nothing, or one event which neither accepts a task nor is a poll, and leaves
the slab alone. -/
theorem ValidPolling.quiet (h : ValidPolling e) {evs : List ExecutorEvent}
    (hlog : e'.log = e.log ++ evs) (hevs : evs = [] ∨ ∃ ev, evs = [ev] ∧ ev.quiet = true)
    (hslab : e'.taskSlab = e.taskSlab) (hrun : e'.running = e.running) : ValidPolling e' := by
  have haccept : ∀ task,
      .popInjection (some task) ∈ e'.log ↔ .popInjection (some task) ∈ e.log := by
    intro task
    rw [hlog]
    rcases hevs with rfl | ⟨ev, rfl, hev⟩
    · simp
    · simp only [List.mem_append, List.mem_singleton, or_iff_left_iff_imp]
      rintro rfl
      cases hev
  have hfinish : ∀ t, FinishedIn e'.log t ↔ FinishedIn e.log t := by
    intro t
    rw [FinishedIn, FinishedIn, hlog]
    rcases hevs with rfl | ⟨ev, rfl, hev⟩
    · simp
    · refine exists_congr fun task => ?_
      simp only [List.mem_append, List.mem_singleton, or_iff_left_iff_imp]
      rintro rfl
      cases hev
  constructor
  · rw [hlog]
    rcases hevs with rfl | ⟨ev, rfl, hev⟩
    · rw [List.append_nil]
      exact h.log
    · refine h.log.snoc ?_ ?_
      · intro task hacc
        cases ev with
        | popInjection raw =>
          cases hacc
          cases hev
        | _ => cases hacc
      · rintro id task result rfl
        cases hev
  · intro id task hr
    rw [haccept, hfinish]
    exact h.running id task (hrun ▸ hr)
  · intro t
    rw [hslab, hrun, h.keys t]
    simp only [AcceptedIn, haccept, hfinish]
  · intro t task hget
    rw [haccept]
    exact h.tasks t task (hslab ▸ hget)

/-- A task is accepted, under an id that was not accepted before. -/
theorem ValidPolling.accept (h : ValidPolling e) {task : Task} {ledger : TidLedger}
    {q : List TaskId} (hnew : ¬ AcceptedIn e.log task.id) :
    ValidPolling { e with
      ledger := ledger
      log := e.log ++ [.popInjection (some task)]
      taskSlab := e.taskSlab.insert task.id task
      localQueue := q } := by
  have haccept : ∀ t, AcceptedIn (e.log ++ [.popInjection (some task)]) t ↔
      AcceptedIn e.log t ∨ t = task.id := by
    intro t
    simp only [← mem_acceptedIds]
    simp [acceptedIds, ExecutorEvent.accepted]
  have hfinish : ∀ t, FinishedIn (e.log ++ [.popInjection (some task)]) t ↔
      FinishedIn e.log t := by
    intro t
    simp [FinishedIn]
  -- what is polled or done was accepted, so the new id is neither
  have hfresh : ¬ FinishedIn e.log task.id := by
    rintro ⟨t, hmem⟩
    obtain ⟨before, after, heq⟩ := List.append_of_mem hmem
    have hpoll := h.log.polls before _ _ _ after heq
    have hvalid : ¬ (PollResult.ready = .invalid) := by simp
    rw [hpoll.invalid_iff, not_or, not_not] at hvalid
    obtain ⟨⟨task', hmem', hid⟩, -⟩ := hvalid
    exact hnew ⟨task', by rw [heq]; exact List.mem_append_left _ hmem', hid⟩
  have hidle : e.running.map Prod.fst ≠ some task.id := by
    intro hr
    obtain ⟨⟨id, t⟩, hrun, rfl⟩ := Option.map_eq_some_iff.mp hr
    obtain ⟨hmem, hid, -⟩ := h.running _ _ hrun
    exact hnew ⟨t, hmem, hid⟩
  constructor
  · refine h.log.snoc ?_ (by simp)
    rintro _ ⟨⟩
    exact hnew
  · intro id t hr
    obtain ⟨hmem, hid, hdone⟩ := h.running id t hr
    exact ⟨List.mem_append_left _ hmem, hid, (hfinish id).not.mpr hdone⟩
  · intro t
    rw [haccept, hfinish, Slab.get_insert]
    by_cases ht : t = task.id
    · subst ht
      simp [hfresh, hidle]
    · rw [if_neg ht, h.keys t]
      simp [ht]
  · intro t task' hget
    rw [Slab.get_insert] at hget
    split at hget
    · rename_i ht
      cases hget
      exact ⟨by simp, ht.symm⟩
    · obtain ⟨hmem, hid⟩ := h.tasks t task' hget
      exact ⟨List.mem_append_left _ hmem, hid⟩

/-- A poll begins, or is over because there is nothing to poll. -/
theorem ValidPolling.beginPoll (h : ValidPolling e) {id : TaskId} {rest : List TaskId}
    (hrun : e.running = none) : ValidPolling (e.beginPoll id rest) := by
  have hkeys : ∀ t, (e.taskSlab.get t).isSome = true ↔
      AcceptedIn e.log t ∧ ¬ FinishedIn e.log t := by
    intro t
    rw [h.keys t, hrun]
    simp
  have htasks : ∀ t task, (e.taskSlab.remove id).2.get t = some task →
      .popInjection (some task) ∈ e.log ∧ task.id = t := by
    intro t task hget
    rw [Slab.get_remove] at hget
    split at hget
    · cases hget
    · exact h.tasks t task hget
  rcases e.beginPoll_cases id rest with ⟨task, hget, heq⟩ | ⟨hget, heq⟩
  · rw [heq]
    obtain ⟨hmem, hid⟩ := h.tasks id task hget
    refine ⟨h.log, ?_, ?_, htasks⟩
    · rintro _ _ ⟨⟩
      exact ⟨hmem, hid, ((hkeys id).mp (by simp [hget])).2⟩
    · intro t
      dsimp only [takeHead]
      rw [Slab.get_remove]
      by_cases ht : t = id
      · simp [ht]
      · rw [if_neg ht, hkeys t]
        simp [Ne.symm ht]
  · rw [heq]
    have hnone : ¬ (AcceptedIn e.log id ∧ ¬ FinishedIn e.log id) := by
      rw [← hkeys, hget]
      simp
    have haccept : ∀ t, AcceptedIn (e.log ++ [.pollTask id none .invalid]) t ↔
        AcceptedIn e.log t := by
      intro t
      simp [AcceptedIn]
    have hfinish : ∀ t, FinishedIn (e.log ++ [.pollTask id none .invalid]) t ↔
        FinishedIn e.log t := by
      intro t
      simp [FinishedIn]
    refine ⟨h.log.snoc (by simp [ExecutorEvent.accepted]) ?_, ?_, ?_, ?_⟩
    · rintro _ _ _ ⟨⟩
      refine ⟨iff_of_true rfl ?_, by simp, by simp⟩
      tauto
    · simp [takeHead, hrun]
    · intro t
      dsimp only [takeHead]
      rw [haccept, hfinish, hrun, Slab.get_remove]
      by_cases ht : t = id
      · subst ht
        rw [if_pos rfl]
        refine iff_of_false (by simp) fun hc => hnone ⟨hc.1, hc.2.1⟩
      · rw [if_neg ht, hkeys t]
        simp
    · intro t task ht
      obtain ⟨hmem, hid⟩ := htasks t task ht
      exact ⟨List.mem_append_left _ hmem, hid⟩

/-- A poll ends, and the task goes back unless it is done. -/
theorem ValidPolling.endPoll (h : ValidPolling e) {id : TaskId} {task : Task} (ready : Bool)
    (hrun : e.running = some (id, task)) : ValidPolling (e.endPoll id task ready) := by
  obtain ⟨hmem, hid, hdone⟩ := h.running id task hrun
  have hpoll : ∀ result, result ≠ .invalid → ValidPoll e.log id (some task) result := by
    intro result hresult
    refine ⟨iff_of_false hresult ?_, iff_of_false (by simp) hresult, ?_⟩
    · rw [not_or, not_not]
      exact ⟨⟨task, hmem, hid⟩, hdone⟩
    · rintro _ ⟨⟩
      exact ⟨hmem, hid⟩
  have haccept : ∀ t result, AcceptedIn (e.log ++ [.pollTask id (some task) result]) t ↔
      AcceptedIn e.log t := by
    intro t result
    simp [AcceptedIn]
  have hlog : ∀ result, result ≠ .invalid →
      ValidLog (e.log ++ [.pollTask id (some task) result]) := by
    intro result hresult
    refine h.log.snoc (by simp [ExecutorEvent.accepted]) ?_
    rintro _ _ _ ⟨⟩
    exact hpoll result hresult
  cases ready with
  | true =>
    have hfinish : ∀ t, FinishedIn (e.log ++ [.pollTask id (some task) .ready]) t ↔
        FinishedIn e.log t ∨ t = id := by
      intro t
      simp [FinishedIn, exists_or]
    have heq : e.endPoll id task true = { e with
        running := none
        tls := { e.tls with currentTask := none }
        log := e.log ++ [.pollTask id (some task) .ready] } := rfl
    rw [heq]
    refine ⟨hlog .ready (by simp), by simp, ?_, ?_⟩
    · intro t
      dsimp only
      rw [haccept, hfinish, h.keys t, hrun]
      simp [not_or, eq_comm]
    · intro t task' ht
      obtain ⟨hmem', hid'⟩ := h.tasks t task' ht
      exact ⟨List.mem_append_left _ hmem', hid'⟩
  | false =>
    have hfinish : ∀ t, FinishedIn (e.log ++ [.pollTask id (some task) .pending]) t ↔
        FinishedIn e.log t := by
      intro t
      simp [FinishedIn]
    have heq : e.endPoll id task false = { e with
        running := none
        tls := { e.tls with currentTask := none }
        log := e.log ++ [.pollTask id (some task) .pending]
        taskSlab := e.taskSlab.insert id task } := rfl
    rw [heq]
    refine ⟨hlog .pending (by simp), by simp, ?_, ?_⟩
    · intro t
      dsimp only
      rw [haccept, hfinish, Slab.get_insert]
      by_cases ht : t = id
      · subst ht
        rw [if_pos rfl]
        exact iff_of_true rfl ⟨⟨task, hmem, hid⟩, hdone, by simp⟩
      · rw [if_neg ht, h.keys t, hrun]
        simp [Ne.symm ht]
    · intro t task' hget
      dsimp only at hget ⊢
      rw [Slab.get_insert] at hget
      split at hget
      · rename_i ht
        cases hget
        exact ⟨List.mem_append_left _ hmem, hid.trans ht.symm⟩
      · obtain ⟨hmem', hid'⟩ := h.tasks t task' hget
        exact ⟨List.mem_append_left _ hmem', hid'⟩

theorem ValidPolling.step (h : ValidPolling e) (hl : LedgerOk e) (hstep : Step e act e') :
    ValidPolling e' := by
  cases hstep with
  | wake source id => exact h.quiet (List.append_nil _).symm (.inl rfl) rfl rfl
  | receive id => exact h.quiet (List.append_nil _).symm (.inl rfl) rfl rfl
  | yield heq =>
    obtain ⟨id, -, rfl⟩ := deferCurrent_cases heq
    exact h.quiet (List.append_nil _).symm (.inl rfl) rfl rfl
  | drainReactor => exact h.quiet rfl (.inr ⟨_, rfl, rfl⟩) rfl rfl
  | drainTask => exact h.quiet rfl (.inr ⟨_, rfl, rfl⟩) rfl rfl
  | drainDeferred => exact h.quiet rfl (.inr ⟨_, rfl, rfl⟩) rfl rfl
  | popInjection raw =>
    rcases e.popInjection_cases raw with ⟨-, heq⟩ | ⟨task, -, hnew, heq⟩
    · rw [heq]
      exact h.quiet rfl (.inr ⟨_, rfl, rfl⟩) rfl rfl
    · rw [heq]
      refine h.accept fun hacc => ?_
      rw [(hl task.id).mpr hacc] at hnew
      cases hnew
  | beginPoll hrun hq => exact h.beginPoll hrun
  | endPoll ready hrun => exact h.endPoll ready hrun
  | decide hd hr => exact h.quiet rfl (.inr ⟨_, rfl, rfl⟩) rfl rfl
  | tickBegin => exact h.quiet rfl (.inr ⟨_, rfl, rfl⟩) rfl rfl
  | tickEnd => exact h.quiet rfl (.inr ⟨_, rfl, rfl⟩) rfl rfl
  | setCurrent id => exact h.quiet (List.append_nil _).symm (.inl rfl) rfl rfl

end Executor

namespace State

variable {s : State}

/-- A step of the runtime, or somebody puts a task into the injection queue. -/
def stepInjecting (s : State) : Label ⊕ Task → Option State
  | .inl l => s.step l
  | .inr task => some { s with
      shared := { s.shared with injection := s.shared.injection ++ [(task, s.shared.nextTicket)] } }

/-- The runtime with an injection queue that is open to everybody. -/
def injecting : Machine State (Label ⊕ Task) :=
  Machine.ofStep (fun s => ∃ n tls, s = new n tls) stepInjecting

/-- **Valid polling.** In every run, with any tasks injected under any ids: no id is accepted twice;
a poll is of the future accepted under its id, before the future is done; it is invalid exactly if
the id was not accepted or is done; and the keys of the slab are the ids accepted and not done,
less the one being polled. -/
theorem injecting_polling (h : injecting.Reachable s) : s.exec.ValidPolling := by
  suffices PcOk s ∧ s.exec.LedgerOk ∧ s.exec.ValidPolling from this.2.2
  refine h.invariant (I := fun s => PcOk s ∧ s.exec.LedgerOk ∧ s.exec.ValidPolling) ?_ ?_
  · rintro s ⟨n, tls, rfl⟩
    exact ⟨pcOk_new n tls, Executor.ledgerOk_new n tls, Executor.validPolling_new n tls⟩
  · rintro s (l | task) s' ⟨hpc, hl, hs⟩ hstep
    · obtain ⟨hpc', hperf⟩ := step_act hpc hstep
      refine ⟨hpc', ?_⟩
      cases hact : s.act l with
      | none =>
        rw [hact] at hperf
        exact hperf ▸ ⟨hl, hs⟩
      | some a =>
        rw [hact] at hperf
        exact ⟨hl.step hperf, hs.step hl hperf⟩
    · cases hstep
      exact ⟨hpc, hl, hs⟩

/-- A second task is injected under an id that is taken, and the first is woken while it is polled
for the last time. -/
theorem injecting_polling_duplicate : ∃ s, injecting.Reachable s ∧
    .pollTask 1 (some ⟨1, 0⟩) .ready ∈ s.exec.log ∧ .pollTask 1 none .invalid ∈ s.exec.log ∧
    s.exec.ValidPolling := by
  have hstart : injecting.Reachable (new 4 .new) := .of_init ⟨4, .new, rfl⟩
  obtain ⟨s, hfollow, hready, hinvalid⟩ : ∃ s, Machine.follow stepInjecting
      [.inr ⟨1, 0⟩, .inr ⟨1, 1⟩, .inl .blockOn, .inl .exec, .inl (.futureReturns false), .inl .exec,
        .inl .exec, .inl .exec, .inl .exec, .inl .exec, .inl (.wake .task 1),
        .inl (.futureReturns true), .inl .exec, .inl .exec, .inl .exec, .inl .exec]
      (new 4 .new) = some s ∧ .pollTask 1 (some ⟨1, 0⟩) .ready ∈ s.exec.log ∧
      .pollTask 1 none .invalid ∈ s.exec.log :=
    ⟨_, rfl, by decide, by decide⟩
  have hreach := hstart.follow hfollow
  exact ⟨s, hreach, hready, hinvalid, injecting_polling hreach⟩

end State

end Lion
