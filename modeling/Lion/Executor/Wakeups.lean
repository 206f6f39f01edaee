import Lion.Executor.Acts

/-!
# Wakeups are not lost

A push of an id whose flag is set does nothing, on the grounds that the id is queued already. This
file proves the grounds: the flag of a task the executor has accepted is set only while the task is
in a ready queue or the local queue. The flag is cleared where the task leaves the local queue, and
drains keep every accepted id, so nothing comes between.

Yielding has no flag. A task that yielded is in the deferred queue until that is drained, and in the
local queue from then on.

## Accepted ids only

Nothing of this holds of an id that is not in the ledger. A wake of it sets the flag and queues it,
and the next drain drops it with the flag still set, so that later wakes of it do nothing. Wakers of
a task are made when it is polled, by which time its id is in the ledger; but nothing in the types
says so, and every clause here begins with the ledger. `contains_iff_accepted` ties the ledger to
the log, in the terms of which the results are stated.

## Main results

* `State.contains_iff_accepted` — the ledger holds the ids that the log accepts
* `State.reachable_wakeups` — a task woken or yielded since it was last taken is queued
-/

namespace Lion

namespace Executor

variable {e e' : Executor} {act : Act} {t : TaskId}

/-- The log has a task with id `t` accepted from the injection queue. -/
def Accepted (e : Executor) (t : TaskId) : Prop :=
  ∃ task, .popInjection (some task) ∈ e.log ∧ task.id = t

/-- `t` waits to be polled because it was woken, in a ready queue or in the local one. -/
def Queued (e : Executor) (t : TaskId) : Prop :=
  t ∈ e.tls.reactorReady ∨ t ∈ e.tls.taskReady ∨ t ∈ e.localQueue

/-- `t` waits to be polled because it yielded. -/
def Deferred (e : Executor) (t : TaskId) : Prop := t ∈ e.tls.deferred ∨ t ∈ e.localQueue

/-! ### The ledger and the log -/

/-- An act accepts one new task, which was not accepted before, or none. -/
theorem Step.accepts (h : Step e act e') :
    (∃ task, act = .popInjection (some task) ∧ e.ledger.contains task.id = false ∧
      e' = { e with
        ledger := e.ledger.mark task.id
        log := e.log ++ [.popInjection (some task)]
        taskSlab := e.taskSlab.insert task.id task
        localQueue := e.localQueue ++ [task.id] }) ∨
    e'.ledger = e.ledger ∧ ∀ task, .popInjection (some task) ∈ e'.log ↔
      .popInjection (some task) ∈ e.log := by
  cases h with
  | wake source id => exact .inr ⟨rfl, fun _ => Iff.rfl⟩
  | receive id => exact .inr ⟨rfl, fun _ => Iff.rfl⟩
  | yield heq =>
    obtain ⟨id, -, rfl⟩ := deferCurrent_cases heq
    exact .inr ⟨rfl, fun _ => Iff.rfl⟩
  | drainReactor => exact .inr ⟨rfl, by simp [drainReactorReadyIntoLocal, filterAndEnqueue, record]⟩
  | drainTask => exact .inr ⟨rfl, by simp [drainTaskReadyIntoLocal, filterAndEnqueue, record]⟩
  | drainDeferred => exact .inr ⟨rfl, by simp [drainDeferredIntoLocal, filterAndEnqueue, record]⟩
  | popInjection raw =>
    rcases e.popInjection_cases raw with ⟨-, heq⟩ | ⟨task, rfl, hnew, heq⟩
    · rw [heq]
      exact .inr ⟨rfl, by simp [record]⟩
    · exact .inl ⟨task, rfl, hnew, by rw [heq]⟩
  | @beginPoll id rest _ _ =>
    rcases e.beginPoll_cases id rest with ⟨task, -, heq⟩ | ⟨-, heq⟩
    · rw [heq]
      exact .inr ⟨rfl, fun _ => Iff.rfl⟩
    · rw [heq]
      exact .inr ⟨rfl, by simp⟩
  | endPoll ready _ =>
    cases ready with
    | false => exact .inr ⟨rfl, by simp [Executor.endPoll, record]⟩
    | true => exact .inr ⟨rfl, by simp [Executor.endPoll, record]⟩
  | decide hd hr => exact .inr ⟨rfl, by simp [decideTimeout, record]⟩
  | tickBegin => exact .inr ⟨rfl, by simp [record]⟩
  | tickEnd => exact .inr ⟨rfl, by simp [record]⟩
  | setCurrent id => exact .inr ⟨rfl, fun _ => Iff.rfl⟩

/-- The ledger holds the accepted ids, as the log has them. -/
def LedgerOk (e : Executor) : Prop := ∀ t, e.ledger.contains t = true ↔ e.Accepted t

theorem ledgerOk_new (n : ℕ) (tls : Tls) : LedgerOk (.new n tls) := by
  intro t
  simp [Executor.new, Accepted, TidLedger.contains_new]

theorem LedgerOk.step (h : LedgerOk e) (hstep : Step e act e') : LedgerOk e' := by
  intro t
  rcases hstep.accepts with ⟨task, -, -, rfl⟩ | ⟨hledger, hlog⟩
  · rw [TidLedger.contains_mark, Bool.or_eq_true, h t, decide_eq_true_iff]
    constructor
    · rintro (⟨task', hmem, hid⟩ | rfl)
      · exact ⟨task', List.mem_append_left _ hmem, hid⟩
      · exact ⟨task, by simp, rfl⟩
    · rintro ⟨task', hmem, rfl⟩
      rcases List.mem_append.mp hmem with hmem | hmem
      · exact .inl ⟨task', hmem, rfl⟩
      · rw [List.mem_singleton] at hmem
        cases hmem
        exact .inr rfl
  · rw [hledger, h t]
    simp only [Accepted, hlog]

/-! ### Flags and queues -/

/-- `t` is where its flag and its history say. -/
structure Kept (e : Executor) (t : TaskId) : Prop where
  /-- A flag is set only for a queued id. -/
  notified : e.tls.isNotified t = true → e.Queued t
  /-- What was woken is queued, since it was last taken. -/
  woken : t ∈ e.history.woken → e.Queued t
  /-- What yielded is deferred, since it was last taken. -/
  yielded : t ∈ e.history.yielded → e.Deferred t

/-- Accepted ids are kept. Of others nothing is said. -/
def AllKept (e : Executor) : Prop := ∀ t, e.ledger.contains t = true → e.Kept t

theorem allKept_new (n : ℕ) (tls : Tls) : AllKept (.new n tls) := by
  intro t ht
  simp [Executor.new, TidLedger.contains_new] at ht

theorem Kept.mono (h : Kept e t) (hflag : e'.tls.isNotified t = true → e.tls.isNotified t = true)
    (hwoken : t ∈ e'.history.woken → t ∈ e.history.woken)
    (hyielded : t ∈ e'.history.yielded → t ∈ e.history.yielded)
    (hqueued : e.Queued t → e'.Queued t) (hdeferred : e.Deferred t → e'.Deferred t) : Kept e' t :=
  ⟨fun hn => hqueued (h.notified (hflag hn)), fun hw => hqueued (h.woken (hwoken hw)),
    fun hy => hdeferred (h.yielded (hyielded hy))⟩

/-- An id that is in the local queue is kept, whatever else happened to it. -/
theorem kept_of_mem_localQueue (h : t ∈ e.localQueue) : Kept e t :=
  ⟨fun _ => .inr (.inr h), fun _ => .inr (.inr h), fun _ => .inr h⟩

/-- All wakers push: none of them is created to yield. -/
theorem wake_tls (e : Executor) (source : WakeSource) (id : TaskId) :
    (e.wake source id).tls = e.tls.pushReady source id := by
  cases source <;> rfl

/-- What was queued stays queued by a push, and `id` is queued unless its flag was set. -/
theorem queued_wake (e : Executor) (source : WakeSource) (id : TaskId) :
    (∀ t, e.Queued t → (e.wake source id).Queued t) ∧
      ((e.tls.isNotified id = true → e.Queued id) → (e.wake source id).Queued id) := by
  have hp := Tls.pushed_pushReady e.tls source id
  rw [← wake_tls] at hp
  have hmono : ∀ t, e.Queued t → (e.wake source id).Queued t := by
    intro t ht
    have hready : ∀ source', t ∈ e.tls.ready source' → t ∈ (e.wake source id).tls.ready source' :=
      fun _ hmem => hp.mem_ready hmem
    exact ht.imp (hready .reactor) (Or.imp_left (hready .task))
  refine ⟨hmono, fun hflag => ?_⟩
  by_cases hset : id ≠ rootId ∧ e.tls.isNotified id = true
  · exact hmono id (hflag hset.2)
  · have hmem : id ∈ (e.wake source id).tls.ready source := by
      rw [hp.ready_eq, if_neg hset]
      simp
    cases source with
    | reactor => exact .inl hmem
    | task => exact .inr (.inl hmem)

theorem Kept.wake (h : Kept e t) (source : WakeSource) (i : TaskId) : Kept (e.wake source i) t := by
  obtain ⟨hmono, hself⟩ := queued_wake e source i
  have hp := Tls.pushed_pushReady e.tls source i
  rw [← wake_tls] at hp
  have hdeferred : e.Deferred t → (e.wake source i).Deferred t := by
    rw [Deferred, Deferred, hp.deferred_eq]
    exact id
  by_cases ht : t = i
  · subst ht
    have hq := hself h.notified
    exact ⟨fun _ => hq, fun _ => hq, fun hy => hdeferred (h.yielded hy)⟩
  · refine h.mono ?_ ?_ id (hmono t) hdeferred
    · rw [hp.flag_eq]
      simp [ht]
    · simp [Executor.wake, ht]

theorem Kept.yield (h : Kept e t) (heq : e.deferCurrent = some e') : Kept e' t := by
  obtain ⟨id, -, rfl⟩ := deferCurrent_cases heq
  refine ⟨h.notified, h.woken, fun hy => ?_⟩
  rcases List.mem_cons.mp hy with rfl | hy
  · exact .inl (by simp)
  · exact (h.yielded hy).imp_left (List.mem_append_left _)

/-- Drains keep the ids that the ledger holds, and drop the others. -/
theorem mem_drain {ids : List TaskId} (ht : e.ledger.contains t = true) (h : t ∈ ids) :
    t ∈ e.localQueue ++ ids.filter e.ledger.contains :=
  List.mem_append_right _ (List.mem_filter.mpr ⟨h, ht⟩)

theorem Kept.drainReactor (h : Kept e t) (ht : e.ledger.contains t = true) :
    Kept e.drainReactorReadyIntoLocal t := by
  refine h.mono id id id ?_ ?_
  · rintro (hmem | hmem | hmem)
    · exact .inr (.inr (mem_drain ht hmem))
    · exact .inr (.inl hmem)
    · exact .inr (.inr (List.mem_append_left _ hmem))
  · exact Or.imp_right (List.mem_append_left _)

theorem Kept.drainTask (h : Kept e t) (ht : e.ledger.contains t = true) :
    Kept e.drainTaskReadyIntoLocal t := by
  refine h.mono id id id ?_ ?_
  · rintro (hmem | hmem | hmem)
    · exact .inl hmem
    · exact .inr (.inr (mem_drain ht hmem))
    · exact .inr (.inr (List.mem_append_left _ hmem))
  · exact Or.imp_right (List.mem_append_left _)

theorem Kept.drainDeferred (h : Kept e t) (ht : e.ledger.contains t = true) :
    Kept e.drainDeferredIntoLocal t := by
  refine h.mono id id id ?_ ?_
  · exact Or.imp_right (Or.imp_right (List.mem_append_left _))
  · rintro (hmem | hmem)
    · exact .inr (mem_drain ht hmem)
    · exact .inr (List.mem_append_left _ hmem)

/-- The polled id starts afresh, and the others are still where they were. -/
theorem Kept.takeHead (h : Kept e t) {id : TaskId} {rest : List TaskId}
    (hq : e.localQueue = id :: rest) : Kept (e.takeHead id rest) t := by
  have hflag := e.tls.isNotified_clearNotified id t
  by_cases ht : t = id
  · subst ht
    refine ⟨fun hn => ?_, fun hw => ?_, fun hy => ?_⟩
    · rw [Executor.takeHead] at hn
      simp [hflag] at hn
    · simp [Executor.takeHead] at hw
    · simp [Executor.takeHead] at hy
  · have hlocal : t ∈ e.localQueue → t ∈ rest := by
      intro hmem
      rw [hq] at hmem
      exact (List.mem_cons.mp hmem).resolve_left ht
    refine h.mono ?_ ?_ ?_ (Or.imp_right (Or.imp_right hlocal)) (Or.imp_right hlocal)
    · rw [Executor.takeHead]
      simp [hflag, ht]
    · simp [Executor.takeHead, ht]
    · simp [Executor.takeHead, ht]

/-- One step of the executor keeps what is accepted. -/
theorem AllKept.step (h : AllKept e) (hstep : Step e act e') : AllKept e' := by
  intro t ht
  cases hstep with
  | wake source id => exact (h t ht).wake source id
  | receive id => exact (h t ht).wake .task id
  | yield heq =>
    obtain ⟨id, -, rfl⟩ := deferCurrent_cases heq
    exact (h t ht).yield heq
  | drainReactor => exact (h t ht).drainReactor ht
  | drainTask => exact (h t ht).drainTask ht
  | drainDeferred => exact (h t ht).drainDeferred ht
  | popInjection raw =>
    rcases e.popInjection_cases raw with ⟨-, heq⟩ | ⟨task, -, -, heq⟩
    · rw [heq] at ht ⊢
      exact (h t ht).mono id id id id id
    · rw [heq] at ht ⊢
      rw [TidLedger.contains_mark, Bool.or_eq_true, decide_eq_true_iff] at ht
      rcases ht with ht | rfl
      · exact (h t ht).mono id id id (Or.imp_right (Or.imp_right (List.mem_append_left _)))
          (Or.imp_right (List.mem_append_left _))
      · exact kept_of_mem_localQueue (by simp)
  | @beginPoll i rest hrun hq =>
    rcases e.beginPoll_cases i rest with ⟨task, -, heq⟩ | ⟨-, heq⟩
    · rw [heq] at ht ⊢
      exact ((h t ht).takeHead hq).mono id id id id id
    · rw [heq] at ht ⊢
      exact ((h t ht).takeHead hq).mono id id id id id
  | endPoll ready hrun =>
    cases ready with
    | false => exact (h t ht).mono id id id id id
    | true => exact (h t ht).mono id id id id id
  | decide hd hr => exact (h t ht).mono id id id id id
  | tickBegin => exact (h t ht).mono id id id id id
  | tickEnd => exact (h t ht).mono id id id id id
  | setCurrent i => exact (h t ht).mono id id id id id

end Executor

namespace State

variable {s : State}

/-- The ledger holds the ids that the log accepts. -/
theorem contains_iff_accepted (h : machine.Reachable s) (t : TaskId) :
    s.exec.ledger.contains t = true ↔ s.exec.Accepted t :=
  reachable_exec h Executor.ledgerOk_new (fun _ _ _ he hstep => he.step hstep) t

theorem allKept_of_reachable (h : machine.Reachable s) : s.exec.AllKept :=
  reachable_exec h Executor.allKept_new fun _ _ _ he hstep => he.step hstep

/-- **Wakeups are not lost.** In every run, a task that has been accepted, be it done or not, is in
a ready queue or the local queue if its flag is set, or if it was woken since it was last taken to
be polled; and it is in the deferred queue or the local queue if it yielded since. -/
theorem reachable_wakeups (h : machine.Reachable s) {t : TaskId} (ht : s.exec.Accepted t) :
    (s.exec.tls.isNotified t = true →
      t ∈ s.exec.tls.reactorReady ∨ t ∈ s.exec.tls.taskReady ∨ t ∈ s.exec.localQueue) ∧
    (t ∈ s.exec.history.woken →
      t ∈ s.exec.tls.reactorReady ∨ t ∈ s.exec.tls.taskReady ∨ t ∈ s.exec.localQueue) ∧
    (t ∈ s.exec.history.yielded → t ∈ s.exec.tls.deferred ∨ t ∈ s.exec.localQueue) := by
  have hkept := allKept_of_reachable h t ((contains_iff_accepted h t).mpr ht)
  exact ⟨hkept.notified, hkept.woken, hkept.yielded⟩

/-- A task that wakes itself and yields while it is polled. -/
theorem reachable_wakeups_running : ∃ s, machine.Reachable s ∧ s.exec.Accepted 1 ∧
    1 ∈ s.exec.history.woken ∧ 1 ∈ s.exec.history.yielded ∧ s.exec.tls.isNotified 1 = true ∧
    (1 ∈ s.exec.tls.reactorReady ∨ 1 ∈ s.exec.tls.taskReady ∨ 1 ∈ s.exec.localQueue) ∧
    (1 ∈ s.exec.tls.deferred ∨ 1 ∈ s.exec.localQueue) := by
  have hstart : machine.Reachable (new 61 .new) :=
    .of_init ⟨61, .new, by decide, rfl, rfl⟩
  obtain ⟨s, hfollow, hlog, hwoken, hyielded, hflag⟩ : ∃ s, Machine.follow step
      [.spawn false 0, .call 0, .blockOn, .exec, .futureReturns false, .exec, .exec, .exec, .exec,
        .exec, .wake .task 1, .yield] (new 61 .new) = some s ∧
      .popInjection (some ⟨1, 0⟩) ∈ s.exec.log ∧ 1 ∈ s.exec.history.woken ∧
      1 ∈ s.exec.history.yielded ∧ s.exec.tls.isNotified 1 = true :=
    ⟨_, rfl, by decide, by decide, by decide, by decide⟩
  have hreach := hstart.follow hfollow
  have hacc : s.exec.Accepted 1 := ⟨⟨1, 0⟩, hlog, rfl⟩
  obtain ⟨hn, -, hy⟩ := reachable_wakeups hreach hacc
  exact ⟨s, hreach, hacc, hwoken, hyielded, hflag, hn hflag, hy hyielded⟩

end State

end Lion
