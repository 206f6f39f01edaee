import Lion.Executor.Liveness

/-!
# Machines around a runtime

The executor is used by more than itself. The reactor calls wakers when `park` returns, and tasks
and other threads share channels, locks and handles whose operations call wakers. Each of these is
a machine of its own, with a runtime in its state: its steps do something to the runtime, which is
a run of it, and something beside it.

What follows for the runtime is the same every time, and is said here once. `Hosts` is the contract
of such a machine. It asks for two things:

* what a step does to the runtime is a run of the runtime, so that all that holds of every run of
  the executor alone holds here (`Hosts.reachable_runtime`, `Hosts.run_runtime`);
* the executor's thread logs nothing while it has still to call a waker. It has taken it out of some
  slot or queue by then, and runs on only after the call.

From the two it follows that whoever is to be called is polled in time
(`Hosts.polled_of_unwoken`), counted from the moment at which the waker was taken out.

## What counts as being polled

A task may be polled at any time, for reasons of its own. That it was polled after it began to wait
says little, since that poll may have been before there was anything to wait for any more. So the
results say more: `PolledSinceCall` has, somewhere on the way, the state in which the waker was
taken out to be called, and a poll after that.

## Main definitions

* `TaskWaker` — a waker of the executor
* `Hosts` — a machine around a runtime
* `PolledSinceCall` — a task is polled after its waker was taken out to be called

## Main results

* `Hosts.polled_of_unwoken` — who is to be called by the executor's thread is polled
* `PolledSinceCall.polledSince` — and so it is polled
-/

namespace Lion

/-- A waker of the executor, which pushes the id of a task to one of the ready queues:
`create_raw_task_waker`, or `create_reactor_waker_for_current`. -/
structure TaskWaker where
  source : WakeSource
  id : TaskId
deriving DecidableEq, Repr

/-- It is done by the executor's thread. -/
def Label.onThread : Label → Bool
  | .exec | .wake _ _ | .yield | .futureReturns _ | .blockOn | .osReturns _ => true
  | .spawn own _ => own
  | .wakeForeign _ | .call _ => false

/-- What other threads do moves neither the program counter nor the executor's own data. -/
theorem State.pc_of_not_onThread {u v : State} {l : Label} (hl : l.onThread = false)
    (hstep : u.step l = some v) : v.pc = u.pc ∧ v.exec = u.exec := by
  cases State.step_cases hstep with
  | spawn | wakeForeign | call => exact ⟨rfl, rfl⟩
  | _ => cases hl

/-- A machine around a runtime. Its states have a runtime and the wakers that the executor's thread
has taken out and is still to call. -/
structure Hosts {σ α : Type*} (M : Machine σ α) (runtime : σ → State)
    (unwoken : σ → List TaskWaker) : Prop where
  /-- It begins with a new runtime. -/
  init : ∀ s, M.init s → State.machine.init (runtime s)
  /-- What a step does to the runtime is a run of it. -/
  step : ∀ s a t, M.step s a t → ∃ ls, State.machine.Run (runtime s) ls (runtime t)
  /-- While there is a waker to call, nothing is logged, and it stays until it is called. -/
  calls : ∀ s a t w, M.Reachable s → M.step s a t → w ∈ unwoken s →
    (runtime t).exec.log = (runtime s).exec.log ∧
      (w ∈ unwoken t ∨ w.id ∈ (runtime t).exec.history.woken)

/-- Between `s` and `m` the waker is taken out, to be called, and in what follows its task is
polled. A poll that is in progress when the waker is taken out does not count. `evs` is what is
logged from `s` on, which may go beyond `m`. -/
def PolledSinceCall {σ α : Type*} (M : Machine σ α) (runtime : σ → State)
    (toCall : σ → List TaskWaker) (s m : σ) (w : TaskWaker) (evs : List ExecutorEvent) : Prop :=
  ∃ ls₁ u ls₂ before after, M.Run s ls₁ u ∧ M.Run u ls₂ m ∧ w ∈ toCall u ∧
    evs = before ++ after ∧ (runtime u).exec.log = (runtime s).exec.log ++ before ∧
    w.id ∈ (runtime u).polledSince after

namespace Hosts

variable {σ α : Type*} {M : Machine σ α} {runtime : σ → State} {unwoken : σ → List TaskWaker}
  {s m t : σ} {ls ls' : List α} {w : TaskWaker} {L : ℕ} {evs before after : List ExecutorEvent}

/-! ### The runtime -/

theorem run_runtime (h : Hosts M runtime unwoken) (hrun : M.Run s ls t) :
    ∃ ls', State.machine.Run (runtime s) ls' (runtime t) :=
  hrun.project (f := runtime) h.step

/-- **The runtime** does inside of the machine what it does alone: its states are those of its own
runs. -/
theorem reachable_runtime (h : Hosts M runtime unwoken) (hs : M.Reachable s) :
    State.machine.Reachable (runtime s) :=
  hs.project (f := runtime) h.init h.step

theorem pcOk_of_reachable (h : Hosts M runtime unwoken) (hs : M.Reachable s) :
    State.PcOk (runtime s) :=
  State.pcOk_of_reachable (h.reachable_runtime hs)

/-- The log grows at its end, in the machine as in the runtime. -/
theorem log_of_run (h : Hosts M runtime unwoken) (hs : M.Reachable s) (hrun : M.Run s ls t) :
    ∃ evs, (runtime t).exec.log = (runtime s).exec.log ++ evs := by
  obtain ⟨ls', hruntime⟩ := h.run_runtime hrun
  exact (State.log_of_run (h.pcOk_of_reachable hs) hruntime).2

/-- The budget of a tick does not change. -/
theorem interval_of_run (h : Hosts M runtime unwoken) (hs : M.Reachable s) (hrun : M.Run s ls t) :
    (runtime t).exec.eventInterval = (runtime s).exec.eventInterval := by
  obtain ⟨ls', hruntime⟩ := h.run_runtime hrun
  exact State.interval_of_run (h.pcOk_of_reachable hs) hruntime

/-- What a run logs is what its parts log, one after the other. -/
theorem log_split (h : Hosts M runtime unwoken) (hs : M.Reachable s) (hfirst : M.Run s ls m)
    (hrest : M.Run m ls' t) (hlog : (runtime t).exec.log = (runtime s).exec.log ++ evs) :
    ∃ before after, evs = before ++ after ∧
      (runtime m).exec.log = (runtime s).exec.log ++ before ∧
      (runtime t).exec.log = (runtime m).exec.log ++ after := by
  obtain ⟨before, hbefore⟩ := h.log_of_run hs hfirst
  obtain ⟨after, hafter⟩ := h.log_of_run (hs.run hfirst) hrest
  refine ⟨before, after, ?_, hbefore, hafter⟩
  rw [hafter, hbefore, List.append_assoc] at hlog
  exact (List.append_cancel_left hlog).symm

/-- Who is polled after a later state is polled. -/
theorem polledSince_of_run {id : TaskId} (h : Hosts M runtime unwoken) (hs : M.Reachable s)
    (hrun : M.Run s ls m) (hm : (runtime m).exec.log = (runtime s).exec.log ++ before)
    (hid : id ∈ (runtime m).polledSince after) :
    id ∈ (runtime s).polledSince (before ++ after) := by
  obtain ⟨ls', hruntime⟩ := h.run_runtime hrun
  exact State.polledSince_append (h.pcOk_of_reachable hs) hruntime hm hid

/-! ### Wakers that are to be called -/

/-- Until the executor logs something, its thread has still to call a waker, or the task is noted as
woken. -/
theorem called_of_unwoken (h : Hosts M runtime unwoken) (hs : M.Reachable s) (hw : w ∈ unwoken s)
    (hrun : M.Run s ls t) :
    (w ∈ unwoken t ∧ (runtime t).exec.log = (runtime s).exec.log) ∨
      ∃ ls₁ m ls₂, M.Run s ls₁ m ∧ M.Run m ls₂ t ∧
        (runtime m).exec.log = (runtime s).exec.log ∧
        w.id ∈ (runtime m).exec.history.woken := by
  induction hrun with
  | nil => exact .inl ⟨hw, rfl⟩
  | snoc hrun hlast ih =>
    rcases ih with ⟨hmem, hlog⟩ | ⟨ls₁, m, ls₂, hfirst, hrest, hm⟩
    · obtain ⟨hsame, hstill | hwoken⟩ := h.calls _ _ _ w (hs.run hrun) hlast hmem
      · exact .inl ⟨hstill, hsame.trans hlog⟩
      · exact .inr ⟨_, _, [], hrun.snoc hlast, .nil, hsame.trans hlog, hwoken⟩
    · exact .inr ⟨ls₁, m, _, hfirst, hrest.snoc hlast, hm⟩

/-- **Who is to be called by the executor's thread is polled**, within `L / n + 2` ticks, for a
queue of at most `L` and a budget of `n`. The tick in progress may end before the waker is called,
and the queue it is pushed to is drained in the next one. -/
theorem polled_of_unwoken (h : Hosts M runtime unwoken) (hs : M.Reachable s) (hw : w ∈ unwoken s)
    (hrun : M.Run s ls t) (hlog : (runtime t).exec.log = (runtime s).exec.log ++ evs)
    (haccepted : AcceptedIn (runtime s).exec.log w.id) (hL : 0 < L)
    (hbound : State.QueueBound L (runtime s).exec.log evs)
    (hticks : L ≤ (runtime s).exec.eventInterval * (ticks evs - 2)) :
    w.id ∈ (runtime s).polledSince evs := by
  rcases h.called_of_unwoken hs hw hrun with ⟨-, hsame⟩ | ⟨ls₁, m, ls₂, hfirst, hrest, hm, hwoken⟩
  · -- nothing was logged, so no tick has ended
    obtain rfl : evs = [] := List.append_cancel_left
      (hlog.symm.trans (hsame.trans (List.append_nil _).symm))
    exact absurd (State.lt_ticks hL hticks) (by decide)
  · have hmreach := h.reachable_runtime (hs.run hfirst)
    obtain ⟨ls', hruntime⟩ := h.run_runtime hrest
    rw [← hm] at hlog haccepted hbound
    have hid := (State.contains_iff_accepted hmreach w.id).mpr haccepted
    have hwaits := State.waiting_of_queued ((State.allKept_of_reachable hmreach w.id hid).woken
      hwoken)
    have hpolled := State.polled_of_waiting hmreach hruntime hlog hid hwaits hL hbound
      (by rw [h.interval_of_run hs hfirst]; exact hticks)
    exact h.polledSince_of_run hs hfirst (hm.trans (List.append_nil _).symm) hpolled

end Hosts

namespace PolledSinceCall

variable {σ α : Type*} {M : Machine σ α} {runtime : σ → State} {toCall : σ → List TaskWaker}
  {s m t : σ} {ls : List α} {w : TaskWaker} {evs before : List ExecutorEvent}

/-- In particular the task is polled since the start. -/
theorem polledSince {unwoken : σ → List TaskWaker} (h : Hosts M runtime unwoken)
    (hs : M.Reachable s) (hpolled : PolledSinceCall M runtime toCall s m w evs) :
    w.id ∈ (runtime s).polledSince evs := by
  obtain ⟨ls₁, u, ls₂, before, after, hfirst, -, -, rfl, hlog, hid⟩ := hpolled
  exact h.polledSince_of_run hs hfirst hlog hid

/-- The waker is already taken out at the start. -/
theorem of_mem (hw : w ∈ toCall s) (hrun : M.Run s ls m)
    (hpolled : w.id ∈ (runtime s).polledSince evs) :
    PolledSinceCall M runtime toCall s m w evs :=
  ⟨[], s, ls, [], evs, .nil, hrun, hw, rfl, (List.append_nil _).symm, hpolled⟩

/-- It is taken out after a later state. -/
theorem of_run (hrun : M.Run s ls t)
    (hlog : (runtime t).exec.log = (runtime s).exec.log ++ before)
    (hpolled : PolledSinceCall M runtime toCall t m w evs) :
    PolledSinceCall M runtime toCall s m w (before ++ evs) := by
  obtain ⟨ls₁, u, ls₂, early, late, hfirst, hrest, hw, rfl, hu, hid⟩ := hpolled
  refine ⟨_, u, ls₂, before ++ early, late, hrun.append hfirst, hrest, hw, ?_, ?_, hid⟩
  · rw [List.append_assoc]
  · rw [hu, hlog, List.append_assoc]

/-- What was before `m` was before any later state. -/
theorem mono (hrun : M.Run m ls t) (hpolled : PolledSinceCall M runtime toCall s m w evs) :
    PolledSinceCall M runtime toCall s t w evs := by
  obtain ⟨ls₁, u, ls₂, early, late, hfirst, hrest, hw, rfl, hu, hid⟩ := hpolled
  exact ⟨ls₁, u, _, early, late, hfirst, hrest.append hrun, hw, rfl, hu, hid⟩

end PolledSinceCall

end Lion
