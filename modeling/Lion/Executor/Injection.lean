import Lion.Executor.Interrupt

/-!
# Spawned tasks and the blocked executor

A spawn sends its task to the injection queue, then swaps the interrupt's flag. `park` drains the
cross-thread queue again after it has reset the flag, but does not look at the injection queue
again. A task that is sent after the last look and before the reset, by a spawn that found the flag
set, is therefore in the queue during the poll with no wake due. That takes no race: a task that
spawns in the last poll its tick's budget allows will do, if something has set the flag since the
previous reset.

This file says when it does not happen. Either every task in the injection queue at the reset is
covered, or something the executor has already seen makes the timeout zero (`Executor.Hurried`).

## From the reset to the poll

The condition is on the state at the reset (`State.ResetOk`), and has to be carried through the
drain of the cross-thread queue, during which ids arrive and calls go on, to the location where the
executor blocks. `Attended` is what it becomes on the way. The other direction is
`exists_not_prompt`: left alone, a reset that violates the condition is followed by a drain and a
poll with a timeout, during which a task is in the injection queue and no wake is due.

The executor does look at the injection queue in `next_task`, but only while it has budget; a tick
that spends its budget in the first loop parks without having looked.

## Main results

* `State.restrict_resetOk_prompt` — the runs in which no spawned task waits out a poll
* `State.not_prompt` — a run in which one does
-/

namespace Lion

namespace Executor

variable {e : Executor} {cross : List (TaskId × ℕ)} {hd hr : Bool}

/-- The next park will not block: there is something to do already, or will be once the cross-thread
queue `cross` is drained. -/
def Hurried (e : Executor) (cross : List (TaskId × ℕ)) (hd hr : Bool) : Prop :=
  hd = true ∨ hr = true ∨ e.tls.blockOnYielded = true ∨ e.localQueue ≠ [] ∨ e.tls.taskReady ≠ [] ∨
    ∃ x ∈ cross, (e.tls.setNotified x.1).1 = true

instance : Decidable (e.Hurried cross hd hr) := inferInstanceAs (Decidable (_ ∨ _))

theorem Hurried.mono {cross' : List (TaskId × ℕ)} (h : e.Hurried cross hd hr)
    (hsub : ∀ x ∈ cross, x ∈ cross') : e.Hurried cross' hd hr := by
  rcases h with h | h | h | h | h | ⟨x, hx, h⟩
  · exact .inl h
  · exact .inr (.inl h)
  · exact .inr (.inr (.inl h))
  · exact .inr (.inr (.inr (.inl h)))
  · exact .inr (.inr (.inr (.inr (.inl h))))
  · exact .inr (.inr (.inr (.inr (.inr ⟨x, hsub x hx, h⟩))))

/-- Draining decides nothing: an id that is not suppressed is in the task-ready queue next. -/
theorem hurried_receive (e : Executor) (id : TaskId) (k : ℕ) (rest : List (TaskId × ℕ)) :
    (e.receiveCrossThread id).Hurried rest hd hr ↔ e.Hurried ((id, k) :: rest) hd hr := by
  have hp : Tls.Pushed e.tls .task id (e.receiveCrossThread id).tls :=
    Tls.pushed_pushReady e.tls .task id
  have hready : (e.receiveCrossThread id).tls.taskReady = _ := hp.ready_eq
  have hlocal : (e.receiveCrossThread id).localQueue = e.localQueue := rfl
  simp only [Hurried, hp.yielded_eq, hlocal, hready]
  by_cases hset : id ≠ rootId ∧ e.tls.isNotified id = true
  · -- the push was suppressed, and changed no flag
    have hflag : ∀ t, (e.receiveCrossThread id).tls.isNotified t = e.tls.isNotified t := by
      intro t
      rw [hp.flag_eq]
      by_cases ht : t = id
      · simp [ht, hset.2]
      · simp [ht]
    simp [Tls.setNotified_fst, hflag, Tls.ready, hset]
  · have hself : (e.tls.setNotified id).1 = true := by
      rw [Tls.setNotified_fst]
      by_cases hroot : id = rootId
      · simp [hroot]
      · simpa [hroot] using hset
    simp [if_neg hset, hself]

/-- The timeout, once the cross-thread queue is empty: none exactly if something hurries the
park. -/
theorem parkTimeout_decideTimeout (e : Executor) (hd hr : Bool) :
    parkTimeout (e.decideTimeout hd hr).1 = if e.Hurried [] hd hr then 0 else 100 := by
  have hiff : (e.decideTimeout hd hr).1 = true ↔ ¬ e.Hurried [] hd hr := by
    simp [decideTimeout, Tls.takeBlockOnYielded, Hurried, List.isEmpty_iff, and_assoc]
    tauto
  by_cases h : e.Hurried [] hd hr
  · rw [if_pos h, Bool.eq_false_iff.mpr (fun ht => hiff.mp ht h)]
    rfl
  · rw [if_neg h, hiff.mpr h]
    rfl

end Executor

/-- The next step of the executor's thread resets the flag of the interrupt. -/
def Pc.resets : Pc → Bool
  | .parkBegin _ => true
  | _ => false

namespace State

variable {s s' : State} {l : Label}

/-- While the executor blocks, with a task in the injection queue whose spawn has returned, a wake
of mio is due. -/
def Prompt (s : State) : Prop :=
  ∀ count timeout, s.pc = .parked count timeout → timeout ≠ 0 →
    ∀ task k, (task, k) ∈ s.shared.injection → (∀ c ∈ s.shared.calls, c.ticket ≠ k) →
      s.shared.WakeDue

/-- Whatever has been spawned will be attended to: its spawn has yet to swap the flag, or a wake is
due. -/
def AllCovered (s : State) : Prop := ∀ x ∈ s.shared.injection, s.shared.Covered x.2

/-- Before the flag is reset, the executor has something to do already, or all that has been spawned
will be attended to. -/
def ResetOk (s : State) (l : Label) : Prop :=
  l = .exec → s.pc.resets = true →
    s.exec.Hurried s.shared.crossQueue (!s.exec.tls.deferred.isEmpty)
      (!s.exec.tls.reactorReady.isEmpty) ∨ s.AllCovered

instance : Decidable s.AllCovered := inferInstanceAs (Decidable (∀ x ∈ s.shared.injection, _))

instance : Decidable (s.ResetOk l) := inferInstanceAs (Decidable (_ → _ → _))

/-- The condition of the reset, as it carries on to the end of the poll. -/
structure Attended (s : State) : Prop where
  draining : ∀ count hd hr, s.pc = .parkCross count hd hr →
    s.exec.Hurried s.shared.crossQueue hd hr ∨ s.AllCovered
  parked : ∀ count timeout, s.pc = .parked count timeout → timeout = 0 ∨ s.AllCovered

theorem attended_of_not_waiting (h : s.pc.waiting = false) : Attended s := by
  constructor
  · intro count hd hr hpc
    rw [hpc] at h
    cases h
  · intro count timeout hpc
    rw [hpc] at h
    cases h

theorem AllCovered.caller (h : s.AllCovered) (hok : s.shared.CallsOk) (harmed : s.shared.Armed)
    (hcaller : s.shared.CallerStep s'.shared) : s'.AllCovered := by
  intro x hx
  rcases hcaller.queues.1 x hx with hx | hcov
  · exact hcaller.covered hok harmed (h x hx)
  · exact hcov

theorem Attended.step (h : Attended s) (hw : Wired s) (hstep : s.step l = some s')
    (hreset : s.ResetOk l) : Attended s' := by
  rcases (step_cases hstep).interrupt_cases with ⟨hexec, hpc, hcaller⟩ | ⟨count, rfl, hpc, rfl⟩ |
    ⟨count, hd, hr, -, hpc, rfl⟩ | hq
  · constructor
    · intro count hd hr hpc'
      rw [hpc] at hpc'
      rcases h.draining count hd hr hpc' with hh | hall
      · rw [hexec]
        exact .inl (hh.mono fun x hx => hcaller.mem_crossQueue hx)
      · exact .inr (hall.caller hw.calls (hw.armed (by rw [hpc']; rfl)) hcaller)
    · intro count timeout hpc'
      rw [hpc] at hpc'
      exact (h.parked count timeout hpc').imp_right fun hall =>
        hall.caller hw.calls (hw.armed (by rw [hpc']; rfl)) hcaller
  · refine ⟨?_, fun count timeout hpc' => by cases hpc'⟩
    rintro _ _ _ ⟨⟩
    exact hreset rfl (by rw [hpc]; rfl)
  · have hold := h.draining count hd hr hpc
    rcases s.drainCross_cases fun s => { s with
        exec := (s.exec.decideTimeout hd hr).2
        pc := .parked count (Executor.parkTimeout (s.exec.decideTimeout hd hr).1) } with
      ⟨hempty, heq⟩ | ⟨id, k, rest, hcons, heq⟩
    · rw [parkCross, heq]
      refine ⟨fun count hd hr hpc' => (by cases hpc'), ?_⟩
      rintro _ _ ⟨⟩
      rw [hempty] at hold
      refine hold.imp_left fun hh => ?_
      rw [Executor.parkTimeout_decideTimeout, if_pos hh]
    · rw [parkCross, heq]
      constructor
      · intro count' hd' hr' hpc'
        rw [hpc] at hpc'
        cases hpc'
        rw [hcons] at hold
        exact hold.imp_left (Executor.hurried_receive s.exec id k rest).mpr
      · intro count' timeout hpc'
        rw [hpc] at hpc'
        cases hpc'
  · exact attended_of_not_waiting hq.pc

theorem attended_of_restrict (h : (machine.restrict ResetOk).Reachable s) : Attended s := by
  suffices machine.Reachable s ∧ Attended s from this.2
  refine h.invariant (I := fun s => machine.Reachable s ∧ Attended s) ?_ ?_
  · intro s hinit
    refine ⟨.of_init hinit, ?_⟩
    obtain ⟨n, tls, -, -, rfl⟩ := hinit
    exact attended_of_not_waiting rfl
  · rintro s l s' ⟨hreach, hs⟩ ⟨hstep, hreset⟩
    exact ⟨hreach.step hstep, hs.step (wired_of_reachable hreach) hstep hreset⟩

/-! ### Undisturbed parks -/

/-- Left alone, a park that has nothing to hurry it drains the cross-thread queue and blocks. -/
theorem exists_follow_parked {count : ℕ} {hd hr : Bool} (hpc : s.pc = .parkCross count hd hr)
    (hbusy : s.shared.busy = false) (hh : ¬ s.exec.Hurried s.shared.crossQueue hd hr) :
    ∃ n s', Machine.follow step (List.replicate n .exec) s = some s' ∧ s'.pc = .parked count 100 ∧
      s'.shared = { s.shared with crossQueue := [] } := by
  obtain ⟨cross, hcross⟩ : ∃ cross, s.shared.crossQueue = cross := ⟨_, rfl⟩
  rw [hcross] at hh
  induction cross generalizing s with
  | nil =>
    refine ⟨1, { s with
      exec := (s.exec.decideTimeout hd hr).2
      pc := .parked count (Executor.parkTimeout (s.exec.decideTimeout hd hr).1) }, ?_, ?_, ?_⟩
    · simp [Machine.follow, step, hbusy, execStep, hpc, drainCross, hcross]
    · rw [Executor.parkTimeout_decideTimeout, if_neg hh]
    · rw [← hcross]
  | cons x rest ih =>
    obtain ⟨id, k⟩ := x
    rw [← Executor.hurried_receive] at hh
    obtain ⟨n, s', hfollow, hpc', hsh⟩ :=
      ih (s := { s with
        exec := s.exec.receiveCrossThread id
        shared := { s.shared with crossQueue := rest } }) hpc hbusy hh rfl
    refine ⟨n + 1, s', ?_, hpc', hsh⟩
    rw [List.replicate_succ, Machine.follow, ← hfollow]
    simp [step, hbusy, execStep, hpc, drainCross, hcross]

/-- Left alone, a reset that is not in time leads to a poll that a spawned task waits out. -/
theorem exists_not_prompt (hw : Wired s) (hstep : s.step .exec = some s')
    (hreset : ¬ s.ResetOk .exec) :
    ∃ n t, Machine.follow step (List.replicate n .exec) s = some t ∧ ¬ t.Prompt := by
  simp only [ResetOk, forall_const, not_forall, not_or] at hreset
  obtain ⟨hpc, hh, hall⟩ := hreset
  obtain ⟨count, hpc⟩ : ∃ count, s.pc = .parkBegin count := by
    cases hcase : s.pc with
    | parkBegin count => exact ⟨count, rfl⟩
    | _ =>
      rw [hcase] at hpc
      cases hpc
  obtain ⟨⟨task, k⟩, hmem, hcov⟩ : ∃ x ∈ s.shared.injection, ¬ s.shared.Covered x.2 := by
    simpa [AllCovered] using hall
  have hbusy : s.shared.busy = false := by
    by_contra hb
    simp [step, hb] at hstep
  have hs' : s' = { s with
      pc := .parkCross count (!s.exec.tls.deferred.isEmpty) (!s.exec.tls.reactorReady.isEmpty)
      shared := { s.shared with notified := false } } := by
    simpa [step, hbusy, execStep, hpc] using hstep.symm
  obtain ⟨n, t, hfollow, hpc', hsh⟩ := exists_follow_parked (s := s') (by rw [hs'])
    (by rw [hs']; exact hbusy) (by rw [hs']; exact hh)
  refine ⟨n + 1, t, ?_, fun hprompt => hcov (.inr ?_)⟩
  · rw [List.replicate_succ, Machine.follow, hstep]
    exact hfollow
  · have hcalls : t.shared.calls = s.shared.calls := by
      rw [hsh, hs']
    have hdue := hprompt count 100 hpc' (by decide) task k (by rw [hsh, hs']; exact hmem) ?_
    · rw [hsh, hs'] at hdue
      exact hdue
    · -- a call of this ticket would cover the task
      rw [hcalls]
      intro c hc hk
      rcases hw.calls.sent (task, k) hmem c hc hk with hstage | hstage
      · exact hcov (.inl ⟨c, hc, hk, hstage⟩)
      · exact hcov (.inr (.inr ⟨c, hc, hstage⟩))

/-- **Spawned tasks and the blocked executor.** In every run in which each reset is in time, no
spawned task waits out a poll; and a reset that is not in time leads, if no other thread interferes,
to a poll that a spawned task waits out. -/
theorem restrict_resetOk_prompt (h : (machine.restrict ResetOk).Reachable s) :
    s.Prompt ∧ ∀ s', s.step .exec = some s' → ¬ s.ResetOk .exec →
      ∃ n t, Machine.follow step (List.replicate n .exec) s = some t ∧ ¬ t.Prompt := by
  constructor
  · intro count timeout hpc hne task k hmem hreturned
    rcases (attended_of_restrict h).parked count timeout hpc with hzero | hall
    · exact absurd hzero hne
    · exact (hall (task, k) hmem).wakeDue hreturned
  · intro s' hstep hreset
    exact exists_not_prompt (wired_of_reachable h.of_restrict) hstep hreset

/-- A task is spawned while the executor waits in its first poll. -/
theorem restrict_resetOk_prompt_spawn : ∃ s, (machine.restrict ResetOk).Reachable s ∧
    s.pc = .parked 0 100 ∧ s.shared.injection ≠ [] ∧ s.shared.calls = [] ∧ s.Prompt ∧
    ∀ s', s.step .exec = some s' → ¬ s.ResetOk .exec →
      ∃ n t, Machine.follow step (List.replicate n .exec) s = some t ∧ ¬ t.Prompt := by
  have hstart : (machine.restrict ResetOk).Reachable (new 1 .new) :=
    .of_init ⟨1, .new, by decide, rfl, rfl⟩
  obtain ⟨s, hfollow, hpc, hinj, hcalls⟩ : ∃ s,
      Machine.follow (fun s l => if s.ResetOk l then s.step l else none)
        [.blockOn, .exec, .futureReturns false, .exec, .exec, .exec, .exec, .exec, .exec, .exec,
          .exec, .exec, .exec, .spawn false 0, .call 0, .call 0, .call 0] (new 1 .new) = some s ∧
      s.pc = .parked 0 100 ∧ s.shared.injection ≠ [] ∧ s.shared.calls = [] :=
    ⟨_, rfl, by decide, by decide, by decide⟩
  have hreach := hstart.follow_restrict hfollow
  exact ⟨s, hreach, hpc, hinj, hcalls, restrict_resetOk_prompt hreach⟩

/-- With a budget of one poll: a task is spawned during the first poll of the operating system, and
wakes itself. In the next tick it is polled once and spawns another, whose wake is swallowed, since
the flag is still set. The second task then waits out the next poll. -/
theorem not_prompt : ¬ ∀ s, machine.Reachable s → s.Prompt := by
  intro hall
  have hstart : machine.Reachable (new 1 .new) :=
    .of_init ⟨1, .new, by decide, rfl, rfl⟩
  obtain ⟨s, hfollow, hpc, hmem, hcalls, hpending⟩ : ∃ s, Machine.follow step
      [.blockOn, .exec, .futureReturns false, .exec, .exec, .exec, .exec, .exec, .exec, .exec,
        .exec, .exec, .exec, .spawn false 0, .call 0, .call 0, .call 0, .osReturns true,
        .exec, .exec, .exec, .exec, .exec, .exec, .exec, .exec, .wake .task 1, .futureReturns false,
        .exec, .exec, .exec, .futureReturns false, .exec, .exec, .exec, .exec, .exec, .exec, .exec,
        .spawn true 1, .call 1, .call 1, .futureReturns true, .exec, .exec, .exec]
      (new 1 .new) = some s ∧ s.pc = .parked 1 100 ∧ (⟨2, 1⟩, 1) ∈ s.shared.injection ∧
      s.shared.calls = [] ∧ s.shared.mioPending = false :=
    ⟨_, rfl, by decide, by decide, by decide, by decide⟩
  have hdue := hall s (hstart.follow hfollow) 1 100 hpc (by decide) _ _ hmem
  rw [hcalls] at hdue
  rcases hdue (by simp) with hp | ⟨c, hc, -⟩
  · rw [hpending] at hp
    cases hp
  · rw [hcalls] at hc
    cases hc

end State

end Lion
