import Lion.Executor.Interrupt
import Lion.Executor.Specification

/-!
# Who is woken is polled

A task that has been woken, has yielded or has been spawned waits somewhere: in a ready queue, the
deferred queue, the cross-thread queue or the injection queue. Every whole tick empties each of them
at one of its stages, and what leaves them goes to the end of the local queue, where waiting is
bounded (`Serving.polled`). So nothing waits for ever, in a sense that counts: with at most `L` in
the local queue and a budget of `n`, who waits anywhere is polled within `L / n + 3` ticks.

## Arrivals

The first half is general. An `Arrival` is something that waits until it arrives, and has arrived
when a tick comes to a certain stage; it arrives within two ticks, since the second of two ticks
that end is a whole one. There are three of them. An accepted task in a thread-local queue arrives
in the local queue at the stage at which that queue is drained. An id in the cross-thread queue
arrives in one of the queues of the thread, from which it goes on as the first kind. A task that was
sent arrives in the local queue when it is accepted.

## Spawned tasks

A task that is sent is accepted unless its id is in the ledger already. That it is not is a matter
of the counter from which ids are taken, and of all the tasks on their way: `Fresh` says that their
ids are below the counter, differ from each other and are not in the ledger. It holds as long as the
counter has not wrapped around (`Few`), which takes `2 ^ 64` calls.

## What bounds the queue

`L` bounds the local queue at every point of the run, and not at its start: while a task is on its
way others may be queued before it. A bound of `0` is excluded, since a queue that holds something
is longer than that.

## Main definitions

* `State.Arrival` — something that arrives in every tick
* `State.Fresh` — the ids of tasks that are on their way are new
* `QueueBound` — how long the local queue gets

## Main results

* `State.exists_step_of_log` — the step at which an event was logged
* `State.Arrival.arrives` — what arrives in every tick arrives within two
* `State.run_polled_of_pending` — who waits anywhere is polled within so many ticks
-/

namespace Lion

open Trace

/-! ### Waiting in a thread-local queue -/

/-- The stage at which a tick drains a source for the last time. -/
def DrainSource.stage : DrainSource → ℕ
  | .deferred => 2
  | .reactorWake => 5
  | .taskWake => 6

theorem DrainSource.milestone_iff {source : DrainSource} {ev : ExecutorEvent} :
    Milestone source.stage ev ↔ ev.Drains source := by
  cases source <;> exact Iff.rfl

/-- An accepted task stays accepted, as the log only grows. -/
theorem AcceptedIn.append {log : List ExecutorEvent} {id : TaskId} (h : AcceptedIn log id)
    (evs : List ExecutorEvent) : AcceptedIn (log ++ evs) id := by
  obtain ⟨task, hmem, hid⟩ := h
  exact ⟨task, List.mem_append_left _ hmem, hid⟩

namespace Executor

variable {e e' : Executor} {act : Act} {t : TaskId} {source : DrainSource}

/-- The thread-local queue that a drain of this source takes over. -/
def waiting (e : Executor) : DrainSource → List TaskId
  | .taskWake => e.tls.taskReady
  | .reactorWake => e.tls.reactorReady
  | .deferred => e.tls.deferred

/-- An accepted id stays in the ledger, whatever the act. -/
theorem Step.contains (h : Step e act e') (ht : e.ledger.contains t = true) :
    e'.ledger.contains t = true := by
  rcases h.accepts with ⟨task, -, -, rfl⟩ | ⟨hledger, -⟩
  · rw [TidLedger.contains_mark, ht, Bool.true_or]
  · rw [hledger, ht]

/-- A push takes nobody out of a queue, and only appends. -/
theorem mem_waiting_wake (src : WakeSource) (id : TaskId) (ht : t ∈ e.waiting source) :
    t ∈ (e.wake src id).waiting source := by
  have hp := Tls.pushed_pushReady e.tls src id
  rw [← wake_tls] at hp
  cases source with
  | taskWake =>
    show t ∈ (e.wake src id).tls.ready .task
    exact hp.mem_ready ht
  | reactorWake =>
    show t ∈ (e.wake src id).tls.ready .reactor
    exact hp.mem_ready ht
  | deferred =>
    show t ∈ (e.wake src id).tls.deferred
    rw [hp.deferred_eq]
    exact ht

/-- Whoever waits in a thread-local queue stays there until its source is drained, and is in the
local queue then. -/
theorem Step.waiting (h : Step e act e') (hledger : e.ledger.contains t = true)
    (ht : t ∈ e.waiting source) :
    t ∈ e'.waiting source ∧ (∀ ev, e'.log = e.log ++ [ev] → ¬ ev.Drains source) ∨
      t ∈ e'.localQueue := by
  have hquiet : e'.waiting source = e.waiting source → e'.log = e.log →
      t ∈ e'.waiting source ∧ (∀ ev, e'.log = e.log ++ [ev] → ¬ ev.Drains source) ∨
        t ∈ e'.localQueue := by
    intro hw hlog
    refine .inl ⟨hw ▸ ht, fun ev heq => ?_⟩
    rw [hlog] at heq
    simp at heq
  have hevent : ∀ ev : ExecutorEvent, e'.waiting source = e.waiting source →
      e'.log = e.log ++ [ev] → ¬ ev.Drains source →
      t ∈ e'.waiting source ∧ (∀ ev, e'.log = e.log ++ [ev] → ¬ ev.Drains source) ∨
        t ∈ e'.localQueue := by
    intro ev hw hlog hev
    refine .inl ⟨hw ▸ ht, fun ev' heq => ?_⟩
    obtain ⟨-, hsame⟩ := List.append_inj' (hlog.symm.trans heq) rfl
    cases hsame
    exact hev
  cases h with
  | wake src id =>
    refine .inl ⟨mem_waiting_wake src id ht, fun ev heq => ?_⟩
    have hlog : (e.wake src id).log = e.log := rfl
    rw [hlog] at heq
    simp at heq
  | receive id =>
    refine .inl ⟨mem_waiting_wake .task id ht, fun ev heq => ?_⟩
    have hlog : (e.receiveCrossThread id).log = e.log := rfl
    rw [hlog] at heq
    simp at heq
  | yield heq =>
    obtain ⟨id, -, rfl⟩ := deferCurrent_cases heq
    refine .inl ⟨?_, fun ev heq => by simp at heq⟩
    cases source with
    | deferred => exact List.mem_append_left _ ht
    | taskWake | reactorWake => exact ht
  | drainReactor =>
    cases source with
    | reactorWake => exact .inr (mem_drain hledger ht)
    | taskWake | deferred =>
      exact hevent (.drain .reactorWake _) rfl rfl fun hd => nomatch hd.choose_spec
  | drainTask =>
    cases source with
    | taskWake => exact .inr (mem_drain hledger ht)
    | reactorWake | deferred =>
      exact hevent (.drain .taskWake _) rfl rfl fun hd => nomatch hd.choose_spec
  | drainDeferred =>
    cases source with
    | deferred => exact .inr (mem_drain hledger ht)
    | reactorWake | taskWake =>
      exact hevent (.drain .deferred _) rfl rfl fun hd => nomatch hd.choose_spec
  | popInjection raw =>
    rcases e.popInjection_cases raw with ⟨-, heq⟩ | ⟨task, -, -, heq⟩
    · rw [heq] at hevent ⊢
      exact hevent _ (by cases source <;> rfl) rfl fun hd => nomatch hd.choose_spec
    · rw [heq] at hevent ⊢
      exact hevent _ (by cases source <;> rfl) rfl fun hd => nomatch hd.choose_spec
  | @beginPoll id rest hrun hq =>
    rcases e.beginPoll_cases id rest with ⟨task, -, heq⟩ | ⟨-, heq⟩
    · rw [heq] at hquiet ⊢
      exact hquiet (by cases source <;> rfl) rfl
    · rw [heq] at hevent ⊢
      exact hevent _ (by cases source <;> rfl) rfl fun hd => nomatch hd.choose_spec
  | @endPoll id task ready hrun =>
    cases ready with
    | true =>
      exact hevent (.pollTask id (some task) .ready) (by cases source <;> rfl) rfl
        fun hd => nomatch hd.choose_spec
    | false =>
      exact hevent (.pollTask id (some task) .pending) (by cases source <;> rfl) rfl
        fun hd => nomatch hd.choose_spec
  | decide hd hr =>
    exact hevent (.park) (by cases source <;> rfl) rfl fun hd => nomatch hd.choose_spec
  | tickBegin =>
    exact hevent (.tickBegin) (by cases source <;> rfl) rfl fun hd => nomatch hd.choose_spec
  | tickEnd =>
    exact hevent (.tickEnd) (by cases source <;> rfl) rfl fun hd => nomatch hd.choose_spec
  | setCurrent id => exact hquiet (by cases source <;> rfl) rfl

/-- The task-ready queue is drained by one act only. -/
theorem Step.eq_drainTask (h : Step e act e') {ids : List TaskId}
    (hlog : e'.log = e.log ++ [.drain .taskWake ids]) : act = .drainTask := by
  have hne : ∀ ev : ExecutorEvent, e'.log = e.log ++ [ev] → ev = .drain .taskWake ids := by
    intro ev heq
    obtain ⟨-, hsame⟩ := List.append_inj' (heq.symm.trans hlog) rfl
    exact (List.cons.inj hsame).1
  have hquiet : e'.log ≠ e.log := by
    rw [hlog]
    simp
  cases h with
  | drainTask => rfl
  | wake | receive | setCurrent => exact absurd rfl hquiet
  | yield heq =>
    obtain ⟨id, -, rfl⟩ := deferCurrent_cases heq
    exact absurd rfl hquiet
  | drainReactor | drainDeferred => exact nomatch hne _ rfl
  | popInjection raw =>
    rcases e.popInjection_cases raw with ⟨-, heq⟩ | ⟨task, -, -, heq⟩
    · rw [heq] at hne
      exact nomatch hne _ rfl
    · rw [heq] at hne
      exact nomatch hne _ rfl
  | @beginPoll id rest =>
    rcases e.beginPoll_cases id rest with ⟨task, -, heq⟩ | ⟨-, heq⟩
    · rw [heq] at hquiet
      exact absurd rfl hquiet
    · rw [heq] at hne
      exact nomatch hne _ rfl
  | @endPoll id task ready =>
    cases ready with
    | true => exact nomatch hne (.pollTask id (some task) .ready) rfl
    | false => exact nomatch hne (.pollTask id (some task) .pending) rfl
  | decide | tickBegin | tickEnd => exact nomatch hne _ rfl

/-- A poll in progress goes on, or is logged by the act that ends it. -/
theorem Step.running (h : Step e act e') : e.running = none ∨ e'.running = e.running ∨
    ∃ ev id, e'.log = e.log ++ [ev] ∧ ev.polled = some id := by
  cases h with
  | yield heq =>
    obtain ⟨id, -, rfl⟩ := deferCurrent_cases heq
    exact .inr (.inl rfl)
  | popInjection raw => exact .inr (.inl (State.popInjection_running e raw))
  | beginPoll hrun => exact .inl hrun
  | @endPoll id task ready hrun =>
    obtain ⟨result, -, hlog⟩ := logged_endPoll ready hrun
    exact .inr (.inr ⟨_, id, hlog.log, rfl⟩)
  | wake | receive | drainReactor | drainTask | drainDeferred | decide | tickBegin | tickEnd
  | setCurrent => exact .inr (.inl rfl)

end Executor

namespace State

variable {s s' t : State} {l : Label} {ls : List Label} {k : ℕ} {id : TaskId}
  {evs before after : List ExecutorEvent} {ev : ExecutorEvent} {done : Act}

/-! ### Arrivals -/

/-- An event that was logged in a run was logged at a step of it. -/
theorem exists_step_of_log (before : List ExecutorEvent) (ev : ExecutorEvent)
    (after : List ExecutorEvent) (hok : PcOk s) (hrun : machine.Run s ls t)
    (hlog : t.exec.log = s.exec.log ++ (before ++ ev :: after)) :
    ∃ ls₁ u l v ls₂, machine.Run s ls₁ u ∧ u.step l = some v ∧ machine.Run v ls₂ t ∧
      u.exec.log = s.exec.log ++ before ∧ v.exec.log = u.exec.log ++ [ev] := by
  suffices PcOk t ∧ ∀ before ev after, t.exec.log = s.exec.log ++ (before ++ ev :: after) →
      ∃ ls₁ u l v ls₂, machine.Run s ls₁ u ∧ u.step l = some v ∧ machine.Run v ls₂ t ∧
        u.exec.log = s.exec.log ++ before ∧ v.exec.log = u.exec.log ++ [ev] from
    this.2 before ev after hlog
  clear hlog
  induction hrun with
  | nil =>
    refine ⟨hok, fun before ev after hlog => ?_⟩
    simp at hlog
  | @snoc as u t l hrun hlast ih =>
    obtain ⟨hu, ih⟩ := ih
    refine ⟨(step_act hu hlast).1, fun before ev after hlog => ?_⟩
    obtain ⟨evs, hlogged, hmark⟩ := logged_step hu hlast
    rcases hmark.eq_nil_or_singleton with rfl | ⟨x, rfl⟩
    · have heq := hlogged.log
      rw [List.append_nil] at heq
      obtain ⟨ls₁, u', l', v', ls₂, hfirst, hstep, hrest, hu', hv'⟩ :=
        ih before ev after (heq ▸ hlog)
      exact ⟨ls₁, u', l', v', ls₂ ++ [l], hfirst, hstep, hrest.snoc hlast, hu', hv'⟩
    · have heq := hlogged.log.symm.trans hlog
      rcases List.eq_nil_or_concat after with rfl | ⟨after, y, rfl⟩
      · rw [← List.append_assoc] at heq
        obtain ⟨hbefore, hev⟩ := List.append_inj' heq rfl
        cases hev
        exact ⟨as, u, l, t, [], hrun, hlast, .nil, hbefore, hlogged.log⟩
      · rw [List.concat_eq_append, ← List.cons_append, ← List.append_assoc, ← List.append_assoc]
          at heq
        obtain ⟨hbefore, -⟩ := List.append_inj' heq rfl
        obtain ⟨ls₁, u', l', v', ls₂, hfirst, hstep, hrest, hu', hv'⟩ :=
          ih before ev after (by rw [hbefore, List.append_assoc])
        exact ⟨ls₁, u', l', v', ls₂ ++ [l], hfirst, hstep, hrest.snoc hlast, hu', hv'⟩

/-- While something `Waits`, it goes on waiting or has `Arrived`; and it has arrived whenever a tick
comes to stage `k`. -/
structure Arrival (Waits Arrived : State → Prop) (k : ℕ) : Prop where
  step : ∀ u l v, machine.Reachable u → Waits u → u.step l = some v → Waits v ∨ Arrived v
  stage : ∀ u l v ev, machine.Reachable u → Waits u → u.step l = some v →
    v.exec.log = u.exec.log ++ [ev] → Milestone k ev → Arrived v

/-- In the run from `s` to `t`, which logged `evs`, `Arrived` held at a state from which `after` was
logged. -/
def ArrivesBy (Arrived : State → Prop) (s t : State) (evs after : List ExecutorEvent) : Prop :=
  ∃ ls₁ m ls₂ before, machine.Run s ls₁ m ∧ machine.Run m ls₂ t ∧ evs = before ++ after ∧
    m.exec.log = s.exec.log ++ before ∧ Arrived m

section Arrival

variable {Waits Arrived : State → Prop}

theorem log_of_run (hok : PcOk s) (hrun : machine.Run s ls t) :
    PcOk t ∧ ∃ evs, t.exec.log = s.exec.log ++ evs := by
  induction hrun with
  | nil => exact ⟨hok, [], (List.append_nil _).symm⟩
  | snoc _ hlast ih =>
    obtain ⟨hu, evs, hlog⟩ := ih
    obtain ⟨evs', hlogged, -⟩ := logged_step hu hlast
    exact ⟨(step_act hu hlast).1, evs ++ evs', by rw [hlogged.log, hlog, List.append_assoc]⟩

/-- In a run, it waits to the end or arrives at some step. -/
theorem Arrival.run (h : Arrival Waits Arrived k) (hs : machine.Reachable s) (hwaits : Waits s)
    (hrun : machine.Run s ls t) (hlog : t.exec.log = s.exec.log ++ evs) :
    Waits t ∨ ∃ after, ArrivesBy Arrived s t evs after := by
  induction hrun generalizing evs with
  | nil => exact .inl hwaits
  | @snoc as u t l hrun hlast ih =>
    have hu := hs.run hrun
    obtain ⟨-, evs₁, hlog₁⟩ := log_of_run (pcOk_of_reachable hs) hrun
    obtain ⟨evs₂, hlog₂, -⟩ := logged_step (pcOk_of_reachable hu) hlast
    obtain rfl : evs = evs₁ ++ evs₂ := by
      have heq := hlog.symm.trans (hlog₂.log.trans (congrArg (· ++ evs₂) hlog₁))
      rw [List.append_assoc] at heq
      exact List.append_cancel_left heq
    rcases ih hlog₁ with hw | ⟨after, ls₁, m, ls₂, before, hfirst, hrest, rfl, hm, harr⟩
    · refine (h.step u l t hu hw hlast).imp_right fun harr =>
        ⟨[], as ++ [l], t, [], evs₁ ++ evs₂, ?_⟩
      exact ⟨hrun.snoc hlast, .nil, (List.append_nil _).symm, hlog, harr⟩
    · refine .inr ⟨after ++ evs₂, ls₁, m, ls₂ ++ [l], before, hfirst, hrest.snoc hlast, ?_, hm,
        harr⟩
      rw [List.append_assoc]

/-- Two ends of ticks in a log, with what lies before, between and after them. -/
theorem exists_two_ticks (h : 2 ≤ ticks evs) : ∃ a b c,
    evs = a ++ .tickEnd :: (b ++ .tickEnd :: c) ∧ ticks a = 0 ∧ ticks b = 0 := by
  have hfirst : ∀ evs : List ExecutorEvent, 1 ≤ ticks evs → ∃ a c, evs = a ++ .tickEnd :: c ∧
      ticks a = 0 ∧ ticks evs = ticks c + 1 := by
    intro evs hone
    have hmem : .tickEnd ∈ evs := List.count_pos_iff.mp hone
    obtain ⟨a, x, c, rfl, rfl, ha⟩ :=
      LocalLiveness.exists_first (q := (· = ExecutorEvent.tickEnd)) ⟨_, hmem, rfl⟩
    have hzero : ticks a = 0 := List.count_eq_zero.mpr fun hin => ha _ hin rfl
    refine ⟨a, c, rfl, hzero, ?_⟩
    rw [ticks_append, hzero, ticks, List.count_cons_self, Nat.zero_add, ticks]
  obtain ⟨a, rest, rfl, ha, hcount⟩ := hfirst evs (Nat.le_of_succ_le h)
  obtain ⟨b, c, rfl, hb, -⟩ := hfirst rest (by omega)
  exact ⟨a, b, c, rfl, ha, hb⟩

/-- **What arrives in every tick arrives within two**, and all ticks but one are still to end. -/
theorem Arrival.arrives (h : Arrival Waits Arrived k) (hk : 2 ≤ k) (hle : k ≤ 6)
    (hs : machine.Reachable s) (hwaits : Waits s) (hrun : machine.Run s ls t)
    (hlog : t.exec.log = s.exec.log ++ evs) (hticks : 2 ≤ ticks evs) :
    ∃ after, ArrivesBy Arrived s t evs after ∧ ticks evs ≤ ticks after + 1 := by
  obtain ⟨a, b, c, rfl, ha, hb⟩ := exists_two_ticks hticks
  -- the second tick is a whole one, so it comes to stage `k`
  have hdone := ticksDone_of_reachable (hs.run hrun) (s.exec.log ++ a ++ .tickEnd :: b) .tickEnd c
    (by rw [hlog]; simp) rfl k (by omega) hle
  obtain ⟨x, hx, hmile⟩ := hdone.mem_of_cut (.inl (.inr rfl)) fun hm =>
    hm.not_bounds (by omega) (.inr rfl)
  obtain ⟨b₁, b₂, rfl⟩ := List.append_of_mem hx
  obtain ⟨ls₁, u, l, v, ls₂, hfirst, hstep, hrest, hu, hv⟩ :=
    exists_step_of_log (a ++ .tickEnd :: b₁) x (b₂ ++ .tickEnd :: c) (pcOk_of_reachable hs) hrun
      (by rw [hlog]; simp)
  have hreach := hs.run hfirst
  have hzero : ticks b₁ = 0 := by
    rw [ticks_append] at hb
    omega
  have hone : ticks (a ++ .tickEnd :: b₁) = 1 := by
    rw [ticks_append, ha, Nat.zero_add, ticks, List.count_cons_self, ← ticks, hzero]
  rcases h.run hs hwaits hfirst hu with hw | ⟨after, ls₃, m, ls₄, before, hm₁, hm₂, heq, hm, harr⟩
  · -- it is still waiting, and arrives now
    have hxne : x ≠ .tickEnd := fun hend => hmile.not_bounds (by omega) (.inr hend)
    refine ⟨b₂ ++ .tickEnd :: c, ⟨ls₁ ++ [l], v, ls₂, a ++ .tickEnd :: b₁ ++ [x],
      hfirst.snoc hstep, hrest, by simp, by rw [hv, hu, List.append_assoc],
      h.stage u l v x hreach hw hstep hv hmile⟩, ?_⟩
    have hcount : a ++ .tickEnd :: (b₁ ++ x :: b₂ ++ .tickEnd :: c) =
        (a ++ .tickEnd :: b₁) ++ ([x] ++ (b₂ ++ .tickEnd :: c)) := by simp
    have hsingle : ticks [x] = 0 := by
      rw [ticks, List.count_singleton, if_neg (by simpa using hxne)]
    rw [hcount, ticks_append, hone, ticks_append, hsingle]
    omega
  · -- it has arrived before
    refine ⟨after ++ (x :: b₂ ++ .tickEnd :: c), ⟨ls₃, m, ls₄ ++ l :: ls₂, before, hm₁,
      hm₂.append (.cons hstep hrest), ?_, hm, harr⟩, ?_⟩
    · rw [← List.append_assoc, ← heq]
      simp
    · have hcount : a ++ .tickEnd :: (b₁ ++ x :: b₂ ++ .tickEnd :: c) =
          (a ++ .tickEnd :: b₁) ++ (x :: b₂ ++ .tickEnd :: c) := by simp
      rw [hcount, ticks_append, hone, ticks_append after]
      omega

end Arrival

/-- A step leaves the executor alone, or performs one of its acts. -/
theorem exec_cases (hok : PcOk s) (hstep : s.step l = some s') :
    s'.exec = s.exec ∨ ∃ act, s.act l = some act ∧ s.exec.Step act s'.exec := by
  obtain ⟨-, hperf⟩ := step_act hok hstep
  cases hact : s.act l with
  | none =>
    rw [hact] at hperf
    exact .inl hperf
  | some act =>
    rw [hact] at hperf
    exact .inr ⟨act, rfl, hperf⟩

/-- An accepted id stays in the ledger, whatever the step. -/
theorem contains_step (hok : PcOk s) (hstep : s.step l = some s')
    (hid : s.exec.ledger.contains id = true) : s'.exec.ledger.contains id = true := by
  rcases exec_cases hok hstep with heq | ⟨act, -, hact⟩
  · rw [heq]
    exact hid
  · exact hact.contains hid

/-- An accepted task that waits in a thread-local queue arrives in the local queue. -/
theorem arrival_waiting (source : DrainSource) (id : TaskId) :
    Arrival (fun s => s.exec.ledger.contains id = true ∧ id ∈ s.exec.waiting source)
      (fun s => id ∈ s.exec.localQueue) source.stage := by
  constructor
  · rintro u l v hu ⟨hid, hwaits⟩ hstep
    have hok := pcOk_of_reachable hu
    have hid' := contains_step hok hstep hid
    rcases exec_cases hok hstep with heq | ⟨act, -, hact⟩
    · exact .inl ⟨hid', heq ▸ hwaits⟩
    · exact (hact.waiting hid hwaits).imp_left fun hw => ⟨hid', hw.1⟩
  · rintro u l v ev hu ⟨hid, hwaits⟩ hstep hlog hmile
    rcases exec_cases (pcOk_of_reachable hu) hstep with heq | ⟨act, -, hact⟩
    · rw [heq] at hlog
      simp at hlog
    · rcases hact.waiting hid hwaits with ⟨-, hnone⟩ | harr
      · exact absurd (DrainSource.milestone_iff.mp hmile) (hnone ev hlog)
      · exact harr

/-! ### Waiting in the cross-thread queue -/

/-- An id leaves the cross-thread queue by being received. -/
theorem crossQueue_step {x : TaskId × ℕ} (hx : x ∈ s.shared.crossQueue)
    (hstep : s.step l = some s') :
    x ∈ s'.shared.crossQueue ∨ s'.exec = s.exec.receiveCrossThread x.1 := by
  rcases (step_cases hstep).interrupt_cases with ⟨-, -, hcaller⟩ | ⟨count, -, -, rfl⟩ |
    ⟨count, hd, hr, -, hpc, rfl⟩ | hq
  · exact .inl (hcaller.mem_crossQueue hx)
  · exact .inl hx
  · exact received_drainCross s _ rfl x hx
  · exact hq.crossQueue x hx

theorem crossQueue_of_crossAct (h : s.crossAct done = .drainTask) : s.shared.crossQueue = [] := by
  rw [crossAct] at h
  split at h
  · cases h
  · assumption

/-- The task-ready queue is drained when the cross-thread queue is empty. -/
theorem crossQueue_of_drainTask (h : s.act l = some .drainTask) : s.shared.crossQueue = [] := by
  have hhead : s.headAct ≠ some .drainTask := by
    rw [headAct]
    split <;> simp
  cases l with
  | exec =>
    rw [act, execAct] at h
    cases hpc : s.pc with
    | nextCross | parkCross | parkCrossAfter =>
      rw [hpc] at h
      exact crossQueue_of_crossAct (Option.some.inj h)
    | pollLoop lp =>
      rw [hpc] at h
      dsimp only at h
      split at h
      · cases h
      · exact absurd h hhead
    | nextPop lp =>
      rw [hpc] at h
      exact absurd h hhead
    | _ =>
      rw [hpc] at h
      simp at h
  | futureReturns ready =>
    rw [act] at h
    split at h <;> cases h
  | _ => simp [act] at h

theorem crossQueue_eq_nil (hu : machine.Reachable s) (hstep : s.step l = some s')
    (hlog : s'.exec.log = s.exec.log ++ [ev]) (hev : ev.Drains .taskWake) :
    s.shared.crossQueue = [] := by
  obtain ⟨ids, rfl⟩ := hev
  rcases exec_cases (pcOk_of_reachable hu) hstep with heq | ⟨act, hact, hperf⟩
  · rw [heq] at hlog
    simp at hlog
  · rw [hperf.eq_drainTask hlog] at hact
    exact crossQueue_of_drainTask hact

/-- An id received from another thread is queued, be it by another wake. -/
theorem queued_receive (hs : machine.Reachable s) (hid : s.exec.ledger.contains id = true) :
    (s.exec.receiveCrossThread id).Queued id :=
  (Executor.queued_wake s.exec .task id).2 (allKept_of_reachable hs id hid).notified

/-- An accepted id in the cross-thread queue arrives in one of the queues of the thread. -/
theorem arrival_crossQueue (id : TaskId) :
    Arrival (fun s => s.exec.ledger.contains id = true ∧ ∃ k, (id, k) ∈ s.shared.crossQueue)
      (fun s => s.exec.ledger.contains id = true ∧ s.exec.Queued id) 6 := by
  constructor
  · rintro u l v hu ⟨hid, k, hmem⟩ hstep
    have hid' := contains_step (pcOk_of_reachable hu) hstep hid
    rcases crossQueue_step hmem hstep with hmem' | hreceived
    · exact .inl ⟨hid', k, hmem'⟩
    · refine .inr ⟨hid', ?_⟩
      rw [hreceived]
      exact queued_receive hu hid
  · rintro u l v ev hu ⟨-, k, hmem⟩ hstep hlog hmile
    rw [crossQueue_eq_nil hu hstep hlog hmile] at hmem
    cases hmem

end State

/-! ### Waiting in the injection queue -/

/-- The id of the task that a call has yet to send. -/
def Stage.unsent : Stage → Option TaskId
  | .send task => some task.id
  | .push _ | .swap | .mioWake => none

/-- The ids of the tasks on their way to the executor. -/
def Shared.pendingIds (sh : Shared) : List TaskId :=
  sh.injection.map (fun x => x.1.id) ++ sh.calls.filterMap fun c => c.stage.unsent

namespace State

variable {s s' t : State} {l : Label} {ls : List Label} {k L : ℕ} {id : TaskId}
  {evs after : List ExecutorEvent} {ev : ExecutorEvent}

/-- Ids on their way are new, and known to no other task. -/
structure Fresh (s : State) : Prop where
  /-- The counter counts spawns, which are calls. -/
  counter : s.shared.taskIdCounter.toNat ≤ s.shared.nextTicket + 1
  /-- Ids on their way are below it, -/
  pending_lt : ∀ id ∈ s.shared.pendingIds, id.toNat < s.shared.taskIdCounter.toNat
  /-- as are those that have arrived. -/
  accepted_lt : ∀ id, s.exec.ledger.contains id = true → id.toNat < s.shared.taskIdCounter.toNat
  /-- No two tasks on their way have the same. -/
  nodup : s.shared.pendingIds.Nodup
  /-- None of them is accepted. -/
  new : ∀ id ∈ s.shared.pendingIds, s.exec.ledger.contains id = false

/-- So few calls that the counter has not wrapped around. -/
def Few (s : State) : Prop := s.shared.nextTicket + 1 < 2 ^ 64

theorem fresh_new (n : ℕ) (tls : Tls) : Fresh (new n tls) := by
  constructor
  · exact Nat.le_refl 1
  · simp [State.new, Shared.new, Shared.pendingIds]
  · simp [State.new, Executor.new, TidLedger.contains_new]
  · simp [State.new, Shared.new, Shared.pendingIds]
  · simp [State.new, Shared.new, Shared.pendingIds]

/-- The ids on their way, and those that have arrived, are the same up to order. -/
theorem Fresh.perm (h : Fresh s) (hcounter : s'.shared.taskIdCounter = s.shared.taskIdCounter)
    (hnext : s'.shared.nextTicket = s.shared.nextTicket)
    (hpending : s'.shared.pendingIds.Perm s.shared.pendingIds)
    (hledger : s'.exec.ledger = s.exec.ledger) : Fresh s' where
  counter := by
    rw [hcounter, hnext]
    exact h.counter
  pending_lt id hid := by
    rw [hcounter]
    exact h.pending_lt id (hpending.mem_iff.mp hid)
  accepted_lt := by
    rw [hcounter, hledger]
    exact h.accepted_lt
  nodup := hpending.nodup_iff.mpr h.nodup
  new id hid := by
    rw [hledger]
    exact h.new id (hpending.mem_iff.mp hid)

/-- A task leaves the injection queue, and its id is accepted now or was before. -/
theorem Fresh.pop (h : Fresh s) {x : Task × ℕ} {rest : List (Task × ℕ)}
    (hinj : s.shared.injection = x :: rest)
    (hshared : s'.shared = { s.shared with injection := rest })
    (hledger : ∀ id, s'.exec.ledger.contains id = true →
      s.exec.ledger.contains id = true ∨ id = x.1.id) : Fresh s' := by
  have hpending : s.shared.pendingIds = x.1.id :: s'.shared.pendingIds := by
    simp [Shared.pendingIds, hinj, hshared]
  have hnodup := h.nodup
  rw [hpending, List.nodup_cons] at hnodup
  constructor
  · rw [hshared]
    exact h.counter
  · intro id hid
    rw [hshared]
    exact h.pending_lt id (by rw [hpending]; exact List.mem_cons_of_mem _ hid)
  · intro id hid
    rw [hshared]
    rcases hledger id hid with hid | rfl
    · exact h.accepted_lt id hid
    · exact h.pending_lt _ (by rw [hpending]; exact List.mem_cons_self)
  · exact hnodup.2
  · intro id hid
    by_contra hc
    rcases hledger id (by simpa using hc) with hacc | rfl
    · have := h.new id (by rw [hpending]; exact List.mem_cons_of_mem _ hid)
      rw [hacc] at this
      cases this
    · exact hnodup.1 hid

/-- A call is started, having taken the next id if it is to spawn. -/
theorem Fresh.spawn (h : Fresh s) (hfew : s.shared.nextTicket + 2 < 2 ^ 64) (own : Bool)
    (future : ℕ) : Fresh { s with shared := s.shared.startSpawn own future } := by
  have hcounter := h.counter
  have hsucc : (s.shared.taskIdCounter + 1).toNat = s.shared.taskIdCounter.toNat + 1 := by
    rw [UInt64.toNat_add]
    exact Nat.mod_eq_of_lt (by simp; omega)
  have hpending : (s.shared.startSpawn own future).pendingIds =
      s.shared.pendingIds ++ [s.shared.taskIdCounter] := by
    simp [Shared.pendingIds, Shared.startSpawn, Shared.startCall, Stage.unsent]
  constructor
  · show (s.shared.taskIdCounter + 1).toNat ≤ s.shared.nextTicket + 1 + 1
    omega
  · intro id hid
    show id.toNat < (s.shared.taskIdCounter + 1).toNat
    dsimp only at hid
    rw [hpending] at hid
    rcases List.mem_append.mp hid with hid | hid
    · have := h.pending_lt id hid
      omega
    · rw [List.mem_singleton.mp hid]
      omega
  · intro id hid
    show id.toNat < (s.shared.taskIdCounter + 1).toNat
    have := h.accepted_lt id hid
    omega
  · dsimp only
    rw [hpending]
    refine List.Nodup.append h.nodup (List.nodup_singleton _) ?_
    intro id hid hnew
    rw [List.mem_singleton.mp hnew] at hid
    exact absurd (h.pending_lt _ hid) (Nat.lt_irrefl _)
  · intro id hid
    dsimp only at hid ⊢
    rw [hpending] at hid
    rcases List.mem_append.mp hid with hid | hid
    · exact h.new id hid
    · rw [List.mem_singleton.mp hid]
      by_contra hc
      exact absurd (h.accepted_lt _ (by simpa using hc)) (Nat.lt_irrefl _)

/-- A call that has nothing to send moves on, and no task is on its way because of it. -/
theorem filterMap_setStage (sh : Shared) {stage : Stage} (hstage : stage.unsent = none)
    (hnone : ∀ c ∈ sh.calls, c.ticket = k → c.stage.unsent = none) :
    ((sh.setStage k stage).calls.filterMap fun c => c.stage.unsent) =
      sh.calls.filterMap fun c => c.stage.unsent := by
  rw [Shared.setStage, List.filterMap_map]
  refine List.filterMap_congr fun c hc => ?_
  dsimp only [Function.comp]
  split
  · rename_i hk
    rw [hnone c hc hk]
    exact hstage
  · rfl

/-- A call that has nothing to send returns, and no task is on its way because of it. -/
theorem filterMap_endCall (sh : Shared)
    (hnone : ∀ c ∈ sh.calls, c.ticket = k → c.stage.unsent = none) :
    ((sh.endCall k).calls.filterMap fun c => c.stage.unsent) =
      sh.calls.filterMap fun c => c.stage.unsent := by
  rw [Shared.endCall, List.filterMap_filter]
  refine List.filterMap_congr fun c hc => ?_
  by_cases hk : c.ticket = k
  · rw [if_neg (by simpa using hk), hnone c hc hk]
  · rw [if_pos (by simpa using hk)]

/-- A task is sent, and is on its way in the queue and no longer in the call. -/
theorem pendingIds_send {sh : Shared} {c : Call} {task : Task} (hok : sh.CallsOk)
    (hnodup : sh.pendingIds.Nodup) (hc : c ∈ sh.calls) (hk : c.ticket = k)
    (hstage : c.stage = .send task) :
    ({ sh with injection := sh.injection ++ [(task, k)] }.setStage k .swap).pendingIds.Perm
      sh.pendingIds := by
  obtain ⟨a, b, hcalls⟩ := List.append_of_mem hc
  have hunsent : c.stage.unsent = some task.id := by rw [hstage]; rfl
  have hids : (sh.calls.filterMap fun c => c.stage.unsent) =
      (a.filterMap fun c => c.stage.unsent) ++ task.id :: b.filterMap fun c => c.stage.unsent := by
    rw [hcalls, List.filterMap_append, List.filterMap_cons, hunsent]
  -- another call with this ticket would have the same task
  have hother : ∀ c' ∈ a ++ b, c'.ticket ≠ k := by
    intro c' hc' hk'
    have hmem : c' ∈ sh.calls := by
      rw [hcalls]
      rcases List.mem_append.mp hc' with h | h
      · exact List.mem_append_left _ h
      · exact List.mem_append_right _ (List.mem_cons_of_mem _ h)
    obtain rfl : c' = c := hok.unique c' hmem c hc (hk'.trans hk.symm)
    have hdup : task.id ∈ (a ++ b).filterMap fun c => c.stage.unsent :=
      List.mem_filterMap.mpr ⟨c', hc', hunsent⟩
    have hnodup' := (List.nodup_append.mp hnodup).2.1
    rw [hids, List.nodup_middle, ← List.filterMap_append, List.nodup_cons] at hnodup'
    exact hnodup'.1 hdup
  have hkeep : ∀ as : List Call, (∀ c' ∈ as, c'.ticket ≠ k) →
      (as.map fun c => if c.ticket = k then { c with stage := .swap } else c) = as := by
    intro as has
    refine (List.map_congr_left fun c' hc' => ?_).trans (List.map_id as)
    rw [if_neg (has c' hc')]
    rfl
  have hcalls' : (sh.setStage k .swap).calls = a ++ { c with stage := .swap } :: b := by
    rw [Shared.setStage]
    dsimp only
    rw [hcalls, List.map_append, List.map_cons, if_pos hk,
      hkeep a fun c' hc' => hother c' (List.mem_append_left _ hc'),
      hkeep b fun c' hc' => hother c' (List.mem_append_right _ hc')]
  have hpending : ({ sh with injection := sh.injection ++ [(task, k)] }.setStage k
      .swap).pendingIds = sh.injection.map (fun x => x.1.id) ++ task.id ::
        ((a.filterMap fun c => c.stage.unsent) ++ b.filterMap fun c => c.stage.unsent) := by
    rw [Shared.pendingIds]
    show (sh.injection ++ [(task, k)]).map (fun x => x.1.id) ++
      ((sh.setStage k .swap).calls.filterMap fun c => c.stage.unsent) = _
    rw [hcalls', List.map_append, List.append_assoc, List.filterMap_append]
    simp [Stage.unsent]
  rw [hpending, Shared.pendingIds, hids]
  exact List.Perm.append_left _ List.perm_middle.symm

/-- A call takes a step, after which the ids on their way are the same. -/
theorem Fresh.call (h : Fresh s) (hok : s.shared.CallsOk) {sh : Shared}
    (hcall : s.shared.callStep k = some sh) : Fresh { s with shared := sh } := by
  obtain ⟨c, hc, hk, hcases⟩ := Shared.callStep_cases hcall
  have hnone : c.stage.unsent = none → ∀ c' ∈ s.shared.calls, c'.ticket = k →
      c'.stage.unsent = none := by
    intro hc' c₀ hc₀ hk₀
    rw [hok.stage_eq hc hc₀ hk hk₀]
    exact hc'
  rcases hcases with ⟨task, hstage, rfl⟩ | ⟨id, hstage, rfl⟩ | ⟨hstage, -, rfl⟩ |
    ⟨hstage, -, rfl⟩ | ⟨hstage, rfl⟩
  · exact h.perm rfl rfl (pendingIds_send hok h.nodup hc hk hstage) rfl
  · refine h.perm rfl rfl (.of_eq ?_) rfl
    exact congrArg (s.shared.injection.map (fun x => x.1.id) ++ ·)
      (filterMap_setStage s.shared rfl (hnone (by rw [hstage]; rfl)))
  · refine h.perm rfl rfl (.of_eq ?_) rfl
    exact congrArg (s.shared.injection.map (fun x => x.1.id) ++ ·)
      (filterMap_endCall s.shared (hnone (by rw [hstage]; rfl)))
  · refine h.perm rfl rfl (.of_eq ?_) rfl
    exact congrArg (s.shared.injection.map (fun x => x.1.id) ++ ·)
      (filterMap_setStage s.shared rfl (hnone (by rw [hstage]; rfl)))
  · refine h.perm rfl rfl (.of_eq ?_) rfl
    exact congrArg (s.shared.injection.map (fun x => x.1.id) ++ ·)
      (filterMap_endCall s.shared (hnone (by rw [hstage]; rfl)))

/-- A step that has nothing to do with the injection queue. -/
structure Unrelated (s s' : State) : Prop where
  injection : s'.shared.injection = s.shared.injection
  ledger : s'.exec.ledger = s.exec.ledger
  /-- It does not say that there was nothing. -/
  log : s'.exec.log ≠ s.exec.log ++ [.popInjection none]

/-- Logging something else does not say that the injection queue was empty. -/
theorem log_ne {log : List ExecutorEvent} (hev : ev ≠ .popInjection none) :
    log ++ [ev] ≠ log ++ [.popInjection none] := by
  simpa using hev

theorem unrelated_pollHead (s : State) (lp : Loop) (empty : Pc) :
    Unrelated s (s.pollHead lp empty) ∧ (s.pollHead lp empty).shared = s.shared := by
  rw [pollHead]
  split
  · exact ⟨⟨rfl, rfl, by simp⟩, rfl⟩
  · rename_i id rest _
    refine ⟨⟨rfl, ?_, ?_⟩, rfl⟩
    · rcases s.exec.beginPoll_cases id rest with ⟨task, -, heq⟩ | ⟨-, heq⟩
      · rw [heq]
        rfl
      · rw [heq]
        rfl
    · rcases s.exec.beginPoll_cases id rest with ⟨task, -, heq⟩ | ⟨-, heq⟩
      · rw [heq]
        simp [Executor.takeHead]
      · rw [heq]
        exact log_ne (by simp)

/-- What the executor's thread does to the queues of others, apart from receiving ids. -/
theorem ExecStepped.shared_cases (h : ExecStepped s s') :
    (s'.shared.calls = s.shared.calls ∧ s'.shared.taskIdCounter = s.shared.taskIdCounter ∧
      s'.shared.nextTicket = s.shared.nextTicket) ∧
      (Unrelated s s' ∨ ∃ accepted rejected, s' = s.popInjection accepted rejected) := by
  have hsame : s'.shared = s.shared → Unrelated s s' →
      (s'.shared.calls = s.shared.calls ∧ s'.shared.taskIdCounter = s.shared.taskIdCounter ∧
        s'.shared.nextTicket = s.shared.nextTicket) ∧
        (Unrelated s s' ∨ ∃ accepted rejected, s' = s.popInjection accepted rejected) :=
    fun hshared hun => ⟨by rw [hshared]; exact ⟨rfl, rfl, rfl⟩, .inl hun⟩
  have hcross : ∀ done : State → State, s' = s.drainCross done → (done s).shared = s.shared →
      Unrelated s (done s) →
      (s'.shared.calls = s.shared.calls ∧ s'.shared.taskIdCounter = s.shared.taskIdCounter ∧
        s'.shared.nextTicket = s.shared.nextTicket) ∧
        (Unrelated s s' ∨ ∃ accepted rejected, s' = s.popInjection accepted rejected) := by
    rintro done rfl hshared hun
    rcases s.drainCross_cases done with ⟨-, heq⟩ | ⟨id, k, rest, -, heq⟩
    · rw [heq, hshared]
      exact ⟨⟨rfl, rfl, rfl⟩, .inl hun⟩
    · rw [heq]
      exact ⟨⟨rfl, rfl, rfl⟩, .inl ⟨rfl, rfl, by simp [Executor.receiveCrossThread]⟩⟩
  cases h with
  | popInjection | nextInjection => exact ⟨⟨rfl, rfl, rfl⟩, .inr ⟨_, _, rfl⟩⟩
  | nextCross | parkCrossAfter => exact hcross _ rfl rfl ⟨rfl, rfl, log_ne (by simp)⟩
  | parkCross => exact hcross _ rfl rfl ⟨rfl, rfl, log_ne (by simp)⟩
  | loopPolls lp | nextPop lp =>
    obtain ⟨hun, hshared⟩ := unrelated_pollHead s lp _
    exact hsame hshared hun
  | rootBegin => exact hsame rfl ⟨rfl, rfl, by simp [Executor.setCurrentTask]⟩
  | loopEnds => exact hsame rfl ⟨rfl, rfl, by simp⟩
  | parkBegin => exact ⟨⟨rfl, rfl, rfl⟩, .inl ⟨rfl, rfl, by simp⟩⟩
  | tickBegin | wakeDeferred | nextReactor | parkWakes | tickEnd =>
    exact hsame rfl ⟨rfl, rfl, log_ne (by simp)⟩

/-- Taking a task from the injection queue: it is empty, or its head is accepted or a duplicate. -/
theorem popInjection_state_cases (s : State) (accepted rejected : Pc) :
    s.shared.injection = [] ∧ (s.popInjection accepted rejected).shared = s.shared ∧
        (s.popInjection accepted rejected).exec.ledger = s.exec.ledger ∨
      ∃ x rest, s.shared.injection = x :: rest ∧
        (s.popInjection accepted rejected).shared = { s.shared with injection := rest } ∧
        ((s.popInjection accepted rejected).exec.ledger = s.exec.ledger ∧
            s.exec.ledger.contains x.1.id = true ∨
          (s.popInjection accepted rejected).exec.ledger = s.exec.ledger.mark x.1.id ∧
            (s.popInjection accepted rejected).exec.log =
              s.exec.log ++ [.popInjection (some x.1)] ∧
            x.1.id ∈ (s.popInjection accepted rejected).exec.localQueue) := by
  cases hinj : s.shared.injection with
  | nil =>
    refine .inl ⟨rfl, ?_, ?_⟩
    · show { s.shared with injection := s.shared.injection.tail } = s.shared
      rw [hinj, List.tail_nil, ← hinj]
    · rw [popInjection, hinj]
      rfl
  | cons x rest =>
    refine .inr ⟨x, rest, rfl, ?_, ?_⟩
    · rw [popInjection, hinj]
      rfl
    · rw [popInjection, hinj]
      rcases s.exec.popInjection_cases (some x.1) with ⟨hdup, heq⟩ | ⟨task, htask, -, heq⟩
      · refine .inl ⟨?_, hdup x.1 rfl⟩
        show (s.exec.popInjection (some x.1)).2.ledger = _
        rw [heq]
        rfl
      · cases htask
        refine .inr ⟨?_, ?_, ?_⟩
        · show (s.exec.popInjection (some x.1)).2.ledger = _
          rw [heq]
        · show (s.exec.popInjection (some x.1)).2.log = _
          rw [heq]
        · show x.1.id ∈ (s.exec.popInjection (some x.1)).2.localQueue
          rw [heq]
          simp

theorem Few.of_step (hfew : Few s') (hstep : s.step l = some s') : Few s := by
  have hle : s.shared.nextTicket ≤ s'.shared.nextTicket := by
    cases step_cases hstep with
    | exec _ hexec => exact hexec.shared_cases.1.2.2.ge
    | spawn | wakeForeign => exact Nat.le_succ _
    | call hcall =>
      obtain ⟨c, -, -, hcases⟩ := Shared.callStep_cases hcall
      rcases hcases with ⟨_, _, rfl⟩ | ⟨_, _, rfl⟩ | ⟨_, _, rfl⟩ | ⟨_, _, rfl⟩ | ⟨_, rfl⟩ <;>
        exact Nat.le_refl _
    | wake | yield | rootReturns | pollReturns | blockOn | osReturns => exact Nat.le_refl _
  rw [Few] at hfew ⊢
  omega

theorem Few.of_run (hfew : Few t) (hrun : machine.Run s ls t) : Few s := by
  induction hrun with
  | nil => exact hfew
  | snoc _ hlast ih => exact ih (hfew.of_step hlast)

theorem Fresh.step (h : Fresh s) (hok : s.shared.CallsOk) (hfew : Few s')
    (hstep : s.step l = some s') : Fresh s' := by
  have hsame : s'.shared = s.shared → s'.exec.ledger = s.exec.ledger → Fresh s' := by
    intro hshared hledger
    exact h.perm (by rw [hshared]) (by rw [hshared]) (.of_eq (by rw [hshared])) hledger
  cases step_cases hstep with
  | exec _ hexec =>
    obtain ⟨⟨hcalls, hcounter, hnext⟩, hun | ⟨accepted, rejected, rfl⟩⟩ := hexec.shared_cases
    · exact h.perm hcounter hnext
        (.of_eq (by rw [Shared.pendingIds, hun.injection, hcalls, Shared.pendingIds])) hun.ledger
    · rcases s.popInjection_state_cases accepted rejected with ⟨-, hshared, hledger⟩ |
        ⟨x, rest, hinj, hshared, hcases⟩
      · exact hsame hshared hledger
      · refine h.pop hinj hshared fun id hid => ?_
        rcases hcases with ⟨hledger, -⟩ | ⟨hledger, -⟩
        · exact .inl (hledger ▸ hid)
        · rw [hledger, TidLedger.contains_mark, Bool.or_eq_true, decide_eq_true_iff] at hid
          exact hid
  | wake => exact hsame rfl rfl
  | yield _ _ he =>
    obtain ⟨id, -, rfl⟩ := Executor.deferCurrent_cases he
    exact hsame rfl rfl
  | rootReturns | blockOn => exact hsame rfl rfl
  | pollReturns ready => exact hsame rfl (by cases ready <;> rfl)
  | osReturns => exact h.perm rfl rfl (.refl _) rfl
  | spawn own future => exact h.spawn hfew own future
  | wakeForeign id =>
    have hpending : (s.shared.startCall false (.push id)).pendingIds = s.shared.pendingIds := by
      simp [Shared.pendingIds, Shared.startCall, Stage.unsent]
    refine ⟨Nat.le_succ_of_le h.counter, ?_, h.accepted_lt, ?_, ?_⟩
    · dsimp only
      rw [hpending]
      exact h.pending_lt
    · dsimp only
      rw [hpending]
      exact h.nodup
    · dsimp only
      rw [hpending]
      exact h.new
  | call hcall => exact h.call hok hcall

theorem fresh_of_reachable (h : machine.Reachable s) (hfew : Few s) : Fresh s := by
  suffices Wired s ∧ (Few s → Fresh s) from this.2 hfew
  refine h.invariant (I := fun s => Wired s ∧ (Few s → Fresh s)) ?_ ?_
  · rintro s ⟨n, tls, _, _, rfl⟩
    exact ⟨wired_new n tls, fun _ => fresh_new n tls⟩
  · rintro s l s' ⟨hw, hs⟩ hstep
    exact ⟨hw.step hstep, fun hfew => (hs (hfew.of_step hstep)).step hw.calls hfew hstep⟩

/-- A task leaves the injection queue for the end of the local queue. -/
theorem injection_popped {x : Task × ℕ} {accepted rejected : Pc} (h : Fresh s)
    (hx : x ∈ s.shared.injection) :
    (s.popInjection accepted rejected).exec.log ≠ s.exec.log ++ [.popInjection none] ∧
      (x ∈ (s.popInjection accepted rejected).shared.injection ∨
        x.1.id ∈ (s.popInjection accepted rejected).exec.localQueue) := by
  rcases s.popInjection_state_cases accepted rejected with ⟨hnil, -⟩ |
    ⟨y, rest, hinj, hshared, ⟨-, hdup⟩ | ⟨-, hlog, hlocal⟩⟩
  · rw [hnil] at hx
    cases hx
  · -- it cannot be a duplicate
    have hnew := h.new y.1.id (by simp [Shared.pendingIds, hinj])
    rw [hdup] at hnew
    cases hnew
  · refine ⟨by rw [hlog]; exact log_ne (by simp), ?_⟩
    rw [hinj] at hx
    rw [hshared]
    rcases List.mem_cons.mp hx with rfl | hx
    · exact .inr hlocal
    · exact .inl hx

/-- A task that was sent arrives in the local queue. -/
theorem arrival_injection (x : Task × ℕ) :
    Arrival (fun s => Few s → x ∈ s.shared.injection)
      (fun s => Few s → x.1.id ∈ s.exec.localQueue) 3 := by
  constructor
  · intro u l v hu hwaits hstep
    by_cases hfew : Few v
    · have hx := hwaits (hfew.of_step hstep)
      suffices x ∈ v.shared.injection ∨ x.1.id ∈ v.exec.localQueue from
        this.imp (fun h _ => h) fun h _ => h
      cases step_cases hstep with
      | exec _ hexec =>
        obtain ⟨-, hun | ⟨accepted, rejected, rfl⟩⟩ := hexec.shared_cases
        · exact .inl (hun.injection ▸ hx)
        · exact (injection_popped (fresh_of_reachable hu (hfew.of_step hstep)) hx).2
      | call hcall =>
        obtain ⟨c, -, -, hcases⟩ := Shared.callStep_cases hcall
        rcases hcases with ⟨_, _, rfl⟩ | ⟨_, _, rfl⟩ | ⟨_, _, rfl⟩ | ⟨_, _, rfl⟩ | ⟨_, rfl⟩
        · exact .inl (List.mem_append_left _ hx)
        · exact .inl hx
        · exact .inl hx
        · exact .inl hx
        · exact .inl hx
      | wake | yield | rootReturns | pollReturns | blockOn | osReturns | spawn | wakeForeign =>
        exact .inl hx
    · exact .inl fun h => absurd h hfew
  · intro u l v ev hu hwaits hstep hlog hmile hfew
    obtain rfl : ev = .popInjection none := hmile
    have hx := hwaits (hfew.of_step hstep)
    have hquiet : v.exec.log ≠ u.exec.log := by
      rw [hlog]
      simp
    cases step_cases hstep with
    | exec _ hexec =>
      obtain ⟨-, hun | ⟨accepted, rejected, rfl⟩⟩ := hexec.shared_cases
      · exact absurd hlog hun.log
      · exact absurd hlog (injection_popped (fresh_of_reachable hu (hfew.of_step hstep)) hx).1
    | pollReturns ready _ _ hrun =>
      obtain ⟨result, -, hlogged⟩ := Executor.logged_endPoll ready hrun
      exact absurd hlog (hlogged.log ▸ log_ne (by simp))
    | yield _ _ he =>
      obtain ⟨id, -, rfl⟩ := Executor.deferCurrent_cases he
      exact absurd rfl hquiet
    | wake | rootReturns | blockOn | osReturns | spawn | wakeForeign | call =>
      exact absurd rfl hquiet

/-! ### Being polled -/

/-- The queue of the log is never longer than `L` while `evs` are logged. -/
def QueueBound (L : ℕ) (log evs : List ExecutorEvent) : Prop :=
  ∀ before after, evs = before ++ after → (replay (log ++ before)).length ≤ L

theorem length_replayEvent_le (q : List TaskId) (ev : ExecutorEvent) :
    (replayEvent q ev).length ≤ q.length + ev.enqueued.length := by
  cases ev with
  | popInjection task => cases task <;> simp [replayEvent, ExecutorEvent.enqueued]
  | _ => simp [replayEvent, ExecutorEvent.enqueued]

theorem length_replay_append_le (log evs : List ExecutorEvent) :
    (replay (log ++ evs)).length ≤ (replay log).length + (enqueuedIds evs).length := by
  induction evs using List.reverseRecOn with
  | nil => simp
  | append_singleton evs ev ih =>
    have hlast := length_replayEvent_le (replay (log ++ evs)) ev
    have hone : (enqueuedIds [ev]).length = ev.enqueued.length := by simp [enqueuedIds]
    rw [← List.append_assoc, replay_snoc, enqueuedIds_append, List.length_append, hone]
    omega

/-- The queue never holds more than was there and comes in. -/
theorem queueBound_of_enqueued {log : List ExecutorEvent}
    (h : (replay log).length + (enqueuedIds evs).length ≤ L) : QueueBound L log evs := by
  rintro before after rfl
  have hle := length_replay_append_le log before
  rw [enqueuedIds_append, List.length_append] at h
  omega

/-- The ids polled since `s`, but for a poll that was in progress there. -/
def polledSince (s : State) (evs : List ExecutorEvent) : List TaskId :=
  (polledIds evs).drop s.exec.runningId.length

/-- A poll in progress is in progress, or has been logged. -/
theorem runningId_le (hok : PcOk s) (hrun : machine.Run s ls t)
    (hlog : t.exec.log = s.exec.log ++ evs) :
    s.exec.runningId.length ≤ (polledIds evs).length + t.exec.runningId.length := by
  suffices PcOk t ∧ ∀ evs, t.exec.log = s.exec.log ++ evs →
      s.exec.runningId.length ≤ (polledIds evs).length + t.exec.runningId.length from
    this.2 evs hlog
  clear hlog
  induction hrun with
  | nil => exact ⟨hok, fun evs _ => Nat.le_add_left _ _⟩
  | @snoc as u t l hrun hlast ih =>
    obtain ⟨hu, ih⟩ := ih
    refine ⟨(step_act hu hlast).1, fun evs hlog => ?_⟩
    obtain ⟨-, evs₁, hlog₁⟩ := log_of_run hok hrun
    obtain ⟨evs₂, hlog₂, -⟩ := logged_step hu hlast
    obtain rfl : evs = evs₁ ++ evs₂ := by
      have heq := hlog.symm.trans (hlog₂.log.trans (congrArg (· ++ evs₂) hlog₁))
      rw [List.append_assoc] at heq
      exact List.append_cancel_left heq
    have hle := ih evs₁ hlog₁
    have hstep : u.exec.runningId.length ≤ (polledIds evs₂).length + t.exec.runningId.length := by
      rcases exec_cases hu hlast with heq | ⟨act, -, hact⟩
      · rw [heq]
        exact Nat.le_add_left _ _
      · rcases hact.running with hnone | hsame | ⟨ev, id, hev, hpolled⟩
        · rw [Executor.runningId, hnone]
          exact Nat.zero_le _
        · rw [Executor.runningId, Executor.runningId, hsame]
          exact Nat.le_add_left _ _
        · obtain rfl : evs₂ = [ev] := List.append_cancel_left (hlog₂.log.symm.trans hev)
          have hone : u.exec.runningId.length ≤ 1 := by
            rw [Executor.runningId]
            cases u.exec.running <;> simp
          have hlen : (polledIds [ev]).length = 1 := by simp [polledIds, hpolled]
          omega
    rw [polledIds_append, List.length_append]
    omega

/-- Whoever is in the local queue is polled within so many ticks. -/
theorem polled_of_mem_localQueue (hs : machine.Reachable s) (hrun : machine.Run s ls t)
    (hlog : t.exec.log = s.exec.log ++ evs) (hid : id ∈ s.exec.localQueue)
    (hbound : QueueBound L s.exec.log evs) (hticks : L ≤ s.exec.eventInterval * (ticks evs - 1)) :
    id ∈ s.polledSince evs := by
  obtain ⟨q, hq⟩ := List.mem_iff_getElem?.mp hid
  obtain ⟨p, rfl⟩ : ∃ p, p = s.exec.runningId.length + q := ⟨_, rfl⟩
  have hp : (s.exec.runningId ++ s.exec.localQueue)[s.exec.runningId.length + q]? = some id := by
    rw [List.getElem?_append_right (Nat.le_add_right _ _), Nat.add_sub_cancel_left, hq]
  have hlen : s.exec.runningId.length + q < (s.exec.runningId ++ s.exec.localQueue).length :=
    (List.getElem?_eq_some_iff.mp hp).1
  have hL := hbound [] evs rfl
  rw [List.append_nil, (fifo_of_reachable hs).queue] at hL
  have hle : s.exec.eventInterval * (ticks evs - 1) ≤
      s.exec.eventInterval * (ticks evs - s.pc.inRound.toNat) :=
    Nat.mul_le_mul_left _ (Nat.sub_le_sub_left (Bool.toNat_le _) _)
  obtain ⟨v, hv, -⟩ := serving_of_reachable hs
  refine List.mem_of_getElem? (i := q) ?_
  rw [polledSince, List.getElem?_drop]
  refine hv.polled hrun hlog hp ?_
  exact (Nat.lt_of_lt_of_le hlen hL).trans_le (hticks.trans hle)

theorem interval_of_run (hok : PcOk s) (hrun : machine.Run s ls t) :
    t.exec.eventInterval = s.exec.eventInterval := by
  suffices PcOk t ∧ t.exec.eventInterval = s.exec.eventInterval from this.2
  induction hrun with
  | nil => exact ⟨hok, rfl⟩
  | snoc _ hlast ih =>
    obtain ⟨evs, hlogged, -⟩ := logged_step ih.1 hlast
    exact ⟨(step_act ih.1 hlast).1, hlogged.interval.trans ih.2⟩

theorem QueueBound.append {evs' : List ExecutorEvent} {log : List ExecutorEvent}
    (h : QueueBound L log (evs' ++ evs)) : QueueBound L (log ++ evs') evs := by
  intro before after heq
  rw [List.append_assoc]
  exact h (evs' ++ before) after (by rw [heq, List.append_assoc])

/-- Who is polled after a later state is polled. -/
theorem polledSince_append (hok : PcOk s) (hrun : machine.Run s ls t)
    (hlog : t.exec.log = s.exec.log ++ before) (hid : id ∈ t.polledSince after) :
    id ∈ s.polledSince (before ++ after) := by
  -- a poll in progress at `s` is logged before `t`, or still in progress there
  have hle := runningId_le hok hrun hlog
  rw [polledSince, polledIds_append, List.drop_append]
  refine List.mem_append_right _ ?_
  rw [polledSince, show t.exec.runningId.length = s.exec.runningId.length -
    (polledIds before).length + (t.exec.runningId.length - (s.exec.runningId.length -
      (polledIds before).length)) by omega, ← List.drop_drop] at hid
  exact List.mem_of_mem_drop hid

/-- What follows from an arrival in the local queue: a poll within so many ticks. -/
theorem ArrivesBy.polled {Arrived : State → Prop} (h : ArrivesBy Arrived s t evs after)
    (hs : machine.Reachable s) (hbound : QueueBound L s.exec.log evs)
    (hpolled : ∀ ls m ls', machine.Run s ls m → machine.Run m ls' t → Arrived m →
      t.exec.log = m.exec.log ++ after → QueueBound L m.exec.log after →
      m.exec.eventInterval = s.exec.eventInterval → id ∈ m.polledSince after)
    (hlog : t.exec.log = s.exec.log ++ evs) : id ∈ s.polledSince evs := by
  obtain ⟨ls₁, m, ls₂, before, hfirst, hrest, rfl, hm, harr⟩ := h
  have hok := pcOk_of_reachable hs
  have hsince := hpolled ls₁ m ls₂ hfirst hrest harr (by rw [hlog, hm, List.append_assoc])
    (by rw [hm]; exact hbound.append) (interval_of_run hok hfirst)
  exact polledSince_append hok hfirst hm hsince

theorem lt_ticks {n : ℕ} (hL : 0 < L) (hticks : L ≤ n * (ticks evs - k)) :
    k + 1 ≤ ticks evs := by
  rcases Nat.lt_or_ge (ticks evs) (k + 1) with hlt | hge
  · rw [Nat.sub_eq_zero_of_le (by omega), Nat.mul_zero] at hticks
    omega
  · exact hge

/-- An accepted task that waits in a queue of the thread is polled. -/
theorem polled_of_waiting (hs : machine.Reachable s) (hrun : machine.Run s ls t)
    (hlog : t.exec.log = s.exec.log ++ evs) (hid : s.exec.ledger.contains id = true)
    (hwaits : (∃ source, id ∈ s.exec.waiting source) ∨ id ∈ s.exec.localQueue) (hL : 0 < L)
    (hbound : QueueBound L s.exec.log evs) (hticks : L ≤ s.exec.eventInterval * (ticks evs - 2)) :
    id ∈ s.polledSince evs := by
  have htwo := lt_ticks hL hticks
  rcases hwaits with ⟨source, hwaits⟩ | hlocal
  · have hstage : 2 ≤ source.stage ∧ source.stage ≤ 6 := by cases source <;> decide
    obtain ⟨after, harr, hcount⟩ := (arrival_waiting source id).arrives hstage.1 hstage.2 hs
      ⟨hid, hwaits⟩ hrun hlog (by omega)
    refine harr.polled hs hbound ?_ hlog
    intro ls m ls' hfirst hrest hm hlog' hbound' hinterval
    refine polled_of_mem_localQueue (hs.run hfirst) hrest hlog' hm hbound' ?_
    rw [hinterval]
    exact hticks.trans (Nat.mul_le_mul_left _ (by omega))
  · exact polled_of_mem_localQueue hs hrun hlog hlocal hbound
      (hticks.trans (Nat.mul_le_mul_left _ (by omega)))

theorem waiting_of_queued {e : Executor} (h : e.Queued id) :
    (∃ source, id ∈ e.waiting source) ∨ id ∈ e.localQueue := by
  rcases h with h | h | h
  · exact .inl ⟨.reactorWake, h⟩
  · exact .inl ⟨.taskWake, h⟩
  · exact .inr h

/-- An accepted id in the cross-thread queue is polled. -/
theorem polled_of_crossQueue (hs : machine.Reachable s) (hrun : machine.Run s ls t)
    (hlog : t.exec.log = s.exec.log ++ evs) (hid : s.exec.ledger.contains id = true)
    (hcross : ∃ k, (id, k) ∈ s.shared.crossQueue) (hL : 0 < L)
    (hbound : QueueBound L s.exec.log evs)
    (hticks : L ≤ s.exec.eventInterval * (ticks evs - 3)) : id ∈ s.polledSince evs := by
  have hthree := lt_ticks hL hticks
  obtain ⟨after, harr, hcount⟩ := (arrival_crossQueue id).arrives (by omega) (by omega) hs
    ⟨hid, hcross⟩ hrun hlog (by omega)
  refine harr.polled hs hbound ?_ hlog
  rintro ls m ls' hfirst hrest ⟨hid', hqueued⟩ hlog' hbound' hinterval
  refine polled_of_waiting (hs.run hfirst) hrest hlog' hid' (waiting_of_queued hqueued) hL
    hbound' ?_
  rw [hinterval]
  exact hticks.trans (Nat.mul_le_mul_left _ (by omega))

/-- **Who is woken, yields or is spawned is polled**, within `L / n + 3` ticks for a queue of at
most `L` and a budget of `n`, whatever else happens: a task that has been woken on the executor's
thread, or on another, or has yielded, since it was last taken from the queue; and a task that has
been spawned, unless so many calls were made that ids may have been used twice. A poll that is in
progress at the start does not count. -/
theorem run_polled_of_pending (hs : machine.Reachable s) (hrun : machine.Run s ls t)
    (hlog : t.exec.log = s.exec.log ++ evs) (hL : 0 < L) (hbound : QueueBound L s.exec.log evs)
    (hticks : L ≤ s.exec.eventInterval * (ticks evs - 3)) :
    (∀ id, AcceptedIn s.exec.log id → id ∈ s.exec.history.woken ∨ id ∈ s.exec.history.yielded ∨
        (∃ k, (id, k) ∈ s.shared.crossQueue) → id ∈ s.polledSince evs) ∧
      (t.shared.nextTicket + 1 < 2 ^ 64 →
        ∀ x ∈ s.shared.injection, x.1.id ∈ s.polledSince evs) := by
  have hthree := lt_ticks hL hticks
  have htwo : L ≤ s.exec.eventInterval * (ticks evs - 2) :=
    hticks.trans (Nat.mul_le_mul_left _ (by omega))
  constructor
  · intro id haccepted hcause
    have hid := (contains_iff_accepted hs id).mpr haccepted
    have hkept := allKept_of_reachable hs id hid
    rcases hcause with hwoken | hyielded | hcross
    · exact polled_of_waiting hs hrun hlog hid (waiting_of_queued (hkept.woken hwoken)) hL hbound
        htwo
    · refine polled_of_waiting hs hrun hlog hid ?_ hL hbound htwo
      exact (hkept.yielded hyielded).imp_left fun h => ⟨.deferred, h⟩
    · exact polled_of_crossQueue hs hrun hlog hid hcross hL hbound hticks
  · intro hfew x hx
    obtain ⟨after, harr, hcount⟩ := (arrival_injection x).arrives (by omega) (by omega) hs
      (fun _ => hx) hrun hlog (by omega)
    refine harr.polled hs hbound ?_ hlog
    intro ls m ls' hfirst hrest hm hlog' hbound' hinterval
    refine polled_of_mem_localQueue (hs.run hfirst) hrest hlog' (hm (Few.of_run hfew hrest)) hbound'
      ?_
    rw [hinterval]
    exact hticks.trans (Nat.mul_le_mul_left _ (by omega))

/-- A task yields in a tick, is woken on another thread after it, and another task is spawned. -/
def pendingThree : List Label :=
  .spawn false 0 :: .call 0 :: .blockOn :: .exec :: .futureReturns false :: execs 5 ++
    .yield :: .futureReturns false :: execs 7 ++ .osReturns false :: execs 8 ++
    [.spawn false 1, .call 1, .wakeForeign 1, .call 2]

/-- A tick in which there is nothing to poll. -/
def idleTick : List Label :=
  .exec :: .futureReturns false :: execs 10 ++ .osReturns false :: execs 8

/-- Four ticks, in the first of which both tasks are polled. -/
def fourTicks : List Label :=
  .exec :: .futureReturns false :: execs 5 ++ .futureReturns true :: .exec ::
    .futureReturns true :: execs 12 ++ .osReturns false :: execs 8 ++ idleTick ++ idleTick ++
    idleTick

/-- All of them are polled, though they wait in different queues. -/
theorem run_polled_of_pending_fourTicks : ∃ s t evs, machine.Reachable s ∧
    machine.Run s fourTicks t ∧ t.exec.log = s.exec.log ++ evs ∧ ticks evs = 4 ∧
    s.exec.tls.deferred = [1] ∧ s.shared.crossQueue = [(1, 2)] ∧
    s.shared.injection = [(⟨2, 1⟩, 1)] ∧ 1 ∈ s.polledSince evs ∧ 2 ∈ s.polledSince evs := by
  have hstart : machine.Reachable (new 4 .new) := .of_init ⟨4, .new, by decide, rfl, rfl⟩
  obtain ⟨s, hs, hdeferred, hcross, hinj, haccepted, hn, ht⟩ := Machine.exists_follow step
    pendingThree (new 4 .new) (fun s => s.exec.tls.deferred = [1] ∧
      s.shared.crossQueue = [(1, 2)] ∧ s.shared.injection = [(⟨2, 1⟩, 1)] ∧
      .popInjection (some ⟨1, 0⟩) ∈ s.exec.log ∧ s.exec.eventInterval = 4 ∧
      (Machine.follow step fourTicks s).any (fun t => decide
        (t.exec.log = s.exec.log ++ t.exec.log.drop s.exec.log.length ∧
          ticks (t.exec.log.drop s.exec.log.length) = 4 ∧
          (replay s.exec.log).length +
            (enqueuedIds (t.exec.log.drop s.exec.log.length)).length ≤ 3 ∧
          t.shared.nextTicket + 1 < 2 ^ 64)) = true)
    (by decide +kernel)
  obtain ⟨t, hfollow, hlog, hticks, hbound, hfew⟩ := Machine.exists_follow step fourTicks s _ ht
  have hreach := hstart.follow hs
  have hrun : machine.Run s fourTicks t := .of_follow hfollow
  obtain ⟨hpending, hspawned⟩ := run_polled_of_pending hreach hrun hlog (by decide)
    (queueBound_of_enqueued hbound) (by rw [hticks, hn]; decide)
  refine ⟨s, t, _, hreach, hrun, hlog, hticks, hdeferred, hcross, hinj, ?_, ?_⟩
  · exact hpending 1 ⟨⟨1, 0⟩, haccepted, rfl⟩ (.inr (.inr ⟨2, by rw [hcross]; simp⟩))
  · exact hspawned hfew (⟨2, 1⟩, 1) (by rw [hinj]; simp)

end State

end Lion
