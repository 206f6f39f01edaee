import Lion.Executor.Ticks
import Lion.Library.Server

/-!
# The executor as a server

What the executor is for, said without its program counter, its thread-locals or its threads: it is
a server with a queue, in the sense of `Server`, whose rounds are the ticks. The log of every run,
read as the acts of a server, is a run of one. So the queue is first in first out, nothing is polled
outside of a tick, no tick polls more than its budget, and no tick ends before it has polled what it
began with, as far as the budget goes.

With that, how long a queued task waits for its next poll is the server's bounded waiting, in ticks.

## Stages

What a tick may log depends on how far it has come. `Pc.stage` numbers the six things that a tick
does in order, from its beginning over the deferred queue and the injection queue to the park and
the drains after it; a tick gets to a stage by the event that marks it (`Milestone`), and within a
stage it may log what may happen more than once (`Marked`). One lemma, `logged_step`, says it for
every step of the runtime. `Specification` needs it again for what a tick must have done by its end.

## The round that a tick is

A round owes something from its beginning on. A tick does not know what it owes before it has come
to its loops, as it first queues what was deferred and what was spawned. `InRound` has a case for
each: during the opening the round owes the whole queue, up to the budget, and afterwards what is
left of it. Nothing is polled in the opening, so the two meet.

## Main definitions

* `ExecutorEvent.service` — an event, as an act of a server
* `State.Serving` — the server that a state is

## Main results

* `State.logged_step` — what a step logs, and what that does to the queue
* `State.Serving.run` — a run of the runtime is a run of the server
* `State.reachable_service` — the log of every run is a run of the server
* `State.run_polled` — a queued task is polled within so many ticks
-/

namespace Lion

/-- The act of a server that an event is: polls serve, drains and acceptances join. -/
def ExecutorEvent.service : ExecutorEvent → Server.Act TaskId
  | .tickBegin => .roundBegin
  | .tickEnd => .roundEnd
  | .pollTask id _ _ => .serve id
  | .popInjection (some task) => .join [task.id]
  | .drain _ ids => .join ids
  | .popInjection none | .park => .join []

/-- How many ticks ended, which is what waiting is counted in. -/
def ticks (evs : List ExecutorEvent) : ℕ := evs.count .tickEnd

@[simp] theorem ticks_append (evs evs' : List ExecutorEvent) :
    ticks (evs ++ evs') = ticks evs + ticks evs' :=
  List.count_append

section Service

variable (evs : List ExecutorEvent)

theorem served_service : Server.served (evs.map ExecutorEvent.service) = polledIds evs := by
  rw [Server.served, List.filterMap_map, polledIds]
  congr 1
  funext ev
  cases ev with
  | popInjection task => cases task <;> rfl
  | _ => rfl

theorem rounds_service : Server.rounds (evs.map ExecutorEvent.service) = ticks evs := by
  rw [Server.rounds, List.countP_map, ticks, List.count]
  congr 1
  funext ev
  cases ev with
  | popInjection task => cases task <;> rfl
  | _ => rfl

end Service

/-! ### What a step logs -/

/-- The ids of `source` were moved to the local queue. -/
def ExecutorEvent.Drains (source : DrainSource) (ev : ExecutorEvent) : Prop :=
  ∃ ids, ev = .drain source ids

/-- A tick begins or ends by this event. -/
def ExecutorEvent.Bounds (ev : ExecutorEvent) : Prop := ev = .tickBegin ∨ ev = .tickEnd

/-- How far a tick has come: it has begun, drained the deferred queue, found no more injected tasks,
parked, and drained both ready queues after that. -/
def Pc.stage : Pc → ℕ
  | .idle | .rootBegin | .root | .tickBegin => 0
  | .wakeDeferred => 1
  | .popInjection => 2
  | .pollLoop l | .nextReactor l | .nextCross l | .nextPop l | .nextInjection l | .polling l =>
    if l.second then 6 else 3
  | .parkBegin _ | .parkCross _ _ _ => 3
  | .parked _ _ | .parkWakes _ => 4
  | .parkCrossAfter _ => 5
  | .tickEnd => 6

/-- A tick has begun and not ended, so that the server is in a round. -/
def Pc.inRound (pc : Pc) : Bool := pc.stage ≠ 0

/-- The event by which a tick comes to a stage. -/
def Milestone : ℕ → ExecutorEvent → Prop
  | 1 => (· = .tickBegin)
  | 2 => ExecutorEvent.Drains .deferred
  | 3 => (· = .popInjection none)
  | 4 => (· = .park)
  | 5 => ExecutorEvent.Drains .reactorWake
  | 6 => ExecutorEvent.Drains .taskWake
  | _ => fun _ => False

/-- What a step from one stage to another may log. -/
inductive Marked : ℕ → ℕ → List ExecutorEvent → Prop
  | nothing (j : ℕ) : Marked j j []
  /-- Something that may happen more than once in a tick. -/
  | plain {j : ℕ} {ev : ExecutorEvent} (hj : j ≠ 0) (hbound : ¬ ev.Bounds) (hpark : ev ≠ .park) :
    Marked j j [ev]
  /-- What it takes to get to the next stage. -/
  | next {j : ℕ} {ev : ExecutorEvent} (hev : Milestone (j + 1) ev) : Marked j (j + 1) [ev]
  /-- The end of the tick. -/
  | last : Marked 6 0 [.tickEnd]

section Marked

variable {j k : ℕ} {evs : List ExecutorEvent}

/-- Outside of a tick nothing is logged, since nothing is polled or drained there. -/
theorem Marked.eq_nil (h : Marked 0 0 evs) : evs = [] := by
  cases h with
  | nothing => rfl
  | plain hj => exact absurd rfl hj

/-- A tick that begins says so, and comes to the first stage. -/
theorem Marked.eq_tickBegin (h : Marked 0 k evs) (hk : k ≠ 0) : evs = [.tickBegin] ∧ k = 1 := by
  cases h with
  | nothing => exact absurd rfl hk
  | plain hj => exact absurd rfl hj
  | next hev =>
    obtain rfl : _ = ExecutorEvent.tickBegin := hev
    exact ⟨rfl, rfl⟩

/-- A tick that ends says so, and is outside of any stage. -/
theorem Marked.eq_tickEnd (h : Marked j 0 evs) (hj : j ≠ 0) : evs = [.tickEnd] := by
  cases h with
  | nothing => exact absurd rfl hj
  | plain hj' => exact absurd rfl hj'
  | last => rfl

theorem Milestone.not_bounds {ev : ExecutorEvent} (h : Milestone j ev) (hj : j ≠ 1) :
    ¬ ev.Bounds := by
  rintro (rfl | rfl)
  · match j, h with
    | 1, _ => exact hj rfl
    | 2, h | 5, h | 6, h => exact nomatch h.choose_spec
    | 3, h | 4, h => cases h
  · match j, h with
    | 1, h => cases h
    | 2, h | 5, h | 6, h => exact nomatch h.choose_spec
    | 3, h | 4, h => cases h

/-- At most one event is logged by a step. -/
theorem Marked.eq_nil_or_singleton (h : Marked j k evs) : evs = [] ∨ ∃ ev, evs = [ev] := by
  cases h with
  | nothing => exact .inl rfl
  | plain | next | last => exact .inr ⟨_, rfl⟩

/-- Inside of a tick, no other begins and none ends. -/
theorem Marked.inside (h : Marked j k evs) (hj : j ≠ 0) (hk : k ≠ 0) :
    evs = [] ∨ ∃ ev, evs = [ev] ∧ ¬ ev.Bounds := by
  cases h with
  | nothing => exact .inl rfl
  | plain _ hbounds => exact .inr ⟨_, rfl, hbounds⟩
  | next hev => exact .inr ⟨_, rfl, hev.not_bounds (by omega)⟩
  | last => exact absurd rfl hk

end Marked

theorem Pc.eq_wakeDeferred {pc : Pc} (h : pc.stage = 1) : pc = .wakeDeferred := by
  cases pc with
  | wakeDeferred => rfl
  | pollLoop l | nextReactor l | nextCross l | nextPop l | nextInjection l | polling l =>
    rw [stage] at h
    split at h <;> cases h
  | _ => cases h

theorem Pc.of_stage_eq_zero {pc : Pc} (h : pc.stage = 0) :
    pc = .idle ∨ pc = .rootBegin ∨ pc = .root ∨ pc = .tickBegin := by
  cases pc with
  | idle | rootBegin | root | tickBegin => simp
  | pollLoop l | nextReactor l | nextCross l | nextPop l | nextInjection l | polling l =>
    rw [stage] at h
    split at h <;> cases h
  | _ => cases h

theorem marked_poll {j : ℕ} (hj : j ≠ 0) (id : TaskId) (task : Option Task) (result : PollResult) :
    Marked j j [.pollTask id task result] :=
  .plain hj (by simp [ExecutorEvent.Bounds]) (by simp)

theorem marked_pop {j : ℕ} (hj : j ≠ 0) (task : Option Task) : Marked j j [.popInjection task] :=
  .plain hj (by simp [ExecutorEvent.Bounds]) (by simp)

theorem marked_drain {j : ℕ} (hj : j ≠ 0) (source : DrainSource) (ids : List TaskId) :
    Marked j j [.drain source ids] :=
  .plain hj (by simp [ExecutorEvent.Bounds]) (by simp)

namespace Loop

/-- The stage of a loop: the first comes before the park, the second after it. -/
def stage (l : Loop) : ℕ := if l.second then 6 else 3

theorem stage_ne_zero (l : Loop) : l.stage ≠ 0 := by
  rw [stage]
  split <;> simp

end Loop

namespace State

variable {s s' t : State} {l : Label} {ls : List Label} {n p : ℕ} {evs : List ExecutorEvent}

theorem stage_afterLoop (lp : Loop) : (afterLoop lp).stage = lp.stage := by
  rw [afterLoop, Loop.stage]
  split <;> rfl

/-- What `next_task` does to the log, which is to poll the head or nothing. -/
theorem logged_pollHead (h : PcOk s) (hpc : ∀ l, s.pc ≠ .polling l) (lp : Loop) {empty : Pc}
    (hempty : empty.stage = lp.stage) : ∃ evs, s.exec.Logged evs (s.pollHead lp empty).exec ∧
      Marked lp.stage (s.pollHead lp empty).pc.stage evs := by
  have hrun := not_running_of_pc h hpc
  rw [State.pollHead]
  cases hq : s.exec.localQueue with
  | nil =>
    refine ⟨[], .of_eq rfl rfl rfl rfl, ?_⟩
    dsimp only
    rw [hempty]
    exact .nothing _
  | cons id rest =>
    dsimp only
    rcases Executor.logged_beginPoll hrun hq with ⟨⟨task, hsome⟩, hlog⟩ | ⟨hnone, hlog⟩
    · refine ⟨[], hlog, ?_⟩
      rw [hsome]
      exact .nothing _
    · refine ⟨_, hlog, ?_⟩
      rw [hnone]
      exact marked_poll lp.stage_ne_zero _ _ _

/-- What `drain_cross_thread` does to the log is what follows it. -/
theorem logged_drainCross {done : State → State}
    (hdone : ∃ evs, s.exec.Logged evs (done s).exec ∧ Marked s.pc.stage (done s).pc.stage evs) :
    ∃ evs, s.exec.Logged evs (s.drainCross done).exec ∧
      Marked s.pc.stage (s.drainCross done).pc.stage evs := by
  rw [State.drainCross]
  cases hq : s.shared.crossQueue with
  | nil => exact hdone
  | cons x rest =>
    obtain ⟨id, k⟩ := x
    exact ⟨[], .of_eq rfl rfl rfl rfl, .nothing _⟩

/-- What taking a task from the injection queue does to the log. -/
theorem logged_popInjection {accepted rejected : Pc} {j : ℕ}
    (ha : ∀ task, Marked j accepted.stage [.popInjection (some task)])
    (hr : Marked j rejected.stage [.popInjection none]) :
    ∃ evs, s.exec.Logged evs (s.popInjection accepted rejected).exec ∧
      Marked j (s.popInjection accepted rejected).pc.stage evs := by
  rw [State.popInjection]
  rcases s.exec.popInjection_cases (s.shared.injection.head?.map Prod.fst) with
    ⟨-, heq⟩ | ⟨task, -, -, heq⟩
  · rw [heq]
    exact ⟨[.popInjection none], .of_enqueued _ rfl rfl rfl (List.append_nil _).symm rfl, hr⟩
  · rw [heq]
    exact ⟨[.popInjection (some task)], .of_enqueued _ rfl rfl rfl rfl rfl, ha task⟩

theorem logged_execStep (h : PcOk s) (hstep : s.ExecStepped s') :
    ∃ evs, s.exec.Logged evs s'.exec ∧ Marked s.pc.stage s'.pc.stage evs := by
  cases hstep with
  | rootBegin hpc =>
    rw [hpc]
    exact ⟨[], .of_eq rfl rfl rfl rfl, .nothing 0⟩
  | tickBegin hpc =>
    rw [hpc]
    exact ⟨_, .of_enqueued .tickBegin rfl rfl rfl (List.append_nil _).symm rfl, .next rfl⟩
  | wakeDeferred hpc =>
    rw [hpc]
    exact ⟨_, .of_enqueued (.drain .deferred _) rfl rfl rfl rfl rfl, .next ⟨_, rfl⟩⟩
  | popInjection hpc =>
    rw [hpc]
    exact logged_popInjection (fun task => marked_pop (by simp [Pc.stage]) _) (.next rfl)
  | loopEnds lp hpc =>
    refine ⟨[], .of_eq rfl rfl rfl rfl, ?_⟩
    dsimp only
    rw [hpc, stage_afterLoop]
    exact .nothing _
  | loopPolls lp hpc =>
    rw [hpc]
    exact logged_pollHead h (by simp [hpc]) lp rfl
  | nextReactor lp hpc =>
    rw [hpc]
    exact ⟨_, .of_enqueued (.drain .reactorWake _) rfl rfl rfl rfl rfl,
      marked_drain lp.stage_ne_zero _ _⟩
  | nextCross lp hpc =>
    refine logged_drainCross ⟨_, .of_enqueued (.drain .taskWake _) rfl rfl rfl rfl rfl, ?_⟩
    rw [hpc]
    exact marked_drain lp.stage_ne_zero _ _
  | nextPop lp hpc =>
    rw [hpc]
    exact logged_pollHead h (by simp [hpc]) lp rfl
  | nextInjection lp hpc =>
    rw [hpc]
    refine logged_popInjection (fun task => marked_pop lp.stage_ne_zero _) ?_
    rw [stage_afterLoop]
    exact marked_pop lp.stage_ne_zero _
  | parkBegin c hpc =>
    rw [hpc]
    exact ⟨[], .of_eq rfl rfl rfl rfl, .nothing 3⟩
  | parkCross c hd hr hpc =>
    refine logged_drainCross
      ⟨[.park], .of_enqueued _ rfl rfl rfl (List.append_nil _).symm rfl, ?_⟩
    rw [hpc]
    exact .next rfl
  | parkWakes c hpc =>
    rw [hpc]
    exact ⟨_, .of_enqueued (.drain .reactorWake _) rfl rfl rfl rfl rfl, .next ⟨_, rfl⟩⟩
  | parkCrossAfter c hpc =>
    refine logged_drainCross ⟨_, .of_enqueued (.drain .taskWake _) rfl rfl rfl rfl rfl, ?_⟩
    rw [hpc]
    exact .next ⟨_, rfl⟩
  | tickEnd hpc =>
    rw [hpc]
    exact ⟨_, .of_enqueued .tickEnd rfl rfl rfl (List.append_nil _).symm rfl, .last⟩

/-- **What a step logs**, and what that does to the queue. -/
theorem logged_step (h : PcOk s) (hstep : s.step l = some s') :
    ∃ evs, s.exec.Logged evs s'.exec ∧ Marked s.pc.stage s'.pc.stage evs := by
  have hquiet : s.exec.Logged [] s'.exec → s'.pc.stage = s.pc.stage →
      ∃ evs, s.exec.Logged evs s'.exec ∧ Marked s.pc.stage s'.pc.stage evs :=
    fun hlog hpc => ⟨[], hlog, hpc ▸ .nothing _⟩
  cases step_cases hstep with
  | exec _ hexec => exact logged_execStep h hexec
  | wake => exact hquiet (.of_eq rfl rfl rfl rfl) rfl
  | yield _ _ he =>
    obtain ⟨id, -, rfl⟩ := Executor.deferCurrent_cases he
    exact hquiet (.of_eq rfl rfl rfl rfl) rfl
  | rootReturns ready _ hpc =>
    refine hquiet (.of_eq rfl rfl rfl rfl) ?_
    rw [hpc]
    cases ready <;> rfl
  | @pollReturns ready lp id task _ hpc hrun =>
    obtain ⟨result, -, hlog⟩ := Executor.logged_endPoll ready hrun
    refine ⟨_, hlog, ?_⟩
    rw [hpc]
    exact marked_poll lp.stage_ne_zero _ _ _
  | blockOn _ hpc =>
    refine hquiet (.of_eq rfl rfl rfl rfl) ?_
    rw [hpc]
    rfl
  | osReturns _ hpc =>
    refine hquiet (.of_eq rfl rfl rfl rfl) ?_
    rw [hpc]
    rfl
  | spawn | wakeForeign | call => exact hquiet (.of_eq rfl rfl rfl rfl) rfl

/-! ### The server that a state is -/

/-- The round that the tick of `s` is, in either of its two phases. -/
inductive InRound (n : ℕ) (s : State) : Round → Prop
  /-- The tick has not come to its loops: it owes what was queued when it began. -/
  | opening {e : Executor} {evs : List ExecutorEvent} (h : Opening e evs s)
      (hn : e.eventInterval = n) : InRound n s ⟨min e.localQueue.length n, n⟩
  /-- It has, and some is paid. -/
  | underway {q : List TaskId} {evs : List ExecutorEvent} (k : ℕ) (h : Underway n q evs s)
      (hk : k ≤ q.length) :
      InRound n s ⟨min k n - (polledIds evs).length, n - (polledIds evs).length⟩

/-- `v` is the server that `s` is: its queue, and the round that its tick is. -/
structure Serving (n : ℕ) (s : State) (v : Server TaskId) : Prop where
  /-- A task is out of the slab exactly while it is polled. -/
  pc_ok : PcOk s
  interval : s.exec.eventInterval = n
  queue : v.queue = s.exec.runningId ++ s.exec.localQueue
  between : s.pc.stage = 0 → v.round = none
  during : s.pc.stage ≠ 0 → ∃ r, v.round = some r ∧ InRound n s r

variable {v w : Server TaskId}

/-- Inside of a tick, what is logged is what the server does. -/
theorem run_of_logged (hlog : s.exec.Logged evs s'.exec)
    (hevs : evs = [] ∨ ∃ ev, evs = [ev] ∧ ¬ ev.Bounds)
    (hq : v.queue = s.exec.runningId ++ s.exec.localQueue) {d k : ℕ}
    (hround : v.round = some ⟨d - k, n - k⟩) (hle : k + (polledIds evs).length ≤ n) :
    (Server.machine TaskId n).Run v (evs.map ExecutorEvent.service)
      ⟨s'.exec.runningId ++ s'.exec.localQueue,
        some ⟨d - (k + (polledIds evs).length), n - (k + (polledIds evs).length)⟩⟩ := by
  obtain ⟨queue, round⟩ := v
  obtain rfl : queue = _ := hq
  obtain rfl : round = _ := hround
  have hqueue := hlog.queue
  rcases hevs with rfl | ⟨ev, rfl, hbounds⟩
  · simp only [enqueuedIds, polledIds, List.flatMap_nil, List.filterMap_nil, List.append_nil,
      List.nil_append] at hqueue ⊢
    rw [hqueue]
    exact .nil
  · -- an event that is no poll lets its ids join
    have hjoin : ∀ {ids : List TaskId}, ev.service = .join ids → ev.polled = none →
        ev.enqueued = ids → (Server.machine TaskId n).Run
          ⟨s.exec.runningId ++ s.exec.localQueue, some ⟨d - k, n - k⟩⟩
          ([ev].map ExecutorEvent.service) ⟨s'.exec.runningId ++ s'.exec.localQueue,
            some ⟨d - (k + (polledIds [ev]).length), n - (k + (polledIds [ev]).length)⟩⟩ := by
      intro ids hservice hpolled henqueued
      have hnone : polledIds [ev] = [] := by simp [polledIds, hpolled]
      have hids : enqueuedIds [ev] = ids := by simp [enqueuedIds, henqueued]
      rw [hnone, hids, List.nil_append] at hqueue
      rw [hnone, ← hqueue, List.map_singleton, hservice]
      exact Machine.Run.nil.snoc (.join _ ids)
    cases ev with
    | tickBegin => exact absurd (.inl rfl) hbounds
    | tickEnd => exact absurd (.inr rfl) hbounds
    | popInjection task =>
      cases task with
      | none => exact hjoin rfl rfl rfl
      | some task => exact hjoin rfl rfl rfl
    | drain source ids => exact hjoin rfl rfl rfl
    | park => exact hjoin rfl rfl rfl
    | pollTask id task result =>
      have hone : polledIds [.pollTask id task result] = [id] := rfl
      have hnone : enqueuedIds [.pollTask id task result] = [] := rfl
      rw [hone] at hqueue hle ⊢
      rw [hnone, List.append_nil] at hqueue
      simp only [List.length_singleton, List.singleton_append] at hqueue hle ⊢
      obtain ⟨left, hleft⟩ : ∃ left, n - k = left + 1 := ⟨n - k - 1, by omega⟩
      have hdue : d - (k + 1) = d - k - 1 := by omega
      have hleft' : n - (k + 1) = left := by omega
      rw [hqueue, hleft, hdue, hleft']
      exact Machine.Run.nil.snoc (.serve id _ _ _)

/-- A tick goes on, and so does its round. -/
theorem InRound.step {r : Round} (h : InRound n s r) (hround : v.round = some r)
    (hq : v.queue = s.exec.runningId ++ s.exec.localQueue) (hlog : s.exec.Logged evs s'.exec)
    (hevs : evs = [] ∨ ∃ ev, evs = [ev] ∧ ¬ ev.Bounds) (hpc : s.pc.stage ≠ 0)
    (hstep : s.step l = some s') :
    ∃ r', InRound n s' r' ∧ (Server.machine TaskId n).Run v (evs.map ExecutorEvent.service)
      ⟨s'.exec.runningId ++ s'.exec.localQueue, some r'⟩ := by
  cases h with
  | @opening e evs₀ hopening hn =>
    obtain ⟨evs', hlog', hnext⟩ := hopening.step hstep
    obtain rfl : evs' = evs := List.append_cancel_left (hlog'.symm.trans hlog.log)
    have hpolls : polledIds (evs₀ ++ evs') = [] := by
      rcases hnext with h | h
      · exact h.budget.1
      · obtain ⟨accepted, heq, -⟩ := h.opens
        rw [heq]
        exact e.polledIds_opening accepted
    rw [polledIds_append, List.append_eq_nil_iff] at hpolls
    have hrun := run_of_logged (n := n) (k := 0) (d := min e.localQueue.length n) hlog hevs hq
      hround (by simp [hpolls.2])
    rw [hpolls.2] at hrun
    refine ⟨_, ?_, hrun⟩
    rcases hnext with h | h
    · exact .opening h hn
    · obtain ⟨accepted, -, hqueue⟩ := h.opens
      have hle : e.localQueue.length ≤ s'.exec.localQueue.length := by
        rw [hqueue, Executor.openingQueue]
        simp
      exact .underway e.localQueue.length (hn ▸ h.underway) hle
  | @underway q evs₀ k hunder hk =>
    have hne : s.pc ≠ .rootBegin := fun heq => hpc (by rw [heq]; rfl)
    obtain ⟨evs', hlog', hnext⟩ := hunder.step hne hstep
    obtain rfl : evs' = evs := List.append_cancel_left (hlog'.symm.trans hlog.log)
    have hle := hnext.budget.1
    have hlen : (polledIds (evs₀ ++ evs')).length =
        (polledIds evs₀).length + (polledIds evs').length := by
      rw [polledIds_append, List.length_append]
    rw [hlen] at hle
    refine ⟨_, .underway k hnext hk, ?_⟩
    rw [hlen]
    exact run_of_logged hlog hevs hq hround hle

/-- A tick that ends owes nothing, as its first loop has paid or its budget is spent. -/
theorem InRound.due_eq_zero {r : Round} (h : InRound n s r) (hpc : s.pc.stage ≠ 0)
    (hpc' : s'.pc.stage = 0) (hstep : s.step l = some s')
    (hlog : s'.exec.log = s.exec.log ++ [.tickEnd]) : r.due = 0 := by
  have hloc := Pc.of_stage_eq_zero hpc'
  cases h with
  | opening hopening =>
    -- an opening that is outside of a tick has done nothing yet
    obtain ⟨evs', hlog', hnext⟩ := hopening.step hstep
    obtain rfl : evs' = [.tickEnd] := List.append_cancel_left (hlog'.symm.trans hlog)
    rcases hnext with hnext | hnext
    · have hopens := hnext.opens
      rw [Opens] at hopens
      rcases hloc with hloc | hloc | hloc | hloc
      · rw [hloc] at hopens
        exact hopens.elim
      · rw [hloc] at hopens
        exact hopens.elim
      · rw [hloc] at hopens
        exact hopens.elim
      · rw [hloc] at hopens
        exact absurd hopens.1 (by simp)
    · rw [hnext.pc_eq] at hpc'
      cases hpc'
  | underway k hunder hk =>
    have hne : s.pc ≠ .rootBegin := fun heq => hpc (by rw [heq]; rfl)
    obtain ⟨evs', hlog', hnext⟩ := hunder.step hne hstep
    obtain rfl : evs' = [.tickEnd] := List.append_cancel_left (hlog'.symm.trans hlog)
    have hroot : s'.pc = .rootBegin := by
      have hfits := hnext.fits
      rcases hloc with hloc | hloc | hloc | hloc
      · rw [hloc] at hfits
        exact hfits.elim
      · exact hloc
      · rw [hloc] at hfits
        exact hfits.elim
      · rw [hloc] at hfits
        exact hfits.elim
    have henough := (hnext.budget.2.2.1 hroot).2
    rw [polledIds_snoc_of_none rfl] at henough
    dsimp only
    omega

/-- **One step of the runtime is what it logs, done by the server.** -/
theorem Serving.step (h : Serving n s v) (hstep : s.step l = some s') :
    ∃ evs w, s'.exec.log = s.exec.log ++ evs ∧
      (Server.machine TaskId n).Run v (evs.map ExecutorEvent.service) w ∧ Serving n s' w := by
  obtain ⟨evs, hlog, hmark⟩ := logged_step h.pc_ok hstep
  have hok := (step_act h.pc_ok hstep).1
  have hinterval := hlog.interval.trans h.interval
  have hqueue := hlog.queue
  by_cases hpc : s.pc.stage = 0
  · have hround := h.between hpc
    have hq := h.queue
    obtain ⟨queue, round⟩ := v
    obtain rfl : queue = _ := hq
    obtain rfl : round = _ := hround
    rw [hpc] at hmark
    by_cases hpc' : s'.pc.stage = 0
    · rw [hpc'] at hmark
      obtain rfl := hmark.eq_nil
      simp only [enqueuedIds, polledIds, List.flatMap_nil, List.filterMap_nil, List.append_nil,
        List.nil_append] at hqueue
      exact ⟨[], _, hlog.log, .nil, hok, hinterval, hqueue, fun _ => rfl,
        fun hne => absurd hpc' hne⟩
    · obtain ⟨rfl, hone⟩ := hmark.eq_tickBegin hpc'
      rw [show enqueuedIds [.tickBegin] = [] from rfl, show polledIds [.tickBegin] = [] from rfl,
        List.append_nil, List.nil_append] at hqueue
      have hloc : s'.pc = .wakeDeferred := Pc.eq_wakeDeferred hone
      have hidle : s'.exec.runningId = [] := by
        rw [Executor.runningId, not_running_of_pc hok (by simp [hloc])]
        rfl
      have hopening : Opening s'.exec [.tickBegin] s' := by
        refine ⟨?_, rfl, hok⟩
        rw [Opens, hloc]
        exact ⟨rfl, rfl, rfl⟩
      refine ⟨[.tickBegin], _, hlog.log, Machine.Run.nil.snoc (.roundBegin _), hok, hinterval,
        hqueue, fun heq => absurd heq hpc', fun _ => ⟨_, rfl, ?_⟩⟩
      rw [hqueue, hidle, List.nil_append]
      exact .opening hopening hinterval
  · obtain ⟨r, hround, hin⟩ := h.during hpc
    by_cases hpc' : s'.pc.stage = 0
    · rw [hpc'] at hmark
      obtain rfl := hmark.eq_tickEnd hpc
      rw [show enqueuedIds [.tickEnd] = [] from rfl, show polledIds [.tickEnd] = [] from rfl,
        List.append_nil, List.nil_append] at hqueue
      have hdue := hin.due_eq_zero hpc hpc' hstep hlog.log
      have hq := h.queue
      obtain ⟨queue, round⟩ := v
      obtain ⟨due, left⟩ := r
      obtain rfl : queue = _ := hq
      obtain rfl : round = _ := hround
      obtain rfl : due = 0 := hdue
      exact ⟨[.tickEnd], _, hlog.log, Machine.Run.nil.snoc (.roundEnd _ left), hok, hinterval,
        hqueue, fun _ => rfl, fun hne => absurd hpc' hne⟩
    · obtain ⟨r', hin', hrun⟩ := hin.step hround h.queue hlog (hmark.inside hpc hpc') hpc hstep
      exact ⟨evs, _, hlog.log, hrun, hok, hinterval, rfl, fun heq => absurd heq hpc',
        fun _ => ⟨r', rfl, hin'⟩⟩

/-- **A run of the runtime is what it logs, done by the server.** -/
theorem Serving.run (h : Serving n s v) (hrun : machine.Run s ls t) :
    ∃ evs w, t.exec.log = s.exec.log ++ evs ∧
      (Server.machine TaskId n).Run v (evs.map ExecutorEvent.service) w ∧ Serving n t w := by
  induction hrun with
  | nil => exact ⟨[], v, (List.append_nil _).symm, .nil, h⟩
  | snoc _ hlast ih =>
    obtain ⟨evs, w, hlog, hserver, hserving⟩ := ih
    obtain ⟨evs', w', hlog', hserver', hserving'⟩ := hserving.step hlast
    refine ⟨evs ++ evs', w', by rw [hlog', hlog, List.append_assoc], ?_, hserving'⟩
    rw [List.map_append]
    exact hserver.append hserver'

theorem serving_new (n : ℕ) (tls : Tls) : Serving n (new n tls) ⟨[], none⟩ where
  pc_ok := pcOk_new n tls
  interval := rfl
  queue := rfl
  between _ := rfl
  during h := absurd rfl h

theorem Serving.isSome_round (h : Serving n s v) : v.round.isSome = s.pc.inRound := by
  rw [Pc.inRound]
  by_cases hpc : s.pc.stage = 0
  · simp [h.between hpc, hpc]
  · obtain ⟨r, hround, -⟩ := h.during hpc
    simp [hround, hpc]

theorem serving_of_reachable (h : machine.Reachable s) :
    ∃ v, Serving s.exec.eventInterval s v ∧
      (Server.machine TaskId s.exec.eventInterval).Run ⟨[], none⟩
        (s.exec.log.map ExecutorEvent.service) v := by
  obtain ⟨s₀, ls, ⟨n, tls, _, _, rfl⟩, hrun⟩ := h
  obtain ⟨evs, v, hlog, hserver, hserving⟩ := (serving_new n tls).run hrun
  rw [show (new n tls).exec.log = [] from rfl, List.nil_append] at hlog
  rw [hserving.interval, hlog]
  exact ⟨v, hserving, hserver⟩

/-- **The executor is a server.** In every run, the log, read as the acts of a server with the
executor's budget, is a run of one, from an empty queue to the local queue behind the id that is
being polled; a round is in progress exactly inside of a tick. -/
theorem reachable_service (h : machine.Reachable s) : ∃ v,
    (Server.machine TaskId s.exec.eventInterval).Run ⟨[], none⟩
      (s.exec.log.map ExecutorEvent.service) v ∧
    v.queue = s.exec.runningId ++ s.exec.localQueue ∧ v.round.isSome = s.pc.inRound := by
  obtain ⟨v, hv, hserver⟩ := serving_of_reachable h
  exact ⟨v, hserver, hv.queue, hv.isSome_round⟩

/-- The executor's thread takes so many steps of its own. -/
def execs (n : ℕ) : List Label := List.replicate n .exec

/-- Two tasks are spawned, and a tick that may make one poll runs: one task is done, and the other
left in the queue. -/
def oneOfTwoTicks : List Label :=
  .spawn false 0 :: .call 0 :: .spawn false 1 :: .call 1 :: .blockOn :: .exec ::
    .futureReturns false :: execs 6 ++ .futureReturns true :: execs 3 ++ .osReturns false :: execs 4

/-- The tick after that, in which the other task is polled. -/
def otherOfTwoTicks : List Label :=
  .exec :: .futureReturns false :: execs 4 ++ .futureReturns true :: execs 3 ++
    .osReturns false :: execs 4

theorem exists_oneOfTwoTicks : ∃ s, machine.Reachable s ∧ s.exec.localQueue = [2] ∧
    .park ∈ s.exec.log ∧ 1 ∈ polledIds s.exec.log ∧ s.pc.inRound = false ∧
    ∃ t, machine.Run s otherOfTwoTicks t ∧
      t.exec.log = s.exec.log ++ t.exec.log.drop s.exec.log.length ∧
      ticks (t.exec.log.drop s.exec.log.length) = 1 ∧
      (s.exec.runningId ++ s.exec.localQueue)[0]? = some 2 ∧ s.exec.eventInterval = 1 := by
  have hstart : machine.Reachable (new 1 .new) := .of_init ⟨1, .new, by decide, rfl, rfl⟩
  obtain ⟨s, hs, hqueue, hpark, hpolled, hround, ht⟩ := Machine.exists_follow step oneOfTwoTicks
    (new 1 .new) (fun s => s.exec.localQueue = [2] ∧ .park ∈ s.exec.log ∧
      1 ∈ polledIds s.exec.log ∧ s.pc.inRound = false ∧
      (Machine.follow step otherOfTwoTicks s).any (fun t => decide
        (t.exec.log = s.exec.log ++ t.exec.log.drop s.exec.log.length ∧
          ticks (t.exec.log.drop s.exec.log.length) = 1 ∧
          (s.exec.runningId ++ s.exec.localQueue)[0]? = some 2 ∧ s.exec.eventInterval = 1)) = true)
    (by decide +kernel)
  obtain ⟨t, hfollow, h⟩ := Machine.exists_follow step otherOfTwoTicks s _ ht
  exact ⟨s, hstart.follow hs, hqueue, hpark, hpolled, hround, t, .of_follow hfollow, h⟩

/-- A queue of one is left after a tick with a budget of one. -/
theorem reachable_service_oneOfTwoTicks : ∃ (s : State) (v : Server TaskId),
    s.exec.localQueue = [2] ∧
    (Server.machine TaskId s.exec.eventInterval).Run ⟨[], none⟩
      (s.exec.log.map ExecutorEvent.service) v ∧
    v.queue = s.exec.runningId ++ s.exec.localQueue ∧ v.round.isSome = s.pc.inRound := by
  obtain ⟨s, hreach, hqueue, -⟩ := exists_oneOfTwoTicks
  obtain ⟨v, hv⟩ := reachable_service hreach
  exact ⟨s, v, hqueue, hv⟩

/-- What the server owes to the task in place `p` when it serves the log. -/
theorem Serving.polled {v : Server TaskId} (hv : Serving s.exec.eventInterval s v)
    (hrun : machine.Run s ls t)
    (hlog : t.exec.log = s.exec.log ++ evs) {id : TaskId}
    (hp : (s.exec.runningId ++ s.exec.localQueue)[p]? = some id)
    (hticks : p < s.exec.eventInterval * (ticks evs - s.pc.inRound.toNat)) :
    (polledIds evs)[p]? = some id := by
  obtain ⟨evs', w, hlog', hserver, -⟩ := hv.run hrun
  obtain rfl : evs' = evs := List.append_cancel_left (hlog'.symm.trans hlog)
  rw [← hv.queue] at hp
  rw [← rounds_service, ← hv.isSome_round] at hticks
  have hserved := Server.Run.served hserver hp hticks
  rwa [served_service] at hserved

/-- **Bounded waiting.** From any reachable state, the task in place `p` of the queue, counting the
one that is being polled as first, is polled after those in front of it, at the latest when more
than `p / n` ticks have ended, for the budget `n`; a tick in progress at the start does not count.
Whatever is queued, woken, spawned or deferred meanwhile makes no difference. -/
theorem run_polled (h : machine.Reachable s) (hrun : machine.Run s ls t)
    (hlog : t.exec.log = s.exec.log ++ evs) {id : TaskId}
    (hp : (s.exec.runningId ++ s.exec.localQueue)[p]? = some id)
    (hticks : p < s.exec.eventInterval * (ticks evs - s.pc.inRound.toNat)) :
    (polledIds evs)[p]? = some id := by
  obtain ⟨v, hv, -⟩ := serving_of_reachable h
  exact hv.polled hrun hlog hp hticks

/-- The task that is left is polled in the next tick. -/
theorem run_polled_otherOfTwoTicks : ∃ s t evs, machine.Reachable s ∧
    machine.Run s otherOfTwoTicks t ∧ t.exec.log = s.exec.log ++ evs ∧
    s.exec.localQueue = [2] ∧ ticks evs = 1 ∧ (polledIds evs)[0]? = some 2 := by
  obtain ⟨s, hreach, hqueue, -, -, hround, t, hrun, hlog, hticks, hp, hn⟩ := exists_oneOfTwoTicks
  refine ⟨s, t, _, hreach, hrun, hlog, hqueue, hticks, run_polled hreach hrun hlog hp ?_⟩
  rw [hticks, hn, hround]
  decide

end State

end Lion
