import Lion.Executor.Injection
import Lion.Executor.Wakeups

/-!
# Wakes of the root

The root of a `block_on` is polled once before every tick, and has no entry in the ledger. A waker
of it pushes its id, `u64::MAX`, to a ready queue like any other, where `park` would see it and not
block. But if the local queue runs empty before the tick's first poll loop is out of budget,
`next_task` drains the ready queues, drops the id because the ledger does not know it, and `park`
finds nothing to do. The root then waits for up to a hundred milliseconds, unless it has yielded as
well, which `park` is told by a flag of its own.

This file says when that does not happen: no drain of the first loop takes the root's id while
nothing else will keep `park` from blocking.

## Where a wake has got to

A wake of the root may come at any time from the poll of the root to the park, and is noticed in a
different way at each of the stages between (`RootState.Noticed`). Before the tick's deferred tasks
its id is in a ready queue. In the first loop it may have been drained, and then something else has
to keep `park` from blocking (`Executor.RootAwaited`): the root has yielded, or a task has. In the
park, before the timeout is decided, it is what `park` has read already, and during the poll it is
the timeout.

Wakes after the decision are not counted. One on the executor's thread can then only come from the
reactor, after the poll, and the next tick begins with a poll of the root in any case.

## Main results

* `restrict_heeds_prompt` — the runs in which a woken root is polled again without blocking
* `not_rootPrompt` — a run in which it is not
-/

namespace Lion

/-- The act takes over a ready queue, the reactor's or the tasks'. -/
def Act.drainsReady : Act → Bool
  | .drainReactor | .drainTask => true
  | _ => false

/-- The act takes something from the thread-locals that `park` would see. -/
def Act.settles : Act → Bool
  | .drainReactor | .drainTask => true
  | .drainDeferred | .decide _ _ => true
  | .wake _ _ | .receive _ | .yield | .popInjection _ | .beginPoll | .endPoll _ => false
  | .tickBegin | .tickEnd | .setCurrent _ => false

namespace Executor

variable {e e' : Executor} {act : Act}

/-- The root's id is in a ready queue, where `park` would see it. -/
def RootQueued (e : Executor) : Prop := rootId ∈ e.tls.reactorReady ∨ rootId ∈ e.tls.taskReady

/-- Something will keep `park` from blocking: the root has yielded, a task has, or the root's id is
in a ready queue. -/
def RootAwaited (e : Executor) : Prop :=
  e.tls.blockOnYielded = true ∨ e.tls.deferred ≠ [] ∨ e.RootQueued

/-- A wake of the root queues its id, since there is no flag for it. -/
theorem rootQueued_wake (e : Executor) (source : WakeSource) :
    (e.wake source rootId).RootQueued := by
  have hp := Tls.pushed_pushReady e.tls source rootId
  rw [← wake_tls] at hp
  have hmem : rootId ∈ (e.wake source rootId).tls.ready source := by
    rw [hp.ready_eq, if_neg (by simp)]
    simp
  cases source with
  | reactor => exact .inl hmem
  | task => exact .inr hmem

theorem RootQueued.pushed (h : e.RootQueued) {source : WakeSource} {id : TaskId} {w : Tls}
    (hp : Tls.Pushed e.tls source id w) (heq : e'.tls = w) : e'.RootQueued := by
  subst heq
  have hready : ∀ source', rootId ∈ e.tls.ready source' → rootId ∈ e'.tls.ready source' :=
    fun _ hmem => hp.mem_ready hmem
  exact h.imp (hready .reactor) (hready .task)

/-- The thread-locals that matter to the root after the start of a poll. -/
theorem beginPoll_tls (e : Executor) (id : TaskId) (rest : List TaskId) :
    (e.beginPoll id rest).tls.reactorReady = e.tls.reactorReady ∧
      (e.beginPoll id rest).tls.taskReady = e.tls.taskReady ∧
      (e.beginPoll id rest).tls.deferred = e.tls.deferred ∧
      (e.beginPoll id rest).tls.blockOnYielded = e.tls.blockOnYielded := by
  rcases e.beginPoll_cases id rest with ⟨task, -, heq⟩ | ⟨-, heq⟩
  · rw [heq]
    exact ⟨rfl, rfl, rfl, rfl⟩
  · rw [heq]
    exact ⟨rfl, rfl, rfl, rfl⟩

/-- Only drains of the ready queues take the root's id out of them. -/
theorem Step.rootQueued (hstep : Step e act e') (hact : act.drainsReady = false)
    (h : e.RootQueued) : e'.RootQueued := by
  cases hstep with
  | wake source id => exact h.pushed (Tls.pushed_pushReady e.tls source id) (wake_tls e source id)
  | receive id => exact h.pushed (Tls.pushed_pushReady e.tls .task id) rfl
  | yield heq =>
    obtain ⟨id, -, rfl⟩ := deferCurrent_cases heq
    exact h
  | drainReactor => cases hact
  | drainTask => cases hact
  | popInjection raw =>
    rcases e.popInjection_cases raw with ⟨-, heq⟩ | ⟨task, -, -, heq⟩
    · rw [heq]
      exact h
    · rw [heq]
      exact h
  | @beginPoll id rest _ _ =>
    obtain ⟨hreactor, htask, -, -⟩ := beginPoll_tls e id rest
    rw [RootQueued, hreactor, htask]
    exact h
  | endPoll ready _ => cases ready <;> exact h
  | _ => exact h

/-- Only drains and the decision of `park` take away what keeps it from blocking. -/
theorem Step.rootAwaited (hstep : Step e act e') (hact : act.settles = false)
    (h : e.RootAwaited) : e'.RootAwaited := by
  have hready : act.drainsReady = false := by
    cases act <;> first | rfl | cases hact
  have hqueued := hstep.rootQueued hready
  cases hstep with
  | wake source id =>
    have hp := Tls.pushed_pushReady e.tls source id
    rw [← wake_tls] at hp
    rw [RootAwaited, hp.yielded_eq, hp.deferred_eq]
    exact h.imp_right (Or.imp_right hqueued)
  | receive id =>
    have hp : Tls.Pushed e.tls .task id (e.receiveCrossThread id).tls :=
      Tls.pushed_pushReady e.tls .task id
    rw [RootAwaited, hp.yielded_eq, hp.deferred_eq]
    exact h.imp_right (Or.imp_right hqueued)
  | yield heq =>
    obtain ⟨id, -, rfl⟩ := deferCurrent_cases heq
    exact .inr (.inl (by simp))
  | popInjection raw =>
    rcases e.popInjection_cases raw with ⟨-, heq⟩ | ⟨task, -, -, heq⟩
    · rw [heq]
      exact h
    · rw [heq]
      exact h
  | @beginPoll id rest _ _ =>
    obtain ⟨-, -, hdeferred, hyielded⟩ := beginPoll_tls e id rest
    rw [RootAwaited, hdeferred, hyielded]
    exact h.imp_right (Or.imp_right hqueued)
  | endPoll ready _ => cases ready <;> exact h
  | drainReactor => cases hact
  | drainTask => cases hact
  | drainDeferred => cases hact
  | decide hd hr => cases hact
  | _ => exact h

/-- What will keep `park` from blocking does so, at the reset and afterwards. -/
theorem RootAwaited.hurried (h : e.RootAwaited) (cross : List (TaskId × ℕ)) :
    e.Hurried cross (!e.tls.deferred.isEmpty) (!e.tls.reactorReady.isEmpty) := by
  rcases h with hyielded | hdeferred | hreactor | htask
  · exact .inr (.inr (.inl hyielded))
  · exact .inl (by simpa using hdeferred)
  · exact .inr (.inl (by simpa using List.ne_nil_of_mem hreactor))
  · exact .inr (.inr (.inr (.inr (.inl (List.ne_nil_of_mem htask)))))

end Executor

/-- The root is being polled, or the tick after that has not come to its deferred tasks. -/
def Pc.early : Pc → Bool
  | .root | .tickBegin => true
  | .wakeDeferred => true
  | _ => false

/-- A tick is between its deferred tasks and its park. -/
def Pc.firstLoop : Pc → Bool
  | .popInjection | .parkBegin _ => true
  | .pollLoop l | .polling l => !l.second
  | .nextReactor l | .nextCross l | .nextPop l | .nextInjection l => !l.second
  | .idle | .rootBegin | .root | .tickBegin | .wakeDeferred | .parkCross _ _ _ | .parked _ _ =>
    false
  | .parkWakes _ | .parkCrossAfter _ | .tickEnd => false

/-- The location belongs to the loop `l`, or is where that loop ends. -/
def Pc.InLoop (l : Loop) (pc : Pc) : Prop :=
  pc.early = false ∧ pc.waiting = false ∧ pc.firstLoop = !l.second

theorem Pc.early_and_firstLoop (pc : Pc) : (pc.early && pc.firstLoop) = false := by
  cases pc <;> rfl

/-- The ids that the next step of the executor's thread takes off a ready queue in a tick's first
loop. -/
def State.drained (s : State) : List TaskId :=
  match s.pc with
  | .nextReactor l => if l.second then [] else s.exec.tls.reactorReady
  | .nextCross l => if l.second || !s.shared.crossQueue.isEmpty then [] else s.exec.tls.taskReady
  | _ => []

/-- A runtime, and whether a waker of the root was called on its thread since the root was
polled. -/
structure RootState where
  state : State
  woken : Bool
deriving DecidableEq

namespace RootState

variable {r r' : RootState} {l : Label}

/-- Whether the root counts as woken after a step. -/
def wokenAfter (r : RootState) : Label → Bool
  | .wake _ id => r.woken || decide (id = rootId)
  | .exec => r.woken && decide (r.state.pc ≠ .rootBegin)
  | _ => r.woken

/-- A step of the runtime, with the note that is made of it. -/
def step (r : RootState) (l : Label) : Option RootState :=
  (r.state.step l).map fun s => ⟨s, r.wokenAfter l⟩

/-- The runtime, with an eye on the root. Nothing but the note is added. -/
def machine : Machine RootState Label :=
  Machine.ofStep (fun r => State.machine.init r.state ∧ r.woken = false) step

/-- If the root was woken before `park` decided its timeout, the timeout is zero. -/
def Prompt (r : RootState) : Prop :=
  ∀ count timeout, r.state.pc = .parked count timeout → r.woken = true → timeout = 0

/-- The first loop of a tick does not take the id of a woken root off a ready queue, or else the
root or a task has yielded. -/
def Heeds (r : RootState) (l : Label) : Prop :=
  l = .exec → r.woken = true → rootId ∈ r.state.drained →
    r.state.exec.tls.blockOnYielded = true ∨ r.state.exec.tls.deferred ≠ []

instance : Decidable (r.Heeds l) := inferInstanceAs (Decidable (_ → _ → _ → _ ∨ _))

/-- Where a wake of the root has got to. -/
structure Noticed (r : RootState) : Prop where
  /-- Before the tick's deferred tasks. -/
  early : r.woken = true → r.state.pc.early = true → r.state.exec.RootQueued
  loop : r.woken = true → r.state.pc.firstLoop = true → r.state.exec.RootAwaited
  /-- In its park, before the timeout is decided. -/
  draining : r.woken = true → ∀ count hd hr, r.state.pc = .parkCross count hd hr →
    r.state.exec.Hurried r.state.shared.crossQueue hd hr
  parked : r.woken = true → ∀ count timeout, r.state.pc = .parked count timeout → timeout = 0

theorem noticed_of_not_woken (h : r.woken = false) : Noticed r := by
  have hnot : r.woken = true → False := by simp [h]
  exact ⟨fun hw => (hnot hw).elim, fun hw => (hnot hw).elim, fun hw => (hnot hw).elim,
    fun hw => (hnot hw).elim⟩

theorem noticed_of_early (hpc : r.state.pc.early = true)
    (h : r.woken = true → r.state.exec.RootQueued) : Noticed r := by
  refine ⟨fun hw _ => h hw, fun _ hloop => ?_, fun _ count hd hr heq => ?_,
    fun _ count timeout heq => ?_⟩
  · have hboth := r.state.pc.early_and_firstLoop
    rw [hpc, hloop] at hboth
    cases hboth
  · rw [heq] at hpc
    cases hpc
  · rw [heq] at hpc
    cases hpc

theorem noticed_of_firstLoop (hpc : r.state.pc.firstLoop = true)
    (h : r.woken = true → r.state.exec.RootAwaited) : Noticed r := by
  refine ⟨fun _ hearly => ?_, fun hw _ => h hw, fun _ count hd hr heq => ?_,
    fun _ count timeout heq => ?_⟩
  · have hboth := r.state.pc.early_and_firstLoop
    rw [hpc, hearly] at hboth
    cases hboth
  · rw [heq] at hpc
    cases hpc
  · rw [heq] at hpc
    cases hpc

/-- After the park nothing is claimed until the root is polled again. -/
theorem noticed_of_later (hearly : r.state.pc.early = false) (hloop : r.state.pc.firstLoop = false)
    (hwait : r.state.pc.waiting = false) : Noticed r := by
  refine ⟨fun _ h => ?_, fun _ h => ?_, fun _ count hd hr heq => ?_, fun _ count timeout heq => ?_⟩
  · rw [hearly] at h
    cases h
  · rw [hloop] at h
    cases h
  · rw [heq] at hwait
    cases hwait
  · rw [heq] at hwait
    cases hwait

end RootState

namespace State

variable {s s' : State} {l : Label}

theorem pollHead_pc (s : State) (l : Loop) (empty : Pc) :
    (s.pollHead l empty).pc = empty ∨ (s.pollHead l empty).pc = .polling l ∨
      (s.pollHead l empty).pc = .pollLoop { l with count := l.count + 1 } := by
  simp only [pollHead]
  cases s.exec.localQueue with
  | nil => exact .inl rfl
  | cons id rest =>
    dsimp only
    split
    · exact .inr (.inl rfl)
    · exact .inr (.inr rfl)

theorem popInjection_pc (s : State) (accepted rejected : Pc) :
    (s.popInjection accepted rejected).pc = accepted ∨
      (s.popInjection accepted rejected).pc = rejected := by
  simp only [popInjection]
  split
  · exact .inl rfl
  · exact .inr rfl

/-- A poll of the head of the local queue stays in its loop. -/
theorem inLoop_pollHead (s : State) {l : Loop} {empty : Pc} (hempty : empty.InLoop l) :
    (s.pollHead l empty).pc.InLoop l := by
  rcases s.pollHead_pc l empty with h | h | h
  · rw [h]
    exact hempty
  · rw [h]
    exact ⟨rfl, rfl, rfl⟩
  · rw [h]
    exact ⟨rfl, rfl, rfl⟩

theorem inLoop_popInjection (s : State) {l : Loop} {accepted rejected : Pc}
    (ha : accepted.InLoop l) (hr : rejected.InLoop l) :
    (s.popInjection accepted rejected).pc.InLoop l := by
  rcases s.popInjection_pc accepted rejected with h | h
  · rw [h]
    exact ha
  · rw [h]
    exact hr

theorem inLoop_afterLoop (l : Loop) : (afterLoop l).InLoop l := by
  rw [afterLoop, Pc.InLoop]
  cases l.second <;> exact ⟨rfl, rfl, rfl⟩

/-- What keeps `park` from blocking is kept by an act that takes nothing away. -/
theorem Performs.rootAwaited {e e' : Executor} {a : Option Act} (h : Performs e a e')
    (ha : ∀ act, a = some act → act.settles = false) (haw : e.RootAwaited) : e'.RootAwaited := by
  cases a with
  | none =>
    have heq : e' = e := h
    rw [heq]
    exact haw
  | some act => exact Executor.Step.rootAwaited h (ha act rfl) haw

end State

namespace RootState

variable {r r' : RootState} {l : Label}

/-- A step of a poll loop that keeps what keeps `park` from blocking, in the first one. -/
theorem Noticed.inLoop {s s' : State} {w : Bool} (h : Noticed ⟨s, w⟩) (lp : Loop)
    (hpc : s.pc.firstLoop = !lp.second) (hpc' : s'.pc.InLoop lp)
    (hkeep : w = true → lp.second = false → s.exec.RootAwaited → s'.exec.RootAwaited) :
    Noticed ⟨s', w⟩ := by
  obtain ⟨hearly, hwait, hfirst⟩ := hpc'
  cases hsecond : lp.second with
  | true =>
    rw [hsecond] at hfirst
    exact noticed_of_later hearly hfirst hwait
  | false =>
    rw [hsecond] at hpc hfirst
    exact noticed_of_firstLoop hfirst fun hw => hkeep hw hsecond (h.loop hw hpc)

/-- A step of a poll loop that takes nothing away. -/
theorem Noticed.loopStep {s s' : State} {w : Bool} (h : Noticed ⟨s, w⟩) (lp : Loop)
    (hpc : s.pc.firstLoop = !lp.second) (hpc' : s'.pc.InLoop lp) {a : Option Act}
    (hperf : State.Performs s.exec a s'.exec)
    (ha : ∀ act, a = some act → act.settles = false) : Noticed ⟨s', w⟩ :=
  h.inLoop lp hpc hpc' fun _ _ => hperf.rootAwaited ha

theorem settles_headAct (s : State) (act : Act) (h : s.headAct = some act) :
    act.settles = false := by
  rw [State.headAct] at h
  split at h
  · cases h
  · cases h
    rfl

/-- A drain of the first loop, if it meets the condition. -/
theorem Noticed.nextReactor {s : State} {w : Bool} {lp : Loop} (h : Noticed ⟨s, w⟩)
    (hpc : s.pc = .nextReactor lp) (hheeds : Heeds ⟨s, w⟩ .exec) :
    Noticed ⟨{ s with exec := s.exec.drainReactorReadyIntoLocal, pc := .nextCross lp }, w⟩ := by
  refine h.inLoop lp (by rw [hpc]; rfl) ⟨rfl, rfl, rfl⟩ fun hw hsecond haw => ?_
  rcases haw with hy | hd | hr | ht
  · exact .inl hy
  · exact .inr (.inl hd)
  · exact (hheeds rfl hw (by simpa [State.drained, hpc, hsecond] using hr)).imp_right .inl
  · exact .inr (.inr (.inr ht))

theorem Noticed.nextCross {s : State} {w : Bool} {lp : Loop} (h : Noticed ⟨s, w⟩)
    (hpc : s.pc = .nextCross lp) (hheeds : Heeds ⟨s, w⟩ .exec) :
    Noticed ⟨s.drainCross fun s =>
      { s with exec := s.exec.drainTaskReadyIntoLocal, pc := .nextPop lp }, w⟩ := by
  rcases s.drainCross_cases fun s =>
      { s with exec := s.exec.drainTaskReadyIntoLocal, pc := .nextPop lp } with
    ⟨hempty, heq⟩ | ⟨id, k, rest, -, heq⟩
  · rw [heq]
    refine h.inLoop lp (by rw [hpc]; rfl) ⟨rfl, rfl, rfl⟩ fun hw hsecond haw => ?_
    rcases haw with hy | hd | hr | ht
    · exact .inl hy
    · exact .inr (.inl hd)
    · exact .inr (.inr (.inl hr))
    · exact (hheeds rfl hw (by simpa [State.drained, hpc, hsecond, hempty] using ht)).imp_right .inl
  · rw [heq]
    have hperf : State.Performs s.exec (some (.receive id)) (s.exec.receiveCrossThread id) :=
      .receive id
    refine h.loopStep lp (by rw [hpc]; rfl) (by rw [hpc]; exact ⟨rfl, rfl, rfl⟩) hperf ?_
    rintro _ ⟨⟩
    rfl

/-- The rest of the way: a park that is not to block does not. -/
theorem Noticed.parkCross {s : State} {w : Bool} {count : ℕ} {hd hr : Bool} (h : Noticed ⟨s, w⟩)
    (hpc : s.pc = .parkCross count hd hr) : Noticed ⟨s.parkCross count hd hr, w⟩ := by
  rcases s.drainCross_cases fun s => { s with
      exec := (s.exec.decideTimeout hd hr).2
      pc := .parked count (Executor.parkTimeout (s.exec.decideTimeout hd hr).1) } with
    ⟨hempty, heq⟩ | ⟨id, k, rest, hcons, heq⟩
  · rw [State.parkCross, heq]
    refine ⟨fun _ hearly => (by cases hearly), fun _ hloop => (by cases hloop),
      fun _ count hd hr hpc' => (by cases hpc'), ?_⟩
    rintro hw _ _ ⟨⟩
    have hh := h.draining hw count hd hr hpc
    dsimp only at hh
    rw [hempty] at hh
    rw [Executor.parkTimeout_decideTimeout, if_pos hh]
  · rw [State.parkCross, heq]
    refine ⟨fun _ hearly => ?_, fun _ hloop => ?_, ?_, fun _ count timeout hpc' => ?_⟩
    · rw [hpc] at hearly
      cases hearly
    · rw [hpc] at hloop
      cases hloop
    · intro hw count' hd' hr' hpc'
      dsimp only at hpc'
      rw [hpc] at hpc'
      cases hpc'
      have hh := h.draining hw count hd hr hpc
      dsimp only at hh
      rw [hcons] at hh
      exact (Executor.hurried_receive s.exec id k rest).mpr hh
    · dsimp only at hpc'
      rw [hpc] at hpc'
      cases hpc'

theorem Noticed.execStep {s s' : State} {w : Bool} (h : Noticed ⟨s, w⟩) (hok : s.PcOk)
    (hstep : s.ExecStepped s') (hheeds : Heeds ⟨s, w⟩ .exec) :
    Noticed ⟨s', wokenAfter ⟨s, w⟩ .exec⟩ := by
  by_cases hroot : s.pc = .rootBegin
  · exact noticed_of_not_woken (by simp [wokenAfter, hroot])
  have hw : wokenAfter ⟨s, w⟩ .exec = w := by simp [wokenAfter, hroot]
  rw [hw]
  have hperf := (State.execStep_act hok hstep).2
  cases hstep with
  | rootBegin hpc => exact absurd hpc hroot
  | tickBegin hpc => exact noticed_of_early rfl fun hw => h.early hw (by rw [hpc]; rfl)
  | wakeDeferred hpc =>
    exact noticed_of_firstLoop rfl fun hw => .inr (.inr (h.early hw (by rw [hpc]; rfl)))
  | popInjection hpc =>
    simp only [State.execAct, hpc] at hperf
    refine h.loopStep ⟨false, 0⟩ (by rw [hpc]; rfl) ?_ hperf ?_
    · exact State.inLoop_popInjection s ⟨rfl, rfl, rfl⟩ ⟨rfl, rfl, rfl⟩
    · rintro _ ⟨⟩
      rfl
  | loopEnds lp hpc hcount =>
    simp only [State.execAct, hpc, if_pos hcount] at hperf
    exact h.loopStep lp (by rw [hpc]; rfl) (State.inLoop_afterLoop lp) hperf (by simp)
  | loopPolls lp hpc hcount =>
    simp only [State.execAct, hpc, if_neg (Nat.not_le.mpr hcount)] at hperf
    exact h.loopStep lp (by rw [hpc]; rfl) (s.inLoop_pollHead ⟨rfl, rfl, rfl⟩) hperf
      (settles_headAct s)
  | nextReactor lp hpc => exact h.nextReactor hpc hheeds
  | nextCross lp hpc => exact h.nextCross hpc hheeds
  | nextPop lp hpc =>
    simp only [State.execAct, hpc] at hperf
    exact h.loopStep lp (by rw [hpc]; rfl) (s.inLoop_pollHead ⟨rfl, rfl, rfl⟩) hperf
      (settles_headAct s)
  | nextInjection lp hpc =>
    simp only [State.execAct, hpc] at hperf
    refine h.loopStep lp (by rw [hpc]; rfl) ?_ hperf ?_
    · exact State.inLoop_popInjection s ⟨rfl, rfl, rfl⟩ (State.inLoop_afterLoop lp)
    · rintro _ ⟨⟩
      rfl
  | parkBegin count hpc =>
    refine ⟨fun _ hearly => (by cases hearly), fun _ hloop => (by cases hloop), ?_,
      fun _ count timeout hpc' => (by cases hpc')⟩
    rintro hw _ _ _ ⟨⟩
    exact (h.loop hw (by rw [hpc]; rfl)).hurried _
  | parkCross count hd hr hpc => exact h.parkCross hpc
  | parkWakes => exact noticed_of_later rfl rfl rfl
  | parkCrossAfter count hpc =>
    rcases s.drainCross_cases fun s =>
        { s with exec := s.exec.drainTaskReadyIntoLocal, pc := .pollLoop ⟨true, count⟩ } with
      ⟨-, heq⟩ | ⟨id, k, rest, -, heq⟩
    · rw [heq]
      exact noticed_of_later rfl rfl rfl
    · rw [heq]
      refine noticed_of_later ?_ ?_ ?_ <;> (dsimp only; rw [hpc]; rfl)
  | tickEnd => exact noticed_of_later rfl rfl rfl

/-- User code runs, and takes nothing away, though it may wake the root. -/
theorem Noticed.userCode {s : State} {w w' : Bool} {e : Executor} (h : Noticed ⟨s, w⟩)
    (huser : s.pc.userCode = true)
    (hqueued : w' = true → (w = true → s.exec.RootQueued) → e.RootQueued)
    (hawaited : w' = true → (w = true → s.exec.RootAwaited) → e.RootAwaited) :
    Noticed ⟨{ s with exec := e }, w'⟩ := by
  have hwait := State.waiting_of_userCode huser
  refine ⟨fun hw hearly => hqueued hw fun hw => h.early hw hearly,
    fun hw hloop => hawaited hw fun hw => h.loop hw hloop, fun _ count hd hr hpc => ?_,
    fun _ count timeout hpc => ?_⟩
  · dsimp only at hpc
    rw [hpc] at hwait
    cases hwait
  · dsimp only at hpc
    rw [hpc] at hwait
    cases hwait

theorem Noticed.step (h : Noticed r) (hok : r.state.PcOk) (hr : r.step l = some r')
    (hheeds : r.Heeds l) : Noticed r' := by
  obtain ⟨s, w⟩ := r
  obtain ⟨s', hstep, rfl⟩ := Option.map_eq_some_iff.mp hr
  have hperf := (State.step_act hok hstep).2
  dsimp only at hstep hperf hok
  -- the steps of other threads, and of calls
  have hcaller : ∀ {s'}, s'.exec = s.exec → s'.pc = s.pc → s.shared.CallerStep s'.shared →
      Noticed ⟨s', w⟩ := by
    intro s' hexec hpc hsh
    constructor
    · dsimp only
      rw [hpc, hexec]
      exact h.early
    · dsimp only
      rw [hpc, hexec]
      exact h.loop
    · dsimp only
      rw [hpc, hexec]
      exact fun hw count hd hr hpc' =>
        (h.draining hw count hd hr hpc').mono fun x hx => hsh.mem_crossQueue hx
    · dsimp only
      rw [hpc]
      exact h.parked
  cases State.step_cases hstep with
  | exec _ hexec => exact h.execStep hok hexec hheeds
  | wake source id huser =>
    by_cases hroot : id = rootId
    · subst hroot
      have hq := s.exec.rootQueued_wake source
      exact h.userCode huser (fun _ _ => hq) fun _ _ => .inr (.inr hq)
    · have hw : wokenAfter ⟨s, w⟩ (.wake source id) = w := by simp [wokenAfter, hroot]
      rw [hw]
      exact h.userCode huser
        (fun hw hq => (Executor.Step.wake source id).rootQueued rfl (hq hw))
        fun hw ha => (Executor.Step.wake source id).rootAwaited rfl (ha hw)
  | yield huser _ he =>
    exact h.userCode huser (fun hw hq => (Executor.Step.yield he).rootQueued rfl (hq hw))
      fun hw ha => (Executor.Step.yield he).rootAwaited rfl (ha hw)
  | rootReturns ready _ hpc =>
    cases ready with
    | true => exact noticed_of_later rfl rfl rfl
    | false => exact noticed_of_early rfl fun hw => h.early hw (by rw [hpc]; rfl)
  | @pollReturns ready lp _ _ _ hpc hrun =>
    simp only [State.act, hpc] at hperf
    refine h.loopStep lp (by rw [hpc]; rfl) ⟨rfl, rfl, rfl⟩ hperf ?_
    rintro _ ⟨⟩
    rfl
  | blockOn => exact noticed_of_later rfl rfl rfl
  | osReturns => exact noticed_of_later rfl rfl rfl
  | spawn own => exact hcaller rfl rfl (.start _ own _)
  | wakeForeign => exact hcaller rfl rfl (.start _ false _)
  | call hcall => exact hcaller rfl rfl (.call hcall)

theorem reachable_state (h : machine.Reachable r) : State.machine.Reachable r.state := by
  refine h.invariant (I := fun r => State.machine.Reachable r.state) ?_ ?_
  · rintro r ⟨hinit, -⟩
    exact .of_init hinit
  · intro r l r' hr hstep
    obtain ⟨s', hs, rfl⟩ := Option.map_eq_some_iff.mp hstep
    exact hr.step hs

/-- **Wakes of the root.** In every run in which no drain of a first loop takes the id of a woken
root, unless the root or a task has yielded, the park after a wake of the root does not block. -/
theorem restrict_heeds_prompt (h : (machine.restrict Heeds).Reachable r) : r.Prompt := by
  suffices machine.Reachable r ∧ Noticed r from
    fun count timeout hpc hw => this.2.parked hw count timeout hpc
  refine h.invariant (I := fun r => machine.Reachable r ∧ Noticed r) ?_ ?_
  · rintro r hinit
    exact ⟨.of_init hinit, noticed_of_not_woken hinit.2⟩
  · rintro r l r' ⟨hreach, hr⟩ ⟨hstep, hheeds⟩
    exact ⟨hreach.step hstep,
      hr.step (State.pcOk_of_reachable (reachable_state hreach)) hstep hheeds⟩

theorem reachable_new (G : RootState → Label → Prop) :
    (machine.restrict G).Reachable ⟨.new 1 .new, false⟩ :=
  .of_init ⟨⟨1, .new, by decide, rfl, rfl⟩, rfl⟩

/-- With a budget of one poll: the task that is polled wakes the root, and the budget is used up. -/
theorem restrict_heeds_prompt_budget : ∃ r, (machine.restrict Heeds).Reachable r ∧
    r.state.pc = .parked 1 0 ∧ r.woken = true ∧ r.Prompt := by
  obtain ⟨r, hfollow, hpc, hwoken⟩ : ∃ r,
      Machine.follow (fun (r : RootState) l => if r.Heeds l then r.step l else none)
        [.spawn false 0, .call 0, .call 0, .call 0, .blockOn, .exec, .futureReturns false, .exec,
          .exec, .exec, .exec, .exec, .wake .task rootId, .futureReturns false, .exec, .exec, .exec]
        ⟨.new 1 .new, false⟩ = some r ∧ r.state.pc = .parked 1 0 ∧ r.woken = true :=
    ⟨_, rfl, by decide, by decide⟩
  have hreach := (reachable_new Heeds).follow_restrict hfollow
  exact ⟨r, hreach, hpc, hwoken, restrict_heeds_prompt hreach⟩

/-- The root wakes itself. There are no tasks, so `next_task` drains its id, and `park` blocks. -/
theorem not_rootPrompt : ¬ ∀ r, machine.Reachable r → r.Prompt := by
  intro hall
  obtain ⟨r, hfollow, hpc, hwoken⟩ : ∃ r, Machine.follow step
      [.blockOn, .exec, .wake .task rootId, .futureReturns false, .exec, .exec, .exec, .exec, .exec,
        .exec, .exec, .exec, .exec, .exec]
      ⟨.new 1 .new, false⟩ = some r ∧ r.state.pc = .parked 0 100 ∧ r.woken = true :=
    ⟨_, rfl, by decide, by decide⟩
  have hreach := (reachable_new fun _ _ => True).of_restrict.follow hfollow
  have hzero := hall r hreach 0 100 hpc hwoken
  revert hzero
  decide

end RootState

end Lion
