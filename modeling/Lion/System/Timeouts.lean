import Lion.System.Delivery
import Lion.Time.Interval

/-!
# Timeouts

`timeout` of `lion-utility`: a future and a `Sleep`, in a box each, polled in that order. The future
comes first, so that its result is never thrown away for being late; and only if both are pending is
the whole, so that whoever is told to wait has left a waker with the sleep at least.

There are any number of them on the thread of a runtime, with whatever else there is. What the
wrapped future does when it is polled is up to it: its steps are those of the thread, and then it
answers.

## What a poll comes to

A poll ends in one of three ways, and `Outcome` says after any run which it was, from the answers of
the wrapped future and from the state of the sleep: the answer that was a value was returned, the
deadline was reached by the clock that the poll went by, or the sleep waits with the waker of the
poll. Which clock that is, is the subtle part: the reading of the latest park, if the thread has
parked before, and else a new one (`complete_iff`).

The notes on which `Outcome` rests are written by polls only, and each is tied to what was passed to
the poll and to what it returned. So the result says also what one poll does to its notes, by its
label, and that no other step changes them.

## Who is told to wait

That the task is polled again is the matter of its sleep, once the timeout has left a waker there.
It is registered with the reactor under the deadline, and from there on the task sleeps
(`System.run_polled_of_sleep`): nobody else touches the sleep, since each timeout has its own
(`Kept`).

## Conventions

Of a `Timeout` only the number of its sleep is in the source. The deadline it was made with, what
its future has answered so far, by which clock it went in its latest poll, and what came of that are
noted beside it. A timeout may be polled after it was ready.

The sleep is polled, reset and dropped by the timeout only. If the reactor refuses to register its
timer, the poll panics.

## Main results

* `Timeouts.reachable_outcome` — what a poll of a timeout comes to
* `Timeouts.run_polled_of_timeout` — who waits is polled in time
-/

namespace Lion

/-- `TimeoutAction`, which a poll decides on. -/
inductive TimeoutAction
  /-- The wrapped future completed. -/
  | readyOk
  /-- The deadline came first. -/
  | readyElapsed
  /-- Neither is ready. -/
  | pending
deriving DecidableEq, Repr

/-- `poll_step` of `timeout_kernel`: the future comes first. -/
def TimeoutAction.pollStep (futReady sleepReady : Bool) : TimeoutAction :=
  if futReady then .readyOk else if sleepReady then .readyElapsed else .pending

/-- A `Timeout` around a future with results in `T`. -/
structure Timeout (T : Type) where
  /-- The number of its sleep. -/
  sleep : ℕ
  /-- The deadline that it was made with. -/
  deadline : UInt64
  /-- What its future has answered, poll by poll. -/
  answers : List (Option T)
  /-- The clock that its latest poll went by. -/
  clock : UInt64
  /-- The waker of its latest poll, if that has returned pending. -/
  last : Option TaskWaker
  /-- What its latest poll has returned, if it was ready. -/
  result : Option (Except Unit T)

/-- The thread of a runtime, and the timeouts of its tasks. -/
structure Timeouts (T : Type) where
  system : System
  timeouts : Arena (Timeout T)

namespace Timeouts

variable {T : Type}

/-- What can happen next, on the thread of the runtime. -/
inductive Label (T : Type)
  /-- A step of the thread that does not concern timeouts. -/
  | system (l : System.Label)
  /-- `timeout`, with a reading of the clock. -/
  | timeout (duration raw : UInt64)
  /-- `Timeout::poll`. The future has been polled and has answered. -/
  | poll (i : ℕ) (waker : TaskWaker) (raw : UInt64) (answer : Option T)
  /-- A timeout is dropped, and its sleep with it. -/
  | drop (i : ℕ)

/-- The step is about the sleep of a timeout, which is for the timeout to do. -/
def owns (s : Timeouts T) (l : System.Label) : Bool :=
  s.timeouts.slots.any fun slot => slot.any fun t => l.touches t.sleep

/-- `Sleep::poll` of sleep number `j`. Whether it is ready. -/
def pollSleep (s : System) (j : ℕ) (waker : TaskWaker) (raw : UInt64) : Option (Bool × System) := do
  let f ← s.sleepers.sleeps.get j
  let action := (Sleep.poll f.kernel s.sleepers.reactor waker raw).1
  if action = .fail then none
  else
    let s ← s.step (.sleepers (.poll j waker raw))
    return (action = .complete, s)

/-- `Timeout::poll` of timeout number `i`, whose future has answered this. -/
def poll (s : Timeouts T) (i : ℕ) (waker : TaskWaker) (raw : UInt64) (answer : Option T) :
    Option (Timeouts T) := do
  let t ← s.timeouts.get i
  let t := { t with
    answers := t.answers ++ [answer]
    clock := Sleep.clock s.system.sleepers.reactor raw }
  let futReady := answer.isSome
  let (sleepReady, system) ←
    if futReady then some (false, s.system) else pollSleep s.system t.sleep waker raw
  let t :=
    match TimeoutAction.pollStep futReady sleepReady with
    | .readyOk => { t with last := none, result := answer.map .ok }
    | .readyElapsed => { t with last := none, result := some (.error ()) }
    | .pending => { t with last := some waker, result := none }
  return ⟨system, s.timeouts.put i (some t)⟩

/-- One step. `none`: it panics, or there is no timeout that it could be about. -/
def step (s : Timeouts T) : Label T → Option (Timeouts T)
  | .system l => if s.owns l then none else (s.system.step l).map fun system => { s with system }
  | .timeout duration raw => do
    let deadline := Instant.add raw duration
    let system ← s.system.step (.sleepers (.new deadline))
    return ⟨system, s.timeouts.add ⟨s.system.sleepers.sleeps.size, deadline, [], raw, none, none⟩⟩
  | .poll i waker raw answer => s.poll i waker raw answer
  | .drop i => do
    let t ← s.timeouts.get i
    let system ← s.system.step (.sleepers (.drop t.sleep))
    return ⟨system, s.timeouts.put i none⟩

/-- The timeouts of a thread as a machine, with whatever else it does. -/
def machine (T : Type) : Machine (Timeouts T) (Label T) :=
  Machine.ofStep (fun s => System.machine.init s.system ∧ s.timeouts = .empty) step

variable {s s' : Timeouts T} {l : Label T} {i : ℕ} {t : Timeout T}

/-! ### What a step does -/

/-- What a poll of a timeout does, by the answer of its future and by its sleep. -/
inductive Polled (s : Timeouts T) (t : Timeout T) (waker : TaskWaker) (raw : UInt64)
    (answer : Option T) : System → Timeout T → Prop
  /-- The future has completed, and the sleep is not polled. -/
  | ok {value : T} (hanswer : answer = some value) : Polled s t waker raw answer s.system
      { t with
        answers := t.answers ++ [some value]
        clock := Sleep.clock s.system.sleepers.reactor raw
        last := none
        result := some (.ok value) }
  /-- The future has not completed, and the sleep has. -/
  | elapsed {f : Sleeper TaskWaker} {system : System} (hanswer : answer = none)
      (hf : s.system.sleepers.sleeps.get t.sleep = some f)
      (hpast : f.kernel.deadline ≤ Sleep.clock s.system.sleepers.reactor raw)
      (hstep : s.system.step (.sleepers (.poll t.sleep waker raw)) = some system) :
      Polled s t waker raw answer system
        { t with
          answers := t.answers ++ [none]
          clock := Sleep.clock s.system.sleepers.reactor raw
          last := none
          result := some (.error ()) }
  /-- Neither has, and the sleep waits with the waker of the poll. -/
  | pending {f : Sleeper TaskWaker} {system : System} (hanswer : answer = none)
      (hf : s.system.sleepers.sleeps.get t.sleep = some f)
      (hahead : Sleep.clock s.system.sleepers.reactor raw < f.kernel.deadline)
      (hsuspend : (Sleep.poll f.kernel s.system.sleepers.reactor waker raw).1 = .suspend)
      (hstep : s.system.step (.sleepers (.poll t.sleep waker raw)) = some system) :
      Polled s t waker raw answer system
        { t with
          answers := t.answers ++ [none]
          clock := Sleep.clock s.system.sleepers.reactor raw
          last := some waker
          result := none }

/-- By which clock a poll of a sleep goes. -/
theorem complete_iff {k : SleepKernel} {r : Reactor TaskWaker} {waker : TaskWaker} {raw : UInt64} :
    (Sleep.poll k r waker raw).1 = .complete ↔ k.deadline ≤ Sleep.clock r raw := by
  by_cases h : k.deadline ≤ Sleep.clock r raw
  · simp [Sleep.poll_of_le h, h]
  · obtain ⟨⟨res, r'⟩, hreg⟩ : ∃ x, ReactorHandle.registerTimer (Sleep.disarm k r) k.deadline
      waker = x := ⟨_, rfl⟩
    rw [Sleep.poll_of_not_le h hreg]
    cases res <;> simp [h, Except.toOption]

theorem poll_cases {waker : TaskWaker} {raw : UInt64} {answer : Option T}
    (h : s.poll i waker raw answer = some s') : ∃ t system t', s.timeouts.get i = some t ∧
      Polled s t waker raw answer system t' ∧ s' = ⟨system, s.timeouts.put i (some t')⟩ := by
  obtain ⟨t, hi, h⟩ := Option.bind_eq_some_iff.mp h
  refine ⟨t, ?_⟩
  cases answer with
  | some value =>
    cases h
    exact ⟨_, _, hi, .ok rfl, rfl⟩
  | none =>
    obtain ⟨⟨sleepReady, system⟩, hsleep, h⟩ := Option.bind_eq_some_iff.mp h
    obtain ⟨f, hf, hsleep⟩ := Option.bind_eq_some_iff.mp hsleep
    dsimp only at hsleep
    split at hsleep
    · cases hsleep
    · rename_i hfail
      obtain ⟨system', hstep, heq⟩ := Option.bind_eq_some_iff.mp hsleep
      cases heq
      by_cases hpast : f.kernel.deadline ≤ Sleep.clock s.system.sleepers.reactor raw
      · rw [decide_eq_true (complete_iff.mpr hpast)] at h
        cases h
        exact ⟨_, _, hi, .elapsed rfl hf hpast hstep, rfl⟩
      · have hnot : (Sleep.poll f.kernel s.system.sleepers.reactor waker raw).1 ≠ .complete :=
          mt complete_iff.mp hpast
        rw [decide_eq_false hnot] at h
        cases h
        refine ⟨_, _, hi, .pending rfl hf (UInt64.not_le.mp hpast) ?_ hstep, rfl⟩
        cases haction : (Sleep.poll f.kernel s.system.sleepers.reactor waker raw).1 with
        | complete => exact absurd haction hnot
        | suspend => rfl
        | fail => exact absurd haction hfail

/-! ### What comes of a timeout -/

/-- What has come of a timeout whose sleep is `f`. -/
inductive Outcome (t : Timeout T) (f : Sleeper TaskWaker) : Prop
  /-- It was not polled yet. -/
  | fresh (hanswers : t.answers = []) (hlast : t.last = none) (hresult : t.result = none)
  /-- The future has just completed, and its value was returned. -/
  | ok {before : List (Option T)} {value : T} (hanswers : t.answers = before ++ [some value])
      (hlast : t.last = none) (hresult : t.result = some (.ok value))
  /-- The future has not, and the deadline was reached. -/
  | elapsed {before : List (Option T)} (hanswers : t.answers = before ++ [none])
      (hlast : t.last = none) (hresult : t.result = some (.error ()))
      (hpast : t.deadline ≤ t.clock)
  /-- The future has not, and it was not; the sleep waits with the waker of the poll. -/
  | pending {before : List (Option T)} {w : TaskWaker} (hanswers : t.answers = before ++ [none])
      (hlast : t.last = some w) (hresult : t.result = none) (hahead : t.clock < t.deadline)
      (hwaits : f.last = some w)

/-- What holds of timeouts and their sleeps, for a timeout to go by its own sleep. -/
structure Kept (s : Timeouts T) : Prop where
  /-- The thread does what it does anyway. -/
  system : System.machine.Reachable s.system
  /-- Every timeout has its sleep. -/
  sleeps : ∀ i t, s.timeouts.get i = some t → ∃ f,
    s.system.sleepers.sleeps.get t.sleep = some f ∧ f.kernel.deadline = t.deadline ∧ Outcome t f
  /-- No two timeouts have the same sleep. -/
  apart : ∀ i j t u, s.timeouts.get i = some t → s.timeouts.get j = some u → t.sleep = u.sleep →
    i = j

/-- A sleep that a step does not touch is as it was left. -/
theorem get_of_step {system system' : System} {l : System.Label} {j : ℕ} {f : Sleeper TaskWaker}
    (hstep : system.step l = some system') (hl : l.touches j = false)
    (hj : system.sleepers.sleeps.get j = some f) :
    system'.sleepers.sleeps.get j = some f := by
  refine System.get_of_run (.cons hstep .nil) (fun l' hl' => ?_) hj
  rw [List.mem_singleton.mp hl']
  exact hl

/-- The sleep of a timeout after it was polled. -/
theorem get_of_poll {system system' : System} {waker : TaskWaker} {raw : UInt64} {j : ℕ}
    {f : Sleeper TaskWaker} (hstep : system.step (.sleepers (.poll j waker raw)) = some system')
    (hj : system.sleepers.sleeps.get j = some f) :
    ∃ f', system'.sleepers.sleeps.get j = some f' ∧ f'.kernel.deadline = f.kernel.deadline ∧
      f'.last = if (Sleep.poll f.kernel system.sleepers.reactor waker raw).1 = .suspend
        then some waker else none := by
  cases System.step_cases hstep with
  | sleepers _ _ _ hcall =>
    simp only [Sleepers.step] at hcall
    split at hcall
    · obtain ⟨g, hg, heq⟩ := Option.bind_eq_some_iff.mp hcall
      cases hj.symm.trans hg
      cases heq
      refine ⟨_, (Arena.get_put hj _ j).trans (if_pos rfl), ?_, rfl⟩
      exact Sleep.deadline_poll f.kernel system.sleepers.reactor waker raw
    · cases hcall

/-- One timeout changes, or goes, and the others keep their sleeps. -/
theorem Kept.put (h : Kept s) (hi : s.timeouts.get i = some t) {system : System}
    {x : Option (Timeout T)} (hsystem : System.machine.Reachable system)
    (hother : ∀ j f, j ≠ t.sleep → s.system.sleepers.sleeps.get j = some f →
      system.sleepers.sleeps.get j = some f)
    (hx : ∀ u, x = some u → u.sleep = t.sleep ∧ ∃ f, system.sleepers.sleeps.get u.sleep = some f ∧
      f.kernel.deadline = u.deadline ∧ Outcome u f) : Kept ⟨system, s.timeouts.put i x⟩ := by
  refine ⟨hsystem, fun j u hj => ?_, fun j k u v hj hk hsame => ?_⟩
  · simp only [Arena.get_put hi] at hj
    split at hj
    · exact (hx u hj).2
    · rename_i hne
      obtain ⟨f, hf, hdeadline, houtcome⟩ := h.sleeps j u hj
      exact ⟨f, hother _ f (fun heq => hne (h.apart j i u t hj hi heq)) hf, hdeadline, houtcome⟩
  · -- whoever is in this place has the sleep of `t`
    have hold : ∀ {j u}, (s.timeouts.put i x).get j = some u →
        ∃ u', s.timeouts.get j = some u' ∧ u'.sleep = u.sleep := by
      intro j u hj
      rw [Arena.get_put hi] at hj
      split at hj
      · rename_i heq
        exact ⟨t, heq ▸ hi, (hx u hj).1.symm⟩
      · exact ⟨u, hj, rfl⟩
    obtain ⟨u', hu', hsleep⟩ := hold hj
    obtain ⟨v', hv', hsleep'⟩ := hold hk
    exact h.apart j k u' v' hu' hv' (hsleep.trans (hsame.trans hsleep'.symm))

/-- A poll of a timeout keeps it. -/
theorem Kept.poll {waker : TaskWaker} {raw : UInt64} {answer : Option T} {system : System}
    {t' : Timeout T} (h : Kept s) (hi : s.timeouts.get i = some t)
    (hpolled : Polled s t waker raw answer system t') :
    Kept ⟨system, s.timeouts.put i (some t')⟩ := by
  obtain ⟨f, hf, hdeadline, -⟩ := h.sleeps i t hi
  have hother : ∀ {system'}, s.system.step (.sleepers (.poll t.sleep waker raw)) = some system' →
      ∀ j g, j ≠ t.sleep → s.system.sleepers.sleeps.get j = some g →
        system'.sleepers.sleeps.get j = some g :=
    fun hstep j g hne hg => get_of_step hstep (decide_eq_false hne.symm) hg
  cases hpolled with
  | ok =>
    refine h.put hi h.system (fun _ _ _ hg => hg) ?_
    rintro u ⟨⟩
    exact ⟨rfl, f, hf, hdeadline, .ok rfl rfl rfl⟩
  | elapsed _ hf' hpast hstep =>
    cases hf.symm.trans hf'
    obtain ⟨f', hget, hsame, -⟩ := get_of_poll hstep hf
    refine h.put hi (h.system.step hstep) (hother hstep) ?_
    rintro u ⟨⟩
    exact ⟨rfl, f', hget, hsame.trans hdeadline, .elapsed rfl rfl rfl (hdeadline ▸ hpast)⟩
  | pending _ hf' hahead hsuspend hstep =>
    cases hf.symm.trans hf'
    obtain ⟨f', hget, hsame, hlast⟩ := get_of_poll hstep hf
    refine h.put hi (h.system.step hstep) (hother hstep) ?_
    rintro u ⟨⟩
    rw [if_pos hsuspend] at hlast
    exact ⟨rfl, f', hget, hsame.trans hdeadline, .pending rfl rfl rfl (hdeadline ▸ hahead) hlast⟩

/-- A step that is not about the sleep of a timeout. -/
theorem touches_of_owns {l : System.Label} (h : s.owns l = false) (hi : s.timeouts.get i = some t) :
    l.touches t.sleep = false := by
  by_contra htouches
  have hslot := List.mem_of_getElem? (Arena.get_eq_some.mp hi)
  have howns : s.owns l = true := List.any_eq_true.mpr ⟨some t, hslot, by simpa using htouches⟩
  rw [h] at howns
  cases howns

/-- `timeout` makes a sleep, and a timeout with it. -/
theorem Kept.timeout {deadline raw : UInt64} {system : System} (h : Kept s)
    (hstep : s.system.step (.sleepers (.new deadline)) = some system) :
    Kept ⟨system, s.timeouts.add
      ⟨s.system.sleepers.sleeps.size, deadline, [], raw, none, none⟩⟩ := by
  have hnew : ∃ f, system.sleepers.sleeps.get s.system.sleepers.sleeps.size = some f ∧
      f.kernel.deadline = deadline := by
    cases System.step_cases hstep with
    | sleepers _ _ _ hcall =>
      cases hcall
      exact ⟨_, (Arena.get_add _ _ _).trans (if_pos rfl), rfl⟩
  obtain ⟨f, hf, hdeadline⟩ := hnew
  have hlt : ∀ j u, s.timeouts.get j = some u → u.sleep ≠ s.system.sleepers.sleeps.size := by
    intro j u hj
    obtain ⟨g, hg, -⟩ := h.sleeps j u hj
    exact Nat.ne_of_lt (Arena.lt_size hg)
  refine ⟨h.system.step hstep, fun j u hj => ?_, fun j k u v hj hk hsame => ?_⟩
  · rw [Arena.get_add] at hj
    split at hj
    · cases hj
      exact ⟨f, hf, hdeadline, .fresh rfl rfl rfl⟩
    · obtain ⟨g, hg, hrest⟩ := h.sleeps j u hj
      exact ⟨g, get_of_step hstep rfl hg, hrest⟩
  · rw [Arena.get_add] at hj hk
    split at hj <;> split at hk
    · rename_i hj' hk'
      exact hj'.trans hk'.symm
    · cases hj
      exact absurd hsame.symm (hlt k v hk)
    · cases hk
      exact absurd hsame (hlt j u hj)
    · exact h.apart j k u v hj hk hsame

/-- **One step** keeps it. -/
theorem Kept.step (h : Kept s) (hstep : s.step l = some s') : Kept s' := by
  cases l with
  | system l =>
    simp only [Timeouts.step] at hstep
    split at hstep
    · cases hstep
    · rename_i howns
      obtain ⟨system, hsystem, rfl⟩ := Option.map_eq_some_iff.mp hstep
      refine ⟨h.system.step hsystem, fun j u hj => ?_, h.apart⟩
      obtain ⟨f, hf, hrest⟩ := h.sleeps j u hj
      have htouches := touches_of_owns (Bool.eq_false_of_not_eq_true howns) hj
      exact ⟨f, get_of_step hsystem htouches hf, hrest⟩
  | timeout duration raw =>
    obtain ⟨system, hsystem, heq⟩ := Option.bind_eq_some_iff.mp hstep
    cases heq
    exact h.timeout hsystem
  | poll i waker raw answer =>
    obtain ⟨t, system, t', hi, hpolled, rfl⟩ := poll_cases hstep
    exact h.poll hi hpolled
  | drop i =>
    obtain ⟨t, hi, hrest⟩ := Option.bind_eq_some_iff.mp hstep
    obtain ⟨system, hsystem, heq⟩ := Option.bind_eq_some_iff.mp hrest
    cases heq
    refine h.put hi (h.system.step hsystem) (fun j f hne hf => ?_) fun u hu => by cases hu
    exact get_of_step hsystem (decide_eq_false hne.symm) hf

theorem kept_of_reachable (h : (machine T).Reachable s) : Kept s := by
  refine h.invariant ?_ fun s l s' hs hstep => hs.step hstep
  rintro s ⟨hinit, hempty⟩
  refine ⟨.of_init hinit, fun i t hi => ?_, fun i j t u hi => ?_⟩ <;>
  · rw [hempty] at hi
    cases hi

/-- An operation on timeout number `i`. -/
def Label.touches (i : ℕ) : Label T → Bool
  | .poll j _ _ _ | .drop j => decide (j = i)
  | .system _ | .timeout _ _ => false

/-- What is noted of a timeout is noted by its own operations. -/
theorem get_of_untouched (hi : s.timeouts.get i = some t) (hl : l.touches i = false)
    (hstep : s.step l = some s') : s'.timeouts.get i = some t := by
  have hput : ∀ {j u} {x : Option (Timeout T)}, decide (j = i) = false →
      s.timeouts.get j = some u → (s.timeouts.put j x).get i = some t := by
    intro j u x hne hj
    rw [Arena.get_put hj, if_neg fun heq => by simp [heq] at hne, hi]
  cases l with
  | system l =>
    simp only [Timeouts.step] at hstep
    split at hstep
    · cases hstep
    · obtain ⟨system, -, rfl⟩ := Option.map_eq_some_iff.mp hstep
      exact hi
  | timeout duration raw =>
    obtain ⟨system, -, heq⟩ := Option.bind_eq_some_iff.mp hstep
    cases heq
    rw [Arena.get_add, if_neg (Nat.ne_of_lt (Arena.lt_size hi)), hi]
  | poll j waker raw answer =>
    obtain ⟨u, system, u', hj, -, rfl⟩ := poll_cases hstep
    exact hput hl hj
  | drop j =>
    obtain ⟨u, hj, hrest⟩ := Option.bind_eq_some_iff.mp hstep
    obtain ⟨system, -, heq⟩ := Option.bind_eq_some_iff.mp hrest
    cases heq
    exact hput hl hj

/-- **What a poll of a timeout comes to.** In every run, a timeout that was polled has returned the
value that its future answered just then, or that the time has elapsed, with the clock at its
deadline or after it and the future not ready, or pending before the deadline, with the future not
ready either. In the last case its sleep waits with the waker of that poll: the reactor has a timer
with it, or has called it at the deadline or after it.

What a timeout says of its latest poll is what that poll was called with: a poll notes the answer
of the future, the clock it went by, and the waker it was given (`Polled`), and no other step
changes any of this. -/
theorem reachable_outcome (h : (machine T).Reachable s) (hi : s.timeouts.get i = some t) :
    (∃ f, s.system.sleepers.sleeps.get t.sleep = some f ∧ f.kernel.deadline = t.deadline ∧
      Outcome t f ∧ ∀ w, t.last = some w →
        ∃ rid, f.kernel.rid = some rid ∧ s.system.sleepers.Prompted f rid w) ∧
      (∀ waker raw answer s', s.step (.poll i waker raw answer) = some s' → ∃ system t',
        Polled s t waker raw answer system t' ∧ s' = ⟨system, s.timeouts.put i (some t')⟩) ∧
      ∀ l s', l.touches i = false → s.step l = some s' → s'.timeouts.get i = some t := by
  have hkept := kept_of_reachable h
  refine ⟨?_, fun waker raw answer s' hstep => ?_, fun l s' => get_of_untouched hi⟩
  · obtain ⟨f, hf, hdeadline, houtcome⟩ := hkept.sleeps i t hi
    refine ⟨f, hf, hdeadline, houtcome, fun w hw => ?_⟩
    have htracked := Sleepers.tracked_of_reachable (System.reachable_sleepers hkept.system)
    cases houtcome with
    | fresh _ hlast | ok _ hlast | elapsed _ hlast =>
      rw [hlast] at hw
      cases hw
    | pending _ hlast _ _ hwaits =>
      rw [hlast] at hw
      cases hw
      exact htracked.prompt _ f w hf hwaits
  · obtain ⟨u, system, t', hi', hpolled, rfl⟩ := poll_cases hstep
    cases hi.symm.trans hi'
    exact ⟨system, t', hpolled, rfl⟩

/-- A timeout that is polled at its deadline has elapsed. -/
theorem reachable_outcome_elapsed : ∃ (s : Timeouts ℕ) (t : Timeout ℕ), (machine ℕ).Reachable s ∧
    s.timeouts.get 0 = some t ∧ t.result = some (.error ()) ∧ ∃ f, Outcome t f := by
  have hstart : (machine ℕ).Reachable ⟨System.new 4 .new none 0, .empty⟩ :=
    .of_init ⟨⟨4, .new, none, 0, by decide, rfl, rfl⟩, rfl⟩
  obtain ⟨s, hs, htimeout⟩ := Machine.exists_follow step
    ((System.runs (.spawn false 0 :: .call 0 :: .blockOn :: .exec :: .futureReturns false ::
      State.execs 5)).map .system ++ [.timeout 2 0, .poll 0 ⟨.task, 1⟩ 2 (none : Option ℕ)])
    ⟨System.new 4 .new none 0, .empty⟩
    (fun s => (s.timeouts.get 0).bind (fun t => t.result.map Except.toOption) = some none)
    (by decide +kernel)
  obtain ⟨t, ht, hresult⟩ := Option.bind_eq_some_iff.mp htimeout
  obtain ⟨res, hres, hnone⟩ := Option.map_eq_some_iff.mp hresult
  have hreach : (machine ℕ).Reachable s := hstart.follow hs
  obtain ⟨⟨f, -, -, houtcome, -⟩, -⟩ := reachable_outcome hreach ht
  refine ⟨s, t, hreach, ht, ?_, f, houtcome⟩
  cases res with
  | ok value => cases hnone
  | error => exact hres

/-! ### Who waits -/

/-- A park reads a later time than the instant of the one before. -/
def Later (s : Timeouts T) : Label T → Prop
  | .system l => System.Later s.system l
  | .timeout _ _ | .poll _ _ _ _ | .drop _ => True

instance (s : Timeouts T) (l : Label T) : Decidable (Later s l) :=
  match l with
  | .system l => inferInstanceAs (Decidable (System.Later s.system l))
  | .timeout _ _ | .poll _ _ _ _ | .drop _ => .isTrue trivial

/-- A step that is not about a timeout does not touch its sleep. -/
theorem untouched_step (h : Kept s) (hi : s.timeouts.get i = some t) (hl : l.touches i = false)
    (hstep : s.step l = some s') (hlater : Later s l) :
    ∃ ls, (System.machine.restrict System.Later).Run s.system ls s'.system ∧
      ∀ l ∈ ls, l.touches t.sleep = false := by
  have hone : ∀ {l : System.Label} {system}, s.system.step l = some system →
      System.Later s.system l → l.touches t.sleep = false →
      ∃ ls, (System.machine.restrict System.Later).Run s.system ls system ∧
        ∀ l ∈ ls, l.touches t.sleep = false := by
    intro l system hsystem hlater htouches
    refine ⟨[l], .cons ⟨hsystem, hlater⟩ .nil, fun l' hl' => ?_⟩
    rw [List.mem_singleton.mp hl']
    exact htouches
  -- the sleep of another timeout
  have hother : ∀ {j u}, decide (j = i) = false → s.timeouts.get j = some u →
      decide (u.sleep = t.sleep) = false := by
    intro j u hne hj
    exact decide_eq_false fun heq => by simp [h.apart j i u t hj hi heq] at hne
  cases l with
  | system l =>
    simp only [Timeouts.step] at hstep
    split at hstep
    · cases hstep
    · rename_i howns
      obtain ⟨system, hsystem, rfl⟩ := Option.map_eq_some_iff.mp hstep
      exact hone hsystem hlater (touches_of_owns (Bool.eq_false_of_not_eq_true howns) hi)
  | timeout duration raw =>
    obtain ⟨system, hsystem, heq⟩ := Option.bind_eq_some_iff.mp hstep
    cases heq
    exact hone hsystem trivial rfl
  | poll j waker raw answer =>
    obtain ⟨u, system, u', hj, hpolled, rfl⟩ := poll_cases hstep
    cases hpolled with
    | ok => exact ⟨[], .nil, fun l hl => absurd hl List.not_mem_nil⟩
    | elapsed _ _ _ hsystem | pending _ _ _ _ hsystem =>
      exact hone hsystem trivial (hother hl hj)
  | drop j =>
    obtain ⟨u, hj, hrest⟩ := Option.bind_eq_some_iff.mp hstep
    obtain ⟨system, hsystem, heq⟩ := Option.bind_eq_some_iff.mp hrest
    cases heq
    exact hone hsystem trivial (hother hl hj)

/-- Nor does a run in which no step is about it. -/
theorem untouched_run {ls : List (Label T)} (hs : (machine T).Reachable s)
    (hi : s.timeouts.get i = some t) (hrun : ((machine T).restrict Later).Run s ls s')
    (hkeep : ∀ l ∈ ls, l.touches i = false) : s'.timeouts.get i = some t ∧
      ∃ ls, (System.machine.restrict System.Later).Run s.system ls s'.system ∧
        ∀ l ∈ ls, l.touches t.sleep = false := by
  induction hrun with
  | nil => exact ⟨hi, [], .nil, fun l hl => absurd hl List.not_mem_nil⟩
  | snoc hrun hlast ih =>
    obtain ⟨hmid, ls₁, hrun₁, hkeep₁⟩ := ih fun l hl => hkeep l (List.mem_append_left _ hl)
    have hkept := kept_of_reachable (hs.run hrun.of_restrict)
    have hl := hkeep _ (List.mem_append_right _ (List.mem_singleton.mpr rfl))
    obtain ⟨ls₂, hrun₂, hkeep₂⟩ := untouched_step hkept hmid hl hlast.1 hlast.2
    refine ⟨get_of_untouched hmid hl hlast.1, _, hrun₁.append hrun₂, fun l hl => ?_⟩
    exact (List.mem_append.mp hl).elim (hkeep₁ l) (hkeep₂ l)

/-- From its deadline on, a timeout is ready when it is polled. -/
theorem poll_of_due {waker : TaskWaker} {raw : UInt64} {answer : Option T} (h : Kept s)
    (hi : s.timeouts.get i = some t) (hdue : t.deadline ≤ s.system.sleepers.elapsed)
    (hpoll : s.poll i waker raw answer = some s') : ∃ u, s'.timeouts.get i = some u ∧
      u.result = some (answer.elim (.error ()) .ok) := by
  obtain ⟨t₁, system, t', hi', hpolled, rfl⟩ := poll_cases hpoll
  cases hi.symm.trans hi'
  refine ⟨t', (Arena.get_put hi _ i).trans (if_pos rfl), ?_⟩
  cases hpolled with
  | ok hanswer | elapsed hanswer =>
    rw [hanswer]
    rfl
  | pending _ hf hahead =>
    obtain ⟨f, hf', hdeadline, -⟩ := h.sleeps i t hi
    cases hf.symm.trans hf'
    have hcomplete := Sleepers.completes (System.reachable_sleepers h.system)
      (hdeadline.symm ▸ hdue) waker raw
    exact absurd (complete_iff.mp hcomplete) (UInt64.not_le.mpr hahead)

variable {u : Timeouts T} {w : TaskWaker} {ls : List (Label T)} {evs : List ExecutorEvent} {L : ℕ}

/-- **Who waits in a timeout is polled in time.** Suppose a poll of a timeout has returned pending,
nobody touches the timeout, and every park reads a later time than the one before. Then the task is
polled within `d + L / n + 2` ticks, for `d` milliseconds to the deadline, a local queue of at most
`L`, and a budget of `n`, whatever the wrapped future and all else do. And a poll of the timeout is
ready then: with the value of the future if there is one, and otherwise because the time has
elapsed. -/
theorem run_polled_of_timeout (hs : (machine T).Reachable s)
    (hrun : ((machine T).restrict Later).Run s ls u) (hlog : u.system.log = s.system.log ++ evs)
    (hi : s.timeouts.get i = some t) (hlast : t.last = some w)
    (hahead : s.system.sleepers.elapsed < t.deadline) (hkeep : ∀ l ∈ ls, l.touches i = false)
    (haccepted : AcceptedIn s.system.log w.id) (hL : 0 < L)
    (hbound : State.QueueBound L s.system.log evs)
    (hticks : L ≤ s.system.runtime.exec.eventInterval *
      (ticks evs - (t.deadline.toNat - s.system.sleepers.elapsed.toNat) - 2)) :
    System.PolledAfterCall s.system u.system w evs ∧
      ∀ waker raw answer v, u.poll i waker raw answer = some v →
        ∃ x, v.timeouts.get i = some x ∧ x.result = some (answer.elim (.error ()) .ok) := by
  have hkept := kept_of_reachable hs
  obtain ⟨f, hf, hdeadline, houtcome⟩ := hkept.sleeps i t hi
  obtain ⟨hend, ls', hsystem, hkeep'⟩ := untouched_run hs hi hrun hkeep
  have hwaits : f.last = some w := by
    cases houtcome with
    | fresh _ hnone | ok _ hnone | elapsed _ hnone =>
      rw [hnone] at hlast
      cases hlast
    | pending _ hsome _ _ hwaits => exact hwaits.trans (hsome.symm.trans hlast)
  rw [← hdeadline] at hahead hticks
  obtain ⟨hpolled, hdue⟩ := System.polled_of_sleep hkept.system hsystem hlog hf hwaits hahead hkeep'
    haccepted hL hbound hticks
  refine ⟨hpolled, fun waker raw answer v hpoll => ?_⟩
  exact poll_of_due (kept_of_reachable (hs.run hrun.of_restrict)) hend (hdeadline ▸ hdue) hpoll

/-- A task is polled for the first time. It makes a timeout of 2 ms and polls it, and its future is
not ready. -/
def waitStarts : List (Label ℕ) :=
  (System.runs (.spawn false 0 :: .call 0 :: .blockOn :: .exec :: .futureReturns false ::
    State.execs 5)).map .system ++ [.timeout 2 0, .poll 0 ⟨.task, 1⟩ 0 none]

/-- The task is polled again, and the time has elapsed. -/
theorem run_polled_of_timeout_twoMillis : ∃ (s u : Timeouts ℕ) (evs : List ExecutorEvent)
    (t : Timeout ℕ),
    (machine ℕ).Reachable s ∧
    ((machine ℕ).restrict Later).Run s (System.sleepEnds.map .system) u ∧
    u.system.log = s.system.log ++ evs ∧ s.timeouts.get 0 = some t ∧ t.deadline = 2 ∧
    ticks evs = 5 ∧ 1 ∈ s.system.polledSince evs ∧
    ∀ v, u.poll 0 ⟨.task, 1⟩ 5 none = some v →
      ∃ x, v.timeouts.get 0 = some x ∧ x.result = some (.error ()) := by
  have hstart : (machine ℕ).Reachable ⟨System.new 4 .new none 0, .empty⟩ :=
    .of_init ⟨⟨4, .new, none, 0, by decide, rfl, rfl⟩, rfl⟩
  obtain ⟨s, hs, htimeout, hahead, haccepted, hn, hu⟩ := Machine.exists_follow step waitStarts
    ⟨System.new 4 .new none 0, .empty⟩ (fun s => (s.timeouts.get 0).map (fun t =>
        (t.last, t.deadline)) = some (some ⟨.task, 1⟩, 2) ∧ s.system.sleepers.elapsed = 0 ∧
      .popInjection (some ⟨1, 0⟩) ∈ s.system.log ∧ s.system.runtime.exec.eventInterval = 4 ∧
      (Machine.follow (fun s l => if Later s l then step s l else none)
        (System.sleepEnds.map .system) s).any (fun u => decide
          (u.system.log = s.system.log ++ u.system.log.drop s.system.log.length ∧
            ticks (u.system.log.drop s.system.log.length) = 5 ∧ (replay s.system.log).length +
              (enqueuedIds (u.system.log.drop s.system.log.length)).length ≤ 3)) = true)
    (by decide +kernel)
  obtain ⟨u, hfollow, hlog, hticks, hbound⟩ := Machine.exists_follow _ _ s _ hu
  obtain ⟨t, ht, heq⟩ := Option.map_eq_some_iff.mp htimeout
  obtain ⟨hlast, hdeadline⟩ := Prod.mk.inj heq
  have hrun : ((machine ℕ).restrict Later).Run s (System.sleepEnds.map .system) u :=
    .of_follow_restrict hfollow
  have hreach : (machine ℕ).Reachable s := hstart.follow hs
  obtain ⟨hpolled, hready⟩ := run_polled_of_timeout hreach hrun hlog ht hlast
    (by rw [hahead, hdeadline]; decide) (by decide) ⟨⟨1, 0⟩, haccepted, rfl⟩ (by decide)
    (State.queueBound_of_enqueued hbound) (by rw [hn, hticks, hahead, hdeadline]; decide)
  have hone := hpolled.polledSince System.hosts (kept_of_reachable hreach).system
  exact ⟨s, u, _, t, hreach, hrun, hlog, ht, hdeadline, hticks, hone,
    fun v hv => hready _ _ _ v hv⟩

end Timeouts

end Lion
