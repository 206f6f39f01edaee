import Lion.Library.Machine
import Lion.Poll

/-!
# `JoinHandle`

A `JoinHandle` and its `JoinSender` share a slot for the result and one for a waker, behind a mutex.
The sender is moved into what makes the result: the future of a task, which `with_join_sender`
wraps, or the closure of a blocking job. There it is used when the result is there, and dropped if
that does not happen. `JoinSender` has no `Drop`.

So a handle resolves if its task or job comes to an end, and otherwise waits for ever: nothing is
written to the slot, nobody is woken, and the error that `poll` could return is never made. This is
so for a task that is dropped, for one that panics and for a job that panics alike. `resolved_iff`
says it of every run, with the operations that drop the sender without a result as the one exception
(`Label.Abandons`).

## The shape of a state

What a handle and its sender can look like is a short list. There is no result yet; there is one,
and whoever waited was woken; or it was yielded (`Sound`). Once the sender was dropped without a
result there is one more, which is never left (`Forsaken`). Each operation leads from one of these
shapes to another, and the equivalence is read off them.

## Conventions

A future may be polled several times, a closure is called once. When the code of the user panics,
the unwinding drops what the future or the closure owns.

Some fields are not in the source, and nothing depends on them: the result that `complete` was
called with, the results that the handle has yielded, the waker of its latest poll if that was
pending and nothing was yielded before, and the waker that was woken since.

## Main results

* `Join.step_sound` — what an operation keeps as long as the sender is not dropped
* `Join.resolved_iff` — at the end of a run, the handle is as it should be if and only if in that
  run the sender was not dropped without a result
* `Join.not_resolved` — a task panics, and its handle waits
-/

namespace Lion.Executor

variable {T W : Type}

/-- `JoinError`, which is what a poll would return of a task that will never have a result. -/
structure JoinError where
deriving DecidableEq, Repr

/-- `JoinState`, with results in `T` and wakers in `W`. -/
structure JoinState (T W : Type) where
  result : Option T
  waker : Option W
deriving DecidableEq, Repr

namespace JoinState

/-- `JoinHandle::new`: no result and no waker. -/
def new : JoinState T W := ⟨none, none⟩

/-- `JoinHandle::poll`: take the result if it is there, and else leave the waker. -/
def poll (state : JoinState T W) (waker : W) : Poll (Except JoinError T) × JoinState T W :=
  match state.result with
  | some result => (.ready (.ok result), { state with result := none })
  | none => (.pending, { state with waker := some waker })

/-- `JoinSender::complete`: store the result, and return the waker that is to be woken. -/
def complete (state : JoinState T W) (result : T) : Option W × JoinState T W :=
  (state.waker, ⟨some result, none⟩)

end JoinState

/-- What the sender was moved into, which decides how often it is run. -/
inductive Producer
  /-- The future of `BoxedFuture::with_join_sender`. -/
  | future
  /-- The closure of `BlockingPool::spawn`. -/
  | closure
deriving DecidableEq, Repr

/-- What comes of a poll of the user's future, or of a call of the user's closure. -/
inductive Outcome (T : Type)
  | pending
  | returned (result : T)
  | panicked
deriving DecidableEq, Repr

/-- A handle and its sender, with what has become of them. -/
structure Join (T W : Type) where
  state : JoinState T W
  /-- What the sender was moved into, as long as it is there. -/
  sender : Option Producer
  /-- The result that `complete` was called with. -/
  completed : Option T
  /-- The results that the handle has yielded. -/
  yielded : List T
  /-- The waker of the latest poll, if that was pending and nothing was yielded before. -/
  last : Option W
  /-- The waker that was woken since, by `complete`. -/
  woken : Option W
deriving DecidableEq, Repr

/-- The operations: `JoinHandle::poll` and `JoinHandle::abort` on one side, and what happens to the
future or the closure on the other. -/
inductive Join.Label (T W : Type)
  | poll (waker : W)
  | abort
  /-- The future is polled or the closure called, with what comes of it. -/
  | run (outcome : Outcome T)
  /-- The future or the closure is dropped, and the sender with it. -/
  | drop
deriving DecidableEq, Repr

namespace Join

/-- The result that a poll has yielded, if it has. -/
def yields : Poll (Except JoinError T) → Option T
  | .ready (.ok result) => some result
  | .ready (.error _) => none
  | .pending => none

/-- One operation. `none`: there is nothing to call it on. -/
def step (s : Join T W) : Label T W → Option (Join T W)
  | .poll waker =>
    let (res, state) := s.state.poll waker
    some { s with
      state
      yielded := s.yielded ++ (yields res).toList
      last := if s.yielded = [] then res.waits waker else none
      woken := none }
  | .abort => some s
  | .run outcome =>
    match s.sender, outcome with
    | none, _ => none
    | some .future, .pending => some s
    | some .closure, .pending => none
    | some _, .returned result =>
      let (woken, state) := s.state.complete result
      some { s with state, sender := none, completed := some result, woken }
    | some _, .panicked => some { s with sender := none }
  | .drop => s.sender.map fun _ => { s with sender := none }

/-- What `JoinHandle::new` returns, when the sender is in its place. -/
def new (producer : Producer) : Join T W := ⟨.new, some producer, none, [], none, none⟩

/-- Handles as a machine, with the sender in either place. -/
def machine : Machine (Join T W) (Label T W) :=
  Machine.ofStep (fun s => ∃ producer, s = new producer) step

/-- The operations in which the sender is dropped without a result. -/
inductive Label.Abandons : Label T W → Prop
  | panicked : Abandons (.run .panicked)
  | drop : Abandons .drop

/-- What a poll of the handle would return. -/
def polled (s : Join T W) (waker : W) : Poll (Except JoinError T) := (s.state.poll waker).1

/-- The handle is as it should be: who waits for it gets an answer, and gets it once. -/
structure Resolved (s : Join T W) : Prop where
  /-- A result is yielded once. -/
  value : ∀ v, s.completed = some v →
    (s.yielded = [] ∧ ∀ waker, s.polled waker = .ready (.ok v)) ∨
      (s.yielded = [v] ∧ ∀ waker, s.polled waker = .pending)
  yielded : s.completed = none → s.yielded = []
  /-- When the sender is gone, whoever waited was woken. -/
  woken : s.sender = none → ∀ w, s.last = some w → s.woken = some w
  /-- When it has left no result, the handle yields an error. -/
  error : s.sender = none → s.completed = none →
    ∀ waker, s.polled waker = .ready (.error ⟨⟩)

variable {s s₀ s' : Join T W} {l : Label T W} {ls : List (Label T W)}

/-- What is kept as long as the sender is not dropped without a result. -/
inductive Sound : Join T W → Prop
  /-- There is no result yet, and the waker of the latest poll is stored. -/
  | waiting {producer : Producer} {last woken : Option W} :
      Sound ⟨⟨none, last⟩, some producer, none, [], last, woken⟩
  /-- There is a result, and the waker of the latest poll was woken. -/
  | finished {v : T} {last : Option W} : Sound ⟨⟨some v, none⟩, none, some v, [], last, last⟩
  /-- The result was yielded. -/
  | yielded {v : T} {waker woken : Option W} :
      Sound ⟨⟨none, waker⟩, none, some v, [v], none, woken⟩

/-- The sender was dropped without a result, and the handle is on its own. -/
inductive Forsaken : Join T W → Prop
  /-- There is no result, and there will be none. -/
  | forsaken {waker last woken : Option W} : Forsaken ⟨⟨none, waker⟩, none, none, [], last, woken⟩

/-- An operation that does not drop the sender without a result. -/
theorem step_sound (h : s.Sound) (hl : ¬ l.Abandons) (hstep : s.step l = some s') : s'.Sound := by
  cases l with
  | poll waker =>
    cases h with
    | waiting =>
      cases hstep
      exact .waiting
    | finished =>
      cases hstep
      exact .yielded
    | yielded =>
      cases hstep
      exact .yielded
  | abort =>
    cases hstep
    exact h
  | run outcome =>
    cases h with
    | @waiting producer =>
      cases outcome with
      | pending =>
        cases producer with
        | future =>
          cases hstep
          exact .waiting
        | closure => cases hstep
      | returned result =>
        cases producer <;>
        · cases hstep
          exact .finished
      | panicked => exact absurd .panicked hl
    | finished => cases hstep
    | yielded => cases hstep
  | drop => exact absurd .drop hl

/-- An operation that does leaves the handle forsaken, if it had not been used. -/
theorem step_abandon (h : s.Sound) (hl : l.Abandons) (hstep : s.step l = some s') :
    s'.Forsaken := by
  cases hl with
  | panicked =>
    cases h with
    | @waiting producer =>
      cases producer <;>
      · cases hstep
        exact .forsaken
    | finished => cases hstep
    | yielded => cases hstep
  | drop =>
    cases h with
    | waiting =>
      cases hstep
      exact .forsaken
    | finished => cases hstep
    | yielded => cases hstep

/-- From then on nothing comes, whatever the handle does. -/
theorem step_forsaken (h : s.Forsaken) (hstep : s.step l = some s') : s'.Forsaken := by
  cases h with
  | forsaken =>
    cases l with
    | poll waker =>
      cases hstep
      exact .forsaken
    | abort =>
      cases hstep
      exact .forsaken
    | run outcome => cases hstep
    | drop => cases hstep

theorem Sound.resolved (h : s.Sound) : s.Resolved := by
  cases h with
  | waiting => exact ⟨nofun, fun _ => rfl, nofun, nofun⟩
  | finished =>
    refine ⟨?_, nofun, fun _ _ => id, nofun⟩
    rintro v ⟨⟩
    exact .inl ⟨rfl, fun _ => rfl⟩
  | yielded =>
    refine ⟨?_, nofun, nofun, nofun⟩
    rintro v ⟨⟩
    exact .inr ⟨rfl, fun _ => rfl⟩

theorem Forsaken.unresolved [Nonempty W] (h : s.Forsaken) : ¬ s.Resolved := by
  intro hresolved
  obtain ⟨waker⟩ := ‹Nonempty W›
  cases h with
  | forsaken => cases hresolved.error rfl rfl waker

/-- In a run, the sender is dropped without a result, or it is not. -/
theorem sound_or_forsaken (hinit : machine.init s₀) (hrun : machine.Run s₀ ls s) :
    ((∀ l ∈ ls, ¬ l.Abandons) ∧ s.Sound) ∨ ((∃ l ∈ ls, l.Abandons) ∧ s.Forsaken) := by
  obtain ⟨producer, rfl⟩ := hinit
  induction hrun with
  | nil => exact .inl ⟨nofun, .waiting⟩
  | @snoc ls t u l _ hstep ih =>
    rcases ih with ⟨hall, hsound⟩ | ⟨⟨l', hmem, hl'⟩, hforsaken⟩
    · by_cases hl : l.Abandons
      · exact .inr ⟨⟨l, by simp, hl⟩, step_abandon hsound hl hstep⟩
      · refine .inl ⟨fun l' hmem => ?_, step_sound hsound hl hstep⟩
        rcases List.mem_append.mp hmem with hmem | hmem
        · exact hall l' hmem
        · rw [List.mem_singleton.mp hmem]
          exact hl
    · exact .inr ⟨⟨l', List.mem_append_left _ hmem, hl'⟩, step_forsaken hforsaken hstep⟩

/-- **`JoinHandle` resolves.** At the end of a run, a result that there was is yielded once, whoever
waited was woken when the sender was gone, and without a result there is an error, if and only if in
that run neither did the code of the user panic, nor was the sender dropped before it had a
result. -/
theorem resolved_iff [Nonempty W] (hinit : machine.init s₀) (hrun : machine.Run s₀ ls s) :
    s.Resolved ↔ ∀ l ∈ ls, ¬ l.Abandons := by
  rcases sound_or_forsaken hinit hrun with ⟨hall, hsound⟩ | ⟨⟨l, hmem, hl⟩, hforsaken⟩
  · exact iff_of_true hsound.resolved hall
  · exact iff_of_false hforsaken.unresolved fun hall => hall l hmem hl

/-- A task is polled before and after its handle, and returns 5. -/
theorem resolved_iff_returned : ∃ s : Join ℕ ℕ, machine.Run (new .future)
    [.run .pending, .poll 7, .run (.returned 5)] s ∧ s.Resolved := by
  have hrun : machine.Run (new .future : Join ℕ ℕ) [.run .pending, .poll 7, .run (.returned 5)] _ :=
    Machine.Run.of_follow rfl
  refine ⟨_, hrun, (resolved_iff ⟨.future, rfl⟩ hrun).mpr ?_⟩
  intro l hmem hl
  cases hl <;> simp at hmem

/-- A handle is polled, and its blocking job panics. -/
theorem not_resolved : ¬ ∀ s : Join ℕ ℕ, machine.Reachable s → s.Resolved := by
  intro h
  obtain ⟨s, hfollow, hsender, hlast, hwoken⟩ : ∃ s : Join ℕ ℕ,
      Machine.follow step [.poll 7, .run .panicked] (new .closure) = some s ∧
      s.sender = none ∧ s.last = some 7 ∧ s.woken = none := ⟨_, rfl, rfl, rfl, rfl⟩
  have hstart : machine.Reachable (new .closure : Join ℕ ℕ) := .of_init ⟨.closure, rfl⟩
  have htrue := (h s (hstart.follow hfollow)).woken hsender 7 hlast
  rw [hwoken] at htrue
  cases htrue

end Join

end Lion.Executor
