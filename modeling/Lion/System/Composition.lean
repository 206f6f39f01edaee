import Lion.System.Hosting
import Lion.Time.Instants
import Lion.Time.Resources

/-!
# Executor and reactor together

The thread of a runtime has one of each, and they meet in two places. A future that is polled, or
dropped, calls the reactor: a `Sleep` registers a timer, a socket sets a waker. And `park` hands the
thread over to the reactor, which reads the clock, polls the operating system, and calls the wakers
of what is due or ready; those push ids to the ready queues of the executor.

`System` is the two machines side by side, with the wakers that a park in progress has still to
call. What one of them leaves open the other decides: when the operating system ends a poll, the
reactor says who is woken.

## What the parts know of each other

Alone, the executor takes any calls of its wakers while it is parked, and the reactor any parks
between any calls. Here the two are one: the reactor is called from user code only, the calls of a
park are those of the wakers that the reactor has logged in it, and while there are any left the
thread does nothing else. Each of the two still does in the system what it does alone
(`reachable_runtime`, `reachable_sleepers`), so whatever holds of all its runs holds here, and
nothing is proved twice.

The converse is where composition says something: between the poll of the operating system and the
drain that follows it, the thread is busy with calling (`parkWakes_of_unwoken`), so that no waker
comes too late for the drain. That makes the system a machine around its runtime (`hosts`).

## Conventions

The wakers are those of the executor, so calling one is a push to a ready queue, and user code does
not run in between. While the thread waits for the operating system, nothing else on it reads the
clock or touches the reactor, so the park of the reactor may happen at once when the poll ends.

## Main results

* `System.reachable_runtime`, `System.reachable_sleepers` — the parts of the system
* `System.parkWakes_of_unwoken` — wakers are called between the poll and the drain after it
* `System.Stepped` — what a step of the system does to its parts
* `System.hosts` — a system is a machine around its runtime
-/

namespace Lion

/-- The thread of a runtime, and what it shares with the other threads. -/
structure System where
  /-- The executor, with the ready queues that the other threads push to. -/
  runtime : State
  /-- The reactor, with the sleeps of all tasks. -/
  sleepers : Sleepers TaskWaker
  /-- The wakers that the reactor has still to call before it returns from `park`. -/
  unwoken : List TaskWaker

namespace System

/-- What can happen next, in either part or where they meet. -/
inductive Label
  /-- The executor or another thread takes a step that does not concern the reactor. -/
  | runtime (l : Lion.Label)
  /-- A future calls the reactor, or a sleep is made. -/
  | sleepers (l : Sleepers.Label TaskWaker)
  /-- The poll of the operating system returns, having consumed a pending wake or not. The clock
  was read before it began. -/
  | osReturns (consumed : Bool) (raw : UInt64) (poll : Except IoError (List MioEvent))
  /-- The reactor calls the next of its wakers. -/
  | wakes

/-- One step of the system. `none`: it panics, or it is not the time for it. -/
def step (s : System) : Label → Option System
  | .runtime (.osReturns _) => none
  | .runtime l =>
    if l.onThread && !s.unwoken.isEmpty then none
    else (s.runtime.step l).map fun runtime => { s with runtime }
  | .sleepers (.park _ _ _) => none
  | .sleepers l =>
    if s.runtime.pc.userCode && !s.runtime.shared.busy && s.unwoken.isEmpty then
      (s.sleepers.step l).map fun sleepers => { s with sleepers }
    else none
  | .osReturns consumed raw poll =>
    match s.runtime.pc with
    | .parked _ timeout => do
      let runtime ← s.runtime.step (.osReturns consumed)
      let sleepers ← s.sleepers.step (.park (some timeout) raw poll)
      let new := sleepers.wakes.drop s.sleepers.wakes.length
      return ⟨runtime, sleepers, new.map Wake.waker⟩
    | _ => none
  | .wakes =>
    match s.unwoken with
    | w :: rest =>
      (s.runtime.step (.wake w.source w.id)).map fun runtime => { s with runtime, unwoken := rest }
    | [] => none

/-- A new runtime, on a thread that may have run others before. -/
def new (eventInterval : ℕ) (tls : Tls) (cachedNow : Option UInt64) (clock : UInt64) : System :=
  ⟨State.new eventInterval tls, Sleepers.new cachedNow clock, []⟩

/-- The system as a machine, whose steps are in any order that the program counter allows. -/
def machine : Machine System Label :=
  Machine.ofStep (fun s => ∃ n tls cachedNow clock, 1 ≤ n ∧ tls.currentTask = none ∧
    s = new n tls cachedNow clock) step

variable {s s' : System} {l : Label}

/-! ### What a step does -/

/-- What a step of the system does to its two parts. -/
inductive Stepped (s : System) : Label → System → Prop
  /-- The runtime takes a step, and the reactor does not see it. -/
  | runtime {l : Lion.Label} {u : State} (hos : ∀ consumed, l ≠ .osReturns consumed)
      (hthread : l.onThread = true → s.unwoken = []) (hstep : s.runtime.step l = some u) :
      Stepped s (.runtime l) { s with runtime := u }
  /-- The reactor is called from user code, and the runtime does not see it. -/
  | sleepers {l : Sleepers.Label TaskWaker} {u : Sleepers TaskWaker} (hl : l.parks = false)
      (huser : s.runtime.pc.userCode = true) (hunwoken : s.unwoken = [])
      (hstep : s.sleepers.step l = some u) : Stepped s (.sleepers l) { s with sleepers := u }
  /-- A park ends, and the reactor says whom it has woken. -/
  | osReturns {consumed : Bool} {raw timeout : UInt64} {poll : Except IoError (List MioEvent)}
      {count : ℕ} {u : State} {v : Sleepers TaskWaker} (hpc : s.runtime.pc = .parked count timeout)
      (hruntime : s.runtime.step (.osReturns consumed) = some u)
      (hsleepers : s.sleepers.step (.park (some timeout) raw poll) = some v) :
      Stepped s (.osReturns consumed raw poll)
        ⟨u, v, (v.wakes.drop s.sleepers.wakes.length).map Wake.waker⟩
  /-- A waker is called, which the runtime sees as a push. -/
  | wakes {w : TaskWaker} {rest : List TaskWaker} {u : State} (hunwoken : s.unwoken = w :: rest)
      (hstep : s.runtime.step (.wake w.source w.id) = some u) :
      Stepped s .wakes { s with runtime := u, unwoken := rest }

theorem step_cases (h : s.step l = some s') : Stepped s l s' := by
  cases l with
  | runtime l =>
    have hgo : ∀ l : Lion.Label, (∀ consumed, l ≠ .osReturns consumed) →
        (if (l.onThread && !s.unwoken.isEmpty) = true then none
          else (s.runtime.step l).map fun runtime => { s with runtime }) = some s' →
        Stepped s (.runtime l) s' := by
      intro l hos h
      split at h
      · cases h
      · rename_i hthread
        obtain ⟨u, hstep, rfl⟩ := Option.map_eq_some_iff.mp h
        exact .runtime hos (fun ht => by simpa [ht] using hthread) hstep
    cases l with
    | osReturns consumed => cases h
    | _ => exact hgo _ (by simp) h
  | sleepers l =>
    have hgo : ∀ l : Sleepers.Label TaskWaker, l.parks = false →
        (if (s.runtime.pc.userCode && !s.runtime.shared.busy && s.unwoken.isEmpty) = true then
          (s.sleepers.step l).map fun sleepers => { s with sleepers } else none) = some s' →
        Stepped s (.sleepers l) s' := by
      intro l hl h
      split at h
      · rename_i huser
        obtain ⟨u, hstep, rfl⟩ := Option.map_eq_some_iff.mp h
        rw [Bool.and_eq_true_iff, Bool.and_eq_true_iff, List.isEmpty_iff] at huser
        exact .sleepers hl huser.1.1 huser.2 hstep
      · cases h
    cases l with
    | park timeout raw poll => cases h
    | _ => exact hgo _ rfl h
  | osReturns consumed raw poll =>
    simp only [step] at h
    split at h
    · rename_i count timeout hpc
      obtain ⟨u, hruntime, h⟩ := Option.bind_eq_some_iff.mp h
      obtain ⟨v, hsleepers, h⟩ := Option.bind_eq_some_iff.mp h
      cases h
      exact .osReturns hpc hruntime hsleepers
    · cases h
  | wakes =>
    simp only [step] at h
    split at h
    · rename_i w rest hunwoken
      obtain ⟨u, hstep, rfl⟩ := Option.map_eq_some_iff.mp h
      exact .wakes hunwoken hstep
    · cases h

/-! ### The parts -/

/-- What a step does to the runtime is a run of it. -/
theorem Stepped.run_runtime (h : Stepped s l s') :
    ∃ ls, State.machine.Run s.runtime ls s'.runtime := by
  cases h with
  | runtime _ _ hstep => exact ⟨_, .cons hstep .nil⟩
  | sleepers => exact ⟨[], .nil⟩
  | osReturns _ hruntime => exact ⟨_, .cons hruntime .nil⟩
  | wakes _ hstep => exact ⟨_, .cons hstep .nil⟩

/-- What a step does to the sleeps is a run of them. -/
theorem Stepped.run_sleepers (h : Stepped s l s') :
    ∃ ls, Sleepers.machine.Run s.sleepers ls s'.sleepers := by
  cases h with
  | sleepers _ _ _ hstep => exact ⟨_, .cons hstep .nil⟩
  | osReturns _ _ hsleepers => exact ⟨_, .cons hsleepers .nil⟩
  | runtime | wakes => exact ⟨[], .nil⟩

/-! ### Wakers that are still to be called -/

/-- **Wakers are called** after the poll of the operating system, and before the reactor-ready queue
is drained. -/
theorem parkWakes_of_unwoken (h : machine.Reachable s) (hne : s.unwoken ≠ []) :
    ∃ count, s.runtime.pc = .parkWakes count := by
  refine h.invariant (I := fun s => s.unwoken ≠ [] → ∃ count, s.runtime.pc = .parkWakes count)
    ?_ ?_ hne
  · rintro s ⟨n, tls, cachedNow, clock, -, -, rfl⟩ hne
    exact absurd rfl hne
  · intro s l s' ih hstep hne
    cases step_cases hstep with
    | @runtime l u _ hthread hruntime =>
      have hl : l.onThread = false := Bool.eq_false_of_not_eq_true fun ht => hne (hthread ht)
      obtain ⟨count, hpc⟩ := ih hne
      exact ⟨count, (State.pc_of_not_onThread hl hruntime).1.trans hpc⟩
    | sleepers => exact ih hne
    | @osReturns _ _ _ _ count _ _ hpc hruntime =>
      cases State.step_cases hruntime with
      | osReturns _ hpc' => exact ⟨_, rfl⟩
    | wakes hunwoken hwake =>
      obtain ⟨count, hpc⟩ := ih (by rw [hunwoken]; simp)
      cases State.step_cases hwake with
      | wake => exact ⟨count, hpc⟩

/-- A waker stays to be called until it is. -/
theorem Stepped.calls {w : TaskWaker} (hs : machine.Reachable s) (h : Stepped s l s')
    (hw : w ∈ s.unwoken) : s'.runtime.exec.log = s.runtime.exec.log ∧
      (w ∈ s'.unwoken ∨ w.id ∈ s'.runtime.exec.history.woken) := by
  have hne : s.unwoken ≠ [] := List.ne_nil_of_mem hw
  obtain ⟨count, hpc⟩ := parkWakes_of_unwoken hs hne
  cases h with
  | runtime _ hthread hstep =>
    have hoff := Bool.eq_false_of_not_eq_true fun ht => hne (hthread ht)
    exact ⟨congrArg Executor.log (State.pc_of_not_onThread hoff hstep).2, .inl hw⟩
  | sleepers _ _ hunwoken => exact absurd hunwoken hne
  | osReturns hpc' => exact absurd (hpc.symm.trans hpc') (by simp)
  | wakes hunwoken hstep =>
    cases State.step_cases hstep with
    | wake =>
      rw [hunwoken] at hw
      rcases List.mem_cons.mp hw with rfl | hw
      · exact ⟨rfl, .inr List.mem_cons_self⟩
      · exact ⟨rfl, .inl hw⟩

/-! ### The parts in runs -/

/-- **The system is a machine around its runtime.** -/
theorem hosts : Hosts machine System.runtime System.unwoken where
  init := by
    rintro s ⟨n, tls, cachedNow, clock, hn, htls, rfl⟩
    exact ⟨n, tls, hn, htls, rfl⟩
  step _ _ _ hstep := (step_cases hstep).run_runtime
  calls _ _ _ _ hs hstep hw := (step_cases hstep).calls hs hw

/-- **The executor** does in the system what it does alone. -/
theorem reachable_runtime (h : machine.Reachable s) : State.machine.Reachable s.runtime :=
  hosts.reachable_runtime h

/-- **The reactor** does in the system what it does alone. -/
theorem reachable_sleepers (h : machine.Reachable s) : Sleepers.machine.Reachable s.sleepers := by
  refine h.project (f := System.sleepers) ?_ fun _ _ _ hstep => (step_cases hstep).run_sleepers
  rintro s ⟨n, tls, cachedNow, clock, -, -, rfl⟩
  exact ⟨cachedNow, clock, rfl⟩

end System

end Lion
