import Lion.System.Delivery
import Mathlib.Data.ENat.Basic

/-!
# Tasks that wait for each other

What the channels, locks and handles of `lion-utility` and `lion-executor` have in common: something
is shared, and an operation on it, by a task or by another thread, says which wakers are to be
called. They are called after the mutex was let go: by the executor's thread before it goes on, and
by another thread at any time, which is a push to the cross-thread queue and a call of the
interrupt.

A `Primitive` is such a thing, and `Users` is a runtime whose tasks use it, with the other threads
that do. Whoever waits is called by the operation after which there is no more to wait for
(`Primitive.Attends`), or, where those who wait form a queue, by the one that makes it the first and
serves it (`Primitive.Queues`), which is up to the primitive. The rest is the same for all of them:
who is called is polled, within so many ticks.

## From the operation to the poll

There are two ways. A waker of the executor's thread is in `unwoken` until it is called, and the
thread does nothing else before; so that part is `Hosts.polled_of_unwoken`. A waker of another
thread is in `foreign`, and for that there is no bound: the thread may be suspended, for as long as
it pleases, between the mutex and the call, and again between the parts of the call. `Called` says
that it is through with both for this task. The count of ticks starts there, and is larger by one,
for the push may come just after the tick has drained the cross-thread queue.

## What is shown of a primitive

To a primitive two facts are to be supplied, and none of them mentions the executor: a relation of
who waits with which waker that its operations keep, unless they call that waker or the future is
polled or dropped; and what a poll finds when there is no more to wait for. With these,
`polled_of_waits` and `polled_of_place` give the bound. They start from a state in which the task
waits, and the poll they speak of comes after the operation that has taken its waker out
(`PolledAfterCall`), so that a poll for another reason does not count.

## Conventions

All wakers are wakers of the runtime's tasks. Whatever else there is on the thread, with the wakers
that it calls, is among the steps of the runtime, which are not restricted.

## Main results

* `Users.hosts`, `Users.reachable_object` — the parts
* `Users.polled_of_called` — who is called is polled
* `Users.polled_of_waits` — who waits is polled when there is no more to wait for
* `Users.polled_of_place` — who waits in a queue, when it has moved by more than its place
-/

namespace Lion

/-- Something that threads share, with states in `σ` and operations in `ι`. -/
structure Primitive (σ ι : Type) where
  /-- What it may be when it is new. -/
  init : σ → Prop
  /-- An operation. `none`: it panics, or there is nothing to call it on. -/
  step : σ → ι → Option σ
  /-- The wakers that it calls when it has let the mutex go. -/
  calls : σ → ι → List TaskWaker

namespace Primitive

variable {σ ι : Type}

/-- A primitive as a machine, under operations in any order. -/
def machine (p : Primitive σ ι) : Machine σ ι := Machine.ofStep p.init p.step

/-- Whoever waits is called by the operation after which it does not wait any more, unless that is
one of those in which it `leaves`. -/
def Attends (p : Primitive σ ι) (Waits : σ → TaskWaker → Prop) (leaves : ι → Bool) : Prop :=
  ∀ ⦃o o' : σ⦄ ⦃i : ι⦄ ⦃w : TaskWaker⦄, p.machine.Reachable o → Waits o w → leaves i = false →
    p.step o i = some o' → Waits o' w ∨ w ∈ p.calls o i

/-- Those who wait have places in a queue: an operation brings them nearer by as many as it `moves`,
or calls them, after which what they wait for is there for them. -/
structure Queues (p : Primitive σ ι) (At : σ → TaskWaker → ℕ → Prop) (Done : σ → Prop)
    (leaves : ι → Bool) (moves : ι → ℕ∞) : Prop where
  /-- Who waits comes nearer, or is called and finds what it has waited for. -/
  step : ∀ ⦃o o' : σ⦄ ⦃i : ι⦄ ⦃w : TaskWaker⦄ ⦃k : ℕ⦄, p.machine.Reachable o → At o w k →
    leaves i = false → p.step o i = some o' →
    (∃ q : ℕ, q + moves i ≤ k ∧ At o' w q) ∨ w ∈ p.calls o i ∧ Done o'
  /-- What is there for it stays there, until it resumes. -/
  done : ∀ ⦃o o' : σ⦄ ⦃i : ι⦄, p.machine.Reachable o → Done o → leaves i = false →
    p.step o i = some o' → Done o'

/-- Operations that are those of another primitive. -/
theorem Queues.comap {τ κ : Type} {p : Primitive σ ι} {p' : Primitive τ κ}
    {At : σ → TaskWaker → ℕ → Prop} {Done : σ → Prop} {leaves : ι → Bool} {moves : ι → ℕ∞}
    (h : p.Queues At Done leaves moves) (f : τ → σ) (g : κ → ι)
    (hinit : ∀ o, p'.init o → p.init (f o))
    (hstep : ∀ o i o', p'.step o i = some o' → p.step (f o) (g i) = some (f o'))
    (hcalls : ∀ o i, p'.calls o i = p.calls (f o) (g i)) :
    p'.Queues (fun o => At (f o)) (fun o => Done (f o)) (fun i => leaves (g i))
      (fun i => moves (g i)) := by
  have hreach : ∀ {o}, p'.machine.Reachable o → p.machine.Reachable (f o) := fun ho =>
    ho.project (f := f) hinit fun _ _ _ hop => ⟨_, .cons (hstep _ _ _ hop) .nil⟩
  constructor
  · intro o o' i w k ho hk hi hop
    rw [hcalls]
    exact h.step (hreach ho) hk hi (hstep _ _ _ hop)
  · intro o o' i ho hdone hi hop
    exact h.done (hreach ho) hdone hi (hstep _ _ _ hop)

end Primitive

/-- A primitive, and the runtime whose tasks use it, with the other threads. -/
structure Users (σ : Type) where
  runtime : State
  object : σ
  /-- The wakers that the executor's thread has still to call before it goes on. -/
  unwoken : List TaskWaker
  /-- The wakers that other threads have still to call. -/
  foreign : List TaskWaker

namespace Users

variable {σ ι : Type} {p : Primitive σ ι}

/-- What can happen next, in the runtime or with the primitive. -/
inductive Label (ι : Type)
  /-- The executor or another thread takes a step that does not concern the primitive. -/
  | runtime (l : Lion.Label)
  /-- An operation, of a task in user code or of another thread. -/
  | object (own : Bool) (i : ι)
  /-- The executor's thread calls the next of its wakers. -/
  | wakes
  /-- Another thread calls the waker at this place. -/
  | wakesForeign (k : ℕ)

/-- One step. `none`: it panics, or it is not the time for it. -/
def step (p : Primitive σ ι) (s : Users σ) : Label ι → Option (Users σ)
  | .runtime l =>
    if l.onThread && !s.unwoken.isEmpty then none
    else (s.runtime.step l).map fun runtime => { s with runtime }
  | .object true i =>
    if s.runtime.pc.userCode && !s.runtime.shared.busy && s.unwoken.isEmpty then
      (p.step s.object i).map fun object => { s with object, unwoken := p.calls s.object i }
    else none
  | .object false i =>
    (p.step s.object i).map fun object =>
      { s with object, foreign := s.foreign ++ p.calls s.object i }
  | .wakes =>
    match s.unwoken with
    | w :: rest =>
      (s.runtime.step (.wake w.source w.id)).map fun runtime => { s with runtime, unwoken := rest }
    | [] => none
  | .wakesForeign k => do
    let w ← s.foreign[k]?
    let runtime ← s.runtime.step (.wakeForeign w.id)
    return { s with runtime, foreign := s.foreign.eraseIdx k }

/-- A new runtime, on a thread that may have run others before, and a new primitive. -/
def new (eventInterval : ℕ) (tls : Tls) (object : σ) : Users σ :=
  ⟨State.new eventInterval tls, object, [], []⟩

/-- A primitive and its users as a machine. -/
def machine (p : Primitive σ ι) : Machine (Users σ) (Label ι) :=
  Machine.ofStep (fun s => ∃ n tls object, 1 ≤ n ∧ tls.currentTask = none ∧ p.init object ∧
    s = new n tls object) (step p)

def log (s : Users σ) : List ExecutorEvent := s.runtime.exec.log

/-- The ids polled since `s`, but for a poll that was in progress there. -/
def polledSince (s : Users σ) (evs : List ExecutorEvent) : List TaskId := s.runtime.polledSince evs

/-- The wakers that were taken out and are still to be called, by whichever thread. -/
def toCall (s : Users σ) : List TaskWaker := s.unwoken ++ s.foreign

/-- No other thread has still to call a waker of the task. -/
def Called (s : Users σ) (id : TaskId) : Prop :=
  (∀ w ∈ s.foreign, w.id ≠ id) ∧ ∀ c ∈ s.runtime.shared.calls, c.stage ≠ .push id

/-- Between `s` and `m` an operation takes the waker out, and its task is polled after that. -/
abbrev PolledAfterCall (p : Primitive σ ι) (s m : Users σ) (w : TaskWaker)
    (evs : List ExecutorEvent) : Prop :=
  PolledSinceCall (machine p) Users.runtime toCall s m w evs

variable {s s' : Users σ} {l : Label ι}

/-! ### What a step does -/

/-- What a step does to the runtime, the primitive and the wakers. -/
inductive Stepped (p : Primitive σ ι) (s : Users σ) : Label ι → Users σ → Prop
  /-- The runtime takes a step, and the primitive does not see it. -/
  | runtime {l : Lion.Label} {u : State} (hthread : l.onThread = true → s.unwoken = [])
      (hstep : s.runtime.step l = some u) : Stepped p s (.runtime l) { s with runtime := u }
  /-- A task does an operation, and the thread has its wakers to call. -/
  | own {i : ι} {o : σ} (hunwoken : s.unwoken = []) (hstep : p.step s.object i = some o) :
      Stepped p s (.object true i) { s with object := o, unwoken := p.calls s.object i }
  /-- Another thread does an operation, and has its wakers to call. -/
  | other {i : ι} {o : σ} (hstep : p.step s.object i = some o) :
      Stepped p s (.object false i)
        { s with object := o, foreign := s.foreign ++ p.calls s.object i }
  /-- The executor's thread calls a waker. -/
  | wakes {w : TaskWaker} {rest : List TaskWaker} {u : State} (hunwoken : s.unwoken = w :: rest)
      (hstep : s.runtime.step (.wake w.source w.id) = some u) :
      Stepped p s .wakes { s with runtime := u, unwoken := rest }
  /-- Another thread begins a call, with the push yet to be made. -/
  | wakesForeign {k : ℕ} {w : TaskWaker} {u : State} (hw : s.foreign[k]? = some w)
      (hstep : s.runtime.step (.wakeForeign w.id) = some u) :
      Stepped p s (.wakesForeign k) { s with runtime := u, foreign := s.foreign.eraseIdx k }

theorem step_cases (h : s.step p l = some s') : Stepped p s l s' := by
  cases l with
  | runtime l =>
    simp only [step] at h
    split at h
    · cases h
    · rename_i hthread
      obtain ⟨u, hstep, rfl⟩ := Option.map_eq_some_iff.mp h
      exact .runtime (fun ht => by simpa [ht] using hthread) hstep
  | object own i =>
    cases own with
    | true =>
      simp only [step] at h
      split at h
      · rename_i huser
        obtain ⟨o, hstep, rfl⟩ := Option.map_eq_some_iff.mp h
        rw [Bool.and_eq_true_iff, List.isEmpty_iff] at huser
        exact .own huser.2 hstep
      · cases h
    | false =>
      obtain ⟨o, hstep, rfl⟩ := Option.map_eq_some_iff.mp h
      exact .other hstep
  | wakes =>
    simp only [step] at h
    split at h
    · rename_i w rest hunwoken
      obtain ⟨u, hstep, rfl⟩ := Option.map_eq_some_iff.mp h
      exact .wakes hunwoken hstep
    · cases h
  | wakesForeign k =>
    obtain ⟨w, hw, h⟩ := Option.bind_eq_some_iff.mp h
    obtain ⟨u, hstep, h⟩ := Option.bind_eq_some_iff.mp h
    cases h
    exact .wakesForeign hw hstep

/-! ### The parts -/

/-- What a step does to the runtime is a run of it. -/
theorem Stepped.run_runtime (h : Stepped p s l s') :
    ∃ ls, State.machine.Run s.runtime ls s'.runtime := by
  cases h with
  | runtime _ hstep | wakes _ hstep | wakesForeign _ hstep => exact ⟨_, .cons hstep .nil⟩
  | own | other => exact ⟨[], .nil⟩

/-- What a step does to the primitive is a run of it. -/
theorem Stepped.run_object (h : Stepped p s l s') : ∃ is, p.machine.Run s.object is s'.object := by
  cases h with
  | runtime | wakes | wakesForeign => exact ⟨[], .nil⟩
  | own _ hstep | other hstep => exact ⟨_, .cons hstep .nil⟩

/-- A waker stays to be called until it is. -/
theorem Stepped.calls {w : TaskWaker} (h : Stepped p s l s') (hw : w ∈ s.unwoken) :
    s'.runtime.exec.log = s.runtime.exec.log ∧
      (w ∈ s'.unwoken ∨ w.id ∈ s'.runtime.exec.history.woken) := by
  have hne : s.unwoken ≠ [] := List.ne_nil_of_mem hw
  cases h with
  | runtime hthread hstep =>
    have hoff := Bool.eq_false_of_not_eq_true fun ht => hne (hthread ht)
    exact ⟨congrArg Executor.log (State.pc_of_not_onThread hoff hstep).2, .inl hw⟩
  | own hunwoken => exact absurd hunwoken hne
  | other => exact ⟨rfl, .inl hw⟩
  | wakes hunwoken hstep =>
    cases State.step_cases hstep with
    | wake =>
      rw [hunwoken] at hw
      rcases List.mem_cons.mp hw with rfl | hw
      · exact ⟨rfl, .inr List.mem_cons_self⟩
      · exact ⟨rfl, .inl hw⟩
  | wakesForeign _ hstep =>
    cases State.step_cases hstep with
    | wakeForeign => exact ⟨rfl, .inl hw⟩

/-- **A primitive and its users are a machine around a runtime.** -/
theorem hosts (p : Primitive σ ι) : Hosts (machine p) Users.runtime Users.unwoken where
  init := by
    rintro s ⟨n, tls, object, hn, htls, -, rfl⟩
    exact ⟨n, tls, hn, htls, rfl⟩
  step _ _ _ hstep := (step_cases hstep).run_runtime
  calls _ _ _ _ _ hstep hw := (step_cases hstep).calls hw

/-- **The primitive** does what it does alone. -/
theorem reachable_object (h : (machine p).Reachable s) : p.machine.Reachable s.object := by
  refine h.project (f := Users.object) ?_ fun _ _ _ hstep => (step_cases hstep).run_object
  rintro s ⟨n, tls, object, -, -, hobject, rfl⟩
  exact hobject

/-! ### Who is called -/

variable {m t : Users σ} {ls ls' : List (Label ι)} {w : TaskWaker} {L : ℕ}
  {evs before after : List ExecutorEvent}

/-- A push that is to be made is made by a step after which it is not to be made any more. -/
theorem pushed_of_step {u v : State} {l : Lion.Label} {id : TaskId} (hu : State.machine.Reachable u)
    (hpush : ∃ c ∈ u.shared.calls, c.stage = .push id)
    (hno : ∀ c ∈ v.shared.calls, c.stage ≠ .push id) (hstep : u.step l = some v) :
    ∃ k, (id, k) ∈ v.shared.crossQueue := by
  obtain ⟨c, hc, hstage⟩ := hpush
  have hkept : c ∈ v.shared.calls → ∃ k, (id, k) ∈ v.shared.crossQueue :=
    fun h => absurd hstage (hno c h)
  cases State.step_cases hstep with
  | exec _ hexec =>
    refine hkept ?_
    rw [hexec.shared_cases.1.1]
    exact hc
  | wake | yield | rootReturns | pollReturns | blockOn | osReturns => exact hkept hc
  | spawn | wakeForeign => exact hkept (List.mem_append_left _ hc)
  | @call ticket _ hcall =>
    by_cases hk : c.ticket = ticket
    · obtain ⟨c', hc', hk', hcases⟩ := Shared.callStep_cases hcall
      rw [(State.wired_of_reachable hu).calls.stage_eq hc hc' hk hk', hstage] at hcases
      rcases hcases with ⟨_, h, -⟩ | ⟨id', h, rfl⟩ | ⟨h, -⟩ | ⟨h, -⟩ | ⟨h, -⟩
      · cases h
      · cases h
        exact ⟨ticket, List.mem_append_right _ (List.mem_singleton.mpr rfl)⟩
      · cases h
      · cases h
      · cases h
    · exact hkept (Shared.callStep_other hcall hc hk)

/-- A waker that another thread has to call is called by the step after which it has not. -/
theorem pushed_of_called (hs : (machine p).Reachable s) (hto : ¬ s.Called w.id)
    (hcalled : s'.Called w.id) (hstep : s.step p l = some s') :
    ∃ k, (w.id, k) ∈ s'.runtime.shared.crossQueue := by
  obtain ⟨hforeign, hcalls⟩ := hcalled
  -- a call that was in progress is over
  have hpush : ∀ {l : Lion.Label}, (∀ v ∈ s.foreign, v.id ≠ w.id) →
      s.runtime.step l = some s'.runtime → ∃ k, (w.id, k) ∈ s'.runtime.shared.crossQueue := by
    intro l hnone hruntime
    refine pushed_of_step ((hosts p).reachable_runtime hs) ?_ hcalls hruntime
    by_contra hno
    exact hto ⟨hnone, fun c hc hstage => hno ⟨c, hc, hstage⟩⟩
  cases step_cases hstep with
  | runtime _ hruntime => exact hpush hforeign hruntime
  | own => exact absurd ⟨hforeign, hcalls⟩ hto
  | other => exact absurd ⟨fun v hv => hforeign v (List.mem_append_left _ hv), hcalls⟩ hto
  | wakes _ hruntime => exact hpush hforeign hruntime
  | @wakesForeign k v u hv hruntime =>
    -- it does not begin with this task
    have hne : v.id ≠ w.id := by
      intro heq
      cases State.step_cases hruntime with
      | wakeForeign =>
        refine hcalls ⟨s.runtime.shared.nextTicket, false, .push v.id⟩ ?_ (by rw [heq])
        exact List.mem_append_right _ (List.mem_singleton.mpr rfl)
    refine hpush (fun x hx heq => ?_) hruntime
    obtain ⟨j, hj⟩ := List.mem_iff_getElem?.mp hx
    have hjk : j ≠ k := by
      rintro rfl
      obtain rfl : x = v := Option.some.inj (hj.symm.trans hv)
      exact hne heq
    exact hforeign x (List.mem_eraseIdx_iff_getElem?.mpr ⟨j, hjk, hj⟩) heq

/-- **Who is called is polled**, within `L / n + 3` ticks after other threads have made the call. A
waker of the executor's thread is called before the thread goes on; one of another thread is pushed
to the cross-thread queue, which takes one tick more. -/
theorem polled_of_called (hs : (machine p).Reachable s) (hw : w ∈ s.toCall)
    (hto : (machine p).Run s ls m) (hcalled : m.Called w.id) (hfrom : (machine p).Run m ls' t)
    (hm : m.log = s.log ++ before) (hlog : t.log = m.log ++ after)
    (haccepted : AcceptedIn s.log w.id) (hL : 0 < L)
    (hbound : State.QueueBound L s.log (before ++ after))
    (hticks : L ≤ s.runtime.exec.eventInterval * (ticks after - 3)) :
    w.id ∈ s.polledSince (before ++ after) := by
  rcases List.mem_append.mp hw with hw | hw
  · refine (hosts p).polled_of_unwoken hs hw (hto.append hfrom) ?_ haccepted hL hbound ?_
    · exact hlog.trans ((congrArg (· ++ after) hm).trans (List.append_assoc _ _ _))
    · rw [ticks_append]
      exact hticks.trans (Nat.mul_le_mul_left _ (by omega))
  · obtain ⟨ls₁, u, l, v, ls₂, rfl, hfirst, hpush, hrest, hu, hv⟩ :=
      hto.exists_step (P := fun u => u.Called w.id) (fun h => h.1 w hw rfl) hcalled
    have hthrough := hfirst.snoc hpush
    obtain ⟨evs₁, evs₂, rfl, hv₁, hv₂⟩ := (hosts p).log_split hs hthrough hrest hm
    rw [List.append_assoc] at hbound ⊢
    refine (hosts p).polledSince_of_run hs hthrough hv₁ ?_
    have hruntime := (hosts p).reachable_runtime ((hs.run hfirst).step hpush)
    have haccepted' : AcceptedIn v.runtime.exec.log w.id := by
      rw [hv₁]
      exact haccepted.append evs₁
    obtain ⟨ls₃, hrun⟩ := (hosts p).run_runtime (hrest.append hfrom)
    refine State.polled_of_crossQueue hruntime hrun ?_
      ((State.contains_iff_accepted hruntime w.id).mpr haccepted')
      (pushed_of_called (hs.run hfirst) hu hv hpush) hL ?_ ?_
    · exact hlog.trans ((congrArg (· ++ after) hv₂).trans (List.append_assoc _ _ _))
    · rw [hv₁]
      exact hbound.append
    · rw [(hosts p).interval_of_run hs hthrough, ticks_append]
      exact hticks.trans (Nat.mul_le_mul_left _ (by omega))

/-! ### Who waits -/

/-- The operation is one of these, by whichever thread. -/
def Label.leaves (leaves : ι → Bool) : Label ι → Bool
  | .object _ i => leaves i
  | .runtime _ | .wakes | .wakesForeign _ => false

/-- What the other operations keep is kept. -/
theorem object_of_run {I : σ → Prop} {leaves : ι → Bool}
    (hI : ∀ ⦃o o' : σ⦄ ⦃i : ι⦄, leaves i = false → p.step o i = some o' → I o → I o')
    (hrun : (machine p).Run s ls t) (hkeep : ∀ l ∈ ls, l.leaves leaves = false)
    (hs : I s.object) : I t.object := by
  induction hrun with
  | nil => exact hs
  | snoc hrun hlast ih =>
    have hbefore := ih fun l hl => hkeep l (List.mem_append_left _ hl)
    have hl := hkeep _ (List.mem_append_right _ (List.mem_singleton.mpr rfl))
    cases step_cases hlast with
    | runtime | wakes | wakesForeign => exact hbefore
    | own _ hop | other hop => exact hI hl hop hbefore

/-- Who waits, waits until an operation takes its waker out. -/
theorem called_of_waits {Waits : σ → TaskWaker → Prop} {leaves : ι → Bool}
    (hp : p.Attends Waits leaves) (hs : (machine p).Reachable s) (hw : Waits s.object w)
    (hto : (machine p).Run s ls m) (hkeep : ∀ l ∈ ls, l.leaves leaves = false)
    (hover : ¬ Waits m.object w) : ∃ ls₁ u ls₂, (machine p).Run s ls₁ u ∧ (machine p).Run u ls₂ m ∧
      w ∈ u.toCall := by
  obtain ⟨ls₁, u, l, v, ls₂, rfl, hfirst, hstep, hrest, hu, hv⟩ :=
    hto.exists_step (P := fun u => ¬ Waits u.object w) (not_not_intro hw) hover
  refine ⟨_, v, _, hfirst.snoc hstep, hrest, ?_⟩
  have hl := hkeep l (List.mem_append_right _ List.mem_cons_self)
  have hreach := reachable_object (hs.run hfirst)
  rw [not_not] at hu
  cases step_cases hstep with
  | runtime | wakes | wakesForeign => exact absurd hu hv
  | own _ hop => exact List.mem_append_left _ ((hp hreach hu hl hop).resolve_left hv)
  | other hop =>
    exact List.mem_append_right _ (List.mem_append_right _ ((hp hreach hu hl hop).resolve_left hv))

/-- Who is called in the course of a run is polled after that. -/
theorem polled_of_call {u : Users σ} {ls₁ ls₂ : List (Label ι)} (hs : (machine p).Reachable s)
    (hfirst : (machine p).Run s ls₁ u) (hrest : (machine p).Run u ls₂ m) (hcall : w ∈ u.toCall)
    (hcalled : m.Called w.id) (hfrom : (machine p).Run m ls' t) (hm : m.log = s.log ++ before)
    (hlog : t.log = m.log ++ after) (haccepted : AcceptedIn s.log w.id) (hL : 0 < L)
    (hbound : State.QueueBound L s.log (before ++ after))
    (hticks : L ≤ s.runtime.exec.eventInterval * (ticks after - 3)) :
    PolledAfterCall p s m w (before ++ after) := by
  obtain ⟨evs₁, evs₂, rfl, hu, hm'⟩ := (hosts p).log_split hs hfirst hrest hm
  rw [List.append_assoc] at hbound ⊢
  refine .of_run hfirst hu (.of_mem hcall hrest ?_)
  refine polled_of_called (hs.run hfirst) hcall hrest hcalled hfrom hm' hlog ?_ hL ?_ ?_
  · rw [show u.log = s.log ++ evs₁ from hu]
    exact haccepted.append evs₁
  · rw [show u.log = s.log ++ evs₁ from hu]
    exact hbound.append
  · rw [(hosts p).interval_of_run hs hfirst]
    exact hticks

/-- **Who waits is polled when there is no more to wait for**: within `L / n + 3` ticks after other
threads have made their calls, for a queue of at most `L` and a budget of `n`. The poll comes after
the operation by which there is no more to wait for, so it is not one that the task was due anyway
before that. -/
theorem polled_of_waits {Waits : σ → TaskWaker → Prop} {leaves : ι → Bool}
    (hp : p.Attends Waits leaves) (hs : (machine p).Reachable s) (hw : Waits s.object w)
    (hto : (machine p).Run s ls m) (hkeep : ∀ l ∈ ls, l.leaves leaves = false)
    (hover : ¬ Waits m.object w) (hcalled : m.Called w.id) (hfrom : (machine p).Run m ls' t)
    (hm : m.log = s.log ++ before) (hlog : t.log = m.log ++ after)
    (haccepted : AcceptedIn s.log w.id) (hL : 0 < L)
    (hbound : State.QueueBound L s.log (before ++ after))
    (hticks : L ≤ s.runtime.exec.eventInterval * (ticks after - 3)) :
    PolledAfterCall p s m w (before ++ after) := by
  obtain ⟨ls₁, u, ls₂, hfirst, hrest, hcall⟩ := called_of_waits hp hs hw hto hkeep hover
  exact polled_of_call hs hfirst hrest hcall hcalled hfrom hm hlog haccepted hL hbound hticks

/-! ### Who waits in a queue -/

/-- By how many places the operation brings those in the queue nearer. -/
def Label.moves (moves : ι → ℕ∞) : Label ι → ℕ∞
  | .object _ i => moves i
  | .runtime _ | .wakes | .wakesForeign _ => 0

section Queue

variable {At : σ → TaskWaker → ℕ → Prop} {Done : σ → Prop} {leaves : ι → Bool} {moves : ι → ℕ∞}
  {k : ℕ}

/-- Who waits in a queue comes nearer, until an operation takes its waker out. -/
theorem called_of_place (hp : p.Queues At Done leaves moves) (hs : (machine p).Reachable s)
    (hk : At s.object w k) (hto : (machine p).Run s ls m)
    (hkeep : ∀ l ∈ ls, l.leaves leaves = false) :
    (∃ q : ℕ, q + (ls.map (Label.moves moves)).sum ≤ k ∧ At m.object w q) ∨
      Done m.object ∧ ∃ ls₁ u ls₂, (machine p).Run s ls₁ u ∧ (machine p).Run u ls₂ m ∧
        w ∈ u.toCall := by
  induction hto with
  | nil => exact .inl ⟨k, by simp, hk⟩
  | @snoc as u v a hrun hlast ih =>
    have hl := hkeep a (List.mem_append_right _ (List.mem_singleton.mpr rfl))
    have hreach := reachable_object (hs.run hrun)
    rw [List.map_append, List.sum_append, List.map_singleton, List.sum_singleton]
    rcases ih fun l hl => hkeep l (List.mem_append_left _ hl) with
      ⟨q, hq, hat⟩ | ⟨hdone, ls₁, x, ls₂, hfirst, hrest, hcall⟩
    · have hmoved : ∀ {r : ℕ}, r + Label.moves moves a ≤ q →
          r + ((as.map (Label.moves moves)).sum + Label.moves moves a) ≤ (k : ℕ∞) := by
        intro r hr
        rw [add_comm (as.map _).sum, ← add_assoc]
        exact (add_le_add_left hr _).trans hq
      cases step_cases hlast with
      | runtime | wakes | wakesForeign => exact .inl ⟨q, hmoved (add_zero _).le, hat⟩
      | own _ hop =>
        rcases hp.step hreach hat hl hop with ⟨r, hr, hat'⟩ | ⟨hcall, hdone⟩
        · exact .inl ⟨r, hmoved hr, hat'⟩
        · exact .inr ⟨hdone, _, _, [], hrun.snoc hlast, .nil, List.mem_append_left _ hcall⟩
      | other hop =>
        rcases hp.step hreach hat hl hop with ⟨r, hr, hat'⟩ | ⟨hcall, hdone⟩
        · exact .inl ⟨r, hmoved hr, hat'⟩
        · exact .inr ⟨hdone, _, _, [], hrun.snoc hlast, .nil,
            List.mem_append_right _ (List.mem_append_right _ hcall)⟩
    · refine .inr ⟨?_, ls₁, x, _, hfirst, hrest.snoc hlast, hcall⟩
      cases step_cases hlast with
      | runtime | wakes | wakesForeign => exact hdone
      | own _ hop | other hop => exact hp.done hreach hdone hl hop

/-- **Who waits in a queue is polled when it has moved by more than its place**, after the operation
that took its waker out, and what it waits for is there for it. -/
theorem polled_of_place (hp : p.Queues At Done leaves moves) (hs : (machine p).Reachable s)
    (hk : At s.object w k) (hto : (machine p).Run s ls m)
    (hkeep : ∀ l ∈ ls, l.leaves leaves = false) (hover : k < (ls.map (Label.moves moves)).sum)
    (hcalled : m.Called w.id) (hfrom : (machine p).Run m ls' t)
    (hm : m.log = s.log ++ before) (hlog : t.log = m.log ++ after)
    (haccepted : AcceptedIn s.log w.id) (hL : 0 < L)
    (hbound : State.QueueBound L s.log (before ++ after))
    (hticks : L ≤ s.runtime.exec.eventInterval * (ticks after - 3)) :
    PolledAfterCall p s m w (before ++ after) ∧ Done m.object := by
  rcases called_of_place hp hs hk hto hkeep with
    ⟨q, hq, -⟩ | ⟨hdone, ls₁, u, ls₂, hfirst, hrest, hcall⟩
  · exact absurd (le_add_self.trans hq) (not_le.mpr hover)
  · exact ⟨polled_of_call hs hfirst hrest hcall hcalled hfrom hm hlog haccepted hL hbound hticks,
      hdone⟩

end Queue

/-! ### A task that waits -/

/-- Steps that do not concern the primitive. -/
def runs (ls : List Lion.Label) : List (Label ι) := ls.map .runtime

/-- Task `1` is spawned, and polled in a tick. -/
def pollStarts : List (Label ι) :=
  runs (.spawn false 0 :: .call 0 :: .blockOn :: .exec :: .futureReturns false :: State.execs 5)

/-- Four ticks end, in the first of which a task is polled again. -/
def fourTicks : List (Label ι) :=
  runs (State.execs 5 ++ .futureReturns false :: State.execs 7 ++ .osReturns false ::
    State.execs 8 ++ State.idleTick ++ State.idleTick ++ State.idleTick)

/-- The task polls a primitive that was `o`, after which `P` holds, and does `starts` in its poll.
Then others do `others` with it, after which `Q` holds, and four ticks end. -/
def check (p : Primitive σ ι) (o : σ) (starts others : List (Label ι)) (P Q : Users σ → Prop)
    [DecidablePred P] [DecidablePred Q] : Bool :=
  (Machine.follow (step p) (pollStarts ++ starts ++ [.runtime (.futureReturns false)])
    (new 4 .new o)).any fun u => decide (P u ∧ .popInjection (some ⟨1, 0⟩) ∈ u.log ∧
      u.runtime.exec.eventInterval = 4 ∧ (Machine.follow (step p) others u).any (fun m => decide
        (Q m ∧ m.log = u.log ++ [] ∧ (∀ w ∈ m.foreign, w.id ≠ 1) ∧
          (∀ c ∈ m.runtime.shared.calls, c.stage ≠ .push 1) ∧
          (Machine.follow (step p) fourTicks m).any (fun t => decide
            (t.log = m.log ++ t.log.drop m.log.length ∧ ticks (t.log.drop m.log.length) = 4 ∧
              (replay u.log).length +
                (enqueuedIds ([] ++ t.log.drop m.log.length)).length ≤ 3)) = true)) = true)

/-- A check that succeeds is a run, with what it has checked. -/
theorem exists_of_check (p : Primitive σ ι) {o : σ} (starts others : List (Label ι))
    (P Q : Users σ → Prop) [DecidablePred P] [DecidablePred Q] (hinit : p.init o)
    (h : check p o starts others P Q = true) : ∃ u m t after, (machine p).Reachable u ∧
      (machine p).Run u others m ∧ (machine p).Run m fourTicks t ∧ P u ∧ Q m ∧
      m.log = u.log ++ [] ∧ t.log = m.log ++ after ∧ AcceptedIn u.log 1 ∧ m.Called 1 ∧
      State.QueueBound 3 u.log ([] ++ after) ∧
      3 ≤ u.runtime.exec.eventInterval * (ticks after - 3) := by
  have hstart : (machine p).Reachable (new 4 .new o) :=
    .of_init ⟨4, .new, o, by decide, rfl, hinit, rfl⟩
  obtain ⟨u, hu, hP, haccepted, hn, hm⟩ := Machine.exists_follow (step p) _ _ _ h
  obtain ⟨m, hm, hQ, hlog, hforeign, hcalls, ht⟩ := Machine.exists_follow (step p) _ u _ hm
  obtain ⟨t, ht, hlog', hticks, hbound⟩ := Machine.exists_follow (step p) _ m _ ht
  exact ⟨u, m, t, _, hstart.follow hu, .of_follow hm, .of_follow ht, hP, hQ, hlog, hlog',
    ⟨⟨1, 0⟩, haccepted, rfl⟩, ⟨hforeign, hcalls⟩, State.queueBound_of_enqueued hbound,
    by rw [hticks, hn]; decide⟩

end Users

end Lion
