import Lion.Library.Dispatch
import Lion.Library.Machine

/-!
# The blocking pool

`BlockingPool` has a fixed number of threads, each with a queue of its own. `spawn` gives a job to
the next one in turn: it pushes the job and unparks the thread. A thread pops and runs jobs until
its queue is empty, and parks.

A job that panics takes its thread with it, as nothing catches the unwinding. The thread's queue
stays, and so does its turn: every round gives it another job, which is never started. A pool
without threads fails in another way, as the turn is taken modulo their number. `served_iff` says
that there is no third way.

## Three arguments

That jobs are started once and not lost is a matter of the queues alone. The pool is a `Dispatch`
(`step_dispatch`), and `Dispatch.Sound` says the rest.

That a thread does not sleep on jobs is a matter of the token that `unpark` leaves. A call pushes
before it unparks, and a thread parks after it has found its queue empty; if a job was pushed in
between, the token is there or the call has yet to leave it (`Prompt`).

That a job is started at all is bounded in the steps of its own worker, whatever the others do: two
for each job before it, and some for the way to the next pop (`Waits`). Nothing bounds how long a
job runs.

## Conventions

A call of `spawn` is taken in four steps, and others may come in between: the choice of the worker,
which reads the counter, the update of the counter, the push, and the call of `unpark`. A thread is
taken one pop, job, or call of `park` at a time. Parking is that of `std`: `unpark` leaves a token,
`park` takes it or waits for it, and may also return for no reason.

A job is the number of the call that has submitted it. It ends with a return or with a panic, which
unwinds the thread. The pool is never dropped. `started`, the jobs in the order in which they were
started, is not in the source, and nothing depends on it.

## Main results

* `Pool.started_of_scheduled` — a job that is queued is started when its worker takes steps enough
* `Pool.served_iff` — from a state on, as long as no further job panics, every job is started once,
  none is left with a worker that does not know of it, and no division by zero happens, if and only
  if there is a thread and no job has panicked
* `Pool.not_served` — a job panics, and the next one is never started
-/

namespace Lion.Blocking

/-- Where a thread is in its loop, or that it is no longer there. -/
inductive Phase
  | popping
  | running (job : ℕ)
  | parking
  | parked
  /-- A job has unwound it. -/
  | terminated
deriving DecidableEq, Repr

/-- `Worker`, with its thread and the token of `std` that belongs to it. -/
structure Worker where
  queue : List ℕ
  phase : Phase
  token : Bool
deriving DecidableEq, Repr

/-- A worker of a new pool, whose thread is about to pop. -/
def Worker.new : Worker := ⟨[], .popping, false⟩

/-- Where a call of `spawn` is, with the worker it has chosen. -/
inductive Call
  | chosen (idx : ℕ)
  | counted (idx : ℕ)
  | pushed (idx : ℕ)
  | returned (idx : ℕ)
  /-- It has panicked: there is no worker to choose. -/
  | failed
deriving DecidableEq, Repr

/-- The pool, the calls of `spawn` so far, and what has become of their jobs. -/
structure Pool where
  workers : List Worker
  next : ℕ
  calls : List Call
  /-- The jobs that were started. -/
  started : List ℕ
deriving DecidableEq, Repr

/-- The steps: of a call of `spawn`, or of the thread of a worker. -/
inductive Label
  /-- `spawn` is called, and chooses a worker. -/
  | spawn
  | count (job : ℕ)
  | push (job : ℕ)
  | unpark (job : ℕ)
  | pop (i : ℕ)
  | returned (i : ℕ)
  | panicked (i : ℕ)
  | park (i : ℕ)
  /-- A call of `park` takes a token. -/
  | wake (i : ℕ)
  /-- A call of `park` returns for no reason. -/
  | spurious (i : ℕ)
deriving DecidableEq, Repr

namespace Label

/-- The worker whose thread takes the step, if a thread does. -/
def worker : Label → Option ℕ
  | .spawn => none
  | .count _ => none
  | .push _ => none
  | .unpark _ => none
  | .pop i => some i
  | .returned i => some i
  | .panicked i => some i
  | .park i => some i
  | .wake i => some i
  | .spurious i => some i

/-- A job panics in this step, and its thread with it. -/
def Panics (l : Label) : Prop := ∃ i, l = .panicked i

end Label

namespace Pool

/-- `BlockingPool::new`: so many workers, none of which has been given anything. -/
def new (numThreads : ℕ) : Pool := ⟨List.replicate numThreads .new, 0, [], []⟩

/-- The size that `spawn_blocking` gives the pool: `LION_BLOCKING_THREADS` if it is set to a number,
or what `available_parallelism` says, or four. -/
def size (var parallelism : Option ℕ) : ℕ := var.getD (parallelism.getD 4)

/-- A worker takes a step, if there is one under this number. -/
def onWorker (s : Pool) (i : ℕ) (next : Worker → Option Worker) : Option Pool := do
  let w ← s.workers[i]?
  let w ← next w
  return { s with workers := s.workers.set i w }

/-- One step. `none`: whoever would take it is not there. -/
def step (s : Pool) : Label → Option Pool
  | .spawn =>
    if s.workers.length = 0 then some { s with calls := s.calls ++ [.failed] }
    else some { s with calls := s.calls ++ [.chosen (s.next % s.workers.length)] }
  | .count job =>
    match s.calls[job]? with
    | some (.chosen idx) => some { s with next := idx + 1, calls := s.calls.set job (.counted idx) }
    | _ => none
  | .push job =>
    match s.calls[job]? with
    | some (.counted idx) => { s with calls := s.calls.set job (.pushed idx) }.onWorker idx fun w =>
        some { w with queue := w.queue ++ [job] }
    | _ => none
  | .unpark job =>
    match s.calls[job]? with
    | some (.pushed idx) =>
      { s with calls := s.calls.set job (.returned idx) }.onWorker idx fun w =>
        some { w with token := true }
    | _ => none
  | .pop i => do
    let w ← s.workers[i]?
    if w.phase = .popping then
      match w.queue with
      | [] => some { s with workers := s.workers.set i { w with phase := .parking } }
      | job :: queue => some { s with
          workers := s.workers.set i { w with queue, phase := .running job }
          started := s.started ++ [job] }
    else none
  | .returned i => s.onWorker i fun w =>
    match w.phase with
    | .running _ => some { w with phase := .popping }
    | _ => none
  | .panicked i => s.onWorker i fun w =>
    match w.phase with
    | .running _ => some { w with phase := .terminated }
    | _ => none
  | .park i => s.onWorker i fun w =>
    if w.phase = .parking then
      some (if w.token then { w with phase := .popping, token := false }
        else { w with phase := .parked })
    else none
  | .wake i => s.onWorker i fun w =>
    if w.phase = .parked ∧ w.token = true then some { w with phase := .popping, token := false }
    else none
  | .spurious i => s.onWorker i fun w =>
    if w.phase = .parked then some { w with phase := .popping } else none

/-- Pools as a machine. `available_parallelism` is never zero. -/
def machine : Machine Pool Label :=
  Machine.ofStep (fun s => ∃ var parallelism, parallelism ≠ some 0 ∧ s = new (size var parallelism))
    step

end Pool

/-! ### What one step does -/

/-- What a thread does but pop a job, and whether that is a panic. -/
inductive Worker.Moves (w : Worker) : Bool → Worker → Prop
  | idle : w.phase = .popping → w.queue = [] → Moves w false { w with phase := .parking }
  | returned {job : ℕ} : w.phase = .running job → Moves w false { w with phase := .popping }
  | panicked {job : ℕ} : w.phase = .running job → Moves w true { w with phase := .terminated }
  /-- `park` finds a token. -/
  | pass : w.phase = .parking → w.token = true →
      Moves w false { w with phase := .popping, token := false }
  /-- `park` finds none. -/
  | park : w.phase = .parking → w.token = false → Moves w false { w with phase := .parked }
  | wake : w.phase = .parked → w.token = true →
      Moves w false { w with phase := .popping, token := false }
  /-- `park` returns for no reason. -/
  | spurious : w.phase = .parked → Moves w false { w with phase := .popping }

namespace Pool

variable {s s' s₀ t : Pool} {l : Label} {ls : List Label}

/-- The steps with what they find, one case for each kind. -/
inductive Stepped (s : Pool) : Label → Pool → Prop
  | refuse : s.workers.length = 0 → Stepped s .spawn { s with calls := s.calls ++ [.failed] }
  | choose : s.workers.length ≠ 0 →
      Stepped s .spawn { s with calls := s.calls ++ [.chosen (s.next % s.workers.length)] }
  | count {job idx : ℕ} : s.calls[job]? = some (.chosen idx) →
      Stepped s (.count job) { s with next := idx + 1, calls := s.calls.set job (.counted idx) }
  | push {job idx : ℕ} {w : Worker} :
      s.calls[job]? = some (.counted idx) → s.workers[idx]? = some w →
      Stepped s (.push job) { s with
        workers := s.workers.set idx { w with queue := w.queue ++ [job] }
        calls := s.calls.set job (.pushed idx) }
  | unpark {job idx : ℕ} {w : Worker} :
      s.calls[job]? = some (.pushed idx) → s.workers[idx]? = some w →
      Stepped s (.unpark job) { s with
        workers := s.workers.set idx { w with token := true }
        calls := s.calls.set job (.returned idx) }
  | pop {i job : ℕ} {queue : List ℕ} {w : Worker} :
      s.workers[i]? = some w → w.phase = .popping → w.queue = job :: queue →
      Stepped s (.pop i) { s with
        workers := s.workers.set i { w with queue, phase := .running job }
        started := s.started ++ [job] }
  /-- A thread does something else than to pop a job. -/
  | move {l : Label} {i : ℕ} {panics : Bool} {w w' : Worker} :
      l.worker = some i → (panics = true ↔ l.Panics) → s.workers[i]? = some w →
      w.Moves panics w' → Stepped s l { s with workers := s.workers.set i w' }

theorem onWorker_cases {i : ℕ} {next : Worker → Option Worker} (h : s.onWorker i next = some s') :
    ∃ w w', s.workers[i]? = some w ∧ next w = some w' ∧
      s' = { s with workers := s.workers.set i w' } := by
  obtain ⟨w, hw, h⟩ := Option.bind_eq_some_iff.mp h
  obtain ⟨w', hnext, h⟩ := Option.bind_eq_some_iff.mp h
  cases h
  exact ⟨w, w', hw, hnext, rfl⟩

/-- **One step**, with what it finds. -/
theorem step_cases (h : s.step l = some s') : Stepped s l s' := by
  have hcalm : ∀ l : Label, (∀ i, l ≠ .panicked i) → (false = true ↔ l.Panics) := by
    intro l hl
    refine ⟨nofun, ?_⟩
    rintro ⟨i, rfl⟩
    exact absurd rfl (hl i)
  cases l with
  | spawn =>
    simp only [step] at h
    split at h
    · rename_i hlen
      cases h
      exact .refuse hlen
    · rename_i hlen
      cases h
      exact .choose hlen
  | count job =>
    simp only [step] at h
    split at h
    · rename_i idx hcall
      cases h
      exact .count hcall
    · cases h
  | push job =>
    simp only [step] at h
    split at h
    · rename_i idx hcall
      obtain ⟨w, w', hw, hnext, rfl⟩ := onWorker_cases h
      cases hnext
      exact .push hcall hw
    · cases h
  | unpark job =>
    simp only [step] at h
    split at h
    · rename_i idx hcall
      obtain ⟨w, w', hw, hnext, rfl⟩ := onWorker_cases h
      cases hnext
      exact .unpark hcall hw
    · cases h
  | pop i =>
    obtain ⟨w, hw, h⟩ := Option.bind_eq_some_iff.mp h
    split at h
    · rename_i hphase
      split at h
      · rename_i hqueue
        cases h
        exact .move rfl (hcalm _ nofun) hw (.idle hphase hqueue)
      · rename_i job queue hqueue
        cases h
        exact .pop hw hphase hqueue
    · cases h
  | returned i =>
    obtain ⟨w, w', hw, hnext, rfl⟩ := onWorker_cases h
    split at hnext
    · rename_i job hphase
      cases hnext
      exact .move rfl (hcalm _ nofun) hw (.returned hphase)
    · cases hnext
  | panicked i =>
    obtain ⟨w, w', hw, hnext, rfl⟩ := onWorker_cases h
    split at hnext
    · rename_i job hphase
      cases hnext
      exact .move rfl (iff_of_true rfl ⟨i, rfl⟩) hw (.panicked hphase)
    · cases hnext
  | park i =>
    obtain ⟨w, w', hw, hnext, rfl⟩ := onWorker_cases h
    split at hnext
    · rename_i hphase
      by_cases htoken : w.token = true
      · rw [if_pos htoken] at hnext
        cases hnext
        exact .move rfl (hcalm _ nofun) hw (.pass hphase htoken)
      · rw [if_neg htoken] at hnext
        cases hnext
        exact .move rfl (hcalm _ nofun) hw (.park hphase (Bool.eq_false_iff.mpr htoken))
    · cases hnext
  | wake i =>
    obtain ⟨w, w', hw, hnext, rfl⟩ := onWorker_cases h
    split at hnext
    · rename_i hphase
      cases hnext
      exact .move rfl (hcalm _ nofun) hw (.wake hphase.1 hphase.2)
    · cases hnext
  | spurious i =>
    obtain ⟨w, w', hw, hnext, rfl⟩ := onWorker_cases h
    split at hnext
    · rename_i hphase
      cases hnext
      exact .move rfl (hcalm _ nofun) hw (.spurious hphase)
    · cases hnext

end Pool

theorem Worker.Moves.queue {w w' : Worker} {panics : Bool} (h : w.Moves panics w') :
    w'.queue = w.queue := by
  cases h <;> rfl

theorem Worker.Moves.alive {w w' : Worker} {panics : Bool} (h : w.Moves panics w') :
    w.phase ≠ .terminated := by
  intro hterminated
  cases h with
  | idle hphase _ => exact nomatch hphase.symm.trans hterminated
  | returned hphase => exact nomatch hphase.symm.trans hterminated
  | panicked hphase => exact nomatch hphase.symm.trans hterminated
  | pass hphase _ => exact nomatch hphase.symm.trans hterminated
  | park hphase _ => exact nomatch hphase.symm.trans hterminated
  | wake hphase _ => exact nomatch hphase.symm.trans hterminated
  | spurious hphase => exact nomatch hphase.symm.trans hterminated

/-! ### Jobs are started once -/

/-- The worker that a call has chosen, as long as it has not failed. -/
def Call.worker : Call → Option ℕ
  | .chosen idx => some idx
  | .counted idx => some idx
  | .pushed idx => some idx
  | .returned idx => some idx
  | .failed => none

/-- The worker to which a call has given its job. -/
def Call.target : Call → Option ℕ
  | .chosen _ => none
  | .counted _ => none
  | .pushed idx => some idx
  | .returned idx => some idx
  | .failed => none

namespace Pool

variable {s s' s₀ t : Pool} {l : Label} {ls : List Label}

/-- The worker to which a job was given. -/
def target (s : Pool) (job : ℕ) : Option ℕ := s.calls[job]?.bind Call.target

/-- The jobs that a worker has not popped. -/
def queue (s : Pool) (i : ℕ) : List ℕ := (s.workers[i]?.map Worker.queue).getD []

/-- The jobs of the pool, as jobs handed out to workers. -/
def dispatch (s : Pool) : Dispatch ℕ ℕ := ⟨s.target, s.queue, s.started⟩

theorem queue_eq {i : ℕ} {w : Worker} (hw : s.workers[i]? = some w) : s.queue i = w.queue := by
  rw [queue, hw]
  rfl

theorem queue_set {i : ℕ} {w : Worker} (w' : Worker) (hw : s.workers[i]? = some w) :
    queue { s with workers := s.workers.set i w' } = Function.update s.queue i w'.queue := by
  have hlt : i < s.workers.length := (List.getElem?_eq_some_iff.mp hw).1
  funext j
  by_cases hj : j = i
  · subst hj
    simp [queue, hlt]
  · simp [queue, hj, List.getElem?_set_ne (Ne.symm hj)]

theorem target_set {job : ℕ} {c : Call} (c' : Call) (hc : s.calls[job]? = some c) :
    target { s with calls := s.calls.set job c' } = Function.update s.target job c'.target := by
  have hlt : job < s.calls.length := (List.getElem?_eq_some_iff.mp hc).1
  funext j
  by_cases hj : j = job
  · subst hj
    simp [target, hlt]
  · simp [target, hj, List.getElem?_set_ne (Ne.symm hj)]

theorem target_eq {job : ℕ} {c : Call} (hc : s.calls[job]? = some c) :
    s.target job = c.target := by
  rw [target, hc]
  rfl

theorem target_append {c : Call} (hc : c.target = none) :
    target { s with calls := s.calls ++ [c] } = s.target := by
  funext job
  rcases Nat.lt_trichotomy job s.calls.length with hlt | rfl | hgt
  · simp [target, List.getElem?_append_left hlt]
  · simp [target, hc]
  · have hlen : (s.calls ++ [c]).length ≤ job := by
      simp
      omega
    simp [target, List.getElem?_eq_none hlen, List.getElem?_eq_none (Nat.le_of_lt hgt)]

/-- Nothing happens to the jobs, whatever the workers do. -/
theorem dispatch_idle {workers : List Worker} {next : ℕ} {calls : List Call}
    (hqueue : queue { s with workers } = s.queue) (htarget : target { s with calls } = s.target) :
    s.dispatch.Step { s with workers, next, calls }.dispatch := by
  have heq : { s with workers, next, calls }.dispatch = s.dispatch := by
    show Dispatch.mk (target { s with calls }) (queue { s with workers }) s.started = s.dispatch
    rw [hqueue, htarget]
    rfl
  rw [heq]
  exact .idle

/-- **Steps and jobs.** A step hands out a job, starts one, or leaves all of them alone. -/
theorem step_dispatch (h : s.step l = some s') : s.dispatch.Step s'.dispatch := by
  cases step_cases h with
  | refuse _ => exact dispatch_idle rfl (target_append rfl)
  | choose _ => exact dispatch_idle rfl (target_append rfl)
  | count hcall =>
    refine dispatch_idle rfl ((target_set _ hcall).trans ?_)
    exact Function.update_eq_self_iff.mpr (target_eq hcall).symm
  | @push job idx w hcall hw =>
    have hpush := Dispatch.Step.submit (a := s.dispatch) (i := idx) (target_eq hcall)
    have hqueue : s.dispatch.queue idx = w.queue := queue_eq hw
    rw [hqueue] at hpush
    show s.dispatch.Step ⟨target { s with calls := _ }, queue { s with workers := _ }, s.started⟩
    rw [queue_set _ hw, target_set _ hcall]
    exact hpush
  | unpark hcall hw =>
    refine dispatch_idle ((queue_set _ hw).trans ?_) ((target_set _ hcall).trans ?_)
    · exact Function.update_eq_self_iff.mpr (queue_eq hw).symm
    · exact Function.update_eq_self_iff.mpr (target_eq hcall).symm
  | pop hw hphase hqueue =>
    have hpop := Dispatch.Step.start (a := s.dispatch) ((queue_eq hw).trans hqueue)
    show s.dispatch.Step ⟨s.target, queue { s with workers := _ }, s.started ++ [_]⟩
    rw [queue_set _ hw]
    exact hpop
  | move _ _ hw hmove =>
    refine dispatch_idle ((queue_set _ hw).trans ?_) rfl
    exact Function.update_eq_self_iff.mpr (hmove.queue.trans (queue_eq hw).symm)

/-- **Jobs are started once**, and none is lost, in every state. -/
theorem sound_of_reachable (h : machine.Reachable s) : s.dispatch.Sound := by
  refine h.invariant (I := fun s => s.dispatch.Sound) ?_ ?_
  · rintro s ⟨var, parallelism, -, rfl⟩
    have hempty : ∀ i, (new (size var parallelism)).dispatch.queue i = [] := by
      intro i
      show queue _ i = []
      rw [queue, new]
      cases hw : (List.replicate (size var parallelism) Worker.new)[i]? with
      | none => rfl
      | some w =>
        rw [List.eq_of_mem_replicate (List.mem_of_getElem? hw)]
        rfl
    refine ⟨fun i job hmem => ?_, fun i => ?_, nofun, List.nodup_nil, nofun⟩
    · rw [hempty i] at hmem
      cases hmem
    · rw [hempty i]
      exact List.nodup_nil
  · exact fun s l s' hs hstep => hs.step (step_dispatch hstep)

/-! ### Workers know of their jobs -/

/-- Somebody is about to unpark the thread. -/
def Alerted (s : Pool) (i : ℕ) : Prop := ∃ job : ℕ, s.calls[job]? = some (Call.pushed i)

/-- A thread that has jobs and is about to park, or has parked, has a token or will get one. The
worker that a call has chosen is there. -/
structure Prompt (s : Pool) : Prop where
  token : ∀ (i : ℕ) w, s.workers[i]? = some w → w.queue ≠ [] →
    w.phase = .parking ∨ w.phase = .parked → w.token = true ∨ s.Alerted i
  chosen : ∀ (job : ℕ) (c : Call) (idx : ℕ), s.calls[job]? = some c → c.worker = some idx →
    idx < s.workers.length

theorem set_cases {α : Type} {xs : List α} {i j : ℕ} {x y : α} (h : (xs.set i x)[j]? = some y) :
    (j = i ∧ y = x) ∨ (j ≠ i ∧ xs[j]? = some y) := by
  by_cases hj : j = i
  · subst hj
    rw [List.getElem?_set] at h
    split at h
    · split at h
      · exact .inl ⟨rfl, (Option.some.inj h).symm⟩
      · cases h
    · exact absurd rfl ‹_›
  · rw [List.getElem?_set_ne (Ne.symm hj)] at h
    exact .inr ⟨hj, h⟩

/-- The call of another worker goes on. -/
theorem Alerted.set {i job : ℕ} {c : Call} {workers : List Worker} {next : ℕ} (h : s.Alerted i)
    (hc : s.calls[job]? = some c) (hne : c ≠ .pushed i) (c' : Call) :
    Alerted { s with workers, next, calls := s.calls.set job c' } i := by
  obtain ⟨job', hjob'⟩ := h
  refine ⟨job', ?_⟩
  rw [List.getElem?_set_ne]
  · exact hjob'
  · rintro rfl
    rw [hjob'] at hc
    exact hne (Option.some.inj hc).symm

/-- A call is added, which has chosen a worker that is there. -/
theorem Prompt.spawn {c : Call} (h : s.Prompt)
    (hidx : ∀ idx, c.worker = some idx → idx < s.workers.length) :
    Prompt { s with calls := s.calls ++ [c] } := by
  refine ⟨fun i w hw hjobs hphase => ?_, fun job c' idx hc' hworker => ?_⟩
  · rcases h.token i w hw hjobs hphase with htoken | ⟨job, hjob⟩
    · exact .inl htoken
    · have hlt := (List.getElem?_eq_some_iff.mp hjob).1
      exact .inr ⟨job, (List.getElem?_append_left hlt).trans hjob⟩
  · by_cases hlt : job < s.calls.length
    · exact h.chosen job c' idx ((List.getElem?_append_left hlt).symm.trans hc') hworker
    · have hmem := (List.getElem?_append_right (Nat.le_of_not_lt hlt)).symm.trans hc'
      rw [List.mem_singleton.mp (List.mem_of_getElem? hmem)] at hworker
      exact hidx idx hworker

/-- A call goes on, and a worker with it. -/
theorem Prompt.call {job : ℕ} {c c' : Call} {workers : List Worker} {next : ℕ} (h : s.Prompt)
    (hc : s.calls[job]? = some c) (hworker : c'.worker = c.worker)
    (hlen : workers.length = s.workers.length)
    (htoken : ∀ (i : ℕ) w, workers[i]? = some w →
      w.token = true ∨ c' = .pushed i ∨ (s.workers[i]? = some w ∧ c ≠ .pushed i)) :
    Prompt { s with workers, next, calls := s.calls.set job c' } := by
  refine ⟨fun i w hw hjobs hphase => ?_, fun job' c₁ idx hc₁ hidx => ?_⟩
  · rcases htoken i w hw with htrue | rfl | ⟨hold, hne⟩
    · exact .inl htrue
    · have hlt := (List.getElem?_eq_some_iff.mp hc).1
      exact .inr ⟨job, List.getElem?_set_self hlt⟩
    · rcases h.token i w hold hjobs hphase with htrue | halerted
      · exact .inl htrue
      · exact .inr (halerted.set hc hne c')
  · show idx < workers.length
    rw [hlen]
    rcases set_cases hc₁ with ⟨-, rfl⟩ | ⟨-, hc₁⟩
    · exact h.chosen job c idx hc (hworker ▸ hidx)
    · exact h.chosen job' c₁ idx hc₁ hidx

/-- A thread goes on, and has looked at its queue since. -/
theorem Prompt.worker {i : ℕ} {w : Worker} {started : List ℕ} (h : s.Prompt)
    (htoken : w.queue ≠ [] → w.phase = .parking ∨ w.phase = .parked →
      w.token = true ∨ s.Alerted i) :
    Prompt { s with workers := s.workers.set i w, started } := by
  refine ⟨fun j v hv hjobs hphase => ?_, fun job c idx hc hidx => ?_⟩
  · rcases set_cases hv with ⟨rfl, rfl⟩ | ⟨-, hv⟩
    · exact htoken hjobs hphase
    · exact h.token j v hv hjobs hphase
  · rw [List.length_set]
    exact h.chosen job c idx hc hidx

theorem step_prompt (h : s.Prompt) (hstep : s.step l = some s') : s'.Prompt := by
  cases step_cases hstep with
  | refuse _ => exact h.spawn nofun
  | choose hlen =>
    refine h.spawn ?_
    rintro idx ⟨⟩
    exact Nat.mod_lt _ (Nat.pos_of_ne_zero hlen)
  | count hcall => exact h.call hcall rfl rfl fun i w hw => .inr (.inr ⟨hw, nofun⟩)
  | push hcall hw =>
    refine h.call hcall rfl List.length_set fun i v hv => ?_
    rcases set_cases hv with ⟨rfl, rfl⟩ | ⟨-, hv⟩
    · exact .inr (.inl rfl)
    · exact .inr (.inr ⟨hv, nofun⟩)
  | unpark hcall hw =>
    refine h.call hcall rfl List.length_set fun i v hv => ?_
    rcases set_cases hv with ⟨rfl, rfl⟩ | ⟨hne, hv⟩
    · exact .inl rfl
    · refine .inr (.inr ⟨hv, ?_⟩)
      rintro ⟨⟩
      exact hne rfl
  | pop hw hphase hqueue => exact h.worker fun _ hphase => hphase.elim nofun nofun
  | @move l i panics w w' _ _ hw hmove =>
    refine h.worker fun hjobs hphase => ?_
    cases hmove with
    | idle _ hempty => exact absurd hempty hjobs
    | returned _ => exact hphase.elim nofun nofun
    | panicked _ => exact hphase.elim nofun nofun
    | pass _ _ => exact hphase.elim nofun nofun
    | park hparking _ => exact h.token i w hw hjobs (.inl hparking)
    | wake _ _ => exact hphase.elim nofun nofun
    | spurious _ => exact hphase.elim nofun nofun

theorem prompt_of_reachable (h : machine.Reachable s) : s.Prompt := by
  refine h.invariant (I := Prompt) ?_ fun s l s' hs hstep => step_prompt hs hstep
  rintro s ⟨var, parallelism, -, rfl⟩
  refine ⟨fun i w hw hjobs _ => ?_, nofun⟩
  rw [List.eq_of_mem_replicate (List.mem_of_getElem? hw)] at hjobs
  exact absurd rfl hjobs

/-! ### Jobs are started -/

end Pool

/-- How many steps a thread is away from its next pop. -/
def Phase.turns : Phase → ℕ
  | .popping => 0
  | .running _ => 1
  | .parking => 2
  | .parked => 1
  | .terminated => 0

theorem Worker.Moves.turns {w w' : Worker} {panics : Bool} (h : w.Moves panics w')
    (hjobs : w.queue ≠ []) : w'.phase.turns < w.phase.turns := by
  cases h with
  | idle _ hempty => exact absurd hempty hjobs
  | returned hphase =>
    rw [hphase]
    exact Nat.zero_lt_one
  | panicked hphase =>
    rw [hphase]
    exact Nat.zero_lt_one
  | pass hphase _ =>
    rw [hphase]
    exact Nat.zero_lt_two
  | park hphase _ =>
    rw [hphase]
    exact Nat.one_lt_two
  | wake hphase _ =>
    rw [hphase]
    exact Nat.zero_lt_one
  | spurious hphase =>
    rw [hphase]
    exact Nat.zero_lt_one

namespace Pool

variable {s s' s₀ t : Pool} {l : Label} {ls : List Label}

/-- A job waits for a worker, which pops it after at most `m` steps. -/
def Waits (s : Pool) (i job m : ℕ) : Prop := ∃ w before rest, s.workers[i]? = some w ∧
  w.queue = before ++ job :: rest ∧ 2 * before.length + w.phase.turns = m

theorem step_started {job : ℕ} (h : s.step l = some s') (hjob : job ∈ s.started) :
    job ∈ s'.started := by
  cases step_cases h with
  | refuse _ => exact hjob
  | choose _ => exact hjob
  | count _ => exact hjob
  | push _ _ => exact hjob
  | unpark _ _ => exact hjob
  | pop _ _ _ => exact List.mem_append_left _ hjob
  | move _ _ _ _ => exact hjob

/-- A step of another thread, or of a call: the worker may get a token or another job. -/
theorem Waits.set {i j job m : ℕ} {v : Worker} {calls : List Call} {started : List ℕ}
    (h : s.Waits i job m) (hv : s.workers[j]? = some v) (v' : Worker)
    (hqueue : j = i → ∃ more, v'.queue = v.queue ++ more) (hphase : j = i → v'.phase = v.phase) :
    Waits { s with workers := s.workers.set j v', calls, started } i job m := by
  obtain ⟨w, before, rest, hw, hsplit, hm⟩ := h
  by_cases hj : j = i
  · subst hj
    rw [hw] at hv
    cases hv
    obtain ⟨more, hmore⟩ := hqueue rfl
    refine ⟨v', before, rest ++ more, ?_, ?_, ?_⟩
    · exact List.getElem?_set_self (List.getElem?_eq_some_iff.mp hw).1
    · rw [hmore, hsplit, List.append_assoc, List.cons_append]
    · rw [hphase rfl, hm]
  · refine ⟨w, before, rest, ?_, hsplit, hm⟩
    exact (List.getElem?_set_ne hj).trans hw

/-- **One step.** If the worker takes it, the job is closer to being started. -/
theorem step_waits {i job m : ℕ} (h : s.step l = some s') (hwaits : s.Waits i job m) :
    job ∈ s'.started ∨ ∃ m', s'.Waits i job m' ∧ m' + (if l.worker = some i then 1 else 0) ≤ m := by
  cases step_cases h with
  | refuse _ => exact .inr ⟨m, hwaits, Nat.le_refl m⟩
  | choose _ => exact .inr ⟨m, hwaits, Nat.le_refl m⟩
  | count _ => exact .inr ⟨m, hwaits, Nat.le_refl m⟩
  | push _ hw =>
    exact .inr ⟨m, hwaits.set hw _ (fun _ => ⟨_, rfl⟩) (fun _ => rfl), Nat.le_refl m⟩
  | unpark _ hw =>
    refine .inr ⟨m, hwaits.set hw _ (fun _ => ⟨[], ?_⟩) (fun _ => rfl), Nat.le_refl m⟩
    exact (List.append_nil _).symm
  | @pop j job' queue v hv hphase hqueue =>
    by_cases hj : j = i
    · subst hj
      obtain ⟨w, before, rest, hw, hsplit, hm⟩ := hwaits
      rw [hv] at hw
      cases hw
      cases before with
      | nil =>
        rw [hqueue] at hsplit
        cases hsplit
        exact .inl (by simp)
      | cons b before =>
        rw [hqueue] at hsplit
        cases hsplit
        have hself := List.getElem?_set_self (a := { v with
          queue := before ++ job :: rest, phase := .running job' })
          (List.getElem?_eq_some_iff.mp hv).1
        refine .inr ⟨2 * before.length + 1, ⟨_, before, rest, hself, rfl, rfl⟩, ?_⟩
        rw [hphase, List.length_cons] at hm
        have hturns : Phase.turns .popping = 0 := rfl
        simp only [Label.worker, if_true]
        omega
    · refine .inr ⟨m, hwaits.set hv _ (absurd · hj) (absurd · hj), ?_⟩
      simp [Label.worker, hj]
  | @move l j panics v v' hl _ hv hmove =>
    by_cases hj : j = i
    · subst hj
      obtain ⟨w, before, rest, hw, hsplit, hm⟩ := hwaits
      rw [hv] at hw
      cases hw
      have hturns := hmove.turns (by simp [hsplit])
      refine .inr ⟨2 * before.length + v'.phase.turns, ⟨v', before, rest, ?_, ?_, rfl⟩, ?_⟩
      · exact List.getElem?_set_self (List.getElem?_eq_some_iff.mp hv).1
      · rw [hmove.queue, hsplit]
      · rw [if_pos hl]
        omega
    · refine .inr ⟨m, hwaits.set hv _ (absurd · hj) (absurd · hj), ?_⟩
      rw [hl]
      simp [hj]

/-- A run: every step of the worker brings the job closer to being started. -/
theorem run_waits {i job m : ℕ} (hrun : machine.Run s ls t) (hwaits : s.Waits i job m) :
    job ∈ t.started ∨
      ∃ m', t.Waits i job m' ∧ m' + ls.countP (fun l => l.worker = some i) ≤ m := by
  induction hrun with
  | nil => exact .inr ⟨m, hwaits, Nat.le_refl m⟩
  | snoc _ hstep ih =>
    rcases ih with hstarted | ⟨m', hwaits', hle⟩
    · exact .inl (step_started hstep hstarted)
    · rcases step_waits hstep hwaits' with hstarted | ⟨m'', hwaits'', hle'⟩
      · exact .inl hstarted
      · refine .inr ⟨m'', hwaits'', ?_⟩
        rw [List.countP_append, List.countP_singleton]
        simp only [decide_eq_true_eq]
        omega

/-- **A queued job is started** when its worker takes two steps for each job before it, and three
more. -/
theorem started_of_scheduled {i job : ℕ} {w : Worker} {before rest : List ℕ}
    (hw : s.workers[i]? = some w) (hqueue : w.queue = before ++ job :: rest)
    (hrun : machine.Run s ls t)
    (hsteps : 2 * before.length + 3 ≤ ls.countP (fun l => l.worker = some i)) :
    job ∈ t.started := by
  rcases run_waits hrun ⟨w, before, rest, hw, hqueue, rfl⟩ with hstarted | ⟨m, -, hle⟩
  · exact hstarted
  · have hturns : w.phase.turns ≤ 2 := by cases w.phase <;> simp [Phase.turns]
    omega

/-! ### As long as no job panics -/

/-- The pool is as it should be: no job is lost, and none waits for nothing. -/
structure Served (s : Pool) : Prop where
  once : s.started.Nodup
  /-- A job that was given to a worker was started, or is in its queue. -/
  kept : ∀ job i, s.target job = some i → job ∈ s.started ∨ job ∈ s.queue i
  /-- A job is not both in a queue and started. -/
  waiting : ∀ i job, job ∈ s.queue i → job ∉ s.started
  /-- A worker with jobs goes on: its thread has not terminated, and if it has parked, it has a
  token or will get one. -/
  awake : ∀ (i : ℕ) w, s.workers[i]? = some w → w.queue ≠ [] →
    w.phase ≠ .terminated ∧ (w.phase = .parked → w.token = true ∨ s.Alerted i)
  /-- Calls have chosen workers that are there. -/
  chosen : ∀ (job : ℕ) (c : Call), s.calls[job]? = some c →
    ∃ idx, c.worker = some idx ∧ idx < s.workers.length

/-- There is a worker, no thread has terminated, and no call has panicked. -/
structure Healthy (s : Pool) : Prop where
  workers : s.workers.length ≠ 0
  threads : ∀ (i : ℕ) w, s.workers[i]? = some w → w.phase ≠ .terminated
  calls : ∀ c ∈ s.calls, c ≠ .failed

theorem Healthy.served (h : s.Healthy) (hs : machine.Reachable s) : s.Served := by
  have hsound := sound_of_reachable hs
  have hprompt := prompt_of_reachable hs
  refine ⟨hsound.once, hsound.kept, fun i job hmem hstarted => ?_, fun i w hw hjobs => ?_,
    fun job c hc => ?_⟩
  · exact (hsound.gone job hstarted).2 i hmem
  · exact ⟨h.threads i w hw, fun hparked => hprompt.token i w hw hjobs (.inr hparked)⟩
  · cases c with
    | chosen idx => exact ⟨idx, rfl, hprompt.chosen job _ idx hc rfl⟩
    | counted idx => exact ⟨idx, rfl, hprompt.chosen job _ idx hc rfl⟩
    | pushed idx => exact ⟨idx, rfl, hprompt.chosen job _ idx hc rfl⟩
    | returned idx => exact ⟨idx, rfl, hprompt.chosen job _ idx hc rfl⟩
    | failed => exact absurd rfl (h.calls _ (List.mem_of_getElem? hc))

theorem Healthy.worker {i : ℕ} {w : Worker} (h : s.Healthy) (hw : w.phase ≠ .terminated) :
    ∀ (j : ℕ) v, (s.workers.set i w)[j]? = some v → v.phase ≠ .terminated := by
  intro j v hv
  rcases set_cases hv with ⟨-, rfl⟩ | ⟨-, hv⟩
  · exact hw
  · exact h.threads j v hv

theorem Healthy.call {job : ℕ} {c : Call} (h : s.Healthy) (hc : c ≠ .failed) :
    ∀ c' ∈ s.calls.set job c, c' ≠ .failed := by
  intro c' hmem
  rcases List.mem_or_eq_of_mem_set hmem with hmem | rfl
  · exact h.calls c' hmem
  · exact hc

theorem step_healthy (h : s.Healthy) (hl : ¬ l.Panics) (hstep : s.step l = some s') :
    s'.Healthy := by
  have hlen : ∀ i w, (s.workers.set i w).length ≠ 0 := by
    intro i w
    rw [List.length_set]
    exact h.workers
  cases step_cases hstep with
  | refuse hempty => exact absurd hempty h.workers
  | choose _ =>
    refine ⟨h.workers, h.threads, fun c hmem => ?_⟩
    rcases List.mem_append.mp hmem with hmem | hmem
    · exact h.calls c hmem
    · rw [List.mem_singleton.mp hmem]
      exact nofun
  | count _ => exact ⟨h.workers, h.threads, h.call nofun⟩
  | push _ hw =>
    have hthread := h.threads _ _ hw
    exact ⟨hlen _ _, h.worker hthread, h.call nofun⟩
  | unpark _ hw =>
    have hthread := h.threads _ _ hw
    exact ⟨hlen _ _, h.worker hthread, h.call nofun⟩
  | pop _ _ _ => exact ⟨hlen _ _, h.worker nofun, h.calls⟩
  | move _ hpanics _ hmove =>
    refine ⟨hlen _ _, h.worker ?_, h.calls⟩
    cases hmove with
    | idle _ _ => exact nofun
    | returned _ => exact nofun
    | panicked _ => exact absurd (hpanics.mp rfl) hl
    | pass _ _ => exact nofun
    | park _ _ => exact nofun
    | wake _ _ => exact nofun
    | spurious _ => exact nofun

theorem run_healthy (h : s.Healthy) (hrun : machine.Run s ls t) (hls : ∀ l ∈ ls, ¬ l.Panics) :
    t.Healthy := by
  induction hrun with
  | nil => exact h
  | snoc _ hstep ih =>
    refine step_healthy (ih fun l hmem => hls l (List.mem_append_left _ hmem)) ?_ hstep
    exact hls _ (by simp)

/-! ### When a job has panicked -/

/-- A thread has terminated, and its queue is nobody's. -/
def Terminated (s : Pool) (i : ℕ) : Prop := ∃ w, s.workers[i]? = some w ∧ w.phase = .terminated

theorem step_length (h : s.step l = some s') : s'.workers.length = s.workers.length := by
  cases step_cases h with
  | refuse _ => rfl
  | choose _ => rfl
  | count _ => rfl
  | push _ _ => exact List.length_set
  | unpark _ _ => exact List.length_set
  | pop _ _ _ => exact List.length_set
  | move _ _ _ _ => exact List.length_set

/-- It takes no more steps, and stays terminated. -/
theorem step_terminated {i : ℕ} (h : s.Terminated i) (hstep : s.step l = some s') :
    s'.Terminated i := by
  have hset : ∀ {j : ℕ} {v v' : Worker} {calls : List Call} {started : List ℕ},
      s.workers[j]? = some v → (v.phase = .terminated → v'.phase = .terminated) →
      Terminated { s with workers := s.workers.set j v', calls, started } i := by
    intro j v v' calls started hv hphase
    obtain ⟨w, hw, hterminated⟩ := h
    by_cases hj : j = i
    · subst hj
      rw [hw] at hv
      cases hv
      exact ⟨v', List.getElem?_set_self (List.getElem?_eq_some_iff.mp hw).1, hphase hterminated⟩
    · exact ⟨w, (List.getElem?_set_ne hj).trans hw, hterminated⟩
  cases step_cases hstep with
  | refuse _ => exact h
  | choose _ => exact h
  | count _ => exact h
  | push _ hw => exact hset hw id
  | unpark _ hw => exact hset hw id
  | pop hw hphase _ =>
    refine hset hw fun hterminated => ?_
    rw [hphase] at hterminated
    cases hterminated
  | move _ _ hw hmove =>
    exact hset hw fun hterminated => absurd hterminated hmove.alive

/-- A panic terminates a thread, whichever job it was. -/
theorem step_panics (hl : l.Panics) (hstep : s.step l = some s') : ∃ i, s'.Terminated i := by
  obtain ⟨i, rfl⟩ := hl
  cases step_cases hstep with
  | move _ hpanics hw hmove =>
    have htrue := hpanics.mpr ⟨i, rfl⟩
    subst htrue
    cases hmove with
    | panicked _ =>
      exact ⟨_, _, List.getElem?_set_self (List.getElem?_eq_some_iff.mp hw).1, rfl⟩

/-- In a run, no job has panicked, or a thread has terminated. -/
theorem healthy_or_terminated (h : s.Healthy) (hrun : machine.Run s ls t) :
    ((∀ l ∈ ls, ¬ l.Panics) ∧ t.Healthy) ∨
      ((∃ l ∈ ls, l.Panics) ∧ t.workers.length ≠ 0 ∧ ∃ i, t.Terminated i) := by
  induction hrun with
  | nil => exact .inl ⟨nofun, h⟩
  | @snoc ls t u l _ hstep ih =>
    rcases ih with ⟨hls, hhealthy⟩ | ⟨⟨l', hmem, hl'⟩, hlen, i, hterminated⟩
    · by_cases hl : l.Panics
      · refine .inr ⟨⟨l, by simp, hl⟩, ?_, step_panics hl hstep⟩
        rw [step_length hstep]
        exact hhealthy.workers
      · refine .inl ⟨fun l' hmem => ?_, step_healthy hhealthy hl hstep⟩
        rcases List.mem_append.mp hmem with hmem | hmem
        · exact hls l' hmem
        · rw [List.mem_singleton.mp hmem]
          exact hl
    · refine .inr ⟨⟨l', List.mem_append_left _ hmem, hl'⟩, ?_, i, step_terminated hterminated hstep⟩
      rw [step_length hstep]
      exact hlen

theorem step_count {job idx : ℕ} (hcall : s.calls[job]? = some (.chosen idx)) :
    s.step (.count job) =
      some { s with next := idx + 1, calls := s.calls.set job (.counted idx) } := by
  simp only [step, hcall]

theorem step_push {job idx : ℕ} {w : Worker} (hcall : s.calls[job]? = some (.counted idx))
    (hw : s.workers[idx]? = some w) :
    s.step (.push job) = some { s with
      workers := s.workers.set idx { w with queue := w.queue ++ [job] }
      calls := s.calls.set job (.pushed idx) } := by
  simp only [step, hcall, onWorker, hw, Option.bind_eq_bind, Option.bind_some]
  rfl

/-- A call chooses the next worker in turn, and updates the counter. -/
theorem run_spawn (hlen : s.workers.length ≠ 0) : ∃ t, machine.Run s
    [.spawn, .count s.calls.length] t ∧ t.workers = s.workers ∧
    t.next = s.next % s.workers.length + 1 ∧
    t.calls[s.calls.length]? = some (Call.counted (s.next % s.workers.length)) := by
  have hspawn : s.step .spawn = some { s with
      calls := s.calls ++ [.chosen (s.next % s.workers.length)] } := if_neg hlen
  have hcall : (s.calls ++ [Call.chosen (s.next % s.workers.length)])[s.calls.length]? =
      some (.chosen (s.next % s.workers.length)) := List.getElem?_concat_length
  have hcount := step_count (s := { s with
    calls := s.calls ++ [.chosen (s.next % s.workers.length)] }) hcall
  refine ⟨_, .cons hspawn (.cons hcount .nil), rfl, rfl, ?_⟩
  exact List.getElem?_set_self (List.getElem?_eq_some_iff.mp hcall).1

/-- **A worker whose thread has terminated is given another job**, when its turn comes. -/
theorem strands {i d : ℕ} (hlen : s.workers.length ≠ 0) (hterminated : s.Terminated i)
    (hturn : (s.next + d) % s.workers.length = i) :
    ∃ ls t, machine.Run s ls t ∧ (∀ l ∈ ls, ¬ l.Panics) ∧ ¬ t.Served := by
  induction d generalizing s with
  | zero =>
    obtain ⟨t, hrun, hworkers, -, hcall⟩ := run_spawn hlen
    obtain ⟨w, hw, hphase⟩ := hterminated
    rw [← hworkers] at hw
    rw [Nat.add_zero] at hturn
    rw [hturn] at hcall
    refine ⟨_, _, hrun.snoc (step_push hcall hw), ?_, fun hserved => ?_⟩
    · rintro l hmem ⟨j, rfl⟩
      simp at hmem
    · have hlt := (List.getElem?_eq_some_iff.mp hw).1
      exact (hserved.awake i _ (List.getElem?_set_self hlt) (by simp)).1 hphase
  | succ d ih =>
    obtain ⟨t, hrun, hworkers, hnext, -⟩ := run_spawn hlen
    have hturn' : (t.next + d) % t.workers.length = i := by
      rw [hworkers, hnext, Nat.add_assoc, Nat.mod_add_mod, Nat.add_comm 1 d, hturn]
    have hterminated' : t.Terminated i := by
      rw [Terminated, hworkers]
      exact hterminated
    obtain ⟨ls, u, hrest, hls, hserved⟩ := ih (hworkers ▸ hlen) hterminated' hturn'
    refine ⟨_, u, hrun.append hrest, fun l hmem => ?_, hserved⟩
    rcases List.mem_append.mp hmem with hmem | hmem
    · rintro ⟨j, rfl⟩
      simp at hmem
    · exact hls l hmem

/-- Every worker's turn comes, after so many further calls. -/
theorem turn_of_lt {i : ℕ} (hi : i < s.workers.length) :
    ∃ d, (s.next + d) % s.workers.length = i := by
  have hmod := Nat.mod_lt s.next (Nat.zero_lt_of_lt hi)
  have hdiv := Nat.div_add_mod s.next s.workers.length
  refine ⟨i + (s.workers.length - s.next % s.workers.length), ?_⟩
  have hsum : s.next + (i + (s.workers.length - s.next % s.workers.length)) =
      i + s.workers.length * (s.next / s.workers.length + 1) := by
    rw [Nat.mul_add, Nat.mul_one]
    omega
  rw [hsum, Nat.add_mul_mod_self_left, Nat.mod_eq_of_lt hi]

theorem run_length (hrun : machine.Run s ls t) : t.workers.length = s.workers.length := by
  induction hrun with
  | nil => rfl
  | snoc _ hstep ih => exact (step_length hstep).trans ih

/-- Without a worker, `spawn` panics, as the turn is taken modulo zero. -/
theorem spawn_fails (hlen : s.workers.length = 0) :
    ∃ t, machine.Run s [.spawn] t ∧ ¬ t.Served := by
  have hspawn : s.step .spawn = some { s with calls := s.calls ++ [.failed] } := if_pos hlen
  refine ⟨_, Machine.Run.nil.snoc hspawn, fun hserved => ?_⟩
  obtain ⟨idx, hworker, -⟩ := hserved.chosen s.calls.length .failed List.getElem?_concat_length
  cases hworker

theorem healthy_of_init (hinit : machine.init s) (hlen : s.workers.length ≠ 0) : s.Healthy := by
  obtain ⟨var, parallelism, -, rfl⟩ := hinit
  refine ⟨hlen, fun i w hw => ?_, nofun⟩
  rw [List.eq_of_mem_replicate (List.mem_of_getElem? hw)]
  exact nofun

/-- **The blocking pool runs every job.** From the end of a run on, as long as no further job
panics: jobs are started once, a job that was given to a worker was started or is in its queue, a
worker with jobs has not terminated, and if it has parked it has a token or will get one, and no
call has panicked; if and only if there is a worker, and no job has panicked in that run. A job in a
queue is started when its worker takes two steps for each job before it, and three more. -/
theorem served_iff (hinit : machine.init s₀) (hrun : machine.Run s₀ ls s) :
    ((s₀.workers.length ≠ 0 ∧ ∀ l ∈ ls, ¬ l.Panics) ↔
      ∀ ls' t, machine.Run s ls' t → (∀ l ∈ ls', ¬ l.Panics) → t.Served) ∧
    ∀ (i : ℕ) w before job rest ls' t, s.workers[i]? = some w → w.queue = before ++ job :: rest →
      machine.Run s ls' t → 2 * before.length + 3 ≤ ls'.countP (fun l => l.worker = some i) →
      job ∈ t.started := by
  refine ⟨⟨?_, fun h => ?_⟩, fun i w before job rest ls' t => started_of_scheduled⟩
  · rintro ⟨hlen, hls⟩ ls' t hrun' hls'
    have hhealthy := run_healthy (healthy_of_init hinit hlen) hrun hls
    exact (run_healthy hhealthy hrun' hls').served
      (((Machine.Reachable.of_init hinit).run hrun).run hrun')
  · by_cases hlen : s₀.workers.length = 0
    · obtain ⟨t, hrun', hnot⟩ := spawn_fails ((run_length hrun).trans hlen)
      refine absurd (h _ t hrun' ?_) hnot
      rintro l hmem ⟨i, rfl⟩
      simp at hmem
    · rcases healthy_or_terminated (healthy_of_init hinit hlen) hrun with
        ⟨hls, -⟩ | ⟨-, hlen', i, hterminated⟩
      · exact ⟨hlen, hls⟩
      · obtain ⟨w, hw, -⟩ := id hterminated
        obtain ⟨d, hturn⟩ := turn_of_lt (List.getElem?_eq_some_iff.mp hw).1
        obtain ⟨ls', t, hrun', hls', hnot⟩ := strands hlen' hterminated hturn
        exact absurd (h ls' t hrun' hls') hnot

/-- One thread, which has parked when a job is pushed. -/
theorem served_iff_parked : ∃ s, machine.Run (new 1)
    [.spawn, .count 0, .pop 0, .park 0, .push 0] s ∧ s.Served := by
  have hinit : machine.init (new 1) := ⟨some 1, none, nofun, rfl⟩
  have hrun : machine.Run (new 1) [.spawn, .count 0, .pop 0, .park 0, .push 0] _ :=
    Machine.Run.of_follow rfl
  refine ⟨_, hrun, (served_iff hinit hrun).1.mp ⟨nofun, ?_⟩ [] _ .nil nofun⟩
  rintro l hmem ⟨i, rfl⟩
  simp at hmem

/-- One thread: the first job panics, and the second one is given to the same thread. -/
theorem not_served : ¬ ∀ s : Pool, machine.Reachable s → s.Served := by
  intro h
  obtain ⟨s, hfollow, hworkers⟩ : ∃ s, Machine.follow step [.spawn, .count 0, .push 0, .unpark 0,
      .pop 0, .panicked 0, .spawn, .count 1, .push 1, .unpark 1] (new 1) = some s ∧
      s.workers = [⟨[1], .terminated, true⟩] := ⟨_, rfl, rfl⟩
  have hstart : machine.Reachable (new 1) := .of_init ⟨some 1, none, nofun, rfl⟩
  have hw : s.workers[0]? = some ⟨[1], .terminated, true⟩ := by
    rw [hworkers]
    rfl
  exact ((h s (hstart.follow hfollow)).awake 0 _ hw nofun).1 rfl

end Pool

end Lion.Blocking
