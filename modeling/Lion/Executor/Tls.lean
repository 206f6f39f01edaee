import Lion.Executor.Ledger

/-!
# Thread-locals of the executor

`tls` of `lion-executor`: the queues that wakers push task ids to, the queue of tasks that yielded,
the flags that keep an id from being pushed twice, and the id of the running task. Wakers called on
the executor's thread write here, and the executor takes the queues over when it drains them.

The flag of an id is set by the first push and cleared when the id is polled; while it is set,
further pushes do nothing. The id of a `block_on` root, `u64::MAX`, has no flag and is pushed every
time. Yielding does not look at the flags.

## One push, two queues

The two ready queues are pushed to in the same way, and the modules that follow do not care which
one it is. `pushReady` takes the source as an argument, and `Pushed` says everything about what a
push makes of the thread-locals: the queue, the flag, and that the rest is left alone. Whatever is
proved later about wakers is proved from `Pushed`, without looking at the vector of flags again.

## Conventions

The thread-locals are a record that functions take and return. That they belong to a thread and not
to an executor shows in `Executor.new`, which takes them over as it finds them.

## Main results

* `isNotified_setNotified`, `isNotified_clearNotified` — the flags as a set of ids
* `pushed_pushReady` — a push appends the id, or finds its flag set and does nothing
-/

namespace Lion

/-- `WakeSource`: on whose behalf a waker is called, which decides the queue that it pushes to. -/
inductive WakeSource
  /-- The reactor, on behalf of a resource. -/
  | reactor
  /-- A task, or anybody else who has a waker of the task. -/
  | task
deriving DecidableEq, Repr

/-- The id under which a `block_on` root is polled. -/
def rootId : TaskId := 0xFFFFFFFFFFFFFFFF

/-- The thread-locals of a thread that runs executors: `REACTOR_READY_QUEUE`, `TASK_READY_QUEUE`,
`DEFER_QUEUE`, `CURRENT_TASK`, `TASK_NOTIFIED` and `BLOCK_ON_YIELDED`, in this order. -/
structure Tls where
  reactorReady : List TaskId
  taskReady : List TaskId
  deferred : List TaskId
  currentTask : Option TaskId
  notified : List Bool
  blockOnYielded : Bool
deriving DecidableEq, Repr

namespace Tls

/-- The thread-locals of a new thread, with nothing queued and no task running. -/
def new : Tls where
  reactorReady := []
  taskReady := []
  deferred := []
  currentTask := none
  notified := []
  blockOnYielded := false

/-- `set_notified`: whether the id is to be pushed. -/
def setNotified (tls : Tls) (id : TaskId) : Bool × Tls :=
  if id = rootId then (true, tls)
  else
    let v := tls.notified ++ List.replicate (id.toNat + 1 - tls.notified.length) false
    let tls := { tls with notified := v }
    if v[id.toNat]?.getD false then (false, tls)
    else (true, { tls with notified := v.set id.toNat true })

/-- `clear_notified`: unset the flag of an id, if there is one. -/
def clearNotified (tls : Tls) (id : TaskId) : Tls :=
  { tls with notified := tls.notified.set id.toNat false }

/-- `push_reactor_ready`: append the id to the reactor-ready queue, unless its flag is set. -/
def pushReactorReady (tls : Tls) (id : TaskId) : Tls :=
  match tls.setNotified id with
  | (true, tls) => { tls with reactorReady := tls.reactorReady ++ [id] }
  | (false, tls) => tls

/-- `push_task_ready`: append the id to the task-ready queue, unless its flag is set. -/
def pushTaskReady (tls : Tls) (id : TaskId) : Tls :=
  match tls.setNotified id with
  | (true, tls) => { tls with taskReady := tls.taskReady ++ [id] }
  | (false, tls) => tls

/-- `push_deferred`: append the id to the deferred queue, whether or not it is there already. -/
def pushDeferred (tls : Tls) (id : TaskId) : Tls :=
  { tls with deferred := tls.deferred ++ [id] }

/-- `defer_current`: the running task yields; `none` is its panic outside of a task. -/
def deferCurrent (tls : Tls) : Option Tls :=
  tls.currentTask.map fun id =>
    let tls := if id = rootId then { tls with blockOnYielded := true } else tls
    tls.pushDeferred id

/-- `take_reactor_ready`: take the queue, and leave an empty one. -/
def takeReactorReady (tls : Tls) : List TaskId × Tls :=
  (tls.reactorReady, { tls with reactorReady := [] })

/-- `take_task_ready`: take the queue, and leave an empty one. -/
def takeTaskReady (tls : Tls) : List TaskId × Tls :=
  (tls.taskReady, { tls with taskReady := [] })

/-- `take_deferred`: take the queue, and leave an empty one. -/
def takeDeferred (tls : Tls) : List TaskId × Tls :=
  (tls.deferred, { tls with deferred := [] })

/-- `take_block_on_yielded`: whether a root has yielded since this was asked last. -/
def takeBlockOnYielded (tls : Tls) : Bool × Tls :=
  (tls.blockOnYielded, { tls with blockOnYielded := false })

/-- `ExecutorWaker`, without what it needs on other threads. -/
structure ExecutorWaker where
  taskId : TaskId
  source : WakeSource
  defer : Bool
deriving DecidableEq, Repr

/-- `ExecutorWaker::wake_impl` on the executor's own thread, where it writes to the
thread-locals. -/
def wakeImpl (tls : Tls) (waker : ExecutorWaker) : Tls :=
  if waker.defer then tls.pushDeferred waker.taskId
  else
    match waker.source with
    | .reactor => tls.pushReactorReady waker.taskId
    | .task => tls.pushTaskReady waker.taskId

/-! ### Flags -/

/-- The flag of `id` is set. Ids beyond the vector have none. -/
def isNotified (tls : Tls) (id : TaskId) : Bool := tls.notified[id.toNat]?.getD false

/-- The push is suppressed exactly if the flag is set. -/
theorem setNotified_fst (tls : Tls) (id : TaskId) :
    (tls.setNotified id).1 = (decide (id = rootId) || !tls.isNotified id) := by
  rw [setNotified]
  by_cases hroot : id = rootId
  · simp [hroot]
  · rw [if_neg hroot]
    dsimp only
    rw [TidLedger.getD_append_replicate]
    cases hset : tls.notified[id.toNat]?.getD false <;> simp [hroot, isNotified, hset]

/-- Setting a flag sets no other, and the root has none to set. -/
theorem isNotified_setNotified (tls : Tls) (id t : TaskId) :
    (tls.setNotified id).2.isNotified t =
      (tls.isNotified t || (decide (t = id) && decide (id ≠ rootId))) := by
  rw [setNotified]
  by_cases hroot : id = rootId
  · simp [hroot]
  · rw [if_neg hroot]
    dsimp only
    rw [TidLedger.getD_append_replicate]
    cases hset : tls.notified[id.toNat]?.getD false with
    | true =>
      rw [if_pos rfl, isNotified]
      dsimp only
      rw [TidLedger.getD_append_replicate]
      by_cases ht : t = id
      · subst ht
        simp [isNotified, hset]
      · simp [ht, isNotified]
    | false =>
      rw [if_neg (by simp), isNotified]
      dsimp only
      rw [List.getElem?_set]
      by_cases ht : t = id
      · subst ht
        rw [if_pos rfl, if_pos (by simp; omega)]
        simp [hroot]
      · have hne : id.toNat ≠ t.toNat := fun e => ht (UInt64.toNat_inj.mp e.symm)
        rw [if_neg hne, TidLedger.getD_append_replicate]
        simp [ht, isNotified]

theorem isNotified_clearNotified (tls : Tls) (id t : TaskId) :
    (tls.clearNotified id).isNotified t = (tls.isNotified t && decide (t ≠ id)) := by
  rw [isNotified, clearNotified]
  dsimp only
  rw [List.getElem?_set, isNotified]
  by_cases ht : t = id
  · subst ht
    rw [if_pos rfl]
    split <;> simp
  · have hne : id.toNat ≠ t.toNat := fun e => ht (UInt64.toNat_inj.mp e.symm)
    rw [if_neg hne]
    simp [ht]

/-- The queues and the running task are not `set_notified`'s business. -/
theorem setNotified_frame (tls : Tls) (id : TaskId) :
    ∃ v, (tls.setNotified id).2 = { tls with notified := v } := by
  rw [setNotified]
  by_cases hroot : id = rootId
  · rw [if_pos hroot]
    exact ⟨tls.notified, rfl⟩
  · rw [if_neg hroot]
    dsimp only
    split
    · exact ⟨_, rfl⟩
    · exact ⟨_, rfl⟩

/-! ### Pushing -/

/-- The queue a source pushes to, out of the two. -/
def ready (tls : Tls) : WakeSource → List TaskId
  | .reactor => tls.reactorReady
  | .task => tls.taskReady

/-- `push_reactor_ready` or `push_task_ready`, according to the source. -/
def pushReady (tls : Tls) : WakeSource → TaskId → Tls
  | .reactor, id => tls.pushReactorReady id
  | .task, id => tls.pushTaskReady id

/-- `w` is what a push of `id` for `source` makes of `tls`. -/
structure Pushed (tls : Tls) (source : WakeSource) (id : TaskId) (w : Tls) : Prop where
  /-- The id is appended to its queue, unless its flag is set. -/
  ready_eq : w.ready source =
    if id ≠ rootId ∧ tls.isNotified id = true then tls.ready source else tls.ready source ++ [id]
  other_eq : ∀ source', source' ≠ source → w.ready source' = tls.ready source'
  /-- The flag is set, unless the id is a root's. -/
  flag_eq : ∀ t, w.isNotified t = (tls.isNotified t || (decide (t = id) && decide (id ≠ rootId)))
  deferred_eq : w.deferred = tls.deferred
  current_eq : w.currentTask = tls.currentTask
  yielded_eq : w.blockOnYielded = tls.blockOnYielded

/-- **Pushing.** This is all there is to know about a push, of whatever id and for whatever
source. -/
theorem pushed_pushReady (tls : Tls) (source : WakeSource) (id : TaskId) :
    Pushed tls source id (tls.pushReady source id) := by
  have hfst := setNotified_fst tls id
  have hflag := isNotified_setNotified tls id
  obtain ⟨v, hv⟩ := setNotified_frame tls id
  obtain ⟨b, tls', heq⟩ : ∃ b tls', tls.setNotified id = (b, tls') := ⟨_, _, rfl⟩
  rw [heq] at hfst hflag hv
  dsimp only at hfst hflag hv
  subst hv
  have hcond : (id ≠ rootId ∧ tls.isNotified id = true) ↔ b = false := by
    rw [hfst]
    simp
  cases source with
  | reactor =>
    simp only [pushReady, pushReactorReady, heq]
    cases b with
    | true =>
      refine ⟨by simp [hcond, ready], fun source' hne => ?_, hflag, rfl, rfl, rfl⟩
      cases source' with
      | reactor => exact absurd rfl hne
      | task => rfl
    | false => exact ⟨by simp [hcond, ready], fun _ _ => rfl, hflag, rfl, rfl, rfl⟩
  | task =>
    simp only [pushReady, pushTaskReady, heq]
    cases b with
    | true =>
      refine ⟨by simp [hcond, ready], fun source' hne => ?_, hflag, rfl, rfl, rfl⟩
      cases source' with
      | reactor => rfl
      | task => exact absurd rfl hne
    | false => exact ⟨by simp [hcond, ready], fun _ _ => rfl, hflag, rfl, rfl, rfl⟩

/-- A push takes nothing out of a queue. -/
theorem Pushed.mem_ready {tls w : Tls} {source : WakeSource} {id t : TaskId}
    (h : Pushed tls source id w) {source' : WakeSource} (ht : t ∈ tls.ready source') :
    t ∈ w.ready source' := by
  by_cases hs : source' = source
  · subst hs
    rw [h.ready_eq]
    split
    · exact ht
    · exact List.mem_append_left _ ht
  · rw [h.other_eq _ hs]
    exact ht

end Tls

end Lion
