import Lion.Executor.Wakeups

/-!
# How often an id is queued

Wakes are deduplicated by the flag; yields are not, and do not look at the flag. So a task that
yields twice in one poll is in the deferred queue twice, and one that is woken and yields is queued
once for each. Every one of the copies is polled, and may make copies again.

This file says when that does not happen. An id is *settled* while it has been polled and was
neither woken nor yielded since; runs that push an unfinished task only while it is settled have
every such task queued at most once, and the first step that does otherwise queues one twice.

## Counting copies

`copies` counts the occurrences of an id in all the queues there are, and `Step.copies` is the one
lemma about it: an act adds one copy of what it pushes and removes one of what it takes. Everything
else is about when a push is made. The condition (`Executor.Spares`) is on the state before the act,
and on the history that `Executor` keeps for it, as the queues alone do not say whether an id that
is in one of them was pushed because it was woken.

A wake whose flag is set pushes nothing and so makes no copy; that is the deduplication the source
has. The condition leaves it alone, and excludes only pushes that are made.

## Main results

* `Executor.Step.copies` — how an act changes the number of copies of an id
* `State.restrict_spares_once` — the runs in which copies do not arise
* `State.not_once` — a run in which one does
-/

namespace Lion

/-- The task that an event accepts, if it accepts one. -/
def ExecutorEvent.accepted : ExecutorEvent → Option Task
  | .popInjection raw => raw
  | _ => none

/-- The id that an event finishes, which is that of a poll that returned ready. -/
def ExecutorEvent.finished : ExecutorEvent → Option TaskId
  | .pollTask id _ .ready => some id
  | _ => none

/-- The act takes a task from the injection queue. -/
def Act.accepts : Act → Bool
  | .popInjection _ => true
  | _ => false

namespace Executor

variable {e e' : Executor} {act : Act} {t : TaskId}

/-- How often `t` is queued, in the four queues of the thread together. -/
def copies (e : Executor) (t : TaskId) : ℕ :=
  e.localQueue.count t + e.tls.reactorReady.count t + e.tls.taskReady.count t +
    e.tls.deferred.count t

/-- `t` was accepted and has not returned ready. -/
def Live (e : Executor) (t : TaskId) : Prop :=
  e.Accepted t ∧ ∀ task, .pollTask t task .ready ∉ e.log

/-- No unfinished task is queued twice, in one queue or in two. -/
def Once (e : Executor) : Prop := ∀ t, e.Live t → e.copies t ≤ 1

/-- `t` has been polled, and since then was neither woken nor yielded. -/
def Settled (e : Executor) (t : TaskId) : Prop :=
  t ∈ e.history.polled ∧ t ∉ e.history.woken ∧ t ∉ e.history.yielded

/-- The id that an act appends to a queue. -/
def pushes (e : Executor) : Act → Option TaskId
  | .wake _ id | .receive id => if (e.tls.setNotified id).1 then some id else none
  | .yield => e.tls.currentTask
  | .popInjection (some task) => if e.ledger.contains task.id then none else some task.id
  | .popInjection none | .drainReactor | .drainTask | .drainDeferred | .beginPoll | .endPoll _ =>
    none
  | .decide _ _ | .tickBegin | .tickEnd | .setCurrent _ => none

/-- The id that an act takes from the local queue. -/
def takes (e : Executor) : Act → Option TaskId
  | .beginPoll => e.localQueue.head?
  | _ => none

/-- An accepted task is pushed only while it is in no other queue, and another only while it is
settled or done. -/
def Spares (e : Executor) (act : Act) : Prop :=
  ∀ t ∈ e.pushes act,
    if act.accepts then t ∉ e.tls.reactorReady ∧ t ∉ e.tls.taskReady ∧ t ∉ e.tls.deferred
    else e.Live t → e.Settled t

instance : Decidable (e.Accepted t) :=
  decidable_of_iff (∃ ev ∈ e.log, ∃ task ∈ ev.accepted, task.id = t) <| by
    constructor
    · rintro ⟨ev, hmem, task, htask, hid⟩
      cases ev with
      | popInjection raw =>
        cases htask
        exact ⟨task, hmem, hid⟩
      | _ => cases htask
    · rintro ⟨task, hmem, hid⟩
      exact ⟨_, hmem, task, rfl, hid⟩

instance : Decidable (e.Live t) :=
  decidable_of_iff (e.Accepted t ∧ ∀ ev ∈ e.log, ev.finished ≠ some t) <| by
    refine and_congr_right fun _ => ⟨fun h task hmem => h _ hmem rfl, fun h ev hmem hfin => ?_⟩
    cases ev with
    | pollTask id task result =>
      cases result with
      | ready =>
        cases hfin
        exact h task hmem
      | _ => cases hfin
    | _ => cases hfin

instance : Decidable (e.Settled t) := inferInstanceAs (Decidable (_ ∧ _))

-- `∀ t ∈ e.pushes act` must not be decided by going through all ids
instance : Decidable (e.Spares act) :=
  decidable_of_iff ((e.pushes act).all fun t => decide <|
      if act.accepts then t ∉ e.tls.reactorReady ∧ t ∉ e.tls.taskReady ∧ t ∉ e.tls.deferred
      else e.Live t → e.Settled t) <| by
    rw [Spares]
    cases e.pushes act with
    | none => simp
    | some t =>
      rw [Option.all_some, decide_eq_true_iff]
      exact ⟨fun h t' ht => Option.some.inj ht ▸ h, fun h => h t rfl⟩

theorem copies_eq_zero : e.copies t = 0 ↔ ¬ e.Queued t ∧ ¬ e.Deferred t := by
  simp only [copies, Nat.add_eq_zero_iff, List.count_eq_zero, Queued, Deferred]
  tauto

/-! ### Copies -/

theorem copies_wake (e : Executor) (source : WakeSource) (id t : TaskId) :
    (e.wake source id).copies t =
      e.copies t + if (e.tls.setNotified id).1 = true ∧ id = t then 1 else 0 := by
  have hp := Tls.pushed_pushReady e.tls source id
  rw [← wake_tls] at hp
  have hfst : (e.tls.setNotified id).1 = true ↔ ¬ (id ≠ rootId ∧ e.tls.isNotified id = true) := by
    rw [Tls.setNotified_fst]
    by_cases hroot : id = rootId <;> simp [hroot]
  have hcount : ((e.wake source id).tls.ready source).count t =
      (e.tls.ready source).count t +
        if (e.tls.setNotified id).1 = true ∧ id = t then 1 else 0 := by
    rw [hp.ready_eq]
    by_cases hset : id ≠ rootId ∧ e.tls.isNotified id = true
    · rw [if_pos hset, if_neg (fun h => hfst.mp h.1 hset), Nat.add_zero]
    · rw [if_neg hset, hfst.mpr hset]
      simp [List.count_append, List.count_singleton]
  have hlocal : (e.wake source id).localQueue = e.localQueue := rfl
  rw [copies, copies, hp.deferred_eq, hlocal]
  cases source with
  | reactor =>
    have hother := hp.other_eq .task (by decide)
    simp only [Tls.ready] at hcount hother
    rw [hcount, hother]
    omega
  | task =>
    have hother := hp.other_eq .reactor (by decide)
    simp only [Tls.ready] at hcount hother
    rw [hcount, hother]
    omega

/-- A drain moves the ids that the ledger holds. -/
theorem count_drain (ht : e.ledger.contains t = true) (ids : List TaskId) :
    (e.localQueue ++ ids.filter e.ledger.contains).count t =
      e.localQueue.count t + ids.count t := by
  rw [List.count_append, List.count_filter ht]

theorem copies_takeHead {id : TaskId} {rest : List TaskId} (hq : e.localQueue = id :: rest) :
    (e.takeHead id rest).copies t + (if id = t then 1 else 0) = e.copies t := by
  simp only [copies, takeHead, hq, Tls.clearNotified, List.count_cons, beq_iff_eq]
  omega

/-- **Copies.** An act adds one copy of what it pushes and removes one of what it takes. -/
theorem Step.copies (h : Step e act e') (ht : e'.ledger.contains t = true) :
    e'.copies t + (if e.takes act = some t then 1 else 0) =
      e.copies t + (if e.pushes act = some t then 1 else 0) := by
  cases h with
  | wake source id =>
    rw [copies_wake]
    by_cases hset : (e.tls.setNotified id).1 = true <;> simp [takes, pushes, hset]
  | receive id =>
    have hwake := copies_wake e .task id t
    rw [show e.receiveCrossThread id = e.wake .task id from rfl, hwake]
    by_cases hset : (e.tls.setNotified id).1 = true <;> simp [takes, pushes, hset]
  | yield heq =>
    obtain ⟨id, hid, rfl⟩ := deferCurrent_cases heq
    simp [takes, pushes, hid, Executor.copies, List.count_singleton]
    omega
  | drainReactor =>
    simp only [takes, pushes, reduceCtorEq, if_false, Nat.add_zero]
    have hcount := count_drain (e := e) ht e.tls.reactorReady
    show (e.localQueue ++ e.tls.reactorReady.filter e.ledger.contains).count t + 0 +
      e.tls.taskReady.count t + e.tls.deferred.count t = _
    rw [hcount, Executor.copies]
    omega
  | drainTask =>
    simp only [takes, pushes, reduceCtorEq, if_false, Nat.add_zero]
    have hcount := count_drain (e := e) ht e.tls.taskReady
    show (e.localQueue ++ e.tls.taskReady.filter e.ledger.contains).count t +
      e.tls.reactorReady.count t + 0 + e.tls.deferred.count t = _
    rw [hcount, Executor.copies]
    omega
  | drainDeferred =>
    simp only [takes, pushes, reduceCtorEq, if_false, Nat.add_zero]
    have hcount := count_drain (e := e) ht e.tls.deferred
    show (e.localQueue ++ e.tls.deferred.filter e.ledger.contains).count t +
      e.tls.reactorReady.count t + e.tls.taskReady.count t + 0 = _
    rw [hcount, Executor.copies]
    omega
  | popInjection raw =>
    rcases e.popInjection_cases raw with ⟨hold, heq⟩ | ⟨task, rfl, hnew, heq⟩
    · have hpushes : e.pushes (.popInjection raw) = none := by
        cases raw with
        | none => rfl
        | some task => simp [pushes, hold task rfl]
      rw [heq, hpushes]
      rfl
    · rw [heq]
      simp [takes, pushes, hnew, Executor.copies, List.count_singleton]
      omega
  | @beginPoll id rest hrun hq =>
    have hhead := copies_takeHead (t := t) hq
    have htakes : e.takes .beginPoll = some id := by simp [takes, hq]
    rw [htakes]
    rcases e.beginPoll_cases id rest with ⟨task, -, heq⟩ | ⟨-, heq⟩
    · rw [heq]
      simpa [pushes, Executor.copies] using hhead
    · rw [heq]
      simpa [pushes, Executor.copies] using hhead
  | endPoll ready hrun => cases ready <;> rfl
  | decide hd hr => rfl
  | tickBegin => rfl
  | tickEnd => rfl
  | setCurrent id => rfl

/-! ### History and log -/

/-- An id that an act does not take is settled afterwards only if it was before and the act does not
push it, other than by accepting it. -/
theorem Step.settled (h : Step e act e') (ht : e.takes act ≠ some t) (hs : e'.Settled t) :
    e.Settled t ∧ (e.pushes act = some t → ∃ raw, act = .popInjection raw) := by
  obtain ⟨hpolled, hwoken, hyielded⟩ := hs
  cases h with
  | wake source id =>
    have hne : id ≠ t := fun heq => hwoken (by simp [Executor.wake, heq])
    refine ⟨⟨hpolled, fun hw => hwoken (List.mem_cons_of_mem _ hw), hyielded⟩, fun hp => ?_⟩
    simp [pushes, hne] at hp
  | receive id =>
    have hne : id ≠ t := fun heq => hwoken (by simp [receiveCrossThread, heq])
    refine ⟨⟨hpolled, fun hw => hwoken (List.mem_cons_of_mem _ hw), hyielded⟩, fun hp => ?_⟩
    simp [pushes, hne] at hp
  | yield heq =>
    obtain ⟨id, hid, rfl⟩ := deferCurrent_cases heq
    have hne : id ≠ t := fun heq => hyielded (by simp [heq])
    refine ⟨⟨hpolled, hwoken, fun hy => hyielded (List.mem_cons_of_mem _ hy)⟩, fun hp => ?_⟩
    simp [pushes, hid, hne] at hp
  | popInjection raw =>
    refine ⟨?_, fun _ => ⟨raw, rfl⟩⟩
    rcases e.popInjection_cases raw with ⟨-, heq⟩ | ⟨task, -, -, heq⟩
    · rw [heq] at hpolled hwoken hyielded
      exact ⟨hpolled, hwoken, hyielded⟩
    · rw [heq] at hpolled hwoken hyielded
      exact ⟨hpolled, hwoken, hyielded⟩
  | @beginPoll id rest hrun hq =>
    have hne : t ≠ id := fun heq => ht (by simp [takes, hq, heq])
    refine ⟨?_, fun hp => by cases hp⟩
    rcases e.beginPoll_cases id rest with ⟨task, -, heq⟩ | ⟨-, heq⟩
    · rw [heq] at hpolled hwoken hyielded
      simpa [takeHead, hne, Settled] using And.intro hpolled (And.intro hwoken hyielded)
    · rw [heq] at hpolled hwoken hyielded
      simpa [takeHead, hne, Settled] using And.intro hpolled (And.intro hwoken hyielded)
  | endPoll ready hrun =>
    cases ready with
    | false => exact ⟨⟨hpolled, hwoken, hyielded⟩, fun hp => by cases hp⟩
    | true => exact ⟨⟨hpolled, hwoken, hyielded⟩, fun hp => by cases hp⟩
  | _ => exact ⟨⟨hpolled, hwoken, hyielded⟩, fun hp => by cases hp⟩

/-- What has been logged stays logged, as logs only grow. -/
theorem Step.mem_log (h : Step e act e') {ev : ExecutorEvent} (hev : ev ∈ e.log) : ev ∈ e'.log := by
  cases h with
  | yield heq =>
    obtain ⟨id, -, rfl⟩ := deferCurrent_cases heq
    exact hev
  | wake source id => exact hev
  | receive id => exact hev
  | setCurrent id => exact hev
  | popInjection raw =>
    rcases e.popInjection_cases raw with ⟨-, heq⟩ | ⟨task, -, -, heq⟩
    · rw [heq]
      exact List.mem_append_left _ hev
    · rw [heq]
      exact List.mem_append_left _ hev
  | @beginPoll id rest hrun hq =>
    rcases e.beginPoll_cases id rest with ⟨task, -, heq⟩ | ⟨-, heq⟩
    · rw [heq]
      exact hev
    · rw [heq]
      exact List.mem_append_left _ hev
  | endPoll ready hrun => cases ready <;> exact List.mem_append_left _ hev
  | _ => exact List.mem_append_left _ hev

/-- A live task was live before, or has just been accepted. -/
theorem Step.live (h : Step e act e') (hlive : e'.Live t) :
    e.Live t ∨ ∃ task, act = .popInjection (some task) ∧ task.id = t ∧
      e.ledger.contains t = false := by
  obtain ⟨⟨task, hmem, hid⟩, hdone⟩ := hlive
  have hdone' : ∀ task, .pollTask t task .ready ∉ e.log :=
    fun task hmem => hdone task (h.mem_log hmem)
  rcases h.accepts with ⟨task', hact, hnew, rfl⟩ | ⟨-, hlog⟩
  · rcases List.mem_append.mp hmem with hmem | hmem
    · exact .inl ⟨⟨task, hmem, hid⟩, hdone'⟩
    · rw [List.mem_singleton] at hmem
      cases hmem
      subst hid
      exact .inr ⟨task, hact, rfl, hnew⟩
  · exact .inl ⟨⟨task, (hlog task).mp hmem, hid⟩, hdone'⟩

/-- Only accepted ids are queued and polled, and one that was never polled is queued. -/
structure Known (e : Executor) : Prop where
  queue : ∀ t ∈ e.localQueue, e.ledger.contains t = true
  polled : ∀ t ∈ e.history.polled, e.ledger.contains t = true
  running : ∀ r, e.running = some r → e.ledger.contains r.1 = true
  logged : ∀ t task result, .pollTask t task result ∈ e.log → e.ledger.contains t = true
  /-- An accepted id stays queued until it is polled. -/
  unpolled : ∀ t, e.ledger.contains t = true → t ∉ e.history.polled → t ∈ e.localQueue

theorem known_new (n : ℕ) (tls : Tls) : Known (.new n tls) := by
  constructor <;> simp [Executor.new, TidLedger.contains_new]

/-- An act that takes, accepts and logs no poll. -/
theorem Known.congr (h : Known e) (hledger : e'.ledger = e.ledger)
    (hq : ∀ t ∈ e'.localQueue, t ∈ e.localQueue ∨ e.ledger.contains t = true)
    (hq' : ∀ t ∈ e.localQueue, t ∈ e'.localQueue) (hpolled : e'.history.polled = e.history.polled)
    (hrun : ∀ r, e'.running = some r → e.running = some r)
    (hlog : ∀ t task result, .pollTask t task result ∈ e'.log → e.ledger.contains t = true) :
    Known e' := by
  constructor
  · intro t ht
    rw [hledger]
    exact (hq t ht).elim (h.queue t) id
  · rw [hledger, hpolled]
    exact h.polled
  · intro r hr
    rw [hledger]
    exact h.running r (hrun r hr)
  · rw [hledger]
    exact hlog
  · intro t
    rw [hledger, hpolled]
    exact fun ht hp => hq' t (h.unpolled t ht hp)

/-- Logging an event about an accepted id. -/
theorem Known.logged_snoc (h : Known e) {ev : ExecutorEvent}
    (hev : ∀ t task result, ev = .pollTask t task result → e.ledger.contains t = true)
    (t task result) :
    .pollTask t task result ∈ e.log ++ [ev] → e.ledger.contains t = true := by
  intro hmem
  rcases List.mem_append.mp hmem with hmem | hmem
  · exact h.logged t task result hmem
  · exact hev t task result (List.mem_singleton.mp hmem).symm

theorem Known.drain (h : Known e) {ids : List TaskId} {tls : Tls} {source : DrainSource} :
    Known { e with
      tls := tls
      localQueue := e.localQueue ++ ids.filter e.ledger.contains
      log := e.log ++ [.drain source (ids.filter e.ledger.contains)] } := by
  refine h.congr rfl ?_ ?_ rfl (fun _ => id) (h.logged_snoc (by simp))
  · intro t ht
    exact (List.mem_append.mp ht).imp_right fun hmem => (List.mem_filter.mp hmem).2
  · intro t ht
    exact List.mem_append_left _ ht

theorem Known.accept (h : Known e) {task : Task} {slab : Slab Task} :
    Known { e with
      ledger := e.ledger.mark task.id
      log := e.log ++ [.popInjection (some task)]
      taskSlab := slab
      localQueue := e.localQueue ++ [task.id] } := by
  have hmark : ∀ t, e.ledger.contains t = true → (e.ledger.mark task.id).contains t = true := by
    intro t ht
    rw [TidLedger.contains_mark, ht, Bool.true_or]
  constructor
  · intro t ht
    rcases List.mem_append.mp ht with ht | ht
    · exact hmark t (h.queue t ht)
    · rw [List.mem_singleton.mp ht]
      exact TidLedger.contains_mark_self _ _
  · exact fun t ht => hmark t (h.polled t ht)
  · exact fun r hr => hmark _ (h.running r hr)
  · exact fun t task result hmem => hmark t (h.logged_snoc (by simp) t task result hmem)
  · intro t ht hp
    rw [TidLedger.contains_mark, Bool.or_eq_true, decide_eq_true_iff] at ht
    rcases ht with ht | rfl
    · exact List.mem_append_left _ (h.unpolled t ht hp)
    · exact List.mem_append_right _ (List.mem_singleton_self _)

theorem Known.takeHead (h : Known e) {id : TaskId} {rest : List TaskId}
    (hq : e.localQueue = id :: rest) : Known (e.takeHead id rest) := by
  have hid : e.ledger.contains id = true := h.queue id (by simp [hq])
  constructor
  · exact fun t ht => h.queue t (by rw [hq]; exact List.mem_cons_of_mem _ ht)
  · intro t ht
    rcases List.mem_cons.mp ht with rfl | ht
    · exact hid
    · exact h.polled t ht
  · exact h.running
  · exact h.logged
  · intro t ht hp
    rw [Executor.takeHead, List.mem_cons, not_or] at hp
    have hmem := h.unpolled t ht hp.2
    rw [hq] at hmem
    exact (List.mem_cons.mp hmem).resolve_left hp.1

theorem Known.beginPoll (h : Known e) {id : TaskId} {rest : List TaskId}
    (hq : e.localQueue = id :: rest) : Known (e.beginPoll id rest) := by
  have hid : e.ledger.contains id = true := h.queue id (by simp [hq])
  have hhead := h.takeHead hq
  rcases e.beginPoll_cases id rest with ⟨task, -, heq⟩ | ⟨-, heq⟩
  · rw [heq]
    refine ⟨hhead.queue, hhead.polled, ?_, hhead.logged, hhead.unpolled⟩
    rintro _ ⟨⟩
    exact hid
  · rw [heq]
    refine ⟨hhead.queue, hhead.polled, hhead.running, h.logged_snoc ?_, hhead.unpolled⟩
    rintro _ _ _ ⟨⟩
    exact hid

theorem Known.endPoll (h : Known e) {id : TaskId} {task : Task} (ready : Bool)
    (hrun : e.running = some (id, task)) : Known (e.endPoll id task ready) := by
  have hid := h.running _ hrun
  cases ready with
  | false =>
    refine h.congr rfl (fun _ => .inl) (fun _ ht => ht) rfl (by simp [Executor.endPoll, record]) ?_
    refine h.logged_snoc ?_
    rintro _ _ _ ⟨⟩
    exact hid
  | true =>
    refine h.congr rfl (fun _ => .inl) (fun _ ht => ht) rfl (by simp [Executor.endPoll, record]) ?_
    refine h.logged_snoc ?_
    rintro _ _ _ ⟨⟩
    exact hid

theorem Known.step (h : Known e) (hstep : Step e act e') : Known e' := by
  cases hstep with
  | wake source i => exact h.congr rfl (fun _ => .inl) (fun _ => id) rfl (fun _ => id) h.logged
  | receive i => exact h.congr rfl (fun _ => .inl) (fun _ => id) rfl (fun _ => id) h.logged
  | yield heq =>
    obtain ⟨i, -, rfl⟩ := deferCurrent_cases heq
    exact h.congr rfl (fun _ => .inl) (fun _ => id) rfl (fun _ => id) h.logged
  | drainReactor => exact h.drain
  | drainTask => exact h.drain
  | drainDeferred => exact h.drain
  | popInjection raw =>
    rcases e.popInjection_cases raw with ⟨-, heq⟩ | ⟨task, -, -, heq⟩
    · rw [heq]
      exact h.congr rfl (fun _ => .inl) (fun _ => id) rfl (fun _ => id) (h.logged_snoc (by simp))
    · rw [heq]
      exact h.accept
  | beginPoll hrun hq => exact h.beginPoll hq
  | endPoll ready hrun => exact h.endPoll ready hrun
  | decide hd hr =>
    exact h.congr rfl (fun _ => .inl) (fun _ => id) rfl (fun _ => id) (h.logged_snoc (by simp))
  | tickBegin =>
    exact h.congr rfl (fun _ => .inl) (fun _ => id) rfl (fun _ => id) (h.logged_snoc (by simp))
  | tickEnd =>
    exact h.congr rfl (fun _ => .inl) (fun _ => id) rfl (fun _ => id) (h.logged_snoc (by simp))
  | setCurrent i => exact h.congr rfl (fun _ => .inl) (fun _ => id) rfl (fun _ => id) h.logged

/-! ### Sparing runs -/

/-- What holds besides in runs without copies: a settled task is not queued at all. -/
def Sparse (e : Executor) : Prop :=
  ∀ t, e.Live t → e.copies t ≤ 1 ∧ (e.Settled t → e.copies t = 0)

theorem sparse_new (n : ℕ) (tls : Tls) : Sparse (.new n tls) := by
  rintro t ⟨⟨task, hmem, -⟩, -⟩
  cases hmem

/-- An act that takes an id pushes none, so that the two can be counted apart. -/
theorem pushes_of_takes (h : e.takes act = some t) : e.pushes act = none := by
  cases act with
  | beginPoll => rfl
  | _ => cases h

/-- What is accepted was not in the ledger, and so had no copies. -/
theorem contains_of_pushes {raw : Option Task} (h : e.pushes (.popInjection raw) = some t) :
    e.ledger.contains t = false := by
  cases raw with
  | none => cases h
  | some task =>
    simp only [pushes] at h
    split at h
    · cases h
    · rename_i hnew
      cases h
      exact Bool.eq_false_iff.mpr hnew

/-- One sparing step, which keeps settled tasks out of all queues. -/
theorem Sparse.step (h : Sparse e) (hk : Known e) (hl : LedgerOk e) (hstep : Step e act e')
    (hspares : e.Spares act) : Sparse e' := by
  intro t hlive'
  have hcopies := hstep.copies ((hl.step hstep t).mpr hlive'.1)
  rcases hstep.live hlive' with hlive | ⟨task, rfl, rfl, hnew⟩
  · obtain ⟨hle, hzero⟩ := h t hlive
    have hold : ∀ raw, act = .popInjection raw → e.pushes act ≠ some t := by
      rintro raw rfl hp
      have hnew := contains_of_pushes hp
      rw [(hl t).mpr hlive.1] at hnew
      cases hnew
    have hpush : e.pushes act = some t → e.copies t = 0 := by
      intro hp
      have hsettled := hspares t hp
      split at hsettled
      · rename_i hacc
        cases act with
        | popInjection raw => exact absurd hp (hold raw rfl)
        | _ => cases hacc
      · exact hzero (hsettled hlive)
    by_cases htake : e.takes act = some t
    · rw [if_pos htake, pushes_of_takes htake, if_neg (by simp)] at hcopies
      exact ⟨by omega, fun _ => by omega⟩
    · rw [if_neg htake] at hcopies
      constructor
      · split at hcopies
        · rename_i hp
          have := hpush hp
          omega
        · omega
      · intro hs
        obtain ⟨hs, hpop⟩ := hstep.settled htake hs
        have hp : e.pushes act ≠ some t := by
          intro hp
          obtain ⟨raw, hraw⟩ := hpop hp
          exact hold raw hraw hp
        rw [if_neg hp, hzero hs] at hcopies
        exact hcopies
  · -- the task was just accepted: it has not been polled, and was in no queue
    have hp : e.pushes (.popInjection (some task)) = some task.id := by simp [pushes, hnew]
    obtain ⟨hreactor, htask, hdeferred⟩ := hspares task.id hp
    have hlocal : task.id ∉ e.localQueue := by
      intro hmem
      rw [hk.queue _ hmem] at hnew
      cases hnew
    have hzero : e.copies task.id = 0 := by
      simp [Executor.copies, List.count_eq_zero.mpr, hlocal, hreactor, htask, hdeferred]
    rw [hp, hzero, if_pos rfl] at hcopies
    refine ⟨by omega, fun hs => ?_⟩
    have hpolled := (hstep.settled (by simp [takes]) hs).1.1
    rw [hk.polled _ hpolled] at hnew
    cases hnew

/-- A step that queues no unfinished task twice is sparing. -/
theorem spares_of_once (hk : Known e) (hkept : AllKept e) (hl : LedgerOk e)
    (hstep : Step e act e') (hone : e'.Once) : e.Spares act := by
  intro t hp
  rw [Option.mem_def] at hp
  have htake : e.takes act ≠ some t := by
    intro htake
    rw [pushes_of_takes htake] at hp
    cases hp
  -- the copy that the step adds is the only one
  have hzero : e'.Live t → ¬ e.Queued t ∧ ¬ e.Deferred t := by
    intro hlive
    have hcopies := hstep.copies ((hl.step hstep t).mpr hlive.1)
    rw [if_neg htake, if_pos hp] at hcopies
    have hle := hone t hlive
    exact copies_eq_zero.mp (by omega)
  have hsettled : e.Live t → e'.Live t → e.Settled t := by
    intro hlive hlive'
    obtain ⟨hqueued, hdeferred⟩ := hzero hlive'
    have ht := (hl t).mpr hlive.1
    refine ⟨?_, fun hw => hqueued ((hkept t ht).woken hw),
      fun hy => hdeferred ((hkept t ht).yielded hy)⟩
    by_contra hpolled
    exact hqueued (.inr (.inr (hk.unpolled t ht hpolled)))
  cases hstep with
  | wake source id => exact fun hlive => hsettled hlive hlive
  | receive id => exact fun hlive => hsettled hlive hlive
  | yield heq =>
    obtain ⟨id, -, rfl⟩ := deferCurrent_cases heq
    exact fun hlive => hsettled hlive hlive
  | popInjection raw =>
    have hnew := contains_of_pushes hp
    rcases e.popInjection_cases raw with ⟨hold, heq⟩ | ⟨task, rfl, -, heq⟩
    · cases raw with
      | none => cases hp
      | some task => simp [pushes, hold task rfl] at hp
    · simp only [pushes] at hp
      split at hp
      · cases hp
      · cases hp
        rw [heq] at hzero
        have hlive : Live { e with
            ledger := e.ledger.mark task.id
            log := e.log ++ [.popInjection (some task)]
            taskSlab := e.taskSlab.insert task.id task
            localQueue := e.localQueue ++ [task.id] } task.id := by
          refine ⟨⟨task, by simp, rfl⟩, fun task' hmem => ?_⟩
          have hc := hk.logged_snoc (by simp) _ _ _ hmem
          rw [hnew] at hc
          cases hc
        obtain ⟨hqueued, hdeferred⟩ := hzero hlive
        exact ⟨fun h => hqueued (.inl h), fun h => hqueued (.inr (.inl h)),
          fun h => hdeferred (.inl h)⟩
  | _ => cases hp

end Executor

namespace State

variable {s : State}

theorem known_of_reachable (h : machine.Reachable s) : s.exec.Known :=
  reachable_exec h Executor.known_new fun _ _ _ he hstep => he.step hstep

/-- The step is sparing, whichever act it performs. -/
def Spares (s : State) (l : Label) : Prop := ∀ a ∈ s.act l, s.exec.Spares a

instance (s : State) (l : Label) : Decidable (s.Spares l) :=
  inferInstanceAs (Decidable (∀ a ∈ s.act l, _))

theorem sparse_of_restrict (h : (machine.restrict Spares).Reachable s) : s.exec.Sparse := by
  suffices machine.Reachable s ∧ s.exec.Sparse from this.2
  refine h.invariant (I := fun s => machine.Reachable s ∧ s.exec.Sparse) ?_ ?_
  · rintro s hinit
    refine ⟨.of_init hinit, ?_⟩
    obtain ⟨n, tls, -, -, rfl⟩ := hinit
    exact Executor.sparse_new n tls
  · rintro s l s' ⟨hreach, hs⟩ ⟨hstep, hspares⟩
    refine ⟨hreach.step hstep, ?_⟩
    have hperf := (step_act (pcOk_of_reachable hreach) hstep).2
    cases hact : s.act l with
    | none =>
      rw [hact] at hperf
      exact hperf ▸ hs
    | some a =>
      rw [hact] at hperf
      exact hs.step (known_of_reachable hreach) (contains_iff_accepted hreach) hperf
        (hspares a hact)

/-- **Copies.** In every run whose steps are all sparing, no unfinished task is queued twice, in any
state on the way; and the first step that is not sparing queues one twice. -/
theorem restrict_spares_once (h : (machine.restrict Spares).Reachable s) :
    s.exec.Once ∧ ∀ l s', s.step l = some s' → (s'.exec.Once ↔ s.Spares l) := by
  have hreach := h.of_restrict
  refine ⟨fun t ht => (sparse_of_restrict h t ht).1, fun l s' hstep => ⟨fun hone a hact => ?_, ?_⟩⟩
  · have hperf := (step_act (pcOk_of_reachable hreach) hstep).2
    rw [hact] at hperf
    exact Executor.spares_of_once (known_of_reachable hreach) (allKept_of_reachable hreach)
      (contains_iff_accepted hreach) hperf hone
  · intro hspares t ht
    exact (sparse_of_restrict (h.step ⟨hstep, hspares⟩) t ht).1

/-- A task that yields once in its first poll, and is woken in its second. -/
theorem restrict_spares_once_yield_wake : ∃ s, (machine.restrict Spares).Reachable s ∧
    s.exec.Live 1 ∧ s.exec.copies 1 = 1 ∧ s.exec.Once ∧
    ∀ l s', s.step l = some s' → (s'.exec.Once ↔ s.Spares l) := by
  have hstart : (machine.restrict Spares).Reachable (new 1 .new) :=
    .of_init ⟨1, .new, by decide, rfl, rfl⟩
  obtain ⟨s, hfollow, hlive, hcopies⟩ : ∃ s,
      Machine.follow (fun s l => if s.Spares l then s.step l else none)
        [.spawn false 0, .call 0, .blockOn, .exec, .futureReturns false, .exec, .exec, .exec, .exec,
          .exec, .yield, .futureReturns false, .exec, .exec, .exec, .osReturns false, .exec, .exec,
          .exec, .exec, .exec, .futureReturns false, .exec, .exec, .exec, .exec, .wake .task 1]
        (new 1 .new) = some s ∧ s.exec.Live 1 ∧ s.exec.copies 1 = 1 :=
    ⟨_, rfl, by decide, by decide⟩
  have hreach := hstart.follow_restrict hfollow
  exact ⟨s, hreach, hlive, hcopies, restrict_spares_once hreach⟩

/-- A task that yields twice in one poll is queued twice. -/
theorem not_once : ¬ ∀ s, machine.Reachable s → s.exec.Once := by
  intro hall
  have hstart : machine.Reachable (new 61 .new) :=
    .of_init ⟨61, .new, by decide, rfl, rfl⟩
  obtain ⟨s, hfollow, hlive, hcopies⟩ : ∃ s, Machine.follow step
      [.spawn false 0, .call 0, .blockOn, .exec, .futureReturns false, .exec, .exec, .exec, .exec,
        .exec, .yield, .yield] (new 61 .new) = some s ∧ s.exec.Live 1 ∧ s.exec.copies 1 = 2 :=
    ⟨_, rfl, by decide, by decide⟩
  have hle := hall s (hstart.follow hfollow) 1 hlive
  omega

end State

end Lion
