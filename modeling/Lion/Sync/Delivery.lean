import Lion.Sync.WaitList
import Mathlib.Data.List.Nodup

/-!
# What signals, polls and cancellations do

The table and the futures agree (`WaitList.Ok`): the entries are those of the queued ids in the same
order, each belonging to a future that parked under that id and has not been delivered to, and what
was queued or delivered to is, in order, part of what parked. A semaphore that was closed has no
entries left, and the ids still queued are nobody's.

Given that, each operation has few cases. They are listed once here, by `load_cases`, `lock_cases`,
`signal_cases` and `cancel_cases`, and everything about `Notify`, `Semaphore` and `Mutex` is proved
from them.

## The loop that never turns twice

A delivery pops ids from the kernel until it finds one that has an entry. Ids without one are those
of futures that were dropped; but a future that is dropped takes its id along, so that in an open
table every queued id has its entry and the loop ends at its first turn. That is `signal_of_cons`,
and it is what makes a delivery go to whoever parked first. In a closed table there are no entries
and the loop runs through the whole queue (`signalLoop_of_nil`), which is why a release after a
close stores its permit.

## Delivering to everybody

`notify_waiters` and `close` take all entries out and deliver to each. Seen from the futures this is
the same as signalling until nobody is left (`signalAll_induction`), so that what is preserved by
one delivery is preserved by all, and nothing has to be proved of the loop by itself.

## Main results

* `signal_cases` — a signal stores a permit, or delivers to the future that parked first
* `cancel_cases` — a future that goes passes its delivery on, or leaves the queue
* `signalAll_induction` — delivering to everybody is delivering one by one
* `Ok.load`, `Ok.lock`, `Ok.signal`, `Ok.cancel` — the table and the futures keep agreeing
-/

namespace Lion

namespace Table

variable {W : Type} {t : Table W}

/-- Without entries, the queued ids are skipped and a permit is stored. This is what a signal comes
to after the table was closed. -/
theorem signalLoop_of_nil (hwakers : t.wakers = []) {n : ℕ} (hn : t.kernel.queue.length < n) :
    signalLoop n t =
      (succ64 t.kernel.permit).map fun permit => (none, { t with kernel := ⟨permit, []⟩ }) := by
  induction n generalizing t with
  | zero => omega
  | succ n ih =>
    rw [signalLoop, WaiterKernel.signalStep]
    cases hq : t.kernel.queue with
    | nil =>
      dsimp only
      cases succ64 t.kernel.permit with
      | none => rfl
      | some permit => rfl
    | cons id rest =>
      have hrest := ih (t := { t with kernel := { t.kernel with queue := rest } }) hwakers (by
        rw [hq, List.length_cons] at hn
        exact Nat.lt_of_succ_lt_succ hn)
      simpa [hwakers] using hrest

/-- The first entry is taken out, if it is that of the first id. -/
theorem signal_of_cons {e : Entry W} {rest : List (Entry W)} {ids : List ℕ}
    (hwakers : t.wakers = e :: rest) (hqueue : t.kernel.queue = e.id :: ids) :
    t.signal = some (some e, { t with
      kernel := { t.kernel with queue := ids }, wakers := rest }) := by
  rw [signal, signalLoop, WaiterKernel.signalStep, hqueue]
  simp [hwakers]

/-- Delivering to everybody takes all entries out, if they are those of the queued ids. -/
theorem drain_of_synced (h : t.wakers.map Entry.id = t.kernel.queue) :
    t.drain = (t.wakers, { t with kernel := { t.kernel with queue := [] }, wakers := [] }) := by
  rw [drain]
  generalize hwakers : t.wakers = wakers at h
  induction wakers generalizing t with
  | nil =>
    rw [List.map_nil] at h
    rw [← h, List.length_nil, drainLoop, h, ← hwakers]
  | cons e rest ih =>
    rw [List.map_cons] at h
    have hrest := ih (t := { t with
      kernel := { t.kernel with queue := rest.map Entry.id }, wakers := rest }) rfl rfl
    rw [← h, List.length_cons, drainLoop, WaiterKernel.signalStep, ← h]
    simp only [List.length_map] at hrest
    simp [hwakers, hrest]

/-- A waiter leaves the queue, or its id was not queued any longer. -/
theorem withdraw_cases (t : Table W) (id : ℕ) :
    (id ∈ t.kernel.queue ∧ t.withdraw id = (true, { t with
      kernel := { t.kernel with queue := t.kernel.queue.erase id }
      wakers := t.wakers.eraseP (·.id = id) })) ∨
    (id ∉ t.kernel.queue ∧ t.withdraw id = (false, t)) := by
  rw [withdraw, WaiterKernel.removeStep]
  by_cases hmem : id ∈ t.kernel.queue
  · refine .inl ⟨hmem, ?_⟩
    rw [List.contains_iff_mem.mpr hmem]
  · refine .inr ⟨hmem, ?_⟩
    have hcontains : t.kernel.queue.contains id = false := by
      rw [← Bool.not_eq_true, List.contains_iff_mem]
      exact hmem
    rw [hcontains, List.erase_of_not_mem hmem]

end Table

namespace WaitList

variable {φ W : Type} {s s' : WaitList φ W} {closed : Bool} {i : ℕ} {f : Waiting φ W} {v : φ}

/-- A future agrees with the table, as far as its own entry and flag go. -/
structure FutureOk [Inhabited φ] (t : Table W) (closed : Bool) (i : ℕ) (f : Waiting φ W) :
    Prop where
  /-- If it has an entry, it waits under that id. -/
  entry : ∀ e ∈ t.wakers, e.future = i → f.id = e.id ∧ f.parked = true ∧ f.flag = default
  /-- If it waits, it has an entry. -/
  waiting : closed = false → f.parked = true → f.flag = default →
    ∃ e ∈ t.wakers, e.id = f.id ∧ e.future = i
  /-- Ids are handed out before they are parked under. -/
  handed : f.parked = true → f.id < t.nextId
  /-- A flag is set only when the future's id leaves the queue. -/
  flagged : f.flag ≠ default → f.parked = true ∧ f.id ∉ t.kernel.queue

/-- The table agrees with what has happened, apart from the futures. -/
structure TableOk (s : WaitList φ W) (closed : Bool) : Prop where
  /-- Ids are handed out in increasing order. -/
  sorted : s.parks.Pairwise (· < ·)
  below : ∀ id ∈ s.parks, id < s.nextId
  /-- What was delivered to, and then what is queued, is in the order of parking. -/
  log : (s.grants ++ s.kernel.queue).Sublist s.parks
  /-- Permits are stored only while nobody is queued. -/
  idle : 0 < s.kernel.permit → s.kernel.queue = []
  /-- The entries are those of the queued ids. -/
  synced : closed = false → s.wakers.map Entry.id = s.kernel.queue
  cleared : closed = true → s.wakers = []
  /-- An entry is of a future that has been made. -/
  made : ∀ e ∈ s.wakers, e.future < s.futures.size

/-- The table and the futures agree, as long as it is known whether the table was closed. -/
structure Ok [Inhabited φ] (s : WaitList φ W) (closed : Bool) : Prop extends TableOk s closed where
  futures : ∀ i f, s.futures.get i = some f → FutureOk s.toTable closed i f

/-! ### Cases -/

theorem load_cases [DecidableEq φ] [Inhabited φ] {waker : W} {ready : Bool}
    (h : s.load i waker = some (ready, s')) :
    ∃ f, s.futures.get i = some f ∧ f.loaded = none ∧
      ((ready = true ∧ f.flag ≠ default ∧ s' = s.put i (some { f with
        completed := true, finished := true, spent := true, last := none })) ∨
      (ready = false ∧ f.flag = default ∧ s' = s.put i (some { f with
        loaded := some waker, last := none }))) := by
  obtain ⟨f, hf, hrest⟩ := Option.bind_eq_some_iff.mp h
  split at hrest
  · cases hrest
  · rename_i hloaded
    refine ⟨f, hf, by simpa using hloaded, ?_⟩
    split at hrest
    · rename_i hflag
      cases hrest
      exact .inl ⟨rfl, hflag, rfl⟩
    · rename_i hflag
      cases hrest
      exact .inr ⟨rfl, not_not.mp hflag, rfl⟩

theorem lock_cases {ready : Bool} (h : s.lock i = some (ready, s')) :
    ∃ f waker, s.futures.get i = some f ∧ f.loaded = some waker ∧
      ((f.parked = true ∧ ready = false ∧ s' = { s with
        toTable := s.toTable.refresh f.id waker
        futures := s.futures.put i (some { f with loaded := none, last := some waker }) }) ∨
      (f.parked = false ∧ ready = true ∧ 0 < s.kernel.permit ∧ s' = { s with
        kernel := { s.kernel with permit := s.kernel.permit - 1 }
        nextId := s.nextId + 1
        futures := s.futures.put i (some { f with
          id := s.nextId, loaded := none, completed := true, finished := true }) }) ∨
      (f.parked = false ∧ ready = false ∧ s.kernel.permit = 0 ∧ s' = { s with
        kernel := { s.kernel with queue := s.kernel.queue ++ [s.nextId] }
        nextId := s.nextId + 1
        wakers := s.wakers ++ [⟨s.nextId, i, waker⟩]
        futures := s.futures.put i (some { f with
          id := s.nextId, parked := true, loaded := none, last := some waker })
        parks := s.parks ++ [s.nextId] })) := by
  obtain ⟨f, hf, hrest⟩ := Option.bind_eq_some_iff.mp h
  obtain ⟨waker, hwaker, hpoll⟩ := Option.bind_eq_some_iff.mp hrest
  refine ⟨f, waker, hf, hwaker, ?_⟩
  split at hpoll
  · rename_i hparked
    cases hpoll
    exact .inl ⟨hparked, rfl, rfl⟩
  · rename_i hparked
    have hparked : f.parked = false := by simpa using hparked
    obtain ⟨nextId, hsucc, hwait⟩ := Option.bind_eq_some_iff.mp hpoll
    cases succ64_eq_some hsucc
    rw [WaiterKernel.waitStep] at hwait
    by_cases hpermit : 0 < s.kernel.permit
    · rw [if_pos hpermit] at hwait
      cases hwait
      exact .inr (.inl ⟨hparked, rfl, hpermit, rfl⟩)
    · rw [if_neg hpermit] at hwait
      cases hwait
      exact .inr (.inr ⟨hparked, rfl, Nat.eq_zero_of_not_pos hpermit, rfl⟩)

/-- **Signals.** With entries, the first one is taken out and its future delivered to; else a permit
is stored, and no ids are queued. -/
theorem signal_cases [Inhabited φ] (hok : Ok s closed) (h : s.signal v = some s') :
    (s.wakers = [] ∧ s' = { s with kernel := ⟨s.kernel.permit + 1, []⟩ }) ∨
    ∃ e rest ids, closed = false ∧ s.wakers = e :: rest ∧ s.kernel.queue = e.id :: ids ∧
      s' = { s with
        kernel := { s.kernel with queue := ids }
        wakers := rest
        futures := s.futures.update e.future fun f => { f with flag := v, taken := some e.waker }
        grants := s.grants ++ [e.id] } := by
  obtain ⟨⟨entry, table⟩, hsignal, hrest⟩ := Option.bind_eq_some_iff.mp h
  cases hwakers : s.wakers with
  | nil =>
    rw [Table.signal, Table.signalLoop_of_nil hwakers (Nat.lt_succ_self _)] at hsignal
    obtain ⟨permit, hsucc, heq⟩ := Option.map_eq_some_iff.mp hsignal
    cases heq
    cases succ64_eq_some hsucc
    cases hrest
    refine .inl ⟨rfl, ?_⟩
    rw [hwakers]
  | cons e rest =>
    have hopen : closed = false := by
      cases closed with
      | false => rfl
      | true =>
        rw [hok.cleared rfl] at hwakers
        cases hwakers
    have hqueue : s.kernel.queue = e.id :: rest.map Entry.id := by
      rw [← hok.synced hopen, hwakers, List.map_cons]
    rw [Table.signal_of_cons hwakers hqueue] at hsignal
    cases hsignal
    cases hrest
    exact .inr ⟨e, rest, _, hopen, rfl, hqueue, rfl⟩

/-- **Cancellation.** A future that is done with, that never parked, or whose delivery is not passed
on, just goes; one that is still queued leaves the queue; and one that was delivered to signals
again. -/
theorem cancel_cases {forwards : φ → Bool} (h : s.cancel forwards v i = some s') :
    ∃ f, s.futures.get i = some f ∧ f.loaded = none ∧
      ((s' = s.put i none ∧ (f.completed = true ∨ f.parked = false ∨
        f.id ∉ s.kernel.queue ∧
          (forwards f.flag = false ∨ UInt64.size ≤ s.kernel.permit + 1))) ∨
      (f.completed = false ∧ f.parked = true ∧ f.id ∈ s.kernel.queue ∧ s' = { s.put i none with
        kernel := { s.kernel with queue := s.kernel.queue.erase f.id }
        wakers := s.wakers.eraseP (·.id = f.id) }) ∨
      (f.completed = false ∧ f.parked = true ∧ f.id ∉ s.kernel.queue ∧ forwards f.flag = true ∧
        (s.put i none).signal v = some s')) := by
  obtain ⟨f, hf, hrest⟩ := Option.bind_eq_some_iff.mp h
  split at hrest
  · cases hrest
  · rename_i hloaded
    refine ⟨f, hf, by simpa using hloaded, ?_⟩
    dsimp only at hrest
    split at hrest
    · rename_i hdone
      cases hrest
      have hdone : f.completed = true ∨ f.parked = false := by simpa using hdone
      exact .inl ⟨rfl, hdone.imp_right .inl⟩
    · rename_i hdone
      obtain ⟨hcompleted, hparked⟩ : f.completed = false ∧ f.parked = true := by
        simpa using hdone
      rcases (s.put i none).toTable.withdraw_cases f.id with ⟨hmem, heq⟩ | ⟨hmem, heq⟩
      · rw [heq] at hrest
        cases hrest
        exact .inr (.inl ⟨hcompleted, hparked, hmem, rfl⟩)
      · rw [heq] at hrest
        dsimp only at hrest
        split at hrest
        · rename_i hforward
          exact .inr (.inr ⟨hcompleted, hparked, hmem, (Bool.and_eq_true_iff.mp hforward).1, hrest⟩)
        · rename_i hforward
          cases hrest
          refine .inl ⟨rfl, .inr (.inr ⟨hmem, ?_⟩)⟩
          cases hflag : forwards f.flag with
          | false => exact .inl rfl
          | true =>
            have hfull : UInt64.size ≤ (s.put i none).kernel.permit + 1 := by
              simpa [hflag] using hforward
            exact .inr hfull

/-- A signal delivers to futures and does nothing else to them: whoever was there still is, with the
same flag or with `v` in it. -/
theorem signal_futures [Inhabited φ] (hok : Ok s closed) (h : s.signal v = some s') {j : ℕ}
    {f' : Waiting φ W} (hj : s'.futures.get j = some f') : ∃ f, s.futures.get j = some f ∧
      (f' = f ∨ closed = false ∧ ∃ t, f' = { f with flag := v, taken := t }) := by
  rcases signal_cases hok h with ⟨-, rfl⟩ | ⟨e, rest, ids, hopen, -, -, rfl⟩
  · exact ⟨f', hj, .inl rfl⟩
  · simp only [Arena.get_update] at hj
    split at hj
    · obtain ⟨f, hf, rfl⟩ := Option.map_eq_some_iff.mp hj
      exact ⟨f, hf, .inr ⟨hopen, _, rfl⟩⟩
    · exact ⟨f', hj, .inl rfl⟩

/-- What deliveries preserve holds of all futures after a signal. -/
theorem signal_all [Inhabited φ] {Q : Waiting φ W → Prop} (h : s.futures.All Q) (hok : Ok s closed)
    (hQ : ∀ f t, Q f → Q { f with flag := v, taken := t }) (hsignal : s.signal v = some s') :
    s'.futures.All Q := by
  intro j f' hj
  obtain ⟨f, hf, rfl | ⟨-, t, rfl⟩⟩ := signal_futures hok hsignal hj
  · exact h j f' hf
  · exact hQ f t (h j f hf)

/-! ### The table and the futures keep agreeing -/

theorem TableOk.queue_sublist (h : TableOk s closed) : s.kernel.queue.Sublist s.parks :=
  (List.sublist_append_right _ _).trans h.log

theorem TableOk.queue_nodup (h : TableOk s closed) : s.kernel.queue.Nodup :=
  (h.sorted.sublist h.queue_sublist).imp fun hlt => Nat.ne_of_lt hlt

/-- What was delivered to comes before what is queued. So nobody is served before one who parked
first. -/
theorem TableOk.grants_lt (h : TableOk s closed) {g id : ℕ} (hg : g ∈ s.grants)
    (hid : id ∈ s.kernel.queue) : g < id :=
  (List.pairwise_append.mp (h.sorted.sublist h.log)).2.2 g hg id hid

/-- An entry's id is queued, as long as there are entries; when the table was closed there are
none. -/
theorem TableOk.mem_queue (h : TableOk s closed) {e : Entry W} (he : e ∈ s.wakers) :
    closed = false ∧ e.id ∈ s.kernel.queue := by
  cases closed with
  | true =>
    rw [h.cleared rfl] at he
    cases he
  | false =>
    rw [← h.synced rfl]
    exact ⟨rfl, List.mem_map_of_mem he⟩

theorem map_id_eraseP (wakers : List (Entry W)) (id : ℕ) :
    (wakers.eraseP (·.id = id)).map Entry.id = (wakers.map Entry.id).erase id := by
  rw [List.erase_eq_eraseP', List.eraseP_map]
  rfl

/-- Entries have different ids, so that taking one out takes one out. -/
theorem TableOk.wakers_nodup (h : TableOk s closed) : (s.wakers.map Entry.id).Nodup := by
  cases closed with
  | true =>
    rw [h.cleared rfl]
    exact List.nodup_nil
  | false =>
    rw [h.synced rfl]
    exact h.queue_nodup

theorem TableOk.entry_eq (h : TableOk s closed) {e e' : Entry W} (he : e ∈ s.wakers)
    (he' : e' ∈ s.wakers) (hid : e.id = e'.id) : e = e' :=
  List.inj_on_of_nodup_map h.wakers_nodup he he' hid

/-- An entry with a future's id is the future's, and there is no other with this id. -/
theorem Ok.entry_future [Inhabited φ] (h : Ok s closed) (hi : s.futures.get i = some f)
    (hparked : f.parked = true) {e : Entry W} (he : e ∈ s.wakers) (hid : e.id = f.id) :
    e.future = i := by
  obtain ⟨hopen, hmem⟩ := h.mem_queue he
  have hflag : f.flag = default := by
    by_contra hne
    rw [hid] at hmem
    exact ((h.futures i f hi).flagged hne).2 hmem
  obtain ⟨e', he', hid', hfuture⟩ := (h.futures i f hi).waiting hopen hparked hflag
  rw [h.entry_eq he he' (hid.trans hid'.symm)]
  exact hfuture

/-- The wakers taken with entries, as the futures have them. Nothing else about a future changes,
and only that of an entry does. -/
theorem get_noteTaken (es : List (Entry W)) (a : Arena (Waiting φ W)) {j : ℕ} {f' : Waiting φ W}
    (h : (noteTaken es a).get j = some f') : ∃ f t, a.get j = some f ∧ f' = { f with taken := t } ∧
      ((t = f.taken ∧ ∀ e ∈ es, e.future ≠ j) ∨ ∃ e ∈ es, e.future = j ∧ t = some e.waker) := by
  induction es generalizing a with
  | nil => exact ⟨f', f'.taken, h, rfl, .inl ⟨rfl, by simp⟩⟩
  | cons e es ih =>
    obtain ⟨f₁, t, hf₁, rfl, ht⟩ := ih _ h
    rw [Arena.get_update] at hf₁
    split at hf₁
    · rename_i hj
      obtain ⟨f, hf, rfl⟩ := Option.map_eq_some_iff.mp hf₁
      refine ⟨f, t, hf, rfl, .inr ?_⟩
      rcases ht with ⟨ht, -⟩ | ⟨e', he', hfuture, ht⟩
      · exact ⟨e, List.mem_cons_self, hj.symm, ht⟩
      · exact ⟨e', List.mem_cons_of_mem _ he', hfuture, ht⟩
    · rename_i hj
      refine ⟨f₁, t, hf₁, rfl, ?_⟩
      rcases ht with ⟨ht, hnone⟩ | ⟨e', he', hfuture, ht⟩
      · refine .inl ⟨ht, fun e' he' => ?_⟩
        rcases List.mem_cons.mp he' with rfl | he'
        · exact Ne.symm hj
        · exact hnone e' he'
      · exact .inr ⟨e', List.mem_cons_of_mem _ he', hfuture, ht⟩

/-- Which wakers were taken does not matter to what is counted about futures. -/
theorem count_noteTaken (es : List (Entry W)) (a : Arena (Waiting φ W)) {p : Waiting φ W → Bool}
    (hp : ∀ f t, p { f with taken := t } = p f) : (noteTaken es a).count p = a.count p := by
  induction es generalizing a with
  | nil => rfl
  | cons e es ih =>
    have hrest := ih (a.update e.future fun f => { f with taken := some e.waker })
    refine Eq.trans hrest ?_
    cases hget : a.get e.future with
    | none => rw [Arena.update_of_get_eq_none hget]
    | some f =>
      have hcount := Arena.count_update hget (fun f => { f with taken := some e.waker }) p
      rw [hp f (some e.waker)] at hcount
      exact Nat.add_right_cancel hcount

section Agree

variable [Inhabited φ]

theorem ok_new (permit : ℕ) : Ok (new permit : WaitList φ W) false := by
  refine ⟨?_, by simp [new]⟩
  constructor <;> simp [new, Table.new, WaiterKernel.withPermits]

/-- A future that waits just as another does agrees with the table as that does. -/
theorem FutureOk.congr {t : Table W} {f' : Waiting φ W} (h : FutureOk t closed i f)
    (hid : f'.id = f.id) (hparked : f'.parked = f.parked) (hflag : f'.flag = f.flag) :
    FutureOk t closed i f' := by
  constructor
  · rw [hid, hparked, hflag]
    exact h.entry
  · rw [hid, hparked, hflag]
    exact h.waiting
  · rw [hid, hparked]
    exact h.handed
  · rw [hid, hparked, hflag]
    exact h.flagged

/-- One future changes, or goes, and the table with it. All that is to be shown is the table, the
future itself, and that the others still agree with the table. -/
theorem ok_of_change {x : Waiting φ W} (hi : s.futures.get i = some x)
    {s' : WaitList φ W} {f' : Option (Waiting φ W)} (htable : TableOk s' closed)
    (hfutures : s'.futures = s.futures.put i f')
    (hself : ∀ f, f' = some f → FutureOk s'.toTable closed i f)
    (hothers : ∀ j f, j ≠ i → s.futures.get j = some f → FutureOk s'.toTable closed j f) :
    Ok s' closed := by
  refine ⟨htable, fun j f hj => ?_⟩
  rw [hfutures, Arena.get_put hi] at hj
  split at hj
  · rename_i hij
    subst hij
    exact hself f hj
  · rename_i hij
    exact hothers j f hij hj

/-- A future is replaced by one that waits just as it does, with other things about it changed. -/
theorem Ok.put_same (h : Ok s closed) (hi : s.futures.get i = some f) (f' : Waiting φ W)
    (hid : f'.id = f.id) (hparked : f'.parked = f.parked) (hflag : f'.flag = f.flag) :
    Ok (s.put i (some f')) closed := by
  refine ok_of_change hi ?_ rfl ?_ fun j f _ hj => h.futures j f hj
  · exact ⟨h.sorted, h.below, h.log, h.idle, h.synced, h.cleared, by simpa [put] using h.made⟩
  · rintro _ ⟨⟩
    exact (h.futures i f hi).congr hid hparked hflag

theorem Ok.add (h : Ok s closed) : Ok s.add closed := by
  refine ⟨⟨h.sorted, h.below, h.log, h.idle, h.synced, h.cleared, ?_⟩, ?_⟩
  · intro e he
    simpa [WaitList.add] using Nat.lt_succ_of_lt (h.made e he)
  · intro j f hj
    simp only [WaitList.add, Arena.get_add] at hj
    split at hj
    · rename_i hsize
      cases hj
      refine ⟨fun e he heq => ?_, by simp, by simp, by simp⟩
      exact absurd (heq.trans hsize) (Nat.ne_of_lt (h.made e he))
    · exact h.futures j f hj

theorem Ok.load [DecidableEq φ] {waker : W} {ready : Bool} (h : Ok s closed)
    (hload : s.load i waker = some (ready, s')) : Ok s' closed := by
  obtain ⟨f, hf, -, ⟨-, -, rfl⟩ | ⟨-, -, rfl⟩⟩ := load_cases hload
  · exact h.put_same hf _ rfl rfl rfl
  · exact h.put_same hf _ rfl rfl rfl

/-- A stored waker is replaced, which changes nobody's place. -/
theorem Ok.refresh (h : Ok s closed) (id : ℕ) (waker : W) :
    Ok { s with toTable := s.toTable.refresh id waker } closed := by
  have hids : (s.toTable.refresh id waker).wakers.map Entry.id = s.wakers.map Entry.id := by
    rw [Table.refresh, List.map_map]
    refine List.map_congr_left fun e _ => ?_
    dsimp only [Function.comp]
    split <;> rfl
  have hmem : ∀ e ∈ (s.toTable.refresh id waker).wakers,
      ∃ e₀ ∈ s.wakers, e.id = e₀.id ∧ e.future = e₀.future := by
    intro e he
    obtain ⟨e₀, he₀, rfl⟩ := List.mem_map.mp he
    refine ⟨e₀, he₀, ?_⟩
    split <;> exact ⟨rfl, rfl⟩
  refine ⟨⟨h.sorted, h.below, h.log, h.idle, fun hopen => hids.trans (h.synced hopen), ?_, ?_⟩, ?_⟩
  · intro hclosed
    simp [Table.refresh, h.cleared hclosed]
  · intro e he
    obtain ⟨e₀, he₀, -, hfuture⟩ := hmem e he
    rw [hfuture]
    exact h.made e₀ he₀
  · intro j f hj
    have hok := h.futures j f hj
    refine ⟨?_, ?_, hok.handed, hok.flagged⟩
    · intro e he heq
      obtain ⟨e₀, he₀, hid, hfuture⟩ := hmem e he
      rw [hid]
      exact hok.entry e₀ he₀ (hfuture ▸ heq)
    · intro hopen hp hfl
      obtain ⟨e, he, hid, hfuture⟩ := hok.waiting hopen hp hfl
      refine ⟨_, List.mem_map_of_mem he, ?_⟩
      split <;> exact ⟨hid, hfuture⟩

/-- A stored permit is spent, without anybody having parked. -/
theorem Ok.spend (h : Ok s closed) :
    Ok { s with kernel := { s.kernel with permit := s.kernel.permit - 1 } } closed := by
  refine ⟨⟨h.sorted, h.below, h.log, ?_, h.synced, h.cleared, h.made⟩, ?_⟩
  · intro hpos
    exact h.idle (Nat.lt_of_lt_of_le hpos (Nat.sub_le _ _))
  · intro j f hj
    have hok := h.futures j f hj
    exact ⟨hok.entry, hok.waiting, hok.handed, hok.flagged⟩

/-- A permit is taken by a poll of a future that has not parked. The id that was drawn for it is
used up and not queued. -/
theorem Ok.take (h : Ok s closed) (hi : s.futures.get i = some f) (hparked : f.parked = false)
    (f' : Waiting φ W) (hparked' : f'.parked = false) (hflag' : f'.flag = f.flag) :
    Ok { s with
      kernel := { s.kernel with permit := s.kernel.permit - 1 }
      nextId := s.nextId + 1
      futures := s.futures.put i (some f') } closed := by
  have hf := h.futures i f hi
  -- a future that has not parked has neither flag nor entry
  have hflag : f.flag = default := by
    by_contra hne
    rw [(hf.flagged hne).1] at hparked
    cases hparked
  refine ok_of_change hi ?_ rfl ?_ ?_
  · refine ⟨h.sorted, fun id hid => Nat.lt_succ_of_lt (h.below id hid), h.log, ?_, h.synced,
      h.cleared, by simpa using h.made⟩
    intro hpos
    exact h.idle (Nat.lt_of_lt_of_le hpos (Nat.sub_le _ _))
  · rintro _ ⟨⟩
    refine ⟨fun e he heq => ?_, by simp [hparked'], by simp [hparked'], ?_⟩
    · have hp := (hf.entry e he heq).2.1
      rw [hparked] at hp
      cases hp
    · intro hne
      rw [hflag', hflag] at hne
      exact absurd rfl hne
  · intro j f₁ _ hj
    have hok := h.futures j f₁ hj
    exact ⟨hok.entry, hok.waiting, fun hp => Nat.lt_succ_of_lt (hok.handed hp), hok.flagged⟩

omit [Inhabited φ] in
/-- A new id is queued, behind those who have parked before. -/
theorem TableOk.park (h : TableOk s false) (hi : s.futures.get i = some f)
    (hpermit : s.kernel.permit = 0) (f' : Waiting φ W) (waker : W) :
    TableOk { s with
      kernel := { s.kernel with queue := s.kernel.queue ++ [s.nextId] }
      nextId := s.nextId + 1
      wakers := s.wakers ++ [⟨s.nextId, i, waker⟩]
      futures := s.futures.put i (some f')
      parks := s.parks ++ [s.nextId] } false := by
  constructor
  · refine List.pairwise_append.mpr ⟨h.sorted, List.pairwise_singleton _ _, ?_⟩
    intro a ha b hb
    rw [List.mem_singleton.mp hb]
    exact h.below a ha
  · intro id hid
    rcases List.mem_append.mp hid with hid | hid
    · exact Nat.lt_succ_of_lt (h.below id hid)
    · rw [List.mem_singleton.mp hid]
      exact Nat.lt_succ_self _
  · rw [← List.append_assoc]
    exact h.log.append (List.Sublist.refl _)
  · intro hpos
    rw [hpermit] at hpos
    cases hpos
  · intro _
    rw [List.map_append, h.synced rfl]
    rfl
  · intro hclosed
    cases hclosed
  · intro e he
    rcases List.mem_append.mp he with he | he
    · simpa using h.made e he
    · rw [List.mem_singleton.mp he]
      simpa using Arena.lt_size hi

/-- A future parks, under an id that was not handed out before. -/
theorem Ok.park (h : Ok s false) (hi : s.futures.get i = some f) (hparked : f.parked = false)
    (hpermit : s.kernel.permit = 0) (f' : Waiting φ W) (hid' : f'.id = s.nextId)
    (hparked' : f'.parked = true) (hflag' : f'.flag = f.flag) (waker : W) :
    Ok { s with
      kernel := { s.kernel with queue := s.kernel.queue ++ [s.nextId] }
      nextId := s.nextId + 1
      wakers := s.wakers ++ [⟨s.nextId, i, waker⟩]
      futures := s.futures.put i (some f')
      parks := s.parks ++ [s.nextId] } false := by
  have hf := h.futures i f hi
  have hflag : f.flag = default := by
    by_contra hne
    rw [(hf.flagged hne).1] at hparked
    cases hparked
  have hnone : ∀ e ∈ s.wakers, e.future ≠ i := by
    intro e he heq
    have hp := (hf.entry e he heq).2.1
    rw [hparked] at hp
    cases hp
  refine ok_of_change hi (h.toTableOk.park hi hpermit f' waker) rfl ?_ ?_
  · rintro _ ⟨⟩
    refine ⟨?_, ?_, ?_, ?_⟩
    · intro e he heq
      rcases List.mem_append.mp he with he | he
      · exact absurd heq (hnone e he)
      · rw [List.mem_singleton.mp he]
        exact ⟨hid', hparked', hflag'.trans hflag⟩
    · intro _ _ _
      exact ⟨_, List.mem_append_right _ (List.mem_singleton_self _), hid'.symm, rfl⟩
    · intro _
      rw [hid']
      exact Nat.lt_succ_self _
    · intro hne
      exact absurd (hflag'.trans hflag) hne
  · intro j f₁ hij hj
    have hok := h.futures j f₁ hj
    refine ⟨?_, ?_, fun hp => Nat.lt_succ_of_lt (hok.handed hp), ?_⟩
    · intro e he heq
      rcases List.mem_append.mp he with he | he
      · exact hok.entry e he heq
      · rw [List.mem_singleton.mp he] at heq
        exact absurd heq.symm hij
    · intro _ hp hfl
      obtain ⟨e, he, hid, hfuture⟩ := hok.waiting rfl hp hfl
      exact ⟨e, List.mem_append_left _ he, hid, hfuture⟩
    · intro hfl
      obtain ⟨hp, hnot⟩ := hok.flagged hfl
      refine ⟨hp, fun hmem => ?_⟩
      rcases List.mem_append.mp hmem with hmem | hmem
      · exact hnot hmem
      · have hlt := hok.handed hp
        rw [List.mem_singleton.mp hmem] at hlt
        exact Nat.lt_irrefl _ hlt

theorem Ok.lock {ready : Bool} (h : Ok s false) (hlock : s.lock i = some (ready, s')) :
    Ok s' false := by
  obtain ⟨f, waker, hf, -, ⟨-, -, rfl⟩ | ⟨hp, -, -, rfl⟩ | ⟨hp, -, hpermit, rfl⟩⟩ :=
    lock_cases hlock
  · exact (h.refresh f.id waker).put_same hf { f with loaded := none, last := some waker }
      rfl rfl rfl
  · exact h.take hf hp _ hp rfl
  · exact h.park hf hp hpermit { f with
      id := s.nextId, parked := true, loaded := none, last := some waker } rfl rfl rfl waker

/-- A permit is stored, since there is nobody to deliver to. Ids that were still queued are
skipped. -/
theorem Ok.store (h : Ok s closed) (hwakers : s.wakers = []) :
    Ok { s with kernel := ⟨s.kernel.permit + 1, []⟩ } closed := by
  refine ⟨⟨h.sorted, h.below, ?_, fun _ => rfl, ?_, h.cleared, h.made⟩, ?_⟩
  · refine List.Sublist.trans ?_ h.log
    rw [List.append_nil]
    exact List.sublist_append_left _ _
  · intro _
    rw [hwakers]
    rfl
  · intro j f hj
    have hok := h.futures j f hj
    refine ⟨hok.entry, hok.waiting, hok.handed, fun hfl => ⟨(hok.flagged hfl).1, ?_⟩⟩
    exact List.not_mem_nil

/-- The first entry is taken out, and its future delivered to. This is the one step by which an id
gets from the queue to the grants. -/
theorem Ok.grant (h : Ok s false) (hv : v ≠ default) {e : Entry W} {rest : List (Entry W)}
    {ids : List ℕ} (hwakers : s.wakers = e :: rest) (hqueue : s.kernel.queue = e.id :: ids) :
    Ok { s with
      kernel := { s.kernel with queue := ids }
      wakers := rest
      futures := s.futures.update e.future fun f => { f with flag := v, taken := some e.waker }
      grants := s.grants ++ [e.id] } false := by
  have hnodup := h.queue_nodup
  rw [hqueue, List.nodup_cons] at hnodup
  have hmem : ∀ e' ∈ rest, e' ∈ s.wakers := by
    intro e' he'
    rw [hwakers]
    exact List.mem_cons_of_mem _ he'
  have hself : e ∈ s.wakers := by
    rw [hwakers]
    exact List.mem_cons_self
  have hids : rest.map Entry.id = ids := by
    have hsynced := h.synced rfl
    rw [hwakers, hqueue, List.map_cons] at hsynced
    exact (List.cons.inj hsynced).2
  refine ⟨⟨h.sorted, h.below, ?_, ?_, fun _ => hids, fun hc => (by cases hc), ?_⟩, ?_⟩
  · have hlog := h.log
    rw [hqueue] at hlog
    rw [List.append_assoc]
    exact hlog
  · intro hpos
    have hnil := h.idle hpos
    rw [hqueue] at hnil
    cases hnil
  · intro e' he'
    simpa using h.made e' (hmem e' he')
  · intro j f hj
    simp only [Arena.get_update] at hj
    split at hj
    · -- the future delivered to
      rename_i hij
      obtain ⟨f₀, hf₀, rfl⟩ := Option.map_eq_some_iff.mp hj
      have hok := h.futures j f₀ hf₀
      obtain ⟨hid, hparked, -⟩ := hok.entry e hself hij.symm
      have hout : f₀.id ∉ ids := by
        rw [hid]
        exact hnodup.1
      refine ⟨?_, ?_, hok.handed, fun _ => ⟨hparked, hout⟩⟩
      · intro e' he' heq
        have hid' := (hok.entry e' (hmem e' he') heq).1
        refine absurd ?_ hout
        rw [hid', ← hids]
        exact List.mem_map_of_mem he'
      · intro _ _ hfl
        exact absurd hfl hv
    · rename_i hij
      have hok := h.futures j f hj
      refine ⟨fun e' he' heq => hok.entry e' (hmem e' he') heq, ?_, hok.handed, ?_⟩
      · intro hopen hp hfl
        obtain ⟨e', he', hid, hfuture⟩ := hok.waiting hopen hp hfl
        rw [hwakers] at he'
        rcases List.mem_cons.mp he' with rfl | he'
        · exact absurd hfuture.symm hij
        · exact ⟨e', he', hid, hfuture⟩
      · intro hfl
        obtain ⟨hp, hnot⟩ := hok.flagged hfl
        refine ⟨hp, fun hmem' => hnot ?_⟩
        rw [hqueue]
        exact List.mem_cons_of_mem _ hmem'

theorem Ok.signal (h : Ok s closed) (hv : v ≠ default) (hsignal : s.signal v = some s') :
    Ok s' closed := by
  rcases signal_cases h hsignal with ⟨hwakers, rfl⟩ | ⟨e, rest, ids, rfl, hwakers, hqueue, rfl⟩
  · exact h.store hwakers
  · exact h.grant hv hwakers hqueue

omit [Inhabited φ] in
/-- Delivering to everybody, as the entries have it: all of them are taken out, in their order. -/
theorem signalAll_eq (h : s.wakers.map Entry.id = s.kernel.queue) (v : φ) :
    s.signalAll v = s.wakers.foldl (fun s e => s.deliver v e) { s with
      kernel := { s.kernel with queue := [] }, wakers := [] } := by
  rw [signalAll, Table.drain_of_synced h]

/-- **Signals to everybody.** Delivering to everybody is signalling as long as there are entries. -/
theorem signalAll_induction {P : WaitList φ W → Prop} (hok : Ok s false) (hv : v ≠ default)
    (hP : P s)
    (hsignal : ∀ w w', w.Ok false → w.wakers ≠ [] → P w → w.signal v = some w' → P w') :
    P (s.signalAll v) ∧ (s.signalAll v).toTable = { s.toTable with
      kernel := { s.kernel with queue := [] }, wakers := [] } := by
  have hsynced := hok.synced rfl
  rw [signalAll_eq hsynced]
  generalize hwakers : s.wakers = wakers
  induction wakers generalizing s with
  | nil =>
    rw [hwakers, List.map_nil] at hsynced
    have hs : { s with kernel := { s.kernel with queue := [] }, wakers := [] } = s := by
      rw [hsynced, ← hwakers]
    rw [List.foldl_nil]
    exact ⟨by rw [hs]; exact hP, rfl⟩
  | cons e rest ih =>
    rw [hwakers, List.map_cons] at hsynced
    have hone : s.signal v = some ({ s with
        kernel := { s.kernel with queue := rest.map Entry.id }, wakers := rest }.deliver v e) := by
      rw [WaitList.signal, Table.signal_of_cons hwakers hsynced.symm]
      rfl
    have hrest := ih (hok.signal hv hone) (hsignal s _ hok (by simp [hwakers]) hP hone) rfl rfl
    exact hrest

theorem Ok.signalAll (h : Ok s false) (hv : v ≠ default) : Ok (s.signalAll v) false :=
  (signalAll_induction h hv h fun _ _ hw _ _ hsignal => hw.signal hv hsignal).1

/-- Delivering to everybody delivers to those who wait, and does nothing to the others. -/
theorem signalAll_futures [DecidableEq φ] (hok : Ok s false) (hv : v ≠ default) (i : ℕ) :
    ∃ t, (s.signalAll v).futures.get i = (s.futures.get i).map fun f =>
      if f.parked = true ∧ f.flag = default then { f with flag := v, taken := t } else f := by
  have hturns := signalAll_induction (P := fun w => w.futures.get i = s.futures.get i ∨
    ∃ f t, s.futures.get i = some f ∧ f.parked = true ∧ f.flag = default ∧
      w.futures.get i = some { f with flag := v, taken := t }) hok hv (.inl rfl) ?_
  · obtain ⟨hcase, htable⟩ := hturns
    rcases hcase with hsame | ⟨f, t, hf, hparked, hflag, hget⟩
    · -- nobody was delivered to here, and nobody is left waiting
      refine ⟨none, ?_⟩
      rw [hsame]
      cases hf : s.futures.get i with
      | none => rfl
      | some f =>
        have hnot : ¬ (f.parked = true ∧ f.flag = default) := by
          rintro ⟨hparked, hflag⟩
          rw [hf] at hsame
          obtain ⟨e, he, -⟩ :=
            ((hok.signalAll hv).futures i f hsame).waiting rfl hparked hflag
          rw [htable] at he
          cases he
        rw [Option.map_some, if_neg hnot]
    · refine ⟨t, ?_⟩
      rw [hget, hf, Option.map_some, if_pos ⟨hparked, hflag⟩]
  · intro w w' hw _ hP hsignal
    rcases signal_cases hw hsignal with ⟨-, rfl⟩ | ⟨e, rest, ids, -, hwakers, -, rfl⟩
    · exact hP
    · simp only [Arena.get_update]
      split
      · rename_i hi
        cases hget : w.futures.get i with
        | none =>
          rcases hP with hsame | ⟨f, t, -, -, -, hf⟩
          · exact .inl (by rw [← hsame, hget]; rfl)
          · rw [hget] at hf
            cases hf
        | some f' =>
          have hentry := (hw.futures i f' hget).entry e (by simp [hwakers]) hi.symm
          rcases hP with hsame | ⟨f, t, -, -, -, hf⟩
          · rw [hget] at hsame
            exact .inr ⟨f', some e.waker, hsame.symm, hentry.2.1, hentry.2.2, rfl⟩
          · rw [hget] at hf
            cases hf
            exact absurd hentry.2.2 hv
      · exact hP

/-- A future goes, and leaves the table as it is. -/
theorem Ok.put_none (h : Ok s closed) (hi : s.futures.get i = some f) :
    Ok (s.put i none) closed := by
  refine ok_of_change hi ?_ rfl (by simp) fun j f _ hj => h.futures j f hj
  exact ⟨h.sorted, h.below, h.log, h.idle, h.synced, h.cleared, by simpa [put] using h.made⟩

/-- A future that has parked goes, and takes its id and its entry with it. -/
theorem Ok.withdraw (h : Ok s closed) (hi : s.futures.get i = some f)
    (hparked : f.parked = true) :
    Ok { s.put i none with
      kernel := { s.kernel with queue := s.kernel.queue.erase f.id }
      wakers := s.wakers.eraseP (·.id = f.id) } closed := by
  have hids := map_id_eraseP s.wakers f.id
  refine ok_of_change hi ?_ rfl (by simp) ?_
  · refine ⟨h.sorted, h.below, ?_, ?_, ?_, ?_, ?_⟩
    · exact ((List.Sublist.refl _).append List.erase_sublist).trans h.log
    · intro hpos
      have hnil : s.kernel.queue = [] := h.idle hpos
      dsimp only
      rw [hnil]
      rfl
    · intro hopen
      dsimp only
      rw [hids, h.synced hopen]
    · intro hclosed
      dsimp only
      rw [h.cleared hclosed]
      rfl
    · intro e he
      simpa [put] using h.made e (List.mem_of_mem_eraseP he)
  · intro j f₁ hij hj
    have hok := h.futures j f₁ hj
    refine ⟨fun e he heq => hok.entry e (List.mem_of_mem_eraseP he) heq, ?_, hok.handed, ?_⟩
    · intro hopen hp hfl
      obtain ⟨e, he, hid, hfuture⟩ := hok.waiting hopen hp hfl
      refine ⟨e, ?_, hid, hfuture⟩
      -- the entry taken out is that of the other future
      have hne : ¬ (decide (e.id = f.id) = true) := by
        intro heq
        have hother := h.entry_future hi hparked he (of_decide_eq_true heq)
        exact hij (hfuture.symm.trans hother)
      exact (List.mem_eraseP_of_neg (p := fun x => decide (x.id = f.id)) hne).mpr he
    · intro hfl
      obtain ⟨hp, hnot⟩ := hok.flagged hfl
      exact ⟨hp, fun hmem' => hnot (List.mem_of_mem_erase hmem')⟩

theorem Ok.cancel {forwards : φ → Bool} (h : Ok s closed) (hv : v ≠ default)
    (hcancel : s.cancel forwards v i = some s') : Ok s' closed := by
  obtain ⟨f, hf, -, ⟨rfl, -⟩ | ⟨-, hp, -, rfl⟩ | ⟨-, -, -, -, hsignal⟩⟩ := cancel_cases hcancel
  · exact h.put_none hf
  · exact h.withdraw hf hp
  · exact (h.put_none hf).signal hv hsignal

/-- So does a cancellation, apart from the future that goes. -/
theorem cancel_futures {forwards : φ → Bool} (hok : Ok s closed)
    (h : s.cancel forwards v i = some s') {j : ℕ} {f' : Waiting φ W}
    (hj : s'.futures.get j = some f') : ∃ f, s.futures.get j = some f ∧
      (f' = f ∨ closed = false ∧ ∃ t, f' = { f with flag := v, taken := t }) := by
  obtain ⟨f₀, hf₀, -, hcase⟩ := cancel_cases h
  have hput : ∀ f, (s.put i none).futures.get j = some f → s.futures.get j = some f := by
    intro f hf
    rw [put, Arena.get_put hf₀] at hf
    split at hf
    · cases hf
    · exact hf
  rcases hcase with ⟨rfl, -⟩ | ⟨-, -, -, rfl⟩ | ⟨-, -, -, -, hsignal⟩
  · exact ⟨f', hput f' hj, .inl rfl⟩
  · exact ⟨f', hput f' hj, .inl rfl⟩
  · obtain ⟨f, hf, hcase⟩ := signal_futures (hok.put_none hf₀) hsignal hj
    exact ⟨f, hput f hf, hcase⟩

/-- What deliveries preserve holds of all futures after a cancellation. -/
theorem cancel_all {Q : Waiting φ W → Prop} {forwards : φ → Bool} (h : s.futures.All Q)
    (hok : Ok s closed) (hQ : ∀ f t, Q f → Q { f with flag := v, taken := t })
    (hcancel : s.cancel forwards v i = some s') : s'.futures.All Q := by
  intro j f' hj
  obtain ⟨f, hf, rfl | ⟨-, t, rfl⟩⟩ := cancel_futures hok hcancel hj
  · exact h j f' hf
  · exact hQ f t (h j f hf)

/-- All entries are taken out, and nothing is delivered. From then on the queue is not
maintained. -/
theorem Ok.close (h : Ok s closed) :
    Ok { s with wakers := [], futures := noteTaken s.wakers s.futures } true := by
  refine ⟨⟨h.sorted, h.below, h.log, h.idle, fun hc => (by cases hc), fun _ => rfl, by simp⟩, ?_⟩
  intro j f' hj
  obtain ⟨f, t, hf, rfl, -⟩ := get_noteTaken _ _ hj
  have hok := h.futures j f hf
  exact ⟨by simp, fun hc => (by cases hc), hok.handed, hok.flagged⟩

end Agree

end WaitList

end Lion
