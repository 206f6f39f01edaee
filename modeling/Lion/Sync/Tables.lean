import Lion.Library.Tickets
import Lion.Sync.BroadcastWakeup
import Lion.Sync.MpscWakeup
import Lion.Sync.Oneshot
import Lion.Sync.Wakers
import Lion.Sync.WatchWakeup

/-!
# Kernels and tables

Whatever is built on a `WaiterKernel` keeps the ids of those who wait in the kernel's queue, and
their wakers under the same ids in a table of its own. The two are changed in pairs wherever a
waiter parks, is woken, gives up or goes. `TableAgrees` says that no pair was missed: what is queued
has a waker and an owner who waits, and who waits is queued.

Waiting is not a matter of the fields that the futures have for it, but of what has happened to
them: the latest poll has returned pending, and no signal was given since. Where the states do not
keep that, the machines are observed.

## Six primitives, one statement

`TableAgrees` has the kernel, the ids of the table, the id that each future has parked under, and
who waits as its arguments, and says nothing else about a primitive. Each primitive is connected to
it by saying what these are in its states (`current`, `Waits`), and by what its own module has
proved: the entries of `Delivery` for the two that share a `WaitList`, the tickets of the broadcast
and watch channels, the parked senders of `Parking`, and the shapes of the oneshot channel. So the
six parts of `reachable_agrees` look alike, and differ in where they come from.

What remains is to tell what the futures think of themselves from what has happened. A note is taken
of each operation that ends a poll, whether it has returned pending (`noteReturn`), and `Shown` says
that the note and the fields agree.

## Conventions

`Notified` and `Acquire` look at their flag before they take the mutex. A signal that comes between
counts as one since that poll. No future is polled after it has returned ready: `Fresh` and
`Contract` say this for the primitives whose futures do not see to it themselves, and the machines
are restricted to it. Where the receiver has closed an mpsc channel, or the semaphore was closed,
nothing is claimed: the wakers are gone then and the queue is not maintained.

## Main results

* `TableAgrees` — kernel and table agree
* `reachable_agrees` — they do in `Notify`, `Semaphore`, the watch, broadcast and oneshot channels,
  and for the senders of the bounded mpsc channel
-/

namespace Lion

/-- The kernel and the table agree, where `current` are the ids that futures have parked under, and
`waits` are the futures whose latest poll has returned pending and that were not signalled since. -/
structure TableAgrees {ι : Type*} (k : WaiterKernel) (table : List ℕ) (current : ι → Option ℕ)
    (waits : ι → Prop) : Prop where
  nodup : k.queue.Nodup
  /-- The ids in the table are those queued. -/
  ids : table = k.queue
  /-- Behind every queued id is a future that waits. -/
  owner : ∀ id ∈ k.queue, ∃ i, id ∈ current i ∧ waits i
  /-- An id that takes a signal has a waker, and a future that waits for it. -/
  signal : ∀ id k', k.signalStep = some (.woke id, k') →
    id ∈ table ∧ ∃ i, id ∈ current i ∧ waits i
  waits : ∀ i, waits i ↔ ∃ id ∈ current i, id ∈ k.queue

section Agree

variable {ι : Type*} {k : WaiterKernel} {table : List ℕ} {current : ι → Option ℕ} {waits : ι → Prop}

/-- Signals are taken by queued ids, or stored if there are none. -/
theorem WaiterKernel.mem_queue_of_signalStep {id : ℕ} {k' : WaiterKernel}
    (h : k.signalStep = some (.woke id, k')) : id ∈ k.queue := by
  rw [signalStep] at h
  split at h
  · rename_i head rest hqueue
    cases h
    rw [hqueue]
    exact List.mem_cons_self
  · obtain ⟨permit, -, heq⟩ := Option.map_eq_some_iff.mp h
    cases heq

theorem tableAgrees_of_owner (hnodup : k.queue.Nodup) (hids : table = k.queue)
    (howner : ∀ id ∈ k.queue, ∃ i, id ∈ current i)
    (hwaits : ∀ i, waits i ↔ ∃ id ∈ current i, id ∈ k.queue) :
    TableAgrees k table current waits := by
  have hbehind : ∀ id ∈ k.queue, ∃ i, id ∈ current i ∧ waits i := by
    intro id hqueued
    obtain ⟨i, hi⟩ := howner id hqueued
    exact ⟨i, hi, (hwaits i).mpr ⟨id, hi, hqueued⟩⟩
  refine ⟨hnodup, hids, hbehind, fun id k' hsignal => ?_, hwaits⟩
  have hqueued := WaiterKernel.mem_queue_of_signalStep hsignal
  rw [hids]
  exact ⟨hqueued, hbehind id hqueued⟩

theorem tableAgrees_of_tickets {next : ℕ} (h : Tickets k.queue next current waits)
    (hids : table = k.queue) : TableAgrees k table current waits :=
  tableAgrees_of_owner h.nodup hids h.owner h.waits

end Agree

/-! ### Whose latest poll has returned pending -/

/-- A poll has returned, and whether pending; or a future is made, which is not. -/
def noteReturn (o : Option (ℕ × Bool)) (pending : ℕ → Bool) : ℕ → Bool :=
  match o with
  | some (i, p) => Function.update pending i p
  | none => pending

/-- What is noted of the futures there are is whether `P` holds of them. -/
def Noted {φ : Type*} (get : ℕ → Option φ) (P : φ → Prop) (pending : ℕ → Bool) : Prop :=
  ∀ i f, get i = some f → (pending i = true ↔ P f)

namespace Noted

variable {φ : Type*} {get get' : ℕ → Option φ} {P : φ → Prop} {pending : ℕ → Bool} {i : ℕ}

/-- There are no other futures than before, and nothing happened to them that matters. -/
theorem follows (h : Noted get P pending)
    (hfollows : ∀ j f', get' j = some f' → ∃ f, get j = some f ∧ (P f' ↔ P f)) :
    Noted get' P pending := by
  intro j f' hj
  obtain ⟨f, hf, hiff⟩ := hfollows j f' hj
  rw [hiff]
  exact h j f hf

/-- One future changes, or is made, and what is noted of it. -/
theorem update (h : Noted get P pending) {f : φ} {p : Bool} (hp : p = true ↔ P f)
    (hget : ∀ j, get' j = if j = i then some f else get j) :
    Noted get' P (Function.update pending i p) := by
  intro j f' hj
  rw [hget] at hj
  rw [Function.update_apply]
  split at hj
  · rename_i hij
    cases hj
    rw [if_pos hij]
    exact hp
  · rename_i hij
    rw [if_neg hij]
    exact h j f' hj

end Noted

/-! ### Futures that wait for a signal -/

namespace WaitList

variable {φ W : Type} {s s' : WaitList φ W} {pending : ℕ → Bool} {i : ℕ}

/-- The id that future number `i` has parked under, if it has. -/
def current (s : WaitList φ W) (i : ℕ) : Option ℕ :=
  (s.futures.get i).bind fun f => if f.parked then some f.id else none

/-- The latest poll of future number `i` that has returned, has returned pending, and no signal has
set its flag. -/
def Waits [Inhabited φ] (s : WaitList φ W) (pending : ℕ → Bool) (i : ℕ) : Prop :=
  pending i = true ∧ ∃ f, s.futures.get i = some f ∧ f.flag = default

theorem mem_current {id : ℕ} :
    id ∈ s.current i ↔ ∃ f, s.futures.get i = some f ∧ f.parked = true ∧ f.id = id := by
  simp only [current, Option.mem_def, Option.bind_eq_some_iff, Option.ite_none_right_eq_some,
    Option.some.injEq]

/-- While the table is open, a future whose latest poll has returned pending has parked. -/
def Shown (s : WaitList φ W) (pending : ℕ → Bool) : Prop :=
  Noted s.futures.get (fun f => f.parked = true ∧ f.completed = false) pending

/-- `s'` has no other futures than `s`, and they have neither parked nor collected since. -/
def Follows (s s' : WaitList φ W) : Prop :=
  ∀ i f', s'.futures.get i = some f' → ∃ f, s.futures.get i = some f ∧
    f'.parked = f.parked ∧ f'.completed = f.completed

theorem Shown.follows (h : Shown s pending) (hfollows : s.Follows s') : Shown s' pending := by
  refine Noted.follows h fun j f' hj => ?_
  obtain ⟨f, hf, hparked, hcompleted⟩ := hfollows j f' hj
  refine ⟨f, hf, ?_⟩
  rw [hparked, hcompleted]

/-- One future changes, and what is noted of it changes with it. -/
theorem Shown.change (h : Shown s pending) {f f' : Waiting φ W} (hi : s.futures.get i = some f)
    (hfutures : s'.futures = s.futures.put i (some f')) {p : Bool}
    (hp : p = true ↔ f'.parked = true ∧ f'.completed = false) :
    Shown s' (Function.update pending i p) := by
  refine Noted.update h hp fun j => ?_
  rw [hfutures, Arena.get_put hi]

variable [Inhabited φ]

theorem Shown.add (h : Shown s pending) :
    Shown s.add (Function.update pending s.futures.size false) := by
  refine Noted.update h ?_ fun j => Arena.get_add ..
  simp

theorem Shown.load [DecidableEq φ] (h : Shown s pending) {waker : W} {ready : Bool}
    (hload : s.load i waker = some (ready, s')) :
    Shown s' (noteReturn (if ready then some (i, false) else none) pending) := by
  obtain ⟨f, hf, -, ⟨rfl, -, rfl⟩ | ⟨rfl, -, rfl⟩⟩ := load_cases hload
  · exact h.change hf rfl (by simp)
  · have hself : Function.update pending i (pending i) = pending :=
      Function.update_eq_self i pending
    show Shown _ pending
    rw [← hself]
    refine h.change hf rfl ?_
    exact h i f hf

omit [Inhabited φ] in
theorem Shown.lock (h : Shown s pending) (honce : s.Once) {ready : Bool}
    (hlock : s.lock i = some (ready, s')) :
    Shown s' (noteReturn (some (i, !ready)) pending) := by
  obtain ⟨f, waker, hf, hloaded, hcase⟩ := lock_cases hlock
  have hnot : f.completed = false := by
    have hfin := honce.loaded i f hf (by simp [hloaded])
    by_contra hc
    rw [honce.completed i f hf (by simpa using hc)] at hfin
    cases hfin
  rcases hcase with ⟨hparked, rfl, rfl⟩ | ⟨-, rfl, -, rfl⟩ | ⟨-, rfl, -, rfl⟩
  · exact h.change hf rfl (by simp [hparked, hnot])
  · exact h.change hf rfl (by simp)
  · exact h.change hf rfl (by simp [hnot])

/-- **Futures that wait for a signal.** While the table is open, it agrees with the kernel. -/
theorem Shown.agrees (h : Shown s pending) (hok : s.Ok false) (honce : s.Once) :
    TableAgrees s.kernel (s.wakers.map Entry.id) s.current (s.Waits pending) := by
  have hids : s.wakers.map Entry.id = s.kernel.queue := hok.synced rfl
  have hentry : ∀ id ∈ s.kernel.queue, ∃ e ∈ s.wakers, e.id = id := by
    intro id hid
    rw [← hids] at hid
    exact List.mem_map.mp hid
  refine tableAgrees_of_owner hok.queue_nodup hids (fun id hid => ?_) fun i => ⟨?_, ?_⟩
  · obtain ⟨e, he, rfl⟩ := hentry id hid
    obtain ⟨f, hf, -⟩ := honce.entries e he
    obtain ⟨hfid, hparked, -⟩ := (hok.futures e.future f hf).entry e he rfl
    exact ⟨e.future, mem_current.mpr ⟨f, hf, hparked, hfid⟩⟩
  · rintro ⟨hpending, f, hf, hflag⟩
    obtain ⟨hparked, -⟩ := (h i f hf).mp hpending
    obtain ⟨e, he, hid, -⟩ := (hok.futures i f hf).waiting rfl hparked hflag
    refine ⟨f.id, mem_current.mpr ⟨f, hf, hparked, rfl⟩, ?_⟩
    rw [← hid, ← hids]
    exact List.mem_map_of_mem he
  · rintro ⟨id, hid, hqueued⟩
    obtain ⟨f, hf, hparked, rfl⟩ := mem_current.mp hid
    obtain ⟨e, he, hid⟩ := hentry f.id hqueued
    have hfuture : e.future = i := hok.entry_future hf hparked he hid
    obtain ⟨f₀, hf₀, hnot⟩ := honce.entries e he
    rw [hfuture, hf] at hf₀
    cases hf₀
    have hflag : f.flag = default := ((hok.futures i f hf).entry e he hfuture).2.2
    exact ⟨(h i f hf).mpr ⟨hparked, hnot⟩, f, hf, hflag⟩

/-! #### Signals and cancellations -/

theorem follows_signal {v : φ} {closed : Bool} (hok : s.Ok closed)
    (hsignal : s.signal v = some s') : s.Follows s' := by
  intro j f' hj
  obtain ⟨f, hf, rfl | ⟨-, t, rfl⟩⟩ := signal_futures hok hsignal hj
  · exact ⟨f', hf, rfl, rfl⟩
  · exact ⟨f, hf, rfl, rfl⟩

theorem follows_cancel {v : φ} {closed : Bool} {forwards : φ → Bool} (hok : s.Ok closed)
    (hcancel : s.cancel forwards v i = some s') : s.Follows s' := by
  intro j f' hj
  obtain ⟨f, hf, rfl | ⟨-, t, rfl⟩⟩ := cancel_futures hok hcancel hj
  · exact ⟨f', hf, rfl, rfl⟩
  · exact ⟨f, hf, rfl, rfl⟩

theorem follows_signalAll [DecidableEq φ] {v : φ} (hok : s.Ok false) (hv : v ≠ default) :
    s.Follows (s.signalAll v) := by
  intro j f' hj
  obtain ⟨t, hget⟩ := signalAll_futures hok hv j
  rw [hget] at hj
  obtain ⟨f, hf, rfl⟩ := Option.map_eq_some_iff.mp hj
  refine ⟨f, hf, ?_⟩
  split <;> exact ⟨rfl, rfl⟩

end WaitList

/-! ### `Notify` -/

namespace Notify

variable {W : Type} {s s' : Notify W} {l : Label W}

/-- No future is polled after it has returned ready, as its contract says. -/
def Fresh (s : Notify W) (l : Label W) : Prop :=
  ∀ i ∈ l.polled, ∀ f ∈ s.futures.get i, f.finished = false

instance (s : Notify W) (l : Label W) : Decidable (s.Fresh l) :=
  inferInstanceAs (Decidable (∀ i ∈ l.polled, ∀ f ∈ s.futures.get i, f.finished = false))

/-- The future that the operation makes, or whose poll it ends, and whether that returns pending. -/
def outcome (s : Notify W) : Label W → Option (ℕ × Bool)
  | .notified => some (s.futures.size, false)
  | .load i waker => (s.load i waker).bind fun res => if res.1 then some (i, false) else none
  | .lock i => (s.lock i).map fun res => (i, !res.1)
  | _ => none

/-- `Notify` as a machine, with notes taken of which futures' latest poll has returned pending. -/
def observed : Machine (Notify W × (ℕ → Bool)) (Label W) :=
  Machine.observe (· = new) step (fun _ => false) fun s l => noteReturn (s.outcome l)

theorem once_of_reachable (h : (machine.restrict Fresh).Reachable s) : s.toWaitList.Once := by
  suffices hall : Sound s ∧ s.toWaitList.Once from hall.2
  refine h.invariant (I := fun s => Sound s ∧ s.toWaitList.Once) ?_ ?_
  · rintro s rfl
    exact ⟨WaitList.ok_new 0, WaitList.once_new 0⟩
  · rintro s l s' ⟨hsound, honce⟩ ⟨hstep, hfresh⟩
    have hstepped := step_cases hstep
    exact ⟨hsound.step hstepped, hstepped.once hsound honce hfresh⟩

theorem Stepped.shown (hstep : Stepped s l s') (hok : s.toWaitList.Ok false)
    (honce : s.toWaitList.Once) {pending : ℕ → Bool} (h : s.toWaitList.Shown pending) :
    s'.toWaitList.Shown (noteReturn (s.outcome l) pending) := by
  cases hstep with
  | notified => exact h.add
  | @load i waker ready f w hf hload =>
    have houtcome : s.outcome (.load i waker) = if ready then some (i, false) else none := by
      simp [outcome, Notify.load, hf, hload]
    rw [houtcome]
    exact h.load hload
  | @lock i ready w hlock =>
    have houtcome : s.outcome (.lock i) = some (i, !ready) := by
      simp [outcome, Notify.lock, hlock]
    rw [houtcome]
    exact h.lock honce hlock
  | drop hcancel => exact h.follows (WaitList.follows_cancel hok hcancel)
  | notifyOne hsignal => exact h.follows (WaitList.follows_signal hok hsignal)
  | notifyWaiters => exact h.follows (WaitList.follows_signalAll hok (by decide))

theorem agrees_of_reachable {s : Notify W × (ℕ → Bool)}
    (h : (observed.restrict fun s l => s.1.Fresh l).Reachable s) :
    TableAgrees s.1.kernel (s.1.wakers.map Entry.id) s.1.current (s.1.Waits s.2) := by
  have hreach := h.of_observe_restrict
  have hshown : s.1.toWaitList.Shown s.2 := by
    suffices hall : (machine.restrict Fresh).Reachable s.1 ∧ s.1.toWaitList.Shown s.2 from hall.2
    refine h.invariant
      (I := fun s => (machine.restrict Fresh).Reachable s.1 ∧ s.1.toWaitList.Shown s.2) ?_ ?_
    · rintro ⟨s, p⟩ ⟨rfl, rfl⟩
      exact ⟨.of_init rfl, fun i f hf => (by cases hf)⟩
    · rintro ⟨s, p⟩ l ⟨s', p'⟩ ⟨hreach, hshown⟩ ⟨hstep, hfresh⟩
      obtain ⟨hnext, rfl⟩ := Machine.observe_step hstep
      exact ⟨hreach.step ⟨hnext, hfresh⟩, (step_cases hnext).shown
        (sound_of_reachable hreach.of_restrict) (once_of_reachable hreach) hshown⟩
  exact hshown.agrees (sound_of_reachable hreach.of_restrict) (once_of_reachable hreach)

end Notify

/-! ### `Semaphore` -/

namespace Semaphore.System

variable {W : Type} {s s' : System W} {l : Label W}

/-- The future that the operation makes, or whose poll it ends, and whether that returns pending. -/
def outcome (s : System W) : Label W → Option (ℕ × Bool)
  | .acquire => some (s.futures.size, false)
  | .load i waker =>
    (s.toSemaphore.load i waker).bind fun res => if res.1 then some (i, false) else none
  | .lock i => (s.toSemaphore.lock i).map fun res => (i, !res.1.isReady)
  | _ => none

/-- Semaphores as a machine, with notes taken of which futures' latest poll has returned pending. -/
def observed : Machine (System W × (ℕ → Bool)) (Label W) :=
  Machine.observe (fun s => ∃ permits, s = new permits) step (fun _ => false)
    fun s l => noteReturn (s.outcome l)

theorem follows_release {n : ℕ} {sem sem' : Semaphore W} (h : release n sem = some sem')
    (hok : sem.toWaitList.Ok sem.closed) : sem.toWaitList.Follows sem'.toWaitList := by
  intro j f' hj
  obtain ⟨f, hf, t, rfl | ⟨-, rfl⟩⟩ := release_futures h hok hj <;> exact ⟨f, hf, rfl, rfl⟩

theorem Stepped.shown (hstep : Stepped s l s') (hopen : s'.closed = false)
    (hok : s.toWaitList.Ok s.closed) (honce : s.toWaitList.Once) {pending : ℕ → Bool}
    (h : s.toWaitList.Shown pending) :
    s'.toWaitList.Shown (noteReturn (s.outcome l) pending) := by
  cases hstep with
  | acquire => exact h.add
  | @load i waker ready w hload =>
    have houtcome : s.outcome (.load i waker) = if ready then some (i, false) else none := by
      simp [outcome, Semaphore.load, hload]
    rw [houtcome]
    exact h.load hload
  | @lock i ready w hopen₀ hlock =>
    have houtcome : s.outcome (.lock i) = some (i, !ready) := by
      cases ready <;> simp [outcome, Semaphore.lock, hopen₀, hlock, Poll.isReady]
    rw [houtcome]
    exact h.lock honce hlock
  | refuse hclosed =>
    have hopen₀ : s.closed = false := hopen
    rw [hclosed] at hopen₀
    cases hopen₀
  | drop hcancel => exact h.follows (WaitList.follows_cancel hok hcancel)
  | tryFail _ => exact h
  | tryAcquire _ _ => exact h
  | dropPermit _ hrelease => exact h.follows (follows_release hrelease hok)
  | forget _ => exact h
  | addPermits hrelease => exact h.follows (follows_release hrelease hok)
  | close => cases hopen

theorem agrees_of_reachable {s : System W × (ℕ → Bool)}
    (h : (observed.restrict fun s l => s.1.Contract l).Reachable s) (hopen : s.1.closed = false) :
    TableAgrees s.1.kernel (s.1.wakers.map Entry.id) s.1.current (s.1.Waits s.2) := by
  have hkept := kept_of_reachable h.of_observe_restrict
  have hshown : s.1.toWaitList.Shown s.2 := by
    suffices hall : Kept s.1 ∧ (s.1.closed = false → s.1.toWaitList.Shown s.2) from hall.2 hopen
    refine h.invariant
      (I := fun s => Kept s.1 ∧ (s.1.closed = false → s.1.toWaitList.Shown s.2)) ?_ ?_
    · rintro ⟨s, p⟩ ⟨⟨permits, rfl⟩, rfl⟩
      exact ⟨kept_new permits, fun _ i f hf => (by cases hf)⟩
    · rintro ⟨s, p⟩ l ⟨s', p'⟩ ⟨hkept, hshown⟩ ⟨hstep, hcontract⟩
      obtain ⟨hnext, rfl⟩ := Machine.observe_step hstep
      have hstepped := step_cases hnext
      refine ⟨hkept.step hstepped hcontract, fun hopen => ?_⟩
      exact hstepped.shown hopen hkept.sound hkept.once (hshown (hstepped.closed hopen))
  have hok : s.1.toWaitList.Ok s.1.closed := hkept.sound
  rw [hopen] at hok
  exact hshown.agrees hok hkept.once

end Semaphore.System

/-! ### The oneshot channel -/

namespace Oneshot.Channel

variable {T W : Type} {c : Channel T W}

/-- The id that the receiver has parked under, if it has. -/
def current (c : Channel T W) (_ : Unit) : Option ℕ :=
  c.rx.bind fun r => if r.parked then some r.id else none

/-- The latest poll of the receiver has returned pending, and it was not woken since. -/
def Waits (c : Channel T W) (_ : Unit) : Prop := c.last ≠ none ∧ c.woken = none

theorem agrees_of_reachable (h : machine.Reachable c) :
    TableAgrees c.inner.wkernel (c.inner.rxWaker.toList.map Prod.fst) c.current c.Waits := by
  -- nobody waits if nobody is parked
  have hquiet : ∀ c : Channel T W, c.inner.Quiet → (∀ u, ¬ c.Waits u) →
      TableAgrees c.inner.wkernel (c.inner.rxWaker.toList.map Prod.fst) c.current c.Waits := by
    rintro c ⟨hqueue, hwaker⟩ hwaits
    refine tableAgrees_of_owner ?_ ?_ ?_ fun u => iff_of_false (hwaits u) ?_
    · rw [hqueue]
      exact List.nodup_nil
    · rw [hqueue, hwaker]
      rfl
    · simp [hqueue]
    · simp [hqueue]
  cases shape_of_reachable h with
  | start => exact hquiet _ ⟨rfl, rfl⟩ fun _ hwaits => hwaits.1 rfl
  | parked w =>
    refine tableAgrees_of_owner (List.nodup_singleton 0) rfl ?_ fun u => iff_of_true ?_ ?_
    · intro id hid
      exact ⟨(), by rw [List.mem_singleton.mp hid]; rfl⟩
    · exact ⟨by simp, rfl⟩
    · exact ⟨0, rfl, List.mem_singleton_self 0⟩
  | deserted => exact hquiet _ ⟨rfl, rfl⟩ fun _ hwaits => hwaits.1 rfl
  | signalled hsig =>
    refine hquiet _ hsig.quiet ?_
    rintro - ⟨hlast, hwoken⟩
    obtain ⟨w, hw⟩ := Option.ne_none_iff_exists'.mp hlast
    rw [hsig.woken w hw] at hwoken
    cases hwoken

end Oneshot.Channel

/-! ### The watch channel -/

namespace Watch.Channel

variable {T W : Type} {c : Channel T W}

theorem agrees_of_reachable (h : (machine.restrict Fresh).Reachable c) :
    TableAgrees c.inner.rxKernel (c.inner.waiters.map Prod.fst) c.current c.Waits :=
  tableAgrees_of_tickets (ticketed_of_reachable h) (sound_of_reachable h.of_restrict).synced.ids

end Watch.Channel

/-! ### The broadcast channel -/

namespace Broadcast.Channel

variable {T W : Type}

theorem agrees_of_reachable {s : Channel T W × (ℕ → Phase)}
    (h : (observed.restrict Contract).Reachable s) :
    TableAgrees s.1.inner.rxKernel (s.1.inner.waiters.map Prod.fst) s.1.current
      fun i => s.2 i = .waiting := by
  have hheard := heard_of_reachable h
  exact tableAgrees_of_tickets hheard.tickets hheard.synced.ids

end Broadcast.Channel

/-! ### The senders of the bounded mpsc channel -/

namespace Mpsc.Channel

variable {T W : Type} {s s' : Channel T W} {l : Label T W} {pending : ℕ → Bool} {i : ℕ}

/-- The id that future number `i` has parked under, if it has. -/
def current (s : Channel T W) (i : ℕ) : Option ℕ :=
  (live s.futures i).bind fun f => if f.parked then some f.id else none

/-- The latest poll of future number `i` has returned pending, and it was not woken since. -/
def Waits (s : Channel T W) (pending : ℕ → Bool) (i : ℕ) : Prop :=
  pending i = true ∧ ∃ f, live s.futures i = some f ∧ f.woken = false

/-- The future that the operation makes or polls, and whether that returns pending. -/
def outcome (s : Channel T W) : Label T W → Option (ℕ × Bool)
  | .send _ => some (s.futures.length, false)
  | .reserve => some (s.futures.length, false)
  | .poll i waker =>
    (s.step (.poll i waker)).bind fun s' => (live s'.futures i).map fun f => (i, !f.finished)
  | _ => none

/-- Channels as a machine, with notes taken of which futures' latest poll has returned pending. No
future is polled after it has returned ready. -/
def observed : Machine (Channel T W × (ℕ → Bool)) (Label T W) :=
  Machine.observe (fun s => ∃ capacity, 0 < capacity ∧ s = new capacity) step (fun _ => false)
    fun s l => noteReturn (s.outcome l)

theorem mem_current {id : ℕ} :
    id ∈ s.current i ↔ ∃ f, live s.futures i = some f ∧ f.parked = true ∧ f.id = id := by
  simp only [current, Option.mem_def, Option.bind_eq_some_iff, Option.ite_none_right_eq_some,
    Option.some.injEq]

/-- While the channel is open, a future whose latest poll has returned pending has parked. -/
def Shown (futures : List (Option (SenderFuture T))) (pending : ℕ → Bool) : Prop :=
  Noted (live futures) (fun f => f.parked = true ∧ f.finished = false) pending

section Shown

variable {futures : List (Option (SenderFuture T))}

theorem Shown.add (h : Shown futures pending) (kind : Kind T) :
    Shown (futures ++ [some (.new kind)]) (Function.update pending futures.length false) := by
  refine Noted.update h ?_ fun j => live_append ..
  simp [SenderFuture.new, Waiter.new]

theorem Shown.polled (h : Shown futures pending) {f f' : SenderFuture T} {w : Waiter}
    {g g' : Inner T W} (hf : live futures i = some f)
    (hpoll : g.Polled g' f.toWaiter w f'.finished) (hw : f'.toWaiter = w) :
    Shown (futures.set i (some f')) (Function.update pending i !f'.finished) := by
  have hparked : f'.finished = false → f'.parked = true := by
    intro hpending
    rw [hw]
    rcases hpoll with ⟨hready, -⟩ | ⟨-, -, hparked, -, rfl, -⟩ | ⟨-, -, -, -, rfl, -⟩
    · rw [hpending] at hready
      cases hready
    · exact hparked
    · rfl
  refine Noted.update h ?_ fun j => live_set hf ..
  rw [Bool.not_eq_true']
  exact ⟨fun hpending => ⟨hparked hpending, hpending⟩, And.right⟩

theorem Shown.noteWoken (h : Shown futures pending) (woken : Option (ℕ × W)) :
    Shown (noteWoken woken futures) pending := by
  cases woken with
  | none => exact h
  | some entry =>
    refine Noted.follows h fun j f' hj => ?_
    rw [Mpsc.noteWoken, live_markWoken] at hj
    obtain ⟨f, hf, rfl⟩ := Option.map_eq_some_iff.mp hj
    have hfinished : (f.mark entry.1).finished = f.finished := by
      rw [SenderFuture.mark]
      split <;> rfl
    refine ⟨f, hf, ?_⟩
    rw [mark_parked, hfinished]

theorem Shown.drop (h : Shown futures pending) {f : SenderFuture T} (hf : live futures i = some f) :
    Shown (futures.set i none) pending := by
  refine Noted.follows h fun j f' hj => ⟨f', ?_, Iff.rfl⟩
  rw [live_set hf] at hj
  split at hj
  · cases hj
  · exact hj

end Shown

theorem shown_step (hstep : s.step l = some s') (hok : s.inner.TxOk)
    (hopen : s.inner.rxClosed = false) (h : Shown s.futures pending) :
    Shown s'.futures (noteReturn (s.outcome l) pending) := by
  -- what is noted of a poll
  have houtcome : ∀ {i : ℕ} {waker : W} {f f' : SenderFuture T}, l = .poll i waker →
      live s.futures i = some f → s'.futures = s.futures.set i (some f') →
      s.outcome l = some (i, !f'.finished) := by
    rintro i waker f f' rfl hf hfutures
    rw [outcome, hstep, Option.bind_some, hfutures, live_set hf, if_pos rfl]
    rfl
  cases step_cases hstep with
  | trySend => exact h
  | send => exact h.add _
  | tryReserve => exact h
  | reserve => exact h.add _
  | pollSend hf _ hpoll =>
    have hf := live_eq_some.mpr hf
    obtain ⟨hpolled, -, -⟩ := Inner.pollSend_polled hok hopen hpoll
    rw [houtcome rfl hf rfl]
    exact h.polled hf hpolled rfl
  | pollReserve hf _ hpoll =>
    have hf := live_eq_some.mpr hf
    obtain ⟨hpolled, -, -⟩ := Inner.pollReserve_polled hok hopen hpoll
    rw [houtcome rfl hf rfl]
    exact h.polled hf hpolled rfl
  | drop hf => exact (h.drop (live_eq_some.mpr hf)).noteWoken _
  | permitSend => exact h
  | permitDrop => exact h.noteWoken _
  | cloneSender => exact h
  | dropSender => exact h
  | tryRecv => exact h.noteWoken _
  | recv => exact h
  | pollRecv => exact h.noteWoken _
  | dropRecv => exact h
  | close => exact h
  | dropReceiver => exact h

theorem agrees_of_reachable {s : Channel T W × (ℕ → Bool)} (h : observed.Reachable s)
    (hopen : s.1.inner.rxClosed = false) :
    TableAgrees s.1.inner.txKernel (s.1.inner.txWakers.map Prod.fst) s.1.current
      (s.1.Waits s.2) := by
  obtain ⟨htx, hok, -⟩ := openOk_of_reachable h.of_observe hopen
  have hshown : Shown s.1.futures s.2 := by
    suffices hall : machine.Reachable s.1 ∧ (s.1.inner.rxClosed = false → Shown s.1.futures s.2)
      from hall.2 hopen
    refine h.invariant (I := fun s =>
      machine.Reachable s.1 ∧ (s.1.inner.rxClosed = false → Shown s.1.futures s.2)) ?_ ?_
    · rintro ⟨s, p⟩ ⟨⟨capacity, hpos, rfl⟩, rfl⟩
      exact ⟨.of_init ⟨capacity, hpos, rfl⟩, fun _ i f hf => (by cases hf)⟩
    · rintro ⟨s, p⟩ l ⟨s', p'⟩ ⟨hreach, hshown⟩ hstep
      obtain ⟨hnext, rfl⟩ := Machine.observe_step hstep
      refine ⟨hreach.step hnext, fun hopen' => ?_⟩
      have hopen := open_of_step hnext hopen'
      exact shown_step hnext (openOk_of_reachable hreach hopen).tx hopen (hshown hopen)
  refine tableAgrees_of_owner hok.nodup htx.ids (fun id hid => ?_) fun i => ⟨?_, ?_⟩
  · obtain ⟨i, f, hf, hparked, heq⟩ := hok.owner id hid
    exact ⟨i, mem_current.mpr ⟨f, hf, hparked, heq⟩⟩
  · rintro ⟨hpending, f, hf, hwoken⟩
    obtain ⟨hparked, hfinished⟩ := (hshown i f hf).mp hpending
    refine ⟨f.id, mem_current.mpr ⟨f, hf, hparked, rfl⟩, ?_⟩
    by_contra hqueued
    have htaken := (hok.flags i f hf).woken.mpr ⟨hparked, hfinished, hqueued⟩
    rw [hwoken] at htaken
    cases htaken
  · rintro ⟨id, hid, hqueued⟩
    obtain ⟨f, hf, hparked, rfl⟩ := mem_current.mp hid
    have hflags := hok.flags i f hf
    have hfinished : f.finished = false :=
      Bool.eq_false_iff.mpr fun hfinished => hflags.finished hfinished hparked hqueued
    have hwoken : f.woken = false :=
      Bool.eq_false_iff.mpr fun hwoken => (hflags.woken.mp hwoken).2.2 hqueued
    exact ⟨(hshown i f hf).mpr ⟨hparked, hfinished⟩, f, hf, hwoken⟩

end Mpsc.Channel

/-! ### All of them -/

/-- **Kernels and tables.** After any operations in any order, where no future is polled after it
has returned ready, and the semaphore and the mpsc channel are not closed: the ids that a kernel has
queued are distinct, and are those that have a waker; no id takes a signal that has none; and a
future is queued exactly if its latest poll has returned pending and it was not signalled since. -/
theorem reachable_agrees (T W : Type) :
    (∀ s : Notify W × (ℕ → Bool), (Notify.observed.restrict fun s l => s.1.Fresh l).Reachable s →
      TableAgrees s.1.kernel (s.1.wakers.map Entry.id) s.1.current (s.1.Waits s.2)) ∧
    (∀ c : Watch.Channel T W, (Watch.Channel.machine.restrict Watch.Channel.Fresh).Reachable c →
      TableAgrees c.inner.rxKernel (c.inner.waiters.map Prod.fst) c.current c.Waits) ∧
    (∀ s : Broadcast.Channel T W × (ℕ → Broadcast.Phase),
      (Broadcast.Channel.observed.restrict Broadcast.Channel.Contract).Reachable s →
      TableAgrees s.1.inner.rxKernel (s.1.inner.waiters.map Prod.fst) s.1.current
        fun i => s.2 i = .waiting) ∧
    (∀ c : Oneshot.Channel T W, Oneshot.Channel.machine.Reachable c →
      TableAgrees c.inner.wkernel (c.inner.rxWaker.toList.map Prod.fst) c.current c.Waits) ∧
    (∀ s : Semaphore.System W × (ℕ → Bool),
      (Semaphore.System.observed.restrict fun s l => s.1.Contract l).Reachable s →
      s.1.closed = false →
      TableAgrees s.1.kernel (s.1.wakers.map Entry.id) s.1.current (s.1.Waits s.2)) ∧
    ∀ s : Mpsc.Channel T W × (ℕ → Bool), Mpsc.Channel.observed.Reachable s →
      s.1.inner.rxClosed = false →
      TableAgrees s.1.inner.txKernel (s.1.inner.txWakers.map Prod.fst) s.1.current
        (s.1.Waits s.2) :=
  ⟨fun _ => Notify.agrees_of_reachable, fun _ => Watch.Channel.agrees_of_reachable,
    fun _ => Broadcast.Channel.agrees_of_reachable, fun _ => Oneshot.Channel.agrees_of_reachable,
    fun _ => Semaphore.System.agrees_of_reachable, fun _ => Mpsc.Channel.agrees_of_reachable⟩

/-- In each of them a future has parked. But for the oneshot channel, it is the second one to do so:
the first was signalled or dropped. -/
theorem reachable_agrees_parked :
    (∃ s : Notify ℕ × (ℕ → Bool), (Notify.observed.restrict fun s l => s.1.Fresh l).Reachable s ∧
      s.1.kernel.queue = [1] ∧
      TableAgrees s.1.kernel (s.1.wakers.map Entry.id) s.1.current (s.1.Waits s.2)) ∧
    (∃ c : Watch.Channel ℕ ℕ, (Watch.Channel.machine.restrict Watch.Channel.Fresh).Reachable c ∧
      c.inner.rxKernel.queue = [1] ∧
      TableAgrees c.inner.rxKernel (c.inner.waiters.map Prod.fst) c.current c.Waits) ∧
    (∃ s : Broadcast.Channel ℕ ℕ × (ℕ → Broadcast.Phase),
      (Broadcast.Channel.observed.restrict Broadcast.Channel.Contract).Reachable s ∧
      s.1.inner.rxKernel.queue = [1] ∧
      TableAgrees s.1.inner.rxKernel (s.1.inner.waiters.map Prod.fst) s.1.current
        fun i => s.2 i = .waiting) ∧
    (∃ c : Oneshot.Channel ℕ ℕ, Oneshot.Channel.machine.Reachable c ∧
      c.inner.wkernel.queue = [0] ∧
      TableAgrees c.inner.wkernel (c.inner.rxWaker.toList.map Prod.fst) c.current c.Waits) ∧
    (∃ s : Semaphore.System ℕ × (ℕ → Bool),
      (Semaphore.System.observed.restrict fun s l => s.1.Contract l).Reachable s ∧
      s.1.closed = false ∧ s.1.kernel.queue = [1] ∧
      TableAgrees s.1.kernel (s.1.wakers.map Entry.id) s.1.current (s.1.Waits s.2)) ∧
    ∃ s : Mpsc.Channel ℕ ℕ × (ℕ → Bool), Mpsc.Channel.observed.Reachable s ∧
      s.1.inner.rxClosed = false ∧ s.1.inner.txKernel.queue = [1] ∧
      TableAgrees s.1.inner.txKernel (s.1.inner.txWakers.map Prod.fst) s.1.current
        (s.1.Waits s.2) := by
  obtain ⟨hnotify, hwatch, hbroadcast, honeshot, hsemaphore, hmpsc⟩ := reachable_agrees ℕ ℕ
  refine ⟨?_, ?_, ?_, ?_, ?_, ?_⟩
  · obtain ⟨s, hfollow, hqueue⟩ : ∃ s : Notify ℕ × (ℕ → Bool),
        Machine.follow (fun s l => if s.1.Fresh l then
            Machine.noting Notify.step (fun s l => noteReturn (s.outcome l)) s l else none)
          [.notified, .notified, .load 0 7, .lock 0, .load 1 8, .lock 1, .notifyOne]
          (.new, fun _ => false) = some s ∧ s.1.kernel.queue = [1] := ⟨_, rfl, rfl⟩
    have hstart : (Notify.observed.restrict fun s l => s.1.Fresh l).Reachable
        ((.new, fun _ => false) : Notify ℕ × (ℕ → Bool)) := .of_init ⟨rfl, rfl⟩
    have hreach := hstart.follow_restrict hfollow
    exact ⟨s, hreach, hqueue, hnotify s hreach⟩
  · obtain ⟨c, hfollow, hqueue⟩ : ∃ c : Watch.Channel ℕ ℕ,
        Machine.follow (fun c l => if c.Fresh l then c.step l else none)
          [.subscribe, .changed 0, .poll 0 7, .changed 1, .poll 1 8, .dropChanged 0] (.new 5) =
          some c ∧ c.inner.rxKernel.queue = [1] := ⟨_, rfl, rfl⟩
    have hstart : (Watch.Channel.machine.restrict Watch.Channel.Fresh).Reachable
        (.new 5 : Watch.Channel ℕ ℕ) := .of_init ⟨5, rfl⟩
    have hreach := hstart.follow_restrict hfollow
    exact ⟨c, hreach, hqueue, hwatch c hreach⟩
  · obtain ⟨s, hfollow, hqueue⟩ : ∃ s : Broadcast.Channel ℕ ℕ × (ℕ → Broadcast.Phase),
        Machine.follow (fun s l => if Broadcast.Channel.Contract s l then
            Machine.noting Broadcast.Channel.step Broadcast.Channel.note s l else none)
          [.recv 0, .pollRecv 0 7, .send 5, .pollRecv 0 7, .dropRecv 0, .recv 0, .pollRecv 0 7]
          (.new 2, fun _ => .fresh) = some s ∧ s.1.inner.rxKernel.queue = [1] := ⟨_, rfl, rfl⟩
    have hstart : (Broadcast.Channel.observed.restrict Broadcast.Channel.Contract).Reachable
        ((.new 2, fun _ => .fresh) : Broadcast.Channel ℕ ℕ × (ℕ → Broadcast.Phase)) :=
      .of_init ⟨⟨2, by decide, rfl⟩, rfl⟩
    have hreach := hstart.follow_restrict hfollow
    exact ⟨s, hreach, hqueue, hbroadcast s hreach⟩
  · obtain ⟨c, hfollow, hqueue⟩ : ∃ c : Oneshot.Channel ℕ ℕ,
        Machine.follow Oneshot.Channel.step [.poll 7, .poll 8] .new = some c ∧
          c.inner.wkernel.queue = [0] := ⟨_, rfl, rfl⟩
    have hstart : Oneshot.Channel.machine.Reachable (.new : Oneshot.Channel ℕ ℕ) := .of_init rfl
    have hreach := hstart.follow hfollow
    exact ⟨c, hreach, hqueue, honeshot c hreach⟩
  · obtain ⟨s, hfollow, hopen, hqueue⟩ : ∃ s : Semaphore.System ℕ × (ℕ → Bool),
        Machine.follow (fun s l => if s.1.Contract l then
            Machine.noting Semaphore.System.step (fun s l => noteReturn (s.outcome l)) s l
            else none)
          [.acquire, .acquire, .load 0 7, .lock 0, .load 1 8, .lock 1, .addPermits 1]
          (.new 0, fun _ => false) = some s ∧ s.1.closed = false ∧ s.1.kernel.queue = [1] :=
      ⟨_, rfl, rfl, rfl⟩
    have hstart : (Semaphore.System.observed.restrict fun s l => s.1.Contract l).Reachable
        ((.new 0, fun _ => false) : Semaphore.System ℕ × (ℕ → Bool)) := .of_init ⟨⟨0, rfl⟩, rfl⟩
    have hreach := hstart.follow_restrict hfollow
    exact ⟨s, hreach, hopen, hqueue, hsemaphore s hreach hopen⟩
  · obtain ⟨s, hfollow, hopen, hqueue⟩ : ∃ s : Mpsc.Channel ℕ ℕ × (ℕ → Bool),
        Machine.follow
          (Machine.noting Mpsc.Channel.step fun s l => noteReturn (s.outcome l))
          [.trySend 5, .send 6, .reserve, .poll 0 7, .poll 1 8, .tryRecv]
          (.new 1, fun _ => false) = some s ∧ s.1.inner.rxClosed = false ∧
          s.1.inner.txKernel.queue = [1] := ⟨_, rfl, rfl, rfl⟩
    have hstart : Mpsc.Channel.observed.Reachable
        ((.new 1, fun _ => false) : Mpsc.Channel ℕ ℕ × (ℕ → Bool)) :=
      .of_init ⟨⟨1, by decide, rfl⟩, rfl⟩
    have hreach := hstart.follow hfollow
    exact ⟨s, hreach, hopen, hqueue, hmpsc s hreach hopen⟩

end Lion
