import Lion.Sync.InFlight

/-!
# Notifications

`Notify` of `lion-utility`. A call of `notify_one` is delivered to the future that parked first, or
stored if nobody waits; a future that is dropped before it has seen the delivery passes it on. A
call of `notify_waiters` is delivered to everybody who waits, never stored, and never passed on. The
flag of a future tells the two apart.

## What is counted

Every call of `notify_one` is in one of three places: stored, delivered to a future that has not
returned ready, or seen by one that has (`Counted`). Calls of `notify_waiters` do not enter the
equation, and a future they were delivered to has nothing to pass on when it goes (`drop_all`), so
that neither kind is mistaken for the other.

The deliveries, the entries and the order of waiters are those of `WaitList`. What is left for this
module is to see which value of the flag each operation delivers.

## Conventions

Two fields are not in the source: how often `notify_one` was called, and how many futures returned
ready because of that. Runs keep the contract of `Future`, and make fewer calls of `notify_one` than
a word counts.

## Main results

* `Notify.restrict_counted` — no notification is lost or invented
-/

namespace Lion

/-- The flag of a future: `PENDING`, `NOTIFIED_ONE` and `NOTIFIED_ALL`. -/
inductive Flag
  | pending
  | one
  | all
deriving DecidableEq, Repr, Inhabited

/-- `Notify`, with the futures of `notified` and a count of what was called and served. -/
structure Notify (W : Type) extends WaitList Flag W where
  calls : ℕ
  served : ℕ
deriving DecidableEq, Repr

namespace Notify

variable {W : Type}

/-- The operations of `Notify` and `Notified`. A poll is `load`, up to the mutex, and then `lock`,
unless its flag was set. -/
inductive Label (W : Type)
  | notified
  | load (i : ℕ) (waker : W)
  | lock (i : ℕ)
  | drop (i : ℕ)
  | notifyOne
  | notifyWaiters
deriving DecidableEq, Repr

/-- The future whose poll begins, if one does. -/
def Label.polled : Label W → Option ℕ
  | .load i _ => some i
  | _ => none

/-- `Notify::new`, with nothing stored and nobody waiting. -/
def new : Notify W := ⟨.new 0, 0, 0⟩

/-- `Notify::notified`: a future, which does nothing until it is polled. -/
def notified (s : Notify W) : Notify W := { s with toWaitList := s.toWaitList.add }

/-- `Notified::poll`, up to the mutex: whether the flag was set. -/
def load (s : Notify W) (i : ℕ) (waker : W) : Option (Bool × Notify W) := do
  let f ← s.futures.get i
  let (ready, l) ← s.toWaitList.load i waker
  return (ready, { s with
    toWaitList := l, served := s.served + (ready && f.flag = .one).toNat })

/-- The rest of `Notified::poll`: a stored permit, or the wait. -/
def lock (s : Notify W) (i : ℕ) : Option (Bool × Notify W) := do
  let (ready, l) ← s.toWaitList.lock i
  return (ready, { s with toWaitList := l, served := s.served + ready.toNat })

/-- `Notified::drop`: pass a call of `notify_one` on, or leave the queue. -/
def drop (s : Notify W) (i : ℕ) : Option (Notify W) :=
  (s.toWaitList.cancel (· = .one) .one i).map fun l => { s with toWaitList := l }

/-- `Notify::notify_one`: one delivery, or a stored permit. -/
def notifyOne (s : Notify W) : Option (Notify W) :=
  (s.toWaitList.signal .one).map fun l => { s with toWaitList := l, calls := s.calls + 1 }

/-- `Notify::notify_waiters`: a delivery to everybody who waits by now. -/
def notifyWaiters (s : Notify W) : Notify W :=
  { s with toWaitList := s.toWaitList.signalAll .all }

/-- One operation. `none`: it panics, or there is nothing to call it on. -/
def step (s : Notify W) : Label W → Option (Notify W)
  | .notified => some s.notified
  | .load i waker => (s.load i waker).map Prod.snd
  | .lock i => (s.lock i).map Prod.snd
  | .drop i => s.drop i
  | .notifyOne => s.notifyOne
  | .notifyWaiters => some s.notifyWaiters

/-- Notifications as a machine, with no futures to begin with. -/
def machine : Machine (Notify W) (Label W) := Machine.ofStep (· = new) step

/-! ### What one operation does -/

variable {s s' : Notify W} {l : Label W}

/-- The operations with what they call, under the names of their labels. -/
inductive Stepped (s : Notify W) : Label W → Notify W → Prop
  | notified : Stepped s .notified { s with toWaitList := s.toWaitList.add }
  | load {i : ℕ} {waker : W} {ready : Bool} {f : Waiting Flag W} {w : WaitList Flag W} :
      s.futures.get i = some f → s.toWaitList.load i waker = some (ready, w) →
      Stepped s (.load i waker) { s with
        toWaitList := w, served := s.served + (ready && f.flag = .one).toNat }
  | lock {i : ℕ} {ready : Bool} {w : WaitList Flag W} : s.toWaitList.lock i = some (ready, w) →
      Stepped s (.lock i) { s with toWaitList := w, served := s.served + ready.toNat }
  | drop {i : ℕ} {w : WaitList Flag W} : s.toWaitList.cancel (· = .one) .one i = some w →
      Stepped s (.drop i) { s with toWaitList := w }
  | notifyOne {w : WaitList Flag W} : s.toWaitList.signal .one = some w →
      Stepped s .notifyOne { s with toWaitList := w, calls := s.calls + 1 }
  | notifyWaiters : Stepped s .notifyWaiters { s with toWaitList := s.toWaitList.signalAll .all }

/-- **Every operation is one of these.** -/
theorem step_cases (h : s.step l = some s') : Stepped s l s' := by
  cases l with
  | notified =>
    cases h
    exact .notified
  | load i waker =>
    obtain ⟨⟨ready, n⟩, hload, rfl⟩ := Option.map_eq_some_iff.mp h
    obtain ⟨f, hf, hrest⟩ := Option.bind_eq_some_iff.mp hload
    obtain ⟨⟨ready', w⟩, hw, heq⟩ := Option.bind_eq_some_iff.mp hrest
    cases heq
    exact .load hf hw
  | lock i =>
    obtain ⟨⟨ready, n⟩, hlock, rfl⟩ := Option.map_eq_some_iff.mp h
    obtain ⟨⟨ready', w⟩, hw, heq⟩ := Option.bind_eq_some_iff.mp hlock
    cases heq
    exact .lock hw
  | drop i =>
    obtain ⟨w, hw, rfl⟩ := Option.map_eq_some_iff.mp h
    exact .drop hw
  | notifyOne =>
    obtain ⟨w, hw, rfl⟩ := Option.map_eq_some_iff.mp h
    exact .notifyOne hw
  | notifyWaiters =>
    cases h
    exact .notifyWaiters

/-- The table and the futures agree. A `Notify` is never closed. -/
def Sound (s : Notify W) : Prop := s.toWaitList.Ok false

theorem Sound.step (h : Sound s) (hstep : Stepped s l s') : Sound s' := by
  cases hstep with
  | notified => exact WaitList.Ok.add h
  | load _ hload => exact WaitList.Ok.load h hload
  | lock hlock => exact WaitList.Ok.lock h hlock
  | drop hcancel => exact WaitList.Ok.cancel h (by decide) hcancel
  | notifyOne hsignal => exact WaitList.Ok.signal h (by decide) hsignal
  | notifyWaiters => exact WaitList.Ok.signalAll h (by decide)

theorem sound_of_reachable (h : machine.Reachable s) : Sound s := by
  refine h.invariant ?_ ?_
  · rintro s rfl
    exact WaitList.ok_new 0
  · intro s l s' hs hstep
    exact hs.step (step_cases hstep)

/-! ### Counting -/

/-- No future is polled after it has returned ready, and less than `u64::MAX` permits are stored. -/
def Contract (s : Notify W) (l : Label W) : Prop :=
  (∀ i ∈ l.polled, ∀ f ∈ s.futures.get i, f.finished = false) ∧ s.kernel.permit + 1 < UInt64.size

instance (s : Notify W) (l : Label W) : Decidable (s.Contract l) :=
  inferInstanceAs (Decidable (_ ∧ _))

/-- The futures that a call of `notify_one` was delivered to, and that have not returned ready. -/
def flagged (s : Notify W) : ℕ := s.futures.count fun f => f.flag = .one && !f.completed

/-- Every call of `notify_one` is stored, was seen, or was delivered and not yet seen. -/
def Counted (s : Notify W) : Prop := s.calls = s.kernel.permit + s.served + s.flagged

theorem owed_eq (s : Notify W) : s.toWaitList.owed (· = .one) = s.kernel.permit + s.flagged := rfl

/-- What holds in runs that keep the contract. -/
structure Kept (s : Notify W) : Prop where
  sound : Sound s
  once : s.toWaitList.Once
  counted : Counted s

theorem Stepped.once (hstep : Stepped s l s') (hok : s.toWaitList.Ok false)
    (honce : s.toWaitList.Once)
    (hfresh : ∀ i ∈ l.polled, ∀ f ∈ s.futures.get i, f.finished = false) :
    s'.toWaitList.Once := by
  cases hstep with
  | notified => exact honce.add
  | load _ hload => exact honce.load hok hload fun f hf => hfresh _ rfl f hf
  | lock hlock => exact honce.lock hok hlock
  | drop hcancel => exact honce.cancel hok hcancel
  | notifyOne hsignal => exact honce.signal hok hsignal
  | notifyWaiters =>
    exact (WaitList.owed_signalAll (· = .one) honce hok rfl (by decide) rfl).1

/-- What an operation does to the calls stored and delivered, it does to those seen and made. -/
theorem Stepped.owed (hstep : Stepped s l s') (hok : s.toWaitList.Ok false)
    (honce : s.toWaitList.Once) (hcontract : s.Contract l) :
    s'.toWaitList.owed (· = .one) + s'.served + s.calls =
      s.toWaitList.owed (· = .one) + s.served + s'.calls := by
  cases hstep with
  | notified =>
    show s.toWaitList.add.owed (· = .one) + s.served + s.calls = _
    rw [WaitList.owed_add s.toWaitList rfl]
  | @load i waker ready f w hf hload =>
    show w.owed (· = .one) + (s.served + (ready && f.flag = .one).toNat) + s.calls =
      s.toWaitList.owed (· = .one) + s.served + s.calls
    obtain ⟨f', hf', ⟨rfl, -, howed⟩ | ⟨rfl, howed⟩⟩ :=
      WaitList.owed_load (· = .one) honce hload fun f hf => hcontract.1 i rfl f hf
    · rw [hf] at hf'
      cases hf'
      rw [Bool.true_and]
      omega
    · rw [howed]
      rfl
  | @lock i ready w hlock =>
    show w.owed (· = .one) + (s.served + ready.toNat) + s.calls =
      s.toWaitList.owed (· = .one) + s.served + s.calls
    have howed := WaitList.owed_lock (· = .one) hok rfl hlock
    omega
  | @drop i w hcancel =>
    show w.owed (· = .one) + s.served + s.calls = _
    rw [WaitList.owed_cancel honce hok rfl rfl (.inr hcontract.2) hcancel]
  | @notifyOne w hsignal =>
    show w.owed (· = .one) + s.served + s.calls =
      s.toWaitList.owed (· = .one) + s.served + (s.calls + 1)
    rcases WaitList.owed_signal (· = .one) honce hok rfl hsignal with ⟨-, howed⟩ | ⟨-, hv, -⟩
    · omega
    · cases hv
  | notifyWaiters =>
    show (s.toWaitList.signalAll .all).owed (· = .one) + s.served + s.calls = _
    rw [(WaitList.owed_signalAll (· = .one) honce hok rfl (by decide) rfl).2]

theorem Kept.step (h : Kept s) (hstep : Stepped s l s') (hcontract : s.Contract l) : Kept s' := by
  refine ⟨h.sound.step hstep, hstep.once h.sound h.once hcontract.1, ?_⟩
  have hcounted : s.calls = s.kernel.permit + s.served + s.flagged := h.counted
  have howed := hstep.owed h.sound h.once hcontract
  have heq := owed_eq s
  have heq' := owed_eq s'
  show s'.calls = s'.kernel.permit + s'.served + s'.flagged
  omega

theorem kept_of_reachable (h : (machine.restrict Contract).Reachable s) : Kept s := by
  refine h.invariant ?_ ?_
  · rintro s rfl
    exact ⟨WaitList.ok_new 0, WaitList.once_new 0, rfl⟩
  · intro s l s' hs hstep
    exact hs.step (step_cases hstep.1) hstep.2

/-- A future that `notify_waiters` was delivered to has nothing to pass on. -/
theorem drop_all (hok : s.toWaitList.Ok false) {i : ℕ} {f : Waiting Flag W}
    (hf : s.futures.get i = some f) (hflag : f.flag = .all) (hdrop : s.drop i = some s') :
    s' = { s with toWaitList := s.toWaitList.put i none } := by
  obtain ⟨w, hcancel, rfl⟩ := Option.map_eq_some_iff.mp hdrop
  obtain ⟨f', hf', -, hcase⟩ := WaitList.cancel_cases hcancel
  rw [hf] at hf'
  cases hf'
  rcases hcase with ⟨rfl, -⟩ | ⟨-, -, hmem, -⟩ | ⟨-, -, -, hone, -⟩
  · rfl
  · have hne : f.flag ≠ default := by
      rw [hflag]
      decide
    exact absurd hmem ((hok.futures i f hf).flagged hne).2
  · rw [hflag] at hone
    cases hone

/-- **No notification is lost or invented.** Calls of `notify_one` are counted. A call of
`notify_waiters` sets the flags of the futures that wait, so that they return ready when they are
polled next, and changes neither the permits nor the other futures; and a future whose flag it has
set takes nothing with it when it is dropped. -/
theorem restrict_counted (h : (machine.restrict Contract).Reachable s) :
    s.Counted ∧
    (s.notifyWaiters.kernel = ⟨s.kernel.permit, []⟩ ∧ s.notifyWaiters.calls = s.calls ∧
      s.notifyWaiters.served = s.served ∧
      ∀ i, ∃ t, s.notifyWaiters.futures.get i = (s.futures.get i).map fun f =>
        if f.parked = true ∧ f.flag = .pending then { f with flag := .all, taken := t } else f) ∧
    (∀ i f waker ready s', s.futures.get i = some f → s.load i waker = some (ready, s') →
      ready = decide (f.flag ≠ .pending)) ∧
    ∀ i f s', s.futures.get i = some f → f.flag = .all → s.drop i = some s' →
      s' = { s with toWaitList := s.toWaitList.put i none } := by
  have hkept := kept_of_reachable h
  have hok : s.toWaitList.Ok false := hkept.sound
  refine ⟨hkept.counted, ⟨?_, rfl, rfl, ?_⟩, ?_, ?_⟩
  · have htable := (WaitList.signalAll_induction (P := fun _ => True) (v := Flag.all) hok
      (by decide) trivial fun _ _ _ _ _ _ => trivial).2
    exact congrArg Table.kernel htable
  · exact fun i => WaitList.signalAll_futures hok (by decide) i
  · intro i f waker ready s' hf hload
    obtain ⟨f₁, hf₁, hrest⟩ := Option.bind_eq_some_iff.mp hload
    obtain ⟨⟨ready', w⟩, hw, heq⟩ := Option.bind_eq_some_iff.mp hrest
    cases heq
    obtain ⟨f₂, hf₂, -, ⟨rfl, hflag, -⟩ | ⟨rfl, hflag, -⟩⟩ := WaitList.load_cases hw
    · rw [hf] at hf₂
      cases hf₂
      exact (decide_eq_true hflag).symm
    · rw [hf] at hf₂
      cases hf₂
      exact (decide_eq_false (not_not.mpr hflag)).symm
  · exact fun i f s' hf hflag hdrop => drop_all hok hf hflag hdrop

/-- Two futures wait; one is notified, and passes it on to the other when it is dropped. -/
theorem restrict_counted_forward : ∃ s : Notify ℕ, (machine.restrict Contract).Reachable s ∧
    s.calls = 1 ∧ s.kernel.permit = 0 ∧ s.served = 0 ∧ s.flagged = 1 ∧ s.Counted := by
  obtain ⟨s, hfollow, hcalls, hpermit, hserved, hflagged⟩ : ∃ s : Notify ℕ,
      Machine.follow (fun s l => if Contract s l then step s l else none)
        [.notified, .load 0 7, .lock 0, .notified, .load 1 8, .lock 1, .notifyOne, .drop 0] new =
        some s ∧ s.calls = 1 ∧ s.kernel.permit = 0 ∧ s.served = 0 ∧ s.flagged = 1 :=
    ⟨_, rfl, rfl, rfl, rfl, rfl⟩
  have hstart : (machine.restrict Contract).Reachable (new : Notify ℕ) := .of_init rfl
  have hreach := hstart.follow_restrict hfollow
  exact ⟨s, hreach, hcalls, hpermit, hserved, hflagged, (restrict_counted hreach).1⟩

end Notify

end Lion
