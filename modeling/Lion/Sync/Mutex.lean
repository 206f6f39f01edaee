import Lion.Sync.Semaphore

/-!
# The mutex

`Mutex` of `lion-utility`: a semaphore with one permit. A `MutexGuard` holds the permit as a
`SemaphorePermit`; an `OwnedMutexGuard` holds it without one, and releases it when it is dropped.
The future of `lock` wraps an `Acquire`. That of `lock_owned` does what an `Acquire` does itself,
and has given up its mutex when it has returned a guard, so that another poll panics. The data is
left out.

A guard is handed out for a permit that was stored, or for one that was granted. The flag that says
that a permit was granted is never reset, and the future of `lock` looks at nothing else: polled
again after that it hands out another guard.

## When there is one guard

The condition is on polls (`Fresh`): no future of `lock` is polled that has returned a guard because
its flag was set. It is narrower than the contract of `Future`, and on purpose. A future of `lock`
that got a stored permit, or one of `lock_owned`, may be polled again without harm to exclusion.
With the condition there is one permit in all (`Kept.one`), stored, granted and not handed out, or
in a guard; `pledged` counts the first two, and not the flags that are still set from before.

What a mutex does for those who wait is the semaphore's fairness. It is taken over in `Queueing`,
where the mutex is shown to be a semaphore step for step.

## Main results

* `Mutex.restrict_fresh_exclusive` — there is one guard at most, as long as no future of `lock` is
  polled again after it has returned a guard because its flag was set
* `Mutex.not_exclusive` — a run in which one is
-/

namespace Lion

/-- `Mutex`, with the futures of `lock` and `lock_owned` and the guards that are alive. -/
structure Mutex (W : Type) extends Semaphore W where
  owned : List ℕ
  guards : ℕ
  ownedGuards : ℕ
deriving DecidableEq, Repr

namespace Mutex

variable {W : Type}

/-- `Mutex::new`, with the one permit stored. -/
def new : Mutex W := ⟨.new 1, [], 0, 0⟩

/-- A guard of either kind comes alive, for a permit that was taken. -/
def handOut (s : Mutex W) (owned : Bool) : Mutex W :=
  if owned then { s with ownedGuards := s.ownedGuards + 1 } else { s with guards := s.guards + 1 }

/-- `Mutex::lock`: a future that wraps an `Acquire`. -/
def lock (s : Mutex W) : Mutex W := { s with toSemaphore := s.toSemaphore.acquire }

/-- `Mutex::lock_owned`: a future that does what an `Acquire` does. -/
def lockOwned (s : Mutex W) : Mutex W :=
  { s with toSemaphore := s.toSemaphore.acquire, owned := s.futures.size :: s.owned }

/-- `Lock::poll` and `LockOwned::poll`, up to the mutex of the semaphore. The latter panics if it
has returned a guard. -/
def load (s : Mutex W) (i : ℕ) (waker : W) : Option (Mutex W) := do
  let f ← s.futures.get i
  if s.owned.contains i && f.completed then none
  else
    let (ready, sem) ← s.toSemaphore.load i waker
    let s' := { s with toSemaphore := sem }
    return if ready then s'.handOut (s.owned.contains i) else s'

/-- The rest of `Lock::poll` and `LockOwned::poll`, which hands out a guard for a stored permit. -/
def resume (s : Mutex W) (i : ℕ) : Option (Mutex W) := do
  let (res, sem) ← s.toSemaphore.lock i
  let s' := { s with toSemaphore := sem }
  match res with
  | .ready (.ok ()) => return s'.handOut (s.owned.contains i)
  | .ready (.error ()) => none
  | .pending => return s'

/-- `Acquire::drop` for a `Lock`, and `LockOwned::drop`, which is the same code. -/
def drop (s : Mutex W) (i : ℕ) : Option (Mutex W) :=
  (s.toSemaphore.drop i).map fun sem => { s with toSemaphore := sem }

/-- `Mutex::try_lock` and `Mutex::try_lock_owned`: a guard, if the permit is stored. -/
def tryLock (s : Mutex W) (owned : Bool) : Mutex W :=
  let (ok, sem) := s.toSemaphore.tryAcquire
  let s' := { s with toSemaphore := sem }
  if ok then s'.handOut owned else s'

/-- `SemaphorePermit::drop` for a `MutexGuard`: the permit is released. -/
def dropGuard (s : Mutex W) : Option (Mutex W) :=
  if s.guards = 0 then none
  else (Semaphore.release 1 s.toSemaphore).map fun sem =>
    { s with toSemaphore := sem, guards := s.guards - 1 }

/-- `OwnedMutexGuard::drop`, which releases a permit that it does not hold as one. -/
def dropOwnedGuard (s : Mutex W) : Option (Mutex W) :=
  if s.ownedGuards = 0 then none
  else (Semaphore.release 1 s.toSemaphore).map fun sem =>
    { s with toSemaphore := sem, ownedGuards := s.ownedGuards - 1 }

/-- The operations of `Mutex`, of its futures and of its guards. A poll is `load`, up to the mutex
of the semaphore, and then `resume`, unless its flag was set. -/
inductive Label (W : Type)
  | lock
  | lockOwned
  | load (i : ℕ) (waker : W)
  | resume (i : ℕ)
  /-- A future is dropped. -/
  | drop (i : ℕ)
  | tryLock (owned : Bool)
  | dropGuard
  | dropOwnedGuard
deriving DecidableEq, Repr

/-- One operation. `none`: it panics, or there is nothing to call it on. -/
def step (s : Mutex W) : Label W → Option (Mutex W)
  | .lock => some s.lock
  | .lockOwned => some s.lockOwned
  | .load i waker => s.load i waker
  | .resume i => s.resume i
  | .drop i => s.drop i
  | .tryLock owned => some (s.tryLock owned)
  | .dropGuard => s.dropGuard
  | .dropOwnedGuard => s.dropOwnedGuard

/-- Mutexes as a machine, from an unlocked one on. -/
def machine : Machine (Mutex W) (Label W) := Machine.ofStep (· = new) step

/-- How many guards are alive, of either kind. -/
def alive (s : Mutex W) : ℕ := s.guards + s.ownedGuards

/-- There is one guard at most. -/
def Exclusive (s : Mutex W) : Prop := s.alive ≤ 1

end Mutex

/-! ### Permits that back a guard -/

/-- A permit was granted to the future, and it has not returned ready because of it. -/
def Waiting.unspent {W : Type} (f : Waiting Bool W) : Bool := f.flag && !f.spent

/-- A future that has returned ready because of its flag has its flag set. -/
def Waiting.SpentOk {W : Type} (f : Waiting Bool W) : Prop :=
  f.spent = true → f.flag = true ∧ f.completed = true

namespace WaitList

variable {W : Type} {s s' : WaitList Bool W} {closed : Bool} {i : ℕ}

/-- The permits stored, and those granted and not handed out. Unlike what is owed, this counts a
permit granted to a future that has handed one out before. -/
def pledged (s : WaitList Bool W) : ℕ := s.tally Waiting.unspent

theorem pledged_add (s : WaitList Bool W) : s.add.pledged = s.pledged := by
  simp [pledged, tally, WaitList.add, Arena.count_add, Waiting.unspent]

theorem pledged_load {waker : W} {ready : Bool} (hload : s.load i waker = some (ready, s')) :
    ∃ f, s.futures.get i = some f ∧
      s'.pledged + (ready && !f.spent).toNat = s.pledged ∧ (ready = true → f.flag = true) := by
  obtain ⟨f, hf, -, ⟨rfl, hflag, hs⟩ | ⟨rfl, -, hs⟩⟩ := load_cases hload
  · have hchange := tally_change Waiting.unspent hf (congrArg WaitList.futures hs)
    have hpermit : s'.kernel.permit = s.kernel.permit := by rw [hs]; rfl
    have hflag : f.flag = true := by simpa using hflag
    refine ⟨f, hf, ?_, fun _ => hflag⟩
    simp only [Waiting.unspent, Option.any_some, hflag, Bool.true_and, Bool.not_true,
      Bool.toNat_false] at hchange ⊢
    simp only [pledged]
    omega
  · have hchange := tally_change Waiting.unspent hf (congrArg WaitList.futures hs)
    have hpermit : s'.kernel.permit = s.kernel.permit := by rw [hs]; rfl
    refine ⟨f, hf, ?_, fun h => by cases h⟩
    simp only [Waiting.unspent, Option.any_some] at hchange
    simp only [pledged, Bool.false_and, Bool.toNat_false]
    omega

theorem pledged_lock {ready : Bool} (hlock : s.lock i = some (ready, s')) :
    s'.pledged + ready.toNat = s.pledged := by
  obtain ⟨f, waker, hf, -, hcase⟩ := lock_cases hlock
  have hpermit : s'.kernel.permit + ready.toNat = s.kernel.permit := by
    rcases hcase with ⟨-, rfl, rfl⟩ | ⟨-, rfl, hpos, rfl⟩ | ⟨-, rfl, -, rfl⟩
    · rfl
    · exact Nat.sub_add_cancel hpos
    · rfl
  have hsame : s'.pledged + s.kernel.permit = s.pledged + s'.kernel.permit := by
    rcases hcase with ⟨-, -, hs⟩ | ⟨-, -, -, hs⟩ | ⟨-, -, -, hs⟩ <;>
    · have hchange := tally_change Waiting.unspent hf (congrArg WaitList.futures hs)
      simp only [Waiting.unspent, Option.any_some] at hchange
      simp only [pledged]
      omega
  omega

/-- A signal adds one, or none if it delivers to a future that is gone. -/
theorem pledged_signal (hok : Ok s closed) (hsignal : s.signal true = some s') :
    s'.pledged ≤ s.pledged + 1 := by
  rcases signal_cases hok hsignal with ⟨-, rfl⟩ | ⟨e, rest, ids, -, -, -, hs⟩
  · simp only [pledged, tally]
    omega
  · have hpermit : s'.kernel.permit = s.kernel.permit := by rw [hs]
    have hfutures := congrArg WaitList.futures hs
    dsimp only at hfutures
    cases hf : s.futures.get e.future with
    | none =>
      rw [Arena.update_of_get_eq_none hf] at hfutures
      simp only [pledged, tally, hfutures, hpermit]
      omega
    | some f =>
      rw [Arena.update_eq_put hf] at hfutures
      have hchange := tally_change Waiting.unspent hf hfutures
      have hle := Bool.toNat_le (Option.any Waiting.unspent
        (some { f with flag := true, taken := some e.waker }))
      simp only [pledged]
      omega

theorem pledged_cancel (hok : Ok s closed) (hspent : s.futures.All Waiting.SpentOk)
    (hcancel : s.cancel id true i = some s') : s'.pledged ≤ s.pledged := by
  obtain ⟨f, hf, -, hcase⟩ := cancel_cases hcancel
  rcases hcase with ⟨hs, -⟩ | ⟨-, -, -, hs⟩ | ⟨hnot, -, -, hflag, hsignal⟩
  · have hchange := tally_change Waiting.unspent hf (congrArg WaitList.futures hs)
    have hpermit : s'.kernel.permit = s.kernel.permit := by rw [hs]; rfl
    simp only [Option.any_none, Bool.toNat_false] at hchange
    simp only [pledged]
    omega
  · have hchange := tally_change Waiting.unspent hf (congrArg WaitList.futures hs)
    have hpermit : s'.kernel.permit = s.kernel.permit := by rw [hs]
    simp only [Option.any_none, Bool.toNat_false] at hchange
    simp only [pledged]
    omega
  · -- what is signalled again was granted to the future that goes
    have hunspent : f.unspent = true := by
      have hns : f.spent = false := by
        by_contra hne
        have hcompleted := (hspent i f hf (by simpa using hne)).2
        rw [hnot] at hcompleted
        cases hcompleted
      simpa [Waiting.unspent, hns] using hflag
    have hchange := tally_change Waiting.unspent hf (Eq.refl (s.put i none).futures)
    have hpermit : (s.put i none).kernel.permit = s.kernel.permit := rfl
    have hle := pledged_signal (hok.put_none hf) hsignal
    simp only [hunspent, Option.any_none, Bool.toNat_false, Bool.toNat_true] at hchange
    simp only [pledged] at hle ⊢
    omega

end WaitList

namespace Mutex

variable {W : Type} {s s' : Mutex W} {l : Label W} {i : ℕ}

@[simp] theorem handOut_toSemaphore (s : Mutex W) (owned : Bool) :
    (s.handOut owned).toSemaphore = s.toSemaphore := by
  cases owned <;> rfl

@[simp] theorem alive_handOut (s : Mutex W) (owned : Bool) :
    (s.handOut owned).alive = s.alive + 1 := by
  cases owned with
  | true => rfl
  | false =>
    show s.guards + 1 + s.ownedGuards = s.guards + s.ownedGuards + 1
    omega

/-- The future whose poll begins, if one does. -/
def Label.polled : Label W → Option ℕ
  | .load i _ => some i
  | _ => none

/-- No future of `lock` is polled that has returned a guard because its flag was set. -/
def Fresh (s : Mutex W) (l : Label W) : Prop :=
  ∀ i ∈ l.polled, ∀ f ∈ s.futures.get i, i ∉ s.owned → f.spent = false

instance (s : Mutex W) (l : Label W) : Decidable (s.Fresh l) :=
  inferInstanceAs (Decidable (∀ i ∈ l.polled, ∀ f ∈ s.futures.get i, i ∉ s.owned → f.spent = false))

/-- Every guard has a permit, of which there is one. -/
structure Kept (s : Mutex W) : Prop where
  opened : s.closed = false
  /-- The table and the futures agree. -/
  ok : s.toWaitList.Ok false
  /-- Futures that have returned ready because of their flag. -/
  spent : s.futures.All Waiting.SpentOk
  one : s.toWaitList.pledged + s.alive ≤ 1

theorem kept_new : Kept (new : Mutex W) :=
  ⟨rfl, WaitList.ok_new 1, Arena.all_empty _, Nat.le_refl 1⟩

/-- A future is made, of either kind, and waits for nothing yet. -/
theorem Kept.acquire (h : Kept s) (owned : List ℕ) :
    Kept { s with toSemaphore := s.toSemaphore.acquire, owned } := by
  refine ⟨h.opened, h.ok.add, ?_, ?_⟩
  · exact h.spent.add fun hspent => by cases hspent
  · show s.toWaitList.add.pledged + s.alive ≤ 1
    rw [WaitList.pledged_add]
    exact h.one

/-- The first half of a poll, guards included. -/
theorem load_cases {waker : W} (h : s.load i waker = some s') :
    ∃ f ready w, s.futures.get i = some f ∧ (i ∈ s.owned → f.completed = false) ∧
      s.toWaitList.load i waker = some (ready, w) ∧ s'.toSemaphore = ⟨w, s.closed⟩ ∧
      s'.alive = s.alive + ready.toNat := by
  obtain ⟨f, hf, hrest⟩ := Option.bind_eq_some_iff.mp h
  split at hrest
  · cases hrest
  · rename_i hpanic
    obtain ⟨⟨ready, sem⟩, hload, heq⟩ := Option.bind_eq_some_iff.mp hrest
    obtain ⟨⟨ready', w⟩, hw, heq'⟩ := Option.map_eq_some_iff.mp hload
    cases heq'
    cases heq
    refine ⟨f, ready, w, hf, ?_, hw, ?_, ?_⟩
    · intro howned
      simpa [howned] using hpanic
    · cases ready <;> simp
    · cases ready with
      | true => exact alive_handOut _ _
      | false => rfl

theorem load_spent {w w' : WaitList Bool W} {waker : W} {ready : Bool}
    (h : w.futures.All Waiting.SpentOk) (hload : w.load i waker = some (ready, w')) :
    w'.futures.All Waiting.SpentOk := by
  obtain ⟨f, hf, -, ⟨-, hflag, rfl⟩ | ⟨-, -, rfl⟩⟩ := WaitList.load_cases hload
  · refine h.put hf ?_
    rintro f₁ ⟨⟩ -
    exact ⟨by simpa using hflag, rfl⟩
  · refine h.put hf ?_
    rintro f₁ ⟨⟩ hspent
    exact h i f hf hspent

theorem Kept.load {waker : W} (h : Kept s) (hload : s.load i waker = some s')
    (hfresh : s.Fresh (.load i waker)) : Kept s' := by
  obtain ⟨f, ready, w, hf, hpanic, hw, hsem, halive⟩ := Mutex.load_cases hload
  have hclosed := congrArg Semaphore.closed hsem
  have hlist : s'.toWaitList = w := congrArg Semaphore.toWaitList hsem
  have hns : f.spent = false := by
    by_contra hne
    have hspent : f.spent = true := by simpa using hne
    by_cases howned : i ∈ s.owned
    · have hcompleted := (h.spent i f hf hspent).2
      rw [hpanic howned] at hcompleted
      cases hcompleted
    · rw [hfresh i rfl f hf howned] at hspent
      cases hspent
  obtain ⟨f', hf', hpledged, -⟩ := WaitList.pledged_load hw
  rw [hf] at hf'
  cases hf'
  rw [hns, Bool.not_false, Bool.and_true] at hpledged
  refine ⟨hclosed.trans h.opened, ?_, ?_, ?_⟩
  · rw [hlist]
    exact h.ok.load hw
  · rw [hlist]
    exact load_spent h.spent hw
  · have hone := h.one
    rw [hlist, halive]
    omega

/-- The second half of a poll. The semaphore is open, so it does not panic. -/
theorem resume_cases (hopen : s.closed = false) (h : s.resume i = some s') :
    ∃ ready w, s.toWaitList.lock i = some (ready, w) ∧ s'.toSemaphore = ⟨w, s.closed⟩ ∧
      s'.alive = s.alive + ready.toNat := by
  obtain ⟨⟨res, sem⟩, hlock, hrest⟩ := Option.bind_eq_some_iff.mp h
  have hopen' : ¬ s.closed = true := by simp [hopen]
  rw [Semaphore.lock, if_neg hopen'] at hlock
  obtain ⟨⟨ready, w⟩, hw, heq⟩ := Option.bind_eq_some_iff.mp hlock
  refine ⟨ready, w, hw, ?_⟩
  cases heq
  cases ready with
  | true =>
    cases hrest
    exact ⟨handOut_toSemaphore _ _, alive_handOut _ _⟩
  | false =>
    cases hrest
    exact ⟨rfl, rfl⟩

theorem Kept.resume (h : Kept s) (hresume : s.resume i = some s') : Kept s' := by
  obtain ⟨ready, w, hw, hsem, halive⟩ := resume_cases h.opened hresume
  have hclosed := congrArg Semaphore.closed hsem
  have hlist : s'.toWaitList = w := congrArg Semaphore.toWaitList hsem
  refine ⟨hclosed.trans h.opened, ?_, ?_, ?_⟩
  · rw [hlist]
    exact h.ok.lock hw
  · rw [hlist]
    obtain ⟨f, waker, hf, -, ⟨-, -, rfl⟩ | ⟨-, -, -, rfl⟩ | ⟨-, -, -, rfl⟩⟩ :=
      WaitList.lock_cases hw
    · refine h.spent.put hf ?_
      rintro f₁ ⟨⟩ hspent
      exact h.spent i f hf hspent
    · refine h.spent.put hf ?_
      rintro f₁ ⟨⟩ hspent
      exact ⟨(h.spent i f hf hspent).1, rfl⟩
    · refine h.spent.put hf ?_
      rintro f₁ ⟨⟩ hspent
      exact h.spent i f hf hspent
  · have hone := h.one
    have hpledged := WaitList.pledged_lock hw
    rw [hlist, halive]
    omega

theorem spentOk_deliver (f : Waiting Bool W) (t : Option W) (h : f.SpentOk) :
    Waiting.SpentOk { f with flag := true, taken := t } :=
  fun hspent => ⟨rfl, (h hspent).2⟩

theorem Kept.drop (h : Kept s) (hdrop : s.drop i = some s') : Kept s' := by
  obtain ⟨sem, hsem, rfl⟩ := Option.map_eq_some_iff.mp hdrop
  obtain ⟨w, hcancel, rfl⟩ := Option.map_eq_some_iff.mp hsem
  refine ⟨h.opened, h.ok.cancel (by decide) hcancel, ?_, ?_⟩
  · exact WaitList.cancel_all h.spent h.ok spentOk_deliver hcancel
  · have hone := h.one
    have hle := WaitList.pledged_cancel h.ok h.spent hcancel
    show w.pledged + s.alive ≤ 1
    omega

theorem Kept.tryLock (h : Kept s) (owned : Bool) : Kept (s.tryLock owned) := by
  have hopen' : ¬ s.closed = true := by simp [h.opened]
  rw [Mutex.tryLock, Semaphore.tryAcquire, if_neg hopen', WaiterKernel.tryAcquireStep]
  by_cases hpos : 0 < s.kernel.permit
  · rw [if_pos hpos]
    have hone : s.kernel.permit + s.futures.count Waiting.unspent + s.alive ≤ 1 := h.one
    have hspend : s.toWaitList.Ok false → _ := WaitList.Ok.spend
    cases owned with
    | true =>
      refine ⟨h.opened, hspend h.ok, h.spent, ?_⟩
      show s.kernel.permit - 1 + s.futures.count Waiting.unspent +
        (s.guards + (s.ownedGuards + 1)) ≤ 1
      simp only [alive] at hone
      omega
    | false =>
      refine ⟨h.opened, hspend h.ok, h.spent, ?_⟩
      show s.kernel.permit - 1 + s.futures.count Waiting.unspent +
        (s.guards + 1 + s.ownedGuards) ≤ 1
      simp only [alive] at hone
      omega
  · rw [if_neg hpos]
    exact h

/-- A guard goes, and its permit is released. -/
theorem Kept.release {sem : Semaphore W} (h : Kept s)
    (hrelease : Semaphore.release 1 s.toSemaphore = some sem) (hsem : s'.toSemaphore = sem)
    (halive : s'.alive + 1 = s.alive) : Kept s' := by
  obtain ⟨w, hsignal, heq⟩ := Option.bind_eq_some_iff.mp hrelease
  cases heq
  have hlist : s'.toWaitList = w := congrArg Semaphore.toWaitList hsem
  have hclosed := congrArg Semaphore.closed hsem
  refine ⟨hclosed.trans h.opened, ?_, ?_, ?_⟩
  · rw [hlist]
    exact h.ok.signal (by decide) hsignal
  · rw [hlist]
    exact WaitList.signal_all h.spent h.ok spentOk_deliver hsignal
  · have hone := h.one
    have hle := WaitList.pledged_signal h.ok hsignal
    rw [hlist]
    omega

theorem Kept.step (h : Kept s) (hstep : s.step l = some s') (hfresh : s.Fresh l) : Kept s' := by
  cases l with
  | lock =>
    cases hstep
    exact h.acquire s.owned
  | lockOwned =>
    cases hstep
    exact h.acquire (s.futures.size :: s.owned)
  | load i waker => exact h.load hstep hfresh
  | resume i => exact h.resume hstep
  | drop i => exact h.drop hstep
  | tryLock owned =>
    cases hstep
    exact h.tryLock owned
  | dropGuard =>
    have hdrop : s.dropGuard = some s' := hstep
    rw [dropGuard] at hdrop
    split at hdrop
    · cases hdrop
    · rename_i hguards
      obtain ⟨sem, hrelease, rfl⟩ := Option.map_eq_some_iff.mp hdrop
      refine h.release hrelease rfl ?_
      show s.guards - 1 + s.ownedGuards + 1 = s.guards + s.ownedGuards
      omega
  | dropOwnedGuard =>
    have hdrop : s.dropOwnedGuard = some s' := hstep
    rw [dropOwnedGuard] at hdrop
    split at hdrop
    · cases hdrop
    · rename_i hguards
      obtain ⟨sem, hrelease, rfl⟩ := Option.map_eq_some_iff.mp hdrop
      refine h.release hrelease rfl ?_
      show s.guards + (s.ownedGuards - 1) + 1 = s.guards + s.ownedGuards
      omega

theorem kept_of_reachable (h : (machine.restrict Fresh).Reachable s) : Kept s := by
  refine h.invariant ?_ ?_
  · rintro s rfl
    exact kept_new
  · intro s l s' hs hstep
    exact hs.step hstep.1 hstep.2

/-- **Mutual exclusion.** In runs in which no future of `lock` is polled again after it has returned
a guard because its flag was set, one guard at most is alive. Such a poll hands out another guard
and takes no permit for it. -/
theorem restrict_fresh_exclusive (h : (machine.restrict Fresh).Reachable s) :
    s.Exclusive ∧ ∀ l s', s.step l = some s' → ¬ s.Fresh l →
      s'.alive = s.alive + 1 ∧ s'.kernel = s.kernel ∧
      s'.toWaitList.pledged = s.toWaitList.pledged := by
  have hkept := kept_of_reachable h
  constructor
  · have hone := hkept.one
    show s.alive ≤ 1
    omega
  · intro l s' hstep hstale
    cases l with
    | load i waker =>
      obtain ⟨f, ready, w, hf, -, hw, hsem, halive⟩ := Mutex.load_cases hstep
      have hlist : s'.toWaitList = w := congrArg Semaphore.toWaitList hsem
      have hspent : f.spent = true := by
        by_contra hne
        refine hstale ?_
        rintro j ⟨⟩ f' hf' -
        have hsame : some f' = some f := hf'.symm.trans hf
        cases hsame
        simpa using hne
      obtain ⟨f₁, hf₁, hpledged, -⟩ := WaitList.pledged_load hw
      rw [hf] at hf₁
      cases hf₁
      rw [hspent, Bool.not_true, Bool.and_false, Bool.toNat_false] at hpledged
      obtain ⟨f₂, hf₂, -, ⟨rfl, -, rfl⟩ | ⟨-, hflag, -⟩⟩ := WaitList.load_cases hw
      · rw [hlist]
        exact ⟨halive, rfl, hpledged⟩
      · rw [hf] at hf₂
        cases hf₂
        rw [(hkept.spent i f hf hspent).1] at hflag
        cases hflag
    | _ =>
      refine absurd ?_ hstale
      rintro j ⟨⟩

/-- The guard of a future of `lock_owned` is dropped, and a future of `lock` gets the mutex. -/
theorem restrict_fresh_exclusive_two : ∃ s : Mutex ℕ, (machine.restrict Fresh).Reachable s ∧
    s.guards = 1 ∧ s.ownedGuards = 0 ∧ s.Exclusive := by
  obtain ⟨s, hfollow, hguards, hownedGuards⟩ : ∃ s : Mutex ℕ,
      Machine.follow (fun s l => if Fresh s l then step s l else none)
        [.lockOwned, .load 0 7, .resume 0, .lock, .load 1 8, .resume 1, .dropOwnedGuard, .load 1 8]
        new = some s ∧ s.guards = 1 ∧ s.ownedGuards = 0 :=
    ⟨_, rfl, rfl, rfl⟩
  have hstart : (machine.restrict Fresh).Reachable (new : Mutex ℕ) := .of_init rfl
  have hreach := hstart.follow_restrict hfollow
  exact ⟨s, hreach, hguards, hownedGuards, (restrict_fresh_exclusive hreach).1⟩

/-- The same run, and the future of `lock` is polled once more. -/
theorem not_exclusive : ¬ ∀ s : Mutex ℕ, machine.Reachable s → s.Exclusive := by
  intro hall
  obtain ⟨s, hfollow, hguards⟩ : ∃ s : Mutex ℕ, Machine.follow step
      [.lockOwned, .load 0 7, .resume 0, .lock, .load 1 8, .resume 1, .dropOwnedGuard, .load 1 8,
        .load 1 8] new = some s ∧ s.alive = 2 :=
    ⟨_, rfl, rfl⟩
  have hstart : machine.Reachable (new : Mutex ℕ) := .of_init rfl
  have htwo : s.alive ≤ 1 := hall s (hstart.follow hfollow)
  omega

end Mutex

end Lion
