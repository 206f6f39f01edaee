import Lion.Poll
import Lion.Sync.InFlight

/-!
# The semaphore

`Semaphore` of `lion-utility`: permits that are stored in the kernel, delivered to a waiting future
by its flag, or held by a `SemaphorePermit`. A future that is dropped after a permit was delivered
to it passes the permit on; a future that is woken because the semaphore was closed has nothing to
pass on.

`Semaphore.System` is a semaphore in use: with the permits that are alive, and the number of permits
there were in the beginning, were added, and were forgotten, which are not in the source.

## Where a permit can be

A permit that was neither forgotten nor never added is in one of three places: stored, granted to a
future that has not returned it, or alive as a `SemaphorePermit`. `Conserved` is that equation.
Whether it holds at every moment depends on what a moment is. Between the halves of a poll a permit
may be granted to a future that is about to take the mutex, and is passed on or collected a step
later; the equation counts it as granted there, so that it holds in every state.

Fairness is about the order in which futures park, and not about the order of their first polls: a
future that is granted a permit was in front of everybody who parked later (`TableOk.log`), a permit
is stored only if nobody is queued, and so neither `try_acquire` nor a fresh `acquire` overtakes.

## Conventions

What is required of runs is that no future is polled after it has returned ready, as the contract of
`Future` says, and that there are never more permits than a word counts. `Whole` requires in
addition that polls are not interrupted, for statements that are about whole operations.

## Main results

* `System.restrict_conserved` — no permit is lost or invented
* `System.reachable_fair` — permits are delivered in the order of parking, and nobody overtakes
-/

namespace Lion

/-- `Semaphore`, with the futures of `acquire`. Its flags are `granted`. -/
structure Semaphore (W : Type) extends WaitList Bool W where
  /-- Whether it was closed, which it stays. -/
  closed : Bool
deriving DecidableEq, Repr

namespace Semaphore

variable {W : Type}

/-- `Semaphore::new`, with permits to begin with. -/
def new (permits : ℕ) : Semaphore W := ⟨.new permits, false⟩

/-- `Semaphore::acquire`: a future, which does nothing until it is polled. -/
def acquire (s : Semaphore W) : Semaphore W := { s with toWaitList := s.toWaitList.add }

/-- `Acquire::poll`, up to the mutex. Whether the permit was granted. -/
def load (s : Semaphore W) (i : ℕ) (waker : W) : Option (Bool × Semaphore W) :=
  (s.toWaitList.load i waker).map fun (ready, l) => (ready, { s with toWaitList := l })

/-- The rest of `Acquire::poll`: a stored permit, an error if the semaphore is closed, or the
wait. -/
def lock (s : Semaphore W) (i : ℕ) : Option (Poll (Except Unit Unit) × Semaphore W) :=
  if s.closed then do
    let f ← s.futures.get i
    let _ ← f.loaded
    return (.ready (.error ()), { s with
      toWaitList := s.toWaitList.put i (some { f with loaded := none, finished := true }) })
  else do
    let (ready, l) ← s.toWaitList.lock i
    return (if ready then .ready (.ok ()) else .pending, { s with toWaitList := l })

/-- `Acquire::drop`: pass a granted permit on, or leave the queue. -/
def drop (s : Semaphore W) (i : ℕ) : Option (Semaphore W) :=
  (s.toWaitList.cancel id true i).map fun l => { s with toWaitList := l }

/-- `Semaphore::try_acquire`: a stored permit, if the semaphore is open and there is one. -/
def tryAcquire (s : Semaphore W) : Bool × Semaphore W :=
  if s.closed then (false, s)
  else
    let (ok, kernel) := s.kernel.tryAcquireStep
    (ok, { s with kernel })

/-- `signal_n`, and so `do_release` and `Semaphore::add_permits`: that many signals. -/
def release : ℕ → Semaphore W → Option (Semaphore W)
  | 0, s => some s
  | n + 1, s => do
    let l ← s.toWaitList.signal true
    release n { s with toWaitList := l }

/-- `Semaphore::close`: wake everybody who waits, and grant nothing. -/
def close (s : Semaphore W) : Semaphore W :=
  { s with
    wakers := []
    futures := WaitList.noteTaken s.wakers s.futures
    closed := true }

/-- A semaphore in use, with the permits around it counted. -/
structure System (W : Type) extends Semaphore W where
  permits : ℕ
  /-- How many permits there were in the beginning. -/
  initial : ℕ
  added : ℕ
  forgotten : ℕ
deriving DecidableEq, Repr

/-- The operations of `Semaphore`, `Acquire` and `SemaphorePermit`. A poll of an `Acquire` is
`load`, up to the mutex, and then `lock`, unless its permit was granted. -/
inductive Label (W : Type)
  | acquire
  | load (i : ℕ) (waker : W)
  | lock (i : ℕ)
  | drop (i : ℕ)
  | tryAcquire
  | dropPermit
  | forget
  | addPermits (n : ℕ)
  | close
deriving DecidableEq, Repr

/-- The future whose poll begins, if one does. -/
def Label.polled : Label W → Option ℕ
  | .load i _ => some i
  | _ => none

namespace System

/-- One operation. `none`: it panics, or there is nothing to call it on. -/
def step (s : System W) : Label W → Option (System W)
  | .acquire => some { s with toSemaphore := s.toSemaphore.acquire }
  | .load i waker => do
    let (ready, sem) ← s.toSemaphore.load i waker
    return { s with toSemaphore := sem, permits := s.permits + ready.toNat }
  | .lock i => do
    let (res, sem) ← s.toSemaphore.lock i
    return { s with toSemaphore := sem, permits := s.permits + res.isOk.toNat }
  | .drop i => (s.toSemaphore.drop i).map fun sem => { s with toSemaphore := sem }
  | .tryAcquire =>
    let (ok, sem) := s.toSemaphore.tryAcquire
    some { s with toSemaphore := sem, permits := s.permits + ok.toNat }
  | .dropPermit =>
    if s.permits = 0 then none
    else (release 1 s.toSemaphore).map fun sem =>
      { s with toSemaphore := sem, permits := s.permits - 1 }
  | .forget =>
    if s.permits = 0 then none
    else some { s with permits := s.permits - 1, forgotten := s.forgotten + 1 }
  | .addPermits n =>
    (release n s.toSemaphore).map fun sem => { s with toSemaphore := sem, added := s.added + n }
  | .close => some { s with toSemaphore := s.toSemaphore.close }

/-- A new semaphore with `permits` permits, none of which is alive. -/
def new (permits : ℕ) : System W := ⟨.new permits, 0, permits, 0, 0⟩

/-- Semaphores as a machine, with any number of permits to begin with. -/
def machine : Machine (System W) (Label W) :=
  Machine.ofStep (fun s => ∃ permits, s = new permits) step

/-! ### What one operation does -/

variable {s s' : System W} {l : Label W}

/-- The operations with what they call, guards included, under the names of their labels. -/
inductive Stepped (s : System W) : Label W → System W → Prop
  | acquire : Stepped s .acquire { s with toWaitList := s.toWaitList.add }
  | load {i : ℕ} {waker : W} {ready : Bool} {w : WaitList Bool W} :
      s.toWaitList.load i waker = some (ready, w) →
      Stepped s (.load i waker) { s with toWaitList := w, permits := s.permits + ready.toNat }
  /-- The rest of it, if the semaphore is open. -/
  | lock {i : ℕ} {ready : Bool} {w : WaitList Bool W} : s.closed = false →
      s.toWaitList.lock i = some (ready, w) →
      Stepped s (.lock i) { s with toWaitList := w, permits := s.permits + ready.toNat }
  /-- The rest of it, if the semaphore is closed. -/
  | refuse {i : ℕ} {f : Waiting Bool W} : s.closed = true → s.futures.get i = some f →
      f.loaded ≠ none →
      Stepped s (.lock i) { s with
        toWaitList := s.toWaitList.put i (some { f with loaded := none, finished := true }) }
  | drop {i : ℕ} {w : WaitList Bool W} : s.toWaitList.cancel id true i = some w →
      Stepped s (.drop i) { s with toWaitList := w }
  /-- `Semaphore::try_acquire`, if there is no permit to be had. -/
  | tryFail : s.closed = true ∨ s.kernel.permit = 0 → Stepped s .tryAcquire s
  /-- `Semaphore::try_acquire`, if there is one. -/
  | tryAcquire : s.closed = false → 0 < s.kernel.permit →
      Stepped s .tryAcquire { s with
        kernel := { s.kernel with permit := s.kernel.permit - 1 }, permits := s.permits + 1 }
  | dropPermit {sem : Semaphore W} : s.permits ≠ 0 → release 1 s.toSemaphore = some sem →
      Stepped s .dropPermit { s with toSemaphore := sem, permits := s.permits - 1 }
  | forget : s.permits ≠ 0 →
      Stepped s .forget { s with permits := s.permits - 1, forgotten := s.forgotten + 1 }
  | addPermits {n : ℕ} {sem : Semaphore W} : release n s.toSemaphore = some sem →
      Stepped s (.addPermits n) { s with toSemaphore := sem, added := s.added + n }
  | close : Stepped s .close { s with
      wakers := [], futures := WaitList.noteTaken s.wakers s.futures, closed := true }

/-- **Every operation is one of these.** -/
theorem step_cases (h : s.step l = some s') : Stepped s l s' := by
  cases l with
  | acquire =>
    cases h
    exact .acquire
  | load i waker =>
    obtain ⟨⟨ready, sem⟩, hload, heq⟩ := Option.bind_eq_some_iff.mp h
    obtain ⟨⟨ready', w⟩, hw, heq'⟩ := Option.map_eq_some_iff.mp hload
    cases heq'
    cases heq
    exact .load hw
  | lock i =>
    obtain ⟨⟨res, sem⟩, hlock, heq⟩ := Option.bind_eq_some_iff.mp h
    cases heq
    rw [Semaphore.lock] at hlock
    split at hlock
    · rename_i hclosed
      obtain ⟨f, hf, hrest⟩ := Option.bind_eq_some_iff.mp hlock
      obtain ⟨waker, hloaded, heq⟩ := Option.bind_eq_some_iff.mp hrest
      cases heq
      exact .refuse hclosed hf (by simp [hloaded])
    · rename_i hclosed
      obtain ⟨⟨ready, w⟩, hw, heq⟩ := Option.bind_eq_some_iff.mp hlock
      cases heq
      have hlocked := Stepped.lock (by simpa using hclosed) hw
      cases ready <;> exact hlocked
  | drop i =>
    obtain ⟨sem, hdrop, rfl⟩ := Option.map_eq_some_iff.mp h
    obtain ⟨w, hw, rfl⟩ := Option.map_eq_some_iff.mp hdrop
    exact .drop hw
  | tryAcquire =>
    simp only [step, Semaphore.tryAcquire, WaiterKernel.tryAcquireStep] at h
    by_cases hclosed : s.closed = true
    · rw [if_pos hclosed] at h
      cases h
      exact .tryFail (.inl hclosed)
    · rw [if_neg hclosed] at h
      by_cases hpermit : 0 < s.kernel.permit
      · rw [if_pos hpermit] at h
        cases h
        exact .tryAcquire (by simpa using hclosed) hpermit
      · rw [if_neg hpermit] at h
        cases h
        exact .tryFail (.inr (Nat.eq_zero_of_not_pos hpermit))
  | dropPermit =>
    simp only [step] at h
    split at h
    · cases h
    · rename_i hpermits
      obtain ⟨sem, hrelease, rfl⟩ := Option.map_eq_some_iff.mp h
      exact .dropPermit hpermits hrelease
  | forget =>
    simp only [step] at h
    split at h
    · cases h
    · rename_i hpermits
      cases h
      exact .forget hpermits
  | addPermits n =>
    obtain ⟨sem, hrelease, rfl⟩ := Option.map_eq_some_iff.mp h
    exact .addPermits hrelease
  | close =>
    cases h
    exact .close

/-- What a release does is done by signals, one for each permit. -/
theorem release_induction {P : WaitList Bool W → Prop} {n : ℕ} {sem sem' : Semaphore W}
    (h : release n sem = some sem') (hP : P sem.toWaitList)
    (hsignal : ∀ w w', P w → w.signal true = some w' → P w') :
    P sem'.toWaitList ∧ sem'.closed = sem.closed := by
  induction n generalizing sem with
  | zero =>
    cases h
    exact ⟨hP, rfl⟩
  | succ n ih =>
    obtain ⟨w, hw, hrest⟩ := Option.bind_eq_some_iff.mp h
    have hspec := ih hrest (hsignal _ _ hP hw)
    exact hspec

/-- The table and the futures agree, in a semaphore that is open or closed. -/
def Sound (s : System W) : Prop := s.toWaitList.Ok s.closed

theorem Sound.step (h : Sound s) (hstep : Stepped s l s') : Sound s' := by
  cases hstep with
  | acquire => exact WaitList.Ok.add h
  | load hload => exact WaitList.Ok.load h hload
  | lock hopen hlock =>
    rw [Sound, hopen] at h
    show WaitList.Ok _ s.closed
    rw [hopen]
    exact h.lock hlock
  | refuse _ hf _ => exact WaitList.Ok.put_same h hf _ rfl rfl rfl
  | drop hcancel => exact WaitList.Ok.cancel h (by decide) hcancel
  | tryFail _ => exact h
  | tryAcquire _ _ => exact WaitList.Ok.spend h
  | @dropPermit sem _ hrelease =>
    obtain ⟨hok, hclosed⟩ := release_induction (P := fun w => w.Ok s.closed) hrelease h
      fun w w' hw hsignal => hw.signal (by decide) hsignal
    rw [← hclosed] at hok
    exact hok
  | forget _ => exact h
  | @addPermits n sem hrelease =>
    obtain ⟨hok, hclosed⟩ := release_induction (P := fun w => w.Ok s.closed) hrelease h
      fun w w' hw hsignal => hw.signal (by decide) hsignal
    rw [← hclosed] at hok
    exact hok
  | close => exact WaitList.Ok.close h

theorem sound_of_reachable (h : machine.Reachable s) : Sound s := by
  refine h.invariant ?_ ?_
  · rintro s ⟨permits, rfl⟩
    exact WaitList.ok_new permits
  · intro s l s' hs hstep
    exact hs.step (step_cases hstep)

/-! ### Conservation -/

/-- No future is polled after it has returned ready, as the contract of `Future` says. -/
def Contract (s : System W) (l : Label W) : Prop :=
  ∀ i ∈ l.polled, ∀ f ∈ s.futures.get i, f.finished = false

instance (s : System W) (l : Label W) : Decidable (s.Contract l) :=
  inferInstanceAs (Decidable (∀ i ∈ l.polled, ∀ f ∈ s.futures.get i, f.finished = false))

/-- The futures that were granted a permit and have not handed it out. -/
def granted (s : System W) : ℕ := s.futures.count fun f => f.flag && !f.completed

/-- Every permit is stored, alive, or granted, but for those forgotten. -/
def Conserved (s : System W) : Prop :=
  s.kernel.permit + s.permits + s.granted + s.forgotten = s.initial + s.added

theorem owed_eq (s : System W) : s.toWaitList.owed id = s.kernel.permit + s.granted := rfl

/-- What holds in runs that keep the contract. -/
structure Kept (s : System W) : Prop where
  /-- The table and the futures agree. -/
  sound : Sound s
  /-- Futures are not polled after they have returned ready. -/
  once : s.toWaitList.Once
  conserved : s.initial + s.added < UInt64.size → Conserved s

theorem release_owed {n : ℕ} {sem sem' : Semaphore W} (h : release n sem = some sem')
    (hok : sem.toWaitList.Ok sem.closed) (honce : sem.toWaitList.Once) :
    sem'.toWaitList.Once ∧ sem'.toWaitList.owed id = sem.toWaitList.owed id + n := by
  induction n generalizing sem with
  | zero =>
    cases h
    exact ⟨honce, rfl⟩
  | succ n ih =>
    obtain ⟨w, hw, hrest⟩ := Option.bind_eq_some_iff.mp h
    obtain ⟨honce', howed⟩ := ih hrest (hok.signal (by decide) hw) (honce.signal hok hw)
    refine ⟨honce', ?_⟩
    rcases WaitList.owed_signal id honce hok rfl hw with ⟨-, hone⟩ | ⟨-, hv, -⟩
    · have howed' : sem'.toWaitList.owed id = w.owed id + n := howed
      omega
    · cases hv

/-- What an operation does to the permits stored and granted, it does to those alive, forgotten and
added. -/
theorem Stepped.owed (hstep : Stepped s l s') (hok : s.toWaitList.Ok s.closed)
    (honce : s.toWaitList.Once) (hcontract : s.Contract l)
    (hbound : s.toWaitList.owed id < UInt64.size) :
    s'.toWaitList.owed id + s'.permits + s'.forgotten + (s.initial + s.added) =
      s.toWaitList.owed id + s.permits + s.forgotten + (s'.initial + s'.added) := by
  cases hstep with
  | acquire =>
    show s.toWaitList.add.owed id + s.permits + s.forgotten + (s.initial + s.added) = _
    rw [WaitList.owed_add s.toWaitList rfl]
  | @load i waker ready w hload =>
    show w.owed id + (s.permits + ready.toNat) + s.forgotten + (s.initial + s.added) =
      s.toWaitList.owed id + s.permits + s.forgotten + (s.initial + s.added)
    obtain ⟨f, -, ⟨rfl, hflag, howed⟩ | ⟨rfl, howed⟩⟩ :=
      WaitList.owed_load id honce hload fun f hf => hcontract i rfl f hf
    · have htrue : f.flag = true := by simpa using hflag
      rw [htrue] at howed
      simp only [id, Bool.toNat_true] at howed ⊢
      omega
    · rw [howed]
      rfl
  | @lock i ready w _ hlock =>
    show w.owed id + (s.permits + ready.toNat) + s.forgotten + (s.initial + s.added) =
      s.toWaitList.owed id + s.permits + s.forgotten + (s.initial + s.added)
    have howed := WaitList.owed_lock id hok rfl hlock
    omega
  | @refuse i f _ hf _ =>
    show (s.toWaitList.put i _).owed id + s.permits + s.forgotten + (s.initial + s.added) =
      s.toWaitList.owed id + s.permits + s.forgotten + (s.initial + s.added)
    have howed := WaitList.owed_change id hf (Eq.refl
      (s.toWaitList.put i (some { f with loaded := none, finished := true })).futures)
    have hpermit : (s.toWaitList.put i
      (some { f with loaded := none, finished := true })).kernel.permit = s.kernel.permit := rfl
    simp only [Waiting.owed, Option.any_some] at howed
    omega
  | @drop i w hcancel =>
    show w.owed id + s.permits + s.forgotten + (s.initial + s.added) = _
    rw [WaitList.owed_cancel honce hok rfl rfl (.inl hbound) hcancel]
  | tryFail _ => rfl
  | tryAcquire _ hpos =>
    show s.kernel.permit - 1 + s.granted + (s.permits + 1) + s.forgotten + (s.initial + s.added) =
      s.kernel.permit + s.granted + s.permits + s.forgotten + (s.initial + s.added)
    omega
  | @dropPermit sem hpermits hrelease =>
    show sem.toWaitList.owed id + (s.permits - 1) + s.forgotten + (s.initial + s.added) =
      s.toWaitList.owed id + s.permits + s.forgotten + (s.initial + s.added)
    have howed := (release_owed hrelease hok honce).2
    omega
  | forget hpermits =>
    show s.toWaitList.owed id + (s.permits - 1) + (s.forgotten + 1) + (s.initial + s.added) =
      s.toWaitList.owed id + s.permits + s.forgotten + (s.initial + s.added)
    omega
  | @addPermits n sem hrelease =>
    show sem.toWaitList.owed id + s.permits + s.forgotten + (s.initial + s.added) =
      s.toWaitList.owed id + s.permits + s.forgotten + (s.initial + (s.added + n))
    have howed := (release_owed hrelease hok honce).2
    omega
  | close =>
    have howed := WaitList.owed_close id s.toWaitList
    show WaitList.owed id { s.toWaitList with
      wakers := [], futures := WaitList.noteTaken s.wakers s.futures } + s.permits + s.forgotten +
        (s.initial + s.added) = _
    rw [howed]

/-- The number of permits added does not go down, and permits are not added twice. -/
theorem Stepped.total (hstep : Stepped s l s') : s.initial + s.added ≤ s'.initial + s'.added := by
  cases hstep with
  | @addPermits n sem hrelease =>
    show s.initial + s.added ≤ s.initial + (s.added + n)
    omega
  | _ => exact Nat.le_refl _

theorem Stepped.once (hstep : Stepped s l s') (hok : s.toWaitList.Ok s.closed)
    (honce : s.toWaitList.Once) (hcontract : s.Contract l) : s'.toWaitList.Once := by
  cases hstep with
  | acquire => exact honce.add
  | load hload => exact honce.load hok hload fun f hf => hcontract _ rfl f hf
  | lock _ hlock => exact honce.lock hok hlock
  | refuse _ hf hloaded => exact honce.put_same hf (by simp) (fun _ => rfl) rfl
  | drop hcancel => exact honce.cancel hok hcancel
  | tryFail _ => exact honce
  | tryAcquire _ _ => exact ⟨honce.loaded, honce.completed, honce.entries⟩
  | dropPermit _ hrelease => exact (release_owed hrelease hok honce).1
  | forget _ => exact honce
  | addPermits hrelease => exact (release_owed hrelease hok honce).1
  | close => exact honce.close

theorem Kept.step (h : Kept s) (hstep : Stepped s l s') (hcontract : s.Contract l) : Kept s' := by
  refine ⟨h.sound.step hstep, hstep.once h.sound h.once hcontract, fun hbound => ?_⟩
  have hbefore := Nat.lt_of_le_of_lt hstep.total hbound
  have hconserved : s.kernel.permit + s.permits + s.granted + s.forgotten = s.initial + s.added :=
    h.conserved hbefore
  have heq := owed_eq s
  have howed := hstep.owed h.sound h.once hcontract (by omega)
  have heq' := owed_eq s'
  show s'.kernel.permit + s'.permits + s'.granted + s'.forgotten = s'.initial + s'.added
  omega

theorem kept_new (permits : ℕ) : Kept (new permits : System W) := by
  refine ⟨WaitList.ok_new permits, WaitList.once_new permits, fun _ => ?_⟩
  show permits + 0 + 0 + 0 = permits + 0
  rfl

theorem kept_of_reachable (h : (machine.restrict Contract).Reachable s) : Kept s := by
  refine h.invariant ?_ ?_
  · rintro s ⟨permits, rfl⟩
    exact kept_new permits
  · intro s l s' hs hstep
    exact hs.step (step_cases hstep.1) hstep.2

/-! ### Polls that are not interrupted -/

/-- No future is polled after it has returned ready, and no other operation comes between the two
halves of a poll. -/
def Whole (s : System W) (l : Label W) : Prop :=
  s.Contract l ∧ ∀ i < s.futures.size, ∀ f ∈ s.futures.get i, f.loaded ≠ none → l = .lock i

instance [DecidableEq W] (s : System W) (l : Label W) : Decidable (s.Whole l) :=
  inferInstanceAs (Decidable (_ ∧ _))

/-- What others do to a future: they deliver to it, or take its waker. -/
def Touched (closed : Bool) (f f' : Waiting Bool W) : Prop :=
  ∃ t, f' = { f with taken := t } ∨ closed = false ∧ f' = { f with flag := true, taken := t }

theorem release_futures {n : ℕ} {sem sem' : Semaphore W} (h : release n sem = some sem')
    (hok : sem.toWaitList.Ok sem.closed) {j : ℕ} {f' : Waiting Bool W}
    (hj : sem'.futures.get j = some f') :
    ∃ f, sem.futures.get j = some f ∧ Touched sem.closed f f' := by
  induction n generalizing sem with
  | zero =>
    cases h
    exact ⟨f', hj, f'.taken, .inl rfl⟩
  | succ n ih =>
    obtain ⟨w, hw, hrest⟩ := Option.bind_eq_some_iff.mp h
    obtain ⟨f₁, hf₁, t₁, htouched⟩ := ih hrest (hok.signal (by decide) hw)
    obtain ⟨f, hf, rfl | ⟨hopen, t, rfl⟩⟩ := WaitList.signal_futures hok hw hf₁
    · exact ⟨f₁, hf, t₁, htouched⟩
    · refine ⟨f, hf, t₁, .inr ⟨hopen, ?_⟩⟩
      rcases htouched with rfl | ⟨-, rfl⟩ <;> rfl

/-- What an operation does to the futures it is not a poll of. -/
theorem Stepped.touched (hstep : Stepped s l s') (hok : s.toWaitList.Ok s.closed) {j : ℕ}
    {f' : Waiting Bool W} (hj : s'.futures.get j = some f') (hnew : l ≠ .acquire)
    (hload : ∀ waker, l ≠ .load j waker) (hlock : l ≠ .lock j) :
    ∃ f, s.futures.get j = some f ∧ Touched s.closed f f' := by
  have hself : s.futures.get j = some f' →
      ∃ f, s.futures.get j = some f ∧ Touched s.closed f f' :=
    fun h => ⟨f', h, f'.taken, .inl rfl⟩
  cases hstep with
  | acquire => exact absurd rfl hnew
  | @load i waker ready w h =>
    have hne : j ≠ i := fun heq => hload waker (by rw [heq])
    obtain ⟨f, hf, -, ⟨-, -, rfl⟩ | ⟨-, -, rfl⟩⟩ := WaitList.load_cases h <;>
    · simp only [WaitList.put, Arena.get_put hf, if_neg hne] at hj
      exact hself hj
  | @lock i ready w _ h =>
    have hne : j ≠ i := fun heq => hlock (by rw [heq])
    obtain ⟨f, waker, hf, -, ⟨-, -, rfl⟩ | ⟨-, -, -, rfl⟩ | ⟨-, -, -, rfl⟩⟩ :=
      WaitList.lock_cases h <;>
    · simp only [Arena.get_put hf, if_neg hne] at hj
      exact hself hj
  | @refuse i f _ hf _ =>
    have hne : j ≠ i := fun heq => hlock (by rw [heq])
    simp only [WaitList.put, Arena.get_put hf, if_neg hne] at hj
    exact hself hj
  | drop hcancel =>
    obtain ⟨f, hf, rfl | ⟨hopen, t, rfl⟩⟩ := WaitList.cancel_futures hok hcancel hj
    · exact hself hf
    · exact ⟨f, hf, t, .inr ⟨hopen, rfl⟩⟩
  | tryFail _ => exact hself hj
  | tryAcquire _ _ => exact hself hj
  | dropPermit _ hrelease => exact release_futures hrelease hok hj
  | forget _ => exact hself hj
  | addPermits hrelease => exact release_futures hrelease hok hj
  | close =>
    obtain ⟨f, t, hf, rfl, -⟩ := WaitList.get_noteTaken _ _ hj
    exact ⟨f, hf, t, .inl rfl⟩

/-- What polls that are not interrupted make of a future. -/
structure Settled (closed : Bool) (f : Waiting Bool W) : Prop where
  /-- The flag does not change while a poll is in progress. -/
  loaded : f.loaded ≠ none → f.flag = false
  /-- While the semaphore is open, returning ready is handing out a permit. -/
  finished : closed = false → f.finished = true → f.completed = true
  /-- A permit that was granted is handed out when the future returns ready. -/
  granted : f.flag = true → f.finished = true → f.completed = true

theorem Stepped.closed (hstep : Stepped s l s') : s'.closed = false → s.closed = false := by
  cases hstep with
  | dropPermit _ hrelease =>
    intro h
    rw [← (release_induction (P := fun _ => True) hrelease trivial fun _ _ _ _ => trivial).2]
    exact h
  | addPermits hrelease =>
    intro h
    rw [← (release_induction (P := fun _ => True) hrelease trivial fun _ _ _ _ => trivial).2]
    exact h
  | close =>
    intro h
    cases h
  | _ => exact id

theorem Settled.touched {closed : Bool} {f f' : Waiting Bool W} (h : Settled closed f)
    (hnone : f.loaded = none) (htouched : Touched closed f f') : Settled closed f' := by
  obtain ⟨t, rfl | ⟨hopen, rfl⟩⟩ := htouched
  · exact ⟨h.loaded, h.finished, h.granted⟩
  · exact ⟨fun hl => absurd hnone hl, h.finished, fun _ => h.finished hopen⟩

theorem Settled.step (h : ∀ i f, s.futures.get i = some f → Settled s.closed f)
    (hok : s.toWaitList.Ok s.closed) (hstep : Stepped s l s') (hwhole : s.Whole l) :
    ∀ i f, s'.futures.get i = some f → Settled s'.closed f := by
  intro j f' hj
  have hclosed := hstep.closed
  suffices hsettled : Settled s.closed f' from
    ⟨hsettled.loaded, fun hopen => hsettled.finished (hclosed hopen), hsettled.granted⟩
  have hother : l ≠ .acquire → (∀ waker, l ≠ .load j waker) → l ≠ .lock j →
      Settled s.closed f' := by
    intro hnew hload hlock
    obtain ⟨f, hf, htouched⟩ := hstep.touched hok hj hnew hload hlock
    have hnone : f.loaded = none := by
      by_contra hl
      exact hlock (hwhole.2 j (Arena.lt_size hf) f hf hl)
    exact (h j f hf).touched hnone htouched
  cases hstep with
  | acquire =>
    simp only [WaitList.add, Arena.get_add] at hj
    split at hj
    · cases hj
      exact ⟨fun hl => absurd rfl hl, fun _ hfin => (by cases hfin), fun hfl => (by cases hfl)⟩
    · exact h j f' hj
  | @load i waker ready w hload =>
    by_cases hij : j = i
    · subst hij
      obtain ⟨f, hf, hnone, ⟨-, -, rfl⟩ | ⟨-, hflag, rfl⟩⟩ := WaitList.load_cases hload
      · simp only [WaitList.put, Arena.get_put hf, if_pos] at hj
        cases hj
        exact ⟨fun hl => absurd hnone hl, fun _ _ => rfl, fun _ _ => rfl⟩
      · simp only [WaitList.put, Arena.get_put hf, if_pos] at hj
        cases hj
        exact ⟨fun _ => hflag, (h j f hf).finished, (h j f hf).granted⟩
    · exact hother (by simp) (by simp [Ne.symm hij]) (by simp)
  | @lock i ready w _ hlock =>
    by_cases hij : j = i
    · subst hij
      obtain ⟨f, waker, hf, hloaded, ⟨-, -, rfl⟩ | ⟨-, -, -, rfl⟩ | ⟨-, -, -, rfl⟩⟩ :=
        WaitList.lock_cases hlock
      · simp only [Arena.get_put hf, if_pos] at hj
        cases hj
        exact ⟨fun hl => absurd rfl hl, (h j f hf).finished, (h j f hf).granted⟩
      · simp only [Arena.get_put hf, if_pos] at hj
        cases hj
        exact ⟨fun hl => absurd rfl hl, fun _ _ => rfl, fun _ _ => rfl⟩
      · simp only [Arena.get_put hf, if_pos] at hj
        cases hj
        exact ⟨fun hl => absurd rfl hl, (h j f hf).finished, (h j f hf).granted⟩
    · exact hother (by simp) (by simp) (by simp [Ne.symm hij])
  | @refuse i f hshut hf hloaded =>
    by_cases hij : j = i
    · subst hij
      simp only [WaitList.put, Arena.get_put hf, if_pos] at hj
      cases hj
      refine ⟨fun hl => absurd rfl hl, fun hopen => ?_, fun hfl => ?_⟩
      · rw [hshut] at hopen
        cases hopen
      · have hflag := (h j f hf).loaded hloaded
        rw [hflag] at hfl
        cases hfl
    · exact hother (by simp) (by simp) (by simp [Ne.symm hij])
  | _ => exact hother (by simp) (by simp) (by simp)

theorem settled_of_reachable (h : (machine.restrict Whole).Reachable s) :
    Kept s ∧ ∀ i f, s.futures.get i = some f → Settled s.closed f := by
  refine h.invariant (I := fun s => Kept s ∧ ∀ i f, s.futures.get i = some f → Settled s.closed f)
    ?_ ?_
  · rintro s ⟨permits, rfl⟩
    exact ⟨kept_new permits, fun i f hf => by cases hf⟩
  · rintro s l s' ⟨hkept, hsettled⟩ ⟨hstep, hwhole⟩
    have hstepped := step_cases hstep
    exact ⟨hkept.step hstepped hwhole.1, Settled.step hsettled hkept.sound hstepped hwhole⟩

/-- **No permit is lost or invented.** Whatever threads do in the middle of each other's polls, the
permits that are stored, alive, or granted and not handed out, are those there were in the beginning
and those added, but for those forgotten. If polls are not interrupted, what is granted and not
handed out is what is granted to a future that has not returned ready. -/
theorem restrict_conserved (h : (machine.restrict Contract).Reachable s)
    (htotal : s.initial + s.added < UInt64.size) :
    s.Conserved ∧ ((machine.restrict Whole).Reachable s →
      s.granted = s.futures.count fun f => f.flag && !f.finished) := by
  refine ⟨(kept_of_reachable h).conserved htotal, fun hwhole => ?_⟩
  obtain ⟨hkept, hsettled⟩ := settled_of_reachable hwhole
  refine Arena.count_congr fun i f hf => ?_
  cases hflag : f.flag with
  | false => rfl
  | true =>
    have hiff : f.completed = f.finished := by
      rw [Bool.eq_iff_iff]
      exact ⟨hkept.once.completed i f hf, (hsettled i f hf).granted hflag⟩
    rw [hiff]

/-- A permit that is dropped goes to the future that waits for it. -/
theorem restrict_conserved_granted : ∃ s : System ℕ, (machine.restrict Whole).Reachable s ∧
    s.initial + s.added < UInt64.size ∧ s.kernel.permit = 0 ∧ s.permits = 0 ∧ s.granted = 1 ∧
    s.Conserved ∧ s.granted = s.futures.count fun f => f.flag && !f.finished := by
  obtain ⟨s, hfollow, htotal, hpermit, hpermits, hgranted⟩ : ∃ s : System ℕ,
      Machine.follow (fun s l => if Whole s l then step s l else none)
        [.acquire, .load 0 7, .lock 0, .acquire, .load 1 8, .lock 1, .dropPermit] (new 1) = some s ∧
      s.initial + s.added < UInt64.size ∧ s.kernel.permit = 0 ∧ s.permits = 0 ∧ s.granted = 1 :=
    ⟨_, rfl, by decide, by decide, by decide, by decide⟩
  have hstart : (machine.restrict Whole).Reachable (new 1 : System ℕ) := .of_init ⟨1, rfl⟩
  have hreach := hstart.follow_restrict hfollow
  obtain ⟨hconserved, hwhole⟩ :=
    restrict_conserved (hreach.restrict_mono fun s l hw => hw.1) htotal
  exact ⟨s, hreach, htotal, hpermit, hpermits, hgranted, hconserved, hwhole hreach⟩

/-! ### Fairness -/

/-- The ids delivered to, on the way from `w₀` to `w`, are the first of those queued in `w₀`; and
there are others to deliver to only if none has been skipped. -/
def Served (w₀ w : WaitList Bool W) : Prop :=
  ∃ ids, w.grants = w₀.grants ++ ids ∧
    (w₀.kernel.queue = ids ++ w.kernel.queue ∨ w.wakers = [] ∧ ids <+: w₀.kernel.queue)

theorem Served.refl (w : WaitList Bool W) : Served w w := ⟨[], by simp, .inl rfl⟩

theorem Served.signal {w₀ w w' : WaitList Bool W} {closed : Bool} (h : Served w₀ w)
    (hok : w.Ok closed) (hsignal : w.signal true = some w') : Served w₀ w' := by
  obtain ⟨ids, hgrants, hids⟩ := h
  rcases WaitList.signal_cases hok hsignal with
    ⟨hwakers, rfl⟩ | ⟨e, rest, later, -, hwakers, hq, rfl⟩
  · refine ⟨ids, hgrants, .inr ⟨hwakers, ?_⟩⟩
    rcases hids with hids | ⟨-, hids⟩
    · exact ⟨_, hids.symm⟩
    · exact hids
  · rcases hids with hids | ⟨hnil, -⟩
    · refine ⟨ids ++ [e.id], ?_, .inl ?_⟩
      · show w.grants ++ [e.id] = _
        rw [hgrants, List.append_assoc]
      · rw [hids, hq, List.append_assoc]
        rfl
    · rw [hnil] at hwakers
      cases hwakers

theorem Served.first {w₀ w : WaitList Bool W} (h : Served w₀ w) :
    ∃ ids, w.grants = w₀.grants ++ ids ∧ ids <+: w₀.kernel.queue := by
  obtain ⟨ids, hgrants, hids | ⟨-, hids⟩⟩ := h
  · exact ⟨ids, hgrants, _, hids.symm⟩
  · exact ⟨ids, hgrants, hids⟩

theorem release_served {n : ℕ} {sem sem' : Semaphore W} (h : release n sem = some sem')
    (hok : sem.toWaitList.Ok sem.closed) : Served sem.toWaitList sem'.toWaitList :=
  (release_induction (P := fun w => w.Ok sem.closed ∧ Served sem.toWaitList w) h
    ⟨hok, .refl _⟩ fun _ _ hw hsignal =>
      ⟨hw.1.signal (by decide) hsignal, hw.2.signal hw.1 hsignal⟩).1.2

/-- **Permits are granted to those at the head of the queue.** -/
theorem Stepped.served (hstep : Stepped s l s') (hok : s.toWaitList.Ok s.closed) :
    ∃ ids, s'.grants = s.grants ++ ids ∧ ids <+: s.kernel.queue := by
  have hnone : s'.grants = s.grants → ∃ ids, s'.grants = s.grants ++ ids ∧ ids <+: s.kernel.queue :=
    fun h => ⟨[], by simp [h], _, rfl⟩
  cases hstep with
  | load hload =>
    obtain ⟨f, -, -, ⟨-, -, rfl⟩ | ⟨-, -, rfl⟩⟩ := WaitList.load_cases hload <;> exact hnone rfl
  | lock _ hlock =>
    obtain ⟨f, waker, -, -, ⟨-, -, rfl⟩ | ⟨-, -, -, rfl⟩ | ⟨-, -, -, rfl⟩⟩ :=
      WaitList.lock_cases hlock <;> exact hnone rfl
  | drop hcancel =>
    obtain ⟨f, hf, -, ⟨rfl, -⟩ | ⟨-, -, -, rfl⟩ | ⟨-, -, -, -, hsignal⟩⟩ :=
      WaitList.cancel_cases hcancel
    · exact hnone rfl
    · exact hnone rfl
    · have hput := hok.put_none hf
      exact ((Served.refl _).signal hput hsignal).first
  | dropPermit _ hrelease => exact (release_served hrelease hok).first
  | addPermits hrelease => exact (release_served hrelease hok).first
  | _ => exact hnone rfl

/-- **Fairness.** Permits are stored only while nobody is queued, and every operation grants permits
to those at the head of the queue, which is in the order of parking. So as long as a future waits at
an open semaphore, nobody who parked after it was granted a permit, `try_acquire` fails, and no poll
takes a permit for a future that was not granted one. -/
theorem reachable_fair (h : machine.Reachable s) :
    (0 < s.kernel.permit → s.kernel.queue = []) ∧
    s.parks.Pairwise (· < ·) ∧ (s.grants ++ s.kernel.queue).Sublist s.parks ∧
    (∀ l s', s.step l = some s' →
      ∃ ids, s'.grants = s.grants ++ ids ∧ ids <+: s.kernel.queue) ∧
    (s.closed = false → ∀ i f, s.futures.get i = some f → f.parked = true → f.flag = false →
      f.id ∈ s.kernel.queue ∧ (∀ id ∈ s.grants, id < f.id) ∧
      s.toSemaphore.tryAcquire = (false, s.toSemaphore) ∧
      ∀ j res sem, s.toSemaphore.lock j = some (res, sem) → res = .pending) := by
  have hok : s.toWaitList.Ok s.closed := sound_of_reachable h
  refine ⟨hok.idle, hok.sorted, hok.log, fun l s' hstep => (step_cases hstep).served hok, ?_⟩
  intro hopen i f hf hparked hflag
  obtain ⟨e, he, hid, -⟩ := (hok.futures i f hf).waiting hopen hparked hflag
  have hmem : f.id ∈ s.kernel.queue := by
    rw [← hid]
    exact (hok.mem_queue he).2
  have hpermit : s.kernel.permit = 0 := by
    by_contra hne
    rw [hok.idle (Nat.pos_of_ne_zero hne)] at hmem
    cases hmem
  refine ⟨hmem, fun id hg => hok.grants_lt hg hmem, ?_, ?_⟩
  · have hopen' : ¬ s.closed = true := by simp [hopen]
    rw [Semaphore.tryAcquire, if_neg hopen', WaiterKernel.tryAcquireStep,
      if_neg (Nat.not_lt_of_le (Nat.le_of_eq hpermit))]
  · intro j res sem hlock
    rw [Semaphore.lock, hopen] at hlock
    obtain ⟨⟨ready, w⟩, hw, heq⟩ := Option.bind_eq_some_iff.mp hlock
    cases heq
    obtain ⟨f₁, waker, hf₁, -, hcase⟩ := WaitList.lock_cases hw
    rcases hcase with ⟨-, rfl, -⟩ | ⟨-, -, hpos, -⟩ | ⟨-, rfl, -, -⟩
    · rfl
    · rw [hpermit] at hpos
      cases hpos
    · rfl

/-- Two futures wait, and a permit comes back. -/
theorem reachable_fair_two : ∃ s : System ℕ, machine.Reachable s ∧ s.closed = false ∧
    s.parks = [1, 2] ∧ s.grants = [1] ∧
    (∃ f, s.futures.get 2 = some f ∧ f.parked = true ∧ f.flag = false ∧ f.id ∈ s.kernel.queue) ∧
    s.toSemaphore.tryAcquire = (false, s.toSemaphore) := by
  obtain ⟨s, hfollow, hopen, hparks, hgrants, f, hf, hparked, hflag⟩ : ∃ s : System ℕ,
      Machine.follow step
        [.acquire, .load 0 7, .lock 0, .acquire, .load 1 8, .lock 1, .acquire, .load 2 9, .lock 2,
          .dropPermit] (new 1) = some s ∧ s.closed = false ∧ s.parks = [1, 2] ∧ s.grants = [1] ∧
        ∃ f, s.futures.get 2 = some f ∧ f.parked = true ∧ f.flag = false :=
    ⟨_, rfl, rfl, rfl, rfl, _, rfl, rfl, rfl⟩
  have hstart : machine.Reachable (new 1 : System ℕ) := .of_init ⟨1, rfl⟩
  have hreach := hstart.follow hfollow
  obtain ⟨hmem, -, htry, -⟩ := (reachable_fair hreach).2.2.2.2 hopen 2 f hf hparked hflag
  exact ⟨s, hreach, hopen, hparks, hgrants, ⟨f, hf, hparked, hflag, hmem⟩, htry⟩

end System

end Semaphore

end Lion
