import Lion.Sync.Notify
import Lion.Sync.Semaphore

/-!
# The waker of the latest poll

A future that returns pending must see to it that the waker of that poll is woken. `Notified` and
`Acquire` do so by their entry in the table, which a later poll refreshes. But a poll loads the flag
before it takes the mutex. If a signal comes in between, it has taken the entry with the waker of an
earlier poll, and there is nothing left to refresh; the poll returns pending all the same, and its
waker, unless it is the one that was taken, is forgotten.

## The condition, and that it is exact

A step is timely if it is not the second half of such a poll (`Timely`): whoever takes the mutex,
has parked before, and finds no entry to refresh, does so with the waker that was taken. In runs of
timely steps every future that has returned pending is `Prompted`, its waker being in the table or
taken. And one step that is not timely leaves a future that is not prompted, so that the condition
can be read off each step by itself.

Nothing is said about whether the future is polled again. If the task is the same the old waker
reaches it; it is a future that has moved to another task that is left waiting.

## Main results

* `restrict_timely_prompted` — the waker of the latest poll is registered or was taken, as long as
  no signal comes between the two halves of a poll by another waker than before
* `not_prompted` — a run in which one does
-/

namespace Lion

namespace WaitList

variable {φ W : Type} {s s' : WaitList φ W} {closed : Bool} {i : ℕ} {f : Waiting φ W} {v : φ}

/-- The future's latest poll, if it has returned pending, left its waker in the table, or the waker
was taken to be woken. -/
def PromptedAt (t : Table W) (i : ℕ) (f : Waiting φ W) : Prop :=
  ∀ waker, f.last = some waker →
    (∃ e ∈ t.wakers, e.future = i ∧ e.waker = waker) ∨ f.taken = some waker

/-- So it is with every future that there is. -/
def Prompted (s : WaitList φ W) : Prop :=
  ∀ i f, s.futures.get i = some f → PromptedAt s.toTable i f

/-- A waker is taken when the flag is set, or the semaphore closed, and a poll that is in progress
has not returned. -/
structure Tidy [Inhabited φ] (closed : Bool) (f : Waiting φ W) : Prop where
  /-- A waker is taken when the flag is set, or the semaphore closed. -/
  taken : f.taken ≠ none → f.flag ≠ default ∨ closed = true
  /-- A poll that is in progress has not returned. -/
  loaded : f.loaded ≠ none → f.last = none

/-- So it is with every future that there is. -/
def AllTidy [Inhabited φ] (closed : Bool) (s : WaitList φ W) : Prop :=
  s.futures.All (Tidy closed)

variable [Inhabited φ]

omit [Inhabited φ] in
/-- One future changes, or goes, and only its entries change. -/
theorem Prompted.change (h : Prompted s) (hi : s.futures.get i = some f)
    {f' : Option (Waiting φ W)} (hfutures : s'.futures = s.futures.put i f')
    (hentries : ∀ e ∈ s.wakers, e.future ≠ i → e ∈ s'.wakers)
    (hf' : ∀ f₁, f' = some f₁ → PromptedAt s'.toTable i f₁) : Prompted s' := by
  intro j f₁ hj
  rw [hfutures, Arena.get_put hi] at hj
  split at hj
  · rename_i hij
    rw [hij]
    exact hf' f₁ hj
  · rename_i hij
    intro waker hlast
    rcases h j f₁ hj waker hlast with ⟨e, he, hfuture, hwaker⟩ | htaken
    · refine .inl ⟨e, hentries e he ?_, hfuture, hwaker⟩
      rw [hfuture]
      exact hij
    · exact .inr htaken

theorem Prompted.add (h : Prompted s) : Prompted s.add := by
  intro j f hj
  simp only [WaitList.add, Arena.get_add] at hj
  split at hj
  · cases hj
    intro waker hlast
    cases hlast
  · exact h j f hj

theorem Prompted.load [DecidableEq φ] {waker : W} {ready : Bool} (h : Prompted s)
    (hload : s.load i waker = some (ready, s')) : Prompted s' := by
  obtain ⟨f, hf, -, ⟨-, -, rfl⟩ | ⟨-, -, rfl⟩⟩ := load_cases hload <;>
  · refine h.change hf rfl (fun e he _ => he) ?_
    rintro f₁ ⟨⟩ waker hlast
    cases hlast

/-- **The second half of a poll.** It leaves its waker, unless the future was delivered to since the
first half, and another waker was taken. -/
theorem prompted_lock {ready : Bool} (h : Prompted s) (hok : Ok s false) (htidy : s.AllTidy false)
    (hlock : s.lock i = some (ready, s')) :
    Prompted s' ↔ ∀ f waker, s.futures.get i = some f → f.loaded = some waker →
      f.parked = true → f.flag ≠ default → f.taken = some waker := by
  obtain ⟨f, waker, hf, hloaded, hcase⟩ := lock_cases hlock
  rcases hcase with ⟨hparked, -, rfl⟩ | ⟨hparked, -, -, rfl⟩ | ⟨hparked, -, -, rfl⟩
  · have hothers : ∀ e ∈ s.wakers, e.future ≠ i → e ∈ (s.toTable.refresh f.id waker).wakers := by
      intro e he hne
      refine List.mem_map.mpr ⟨e, he, if_neg fun hid => hne ?_⟩
      exact hok.entry_future hf hparked he hid
    constructor
    · intro hprompted f₁ waker₁ hf₁ hloaded₁ _ hflag
      rw [hf] at hf₁
      cases hf₁
      rw [hloaded] at hloaded₁
      cases hloaded₁
      have hafter := hprompted i { f with loaded := none, last := some waker } (by
        simp only [Arena.get_put hf, if_pos]) waker rfl
      rcases hafter with ⟨e, he, hfuture, -⟩ | htaken
      · -- its flag is set, so it has no entry
        obtain ⟨e₀, he₀, rfl⟩ := List.mem_map.mp he
        have hfuture₀ : e₀.future = i := by
          rw [← hfuture]
          split <;> rfl
        exact absurd ((hok.futures i f hf).entry e₀ he₀ hfuture₀).2.2 hflag
      · exact htaken
    · intro htimely
      refine h.change hf rfl hothers ?_
      rintro f₁ ⟨⟩ waker₁ hlast
      cases hlast
      by_cases hflag : f.flag = default
      · obtain ⟨e, he, hid, hfuture⟩ := (hok.futures i f hf).waiting rfl hparked hflag
        refine .inl ⟨{ e with waker := waker }, ?_, hfuture, rfl⟩
        exact List.mem_map.mpr ⟨e, he, if_pos hid⟩
      · exact .inr (htimely f waker hf hloaded hparked hflag)
  · refine ⟨fun _ f₁ _ hf₁ _ hp => ?_, fun _ => h.change hf rfl (fun e he _ => he) ?_⟩
    · rw [hf] at hf₁
      cases hf₁
      rw [hparked] at hp
      cases hp
    · rintro f₁ ⟨⟩ waker₁ hlast
      have hnone := (htidy i f hf).loaded (by simp [hloaded])
      rw [hnone] at hlast
      cases hlast
  · refine ⟨fun _ f₁ _ hf₁ _ hp => ?_, fun _ => h.change hf rfl ?_ ?_⟩
    · rw [hf] at hf₁
      cases hf₁
      rw [hparked] at hp
      cases hp
    · exact fun e he _ => List.mem_append_left _ he
    · rintro f₁ ⟨⟩ waker₁ hlast
      cases hlast
      exact .inl ⟨_, List.mem_append_right _ (List.mem_singleton.mpr rfl), rfl, rfl⟩

theorem Prompted.signal (h : Prompted s) (hok : Ok s closed) (htidy : s.AllTidy closed)
    (hsignal : s.signal v = some s') : Prompted s' := by
  rcases signal_cases hok hsignal with ⟨-, rfl⟩ | ⟨e, rest, ids, hopen, hwakers, -, rfl⟩
  · exact h
  · have hmem : e ∈ s.wakers := by
      rw [hwakers]
      exact List.mem_cons_self
    have hothers : ∀ e' ∈ s.wakers, e'.future ≠ e.future → e' ∈ rest := by
      intro e' he' hne
      rw [hwakers] at he'
      rcases List.mem_cons.mp he' with rfl | he'
      · exact absurd rfl hne
      · exact he'
    cases hf : s.futures.get e.future with
    | none =>
      intro j f hj waker hlast
      simp only [Arena.update_of_get_eq_none hf] at hj
      rcases h j f hj waker hlast with ⟨e', he', hfuture, hwaker⟩ | htaken
      · refine .inl ⟨e', hothers e' he' ?_, hfuture, hwaker⟩
        intro heq
        rw [← heq, hfuture, hj] at hf
        cases hf
      · exact .inr htaken
    | some f =>
      have hentry := (hok.futures e.future f hf).entry e hmem rfl
      refine h.change hf (Arena.update_eq_put hf _) hothers ?_
      rintro f₁ ⟨⟩ waker hlast
      right
      rcases h e.future f hf waker hlast with ⟨e', he', hfuture, hwaker⟩ | htaken
      · have hid := (hok.futures e.future f hf).entry e' he' hfuture
        rw [← hok.entry_eq he' hmem (hid.1.symm.trans hentry.1)]
        exact congrArg some hwaker
      · rcases (htidy e.future f hf).taken (by simp [htaken]) with hflag | hclosed
        · exact absurd hentry.2.2 hflag
        · rw [hopen] at hclosed
          cases hclosed

omit [Inhabited φ] in
theorem Prompted.put_none (h : Prompted s) (hi : s.futures.get i = some f) :
    Prompted (s.put i none) := by
  refine h.change hi rfl (fun e he _ => he) ?_
  rintro f₁ ⟨⟩

theorem Prompted.cancel {forwards : φ → Bool} (h : Prompted s) (hok : Ok s closed)
    (htidy : s.AllTidy closed) (hcancel : s.cancel forwards v i = some s') : Prompted s' := by
  obtain ⟨f, hf, -, ⟨rfl, -⟩ | ⟨-, hparked, -, rfl⟩ | ⟨-, -, -, -, hsignal⟩⟩ := cancel_cases hcancel
  · exact h.put_none hf
  · refine h.change hf rfl (fun e he hne => ?_) (by rintro f₁ ⟨⟩)
    have hid : ¬ (decide (e.id = f.id) = true) := fun hid =>
      hne (hok.entry_future hf hparked he (of_decide_eq_true hid))
    exact (List.mem_eraseP_of_neg (p := fun x => decide (x.id = f.id)) hid).mpr he
  · refine (h.put_none hf).signal (hok.put_none hf) (fun j f₁ hj => ?_) hsignal
    exact htidy.put hf (by rintro f₂ ⟨⟩) j f₁ hj

theorem Prompted.close (h : Prompted s) (hok : Ok s closed) (htidy : s.AllTidy closed) :
    Prompted { s with wakers := [], futures := noteTaken s.wakers s.futures } := by
  intro j f' hj waker hlast
  right
  obtain ⟨f, t, hf, rfl, ht⟩ := get_noteTaken _ _ hj
  rcases h j f hf waker hlast with ⟨e, he, hfuture, hwaker⟩ | htaken
  · rcases ht with ⟨-, hnone⟩ | ⟨e', he', hfuture', rfl⟩
    · exact absurd hfuture (hnone e he)
    · have hid := (hok.futures j f hf).entry e he hfuture
      have hid' := (hok.futures j f hf).entry e' he' hfuture'
      rw [hok.entry_eq he' he (hid'.1.symm.trans hid.1), hwaker]
  · rcases ht with ⟨rfl, -⟩ | ⟨e', he', hfuture', -⟩
    · exact htaken
    · -- it has an entry, so no waker was taken
      have hentry := (hok.futures j f hf).entry e' he' hfuture'
      rcases (htidy j f hf).taken (by simp [htaken]) with hflag | hclosed
      · exact absurd hentry.2.2 hflag
      · rw [(hok.mem_queue he').1] at hclosed
        cases hclosed

/-! ### Taken wakers -/

theorem AllTidy.add (h : s.AllTidy closed) : s.add.AllTidy closed :=
  Arena.All.add h ⟨fun htaken => absurd rfl htaken, fun _ => rfl⟩

theorem AllTidy.load [DecidableEq φ] {waker : W} {ready : Bool} (h : s.AllTidy closed)
    (hload : s.load i waker = some (ready, s')) : s'.AllTidy closed := by
  obtain ⟨f, hf, -, ⟨-, hflag, rfl⟩ | ⟨-, -, rfl⟩⟩ := load_cases hload
  · refine Arena.All.put h hf ?_
    rintro f₁ ⟨⟩
    exact ⟨fun _ => .inl hflag, fun _ => rfl⟩
  · refine Arena.All.put h hf ?_
    rintro f₁ ⟨⟩
    exact ⟨(h i f hf).taken, fun _ => rfl⟩

theorem AllTidy.lock {ready : Bool} (h : s.AllTidy closed) (hlock : s.lock i = some (ready, s')) :
    s'.AllTidy closed := by
  obtain ⟨f, waker, hf, -, ⟨-, -, rfl⟩ | ⟨-, -, -, rfl⟩ | ⟨-, -, -, rfl⟩⟩ := lock_cases hlock <;>
  · refine Arena.All.put h hf ?_
    rintro f₁ ⟨⟩
    exact ⟨(h i f hf).taken, fun hl => absurd rfl hl⟩

theorem AllTidy.signal (h : s.AllTidy closed) (hok : Ok s closed) (hv : v ≠ default)
    (hsignal : s.signal v = some s') : s'.AllTidy closed :=
  signal_all h hok (fun _ _ hf => ⟨fun _ => .inl hv, hf.loaded⟩) hsignal

theorem AllTidy.cancel {forwards : φ → Bool} (h : s.AllTidy closed) (hok : Ok s closed)
    (hv : v ≠ default) (hcancel : s.cancel forwards v i = some s') : s'.AllTidy closed :=
  cancel_all h hok (fun _ _ hf => ⟨fun _ => .inl hv, hf.loaded⟩) hcancel

theorem AllTidy.close (h : s.AllTidy closed) :
    AllTidy true { s with wakers := [], futures := noteTaken s.wakers s.futures } := by
  intro j f' hj
  obtain ⟨f, t, hf, rfl, -⟩ := get_noteTaken _ _ hj
  exact ⟨fun _ => .inr rfl, (h j f hf).loaded⟩

theorem Prompted.signalAll (h : Prompted s) (hok : Ok s false) (htidy : s.AllTidy false)
    (hv : v ≠ default) : Prompted (s.signalAll v) ∧ (s.signalAll v).AllTidy false := by
  refine (signalAll_induction (P := fun w => Prompted w ∧ w.AllTidy false) hok hv ⟨h, htidy⟩ ?_).1
  rintro w w' hw - ⟨hprompted, htidy⟩ hsignal
  exact ⟨hprompted.signal hw htidy hsignal, htidy.signal hw hv hsignal⟩

end WaitList

/-! ### `Notified` -/

namespace Notify

variable {W : Type} {s s' : Notify W} {l : Label W}

/-- The future that takes the mutex, in the second half of a poll. -/
def Label.locked : Label W → Option ℕ
  | .lock i => some i
  | _ => none

/-- A future that takes the mutex and has parked before has not been delivered to since the poll
began, or its waker is the one that was taken. -/
def Timely (s : Notify W) (l : Label W) : Prop :=
  ∀ i ∈ l.locked, ∀ f ∈ s.futures.get i, ∀ waker ∈ f.loaded, f.parked = true → f.flag ≠ .pending →
    f.taken = some waker

instance [DecidableEq W] (s : Notify W) (l : Label W) : Decidable (s.Timely l) :=
  inferInstanceAs (Decidable (∀ i ∈ l.locked, ∀ f ∈ s.futures.get i, ∀ waker ∈ f.loaded,
    f.parked = true → f.flag ≠ .pending → f.taken = some waker))

theorem Stepped.tidy (hstep : Stepped s l s') (hok : s.toWaitList.Ok false)
    (h : s.toWaitList.AllTidy false) : s'.toWaitList.AllTidy false := by
  cases hstep with
  | notified => exact h.add
  | load _ hload => exact h.load hload
  | lock hlock => exact h.lock hlock
  | drop hcancel => exact h.cancel hok (by decide) hcancel
  | notifyOne hsignal => exact h.signal hok (by decide) hsignal
  | notifyWaiters =>
    refine (WaitList.signalAll_induction (P := fun w => w.AllTidy false) hok (by decide) h ?_).1
    exact fun w w' hw _ hP hsignal => hP.signal hw (by decide) hsignal

theorem Stepped.prompted (hstep : Stepped s l s') (hok : s.toWaitList.Ok false)
    (htidy : s.toWaitList.AllTidy false) (h : s.toWaitList.Prompted) :
    s'.toWaitList.Prompted ↔ s.Timely l := by
  have hother : l.locked = none → s'.toWaitList.Prompted →
      (s'.toWaitList.Prompted ↔ s.Timely l) := by
    intro hnone hafter
    refine ⟨fun _ i hi => ?_, fun _ => hafter⟩
    rw [hnone] at hi
    cases hi
  cases hstep with
  | notified => exact hother rfl h.add
  | load _ hload => exact hother rfl (h.load hload)
  | @lock i ready w hlock =>
    refine (WaitList.prompted_lock h hok htidy hlock).trans ⟨?_, ?_⟩
    · rintro hall i ⟨⟩ f hf waker hloaded
      exact hall f waker hf hloaded
    · intro htimely f waker hf hloaded
      exact htimely i rfl f hf waker hloaded
  | drop hcancel => exact hother rfl (h.cancel hok htidy hcancel)
  | notifyOne hsignal => exact hother rfl (h.signal hok htidy hsignal)
  | notifyWaiters => exact hother rfl (h.signalAll hok htidy (by decide)).1

theorem restrict_timely (h : (machine.restrict Timely).Reachable s) :
    s.toWaitList.AllTidy false ∧ s.toWaitList.Prompted := by
  suffices hall : Sound s ∧ s.toWaitList.AllTidy false ∧ s.toWaitList.Prompted from hall.2
  refine h.invariant (I := fun s => Sound s ∧ s.toWaitList.AllTidy false ∧ s.toWaitList.Prompted)
    ?_ ?_
  · rintro s rfl
    exact ⟨WaitList.ok_new 0, fun i f hf => (by cases hf), fun i f hf => (by cases hf)⟩
  · rintro s l s' ⟨hsound, htidy, hprompted⟩ ⟨hstep, htimely⟩
    have hstepped := step_cases hstep
    exact ⟨hsound.step hstepped, hstepped.tidy hsound htidy,
      (hstepped.prompted hsound htidy hprompted).mpr htimely⟩

end Notify

/-! ### `Acquire` -/

namespace Semaphore

variable {W : Type}

/-- The future that takes the mutex, in the second half of a poll. -/
def Label.locked : Label W → Option ℕ
  | .lock i => some i
  | _ => none

namespace System

variable {s s' : System W} {l : Label W}

/-- While the semaphore is open, a future that takes the mutex and has parked before has not been
granted a permit since the poll began, or its waker is the one that was taken. -/
def Timely (s : System W) (l : Label W) : Prop :=
  ∀ i ∈ l.locked, ∀ f ∈ s.futures.get i, ∀ waker ∈ f.loaded, s.closed = false →
    f.parked = true → f.flag = true → f.taken = some waker

instance [DecidableEq W] (s : System W) (l : Label W) : Decidable (s.Timely l) :=
  inferInstanceAs (Decidable (∀ i ∈ l.locked, ∀ f ∈ s.futures.get i, ∀ waker ∈ f.loaded,
    s.closed = false → f.parked = true → f.flag = true → f.taken = some waker))

theorem release_prompted {n : ℕ} {sem sem' : Semaphore W} (h : release n sem = some sem')
    (hok : sem.toWaitList.Ok sem.closed) (htidy : sem.toWaitList.AllTidy sem.closed) :
    sem'.toWaitList.AllTidy sem'.closed ∧ (sem.toWaitList.Prompted → sem'.toWaitList.Prompted) := by
  have hall := release_induction (P := fun w => w.Ok sem.closed ∧ w.AllTidy sem.closed ∧
    (sem.toWaitList.Prompted → w.Prompted)) h ⟨hok, htidy, id⟩ ?_
  · rw [hall.2]
    exact hall.1.2
  · rintro w w' ⟨hw, htidy, hprompted⟩ hsignal
    exact ⟨hw.signal (by decide) hsignal, htidy.signal hw (by decide) hsignal,
      fun h => (hprompted h).signal hw htidy hsignal⟩

theorem Stepped.tidy (hstep : Stepped s l s') (hok : s.toWaitList.Ok s.closed)
    (h : s.toWaitList.AllTidy s.closed) : s'.toWaitList.AllTidy s'.closed := by
  cases hstep with
  | acquire => exact h.add
  | load hload => exact h.load hload
  | lock _ hlock => exact h.lock hlock
  | refuse _ hf _ =>
    refine Arena.All.put h hf ?_
    rintro f₁ ⟨⟩
    exact ⟨(h _ _ hf).taken, fun hl => absurd rfl hl⟩
  | drop hcancel => exact h.cancel hok (by decide) hcancel
  | tryFail _ => exact h
  | tryAcquire _ _ => exact h
  | dropPermit _ hrelease => exact (release_prompted hrelease hok h).1
  | forget _ => exact h
  | addPermits hrelease => exact (release_prompted hrelease hok h).1
  | close => exact h.close

theorem Stepped.prompted (hstep : Stepped s l s') (hok : s.toWaitList.Ok s.closed)
    (htidy : s.toWaitList.AllTidy s.closed) (h : s.toWaitList.Prompted) :
    s'.toWaitList.Prompted ↔ s.Timely l := by
  have hother : l.locked = none → s'.toWaitList.Prompted →
      (s'.toWaitList.Prompted ↔ s.Timely l) := by
    intro hnone hafter
    refine ⟨fun _ i hi => ?_, fun _ => hafter⟩
    rw [hnone] at hi
    cases hi
  cases hstep with
  | acquire => exact hother rfl h.add
  | load hload => exact hother rfl (h.load hload)
  | @lock i ready w hopen hlock =>
    rw [hopen] at hok htidy
    refine (WaitList.prompted_lock h hok htidy hlock).trans ⟨?_, ?_⟩
    · rintro hall i ⟨⟩ f hf waker hloaded - hparked hflag
      exact hall f waker hf hloaded hparked (by simp [hflag])
    · intro htimely f waker hf hloaded hparked hflag
      exact htimely i rfl f hf waker hloaded hopen hparked (by simpa using hflag)
  | @refuse i f hclosed hf hloaded =>
    refine ⟨?_, fun _ => h.change hf rfl (fun e he _ => he) ?_⟩
    · rintro - i ⟨⟩ f hf waker hloaded hopen
      rw [hclosed] at hopen
      cases hopen
    · rintro f₁ ⟨⟩ waker hlast
      have hnone := (htidy i f hf).loaded hloaded
      rw [hnone] at hlast
      cases hlast
  | drop hcancel => exact hother rfl (h.cancel hok htidy hcancel)
  | tryFail _ => exact hother rfl h
  | tryAcquire _ _ => exact hother rfl h
  | dropPermit _ hrelease => exact hother rfl ((release_prompted hrelease hok htidy).2 h)
  | forget _ => exact hother rfl h
  | addPermits hrelease => exact hother rfl ((release_prompted hrelease hok htidy).2 h)
  | close => exact hother rfl (h.close hok htidy)

theorem restrict_timely (h : (machine.restrict Timely).Reachable s) :
    s.toWaitList.AllTidy s.closed ∧ s.toWaitList.Prompted := by
  suffices hall : Sound s ∧ s.toWaitList.AllTidy s.closed ∧ s.toWaitList.Prompted from hall.2
  refine h.invariant
    (I := fun s => Sound s ∧ s.toWaitList.AllTidy s.closed ∧ s.toWaitList.Prompted) ?_ ?_
  · rintro s ⟨permits, rfl⟩
    exact ⟨WaitList.ok_new permits, fun i f hf => (by cases hf), fun i f hf => (by cases hf)⟩
  · rintro s l s' ⟨hsound, htidy, hprompted⟩ ⟨hstep, htimely⟩
    have hstepped := step_cases hstep
    exact ⟨hsound.step hstepped, hstepped.tidy hsound htidy,
      (hstepped.prompted hsound htidy hprompted).mpr htimely⟩

end System

end Semaphore

/-- **The waker of the latest poll.** In runs without a signal between the two halves of a poll by a
new waker, the waker of the latest poll is in the table, or was taken by the signal that set the
flag or by `close`. Any other step forgets a waker. -/
theorem restrict_timely_prompted (W : Type) :
    (∀ s : Notify W, (Notify.machine.restrict Notify.Timely).Reachable s →
      s.toWaitList.Prompted ∧
      ∀ l s', s.step l = some s' → (s'.toWaitList.Prompted ↔ s.Timely l)) ∧
    ∀ s : Semaphore.System W,
      (Semaphore.System.machine.restrict Semaphore.System.Timely).Reachable s →
      s.toWaitList.Prompted ∧
      ∀ l s', s.step l = some s' → (s'.toWaitList.Prompted ↔ s.Timely l) := by
  constructor
  · intro s h
    obtain ⟨htidy, hprompted⟩ := Notify.restrict_timely h
    refine ⟨hprompted, fun l s' hstep => ?_⟩
    have hsound := Notify.sound_of_reachable h.of_restrict
    exact (Notify.step_cases hstep).prompted hsound htidy hprompted
  · intro s h
    obtain ⟨htidy, hprompted⟩ := Semaphore.System.restrict_timely h
    refine ⟨hprompted, fun l s' hstep => ?_⟩
    exact (Semaphore.System.step_cases hstep).prompted
      (Semaphore.System.sound_of_reachable h.of_restrict) htidy hprompted

/-- A future that waits is polled by another waker, and is notified after that. -/
theorem restrict_timely_prompted_refresh : ∃ s : Notify ℕ,
    (Notify.machine.restrict Notify.Timely).Reachable s ∧
    (∃ f, s.futures.get 0 = some f ∧ f.last = some 8 ∧ f.taken = some 8) ∧
    s.toWaitList.Prompted := by
  obtain ⟨s, hfollow, hfuture⟩ : ∃ s : Notify ℕ,
      Machine.follow (fun s l => if Notify.Timely s l then Notify.step s l else none)
        [.notified, .load 0 7, .lock 0, .load 0 8, .lock 0, .notifyOne] .new = some s ∧
      ∃ f, s.futures.get 0 = some f ∧ f.last = some 8 ∧ f.taken = some 8 :=
    ⟨_, rfl, _, rfl, rfl, rfl⟩
  have hstart : (Notify.machine.restrict Notify.Timely).Reachable (.new : Notify ℕ) := .of_init rfl
  have hreach := hstart.follow_restrict hfollow
  exact ⟨s, hreach, hfuture, ((restrict_timely_prompted ℕ).1 s hreach).1⟩

/-- A future that waits is polled by another waker. The flag is loaded, then the future is notified,
or granted a permit, and the earlier waker taken; then the poll takes the mutex, finds no entry to
refresh, and returns pending. -/
theorem not_prompted :
    (¬ ∀ s : Notify ℕ, Notify.machine.Reachable s → s.toWaitList.Prompted) ∧
    ¬ ∀ s : Semaphore.System ℕ, Semaphore.System.machine.Reachable s → s.toWaitList.Prompted := by
  constructor
  · intro hall
    obtain ⟨s, hfollow, f, hf, hlast, hwakers, htaken⟩ : ∃ s : Notify ℕ,
        Machine.follow Notify.step
          [.notified, .load 0 7, .lock 0, .load 0 8, .notifyOne, .lock 0] .new = some s ∧
        ∃ f, s.futures.get 0 = some f ∧ f.last = some 8 ∧ s.wakers = [] ∧ f.taken = some 7 :=
      ⟨_, rfl, _, rfl, rfl, rfl, rfl⟩
    have hstart : Notify.machine.Reachable (.new : Notify ℕ) := .of_init rfl
    rcases hall s (hstart.follow hfollow) 0 f hf 8 hlast with ⟨e, he, -⟩ | hforgot
    · rw [hwakers] at he
      cases he
    · rw [htaken] at hforgot
      cases hforgot
  · intro hall
    obtain ⟨s, hfollow, f, hf, hlast, hwakers, htaken⟩ : ∃ s : Semaphore.System ℕ,
        Machine.follow Semaphore.System.step
          [.acquire, .load 0 7, .lock 0, .load 0 8, .addPermits 1, .lock 0] (.new 0) = some s ∧
        ∃ f, s.futures.get 0 = some f ∧ f.last = some 8 ∧ s.wakers = [] ∧ f.taken = some 7 :=
      ⟨_, rfl, _, rfl, rfl, rfl, rfl⟩
    have hstart : Semaphore.System.machine.Reachable (.new 0 : Semaphore.System ℕ) :=
      .of_init ⟨0, rfl⟩
    rcases hall s (hstart.follow hfollow) 0 f hf 8 hlast with ⟨e, he, -⟩ | hforgot
    · rw [hwakers] at he
      cases he
    · rw [htaken] at hforgot
      cases hforgot

end Lion
