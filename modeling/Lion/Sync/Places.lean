import Lion.Sync.Mutex
import Lion.Sync.Notify
import Mathlib.Data.ENat.Basic

/-!
# Places in the queue

A future that waits has an entry, and so many others before it. Nothing but a poll of its own
changes its waker, nobody comes before it, and every signal brings it one place nearer: the first is
delivered to, and its waker called once the mutex was let go. Whoever is told about everybody, as by
`notify_waiters` or `close`, passes over all places at once.

This is for one operation at a time (`WaitList.Moved`), with the wakers that it calls. They are not
part of the state, since they are collected under the mutex and called after it.

## How operations add up

`Moved` has the number of places as an argument: no place for what leaves the entries alone, one for
a signal, as many as there are permits for a release, and all of them for a signal to everybody. A
future that waits comes at least so many places nearer, or is reached, its waker being among those
called and its flag set. Operations that do one thing after another add their numbers and append
their calls (`Moved.trans`), which is how the release of several permits is treated. Nothing is lost
on the way: a future that gives up its signal passes it on, which is a signal too.

So from one operation it can be told how far it brings whoever waits (`moves`), without looking at
the state, and for how long a future waits is a matter of counting operations.

## Mutexes

A mutex is a semaphore with one permit, whose permits are its guards (`Mutex.step_semaphore`), so
what holds of the one holds of the other.

## Main results

* `Semaphore.System.moved_of_step`, `Notify.moved_of_step` — operations and places
* `Mutex.reachable_turn` — mutexes are semaphores, and guards are handed out in turn
-/

namespace Lion

namespace WaitList

variable {φ W : Type}

/-- The waker that a signal calls, if there is an entry to take out. -/
def signalCalls (s : WaitList φ W) : List W :=
  match s.toTable.signal with
  | some (some e, _) => [e.waker]
  | some (none, _) | none => []

/-- The wakers that are called when everybody is delivered to. -/
def signalAllCalls (s : WaitList φ W) : List W := s.toTable.drain.1.map Entry.waker

/-- The waker that is called when a future is dropped. -/
def cancelCalls (s : WaitList φ W) (forwards : φ → Bool) (i : ℕ) : List W :=
  match s.futures.get i with
  | some f =>
    if f.completed || !f.parked then []
    else
      match s.toTable.withdraw f.id with
      | (true, _) => []
      | (false, table) =>
        if forwards f.flag && table.kernel.permit + 1 < UInt64.size then
          { s with toTable := table }.signalCalls
        else []
  | none => []

/-- Future number `i` waits with a waker, and there are `k` entries before its own. -/
def WaitsAt (s : WaitList φ W) (i : ℕ) (w : W) (k : ℕ) : Prop :=
  ∃ id f, s.wakers[k]? = some ⟨id, i, w⟩ ∧ s.futures.get i = some f

variable [Inhabited φ]

/-- Future number `i` was delivered to: its flag is set. -/
def Delivered (s : WaitList φ W) (i : ℕ) : Prop :=
  ∃ f, s.futures.get i = some f ∧ f.flag ≠ default

/-- What an operation does to a future that it is not about: it comes `m` places nearer, or is
delivered to and called. -/
structure Moved (i : ℕ) (s s' : WaitList φ W) (calls : List W) (m : ℕ∞) : Prop where
  /-- If it waits, it comes nearer by `m` places or is reached, and its waker called. -/
  waits : ∀ ⦃w : W⦄ ⦃k : ℕ⦄, s.WaitsAt i w k →
    (∃ q : ℕ, q + m ≤ k ∧ s'.WaitsAt i w q) ∨ w ∈ calls ∧ s'.Delivered i
  /-- If it was delivered to, it still is. -/
  delivered : s.Delivered i → s'.Delivered i

variable {s s' s'' : WaitList φ W} {closed : Bool} {i j : ℕ} {f : Waiting φ W} {v : φ}
  {calls calls' : List W} {m m' : ℕ∞}

/-- One operation after another, with the wakers of both. -/
theorem Moved.trans (h : Moved i s s' calls m) (h' : Moved i s' s'' calls' m') :
    Moved i s s'' (calls ++ calls') (m + m') := by
  refine ⟨fun w k hk => ?_, fun hd => h'.delivered (h.delivered hd)⟩
  rcases h.waits hk with ⟨q, hq, hat⟩ | ⟨hcall, hd⟩
  · rcases h'.waits hat with ⟨r, hr, hat'⟩ | ⟨hcall, hd⟩
    · refine .inl ⟨r, ?_, hat'⟩
      rw [add_comm m, ← add_assoc]
      exact (add_le_add_left hr m).trans hq
    · exact .inr ⟨List.mem_append_right _ hcall, hd⟩
  · exact .inr ⟨List.mem_append_left _ hcall, h'.delivered hd⟩

/-- The entry stays where it is, and so does the flag. -/
theorem Moved.of_kept (hwakers : ∀ (e : Entry W) (k : ℕ), s.wakers[k]? = some e → e.future = i →
      ∃ q ≤ k, s'.wakers[q]? = some e)
    (hfutures : ∀ f, s.futures.get i = some f →
      ∃ f', s'.futures.get i = some f' ∧ f'.flag = f.flag) : Moved i s s' calls 0 := by
  constructor
  · rintro w k ⟨id, f, he, hf⟩
    obtain ⟨q, hq, he'⟩ := hwakers _ k he rfl
    obtain ⟨f', hf', -⟩ := hfutures f hf
    exact .inl ⟨q, by rw [add_zero]; exact Nat.cast_le.mpr hq, id, f', he', hf'⟩
  · rintro ⟨f, hf, hflag⟩
    obtain ⟨f', hf', hsame⟩ := hfutures f hf
    exact ⟨f', hf', by rw [hsame]; exact hflag⟩

/-- Nothing happens to the entries, nor to the flag. -/
theorem Moved.of_wakers (hwakers : s'.wakers = s.wakers)
    (hfutures : ∀ f, s.futures.get i = some f →
      ∃ f', s'.futures.get i = some f' ∧ f'.flag = f.flag) : Moved i s s' calls 0 :=
  .of_kept (fun _ k he _ => ⟨k, Nat.le_refl k, by rw [hwakers]; exact he⟩) hfutures

/-- Nothing happens, to this future or to another. -/
theorem Moved.refl (s : WaitList φ W) : Moved i s s calls 0 :=
  .of_wakers rfl fun f hf => ⟨f, hf, rfl⟩

theorem moved_add : Moved i s s.add calls 0 := by
  refine .of_wakers rfl fun f hf => ⟨f, ?_, rfl⟩
  simp only [WaitList.add, Arena.get_add]
  rw [if_neg (Nat.ne_of_lt (Arena.lt_size hf))]
  exact hf

theorem moved_load [DecidableEq φ] {waker : W} {ready : Bool}
    (hload : s.load j waker = some (ready, s')) : Moved i s s' calls 0 := by
  obtain ⟨f, hf, -, ⟨-, -, rfl⟩ | ⟨-, -, rfl⟩⟩ := load_cases hload <;>
  · refine .of_wakers rfl fun f' hf' => ?_
    simp only [WaitList.put, Arena.get_put hf]
    split
    · rename_i heq
      rw [heq, hf] at hf'
      cases hf'
      exact ⟨_, rfl, rfl⟩
    · exact ⟨f', hf', rfl⟩

/-- The poll of another future keeps its place. -/
theorem moved_lock {ready : Bool} (hok : Ok s closed) (hne : i ≠ j)
    (hlock : s.lock j = some (ready, s')) : Moved i s s' calls 0 := by
  obtain ⟨f, waker, hf, -, hcase⟩ := lock_cases hlock
  have hfutures : ∀ f' : Waiting φ W, ∀ f₁, s.futures.get i = some f₁ →
      ∃ f₂, (s.futures.put j (some f')).get i = some f₂ ∧ f₂.flag = f₁.flag := by
    intro f' f₁ hf₁
    rw [Arena.get_put hf, if_neg hne]
    exact ⟨f₁, hf₁, rfl⟩
  rcases hcase with ⟨hparked, -, rfl⟩ | ⟨-, -, -, rfl⟩ | ⟨-, -, -, rfl⟩
  · refine .of_kept (fun e k he hfuture => ⟨k, Nat.le_refl k, ?_⟩) (hfutures _)
    have hid : e.id ≠ f.id := fun heq => hne (hfuture.symm.trans
      (hok.entry_future hf hparked (List.mem_of_getElem? he) heq))
    simp only [Table.refresh, List.getElem?_map, he, Option.map_some, if_neg hid]
  · exact .of_wakers rfl (hfutures _)
  · refine .of_kept (fun e k he _ => ⟨k, Nat.le_refl k, ?_⟩) (hfutures _)
    exact (List.getElem?_append_left (List.getElem?_eq_some_iff.mp he).1).trans he

/-- Who waits means that no permit is stored. -/
theorem WaitsAt.permit {w : W} {k : ℕ} (h : s.WaitsAt i w k) (hok : Ok s closed) :
    s.kernel.permit = 0 := by
  obtain ⟨id, f, he, -⟩ := h
  by_contra hne
  have hmem := (hok.mem_queue (List.mem_of_getElem? he)).2
  rw [hok.idle (Nat.pos_of_ne_zero hne)] at hmem
  cases hmem

/-- **Signals** bring everybody one place nearer, and deliver to the first. -/
theorem moved_signal (hok : Ok s closed) (hv : v ≠ default) (hsignal : s.signal v = some s') :
    Moved i s s' s.signalCalls 1 := by
  rcases signal_cases hok hsignal with ⟨hnil, rfl⟩ | ⟨e, rest, ids, -, hwakers, hqueue, rfl⟩
  · refine ⟨?_, fun h => h⟩
    rintro w k ⟨id, f, he, -⟩
    rw [hnil] at he
    cases he
  · have hcalls : s.signalCalls = [e.waker] := by
      rw [signalCalls, Table.signal_of_cons hwakers hqueue]
    constructor
    · rintro w k ⟨id, f, he, hf⟩
      rw [hwakers] at he
      cases k with
      | zero =>
        obtain rfl : e = ⟨id, i, w⟩ := Option.some.inj he
        refine .inr ⟨by rw [hcalls]; exact List.mem_singleton.mpr rfl, ?_⟩
        refine ⟨{ f with flag := v, taken := some w }, ?_, hv⟩
        simp only [Arena.get_update, if_pos, hf, Option.map_some]
      | succ k =>
        refine .inl ⟨k, by rw [Nat.cast_succ], id, ?_⟩
        simp only [Arena.get_update, hf]
        split
        · exact ⟨_, he, rfl⟩
        · exact ⟨f, he, rfl⟩
    · rintro ⟨f, hf, hflag⟩
      refine ⟨if i = e.future then { f with flag := v, taken := some e.waker } else f, ?_, ?_⟩
      · simp only [Arena.get_update, hf]
        split <;> rfl
      · split
        · exact hv
        · exact hflag

/-- What is not erased comes no later. -/
theorem getElem?_eraseP {α : Type*} {p : α → Bool} {l : List α} {k : ℕ} {x : α}
    (h : l[k]? = some x) (hp : p x = false) : ∃ q ≤ k, (l.eraseP p)[q]? = some x := by
  induction l generalizing k with
  | nil => cases h
  | cons y l ih =>
    cases hy : p y with
    | true =>
      rw [List.eraseP_cons_of_pos hy]
      cases k with
      | zero =>
        obtain rfl : y = x := Option.some.inj h
        rw [hp] at hy
        cases hy
      | succ k => exact ⟨k, Nat.le_succ k, h⟩
    | false =>
      rw [List.eraseP_cons_of_neg (by simp [hy])]
      cases k with
      | zero => exact ⟨0, Nat.le_refl 0, h⟩
      | succ k =>
        obtain ⟨q, hq, hx⟩ := ih h
        exact ⟨q + 1, Nat.succ_le_succ hq, hx⟩

/-- Another future is dropped, and a signal that it has not collected is passed on. -/
theorem moved_cancel {forwards : φ → Bool} (hok : Ok s closed) (hv : v ≠ default) (hne : i ≠ j)
    (hcancel : s.cancel forwards v j = some s') :
    Moved i s s' (s.cancelCalls forwards j) 0 := by
  obtain ⟨f, hf, -, hcase⟩ := cancel_cases hcancel
  have hput : ∀ calls, Moved i s (s.put j none) calls 0 := by
    refine fun _ => .of_wakers rfl fun f' hf' => ⟨f', ?_, rfl⟩
    simp only [WaitList.put, Arena.get_put hf, if_neg hne]
    exact hf'
  rcases hcase with ⟨rfl, -⟩ | ⟨-, hparked, -, rfl⟩ | ⟨hcompleted, hparked, hq, hflag, hsignal⟩
  · exact hput _
  · refine .of_kept (fun e k he hfuture => ?_) fun f' hf' => ⟨f', ?_, rfl⟩
    · refine getElem?_eraseP he ?_
      have hid : e.id ≠ f.id := fun heq => hne (hfuture.symm.trans
        (hok.entry_future hf hparked (List.mem_of_getElem? he) heq))
      simp [hid]
    · simp only [WaitList.put, Arena.get_put hf, if_neg hne]
      exact hf'
  · have hmoved := moved_signal (i := i) (hok.put_none hf) hv hsignal
    refine ⟨fun w k hk => ?_, fun hd => hmoved.delivered ((hput []).delivered hd)⟩
    have hcalls : s.cancelCalls forwards j = (s.put j none).signalCalls := by
      rcases s.toTable.withdraw_cases f.id with ⟨hmem, -⟩ | ⟨-, heq⟩
      · exact absurd hmem hq
      · have hroom : s.toTable.kernel.permit + 1 < UInt64.size := by
          rw [hk.permit hok]
          decide
        simp only [cancelCalls, hf, hcompleted, hparked, heq, hflag, Bool.false_or, Bool.not_true,
          Bool.false_eq_true, if_false, Bool.true_and, hroom, decide_true, if_true]
        rfl
    rw [hcalls]
    obtain ⟨id, f', he, hf'⟩ := hk
    have hk' : (s.put j none).WaitsAt i w k := by
      refine ⟨id, f', he, ?_⟩
      simp only [WaitList.put, Arena.get_put hf, if_neg hne]
      exact hf'
    rcases hmoved.waits hk' with ⟨q, hle, hat⟩ | hcall
    · exact .inl ⟨q, (add_le_add_right zero_le_one _).trans hle, hat⟩
    · exact .inr hcall

/-- **Signals to everybody** deliver to whoever waits. -/
theorem moved_signalAll [DecidableEq φ] (hok : Ok s false) (hv : v ≠ default) :
    Moved i s (s.signalAll v) s.signalAllCalls ⊤ := by
  obtain ⟨t, hget⟩ := signalAll_futures hok hv i
  constructor
  · rintro w k ⟨id, f, he, hf⟩
    have hmem := List.mem_of_getElem? he
    obtain ⟨-, hparked, hflag⟩ := (hok.futures i f hf).entry _ hmem rfl
    refine .inr ⟨?_, _, hget.trans (by rw [hf]; rfl), ?_⟩
    · rw [signalAllCalls, Table.drain_of_synced (hok.synced rfl)]
      exact List.mem_map_of_mem hmem
    · dsimp only
      rw [if_pos ⟨hparked, hflag⟩]
      exact hv
  · rintro ⟨f, hf, hflag⟩
    refine ⟨_, hget.trans (by rw [hf]; rfl), ?_⟩
    dsimp only
    rw [if_neg fun h => hflag h.2]
    exact hflag

end WaitList

/-! ### Semaphores -/

namespace Semaphore

variable {W : Type}

/-- The wakers that a release of several permits calls. -/
def releaseCalls : ℕ → Semaphore W → List W
  | 0, _ => []
  | n + 1, s =>
    match s.toWaitList.signal true with
    | some l => s.toWaitList.signalCalls ++ releaseCalls n { s with toWaitList := l }
    | none => []

/-- Future number `i` was granted a permit, or the semaphore is closed: a poll returns ready. -/
def Resolved (s : Semaphore W) (i : ℕ) : Prop := s.closed = true ∨ s.toWaitList.Delivered i

/-- A release brings everybody as many places nearer as permits are released. -/
theorem moved_release {n : ℕ} {s s' : Semaphore W} {closed : Bool} {i : ℕ}
    (hok : s.toWaitList.Ok closed) (h : release n s = some s') :
    s.toWaitList.Moved i s'.toWaitList (releaseCalls n s) n := by
  induction n generalizing s with
  | zero =>
    cases h
    exact .refl _
  | succ n ih =>
    obtain ⟨l, hsignal, hrest⟩ := Option.bind_eq_some_iff.mp h
    have hmoved := (WaitList.moved_signal (i := i) hok (by decide) hsignal).trans
      (ih (s := { s with toWaitList := l }) (hok.signal (by decide) hsignal) hrest)
    rw [add_comm] at hmoved
    simp only [releaseCalls, hsignal]
    exact hmoved

namespace System

/-- The wakers that an operation on a semaphore calls. -/
def calls (s : System W) : Label W → List W
  | .drop i => s.toWaitList.cancelCalls id i
  | .dropPermit => releaseCalls 1 s.toSemaphore
  | .addPermits n => releaseCalls n s.toSemaphore
  | .close => s.wakers.map Entry.waker
  | .acquire | .load _ _ | .lock _ | .tryAcquire | .forget => []

/-- By how many places an operation brings those who wait nearer. -/
def moves : Label W → ℕ∞
  | .dropPermit => 1
  | .addPermits n => n
  | .close => ⊤
  | .acquire | .load _ _ | .lock _ | .drop _ | .tryAcquire | .forget => 0

/-- The future's poll takes the mutex, or the future is dropped. -/
def resumes (i : ℕ) : Label W → Bool
  | .lock j | .drop j => i = j
  | _ => false

variable {s s' : System W} {l : Label W} {i : ℕ}

/-- Nothing else closes a semaphore. -/
theorem Stepped.closed_eq (hstep : Stepped s l s') (hopen : l ≠ .close) : s'.closed = s.closed := by
  cases hstep with
  | dropPermit _ hrelease | addPermits hrelease =>
    exact (release_induction (P := fun _ => True) hrelease trivial fun _ _ _ _ => trivial).2
  | close => exact absurd rfl hopen
  | _ => rfl

/-- What an operation does to a future that waits, unless it closes the semaphore. -/
theorem Stepped.moved (hstep : Stepped s l s') (hok : Sound s) (hl : resumes i l = false)
    (hopen : l ≠ .close) : s.toWaitList.Moved i s'.toWaitList (s.calls l) (moves l) := by
  cases hstep with
  | acquire => exact WaitList.moved_add
  | load hload => exact WaitList.moved_load hload
  | lock _ hlock => exact WaitList.moved_lock hok (by simpa [resumes] using hl) hlock
  | @refuse j f _ hf _ =>
    refine .of_wakers rfl fun f' hf' => ⟨f', ?_, rfl⟩
    have hne : i ≠ j := by simpa [resumes] using hl
    simp only [WaitList.put, Arena.get_put hf, if_neg hne]
    exact hf'
  | drop hcancel =>
    exact WaitList.moved_cancel hok (by decide) (by simpa [resumes] using hl) hcancel
  | tryFail | forget => exact .refl _
  | tryAcquire => exact .of_wakers rfl fun f hf => ⟨f, hf, rfl⟩
  | dropPermit _ hrelease | addPermits hrelease => exact moved_release hok hrelease
  | close => exact absurd rfl hopen

/-- **Operations and places.** Every release brings those who wait nearer, and whoever it reaches is
granted a permit and called; closing reaches all. -/
theorem moved_of_step (hok : Sound s) (hstep : Stepped s l s') (hl : resumes i l = false) :
    (∀ w k, s.WaitsAt i w k → (∃ q : ℕ, q + moves l ≤ k ∧ s'.WaitsAt i w q) ∨
      w ∈ s.calls l ∧ s'.Resolved i) ∧ (s.Resolved i → s'.Resolved i) := by
  by_cases hclose : l = .close
  · subst hclose
    cases hstep with
    | close =>
      refine ⟨?_, fun _ => .inl rfl⟩
      rintro w k ⟨id, f, he, -⟩
      exact .inr ⟨List.mem_map_of_mem (List.mem_of_getElem? he), .inl rfl⟩
  · have hmoved := hstep.moved hok hl hclose
    refine ⟨fun w k hk => (hmoved.waits hk).imp_right fun h => ⟨h.1, .inr h.2⟩, fun h => ?_⟩
    refine h.imp (fun hclosed => ?_) hmoved.delivered
    by_contra hopen
    rw [hstep.closed (Bool.eq_false_of_not_eq_true hopen)] at hclosed
    cases hclosed

end System

end Semaphore

/-! ### Notifications -/

namespace Notify

variable {W : Type}

/-- The wakers that an operation on a `Notify` calls. -/
def wakes (s : Notify W) : Label W → List W
  | .drop i => s.toWaitList.cancelCalls (· = .one) i
  | .notifyOne => s.toWaitList.signalCalls
  | .notifyWaiters => s.toWaitList.signalAllCalls
  | .notified | .load _ _ | .lock _ => []

/-- By how many places an operation brings those who wait nearer. -/
def moves : Label W → ℕ∞
  | .notifyOne => 1
  | .notifyWaiters => ⊤
  | .notified | .load _ _ | .lock _ | .drop _ => 0

/-- The future's poll takes the mutex, or the future is dropped. -/
def resumes (i : ℕ) : Label W → Bool
  | .lock j | .drop j => i = j
  | _ => false

variable {s s' : Notify W} {l : Label W} {i : ℕ}

/-- **Operations and places.** Every call of `notify_one` brings those who wait nearer, and whoever
it reaches is notified and called; `notify_waiters` reaches all. -/
theorem moved_of_step (hok : Sound s) (hstep : Stepped s l s') (hl : resumes i l = false) :
    s.toWaitList.Moved i s'.toWaitList (s.wakes l) (moves l) := by
  cases hstep with
  | notified => exact WaitList.moved_add
  | load _ hload => exact WaitList.moved_load hload
  | lock hlock => exact WaitList.moved_lock hok (by simpa [resumes] using hl) hlock
  | drop hcancel =>
    exact WaitList.moved_cancel hok (by decide) (by simpa [resumes] using hl) hcancel
  | notifyOne hsignal => exact WaitList.moved_signal hok (by decide) hsignal
  | notifyWaiters => exact WaitList.moved_signalAll hok (by decide)

end Notify

/-! ### Mutexes -/

namespace Mutex

variable {W : Type}

/-- A mutex as a semaphore with one permit, whose permits are the guards. -/
def semaphore (s : Mutex W) : Semaphore.System W := ⟨s.toSemaphore, s.alive, 1, 0, 0⟩

/-- The operation of the semaphore that an operation on the mutex is. -/
def Label.semaphore : Label W → Semaphore.Label W
  | .lock | .lockOwned => .acquire
  | .load i waker => .load i waker
  | .resume i => .lock i
  | .drop i => .drop i
  | .tryLock _ => .tryAcquire
  | .dropGuard | .dropOwnedGuard => .dropPermit

/-- The wakers that an operation on a mutex calls. -/
def calls (s : Mutex W) : Label W → List W
  | .drop i => s.toWaitList.cancelCalls id i
  | .dropGuard | .dropOwnedGuard => Semaphore.releaseCalls 1 s.toSemaphore
  | .lock | .lockOwned | .load _ _ | .resume _ | .tryLock _ => []

theorem calls_semaphore (s : Mutex W) (l : Label W) :
    s.semaphore.calls l.semaphore = s.calls l := by
  cases l <;> rfl

variable {s s' : Mutex W} {l : Label W}

@[simp] theorem semaphore_toSemaphore (s : Mutex W) : s.semaphore.toSemaphore = s.toSemaphore := rfl

/-- A guard comes alive with a permit. -/
theorem semaphore_handOut (s : Mutex W) (owned : Bool) :
    (s.handOut owned).semaphore = { s.semaphore with permits := s.alive + 1 } := by
  rw [semaphore, handOut_toSemaphore, alive_handOut]
  rfl

/-- A guard of either kind is one that is alive. -/
theorem alive_ne_zero (h : s.guards ≠ 0 ∨ s.ownedGuards ≠ 0) : s.alive ≠ 0 := by
  rw [alive]
  omega

/-- A guard goes with its permit, and if the semaphore panics, so does its drop. -/
theorem semaphore_dropPermit (halive : s.alive ≠ 0) : s.semaphore.step .dropPermit =
    (Semaphore.release 1 s.toSemaphore).map fun sem => ⟨sem, s.alive - 1, 1, 0, 0⟩ :=
  if_neg halive

/-- **Mutexes are semaphores.** -/
theorem step_semaphore (h : s.step l = some s') :
    s.semaphore.step l.semaphore = some s'.semaphore := by
  cases l with
  | lock | lockOwned =>
    cases h
    rfl
  | load i waker =>
    obtain ⟨f, -, hrest⟩ := Option.bind_eq_some_iff.mp h
    split at hrest
    · cases hrest
    · obtain ⟨⟨ready, sem⟩, hload, heq⟩ := Option.bind_eq_some_iff.mp hrest
      cases heq
      simp only [Label.semaphore, Semaphore.System.step, semaphore_toSemaphore, hload]
      cases ready with
      | false => rfl
      | true =>
        simp only [if_true, semaphore_handOut]
        rfl
  | resume i =>
    obtain ⟨⟨res, sem⟩, hlock, heq⟩ := Option.bind_eq_some_iff.mp h
    simp only [Label.semaphore, Semaphore.System.step, semaphore_toSemaphore, hlock]
    cases res with
    | pending =>
      cases heq
      rfl
    | ready res =>
      cases res with
      | error => cases heq
      | ok =>
        cases heq
        rw [semaphore_handOut]
        rfl
  | drop i =>
    obtain ⟨sem, hdrop, rfl⟩ := Option.map_eq_some_iff.mp h
    simp only [Label.semaphore, Semaphore.System.step, semaphore_toSemaphore, hdrop]
    rfl
  | tryLock owned =>
    cases h
    simp only [Label.semaphore, Semaphore.System.step, semaphore_toSemaphore, tryLock]
    cases hok : (s.toSemaphore.tryAcquire).1 with
    | false => rfl
    | true =>
      simp only [if_true, semaphore_handOut]
      rfl
  | dropGuard =>
    have hdrop : s.dropGuard = some s' := h
    rw [dropGuard] at hdrop
    split at hdrop
    · cases hdrop
    · rename_i hguards
      obtain ⟨sem, hrelease, rfl⟩ := Option.map_eq_some_iff.mp hdrop
      have hone : s.guards - 1 + s.ownedGuards = s.guards + s.ownedGuards - 1 := by omega
      rw [Label.semaphore, semaphore_dropPermit (alive_ne_zero (.inl hguards)), hrelease,
        Option.map_some, semaphore, alive, alive, hone]
  | dropOwnedGuard =>
    have hdrop : s.dropOwnedGuard = some s' := h
    rw [dropOwnedGuard] at hdrop
    split at hdrop
    · cases hdrop
    · rename_i hguards
      obtain ⟨sem, hrelease, rfl⟩ := Option.map_eq_some_iff.mp hdrop
      have hone : s.guards + (s.ownedGuards - 1) = s.guards + s.ownedGuards - 1 := by omega
      rw [Label.semaphore, semaphore_dropPermit (alive_ne_zero (.inr hguards)), hrelease,
        Option.map_some, semaphore, alive, alive, hone]

/-- What the semaphore would do and the mutex does not: poll a `LockOwned` that has returned its
guard and with it given up its mutex, which panics, and drop a guard of a kind of which there is
none, when there is one of the other kind. -/
def Barred (s : Mutex W) : Label W → Prop
  | .load i _ => i ∈ s.owned ∧ ∃ f, s.futures.get i = some f ∧ f.completed = true
  | .dropGuard => s.guards = 0
  | .dropOwnedGuard => s.ownedGuards = 0
  | .lock | .lockOwned | .resume _ | .drop _ | .tryLock _ => False

theorem step_of_barred (h : s.Barred l) : s.step l = none := by
  cases l with
  | load i waker =>
    obtain ⟨howned, f, hf, hcompleted⟩ := h
    simp [step, load, hf, howned, hcompleted]
  | dropGuard => exact if_pos h
  | dropOwnedGuard => exact if_pos h
  | lock | lockOwned | resume | drop | tryLock => cases h

/-- **Operations of an open mutex** are those of the semaphore, also where they panic. -/
theorem map_step_semaphore (hopen : s.closed = false) (hl : ¬ s.Barred l) :
    (s.step l).map semaphore = s.semaphore.step l.semaphore := by
  cases hstep : s.step l with
  | some s' => exact (step_semaphore hstep).symm
  | none =>
    symm
    cases l with
    | lock | lockOwned | tryLock => cases hstep
    | load i waker =>
      cases hf : s.futures.get i with
      | none => simp [Label.semaphore, Semaphore.System.step, Semaphore.load, WaitList.load, hf]
      | some f =>
        have hnot : (s.owned.contains i && f.completed) = false := by
          by_contra hpanic
          rw [Bool.not_eq_false, Bool.and_eq_true, List.contains_iff_mem] at hpanic
          exact hl ⟨hpanic.1, f, hf, hpanic.2⟩
        simp only [step, load, hf, Option.bind_eq_bind, Option.bind_some, hnot] at hstep
        cases hload : s.toSemaphore.load i waker with
        | none => simp [Label.semaphore, Semaphore.System.step, hload]
        | some res => simp [hload] at hstep
    | resume i =>
      cases hlock : s.toSemaphore.lock i with
      | none => simp [Label.semaphore, Semaphore.System.step, hlock]
      | some res =>
        obtain ⟨res, sem⟩ := res
        cases res with
        | pending => simp [step, resume, hlock] at hstep
        | ready answer =>
          cases answer with
          | ok => simp [step, resume, hlock] at hstep
          | error =>
            -- an open semaphore does not refuse
            rw [Semaphore.lock, if_neg (by simp [hopen])] at hlock
            obtain ⟨⟨ready, w⟩, -, heq⟩ := Option.bind_eq_some_iff.mp hlock
            cases ready <;> cases heq
    | drop i =>
      have hnone : s.toSemaphore.drop i = none := Option.map_eq_none_iff.mp hstep
      simp [Label.semaphore, Semaphore.System.step, hnone]
    | dropGuard =>
      have hguards : s.guards ≠ 0 := hl
      have hnone : Semaphore.release 1 s.toSemaphore = none :=
        Option.map_eq_none_iff.mp ((if_neg hguards).symm.trans hstep)
      rw [Label.semaphore, semaphore_dropPermit (alive_ne_zero (.inl hguards)), hnone]
      rfl
    | dropOwnedGuard =>
      have hguards : s.ownedGuards ≠ 0 := hl
      have hnone : Semaphore.release 1 s.toSemaphore = none :=
        Option.map_eq_none_iff.mp ((if_neg hguards).symm.trans hstep)
      rw [Label.semaphore, semaphore_dropPermit (alive_ne_zero (.inr hguards)), hnone]
      rfl

/-- A mutex is never closed. -/
theorem closed_of_step (h : s.step l = some s') : s'.closed = s.closed :=
  (Semaphore.System.step_cases (step_semaphore h)).closed_eq (by cases l <;> nofun)

theorem closed_of_reachable (h : machine.Reachable s) : s.closed = false := by
  refine h.invariant (I := fun s => s.closed = false) ?_ ?_
  · rintro s rfl
    rfl
  · exact fun s l s' hopen hstep => (closed_of_step hstep).trans hopen

theorem reachable_semaphore (h : machine.Reachable s) :
    Semaphore.System.machine.Reachable s.semaphore := by
  refine h.project (f := semaphore) ?_ fun _ _ _ hstep => ⟨_, .cons (step_semaphore hstep) .nil⟩
  rintro s rfl
  exact ⟨1, rfl⟩

variable {f : Waiting Bool W} {i : ℕ}

/-- Whoever waits, waits for a permit that is not stored. -/
theorem permit_of_waiting (h : machine.Reachable s) (hf : s.futures.get i = some f)
    (hparked : f.parked = true) (hflag : f.flag = false) :
    f.id ∈ s.kernel.queue ∧ s.kernel.permit = 0 := by
  have hok : s.toWaitList.Ok s.closed :=
    Semaphore.System.sound_of_reachable (reachable_semaphore h)
  obtain ⟨e, he, hid, -⟩ := (hok.futures i f hf).waiting (closed_of_reachable h) hparked hflag
  have hmem := (hok.mem_queue he).2
  rw [hid] at hmem
  refine ⟨hmem, ?_⟩
  by_contra hne
  rw [hok.idle (Nat.pos_of_ne_zero hne)] at hmem
  cases hmem

/-- **A mutex is a semaphore with one permit, whose permits are the guards.** This is about every
operation in every reachable state: what is `Barred` does nothing, and anything else does to the
semaphore exactly what the corresponding operation of the semaphore does, panics included. So what
an operation delivers goes to the head of the queue, which is in the order of parking; and while a
future waits, `try_lock` and `try_lock_owned` fail, nobody who parked later was delivered to, and no
poll takes the mutex that it was not delivered to. -/
theorem reachable_turn (h : machine.Reachable s) :
    Semaphore.System.machine.Reachable s.semaphore ∧
    (∀ l, (s.Barred l → s.step l = none) ∧
      (¬ s.Barred l → (s.step l).map semaphore = s.semaphore.step l.semaphore)) ∧
    (∀ l s', s.step l = some s' →
      ∃ ids, s'.grants = s.grants ++ ids ∧ ids <+: s.kernel.queue) ∧
    ∀ i f, s.futures.get i = some f → f.parked = true → f.flag = false →
      f.id ∈ s.kernel.queue ∧ (∀ id ∈ s.grants, id < f.id) ∧
      (∀ owned, s.tryLock owned = s) ∧ ∀ j s', s.resume j = some s' → s'.alive = s.alive := by
  have hreach := reachable_semaphore h
  have hok : s.toWaitList.Ok s.closed := Semaphore.System.sound_of_reachable hreach
  have hopen := closed_of_reachable h
  refine ⟨hreach, fun l => ⟨step_of_barred, map_step_semaphore hopen⟩,
    fun l s' hstep => (Semaphore.System.step_cases (step_semaphore hstep)).served hok,
    fun i f hf hparked hflag => ?_⟩
  obtain ⟨hmem, hpermit⟩ := permit_of_waiting h hf hparked hflag
  refine ⟨hmem, fun id hg => hok.grants_lt hg hmem, fun owned => ?_, fun j s' hresume => ?_⟩
  · have hopen' : ¬ s.closed = true := by simp [hopen]
    rw [tryLock, Semaphore.tryAcquire, if_neg hopen', WaiterKernel.tryAcquireStep,
      if_neg (Nat.not_lt_of_le (Nat.le_of_eq hpermit))]
    rfl
  · obtain ⟨ready, w, hlock, -, halive⟩ := resume_cases hopen hresume
    obtain ⟨f', waker, -, -, ⟨-, rfl, -⟩ | ⟨-, -, hpos, -⟩ | ⟨-, rfl, -⟩⟩ :=
      WaitList.lock_cases hlock
    · exact halive
    · rw [hpermit] at hpos
      cases hpos
    · exact halive

/-- The owner of the mutex drops it while a future waits: until then `try_lock` does nothing, and
the drop is that of a permit. -/
theorem reachable_turn_one : ∃ s : Mutex ℕ, machine.Reachable s ∧ s.alive = 1 ∧
    s.kernel.queue = [1] ∧ (∀ owned, s.tryLock owned = s) ∧
    (s.step .dropOwnedGuard).map semaphore = s.semaphore.step .dropPermit := by
  obtain ⟨s, hfollow, halive, hqueue, howned, f, hf, hparked, hflag⟩ : ∃ s : Mutex ℕ,
      Machine.follow step [.lockOwned, .load 0 7, .resume 0, .lock, .load 1 8, .resume 1] new =
        some s ∧ s.alive = 1 ∧ s.kernel.queue = [1] ∧ s.ownedGuards = 1 ∧
        ∃ f, s.futures.get 1 = some f ∧ f.parked = true ∧ f.flag = false :=
    ⟨_, rfl, rfl, rfl, rfl, _, rfl, rfl, rfl⟩
  have hstart : machine.Reachable (new : Mutex ℕ) := .of_init rfl
  have hreach := hstart.follow hfollow
  obtain ⟨-, hsem, -, hwaiting⟩ := reachable_turn hreach
  have hone : s.ownedGuards ≠ 0 := by
    rw [howned]
    decide
  exact ⟨s, hreach, halive, hqueue, (hwaiting 1 f hf hparked hflag).2.2.1,
    (hsem .dropOwnedGuard).2 hone⟩

end Mutex

end Lion
