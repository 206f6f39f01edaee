import Lion.Sync.Places
import Lion.System.Primitives

/-!
# Waiting in a queue

`Semaphore`, `Notify` and `Mutex` of `lion-utility` keep those who wait in the order in which they
parked. Here they are used by the tasks of a runtime and by other threads. A task that waits for a
permit, a notification or a guard, with `k` before it, is polled in a bounded number of ticks after
more than `k` were given back, and finds its own: nobody overtakes it, and nothing that goes to a
future that is dropped is lost on the way.

## Where the parts come from

What one operation does to the places was shown for each of the three, with the wakers that it calls
(`moved_of_step`). That is what `Primitive.Queues` asks for, and from there on `polled_of_place`
counts: over a run, the places add up, until they are more than there were before the task. With a
guard it is the same as with a permit, since a mutex is a semaphore in all of its operations; the
bound for `Mutex` is obtained from its `semaphore`.

When the task is polled, it is not given its permit by luck. Whoever is reached has the flag of its
future set by the operation that reached it, and the flag stays set until the future is polled or
dropped. A poll finds it without looking at how many permits there are.

## Conventions

The future may be polled up to the mutex in the meantime, and there the poll may stay, as another
thread may give a permit back just then. A poll that takes the mutex makes another waker the one
that is called; from there on one has to look again.

## Main results

* `Semaphore.System.run_polled_of_released` — who waits for a permit
* `Notify.run_polled_of_notified` — for a notification
* `Mutex.run_polled_of_unlocked` — for a guard
-/

namespace Lion

/-! ### Semaphores -/

namespace Semaphore.System

/-- A semaphore, shared by tasks and other threads. -/
def primitive : Primitive (System TaskWaker) (Label TaskWaker) :=
  ⟨fun s => ∃ permits, s = new permits, step, calls⟩

/-- Those who wait for a permit are in a queue, and are served in its order. -/
theorem queues (i : ℕ) : primitive.Queues (fun s => s.toWaitList.WaitsAt i)
    (fun s => s.Resolved i) (resumes i) moves where
  step _ _ _ w k hreach hk hl hstep :=
    (moved_of_step (sound_of_reachable hreach) (step_cases hstep) hl).1 w k hk
  done _ _ _ hreach hdone hl hstep :=
    (moved_of_step (sound_of_reachable hreach) (step_cases hstep) hl).2 hdone

variable {u m t : Users (System TaskWaker)} {ls ls' : List (Users.Label (Label TaskWaker))}
  {v : TaskWaker} {i k L : ℕ} {before after : List ExecutorEvent}

/-- **Who waits for a permit is polled**, within `L / n + 3` ticks after more permits were released
or added than there were others before it, or the semaphore was closed, and other threads have
called its waker; and a poll finds that it was granted a permit, or that the semaphore is closed. -/
theorem run_polled_of_released (hu : (Users.machine primitive).Reachable u)
    (hwaits : u.object.toWaitList.WaitsAt i v k) (hto : (Users.machine primitive).Run u ls m)
    (hkeep : ∀ l ∈ ls, l.leaves (resumes i) = false)
    (hover : k < (ls.map (Users.Label.moves moves)).sum)
    (hcalled : m.Called v.id) (hfrom : (Users.machine primitive).Run m ls' t)
    (hm : m.log = u.log ++ before) (hlog : t.log = m.log ++ after)
    (haccepted : AcceptedIn u.log v.id) (hL : 0 < L)
    (hbound : State.QueueBound L u.log (before ++ after))
    (hticks : L ≤ u.runtime.exec.eventInterval * (ticks after - 3)) :
    Users.PolledAfterCall primitive u m v (before ++ after) ∧
      (m.object.closed = true ∨ ∃ f, m.object.futures.get i = some f ∧ f.flag = true) := by
  obtain ⟨hpolled, hdone⟩ := Users.polled_of_place (queues i) hu hwaits hto hkeep hover hcalled
    hfrom hm hlog haccepted hL hbound hticks
  refine ⟨hpolled, hdone.imp_right ?_⟩
  rintro ⟨f, hf, hflag⟩
  exact ⟨f, hf, by simpa using hflag⟩

/-- Another thread adds a permit. -/
def otherAdds : List (Users.Label (Label TaskWaker)) :=
  [.object false (.addPermits 1), .wakesForeign 0, .runtime (.call 1)]

/-- A task waits for a permit, and another thread adds one. -/
theorem run_polled_of_released_added : ∃ u m t : Users (System TaskWaker), ∃ evs,
    (Users.machine primitive).Reachable u ∧ (Users.machine primitive).Run u otherAdds m ∧
    (Users.machine primitive).Run m Users.fourTicks t ∧ t.log = m.log ++ evs ∧
    1 ∈ u.polledSince evs ∧ m.object.closed = false ∧ (m.object.closed = true ∨
      ∃ f, m.object.futures.get 0 = some f ∧ f.flag = true) := by
  obtain ⟨u, m, t, after, hu, hto, hfrom, ⟨hwakers, hsome⟩, hopen, hm, hlog, haccepted, hcalled,
    hbound, hticks⟩ := Users.exists_of_check primitive
    [.object true .acquire, .object true (.load 0 ⟨.task, 1⟩), .object true (.lock 0)] otherAdds
    (fun u => u.object.wakers = [⟨0, 0, ⟨.task, 1⟩⟩] ∧ (u.object.futures.get 0).isSome = true)
    (fun m => m.object.closed = false) ⟨0, rfl⟩ (by decide +kernel)
  obtain ⟨f, hf⟩ := Option.isSome_iff_exists.mp hsome
  have hwaits : u.object.toWaitList.WaitsAt 0 ⟨.task, 1⟩ 0 := ⟨0, f, by rw [hwakers]; rfl, hf⟩
  have hover : ((0 : ℕ) : ℕ∞) < (otherAdds.map (Users.Label.moves moves)).sum := by
    simp [otherAdds, Users.Label.moves, moves]
  obtain ⟨hpolled, hdone⟩ := run_polled_of_released (v := ⟨.task, 1⟩) hu hwaits hto (by decide)
    hover hcalled hfrom hm hlog haccepted (by decide) hbound hticks
  exact ⟨u, m, t, after, hu, hto, hfrom, hlog, hpolled.polledSince (Users.hosts _) hu,
    hopen, hdone⟩

end Semaphore.System

/-! ### Notifications -/

namespace Notify

/-- A `Notify`, shared by tasks and other threads. -/
def primitive : Primitive (Notify TaskWaker) (Label TaskWaker) := ⟨(· = new), step, wakes⟩

/-- Those who wait for a notification are in a queue, and are served in its order. -/
theorem queues (i : ℕ) : primitive.Queues (fun s => s.toWaitList.WaitsAt i)
    (fun s => s.toWaitList.Delivered i) (resumes i) moves where
  step _ _ _ _ _ hreach hk hl hstep :=
    (moved_of_step (sound_of_reachable hreach) (step_cases hstep) hl).waits hk
  done _ _ _ hreach hdone hl hstep :=
    (moved_of_step (sound_of_reachable hreach) (step_cases hstep) hl).delivered hdone

variable {u m t : Users (Notify TaskWaker)} {ls ls' : List (Users.Label (Label TaskWaker))}
  {v : TaskWaker} {i k L : ℕ} {before after : List ExecutorEvent}

/-- **Who waits for a notification is polled**, within `L / n + 3` ticks after `notify_one` was
called more often than there were others before it, or `notify_waiters` once, and other threads have
called its waker; and a poll finds that it was notified. -/
theorem run_polled_of_notified (hu : (Users.machine primitive).Reachable u)
    (hwaits : u.object.toWaitList.WaitsAt i v k) (hto : (Users.machine primitive).Run u ls m)
    (hkeep : ∀ l ∈ ls, l.leaves (resumes i) = false)
    (hover : k < (ls.map (Users.Label.moves moves)).sum)
    (hcalled : m.Called v.id) (hfrom : (Users.machine primitive).Run m ls' t)
    (hm : m.log = u.log ++ before) (hlog : t.log = m.log ++ after)
    (haccepted : AcceptedIn u.log v.id) (hL : 0 < L)
    (hbound : State.QueueBound L u.log (before ++ after))
    (hticks : L ≤ u.runtime.exec.eventInterval * (ticks after - 3)) :
    Users.PolledAfterCall primitive u m v (before ++ after) ∧
      ∃ f, m.object.futures.get i = some f ∧ f.flag ≠ .pending :=
  Users.polled_of_place (queues i) hu hwaits hto hkeep hover hcalled hfrom hm hlog haccepted hL
    hbound hticks

/-- Another thread notifies everybody. -/
def otherNotifies : List (Users.Label (Label TaskWaker)) :=
  [.object false .notifyWaiters, .wakesForeign 0, .runtime (.call 1)]

/-- A task waits for a notification, and another thread notifies everybody. -/
theorem run_polled_of_notified_all : ∃ u m t : Users (Notify TaskWaker), ∃ evs,
    (Users.machine primitive).Reachable u ∧ (Users.machine primitive).Run u otherNotifies m ∧
    (Users.machine primitive).Run m Users.fourTicks t ∧ t.log = m.log ++ evs ∧
    1 ∈ u.polledSince evs ∧ ∃ f, m.object.futures.get 0 = some f ∧ f.flag ≠ .pending := by
  obtain ⟨u, m, t, after, hu, hto, hfrom, ⟨hwakers, hsome⟩, -, hm, hlog, haccepted, hcalled,
    hbound, hticks⟩ := Users.exists_of_check primitive
    [.object true .notified, .object true (.load 0 ⟨.task, 1⟩), .object true (.lock 0)]
    otherNotifies
    (fun u => u.object.wakers = [⟨0, 0, ⟨.task, 1⟩⟩] ∧ (u.object.futures.get 0).isSome = true)
    (fun m => m.object.wakers = []) rfl (by decide +kernel)
  obtain ⟨f, hf⟩ := Option.isSome_iff_exists.mp hsome
  have hwaits : u.object.toWaitList.WaitsAt 0 ⟨.task, 1⟩ 0 := ⟨0, f, by rw [hwakers]; rfl, hf⟩
  have hover : ((0 : ℕ) : ℕ∞) < (otherNotifies.map (Users.Label.moves moves)).sum := by
    simp [otherNotifies, Users.Label.moves, moves]
  obtain ⟨hpolled, hdone⟩ := run_polled_of_notified (v := ⟨.task, 1⟩) hu hwaits hto (by decide)
    hover hcalled hfrom hm hlog haccepted (by decide) hbound hticks
  exact ⟨u, m, t, after, hu, hto, hfrom, hlog, hpolled.polledSince (Users.hosts _) hu,
    hdone⟩

end Notify

/-! ### Mutexes -/

namespace Mutex

/-- A mutex, shared by tasks and other threads. -/
def primitive : Primitive (Mutex TaskWaker) (Label TaskWaker) := ⟨(· = new), step, calls⟩

/-- Those who wait for a guard are in a queue, and are served in its order. -/
theorem queues (i : ℕ) : primitive.Queues (fun s => s.semaphore.toWaitList.WaitsAt i)
    (fun s => s.semaphore.Resolved i) (fun l => Semaphore.System.resumes i l.semaphore)
    (fun l => Semaphore.System.moves l.semaphore) := by
  refine (Semaphore.System.queues i).comap semaphore Label.semaphore ?_
    (fun _ _ _ hstep => step_semaphore hstep) fun s l => (calls_semaphore s l).symm
  rintro s rfl
  exact ⟨1, rfl⟩

/-- By how many places an operation brings those who wait nearer. -/
def moves (l : Label TaskWaker) : ℕ∞ := Semaphore.System.moves l.semaphore

/-- The future's poll takes the mutex, or the future is dropped. -/
def resumes (i : ℕ) (l : Label TaskWaker) : Bool := Semaphore.System.resumes i l.semaphore

variable {u m t : Users (Mutex TaskWaker)} {ls ls' : List (Users.Label (Label TaskWaker))}
  {v : TaskWaker} {i k L : ℕ} {before after : List ExecutorEvent}

/-- **Who waits for a guard is polled**, within `L / n + 3` ticks after more guards were dropped
than there were others before it, and other threads have called its waker; and a poll finds that the
mutex was handed to it. -/
theorem run_polled_of_unlocked (hu : (Users.machine primitive).Reachable u)
    (hwaits : u.object.toWaitList.WaitsAt i v k) (hto : (Users.machine primitive).Run u ls m)
    (hkeep : ∀ l ∈ ls, l.leaves (resumes i) = false)
    (hover : k < (ls.map (Users.Label.moves moves)).sum)
    (hcalled : m.Called v.id) (hfrom : (Users.machine primitive).Run m ls' t)
    (hm : m.log = u.log ++ before) (hlog : t.log = m.log ++ after)
    (haccepted : AcceptedIn u.log v.id) (hL : 0 < L)
    (hbound : State.QueueBound L u.log (before ++ after))
    (hticks : L ≤ u.runtime.exec.eventInterval * (ticks after - 3)) :
    Users.PolledAfterCall primitive u m v (before ++ after) ∧
      ∃ f, m.object.futures.get i = some f ∧ f.flag = true := by
  obtain ⟨hpolled, hdone⟩ := Users.polled_of_place (queues i) hu hwaits hto hkeep hover hcalled
    hfrom hm hlog haccepted hL hbound hticks
  refine ⟨hpolled, ?_⟩
  rcases hdone with hclosed | ⟨f, hf, hflag⟩
  · have hopen : m.object.semaphore.closed = false :=
      closed_of_reachable (Users.reachable_object (hu.run hto))
    rw [hopen] at hclosed
    cases hclosed
  · exact ⟨f, hf, by simpa using hflag⟩

/-- Another thread drops its guard. -/
def otherUnlocks : List (Users.Label (Label TaskWaker)) :=
  [.object false .dropOwnedGuard, .wakesForeign 0, .runtime (.call 1)]

/-- A task waits for the guard of another thread. -/
theorem run_polled_of_unlocked_other : ∃ u m t : Users (Mutex TaskWaker), ∃ evs,
    (Users.machine primitive).Reachable u ∧ (Users.machine primitive).Run u otherUnlocks m ∧
    (Users.machine primitive).Run m Users.fourTicks t ∧ t.log = m.log ++ evs ∧
    u.object.ownedGuards = 1 ∧ 1 ∈ u.polledSince evs ∧
    ∃ f, m.object.futures.get 0 = some f ∧ f.flag = true := by
  obtain ⟨u, m, t, after, hu, hto, hfrom, ⟨hguards, hwakers, hsome⟩, -, hm, hlog, haccepted,
    hcalled, hbound, hticks⟩ := Users.exists_of_check primitive
    [.object false (.tryLock true), .object true .lock, .object true (.load 0 ⟨.task, 1⟩),
      .object true (.resume 0)] otherUnlocks
    (fun u => u.object.ownedGuards = 1 ∧ u.object.wakers = [⟨0, 0, ⟨.task, 1⟩⟩] ∧
      (u.object.futures.get 0).isSome = true)
    (fun m => m.object.wakers = []) rfl (by decide +kernel)
  obtain ⟨f, hf⟩ := Option.isSome_iff_exists.mp hsome
  have hwaits : u.object.toWaitList.WaitsAt 0 ⟨.task, 1⟩ 0 := ⟨0, f, by rw [hwakers]; rfl, hf⟩
  have hover : ((0 : ℕ) : ℕ∞) < (otherUnlocks.map (Users.Label.moves moves)).sum := by
    simp [otherUnlocks, Users.Label.moves, moves, Label.semaphore, Semaphore.System.moves]
  obtain ⟨hpolled, hdone⟩ := run_polled_of_unlocked (v := ⟨.task, 1⟩) hu hwaits hto (by decide)
    hover hcalled hfrom hm hlog haccepted (by decide) hbound hticks
  exact ⟨u, m, t, after, hu, hto, hfrom, hlog, hguards, hpolled.polledSince (Users.hosts _) hu,
    hdone⟩

end Mutex

end Lion
