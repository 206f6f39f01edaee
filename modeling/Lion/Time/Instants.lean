import Lion.Time.Rearming

/-!
# Sleeps and the instants of parks

Each park settles on an instant, which is the wheel's from then on, and no earlier than that of the
park before. All that happens to a sleep that nobody touches is decided by it: while the wheel has
not reached the deadline, the sleep's timer is armed; the park that reaches it calls the waker; and
from then on polling the sleep completes it.

`Rearming` says of every state that nothing was missed. What is said here is when things happen,
which is what a bound on waiting is made of: whoever composes the sleeps with an executor needs one
park after the deadline, and one poll after that park. The three statements are about a sleep that
is left alone between two states. A run in which it is polled again is cut at that poll, which
leaves it waiting with another waker.

## Conventions

The instant of a state is the wheel's, not that of the real clock. Before the first park the two are
not related; afterwards the wheel is never ahead of the cached clock.

## Main results

* `Sleepers.armed` — before the deadline, the timer is armed
* `Sleepers.woken` — the park that reaches the deadline calls the waker
* `Sleepers.completes` — from then on, polling completes the sleep
-/

namespace Lion

namespace Sleepers

variable {W : Type*} {s s' : Sleepers W} {l : Label W} {i : ℕ} {f : Sleeper W} {waker : W}
  {timeout : Option UInt64} {raw : UInt64} {poll : Except IoError (List MioEvent)}

/-- The instant that the latest park settled on, and the wheel's from then on. -/
def elapsed (s : Sleepers W) : UInt64 := s.reactor.wheel.elapsed

/-- Whether the step is a park of the reactor. -/
def Label.parks : Label W → Bool
  | .park _ _ _ => true
  | .new _ | .poll _ _ _ | .reset _ _ | .drop _ | .io _ => false

/-- Whether the step is an operation on future number `i`. -/
def Label.touches (i : ℕ) : Label W → Bool
  | .poll j _ _ | .reset j _ | .drop j => decide (j = i)
  | .new _ | .park _ _ _ | .io _ => false

/-! ### What changes the instant -/

theorem Tracked.elapsed_disarm (h : Tracked s) (k : SleepKernel) :
    (Sleep.disarm k s.reactor).wheel.elapsed = s.elapsed :=
  (h.toKept.disarm k).2.elapsed

/-- A poll leaves the wheel's instant as it is, whether or not it registers a timer. -/
theorem Tracked.elapsed_poll (h : Tracked s) (hpoll : s.poll i waker raw = some s') :
    s'.elapsed = s.elapsed ∧ s'.wakes = s.wakes := by
  obtain ⟨f, hi, heq⟩ := Option.bind_eq_some_iff.mp hpoll
  by_cases hpast : f.kernel.deadline ≤ Sleep.clock s.reactor raw
  · rw [Sleep.poll_of_le hpast] at heq
    cases heq
    exact ⟨rfl, rfl⟩
  · obtain ⟨⟨res, r'⟩, hreg⟩ : ∃ x, ReactorHandle.registerTimer (Sleep.disarm f.kernel s.reactor)
      f.kernel.deadline waker = x := ⟨_, rfl⟩
    rw [Sleep.poll_of_not_le hpast hreg] at heq
    cases heq
    obtain ⟨hkept, htuned⟩ := h.toKept.disarm f.kernel
    have hahead : (Sleep.disarm f.kernel s.reactor).wheel.elapsed < f.kernel.deadline := by
      rw [htuned.elapsed]
      exact h.elapsed_lt hpast
    have hsame := (ReactorHandle.registerTimer_spec hkept.consistent hkept.marked hahead waker
      hreg).1.elapsed
    exact ⟨hsame.trans htuned.elapsed, rfl⟩

/-- Only parks move the wheel's instant and call wakers. -/
theorem Tracked.elapsed_step (h : Tracked s) (hl : l.parks = false) (hstep : s.step l = some s') :
    s'.elapsed = s.elapsed ∧ s'.wakes = s.wakes := by
  cases l with
  | park timeout raw poll => cases hl
  | new deadline =>
    cases hstep
    exact ⟨rfl, rfl⟩
  | poll j waker raw =>
    simp only [Sleepers.step] at hstep
    split at hstep
    · exact h.elapsed_poll hstep
    · cases hstep
  | reset j deadline =>
    obtain ⟨f, -, heq⟩ := Option.bind_eq_some_iff.mp hstep
    cases heq
    exact ⟨h.elapsed_disarm f.kernel, rfl⟩
  | drop j =>
    obtain ⟨f, -, heq⟩ := Option.bind_eq_some_iff.mp hstep
    cases heq
    exact ⟨h.elapsed_disarm f.kernel, rfl⟩
  | io op =>
    simp only [Sleepers.step] at hstep
    split at hstep
    · rename_i hio
      obtain ⟨r', hcall, rfl⟩ := Option.map_eq_some_iff.mp hstep
      exact ⟨(call_io h.consistent hio hcall).1.elapsed, rfl⟩
    · cases hstep

/-- What a park does to the instant, and to the wakes. -/
theorem Tracked.elapsed_park (h : Tracked s) (hpark : s.step (.park timeout raw poll) = some s') :
    s.elapsed ≤ s'.elapsed ∧ raw ≤ s'.elapsed ∧
      ∃ new, s'.wakes = s.wakes ++ new ∧ ∀ k ∈ new, k.instant = s'.elapsed := by
  simp only [Sleepers.step] at hpark
  split at hpark
  · obtain ⟨htuned, -, -, -⟩ := Reactor.flush_spec h.consistent
    obtain ⟨⟨res, r'⟩, hrun, heq⟩ := Option.bind_eq_some_iff.mp hpark
    cases heq
    obtain ⟨helapsed, -, -⟩ := Reactor.park_clock htuned.consistent hrun
    refine ⟨?_, ?_, _, rfl, ?_⟩
    · show s.reactor.wheel.elapsed ≤ r'.wheel.elapsed
      rw [helapsed, ← htuned.elapsed, Reactor.getCurrentTime]
      dsimp only
      split
      · assumption
      · exact UInt64.le_refl _
    · show raw ≤ r'.wheel.elapsed
      rw [helapsed]
      exact le_getCurrentTime _ raw
    · intro k hk
      obtain ⟨c, -, hc⟩ := List.mem_filterMap.mp hk
      cases c with
      | wakeTask w rid =>
        cases hc
        exact helapsed.symm
      | _ => cases hc
  · cases hpark

/-! ### A sleep that nobody touches -/

/-- A future is as it was left, by a step that is not an operation on it. -/
theorem get_of_step (hl : l.touches i = false) (hi : s.sleeps.get i = some f)
    (hstep : s.step l = some s') : s'.sleeps.get i = some f := by
  have hput : ∀ {j g x}, decide (j = i) = false → s.sleeps.get j = some g →
      (s.sleeps.put j x).get i = some f := by
    intro j g x hne hj
    rw [Arena.get_put hj, if_neg fun heq => by simp [heq] at hne, hi]
  cases l with
  | new deadline =>
    cases hstep
    rw [Arena.get_add, if_neg (Nat.ne_of_lt (Arena.lt_size hi)), hi]
  | poll j waker raw =>
    simp only [Sleepers.step] at hstep
    split at hstep
    · obtain ⟨g, hj, heq⟩ := Option.bind_eq_some_iff.mp hstep
      cases heq
      exact hput hl hj
    · cases hstep
  | reset j deadline =>
    obtain ⟨g, hj, heq⟩ := Option.bind_eq_some_iff.mp hstep
    cases heq
    exact hput hl hj
  | drop j =>
    obtain ⟨g, hj, heq⟩ := Option.bind_eq_some_iff.mp hstep
    cases heq
    exact hput hl hj
  | park timeout raw poll =>
    simp only [Sleepers.step] at hstep
    split at hstep
    · obtain ⟨⟨res, r'⟩, -, heq⟩ := Option.bind_eq_some_iff.mp hstep
      cases heq
      exact hi
    · cases hstep
  | io op =>
    simp only [Sleepers.step] at hstep
    split at hstep
    · obtain ⟨r', -, rfl⟩ := Option.map_eq_some_iff.mp hstep
      exact hi
    · cases hstep

/-- No waker has been called at an instant that is still to come. -/
theorem instant_le_of_reachable (h : machine.Reachable s) :
    ∀ k ∈ s.wakes, k.instant ≤ s.elapsed := by
  refine (h.invariant (I := fun s => Tracked s ∧ ∀ k ∈ s.wakes, k.instant ≤ s.elapsed) ?_ ?_).2
  · rintro s ⟨cachedNow, clock, rfl⟩
    exact ⟨tracked_new cachedNow clock, fun k hk => absurd hk List.not_mem_nil⟩
  · rintro s l s' ⟨htracked, hle⟩ hstep
    refine ⟨htracked.step hstep, ?_⟩
    cases hl : l.parks with
    | false =>
      obtain ⟨helapsed, hwakes⟩ := htracked.elapsed_step hl hstep
      rw [helapsed, hwakes]
      exact hle
    | true =>
      cases l with
      | park timeout raw poll =>
        obtain ⟨hmono, -, new, hwakes, hnew⟩ := htracked.elapsed_park hstep
        intro k hk
        rw [hwakes] at hk
        rcases List.mem_append.mp hk with hk | hk
        · exact UInt64.le_trans (hle k hk) hmono
        · exact UInt64.le_of_eq (hnew k hk)
      | _ => cases hl

/-- **Before its deadline**, a sleep that waits has its timer. -/
theorem armed (h : machine.Reachable s) (hi : s.sleeps.get i = some f)
    (hlast : f.last = some waker) (hlt : s.elapsed < f.kernel.deadline) :
    ∃ rid e, ¬ s.reactor.Marked rid ∧ Reactor.timerSlot s.reactor.resources rid = some (e, waker) ∧
      e.deadline = f.kernel.deadline := by
  have htracked := tracked_of_reachable h
  obtain ⟨rid, hrid, ⟨e, he⟩ | ⟨k, hk, -, -, hdue⟩⟩ := htracked.prompt i f waker hi hlast
  · obtain ⟨-, hnot, hdeadline⟩ := htracked.held i f rid hi hrid
    exact ⟨rid, e, hnot, he, hdeadline (e, waker) he⟩
  · have hle := instant_le_of_reachable h k (List.mem_of_mem_drop hk)
    exact absurd (UInt64.lt_of_le_of_lt (UInt64.le_trans hdue hle) hlt) (UInt64.lt_irrefl _)

/-- **The park that reaches the deadline** of a sleep that waits calls its waker. -/
theorem woken (h : machine.Reachable s) (hi : s.sleeps.get i = some f)
    (hlast : f.last = some waker) (hlt : s.elapsed < f.kernel.deadline)
    (hpark : s.step (.park timeout raw poll) = some s') (hdue : f.kernel.deadline ≤ s'.elapsed) :
    ∃ k ∈ s'.wakes.drop s.wakes.length, k.waker = waker := by
  obtain ⟨rid, e, hnot, hslot, hdeadline⟩ := armed h hi hlast hlt
  have htracked := tracked_of_reachable h
  have htracked' := htracked.step hpark
  simp only [Sleepers.step] at hpark
  split at hpark
  · obtain ⟨now, -, -, -, -, -, -, hcached, ⟨new, hwakes, hnew⟩, -⟩ :=
      park_cases htracked.toKept hpark
    have hnow : f.kernel.deadline ≤ now := by
      have hle := htracked'.toKept.elapsed
      rw [hcached] at hle
      exact UInt64.le_trans hdue hle
    rw [hwakes, List.drop_left]
    exact ⟨_, hnew rid (e, waker) hnot hslot (hdeadline ▸ hnow), rfl⟩
  · cases hpark

/-- **From its deadline on**, polling a sleep completes it, whatever the clock reads. -/
theorem completes (h : machine.Reachable s) (hdue : f.kernel.deadline ≤ s.elapsed) (waker : W)
    (raw : UInt64) : (Sleep.poll f.kernel s.reactor waker raw).1 = .complete := by
  have hle := (tracked_of_reachable h).toKept.elapsed
  rw [Sleep.poll_of_le]
  refine UInt64.le_trans hdue (UInt64.le_trans hle ?_)
  rw [Sleep.clock]
  cases s.reactor.cachedNow with
  | none => exact UInt64.zero_le
  | some now => exact UInt64.le_refl _

end Sleepers

end Lion
