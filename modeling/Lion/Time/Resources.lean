import Lion.Reactor.IoWakes
import Lion.Time.Rearming

/-!
# I/O resources beside sleeps

Sleeps come and go on the thread of a reactor that others use for I/O. Neither gets in the way of
the other: the ids that sleeps hold are never those of I/O resources (`Sleepers.Beside`), so what
sleeps do leaves the wakers of I/O resources alone, and so does a park. A waker that is set for a
direction of a resource stays there until another one is set or the resource is deregistered, and is
called by every park that is told of the direction.

`IoWakes` has this for a reactor and calls of any kind, against a table. Here the calls about timers
are those of sleeps, which makes it a matter of fact that no I/O resource is deregistered as a timer
and not something that callers are asked for. The table is not needed either: one waker of one
direction is followed through a run (`Watches`).

## Main results

* `Sleepers.Watches.step` — a waker that is set stays there
* `Sleepers.woken_of_reported` — and is called when the operating system reports the direction
-/

namespace Lion

namespace Sleepers

variable {W : Type} {s s' : Sleepers W} {l : Label W} {timeout : Option UInt64} {raw rid : UInt64}
  {poll : Except IoError (List MioEvent)} {mode : IoMode} {waker : W} {wakers : IoMode → Option W}

/-- The waker is set for a direction of the resource, which is registered then. -/
def Watches (s : Sleepers W) (rid : UInt64) (mode : IoMode) (waker : W) : Prop :=
  ∃ wakers, Reactor.ioSlot s.reactor.resources rid = some wakers ∧ wakers mode = some waker

/-- A waker is set for the direction, or the resource is deregistered. -/
def Label.rearms (rid : UInt64) (mode : IoMode) : Label W → Bool
  | .io (.setWaker k interest _) => decide (k = rid) && interest.covers mode
  | .io (.deregisterIoResource k _) => decide (k = rid)
  | .io (.registerIoResource _ _) | .io (.registerTimer _ _) | .io (.deregisterTimer _)
  | .io (.park _ _ _) | .new _ | .poll _ _ _ | .reset _ _ | .drop _ | .park _ _ _ => false

/-- No future holds the id of an I/O resource, so that none is deregistered by mistake. -/
def Beside (s : Sleepers W) : Prop :=
  ∀ i f rid, s.sleeps.get i = some f → f.kernel.rid = some rid →
    Reactor.ioSlot s.reactor.resources rid = none

/-- Timers and I/O resources do not share ids, since a timer that is in the wheel is in the slab. -/
theorem apart_of_kept {r : Reactor W} (h : r.Kept) : r.Apart := by
  have hlive : ∀ k d, r.wheel.live k = some d →
      k < r.nextResourceId ∧ Reactor.ioSlot r.resources k = none := by
    intro k d hd
    obtain ⟨⟨e, w⟩, ht, -⟩ := Option.map_eq_some_iff.mp ((h.consistent.agrees k).symm.trans hd)
    have hslot := Reactor.timerSlot_eq_some.mp ht
    exact ⟨h.consistent.fresh k _ hslot, Reactor.ioSlot_of_timer hslot⟩
  refine ⟨h.consistent.fresh, ?_⟩
  rintro k (⟨d, hd⟩ | ⟨d, hd⟩)
  · exact hlive k d hd
  · exact hlive k d (h.marked k d hd)

/-! ### Sleeps -/

/-- Something that is done to timers leaves the wakers alone. -/
theorem Watches.timed {r : Reactor W} {t : Sleepers W} (h : s.Watches rid mode waker)
    (htimed : s.reactor.Timed r) (ht : t.reactor = r) : t.Watches rid mode waker := by
  obtain ⟨wakers, hrid, hwaker⟩ := h
  exact ⟨wakers, by rw [ht, htimed.io rid, hrid], hwaker⟩

/-- It leaves the other futures alone too, so that no id comes to be shared. -/
theorem Beside.put {i : ℕ} {f : Sleeper W} {r : Reactor W} {x : Option (Sleeper W)} (h : Beside s)
    (hi : s.sleeps.get i = some f) (htimed : s.reactor.Timed r)
    (hx : ∀ g k, x = some g → g.kernel.rid = some k → Reactor.ioSlot r.resources k = none)
    {t : Sleepers W} (hreactor : t.reactor = r) (hsleeps : t.sleeps = s.sleeps.put i x) :
    Beside t := by
  intro j g k hj hk
  rw [hsleeps, Arena.get_put hi] at hj
  rw [hreactor]
  split at hj
  · exact hx g k hj hk
  · exact (htimed.io k).trans (h j g k hj hk)

/-- Giving up a timer is something that is done to timers. -/
theorem timed_disarm {i : ℕ} {f : Sleeper W} (h : Tracked s) (hb : Beside s)
    (hi : s.sleeps.get i = some f) : s.reactor.Timed (Sleep.disarm f.kernel s.reactor) := by
  have hapart := apart_of_kept h.toKept
  rw [Sleep.disarm]
  split
  · rename_i rid hrid
    exact (Reactor.timed_handleDeregister hapart (hb i f rid hi hrid)).1
  · exact .refl hapart

/-- A poll leaves I/O resources alone, whether or not it completes. -/
theorem timed_poll {i : ℕ} (h : Tracked s) (hb : Beside s) (hpoll : s.poll i waker raw = some s') :
    s.reactor.Timed s'.reactor ∧ Beside s' := by
  obtain ⟨f, hi, heq⟩ := Option.bind_eq_some_iff.mp hpoll
  by_cases hpast : f.kernel.deadline ≤ Sleep.clock s.reactor raw
  · rw [Sleep.poll_of_le hpast] at heq
    cases heq
    have hrefl := Reactor.Timed.refl (apart_of_kept h.toKept)
    refine ⟨hrefl, hb.put hi hrefl ?_ rfl rfl⟩
    rintro g k ⟨⟩ hk
    cases hk
  · obtain ⟨⟨res, r'⟩, hreg⟩ : ∃ x, ReactorHandle.registerTimer (Sleep.disarm f.kernel s.reactor)
      f.kernel.deadline waker = x := ⟨_, rfl⟩
    rw [Sleep.poll_of_not_le hpast hreg] at heq
    cases heq
    have hdisarm := timed_disarm h hb hi
    have hregister := (Reactor.timed_handleRegister hdisarm.apart f.kernel.deadline waker).1
    rw [hreg] at hregister
    have htimed := hdisarm.trans hregister
    refine ⟨htimed, hb.put hi htimed ?_ rfl rfl⟩
    rintro g k ⟨⟩ hk
    obtain ⟨hkept, htuned⟩ := h.toKept.disarm f.kernel
    have hahead : (Sleep.disarm f.kernel s.reactor).wheel.elapsed < f.kernel.deadline := by
      rw [htuned.elapsed]
      exact h.elapsed_lt hpast
    obtain ⟨-, -, hcase⟩ := ReactorHandle.registerTimer_spec hkept.consistent hkept.marked hahead
      waker hreg
    rcases hcase with ⟨rid, e, rfl, -, -, -, hget, -⟩ | ⟨⟨e, rfl⟩, -⟩
    · cases hk
      exact Reactor.ioSlot_of_timer hget
    · cases hk

/-- So do a reset and a drop, which give up a timer at most. -/
theorem timed_put {i : ℕ} {f : Sleeper W} {x : Option (Sleeper W)} (h : Tracked s) (hb : Beside s)
    (hi : s.sleeps.get i = some f) (hx : ∀ g, x = some g → g.kernel.rid = none)
    {t : Sleepers W} (hreactor : t.reactor = Sleep.disarm f.kernel s.reactor)
    (hsleeps : t.sleeps = s.sleeps.put i x) : s.reactor.Timed t.reactor ∧ Beside t := by
  have htimed := timed_disarm h hb hi
  refine ⟨hreactor ▸ htimed, hb.put hi htimed ?_ hreactor hsleeps⟩
  intro g k hg hk
  rw [hx g hg] at hk
  cases hk

/-- And so does a park, apart from the wakers that it calls. -/
theorem timed_park (h : Tracked s) (hpark : s.park timeout raw poll = some s') :
    s.reactor.Timed s'.reactor ∧ s'.sleeps = s.sleeps := by
  obtain ⟨hflush, -⟩ := Reactor.timed_flush (apart_of_kept h.toKept)
  obtain ⟨⟨res, r'⟩, hrun, heq⟩ := Option.bind_eq_some_iff.mp hpark
  cases heq
  obtain ⟨wakes, r₁, hrun', htimed, -⟩ := Reactor.park_io hflush.apart timeout raw poll
  cases hrun.symm.trans hrun'
  exact ⟨hflush.trans htimed, rfl⟩

/-! ### I/O resources -/

/-- An operation on I/O resources sets the wakers of its resource only, and gives no id that is in
use to another one. -/
theorem ioSlot_io {op : Reactor.Op W} {r' : Reactor W} (h : Tracked s)
    (hio : permitsIo s.reactor op = true) (hcall : s.reactor.call op = some r') :
    (∀ k, k < s.reactor.nextResourceId → Reactor.ioSlot s.reactor.resources k = none →
      Reactor.ioSlot r'.resources k = none) ∧
    ∀ k mode w, (Label.io op).rearms k mode = false →
      (∃ wakers, Reactor.ioSlot s.reactor.resources k = some wakers ∧ wakers mode = some w) →
      ∃ wakers, Reactor.ioSlot r'.resources k = some wakers ∧ wakers mode = some w := by
  have hapart := apart_of_kept h.toKept
  cases op with
  | registerTimer | deregisterTimer | park => cases hio
  | registerIoResource interest osResult =>
    cases hcall
    obtain ⟨-, -, hslot, hrid, -⟩ := Reactor.ioSlot_registerIoResource hapart interest osResult
    have hkeep : ∀ k, k < s.reactor.nextResourceId → Reactor.ioSlot
        (s.reactor.registerIoResource interest osResult).2.resources k =
        Reactor.ioSlot s.reactor.resources k := fun k hk =>
      (hslot k).trans (Reactor.registered_of_lt hrid hk)
    refine ⟨fun k hk hnone => (hkeep k hk).trans hnone, ?_⟩
    rintro k mode w - ⟨wakers, hk, hw⟩
    exact ⟨wakers, (hkeep k (hapart.fresh k _ (Reactor.ioSlot_eq_some hk))).trans hk, hw⟩
  | deregisterIoResource rid osResult =>
    cases hcall
    obtain ⟨-, hslot, -⟩ := Reactor.ioSlot_deregisterIoResource hapart rid osResult
    constructor
    · intro k _ hnone
      rw [hslot, Function.update_apply, hnone, ite_self]
    · rintro k mode w hl ⟨wakers, hk, hw⟩
      have hne : k ≠ rid := fun heq => by simp [Label.rearms, heq] at hl
      exact ⟨wakers, by rw [hslot, Function.update_of_ne hne, hk], hw⟩
  | setWaker rid interest waker =>
    obtain ⟨resources, rfl, hother, hnew⟩ := Reactor.ioSlot_setWaker hcall
    constructor
    · intro k _ hnone
      by_cases hk : k = rid
      · subst hk
        exact hnew.trans (Option.map_eq_none_iff.mpr hnone)
      · exact (Reactor.ioSlot_congr (hother k hk)).trans hnone
    · rintro k mode w hl ⟨wakers, hk, hw⟩
      by_cases heq : k = rid
      · subst heq
        refine ⟨_, hnew.trans (congrArg (Option.map _) hk), ?_⟩
        have hnot : interest.covers mode = false := by simpa [Label.rearms] using hl
        dsimp only
        rw [hnot, hw]
        rfl
      · exact ⟨wakers, (Reactor.ioSlot_congr (hother k heq)).trans hk, hw⟩

/-- **One step** keeps the ids of futures and those of I/O resources apart. -/
theorem beside_step (h : Tracked s) (hb : Beside s) (hstep : s.step l = some s') :
    Beside s' ∧ ∀ rid mode waker, l.rearms rid mode = false → s.Watches rid mode waker →
      s'.Watches rid mode waker := by
  have htimed : s.reactor.Timed s'.reactor ∧ Beside s' → Beside s' ∧ ∀ rid mode waker,
      l.rearms rid mode = false → s.Watches rid mode waker → s'.Watches rid mode waker :=
    fun ⟨ht, hb'⟩ => ⟨hb', fun _ _ _ _ hw => hw.timed ht rfl⟩
  cases l with
  | new deadline =>
    cases hstep
    refine htimed ⟨.refl (apart_of_kept h.toKept), fun j g k hj hk => ?_⟩
    rw [Arena.get_add] at hj
    split at hj
    · cases hj
      cases hk
    · exact hb j g k hj hk
  | poll j waker raw =>
    simp only [Sleepers.step] at hstep
    split at hstep
    · exact htimed (timed_poll h hb hstep)
    · cases hstep
  | reset j deadline =>
    obtain ⟨f, hj, heq⟩ := Option.bind_eq_some_iff.mp hstep
    cases heq
    refine htimed (timed_put h hb hj ?_ rfl rfl)
    rintro g ⟨⟩
    rfl
  | drop j =>
    obtain ⟨f, hj, heq⟩ := Option.bind_eq_some_iff.mp hstep
    cases heq
    exact htimed (timed_put h hb hj (fun g hg => by cases hg) rfl rfl)
  | park timeout raw poll =>
    simp only [Sleepers.step] at hstep
    split at hstep
    · obtain ⟨ht, hsleeps⟩ := timed_park h hstep
      refine htimed ⟨ht, fun j g k hj hk => ?_⟩
      rw [hsleeps] at hj
      exact (ht.io k).trans (hb j g k hj hk)
    · cases hstep
  | io op =>
    simp only [Sleepers.step] at hstep
    split at hstep
    · rename_i hio
      obtain ⟨r', hcall, rfl⟩ := Option.map_eq_some_iff.mp hstep
      obtain ⟨hnone, hkeep⟩ := ioSlot_io h hio hcall
      refine ⟨fun j g k hj hk => ?_, hkeep⟩
      exact hnone k (h.held j g k hj hk).1 (hb j g k hj hk)
    · cases hstep

theorem beside_of_reachable (h : machine.Reachable s) : Beside s := by
  refine (h.invariant (I := fun s => Tracked s ∧ Beside s) ?_ ?_).2
  · rintro s ⟨cachedNow, clock, rfl⟩
    refine ⟨tracked_new cachedNow clock, fun i f k hi => ?_⟩
    cases hi
  · rintro s l s' ⟨htracked, hb⟩ hstep
    exact ⟨htracked.step hstep, (beside_step htracked hb hstep).1⟩

/-- **A waker that is set stays there**, unless the direction is set again or the resource is
deregistered. -/
theorem Watches.step (h : machine.Reachable s) (hw : s.Watches rid mode waker)
    (hl : l.rearms rid mode = false) (hstep : s.step l = some s') : s'.Watches rid mode waker :=
  (beside_step (tracked_of_reachable h) (beside_of_reachable h) hstep).2 rid mode waker hl hw

/-! ### Events -/

/-- An event that is reported leads to a call of the waker for its direction. -/
theorem mem_pollCalls (hreported : Reactor.reported poll mode rid = true)
    {slots : UInt64 → Option (IoMode → Option W)} (hrid : slots rid = some wakers)
    (hwaker : wakers mode = some waker) :
    .wakeTask waker rid ∈ Reactor.pollCalls slots poll := by
  cases poll with
  | error e => cases hreported
  | ok events =>
    rw [Reactor.reported, ← Reactor.any_collectIoEvents, List.any_eq_true] at hreported
    obtain ⟨event, hmem, hevent⟩ := hreported
    rw [Bool.and_eq_true, decide_eq_true_eq, decide_eq_true_eq] at hevent
    refine List.mem_flatMap.mpr ⟨event, hmem, ?_⟩
    rw [Reactor.eventCalls, hevent.1, hevent.2, hrid]
    simp [hwaker]

/-- **A park that is told of readiness** calls the waker that is set for it. -/
theorem woken_of_reported (h : machine.Reachable s)
    (hw : s.Watches rid mode waker) (hpark : s.step (.park timeout raw poll) = some s')
    (hreported : Reactor.reported poll mode rid = true) :
    ∃ k ∈ s'.wakes.drop s.wakes.length, k.waker = waker := by
  obtain ⟨wakers, hrid, hwaker⟩ := hw
  simp only [Sleepers.step] at hpark
  split at hpark
  · obtain ⟨hflush, -⟩ := Reactor.timed_flush (apart_of_kept (tracked_of_reachable h).toKept)
    obtain ⟨⟨res, r'⟩, hrun, heq⟩ := Option.bind_eq_some_iff.mp hpark
    cases heq
    obtain ⟨wakes, r₁, hrun', -, -, hlog⟩ := Reactor.park_io hflush.apart timeout raw poll
    cases hrun.symm.trans hrun'
    rw [show Reactor.ioSlot s.reactor.flushPendingDeregister.resources =
      Reactor.ioSlot s.reactor.resources from funext hflush.io] at hlog
    have hcall : .wakeTask waker rid ∈
        r'.log.drop s.reactor.flushPendingDeregister.log.length := by
      rw [hlog, List.append_assoc, List.append_assoc, List.drop_left]
      refine List.mem_append_right _ (List.mem_append_right _ ?_)
      exact mem_pollCalls hreported hrid hwaker
    rw [List.drop_left]
    exact ⟨_, mem_wakesOf hcall, rfl⟩
  · cases hpark

end Sleepers

end Lion
