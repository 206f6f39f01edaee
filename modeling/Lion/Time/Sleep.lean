import Lion.Reactor.Timers

/-!
# Sleeping

`Sleep` of `lion-utility`, and the calls of `ReactorHandle` it makes. A `Sleep` is a deadline and
the id of the timer it has registered, if any. Every poll before the deadline registers anew: the
old timer is deregistered and another one registered, with the waker of that poll.

Deregistering is put off. `ReactorHandle::deregister_timer` leaves the timer in wheel and slab and
notes its id in `pending_deregister`, which has room for one. The next registration takes the timer
over if the deadline is the same, and only replaces the waker; else it removes the timer first.
Another deregistration removes it too, and so does `flush_pending_deregister`, which the executor
calls before it parks.

## What a timer that is put off is

Between two calls a timer may be in wheel and slab without belonging to anybody. It is `Marked`. It
would be called if it became due, so something has to be known about when the mark is cleared:
before any park, and by any registration. `Swept` says of a slot that it is emptied if it was marked
and is as before if not, and the specifications of the two calls are in terms of it.

`Kept` collects what a poll relies on. Wheel and slab agree; a timer that is marked is in the wheel,
with the deadline that was noted; and the wheel is not ahead of the cached clock, so that a deadline
which the clock has not reached can be registered.

## Conventions

The functions of `ReactorHandle` act on the reactor of the current thread, which is their first
argument. The clock of a poll is an argument; it is looked at only if the reactor has not cached
one.

## Main results

* `ReactorHandle.deregisterTimer_spec`, `ReactorHandle.registerTimer_spec` — what the two calls do
  to the slots of a reactor
* `Reactor.Kept.park` — a park keeps what polls rely on
-/

namespace Lion

variable {W : Type*}

/-- `Reactor::flush_pending_deregister`: remove the timer that was put off, if there is one. -/
def Reactor.flushPendingDeregister (r : Reactor W) : Reactor W :=
  match r.pendingDeregister with
  | some (rid, _) => { r with pendingDeregister := none }.deregisterTimer rid
  | none => r

namespace ReactorHandle

/-- `ReactorHandle::register_timer`: take the timer over that was put off if it has this deadline,
and else remove it and register a new one. -/
def registerTimer (r : Reactor W) (deadline : UInt64) (waker : W) :
    Except IoError UInt64 × Reactor W :=
  match r.pendingDeregister with
  | some (rid, oldDeadline) =>
    let r := { r with pendingDeregister := none }
    if oldDeadline = deadline ∧ ResourceSlab.contains r.resources rid then
      (.ok rid, { r with resources := (ResourceSlab.replaceTimerWaker r.resources rid waker).2 })
    else (r.deregisterTimer rid).registerTimer deadline waker
  | none => r.registerTimer deadline waker

/-- `ReactorHandle::deregister_timer`: make up for what was put off before, and put this one off. -/
def deregisterTimer (r : Reactor W) (rid : UInt64) : Reactor W :=
  let r := r.flushPendingDeregister
  match r.wheel.getDeadline rid with
  | some deadline => { r with pendingDeregister := some (rid, deadline) }
  | none => r.deregisterTimer rid

end ReactorHandle

/-- `SleepAction`: what a poll of a sleep comes to. -/
inductive SleepAction
  /-- The deadline has passed. -/
  | complete
  /-- A timer was registered. -/
  | suspend
  /-- The reactor refused the timer. -/
  | fail
deriving DecidableEq, Repr

/-- `SleepKernel`, without its ghost log: the deadline, and the timer registered for it. -/
structure SleepKernel where
  deadline : UInt64
  rid : Option UInt64
deriving DecidableEq, Repr

namespace SleepKernel

/-- `SleepKernel::new`: no timer yet. -/
def new (deadline : UInt64) : SleepKernel := ⟨deadline, none⟩

/-- `SleepKernel::poll_step`: complete if the deadline has passed, else hold the timer just
registered. -/
def pollStep (k : SleepKernel) (now : UInt64) (reg : Option UInt64) : SleepAction × SleepKernel :=
  if k.deadline ≤ now then (.complete, { k with rid := none })
  else
    match reg with
    | some rid => (.suspend, { k with rid := some rid })
    | none => (.fail, { k with rid := none })

/-- `SleepKernel::reset_step`: another deadline, and no timer. The old one is the shell's to
deregister. -/
def resetStep (_ : SleepKernel) (deadline : UInt64) : SleepKernel := ⟨deadline, none⟩

/-- `SleepKernel::drop_step`: forget the timer. -/
def dropStep (k : SleepKernel) : SleepKernel := { k with rid := none }

end SleepKernel

namespace Sleep

/-- Deregister the timer, if there is one. Resets and drops do no more with the reactor. -/
def disarm (k : SleepKernel) (r : Reactor W) : Reactor W :=
  match k.rid with
  | some rid => ReactorHandle.deregisterTimer r rid
  | none => r

/-- The clock a poll goes by: that of the latest park, or else the real one. -/
def clock (r : Reactor W) (raw : UInt64) : UInt64 := r.cachedNow.getD raw

/-- `Sleep::poll`; `raw` is what `Instant::now` would say. -/
def poll (k : SleepKernel) (r : Reactor W) (waker : W) (raw : UInt64) :
    SleepAction × SleepKernel × Reactor W :=
  let now := clock r raw
  let (reg, r) :=
    if k.deadline ≤ now then (none, r)
    else
      match ReactorHandle.registerTimer (disarm k r) k.deadline waker with
      | (.ok rid, r) => (some rid, r)
      | (.error _, r) => (none, r)
  let (action, k) := k.pollStep now reg
  (action, k, r)

/-- `Sleep::reset`: deregister the timer and take the new deadline. -/
def reset (k : SleepKernel) (r : Reactor W) (deadline : UInt64) : SleepKernel × Reactor W :=
  (k.resetStep deadline, disarm k r)

/-- `Sleep::drop`: deregister the timer. -/
def drop (k : SleepKernel) (r : Reactor W) : SleepKernel × Reactor W := (k.dropStep, disarm k r)

end Sleep

/-! ### What a poll does -/

namespace Sleep

variable {k : SleepKernel} {r r' : Reactor W} {waker : W} {raw : UInt64}

theorem poll_of_le (h : k.deadline ≤ clock r raw) :
    poll k r waker raw = (.complete, { k with rid := none }, r) := by
  simp only [poll, if_pos h, SleepKernel.pollStep]

/-- Before the deadline, a poll returns pending if the reactor registers a timer. -/
theorem poll_of_not_le (h : ¬ k.deadline ≤ clock r raw) {res : Except IoError UInt64}
    (hreg : ReactorHandle.registerTimer (disarm k r) k.deadline waker = (res, r')) :
    poll k r waker raw = (if res.toOption.isSome then .suspend else .fail,
      { k with rid := res.toOption }, r') := by
  cases res with
  | ok rid => simp [poll, if_neg h, SleepKernel.pollStep, hreg, Except.toOption]
  | error e => simp [poll, if_neg h, SleepKernel.pollStep, hreg, Except.toOption]

end Sleep

/-! ### What the calls do to the slots of a reactor -/

namespace Reactor

variable {r r' : Reactor W} {rid : UInt64}

/-- The deregistration of this timer is put off, so that it is there and belongs to nobody. -/
def Marked (r : Reactor W) (rid : UInt64) : Prop :=
  ∃ deadline, r.pendingDeregister = some (rid, deadline)

/-- `r'` comes from `r` by calls that change the slots and hand out ids. -/
structure Tuned (r r' : Reactor W) : Prop where
  consistent : Consistent r'
  next_le : r.nextResourceId ≤ r'.nextResourceId
  cachedNow : r'.cachedNow = r.cachedNow
  elapsed : r'.wheel.elapsed = r.wheel.elapsed

theorem Tuned.refl (h : Consistent r) : Tuned r r := ⟨h, UInt64.le_refl _, rfl, rfl⟩

theorem Tuned.trans {r₁ r₂ r₃ : Reactor W} (h : Tuned r₁ r₂) (h' : Tuned r₂ r₃) : Tuned r₁ r₃ :=
  ⟨h'.consistent, UInt64.le_trans h.next_le h'.next_le, h'.cachedNow.trans h.cachedNow,
    h'.elapsed.trans h.elapsed⟩

/-- Slot `k` is emptied if its timer is marked, and else left as it is. -/
def Swept (r r' : Reactor W) (k : UInt64) : Prop :=
  (r.Marked k → r'.resources.get k = none) ∧ (¬ r.Marked k → r'.resources.get k = r.resources.get k)

theorem Swept.timerSlot_eq_some {k : UInt64} {t : TimerEntry × W} (h : Swept r r' k) :
    timerSlot r'.resources k = some t ↔ ¬ r.Marked k ∧ timerSlot r.resources k = some t := by
  by_cases hm : r.Marked k
  · rw [timerSlot_of_none (h.1 hm)]
    exact ⟨fun ht => (by cases ht), fun ht => absurd hm ht.1⟩
  · rw [timerSlot_congr (h.2 hm)]
    exact ⟨fun ht => ⟨hm, ht⟩, And.right⟩

/-- The note of a deregistration is not part of being at rest. -/
theorem Consistent.unmark (h : Consistent r) (p : Option (UInt64 × UInt64)) :
    Consistent { r with pendingDeregister := p } :=
  ⟨h.wheel_wf, h.settled, h.agrees, h.fresh⟩

/-- So is a timer whose waker is replaced. -/
theorem Consistent.replaceTimer (h : Consistent r) {resources : ResourceSlab W} {e : TimerEntry}
    {old waker : W} (hslot : r.resources.get rid = some (.timer e old))
    (hget : ∀ k, resources.get k = if k = rid then some (.timer e waker) else r.resources.get k) :
    Consistent { r with resources := resources } := by
  refine ⟨h.wheel_wf, h.settled, fun k => ?_, fun k slot hk => ?_⟩
  · show r.wheel.live k = (timerSlot resources k).map _
    by_cases heq : k = rid
    · have hnew := timerSlot_eq_some.mpr ((hget k).trans (if_pos heq))
      rw [hnew, h.agrees k, heq, timerSlot_eq_some.mpr hslot]
      rfl
    · rw [timerSlot_congr ((hget k).trans (if_neg heq))]
      exact h.agrees k
  · by_cases heq : k = rid
    · exact heq ▸ h.fresh rid _ hslot
    · exact h.fresh k slot (((hget k).trans (if_neg heq)).symm.trans hk)

theorem tuned_deregisterTimer (h : Consistent r) (rid : UInt64) : Tuned r (r.deregisterTimer rid) :=
  ⟨(h.deregisterTimer rid).consistent, UInt64.le_refl _, rfl,
    TimerWheel.elapsed_remove _ _⟩

theorem flush_spec (h : Consistent r) :
    Tuned r r.flushPendingDeregister ∧ r.flushPendingDeregister.pendingDeregister = none ∧
      r.flushPendingDeregister.nextResourceId = r.nextResourceId ∧
      ∀ k, Swept r r.flushPendingDeregister k := by
  rw [flushPendingDeregister]
  split
  · rename_i rid d hp
    have hmarked : ∀ k, r.Marked k ↔ k = rid := by
      intro k
      constructor
      · rintro ⟨d', hd'⟩
        rw [hp] at hd'
        cases hd'
        rfl
      · rintro rfl
        exact ⟨d, hp⟩
    have htuned := tuned_deregisterTimer (h.unmark none) rid
    refine ⟨⟨htuned.consistent, htuned.next_le, rfl, htuned.elapsed⟩, rfl, rfl, fun k => ?_⟩
    have hget := ResourceSlab.get_removeTimerSlot r.resources rid k
    rw [Swept, hmarked]
    exact ⟨fun hk => hget.trans (if_pos hk), fun hk => hget.trans (if_neg hk)⟩
  · rename_i hp
    refine ⟨.refl h, hp, rfl, fun k => ⟨?_, fun _ => rfl⟩⟩
    rintro ⟨d, hd⟩
    rw [hp] at hd
    cases hd

end Reactor

namespace ReactorHandle

variable {r : Reactor W} {deadline : UInt64} {waker : W}

/-- **Deregistering.** The timer marked before is removed. A timer that is in the wheel is marked
and stays; if the id is not that of a timer, its slot is emptied. -/
theorem deregisterTimer_spec (h : r.Consistent) (rid : UInt64) :
    r.Tuned (deregisterTimer r rid) ∧
      (deregisterTimer r rid).nextResourceId = r.nextResourceId ∧
      (∀ k, k ≠ rid → r.Swept (deregisterTimer r rid) k) ∧
      ((∃ t, ¬ r.Marked rid ∧ Reactor.timerSlot r.resources rid = some t ∧
        (deregisterTimer r rid).resources.get rid = r.resources.get rid ∧
        (deregisterTimer r rid).pendingDeregister = some (rid, t.1.deadline)) ∨
      ((r.Marked rid ∨ Reactor.timerSlot r.resources rid = none) ∧
        (deregisterTimer r rid).resources.get rid = none ∧
        (deregisterTimer r rid).pendingDeregister = none)) := by
  obtain ⟨htuned, hpending, hnext, hswept⟩ := Reactor.flush_spec h
  have hlive := htuned.consistent.agrees rid
  rw [deregisterTimer]
  split
  · rename_i d hd
    obtain ⟨t, ht, hdeadline⟩ := Option.map_eq_some_iff.mp (hlive.symm.trans hd)
    have hnot : ¬ r.Marked rid := by
      intro hmarked
      rw [Reactor.timerSlot_of_none ((hswept rid).1 hmarked)] at ht
      cases ht
    have hget := (hswept rid).2 hnot
    refine ⟨⟨htuned.consistent.unmark _, htuned.next_le, htuned.cachedNow, htuned.elapsed⟩, hnext,
      fun k _ => hswept k, .inl ⟨t, hnot, ?_, hget, ?_⟩⟩
    · rw [← ht, Reactor.timerSlot_congr hget]
    · rw [hdeadline]
  · rename_i hd
    have hnone : Reactor.timerSlot r.flushPendingDeregister.resources rid = none :=
      Option.map_eq_none_iff.mp (hlive.symm.trans hd)
    have hget := ResourceSlab.get_removeTimerSlot r.flushPendingDeregister.resources rid
    refine ⟨htuned.trans (Reactor.tuned_deregisterTimer htuned.consistent rid), hnext,
      fun k hk => ?_, .inr ⟨?_, (hget rid).trans (if_pos rfl), hpending⟩⟩
    · have hsame := (hget k).trans (if_neg hk)
      exact ⟨fun hm => hsame.trans ((hswept k).1 hm), fun hm => hsame.trans ((hswept k).2 hm)⟩
    · by_cases hmarked : r.Marked rid
      · exact .inl hmarked
      · right
        rw [← hnone, Reactor.timerSlot_congr ((hswept rid).2 hmarked)]

/-- Registering in a reactor in which no timer is marked. -/
theorem tuned_registerTimer (h : r.Consistent) (hd : r.wheel.elapsed < deadline) (waker : W) :
    r.Tuned (r.registerTimer deadline waker).2 ∧
      (r.registerTimer deadline waker).2.pendingDeregister = r.pendingDeregister ∧
      ((∃ e, e.deadline = deadline ∧ (r.registerTimer deadline waker).1 = .ok r.nextResourceId ∧
        r.nextResourceId < (r.registerTimer deadline waker).2.nextResourceId ∧
        ∀ k, (r.registerTimer deadline waker).2.resources.get k =
          if k = r.nextResourceId then some (.timer e waker) else r.resources.get k) ∨
      ((∃ e, (r.registerTimer deadline waker).1 = .error e) ∧
        (r.registerTimer deadline waker).2 = r)) := by
  have hconsistent := h.registerTimer hd waker
  rw [Reactor.registerTimer] at hconsistent ⊢
  obtain heq | ⟨hlt, heq⟩ := Reactor.allocResourceId_cases r
  · rw [heq]
    exact ⟨.refl h, rfl, .inr ⟨⟨_, rfl⟩, rfl⟩⟩
  · rw [heq] at hconsistent ⊢
    refine ⟨⟨hconsistent.consistent, hconsistent.next_le, rfl, ?_⟩, rfl, .inl ⟨⟨deadline, _⟩, rfl,
      rfl, hlt, fun k => ResourceSlab.get_insertTimerSlot _ _ _ _ k⟩⟩
    exact (TimerWheel.insert_spec h.wheel_wf.linked _ _).2.2.2.2

/-- Registering when the timer marked, if any, is not taken over. -/
theorem registerTimer_flush_spec (h : r.Consistent) (hd : r.wheel.elapsed < deadline) (waker : W)
    {res : Except IoError UInt64} {r' : Reactor W}
    (hreg : r.flushPendingDeregister.registerTimer deadline waker = (res, r')) :
    r.Tuned r' ∧ r'.pendingDeregister = none ∧
      ((∃ e, res = .ok r.nextResourceId ∧ r.nextResourceId < r'.nextResourceId ∧
        e.deadline = deadline ∧ r'.resources.get r.nextResourceId = some (.timer e waker) ∧
        ∀ k, k ≠ r.nextResourceId → r.Swept r' k) ∨
      ((∃ e, res = .error e) ∧ ∀ k, r.Swept r' k)) := by
  obtain ⟨htuned, hpending, hnext, hswept⟩ := Reactor.flush_spec h
  have hd' : r.flushPendingDeregister.wheel.elapsed < deadline := by
    rw [htuned.elapsed]
    exact hd
  obtain ⟨htuned', hpending', hcase⟩ := tuned_registerTimer htuned.consistent hd' waker
  rw [hreg] at htuned' hpending' hcase
  refine ⟨htuned.trans htuned', hpending'.trans hpending, ?_⟩
  rw [hnext] at hcase
  rcases hcase with ⟨e, hdeadline, hres, hlt, hget⟩ | ⟨herror, hsame⟩
  · refine .inl ⟨e, hres, hlt, hdeadline, (hget _).trans (if_pos rfl), fun k hk => ?_⟩
    have hkeep := (hget k).trans (if_neg hk)
    exact ⟨fun hm => hkeep.trans ((hswept k).1 hm), fun hm => hkeep.trans ((hswept k).2 hm)⟩
  · refine .inr ⟨herror, fun k => ?_⟩
    dsimp only at hsame
    rw [hsame]
    exact hswept k

/-- **Registering.** The timer marked is taken over or removed; no other slot is touched, except
that of the new timer. -/
theorem registerTimer_spec (h : r.Consistent)
    (hmarked : ∀ rid d, r.pendingDeregister = some (rid, d) → r.wheel.live rid = some d)
    (hd : r.wheel.elapsed < deadline) (waker : W) {res : Except IoError UInt64} {r' : Reactor W}
    (hreg : registerTimer r deadline waker = (res, r')) :
    r.Tuned r' ∧ r'.pendingDeregister = none ∧
      ((∃ rid e, res = .ok rid ∧ (r.Marked rid ∨ rid = r.nextResourceId) ∧
        rid < r'.nextResourceId ∧ e.deadline = deadline ∧
        r'.resources.get rid = some (.timer e waker) ∧ ∀ k, k ≠ rid → r.Swept r' k) ∨
      ((∃ e, res = .error e) ∧ ∀ k, r.Swept r' k)) := by
  have hslow : r.flushPendingDeregister.registerTimer deadline waker = (res, r') →
      r.Tuned r' ∧ r'.pendingDeregister = none ∧
        ((∃ rid e, res = .ok rid ∧ (r.Marked rid ∨ rid = r.nextResourceId) ∧
          rid < r'.nextResourceId ∧ e.deadline = deadline ∧
          r'.resources.get rid = some (.timer e waker) ∧ ∀ k, k ≠ rid → r.Swept r' k) ∨
        ((∃ e, res = .error e) ∧ ∀ k, r.Swept r' k)) := by
    intro hflush
    obtain ⟨htuned, hpending, hcase⟩ := registerTimer_flush_spec h hd waker hflush
    refine ⟨htuned, hpending, hcase.imp_left ?_⟩
    rintro ⟨e, hres, hlt, hdeadline, hget, hswept⟩
    exact ⟨_, e, hres, .inr rfl, hlt, hdeadline, hget, hswept⟩
  rw [registerTimer] at hreg
  rw [Reactor.flushPendingDeregister] at hslow
  cases hp : r.pendingDeregister with
  | none =>
    rw [hp] at hreg hslow
    exact hslow hreg
  | some p =>
    obtain ⟨rid, old⟩ := p
    rw [hp] at hreg hslow
    dsimp only at hreg hslow
    split at hreg
    · -- the timer is taken over
      rename_i hsame
      cases hreg
      obtain ⟨⟨e, w⟩, ht, hdeadline⟩ := Option.map_eq_some_iff.mp
        ((h.agrees rid).symm.trans (hmarked rid old hp))
      have hslot := Reactor.timerSlot_eq_some.mp ht
      have hget := ResourceSlab.get_replaceTimerWaker hslot waker
      refine ⟨⟨(h.unmark none).replaceTimer hslot hget, UInt64.le_refl _, rfl, rfl⟩, rfl,
        .inl ⟨rid, e, rfl, .inl ⟨old, hp⟩, h.fresh rid _ hslot, hdeadline.trans hsame.1,
          (hget rid).trans (if_pos rfl), fun k hk => ⟨?_, fun _ => (hget k).trans (if_neg hk)⟩⟩⟩
      rintro ⟨d, hd⟩
      rw [hp] at hd
      cases hd
      exact absurd rfl hk
    · exact hslow hreg

end ReactorHandle

namespace Reactor

variable {r r' : Reactor W} {deadline raw : UInt64} {waker : W}

/-- What polls rely on, and every call of the thread keeps. -/
structure Kept (r : Reactor W) : Prop where
  consistent : r.Consistent
  /-- A timer that is marked is in the wheel. -/
  marked : ∀ rid d, r.pendingDeregister = some (rid, d) → r.wheel.live rid = some d
  /-- The wheel is not ahead of the cached clock. -/
  elapsed : r.wheel.elapsed ≤ r.cachedNow.getD 0

theorem kept_new (cachedNow : Option UInt64) : Kept { (new : Reactor W) with cachedNow } := by
  have h := consistent_new (W := W)
  refine ⟨⟨h.wheel_wf, h.settled, h.agrees, h.fresh⟩, ?_, UInt64.zero_le⟩
  rintro rid d ⟨⟩

theorem Kept.tuned (h : r.Kept) (htuned : r.Tuned r')
    (hmarked : ∀ rid d, r'.pendingDeregister = some (rid, d) → r'.wheel.live rid = some d) :
    r'.Kept := by
  refine ⟨htuned.consistent, hmarked, ?_⟩
  rw [htuned.elapsed, htuned.cachedNow]
  exact h.elapsed

/-- What a poll registers is ahead of the wheel. -/
theorem Kept.elapsed_lt (h : r.Kept) (hlt : ¬ deadline ≤ Sleep.clock r raw) :
    r.wheel.elapsed < deadline := by
  refine UInt64.lt_of_le_of_lt h.elapsed (UInt64.lt_of_le_of_lt ?_ (UInt64.not_le.mp hlt))
  rw [Sleep.clock]
  cases r.cachedNow with
  | none => exact UInt64.zero_le
  | some now => exact UInt64.le_refl _

theorem Kept.deregisterTimer (h : r.Kept) (rid : UInt64) :
    (ReactorHandle.deregisterTimer r rid).Kept := by
  obtain ⟨htuned, -, -, hcase⟩ := ReactorHandle.deregisterTimer_spec h.consistent rid
  refine h.tuned htuned fun k d hp => ?_
  rcases hcase with ⟨t, -, ht, hget, hpending⟩ | ⟨-, -, hnone⟩
  · rw [hpending] at hp
    cases hp
    rw [htuned.consistent.agrees rid, timerSlot_congr hget, ht]
    rfl
  · rw [hnone] at hp
    cases hp

theorem Kept.disarm (h : r.Kept) (k : SleepKernel) :
    (Sleep.disarm k r).Kept ∧ r.Tuned (Sleep.disarm k r) := by
  rw [Sleep.disarm]
  split
  · exact ⟨h.deregisterTimer _, (ReactorHandle.deregisterTimer_spec h.consistent _).1⟩
  · exact ⟨h, .refl h.consistent⟩

/-- A park, and the flush before it, keep what polls rely on, whatever the clock reads. -/
theorem Kept.park (h : r.Kept) {timeout : Option UInt64} {poll : Except IoError (List MioEvent)}
    {res : Except IoError Unit}
    (hpark : r.flushPendingDeregister.park timeout raw poll = some (res, r')) : r'.Kept := by
  obtain ⟨htuned, hpending, -, -⟩ := flush_spec h.consistent
  obtain ⟨helapsed, hcached, hpending'⟩ := park_clock htuned.consistent hpark
  refine ⟨(htuned.consistent.park hpark).consistent, fun k d hk => ?_, ?_⟩
  · rw [hpending', hpending] at hk
    cases hk
  · rw [helapsed, hcached]
    exact UInt64.le_refl _

end Reactor

end Lion
