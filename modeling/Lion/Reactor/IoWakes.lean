import Lion.Time.Sleep

/-!
# I/O wakes follow `set_waker`

The reactor wakes on behalf of an I/O resource when it processes an event: the waker that is stored
for the resource and the direction of the event, which stays stored. The two wakers of a resource
share a slot of the slab, and slots of I/O resources share the slab with those of timers.

What should be woken can be said without the slab. `Watched` comes with a table of the I/O resources
that are registered, and of the waker that was set last for each direction since. The reactor does
what the table says.

## How the proof is cut

Most calls are about timers, and what has to be said of those is that they leave I/O resources
alone. `Timed` is that statement, from a reactor to a later one; it composes, and one lemma turns it
into a step of the table (`Faithful.timed`). What remains are four calls: registering and
deregistering an I/O resource, setting a waker, and the events of a park. Each changes the table in
one place, and has a lemma about the slab that says the same of it.

The two kinds of resource can be told apart only because they do not share ids (`Apart`). An id in
the wheel, or one whose deregistration is put off, is never that of an I/O resource.

## Conventions

The calls are those of `Reactor` and those of `ReactorHandle` for timers, which put deregistrations
off. `deregister_timer` is not called with the id of an I/O resource. Other calls have any
arguments, and the operating system may answer anything.

## Main results

* `Reactor.park_io` — the calls that a park leads to
* `Watched.step_faithful` — every call keeps slab and table in agreement
* `Watched.reachable_ioWakes` — events wake the wakers of the table, each once
-/

namespace Lion

variable {W : Type}

/-- Whether the interest is in that direction, among others. -/
def Interest.covers (interest : Interest) : IoMode → Bool
  | .readable => interest.readable
  | .writable => interest.writable

namespace Reactor

variable {r r' : Reactor W} {s s' : ResourceSlab W} {rid k : UInt64}

/-! ### The slots of I/O resources -/

/-- A slot is emptied, and with it the wakers of the resource, if it was that of an I/O resource. -/
theorem ioSlot_remove (hget : ∀ k, s'.get k = if k = rid then none else s.get k) (k : UInt64) :
    ioSlot s' k = Function.update (ioSlot s) rid none k := by
  by_cases hk : k = rid
  · rw [hk, Function.update_self]
    exact ioSlot_of_none ((hget rid).trans (if_pos rfl))
  · rw [Function.update_of_ne hk]
    exact ioSlot_congr ((hget k).trans (if_neg hk))

/-- Replacing the waker of a timer changes no wakers of I/O resources, and fills no slot. -/
theorem replaceTimerWaker_spec (s : ResourceSlab W) (rid : UInt64) (waker : W) :
    (∀ k, ioSlot (ResourceSlab.replaceTimerWaker s rid waker).2 k = ioSlot s k) ∧
      ∀ k slot, (ResourceSlab.replaceTimerWaker s rid waker).2.get k = some slot →
        ∃ slot', s.get k = some slot' := by
  rw [ResourceSlab.replaceTimerWaker]
  split
  · rename_i entry old hslot
    have hget : ∀ k, (s.insert rid (.timer entry waker)).get k =
        if k = rid then some (.timer entry waker) else s.get k := Slab.get_insert _ _ _
    refine ⟨fun k => ?_, fun k slot hk => ?_⟩
    · by_cases heq : k = rid
      · rw [ioSlot_of_timer ((hget k).trans (if_pos heq)), heq, ioSlot_of_timer hslot]
      · exact ioSlot_congr ((hget k).trans (if_neg heq))
    · by_cases heq : k = rid
      · exact ⟨_, heq ▸ hslot⟩
      · exact ⟨slot, ((hget k).trans (if_neg heq)).symm.trans hk⟩
  · exact ⟨fun _ => rfl, fun k slot hk => ⟨slot, hk⟩⟩

/-! ### Timers -/

/-- The id is that of a timer: it is in the wheel, or its deregistration is put off. -/
def TimerId (r : Reactor W) (k : UInt64) : Prop :=
  (∃ deadline, r.wheel.deadlines.get k = some deadline) ∨ r.Marked k

/-- Without a deregistration that is put off, it is in the wheel. -/
theorem timerId_unmark (h : ({ r with pendingDeregister := none } : Reactor W).TimerId k) :
    ∃ deadline, r.wheel.deadlines.get k = some deadline := by
  rcases h with hwheel | ⟨_, hnone⟩
  · exact hwheel
  · cases hnone

/-- Timers and I/O resources do not share ids. -/
structure Apart (r : Reactor W) : Prop where
  fresh : ∀ k slot, r.resources.get k = some slot → k < r.nextResourceId
  timerId : ∀ k, r.TimerId k → k < r.nextResourceId ∧ ioSlot r.resources k = none

/-- `r'` comes from `r` by something done to timers only. -/
structure Timed (r r' : Reactor W) : Prop where
  apart : Apart r'
  io : ∀ k, ioSlot r'.resources k = ioSlot r.resources k
  next_le : r.nextResourceId ≤ r'.nextResourceId

theorem Timed.refl (h : Apart r) : Timed r r := ⟨h, fun _ => rfl, UInt64.le_refl _⟩

theorem Timed.trans {r₁ r₂ r₃ : Reactor W} (h : Timed r₁ r₂) (h' : Timed r₂ r₃) : Timed r₁ r₃ :=
  ⟨h'.apart, fun k => (h'.io k).trans (h.io k), UInt64.le_trans h.next_le h'.next_le⟩

/-- A slot without wakers of an I/O resource is emptied, and the wheel only loses deadlines. -/
theorem Apart.removeSlot (h : Apart r) {resources : ResourceSlab W}
    (hrid : ioSlot r.resources rid = none)
    (hget : ∀ k, resources.get k = if k = rid then none else r.resources.get k)
    (hnext : r'.nextResourceId = r.nextResourceId) (hres : r'.resources = resources)
    (hids : ∀ k, r'.TimerId k → r.TimerId k) : Timed r r' := by
  have hio : ∀ k, ioSlot r'.resources k = ioSlot r.resources k := by
    intro k
    rw [hres, ioSlot_remove hget, Function.update_eq_self_iff.mpr hrid.symm]
  refine ⟨⟨fun k slot hslot => ?_, fun k hk => ?_⟩, hio, UInt64.le_of_eq hnext.symm⟩
  · have hsome := (hget k).symm.trans (hres ▸ hslot)
    split at hsome
    · cases hsome
    · exact hnext ▸ h.fresh k slot hsome
  · rw [hnext, hio]
    exact h.timerId k (hids k hk)

/-- The slab is left alone, and the wheel only loses deadlines. -/
theorem Apart.sameSlots (h : Apart r) (hres : r'.resources = r.resources)
    (hnext : r'.nextResourceId = r.nextResourceId) (hids : ∀ k, r'.TimerId k → r.TimerId k) :
    Timed r r' := by
  refine ⟨⟨fun k slot hslot => ?_, fun k hk => ?_⟩, fun k => by rw [hres],
    UInt64.le_of_eq hnext.symm⟩
  · rw [hnext]
    exact h.fresh k slot (hres ▸ hslot)
  · rw [hnext, hres]
    exact h.timerId k (hids k hk)

theorem timed_deregisterTimer (h : Apart r) (hrid : ioSlot r.resources rid = none) :
    Timed r (r.deregisterTimer rid) := by
  refine h.removeSlot hrid (ResourceSlab.get_removeTimerSlot _ _) rfl rfl fun k hk => ?_
  refine hk.imp_left ?_
  rintro ⟨deadline, hd⟩
  have hsome := (TimerWheel.get_deadlines_remove _ _ _).symm.trans hd
  split at hsome
  · cases hsome
  · exact ⟨deadline, hsome⟩

theorem timed_flush (h : Apart r) :
    Timed r r.flushPendingDeregister ∧ r.flushPendingDeregister.log = r.log := by
  rw [flushPendingDeregister]
  split
  · rename_i rid deadline hp
    have hrid := (h.timerId rid (.inr ⟨deadline, hp⟩)).2
    have hunmark : Timed r { r with pendingDeregister := none } :=
      h.sameSlots rfl rfl fun k hk => .inl (timerId_unmark hk)
    exact ⟨hunmark.trans (timed_deregisterTimer hunmark.apart hrid), rfl⟩
  · exact ⟨.refl h, rfl⟩

/-- An id that was just handed out is that of no timer, and of no I/O resource. -/
theorem Apart.next (h : Apart r) :
    ¬ r.TimerId r.nextResourceId ∧ r.resources.get r.nextResourceId = none := by
  refine ⟨fun hk => UInt64.lt_irrefl _ (h.timerId _ hk).1, ?_⟩
  cases hget : r.resources.get r.nextResourceId with
  | none => rfl
  | some slot => exact absurd (h.fresh _ _ hget) (UInt64.lt_irrefl _)

theorem timed_registerTimer (h : Apart r) (deadline : UInt64) (waker : W) :
    Timed r (r.registerTimer deadline waker).2 ∧
      (r.registerTimer deadline waker).2.log = r.log := by
  rw [registerTimer]
  obtain heq | ⟨hlt, heq⟩ := allocResourceId_cases r
  · rw [heq]
    exact ⟨.refl h, rfl⟩
  · rw [heq]
    have hget := ResourceSlab.get_insertTimerSlot r.resources r.nextResourceId
      ⟨deadline, r.nextResourceId⟩ waker
    have hio : ∀ k, ioSlot (ResourceSlab.insertTimerSlot r.resources r.nextResourceId
        ⟨deadline, r.nextResourceId⟩ waker) k = ioSlot r.resources k := by
      intro k
      by_cases hk : k = r.nextResourceId
      · rw [ioSlot_of_timer ((hget k).trans (if_pos hk)), hk, ioSlot_of_none h.next.2]
      · exact ioSlot_congr ((hget k).trans (if_neg hk))
    refine ⟨⟨⟨fun k slot hslot => ?_, fun k hk => ?_⟩, hio, UInt64.le_of_lt hlt⟩, rfl⟩
    · have hsome := (hget k).symm.trans hslot
      split at hsome
      · rename_i hk
        exact hk ▸ hlt
      · exact UInt64.lt_trans (h.fresh k slot hsome) hlt
    · by_cases heqk : k = r.nextResourceId
      · refine ⟨heqk ▸ hlt, (hio k).trans ?_⟩
        rw [heqk, ioSlot_of_none h.next.2]
      · have hold : r.TimerId k := by
          refine hk.imp_left ?_
          rintro ⟨d, hd⟩
          refine ⟨d, ?_⟩
          rw [← hd, TimerWheel.deadlines_insert, VecMap.get_insert, if_neg heqk]
        exact ⟨UInt64.lt_trans (h.timerId k hold).1 hlt, (hio k).trans (h.timerId k hold).2⟩

theorem timed_handleDeregister (h : Apart r) (hrid : ioSlot r.resources rid = none) :
    Timed r (ReactorHandle.deregisterTimer r rid) ∧
      (ReactorHandle.deregisterTimer r rid).log = r.log := by
  obtain ⟨htimed, hlog⟩ := timed_flush h
  have hrid' := (htimed.io rid).trans hrid
  rw [ReactorHandle.deregisterTimer]
  split
  · rename_i deadline hd
    refine ⟨⟨⟨htimed.apart.fresh, fun k hk => ?_⟩, htimed.io, htimed.next_le⟩, hlog⟩
    rcases hk with hwheel | ⟨_, hmarked⟩
    · exact htimed.apart.timerId k (.inl hwheel)
    · cases hmarked
      exact htimed.apart.timerId rid (.inl ⟨deadline, hd⟩)
  · exact ⟨htimed.trans (timed_deregisterTimer htimed.apart hrid'), hlog⟩

theorem timed_handleRegister (h : Apart r) (deadline : UInt64) (waker : W) :
    Timed r (ReactorHandle.registerTimer r deadline waker).2 ∧
      (ReactorHandle.registerTimer r deadline waker).2.log = r.log := by
  have hslow : Timed r (r.flushPendingDeregister.registerTimer deadline waker).2 ∧
      (r.flushPendingDeregister.registerTimer deadline waker).2.log = r.log := by
    obtain ⟨htimed, hlog⟩ := timed_flush h
    obtain ⟨htimed', hlog'⟩ := timed_registerTimer htimed.apart deadline waker
    exact ⟨htimed.trans htimed', hlog'.trans hlog⟩
  rw [flushPendingDeregister] at hslow
  rw [ReactorHandle.registerTimer]
  cases hp : r.pendingDeregister with
  | none =>
    rw [hp] at hslow
    exact hslow
  | some p =>
    obtain ⟨rid, old⟩ := p
    rw [hp] at hslow
    dsimp only at hslow ⊢
    split
    · -- the timer is taken over
      obtain ⟨hio, hused⟩ := replaceTimerWaker_spec r.resources rid waker
      refine ⟨⟨⟨fun k slot hslot => ?_, fun k hk => ?_⟩, hio, UInt64.le_refl _⟩, rfl⟩
      · obtain ⟨slot', hslot'⟩ := hused k slot hslot
        exact h.fresh k slot' hslot'
      · have hold : r.TimerId k := .inl (timerId_unmark hk)
        exact ⟨(h.timerId k hold).1, (hio k).trans (h.timerId k hold).2⟩
    · exact hslow

/-- The loop that wakes timers leaves I/O resources alone, and the wakers set for them. -/
theorem wakeExpiredTimers_timed {now : UInt64} {fuel : ℕ} (h : Apart r)
    (hfuel : r.wheel.deadlines.occupancy < fuel) :
    ∃ (wakes : List (W × UInt64)) (r' : Reactor W), wakeExpiredTimers now fuel r = some r' ∧
      Timed r r' ∧ r'.log = r.log ++ wakes.map (fun x => .wakeTask x.1 x.2) ∧
      ∀ w k, (w, k) ∈ wakes → ioSlot r.resources k = none := by
  induction fuel generalizing r with
  | zero => omega
  | succ fuel ih =>
    rw [wakeExpiredTimers]
    obtain ⟨wheel, hpop, hsame⟩ | ⟨rid, d, wheel, hpop, hd, hremove⟩ :=
      r.wheel.tryPopExpired_cases now
    · rw [hpop]
      have hids : ∀ k, ({ r with wheel } : Reactor W).TimerId k → r.TimerId k := by
        rintro k (⟨d, hd⟩ | hmarked)
        · exact .inl ⟨d, hsame ▸ hd⟩
        · exact .inr hmarked
      exact ⟨[], { r with wheel }, rfl, h.sameSlots rfl rfl hids, by simp, by simp⟩
    · rw [hpop]
      dsimp only
      have hrid := (h.timerId rid (.inl ⟨d, hd⟩)).2
      have hids : ∀ k, ({ r with wheel } : Reactor W).TimerId k → r.TimerId k := by
        rintro k (⟨d', hd'⟩ | hmarked)
        · have hsome := (VecMap.get_remove _ _ _).symm.trans (hremove ▸ hd')
          split at hsome
          · cases hsome
          · exact .inl ⟨d', hsome⟩
        · exact .inr hmarked
      have hfewer : wheel.deadlines.occupancy < fuel := by
        have hcount := VecMap.occupancy_remove hd
        rw [← hremove] at hcount
        omega
      split
      · rename_i waker hwaker
        have hstep : Timed r ({ r with
            wheel
            resources := ResourceSlab.removeTimerSlot r.resources rid
            log := r.log ++ [.wakeTask waker rid] }) :=
          h.removeSlot hrid (ResourceSlab.get_removeTimerSlot _ _) rfl rfl hids
        obtain ⟨wakes, r', hloop, htimed, hlog, hwakes⟩ := ih hstep.apart hfewer
        refine ⟨(waker, rid) :: wakes, r', hloop, hstep.trans htimed, ?_, fun w k hmem => ?_⟩
        · rw [hlog]
          simp
        · rcases List.mem_cons.mp hmem with heq | hmem
          · cases heq
            exact hrid
          · exact (hstep.io k).symm.trans (hwakes w k hmem)
      · have hstep : Timed r { r with wheel } := h.sameSlots rfl rfl hids
        obtain ⟨wakes, r', hloop, htimed, hlog, hwakes⟩ := ih hstep.apart hfewer
        exact ⟨wakes, r', hloop, hstep.trans htimed, hlog, hwakes⟩

/-! ### I/O resources -/

theorem ioSlot_of_io {readWaker writeWaker : Option W} {wakers : IoMode → Option W}
    (h : s.get k = some (.io readWaker writeWaker)) (hread : wakers .readable = readWaker)
    (hwrite : wakers .writable = writeWaker) : ioSlot s k = some wakers := by
  rw [ioSlot, h]
  refine congrArg some (funext fun mode => ?_)
  cases mode with
  | readable => exact hread.symm
  | writable => exact hwrite.symm

/-- Rebuilding a slot that is there, with something that can be rebuilt in it. -/
theorem rebuild_spec {f : ResourceSlot W → Option (ResourceSlot W)} {old new : ResourceSlot W}
    (hold : s.get rid = some old) (hnew : f old = some new) :
    ∃ s', ResourceSlab.rebuild s rid f = some s' ∧
      ∀ k, s'.get k = if k = rid then some new else s.get k := by
  have hsome : ∃ s', ResourceSlab.rebuild s rid f = some s' := by
    simp [ResourceSlab.rebuild, Slab.remove_fst, hold, hnew]
  obtain ⟨s', hrebuild⟩ := hsome
  obtain ⟨old', new', hold', hnew', hget⟩ := ResourceSlab.rebuild_eq_some hrebuild
  cases hold.symm.trans hold'
  cases hnew.symm.trans hnew'
  exact ⟨s', hrebuild, hget⟩

/-- **`set_waker`** sets the wakers of the directions that it is given, and nothing else. -/
theorem setWaker_spec {wakers : IoMode → Option W} (h : ioSlot r.resources rid = some wakers)
    (interest : Interest) (waker : W) :
    ∃ resources, r.setWaker rid interest waker = some { r with resources } ∧
      (∀ k, k ≠ rid → resources.get k = r.resources.get k) ∧
      ioSlot resources rid =
        some fun mode => if interest.covers mode then some waker else wakers mode := by
  have hslot := ioSlot_eq_some h
  obtain ⟨readable, writable⟩ := interest
  obtain ⟨s₁, hread, hget₁⟩ : ∃ s₁, (if readable then
      ResourceSlab.setReadWaker r.resources rid waker else some r.resources) = some s₁ ∧
      ∀ k, s₁.get k = if k = rid then some (.io (if readable then some waker else
        wakers .readable) (wakers .writable)) else r.resources.get k := by
    cases readable with
    | false =>
      refine ⟨r.resources, rfl, fun k => ?_⟩
      split
      · rename_i hk
        exact hk ▸ hslot
      · rfl
    | true => exact rebuild_spec hslot rfl
  obtain ⟨s₂, hwrite, hget₂⟩ : ∃ s₂, (if writable then
      ResourceSlab.setWriteWaker s₁ rid waker else some s₁) = some s₂ ∧
      ∀ k, s₂.get k = if k = rid then some (.io (if readable then some waker else
        wakers .readable) (if writable then some waker else wakers .writable)) else s₁.get k := by
    have hslot₁ := (hget₁ rid).trans (if_pos rfl)
    cases writable with
    | false =>
      refine ⟨s₁, rfl, fun k => ?_⟩
      split
      · rename_i hk
        exact hk ▸ hslot₁
      · rfl
    | true => exact rebuild_spec hslot₁ rfl
  refine ⟨s₂, ?_, fun k hk => ?_, ioSlot_of_io ((hget₂ rid).trans (if_pos rfl)) rfl rfl⟩
  · have hbind : r.setWaker rid ⟨readable, writable⟩ waker =
        (if readable then ResourceSlab.setReadWaker r.resources rid waker
          else some r.resources).bind fun s =>
            (if writable then ResourceSlab.setWriteWaker s rid waker else some s).bind fun s =>
              some { r with resources := s } := by
      cases readable <;> cases writable <;> rfl
    rw [hbind, hread, Option.bind_some, hwrite, Option.bind_some]
  · rw [hget₂, if_neg hk, hget₁, if_neg hk]

/-- What a call of `set_waker` does that does not panic. -/
theorem ioSlot_setWaker {interest : Interest} {waker : W}
    (h : r.setWaker rid interest waker = some r') :
    ∃ resources, r' = { r with resources } ∧
      (∀ k, k ≠ rid → resources.get k = r.resources.get k) ∧
      ioSlot resources rid = (ioSlot r.resources rid).map fun wakers mode =>
        if interest.covers mode then some waker else wakers mode := by
  cases hio : ioSlot r.resources rid with
  | some wakers =>
    obtain ⟨resources, hset, hother, hnew⟩ := setWaker_spec hio interest waker
    cases hset.symm.trans h
    exact ⟨resources, rfl, hother, hnew⟩
  | none =>
    rcases setWaker_cases h with rfl | ⟨resources, rw, ww, -, -, rfl, hslot, -⟩
    · exact ⟨r'.resources, rfl, fun _ _ => rfl, hio⟩
    · rw [ioSlot, hslot] at hio
      cases hio

/-- The wakers of I/O resources after a registration that returns this. -/
def registered (wakers : UInt64 → Option (IoMode → Option W)) :
    Except IoError UInt64 → UInt64 → Option (IoMode → Option W)
  | .ok rid => Function.update wakers rid (some fun _ => none)
  | .error _ => wakers

/-- An id that was handed out before is not affected. -/
theorem registered_of_lt {wakers : UInt64 → Option (IoMode → Option W)}
    {res : Except IoError UInt64} {next : UInt64} (hrid : ∀ rid, res = .ok rid → rid = next)
    (hk : k < next) : registered wakers res k = wakers k := by
  cases res with
  | error e => rfl
  | ok rid =>
    refine Function.update_of_ne ?_ _ _
    rintro rfl
    exact UInt64.lt_irrefl _ (hrid k rfl ▸ hk)

/-- Registering an I/O resource, or failing to, in terms of the table. -/
theorem ioSlot_registerIoResource (h : Apart r) (interest : Interest)
    (osResult : Except IoError Unit) :
    Apart (r.registerIoResource interest osResult).2 ∧
      r.nextResourceId ≤ (r.registerIoResource interest osResult).2.nextResourceId ∧
      (∀ k, ioSlot (r.registerIoResource interest osResult).2.resources k =
        registered (ioSlot r.resources) (r.registerIoResource interest osResult).1 k) ∧
      (∀ rid, (r.registerIoResource interest osResult).1 = .ok rid → rid = r.nextResourceId) ∧
      ∃ seg, (r.registerIoResource interest osResult).2.log = r.log ++ seg ∧
        ∀ w rid, OutboundCall.wakeTask w rid ∉ seg := by
  rw [registerIoResource]
  obtain heq | ⟨hlt, heq⟩ := allocResourceId_cases r
  · rw [heq]
    exact ⟨h, UInt64.le_refl _, fun _ => rfl, by simp, [], by simp, by simp⟩
  · rw [heq]
    cases osResult with
    | error e =>
      refine ⟨⟨fun k slot hslot => UInt64.lt_trans (h.fresh k slot hslot) hlt, fun k hk => ?_⟩,
        UInt64.le_of_lt hlt, fun _ => rfl, by simp, _, rfl, by simp⟩
      exact ⟨UInt64.lt_trans (h.timerId k hk).1 hlt, (h.timerId k hk).2⟩
    | ok u =>
      have hget := ResourceSlab.get_insertIoSlot r.resources r.nextResourceId
      have hio : ∀ k, ioSlot (ResourceSlab.insertIoSlot r.resources r.nextResourceId) k =
          Function.update (ioSlot r.resources) r.nextResourceId (some fun _ => none) k := by
        intro k
        by_cases hk : k = r.nextResourceId
        · rw [hk, Function.update_self]
          exact ioSlot_of_io ((hget _).trans (if_pos rfl)) rfl rfl
        · rw [Function.update_of_ne hk]
          exact ioSlot_congr ((hget k).trans (if_neg hk))
      refine ⟨⟨fun k slot hslot => ?_, fun k hk => ?_⟩, UInt64.le_of_lt hlt, hio, ?_, _, rfl,
        by simp⟩
      · have hsome := (hget k).symm.trans hslot
        split at hsome
        · rename_i hk
          exact hk ▸ hlt
        · exact UInt64.lt_trans (h.fresh k slot hsome) hlt
      · have hne : k ≠ r.nextResourceId := fun heqk => h.next.1 (heqk ▸ hk)
        refine ⟨UInt64.lt_trans (h.timerId k hk).1 hlt, (hio k).trans ?_⟩
        rw [Function.update_of_ne hne, (h.timerId k hk).2]
      · intro rid hrid
        cases hrid
        rfl

/-- The wakers of I/O resources after one is deregistered, whatever the operating system says. -/
theorem ioSlot_deregisterIoResource (h : Apart r) (rid : UInt64) (osResult : Except IoError Unit) :
    Apart (r.deregisterIoResource rid osResult).2 ∧
      (∀ k, ioSlot (r.deregisterIoResource rid osResult).2.resources k =
        Function.update (ioSlot r.resources) rid none k) ∧
      ∃ seg, (r.deregisterIoResource rid osResult).2.log = r.log ++ seg ∧
        ∀ w rid, OutboundCall.wakeTask w rid ∉ seg := by
  have hget := ResourceSlab.get_removeIoSlot r.resources rid
  have hio := ioSlot_remove hget
  refine ⟨⟨fun k slot hslot => ?_, fun k hk => ?_⟩, hio, _, rfl, by simp⟩
  · have hsome := (hget k).symm.trans hslot
    split at hsome
    · cases hsome
    · exact h.fresh k slot hsome
  · refine ⟨(h.timerId k hk).1, (hio k).trans ?_⟩
    by_cases heq : k = rid
    · rw [heq, Function.update_self]
    · rw [Function.update_of_ne heq, (h.timerId k hk).2]

/-- A call of `set_waker` that does not panic keeps the two kinds of resource apart. -/
theorem Apart.setWaker (h : Apart r) {interest : Interest} {waker : W}
    (hset : r.setWaker rid interest waker = some r') : Apart r' := by
  obtain ⟨resources, rfl, hother, hnew⟩ := ioSlot_setWaker hset
  refine ⟨fun k slot hslot => ?_, fun k hk => ⟨(h.timerId k hk).1, ?_⟩⟩
  · by_cases heq : k = rid
    · subst heq
      rcases setWaker_cases hset with hsame | ⟨_, rw, ww, -, -, -, hold, -⟩
      · rw [hsame] at hslot
        exact h.fresh k slot hslot
      · exact h.fresh k _ hold
    · exact h.fresh k slot ((hother k heq).symm.trans hslot)
  · by_cases heq : k = rid
    · subst heq
      exact hnew.trans (Option.map_eq_none_iff.mpr (h.timerId k hk).2)
    · exact (ioSlot_congr (hother k heq)).trans (h.timerId k hk).2

/-! ### Parking -/

/-- The calls that the answer to a poll leads to, if these are the wakers. -/
def pollCalls (wakers : UInt64 → Option (IoMode → Option W)) :
    Except IoError (List MioEvent) → List (OutboundCall W)
  | .ok events => (collectIoEvents events).flatMap (eventCalls wakers)
  | .error _ => []

/-- **A park** returns, and wakes on behalf of timers, and of events by the wakers there are. -/
theorem park_io (h : Apart r) (timeout : Option UInt64) (raw : UInt64)
    (poll : Except IoError (List MioEvent)) :
    ∃ (wakes : List (W × UInt64)) (r' : Reactor W),
      r.park timeout raw poll = some (poll.map fun _ => (), r') ∧ Timed r r' ∧
      (∀ w k, (w, k) ∈ wakes → ioSlot r.resources k = none) ∧
      r'.log = r.log ++ [.getCurrentTime (r.getCurrentTime raw).1,
        .pollEvents (effectiveTimeout timeout r.nextDeadline (r.getCurrentTime raw).1)] ++
        wakes.map (fun x => .wakeTask x.1 x.2) ++ pollCalls (ioSlot r.resources) poll := by
  set now := (r.getCurrentTime raw).1
  have hbefore : Timed r ({ r with
      cachedNow := some now
      log := r.log ++ [.getCurrentTime now] ++
        [.pollEvents (effectiveTimeout timeout r.nextDeadline now)] }) :=
    h.sameSlots rfl rfl fun _ hk => hk
  obtain ⟨wakes, r₁, hloop, htimed, hlog, hwakes⟩ :=
    @wakeExpiredTimers_timed _ _ now _ hbefore.apart (Nat.lt_succ_self _)
  have hsame : ioSlot r₁.resources = ioSlot r.resources := funext htimed.io
  cases poll with
  | error e =>
    refine ⟨wakes, r₁, ?_, hbefore.trans htimed, hwakes, ?_⟩
    · exact congrArg (Option.bind · fun r => some (Except.error e, r)) hloop
    · rw [hlog]
      simp [pollCalls]
  | ok events =>
    obtain ⟨readiness, hio⟩ := processIoEvents_eq r₁ (collectIoEvents events)
    have hafter : Timed r₁ (r₁.processIoEvents (collectIoEvents events)) := by
      rw [hio]
      exact htimed.apart.sameSlots rfl rfl fun _ hk => hk
    refine ⟨wakes, _, ?_, hbefore.trans (htimed.trans hafter), hwakes, ?_⟩
    · exact congrArg (Option.bind · fun r =>
        some (Except.ok (), r.processIoEvents (collectIoEvents events))) hloop
    · rw [hio, hlog, hsame]
      simp [pollCalls]

end Reactor

/-! ### What should be woken -/

/-- A reactor, and the wakers that should be called for what is reported. -/
structure Watched (W : Type) where
  reactor : Reactor W
  /-- For an I/O resource that is registered, the waker that was set last for each direction. -/
  wakers : UInt64 → Option (IoMode → Option W)

namespace Watched

/-- A call, with what the world outside answers to it: of `Reactor` itself, or of `ReactorHandle`,
whose `register_timer` and `deregister_timer` put a deregistration off and take it up again. -/
inductive Call (W : Type)
  | op (op : Reactor.Op W)
  | registerTimer (deadline : UInt64) (waker : W)
  | deregisterTimer (rid : UInt64)
  | flushPendingDeregister

/-- The reactor after a call; `none` if the call panics. -/
def call (r : Reactor W) : Call W → Option (Reactor W)
  | .op op => r.call op
  | .registerTimer deadline waker => some (ReactorHandle.registerTimer r deadline waker).2
  | .deregisterTimer rid => some (ReactorHandle.deregisterTimer r rid)
  | .flushPendingDeregister => some r.flushPendingDeregister

/-- What should be woken after a call, from its arguments and its answer alone. -/
def note (s : Watched W) : Call W → UInt64 → Option (IoMode → Option W)
  | .op (.registerIoResource interest osResult) =>
    Reactor.registered s.wakers (s.reactor.registerIoResource interest osResult).1
  | .op (.deregisterIoResource rid _) => Function.update s.wakers rid none
  | .op (.setWaker rid interest waker) =>
    Function.update s.wakers rid ((s.wakers rid).map fun wakers mode =>
      if interest.covers mode then some waker else wakers mode)
  | .op (.registerTimer _ _) | .op (.deregisterTimer _) | .op (.park _ _ _) | .registerTimer _ _
  | .deregisterTimer _ | .flushPendingDeregister => s.wakers

/-- No I/O resource is deregistered as a timer. Nothing else is asked of callers. -/
def Permits (s : Watched W) : Call W → Prop
  | .op (.deregisterTimer rid) | .deregisterTimer rid => s.wakers rid = none
  | .op (.registerTimer _ _) | .op (.registerIoResource _ _) | .op (.deregisterIoResource _ _)
  | .op (.setWaker _ _ _) | .op (.park _ _ _) | .registerTimer _ _ | .flushPendingDeregister => True

/-- A reactor and its callers: `Reactor::new`, on a thread with any flags and clock, then any
permitted calls that do not panic. -/
def machine (W : Type) : Machine (Watched W) (Call W) where
  init s := ∃ readiness cachedNow,
    s = ⟨{ (Reactor.new : Reactor W) with readiness, cachedNow }, fun _ => none⟩
  step s c s' := s.Permits c ∧ ∃ r, call s.reactor c = some r ∧ s' = ⟨r, s.note c⟩

/-- Slab and table agree, and the two kinds of resource are apart. -/
structure Faithful (s : Watched W) : Prop where
  apart : s.reactor.Apart
  agrees : ∀ k, Reactor.ioSlot s.reactor.resources k = s.wakers k

variable {s s' : Watched W} {c : Call W} {rid : UInt64}

theorem Faithful.agrees_eq (h : s.Faithful) : Reactor.ioSlot s.reactor.resources = s.wakers :=
  funext h.agrees

theorem faithful_init (h : (machine W).init s) : s.Faithful := by
  obtain ⟨readiness, cachedNow, rfl⟩ := h
  refine ⟨⟨fun k slot hslot => ?_, fun k hk => ?_⟩, fun k => ?_⟩
  · cases (Slab.get_new k).symm.trans hslot
  · rcases hk with ⟨d, hd⟩ | ⟨d, hd⟩
    · cases (VecMap.get_new k).symm.trans hd
    · cases hd
  · exact Reactor.ioSlot_of_none (Slab.get_new k)

/-- Something that is done to timers is no step of the table. -/
theorem Faithful.timed {r : Reactor W} (h : s.Faithful) (htimed : s.reactor.Timed r) :
    Faithful ⟨r, s.wakers⟩ :=
  ⟨htimed.apart, fun k => (htimed.io k).trans (h.agrees k)⟩

/-- What a call does, as far as the table is concerned. -/
structure Progress (s : Watched W) (c : Call W) (s' : Watched W) : Prop where
  faithful : s'.Faithful
  next_le : s.reactor.nextResourceId ≤ s'.reactor.nextResourceId
  /-- An id that has been handed out and is not that of an I/O resource does not become one. -/
  gone : ∀ k, k < s.reactor.nextResourceId → s.wakers k = none → s'.wakers k = none
  silent : (∀ timeout raw poll, c ≠ .op (.park timeout raw poll)) →
    ∃ seg, s'.reactor.log = s.reactor.log ++ seg ∧ ∀ w k, OutboundCall.wakeTask w k ∉ seg

theorem exists_silent_of_eq {log log' : List (OutboundCall W)} (h : log' = log) :
    ∃ seg, log' = log ++ seg ∧ ∀ w k, OutboundCall.wakeTask w k ∉ seg :=
  ⟨[], by simp [h], by simp⟩

/-- A call that is about timers does all of this, since it leaves I/O resources alone. -/
theorem Progress.timed {r : Reactor W} (h : s.Faithful)
    (htimed : s.reactor.Timed r ∧ r.log = s.reactor.log) : Progress s c ⟨r, s.wakers⟩ :=
  ⟨h.timed htimed.1, htimed.1.next_le, fun _ _ hk => hk, fun _ => exists_silent_of_eq htimed.2⟩

/-- **One call** keeps slab and table in agreement, and wakes nobody unless it is a park. -/
theorem step_faithful (h : s.Faithful) (hstep : (machine W).step s c s') : Progress s c s' := by
  obtain ⟨hperm, r, hcall, rfl⟩ := hstep
  cases c with
  | op op =>
    cases op with
    | registerTimer deadline waker =>
      cases hcall
      exact .timed h (Reactor.timed_registerTimer h.apart deadline waker)
    | deregisterTimer rid =>
      cases hcall
      exact .timed h ⟨Reactor.timed_deregisterTimer h.apart ((h.agrees rid).trans hperm), rfl⟩
    | registerIoResource interest osResult =>
      cases hcall
      obtain ⟨hapart, hle, hio, hrid, hlog⟩ :=
        Reactor.ioSlot_registerIoResource h.apart interest osResult
      rw [h.agrees_eq] at hio
      exact ⟨⟨hapart, hio⟩, hle, fun k hk hnone =>
        (Reactor.registered_of_lt hrid hk).trans hnone, fun _ => hlog⟩
    | deregisterIoResource rid osResult =>
      cases hcall
      obtain ⟨hapart, hio, hlog⟩ := Reactor.ioSlot_deregisterIoResource h.apart rid osResult
      rw [h.agrees_eq] at hio
      refine ⟨⟨hapart, hio⟩, UInt64.le_refl _, fun k _ hnone => ?_, fun _ => hlog⟩
      show Function.update s.wakers rid none k = none
      rw [Function.update_apply, hnone, ite_self]
    | setWaker rid interest waker =>
      have hapart := h.apart.setWaker hcall
      obtain ⟨resources, rfl, hother, hnew⟩ := Reactor.ioSlot_setWaker hcall
      rw [h.agrees_eq] at hnew
      have hself : s.note (.op (.setWaker rid interest waker)) rid = (s.wakers rid).map
          fun wakers mode => if interest.covers mode then some waker else wakers mode :=
        Function.update_self _ _ _
      have hne : ∀ k, k ≠ rid → s.note (.op (.setWaker rid interest waker)) k = s.wakers k :=
        fun _ hk => Function.update_of_ne hk _ _
      refine ⟨⟨hapart, fun k => ?_⟩, UInt64.le_refl _, fun k _ hnone => ?_,
        fun _ => exists_silent_of_eq rfl⟩
      · by_cases hk : k = rid
        · exact hk ▸ hnew.trans hself.symm
        · exact ((Reactor.ioSlot_congr (hother k hk)).trans (h.agrees k)).trans (hne k hk).symm
      · by_cases hk : k = rid
        · subst hk
          exact hself.trans (Option.map_eq_none_iff.mpr hnone)
        · exact (hne k hk).trans hnone
    | park timeout raw poll =>
      obtain ⟨⟨res, r₁⟩, hpark, rfl⟩ := Option.map_eq_some_iff.mp hcall
      obtain ⟨-, r₂, hpark', htimed, -⟩ := Reactor.park_io h.apart timeout raw poll
      cases hpark.symm.trans hpark'
      exact ⟨h.timed htimed, htimed.next_le, fun _ _ hk => hk,
        fun hc => absurd rfl (hc timeout raw poll)⟩
  | registerTimer deadline waker =>
    cases hcall
    exact .timed h (Reactor.timed_handleRegister h.apart deadline waker)
  | deregisterTimer rid =>
    cases hcall
    exact .timed h (Reactor.timed_handleDeregister h.apart ((h.agrees rid).trans hperm))
  | flushPendingDeregister =>
    cases hcall
    exact .timed h (Reactor.timed_flush h.apart)

theorem faithful_of_reachable (h : (machine W).Reachable s) : s.Faithful :=
  h.invariant (fun _ => faithful_init) fun _ _ _ hs hstep => (step_faithful hs hstep).faithful

/-- An id that has been given up stays that way in every run, since ids are not handed out twice. -/
theorem Run.gone {calls : List (Call W)} (h : s.Faithful) (hlt : rid < s.reactor.nextResourceId)
    (hnone : s.wakers rid = none) (hrun : (machine W).Run s calls s') : s'.wakers rid = none := by
  suffices s'.Faithful ∧ rid < s'.reactor.nextResourceId ∧ s'.wakers rid = none from this.2.2
  induction hrun with
  | nil => exact ⟨h, hlt, hnone⟩
  | snoc _ hstep ih =>
    obtain ⟨hfaithful, hlt, hnone⟩ := ih
    obtain ⟨hfaithful', hle, hgone, -⟩ := step_faithful hfaithful hstep
    exact ⟨hfaithful', UInt64.lt_of_lt_of_le hlt hle, hgone rid hlt hnone⟩

/-- **I/O wakes follow `set_waker`.** In every state that calls lead to:

* a park returns whatever the answer to the poll. It wakes on behalf of ids that are not those of
  I/O resources, which are timers, and then, for each event in order, the waker of the table for
  its resource and direction, if there is one;
* no other call wakes anybody;
* an id that has been handed out and is not that of an I/O resource, as one that was deregistered,
  is not in the table after any further calls;
* setting a waker of a resource in the table keeps the other direction, the other slots, and the
  rest of the reactor;
* so does an event, but for flags and log. -/
theorem reachable_ioWakes (h : (machine W).Reachable s) :
    (∀ timeout raw poll, ∃ (wakes : List (W × UInt64)) (r : Reactor W),
      s.reactor.park timeout raw poll = some (poll.map fun _ => (), r) ∧
      (∀ w k, (w, k) ∈ wakes → s.wakers k = none) ∧
      r.log = s.reactor.log ++ [.getCurrentTime (s.reactor.getCurrentTime raw).1,
        .pollEvents (Reactor.effectiveTimeout timeout s.reactor.nextDeadline
          (s.reactor.getCurrentTime raw).1)] ++
        wakes.map (fun x => .wakeTask x.1 x.2) ++ Reactor.pollCalls s.wakers poll) ∧
    (∀ c s', (∀ timeout raw poll, c ≠ .op (.park timeout raw poll)) → (machine W).step s c s' →
      ∃ seg, s'.reactor.log = s.reactor.log ++ seg ∧ ∀ w k, OutboundCall.wakeTask w k ∉ seg) ∧
    (∀ rid calls s', rid < s.reactor.nextResourceId → s.wakers rid = none →
      (machine W).Run s calls s' → s'.wakers rid = none) ∧
    (∀ rid wakers interest waker, s.wakers rid = some wakers →
      ∃ resources, s.reactor.setWaker rid interest waker = some { s.reactor with resources } ∧
        (∀ k, k ≠ rid → resources.get k = s.reactor.resources.get k) ∧
        Reactor.ioSlot resources rid =
          some fun mode => if interest.covers mode then some waker else wakers mode) ∧
    ∀ event, ∃ readiness, s.reactor.processIoEvent event = { s.reactor with
      log := s.reactor.log ++ Reactor.eventCalls s.wakers event, readiness } := by
  have hfaithful := faithful_of_reachable h
  refine ⟨fun timeout raw poll => ?_,
    fun c s' hc hstep => (step_faithful hfaithful hstep).silent hc,
    fun rid calls s' hlt hnone hrun => Run.gone hfaithful hlt hnone hrun,
    fun rid wakers interest waker hrid =>
      Reactor.setWaker_spec ((hfaithful.agrees rid).trans hrid) interest waker, fun event => ?_⟩
  · obtain ⟨wakes, r, hpark, -, hwakes, hlog⟩ :=
      Reactor.park_io hfaithful.apart timeout raw poll
    rw [hfaithful.agrees_eq] at hlog
    exact ⟨wakes, r, hpark, fun w k hmem => (hfaithful.agrees k).symm.trans (hwakes w k hmem), hlog⟩
  · rw [← hfaithful.agrees_eq]
    exact s.reactor.processIoEvent_eq event

/-- A waker is set for reading. A readable event wakes it; a writable one does not, and neither does
one with token 0. -/
theorem reachable_ioWakes_readable :
    ∃ s : Watched ℕ, (machine ℕ).Reachable s ∧ ∃ (log : List (OutboundCall ℕ)) (r : Reactor ℕ),
      s.reactor.park none 0 (.ok [⟨1, true, true, false, false, false⟩,
        ⟨0, true, false, false, false, false⟩]) = some (.ok (), r) ∧
      r.log = log ++ [.ioEventReady ⟨1, .readable, false, false, false⟩, .wakeTask 7 1,
        .ioEventReady ⟨1, .writable, false, false, false⟩,
        .ioEventReady ⟨0, .readable, false, false, false⟩] := by
  have hregister := (Machine.Reachable.of_init (M := machine ℕ) ⟨[], none, rfl⟩).step
    (a := Call.op (.registerIoResource ⟨true, true⟩ (.ok ()))) ⟨trivial, _, rfl, rfl⟩
  have hset := hregister.step (a := Call.op (.setWaker 1 ⟨true, false⟩ 7)) ⟨trivial, _, rfl, rfl⟩
  obtain ⟨wakes, r, hpark, -, hlog⟩ := (reachable_ioWakes hset).1 none 0
    (.ok [⟨1, true, true, false, false, false⟩, ⟨0, true, false, false, false, false⟩])
  exact ⟨_, hset, _, r, hpark, hlog⟩

end Watched

end Lion
