import Lion.Reactor.Reactor

/-!
# Events

`park` collects the events that mio reports. For each it marks the flag of the resource and
direction, and calls the waker that is stored for them. Events leave slab and wheel alone, so that a
whole batch is processed with the wakers that are there when it begins; this is
`Reactor.processIoEvents_eq`, which gives the calls as a list.

Timers are woken in between, which touches no flag, and no event clears one. So the flag of a
resource after a park is the flag before, or what was reported of it.

## Conventions

A direction is an `IoMode` throughout, also where the source has two functions. What mio reports is
a list of `MioEvent`, of which one may be about both directions and two about the same; `reported`
is what the list says of one direction of one resource, and nothing else about the list matters to a
flag.

## Main results

* `Reactor.processIoEvents_eq` — the calls that a batch of events leads to
* `Reactor.isReady_processIoEvent` — an event sets the flag it is about, and nothing unsets one
* `Reactor.isReady_park` — a park sets the flag of what was reported
-/

namespace Lion

/-- The poll reports that `rid` can be read, in one of its events. -/
def reports (poll : Except IoError (List MioEvent)) (rid : UInt64) : Bool :=
  match poll with
  | .ok events => events.any fun e => decide (e.token = rid) && e.isReadable
  | .error _ => false

/-! ### Directions -/

/-- `is_readable` or `is_writable`, according to the direction. -/
def IoMode.isReady (mode : IoMode) (v : Readiness) (rid : UInt64) : Bool :=
  match mode with
  | .readable => Readiness.isReadable v rid
  | .writable => Readiness.isWritable v rid

/-- `clear_readable` or `clear_writable`, according to the direction. -/
def IoMode.clear (mode : IoMode) (v : Readiness) (rid : UInt64) : Readiness :=
  match mode with
  | .readable => Readiness.clearReadable v rid
  | .writable => Readiness.clearWritable v rid

/-- Clearing a direction unsets its flag, and no other flag of any resource. -/
theorem IoMode.isReady_clear (mode mode' : IoMode) (v : Readiness) (rid k : UInt64) :
    mode'.isReady (mode.clear v rid) k =
      if mode' = mode ∧ k = rid then false else mode'.isReady v k := by
  cases mode with
  | readable =>
    cases mode' with
    | readable =>
      refine (Readiness.isReadable_clearReadable v rid k).trans ?_
      simp [isReady]
    | writable =>
      refine (Readiness.isWritable_clearReadable v rid k).trans ?_
      simp [isReady]
  | writable =>
    cases mode' with
    | readable =>
      refine (Readiness.isReadable_clearWritable v rid k).trans ?_
      simp [isReady]
    | writable =>
      refine (Readiness.isWritable_clearWritable v rid k).trans ?_
      simp [isReady]

/-- A new resource is ready, and others are as before. -/
theorem IoMode.isReady_initReadiness (mode : IoMode) (v : Readiness) (rid k : UInt64) :
    mode.isReady (Readiness.initReadiness v rid) k =
      if k = rid then true else mode.isReady v k := by
  cases mode with
  | readable => exact Readiness.test_initReadiness v rid k Readiness.readable
  | writable => exact Readiness.test_initReadiness v rid k Readiness.writable

theorem IoMode.lt_length_of_isReady {mode : IoMode} {v : Readiness} {k : UInt64}
    (h : mode.isReady v k = true) : k.toNat < v.length := by
  cases mode with
  | readable => exact Readiness.lt_length_of_test h
  | writable => exact Readiness.lt_length_of_test h

/-- Whether mio reports the direction, in an event that may report both. -/
def MioEvent.isReady (e : MioEvent) : IoMode → Bool
  | .readable => e.isReadable
  | .writable => e.isWritable

namespace Reactor

variable {W : Type*} {r r' : Reactor W} {s s' : ResourceSlab W} {k : UInt64}

/-! ### The wakers of I/O resources -/

/-- The wakers in a slot, if it is that of an I/O resource. -/
def ioSlot (s : ResourceSlab W) (rid : UInt64) : Option (IoMode → Option W) :=
  match s.get rid with
  | some (.io readWaker writeWaker) => some fun
    | .readable => readWaker
    | .writable => writeWaker
  | _ => none

theorem ioSlot_congr (h : s'.get k = s.get k) : ioSlot s' k = ioSlot s k := by
  rw [ioSlot, ioSlot, h]

theorem ioSlot_of_none (h : s.get k = none) : ioSlot s k = none := by
  rw [ioSlot, h]

theorem ioSlot_of_timer {entry : TimerEntry} {waker : W} (h : s.get k = some (.timer entry waker)) :
    ioSlot s k = none := by
  rw [ioSlot, h]

theorem getReadWaker_eq (s : ResourceSlab W) (rid : UInt64) :
    ResourceSlab.getReadWaker s rid = (ioSlot s rid).bind (· .readable) := by
  rw [ResourceSlab.getReadWaker, ioSlot]
  rcases Slab.get s rid with _ | ⟨entry, waker⟩ | ⟨readWaker, writeWaker⟩
  · rfl
  · rfl
  · rfl

theorem getWriteWaker_eq (s : ResourceSlab W) (rid : UInt64) :
    ResourceSlab.getWriteWaker s rid = (ioSlot s rid).bind (· .writable) := by
  rw [ResourceSlab.getWriteWaker, ioSlot]
  rcases Slab.get s rid with _ | ⟨entry, waker⟩ | ⟨readWaker, writeWaker⟩
  · rfl
  · rfl
  · rfl

theorem ioSlot_eq_some {wakers : IoMode → Option W} (h : ioSlot s k = some wakers) :
    s.get k = some (.io (wakers .readable) (wakers .writable)) := by
  rw [ioSlot] at h
  split at h
  · rename_i readWaker writeWaker hslot
    cases h
    exact hslot
  · cases h

/-! ### The calls for events -/

/-- The calls that an event leads to, if these are the wakers. -/
def eventCalls (wakers : UInt64 → Option (IoMode → Option W)) (event : IoEvent) :
    List (OutboundCall W) :=
  .ioEventReady event :: (((wakers event.resourceId).bind (· event.mode)).map fun waker =>
    .wakeTask waker event.resourceId).toList

theorem processIoEvent_eq (r : Reactor W) (event : IoEvent) : ∃ readiness,
    r.processIoEvent event =
      { r with log := r.log ++ eventCalls (ioSlot r.resources) event, readiness } := by
  obtain ⟨rid, mode, er, rc, wc⟩ := event
  cases mode with
  | readable =>
    refine ⟨Readiness.markReadable r.readiness rid, ?_⟩
    simp only [processIoEvent, emit, eventCalls, getReadWaker_eq]
    cases (ioSlot r.resources rid).bind (· .readable) with
    | none => rfl
    | some waker => simp
  | writable =>
    refine ⟨Readiness.markWritable r.readiness rid, ?_⟩
    simp only [processIoEvent, emit, eventCalls, getWriteWaker_eq]
    cases (ioSlot r.resources rid).bind (· .writable) with
    | none => rfl
    | some waker => simp

/-- **A batch of events** leads to these calls, and changes flags only. -/
theorem processIoEvents_eq (r : Reactor W) (events : List IoEvent) : ∃ readiness,
    r.processIoEvents events =
      { r with log := r.log ++ events.flatMap (eventCalls (ioSlot r.resources)), readiness } := by
  induction events generalizing r with
  | nil => exact ⟨r.readiness, by simp [processIoEvents]⟩
  | cons event rest ih =>
    obtain ⟨readiness, heq⟩ := r.processIoEvent_eq event
    obtain ⟨readiness', heq'⟩ := ih (r.processIoEvent event)
    refine ⟨readiness', ?_⟩
    rw [processIoEvents, List.foldl_cons]
    refine heq'.trans ?_
    rw [heq, List.flatMap_cons, List.append_assoc]

/-- Who is woken has the slot of an I/O resource. -/
theorem exists_io_of_mem_eventCalls {events : List IoEvent} {waker : W} {rid : UInt64}
    (h : OutboundCall.wakeTask waker rid ∈ events.flatMap (eventCalls (ioSlot s))) :
    ∃ rw ww, s.get rid = some (.io rw ww) := by
  obtain ⟨event, -, hmem⟩ := List.mem_flatMap.mp h
  rcases List.mem_cons.mp hmem with heq | hmem
  · cases heq
  · obtain ⟨w, hw, heq⟩ := Option.map_eq_some_iff.mp (Option.mem_toList.mp hmem)
    cases heq
    obtain ⟨wakers, hslot, -⟩ := Option.bind_eq_some_iff.mp hw
    exact ⟨_, _, ioSlot_eq_some hslot⟩

/-! ### Flags -/

theorem readiness_wakeExpiredTimers {now : UInt64} {fuel : ℕ}
    (h : wakeExpiredTimers now fuel r = some r') : r'.readiness = r.readiness := by
  induction fuel generalizing r with
  | zero => cases h
  | succ fuel ih =>
    rw [wakeExpiredTimers] at h
    split at h
    · cases h
      rfl
    · dsimp only at h
      split at h
      · have heq := ih h
        exact heq
      · have heq := ih h
        exact heq

/-- An event marks the flag it is about, whether or not a waker is stored. -/
theorem readiness_processIoEvent (r : Reactor W) (event : IoEvent) :
    (r.processIoEvent event).readiness =
      match event.mode with
      | .readable => Readiness.markReadable r.readiness event.resourceId
      | .writable => Readiness.markWritable r.readiness event.resourceId := by
  rw [processIoEvent]
  cases event.mode with
  | readable =>
    dsimp only
    split <;> rfl
  | writable =>
    dsimp only
    split <;> rfl

/-- An event sets the flag it is about, and nothing unsets one. -/
theorem isReady_processIoEvent (r : Reactor W) (event : IoEvent) (mode : IoMode) {k : UInt64}
    (hk : k.toNat < r.readiness.length) :
    mode.isReady (r.processIoEvent event).readiness k = (mode.isReady r.readiness k ||
        (decide (event.resourceId = k) && decide (event.mode = mode))) ∧
      (r.processIoEvent event).readiness.length = r.readiness.length := by
  have hset : ∀ {v : Readiness} (b : Bool), k.toNat < v.length →
      (if k = event.resourceId then decide (k.toNat < v.length) else b) =
        (b || decide (event.resourceId = k)) := by
    intro v b hv
    by_cases heq : k = event.resourceId
    · simp [heq ▸ hv, heq]
    · simp [heq, Ne.symm heq]
  rw [readiness_processIoEvent]
  cases hmode : event.mode with
  | readable =>
    refine ⟨?_, Readiness.length_modifyAt _ _ _⟩
    cases mode with
    | readable =>
      refine (Readiness.isReadable_markReadable _ _ _).trans ((hset _ hk).trans ?_)
      simp [IoMode.isReady]
    | writable =>
      refine (Readiness.isWritable_markReadable _ _ _).trans ?_
      simp [IoMode.isReady]
  | writable =>
    refine ⟨?_, Readiness.length_modifyAt _ _ _⟩
    cases mode with
    | readable =>
      refine (Readiness.isReadable_markWritable _ _ _).trans ?_
      simp [IoMode.isReady]
    | writable =>
      refine (Readiness.isWritable_markWritable _ _ _).trans ((hset _ hk).trans ?_)
      simp [IoMode.isReady]

theorem isReady_processIoEvents (events : List IoEvent) (mode : IoMode) {k : UInt64}
    (hk : k.toNat < r.readiness.length) :
    mode.isReady (r.processIoEvents events).readiness k =
      (mode.isReady r.readiness k || events.any fun e =>
        decide (e.resourceId = k) && decide (e.mode = mode)) ∧
      (r.processIoEvents events).readiness.length = r.readiness.length := by
  induction events generalizing r with
  | nil => simp [processIoEvents]
  | cons event rest ih =>
    obtain ⟨hflag, hlength⟩ := r.isReady_processIoEvent event mode hk
    obtain ⟨hflag', hlength'⟩ := ih (r := r.processIoEvent event) (by rw [hlength]; exact hk)
    rw [processIoEvents, List.foldl_cons]
    refine ⟨?_, hlength'.trans hlength⟩
    rw [processIoEvents] at hflag'
    rw [hflag', hflag, List.any_cons, Bool.or_assoc]

/-- What is collected is about a direction exactly if mio reports it. -/
theorem any_collectIoEvents (events : List MioEvent) (mode : IoMode) (k : UInt64) :
    ((collectIoEvents events).any fun e =>
      decide (e.resourceId = k) && decide (e.mode = mode)) =
      events.any fun e => decide (e.token = k) && e.isReady mode := by
  rw [collectIoEvents, List.any_flatMap]
  refine congrArg (List.any events) (funext fun e => ?_)
  cases mode <;> by_cases hr : e.isReadable = true <;> by_cases hw : e.isWritable = true <;>
    simp [hr, hw, MioEvent.isReady]

/-- Whether the poll reports the direction of `rid`. A poll that fails reports nothing. -/
def reported (poll : Except IoError (List MioEvent)) (mode : IoMode) (rid : UInt64) : Bool :=
  match poll with
  | .ok events => events.any fun e => decide (e.token = rid) && e.isReady mode
  | .error _ => false

/-- **Flags across a park.** A flag of a resource is set afterwards if it was before, or if the poll
reported the direction. -/
theorem isReady_park {timeout : Option UInt64} {raw : UInt64}
    {poll : Except IoError (List MioEvent)} {res : Except IoError Unit}
    (h : r.park timeout raw poll = some (res, r')) (mode : IoMode) {k : UInt64}
    (hk : k.toNat < r.readiness.length) :
    mode.isReady r'.readiness k = (mode.isReady r.readiness k || reported poll mode k) ∧
      r'.readiness.length = r.readiness.length := by
  simp only [park, Option.bind_eq_bind] at h
  cases poll with
  | ok events =>
    obtain ⟨r₁, hwake, h⟩ := Option.bind_eq_some_iff.mp h
    cases h
    have hwoken := readiness_wakeExpiredTimers hwake
    have hkeep : r₁.readiness = r.readiness := hwoken
    obtain ⟨hflag, hlength⟩ := isReady_processIoEvents (r := r₁) (collectIoEvents events) mode
      (k := k) (by rw [hkeep]; exact hk)
    rw [hkeep, any_collectIoEvents] at hflag
    exact ⟨hflag, by rw [hlength, hkeep]⟩
  | error e =>
    obtain ⟨r₁, hwake, h⟩ := Option.bind_eq_some_iff.mp h
    cases h
    have hwoken := readiness_wakeExpiredTimers hwake
    have hkeep : r'.readiness = r.readiness := hwoken
    rw [hkeep]
    exact ⟨by simp [reported], rfl⟩

theorem isReadable_park {timeout : Option UInt64} {raw : UInt64}
    {poll : Except IoError (List MioEvent)} {res : Except IoError Unit}
    (h : r.park timeout raw poll = some (res, r')) {k : UInt64}
    (hk : k.toNat < r.readiness.length) :
    Readiness.isReadable r'.readiness k = (Readiness.isReadable r.readiness k || reports poll k) ∧
      r'.readiness.length = r.readiness.length := by
  obtain ⟨hflag, hlength⟩ := isReady_park h .readable hk
  refine ⟨hflag.trans ?_, hlength⟩
  cases poll <;> rfl

theorem readiness_setWaker {rid : UInt64} {interest : Interest} {waker : W}
    (h : r.setWaker rid interest waker = some r') : r'.readiness = r.readiness := by
  rcases setWaker_cases h with rfl | ⟨resources, -, -, -, -, rfl, -⟩
  · rfl
  · rfl

end Reactor

end Lion
