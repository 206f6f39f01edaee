import Lion.Reactor.Events

/-!
# Errors and hang-ups

mio says of an event whether its resource can be read or written, and apart from that whether it has
an error and whether a direction is closed. The reactor copies all of it into its own events, but
makes one for each direction that can be read or written only. What is neither is dropped, with the
error it came with.

## Whom an event concerns

A task that waits for a direction has to learn of the event if the direction is ready, if it is
closed, or if the resource has an error: in each case trying again would no longer block.
`MioEvent.concerns` says so, from the flags of the event. The reactor wakes by readiness alone, and
`delivered_iff` is the exact condition under which that is enough: for everybody whom an event of
the batch concerns, some event of the batch reports the direction as ready, which may be another
one. An error that comes alone reaches nobody (`not_delivered`).

## Main definitions

* `MioEvent.concerns` — who should learn of an event
* `Reactor.Delivered` — everybody has
* `AllReported` — a batch has a ready direction for everybody

## Main results

* `Reactor.delivered_iff` — when errors and hang-ups reach their waiters
* `Reactor.not_delivered` — an error alone reaches nobody
-/

namespace Lion

/-- A task that waits in the direction should learn of the event, for one of three reasons. -/
def MioEvent.concerns (e : MioEvent) : IoMode → Bool
  | .readable => e.isReadable || e.isReadClosed || e.isError
  | .writable => e.isWritable || e.isWriteClosed || e.isError

/-- The other of the two directions. -/
def IoMode.other : IoMode → IoMode
  | .readable => .writable
  | .writable => .readable

/-- An event of the batch says that the direction of the resource is ready. -/
def Reported (events : List MioEvent) (mode : IoMode) (rid : UInt64) : Prop :=
  ∃ e ∈ events, e.token = rid ∧ e.isReady mode = true

/-- For everybody whom an event concerns, the batch says that the direction is ready. -/
def AllReported (events : List MioEvent) : Prop :=
  ∀ e ∈ events, ∀ mode, e.concerns mode = true → Reported events mode e.token

namespace Reactor

variable {W : Type*} {r : Reactor W} {events : List MioEvent}

/-- The waker of a direction, of an I/O resource that is registered. -/
def storedWaker (s : ResourceSlab W) : IoMode → UInt64 → Option W
  | .readable, rid => ResourceSlab.getReadWaker s rid
  | .writable, rid => ResourceSlab.getWriteWaker s rid

theorem storedWaker_eq (s : ResourceSlab W) (mode : IoMode) (rid : UInt64) :
    storedWaker s mode rid = (ioSlot s rid).bind (· mode) := by
  cases mode with
  | readable => exact getReadWaker_eq s rid
  | writable => exact getWriteWaker_eq s rid

/-- A batch of events is collected and processed, as a park does it. -/
def process (r : Reactor W) (events : List MioEvent) : Reactor W :=
  r.processIoEvents (collectIoEvents events)

/-- Every event reaches those it concerns: the flag is set, if the resource has any, and the waker
is called, if one is stored. -/
def Delivered (r : Reactor W) (events : List MioEvent) : Prop :=
  ∀ e ∈ events, ∀ mode, e.concerns mode = true →
    (e.token.toNat < r.readiness.length →
      mode.isReady (r.process events).readiness e.token = true) ∧
    ∀ waker, storedWaker r.resources mode e.token = some waker →
      .wakeTask waker e.token ∈ (r.process events).log.drop r.log.length

/-- For everybody whom an event concerns, the batch says that the direction is ready. Or else it is
known to be already, and who waits for it waits for the other direction as well, which is ready. -/
def Signalled (r : Reactor W) (events : List MioEvent) : Prop :=
  ∀ e ∈ events, ∀ mode, e.concerns mode = true → Reported events mode e.token ∨
    (e.token.toNat < r.readiness.length → mode.isReady r.readiness e.token = true) ∧
      ∀ waker, storedWaker r.resources mode e.token = some waker →
        storedWaker r.resources mode.other e.token = some waker ∧ Reported events mode.other e.token

/-- What is collected is about the directions that are ready. -/
theorem ready_iff (events : List MioEvent) (mode : IoMode) (rid : UInt64) :
    Reported events mode rid ↔
      ∃ e ∈ collectIoEvents events, e.resourceId = rid ∧ e.mode = mode := by
  have hany := any_collectIoEvents events mode rid
  rw [Bool.eq_iff_iff] at hany
  simpa [Reported] using hany.symm

/-- The flags that a batch sets are those of the directions that are ready. -/
theorem isReady_process (r : Reactor W) (events : List MioEvent) (mode : IoMode) {rid : UInt64}
    (hrid : rid.toNat < r.readiness.length) :
    mode.isReady (r.process events).readiness rid = true ↔
      mode.isReady r.readiness rid = true ∨ Reported events mode rid := by
  rw [process, (isReady_processIoEvents _ mode hrid).1, Bool.or_eq_true, ready_iff]
  simp

/-- The wakes of a batch are those of the directions that are ready. -/
theorem wakeTask_mem_process (r : Reactor W) (events : List MioEvent) (waker : W) (rid : UInt64) :
    .wakeTask waker rid ∈ (r.process events).log.drop r.log.length ↔
      ∃ mode, storedWaker r.resources mode rid = some waker ∧ Reported events mode rid := by
  obtain ⟨readiness, heq⟩ := r.processIoEvents_eq (collectIoEvents events)
  have hlog : (r.process events).log.drop r.log.length =
      (collectIoEvents events).flatMap (eventCalls (ioSlot r.resources)) := by
    rw [process, heq]
    exact List.drop_left
  rw [hlog, List.mem_flatMap]
  constructor
  · rintro ⟨event, hevent, hmem⟩
    rcases List.mem_cons.mp hmem with hcall | hcall
    · cases hcall
    · obtain ⟨w, hw, hwake⟩ := Option.map_eq_some_iff.mp (Option.mem_toList.mp hcall)
      cases hwake
      rw [← storedWaker_eq] at hw
      exact ⟨event.mode, hw, (ready_iff _ _ _).mpr ⟨event, hevent, rfl, rfl⟩⟩
  · rintro ⟨mode, hw, hready⟩
    obtain ⟨event, hevent, rfl, rfl⟩ := (ready_iff _ _ _).mp hready
    rw [storedWaker_eq] at hw
    refine ⟨event, hevent, List.mem_cons_of_mem _ ?_⟩
    rw [Option.mem_toList, hw]
    rfl

/-- What is delivered is what the batch reports, with the wakers and flags that there are. -/
theorem delivered_iff_signalled (r : Reactor W) (events : List MioEvent) :
    r.Delivered events ↔ r.Signalled events := by
  constructor
  · intro h e he mode hconcerns
    obtain ⟨hflag, hwake⟩ := h e he mode hconcerns
    by_cases hready : Reported events mode e.token
    · exact .inl hready
    · refine .inr ⟨fun hrid => ?_, fun waker hw => ?_⟩
      · exact ((isReady_process r events mode hrid).mp (hflag hrid)).resolve_right hready
      · -- the waker was called, so not for this direction
        obtain ⟨mode', hw', hready'⟩ := (wakeTask_mem_process r events waker _).mp (hwake waker hw)
        have hne : mode' ≠ mode := by
          rintro rfl
          exact hready hready'
        have hother : mode' = mode.other := by
          cases mode <;> cases mode' <;> first | rfl | exact absurd rfl hne
        exact hother ▸ ⟨hw', hready'⟩
  · intro h e he mode hconcerns
    refine ⟨fun hrid => ?_, fun waker hw => ?_⟩
    · rw [isReady_process r events mode hrid]
      exact (h e he mode hconcerns).symm.imp_left fun hknown => hknown.1 hrid
    · rw [wakeTask_mem_process]
      rcases h e he mode hconcerns with hready | ⟨-, hboth⟩
      · exact ⟨mode, hw, hready⟩
      · exact ⟨mode.other, hboth waker hw⟩

/-- A reactor that knows of no readiness of the resources up to `rid`. -/
def unready (rid : UInt64) : Reactor W :=
  { (new : Reactor W) with readiness := List.replicate (rid.toNat + 1) 0 }

theorem isReady_unready (rid : UInt64) (mode : IoMode) :
    rid.toNat < (unready rid : Reactor W).readiness.length ∧
      mode.isReady (unready rid : Reactor W).readiness rid = false := by
  refine ⟨by simp [unready], ?_⟩
  have hbyte : (unready rid : Reactor W).readiness[rid.toNat]? = some 0 := by
    rw [unready, List.getElem?_replicate, if_pos (Nat.lt_succ_self _)]
  cases mode with
  | readable =>
    rw [IoMode.isReady, Readiness.isReadable, Readiness.test, hbyte]
    rfl
  | writable =>
    rw [IoMode.isReady, Readiness.isWritable, Readiness.test, hbyte]
    rfl

/-- **Errors and hang-ups.** A batch reaches everybody it concerns, whatever wakers and flags there
are, exactly if it says of each of their directions that it is ready; and with given wakers and
flags, exactly if it does or nobody is to learn anything. -/
theorem delivered_iff (events : List MioEvent) :
    ((∀ r : Reactor W, r.Delivered events) ↔ AllReported events) ∧
      ∀ r : Reactor W, r.Delivered events ↔ r.Signalled events := by
  refine ⟨⟨fun h e he mode hconcerns => ?_, fun h r => ?_⟩, fun r =>
    delivered_iff_signalled r events⟩
  · obtain ⟨hrid, hunready⟩ := isReady_unready (W := W) e.token mode
    have hflag := (h (unready e.token) e he mode hconcerns).1 hrid
    refine ((isReady_process _ events mode hrid).mp hflag).resolve_left ?_
    rw [hunready]
    simp
  · exact (delivered_iff_signalled r events).mpr fun e he mode hconcerns =>
      .inl (h e he mode hconcerns)

/-- A reactor with one resource that is not ready, whose wakers are set. -/
def waiting : Reactor ℕ :=
  { (new : Reactor ℕ) with
    nextResourceId := 2
    resources := Slab.new.insert 1 (.io (some 7) (some 8))
    readiness := [0, 0] }

/-- A resource has an error while a task waits in both directions: mio's selector reports an error
and a closed write side, and neither direction as ready. The event is dropped. -/
theorem not_delivered : ¬ ∀ (r : Reactor ℕ) (events : List MioEvent), r.Delivered events := by
  intro h
  have hdelivered := h waiting [⟨1, false, false, true, false, true⟩] _ List.mem_cons_self
    .readable rfl
  have hwake := hdelivered.2 7 rfl
  exact List.not_mem_nil hwake

end Reactor

end Lion
