import Lion.Reactor.Readiness
import Lion.Reactor.Resources
import Lion.TimerWheel.Wheel

/-!
# The reactor

`Reactor` of `lion-reactor`: a timer wheel and a slab of resources behind one allocator of ids, and
a `park` that reads the clock, polls the operating system and wakes what is due or ready.

Every timer is recorded twice, as a deadline in the wheel and as a slot with its waker in the slab;
each operation updates the two in separate steps. An I/O resource has a slot only, with a waker for
each direction. Both kinds take their ids from one counter, so that an id says nothing about what it
is for.

## Conventions

What comes from outside is an argument: the raw clock reading, and the result of each call to the
operating system. What goes outside is appended to `log`, the source's ghost log cut down to its
outbound calls, in the order the calls are made. The thread-locals of the reactor's thread that its
operations touch, the readiness flags and the cached clock, are fields.

An operation that can panic returns an `Option`, and panics as `none`. The pop loop of
`wake_expired_timers` recurses on a bound on its number of turns; running out of it is `none` too,
and `park` supplies a bound that it never runs out of.

Calling a waker is an outbound call like any other. What the waker does, which is to put a task into
a queue of the executor or of another thread, is not the reactor's business, and the type of wakers
is a parameter.

## What is left out

Ids are never recycled: the source's `free_rids` is never pushed to and is left out. The handle of
what is registered with the operating system is passed on without being looked at, and is left out
too. The beginnings and ends of calls, which the source logs as well, are added in `Journal`, which
is the only place where they matter.
-/

namespace Lion

/-- `IoError`, an error of the operating system or one made here. -/
inductive IoError
  /-- An error number of the operating system. -/
  | os (code : ℤ)
  /-- `ErrorKind::Other` with a message. -/
  | other (message : String)
deriving DecidableEq, Repr

/-- `IoError::resource_id_overflow`: there is no id left to hand out. -/
def IoError.resourceIdOverflow : IoError :=
  .other "reactor resource ID overflow: maximum resource IDs exhausted"

/-- `Interest`: the directions in which a resource is to be watched. -/
structure Interest where
  readable : Bool
  writable : Bool
deriving DecidableEq, Repr

/-- `IoMode`: a direction in which an I/O resource may be ready. -/
inductive IoMode
  | readable
  | writable
deriving DecidableEq, Repr

/-- What mio reports about one token. -/
structure MioEvent where
  /-- The token, which encodes a resource id. -/
  token : UInt64
  isReadable : Bool
  isWritable : Bool
  isError : Bool
  isReadClosed : Bool
  isWriteClosed : Bool
deriving DecidableEq, Repr

/-- `IoEvent`: what the reactor makes of a report of mio, one for each direction that is ready. The
flags are copied from the report. -/
structure IoEvent where
  resourceId : UInt64
  mode : IoMode
  error : Bool
  readClosed : Bool
  writeClosed : Bool
deriving DecidableEq, Repr

/-- `OutboundCall`: what the reactor does to the world outside. -/
inductive OutboundCall (W : Type*)
  /-- The clock was read. -/
  | getCurrentTime (timestamp : UInt64)
  /-- The operating system was polled; `none` waits without limit. -/
  | pollEvents (timeout : Option UInt64)
  /-- A source was registered with the operating system, with this result. -/
  | registerIoResource (rid : UInt64) (interest : Interest) (result : Except IoError Unit)
  /-- A source was deregistered, with this result. -/
  | deregisterIoResource (rid : UInt64) (result : Except IoError Unit)
  /-- An event is about to be processed. -/
  | ioEventReady (event : IoEvent)
  /-- A waker was called on behalf of a resource. -/
  | wakeTask (waker : W) (sourceRid : UInt64)

/-- `Reactor`, with the thread-locals its operations touch. The field of the cached clock is
`CACHED_NOW` and that of the readiness flags `IO_READINESS`; both belong to the thread and not to
the reactor. -/
structure Reactor (W : Type*) where
  /-- The next id to hand out. -/
  nextResourceId : UInt64
  wheel : TimerWheel
  /-- The resources, timers included, each with the wakers that are set for it. -/
  resources : ResourceSlab W
  /-- A timer whose deregistration is put off, with its deadline. -/
  pendingDeregister : Option (UInt64 × UInt64)
  /-- The outbound calls so far. -/
  log : List (OutboundCall W)
  readiness : Readiness
  cachedNow : Option UInt64

namespace Reactor

variable {W : Type*}

/-- `Reactor::new`: no resources, the wheel at instant `0`, and ids from `1` on. -/
def new : Reactor W where
  nextResourceId := 1
  wheel := .new
  resources := .new
  pendingDeregister := none
  log := []
  readiness := []
  cachedNow := none

/-- Append an outbound call to the log. -/
def emit (r : Reactor W) (c : OutboundCall W) : Reactor W := { r with log := r.log ++ [c] }

/-- `Reactor::alloc_resource_id`: the next id, unless it is the last number that fits into a
word. -/
def allocResourceId (r : Reactor W) : Except IoError UInt64 × Reactor W :=
  if 0xFFFFFFFFFFFFFFFF ≤ r.nextResourceId then (.error .resourceIdOverflow, r)
  else (.ok r.nextResourceId, { r with nextResourceId := r.nextResourceId + 1 })

/-! ### Timers -/

/-- `Reactor::register_timer`: take an id, then file the deadline in the wheel and the waker in the
slab. -/
def registerTimer (r : Reactor W) (deadline : UInt64) (waker : W) :
    Except IoError UInt64 × Reactor W :=
  match r.allocResourceId with
  | (.ok rid, r) =>
    (.ok rid, { r with
      resources := ResourceSlab.insertTimerSlot r.resources rid ⟨deadline, rid⟩ waker
      wheel := r.wheel.insert rid deadline })
  | (.error e, r) => (.error e, r)

/-- `Reactor::deregister_timer`: take the timer out of wheel and slab, whether it is there or
not. -/
def deregisterTimer (r : Reactor W) (rid : UInt64) : Reactor W :=
  { r with
    wheel := r.wheel.remove rid
    resources := ResourceSlab.removeTimerSlot r.resources rid }

/-- `Reactor::next_deadline`: the earliest deadline of a timer that is registered. -/
def nextDeadline (r : Reactor W) : Option UInt64 := r.wheel.nextDeadline

/-! ### I/O resources -/

/-- `Reactor::register_io_resource`; `osResult` is what the operating system answers. -/
def registerIoResource (r : Reactor W) (interest : Interest) (osResult : Except IoError Unit) :
    Except IoError UInt64 × Reactor W :=
  match r.allocResourceId with
  | (.ok rid, r) =>
    let r := r.emit (.registerIoResource rid interest osResult)
    match osResult with
    | .ok () => (.ok rid, { r with resources := ResourceSlab.insertIoSlot r.resources rid })
    | .error e => (.error e, r)
  | (.error e, r) => (.error e, r)

/-- `Reactor::deregister_io_resource`: what the operating system answers is passed on, and the slot
is emptied either way. -/
def deregisterIoResource (r : Reactor W) (rid : UInt64) (osResult : Except IoError Unit) :
    Except IoError Unit × Reactor W :=
  let r := { r with resources := ResourceSlab.removeIoSlot r.resources rid }
  (osResult, r.emit (.deregisterIoResource rid osResult))

/-- `Reactor::set_waker`: set the waker of the directions that the interest covers. It panics if it
covers one and the slot is not that of an I/O resource. -/
def setWaker (r : Reactor W) (rid : UInt64) (interest : Interest) (waker : W) :
    Option (Reactor W) := do
  let resources ← if interest.readable then ResourceSlab.setReadWaker r.resources rid waker
    else some r.resources
  let resources ← if interest.writable then ResourceSlab.setWriteWaker resources rid waker
    else some resources
  return { r with resources }

/-! ### Parking -/

/-- `collect_io_events`: one event for each direction mio reports. -/
def collectIoEvents (mioEvents : List MioEvent) : List IoEvent :=
  mioEvents.flatMap fun e =>
    let event mode : IoEvent := ⟨e.token, mode, e.isError, e.isReadClosed, e.isWriteClosed⟩
    (if e.isReadable then [event .readable] else []) ++
      (if e.isWritable then [event .writable] else [])

/-- `Reactor::get_current_time_action`: the raw clock, held back to the wheel's instant. -/
def getCurrentTime (r : Reactor W) (raw : UInt64) : UInt64 × Reactor W :=
  let now := if r.wheel.elapsed ≤ raw then raw else r.wheel.elapsed
  (now, { r with cachedNow := some now }.emit (.getCurrentTime now))

/-- The timeout `park` polls with: no longer than asked for, and not past the earliest deadline. -/
def effectiveTimeout (timeout deadline : Option UInt64) (now : UInt64) : Option UInt64 :=
  match timeout, deadline with
  | some t, some deadline =>
    if deadline ≤ now then some 0
    else
      let timerMs := deadline - now
      if timerMs < t then some timerMs else some t
  | none, some deadline => if deadline ≤ now then some 0 else some (deadline - now)
  | t, none => t

/-- `Reactor::wake_expired_timers`, for at most `fuel` turns of its loop. -/
def wakeExpiredTimers (now : UInt64) : ℕ → Reactor W → Option (Reactor W)
  | 0, _ => none
  | fuel + 1, r =>
    match r.wheel.tryPopExpired now with
    | (none, wheel) => some { r with wheel }
    | (some rid, wheel) =>
      let r := { r with wheel }
      match ResourceSlab.takeTimerWaker r.resources rid with
      | some waker =>
        let r := r.emit (.wakeTask waker rid)
        wakeExpiredTimers now fuel
          { r with resources := ResourceSlab.removeTimerSlot r.resources rid }
      | none => wakeExpiredTimers now fuel r

/-- One turn of the loop of `Reactor::process_io_events`. -/
def processIoEvent (r : Reactor W) (event : IoEvent) : Reactor W :=
  let r := r.emit (.ioEventReady event)
  let rid := event.resourceId
  match event.mode with
  | .readable =>
    let r := { r with readiness := Readiness.markReadable r.readiness rid }
    match ResourceSlab.getReadWaker r.resources rid with
    | some waker => r.emit (.wakeTask waker rid)
    | none => r
  | .writable =>
    let r := { r with readiness := Readiness.markWritable r.readiness rid }
    match ResourceSlab.getWriteWaker r.resources rid with
    | some waker => r.emit (.wakeTask waker rid)
    | none => r

/-- `Reactor::process_io_events`: the events one after the other, in the order in which they
came. -/
def processIoEvents (r : Reactor W) (ioEvents : List IoEvent) : Reactor W :=
  ioEvents.foldl processIoEvent r

/-- `Reactor::park`, given the raw clock reading and the answer to the poll. Timers are woken
before the events are looked at, and also if the poll fails. -/
def park (r : Reactor W) (timeout : Option UInt64) (raw : UInt64)
    (poll : Except IoError (List MioEvent)) : Option (Except IoError Unit × Reactor W) := do
  let (now, r) := r.getCurrentTime raw
  let r := r.emit (.pollEvents (effectiveTimeout timeout r.nextDeadline now))
  let fuel := r.wheel.deadlines.occupancy + 1
  match poll.map collectIoEvents with
  | .ok ioEvents =>
    let r ← wakeExpiredTimers now fuel r
    return (.ok (), r.processIoEvents ioEvents)
  | .error e =>
    let r ← wakeExpiredTimers now fuel r
    return (.error e, r)

/-! ### Operations and runs -/

/-- A call of a reactor operation, with what the world outside answers to it. The operations have
their names in the source. -/
inductive Op (W : Type*)
  | registerTimer (deadline : UInt64) (waker : W)
  | deregisterTimer (rid : UInt64)
  | registerIoResource (interest : Interest) (osResult : Except IoError Unit)
  | deregisterIoResource (rid : UInt64) (osResult : Except IoError Unit)
  | setWaker (rid : UInt64) (interest : Interest) (waker : W)
  | park (timeout : Option UInt64) (raw : UInt64) (poll : Except IoError (List MioEvent))

/-- The reactor after a call; `none` if the call panics. -/
def call (r : Reactor W) : Op W → Option (Reactor W)
  | .registerTimer deadline waker => some (r.registerTimer deadline waker).2
  | .deregisterTimer rid => some (r.deregisterTimer rid)
  | .registerIoResource interest osResult => some (r.registerIoResource interest osResult).2
  | .deregisterIoResource rid osResult => some (r.deregisterIoResource rid osResult).2
  | .setWaker rid interest waker => r.setWaker rid interest waker
  | .park timeout raw poll => (r.park timeout raw poll).map Prod.snd

/-! ### Setting wakers -/

/-- `set_waker` does nothing if there is no interest. Else it rebuilds an I/O slot. -/
theorem setWaker_cases {r r' : Reactor W} {rid : UInt64} {interest : Interest} {waker : W}
    (h : r.setWaker rid interest waker = some r') :
    r' = r ∨ ∃ resources rw ww rw' ww', r' = { r with resources } ∧
      r.resources.get rid = some (.io rw ww) ∧
      ∀ k, resources.get k = if k = rid then some (.io rw' ww') else r.resources.get k := by
  obtain ⟨rd, wr⟩ := interest
  cases rd with
  | false =>
    cases wr with
    | false =>
      cases h
      exact .inl rfl
    | true =>
      obtain ⟨s₁, hwrite, heq⟩ := Option.bind_eq_some_iff.mp h
      cases heq
      obtain ⟨rw, ww, hio, hget⟩ := ResourceSlab.setWriteWaker_eq_some hwrite
      exact .inr ⟨s₁, rw, ww, _, _, rfl, hio, hget⟩
  | true =>
    obtain ⟨s₁, hread, hrest⟩ := Option.bind_eq_some_iff.mp h
    obtain ⟨rw, ww, hio, hget⟩ := ResourceSlab.setReadWaker_eq_some hread
    cases wr with
    | false =>
      cases hrest
      exact .inr ⟨s₁, rw, ww, _, _, rfl, hio, hget⟩
    | true =>
      obtain ⟨s₂, hwrite, heq⟩ := Option.bind_eq_some_iff.mp hrest
      cases heq
      obtain ⟨rw', ww', -, hget'⟩ := ResourceSlab.setWriteWaker_eq_some hwrite
      refine .inr ⟨s₂, rw, ww, rw', some waker, rfl, hio, fun k => ?_⟩
      rw [hget' k, hget k]
      split <;> rfl

end Reactor

end Lion
