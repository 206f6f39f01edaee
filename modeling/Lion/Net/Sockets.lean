import Lion.Executor.Tls
import Lion.Net.TcpStream
import Lion.Reactor.IoWakes

/-!
# Futures that wait on one socket

`TcpListener` and `UdpSocket` of `lion-utility`. `accept`, `recv_from` and `send_to` take `&self`,
so any number of their futures can wait on one direction of one socket. All of them wait in the same
way: they look at the flag of the direction, make the system call if it is set, and set the waker of
the direction if there was nothing to do. That is one waker for all of them, and it is not that of
the `Context`, but one for the running task.

So an event wakes the task in which the latest of these polls ran that returned pending. A future
that was last polled in another task is left waiting.

## One definition for three futures

`pollSocket` is what the polls have in common, with the direction, the answer for an unset flag and
the handling of a transfer as its parameters. `accept`, `recvFrom` and `sendTo` are that definition
at the values that each has in the source, and so are the reading and writing of a stream in
`Directions`. What is proved of `pollSocket` is that it sets one waker and clears one flag.

## Why one waker is not a slip

A slot of the reactor has room for one waker in each direction, and the polls take a `_cx` that they
do not look at: a wakeup is meant to reach the executor by way of the reactor's queue, as a note in
the code of `Sleep` says, which departs from that. Several waiters on one direction are promised
nowhere. So the result is stated as what there is instead: whom an event wakes, and that nobody else
is.

## Conventions

What the operating system answers, and the thread-locals of the executor, are arguments of a poll.
What the calls transfer is left out, and so is the text that an error of a registration is made
into. The polls of `TcpStream` are those of other code here, as are all other calls of the reactor:
they are not given the ids of these sockets, which keep them to themselves.

`Sockets.waiting` and `Sockets.latest` are not in the source. They say which futures have returned
pending when they were polled last, and for each direction in which task the latest poll ran that
returned pending.

## Main results

* `Sockets.step_ok` — the waker of a direction is that of the latest task, after every step
* `Sockets.reachable_latestWoken` — whom an event wakes
* `Sockets.not_allWoken` — two futures wait, and one is woken
-/

namespace Lion

variable {C α β : Type}

/-- A `std::task::Waker`; those that are not the reactor's may be any. -/
inductive StdWaker (C : Type)
  /-- A waker of the reactor, with `REACTOR_WAKER_VTABLE`, which is for a task. -/
  | reactor (task : TaskId)
  /-- Any other waker, which the reactor does not look into. -/
  | other (waker : C)
deriving DecidableEq, Repr

/-- `create_reactor_waker_for_current`; `none` is its panic outside of a task. -/
def createReactorWakerForCurrent (tls : Tls) : Option (StdWaker C) := tls.currentTask.map .reactor

/-! ### Polling -/

/-- The interest in a direction, and in no other. -/
def IoMode.interest : IoMode → Interest
  | .readable => ⟨true, false⟩
  | .writable => ⟨false, true⟩

/-- What a system call returns. An error other than `ErrorKind::WouldBlock` is passed on. -/
inductive Syscall (α : Type)
  | ok (a : α)
  | wouldBlock
  | error (e : IoError)
deriving DecidableEq, Repr

/-- The poll that the futures share. `finish` is what is done with the result of the system call,
and `unset` is what is returned by a poll that is complete without a result. -/
def pollSocket (mode : IoMode) (unset : Option (Poll (Except IoError β)))
    (finish : Reactor (StdWaker C) → α → Except IoError β × Reactor (StdWaker C))
    (r : Reactor (StdWaker C)) (rid : UInt64) (tls : Tls) (syscall : Syscall α) :
    Option (Poll (Except IoError β) × Reactor (StdWaker C)) :=
  let wasReady := mode.isReady r.readiness rid
  let (wouldBlock, completed, r) :=
    if wasReady then
      match syscall with
      | .ok a =>
        let (res, r) := finish r a
        (false, some (.ready res), r)
      | .wouldBlock => (true, unset, { r with readiness := mode.clear r.readiness rid })
      | .error e => (false, some (.ready (.error e)), r)
    else (false, unset, r)
  match pollStep wasReady wouldBlock with
  | .arm => do
    let waker ← createReactorWakerForCurrent tls
    let r ← r.setWaker rid mode.interest waker
    return (.pending, r)
  | .complete => completed.map fun res => (res, r)

/-- `TcpStream::from_mio`, with the answer to the registration. -/
def streamFromMio (r : Reactor (StdWaker C)) (osResult : Except IoError Unit) :
    Except IoError UInt64 × Reactor (StdWaker C) :=
  match r.registerIoResource ⟨true, true⟩ osResult with
  | (.ok rid, r) => (.ok rid, { r with readiness := Readiness.initReadiness r.readiness rid })
  | (.error e, r) => (.error e, r)

/-- `Accept::poll`; `osResult` is the answer to the registration of the stream, if there is one. -/
def accept (r : Reactor (StdWaker C)) (rid : UInt64) (tls : Tls) (syscall : Syscall Unit)
    (osResult : Except IoError Unit) :
    Option (Poll (Except IoError UInt64) × Reactor (StdWaker C)) :=
  pollSocket .readable none (fun r () => streamFromMio r osResult) r rid tls syscall

/-- `RecvFrom::poll`, which waits to read and is pending if the flag is unset. -/
def recvFrom (r : Reactor (StdWaker C)) (rid : UInt64) (tls : Tls) (syscall : Syscall α) :
    Option (Poll (Except IoError α) × Reactor (StdWaker C)) :=
  pollSocket .readable (some .pending) (fun r a => (.ok a, r)) r rid tls syscall

/-- `SendTo::poll`, which waits to write and is pending if the flag is unset. -/
def sendTo (r : Reactor (StdWaker C)) (rid : UInt64) (tls : Tls) (syscall : Syscall α) :
    Option (Poll (Except IoError α) × Reactor (StdWaker C)) :=
  pollSocket .writable (some .pending) (fun r a => (.ok a, r)) r rid tls syscall

/-! ### Sockets and their futures -/

/-- The sockets whose futures take `&self`, so that several of them may wait at once. -/
inductive SocketKind
  | tcpListener
  | udpSocket
deriving DecidableEq, Repr

/-- What a socket is registered for, in `TcpListener::new` and `UdpSocket::new`. -/
def SocketKind.interest : SocketKind → Interest
  | .tcpListener => ⟨true, false⟩
  | .udpSocket => ⟨true, true⟩

/-- The futures that wait on such a socket: `Accept`, `RecvFrom` and `SendTo`. -/
inductive SocketFuture
  | accept
  | recvFrom
  | sendTo
deriving DecidableEq, Repr

namespace SocketFuture

/-- The sockets that have the future as a method. -/
def kind : SocketFuture → SocketKind
  | .accept => .tcpListener
  | .recvFrom | .sendTo => .udpSocket

/-- The direction it waits for, which is that of the system call it makes. -/
def mode : SocketFuture → IoMode
  | .accept | .recvFrom => .readable
  | .sendTo => .writable

/-- The poll: whether it returns pending, and the reactor afterwards. -/
def poll (future : SocketFuture) (r : Reactor (StdWaker C)) (rid : UInt64) (tls : Tls)
    (syscall : Syscall Unit) (osResult : Except IoError Unit) :
    Option (Bool × Reactor (StdWaker C)) :=
  match future with
  | .accept => (Lion.accept r rid tls syscall osResult).map fun x => (!x.1.isReady, x.2)
  | .recvFrom => (Lion.recvFrom r rid tls syscall).map fun x => (!x.1.isReady, x.2)
  | .sendTo => (Lion.sendTo r rid tls syscall).map fun x => (!x.1.isReady, x.2)

end SocketFuture

/-- A future that has returned pending, with what is known of its latest poll. -/
structure PendingFuture (C : Type) where
  future : SocketFuture
  resourceId : UInt64
  /-- The waker of the `Context` of its latest poll. -/
  cx : StdWaker C
  /-- The task in which that poll ran. -/
  task : TaskId

/-- A reactor, the sockets on its thread, and their futures. -/
structure Sockets (C : Type) where
  reactor : Reactor (StdWaker C)
  /-- The sockets there are, by their resources. -/
  sockets : UInt64 → Option SocketKind
  /-- The futures whose latest poll has returned pending. -/
  waiting : ℕ → Option (PendingFuture C)
  /-- For a direction of a socket, the task of the latest poll that returned pending. -/
  latest : UInt64 → IoMode → Option TaskId

namespace Sockets

/-- What can happen to the sockets of a thread. -/
inductive Label (C : Type)
  /-- `TcpListener::new` or `UdpSocket::new` -/
  | bind (kind : SocketKind) (osResult : Except IoError Unit)
  /-- A future is polled, in the task that runs according to the thread-locals. -/
  | poll (fut : ℕ) (future : SocketFuture) (rid : UInt64) (cx : StdWaker C) (tls : Tls)
      (syscall : Syscall Unit) (osResult : Except IoError Unit)
  /-- A future is dropped. -/
  | dropFuture (fut : ℕ)
  /-- `TcpListener::drop` or `UdpSocket::drop`, after the futures, which borrow the socket. -/
  | dropSocket (rid : UInt64) (osResult : Except IoError Unit)
  /-- Other code sets or clears flags, of whichever resources. -/
  | flags (readiness : Readiness)
  /-- The reactor is called by other code, or parked. -/
  | other (c : Watched.Call (StdWaker C))

/-- One step; `none` if it panics, or if there is no such future or socket. -/
def step (s : Sockets C) : Label C → Option (Sockets C)
  | .bind kind osResult =>
    match s.reactor.registerIoResource kind.interest osResult with
    | (.ok rid, r) => some { s with
        reactor := { r with readiness := Readiness.initReadiness r.readiness rid }
        sockets := Function.update s.sockets rid (some kind)
        latest := Function.update s.latest rid fun _ => none }
    | (.error _, r) => some { s with reactor := r }
  | .poll fut future rid cx tls syscall osResult => do
    let (pending, reactor) ← future.poll s.reactor rid tls syscall osResult
    match pending, tls.currentTask with
    | true, some task => return { s with
        reactor
        waiting := Function.update s.waiting fut (some ⟨future, rid, cx, task⟩)
        latest := Function.update s.latest rid
          (Function.update (s.latest rid) future.mode (some task)) }
    | _, _ => return { s with reactor, waiting := Function.update s.waiting fut none }
  | .dropFuture fut => some { s with waiting := Function.update s.waiting fut none }
  | .dropSocket rid osResult => some { s with
      reactor := (s.reactor.deregisterIoResource rid osResult).2
      sockets := Function.update s.sockets rid none
      waiting := fun fut => (s.waiting fut).filter fun w => decide (w.resourceId ≠ rid) }
  | .flags readiness => some { s with reactor := { s.reactor with readiness } }
  | .other c => (Watched.call s.reactor c).map fun reactor => { s with reactor }

/-- Futures and drops are those of sockets. Other code keeps away from the ids of sockets, and
deregisters no I/O resource as a timer. -/
def Permits (s : Sockets C) : Label C → Prop
  | .poll _ future rid _ _ _ _ => s.sockets rid = some future.kind
  | .dropSocket rid _ => s.sockets rid ≠ none
  | .other (.op (.setWaker rid _ _)) | .other (.op (.deregisterIoResource rid _)) =>
    s.sockets rid = none
  | .other (.op (.deregisterTimer rid)) | .other (.deregisterTimer rid) =>
    Reactor.ioSlot s.reactor.resources rid = none
  | .bind _ _ | .dropFuture _ | .flags _ | .other (.op (.registerTimer _ _))
  | .other (.op (.registerIoResource _ _)) | .other (.op (.park _ _ _))
  | .other (.registerTimer _ _) | .other .flushPendingDeregister => True

/-- Sockets as a machine: none at first, on a new reactor. -/
def machine (C : Type) : Machine (Sockets C) (Label C) where
  init s := ∃ readiness cachedNow,
    s = ⟨{ (Reactor.new : Reactor (StdWaker C)) with readiness, cachedNow }, fun _ => none,
      fun _ => none, fun _ _ => none⟩
  step s l s' := s.Permits l ∧ s.step l = some s'

/-! ### What a poll does -/

variable {s s' : Sockets C} {l : Label C} {r r' : Reactor (StdWaker C)} {rid k : UInt64}

/-- A poll sets the waker of its direction to that of the running task, or returns ready. -/
theorem pollSocket_cases {mode : IoMode} {unset : Option (Poll (Except IoError β))}
    {finish : Reactor (StdWaker C) → α → Except IoError β × Reactor (StdWaker C)} {tls : Tls}
    {syscall : Syscall α} {pending : Bool}
    (h : (pollSocket mode unset finish r rid tls syscall).map (fun x => (!x.1.isReady, x.2)) =
      some (pending, r')) :
    (pending = true ∧ ∃ task readiness, tls.currentTask = some task ∧
      Reactor.setWaker { r with readiness } rid mode.interest (.reactor task) = some r') ∨
    (pending = false ∧ (r' = r ∨ ∃ a, r' = (finish r a).2)) := by
  obtain ⟨⟨res, r₁⟩, hpoll, heq⟩ := Option.map_eq_some_iff.mp h
  cases heq
  have harm : ∀ readiness, ((createReactorWakerForCurrent tls).bind fun waker =>
      (Reactor.setWaker { r with readiness } rid mode.interest waker).bind fun r =>
        some ((.pending : Poll (Except IoError β)), r)) = some (res, r₁) →
      (!res.isReady) = true ∧ ∃ task readiness, tls.currentTask = some task ∧
        Reactor.setWaker { r with readiness } rid mode.interest (.reactor task) = some r₁ := by
    intro readiness harm
    obtain ⟨waker, hwaker, hset⟩ := Option.bind_eq_some_iff.mp harm
    obtain ⟨task, htask, rfl⟩ := Option.map_eq_some_iff.mp hwaker
    obtain ⟨r₂, hset, heq⟩ := Option.bind_eq_some_iff.mp hset
    cases heq
    exact ⟨rfl, task, readiness, htask, hset⟩
  unfold pollSocket at hpoll
  cases hready : mode.isReady r.readiness rid with
  | false =>
    simp only [hready] at hpoll
    exact .inl (harm r.readiness hpoll)
  | true =>
    simp only [hready] at hpoll
    cases syscall with
    | ok a =>
      cases hpoll
      exact .inr ⟨rfl, .inr ⟨a, rfl⟩⟩
    | wouldBlock => exact .inl (harm _ hpoll)
    | error e =>
      cases hpoll
      exact .inr ⟨rfl, .inl rfl⟩

/-- So do the polls of the futures; a stream is registered when one is accepted. -/
theorem poll_cases {future : SocketFuture} {tls : Tls} {syscall : Syscall Unit}
    {osResult : Except IoError Unit} {pending : Bool}
    (h : future.poll r rid tls syscall osResult = some (pending, r')) :
    (pending = true ∧ ∃ task readiness, tls.currentTask = some task ∧
      Reactor.setWaker { r with readiness } rid future.mode.interest (.reactor task) = some r') ∨
    (pending = false ∧ (r' = r ∨ r' = (streamFromMio r osResult).2)) := by
  cases future with
  | accept =>
    rcases pollSocket_cases h with hset | ⟨hready, hsame | ⟨_, haccept⟩⟩
    · exact .inl hset
    · exact .inr ⟨hready, .inl hsame⟩
    · exact .inr ⟨hready, .inr haccept⟩
  | recvFrom =>
    rcases pollSocket_cases h with hset | ⟨hready, hsame | ⟨_, hsame⟩⟩
    · exact .inl hset
    · exact .inr ⟨hready, .inl hsame⟩
    · exact .inr ⟨hready, .inl hsame⟩
  | sendTo =>
    rcases pollSocket_cases h with hset | ⟨hready, hsame | ⟨_, hsame⟩⟩
    · exact .inl hset
    · exact .inr ⟨hready, .inl hsame⟩
    · exact .inr ⟨hready, .inl hsame⟩

/-! ### The waker of a direction -/

/-- What holds in every run of the sockets and the code around them. -/
structure Ok (s : Sockets C) : Prop where
  /-- Timers and I/O resources do not share ids. -/
  apart : s.reactor.Apart
  /-- The waker of a direction is that of the latest task, and there is none if there is no such
  task. -/
  wakers : ∀ rid kind, s.sockets rid = some kind →
    Reactor.ioSlot s.reactor.resources rid = some fun mode => (s.latest rid mode).map .reactor
  /-- A future that waits is one of a socket, and there is a latest task. -/
  waiting : ∀ fut w, s.waiting fut = some w → s.sockets w.resourceId = some w.future.kind ∧
    ∃ task, s.latest w.resourceId w.future.mode = some task

/-- The id of a socket has been handed out. -/
theorem Ok.lt_next (h : s.Ok) {kind : SocketKind} (hk : s.sockets k = some kind) :
    k < s.reactor.nextResourceId :=
  h.apart.fresh k _ (Reactor.ioSlot_eq_some (h.wakers k kind hk))

/-- Something is done that leaves sockets alone, so that what holds of them stays. -/
theorem Ok.keep (h : s.Ok) (hapart : r.Apart) (hio : ∀ k kind, s.sockets k = some kind →
    Reactor.ioSlot r.resources k = Reactor.ioSlot s.reactor.resources k) :
    Ok { s with reactor := r } :=
  ⟨hapart, fun k kind hk => (hio k kind hk).trans (h.wakers k kind hk), h.waiting⟩

/-- Registering a resource does, as its id is new. -/
theorem Ok.register (h : s.Ok) (interest : Interest) (osResult : Except IoError Unit) :
    (s.reactor.registerIoResource interest osResult).2.Apart ∧
      ∀ k kind, s.sockets k = some kind →
        Reactor.ioSlot (s.reactor.registerIoResource interest osResult).2.resources k =
          Reactor.ioSlot s.reactor.resources k := by
  obtain ⟨hapart, -, hio, hrid, -⟩ :=
    Reactor.ioSlot_registerIoResource h.apart interest osResult
  exact ⟨hapart, fun k kind hk =>
    (hio k).trans (Reactor.registered_of_lt hrid (h.lt_next hk))⟩

/-- A future that stops waiting, because it was dropped or has returned. -/
theorem Ok.forget (h : s.Ok) (fut : ℕ) :
    Ok { s with waiting := Function.update s.waiting fut none } := by
  refine ⟨h.apart, h.wakers, fun fut' w hw => ?_⟩
  by_cases heq : fut' = fut
  · subst heq
    cases (Function.update_self _ _ _).symm.trans hw
  · exact h.waiting fut' w ((Function.update_of_ne heq _ _).symm.trans hw)

theorem ok_init (h : (machine C).init s) : s.Ok := by
  obtain ⟨readiness, cachedNow, rfl⟩ := h
  have hnew := Watched.faithful_init (W := StdWaker C) (s := ⟨{ Reactor.new with
    readiness, cachedNow }, fun _ => none⟩) ⟨readiness, cachedNow, rfl⟩
  exact ⟨hnew.apart, nofun, nofun⟩

theorem Ok.bind (h : s.Ok) {kind : SocketKind} {osResult : Except IoError Unit}
    (hstep : s.step (.bind kind osResult) = some s') : s'.Ok := by
  obtain ⟨hapart, hkeep⟩ := h.register kind.interest osResult
  obtain ⟨-, -, hio, hrid, -⟩ :=
    Reactor.ioSlot_registerIoResource h.apart kind.interest osResult
  rw [step] at hstep
  rcases hreg : s.reactor.registerIoResource kind.interest osResult with ⟨e | rid, r⟩
  · rw [hreg] at hstep hapart hkeep
    cases hstep
    exact h.keep hapart hkeep
  · rw [hreg] at hstep hapart hkeep hio hrid
    cases hstep
    have hne : ∀ k kind, s.sockets k = some kind → k ≠ rid := by
      rintro k kind' hk rfl
      exact UInt64.lt_irrefl _ (hrid k rfl ▸ h.lt_next hk)
    refine ⟨⟨hapart.fresh, hapart.timerId⟩, fun k kind' hk => ?_, fun fut w hw => ?_⟩
    · by_cases heq : k = rid
      · subst heq
        refine (hio k).trans ?_
        simp [Reactor.registered]
      · have hold : s.sockets k = some kind' := (Function.update_of_ne heq _ _).symm.trans hk
        refine ((hkeep k kind' hold).trans (h.wakers k kind' hold)).trans ?_
        simp [Function.update_of_ne heq]
    · obtain ⟨hsocket, task, htask⟩ := h.waiting fut w hw
      have heq := hne _ _ hsocket
      exact ⟨(Function.update_of_ne heq _ _).trans hsocket, task,
        (congrFun (Function.update_of_ne heq _ _) _).trans htask⟩

theorem Ok.dropSocket (h : s.Ok) {osResult : Except IoError Unit}
    (hstep : s.step (.dropSocket rid osResult) = some s') : s'.Ok := by
  cases hstep
  obtain ⟨hapart, hio, -⟩ := Reactor.ioSlot_deregisterIoResource h.apart rid osResult
  refine ⟨hapart, fun k kind hk => ?_, fun fut w hw => ?_⟩
  · by_cases heq : k = rid
    · subst heq
      cases (Function.update_self _ _ _).symm.trans hk
    · refine (hio k).trans ((Function.update_of_ne heq _ _).trans ?_)
      exact h.wakers k kind ((Function.update_of_ne heq _ _).symm.trans hk)
  · obtain ⟨hold, hne⟩ := Option.filter_eq_some_iff.mp hw
    obtain ⟨hsocket, hlatest⟩ := h.waiting fut w hold
    exact ⟨(Function.update_of_ne (of_decide_eq_true hne) _ _).trans hsocket, hlatest⟩

/-- A poll that returns pending, and is the latest of its direction from now on. -/
theorem Ok.pending (h : s.Ok) {fut : ℕ} {future : SocketFuture} {cx : StdWaker C} {task : TaskId}
    {readiness : Readiness} (hsocket : s.sockets rid = some future.kind)
    (hset : Reactor.setWaker { s.reactor with readiness } rid future.mode.interest
      (.reactor task) = some r) :
    Ok { s with
      reactor := r
      waiting := Function.update s.waiting fut (some ⟨future, rid, cx, task⟩)
      latest := Function.update s.latest rid
        (Function.update (s.latest rid) future.mode (some task)) } := by
  have hflags : Reactor.Apart { s.reactor with readiness } := ⟨h.apart.fresh, h.apart.timerId⟩
  have hapart := hflags.setWaker hset
  obtain ⟨resources, rfl, hother, hnew⟩ := Reactor.ioSlot_setWaker hset
  have hself : ∀ mode, Function.update s.latest rid
      (Function.update (s.latest rid) future.mode (some task)) rid mode =
        if mode = future.mode then some task else s.latest rid mode := by
    intro mode
    rw [Function.update_self, Function.update_apply]
  refine ⟨hapart, fun k kind hk => ?_, fun fut' w hw => ?_⟩
  · by_cases heq : k = rid
    · subst heq
      refine hnew.trans ((congrArg _ (h.wakers k kind hk)).trans (congrArg some ?_))
      funext mode
      dsimp only
      rw [hself]
      cases future.mode <;> cases mode <;> rfl
    · refine (Reactor.ioSlot_congr (hother k heq)).trans ((h.wakers k kind hk).trans ?_)
      exact congrArg some (funext fun mode =>
        congrArg (Option.map _) (congrFun (Function.update_of_ne heq _ _) mode).symm)
  · by_cases hfut : fut' = fut
    · subst hfut
      cases (Function.update_self _ _ _).symm.trans hw
      exact ⟨hsocket, task, (hself _).trans (if_pos rfl)⟩
    · obtain ⟨hold, task', htask'⟩ :=
        h.waiting fut' w ((Function.update_of_ne hfut _ _).symm.trans hw)
      refine ⟨hold, ?_⟩
      by_cases heq : w.resourceId = rid
      · refine ⟨if w.future.mode = future.mode then task else task', ?_⟩
        dsimp only
        rw [heq] at htask' ⊢
        rw [hself, htask']
        split <;> rfl
      · exact ⟨task', (congrFun (Function.update_of_ne heq _ _) _).trans htask'⟩

theorem Ok.poll (h : s.Ok) {fut : ℕ} {future : SocketFuture} {cx : StdWaker C} {tls : Tls}
    {syscall : Syscall Unit} {osResult : Except IoError Unit}
    (hsocket : s.sockets rid = some future.kind)
    (hstep : s.step (.poll fut future rid cx tls syscall osResult) = some s') : s'.Ok := by
  obtain ⟨⟨pending, r⟩, hpoll, hrest⟩ := Option.bind_eq_some_iff.mp hstep
  rcases poll_cases hpoll with ⟨rfl, task, readiness, htask, hset⟩ | ⟨rfl, hr⟩
  · rw [htask] at hrest
    cases hrest
    exact h.pending hsocket hset
  · cases hrest
    refine Ok.forget (s := { s with reactor := r }) ?_ fut
    rcases hr with rfl | rfl
    · exact h
    · obtain ⟨hapart, hkeep⟩ := h.register ⟨true, true⟩ osResult
      rw [streamFromMio]
      rcases hreg : s.reactor.registerIoResource ⟨true, true⟩ osResult with ⟨e | stream, r₁⟩
      · rw [hreg] at hapart hkeep
        exact h.keep hapart hkeep
      · rw [hreg] at hapart hkeep
        exact h.keep ⟨hapart.fresh, hapart.timerId⟩ hkeep

/-- Other code is permitted what it is by `Watched`. -/
theorem permits_watched {c : Watched.Call (StdWaker C)} (h : s.Permits (.other c)) :
    Watched.Permits ⟨s.reactor, Reactor.ioSlot s.reactor.resources⟩ c := by
  cases c with
  | op op =>
    cases op with
    | deregisterTimer rid => exact h
    | registerTimer => trivial
    | registerIoResource => trivial
    | deregisterIoResource => trivial
    | setWaker => trivial
    | park => trivial
  | registerTimer => trivial
  | deregisterTimer rid => exact h
  | flushPendingDeregister => trivial

/-- Other code leaves sockets alone, as it is not given their ids. -/
theorem Ok.other (h : s.Ok) {c : Watched.Call (StdWaker C)} (hperm : s.Permits (.other c))
    (hcall : Watched.call s.reactor c = some r) : Ok { s with reactor := r } := by
  obtain ⟨⟨hapart, hagrees⟩, -⟩ := Watched.step_faithful
    (s := ⟨s.reactor, Reactor.ioSlot s.reactor.resources⟩) ⟨h.apart, fun _ => rfl⟩
    ⟨permits_watched hperm, r, hcall, rfl⟩
  refine h.keep hapart fun k kind hk => ?_
  have hne : ∀ rid, s.sockets rid = none → k ≠ rid := by
    rintro rid hnone rfl
    cases hnone.symm.trans hk
  cases c with
  | op op =>
    cases op with
    | registerTimer => exact hagrees k
    | deregisterTimer => exact hagrees k
    | park => exact hagrees k
    | registerIoResource interest osResult =>
      cases hcall
      exact (h.register interest osResult).2 k kind hk
    | deregisterIoResource rid osResult =>
      exact (hagrees k).trans (Function.update_of_ne (hne rid hperm) _ _)
    | setWaker rid interest waker =>
      exact (hagrees k).trans (Function.update_of_ne (hne rid hperm) _ _)
  | registerTimer => exact hagrees k
  | deregisterTimer => exact hagrees k
  | flushPendingDeregister => exact hagrees k

/-- **One step** keeps slots, futures and the latest tasks in agreement. -/
theorem step_ok (h : s.Ok) (hstep : (machine C).step s l s') : s'.Ok := by
  obtain ⟨hperm, hstep⟩ := hstep
  cases l with
  | bind kind osResult => exact h.bind hstep
  | poll fut future rid cx tls syscall osResult => exact h.poll hperm hstep
  | dropFuture fut =>
    cases hstep
    exact h.forget fut
  | dropSocket rid osResult => exact h.dropSocket hstep
  | flags readiness =>
    cases hstep
    exact h.keep ⟨h.apart.fresh, h.apart.timerId⟩ fun _ _ _ => rfl
  | other c =>
    obtain ⟨r, hcall, rfl⟩ := Option.map_eq_some_iff.mp hstep
    exact h.other hperm hcall

theorem ok_of_reachable (h : (machine C).Reachable s) : s.Ok :=
  h.invariant (fun _ => ok_init) fun _ _ _ hs hstep => step_ok hs hstep

/-! ### Whom an event wakes -/

/-- The calls for an event of a socket: the latest task of the direction is woken, if there is one,
and once. -/
def eventWakes (s : Sockets C) (event : IoEvent) : List (OutboundCall (StdWaker C)) :=
  .ioEventReady event :: ((s.latest event.resourceId event.mode).map fun task =>
    .wakeTask (.reactor task) event.resourceId).toList

/-- What the slab says of an event is what the latest task says. -/
theorem Ok.eventCalls_eq (h : s.Ok) {event : IoEvent} {kind : SocketKind}
    (hsocket : s.sockets event.resourceId = some kind) :
    Reactor.eventCalls (Reactor.ioSlot s.reactor.resources) event = s.eventWakes event := by
  rw [Reactor.eventCalls, eventWakes, h.wakers _ kind hsocket, Option.bind_some, Option.map_map]
  rfl

/-- **The latest task is woken.** In every state that sockets, their futures and other code lead
to, a park returns, and for each event of a socket, in order, it wakes the task of the latest poll
of the direction that returned pending, if there is one, and nobody else; besides it wakes on behalf
of other resources. For a future that waits there is such a task; it is woken by an event of its
direction with the waker of its `Context`, or in its own task, exactly if that is the waker of the
latest task. -/
theorem reachable_latestWoken (h : (machine C).Reachable s) :
    (∀ timeout raw poll, ∃ (wakes : List (StdWaker C × UInt64)) (r : Reactor (StdWaker C)),
      s.reactor.park timeout raw poll = some (poll.map fun _ => (), r) ∧
      (∀ w k, (w, k) ∈ wakes → s.sockets k = none) ∧
      r.log = s.reactor.log ++ [.getCurrentTime (s.reactor.getCurrentTime raw).1,
        .pollEvents (Reactor.effectiveTimeout timeout s.reactor.nextDeadline
          (s.reactor.getCurrentTime raw).1)] ++ wakes.map (fun x => .wakeTask x.1 x.2) ++
        Reactor.pollCalls (Reactor.ioSlot s.reactor.resources) poll) ∧
    (∀ event kind, s.sockets event.resourceId = some kind →
      Reactor.eventCalls (Reactor.ioSlot s.reactor.resources) event = s.eventWakes event) ∧
    ∀ fut w, s.waiting fut = some w → s.sockets w.resourceId = some w.future.kind ∧
      ∃ task, s.latest w.resourceId w.future.mode = some task ∧
        ∀ event : IoEvent, event.resourceId = w.resourceId → event.mode = w.future.mode →
          s.eventWakes event = [.ioEventReady event, .wakeTask (.reactor task) w.resourceId] ∧
          (.wakeTask w.cx w.resourceId ∈ s.eventWakes event ↔ w.cx = .reactor task) ∧
          (.wakeTask (.reactor w.task) w.resourceId ∈ s.eventWakes event ↔ w.task = task) := by
  have hok := ok_of_reachable h
  refine ⟨fun timeout raw poll => ?_, fun event kind hsocket => hok.eventCalls_eq hsocket,
    fun fut w hw => ?_⟩
  · obtain ⟨wakes, r, hpark, -, hwakes, hlog⟩ := Reactor.park_io hok.apart timeout raw poll
    refine ⟨wakes, r, hpark, fun w k hmem => ?_, hlog⟩
    cases hk : s.sockets k with
    | none => rfl
    | some kind => cases (hok.wakers k kind hk).symm.trans (hwakes w k hmem)
  · obtain ⟨hsocket, task, htask⟩ := hok.waiting fut w hw
    refine ⟨hsocket, task, htask, fun event hrid hmode => ?_⟩
    have heq : s.eventWakes event =
        [.ioEventReady event, .wakeTask (.reactor task) w.resourceId] := by
      rw [eventWakes, hrid, hmode, htask]
      rfl
    rw [heq]
    exact ⟨rfl, by simp, by simp⟩

/-- Two tasks accept on one listener, one after the other. -/
theorem twoTasks : ∃ s : Sockets TaskId, (machine TaskId).Reachable s ∧
    s.waiting 0 = some ⟨.accept, 1, .other 1, 1⟩ ∧ s.waiting 1 = some ⟨.accept, 1, .other 2, 2⟩ ∧
    s.latest 1 .readable = some 2 := by
  have hbind := (Machine.Reachable.of_init (M := machine TaskId) ⟨[], none, rfl⟩).step
    (a := Label.bind .tcpListener (.ok ())) ⟨trivial, rfl⟩
  have hfirst := hbind.step (a := Label.poll 0 .accept 1 (.other 1)
    { Tls.new with currentTask := some 1 } .wouldBlock (.ok ())) ⟨rfl, rfl⟩
  have hsecond := hfirst.step (a := Label.poll 1 .accept 1 (.other 2)
    { Tls.new with currentTask := some 2 } .wouldBlock (.ok ())) ⟨rfl, rfl⟩
  exact ⟨_, hsecond, rfl, rfl, rfl⟩

/-- They are both waiting, and a readable event wakes the second. -/
theorem reachable_latestWoken_twoTasks : ∃ s : Sockets TaskId, (machine TaskId).Reachable s ∧
    s.waiting 0 = some ⟨.accept, 1, .other 1, 1⟩ ∧ s.waiting 1 = some ⟨.accept, 1, .other 2, 2⟩ ∧
    Reactor.eventCalls (Reactor.ioSlot s.reactor.resources)
        ⟨1, .readable, false, false, false⟩ =
      [.ioEventReady ⟨1, .readable, false, false, false⟩, .wakeTask (.reactor 2) 1] := by
  obtain ⟨s, hreach, hfirst, hsecond, hlatest⟩ := twoTasks
  obtain ⟨-, hcalls, hwaiting⟩ := reachable_latestWoken hreach
  obtain ⟨hsocket, task, htask, hwoken⟩ := hwaiting 1 _ hsecond
  cases hlatest.symm.trans htask
  refine ⟨s, hreach, hfirst, hsecond, ?_⟩
  rw [hcalls _ _ hsocket]
  exact (hwoken _ rfl rfl).1

/-- The first is left waiting, with the waker of its `Context` and in its own task. -/
theorem not_allWoken :
    ¬ ∀ s : Sockets TaskId, (machine TaskId).Reachable s → ∀ fut w (event : IoEvent),
      s.waiting fut = some w → event.resourceId = w.resourceId → event.mode = w.future.mode →
      .wakeTask w.cx w.resourceId ∈
          Reactor.eventCalls (Reactor.ioSlot s.reactor.resources) event ∨
        .wakeTask (.reactor w.task) w.resourceId ∈
          Reactor.eventCalls (Reactor.ioSlot s.reactor.resources) event := by
  intro hall
  obtain ⟨s, hreach, hfirst, -, hlatest⟩ := twoTasks
  have hok := ok_of_reachable hreach
  have hcalls : Reactor.eventCalls (Reactor.ioSlot s.reactor.resources)
      ⟨1, .readable, false, false, false⟩ =
        [.ioEventReady ⟨1, .readable, false, false, false⟩, .wakeTask (.reactor 2) 1] := by
    rw [hok.eventCalls_eq (hok.waiting 0 _ hfirst).1, eventWakes, hlatest]
    rfl
  have hwoken := hall s hreach 0 _ ⟨1, .readable, false, false, false⟩ hfirst rfl rfl
  rw [hcalls] at hwoken
  simp at hwoken

end Sockets

end Lion
