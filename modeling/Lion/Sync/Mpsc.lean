import Lion.Library.Machine
import Lion.Poll
import Lion.Sync.Kernel

/-!
# The bounded mpsc channel

`mpsc::channel` of `lion-utility`: a buffer of values behind a mutex, a `ChannelKernel` that says
when it is full or empty, and two `WaiterKernel`s, for the receiver and for the senders. Every
operation holds the mutex from beginning to end, so operations are the steps of this model.

A sender that finds the channel full parks under a fresh id. A slot that becomes free wakes the
sender that parked first, by taking its id from the queue; the wake is a hint, and whoever polls
first may take the slot. A sender that is dropped after it was woken passes the hint on.

The receiver has one waker for all its polls, and a kernel in which at most one id is queued. Its
waker is taken out whenever a value arrives, and when the last sender goes.

## Two layers

`Inner` is what the mutex guards. Its functions are the bodies of the source's, and they return what
the source carries out of the critical section: the result, and the wakers that it calls once the
mutex has been let go. `Channel` puts around it whatever can hold a reference to it, and its steps
are the calls there are: each looks for the object that it is a method of, runs the function of
`Inner`, and writes back what that left.

Nothing that is proved about a run unfolds `step`. What a step can be is said once, by `Stepped` and
`step_cases`, with the guards and the equation of the function it runs, and the files that build on
this one go through its cases.

## Conventions

`Channel` is the channel with what is alive around it: the futures of `send` and `reserve`, by
number, the permits, and the future of `recv`. Dropping is a step. A future of `send` or `reserve`
that has returned ready is not polled again, as the contract of `Future` says. The borrows of the
source are not all here: a sender may be dropped while its futures live.

The loops of the source that a stored permit sends round once more have a number of turns here, one
more than there are permits stored. A turn that does not end the poll takes one of these, so that
the number is never what ends it. For the receiver this is `isSome_pollRecvLoop`.

Three things are not in the source and nothing depends on them. `SenderFuture.woken` says that the
future was taken from the queue, to be woken, and was not polled since; `accepted` and `received`
are the values sent and received so far. In a result, `none` is a panic.

## Main definitions

* `Inner` — what the mutex guards, and the functions of the source on it
* `Channel` — the channel, and the objects that refer to it
* `Channel.machine` — the channel under calls in any order
* `Channel.Stepped` — what a call can be, guards included
-/

namespace Lion.Mpsc

variable {T W : Type}

/-- `TrySendError`, of `try_reserve`. -/
inductive TrySendError
  | full
  | closed
deriving DecidableEq, Repr

/-- `BoundedInner`, which the mutex guards, with values in `T` and wakers in `W`. -/
structure Inner (T W : Type) where
  /-- The waiter of the receiver. At most one id is ever in its queue. -/
  rxKernel : WaiterKernel
  /-- The waiters of the senders, in the order in which they have parked. -/
  txKernel : WaiterKernel
  /-- How many slots hold a value, and how many are reserved. -/
  ckernel : ChannelKernel
  buffer : List T
  /-- The waker of the receiver's latest poll that has returned pending, until it is woken or
  gone. -/
  rxWaker : Option W
  /-- The wakers of the senders that have parked, under the ids they have parked under. -/
  txWakers : List (ℕ × W)
  senderCount : ℕ
  /-- The receiver has closed the channel, or it is gone. -/
  rxClosed : Bool
  /-- The id that the receiver gets when it parks next. -/
  rxNextId : ℕ
  /-- The id that a sender gets when it parks next. -/
  txNextId : ℕ
deriving DecidableEq, Repr

/-- What the futures of `send` and `reserve` have in common. -/
structure Waiter where
  /-- The id it last parked under, which says something only if it has parked. -/
  id : ℕ
  parked : Bool
  /-- It has got its slot, and there is no waiter to withdraw when it is dropped. -/
  completed : Bool
deriving DecidableEq, Repr

/-- A future that has not been polled. -/
def Waiter.new : Waiter := ⟨0, false, false⟩

/-- `Recv`, the future of `recv`. It keeps its id for as long as it lives. -/
structure Recv where
  id : ℕ
  parked : Bool
deriving DecidableEq, Repr

namespace Inner

/-- The channel that `channel` makes: empty, open, with one sender. -/
def new (capacity : ℕ) : Inner T W where
  rxKernel := .new
  txKernel := .new
  ckernel := .new capacity
  buffer := []
  rxWaker := none
  txWakers := []
  senderCount := 1
  rxClosed := false
  rxNextId := 0
  txNextId := 0

/-! ### Waking -/

/-- `wake_rx_bounded`: the waker to wake. The action of the kernel is ignored, as in the source:
what is called is the waker in the slot, whatever the kernel has in its queue. -/
def wakeRx (g : Inner T W) : Option (Option W × Inner T W) := do
  let (_, rxKernel) ← g.rxKernel.signalStep
  return (g.rxWaker, { g with rxKernel, rxWaker := none })

/-- The loop of `wake_one_tx_bounded`, which passes over ids that have no waker. It ends after as
many turns as there are waiters. -/
def wakeOneTxLoop : ℕ → Inner T W → Option (ℕ × W) × Inner T W
  | 0, g => (none, g)
  | n + 1, g =>
    if 0 < g.txKernel.queue.length then
      match g.txKernel.signalStep with
      | some (.woke id, txKernel) =>
        match g.txWakers.find? (·.1 = id) with
        | some entry =>
          (some entry, { g with txKernel, txWakers := g.txWakers.eraseP (·.1 = id) })
        | none => wakeOneTxLoop n { g with txKernel }
      | some (.stored, txKernel) => (none, { g with txKernel })
      | none => (none, g)
    else (none, g)

/-- `wake_one_tx_bounded`: the entry of the sender to wake, which is out of the queue and of the
table then. -/
def wakeOneTx (g : Inner T W) : Option (ℕ × W) × Inner T W :=
  wakeOneTxLoop g.txKernel.queue.length g

/-- `remove_tx_waiter`: the id leaves the queue and the table, and whether it was in the queue. -/
def removeTxWaiter (g : Inner T W) (id : ℕ) : Bool × Inner T W :=
  let (removed, txKernel) := g.txKernel.removeStep id
  (removed, { g with txKernel, txWakers := g.txWakers.eraseP (·.1 = id) })

/-- `drop_tx_waiter`, of a sender that goes without a slot. If its id is not queued any more, it has
had a wake that it did not use, and another sender is woken in its place. -/
def dropTxWaiter (g : Inner T W) (f : Waiter) : Option (ℕ × W) × Inner T W :=
  if f.completed || !f.parked then (none, g)
  else
    match g.removeTxWaiter f.id with
    | (true, g) => (none, g)
    | (false, g) => g.wakeOneTx

/-! ### Senders -/

/-- `Sender::try_send`: the result, and the receiver's waker, which is woken when the mutex has been
let go. -/
def trySend (g : Inner T W) (value : T) : Option (Except T Unit × Option W × Inner T W) :=
  if g.rxClosed then some (.error value, none, g)
  else
    match g.ckernel.tryPush with
    | (true, ckernel) => do
      let (w, g) ← { g with ckernel, buffer := g.buffer ++ [value] }.wakeRx
      return (.ok (), w, g)
    | (false, ckernel) => some (.error value, none, { g with ckernel })

/-- `Sender::try_reserve`: a slot, if there is one, and nobody is woken. -/
def tryReserve (g : Inner T W) : Except TrySendError Unit × Inner T W :=
  if g.rxClosed then (.error .closed, g)
  else
    match g.ckernel.reserve with
    | (true, ckernel) => (.ok (), { g with ckernel })
    | (false, ckernel) => (.error .full, { g with ckernel })

/-- `Permit::send`: the receiver's waker, to be woken. -/
def permitSend (g : Inner T W) (value : T) : Option (Option W × Inner T W) :=
  { g with ckernel := g.ckernel.fill, buffer := g.buffer ++ [value] }.wakeRx

/-- `Permit::drop`, of a permit that was not used: its slot is free, and the sender to wake for
it. -/
def permitDrop (g : Inner T W) : Option (ℕ × W) × Inner T W :=
  { g with ckernel := g.ckernel.unreserve }.wakeOneTx

/-- The end of `poll` of a sender that has its slot: it withdraws if it had parked. -/
def withdraw (g : Inner T W) (f : Waiter) : Inner T W :=
  if f.parked then (g.removeTxWaiter f.id).2 else g

/-- The rest of a turn of the loop in `poll`, when there is no slot: a sender that has parked and is
still in the table has its waker refreshed, and any other parks under a fresh id. Whether the poll
is over; it is not if the kernel had a permit stored. -/
def parkTx (g : Inner T W) (f : Waiter) (waker : W) : Option (Bool × Inner T W × Waiter) :=
  if f.parked && g.txWakers.any (·.1 = f.id) then
    let refresh := fun entry => if entry.1 = f.id then (f.id, waker) else entry
    some (true, { g with txWakers := g.txWakers.map refresh }, f)
  else do
    let id := g.txNextId
    let txNextId ← succ64 id
    match g.txKernel.waitStep id with
    | (.ready, txKernel) => return (false, { g with txNextId, txKernel }, f)
    | (.park _, txKernel) =>
      return (true, { g with txNextId, txKernel, txWakers := g.txWakers ++ [(id, waker)] },
        { f with id, parked := true })

/-- The loop of `Send::poll`, for a number of turns: the result, and the receiver's waker, to be
woken. The future keeps its value until it is sent. -/
def pollSendLoop : ℕ → Inner T W → Waiter → Option T → W →
    Option (Poll (Except T Unit) × Option W × Inner T W × Waiter × Option T)
  | 0, _, _, _, _ => none
  | n + 1, g, f, value, waker =>
    if g.rxClosed then do
      let v ← value
      return (.ready (.error v), none, g, f, none)
    else
      match g.ckernel.tryPush with
      | (true, ckernel) => do
        let v ← value
        let (w, g) ← ({ g with ckernel, buffer := g.buffer ++ [v] }.withdraw f).wakeRx
        return (.ready (.ok ()), w, g, { f with completed := true }, none)
      | (false, ckernel) => do
        let (ended, g, f) ← { g with ckernel }.parkTx f waker
        if ended then return (.pending, none, g, f, value) else pollSendLoop n g f value waker

/-- `Send::poll`. A turn that does not end it takes a permit of the kernel. -/
def pollSend (g : Inner T W) (f : Waiter) (value : Option T) (waker : W) :
    Option (Poll (Except T Unit) × Option W × Inner T W × Waiter × Option T) :=
  pollSendLoop (g.txKernel.permit + 1) g f value waker

/-- The loop of `Reserve::poll`, for a number of turns. -/
def pollReserveLoop : ℕ → Inner T W → Waiter → W →
    Option (Poll (Except Unit Unit) × Inner T W × Waiter)
  | 0, _, _, _ => none
  | n + 1, g, f, waker =>
    if g.rxClosed then some (.ready (.error ()), g, f)
    else
      match g.ckernel.reserve with
      | (true, ckernel) =>
        some (.ready (.ok ()), { g with ckernel }.withdraw f, { f with completed := true })
      | (false, ckernel) => do
        let (ended, g, f) ← { g with ckernel }.parkTx f waker
        if ended then return (.pending, g, f) else pollReserveLoop n g f waker

/-- `Reserve::poll`, which differs from `Send::poll` in that a slot is all it asks for. -/
def pollReserve (g : Inner T W) (f : Waiter) (waker : W) :
    Option (Poll (Except Unit Unit) × Inner T W × Waiter) :=
  pollReserveLoop (g.txKernel.permit + 1) g f waker

/-- `Sender::clone`, which panics when there are more senders than the counter can hold. -/
def cloneSender (g : Inner T W) : Option (Inner T W) := do
  let senderCount ← succ64 g.senderCount
  return { g with senderCount }

/-- `Sender::drop`: the receiver's waker, to be woken if this was the last sender. -/
def dropSender (g : Inner T W) : Option (Option W × Inner T W) :=
  let g := { g with senderCount := g.senderCount - 1 }
  if g.senderCount = 0 then g.wakeRx else some (none, g)

/-! ### The receiver -/

/-- The end of `try_recv` and of `Recv::poll` after a pop of the kernel. The pop of the buffer that
follows it is unwrapped. -/
def popFront (g : Inner T W) (ckernel : ChannelKernel) :
    Option (T × Option (ℕ × W) × Inner T W) :=
  match g.buffer with
  | [] => none
  | value :: buffer =>
    let (woken, g) := { g with ckernel, buffer }.wakeOneTx
    some (value, woken, g)

/-- `Receiver::try_recv`: a value, if there is one, and the sender to wake for its slot. -/
def tryRecv (g : Inner T W) : Option (Option T × Option (ℕ × W) × Inner T W) :=
  match g.ckernel.pop with
  | (true, ckernel) => do
    let (value, woken, g) ← g.popFront ckernel
    return (some value, woken, g)
  | (false, ckernel) => some (none, none, { g with ckernel })

/-- `Receiver::close`: the wakers of all senders, to be called. Their ids stay in the queue. -/
def close (g : Inner T W) : List W × Inner T W :=
  (g.txWakers.map Prod.snd, { g with rxClosed := true, txWakers := [] })

/-- The loop of `Recv::poll`, for a number of turns. Whether the receiver has closed the channel is
not asked. -/
def pollRecvLoop : ℕ → Inner T W → Recv → W →
    Option (Poll (Option T) × Option (ℕ × W) × Inner T W × Recv)
  | 0, _, _, _ => none
  | n + 1, g, f, waker =>
    match g.ckernel.pop with
    | (true, ckernel) => do
      let (value, woken, g) ← g.popFront ckernel
      return (.ready (some value), woken, g, f)
    | (false, ckernel) =>
      let g := { g with ckernel }
      if g.senderCount = 0 then some (.ready none, none, g, f)
      else if f.parked then some (.pending, none, { g with rxWaker := some waker }, f)
      else do
        let id := g.rxNextId
        let rxNextId ← succ64 id
        match g.rxKernel.waitStep id with
        | (.ready, rxKernel) => pollRecvLoop n { g with rxNextId, rxKernel } f waker
        | (.park _, rxKernel) =>
          return (.pending, none, { g with rxNextId, rxKernel, rxWaker := some waker },
            ⟨id, true⟩)

/-- `Recv::poll`. A turn that does not end it takes a permit of the kernel. -/
def pollRecv (g : Inner T W) (f : Recv) (waker : W) :
    Option (Poll (Option T) × Option (ℕ × W) × Inner T W × Recv) :=
  pollRecvLoop (g.rxKernel.permit + 1) g f waker

/-- `Recv::drop`: a receiver that has parked leaves the queue and takes its waker with it. -/
def dropRecv (g : Inner T W) (f : Recv) : Inner T W :=
  if f.parked then { g with rxKernel := (g.rxKernel.removeStep f.id).2, rxWaker := none } else g

end Inner

/-! ### The channel and what is alive around it -/

/-- Which future it is: of `Send` or of `Reserve`. -/
inductive Kind (T : Type)
  | send (value : Option T)
  | reserve
deriving DecidableEq, Repr

/-- A future of `send` or `reserve`, with what has become of it. -/
structure SenderFuture (T : Type) extends Waiter where
  kind : Kind T
  /-- Its latest poll has returned ready. -/
  finished : Bool
  /-- Its entry was taken out to be woken, and it was not polled since. -/
  woken : Bool
deriving DecidableEq, Repr

/-- A new future. -/
def SenderFuture.new (kind : Kind T) : SenderFuture T := ⟨.new, kind, false, false⟩

/-- The channel, and what is alive around it. -/
structure Channel (T W : Type) where
  inner : Inner T W
  /-- The futures of `send` and `reserve`, by number. Dropped ones are `none`. -/
  futures : List (Option (SenderFuture T))
  /-- How many permits are alive, which are neither filled nor dropped. -/
  permits : ℕ
  /-- The receiver has not been dropped. -/
  receiver : Bool
  recv : Option Recv
  /-- The values whose sends were accepted, in that order. -/
  accepted : List T
  /-- The values that the receiver was given, in that order. -/
  received : List T
deriving DecidableEq, Repr

/-- The operations: the methods of `Sender`, of its futures and permits, and of `Receiver`, with the
drop of each of these objects. Futures go by number. -/
inductive Label (T W : Type)
  | trySend (value : T)
  | send (value : T)
  | tryReserve
  | reserve
  /-- A poll of a future of `send` or `reserve`, with the waker of its context. -/
  | poll (i : ℕ) (waker : W)
  /-- The drop of a future of `send` or `reserve`, before it is ready or after. -/
  | drop (i : ℕ)
  | permitSend (value : T)
  | permitDrop
  | cloneSender
  | dropSender
  | tryRecv
  | recv
  | pollRecv (waker : W)
  | dropRecv
  | close
  | dropReceiver
deriving DecidableEq, Repr

/-- Note that the sender parked under this id is to be woken. -/
def SenderFuture.mark (id : ℕ) (f : SenderFuture T) : SenderFuture T :=
  if f.parked && f.id = id then { f with woken := true } else f

/-- Note it for whichever future it is. -/
def markWoken (id : ℕ) (futures : List (Option (SenderFuture T))) :
    List (Option (SenderFuture T)) :=
  futures.map (Option.map (SenderFuture.mark id))

/-- Note which sender is to be woken, if the operation wakes one. -/
def noteWoken (woken : Option (ℕ × W)) (futures : List (Option (SenderFuture T))) :
    List (Option (SenderFuture T)) :=
  match woken with
  | some (id, _) => markWoken id futures
  | none => futures

namespace Channel

/-- A poll of future number `i`, which is `f`. What it returns is noted: a value sent, or a permit
made. -/
def poll (s : Channel T W) (i : ℕ) (f : SenderFuture T) (waker : W) : Option (Channel T W) :=
  match f.kind with
  | .send value => do
    let (res, _, inner, w, value') ← s.inner.pollSend f.toWaiter value waker
    let f' := { f with
      toWaiter := w, kind := .send value', finished := res.isReady, woken := false }
    return { s with
      inner
      futures := s.futures.set i (some f')
      accepted := if res.isOk then s.accepted ++ value.toList else s.accepted }
  | .reserve => do
    let (res, inner, w) ← s.inner.pollReserve f.toWaiter waker
    let f' := { f with toWaiter := w, finished := res.isReady, woken := false }
    return { s with
      inner
      futures := s.futures.set i (some f')
      permits := if res.isOk then s.permits + 1 else s.permits }

/-- One operation. `none`: it panics, or there is no object to call it on. -/
def step (s : Channel T W) : Label T W → Option (Channel T W)
  | .trySend value =>
    if s.inner.senderCount = 0 then none
    else do
      let (res, _, inner) ← s.inner.trySend value
      return { s with
        inner
        accepted := if res.isOk then s.accepted ++ [value] else s.accepted }
  | .send value =>
    if s.inner.senderCount = 0 then none
    else some { s with futures := s.futures ++ [some (.new (.send (some value)))] }
  | .tryReserve =>
    if s.inner.senderCount = 0 then none
    else
      let (res, inner) := s.inner.tryReserve
      some { s with inner, permits := if res.isOk then s.permits + 1 else s.permits }
  | .reserve =>
    if s.inner.senderCount = 0 then none
    else some { s with futures := s.futures ++ [some (.new .reserve)] }
  | .poll i waker =>
    match s.futures[i]? with
    | some (some f) => if f.finished then none else s.poll i f waker
    | _ => none
  | .drop i =>
    match s.futures[i]? with
    | some (some f) =>
      let (woken, inner) := s.inner.dropTxWaiter f.toWaiter
      some { s with inner, futures := noteWoken woken (s.futures.set i none) }
    | _ => none
  | .permitSend value =>
    if s.permits = 0 then none
    else do
      let (_, inner) ← s.inner.permitSend value
      return { s with inner, permits := s.permits - 1, accepted := s.accepted ++ [value] }
  | .permitDrop =>
    if s.permits = 0 then none
    else
      let (woken, inner) := s.inner.permitDrop
      some { s with inner, permits := s.permits - 1, futures := noteWoken woken s.futures }
  | .cloneSender =>
    if s.inner.senderCount = 0 then none
    else s.inner.cloneSender.map fun inner => { s with inner }
  | .dropSender =>
    if s.inner.senderCount = 0 then none
    else s.inner.dropSender.map fun (_, inner) => { s with inner }
  | .tryRecv =>
    if s.receiver && s.recv.isNone then do
      let (value, woken, inner) ← s.inner.tryRecv
      return { s with
        inner
        futures := noteWoken woken s.futures
        received := s.received ++ value.toList }
    else none
  | .recv => if s.receiver && s.recv.isNone then some { s with recv := some ⟨0, false⟩ } else none
  | .pollRecv waker =>
    match s.recv with
    | some f => do
      let (res, woken, inner, f') ← s.inner.pollRecv f waker
      return { s with
        inner
        recv := some f'
        futures := noteWoken woken s.futures
        received := s.received ++ res.value.toList }
    | none => none
  | .dropRecv =>
    match s.recv with
    | some f => some { s with inner := s.inner.dropRecv f, recv := none }
    | none => none
  | .close =>
    if s.receiver && s.recv.isNone then some { s with inner := s.inner.close.2 } else none
  | .dropReceiver =>
    if s.receiver && s.recv.isNone then
      some { s with inner := s.inner.close.2, receiver := false }
    else none

/-- What `channel` returns, before anything was called. -/
def new (capacity : ℕ) : Channel T W where
  inner := .new capacity
  futures := []
  permits := 0
  receiver := true
  recv := none
  accepted := []
  received := []

/-- Channels as a machine. `channel` asserts that the capacity is positive. -/
def machine : Machine (Channel T W) (Label T W) :=
  Machine.ofStep (fun s => ∃ capacity, 0 < capacity ∧ s = new capacity) step

/-! ### What one operation does -/

variable {s s' : Channel T W} {l : Label T W}

/-- The operations with what they run, guards included. Cases are named for the labels; a poll has
two, for the two kinds of futures. -/
inductive Stepped (s : Channel T W) : Label T W → Channel T W → Prop
  | trySend {value : T} {res : Except T Unit} {w : Option W} {inner : Inner T W} :
      s.inner.senderCount ≠ 0 → s.inner.trySend value = some (res, w, inner) →
      Stepped s (.trySend value) { s with
        inner, accepted := if res.isOk then s.accepted ++ [value] else s.accepted }
  | send {value : T} : s.inner.senderCount ≠ 0 →
      Stepped s (.send value) { s with
        futures := s.futures ++ [some (.new (.send (some value)))] }
  | tryReserve {res : Except TrySendError Unit} {inner : Inner T W} :
      s.inner.senderCount ≠ 0 → s.inner.tryReserve = (res, inner) →
      Stepped s .tryReserve { s with
        inner, permits := if res.isOk then s.permits + 1 else s.permits }
  | reserve : s.inner.senderCount ≠ 0 →
      Stepped s .reserve { s with futures := s.futures ++ [some (.new .reserve)] }
  | pollSend {i : ℕ} {waker : W} {f : SenderFuture T} {value value' : Option T}
      {res : Poll (Except T Unit)} {woken : Option W} {inner : Inner T W} {w : Waiter} :
      s.futures[i]? = some (some f) → f.finished = false →
      s.inner.pollSend f.toWaiter value waker = some (res, woken, inner, w, value') →
      Stepped s (.poll i waker) { s with
        inner
        futures := s.futures.set i (some { f with
          toWaiter := w, kind := .send value', finished := res.isReady, woken := false })
        accepted := if res.isOk then s.accepted ++ value.toList else s.accepted }
  | pollReserve {i : ℕ} {waker : W} {f : SenderFuture T} {res : Poll (Except Unit Unit)}
      {inner : Inner T W} {w : Waiter} :
      s.futures[i]? = some (some f) → f.finished = false →
      s.inner.pollReserve f.toWaiter waker = some (res, inner, w) →
      Stepped s (.poll i waker) { s with
        inner
        futures := s.futures.set i (some { f with
          toWaiter := w, finished := res.isReady, woken := false })
        permits := if res.isOk then s.permits + 1 else s.permits }
  | drop {i : ℕ} {f : SenderFuture T} : s.futures[i]? = some (some f) →
      Stepped s (.drop i) { s with
        inner := (s.inner.dropTxWaiter f.toWaiter).2
        futures := noteWoken (s.inner.dropTxWaiter f.toWaiter).1 (s.futures.set i none) }
  | permitSend {value : T} {w : Option W} {inner : Inner T W} :
      s.permits ≠ 0 → s.inner.permitSend value = some (w, inner) →
      Stepped s (.permitSend value) { s with
        inner, permits := s.permits - 1, accepted := s.accepted ++ [value] }
  | permitDrop : s.permits ≠ 0 →
      Stepped s .permitDrop { s with
        inner := s.inner.permitDrop.2
        permits := s.permits - 1
        futures := noteWoken s.inner.permitDrop.1 s.futures }
  | cloneSender {inner : Inner T W} : s.inner.senderCount ≠ 0 → s.inner.cloneSender = some inner →
      Stepped s .cloneSender { s with inner }
  | dropSender {w : Option W} {inner : Inner T W} :
      s.inner.senderCount ≠ 0 → s.inner.dropSender = some (w, inner) →
      Stepped s .dropSender { s with inner }
  | tryRecv {value : Option T} {woken : Option (ℕ × W)} {inner : Inner T W} :
      s.receiver = true → s.recv = none → s.inner.tryRecv = some (value, woken, inner) →
      Stepped s .tryRecv { s with
        inner, futures := noteWoken woken s.futures, received := s.received ++ value.toList }
  | recv : s.receiver = true → s.recv = none → Stepped s .recv { s with recv := some ⟨0, false⟩ }
  | pollRecv {waker : W} {f f' : Recv} {res : Poll (Option T)} {woken : Option (ℕ × W)}
      {inner : Inner T W} :
      s.recv = some f → s.inner.pollRecv f waker = some (res, woken, inner, f') →
      Stepped s (.pollRecv waker) { s with
        inner
        recv := some f'
        futures := noteWoken woken s.futures
        received := s.received ++ res.value.toList }
  | dropRecv {f : Recv} : s.recv = some f →
      Stepped s .dropRecv { s with inner := s.inner.dropRecv f, recv := none }
  | close : s.receiver = true → s.recv = none →
      Stepped s .close { s with inner := s.inner.close.2 }
  | dropReceiver : s.receiver = true → s.recv = none →
      Stepped s .dropReceiver { s with inner := s.inner.close.2, receiver := false }

theorem poll_cases {i : ℕ} {f : SenderFuture T} {waker : W} (hf : s.futures[i]? = some (some f))
    (hfin : f.finished = false) (h : s.poll i f waker = some s') :
    Stepped s (.poll i waker) s' := by
  rw [poll] at h
  split at h
  · obtain ⟨⟨res, woken, g, w, value'⟩, hpoll, heq⟩ := Option.bind_eq_some_iff.mp h
    cases heq
    exact .pollSend hf hfin hpoll
  · obtain ⟨⟨res, g, w⟩, hpoll, heq⟩ := Option.bind_eq_some_iff.mp h
    cases heq
    exact .pollReserve hf hfin hpoll

/-- **One operation.** What a step can be. -/
theorem step_cases (h : s.step l = some s') : Stepped s l s' := by
  cases l with
  | trySend value =>
    simp only [step] at h
    split at h
    · cases h
    · rename_i hcount
      obtain ⟨⟨res, w, g⟩, hsend, heq⟩ := Option.bind_eq_some_iff.mp h
      cases heq
      exact .trySend hcount hsend
  | send value =>
    simp only [step] at h
    split at h
    · cases h
    · rename_i hcount
      cases h
      exact .send hcount
  | tryReserve =>
    simp only [step] at h
    split at h
    · cases h
    · rename_i hcount
      cases h
      exact .tryReserve hcount rfl
  | reserve =>
    simp only [step] at h
    split at h
    · cases h
    · rename_i hcount
      cases h
      exact .reserve hcount
  | poll i waker =>
    simp only [step] at h
    split at h
    · rename_i f hf
      split at h
      · cases h
      · rename_i hfin
        exact poll_cases hf (Bool.eq_false_iff.mpr hfin) h
    · cases h
  | drop i =>
    simp only [step] at h
    split at h
    · rename_i f hf
      cases h
      exact .drop hf
    · cases h
  | permitSend value =>
    simp only [step] at h
    split at h
    · cases h
    · rename_i hpermits
      obtain ⟨⟨w, g⟩, hsend, heq⟩ := Option.bind_eq_some_iff.mp h
      cases heq
      exact .permitSend hpermits hsend
  | permitDrop =>
    simp only [step] at h
    split at h
    · cases h
    · rename_i hpermits
      cases h
      exact .permitDrop hpermits
  | cloneSender =>
    simp only [step] at h
    split at h
    · cases h
    · rename_i hcount
      obtain ⟨g, hclone, rfl⟩ := Option.map_eq_some_iff.mp h
      exact .cloneSender hcount hclone
  | dropSender =>
    simp only [step] at h
    split at h
    · cases h
    · rename_i hcount
      obtain ⟨⟨w, g⟩, hdrop, rfl⟩ := Option.map_eq_some_iff.mp h
      exact .dropSender hcount hdrop
  | tryRecv =>
    simp only [step] at h
    split at h
    · rename_i hfree
      rw [Bool.and_eq_true, Option.isNone_iff_eq_none] at hfree
      obtain ⟨⟨value, woken, g⟩, hrecv, heq⟩ := Option.bind_eq_some_iff.mp h
      cases heq
      exact .tryRecv hfree.1 hfree.2 hrecv
    · cases h
  | recv =>
    simp only [step] at h
    split at h
    · rename_i hfree
      rw [Bool.and_eq_true, Option.isNone_iff_eq_none] at hfree
      cases h
      exact .recv hfree.1 hfree.2
    · cases h
  | pollRecv waker =>
    simp only [step] at h
    split at h
    · rename_i f hf
      obtain ⟨⟨res, woken, g, f'⟩, hpoll, heq⟩ := Option.bind_eq_some_iff.mp h
      cases heq
      exact .pollRecv hf hpoll
    · cases h
  | dropRecv =>
    simp only [step] at h
    split at h
    · rename_i f hf
      cases h
      exact .dropRecv hf
    · cases h
  | close =>
    simp only [step] at h
    split at h
    · rename_i hfree
      rw [Bool.and_eq_true, Option.isNone_iff_eq_none] at hfree
      cases h
      exact .close hfree.1 hfree.2
    · cases h
  | dropReceiver =>
    simp only [step] at h
    split at h
    · rename_i hfree
      rw [Bool.and_eq_true, Option.isNone_iff_eq_none] at hfree
      cases h
      exact .dropReceiver hfree.1 hfree.2
    · cases h

end Channel

end Lion.Mpsc
