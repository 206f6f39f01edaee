import Lion.Sync.MpscFifo

/-!
# The unbounded mpsc channel

`mpsc::unbounded_channel` of `lion-utility`: the bounded channel without its senders' waiters. The
`ChannelKernel` has the largest capacity there is, and a send does not ask whether there was room.
Every operation holds the mutex from beginning to end, so operations are the steps of this model.

## A bounded channel

The two channels are written separately in the source, and are modelled separately, each function
from its own text. That they behave alike is a theorem: with the senders' side filled in as that of
a channel where nobody has waited, every step of this machine is a step of the bounded one. What was
shown there of values and counts need not be shown again.

The one thing that the bounded channel does not know is the room. A send here pushes into the buffer
whatever the kernel says. The two agree as long as the kernel has room, and that it has is the
capacity of a `VecDeque`: a buffer as long as the kernel's capacity could not have been built.

## Conventions

`Channel` is the channel with what is alive around it. In a result, `none` is a panic; one of them
is that of a `VecDeque` whose length would not fit into a `usize`, which has 64 bits.

## Main results

* `Channel.step_bounded`, `Channel.reachable_bounded` — the unbounded channel does what a bounded
  one of the largest capacity does whose senders never wait
-/

namespace Lion.Unbounded

variable {T W : Type}

/-- `UnboundedInner`, which the mutex guards, with values in `T` and wakers in `W`. -/
structure Inner (T W : Type) where
  /-- The waiter of the receiver. -/
  rxKernel : WaiterKernel
  /-- How many slots hold a value. None is ever reserved. -/
  ckernel : ChannelKernel
  buffer : List T
  /-- The waker of the receiver's latest poll that has returned pending, until it is woken or
  gone. -/
  rxWaker : Option W
  senderCount : ℕ
  /-- The receiver has closed the channel, or it is gone. -/
  rxClosed : Bool
  /-- The id that the receiver gets when it parks next. -/
  rxNextId : ℕ
deriving DecidableEq, Repr

/-- `UnboundedRecv`, without the receiver it borrows. -/
structure Recv where
  id : ℕ
  parked : Bool
deriving DecidableEq, Repr

/-- `VecDeque::push_back`, which panics where the length would overflow. -/
def pushBack (buffer : List T) (value : T) : Option (List T) :=
  if buffer.length + 1 < UInt64.size then some (buffer ++ [value]) else none

namespace Inner

/-- The channel that `unbounded_channel` makes: empty, open, with one sender. -/
def new : Inner T W where
  rxKernel := .new
  ckernel := .new (UInt64.size - 1)
  buffer := []
  rxWaker := none
  senderCount := 1
  rxClosed := false
  rxNextId := 0

/-- `wake_rx_unbounded`: the waker to wake, which is out of its slot then. -/
def wakeRx (g : Inner T W) : Option (Option W × Inner T W) := do
  let (_, rxKernel) ← g.rxKernel.signalStep
  return (g.rxWaker, { g with rxKernel, rxWaker := none })

/-- `UnboundedSender::send`: the result, and the receiver's waker. Whether the kernel had room for
the value is not asked. -/
def send (g : Inner T W) (value : T) : Option (Except T Unit × Option W × Inner T W) :=
  if g.rxClosed then some (.error value, none, g)
  else do
    let (_, ckernel) := g.ckernel.tryPush
    let buffer ← pushBack g.buffer value
    let (w, g) ← { g with ckernel, buffer }.wakeRx
    return (.ok (), w, g)

/-- `UnboundedSender::clone`, which panics when there are more senders than the counter can hold. -/
def cloneSender (g : Inner T W) : Option (Inner T W) := do
  let senderCount ← succ64 g.senderCount
  return { g with senderCount }

/-- `UnboundedSender::drop`: the receiver's waker, to be woken if this was the last sender. -/
def dropSender (g : Inner T W) : Option (Option W × Inner T W) :=
  let g := { g with senderCount := g.senderCount - 1 }
  if g.senderCount = 0 then g.wakeRx else some (none, g)

/-- The pop of the buffer that follows a pop of the kernel. It is unwrapped. -/
def popFront (g : Inner T W) (ckernel : ChannelKernel) : Option (T × Inner T W) :=
  match g.buffer with
  | [] => none
  | value :: buffer => some (value, { g with ckernel, buffer })

/-- `UnboundedReceiver::try_recv`: a value, if there is one. Nobody waits for its slot. -/
def tryRecv (g : Inner T W) : Option (Option T × Inner T W) :=
  match g.ckernel.pop with
  | (true, ckernel) => do
    let (value, g) ← g.popFront ckernel
    return (some value, g)
  | (false, ckernel) => some (none, { g with ckernel })

/-- `UnboundedReceiver::close`: sends fail from now on. -/
def close (g : Inner T W) : Inner T W := { g with rxClosed := true }

/-- The loop of `UnboundedRecv::poll`, for a number of turns. Whether the receiver has closed the
channel is not asked. -/
def pollRecvLoop : ℕ → Inner T W → Recv → W → Option (Poll (Option T) × Inner T W × Recv)
  | 0, _, _, _ => none
  | n + 1, g, f, waker =>
    match g.ckernel.pop with
    | (true, ckernel) => do
      let (value, g) ← g.popFront ckernel
      return (.ready (some value), g, f)
    | (false, ckernel) =>
      let g := { g with ckernel }
      if g.senderCount = 0 then some (.ready none, g, f)
      else if f.parked then some (.pending, { g with rxWaker := some waker }, f)
      else do
        let id := g.rxNextId
        let rxNextId ← succ64 id
        match g.rxKernel.waitStep id with
        | (.ready, rxKernel) => pollRecvLoop n { g with rxNextId, rxKernel } f waker
        | (.park _, rxKernel) =>
          return (.pending, { g with rxNextId, rxKernel, rxWaker := some waker }, ⟨id, true⟩)

/-- `UnboundedRecv::poll`. A turn that does not end it takes a permit of the kernel. -/
def pollRecv (g : Inner T W) (f : Recv) (waker : W) :
    Option (Poll (Option T) × Inner T W × Recv) :=
  pollRecvLoop (g.rxKernel.permit + 1) g f waker

/-- `UnboundedRecv::drop`: a receiver that has parked leaves the queue and takes its waker with
it. -/
def dropRecv (g : Inner T W) (f : Recv) : Inner T W :=
  if f.parked then { g with rxKernel := (g.rxKernel.removeStep f.id).2, rxWaker := none } else g

end Inner

/-! ### The channel and what is alive around it -/

/-- The channel, and what is alive around it. -/
structure Channel (T W : Type) where
  inner : Inner T W
  receiver : Bool
  recv : Option Recv
deriving DecidableEq, Repr

/-- The operations: the methods of the sender, the receiver and its future, with the drop of
each. -/
inductive Label (T W : Type)
  | send (value : T)
  | cloneSender
  | dropSender
  | tryRecv
  | recv
  | pollRecv (waker : W)
  | dropRecv
  | close
  | dropReceiver
deriving DecidableEq, Repr

namespace Channel

/-- The receiver may be used: it is alive, and no future borrows it. -/
def free (s : Channel T W) : Bool := s.receiver && s.recv.isNone

/-- One operation. `none`: it panics, or there is no object to call it on. -/
def step (s : Channel T W) : Label T W → Option (Channel T W)
  | .send value =>
    if s.inner.senderCount = 0 then none
    else (s.inner.send value).map fun (_, _, inner) => { s with inner }
  | .cloneSender =>
    if s.inner.senderCount = 0 then none
    else s.inner.cloneSender.map fun inner => { s with inner }
  | .dropSender =>
    if s.inner.senderCount = 0 then none
    else s.inner.dropSender.map fun (_, inner) => { s with inner }
  | .tryRecv => if s.free then s.inner.tryRecv.map fun (_, inner) => { s with inner } else none
  | .recv => if s.free then some { s with recv := some ⟨0, false⟩ } else none
  | .pollRecv waker => do
    let f ← s.recv
    let (_, inner, f) ← s.inner.pollRecv f waker
    return { s with inner, recv := some f }
  | .dropRecv => s.recv.map fun f => { s with inner := s.inner.dropRecv f, recv := none }
  | .close => if s.free then some { s with inner := s.inner.close } else none
  | .dropReceiver =>
    if s.free then some { s with inner := s.inner.close, receiver := false } else none

/-- What `unbounded_channel` returns, before anything was called. -/
def new : Channel T W := ⟨.new, true, none⟩

/-- Unbounded channels as a machine, under calls in any order. -/
def machine : Machine (Channel T W) (Label T W) := Machine.ofStep (· = new) step

end Channel

/-! ### The bounded channel that it is -/

/-- `UnboundedRecv` as `Recv`, which has the same fields. -/
def Recv.bounded (f : Recv) : Mpsc.Recv := ⟨f.id, f.parked⟩

namespace Inner

/-- `UnboundedInner` as `BoundedInner`, with no senders waiting. -/
def bounded (g : Inner T W) : Mpsc.Inner T W where
  rxKernel := g.rxKernel
  txKernel := .new
  ckernel := g.ckernel
  buffer := g.buffer
  rxWaker := g.rxWaker
  txWakers := []
  senderCount := g.senderCount
  rxClosed := g.rxClosed
  rxNextId := g.rxNextId
  txNextId := 0

variable {g g' : Inner T W}

theorem bounded_wakeRx (g : Inner T W) :
    g.bounded.wakeRx = g.wakeRx.map fun res => (res.1, res.2.bounded) := by
  rw [Mpsc.Inner.wakeRx, wakeRx]
  show (g.rxKernel.signalStep.bind _) = (g.rxKernel.signalStep.bind _).map _
  cases g.rxKernel.signalStep with
  | none => rfl
  | some res => rfl

/-- A send, in whose stead the buffer does not overflow. It wakes the same waker. -/
theorem bounded_send {value : T} {res : Except T Unit} {w : Option W}
    (hroom : g.buffer.length + 1 < UInt64.size → g.ckernel.HasRoom)
    (h : g.send value = some (res, w, g')) :
    g.bounded.trySend value = some (res, w, g'.bounded) := by
  by_cases hclosed : g.rxClosed = true
  · rw [send, if_pos hclosed] at h
    cases h
    exact if_pos hclosed
  · by_cases hlen : g.buffer.length + 1 < UInt64.size
    · have hpush : g.ckernel.tryPush =
          (true, { g.ckernel with buffered := g.ckernel.buffered + 1 }) := if_pos (hroom hlen)
      have hwake := bounded_wakeRx { g with
        ckernel := { g.ckernel with buffered := g.ckernel.buffered + 1 }
        buffer := g.buffer ++ [value] }
      rw [send, if_neg hclosed, hpush] at h
      obtain ⟨buffer, hbuf, h⟩ := Option.bind_eq_some_iff.mp h
      rw [pushBack, if_pos hlen] at hbuf
      cases hbuf
      obtain ⟨⟨w', g''⟩, hw, heq⟩ := Option.bind_eq_some_iff.mp h
      cases heq
      rw [hw] at hwake
      refine (if_neg hclosed).trans ?_
      show (match g.ckernel.tryPush with
        | (true, ckernel) => _
        | (false, ckernel) => _) = _
      rw [hpush]
      exact Option.bind_eq_some_iff.mpr ⟨_, hwake, rfl⟩
    · rw [send, if_neg hclosed, pushBack, if_neg hlen] at h
      cases h

theorem bounded_cloneSender (g : Inner T W) :
    g.bounded.cloneSender = g.cloneSender.map bounded := by
  rw [Mpsc.Inner.cloneSender, cloneSender]
  show (succ64 g.senderCount).bind _ = ((succ64 g.senderCount).bind _).map _
  cases succ64 g.senderCount with
  | none => rfl
  | some n => rfl

theorem bounded_dropSender (g : Inner T W) :
    g.bounded.dropSender = g.dropSender.map fun res => (res.1, res.2.bounded) := by
  rw [Mpsc.Inner.dropSender, dropSender]
  show (if g.senderCount - 1 = 0 then _ else _) =
    Option.map _ (if g.senderCount - 1 = 0 then _ else _)
  split
  · exact bounded_wakeRx { g with senderCount := g.senderCount - 1 }
  · rfl

theorem bounded_popFront (g : Inner T W) (ckernel : ChannelKernel) :
    g.bounded.popFront ckernel =
      (g.popFront ckernel).map fun res => (res.1, none, res.2.bounded) := by
  rw [Mpsc.Inner.popFront, popFront]
  show (match g.buffer with
    | [] => _
    | value :: buffer => _) = _
  cases g.buffer with
  | nil => rfl
  | cons value rest => rfl

theorem bounded_tryRecv (g : Inner T W) :
    g.bounded.tryRecv = g.tryRecv.map fun res => (res.1, none, res.2.bounded) := by
  rw [Mpsc.Inner.tryRecv, tryRecv]
  show (match g.ckernel.pop with
    | (true, ckernel) => _
    | (false, ckernel) => _) = _
  rcases g.ckernel.pop_cases with ⟨-, heq⟩ | ⟨-, heq⟩
  · rw [heq]
    dsimp only
    rw [bounded_popFront]
    cases g.popFront { g.ckernel with buffered := g.ckernel.buffered - 1 } with
    | none => rfl
    | some res => rfl
  · rw [heq]
    rfl

theorem bounded_pollRecvLoop (n : ℕ) (g : Inner T W) (f : Recv) (waker : W) :
    Mpsc.Inner.pollRecvLoop n g.bounded f.bounded waker =
      (pollRecvLoop n g f waker).map fun res =>
        (res.1, none, res.2.1.bounded, res.2.2.bounded) := by
  induction n generalizing g with
  | zero => rfl
  | succ n ih =>
    rw [Mpsc.Inner.pollRecvLoop, pollRecvLoop]
    show (match g.ckernel.pop with
      | (true, ckernel) => _
      | (false, ckernel) => _) = _
    rcases g.ckernel.pop_cases with ⟨-, heq⟩ | ⟨-, heq⟩
    · rw [heq]
      dsimp only
      rw [bounded_popFront]
      cases g.popFront { g.ckernel with buffered := g.ckernel.buffered - 1 } with
      | none => rfl
      | some res => rfl
    · rw [heq]
      show (if g.senderCount = 0 then _ else if f.parked = true then _ else _) =
        Option.map _ (if g.senderCount = 0 then _ else if f.parked = true then _ else _)
      split
      · rfl
      · split
        · rfl
        · show (succ64 g.rxNextId).bind _ = Option.map _ ((succ64 g.rxNextId).bind _)
          cases succ64 g.rxNextId with
          | none => rfl
          | some rxNextId =>
            show (match g.rxKernel.waitStep g.rxNextId with
              | (.ready, rxKernel) => _
              | (.park _, rxKernel) => _) = Option.map _ (match g.rxKernel.waitStep g.rxNextId with
              | (.ready, rxKernel) => _
              | (.park _, rxKernel) => _)
            by_cases hpermit : 0 < g.rxKernel.permit
            · have hwait : g.rxKernel.waitStep g.rxNextId =
                  (.ready, { g.rxKernel with permit := g.rxKernel.permit - 1 }) := if_pos hpermit
              rw [hwait]
              exact ih { g with
                rxNextId, rxKernel := { g.rxKernel with permit := g.rxKernel.permit - 1 } }
            · have hwait : g.rxKernel.waitStep g.rxNextId = (.park g.rxNextId,
                  { g.rxKernel with queue := g.rxKernel.queue ++ [g.rxNextId] }) := if_neg hpermit
              rw [hwait]
              rfl

theorem bounded_dropRecv (g : Inner T W) (f : Recv) :
    g.bounded.dropRecv f.bounded = (g.dropRecv f).bounded := by
  rw [Mpsc.Inner.dropRecv, dropRecv]
  show (if f.parked then _ else _) = bounded (if f.parked then _ else _)
  split <;> rfl

end Inner

/-- The operations as those of a bounded channel. A send does not wait. -/
def Label.bounded : Label T W → Mpsc.Label T W
  | .send value => .trySend value
  | .cloneSender => .cloneSender
  | .dropSender => .dropSender
  | .tryRecv => .tryRecv
  | .recv => .recv
  | .pollRecv waker => .pollRecv waker
  | .dropRecv => .dropRecv
  | .close => .close
  | .dropReceiver => .dropReceiver

namespace Channel

/-- The channel as a bounded one, through which the values `accepted` and `received` went. No sender
has made a future or holds a permit. -/
def bounded (s : Channel T W) (accepted received : List T) : Mpsc.Channel T W where
  inner := s.inner.bounded
  futures := []
  permits := 0
  receiver := s.receiver
  recv := s.recv.map Recv.bounded
  accepted
  received

variable {s s' : Channel T W} {l : Label T W} {accepted received : List T}

theorem free_bounded (s : Channel T W) (accepted received : List T) :
    ((s.bounded accepted received).receiver && (s.bounded accepted received).recv.isNone) =
      s.free := by
  rw [free, bounded]
  cases s.recv <;> rfl

/-- The kernel has room as long as the buffer does not overflow. -/
theorem hasRoom_of_reachable (h : Mpsc.Channel.machine.Reachable (s.bounded accepted received))
    (hcapacity : s.inner.ckernel.capacity = UInt64.size - 1)
    (hlen : s.inner.buffer.length + 1 < UInt64.size) : s.inner.ckernel.HasRoom := by
  obtain ⟨hlength, -, hreserved, -, -⟩ := Mpsc.Channel.reachable_queue h
  have hcount : s.inner.buffer.length = s.inner.ckernel.buffered := hlength
  have hnone : s.inner.ckernel.reserved = 0 := hreserved
  rw [ChannelKernel.HasRoom, hcapacity, hnone, ← hcount]
  omega

/-- **One operation** is that of the bounded channel. -/
theorem step_bounded (accepted received : List T)
    (hroom : s.inner.buffer.length + 1 < UInt64.size → s.inner.ckernel.HasRoom)
    (h : s.step l = some s') : ∃ accepted' received',
      (s.bounded accepted received).step l.bounded = some (s'.bounded accepted' received') := by
  have hfree := free_bounded s accepted received
  cases l with
  | send value =>
    simp only [step] at h
    split at h
    · cases h
    · rename_i hcount
      obtain ⟨⟨res, w, inner⟩, hsend, rfl⟩ := Option.map_eq_some_iff.mp h
      refine ⟨if res.isOk then accepted ++ [value] else accepted, received, ?_⟩
      refine (if_neg hcount).trans ?_
      exact Option.bind_eq_some_iff.mpr ⟨_, Inner.bounded_send hroom hsend, rfl⟩
  | cloneSender =>
    simp only [step] at h
    split at h
    · cases h
    · rename_i hcount
      obtain ⟨inner, hclone, rfl⟩ := Option.map_eq_some_iff.mp h
      have hbounded := Inner.bounded_cloneSender s.inner
      rw [hclone] at hbounded
      refine ⟨accepted, received, (if_neg hcount).trans ?_⟩
      exact Option.map_eq_some_iff.mpr ⟨_, hbounded, rfl⟩
  | dropSender =>
    simp only [step] at h
    split at h
    · cases h
    · rename_i hcount
      obtain ⟨⟨w, inner⟩, hdrop, rfl⟩ := Option.map_eq_some_iff.mp h
      have hbounded := Inner.bounded_dropSender s.inner
      rw [hdrop] at hbounded
      refine ⟨accepted, received, (if_neg hcount).trans ?_⟩
      exact Option.map_eq_some_iff.mpr ⟨_, hbounded, rfl⟩
  | tryRecv =>
    simp only [step] at h
    split at h
    · rename_i hs
      obtain ⟨⟨value, inner⟩, hrecv, rfl⟩ := Option.map_eq_some_iff.mp h
      have hbounded := Inner.bounded_tryRecv s.inner
      rw [hrecv] at hbounded
      refine ⟨accepted, received ++ value.toList, (if_pos (hfree.trans hs)).trans ?_⟩
      exact Option.bind_eq_some_iff.mpr ⟨_, hbounded, rfl⟩
    · cases h
  | recv =>
    simp only [step] at h
    split at h
    · rename_i hs
      cases h
      exact ⟨accepted, received, if_pos (hfree.trans hs)⟩
    · cases h
  | pollRecv waker =>
    obtain ⟨f, hf, h⟩ := Option.bind_eq_some_iff.mp h
    obtain ⟨⟨res, inner, f'⟩, hpoll, heq⟩ := Option.bind_eq_some_iff.mp h
    cases heq
    have hbounded := Inner.bounded_pollRecvLoop (s.inner.rxKernel.permit + 1) s.inner f waker
    rw [Inner.pollRecv] at hpoll
    rw [hpoll] at hbounded
    refine ⟨accepted, received ++ res.value.toList, ?_⟩
    have hrecv : (s.bounded accepted received).recv = some f.bounded := by
      rw [bounded, hf]
      rfl
    simp only [Label.bounded, Mpsc.Channel.step, hrecv]
    exact Option.bind_eq_some_iff.mpr ⟨_, hbounded, rfl⟩
  | dropRecv =>
    obtain ⟨f, hf, rfl⟩ := Option.map_eq_some_iff.mp h
    have hrecv : (s.bounded accepted received).recv = some f.bounded := by
      rw [bounded, hf]
      rfl
    refine ⟨accepted, received, ?_⟩
    simp only [Label.bounded, Mpsc.Channel.step, hrecv]
    have hbounded := Inner.bounded_dropRecv s.inner f
    simp only [bounded, hbounded]
    rfl
  | close =>
    simp only [step] at h
    split at h
    · rename_i hs
      cases h
      exact ⟨accepted, received, if_pos (hfree.trans hs)⟩
    · cases h
  | dropReceiver =>
    simp only [step] at h
    split at h
    · rename_i hs
      cases h
      exact ⟨accepted, received, if_pos (hfree.trans hs)⟩
    · cases h

/-- **The unbounded channel is a bounded one** of the largest capacity, whose senders never wait. It
is never full. -/
theorem reachable_bounded (h : machine.Reachable s) : ∃ accepted received,
    Mpsc.Channel.machine.Reachable (s.bounded accepted received) ∧
    (s.inner.buffer.length + 1 < UInt64.size → s.inner.ckernel.HasRoom) := by
  have hboth : ∃ accepted received,
      Mpsc.Channel.machine.Reachable (s.bounded accepted received) ∧
        s.inner.ckernel.capacity = UInt64.size - 1 := by
    refine h.invariant (I := fun s => ∃ accepted received,
      Mpsc.Channel.machine.Reachable (s.bounded accepted received) ∧
        s.inner.ckernel.capacity = UInt64.size - 1) ?_ ?_
    · rintro s rfl
      exact ⟨[], [], .of_init ⟨UInt64.size - 1, by decide, rfl⟩, rfl⟩
    · rintro s l s' ⟨accepted, received, hreach, hcapacity⟩ hstep
      obtain ⟨accepted', received', hbounded⟩ :=
        step_bounded accepted received (hasRoom_of_reachable hreach hcapacity) hstep
      have hcap := (Mpsc.Channel.step_stock hbounded).capacity
      exact ⟨accepted', received', hreach.step (a := l.bounded) hbounded, hcap.trans hcapacity⟩
  obtain ⟨accepted, received, hreach, hcapacity⟩ := hboth
  exact ⟨accepted, received, hreach, hasRoom_of_reachable hreach hcapacity⟩

end Channel

end Lion.Unbounded
