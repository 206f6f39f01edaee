import Lion.Library.Machine
import Lion.Poll
import Lion.Sync.Kernel

/-!
# The broadcast channel

`broadcast::channel` of `lion-utility`: a ring of the latest values behind a mutex, numbered in the
order they were sent, and a `BroadcastKernel` that counts them. Every receiver has a cursor of its
own, the number of the value it wants next. A receiver whose value has been overwritten is told how
many it has missed, and goes on with the oldest one left. Every operation holds the mutex from
beginning to end, so operations are the steps of this model.

## The ring

The kernel never sees the values, and the ring never counts. `Ring` is that they agree: the slots
have the numbers that the kernel takes to be in the ring, in order, and under each number the value
that was sent under it. A send takes the oldest slot out if there are as many as fit, which the code
tells from the length of the buffer, and the kernel from its own count.

For a receiver it follows that a number which the kernel calls ready is found in the ring
(`Ring.lookup`); the code unwraps that. And a receive has three outcomes (`Ring.next_cases`), none
of which loses a value: the cursor moves by one over a value returned, by the number reported over
values missed, or not at all. `Receiver.Accounted` adds this up, from where the cursor has started.

Waiting and waking do not touch the ring (`SameRing`), and are the matter of a later file.

## Conventions

`Channel` is the channel with what is alive around it: receivers by number, and for each the future
of `recv` it has, if any. The borrows of the source are not here: a receiver may be used, or asked
for another future, while it has one. In a result, `none` is a panic.

Not in the source are `Channel.sent`, the values sent so far, and of a receiver where its cursor
started, what it has received and how many values it was told to have missed. Nothing depends on
them.

## Main results

* `Channel.reachable_delivers` — the ring holds the latest values, and every receiver gets or is
  told to have missed each of the values from its start on, in order
-/

namespace Lion.Broadcast

variable {T W : Type}

/-! ### The kernel -/

/-- `BRecv`: what there is under a cursor. -/
inductive BRecv
  /-- The value has been overwritten, as were `skipped` in all; the oldest one left has number
  `newCursor`. -/
  | lagged (skipped newCursor : ℕ)
  /-- The value is in the ring, under this number. -/
  | ready (seq : ℕ)
  /-- The value has not been sent yet. -/
  | park
deriving DecidableEq, Repr

/-- `BroadcastKernel`, which counts the values without looking at them. -/
structure BroadcastKernel where
  /-- How many values were sent, which is the number of the next one. -/
  nextSeq : ℕ
  buffered : ℕ
  capacity : ℕ
deriving DecidableEq, Repr

namespace BroadcastKernel

/-- `BroadcastKernel::new`, of a channel with an empty ring. -/
def new (capacity : ℕ) : BroadcastKernel := ⟨0, 0, capacity⟩

/-- `BroadcastKernel::send_step`: the number of the value that is sent. -/
def sendStep (k : BroadcastKernel) : Option (ℕ × BroadcastKernel) := do
  let seq := k.nextSeq
  let nextSeq ← succ64 k.nextSeq
  return (seq, { k with
    nextSeq, buffered := if k.buffered < k.capacity then k.buffered + 1 else k.buffered })

/-- `BroadcastKernel::recv_step`: what there is under this cursor. -/
def recvStep (k : BroadcastKernel) (cursor : ℕ) : BRecv :=
  let oldest := k.nextSeq - k.buffered
  if cursor < oldest then .lagged (oldest - cursor) oldest
  else if cursor < k.nextSeq then .ready cursor
  else .park

end BroadcastKernel

/-! ### The channel -/

/-- `RecvError`, of `try_recv` and of polls of `recv`. -/
inductive RecvError
  /-- There are no senders left, or nothing to receive. -/
  | closed
  /-- So many values were missed, and the receiver goes on behind them. -/
  | lagged (n : ℕ)
deriving DecidableEq, Repr

/-- `Slot` of the ring. -/
structure Slot (T : Type) where
  value : T
  /-- The number that the value was sent under. -/
  seq : ℕ
deriving DecidableEq, Repr

/-- `BroadcastInner`, which the mutex guards, with values in `T` and wakers in `W`. -/
structure Inner (T W : Type) where
  /-- The waiters of the receivers, in the order in which they have parked. -/
  rxKernel : WaiterKernel
  /-- How many values were sent, and how many are in the ring. -/
  bkern : BroadcastKernel
  /-- The ring, with the oldest value first. -/
  buffer : List (Slot T)
  /-- The wakers of the receivers that have parked, under the ids they have parked under. -/
  waiters : List (ℕ × W)
  closed : Bool
  /-- The id that a receiver gets when it parks next. -/
  nextId : ℕ
  senderCount : ℕ
deriving DecidableEq, Repr

/-- `Recv`, without the receiver it borrows. -/
structure Recv where
  id : ℕ
  parked : Bool
deriving DecidableEq, Repr

namespace Inner

/-- The channel that `channel` makes: nothing was sent, and there is one sender. -/
def new (capacity : ℕ) : Inner T W where
  rxKernel := .new
  bkern := .new capacity
  buffer := []
  waiters := []
  closed := false
  nextId := 0
  senderCount := 1

/-- The loop of `wake_all`, which ends after as many turns as there are waiters. -/
def wakeAllLoop : ℕ → Inner T W → List W × Inner T W
  | 0, g => ([], g)
  | n + 1, g =>
    if 0 < g.rxKernel.queue.length then
      match g.rxKernel.signalStep with
      | some (.woke id, rxKernel) =>
        let woken := (g.waiters.find? (·.1 = id)).map Prod.snd
        let (out, g) :=
          wakeAllLoop n { g with rxKernel, waiters := g.waiters.eraseP (·.1 = id) }
        (woken.toList ++ out, g)
      | some (.stored, rxKernel) => ([], { g with rxKernel })
      | none => ([], g)
    else ([], g)

/-- `wake_all`: the wakers of those who have parked, in that order. -/
def wakeAll (g : Inner T W) : List W × Inner T W := wakeAllLoop g.rxKernel.queue.length g

/-- `Sender::send`, when there are `handles` handles on the channel: the result, and whom to
wake. -/
def send (g : Inner T W) (value : T) (handles : ℕ) : Option (Except T ℕ × List W × Inner T W) :=
  if g.closed then some (.error value, [], g)
  else do
    let (seq, bkern) ← g.bkern.sendStep
    let buffer := if g.buffer.length = bkern.capacity then g.buffer.tail else g.buffer
    let (wakers, g) := { g with bkern, buffer := buffer ++ [Slot.mk value seq] }.wakeAll
    return (.ok (handles - 1), wakers, g)

/-- `Sender::subscribe`, `Receiver::resubscribe`: the cursor of the new receiver. -/
def subscribe (g : Inner T W) : ℕ := g.bkern.nextSeq

/-- `Sender::clone`, which panics when there are more senders than the counter can hold. -/
def cloneSender (g : Inner T W) : Option (Inner T W) := do
  let senderCount ← succ64 g.senderCount
  return { g with senderCount }

/-- `Sender::drop`: the last one closes the channel, and wakes everybody who has parked. -/
def dropSender (g : Inner T W) : List W × Inner T W :=
  let g := { g with senderCount := g.senderCount - 1 }
  if g.senderCount = 0 then { g with closed := true }.wakeAll else ([], g)

/-- The value with number `seq`, if it is in the ring. -/
def lookup (g : Inner T W) (seq : ℕ) : Option T :=
  (g.buffer.find? (·.seq = seq)).map Slot.value

/-- What `try_recv` and `Recv::poll` begin with: the next result, if there is one, and the new
cursor. The lookup of a value that is ready is unwrapped. -/
def next (g : Inner T W) (cursor : ℕ) : Option (Option (Except RecvError T) × ℕ) :=
  match g.bkern.recvStep cursor with
  | .lagged skipped newCursor => some (some (.error (.lagged skipped)), newCursor)
  | .ready seq => do
    let value ← g.lookup seq
    return (some (.ok value), seq + 1)
  | .park => some (none, cursor)

/-- `Receiver::try_recv`, of a receiver with this cursor. If there is nothing, it says `Closed`, and
does not look whether the channel is. -/
def tryRecv (g : Inner T W) (cursor : ℕ) : Option (Except RecvError T × ℕ) := do
  let (res, cursor) ← g.next cursor
  return (res.getD (.error .closed), cursor)

/-- The loop of `Recv::poll`, for a number of turns. Where there is nothing, it looks whether the
channel is closed. -/
def pollRecvLoop : ℕ → Inner T W → Recv → ℕ → W →
    Option (Poll (Except RecvError T) × Inner T W × Recv × ℕ)
  | 0, _, _, _, _ => none
  | n + 1, g, f, cursor, waker => do
    match ← g.next cursor with
    | (some res, cursor) => return (.ready res, g, f, cursor)
    | (none, cursor) =>
      if g.closed then return (.ready (.error .closed), g, f, cursor)
      else if f.parked then
        let refresh := fun entry => if entry.1 = f.id then (f.id, waker) else entry
        return (.pending, { g with waiters := g.waiters.map refresh }, f, cursor)
      else
        let id := g.nextId
        let nextId ← succ64 id
        match g.rxKernel.waitStep id with
        | (.ready, rxKernel) =>
          pollRecvLoop n { g with nextId, rxKernel } { f with id } cursor waker
        | (.park _, rxKernel) =>
          return (.pending, { g with nextId, rxKernel, waiters := g.waiters ++ [(id, waker)] },
            ⟨id, true⟩, cursor)

/-- `Recv::poll`, for a receiver with this cursor. A turn that does not end it takes a permit of the
kernel. -/
def pollRecv (g : Inner T W) (f : Recv) (cursor : ℕ) (waker : W) :
    Option (Poll (Except RecvError T) × Inner T W × Recv × ℕ) :=
  pollRecvLoop (g.rxKernel.permit + 1) g f cursor waker

/-- `Recv::drop`: if it has parked, its id and its waker are taken out. -/
def dropRecv (g : Inner T W) (f : Recv) : Inner T W :=
  if f.parked then
    { g with
      rxKernel := (g.rxKernel.removeStep f.id).2
      waiters := g.waiters.eraseP (·.1 = f.id) }
  else g

end Inner

/-! ### The channel and what is alive around it -/

/-- `Receiver`, with the future of `recv` it has. -/
structure Receiver (T : Type) where
  /-- The number of the value it wants next. -/
  nextSeq : ℕ
  /-- The future of `recv` that was made last, unless it was dropped. -/
  recv : Option Recv
  /-- Where the cursor started. -/
  start : ℕ
  /-- The values received, with the cursors at which they were. -/
  received : List (ℕ × T)
  /-- The values it was told to have missed, in all reports together. -/
  lagged : ℕ
deriving DecidableEq, Repr

namespace Receiver

/-- A new receiver, whose cursor starts here. -/
def new (cursor : ℕ) : Receiver T := ⟨cursor, none, cursor, [], 0⟩

/-- Note that a receive has given `res` and moved the cursor. -/
def note (r : Receiver T) (res : Except RecvError T) (cursor : ℕ) : Receiver T :=
  { r with
    nextSeq := cursor
    received := match res with
      | .ok value => r.received ++ [(r.nextSeq, value)]
      | .error _ => r.received
    lagged := match res with
      | .error (.lagged n) => r.lagged + n
      | _ => r.lagged }

/-- Note it of a poll, which gives nothing if it is pending. -/
def notePoll (r : Receiver T) (res : Poll (Except RecvError T)) (cursor : ℕ) : Receiver T :=
  match res with
  | .ready res => r.note res cursor
  | .pending => { r with nextSeq := cursor }

end Receiver

/-- The channel, and what is alive around it. -/
structure Channel (T W : Type) where
  inner : Inner T W
  /-- The receivers, by number. Dropped ones are `none`. -/
  receivers : List (Option (Receiver T))
  /-- The values whose sends were accepted, in that order. -/
  sent : List T
deriving DecidableEq, Repr

/-- The operations: the methods of `Sender`, of a receiver by its number, and of the future it has,
with the drop of each of these objects. -/
inductive Label (T W : Type)
  | send (value : T)
  | cloneSender
  | dropSender
  | subscribe
  | resubscribe (i : ℕ)
  | cloneReceiver (i : ℕ)
  | tryRecv (i : ℕ)
  | recv (i : ℕ)
  | pollRecv (i : ℕ) (waker : W)
  | dropRecv (i : ℕ)
  | dropReceiver (i : ℕ)
deriving DecidableEq, Repr

namespace Channel

/-- Receiver number `i`, unless it was dropped. -/
def receiver (c : Channel T W) (i : ℕ) : Option (Receiver T) := (c.receivers[i]?).join

/-- The handles that there are on the channel: its senders and its receivers. -/
def handles (c : Channel T W) : ℕ := c.inner.senderCount + c.receivers.countP Option.isSome

/-- One more receiver, whose cursor starts here. -/
def addReceiver (c : Channel T W) (cursor : ℕ) : Channel T W :=
  { c with receivers := c.receivers ++ [some (.new cursor)] }

/-- Change receiver number `i`, or drop it. -/
def setReceiver (c : Channel T W) (i : ℕ) (r : Option (Receiver T)) : Channel T W :=
  { c with receivers := c.receivers.set i r }

/-- One operation. `none`: it panics, or there is no object to call it on. -/
def step (c : Channel T W) : Label T W → Option (Channel T W)
  | .send value =>
    if c.inner.senderCount = 0 then none
    else do
      let (res, _, inner) ← c.inner.send value c.handles
      return { c with inner, sent := if res.isOk then c.sent ++ [value] else c.sent }
  | .cloneSender =>
    if c.inner.senderCount = 0 then none
    else c.inner.cloneSender.map fun inner => { c with inner }
  | .dropSender =>
    if c.inner.senderCount = 0 then none else some { c with inner := c.inner.dropSender.2 }
  | .subscribe =>
    if c.inner.senderCount = 0 then none else some (c.addReceiver c.inner.subscribe)
  | .resubscribe i => (c.receiver i).map fun _ => c.addReceiver c.inner.subscribe
  | .cloneReceiver i => (c.receiver i).map fun r => c.addReceiver r.nextSeq
  | .tryRecv i => do
    let r ← c.receiver i
    let (res, cursor) ← c.inner.tryRecv r.nextSeq
    return c.setReceiver i (some (r.note res cursor))
  | .recv i => (c.receiver i).map fun r => c.setReceiver i (some { r with recv := some ⟨0, false⟩ })
  | .pollRecv i waker => do
    let r ← c.receiver i
    let f ← r.recv
    let (res, inner, f, cursor) ← c.inner.pollRecv f r.nextSeq waker
    return { c with inner }.setReceiver i (some { r.notePoll res cursor with recv := some f })
  | .dropRecv i => do
    let r ← c.receiver i
    let f ← r.recv
    return { c with inner := c.inner.dropRecv f }.setReceiver i (some { r with recv := none })
  | .dropReceiver i => do
    let r ← c.receiver i
    return { c with inner := r.recv.elim c.inner c.inner.dropRecv }.setReceiver i none

/-- What `channel` returns: a sender, and a receiver at the beginning. -/
def new (capacity : ℕ) : Channel T W where
  inner := .new capacity
  receivers := [some (.new 0)]
  sent := []

/-- Channels as a machine. `channel` asserts that the capacity is positive. -/
def machine : Machine (Channel T W) (Label T W) :=
  Machine.ofStep (fun c => ∃ capacity, 0 < capacity ∧ c = new capacity) step

/-! ### What one operation does -/

variable {c c' : Channel T W} {l : Label T W}

/-- The operations with what they run, guards included. Cases are named for the labels. -/
inductive Stepped (c : Channel T W) : Label T W → Channel T W → Prop
  | send {value : T} {res : Except T ℕ} {wakers : List W} {inner : Inner T W} :
      c.inner.senderCount ≠ 0 → c.inner.send value c.handles = some (res, wakers, inner) →
      Stepped c (.send value) { c with
        inner, sent := if res.isOk then c.sent ++ [value] else c.sent }
  | cloneSender {inner : Inner T W} : c.inner.senderCount ≠ 0 → c.inner.cloneSender = some inner →
      Stepped c .cloneSender { c with inner }
  | dropSender : c.inner.senderCount ≠ 0 →
      Stepped c .dropSender { c with inner := c.inner.dropSender.2 }
  | subscribe : c.inner.senderCount ≠ 0 →
      Stepped c .subscribe (c.addReceiver c.inner.subscribe)
  | resubscribe {i : ℕ} {r : Receiver T} : c.receiver i = some r →
      Stepped c (.resubscribe i) (c.addReceiver c.inner.subscribe)
  | cloneReceiver {i : ℕ} {r : Receiver T} : c.receiver i = some r →
      Stepped c (.cloneReceiver i) (c.addReceiver r.nextSeq)
  | tryRecv {i : ℕ} {r : Receiver T} {res : Except RecvError T} {cursor : ℕ} :
      c.receiver i = some r → c.inner.tryRecv r.nextSeq = some (res, cursor) →
      Stepped c (.tryRecv i) (c.setReceiver i (some (r.note res cursor)))
  | recv {i : ℕ} {r : Receiver T} : c.receiver i = some r →
      Stepped c (.recv i) (c.setReceiver i (some { r with recv := some ⟨0, false⟩ }))
  | pollRecv {i : ℕ} {waker : W} {r : Receiver T} {f f' : Recv} {res : Poll (Except RecvError T)}
      {inner : Inner T W} {cursor : ℕ} :
      c.receiver i = some r → r.recv = some f →
      c.inner.pollRecv f r.nextSeq waker = some (res, inner, f', cursor) →
      Stepped c (.pollRecv i waker)
        ({ c with inner }.setReceiver i (some { r.notePoll res cursor with recv := some f' }))
  | dropRecv {i : ℕ} {r : Receiver T} {f : Recv} : c.receiver i = some r → r.recv = some f →
      Stepped c (.dropRecv i)
        ({ c with inner := c.inner.dropRecv f }.setReceiver i (some { r with recv := none }))
  | dropReceiver {i : ℕ} {r : Receiver T} : c.receiver i = some r →
      Stepped c (.dropReceiver i)
        ({ c with inner := r.recv.elim c.inner c.inner.dropRecv }.setReceiver i none)

/-- **One operation.** What a step can be. -/
theorem step_cases (h : c.step l = some c') : Stepped c l c' := by
  cases l with
  | send value =>
    simp only [step] at h
    split at h
    · cases h
    · rename_i hcount
      obtain ⟨⟨res, wakers, inner⟩, hsend, heq⟩ := Option.bind_eq_some_iff.mp h
      cases heq
      exact .send hcount hsend
  | cloneSender =>
    simp only [step] at h
    split at h
    · cases h
    · rename_i hcount
      obtain ⟨inner, hclone, rfl⟩ := Option.map_eq_some_iff.mp h
      exact .cloneSender hcount hclone
  | dropSender =>
    simp only [step] at h
    split at h
    · cases h
    · rename_i hcount
      cases h
      exact .dropSender hcount
  | subscribe =>
    simp only [step] at h
    split at h
    · cases h
    · rename_i hcount
      cases h
      exact .subscribe hcount
  | resubscribe i =>
    obtain ⟨r, hr, rfl⟩ := Option.map_eq_some_iff.mp h
    exact .resubscribe hr
  | cloneReceiver i =>
    obtain ⟨r, hr, rfl⟩ := Option.map_eq_some_iff.mp h
    exact .cloneReceiver hr
  | tryRecv i =>
    obtain ⟨r, hr, hrest⟩ := Option.bind_eq_some_iff.mp h
    obtain ⟨⟨res, cursor⟩, htry, heq⟩ := Option.bind_eq_some_iff.mp hrest
    cases heq
    exact .tryRecv hr htry
  | recv i =>
    obtain ⟨r, hr, rfl⟩ := Option.map_eq_some_iff.mp h
    exact .recv hr
  | pollRecv i waker =>
    obtain ⟨r, hr, hrest⟩ := Option.bind_eq_some_iff.mp h
    obtain ⟨f, hf, hrest'⟩ := Option.bind_eq_some_iff.mp hrest
    obtain ⟨⟨res, inner, f', cursor⟩, hpoll, heq⟩ := Option.bind_eq_some_iff.mp hrest'
    cases heq
    exact .pollRecv hr hf hpoll
  | dropRecv i =>
    obtain ⟨r, hr, hrest⟩ := Option.bind_eq_some_iff.mp h
    obtain ⟨f, hf, heq⟩ := Option.bind_eq_some_iff.mp hrest
    cases heq
    exact .dropRecv hr hf
  | dropReceiver i =>
    obtain ⟨r, hr, heq⟩ := Option.bind_eq_some_iff.mp h
    cases heq
    exact .dropReceiver hr

end Channel

/-! ### The ring -/

namespace Inner

variable {g g' : Inner T W} {sent : List T} {cursor : ℕ}

/-- When `sent` has been sent, the ring holds the latest values, as many as fit, under their
numbers. -/
structure Ring (g : Inner T W) (sent : List T) : Prop where
  /-- Values are numbered in the order they are sent. -/
  nextSeq : g.bkern.nextSeq = sent.length
  buffered : g.bkern.buffered = min g.bkern.nextSeq g.bkern.capacity
  /-- The latest numbers. -/
  seqs : g.buffer.map Slot.seq = List.range' (g.bkern.nextSeq - g.bkern.buffered) g.bkern.buffered
  values : ∀ slot ∈ g.buffer, sent[slot.seq]? = some slot.value

/-- Nothing was done to the ring, nor to what is said of it. -/
def SameRing (g g' : Inner T W) : Prop := g'.bkern = g.bkern ∧ g'.buffer = g.buffer

theorem Ring.congr (h : Ring g sent) (hsame : SameRing g g') : Ring g' sent := by
  obtain ⟨hkern, hbuffer⟩ := hsame
  refine ⟨?_, ?_, ?_, ?_⟩
  · rw [hkern]
    exact h.nextSeq
  · rw [hkern]
    exact h.buffered
  · rw [hkern, hbuffer]
    exact h.seqs
  · rw [hbuffer]
    exact h.values

theorem ring_new (capacity : ℕ) : Ring (.new capacity : Inner T W) [] :=
  ⟨rfl, (Nat.zero_min _).symm, rfl, by simp [Inner.new]⟩

theorem sameRing_wakeAllLoop (n : ℕ) (g : Inner T W) : SameRing g (wakeAllLoop n g).2 := by
  induction n generalizing g with
  | zero => exact ⟨rfl, rfl⟩
  | succ n ih =>
    rw [wakeAllLoop]
    split
    · split
      · rename_i id rxKernel _
        exact ih { g with rxKernel, waiters := g.waiters.eraseP (·.1 = id) }
      · exact ⟨rfl, rfl⟩
      · exact ⟨rfl, rfl⟩
    · exact ⟨rfl, rfl⟩

theorem sameRing_wakeAll (g : Inner T W) : SameRing g g.wakeAll.2 := sameRing_wakeAllLoop _ g

theorem sameRing_dropRecv (g : Inner T W) (f : Recv) : SameRing g (g.dropRecv f) := by
  rw [dropRecv]
  split <;> exact ⟨rfl, rfl⟩

theorem sameRing_dropSender (g : Inner T W) : SameRing g g.dropSender.2 := by
  simp only [dropSender]
  split
  · exact sameRing_wakeAll { g with senderCount := g.senderCount - 1, closed := true }
  · exact ⟨rfl, rfl⟩

/-- A value is sent: it takes the place of the oldest one, if the ring is full. -/
theorem Ring.push (h : Ring g sent) (hcap : 0 < g.bkern.capacity) {value : T} {seq : ℕ}
    {bkern : BroadcastKernel} (hsend : g.bkern.sendStep = some (seq, bkern)) :
    Ring { g with
      bkern
      buffer := (if g.buffer.length = bkern.capacity then g.buffer.tail else g.buffer) ++
        [⟨value, seq⟩] } (sent ++ [value]) := by
  obtain ⟨nextSeq, hsucc, heq⟩ := Option.bind_eq_some_iff.mp hsend
  cases heq
  cases succ64_eq_some hsucc
  have hlen : g.buffer.length = g.bkern.buffered := by
    have := congrArg List.length h.seqs
    simpa using this
  have hmem : ∀ slot ∈ (if g.buffer.length = g.bkern.capacity then g.buffer.tail else g.buffer),
      slot ∈ g.buffer := by
    intro slot hslot
    split at hslot
    · exact List.mem_of_mem_tail hslot
    · exact hslot
  have hbuffered := h.buffered
  refine ⟨?_, ?_, ?_, ?_⟩
  · rw [List.length_append, ← h.nextSeq]
    rfl
  · dsimp only
    split <;> omega
  · dsimp only
    by_cases hfull : g.bkern.buffered = g.bkern.capacity
    · -- the window moves by one
      rw [if_pos (hlen.trans hfull), if_neg (by omega), List.map_append, List.map_tail, h.seqs]
      obtain ⟨n, hn⟩ : ∃ n, g.bkern.buffered = n + 1 := ⟨g.bkern.buffered - 1, by omega⟩
      rw [hn, List.range'_succ, List.tail_cons, List.range'_1_concat]
      have hfrom : g.bkern.nextSeq + 1 - (n + 1) = g.bkern.nextSeq - (n + 1) + 1 := by omega
      have hto : g.bkern.nextSeq - (n + 1) + 1 + n = g.bkern.nextSeq := by omega
      rw [hfrom, hto]
      rfl
    · -- the window grows by one
      rw [if_neg (by omega), if_pos (by omega), List.map_append, h.seqs, List.range'_1_concat]
      have hfrom : g.bkern.nextSeq + 1 - (g.bkern.buffered + 1) =
          g.bkern.nextSeq - g.bkern.buffered := by omega
      have hto : g.bkern.nextSeq - g.bkern.buffered + g.bkern.buffered = g.bkern.nextSeq := by omega
      rw [hfrom, hto]
      rfl
  · intro slot hslot
    rcases List.mem_append.mp hslot with hslot | hslot
    · have hold := h.values slot (hmem slot hslot)
      rw [List.getElem?_append_left (List.getElem?_eq_some_iff.mp hold).1]
      exact hold
    · cases List.mem_singleton.mp hslot
      rw [h.nextSeq]
      simp

/-- A value that is ready is found, and is the one sent under its number. -/
theorem Ring.lookup (h : Ring g sent) {seq : ℕ} (hready : g.bkern.recvStep cursor = .ready seq) :
    seq = cursor ∧ ∃ value, g.lookup seq = some value ∧ sent[seq]? = some value := by
  simp only [BroadcastKernel.recvStep] at hready
  split at hready
  · cases hready
  · rename_i hlow
    split at hready
    · rename_i hhigh
      cases hready
      refine ⟨rfl, ?_⟩
      have hmem : cursor ∈ g.buffer.map Slot.seq := by
        rw [h.seqs, List.mem_range'_1]
        omega
      obtain ⟨slot, hslot, hseq⟩ := List.mem_map.mp hmem
      obtain ⟨found, hfound⟩ : ∃ found, g.buffer.find? (·.seq = cursor) = some found := by
        rw [← Option.isSome_iff_exists, List.find?_isSome]
        exact ⟨slot, hslot, by simpa using hseq⟩
      have hfseq : found.seq = cursor := by simpa using List.find?_some hfound
      refine ⟨found.value, by rw [Inner.lookup, hfound]; rfl, ?_⟩
      rw [← hfseq]
      exact h.values found (List.mem_of_find?_eq_some hfound)
    · cases hready

/-- **What a receive finds**: a number of missed values, the value under the cursor, or nothing. -/
theorem Ring.next_cases (h : Ring g sent) (hcursor : cursor ≤ sent.length) :
    (∃ n, g.next cursor = some (some (.error (.lagged n)), cursor + n) ∧
      cursor + n ≤ sent.length) ∨
    (∃ value, g.next cursor = some (some (.ok value), cursor + 1) ∧
      sent[cursor]? = some value) ∨
    g.next cursor = some (none, cursor) := by
  rw [next]
  cases hrecv : g.bkern.recvStep cursor with
  | lagged skipped newCursor =>
    refine .inl ⟨skipped, ?_⟩
    simp only [BroadcastKernel.recvStep] at hrecv
    split at hrecv
    · rename_i hlow
      cases hrecv
      have hnext := h.nextSeq
      have hto : cursor + (g.bkern.nextSeq - g.bkern.buffered - cursor) =
          g.bkern.nextSeq - g.bkern.buffered := by omega
      rw [hto]
      exact ⟨rfl, by omega⟩
    · split at hrecv <;> cases hrecv
  | ready seq =>
    obtain ⟨rfl, value, hlookup, hsent⟩ := h.lookup hrecv
    refine .inr (.inl ⟨value, ?_, hsent⟩)
    dsimp only
    rw [hlookup]
    rfl
  | park => exact .inr (.inr rfl)

/-- A poll returns what a receive finds; if that is nothing, the cursor stays. -/
theorem pollRecvLoop_spec (n : ℕ) {f f' : Recv} {waker : W} {res : Poll (Except RecvError T)}
    {cursor' : ℕ} (hpoll : pollRecvLoop n g f cursor waker = some (res, g', f', cursor')) :
    SameRing g g' ∧
      ((∃ r, res = .ready r ∧ g.next cursor = some (some r, cursor')) ∨
        (res = .ready (.error .closed) ∨ res = .pending) ∧
          g.next cursor = some (none, cursor')) := by
  induction n generalizing g f cursor with
  | zero => cases hpoll
  | succ n ih =>
    rw [pollRecvLoop] at hpoll
    obtain ⟨⟨found, cursor₁⟩, hnext, hrest⟩ := Option.bind_eq_some_iff.mp hpoll
    cases found with
    | some r =>
      cases hrest
      exact ⟨⟨rfl, rfl⟩, .inl ⟨r, rfl, hnext⟩⟩
    | none =>
      dsimp only at hrest
      split at hrest
      · cases hrest
        exact ⟨⟨rfl, rfl⟩, .inr ⟨.inl rfl, hnext⟩⟩
      · split at hrest
        · cases hrest
          exact ⟨⟨rfl, rfl⟩, .inr ⟨.inr rfl, hnext⟩⟩
        · obtain ⟨nextId, -, hwait⟩ := Option.bind_eq_some_iff.mp hrest
          split at hwait
          · rename_i rxKernel _
            -- the kernel had a permit: the ring is looked at again, and is as it was
            have hcursor : cursor₁ = cursor := by
              rw [next] at hnext
              split at hnext
              · cases hnext
              · obtain ⟨value, -, heq⟩ := Option.bind_eq_some_iff.mp hnext
                cases heq
              · cases hnext
                rfl
            subst hcursor
            have hspec := ih hwait
            exact hspec
          · cases hwait
            exact ⟨⟨rfl, rfl⟩, .inr ⟨.inr rfl, hnext⟩⟩

theorem send_spec {value : T} {handles : ℕ} {res : Except T ℕ} {wakers : List W}
    (h : Ring g sent) (hcap : 0 < g.bkern.capacity)
    (hsend : g.send value handles = some (res, wakers, g')) :
    Ring g' (if res.isOk then sent ++ [value] else sent) ∧
      g'.bkern.capacity = g.bkern.capacity := by
  rw [send] at hsend
  split at hsend
  · cases hsend
    exact ⟨h, rfl⟩
  · obtain ⟨⟨seq, bkern⟩, hstep, hsend⟩ := Option.bind_eq_some_iff.mp hsend
    cases hsend
    have hsame := sameRing_wakeAll { g with
      bkern
      buffer := (if g.buffer.length = bkern.capacity then g.buffer.tail else g.buffer) ++
        [Slot.mk value seq] }
    have hkept : bkern.capacity = g.bkern.capacity := by
      obtain ⟨nextSeq, -, heq⟩ := Option.bind_eq_some_iff.mp hstep
      cases heq
      rfl
    have hcap' := congrArg BroadcastKernel.capacity hsame.1
    exact ⟨(h.push hcap hstep).congr hsame, hcap'.trans hkept⟩

end Inner

/-! ### Receivers -/

namespace Receiver

variable {r : Receiver T} {sent : List T}

/-- When `sent` has been sent, a receiver has got, in order, or was told to have missed, each of the
values between its start and its cursor. -/
structure Accounted (r : Receiver T) (sent : List T) : Prop where
  cursor_le : r.nextSeq ≤ sent.length
  increasing : (r.received.map Prod.fst).Pairwise (· < ·)
  behind : ∀ x ∈ r.received, x.1 < r.nextSeq
  values : ∀ x ∈ r.received, sent[x.1]? = some x.2
  /-- None of them is unaccounted for. -/
  total : r.start + r.received.length + r.lagged = r.nextSeq

theorem accounted_new {cursor : ℕ} (h : cursor ≤ sent.length) :
    Accounted (.new cursor : Receiver T) sent :=
  ⟨h, List.Pairwise.nil, by simp [new], by simp [new], rfl⟩

/-- More is sent. -/
theorem Accounted.append (h : Accounted r sent) (more : List T) : Accounted r (sent ++ more) := by
  refine ⟨?_, h.increasing, h.behind, ?_, h.total⟩
  · rw [List.length_append]
    exact Nat.le_add_right_of_le h.cursor_le
  · intro x hx
    have hold := h.values x hx
    rw [List.getElem?_append_left (List.getElem?_eq_some_iff.mp hold).1]
    exact hold

/-- Only the cursor and the history matter. -/
theorem Accounted.withRecv (h : Accounted r sent) (f : Option Recv) :
    Accounted { r with recv := f } sent :=
  ⟨h.cursor_le, h.increasing, h.behind, h.values, h.total⟩

theorem Accounted.lag (h : Accounted r sent) {n : ℕ} (hle : r.nextSeq + n ≤ sent.length) :
    Accounted (r.note (.error (.lagged n)) (r.nextSeq + n)) sent := by
  refine ⟨hle, h.increasing, fun x hx => ?_, h.values, ?_⟩
  · exact Nat.lt_add_right n (h.behind x hx)
  · have htotal := h.total
    show r.start + r.received.length + (r.lagged + n) = r.nextSeq + n
    omega

theorem Accounted.receive (h : Accounted r sent) {value : T}
    (hvalue : sent[r.nextSeq]? = some value) :
    Accounted (r.note (.ok value) (r.nextSeq + 1)) sent := by
  refine ⟨(List.getElem?_eq_some_iff.mp hvalue).1, ?_, ?_, ?_, ?_⟩
  · show ((r.received ++ [(r.nextSeq, value)]).map Prod.fst).Pairwise (· < ·)
    rw [List.map_append, List.pairwise_append]
    refine ⟨h.increasing, List.pairwise_singleton _ _, ?_⟩
    intro a ha b hb
    obtain ⟨x, hx, rfl⟩ := List.mem_map.mp ha
    cases List.mem_singleton.mp hb
    exact h.behind x hx
  · intro x hx
    rcases List.mem_append.mp hx with hx | hx
    · exact Nat.lt_succ_of_lt (h.behind x hx)
    · cases List.mem_singleton.mp hx
      exact Nat.lt_succ_self _
  · intro x hx
    rcases List.mem_append.mp hx with hx | hx
    · exact h.values x hx
    · cases List.mem_singleton.mp hx
      exact hvalue
  · have htotal := h.total
    show r.start + (r.received ++ [(r.nextSeq, value)]).length + r.lagged = r.nextSeq + 1
    rw [List.length_append, List.length_singleton]
    omega

/-- A receive, of whatever it finds. -/
theorem Accounted.next (h : Accounted r sent) {g : Inner T W} (hring : g.Ring sent)
    {res : Option (Except RecvError T)} {cursor : ℕ}
    (hnext : g.next r.nextSeq = some (res, cursor)) :
    Accounted (r.note (res.getD (.error .closed)) cursor) sent := by
  rcases hring.next_cases h.cursor_le with ⟨n, heq, hle⟩ | ⟨value, heq, hvalue⟩ | heq
  · rw [heq] at hnext
    cases hnext
    exact h.lag hle
  · rw [heq] at hnext
    cases hnext
    exact h.receive hvalue
  · rw [heq] at hnext
    cases hnext
    exact ⟨h.cursor_le, h.increasing, h.behind, h.values, h.total⟩

end Receiver

/-! ### Runs -/

namespace Channel

variable {c c' : Channel T W} {l : Label T W}

/-- **Delivery.** What every run keeps to. -/
structure Delivers (c : Channel T W) : Prop where
  ring : c.inner.Ring c.sent
  /-- Every receiver got or was told to have missed what was sent from its start on. -/
  receivers : ∀ i r, c.receiver i = some r → r.Accounted c.sent
  /-- A value that is ready for a receiver is found. -/
  lookup : ∀ i r seq, c.receiver i = some r → c.inner.bkern.recvStep r.nextSeq = .ready seq →
    (c.inner.lookup seq).isSome = true

/-- The part of it that steps preserve by themselves. -/
structure Sound (c : Channel T W) : Prop where
  ring : c.inner.Ring c.sent
  /-- It is not empty of slots. -/
  capacity : 0 < c.inner.bkern.capacity
  receivers : ∀ i r, c.receiver i = some r → r.Accounted c.sent

theorem receiver_addReceiver {cursor i : ℕ} {r : Receiver T}
    (h : (c.addReceiver cursor).receiver i = some r) : c.receiver i = some r ∨ r = .new cursor := by
  rw [receiver, addReceiver, List.getElem?_append] at h
  split at h
  · exact .inl h
  · rw [List.getElem?_singleton] at h
    split at h
    · cases h
      exact .inr rfl
    · cases h

theorem receiver_setReceiver {i j : ℕ} {r : Receiver T} {new : Option (Receiver T)}
    (h : (c.setReceiver i new).receiver j = some r) : c.receiver j = some r ∨ new = some r := by
  rw [receiver, setReceiver, List.getElem?_set] at h
  split at h
  · split at h
    · exact .inr h
    · cases h
  · exact .inl h

theorem Sound.addReceiver (h : Sound c) {cursor : ℕ} (hle : cursor ≤ c.sent.length) :
    Sound (c.addReceiver cursor) := by
  refine ⟨h.ring, h.capacity, fun i r hr => ?_⟩
  rcases receiver_addReceiver hr with hr | rfl
  · exact h.receivers i r hr
  · exact Receiver.accounted_new hle

theorem Sound.setReceiver (h : Sound c) {i : ℕ} {new : Option (Receiver T)}
    (hnew : ∀ r, new = some r → r.Accounted c.sent) : Sound (c.setReceiver i new) := by
  refine ⟨h.ring, h.capacity, fun j r hr => ?_⟩
  rcases receiver_setReceiver hr with hr | hr
  · exact h.receivers j r hr
  · exact hnew r hr

/-- An operation that leaves the ring alone. -/
theorem Sound.sameRing (h : Sound c) {inner : Inner T W} (hsame : c.inner.SameRing inner) :
    Sound { c with inner } :=
  ⟨h.ring.congr hsame, by rw [hsame.1]; exact h.capacity, h.receivers⟩

theorem Sound.step (h : Sound c) (hstep : c.step l = some c') : Sound c' := by
  cases step_cases hstep with
  | @send value res wakers inner _ hsend =>
    obtain ⟨hring, hcap⟩ := Inner.send_spec h.ring h.capacity hsend
    refine ⟨hring, by rw [hcap]; exact h.capacity, fun i r hr => ?_⟩
    dsimp only
    split
    · exact (h.receivers i r hr).append [value]
    · exact h.receivers i r hr
  | cloneSender _ hclone =>
    obtain ⟨senderCount, -, heq⟩ := Option.bind_eq_some_iff.mp hclone
    cases heq
    exact h.sameRing ⟨rfl, rfl⟩
  | dropSender => exact h.sameRing (Inner.sameRing_dropSender _)
  | subscribe => exact h.addReceiver (Nat.le_of_eq h.ring.nextSeq)
  | resubscribe => exact h.addReceiver (Nat.le_of_eq h.ring.nextSeq)
  | cloneReceiver hr => exact h.addReceiver (h.receivers _ _ hr).cursor_le
  | tryRecv hr htry =>
    obtain ⟨⟨found, cursor'⟩, hnext, heq⟩ := Option.bind_eq_some_iff.mp htry
    cases heq
    refine h.setReceiver ?_
    rintro _ ⟨⟩
    exact (h.receivers _ _ hr).next h.ring hnext
  | recv hr =>
    refine h.setReceiver ?_
    rintro _ ⟨⟩
    exact (h.receivers _ _ hr).withRecv _
  | pollRecv hr _ hpoll =>
    obtain ⟨hsame, hres⟩ := Inner.pollRecvLoop_spec _ hpoll
    refine (h.sameRing hsame).setReceiver ?_
    rintro _ ⟨⟩
    refine Receiver.Accounted.withRecv ?_ _
    rcases hres with ⟨res, rfl, hnext⟩ | ⟨rfl | rfl, hnext⟩
    · exact (h.receivers _ _ hr).next h.ring hnext
    · exact (h.receivers _ _ hr).next h.ring hnext
    · exact (h.receivers _ _ hr).next h.ring hnext
  | @dropRecv _ _ f hr =>
    refine (h.sameRing (c.inner.sameRing_dropRecv f)).setReceiver ?_
    rintro _ ⟨⟩
    exact (h.receivers _ _ hr).withRecv _
  | @dropReceiver _ r =>
    refine Sound.setReceiver (h.sameRing ?_) (by simp)
    cases r.recv with
    | none => exact ⟨rfl, rfl⟩
    | some f => exact c.inner.sameRing_dropRecv f

theorem sound_new {capacity : ℕ} (h : 0 < capacity) : Sound (new capacity : Channel T W) := by
  refine ⟨Inner.ring_new capacity, h, fun i r hr => ?_⟩
  rw [receiver, new, List.getElem?_singleton] at hr
  split at hr
  · cases hr
    exact Receiver.accounted_new (Nat.zero_le _)
  · cases hr

/-- **Delivery.** In every run, the ring holds the values with the latest numbers, as many as fit;
every receiver has received values in order, each the one sent under its number, and together with
those it was told to have missed they are all from its start to its cursor; and a value that is
ready is found. -/
theorem reachable_delivers (h : machine.Reachable c) : c.Delivers := by
  have hsound : Sound c := by
    refine h.invariant ?_ ?_
    · rintro c ⟨capacity, hcap, rfl⟩
      exact sound_new hcap
    · intro c l c' hc hstep
      exact hc.step hstep
  refine ⟨hsound.ring, hsound.receivers, fun i r seq _ hready => ?_⟩
  obtain ⟨-, value, hlookup, -⟩ := hsound.ring.lookup hready
  rw [hlookup]
  rfl

/-- A receiver with room for two values to wait is overtaken, and receives the next value. -/
theorem reachable_delivers_lagged : ∃ c : Channel ℕ Unit, machine.Reachable c ∧
    (c.receiver 0).map (fun r => (r.received, r.lagged)) = some ([(1, 11)], 1) ∧
    c.Delivers := by
  have hstart : machine.Reachable (new 2 : Channel ℕ Unit) := .of_init ⟨2, by decide, rfl⟩
  obtain ⟨c, hfollow, hr⟩ : ∃ c : Channel ℕ Unit, Machine.follow step
      [.recv 0, .pollRecv 0 (), .send 10, .send 11, .cloneReceiver 0, .send 12, .pollRecv 0 (),
        .dropRecv 0, .tryRecv 0] (new 2) = some c ∧
      (c.receiver 0).map (fun r => (r.received, r.lagged)) = some ([(1, 11)], 1) :=
    ⟨_, rfl, by decide⟩
  have hreach := hstart.follow hfollow
  exact ⟨c, hreach, hr, reachable_delivers hreach⟩

end Channel

end Lion.Broadcast
