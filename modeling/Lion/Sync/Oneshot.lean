import Lion.Library.Machine
import Lion.Poll
import Lion.Sync.Kernel

/-!
# The oneshot channel

`oneshot::channel` of `lion-utility`: a slot for one value behind a mutex, an `OneshotKernel` that
says whether it is empty, full, taken or closed, and a `WaiterKernel` for the one receiver. A send
and the drop of the sender that follows it both signal; a signal that finds nobody parked is stored.
Every operation holds the mutex from beginning to end, so operations are the steps of this model,
and others may come between a send and the drop that follows it.

## The shapes of a channel

With one sender, one receiver and one value there are few states to be in, and the invariant lists
them (`Shape`): nothing has happened, the receiver is parked, it was dropped first, or the sender
has signalled. In the first three nearly all fields are known. In the last nobody is parked any
more, and what was sent is in the slot or was received (`Signalled`).

Polls that come after the first signal do not park: either there is a value or there will be none.
So permits that later signals store are never taken, and their number is at most two.

## Conventions

`Channel` is the channel with what is alive around it. A receiver may be polled after it has
returned ready. In a result, `none` is a panic.

Some fields are not in the source, and nothing depends on them: the value whose send was accepted,
the values received, the waker of the latest poll if that has returned pending, and the waker that
was woken since.

## Main results

* `Channel.reachable_delivered` — what is received is what was sent, once; whoever waits is
  registered or was woken
-/

namespace Lion.Oneshot

variable {T W : Type}

/-! ### The kernel -/

/-- `OState`, of the slot for the value. -/
inductive OState
  | empty
  | full
  /-- There was a value, and it was taken. -/
  | taken
  /-- The sender was dropped before there was a value, and there will be none. -/
  | closed
deriving DecidableEq, Repr

/-- `RecvDecision`, of a poll. -/
inductive RecvDecision
  /-- There is a value, and it is taken. -/
  | ready
  /-- There will be none any more. -/
  | closed
  /-- There may yet be one. -/
  | park
deriving DecidableEq, Repr

/-- `OneshotKernel`, without its ghost fields. -/
structure OneshotKernel where
  st : OState
deriving DecidableEq, Repr

namespace OneshotKernel

/-- `OneshotKernel::new`, of a channel whose slot is empty. -/
def new : OneshotKernel := ⟨.empty⟩

/-- `OneshotKernel::send_step`, which succeeds if the slot is empty. -/
def sendStep (k : OneshotKernel) : Bool × OneshotKernel :=
  if k.st = .empty then (true, ⟨.full⟩) else (false, k)

/-- `OneshotKernel::recv_step`, which takes the value if there is one. -/
def recvStep (k : OneshotKernel) : RecvDecision × OneshotKernel :=
  if k.st = .full then (.ready, ⟨.taken⟩)
  else if k.st = .empty then (.park, k)
  else (.closed, k)

/-- `OneshotKernel::close_step`: no value will come, unless one is there or was taken. -/
def closeStep (k : OneshotKernel) : OneshotKernel := if k.st = .empty then ⟨.closed⟩ else k

end OneshotKernel

/-! ### The channel -/

/-- `OneshotInner`, which the mutex guards, with values in `T` and wakers in `W`. -/
structure Inner (T W : Type) where
  /-- What the slot is said to hold. -/
  okernel : OneshotKernel
  /-- The waiter of the receiver. -/
  wkernel : WaiterKernel
  /-- The value in the slot. -/
  value : Option T
  /-- The receiver's waker, with the id that it has parked under. -/
  rxWaker : Option (ℕ × W)
  rxDropped : Bool
  /-- The id that the receiver gets when it parks next. -/
  nextId : ℕ
deriving DecidableEq, Repr

/-- `Receiver`, without the channel. -/
structure Receiver where
  id : ℕ
  parked : Bool
deriving DecidableEq, Repr

namespace Inner

/-- The channel that `channel` makes, whose slot is empty. -/
def new : Inner T W where
  okernel := .new
  wkernel := .new
  value := none
  rxWaker := none
  rxDropped := false
  nextId := 0

/-- `deliver`: one signal, and the waker to wake if the receiver was parked. -/
def deliver (g : Inner T W) : Option (Option W × Inner T W) := do
  match ← g.wkernel.signalStep with
  | (.woke id, wkernel) =>
    match g.rxWaker with
    | some (wid, w) =>
      if wid = id then return (some w, { g with wkernel, rxWaker := none })
      else return (none, { g with wkernel })
    | none => return (none, { g with wkernel })
  | (.stored, wkernel) => return (none, { g with wkernel })

/-- `withdraw_rx`: the id leaves the queue, and the waker goes if it is under this id. -/
def withdrawRx (g : Inner T W) (id : ℕ) : Inner T W :=
  { g with
    wkernel := (g.wkernel.removeStep id).2
    rxWaker := if g.rxWaker.any (·.1 = id) then none else g.rxWaker }

/-- `Sender::send`, before the drop of the sender: the result, and the waker to wake. -/
def send (g : Inner T W) (value : T) : Option (Except T Unit × Option W × Inner T W) :=
  if g.rxDropped then some (.error value, none, g)
  else
    match g.okernel.sendStep with
    | (true, okernel) => do
      let (w, g) ← { g with okernel, value := some value }.deliver
      return (.ok (), w, g)
    | (false, okernel) => some (.error value, none, { g with okernel })

/-- `Sender::drop`, which signals also after a send: the waker to wake. -/
def dropSender (g : Inner T W) : Option (Option W × Inner T W) :=
  { g with okernel := g.okernel.closeStep }.deliver

/-- What a poll does first when it is over: it withdraws if the receiver had parked. -/
def leave (g : Inner T W) (r : Receiver) : Inner T W × Receiver :=
  if r.parked then (g.withdrawRx r.id, { r with parked := false }) else (g, r)

/-- The loop of `Receiver::poll`, for a number of turns. The value that is ready is unwrapped. -/
def pollLoop : ℕ → Inner T W → Receiver → W →
    Option (Poll (Except Unit T) × Inner T W × Receiver)
  | 0, _, _, _ => none
  | n + 1, g, r, waker =>
    match g.okernel.recvStep with
    | (.ready, okernel) => do
      let (g, r) := { g with okernel }.leave r
      let value ← g.value
      return (.ready (.ok value), { g with value := none }, r)
    | (.closed, okernel) =>
      let (g, r) := { g with okernel }.leave r
      some (.ready (.error ()), g, r)
    | (.park, okernel) =>
      let g := { g with okernel }
      if r.parked then
        let refresh := fun entry => if entry.1 = r.id then (entry.1, waker) else entry
        some (.pending, { g with rxWaker := g.rxWaker.map refresh }, r)
      else do
        let id := g.nextId
        let nextId ← succ64 id
        match g.wkernel.waitStep id with
        | (.ready, wkernel) => pollLoop n { g with nextId, wkernel } r waker
        | (.park _, wkernel) =>
          return (.pending, { g with nextId, wkernel, rxWaker := some (id, waker) }, ⟨id, true⟩)

/-- `Receiver::poll`. A turn that does not end it takes a permit of the kernel. -/
def poll (g : Inner T W) (r : Receiver) (waker : W) :
    Option (Poll (Except Unit T) × Inner T W × Receiver) :=
  pollLoop (g.wkernel.permit + 1) g r waker

/-- `Receiver::drop`: what is sent from now on is given back. -/
def dropReceiver (g : Inner T W) (r : Receiver) : Inner T W :=
  let g := { g with rxDropped := true }
  if r.parked then g.withdrawRx r.id else g

end Inner

/-! ### The channel and what is alive around it -/

/-- Where the sender is. `send` takes it, and drops it on its way out. -/
inductive Sender
  /-- It was not used. -/
  | fresh
  /-- It has sent, successfully or not, and is yet to be dropped. -/
  | spent
  | dropped
deriving DecidableEq, Repr

/-- The channel, and what is alive around it. -/
structure Channel (T W : Type) where
  inner : Inner T W
  tx : Sender
  /-- The receiver, unless it was dropped. -/
  rx : Option Receiver
  /-- The value whose send has returned `Ok`. -/
  sent : Option T
  /-- The values that polls have returned. -/
  received : List T
  /-- The waker of the latest poll, if that has returned pending. -/
  last : Option W
  /-- The waker that was woken since that poll. -/
  woken : Option W
deriving DecidableEq, Repr

/-- The operations: the methods of `Sender` and `Receiver`, with the drop of each. A send and the
drop of the sender are two operations. -/
inductive Label (T W : Type)
  | send (value : T)
  | dropSender
  | poll (waker : W)
  | dropReceiver
deriving DecidableEq, Repr

namespace Channel

/-- One operation. `none`: it panics, or there is no object to call it on. -/
def step (c : Channel T W) : Label T W → Option (Channel T W)
  | .send value =>
    if c.tx = .fresh then do
      let (res, w, inner) ← c.inner.send value
      return { c with
        inner
        tx := .spent
        sent := if res.isOk then some value else c.sent
        woken := w.or c.woken }
    else none
  | .dropSender =>
    if c.tx = .dropped then none
    else do
      let (w, inner) ← c.inner.dropSender
      return { c with inner, tx := .dropped, woken := w.or c.woken }
  | .poll waker => do
    let r ← c.rx
    let (res, inner, r) ← c.inner.poll r waker
    return { c with
      inner
      rx := some r
      received := match res with
        | .ready (.ok value) => c.received ++ [value]
        | .ready (.error _) => c.received
        | .pending => c.received
      last := if res.isReady then none else some waker
      woken := none }
  | .dropReceiver => do
    let r ← c.rx
    return { c with inner := c.inner.dropReceiver r, rx := none, last := none }

/-- What `channel` returns, before anything was called. -/
def new : Channel T W := ⟨.new, .fresh, some ⟨0, false⟩, none, [], none, none⟩

/-- Oneshot channels as a machine, under calls in any order. -/
def machine : Machine (Channel T W) (Label T W) := Machine.ofStep (· = new) step

end Channel

/-! ### What the operations do -/

namespace Inner

variable {g g' : Inner T W} {r r' : Receiver} {waker : W} {res : Poll (Except Unit T)}

/-- A signal that finds nobody parked. -/
theorem deliver_of_nil (hqueue : g.wkernel.queue = [])
    (hpermit : g.wkernel.permit + 1 < UInt64.size) : g.deliver =
      some (none, { g with wkernel := { g.wkernel with permit := g.wkernel.permit + 1 } }) := by
  simp [deliver, WaiterKernel.signalStep, hqueue, succ64, hpermit]

/-- Nobody is parked, and there is no waker. -/
def Quiet (g : Inner T W) : Prop := g.wkernel.queue = [] ∧ g.rxWaker = none

theorem withdrawRx_of_quiet (h : Quiet g) (id : ℕ) : g.withdrawRx id = g := by
  obtain ⟨okernel, ⟨permit, queue⟩, value, rxWaker, rxDropped, nextId⟩ := g
  obtain ⟨rfl, rfl⟩ := h
  rfl

theorem leave_of_quiet (h : Quiet g) (r : Receiver) :
    g.leave r = (g, { r with parked := false }) := by
  rw [leave]
  split
  · rw [withdrawRx_of_quiet h]
  · rename_i hparked
    rw [Bool.not_eq_true] at hparked
    rw [← hparked]

/-- A poll that finds the value. -/
theorem poll_of_full (h : Quiet g) (hst : g.okernel.st = .full) {value : T}
    (hvalue : g.value = some value) : g.poll r waker = some (.ready (.ok value),
      { g with okernel := ⟨.taken⟩, value := none }, { r with parked := false }) := by
  have hrecv : g.okernel.recvStep = (.ready, ⟨.taken⟩) := if_pos hst
  have hleave := leave_of_quiet (g := { g with okernel := ⟨.taken⟩ }) h r
  rw [poll, pollLoop, hrecv]
  dsimp only
  rw [hleave]
  simp [hvalue]

/-- A poll that finds that there will be no value. -/
theorem poll_of_over (h : Quiet g) (hempty : g.okernel.st ≠ .empty) (hfull : g.okernel.st ≠ .full) :
    g.poll r waker = some (.ready (.error ()), g, { r with parked := false }) := by
  have hrecv : g.okernel.recvStep = (.closed, g.okernel) := by
    rw [OneshotKernel.recvStep, if_neg hfull, if_neg hempty]
  simp [poll, pollLoop, hrecv, leave_of_quiet h]

end Inner

/-! ### Runs -/

namespace Channel

variable {c c' : Channel T W} {l : Label T W}

/-- **Delivery.** What every run keeps to. -/
structure Delivered (c : Channel T W) : Prop where
  /-- At most one value is received, -/
  once : c.received.length ≤ 1
  /-- which is the one whose send has returned `Ok`. -/
  sent : ∀ value ∈ c.received, c.sent = some value
  /-- The slot is filled as the kernel says. -/
  slot : c.inner.value.isSome = true ↔ c.inner.okernel.st = .full
  /-- A send returns `Ok` if the receiver was not dropped, and gives the value back otherwise. -/
  send : c.tx = .fresh → ∀ value, ∃ w g,
    c.inner.send value = some (if c.rx.isSome then .ok () else .error value, w, g)
  /-- When the sender was dropped without sending, polls report an error. -/
  closed : c.tx = .dropped → c.sent = none → ∀ r waker, c.rx = some r →
    ∃ g r', c.inner.poll r waker = some (.ready (.error ()), g, r')
  /-- When the latest poll has returned pending, there is no value yet, and its waker is registered
  under the id that is queued; or it was woken. -/
  pending : ∀ r w, c.rx = some r → c.last = some w →
    (c.inner.okernel.st = .empty ∧ r.parked = true ∧ c.inner.wkernel.queue = [r.id] ∧
      c.inner.rxWaker = some (r.id, w)) ∨ c.woken = some w
  /-- Polls end, whatever permits are stored. -/
  ends : ∀ r waker, c.rx = some r → (c.inner.poll r waker).isSome = true

/-- What holds once the sender has signalled, by a send or by its drop. -/
structure Signalled (c : Channel T W) : Prop where
  /-- The value was sent, or there will be none. -/
  st : c.inner.okernel.st ≠ .empty
  /-- Nobody is parked. -/
  quiet : c.inner.Quiet
  /-- There were at most two signals, -/
  permit : c.inner.wkernel.permit ≤ 2
  /-- and one until the sender is dropped. -/
  first : c.tx ≠ .dropped → c.inner.wkernel.permit ≤ 1
  tx : c.tx ≠ .fresh
  /-- The slot is filled as the kernel says. -/
  slot : c.inner.value.isSome = true ↔ c.inner.okernel.st = .full
  /-- What was sent was received or is in the slot. -/
  delivered : c.received ++ c.inner.value.toList = c.sent.toList
  /-- Whoever waited was woken. -/
  woken : ∀ w, c.last = some w → c.woken = some w

/-- The states there are, as far as it matters. -/
inductive Shape : Channel T W → Prop
  /-- Nothing has happened yet. -/
  | start : Shape new
  /-- The receiver is parked, with this waker. -/
  | parked (w : W) : Shape { new with
      inner := { (Inner.new : Inner T W) with
        wkernel := ⟨0, [0]⟩, rxWaker := some (0, w), nextId := 1 }
      rx := some ⟨0, true⟩
      last := some w }
  /-- The receiver was dropped before there was a value. -/
  | deserted {tx : Sender} {nextId : ℕ} : tx ≠ .dropped →
      Shape { new with inner := { Inner.new with rxDropped := true, nextId }, tx, rx := none }
  /-- The sender has sent, or was dropped. -/
  | signalled {c : Channel T W} : Signalled c → Shape c

theorem Signalled.step (h : Signalled c) (hstep : c.step l = some c') : Signalled c' := by
  cases l with
  | send value =>
    simp only [Channel.step] at hstep
    rw [if_neg h.tx] at hstep
    cases hstep
  | dropSender =>
    simp only [Channel.step] at hstep
    split at hstep
    · cases hstep
    · rename_i htx
      have hfirst := h.first htx
      have hclose : c.inner.okernel.closeStep = c.inner.okernel := if_neg h.st
      have hdeliver : c.inner.dropSender = some (none, { c.inner with
          wkernel := { c.inner.wkernel with permit := c.inner.wkernel.permit + 1 } }) := by
        rw [Inner.dropSender, hclose]
        have hsize : 2 < UInt64.size := by decide
        have hroom : c.inner.wkernel.permit + 1 < UInt64.size := by omega
        exact Inner.deliver_of_nil h.quiet.1 hroom
      rw [hdeliver] at hstep
      cases hstep
      refine ⟨h.st, h.quiet, Nat.succ_le_succ hfirst, ?_, nofun, h.slot, h.delivered, h.woken⟩
      exact fun hnot => absurd rfl hnot
  | poll waker =>
    obtain ⟨r, hr, hrest⟩ := Option.bind_eq_some_iff.mp hstep
    by_cases hfull : c.inner.okernel.st = .full
    · obtain ⟨value, hvalue⟩ := Option.isSome_iff_exists.mp (h.slot.mpr hfull)
      rw [Inner.poll_of_full h.quiet hfull hvalue] at hrest
      cases hrest
      refine ⟨nofun, h.quiet, h.permit, h.first, h.tx, by simp, ?_, nofun⟩
      have hdelivered := h.delivered
      rw [hvalue] at hdelivered
      simpa using hdelivered
    · rw [Inner.poll_of_over h.quiet h.st hfull] at hrest
      cases hrest
      exact ⟨h.st, h.quiet, h.permit, h.first, h.tx, h.slot, h.delivered, nofun⟩
  | dropReceiver =>
    obtain ⟨r, hr, hrest⟩ := Option.bind_eq_some_iff.mp hstep
    cases hrest
    have hdrop : c.inner.dropReceiver r = { c.inner with rxDropped := true } := by
      rw [Inner.dropReceiver]
      split
      · exact Inner.withdrawRx_of_quiet (g := { c.inner with rxDropped := true }) h.quiet r.id
      · rfl
    rw [hdrop]
    exact ⟨h.st, h.quiet, h.permit, h.first, h.tx, h.slot, h.delivered, nofun⟩

/-- After the first signal, by a send. -/
theorem signalled_send (value : T) {permit nextId : ℕ} {rxDropped : Bool} {rx : Option Receiver}
    {last woken : Option W} (hpermit : permit ≤ 1) (hwoken : ∀ w, last = some w → woken = some w) :
    Signalled ⟨⟨⟨.full⟩, ⟨permit, []⟩, some value, none, rxDropped, nextId⟩, .spent, rx,
      some value, [], last, woken⟩ :=
  ⟨nofun, ⟨rfl, rfl⟩, Nat.le_succ_of_le hpermit, fun _ => hpermit, nofun, iff_of_true rfl rfl, rfl,
    hwoken⟩

/-- After the first signal, by the drop of the sender. -/
theorem signalled_drop {permit nextId : ℕ} {rxDropped : Bool} {rx : Option Receiver}
    {last woken : Option W} (hpermit : permit ≤ 1) (hwoken : ∀ w, last = some w → woken = some w) :
    Signalled (⟨⟨⟨.closed⟩, ⟨permit, []⟩, none, none, rxDropped, nextId⟩, .dropped, rx, none, [],
      last, woken⟩ : Channel T W) :=
  ⟨nofun, ⟨rfl, rfl⟩, Nat.le_succ_of_le hpermit, fun _ => hpermit, nofun,
    iff_of_false Bool.false_ne_true nofun, rfl, hwoken⟩

/-- **One operation.** The first signal wakes the receiver if it is parked. -/
theorem Shape.step (h : Shape c) (hstep : c.step l = some c') : Shape c' := by
  cases h with
  | start =>
    cases l with
    | send value =>
      cases hstep
      exact .signalled (signalled_send value (Nat.le_refl 1) nofun)
    | dropSender =>
      cases hstep
      exact .signalled (signalled_drop (Nat.le_refl 1) nofun)
    | poll waker =>
      cases hstep
      exact .parked waker
    | dropReceiver =>
      cases hstep
      exact .deserted nofun
  | parked w =>
    cases l with
    | send value =>
      cases hstep
      refine .signalled (signalled_send value (Nat.zero_le 1) ?_)
      rintro w' ⟨⟩
      rfl
    | dropSender =>
      cases hstep
      refine .signalled (signalled_drop (Nat.zero_le 1) ?_)
      rintro w' ⟨⟩
      rfl
    | poll waker =>
      cases hstep
      exact .parked waker
    | dropReceiver =>
      cases hstep
      exact .deserted nofun
  | deserted htx =>
    cases l with
    | send value =>
      simp only [Channel.step] at hstep
      split at hstep
      · cases hstep
        exact .deserted nofun
      · cases hstep
    | dropSender =>
      simp only [Channel.step] at hstep
      rw [if_neg htx] at hstep
      cases hstep
      exact .signalled (signalled_drop (Nat.le_refl 1) nofun)
    | poll waker => cases hstep
    | dropReceiver => cases hstep
  | signalled h => exact .signalled (h.step hstep)

theorem shape_of_reachable (h : machine.Reachable c) : Shape c := by
  refine h.invariant ?_ ?_
  · rintro c rfl
    exact .start
  · intro c l c' hc hstep
    exact hc.step hstep

theorem Signalled.delivers (h : Signalled c) : c.Delivered := by
  have hdelivered := h.delivered
  have hprefix : c.received <+: c.sent.toList := ⟨_, hdelivered⟩
  refine ⟨?_, fun value hvalue => ?_, h.slot, fun htx => absurd htx h.tx,
    fun _ hsent r waker _ => ?_, fun r w _ hw => .inr (h.woken w hw), fun r waker _ => ?_⟩
  · calc c.received.length ≤ c.sent.toList.length := hprefix.length_le
      _ ≤ 1 := by cases c.sent <;> simp
  · simpa using hprefix.subset hvalue
  · have hfull : c.inner.okernel.st ≠ .full := by
      intro hfull
      obtain ⟨value, hvalue⟩ := Option.isSome_iff_exists.mp (h.slot.mpr hfull)
      rw [hvalue, hsent] at hdelivered
      simp at hdelivered
    exact ⟨_, _, Inner.poll_of_over h.quiet h.st hfull⟩
  · by_cases hfull : c.inner.okernel.st = .full
    · obtain ⟨value, hvalue⟩ := Option.isSome_iff_exists.mp (h.slot.mpr hfull)
      rw [Inner.poll_of_full h.quiet hfull hvalue]
      rfl
    · rw [Inner.poll_of_over h.quiet h.st hfull]
      rfl

theorem Shape.delivers (h : Shape c) : c.Delivered := by
  cases h with
  | start =>
    refine ⟨Nat.zero_le _, nofun, iff_of_false Bool.false_ne_true nofun,
      fun _ value => ⟨_, _, rfl⟩, nofun, nofun, ?_⟩
    rintro r waker ⟨⟩
    rfl
  | parked w =>
    refine ⟨Nat.zero_le _, nofun, iff_of_false Bool.false_ne_true nofun,
      fun _ value => ⟨_, _, rfl⟩, nofun, ?_, ?_⟩
    · rintro r w' ⟨⟩ ⟨⟩
      exact .inl ⟨rfl, rfl, rfl, rfl⟩
    · rintro r waker ⟨⟩
      rfl
  | deserted htx =>
    exact ⟨Nat.zero_le _, nofun, iff_of_false Bool.false_ne_true nofun,
      fun _ value => ⟨_, _, rfl⟩, fun hdropped => absurd hdropped htx, nofun, nofun⟩
  | signalled h => exact h.delivers

/-- **The oneshot channel.** In every run, at most one value is received, and it is the one whose
send has returned `Ok`, which it does if and only if the receiver is alive; the slot is filled while
the kernel is full; when the sender was dropped without sending, polls report so; and a receiver
whose latest poll has returned pending is registered with the waker of that poll, or was woken. -/
theorem reachable_delivered (h : machine.Reachable c) : c.Delivered :=
  (shape_of_reachable h).delivers

/-- The receiver is polled twice, with other wakers, before the send, and once more before the
sender is dropped. -/
theorem reachable_delivered_parked : ∃ c : Channel ℕ ℕ, machine.Reachable c ∧
    c.received = [5] ∧ c.inner.wkernel.permit = 1 ∧ c.Delivered := by
  have hstart : machine.Reachable (new : Channel ℕ ℕ) := .of_init rfl
  obtain ⟨c, hfollow, hreceived, hpermit⟩ : ∃ c : Channel ℕ ℕ, Machine.follow step
      [.poll 7, .poll 8, .send 5, .poll 9, .dropSender] new = some c ∧ c.received = [5] ∧
        c.inner.wkernel.permit = 1 :=
    ⟨_, rfl, rfl, rfl⟩
  have hreach := hstart.follow hfollow
  exact ⟨c, hreach, hreceived, hpermit, reachable_delivered hreach⟩

end Channel

end Lion.Oneshot
