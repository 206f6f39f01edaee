import Lion.Library.Mailbox
import Lion.Sync.MpscFifo
import Lion.Sync.Unbounded

/-!
# The receiver of an mpsc channel does not wait in vain

To its receiver, a channel is a mailbox: the values in the buffer, the senders, and the waker in
`rx_waker`. The kernel of the receiver counts a permit for every send that finds nobody parked, and
a poll takes them one by one before it parks; none of this touches the mailbox.

## From the channel to the mailbox

A send, the use of a permit and the drop of the last sender all end in `wake_rx_bounded`, which
empties the slot and hands its waker to the caller. A poll that finds nothing leaves its waker in
the slot; the drop of `recv` takes it away. Each of these is a step of the mailbox, and there are no
others: `step_box` goes through the operations.

Which waker was called is not read off the slot. The operations return it, as the functions of the
source hand it to their caller, and `note` takes it from there. A waker that got lost on the way
from the slot to the caller would be missing in the note, and the receiver would count as one that
waits unwoken.

## Polls end

`Recv::poll` goes round once for every permit that is stored, and the number of these grows with
every send that finds nobody parked. A receiver that only uses `try_recv` therefore leaves a long
row of them behind. They do no harm: `pollRecvLoop_eq` says that the loop is over when they are used
up, and `pollRecv_ends` that it then returns, unless it is out of ids.

## Main results

* `Channel.step_box` — operations on a channel are steps of a mailbox
* `Mpsc.reachable_prompted` — in both channels, a waker is stored while there is nothing to receive
  and somebody may send, a receiver that waits is registered or was woken, and polls end
-/

namespace Lion.Mpsc

variable {T W : Type}

namespace Inner

variable {g g' : Inner T W}

/-- What the receiver sees of what the mutex guards. -/
def box (g : Inner T W) : Mailbox W := ⟨g.buffer.length, g.senderCount, g.rxWaker⟩

/-- What `wake_rx_bounded` hands to its caller is what was in the slot, which is empty then. -/
theorem box_wakeRx {w : Option W} (h : g.wakeRx = some (w, g')) :
    w = g.rxWaker ∧ g'.box = { g.box with waker := none } := by
  obtain ⟨⟨action, rxKernel⟩, -, heq⟩ := Option.bind_eq_some_iff.mp h
  cases heq
  exact ⟨rfl, rfl⟩

theorem box_wakeOneTxLoop (n : ℕ) (g : Inner T W) : (wakeOneTxLoop n g).2.box = g.box := by
  induction n generalizing g with
  | zero => rfl
  | succ n ih =>
    rw [wakeOneTxLoop]
    split
    · split
      · split
        · rfl
        · exact ih _
      · rfl
      · rfl
    · rfl

theorem box_dropTxWaiter (g : Inner T W) (f : Waiter) : (g.dropTxWaiter f).2.box = g.box := by
  rw [dropTxWaiter]
  split
  · rfl
  · split
    · rename_i heq
      have hsnd := congrArg Prod.snd heq
      dsimp only at hsnd
      rw [← hsnd]
      rfl
    · rename_i heq
      have hsnd := congrArg Prod.snd heq
      dsimp only at hsnd
      rw [← hsnd]
      exact box_wakeOneTxLoop _ _

theorem box_withdraw (g : Inner T W) (f : Waiter) : (g.withdraw f).box = g.box := by
  rw [withdraw]
  split <;> rfl

theorem box_parkTx {f f' : Waiter} {waker : W} {ended : Bool}
    (h : g.parkTx f waker = some (ended, g', f')) : g'.box = g.box := by
  rw [parkTx] at h
  split at h
  · cases h
    rfl
  · obtain ⟨next, -, h⟩ := Option.bind_eq_some_iff.mp h
    split at h <;>
    · cases h
      rfl

/-- A value is put in, and the receiver woken with the waker that `wake_rx_bounded` has returned. -/
theorem others_push {g₁ : Inner T W} {w : Option W} (hwake : g₁.wakeRx = some (w, g'))
    (hpush : g₁.box = { g.box with items := g.box.items + 1 }) : g.box.Others w g'.box := by
  obtain ⟨rfl, heq⟩ := box_wakeRx hwake
  have hwaker : g₁.rxWaker = g.box.waker := congrArg Mailbox.waker hpush
  rw [heq, hpush, hwaker]
  exact .produce

theorem others_of_eq (h : g'.box = g.box) : g.box.Others none g'.box := by
  rw [h]
  exact .idle

theorem others_trySend {value : T} {res : Except T Unit} {w : Option W}
    (h : g.trySend value = some (res, w, g')) : g.box.Others w g'.box := by
  rw [trySend] at h
  split at h
  · cases h
    exact .idle
  · rcases g.ckernel.tryPush_cases with ⟨-, heq⟩ | ⟨-, heq⟩
    · rw [heq] at h
      obtain ⟨⟨w, g''⟩, hw, heq'⟩ := Option.bind_eq_some_iff.mp h
      cases heq'
      exact others_push hw (by simp [box])
    · rw [heq] at h
      cases h
      exact .idle

theorem box_tryReserve {res : Except TrySendError Unit} (h : g.tryReserve = (res, g')) :
    g'.box = g.box := by
  rw [tryReserve] at h
  split at h
  · cases h
    rfl
  · rcases g.ckernel.reserve_cases with ⟨-, heq⟩ | ⟨-, heq⟩ <;>
    · rw [heq] at h
      cases h
      rfl

theorem others_permitSend {value : T} {w : Option W} (h : g.permitSend value = some (w, g')) :
    g.box.Others w g'.box :=
  others_push h (by simp [box])

theorem others_pollSendLoop {n : ℕ} {f f' : Waiter} {value value' : Option T} {waker : W}
    {res : Poll (Except T Unit)} {woken : Option W}
    (h : pollSendLoop n g f value waker = some (res, woken, g', f', value')) :
    g.box.Others woken g'.box := by
  induction n generalizing g f with
  | zero => cases h
  | succ n ih =>
    rw [pollSendLoop] at h
    split at h
    · obtain ⟨v, -, heq⟩ := Option.bind_eq_some_iff.mp h
      cases heq
      exact .idle
    · rcases g.ckernel.tryPush_cases with ⟨-, heq⟩ | ⟨-, heq⟩
      · rw [heq] at h
        obtain ⟨v, -, h⟩ := Option.bind_eq_some_iff.mp h
        obtain ⟨⟨w, g''⟩, hw, heq'⟩ := Option.bind_eq_some_iff.mp h
        cases heq'
        have hbox := box_withdraw { g with
          ckernel := { g.ckernel with buffered := g.ckernel.buffered + 1 }
          buffer := g.buffer ++ [v] } f
        exact others_push hw (hbox.trans (by simp [box]))
      · rw [heq] at h
        obtain ⟨⟨ended, g'', f''⟩, hpark, h⟩ := Option.bind_eq_some_iff.mp h
        have hbox := box_parkTx hpark
        dsimp only at h
        split at h
        · cases h
          exact others_of_eq hbox
        · have hrest := ih h
          rw [hbox] at hrest
          exact hrest

theorem box_pollReserveLoop {n : ℕ} {f f' : Waiter} {waker : W} {res : Poll (Except Unit Unit)}
    (h : pollReserveLoop n g f waker = some (res, g', f')) : g'.box = g.box := by
  induction n generalizing g f with
  | zero => cases h
  | succ n ih =>
    rw [pollReserveLoop] at h
    split at h
    · cases h
      rfl
    · rcases g.ckernel.reserve_cases with ⟨-, heq⟩ | ⟨-, heq⟩
      · rw [heq] at h
        cases h
        exact box_withdraw { g with
          ckernel := { g.ckernel with reserved := g.ckernel.reserved + 1 } } f
      · rw [heq] at h
        obtain ⟨⟨ended, g'', f''⟩, hpark, h⟩ := Option.bind_eq_some_iff.mp h
        have hbox := box_parkTx hpark
        dsimp only at h
        split at h
        · cases h
          exact hbox
        · exact (ih h).trans hbox

theorem others_dropSender {w : Option W} (h : g.dropSender = some (w, g')) :
    g.box.Others w g'.box := by
  rw [dropSender] at h
  dsimp only at h
  split at h
  · rename_i hzero
    obtain ⟨rfl, heq⟩ := box_wakeRx h
    rw [heq]
    simp only [box, hzero]
    exact .abandon
  · rename_i hmore
    cases h
    exact .recount hmore

theorem others_cloneSender (h : g.cloneSender = some g') : g.box.Others none g'.box := by
  obtain ⟨n, hsucc, heq⟩ := Option.bind_eq_some_iff.mp h
  cases heq
  cases succ64_eq_some hsucc
  exact .recount (Nat.succ_ne_zero _)

theorem others_popFront {ckernel : ChannelKernel} {v : T} {woken : Option (ℕ × W)}
    (h : g.popFront ckernel = some (v, woken, g')) : g.box.Others none g'.box := by
  rw [popFront] at h
  split at h
  · cases h
  · rename_i value rest hbuf
    cases h
    have heq : ({ g with ckernel, buffer := rest } : Inner T W).wakeOneTx.2.box =
        { g.box with items := g.box.items - 1 } := by
      refine (box_wakeOneTxLoop _ _).trans ?_
      simp [box, hbuf]
    exact (congrArg (g.box.Others none) heq).mpr .consume

theorem others_tryRecv {value : Option T} {woken : Option (ℕ × W)}
    (h : g.tryRecv = some (value, woken, g')) : g.box.Others none g'.box := by
  rw [tryRecv] at h
  rcases g.ckernel.pop_cases with ⟨-, heq⟩ | ⟨-, heq⟩
  · rw [heq] at h
    obtain ⟨⟨v, w, g''⟩, hpop, heq'⟩ := Option.bind_eq_some_iff.mp h
    cases heq'
    exact others_popFront hpop
  · rw [heq] at h
    cases h
    exact .idle

/-- **A poll of `recv`** is a step of the consumer. -/
theorem step_pollRecvLoop {n : ℕ} {f f' : Recv} {waker : W} {res : Poll (Option T)}
    {woken : Option (ℕ × W)} (hbuf : g.buffer.length = g.ckernel.buffered)
    (h : pollRecvLoop n g f waker = some (res, woken, g', f')) :
    g.box.Step (.consumer (res.waits waker)) g'.box := by
  induction n generalizing g with
  | zero => cases h
  | succ n ih =>
    rw [pollRecvLoop] at h
    rcases g.ckernel.pop_cases with ⟨-, heq⟩ | ⟨hzero, heq⟩
    · rw [heq] at h
      obtain ⟨⟨v, w, g''⟩, hpop, heq'⟩ := Option.bind_eq_some_iff.mp h
      cases heq'
      exact .finish (others_popFront hpop)
    · rw [heq] at h
      have hitems : g.box.items = 0 := hbuf.trans hzero
      dsimp only at h
      split at h
      · cases h
        exact .finish .idle
      · rename_i hcount
        split at h
        · cases h
          exact .wait waker hitems hcount
        · obtain ⟨next, -, h⟩ := Option.bind_eq_some_iff.mp h
          split at h
          · have hrest := ih (g := { g with rxNextId := next, rxKernel := _ }) hbuf h
            exact hrest
          · cases h
            exact .wait waker hitems hcount

theorem step_dropRecv (g : Inner T W) (f : Recv) :
    g.box.Step (.consumer none) (g.dropRecv f).box := by
  rw [dropRecv]
  split
  · exact .withdraw
  · exact .finish .idle

/-- The loop of `Recv::poll` ends after as many turns as there are permits, and one more: further
turns change nothing. -/
theorem pollRecvLoop_eq {n : ℕ} (hn : g.rxKernel.permit < n) (f : Recv) (waker : W) :
    pollRecvLoop n g f waker = g.pollRecv f waker := by
  have key : ∀ n m (g : Inner T W), g.rxKernel.permit < n → g.rxKernel.permit < m →
      pollRecvLoop n g f waker = pollRecvLoop m g f waker := by
    intro n
    induction n with
    | zero => exact fun _ _ hn _ => absurd hn (Nat.not_lt_zero _)
    | succ n ih =>
      intro m g hn hm
      obtain ⟨m, rfl⟩ : ∃ k, m = k + 1 := ⟨m - 1, by omega⟩
      rw [pollRecvLoop, pollRecvLoop]
      rcases g.ckernel.pop_cases with ⟨-, heq⟩ | ⟨-, heq⟩
      · rw [heq]
      · rw [heq]
        by_cases hpermit : 0 < g.rxKernel.permit
        · have hrest : ∀ rxNextId, pollRecvLoop n { g with
                rxNextId, rxKernel := { g.rxKernel with permit := g.rxKernel.permit - 1 } } f
                waker =
              pollRecvLoop m { g with
                rxNextId, rxKernel := { g.rxKernel with permit := g.rxKernel.permit - 1 } } f
                waker := by
            intro rxNextId
            refine ih m _ ?_ ?_
            · show g.rxKernel.permit - 1 < n
              omega
            · show g.rxKernel.permit - 1 < m
              omega
          simp only [WaiterKernel.waitStep, if_pos hpermit, hrest]
        · simp only [WaiterKernel.waitStep, if_neg hpermit]
  exact key n _ g hn (Nat.lt_succ_self _)

end Inner

namespace Channel

variable {s s' : Channel T W} {l : Label T W}

/-- What the receiver sees of a channel. -/
def box (s : Channel T W) : Mailbox W := s.inner.box

/-- For an operation of the receiver's future, the waker that it leaves waiting. For others, the
waker that they return, which is the one that `wake_rx_bounded` has handed to them, and which they
wake when they have let the mutex go. -/
def note (s : Channel T W) : Label T W → Mailbox.Event W
  | .recv => .consumer none
  | .dropRecv => .consumer none
  | .pollRecv waker =>
    .consumer ((s.recv.bind fun f => s.inner.pollRecv f waker).bind fun res => res.1.waits waker)
  | .trySend value =>
    .others ((s.inner.trySend value).bind fun res => res.2.1)
  | .poll i waker =>
    match s.futures[i]? with
    | some (some f) =>
      match f.kind with
      | .send value =>
        .others ((s.inner.pollSend f.toWaiter value waker).bind fun res => res.2.1)
      | .reserve => .others none
    | _ => .others none
  | .permitSend value => .others ((s.inner.permitSend value).bind fun res => res.1)
  | .dropSender => .others (s.inner.dropSender.bind fun res => res.1)
  | .send _ => .others none
  | .tryReserve => .others none
  | .reserve => .others none
  | .drop _ => .others none
  | .permitDrop => .others none
  | .cloneSender => .others none
  | .tryRecv => .others none
  | .close => .others none
  | .dropReceiver => .others none

theorem note_pollRecv {waker : W} {f f' : Recv} {res : Poll (Option T)} {woken : Option (ℕ × W)}
    {inner : Inner T W} (hf : s.recv = some f)
    (hpoll : s.inner.pollRecv f waker = some (res, woken, inner, f')) :
    s.note (.pollRecv waker) = .consumer (res.waits waker) := by
  simp only [note, hf, Option.bind_some, hpoll]

/-- A poll of a sender's future puts a value in, or does not touch the mailbox. -/
theorem step_box_poll {i : ℕ} {waker : W} (h : s.step (.poll i waker) = some s') :
    s.box.Step (s.note (.poll i waker)) s'.box := by
  simp only [step] at h
  split at h
  · rename_i f hf
    split at h
    · cases h
    · rw [poll] at h
      split at h
      · rename_i value hkind
        obtain ⟨⟨res, woken, g, w, value'⟩, hpoll, heq⟩ := Option.bind_eq_some_iff.mp h
        cases heq
        simp only [note, hf, hkind, hpoll, Option.bind_some]
        exact .others (Inner.others_pollSendLoop hpoll)
      · rename_i hkind
        obtain ⟨⟨res, g, w⟩, hpoll, heq⟩ := Option.bind_eq_some_iff.mp h
        cases heq
        simp only [note, hf, hkind]
        exact .others (Inner.others_of_eq (Inner.box_pollReserveLoop hpoll))
  · cases h

/-- **Operations are steps of a mailbox**, with what `note` says of them. -/
theorem step_box (hs : machine.Reachable s) (h : s.step l = some s') :
    s.box.Step (s.note l) s'.box := by
  have hbuf := (sound_of_reachable hs).length
  cases step_cases h with
  | trySend _ hsend =>
    simp only [note, hsend, Option.bind_some]
    exact .others (Inner.others_trySend hsend)
  | send _ => exact .others .idle
  | tryReserve _ hreserve => exact .others (Inner.others_of_eq (Inner.box_tryReserve hreserve))
  | reserve _ => exact .others .idle
  | pollSend _ _ _ => exact step_box_poll h
  | pollReserve _ _ _ => exact step_box_poll h
  | drop _ => exact .others (Inner.others_of_eq (Inner.box_dropTxWaiter _ _))
  | permitSend _ hsend =>
    simp only [note, hsend, Option.bind_some]
    exact .others (Inner.others_permitSend hsend)
  | permitDrop _ => exact .others (Inner.others_of_eq (Inner.box_wakeOneTxLoop _ _))
  | cloneSender _ hclone => exact .others (Inner.others_cloneSender hclone)
  | dropSender _ hdrop =>
    simp only [note, hdrop, Option.bind_some]
    exact .others (Inner.others_dropSender hdrop)
  | tryRecv _ _ hrecv => exact .others (Inner.others_tryRecv hrecv)
  | recv _ _ => exact .finish .idle
  | pollRecv hf hpoll =>
    rw [note_pollRecv hf hpoll]
    exact Inner.step_pollRecvLoop hbuf hpoll
  | dropRecv _ => exact Inner.step_dropRecv _ _
  | close _ _ => exact .others .idle
  | dropReceiver _ _ => exact .others .idle

/-- The channel, with a note of which waker its receiver waits with, and whether it was called. -/
def attended : Machine (Attended (Channel T W) W) (Label T W) :=
  Attended.machine (fun s => ∃ capacity, 0 < capacity ∧ s = new capacity) step note

/-- Nobody waits for values in vain, at a channel as at any mailbox. -/
theorem prompted_of_reachable {s : Attended (Channel T W) W} (h : attended.Reachable s) :
    s.state.box.Prompted s.last s.woken := by
  refine Attended.invariant box ?_ (fun s l s' hs hstep => step_box hs hstep) h
  rintro s ⟨capacity, -, rfl⟩
  rfl

/-- Polls of `recv` end: their loop is over after as many turns as there are permits, and one more.
They return, or an id does not fit into its counter. -/
theorem pollRecv_ends (h : machine.Reachable s) (f : Recv) (waker : W) :
    (∀ n, s.inner.rxKernel.permit < n →
      s.inner.pollRecvLoop n f waker = s.inner.pollRecv f waker) ∧
    ((s.inner.pollRecv f waker).isSome = true ∨
      UInt64.size ≤ s.inner.rxNextId + (s.inner.rxKernel.permit + 1)) := by
  refine ⟨fun n hn => Inner.pollRecvLoop_eq hn f waker, ?_⟩
  by_cases hids : s.inner.rxNextId + (s.inner.rxKernel.permit + 1) < UInt64.size
  · exact .inl (Inner.isSome_pollRecvLoop (Nat.lt_succ_self _) hids
      (sound_of_reachable h).length f waker)
  · exact .inr (Nat.le_of_not_lt hids)

end Channel

end Lion.Mpsc

namespace Lion.Unbounded

variable {T W : Type}

namespace Inner

variable {g g' : Inner T W}

theorem bounded_injective : Function.Injective (bounded : Inner T W → Mpsc.Inner T W) := by
  rintro ⟨⟩ ⟨⟩ h
  simp only [bounded, Mpsc.Inner.mk.injEq] at h
  simp [h]

/-- The loop of `UnboundedRecv::poll` ends as that of `Recv::poll` does. -/
theorem pollRecvLoop_eq {n : ℕ} (hn : g.rxKernel.permit < n) (f : Recv) (waker : W) :
    pollRecvLoop n g f waker = g.pollRecv f waker := by
  have hbounded := Mpsc.Inner.pollRecvLoop_eq (g := g.bounded) hn f.bounded waker
  rw [Mpsc.Inner.pollRecv, bounded_pollRecvLoop] at hbounded
  refine Option.map_injective ?_ (hbounded.trans (bounded_pollRecvLoop _ g f waker))
  rintro ⟨res, g₁, ⟨id, parked⟩⟩ ⟨res', g₂, ⟨id', parked'⟩⟩ heq
  simp only [Prod.mk.injEq, Recv.bounded, Mpsc.Recv.mk.injEq] at heq
  obtain ⟨rfl, -, hg, rfl, rfl⟩ := heq
  rw [bounded_injective hg]

end Inner

namespace Channel

variable {s s' : Channel T W} {l : Label T W}

/-- For an operation of the receiver's future, the waker that it leaves waiting. For others, the
waker that they took out with `wake_rx_unbounded`, which they wake when they have let the mutex
go. -/
def note (s : Channel T W) : Label T W → Mailbox.Event W
  | .recv => .consumer none
  | .dropRecv => .consumer none
  | .pollRecv waker =>
    .consumer ((s.recv.bind fun f => s.inner.pollRecv f waker).bind fun res => res.1.waits waker)
  | .send value => .others ((s.inner.send value).bind fun res => res.2.1)
  | .dropSender => .others (s.inner.dropSender.bind fun res => res.1)
  | .cloneSender => .others none
  | .tryRecv => .others none
  | .close => .others none
  | .dropReceiver => .others none

/-- Its note is that of the bounded channel. -/
theorem note_bounded {accepted received : List T}
    (hroom : s.inner.buffer.length + 1 < UInt64.size → s.inner.ckernel.HasRoom)
    (h : s.step l = some s') : (s.bounded accepted received).note l.bounded = s.note l := by
  cases l with
  | send value =>
    simp only [step] at h
    split at h
    · cases h
    · obtain ⟨⟨res, w, inner⟩, hsend, -⟩ := Option.map_eq_some_iff.mp h
      have hbounded := Inner.bounded_send hroom hsend
      simp only [note, Label.bounded, Mpsc.Channel.note, hsend, Option.bind_some]
      show Mailbox.Event.others ((s.inner.bounded.trySend value).bind _) = _
      rw [hbounded]
      rfl
  | cloneSender => rfl
  | dropSender =>
    simp only [step] at h
    split at h
    · cases h
    · obtain ⟨⟨w, inner⟩, hdrop, -⟩ := Option.map_eq_some_iff.mp h
      have hbounded := Inner.bounded_dropSender s.inner
      simp only [note, Label.bounded, Mpsc.Channel.note, hdrop, Option.bind_some]
      show Mailbox.Event.others (s.inner.bounded.dropSender.bind _) = _
      rw [hbounded, hdrop]
      rfl
  | tryRecv => rfl
  | recv => rfl
  | pollRecv waker =>
    obtain ⟨f, hf, h⟩ := Option.bind_eq_some_iff.mp h
    obtain ⟨⟨res, inner, f'⟩, hpoll, -⟩ := Option.bind_eq_some_iff.mp h
    have hbounded := Inner.bounded_pollRecvLoop (s.inner.rxKernel.permit + 1) s.inner f waker
    rw [Inner.pollRecv] at hpoll
    rw [hpoll] at hbounded
    have hrecv : (s.bounded accepted received).recv = some f.bounded := by
      rw [bounded, hf]
      rfl
    refine (Mpsc.Channel.note_pollRecv hrecv hbounded).trans ?_
    simp only [note, hf, Option.bind_some, Inner.pollRecv, hpoll]
  | dropRecv => rfl
  | close => rfl
  | dropReceiver => rfl

/-- What the receiver sees of an unbounded channel. -/
def box (s : Channel T W) : Mailbox W := s.inner.bounded.box

/-- **Operations are steps of a mailbox**, as those of the bounded channel are. -/
theorem step_box (hs : machine.Reachable s) (h : s.step l = some s') :
    s.box.Step (s.note l) s'.box := by
  obtain ⟨accepted, received, hreach, hroom⟩ := reachable_bounded hs
  obtain ⟨accepted', received', hstep⟩ := step_bounded accepted received hroom h
  have hbox := Mpsc.Channel.step_box hreach hstep
  rw [note_bounded hroom h] at hbox
  exact hbox

/-- The unbounded channel, with a note of which waker its receiver waits with, and whether it was
called. -/
def attended : Machine (Attended (Channel T W) W) (Label T W) :=
  Attended.machine (· = new) step note

/-- Nobody waits for values in vain, as at the bounded channel. -/
theorem prompted_of_reachable {s : Attended (Channel T W) W} (h : attended.Reachable s) :
    s.state.box.Prompted s.last s.woken := by
  refine Attended.invariant box ?_ (fun s l s' hs hstep => step_box hs hstep) h
  rintro s rfl
  rfl

/-- Polls of `recv` end, as those of the bounded channel do. -/
theorem pollRecv_ends (h : machine.Reachable s) (f : Recv) (waker : W) :
    (∀ n, s.inner.rxKernel.permit < n →
      s.inner.pollRecvLoop n f waker = s.inner.pollRecv f waker) ∧
    ((s.inner.pollRecv f waker).isSome = true ∨
      UInt64.size ≤ s.inner.rxNextId + (s.inner.rxKernel.permit + 1)) := by
  obtain ⟨accepted, received, hreach, -⟩ := reachable_bounded h
  refine ⟨fun n hn => Inner.pollRecvLoop_eq hn f waker, ?_⟩
  have hbounded := Inner.bounded_pollRecvLoop (s.inner.rxKernel.permit + 1) s.inner f waker
  have hsome : (s.inner.bounded.pollRecv f.bounded waker).isSome =
      (s.inner.pollRecv f waker).isSome := by
    refine (congrArg Option.isSome hbounded).trans ?_
    rw [Option.isSome_map, Inner.pollRecv]
  rw [← hsome]
  exact (Mpsc.Channel.pollRecv_ends hreach f.bounded waker).2

end Channel

end Lion.Unbounded

namespace Lion.Mpsc

variable {T W : Type}

/-- **The receiver does not wait in vain.** In both channels, after any operations in any order: a
waker is stored only while the buffer is empty and a sender is alive, when the latest poll of `recv`
was pending its waker is stored or was woken since, and a poll ends, whatever permits the kernel of
the receiver has counted. -/
theorem reachable_prompted :
    (∀ s : Attended (Channel T W) W, Channel.attended.Reachable s →
      (∀ w, s.state.inner.rxWaker = some w →
        s.state.inner.buffer = [] ∧ s.state.inner.senderCount ≠ 0) ∧
      (∀ w, s.last = some w → s.state.inner.rxWaker = some w ∨ s.woken = some w) ∧
      ∀ f waker, (∀ n, s.state.inner.rxKernel.permit < n →
          s.state.inner.pollRecvLoop n f waker = s.state.inner.pollRecv f waker) ∧
        ((s.state.inner.pollRecv f waker).isSome = true ∨
          UInt64.size ≤ s.state.inner.rxNextId + (s.state.inner.rxKernel.permit + 1))) ∧
    (∀ s : Attended (Unbounded.Channel T W) W, Unbounded.Channel.attended.Reachable s →
      (∀ w, s.state.inner.rxWaker = some w →
        s.state.inner.buffer = [] ∧ s.state.inner.senderCount ≠ 0) ∧
      (∀ w, s.last = some w → s.state.inner.rxWaker = some w ∨ s.woken = some w) ∧
      ∀ f waker, (∀ n, s.state.inner.rxKernel.permit < n →
          s.state.inner.pollRecvLoop n f waker = s.state.inner.pollRecv f waker) ∧
        ((s.state.inner.pollRecv f waker).isSome = true ∨
          UInt64.size ≤ s.state.inner.rxNextId + (s.state.inner.rxKernel.permit + 1))) := by
  constructor
  · intro s h
    have hprompted := Channel.prompted_of_reachable h
    refine ⟨fun w hw => ?_, fun w hw => ?_, Channel.pollRecv_ends (Attended.reachable_state h)⟩
    · obtain ⟨hitems, hcount⟩ := hprompted.idle w hw
      exact ⟨List.eq_nil_of_length_eq_zero hitems, hcount⟩
    · rw [hw] at hprompted
      exact hprompted.stored_or_woken
  · intro s h
    have hprompted := Unbounded.Channel.prompted_of_reachable h
    refine ⟨fun w hw => ?_, fun w hw => ?_,
      Unbounded.Channel.pollRecv_ends (Attended.reachable_state h)⟩
    · obtain ⟨hitems, hcount⟩ := hprompted.idle w hw
      exact ⟨List.eq_nil_of_length_eq_zero hitems, hcount⟩
    · rw [hw] at hprompted
      exact hprompted.stored_or_woken

/-- In both channels, a value is sent and received while nobody waits, and the permit that the
kernel counted for it is gone when the receiver parks with waker `1`. -/
theorem reachable_prompted_stale :
    (∃ s : Attended (Channel ℕ ℕ) ℕ, Channel.attended.Reachable s ∧ s.last = some 1 ∧
      s.state.inner.rxNextId = 2 ∧ (s.state.inner.rxWaker = some 1 ∨ s.woken = some 1)) ∧
    (∃ s : Attended (Unbounded.Channel ℕ ℕ) ℕ, Unbounded.Channel.attended.Reachable s ∧
      s.last = some 1 ∧ s.state.inner.rxNextId = 2 ∧
      (s.state.inner.rxWaker = some 1 ∨ s.woken = some 1)) := by
  constructor
  · have hstart : Channel.attended.Reachable (⟨.new 2, none, none⟩ : Attended (Channel ℕ ℕ) ℕ) :=
      .of_init ⟨⟨2, by decide, rfl⟩, rfl, rfl⟩
    obtain ⟨s, hfollow, hlast, hid⟩ : ∃ s, Machine.follow
        (Attended.step Channel.step Channel.note) [.trySend 5, .tryRecv, .recv, .pollRecv 1]
        (⟨.new 2, none, none⟩ : Attended (Channel ℕ ℕ) ℕ) = some s ∧
        s.last = some 1 ∧ s.state.inner.rxNextId = 2 := ⟨_, rfl, rfl, rfl⟩
    have hreach := hstart.follow hfollow
    exact ⟨s, hreach, hlast, hid, (reachable_prompted.1 s hreach).2.1 1 hlast⟩
  · have hstart : Unbounded.Channel.attended.Reachable
        (⟨.new, none, none⟩ : Attended (Unbounded.Channel ℕ ℕ) ℕ) := .of_init ⟨rfl, rfl, rfl⟩
    obtain ⟨s, hfollow, hlast, hid⟩ : ∃ s, Machine.follow
        (Attended.step Unbounded.Channel.step Unbounded.Channel.note)
        [.send 5, .tryRecv, .recv, .pollRecv 1]
        (⟨.new, none, none⟩ : Attended (Unbounded.Channel ℕ ℕ) ℕ) = some s ∧
        s.last = some 1 ∧ s.state.inner.rxNextId = 2 := ⟨_, rfl, rfl, rfl⟩
    have hreach := hstart.follow hfollow
    exact ⟨s, hreach, hlast, hid, (reachable_prompted.2 s hreach).2.1 1 hlast⟩

end Lion.Mpsc
