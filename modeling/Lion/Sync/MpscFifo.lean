import Lion.Sync.Mpsc

/-!
# The channel is a queue

The counts are the kernel's, the values are in the buffer, and the reservations are permit objects.
This file keeps the three in step. `Stock` is what they amount to, `Stock.Step` is what can happen
to it, and every operation, with all its drops and wakes, does one of these things
(`Channel.step_stock`). What follows about the stock alone is a matter of counting.

## What is in a channel

A slot is in one of three states: free, reserved by a permit that is alive, or filled with a value.
The kernel counts the last two, and never looks at the buffer. So the claim that matters is that the
two agree: as many values as the kernel counts, as many permits as it has reserved, and together no
more than the capacity. Were one of these to slip, the `pop_front` of `try_recv` that the source
unwraps would panic, or a permit would find its slot taken.

The order is the buffer's: values go in at one end and come out at the other, a permit's value when
it is filled and not when it was reserved.

## How it is proved

There is a lemma for each function of `Inner`, which says what the function does to the stock, with
loops by induction on their turns. The turns that go round park or take a stored permit, and
`SameStock` is that this is nothing to the stock. Closing is not undone by any of them, which is the
rest of what `reachable_queue` says.

## Main results

* `Inner.isSome_pollRecvLoop` — the loop of `Recv::poll` ends
* `Channel.step_stock` — an operation is one change of the stock
* `Channel.reachable_queue` — the counts agree, and values are received in the order of their sends
-/

namespace Lion.Mpsc

variable {T W : Type}

/-- What is in a channel, what was promised, and what went through it. -/
structure Stock (T : Type) where
  ckernel : ChannelKernel
  buffer : List T
  /-- How many permits are alive. -/
  permits : ℕ
  accepted : List T
  received : List T
  closed : Bool

/-- What can happen to the stock of a channel in one operation. -/
inductive Stock.Step (a : Stock T) : Stock T → Prop
  /-- The operation only parks, wakes or looks. -/
  | idle : Step a a
  /-- A value is sent into a free slot. -/
  | push (v : T) : a.ckernel.HasRoom → Step a { a with
      ckernel := { a.ckernel with buffered := a.ckernel.buffered + 1 }
      buffer := a.buffer ++ [v]
      accepted := a.accepted ++ [v] }
  /-- The oldest value is received. -/
  | pop (v : T) (rest : List T) : 0 < a.ckernel.buffered → a.buffer = v :: rest → Step a { a with
      ckernel := { a.ckernel with buffered := a.ckernel.buffered - 1 }
      buffer := rest
      received := a.received ++ [v] }
  /-- A free slot is reserved, and there is a permit for it. -/
  | reserve : a.ckernel.HasRoom → Step a { a with
      ckernel := { a.ckernel with reserved := a.ckernel.reserved + 1 }
      permits := a.permits + 1 }
  /-- A permit is used: its slot has a value now. -/
  | fill (v : T) : a.permits ≠ 0 → Step a { a with
      ckernel := a.ckernel.fill
      buffer := a.buffer ++ [v]
      permits := a.permits - 1
      accepted := a.accepted ++ [v] }
  /-- A permit is dropped, and its slot is free again. -/
  | unreserve : a.permits ≠ 0 → Step a { a with
      ckernel := a.ckernel.unreserve
      permits := a.permits - 1 }
  | close : Step a { a with closed := true }

/-- The counts agree with the values and the permits, and what was accepted was received or is in
the buffer. -/
structure Stock.Sound (a : Stock T) : Prop where
  length : a.buffer.length = a.ckernel.buffered
  room : a.ckernel.buffered + a.ckernel.reserved ≤ a.ckernel.capacity
  reserved : a.ckernel.reserved = a.permits
  order : a.accepted = a.received ++ a.buffer

theorem Stock.Sound.step {a b : Stock T} (h : a.Sound) (hstep : a.Step b) : b.Sound := by
  have hlength := h.length
  have hroom := h.room
  have hreserved := h.reserved
  cases hstep with
  | idle => exact h
  | push v hfree =>
    refine ⟨?_, ?_, hreserved, ?_⟩
    · simp [hlength]
    · rw [ChannelKernel.HasRoom] at hfree
      show a.ckernel.buffered + 1 + a.ckernel.reserved ≤ a.ckernel.capacity
      omega
    · simp [h.order]
  | pop v rest hpos hbuf =>
    refine ⟨?_, ?_, hreserved, ?_⟩
    · rw [hbuf, List.length_cons] at hlength
      show rest.length = a.ckernel.buffered - 1
      omega
    · show a.ckernel.buffered - 1 + a.ckernel.reserved ≤ a.ckernel.capacity
      omega
    · simp [h.order, hbuf]
  | reserve hfree =>
    refine ⟨hlength, ?_, ?_, h.order⟩
    · rw [ChannelKernel.HasRoom] at hfree
      show a.ckernel.buffered + (a.ckernel.reserved + 1) ≤ a.ckernel.capacity
      omega
    · show a.ckernel.reserved + 1 = a.permits + 1
      omega
  | fill v hpermits =>
    refine ⟨?_, ?_, ?_, ?_⟩
    · simp [ChannelKernel.fill, hlength]
    · show a.ckernel.buffered + 1 + (a.ckernel.reserved - 1) ≤ a.ckernel.capacity
      omega
    · show a.ckernel.reserved - 1 = a.permits - 1
      omega
    · simp [h.order]
  | unreserve hpermits =>
    refine ⟨hlength, ?_, ?_, h.order⟩
    · show a.ckernel.buffered + (a.ckernel.reserved - 1) ≤ a.ckernel.capacity
      omega
    · show a.ckernel.reserved - 1 = a.permits - 1
      omega
  | close => exact ⟨hlength, hroom, hreserved, h.order⟩

/-- A closed channel stays closed. -/
theorem Stock.Step.closed {a b : Stock T} (hstep : a.Step b) (h : a.closed = true) :
    b.closed = true := by
  cases hstep with
  | close => rfl
  | _ => exact h

theorem Stock.Step.capacity {a b : Stock T} (hstep : a.Step b) :
    b.ckernel.capacity = a.ckernel.capacity := by
  cases hstep <;> rfl

/-! ### What operations do to the stock -/

namespace Inner

variable {g g' : Inner T W}

/-- `g'` holds the same counts and values as `g`, and it is open if `g` is. -/
def SameStock (g g' : Inner T W) : Prop :=
  g'.ckernel = g.ckernel ∧ g'.buffer = g.buffer ∧ g'.rxClosed = g.rxClosed

theorem sameStock_wakeRx {w : Option W} (h : g.wakeRx = some (w, g')) : SameStock g g' := by
  simp only [wakeRx, Option.bind_eq_bind, Option.bind_eq_some_iff, Option.pure_def,
    Option.some.injEq, Prod.mk.injEq] at h
  obtain ⟨_, -, -, rfl⟩ := h
  exact ⟨rfl, rfl, rfl⟩

theorem sameStock_wakeOneTxLoop (n : ℕ) (g : Inner T W) : SameStock g (wakeOneTxLoop n g).2 := by
  induction n generalizing g with
  | zero => exact ⟨rfl, rfl, rfl⟩
  | succ n ih =>
    rw [wakeOneTxLoop]
    split
    · split
      · split
        · exact ⟨rfl, rfl, rfl⟩
        · exact ih _
      · exact ⟨rfl, rfl, rfl⟩
      · exact ⟨rfl, rfl, rfl⟩
    · exact ⟨rfl, rfl, rfl⟩

theorem sameStock_wakeOneTx (g : Inner T W) : SameStock g g.wakeOneTx.2 :=
  sameStock_wakeOneTxLoop _ g

theorem sameStock_dropTxWaiter (g : Inner T W) (f : Waiter) : SameStock g (g.dropTxWaiter f).2 := by
  rw [dropTxWaiter]
  split
  · exact ⟨rfl, rfl, rfl⟩
  · split
    · rename_i heq
      have hsnd := congrArg Prod.snd heq
      dsimp only [removeTxWaiter] at hsnd
      rw [← hsnd]
      exact ⟨rfl, rfl, rfl⟩
    · rename_i heq
      have hsnd := congrArg Prod.snd heq
      dsimp only [removeTxWaiter] at hsnd
      rw [← hsnd]
      exact sameStock_wakeOneTx _

theorem sameStock_withdraw (g : Inner T W) (f : Waiter) : SameStock g (g.withdraw f) := by
  rw [withdraw]
  split
  · exact ⟨rfl, rfl, rfl⟩
  · exact ⟨rfl, rfl, rfl⟩

theorem sameStock_parkTx {f f' : Waiter} {waker : W} {ended : Bool}
    (h : g.parkTx f waker = some (ended, g', f')) : SameStock g g' := by
  rw [parkTx] at h
  split at h
  · cases h
    exact ⟨rfl, rfl, rfl⟩
  · simp only [Option.bind_eq_bind, Option.bind_eq_some_iff] at h
    obtain ⟨next, -, h⟩ := h
    split at h
    · cases h
      exact ⟨rfl, rfl, rfl⟩
    · cases h
      exact ⟨rfl, rfl, rfl⟩

theorem sameStock_dropSender {w : Option W} (h : g.dropSender = some (w, g')) : SameStock g g' := by
  rw [dropSender] at h
  dsimp only at h
  split at h
  · have hsame := sameStock_wakeRx h
    exact hsame
  · cases h
    exact ⟨rfl, rfl, rfl⟩

theorem sameStock_cloneSender (h : g.cloneSender = some g') : SameStock g g' := by
  obtain ⟨n, -, heq⟩ := Option.bind_eq_some_iff.mp h
  cases heq
  exact ⟨rfl, rfl, rfl⟩

theorem sameStock_dropRecv (g : Inner T W) (f : Recv) : SameStock g (g.dropRecv f) := by
  rw [dropRecv]
  split
  · exact ⟨rfl, rfl, rfl⟩
  · exact ⟨rfl, rfl, rfl⟩

/-- `try_send` sends its value, or does nothing. -/
theorem trySend_stock {value : T} {res : Except T Unit} {w : Option W}
    (h : g.trySend value = some (res, w, g')) :
    (res.isOk = true ∧ g.ckernel.HasRoom ∧
      g'.ckernel = { g.ckernel with buffered := g.ckernel.buffered + 1 } ∧
      g'.buffer = g.buffer ++ [value] ∧ g'.rxClosed = g.rxClosed) ∨
    (res.isOk = false ∧ SameStock g g') := by
  rw [trySend] at h
  split at h
  · cases h
    exact .inr ⟨rfl, rfl, rfl, rfl⟩
  · rcases g.ckernel.tryPush_cases with ⟨hroom, heq⟩ | ⟨-, heq⟩
    · rw [heq] at h
      simp only [Option.bind_eq_bind, Option.bind_eq_some_iff, Option.pure_def, Option.some.injEq,
        Prod.mk.injEq] at h
      obtain ⟨⟨w, g''⟩, hw, rfl, -, rfl⟩ := h
      exact .inl ⟨rfl, hroom, sameStock_wakeRx hw⟩
    · rw [heq] at h
      cases h
      exact .inr ⟨rfl, rfl, rfl, rfl⟩

/-- `try_reserve` reserves a slot, or does nothing. -/
theorem tryReserve_stock {res : Except TrySendError Unit} (h : g.tryReserve = (res, g')) :
    (res.isOk = true ∧ g.ckernel.HasRoom ∧
      g'.ckernel = { g.ckernel with reserved := g.ckernel.reserved + 1 } ∧
      g'.buffer = g.buffer ∧ g'.rxClosed = g.rxClosed) ∨
    (res.isOk = false ∧ SameStock g g') := by
  rw [tryReserve] at h
  split at h
  · cases h
    exact .inr ⟨rfl, rfl, rfl, rfl⟩
  · rcases g.ckernel.reserve_cases with ⟨hroom, heq⟩ | ⟨-, heq⟩
    · rw [heq] at h
      cases h
      exact .inl ⟨rfl, hroom, rfl, rfl, rfl⟩
    · rw [heq] at h
      cases h
      exact .inr ⟨rfl, rfl, rfl, rfl⟩

/-- `Permit::send` fills the slot it has. -/
theorem permitSend_stock {value : T} {w : Option W} (h : g.permitSend value = some (w, g')) :
    g'.ckernel = g.ckernel.fill ∧ g'.buffer = g.buffer ++ [value] ∧
      g'.rxClosed = g.rxClosed :=
  sameStock_wakeRx h

/-- `Send::poll` sends its value, or does nothing. -/
theorem pollSendLoop_stock {n : ℕ} {f f' : Waiter} {value value' : Option T} {waker : W}
    {res : Poll (Except T Unit)} {woken : Option W}
    (h : pollSendLoop n g f value waker = some (res, woken, g', f', value')) :
    (∃ v, value = some v ∧ res.isOk = true ∧ g.ckernel.HasRoom ∧
      g'.ckernel = { g.ckernel with buffered := g.ckernel.buffered + 1 } ∧
      g'.buffer = g.buffer ++ [v] ∧ g'.rxClosed = g.rxClosed) ∨
    (res.isOk = false ∧ SameStock g g') := by
  induction n generalizing g f with
  | zero => cases h
  | succ n ih =>
    rw [pollSendLoop] at h
    split at h
    · simp only [Option.bind_eq_bind, Option.bind_eq_some_iff, Option.pure_def, Option.some.injEq,
        Prod.mk.injEq] at h
      obtain ⟨v, -, rfl, -, rfl, -⟩ := h
      exact .inr ⟨rfl, rfl, rfl, rfl⟩
    · rcases g.ckernel.tryPush_cases with ⟨hroom, heq⟩ | ⟨-, heq⟩
      · rw [heq] at h
        simp only [Option.bind_eq_bind, Option.bind_eq_some_iff, Option.pure_def, Option.some.injEq,
          Prod.mk.injEq] at h
        obtain ⟨v, rfl, ⟨w, g''⟩, hw, rfl, -, rfl, -⟩ := h
        obtain ⟨hck, hbuf, hclosed⟩ := sameStock_wakeRx hw
        obtain ⟨hck', hbuf', hclosed'⟩ := sameStock_withdraw
          { g with
            ckernel := { g.ckernel with buffered := g.ckernel.buffered + 1 }
            buffer := g.buffer ++ [v] } f
        exact .inl ⟨v, rfl, rfl, hroom, hck.trans hck', hbuf.trans hbuf', hclosed.trans hclosed'⟩
      · rw [heq] at h
        simp only [Option.bind_eq_bind, Option.bind_eq_some_iff] at h
        obtain ⟨⟨ended, g'', f''⟩, hpark, h⟩ := h
        obtain ⟨hck, hbuf, hclosed⟩ := sameStock_parkTx hpark
        dsimp only at hck hbuf hclosed
        split at h
        · cases h
          exact .inr ⟨rfl, hck, hbuf, hclosed⟩
        · rcases ih h with ⟨v, hv, hres, hroom, hck', hbuf', hclosed'⟩ |
            ⟨hres, hck', hbuf', hclosed'⟩
          · rw [hck] at hroom hck'
            rw [hbuf] at hbuf'
            exact .inl ⟨v, hv, hres, hroom, hck', hbuf', hclosed'.trans hclosed⟩
          · exact .inr ⟨hres, hck'.trans hck, hbuf'.trans hbuf, hclosed'.trans hclosed⟩

/-- `Reserve::poll` reserves a slot, or does nothing. -/
theorem pollReserveLoop_stock {n : ℕ} {f f' : Waiter} {waker : W} {res : Poll (Except Unit Unit)}
    (h : pollReserveLoop n g f waker = some (res, g', f')) :
    (res.isOk = true ∧ g.ckernel.HasRoom ∧
      g'.ckernel = { g.ckernel with reserved := g.ckernel.reserved + 1 } ∧
      g'.buffer = g.buffer ∧ g'.rxClosed = g.rxClosed) ∨
    (res.isOk = false ∧ SameStock g g') := by
  induction n generalizing g f with
  | zero => cases h
  | succ n ih =>
    rw [pollReserveLoop] at h
    split at h
    · cases h
      exact .inr ⟨rfl, rfl, rfl, rfl⟩
    · rcases g.ckernel.reserve_cases with ⟨hroom, heq⟩ | ⟨-, heq⟩
      · rw [heq] at h
        cases h
        exact .inl ⟨rfl, hroom, sameStock_withdraw
          { g with ckernel := { g.ckernel with reserved := g.ckernel.reserved + 1 } } f⟩
      · rw [heq] at h
        simp only [Option.bind_eq_bind, Option.bind_eq_some_iff] at h
        obtain ⟨⟨ended, g'', f''⟩, hpark, h⟩ := h
        obtain ⟨hck, hbuf, hclosed⟩ := sameStock_parkTx hpark
        dsimp only at hck hbuf hclosed
        split at h
        · cases h
          exact .inr ⟨rfl, hck, hbuf, hclosed⟩
        · rcases ih h with ⟨hres, hroom, hck', hbuf', hclosed'⟩ | ⟨hres, hck', hbuf', hclosed'⟩
          · rw [hck] at hroom hck'
            exact .inl ⟨hres, hroom, hck', hbuf'.trans hbuf, hclosed'.trans hclosed⟩
          · exact .inr ⟨hres, hck'.trans hck, hbuf'.trans hbuf, hclosed'.trans hclosed⟩

/-- The pop of the buffer takes the head. -/
theorem popFront_stock {ckernel : ChannelKernel} {v : T} {woken : Option (ℕ × W)}
    (h : g.popFront ckernel = some (v, woken, g')) :
    ∃ rest, g.buffer = v :: rest ∧ g'.ckernel = ckernel ∧ g'.buffer = rest ∧
      g'.rxClosed = g.rxClosed := by
  rw [popFront] at h
  split at h
  · cases h
  · rename_i value rest hbuf
    cases h
    exact ⟨rest, hbuf, sameStock_wakeOneTx { g with ckernel := ckernel, buffer := rest }⟩

/-- `try_recv` receives a value, or does nothing. -/
theorem tryRecv_stock {value : Option T} {woken : Option (ℕ × W)}
    (h : g.tryRecv = some (value, woken, g')) :
    (∃ v rest, value = some v ∧ 0 < g.ckernel.buffered ∧ g.buffer = v :: rest ∧
      g'.ckernel = { g.ckernel with buffered := g.ckernel.buffered - 1 } ∧ g'.buffer = rest ∧
      g'.rxClosed = g.rxClosed) ∨
    (value = none ∧ SameStock g g') := by
  rw [tryRecv] at h
  rcases g.ckernel.pop_cases with ⟨hpos, heq⟩ | ⟨-, heq⟩
  · rw [heq] at h
    simp only [Option.bind_eq_bind, Option.bind_eq_some_iff, Option.pure_def, Option.some.injEq,
      Prod.mk.injEq] at h
    obtain ⟨⟨v, w, g''⟩, hpop, rfl, -, rfl⟩ := h
    obtain ⟨rest, hbuf, hck, hrest, hclosed⟩ := popFront_stock hpop
    exact .inl ⟨v, rest, rfl, hpos, hbuf, hck, hrest, hclosed⟩
  · rw [heq] at h
    cases h
    exact .inr ⟨rfl, rfl, rfl, rfl⟩

/-- `Recv::poll` receives a value, or does nothing. -/
theorem pollRecvLoop_stock {n : ℕ} {f f' : Recv} {waker : W} {res : Poll (Option T)}
    {woken : Option (ℕ × W)} (h : pollRecvLoop n g f waker = some (res, woken, g', f')) :
    (∃ v rest, res.value = some v ∧ 0 < g.ckernel.buffered ∧ g.buffer = v :: rest ∧
      g'.ckernel = { g.ckernel with buffered := g.ckernel.buffered - 1 } ∧ g'.buffer = rest ∧
      g'.rxClosed = g.rxClosed) ∨
    (res.value = none ∧ SameStock g g') := by
  induction n generalizing g with
  | zero => cases h
  | succ n ih =>
    rw [pollRecvLoop] at h
    rcases g.ckernel.pop_cases with ⟨hpos, heq⟩ | ⟨-, heq⟩
    · rw [heq] at h
      simp only [Option.bind_eq_bind, Option.bind_eq_some_iff, Option.pure_def, Option.some.injEq,
        Prod.mk.injEq] at h
      obtain ⟨⟨v, w, g''⟩, hpop, rfl, -, rfl, -⟩ := h
      obtain ⟨rest, hbuf, hck, hrest, hclosed⟩ := popFront_stock hpop
      exact .inl ⟨v, rest, rfl, hpos, hbuf, hck, hrest, hclosed⟩
    · rw [heq] at h
      dsimp only at h
      split at h
      · cases h
        exact .inr ⟨rfl, rfl, rfl, rfl⟩
      · split at h
        · cases h
          exact .inr ⟨rfl, rfl, rfl, rfl⟩
        · simp only [Option.bind_eq_bind, Option.bind_eq_some_iff] at h
          obtain ⟨next, -, h⟩ := h
          split at h
          · have hrest := ih h
            exact hrest
          · cases h
            exact .inr ⟨rfl, rfl, rfl, rfl⟩

/-- `Recv::poll` returns: every turn of its loop but the last takes a stored permit. What can stop
it is the counter of ids. -/
theorem isSome_pollRecvLoop {n : ℕ} (hn : g.rxKernel.permit < n)
    (hids : g.rxNextId + n < UInt64.size) (hbuf : g.buffer.length = g.ckernel.buffered)
    (f : Recv) (waker : W) : (pollRecvLoop n g f waker).isSome = true := by
  induction n generalizing g with
  | zero => exact absurd hn (Nat.not_lt_zero _)
  | succ n ih =>
    rw [pollRecvLoop]
    rcases g.ckernel.pop_cases with ⟨hpos, heq⟩ | ⟨-, heq⟩
    · rw [heq]
      cases hcons : g.buffer with
      | nil =>
        rw [hcons, List.length_nil] at hbuf
        omega
      | cons v rest => simp [popFront, hcons]
    · rw [heq]
      dsimp only
      split
      · rfl
      · split
        · rfl
        · have hsucc : succ64 g.rxNextId = some (g.rxNextId + 1) := by
            rw [succ64, if_pos (by omega)]
          rw [hsucc]
          simp only [Option.bind_eq_bind, Option.bind_some, WaiterKernel.waitStep]
          by_cases hpermit : 0 < g.rxKernel.permit
          · simp only [if_pos hpermit]
            exact ih (by simp only; omega) (by simp only; omega) hbuf
          · simp only [if_neg hpermit]
            rfl

end Inner

namespace Channel

variable {s s' : Channel T W} {l : Label T W}

/-- The stock of a channel, its notes included. -/
def stock (s : Channel T W) : Stock T :=
  ⟨s.inner.ckernel, s.inner.buffer, s.permits, s.accepted, s.received, s.inner.rxClosed⟩

/-- An operation that only parks, wakes or changes the number of senders. -/
theorem stock_idle {inner : Inner T W} {futures : List (Option (SenderFuture T))} {receiver : Bool}
    {recv : Option Recv} (h : s.inner.SameStock inner) :
    s.stock.Step
      { s with inner := inner, futures := futures, receiver := receiver, recv := recv }.stock := by
  have heq : s.stock =
      { s with inner := inner, futures := futures, receiver := receiver, recv := recv }.stock := by
    simp only [stock, h.1, h.2.1, h.2.2]
  rw [← heq]
  exact .idle

/-- **Operations and the stock.** Whatever an operation does is one change of the stock, or none. -/
theorem step_stock (h : s.step l = some s') : s.stock.Step s'.stock := by
  cases step_cases h with
  | trySend _ hsend =>
    rcases Inner.trySend_stock hsend with ⟨hok, hroom, hck, hbuf, hclosed⟩ | ⟨hok, hsame⟩
    · simp only [stock, hck, hbuf, hclosed, hok, if_true]
      exact .push _ hroom
    · rw [hok]
      exact stock_idle hsame
  | send => exact stock_idle ⟨rfl, rfl, rfl⟩
  | tryReserve _ hreserve =>
    rcases Inner.tryReserve_stock hreserve with ⟨hok, hroom, hck, hbuf, hclosed⟩ | ⟨hok, hsame⟩
    · simp only [stock, hck, hbuf, hclosed, hok, if_true]
      exact .reserve hroom
    · rw [hok]
      exact stock_idle hsame
  | reserve => exact stock_idle ⟨rfl, rfl, rfl⟩
  | pollSend _ _ hpoll =>
    rcases Inner.pollSendLoop_stock hpoll with ⟨v, rfl, hok, hroom, hck, hbuf, hclosed⟩ |
      ⟨hok, hsame⟩
    · simp only [stock, hck, hbuf, hclosed, hok, if_true, Option.toList_some]
      exact .push v hroom
    · rw [hok]
      exact stock_idle hsame
  | pollReserve _ _ hpoll =>
    rcases Inner.pollReserveLoop_stock hpoll with ⟨hok, hroom, hck, hbuf, hclosed⟩ | ⟨hok, hsame⟩
    · simp only [stock, hck, hbuf, hclosed, hok, if_true]
      exact .reserve hroom
    · rw [hok]
      exact stock_idle hsame
  | drop => exact stock_idle (Inner.sameStock_dropTxWaiter _ _)
  | permitSend hpermits hsend =>
    obtain ⟨hck, hbuf, hclosed⟩ := Inner.permitSend_stock hsend
    simp only [stock, hck, hbuf, hclosed]
    exact .fill _ hpermits
  | permitDrop hpermits =>
    obtain ⟨hck, hbuf, hclosed⟩ := Inner.sameStock_wakeOneTx
      { s.inner with ckernel := s.inner.ckernel.unreserve }
    simp only [stock, Inner.permitDrop, hck, hbuf, hclosed]
    exact .unreserve hpermits
  | cloneSender _ hclone => exact stock_idle (Inner.sameStock_cloneSender hclone)
  | dropSender _ hdrop => exact stock_idle (Inner.sameStock_dropSender hdrop)
  | tryRecv _ _ hrecv =>
    rcases Inner.tryRecv_stock hrecv with
      ⟨v, rest, rfl, hpos, hbuf, hck, hrest, hclosed⟩ | ⟨rfl, hsame⟩
    · simp only [stock, hck, hrest, hclosed, Option.toList_some]
      exact .pop v rest hpos hbuf
    · rw [Option.toList_none, List.append_nil]
      exact stock_idle hsame
  | recv => exact stock_idle ⟨rfl, rfl, rfl⟩
  | pollRecv _ hpoll =>
    rcases Inner.pollRecvLoop_stock hpoll with
      ⟨v, rest, hres, hpos, hbuf, hck, hrest, hclosed⟩ | ⟨hres, hsame⟩
    · simp only [stock, hck, hrest, hclosed, hres, Option.toList_some]
      exact .pop v rest hpos hbuf
    · rw [hres, Option.toList_none, List.append_nil]
      exact stock_idle hsame
  | dropRecv => exact stock_idle (Inner.sameStock_dropRecv _ _)
  | close => exact .close
  | dropReceiver => exact .close

theorem sound_of_reachable (h : machine.Reachable s) : s.stock.Sound := by
  refine h.invariant (I := fun s => s.stock.Sound) ?_ ?_
  · rintro s ⟨capacity, -, rfl⟩
    exact ⟨rfl, Nat.zero_le _, rfl, rfl⟩
  · exact fun s l s' hs hstep => hs.step (step_stock hstep)

/-- **The channel is a queue.** After any operations in any order, the buffer holds as many values
as the kernel counts, filled and reserved slots do not exceed the capacity, as many slots are
reserved as permits are alive, the accepted values are the received ones followed by those in the
buffer, and a pop of the kernel finds a value in the buffer. -/
theorem reachable_queue (h : machine.Reachable s) :
    s.inner.buffer.length = s.inner.ckernel.buffered ∧
    s.inner.ckernel.buffered + s.inner.ckernel.reserved ≤ s.inner.ckernel.capacity ∧
    s.inner.ckernel.reserved = s.permits ∧
    s.accepted = s.received ++ s.inner.buffer ∧
    (s.inner.ckernel.pop.1 = true → s.inner.buffer ≠ []) := by
  have hs := sound_of_reachable h
  have hlength : s.inner.buffer.length = s.inner.ckernel.buffered := hs.length
  refine ⟨hlength, hs.room, hs.reserved, hs.order, fun hpop hempty => ?_⟩
  rw [hempty, List.length_nil] at hlength
  rcases s.inner.ckernel.pop_cases with ⟨hpos, -⟩ | ⟨-, heq⟩
  · omega
  · rw [heq] at hpop
    cases hpop

/-- A channel for two values: one is sent and received, another is sent, and a permit is alive. -/
theorem reachable_queue_three_sends : ∃ s : Channel ℕ ℕ, machine.Reachable s ∧
    s.received = [5] ∧ s.permits = 1 ∧
    s.inner.buffer.length = s.inner.ckernel.buffered ∧
    s.inner.ckernel.buffered + s.inner.ckernel.reserved ≤ s.inner.ckernel.capacity ∧
    s.inner.ckernel.reserved = s.permits ∧
    s.accepted = s.received ++ s.inner.buffer ∧
    (s.inner.ckernel.pop.1 = true → s.inner.buffer ≠ []) := by
  have hstart : machine.Reachable (new 2 : Channel ℕ ℕ) := .of_init ⟨2, by decide, rfl⟩
  obtain ⟨s, hfollow, hreceived, hpermits⟩ : ∃ s, Machine.follow step
      [.trySend 5, .send 6, .tryReserve, .poll 0 0, .tryRecv, .poll 0 0] (new 2) = some s ∧
      s.received = [5] ∧ s.permits = 1 :=
    ⟨_, rfl, rfl, rfl⟩
  have hreach := hstart.follow hfollow
  exact ⟨s, hreach, hreceived, hpermits, reachable_queue hreach⟩

end Channel

end Lion.Mpsc
