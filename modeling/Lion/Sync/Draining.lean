import Lion.Sync.Unbounded

/-!
# The end of a closed mpsc channel

`Receiver::close` is for a receiver that wants no more values: every send fails from then on, and
what is in the buffer may still be received. When the buffer is empty and no permit is alive,
nothing will ever arrive. `Recv::poll` says that the channel has ended when no sender is alive. It
does not look at `rx_closed`.

## When a receiver hangs

A receiver that closes its channel and then receives until it is told the end waits until the last
sender is dropped. If it was to close the channel to be rid of the senders, or a sender lives in the
task itself, that is for ever: sends fail without waking anyone, so nothing is going to poll it
again.

The condition `Deserted` is about the state before a poll: if nothing is to come, no sender is alive
either. It is asked of every poll in a run, and the main result has it on one side, and on the other
that all these polls return `None`. For the unbounded channel there are no permits, and the rest is
the same; its polls are compared with those of the bounded channel that it refines.

## Main results

* `Inner.pollRecv_ready_none` — when `Recv::poll` says that the channel has ended
* `drained_run_iff` — in a run, a channel that has nothing to come is always found to have ended, if
  and only if it is never asked while a sender is alive
* `not_drained` — runs in which it is asked
-/

namespace Lion.Mpsc

variable {T W : Type}

namespace Inner

variable {g g' : Inner T W}

theorem senderCount_of_ready_none {n : ℕ} {f f' : Recv} {waker : W} {woken : Option (ℕ × W)}
    (h : pollRecvLoop n g f waker = some (.ready none, woken, g', f')) : g.senderCount = 0 := by
  induction n generalizing g with
  | zero => cases h
  | succ n ih =>
    rw [pollRecvLoop] at h
    rcases g.ckernel.pop_cases with ⟨-, heq⟩ | ⟨-, heq⟩
    · rw [heq] at h
      obtain ⟨⟨v, w, g''⟩, -, heq'⟩ := Option.bind_eq_some_iff.mp h
      cases heq'
    · rw [heq] at h
      dsimp only at h
      split at h
      · assumption
      · split at h
        · cases h
        · obtain ⟨next, -, h⟩ := Option.bind_eq_some_iff.mp h
          split at h
          · have hrest := ih h
            exact hrest
          · cases h

/-- **When `Recv::poll` says that the channel has ended**, if the kernel has nothing to pop. -/
theorem pollRecv_ready_none (f : Recv) (waker : W) (hzero : g.ckernel.buffered = 0) :
    (g.pollRecv f waker).map Prod.fst = some (.ready none) ↔ g.senderCount = 0 := by
  constructor
  · intro h
    obtain ⟨⟨res, woken, g', f'⟩, hpoll, hres⟩ := Option.map_eq_some_iff.mp h
    cases hres
    exact senderCount_of_ready_none hpoll
  · intro hcount
    rw [pollRecv, pollRecvLoop]
    rcases g.ckernel.pop_cases with ⟨hpos, -⟩ | ⟨-, heq⟩
    · omega
    · rw [heq]
      dsimp only
      rw [if_pos hcount]
      rfl

end Inner

namespace Channel

variable {s : Channel T W} {l : Label T W}

/-- The receiver has closed the channel, and there is nothing left and nothing to come. -/
def Ended (s : Channel T W) : Prop :=
  s.inner.rxClosed = true ∧ s.inner.buffer = [] ∧ s.permits = 0

/-- What a poll of `recv` with this waker returns, if there is a future to be polled. -/
def polled (s : Channel T W) (waker : W) : Option (Poll (Option T)) :=
  (s.recv.bind fun f => s.inner.pollRecv f waker).map Prod.fst

/-- If the operation is a poll of `recv` and nothing is to come, it returns `None`. -/
def Drains (s : Channel T W) (l : Label T W) : Prop :=
  ∀ waker, l = .pollRecv waker → s.Ended → s.polled waker = some (.ready none)

/-- If the operation is a poll of `recv` and nothing is to come, no sender is alive. -/
def Deserted (s : Channel T W) (l : Label T W) : Prop :=
  ∀ waker, l = .pollRecv waker → s.Ended → s.inner.senderCount = 0

/-- When nothing is to come, a poll returns `None` if and only if no sender is alive. -/
theorem polled_ready_none {s' : Channel T W} {waker : W} (hs : machine.Reachable s)
    (hstep : s.step (.pollRecv waker) = some s') (hended : s.Ended) :
    s.polled waker = some (.ready none) ↔ s.inner.senderCount = 0 := by
  have hzero : s.inner.ckernel.buffered = 0 := by
    rw [← (reachable_queue hs).1, hended.2.1]
    rfl
  cases step_cases hstep with
  | pollRecv hf hpoll =>
    rw [polled, hf]
    exact Inner.pollRecv_ready_none _ waker hzero

end Channel

end Lion.Mpsc

namespace Lion.Unbounded

variable {T W : Type}

namespace Channel

variable {s : Channel T W} {l : Label T W}

/-- The receiver has closed the channel, and there is nothing left. -/
def Ended (s : Channel T W) : Prop := s.inner.rxClosed = true ∧ s.inner.buffer = []

/-- What a poll of `recv` with this waker returns, if there is a future to be polled. -/
def polled (s : Channel T W) (waker : W) : Option (Poll (Option T)) :=
  (s.recv.bind fun f => s.inner.pollRecv f waker).map Prod.fst

/-- If the operation is a poll of `recv` and nothing is to come, it returns `None`. -/
def Drains (s : Channel T W) (l : Label T W) : Prop :=
  ∀ waker, l = .pollRecv waker → s.Ended → s.polled waker = some (.ready none)

/-- If the operation is a poll of `recv` and nothing is to come, no sender is alive. -/
def Deserted (s : Channel T W) (l : Label T W) : Prop :=
  ∀ waker, l = .pollRecv waker → s.Ended → s.inner.senderCount = 0

/-- A poll of `recv` returns what that of the bounded channel does. -/
theorem polled_bounded (s : Channel T W) (accepted received : List T) (waker : W) :
    (s.bounded accepted received).polled waker = s.polled waker := by
  rw [polled, Mpsc.Channel.polled, bounded]
  cases s.recv with
  | none => rfl
  | some f =>
    have hbounded := Inner.bounded_pollRecvLoop (s.inner.rxKernel.permit + 1) s.inner f waker
    refine (congrArg (Option.map Prod.fst) hbounded).trans ?_
    rw [Option.map_map]
    rfl

theorem polled_ready_none {s' : Channel T W} {waker : W} (hs : machine.Reachable s)
    (hstep : s.step (.pollRecv waker) = some s') (hended : s.Ended) :
    s.polled waker = some (.ready none) ↔ s.inner.senderCount = 0 := by
  obtain ⟨accepted, received, hreach, hroom⟩ := reachable_bounded hs
  obtain ⟨accepted', received', hbounded⟩ := step_bounded accepted received hroom hstep
  rw [← polled_bounded s accepted received]
  exact Mpsc.Channel.polled_ready_none hreach hbounded ⟨hended.1, hended.2, rfl⟩

end Channel

end Lion.Unbounded

namespace Lion.Mpsc

variable {T W : Type}

/-- **The end of a closed channel.** In a run of either channel, every poll of `recv` after the
channel was closed, when the buffer is empty and no permit is alive, returns `None`, if and only if
no sender is alive at any such poll. -/
theorem drained_run_iff :
    (∀ (s₀ s : Channel T W) (ls : List (Label T W)), Channel.machine.init s₀ →
      ((Channel.machine.restrict Channel.Deserted).Run s₀ ls s ↔
        (Channel.machine.restrict Channel.Drains).Run s₀ ls s)) ∧
    (∀ (s₀ s : Unbounded.Channel T W) (ls : List (Unbounded.Label T W)),
      Unbounded.Channel.machine.init s₀ →
      ((Unbounded.Channel.machine.restrict Unbounded.Channel.Deserted).Run s₀ ls s ↔
        (Unbounded.Channel.machine.restrict Unbounded.Channel.Drains).Run s₀ ls s)) := by
  constructor
  · intro s₀ s ls hinit
    refine Machine.Run.restrict_iff_of_reachable hinit ?_
    intro s l s' hs hstep
    refine forall_congr' fun waker => forall_congr' fun hl => forall_congr' fun hended => ?_
    subst hl
    exact (Channel.polled_ready_none hs hstep hended).symm
  · intro s₀ s ls hinit
    refine Machine.Run.restrict_iff_of_reachable hinit ?_
    intro s l s' hs hstep
    refine forall_congr' fun waker => forall_congr' fun hl => forall_congr' fun hended => ?_
    subst hl
    exact (Unbounded.Channel.polled_ready_none hs hstep hended).symm

/-- A value is sent, the receiver closes the channel and receives it, the sender is dropped, and the
next poll finds that the channel has ended. -/
theorem drained_run_iff_deserted :
    (∃ s : Channel ℕ ℕ, (Channel.machine.restrict Channel.Drains).Run (.new 1)
      [.trySend 5, .close, .recv, .pollRecv 0, .dropSender, .pollRecv 0] s) ∧
    (∃ s : Unbounded.Channel ℕ ℕ,
      (Unbounded.Channel.machine.restrict Unbounded.Channel.Drains).Run .new
      [.send 5, .close, .recv, .pollRecv 0, .dropSender, .pollRecv 0] s) := by
  constructor
  · refine ⟨_, (drained_run_iff.1 _ _ _ ⟨1, by decide, rfl⟩).mp (.cons ⟨rfl, nofun⟩
      (.cons ⟨rfl, nofun⟩ (.cons ⟨rfl, nofun⟩ (.cons ⟨rfl, ?_⟩ (.cons ⟨rfl, nofun⟩
      (.cons ⟨rfl, ?_⟩ .nil))))))⟩
    · rintro waker - ⟨-, hbuf, -⟩
      cases hbuf
    · exact fun _ _ _ => rfl
  · refine ⟨_, (drained_run_iff.2 _ _ _ rfl).mp (.cons ⟨rfl, nofun⟩
      (.cons ⟨rfl, nofun⟩ (.cons ⟨rfl, nofun⟩ (.cons ⟨rfl, ?_⟩ (.cons ⟨rfl, nofun⟩
      (.cons ⟨rfl, ?_⟩ .nil))))))⟩
    · rintro waker - ⟨-, hbuf⟩
      cases hbuf
    · exact fun _ _ _ => rfl

/-- In both channels, a value is sent, the receiver closes the channel and receives it, and the next
poll parks, since the sender is alive. -/
theorem not_drained :
    (¬ ∀ s : Channel ℕ ℕ, Channel.machine.Reachable s → ∀ l, s.Drains l) ∧
    (¬ ∀ s : Unbounded.Channel ℕ ℕ, Unbounded.Channel.machine.Reachable s → ∀ l, s.Drains l) := by
  constructor
  · intro h
    obtain ⟨s, hfollow, hended, hpolled⟩ : ∃ s : Channel ℕ ℕ, Machine.follow Channel.step
        [.trySend 5, .close, .recv, .pollRecv 0] (.new 1) = some s ∧ s.Ended ∧
        s.polled 0 = some .pending := ⟨_, rfl, ⟨rfl, rfl, rfl⟩, rfl⟩
    have hstart : Channel.machine.Reachable (.new 1 : Channel ℕ ℕ) := .of_init ⟨1, by decide, rfl⟩
    have hnone := h s (hstart.follow hfollow) (.pollRecv 0) 0 rfl hended
    rw [hpolled] at hnone
    cases hnone
  · intro h
    obtain ⟨s, hfollow, hended, hpolled⟩ : ∃ s : Unbounded.Channel ℕ ℕ, Machine.follow
        Unbounded.Channel.step [.send 5, .close, .recv, .pollRecv 0] .new = some s ∧ s.Ended ∧
        s.polled 0 = some .pending := ⟨_, rfl, ⟨rfl, rfl⟩, rfl⟩
    have hstart : Unbounded.Channel.machine.Reachable (.new : Unbounded.Channel ℕ ℕ) :=
      .of_init rfl
    have hnone := h s (hstart.follow hfollow) (.pollRecv 0) 0 rfl hended
    rw [hpolled] at hnone
    cases hnone

end Lion.Mpsc
