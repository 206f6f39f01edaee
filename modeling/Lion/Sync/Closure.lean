import Lion.Sync.Broadcast

/-!
# What a receiver is told when a broadcast channel is closed

`Closed` should mean that nothing is left for the receiver and nothing will ever come. A poll of
`recv` looks at the flag that the last sender sets, after it has found nothing. `try_recv` does not:
it reports `Closed` whenever it finds nothing, be the channel open or not.

## What is true of a poll

The flag is set when the last sender goes and never reset, for senders are cloned from senders. So
it says exactly that there are none left (`FlagOk`), and a poll that reports `Closed` is right about
the senders. It is right about the values because it looks at the flag only where its cursor is at
the end, and everything before the cursor was returned or reported as missed.

With `try_recv`, the second half holds and the first does not. The condition of the main result,
`Asks`, is about the state before the call: the receiver has everything, and there is a sender.

## Conventions

What was sent to a receiver is what was sent from its start on; a clone starts where its original
stands.

## Main results

* `Channel.truthful_run_iff` — in a run, closure is reported truthfully if and only if `try_recv` is
  never called with nothing to receive while there is a sender
* `Channel.not_truthful` — a run in which it is
-/

namespace Lion.Broadcast

variable {T W : Type}

namespace Inner

variable {g g' : Inner T W} {sent : List T} {cursor : ℕ}

/-- The flag is set if and only if there are no senders left. -/
def FlagOk (g : Inner T W) : Prop := g.closed = true ↔ g.senderCount = 0

/-- The senders are as many as before, and the flag is what it was. -/
def SameSenders (g g' : Inner T W) : Prop :=
  g'.closed = g.closed ∧ g'.senderCount = g.senderCount

theorem SameSenders.flagOk (hsame : SameSenders g g') (h : FlagOk g) : FlagOk g' := by
  rw [FlagOk, hsame.1, hsame.2]
  exact h

theorem sameSenders_wakeAllLoop (n : ℕ) (g : Inner T W) : SameSenders g (wakeAllLoop n g).2 := by
  induction n generalizing g with
  | zero => exact ⟨rfl, rfl⟩
  | succ n ih =>
    rw [wakeAllLoop]
    split
    · split
      · rename_i id rxKernel _
        exact ih { g with rxKernel, waiters := g.waiters.eraseP (·.1 = id) }
      · exact ⟨rfl, rfl⟩
      · exact ⟨rfl, rfl⟩
    · exact ⟨rfl, rfl⟩

theorem sameSenders_dropRecv (g : Inner T W) (f : Recv) : SameSenders g (g.dropRecv f) := by
  rw [dropRecv]
  split <;> exact ⟨rfl, rfl⟩

theorem sameSenders_send {value : T} {handles : ℕ} {res : Except T ℕ} {wakers : List W}
    (hsend : g.send value handles = some (res, wakers, g')) : SameSenders g g' := by
  rw [send] at hsend
  split at hsend
  · cases hsend
    exact ⟨rfl, rfl⟩
  · obtain ⟨⟨seq, bkern⟩, -, hrest⟩ := Option.bind_eq_some_iff.mp hsend
    cases hrest
    have hsame := sameSenders_wakeAllLoop g.rxKernel.queue.length { g with
      bkern
      buffer := (if g.buffer.length = bkern.capacity then g.buffer.tail else g.buffer) ++
        [Slot.mk value seq] }
    exact hsame

theorem FlagOk.dropSender (h : FlagOk g) (hpos : g.senderCount ≠ 0) : FlagOk g.dropSender.2 := by
  simp only [Inner.dropSender]
  split
  · rename_i hzero
    have hsame := sameSenders_wakeAllLoop g.rxKernel.queue.length
      { g with senderCount := g.senderCount - 1, closed := true }
    refine hsame.flagOk ?_
    simp [FlagOk, hzero]
  · rename_i hmore
    have hopen : ¬ g.closed = true := fun hclosed => hpos (h.mp hclosed)
    simp [FlagOk, hopen, hmore]

/-- A receive that finds nothing leaves the cursor, which is at the end. -/
theorem next_none {cursor' : ℕ} (hnext : g.next cursor = some (none, cursor')) :
    cursor' = cursor ∧ g.bkern.nextSeq ≤ cursor := by
  rw [next] at hnext
  split at hnext
  · cases hnext
  · obtain ⟨value, -, heq⟩ := Option.bind_eq_some_iff.mp hnext
    cases heq
  · rename_i hpark
    cases hnext
    refine ⟨rfl, Nat.le_of_not_lt fun hlt => ?_⟩
    simp only [BroadcastKernel.recvStep] at hpark
    split at hpark
    · cases hpark
    · cases hpark

theorem next_of_le (hend : g.bkern.nextSeq ≤ cursor) : g.next cursor = some (none, cursor) := by
  have hpark : g.bkern.recvStep cursor = .park := by
    simp only [BroadcastKernel.recvStep]
    rw [if_neg (by omega), if_neg (by omega)]
  rw [next, hpark]

theorem next_ne_closed {cursor' : ℕ} : g.next cursor ≠ some (some (.error .closed), cursor') := by
  intro hnext
  rw [next] at hnext
  split at hnext
  · cases hnext
  · obtain ⟨value, -, heq⟩ := Option.bind_eq_some_iff.mp hnext
    cases heq
  · cases hnext

/-- **`try_recv`** says `Closed` if and only if there is nothing to receive, whatever the flag
says. -/
theorem tryRecv_closed :
    (∃ cursor', g.tryRecv cursor = some (.error .closed, cursor')) ↔ g.bkern.nextSeq ≤ cursor := by
  constructor
  · rintro ⟨cursor', htry⟩
    obtain ⟨⟨found, cursor''⟩, hnext, heq⟩ := Option.bind_eq_some_iff.mp htry
    cases found with
    | none => exact (next_none hnext).2
    | some res =>
      cases heq
      exact absurd hnext next_ne_closed
  · intro hend
    refine ⟨cursor, ?_⟩
    rw [tryRecv, next_of_le hend]
    rfl

/-- **A poll** says `Closed` if the flag is set and there is nothing to receive. -/
theorem pollRecvLoop_closed (n : ℕ) {f f' : Recv} {waker : W} {res : Poll (Except RecvError T)}
    {cursor' : ℕ} (hpoll : pollRecvLoop n g f cursor waker = some (res, g', f', cursor')) :
    SameSenders g g' ∧
      (res = .ready (.error .closed) → g.closed = true ∧ g.bkern.nextSeq ≤ cursor) := by
  induction n generalizing g f cursor with
  | zero => cases hpoll
  | succ n ih =>
    rw [pollRecvLoop] at hpoll
    obtain ⟨⟨found, cursor₁⟩, hnext, hrest⟩ := Option.bind_eq_some_iff.mp hpoll
    cases found with
    | some r =>
      cases hrest
      refine ⟨⟨rfl, rfl⟩, ?_⟩
      rintro ⟨⟩
      exact absurd hnext next_ne_closed
    | none =>
      obtain ⟨rfl, hend⟩ := next_none hnext
      dsimp only at hrest
      split at hrest
      · rename_i hclosed
        cases hrest
        exact ⟨⟨rfl, rfl⟩, fun _ => ⟨hclosed, hend⟩⟩
      · split at hrest
        · cases hrest
          refine ⟨⟨rfl, rfl⟩, ?_⟩
          rintro ⟨⟩
        · obtain ⟨nextId, -, hwait⟩ := Option.bind_eq_some_iff.mp hrest
          split at hwait
          · -- the kernel had a permit, and the flag is looked at again
            have hspec := ih hwait
            exact hspec
          · cases hwait
            refine ⟨⟨rfl, rfl⟩, ?_⟩
            rintro ⟨⟩

end Inner

namespace Channel

variable {c c' c₀ : Channel T W} {l : Label T W} {ls : List (Label T W)}

/-- What an operation returns, and to which receiver. -/
def result (c : Channel T W) : Label T W → Option (ℕ × Except RecvError T)
  | .tryRecv i => do
    let r ← c.receiver i
    let (res, _) ← c.inner.tryRecv r.nextSeq
    return (i, res)
  | .pollRecv i waker => do
    let r ← c.receiver i
    let f ← r.recv
    match ← c.inner.pollRecv f r.nextSeq waker with
    | (.ready res, _) => return (i, res)
    | (.pending, _) => none
  | _ => none

/-- **Closure is reported truthfully**: if the operation returns `Closed` to a receiver, there are
no senders left, and the receiver has got or was told to have missed everything that was sent. -/
def Truthful (c : Channel T W) (l : Label T W) : Prop :=
  ∀ i, c.result l = some (i, .error .closed) →
    c.inner.senderCount = 0 ∧
      ∃ r, c.receiver i = some r ∧ r.Accounted c.sent ∧ r.nextSeq = c.sent.length

/-- `try_recv` is not called with nothing to receive while there is a sender. -/
def Asks (c : Channel T W) (l : Label T W) : Prop :=
  ∀ i r, l = .tryRecv i → c.receiver i = some r → r.nextSeq = c.sent.length →
    c.inner.senderCount = 0

/-- The flag is right, and the ring and the cursors are in order. -/
def FlagSound (c : Channel T W) : Prop := c.Sound ∧ c.inner.FlagOk

theorem flagSound_new {capacity : ℕ} (h : 0 < capacity) :
    FlagSound (new capacity : Channel T W) :=
  ⟨sound_new h, by simp [Inner.FlagOk, new, Inner.new]⟩

theorem flagOk_step (h : c.inner.FlagOk) (hstep : c.step l = some c') : c'.inner.FlagOk := by
  cases step_cases hstep with
  | send _ hsend => exact (Inner.sameSenders_send hsend).flagOk h
  | cloneSender hpos hclone =>
    obtain ⟨senderCount, hsucc, heq⟩ := Option.bind_eq_some_iff.mp hclone
    cases heq
    cases succ64_eq_some hsucc
    have hopen : ¬ c.inner.closed = true := fun hclosed => hpos (h.mp hclosed)
    simp [Inner.FlagOk, hopen]
  | dropSender hpos => exact h.dropSender hpos
  | subscribe => exact h
  | resubscribe => exact h
  | cloneReceiver => exact h
  | tryRecv => exact h
  | recv => exact h
  | pollRecv _ _ hpoll => exact (Inner.pollRecvLoop_closed _ hpoll).1.flagOk h
  | dropRecv => exact (c.inner.sameSenders_dropRecv _).flagOk h
  | @dropReceiver _ r =>
    cases r.recv with
    | none => exact h
    | some f => exact (c.inner.sameSenders_dropRecv f).flagOk h

theorem FlagSound.step (h : FlagSound c) (hstep : c.step l = some c') : FlagSound c' :=
  ⟨h.1.step hstep, flagOk_step h.2 hstep⟩

theorem result_tryRecv (h : c.Sound) {i j : ℕ} {r : Receiver T} (hr : c.receiver i = some r) :
    c.result (.tryRecv i) = some (j, .error .closed) ↔ j = i ∧ r.nextSeq = c.sent.length := by
  have hle := (h.receivers i r hr).cursor_le
  have hend : r.nextSeq = c.sent.length ↔ c.inner.bkern.nextSeq ≤ r.nextSeq := by
    rw [h.ring.nextSeq]
    omega
  rw [hend, ← Inner.tryRecv_closed]
  constructor
  · intro hresult
    obtain ⟨r', hr', hrest⟩ := Option.bind_eq_some_iff.mp hresult
    rw [hr] at hr'
    cases hr'
    obtain ⟨⟨res, cursor⟩, htry, heq⟩ := Option.bind_eq_some_iff.mp hrest
    cases heq
    exact ⟨rfl, cursor, htry⟩
  · rintro ⟨rfl, cursor, htry⟩
    simp [result, hr, htry]

/-- A poll that says `Closed` is right about the senders and the values. -/
theorem truthful_pollRecv (h : c.FlagSound) (i : ℕ) (waker : W) :
    c.Truthful (.pollRecv i waker) := by
  intro j hresult
  obtain ⟨r, hr, hrest⟩ := Option.bind_eq_some_iff.mp hresult
  obtain ⟨f, -, hrest'⟩ := Option.bind_eq_some_iff.mp hrest
  obtain ⟨⟨res, inner, f', cursor⟩, hpoll, heq⟩ := Option.bind_eq_some_iff.mp hrest'
  cases res with
  | pending => cases heq
  | ready res =>
    cases heq
    obtain ⟨hclosed, hend⟩ := (Inner.pollRecvLoop_closed _ hpoll).2 rfl
    have haccounted := h.1.receivers i r hr
    have hle := haccounted.cursor_le
    rw [h.1.ring.nextSeq] at hend
    exact ⟨h.2.mp hclosed, r, hr, haccounted, by omega⟩

/-- Operations that return no result of a receive. -/
theorem truthful_iff_of_silent (hresult : c.result l = none) (hother : ∀ i, l ≠ .tryRecv i) :
    c.Truthful l ↔ c.Asks l := by
  constructor
  · intro _ i r heq
    exact absurd heq (hother i)
  · intro _ i hclosed
    rw [hresult] at hclosed
    cases hclosed

/-- Of the operations only `try_recv` may be wrong, and is if it is called too early. -/
theorem truthful_iff (h : c.FlagSound) (hstep : c.step l = some c') :
    c.Truthful l ↔ c.Asks l := by
  cases l with
  | tryRecv i =>
    obtain ⟨r, hr, -⟩ := Option.bind_eq_some_iff.mp hstep
    constructor
    · rintro htruthful j r' ⟨⟩ hr' hend
      exact (htruthful i ((result_tryRecv h.1 hr').mpr ⟨rfl, hend⟩)).1
    · intro hasks j hresult
      obtain ⟨rfl, hend⟩ := (result_tryRecv h.1 hr).mp hresult
      exact ⟨hasks _ r rfl hr hend, r, hr, h.1.receivers _ r hr, hend⟩
  | pollRecv i waker =>
    exact iff_of_true (truthful_pollRecv h i waker) nofun
  | send value => exact truthful_iff_of_silent rfl nofun
  | cloneSender => exact truthful_iff_of_silent rfl nofun
  | dropSender => exact truthful_iff_of_silent rfl nofun
  | subscribe => exact truthful_iff_of_silent rfl nofun
  | resubscribe i => exact truthful_iff_of_silent rfl nofun
  | cloneReceiver i => exact truthful_iff_of_silent rfl nofun
  | recv i => exact truthful_iff_of_silent rfl nofun
  | dropRecv i => exact truthful_iff_of_silent rfl nofun
  | dropReceiver i => exact truthful_iff_of_silent rfl nofun

/-- **Closure.** In a run, whatever reports closure does so truthfully if and only if `try_recv` is
never called by a receiver that has everything while there is a sender. -/
theorem truthful_run_iff (hinit : machine.init c₀) :
    (machine.restrict Asks).Run c₀ ls c ↔ (machine.restrict Truthful).Run c₀ ls c := by
  obtain ⟨capacity, hcap, rfl⟩ := hinit
  exact Machine.Run.restrict_iff (flagSound_new hcap) (fun _ _ _ hs hstep _ => hs.step hstep)
    fun _ _ _ hs hstep => (truthful_iff hs hstep).symm

/-- A receiver takes the one value there is; then the sender is dropped, and it is told so. -/
theorem truthful_run_iff_drained : ∃ c : Channel ℕ Unit,
    (machine.restrict Truthful).Run (new 2) [.send 10, .tryRecv 0, .dropSender, .tryRecv 0] c ∧
      c.result (.tryRecv 0) = some (0, .error .closed) := by
  refine ⟨_, (truthful_run_iff ⟨2, by decide, rfl⟩).mp (.cons ⟨rfl, ?_⟩ (.cons ⟨rfl, ?_⟩
    (.cons ⟨rfl, ?_⟩ (.cons ⟨rfl, ?_⟩ .nil)))), rfl⟩
  · rintro i r ⟨⟩
  · rintro i r ⟨⟩ ⟨⟩ ⟨⟩
  · rintro i r ⟨⟩
  · rintro i r ⟨⟩ ⟨⟩ -
    rfl

/-- A receiver takes the one value there is, and tries again. It is told that the channel is closed,
but there is a sender. -/
theorem not_truthful : ¬ ∀ c : Channel ℕ Unit, machine.Reachable c → ∀ l, c.Truthful l := by
  intro h
  obtain ⟨c, hfollow, hresult, hcount⟩ : ∃ c : Channel ℕ Unit,
      Machine.follow step [.send 10, .tryRecv 0] (new 2) = some c ∧
        c.result (.tryRecv 0) = some (0, .error .closed) ∧ c.inner.senderCount = 1 :=
    ⟨_, rfl, rfl, rfl⟩
  have hstart : machine.Reachable (new 2 : Channel ℕ Unit) := .of_init ⟨2, by decide, rfl⟩
  have hzero := (h c (hstart.follow hfollow) (.tryRecv 0) 0 hresult).1
  rw [hcount] at hzero
  cases hzero

end Channel

end Lion.Broadcast
