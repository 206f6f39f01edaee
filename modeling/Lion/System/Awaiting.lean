import Lion.Executor.Join
import Lion.Sync.Oneshot
import Lion.Sync.Receiving
import Lion.System.Primitives

/-!
# Waiting for a result or a value

A `JoinHandle` waits for the result of a task or of a blocking job, the receiver of a channel for a
value. Each of them leaves its waker where whoever makes the result, or sends, finds it. With the
executor underneath, that is all it takes: the task that waits is polled.

## One who waits

What these have in common is that there is one place for a waker, and one who waits. That it waits
can be seen from the shared state alone: its waker is in the slot. So each of the four primitives
comes with a relation between its state and a waker (`Waits`, `Awaits`, and for the two mpsc
channels the waker of their mailbox), and the proof that whoever waits is called is a case analysis
over one operation: it leaves the slot alone, or takes the waker out and hands it to the caller, who
is bound to call it.

The wakers that an operation calls are those that its function returns, not those that the slot has
held.

Besides being polled, the task is to find what it has waited for. Since nobody else can take the
result or the value away, it is still there whenever the poll comes.

## Conventions

`JoinSender::complete` calls the waker before it lets the mutex go, so that the handle is not polled
in between. Here it may be.

## Main results

* `Executor.Join.run_polled_of_completed` — who waits for a `JoinHandle`
* `Oneshot.Channel.run_polled_of_signalled` — for a oneshot channel
* `Mpsc.Channel.run_polled_of_stocked` — for a bounded channel
* `Unbounded.Channel.run_polled_of_sent` — for an unbounded one
-/

namespace Lion

/-! ### Handles -/

namespace Executor.Join

variable {T W : Type}

/-- The waker that an operation on a `JoinHandle` calls. -/
def calls (s : Join T W) : Label T W → List W
  | .run (.returned result) => (s.state.complete result).1.toList
  | .run .pending | .run .panicked | .poll _ | .abort | .drop => []

/-- A handle and its sender, shared by the one who waits and the one who is awaited. -/
def primitive (T : Type) : Primitive (Join T TaskWaker) (Label T TaskWaker) :=
  ⟨fun s => ∃ producer, s = new producer, step, calls⟩

/-- There is no result, and the waker is stored. -/
def Waits (s : Join T W) (w : W) : Prop := s.state.waker = some w ∧ s.completed = none

/-- The operation is a poll of the handle. -/
def Label.polls : Label T W → Bool
  | .poll _ => true
  | .abort | .run _ | .drop => false

/-- The handle has not yielded the result that there is. -/
def Fresh (s : Join T W) : Prop := s.completed = none ∨ s.state.result = s.completed

variable {s s' : Join T W} {l : Label T W} {w : W}

/-- An operation that is not a poll leaves the waker, or calls it. -/
theorem waits_step (hl : l.polls = false) (hstep : s.step l = some s') :
    (s.Waits w → s'.Waits w ∨ w ∈ s.calls l) ∧ (s.Fresh → s'.Fresh) := by
  cases l with
  | poll => cases hl
  | abort =>
    cases hstep
    exact ⟨.inl, id⟩
  | drop =>
    obtain ⟨producer, -, rfl⟩ := Option.map_eq_some_iff.mp hstep
    exact ⟨.inl, id⟩
  | run outcome =>
    cases hsender : s.sender with
    | none => simp [step, hsender] at hstep
    | some producer =>
      cases outcome with
      | pending =>
        cases producer with
        | future =>
          simp only [step, hsender] at hstep
          cases hstep
          exact ⟨.inl, id⟩
        | closure => simp [step, hsender] at hstep
      | returned result =>
        simp only [step, hsender] at hstep
        cases hstep
        refine ⟨fun h => .inr ?_, fun _ => .inr rfl⟩
        rw [calls, JoinState.complete, h.1]
        exact List.mem_singleton.mpr rfl
      | panicked =>
        simp only [step, hsender] at hstep
        cases hstep
        exact ⟨.inl, id⟩

/-- Whoever waits for a result is called when it is there. -/
theorem attends : (primitive T).Attends Waits Label.polls :=
  fun _ _ _ _ _ hwaits hl hstep => (waits_step hl hstep).1 hwaits

variable {u m t : Users (Join T TaskWaker)} {ls ls' : List (Users.Label (Label T TaskWaker))}
  {v : TaskWaker} {before after : List ExecutorEvent} {L : ℕ} {result : T}

/-- **Who awaits a `JoinHandle` is polled**, within `L / n + 3` ticks after the task or the job has
returned, and other threads have called its waker; and polling the handle yields the result. -/
theorem run_polled_of_completed (hu : (Users.machine (primitive T)).Reachable u)
    (hwaits : u.object.Waits v) (hto : (Users.machine (primitive T)).Run u ls m)
    (hkeep : ∀ l ∈ ls, l.leaves Label.polls = false) (hdone : m.object.completed = some result)
    (hcalled : m.Called v.id) (hfrom : (Users.machine (primitive T)).Run m ls' t)
    (hm : m.log = u.log ++ before) (hlog : t.log = m.log ++ after)
    (haccepted : AcceptedIn u.log v.id) (hL : 0 < L)
    (hbound : State.QueueBound L u.log (before ++ after))
    (hticks : L ≤ u.runtime.exec.eventInterval * (ticks after - 3)) :
    Users.PolledAfterCall (primitive T) u m v (before ++ after) ∧
      ∀ waker, m.object.polled waker = .ready (.ok result) := by
  have hover : ¬ m.object.Waits v := by
    rintro ⟨-, hnone⟩
    rw [hdone] at hnone
    cases hnone
  refine ⟨Users.polled_of_waits attends hu hwaits hto hkeep hover hcalled hfrom hm hlog haccepted
    hL hbound hticks, fun waker => ?_⟩
  have hfresh : m.object.Fresh :=
    Users.object_of_run (fun _ _ _ hl hstep => (waits_step (w := v) hl hstep).2) hto hkeep
      (.inl hwaits.2)
  have hresult : m.object.state.result = some result := by
    rcases hfresh with hnone | heq
    · rw [hdone] at hnone
      cases hnone
    · rw [heq, hdone]
  rw [polled, JoinState.poll, hresult]

/-- A thread of the blocking pool makes the result and calls the waker. -/
def jobEnds : List (Users.Label (Label ℕ TaskWaker)) :=
  [.object false (.run (.returned 7)), .wakesForeign 0, .runtime (.call 1)]

/-- A task awaits a blocking job, and the job ends. -/
theorem run_polled_of_completed_job : ∃ u m t : Users (Join ℕ TaskWaker), ∃ evs,
    (Users.machine (primitive ℕ)).Reachable u ∧ (Users.machine (primitive ℕ)).Run u jobEnds m ∧
    (Users.machine (primitive ℕ)).Run m Users.fourTicks t ∧ t.log = m.log ++ evs ∧
    1 ∈ u.polledSince evs ∧ ∀ waker, m.object.polled waker = .ready (.ok 7) := by
  obtain ⟨u, m, t, after, hu, hto, hfrom, ⟨hwaker, hnone⟩, hdone, hm, hlog, haccepted, hcalled,
    hbound, hticks⟩ := Users.exists_of_check (primitive ℕ) [.object true (.poll ⟨.task, 1⟩)] jobEnds
    (fun u => u.object.state.waker = some ⟨.task, 1⟩ ∧ u.object.completed = none)
    (fun m => m.object.completed = some 7) ⟨.closure, rfl⟩ (by decide +kernel)
  obtain ⟨hpolled, hready⟩ := run_polled_of_completed (v := ⟨.task, 1⟩) hu ⟨hwaker, hnone⟩ hto
    (by decide) hdone hcalled hfrom hm hlog haccepted (by decide) hbound hticks
  exact ⟨u, m, t, after, hu, hto, hfrom, hlog, hpolled.polledSince (Users.hosts _) hu,
    hready⟩

end Executor.Join

/-! ### Oneshot channels -/

namespace Oneshot.Channel

variable {T W : Type}

/-- The waker that an operation on a oneshot channel calls. -/
def calls (c : Channel T W) : Label T W → List W
  | .send value => ((c.inner.send value).bind fun res => res.2.1).toList
  | .dropSender => (c.inner.dropSender.bind fun res => res.1).toList
  | .poll _ | .dropReceiver => []

/-- A oneshot channel, shared by its sender and its receiver. -/
def primitive (T : Type) : Primitive (Channel T TaskWaker) (Label T TaskWaker) :=
  ⟨(· = new), step, calls⟩

/-- The receiver waits: its waker is in the slot. -/
def Awaits (c : Channel T W) (w : W) : Prop := ∃ id, c.inner.rxWaker = some (id, w)

/-- The receiver is polled or dropped. -/
def receives : Label T W → Bool
  | .poll _ | .dropReceiver => true
  | .send _ | .dropSender => false

variable {c c' : Channel T W} {l : Label T W} {w : W}

/-- An operation of the sender leaves the waker, or calls it. -/
theorem waits_step (h : Shape c) (hwaits : c.Awaits w) (hl : receives l = false)
    (hstep : c.step l = some c') : w ∈ c.calls l := by
  obtain ⟨id, hid⟩ := hwaits
  cases h with
  | start | deserted => cases hid
  | parked w =>
    cases hid
    cases l with
    | send value => exact List.mem_singleton.mpr rfl
    | dropSender => exact List.mem_singleton.mpr rfl
    | poll | dropReceiver => cases hl
  | signalled h =>
    rw [h.quiet.2] at hid
    cases hid

/-- Whoever waits for the value is called when it is sent, or will not be. -/
theorem attends : (primitive T).Attends Awaits receives :=
  fun _ _ _ _ hreach hwaits hl hstep =>
    .inr (waits_step (shape_of_reachable hreach) hwaits hl hstep)

/-- Whoever waits has received nothing. -/
theorem Shape.received (h : Shape c) (hwaits : c.Awaits w) : c.received = [] := by
  obtain ⟨id, hid⟩ := hwaits
  cases h with
  | start | deserted | parked => rfl
  | signalled h =>
    rw [h.quiet.2] at hid
    cases hid

/-- An operation of the sender is not a receive. -/
theorem received_step (hl : receives l = false) (hstep : c.step l = some c') :
    c'.received = c.received := by
  cases l with
  | send value =>
    simp only [step] at hstep
    split at hstep
    · obtain ⟨res, -, heq⟩ := Option.bind_eq_some_iff.mp hstep
      cases heq
      rfl
    · cases hstep
  | dropSender =>
    simp only [step] at hstep
    split at hstep
    · cases hstep
    · obtain ⟨res, -, heq⟩ := Option.bind_eq_some_iff.mp hstep
      cases heq
      rfl
  | poll | dropReceiver => cases hl

/-- When the sender is done, nobody waits, and a poll is ready. -/
theorem Shape.over (h : Shape c) (htx : c.tx ≠ .fresh) : ¬ c.Awaits w ∧ ∀ r waker, c.rx = some r →
    ∃ res g r', c.inner.poll r waker = some (.ready res, g, r') ∧
      (c.received = [] → res.toOption = c.sent) := by
  cases h with
  | start | parked => exact absurd rfl htx
  | deserted =>
    refine ⟨?_, ?_⟩
    · rintro ⟨id, hid⟩
      cases hid
    · rintro r waker ⟨⟩
  | signalled h =>
    refine ⟨?_, fun r waker _ => ?_⟩
    · rintro ⟨id, hid⟩
      rw [h.quiet.2] at hid
      cases hid
    · have hdelivered := h.delivered
      by_cases hfull : c.inner.okernel.st = .full
      · obtain ⟨value, hvalue⟩ := Option.isSome_iff_exists.mp (h.slot.mpr hfull)
        refine ⟨_, _, _, Inner.poll_of_full h.quiet hfull hvalue, fun hnil => ?_⟩
        rw [hnil, hvalue] at hdelivered
        cases hsent : c.sent with
        | none => simp [hsent] at hdelivered
        | some value' =>
          rw [hsent] at hdelivered
          cases hdelivered
          rfl
      · refine ⟨_, _, _, Inner.poll_of_over h.quiet h.st hfull, fun hnil => ?_⟩
        have hnone : c.inner.value = none := by
          rw [← Option.not_isSome_iff_eq_none, h.slot]
          exact hfull
        rw [hnil, hnone] at hdelivered
        cases hsent : c.sent with
        | none => rfl
        | some value' => simp [hsent] at hdelivered

variable {u m t : Users (Channel T TaskWaker)} {ls ls' : List (Users.Label (Label T TaskWaker))}
  {v : TaskWaker} {before after : List ExecutorEvent} {L : ℕ}

/-- **Who waits for a oneshot channel is polled**, within `L / n + 3` ticks after the value was
sent, or the sender dropped, and other threads have called its waker; and the poll of the receiver
returns the value that was sent, or an error if there is none. -/
theorem run_polled_of_signalled (hu : (Users.machine (primitive T)).Reachable u)
    (hwaits : u.object.Awaits v) (hto : (Users.machine (primitive T)).Run u ls m)
    (hkeep : ∀ l ∈ ls, l.leaves receives = false) (hdone : m.object.tx ≠ .fresh)
    (hcalled : m.Called v.id) (hfrom : (Users.machine (primitive T)).Run m ls' t)
    (hm : m.log = u.log ++ before) (hlog : t.log = m.log ++ after)
    (haccepted : AcceptedIn u.log v.id) (hL : 0 < L)
    (hbound : State.QueueBound L u.log (before ++ after))
    (hticks : L ≤ u.runtime.exec.eventInterval * (ticks after - 3)) :
    Users.PolledAfterCall (primitive T) u m v (before ++ after) ∧
      ∀ r waker, m.object.rx = some r →
        ∃ res g r', m.object.inner.poll r waker = some (.ready res, g, r') ∧
          res.toOption = m.object.sent := by
  have hreach := Users.reachable_object (hu.run hto)
  obtain ⟨hover, hready⟩ := (shape_of_reachable hreach).over hdone
  refine ⟨Users.polled_of_waits attends hu hwaits hto hkeep hover hcalled hfrom hm hlog haccepted
    hL hbound hticks, fun r waker hr => ?_⟩
  have hreceived : m.object.received = [] := by
    refine Users.object_of_run (I := fun c => c.received = []) ?_ hto hkeep
      ((shape_of_reachable (Users.reachable_object hu)).received hwaits)
    exact fun _ _ _ hl hstep hc => (received_step hl hstep).trans hc
  obtain ⟨res, g, r', hpoll, hsent⟩ := hready r waker hr
  exact ⟨res, g, r', hpoll, hsent hreceived⟩

/-- Another thread sends a value, and drops the sender when it has called the waker. -/
def otherSends : List (Users.Label (Label ℕ TaskWaker)) :=
  [.object false (.send 7), .wakesForeign 0, .runtime (.call 1), .object false .dropSender]

/-- A task waits for the value, and another thread sends it. -/
theorem run_polled_of_signalled_sent : ∃ u m t : Users (Channel ℕ TaskWaker), ∃ evs,
    (Users.machine (primitive ℕ)).Reachable u ∧ (Users.machine (primitive ℕ)).Run u otherSends m ∧
    (Users.machine (primitive ℕ)).Run m Users.fourTicks t ∧ t.log = m.log ++ evs ∧
    1 ∈ u.polledSince evs ∧ m.object.sent = some 7 ∧ ∀ waker,
      ∃ res g r', m.object.inner.poll ⟨0, true⟩ waker = some (.ready res, g, r') ∧
        res.toOption = m.object.sent := by
  obtain ⟨u, m, t, after, hu, hto, hfrom, hwaker, ⟨htx, hsent, hrx⟩, hm, hlog, haccepted, hcalled,
    hbound, hticks⟩ := Users.exists_of_check (primitive ℕ) [.object true (.poll ⟨.task, 1⟩)]
    otherSends
    (fun u => u.object.inner.rxWaker = some (0, ⟨.task, 1⟩))
    (fun m => m.object.tx = .dropped ∧ m.object.sent = some 7 ∧ m.object.rx = some ⟨0, true⟩)
    rfl (by decide +kernel)
  obtain ⟨hpolled, hready⟩ := run_polled_of_signalled (v := ⟨.task, 1⟩) hu ⟨0, hwaker⟩ hto
    (by decide) (by rw [htx]; decide) hcalled hfrom hm hlog haccepted (by decide) hbound hticks
  exact ⟨u, m, t, after, hu, hto, hfrom, hlog, hpolled.polledSince (Users.hosts _) hu,
    hsent, fun waker => hready _ waker hrx⟩

end Oneshot.Channel

/-! ### Mailboxes -/

/-- The primitive is a mailbox to its consumer, whose operations are those that `consumes` names,
and calls the wakers that are to be woken. -/
structure Primitive.IsMailbox {σ ι : Type} (p : Primitive σ ι) (box : σ → Mailbox TaskWaker)
    (note : σ → ι → Mailbox.Event TaskWaker) (consumes : ι → Bool) : Prop where
  /-- Nobody waits at the beginning. -/
  init : ∀ o, p.init o → (box o).waker = none
  /-- Operations are steps of the mailbox, with what is noted of them. -/
  step : ∀ o i o', p.machine.Reachable o → p.step o i = some o' → (box o).Step (note o i) (box o')
  /-- Operations of others are noted as theirs. -/
  others : ∀ o i, consumes i = false → note o i = .others (note o i).called
  /-- The wakers that are noted as called are. -/
  calls : ∀ o i w, (note o i).called = some w → w ∈ p.calls o i

namespace Primitive.IsMailbox

variable {σ ι : Type} {p : Primitive σ ι} {box : σ → Mailbox TaskWaker}
  {note : σ → ι → Mailbox.Event TaskWaker} {consumes : ι → Bool} {o : σ}

/-- Whoever waits is called when there is something, or nobody to wait for. -/
theorem attends (h : p.IsMailbox box note consumes) :
    p.Attends (fun o w => (box o).waker = some w) consumes := by
  intro o o' i w hreach hwaits hi hstep
  have hbox := h.step o i o' hreach hstep
  rw [h.others o i hi] at hbox
  exact (hbox.stored_or_woken hwaits).imp_right (h.calls o i w)

/-- Nobody waits when there is something, or nobody to wait for. -/
theorem idle (h : p.IsMailbox box note consumes) (ho : p.machine.Reachable o) : (box o).Idle := by
  refine (ho.invariant (I := fun o => p.machine.Reachable o ∧ (box o).Idle) ?_ ?_).2
  · refine fun o hinit => ⟨.of_init hinit, fun w hw => ?_⟩
    rw [h.init o hinit] at hw
    cases hw
  · exact fun o i o' ⟨hreach, hidle⟩ hstep =>
      ⟨hreach.step hstep, hidle.keep (h.step o i o' hreach hstep)⟩

variable {u m t : Users σ} {ls ls' : List (Users.Label ι)} {v : TaskWaker}
  {before after : List ExecutorEvent} {L : ℕ}

/-- **Who waits at a mailbox is polled**, after something was put in or the last producer left. -/
theorem polled (h : p.IsMailbox box note consumes) (hu : (Users.machine p).Reachable u)
    (hwaits : (box u.object).waker = some v) (hto : (Users.machine p).Run u ls m)
    (hkeep : ∀ l ∈ ls, l.leaves consumes = false)
    (hstocked : (box m.object).items ≠ 0 ∨ (box m.object).producers = 0) (hcalled : m.Called v.id)
    (hfrom : (Users.machine p).Run m ls' t) (hm : m.log = u.log ++ before)
    (hlog : t.log = m.log ++ after) (haccepted : AcceptedIn u.log v.id) (hL : 0 < L)
    (hbound : State.QueueBound L u.log (before ++ after))
    (hticks : L ≤ u.runtime.exec.eventInterval * (ticks after - 3)) :
    Users.PolledAfterCall p u m v (before ++ after) := by
  refine Users.polled_of_waits h.attends hu hwaits hto hkeep (fun hwaker => ?_) hcalled hfrom hm
    hlog haccepted hL hbound hticks
  obtain ⟨hitems, hproducers⟩ := h.idle (Users.reachable_object (hu.run hto)) v hwaker
  exact hstocked.elim (absurd hitems) fun hzero => hproducers hzero

end Primitive.IsMailbox

/-! ### Bounded channels -/

namespace Mpsc.Channel

variable {T W : Type}

/-- The wakers of senders that an operation calls. -/
def callsTx (s : Channel T W) : Label T W → List W
  | .drop i =>
    match s.futures[i]? with
    | some (some f) => ((s.inner.dropTxWaiter f.toWaiter).1.map Prod.snd).toList
    | _ => []
  | .permitDrop => (s.inner.permitDrop.1.map Prod.snd).toList
  | .tryRecv => ((s.inner.tryRecv.bind fun res => res.2.1).map Prod.snd).toList
  | .pollRecv waker =>
    (((s.recv.bind fun f => s.inner.pollRecv f waker).bind fun res => res.2.1).map Prod.snd).toList
  | .close | .dropReceiver => s.inner.close.1
  | .trySend _ | .send _ | .tryReserve | .reserve | .poll _ _ | .permitSend _ | .cloneSender
  | .dropSender | .recv | .dropRecv => []

/-- The wakers that an operation on a bounded channel calls, of the receiver and of senders. -/
def calls (s : Channel T W) (l : Label T W) : List W := (s.note l).called.toList ++ s.callsTx l

/-- A bounded channel, shared by its senders and its receiver. -/
def primitive (T : Type) : Primitive (Channel T TaskWaker) (Label T TaskWaker) :=
  ⟨fun s => ∃ capacity, 0 < capacity ∧ s = new capacity, step, calls⟩

/-- The operations of the future of `recv`. -/
def receives : Label T W → Bool
  | .recv | .pollRecv _ | .dropRecv => true
  | _ => false

/-- Bounded channels are mailboxes, which calls of senders do not disturb. -/
theorem isMailbox : (primitive T).IsMailbox box note receives where
  init := by
    rintro s ⟨capacity, -, rfl⟩
    rfl
  step s l s' hs hstep := step_box hs hstep
  others s l hl := by
    cases l with
    | recv | pollRecv | dropRecv => cases hl
    | poll i waker =>
      simp only [note]
      split
      · split <;> rfl
      · rfl
    | _ => rfl
  calls s l w hw := List.mem_append_left _ (by rw [hw]; exact List.mem_singleton.mpr rfl)

variable {s : Channel T W}

/-- A poll of `recv` returns the value that was sent first, or `None` when there is none and there
will be none. -/
theorem pollRecv_of_stocked (h : machine.Reachable s)
    (hstocked : s.inner.buffer ≠ [] ∨ s.inner.senderCount = 0) (f : Recv) (waker : W) :
    (s.inner.pollRecv f waker).map (fun res => res.1) = some (.ready s.inner.buffer.head?) := by
  have hlength : s.inner.buffer.length = s.inner.ckernel.buffered := (sound_of_reachable h).length
  rw [Inner.pollRecv, Inner.pollRecvLoop]
  rcases s.inner.ckernel.pop_cases with ⟨hpos, hpop⟩ | ⟨hzero, hpop⟩
  · rw [hpop]
    obtain ⟨value, rest, hbuffer⟩ := List.exists_cons_of_length_pos (hlength ▸ hpos)
    simp [Inner.popFront, hbuffer]
  · have hnil := List.eq_nil_of_length_eq_zero (hlength.trans hzero)
    have hcount := hstocked.resolve_left (not_not_intro hnil)
    rw [hpop]
    simp [hcount, hnil]

variable {u m t : Users (Channel T TaskWaker)} {ls ls' : List (Users.Label (Label T TaskWaker))}
  {v : TaskWaker} {before after : List ExecutorEvent} {L : ℕ}

/-- **Who waits for a bounded channel is polled**, within `L / n + 3` ticks after there is a value
or the last sender was dropped, and other threads have called its waker; and a poll of `recv`
returns the value that was sent first, or `None` if there is none. -/
theorem run_polled_of_stocked (hu : (Users.machine (primitive T)).Reachable u)
    (hwaits : u.object.inner.rxWaker = some v) (hto : (Users.machine (primitive T)).Run u ls m)
    (hkeep : ∀ l ∈ ls, l.leaves receives = false)
    (hstocked : m.object.inner.buffer ≠ [] ∨ m.object.inner.senderCount = 0)
    (hcalled : m.Called v.id) (hfrom : (Users.machine (primitive T)).Run m ls' t)
    (hm : m.log = u.log ++ before) (hlog : t.log = m.log ++ after)
    (haccepted : AcceptedIn u.log v.id) (hL : 0 < L)
    (hbound : State.QueueBound L u.log (before ++ after))
    (hticks : L ≤ u.runtime.exec.eventInterval * (ticks after - 3)) :
    Users.PolledAfterCall (primitive T) u m v (before ++ after) ∧
      ∀ f waker, (m.object.inner.pollRecv f waker).map (fun res => res.1) =
        some (.ready m.object.inner.buffer.head?) := by
  refine ⟨isMailbox.polled hu hwaits hto hkeep ?_ hcalled hfrom hm hlog haccepted hL hbound hticks,
    pollRecv_of_stocked (Users.reachable_object (hu.run hto)) hstocked⟩
  exact hstocked.imp_left fun hne hzero => hne (List.eq_nil_of_length_eq_zero hzero)

/-- Another thread sends a value, and drops the sender. -/
def otherSends : List (Users.Label (Label ℕ TaskWaker)) :=
  [.object false (.trySend 7), .wakesForeign 0, .object false .dropSender, .runtime (.call 1)]

/-- A task waits for the value, with capacity for one. -/
theorem run_polled_of_stocked_sent : ∃ u m t : Users (Channel ℕ TaskWaker), ∃ evs,
    (Users.machine (primitive ℕ)).Reachable u ∧ (Users.machine (primitive ℕ)).Run u otherSends m ∧
    (Users.machine (primitive ℕ)).Run m Users.fourTicks t ∧ t.log = m.log ++ evs ∧
    1 ∈ u.polledSince evs ∧ m.object.inner.buffer = [7] ∧ ∀ f waker,
      (m.object.inner.pollRecv f waker).map (fun res => res.1) =
        some (.ready m.object.inner.buffer.head?) := by
  obtain ⟨u, m, t, after, hu, hto, hfrom, hwaker, hbuffer, hm, hlog, haccepted, hcalled, hbound,
    hticks⟩ := Users.exists_of_check (primitive ℕ)
    [.object true .recv, .object true (.pollRecv ⟨.task, 1⟩)] otherSends
    (fun u => u.object.inner.rxWaker = some ⟨.task, 1⟩)
    (fun m => m.object.inner.buffer = [7]) ⟨1, by decide, rfl⟩ (by decide +kernel)
  obtain ⟨hpolled, hready⟩ := run_polled_of_stocked (v := ⟨.task, 1⟩) hu hwaker hto (by decide)
    (.inl (by rw [hbuffer]; decide)) hcalled hfrom hm hlog haccepted (by decide) hbound hticks
  exact ⟨u, m, t, after, hu, hto, hfrom, hlog, hpolled.polledSince (Users.hosts _) hu,
    hbuffer, hready⟩

end Mpsc.Channel

/-! ### Unbounded channels -/

namespace Unbounded.Channel

variable {T W : Type}

/-- The waker that an operation on an unbounded channel calls. -/
def calls (s : Channel T W) (l : Label T W) : List W := (s.note l).called.toList

/-- An unbounded channel, shared by its senders and its receiver. -/
def primitive (T : Type) : Primitive (Channel T TaskWaker) (Label T TaskWaker) :=
  ⟨(· = new), step, calls⟩

/-- The operations of the future of `recv`. -/
def receives : Label T W → Bool
  | .recv | .pollRecv _ | .dropRecv => true
  | _ => false

/-- Unbounded channels are mailboxes. -/
theorem isMailbox : (primitive T).IsMailbox box note receives where
  init := by
    rintro s rfl
    rfl
  step s l s' hs hstep := step_box hs hstep
  others s l hl := by
    cases l with
    | recv | pollRecv | dropRecv => cases hl
    | _ => rfl
  calls s l w hw := by
    show w ∈ (s.note l).called.toList
    rw [hw]
    exact List.mem_singleton.mpr rfl

variable {s : Channel T W}

/-- A poll of `recv` returns what that of the bounded channel does. -/
theorem pollRecv_of_stocked (h : machine.Reachable s)
    (hstocked : s.inner.buffer ≠ [] ∨ s.inner.senderCount = 0) (f : Recv) (waker : W) :
    (s.inner.pollRecv f waker).map (fun res => res.1) = some (.ready s.inner.buffer.head?) := by
  obtain ⟨accepted, received, hreach, -⟩ := reachable_bounded h
  have hbounded := Mpsc.Channel.pollRecv_of_stocked hreach hstocked f.bounded waker
  have heq := Inner.bounded_pollRecvLoop (s.inner.rxKernel.permit + 1) s.inner f waker
  rw [show (s.bounded accepted received).inner.pollRecv f.bounded waker = _ from heq,
    Option.map_map] at hbounded
  exact hbounded

variable {u m t : Users (Channel T TaskWaker)} {ls ls' : List (Users.Label (Label T TaskWaker))}
  {v : TaskWaker} {before after : List ExecutorEvent} {L : ℕ}

/-- **Who waits for an unbounded channel is polled**, within `L / n + 3` ticks after there is a
value or the last sender was dropped, and other threads have called its waker; and a poll of `recv`
returns the value that was sent first, or `None` if there is none. -/
theorem run_polled_of_sent (hu : (Users.machine (primitive T)).Reachable u)
    (hwaits : u.object.inner.rxWaker = some v) (hto : (Users.machine (primitive T)).Run u ls m)
    (hkeep : ∀ l ∈ ls, l.leaves receives = false)
    (hstocked : m.object.inner.buffer ≠ [] ∨ m.object.inner.senderCount = 0)
    (hcalled : m.Called v.id) (hfrom : (Users.machine (primitive T)).Run m ls' t)
    (hm : m.log = u.log ++ before) (hlog : t.log = m.log ++ after)
    (haccepted : AcceptedIn u.log v.id) (hL : 0 < L)
    (hbound : State.QueueBound L u.log (before ++ after))
    (hticks : L ≤ u.runtime.exec.eventInterval * (ticks after - 3)) :
    Users.PolledAfterCall (primitive T) u m v (before ++ after) ∧
      ∀ f waker, (m.object.inner.pollRecv f waker).map (fun res => res.1) =
        some (.ready m.object.inner.buffer.head?) := by
  refine ⟨isMailbox.polled hu hwaits hto hkeep ?_ hcalled hfrom hm hlog haccepted hL hbound hticks,
    pollRecv_of_stocked (Users.reachable_object (hu.run hto)) hstocked⟩
  exact hstocked.imp_left fun hne hzero => hne (List.eq_nil_of_length_eq_zero hzero)

/-- The last sender is dropped by another thread, which calls the waker. -/
def otherLeaves : List (Users.Label (Label ℕ TaskWaker)) :=
  [.object false .dropSender, .wakesForeign 0, .runtime (.call 1)]

/-- A task waits for a value, and there will be none. -/
theorem run_polled_of_sent_none : ∃ u m t : Users (Channel ℕ TaskWaker), ∃ evs,
    (Users.machine (primitive ℕ)).Reachable u ∧ (Users.machine (primitive ℕ)).Run u otherLeaves m ∧
    (Users.machine (primitive ℕ)).Run m Users.fourTicks t ∧ t.log = m.log ++ evs ∧
    1 ∈ u.polledSince evs ∧ m.object.inner.senderCount = 0 ∧ ∀ f waker,
      (m.object.inner.pollRecv f waker).map (fun res => res.1) =
        some (.ready m.object.inner.buffer.head?) := by
  obtain ⟨u, m, t, after, hu, hto, hfrom, hwaker, hcount, hm, hlog, haccepted, hcalled, hbound,
    hticks⟩ := Users.exists_of_check (primitive ℕ)
    [.object true .recv, .object true (.pollRecv ⟨.task, 1⟩)] otherLeaves
    (fun u => u.object.inner.rxWaker = some ⟨.task, 1⟩)
    (fun m => m.object.inner.senderCount = 0) rfl (by decide +kernel)
  obtain ⟨hpolled, hready⟩ := run_polled_of_sent (v := ⟨.task, 1⟩) hu hwaker hto (by decide)
    (.inr hcount) hcalled hfrom hm hlog haccepted (by decide) hbound hticks
  exact ⟨u, m, t, after, hu, hto, hfrom, hlog, hpolled.polledSince (Users.hosts _) hu,
    hcount, hready⟩

end Unbounded.Channel

end Lion
