import Lion.Library.Machine

/-!
# Mailboxes with one consumer

What a channel is to its receiver: a number of items, a number of producers, and room for one waker.
Whoever puts an item in, and the last producer to leave, takes the waker out and wakes it. The
consumer leaves its waker only when there is nothing to take and somebody who may put something in.

Nothing else about a channel matters for the question whether its receiver waits in vain. Bounded
and unbounded channels, channels whose items are values and channels whose items are permits, are
mailboxes alike, and what is proved here of mailboxes is proved of each of them by saying which
mailbox its state is.

## The consumer's latest attempt

To say that nobody waits in vain one has to know the waker of the consumer's latest attempt, and
which wakers were woken, which programs do not keep. `Attended` is a machine with a note of both: an
operation of the consumer says which waker it left waiting, if any, and an operation of somebody
else says which waker it woke. What an operation says is read from what it returns and not from the
state, or an operation that forgot to wake somebody would be taken to have woken them.

## Scope

There is one consumer. With several, a waker taken out may not be the one of the consumer that the
item is for, and the single place for a waker would have to be a queue. Being woken is also all that
is said: what the consumer does about it is not a matter of the mailbox.

## Main results

* `Mailbox.Prompted.step`, `Mailbox.Idle.step` — what every step of a mailbox keeps
* `Attended.invariant` — in every run of a machine that is a mailbox to its consumer, a waker that
  is stored waits for something, and a consumer that waits has its waker stored, or it was woken
-/

/-- A mailbox, with wakers in `W`: what there is to take, who may still add to it, and who waits. -/
structure Mailbox (W : Type*) where
  items : ℕ
  producers : ℕ
  waker : Option W

namespace Mailbox

variable {W : Type*} {b b' : Mailbox W} {last woken w : Option W}

/-- What others may do to a mailbox, with the waker that they wake. -/
inductive Others (b : Mailbox W) : Option W → Mailbox W → Prop
  | idle : Others b none b
  /-- An item is put in, and whoever waits is woken. -/
  | produce : Others b b.waker { b with items := b.items + 1, waker := none }
  /-- The number of producers changes, and there are some left. -/
  | recount {n : ℕ} : n ≠ 0 → Others b none { b with producers := n }
  /-- The last producer leaves, and whoever waits is woken. -/
  | abandon : Others b b.waker { b with producers := 0, waker := none }
  /-- An item is taken out, by the consumer, or by somebody else who is allowed to. -/
  | consume : Others b none { b with items := b.items - 1 }

/-- What an operation does to those who wait, as the one who carries it out gets to know it. -/
inductive Event (W : Type*)
  /-- Somebody else has woken the waker `woken`, if any. -/
  | others (woken : Option W)
  /-- The consumer has left the waker `last` waiting, if any. -/
  | consumer (last : Option W)

/-- The waker that an event says somebody else has woken. -/
def Event.called : Event W → Option W
  | .others w => w
  | .consumer _ => none

/-- What happens to a mailbox: others do something, or the consumer does. -/
inductive Step (b : Mailbox W) : Event W → Mailbox W → Prop
  | others {w : Option W} {b' : Mailbox W} : Others b w b' → Step b (.others w) b'
  /-- The consumer takes an item, or nothing. -/
  | finish {w : Option W} {b' : Mailbox W} : Others b w b' → Step b (.consumer none) b'
  /-- The consumer leaves a waker. It may do so only where it has something to wait for. -/
  | wait (w : W) : b.items = 0 → b.producers ≠ 0 →
      Step b (.consumer (some w)) { b with waker := some w }
  /-- The consumer withdraws, and takes back the waker that it has left. -/
  | withdraw : Step b (.consumer none) { b with waker := none }

/-- A waker is stored only while there is nothing to take, and somebody who may put something in. -/
def Idle (b : Mailbox W) : Prop := ∀ w, b.waker = some w → b.items = 0 ∧ b.producers ≠ 0

theorem Idle.others (h : b.Idle) (hstep : Others b w b') :
    b'.Idle ∧ ((w = none ∧ b'.waker = b.waker) ∨ (w = b.waker ∧ b'.waker = none)) := by
  cases hstep with
  | idle => exact ⟨h, .inl ⟨rfl, rfl⟩⟩
  | produce => exact ⟨nofun, .inr ⟨rfl, rfl⟩⟩
  | recount hn => exact ⟨fun w hw => ⟨(h w hw).1, hn⟩, .inl ⟨rfl, rfl⟩⟩
  | abandon => exact ⟨nofun, .inr ⟨rfl, rfl⟩⟩
  | consume =>
    refine ⟨fun w hw => ⟨?_, (h w hw).2⟩, .inl ⟨rfl, rfl⟩⟩
    show b.items - 1 = 0
    rw [(h w hw).1]

/-- Every step keeps that a stored waker waits for something. -/
theorem Idle.keep {e : Event W} (h : b.Idle) (hstep : Step b e b') : b'.Idle := by
  cases hstep with
  | others hothers | finish hothers => exact (h.others hothers).1
  | wait w hitems hproducers => exact fun _ _ => ⟨hitems, hproducers⟩
  | withdraw => exact nofun

/-- Others leave the waker where it is, or wake it. -/
theorem Step.stored_or_woken {v : W} (hstep : Step b (.others w) b') (hv : b.waker = some v) :
    b'.waker = some v ∨ w = some v := by
  cases hstep with
  | others hothers =>
    cases hothers with
    | idle | recount | consume => exact .inl hv
    | produce | abandon => exact .inr hv

/-- A waker that is stored waits for something, and when the latest attempt has left the waker
`last`, it is stored, or `woken` is the one that was woken. -/
structure Prompted (b : Mailbox W) (last woken : Option W) : Prop where
  idle : b.Idle
  pending : ∀ w, last = some w → b.waker = some w ∨ (b.waker = none ∧ woken = some w)

theorem Prompted.stored_or_woken {v : W} (h : b.Prompted (some v) woken) :
    b.waker = some v ∨ woken = some v :=
  (h.pending v rfl).imp_right And.right

/-- **A step of others.** Whoever waited is stored, or woken. -/
theorem Prompted.step (h : b.Prompted last woken) (hstep : Step b (.others w) b') :
    b'.Prompted last (w.or woken) := by
  cases hstep with
  | others hothers =>
    obtain ⟨hidle, hwaker⟩ := h.idle.others hothers
    refine ⟨hidle, fun v hv => ?_⟩
    rcases hwaker with ⟨rfl, heq⟩ | ⟨rfl, hgone⟩
    · rw [heq]
      exact h.pending v hv
    · rcases h.pending v hv with hstored | ⟨hnone, hwoken⟩
      · exact .inr ⟨hgone, by rw [hstored]; rfl⟩
      · exact .inr ⟨hgone, by rw [hnone]; exact hwoken⟩

/-- **A step of the consumer.** If it waits, it is stored. -/
theorem Idle.step (h : b.Idle) (hstep : Step b (.consumer last) b') : b'.Prompted last none := by
  cases hstep with
  | finish hothers => exact ⟨(h.others hothers).1, nofun⟩
  | wait w hitems hproducers =>
    refine ⟨fun _ _ => ⟨hitems, hproducers⟩, ?_⟩
    rintro w' ⟨⟩
    exact .inl rfl
  | withdraw => exact ⟨nofun, nofun⟩

end Mailbox

/-- A state, with a note of the consumer's latest attempt and of the latest waker called since. -/
structure Attended (σ W : Type*) where
  state : σ
  /-- The waker that the consumer's latest attempt has left waiting. -/
  last : Option W
  /-- The waker that others have woken since, the latest one. -/
  woken : Option W
deriving DecidableEq, Repr

namespace Attended

variable {σ α W : Type*}

/-- One step, and the note that the event belonging to it makes. -/
def step (next : σ → α → Option σ) (note : σ → α → Mailbox.Event W) (s : Attended σ W) (a : α) :
    Option (Attended σ W) :=
  (next s.state a).map fun t =>
    match note s.state a with
    | .consumer last => ⟨t, last, none⟩
    | .others woken => ⟨t, s.last, woken.or s.woken⟩

/-- The machine of a partial step function, attended. -/
def machine (init : σ → Prop) (next : σ → α → Option σ) (note : σ → α → Mailbox.Event W) :
    Machine (Attended σ W) α :=
  Machine.ofStep (fun s => init s.state ∧ s.last = none ∧ s.woken = none) (step next note)

variable {init : σ → Prop} {next : σ → α → Option σ} {note : σ → α → Mailbox.Event W}
  {s : Attended σ W}

/-- An attended run is a run: notes are taken of it, and nothing is changed. -/
theorem reachable_state (h : (machine init next note).Reachable s) :
    (Machine.ofStep init next).Reachable s.state := by
  refine h.invariant (I := fun s => (Machine.ofStep init next).Reachable s.state) ?_ ?_
  · exact fun s hs => .of_init hs.1
  · intro s a s' hs hstep
    obtain ⟨t, ht, rfl⟩ := Option.map_eq_some_iff.mp hstep
    refine hs.step (a := a) ?_
    show next s.state a = some _
    rw [ht]
    split <;> rfl

/-- **Nobody waits in vain.** If every step of the machine is a step of the mailbox that `box` sees
in its states, with the event that `note` reads, then the latest waker left by the consumer is
stored, or it was woken. -/
theorem invariant (box : σ → Mailbox W) (hinit : ∀ s, init s → (box s).waker = none)
    (hstep : ∀ s a t, (Machine.ofStep init next).Reachable s → next s a = some t →
      (box s).Step (note s a) (box t))
    (h : (machine init next note).Reachable s) :
    (box s.state).Prompted s.last s.woken := by
  have hboth : (Machine.ofStep init next).Reachable s.state ∧
      (box s.state).Prompted s.last s.woken := by
    refine h.invariant (I := fun s => (Machine.ofStep init next).Reachable s.state ∧
      (box s.state).Prompted s.last s.woken) ?_ ?_
    · rintro s ⟨hs, hlast, hwoken⟩
      refine ⟨.of_init hs, fun w hw => ?_, fun w hw => ?_⟩
      · rw [hinit _ hs] at hw
        cases hw
      · rw [hlast] at hw
        cases hw
    · rintro s a s' ⟨hreach, hprompted⟩ hs
      obtain ⟨t, ht, rfl⟩ := Option.map_eq_some_iff.mp hs
      have hbox := hstep s.state a t hreach ht
      cases hnote : note s.state a with
      | others woken =>
        rw [hnote] at hbox
        exact ⟨hreach.step (a := a) ht, hprompted.step hbox⟩
      | consumer last =>
        rw [hnote] at hbox
        exact ⟨hreach.step (a := a) ht, hprompted.idle.step hbox⟩
  exact hboth.2

end Attended
