import Lion.Sync.Updates

/-!
# `wait_for` of the watch channel

`Receiver::wait_for` checks the value under the mutex, releases it, and waits for a change if the
predicate does not hold. When it does, the mutex is taken again for the reference that is returned.
Between the two the sender may publish, and the value that is returned is then another one than was
checked.

## What may come in between

The source says of the returned reference that the predicate holds, and it held of the value that
was checked. The mutex is free then, for as long as it takes the receiver to lock it again. However
many values are published meanwhile, the one that counts is the last. So the condition under which
all is well is about one value per call, and `Wait.later` keeps it: nothing was published, or what
was published last satisfies the predicate too (`Steady`).

That this is exact is because the value in the channel is always the one published last, or the one
that was checked (`CallOk`).

## Conventions

A call is taken one section under the mutex at a time: a check, a poll of the future of `changed`,
the drop of that future, and the return. In between anything may be done to the channel but what
needs the receiver. The value seen through the returned reference is the one there is when the mutex
is taken, since the reference keeps it.

Of a call, `later` is not in the source, and nothing depends on it: the value that was published
last since the predicate was found to hold.

## Main results

* `Waits.satisfied_run_iff` — in a run, `wait_for` returns values that satisfy the predicate if and
  only if the last value published between check and return, if any, does
* `Waits.not_satisfied` — a run in which it does not
-/

namespace Lion.Watch

variable {T W : Type}

/-- Where a call of `wait_for` is, between two sections under the mutex. -/
inductive Phase
  /-- It is about to check the value. -/
  | check
  /-- It awaits a change. -/
  | waiting
  /-- The future of `changed` has returned ready, and is to be dropped. Whether with an error. -/
  | leaving (closed : Bool)
  /-- The predicate was found to hold, and the mutex is yet to be taken for the reference. -/
  | matched
deriving DecidableEq, Repr

/-- A call of `wait_for` that has not returned. -/
structure Wait (T : Type) where
  pred : T → Bool
  phase : Phase
  /-- What was published last since the predicate was found to hold. -/
  later : Option T

/-- The channel, and for each receiver its call of `wait_for`, if it is in one. -/
structure Waits (T W : Type) where
  channel : Channel T W
  calls : ℕ → Option (Wait T)

/-- The steps: operations on the channel itself, and the sections of a call, which goes by its
receiver. -/
inductive WaitLabel (T W : Type)
  /-- An operation on the channel, which needs no receiver that is in a call. -/
  | op (l : Label T W)
  /-- `Receiver::wait_for` is called, with this predicate. -/
  | waitFor (i : ℕ) (pred : T → Bool)
  /-- The value is checked. -/
  | check (i : ℕ)
  /-- The future of `changed` is polled. -/
  | poll (i : ℕ) (waker : W)
  /-- It is dropped, when it has returned ready. -/
  | leave (i : ℕ)
  /-- The mutex is taken again, and the call returns. -/
  | relock (i : ℕ)
  /-- The call is dropped before it has returned. -/
  | cancel (i : ℕ)

/-- The receiver that an operation needs. -/
def Label.receiver : Label T W → Option ℕ
  | .send _ => none
  | .sendReplace _ => none
  | .sendModify _ => none
  | .dropSender => none
  | .subscribe => none
  | .cloneReceiver i => some i
  | .dropReceiver i => some i
  | .borrowAndUpdate i => some i
  | .changed i => some i
  | .poll i _ => some i
  | .dropChanged i => some i

/-- What an operation publishes, if the value is this one. -/
def Label.published (value : T) : Label T W → Option T
  | .send value => some value
  | .sendReplace value => some value
  | .sendModify f => some (f value)
  | .dropSender => none
  | .subscribe => none
  | .cloneReceiver _ => none
  | .dropReceiver _ => none
  | .borrowAndUpdate _ => none
  | .changed _ => none
  | .poll _ _ => none
  | .dropChanged _ => none

/-- Note in a call what was published, if the predicate was found to hold. -/
def Wait.note (published : Option T) (w : Wait T) : Wait T :=
  if w.phase = .matched then { w with later := published.or w.later } else w

namespace Waits

/-- Change the call of receiver number `i`, and no other. -/
def set (s : Waits T W) (i : ℕ) (w : Option (Wait T)) : Waits T W :=
  { s with calls := Function.update s.calls i w }

/-- One step. `none`: it panics, or there is no call that it could be a step of. -/
def step (s : Waits T W) : WaitLabel T W → Option (Waits T W)
  | .op l =>
    if l.receiver.any fun i => (s.calls i).isSome then none
    else do
      let channel ← s.channel.step l
      let published := l.published s.channel.inner.value
      return ⟨channel, fun i => (s.calls i).map (Wait.note published)⟩
  | .waitFor i pred =>
    if (s.calls i).isSome then none
    else (s.channel.free i).map fun _ => s.set i (some ⟨pred, .check, none⟩)
  | .check i => do
    let w ← s.calls i
    if w.phase ≠ .check then none
    else
      let matched := w.pred s.channel.inner.value
      if !matched && s.channel.inner.txDropped then return s.set i none
      else if matched then return s.set i (some { w with phase := .matched, later := none })
      else
        let channel ← s.channel.step (.changed i)
        return { s with channel }.set i (some { w with phase := .waiting })
  | .poll i waker => do
    let w ← s.calls i
    if w.phase ≠ .waiting then none
    else
      let r ← s.channel.receivers.get i
      let f ← r.changed
      let (res, _) ← s.channel.inner.poll f.toChanged r.seenVersion waker
      let channel ← s.channel.step (.poll i waker)
      match res with
      | .pending => return { s with channel }
      | .ready res =>
        return { s with channel }.set i (some { w with phase := .leaving (!res.isOk) })
  | .leave i => do
    let w ← s.calls i
    match w.phase with
    | .leaving closed =>
      let channel ← s.channel.step (.dropChanged i)
      return { s with channel }.set i (if closed then none else some { w with phase := .check })
    | .check => none
    | .waiting => none
    | .matched => none
  | .relock i => do
    let w ← s.calls i
    if w.phase ≠ .matched then none
    else
      let channel ← s.channel.step (.borrowAndUpdate i)
      return { s with channel }.set i none
  | .cancel i => do
    let w ← s.calls i
    match w.phase with
    | .check => return s.set i none
    | .waiting =>
      let channel ← s.channel.step (.dropChanged i)
      return { s with channel }.set i none
    | .leaving _ => none
    | .matched => none

/-- A channel whose receiver is not in a call. -/
def new (value : T) : Waits T W := ⟨.new value, fun _ => none⟩

/-- A channel and calls of `wait_for` as a machine, with anything in between. -/
def machine : Machine (Waits T W) (WaitLabel T W) :=
  Machine.ofStep (fun s => ∃ value, s = new value) step

/-- The call that returns `Ok`, and the value seen through the reference. -/
def returns (s : Waits T W) : WaitLabel T W → Option (Wait T × T)
  | .relock i => do
    let w ← s.calls i
    if w.phase = .matched then return (w, s.channel.inner.value) else none
  | _ => none

/-- **The value that `wait_for` returns satisfies the predicate.** -/
def Satisfied (s : Waits T W) (l : WaitLabel T W) : Prop :=
  ∀ w value, s.returns l = some (w, value) → w.pred value = true

/-- When a call returns, what was published last since the predicate was found to hold, if anything,
satisfies it. -/
def Steady (s : Waits T W) (l : WaitLabel T W) : Prop :=
  ∀ i w value, l = .relock i → s.calls i = some w → w.phase = .matched →
    w.later = some value → w.pred value = true

end Waits

/-! ### What an operation does to the value -/

namespace Channel

variable {c c' : Channel T W} {l : Label T W}

/-- The value is what was published last. -/
theorem Sound.value_step (h : Sound c) (hstep : c.step l = some c') :
    c'.inner.value = (l.published c.inner.value).getD c.inner.value := by
  cases step_cases hstep with
  | send _ hpub => exact (Inner.publish_wakes h.synced hpub).2.2.2
  | sendReplace _ hpub => exact (Inner.publish_wakes h.synced hpub).2.2.2
  | sendModify _ hpub => exact (Inner.publish_wakes h.synced hpub).2.2.2
  | dropSender => exact (Inner.dropSender_wakes h.synced).2.2.2
  | subscribe => rfl
  | cloneReceiver => rfl
  | dropReceiver => rfl
  | borrowAndUpdate => rfl
  | changed => rfl
  | poll _ _ hpoll =>
    cases Inner.poll_cases h.synced.permit hpoll with
    | changed => rfl
    | closed => rfl
    | refreshed => rfl
    | parked => rfl
  | @dropChanged _ _ f =>
    show (c.inner.dropChanged f.toChanged).value = c.inner.value
    rw [Inner.dropChanged_eq h.synced]
    split <;> rfl

end Channel

/-! ### Runs -/

namespace Waits

variable {s s' s₀ : Waits T W} {l : WaitLabel T W} {ls : List (WaitLabel T W)}

/-- What holds of a call while the value is this one. -/
def CallOk (value : T) (w : Wait T) : Prop :=
  w.phase = .matched →
    (w.later = none → w.pred value = true) ∧ ∀ v, w.later = some v → v = value

/-- What holds of a channel and the calls of `wait_for` in every run. -/
structure Sound (s : Waits T W) : Prop where
  channel : s.channel.Sound
  calls : ∀ i w, s.calls i = some w → CallOk s.channel.inner.value w

theorem sound_new (value : T) : Sound (new value : Waits T W) :=
  ⟨Channel.sound_new value, nofun⟩

theorem CallOk.note {value value' : T} {published : Option T} {w : Wait T} (h : CallOk value w)
    (hvalue : value' = published.getD value) : CallOk value' (w.note published) := by
  rw [Wait.note]
  split
  · rename_i hphase
    intro _
    cases published with
    | none =>
      rw [hvalue]
      exact h hphase
    | some v =>
      rw [hvalue]
      refine ⟨nofun, ?_⟩
      rintro v' ⟨⟩
      rfl
  · rename_i hphase
    exact fun hmatched => absurd hmatched hphase

/-- A step for one call, on whose receiver the channel does an operation that publishes nothing. -/
theorem Sound.set (h : Sound s) {channel : Channel T W} (hchannel : channel.Sound)
    (hvalue : channel.inner.value = s.channel.inner.value) (i : ℕ) {w : Option (Wait T)}
    (hw : ∀ w', w = some w' → CallOk s.channel.inner.value w') :
    Sound ({ s with channel }.set i w) := by
  refine ⟨hchannel, fun j w' hj => ?_⟩
  show CallOk channel.inner.value w'
  rw [hvalue]
  replace hj : Function.update s.calls i w j = some w' := hj
  rw [Function.update_apply] at hj
  split at hj
  · exact hw w' hj
  · exact h.calls j w' hj

/-- A call that is not between check and return. -/
theorem callOk_of_ne {value : T} {w : Wait T} (h : w.phase ≠ .matched) : CallOk value w :=
  fun hmatched => absurd hmatched h

theorem Sound.step (h : Sound s) (hstep : s.step l = some s') : Sound s' := by
  cases l with
  | op l =>
    simp only [Waits.step] at hstep
    split at hstep
    · cases hstep
    · obtain ⟨channel, hop, heq⟩ := Option.bind_eq_some_iff.mp hstep
      cases heq
      refine ⟨h.channel.step hop, fun i w hw => ?_⟩
      obtain ⟨w₀, hw₀, rfl⟩ := Option.map_eq_some_iff.mp hw
      exact (h.calls i w₀ hw₀).note (h.channel.value_step hop)
  | waitFor i pred =>
    simp only [Waits.step] at hstep
    split at hstep
    · cases hstep
    · obtain ⟨r, -, rfl⟩ := Option.map_eq_some_iff.mp hstep
      refine h.set h.channel rfl i ?_
      rintro w ⟨⟩
      exact callOk_of_ne nofun
  | check i =>
    obtain ⟨w, hw, hrest⟩ := Option.bind_eq_some_iff.mp hstep
    dsimp only at hrest
    split at hrest
    · cases hrest
    · split at hrest
      · cases hrest
        exact h.set h.channel rfl i nofun
      · split at hrest
        · rename_i hmatched
          cases hrest
          refine h.set h.channel rfl i ?_
          rintro w' ⟨⟩ -
          exact ⟨fun _ => hmatched, nofun⟩
        · obtain ⟨channel, hop, heq⟩ := Option.bind_eq_some_iff.mp hrest
          cases heq
          refine h.set (h.channel.step hop) (h.channel.value_step hop) i ?_
          rintro w' ⟨⟩
          exact callOk_of_ne nofun
  | poll i waker =>
    obtain ⟨w, hw, hrest⟩ := Option.bind_eq_some_iff.mp hstep
    dsimp only at hrest
    split at hrest
    · cases hrest
    · obtain ⟨r, -, hrest⟩ := Option.bind_eq_some_iff.mp hrest
      obtain ⟨f, -, hrest⟩ := Option.bind_eq_some_iff.mp hrest
      obtain ⟨⟨res, polled⟩, -, hrest⟩ := Option.bind_eq_some_iff.mp hrest
      obtain ⟨channel, hop, hrest⟩ := Option.bind_eq_some_iff.mp hrest
      cases res with
      | pending =>
        cases hrest
        refine ⟨h.channel.step hop, ?_⟩
        show ∀ i w, s.calls i = some w → CallOk channel.inner.value w
        rw [h.channel.value_step hop]
        exact h.calls
      | ready res =>
        cases hrest
        refine h.set (h.channel.step hop) (h.channel.value_step hop) i ?_
        rintro w' ⟨⟩
        exact callOk_of_ne nofun
  | leave i =>
    obtain ⟨w, hw, hrest⟩ := Option.bind_eq_some_iff.mp hstep
    split at hrest
    · obtain ⟨channel, hop, heq⟩ := Option.bind_eq_some_iff.mp hrest
      cases heq
      refine h.set (h.channel.step hop) (h.channel.value_step hop) i fun w' hw' => ?_
      split at hw'
      · cases hw'
      · cases hw'
        exact callOk_of_ne nofun
    · cases hrest
    · cases hrest
    · cases hrest
  | relock i =>
    obtain ⟨w, hw, hrest⟩ := Option.bind_eq_some_iff.mp hstep
    split at hrest
    · cases hrest
    · obtain ⟨channel, hop, heq⟩ := Option.bind_eq_some_iff.mp hrest
      cases heq
      exact h.set (h.channel.step hop) (h.channel.value_step hop) i nofun
  | cancel i =>
    obtain ⟨w, hw, hrest⟩ := Option.bind_eq_some_iff.mp hstep
    split at hrest
    · cases hrest
      exact h.set h.channel rfl i nofun
    · obtain ⟨channel, hop, heq⟩ := Option.bind_eq_some_iff.mp hrest
      cases heq
      exact h.set (h.channel.step hop) (h.channel.value_step hop) i nofun
    · cases hrest
    · cases hrest

/-- A return is as it should be if and only if what was published in between is. -/
theorem satisfied_iff (h : Sound s) : s.Satisfied l ↔ s.Steady l := by
  constructor
  · rintro hsatisfied i w value rfl hw hphase hlater
    have hvalue := (h.calls i w hw hphase).2 value hlater
    refine hsatisfied w value ?_
    simp [returns, hw, hphase, hvalue]
  · intro hsteady w value hreturns
    cases l with
    | relock i =>
      obtain ⟨w', hw, hrest⟩ := Option.bind_eq_some_iff.mp hreturns
      split at hrest
      · rename_i hphase
        cases hrest
        obtain ⟨hsame, hlast⟩ := h.calls i w hw hphase
        cases hlater : w.later with
        | none => exact hsame hlater
        | some v =>
          rw [← hlast v hlater]
          exact hsteady i w v rfl hw hphase hlater
      · cases hrest
    | op l => cases hreturns
    | waitFor i pred => cases hreturns
    | check i => cases hreturns
    | poll i waker => cases hreturns
    | leave i => cases hreturns
    | cancel i => cases hreturns

/-- **`wait_for`.** In a run, every value that it returns satisfies the predicate if and only if, at
every return, what was published last since the predicate was found to hold does, if anything
was. -/
theorem satisfied_run_iff (hinit : machine.init s₀) :
    (machine.restrict Steady).Run s₀ ls s ↔ (machine.restrict Satisfied).Run s₀ ls s := by
  obtain ⟨value, rfl⟩ := hinit
  exact Machine.Run.restrict_iff (sound_new value) (fun _ _ _ hs hstep _ => hs.step hstep)
    fun _ _ _ hs _ => (satisfied_iff hs).symm

/-- A receiver waits for a value above 3, is woken by one, and returns another one above 3 that was
published in between. -/
theorem satisfied_run_iff_published : ∃ s : Waits ℕ ℕ, (machine.restrict Satisfied).Run (new 0)
    [.waitFor 0 (3 < ·), .check 0, .poll 0 7, .op (.send 4), .poll 0 7, .leave 0, .check 0,
      .op (.send 5), .relock 0] s := by
  refine ⟨_, (satisfied_run_iff ⟨0, rfl⟩).mp (.cons ⟨rfl, nofun⟩ (.cons ⟨rfl, nofun⟩
    (.cons ⟨rfl, nofun⟩ (.cons ⟨rfl, nofun⟩ (.cons ⟨rfl, nofun⟩ (.cons ⟨rfl, nofun⟩
    (.cons ⟨rfl, nofun⟩ (.cons ⟨rfl, nofun⟩ (.cons ⟨rfl, ?_⟩ .nil)))))))))⟩
  rintro i w value ⟨⟩ ⟨⟩ - ⟨⟩
  rfl

/-- The sender publishes 0 after the receiver has found 4 to be above 3, and before it takes the
mutex again. -/
theorem not_satisfied : ¬ ∀ s : Waits ℕ ℕ, machine.Reachable s → ∀ l, s.Satisfied l := by
  intro h
  obtain ⟨s, w, hfollow, hreturns, hpred⟩ : ∃ s : Waits ℕ ℕ, ∃ w, Machine.follow step
      [.op (.send 4), .waitFor 0 (3 < ·), .check 0, .op (.send 0)] (new 0) = some s ∧
      s.returns (.relock 0) = some (w, 0) ∧ w.pred 0 = false :=
    ⟨_, _, rfl, rfl, rfl⟩
  have hstart : machine.Reachable (new 0 : Waits ℕ ℕ) := .of_init ⟨0, rfl⟩
  have htrue := h s (hstart.follow hfollow) (.relock 0) w 0 hreturns
  rw [hpred] at htrue
  cases htrue

end Waits

end Lion.Watch
