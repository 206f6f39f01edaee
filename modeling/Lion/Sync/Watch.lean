import Lion.Library.Arena
import Lion.Library.Machine
import Lion.Poll
import Lion.Sync.Kernel

/-!
# The watch channel

`watch::channel` of `lion-utility`: one value behind a mutex, and a version that every publish
increments. A receiver remembers the version it has seen. A future of `changed` is ready when the
version is another one; otherwise it parks, and every publish and the drop of the sender wakes
everybody who has. Every operation holds the mutex from beginning to end, so operations are the
steps of this model.

## Who is woken

The three ways to publish differ in where the value comes from and in what they return. What they do
to the waiters is the same, `publish`, and ends in `wake_all`: the queue is emptied from its front,
and the entry of each id is taken out. Since the kernel signals only ids that are queued, no permit
is ever stored in it (`Synced.permit`). Therefore the loop of a poll has one turn, and `poll_cases`
has four cases: it is ready with a value or with an error, it refreshes its waker, or it parks.

Everything that a future of another receiver depends on is `Leaves`: its entry, whether its id is
queued, the version, the sender, and that its id is not handed out again. Polls and cancellations
leave that as it is.

## Conventions

`Channel` is the channel with what is alive around it: the sender, and receivers by number, each
with the future of `changed` it has, if any. While there is one it borrows the receiver, and only it
is used. Nothing keeps it from being polled after it has returned ready. In a result, `none` is a
panic. What is passed to `send_modify` is a function.

Some fields are not in the source, and nothing depends on them: of a receiver whether a value was
published that it has not seen; of a future whether it has returned ready, the waker of the latest
poll if that has returned pending, and the waker that was taken to be woken since.

## Main results

* `Inner.poll_cases` — what a poll of `changed` does
* `Inner.hasChanged_of_polled` — `has_changed` tells what it would do
-/

namespace Lion.Watch

variable {T W : Type}

/-! ### The kernel -/

/-- `WatchKernel`, without its ghost field. -/
structure WatchKernel where
  version : ℕ
deriving DecidableEq, Repr

/-- `WatchKernel::new`: the first version is 1. -/
def WatchKernel.new : WatchKernel := ⟨1⟩

/-- `WatchKernel::send_step`: the new version, if it fits into the counter. -/
def WatchKernel.sendStep (k : WatchKernel) : Option (ℕ × WatchKernel) := do
  let version ← succ64 k.version
  return (version, { k with version })

/-! ### The channel -/

/-- `WatchInner`, which the mutex guards, with values in `T` and wakers in `W`. -/
structure Inner (T W : Type) where
  /-- The waiters of the receivers, in the order in which they have parked. -/
  rxKernel : WaiterKernel
  /-- The value that was published last. -/
  value : T
  /-- The version of that value. -/
  wkern : WatchKernel
  /-- The wakers of the receivers that have parked, under the ids they have parked under. -/
  waiters : List (ℕ × W)
  txDropped : Bool
  /-- The id that a receiver gets when it parks next. -/
  nextId : ℕ
deriving DecidableEq, Repr

/-- `Changed`, without the receiver it borrows. -/
structure Changed where
  id : ℕ
  parked : Bool
deriving DecidableEq, Repr

namespace Inner

/-- The channel that `channel` makes, with its initial value. -/
def new (value : T) : Inner T W where
  rxKernel := .new
  value
  wkern := .new
  waiters := []
  txDropped := false
  nextId := 0

/-- The loop of `wake_all`, which ends after as many turns as there are waiters. -/
def wakeAllLoop : ℕ → Inner T W → List (ℕ × W) × Inner T W
  | 0, g => ([], g)
  | n + 1, g =>
    if 0 < g.rxKernel.queue.length then
      match g.rxKernel.signalStep with
      | some (.woke id, rxKernel) =>
        let entry := g.waiters.find? (·.1 = id)
        let (out, g) :=
          wakeAllLoop n { g with rxKernel, waiters := g.waiters.eraseP (·.1 = id) }
        (entry.toList ++ out, g)
      | some (.stored, rxKernel) => ([], { g with rxKernel })
      | none => ([], g)
    else ([], g)

/-- `wake_all`: the entries of those to wake, in the order they have parked in. -/
def wakeAll (g : Inner T W) : List (ℕ × W) × Inner T W :=
  wakeAllLoop g.rxKernel.queue.length g

/-- What the three ways to publish have in common: a new value, a new version, and whom to wake. -/
def publish (g : Inner T W) (value : T) : Option (List (ℕ × W) × Inner T W) := do
  let (_, wkern) ← g.wkern.sendStep
  return { g with value, wkern }.wakeAll

/-- `Sender::send`, which always succeeds, and whom to wake. -/
def send (g : Inner T W) (value : T) : Option (Except T Unit × List (ℕ × W) × Inner T W) := do
  let (out, g) ← g.publish value
  return (.ok (), out, g)

/-- `Sender::send_replace`: the value before, and whom to wake. -/
def sendReplace (g : Inner T W) (value : T) : Option (T × List (ℕ × W) × Inner T W) := do
  let old := g.value
  let (out, g) ← g.publish value
  return (old, out, g)

/-- `Sender::send_modify`, whose function is called under the mutex. -/
def sendModify (g : Inner T W) (f : T → T) : Option (List (ℕ × W) × Inner T W) :=
  g.publish (f g.value)

/-- `Sender::drop`: the receivers that wait are woken to find that no more will come. -/
def dropSender (g : Inner T W) : List (ℕ × W) × Inner T W := { g with txDropped := true }.wakeAll

/-- `Sender::subscribe`: the version that the new receiver has seen. -/
def subscribe (g : Inner T W) : ℕ := g.wkern.version

/-- `Receiver::borrow_and_update`: the value, and the version that the receiver has seen then. -/
def borrowAndUpdate (g : Inner T W) : T × ℕ := (g.value, g.wkern.version)

/-- `Receiver::has_changed`, of a receiver that has seen this version. Like a poll, it reports an
error only if there is nothing new. -/
def hasChanged (g : Inner T W) (seen : ℕ) : Except Unit Bool :=
  if g.txDropped && g.wkern.version = seen then .error () else .ok (g.wkern.version ≠ seen)

/-- The loop of `Changed::poll`, for a number of turns, of a receiver that has seen this version. -/
def pollLoop : ℕ → Inner T W → Changed → ℕ → W →
    Option (Poll (Except Unit Unit) × Inner T W × Changed × ℕ)
  | 0, _, _, _, _ => none
  | n + 1, g, f, seen, waker =>
    if g.wkern.version ≠ seen then some (.ready (.ok ()), g, f, g.wkern.version)
    else if g.txDropped then some (.ready (.error ()), g, f, seen)
    else if f.parked then
      let refresh := fun entry => if entry.1 = f.id then (f.id, waker) else entry
      some (.pending, { g with waiters := g.waiters.map refresh }, f, seen)
    else do
      let id := g.nextId
      let nextId ← succ64 id
      match g.rxKernel.waitStep id with
      | (.ready, rxKernel) => pollLoop n { g with nextId, rxKernel } f seen waker
      | (.park _, rxKernel) =>
        return (.pending, { g with nextId, rxKernel, waiters := g.waiters ++ [(id, waker)] },
          ⟨id, true⟩, seen)

/-- `Changed::poll`. A turn that does not end it takes a permit of the kernel. -/
def poll (g : Inner T W) (f : Changed) (seen : ℕ) (waker : W) :
    Option (Poll (Except Unit Unit) × Inner T W × Changed × ℕ) :=
  pollLoop (g.rxKernel.permit + 1) g f seen waker

/-- `Changed::drop`: if its id is still queued, the id and the waker are taken out. -/
def dropChanged (g : Inner T W) (f : Changed) : Inner T W :=
  if f.parked then
    match g.rxKernel.removeStep f.id with
    | (true, rxKernel) => { g with rxKernel, waiters := g.waiters.eraseP (·.1 = f.id) }
    | (false, rxKernel) => { g with rxKernel }
  else g

end Inner

/-! ### The channel and what is alive around it -/

/-- A future of `changed`, with what has become of it. -/
structure Future (W : Type) extends Changed where
  /-- It has returned ready, if not at its latest poll then before. -/
  finished : Bool
  /-- The waker of the latest poll, if that has returned pending. -/
  last : Option W
  /-- The waker that was taken out to be woken since. -/
  woken : Option W
deriving DecidableEq, Repr

/-- `Receiver`, with the future of `changed` it has. -/
structure Receiver (W : Type) where
  seenVersion : ℕ
  changed : Option (Future W)
  /-- A value was published that it has not seen. -/
  unseen : Bool
deriving DecidableEq, Repr

/-- The channel, and what is alive around it. -/
structure Channel (T W : Type) where
  inner : Inner T W
  /-- The sender has not been dropped. -/
  sender : Bool
  /-- The receivers by number, among them those that were dropped. -/
  receivers : Arena (Receiver W)
deriving DecidableEq, Repr

/-- The operations: the methods of `Sender`, of a receiver by its number, and of the future it has,
with the drop of each of these objects. -/
inductive Label (T W : Type)
  | send (value : T)
  | sendReplace (value : T)
  | sendModify (f : T → T)
  | dropSender
  | subscribe
  | cloneReceiver (i : ℕ)
  | dropReceiver (i : ℕ)
  | borrowAndUpdate (i : ℕ)
  | changed (i : ℕ)
  | poll (i : ℕ) (waker : W)
  | dropChanged (i : ℕ)

/-- Note which waker was taken, if one of these entries is the future's. -/
def Future.note (out : List (ℕ × W)) (f : Future W) : Future W :=
  match out.find? (·.1 = f.id) with
  | some entry => if f.parked then { f with woken := some entry.2 } else f
  | none => f

namespace Receiver

/-- A receiver that has seen this version and everything before it. -/
def new (seenVersion : ℕ) : Receiver W := ⟨seenVersion, none, false⟩

/-- Note of a receiver which waker of its future was taken. -/
def note (out : List (ℕ × W)) (r : Receiver W) : Receiver W :=
  { r with changed := r.changed.map (Future.note out) }

/-- Note that a value was published, and which waker was taken. -/
def published (out : List (ℕ × W)) (r : Receiver W) : Receiver W :=
  { r.note out with unseen := true }

end Receiver

namespace Channel

/-- The receiver number `i`, if it has no future that borrows it. -/
def free (c : Channel T W) (i : ℕ) : Option (Receiver W) :=
  (c.receivers.get i).filter fun r => r.changed.isNone

/-- One operation. `none`: it panics, or there is no object to call it on. -/
def step (c : Channel T W) : Label T W → Option (Channel T W)
  | .send value =>
    if c.sender then do
      let (_, out, inner) ← c.inner.send value
      return { c with inner, receivers := c.receivers.map (Receiver.published out) }
    else none
  | .sendReplace value =>
    if c.sender then do
      let (_, out, inner) ← c.inner.sendReplace value
      return { c with inner, receivers := c.receivers.map (Receiver.published out) }
    else none
  | .sendModify f =>
    if c.sender then do
      let (out, inner) ← c.inner.sendModify f
      return { c with inner, receivers := c.receivers.map (Receiver.published out) }
    else none
  | .dropSender =>
    if c.sender then
      let (out, inner) := c.inner.dropSender
      some ⟨inner, false, c.receivers.map (Receiver.note out)⟩
    else none
  | .subscribe =>
    if c.sender then some { c with receivers := c.receivers.add (.new c.inner.subscribe) } else none
  | .cloneReceiver i => do
    let r ← c.free i
    return { c with receivers := c.receivers.add r }
  | .dropReceiver i => do
    let _ ← c.free i
    return { c with receivers := c.receivers.put i none }
  | .borrowAndUpdate i => do
    let r ← c.free i
    let (_, seenVersion) := c.inner.borrowAndUpdate
    return { c with receivers := c.receivers.put i (some { r with seenVersion, unseen := false }) }
  | .changed i => do
    let r ← c.free i
    let f := ⟨⟨0, false⟩, false, none, none⟩
    return { c with receivers := c.receivers.put i (some { r with changed := some f }) }
  | .poll i waker => do
    let r ← c.receivers.get i
    let f ← r.changed
    let (res, inner, f', seenVersion) ← c.inner.poll f.toChanged r.seenVersion waker
    let f' := ⟨f', f.finished || res.isReady, if res.isReady then none else some waker, none⟩
    let unseen := r.unseen && !res.isOk
    return { c with inner, receivers := c.receivers.put i (some ⟨seenVersion, some f', unseen⟩) }
  | .dropChanged i => do
    let r ← c.receivers.get i
    let f ← r.changed
    return { c with
      inner := c.inner.dropChanged f.toChanged
      receivers := c.receivers.put i (some { r with changed := none }) }

/-- What `channel` returns: the sender, and a receiver that has seen the initial value. -/
def new (value : T) : Channel T W := ⟨.new value, true, Arena.empty.add (.new 1)⟩

/-- Watch channels as a machine, under calls in any order. -/
def machine : Machine (Channel T W) (Label T W) :=
  Machine.ofStep (fun c => ∃ value, c = new value) step

/-! ### What one operation does -/

variable {c c' : Channel T W} {l : Label T W}

/-- The operations with what they run, guards included. Cases are named for the labels. -/
inductive Stepped (c : Channel T W) : Label T W → Channel T W → Prop
  | send {value : T} {out : List (ℕ × W)} {inner : Inner T W} :
      c.sender = true → c.inner.publish value = some (out, inner) →
      Stepped c (.send value) { c with
        inner, receivers := c.receivers.map (Receiver.published out) }
  | sendReplace {value : T} {out : List (ℕ × W)} {inner : Inner T W} :
      c.sender = true → c.inner.publish value = some (out, inner) →
      Stepped c (.sendReplace value) { c with
        inner, receivers := c.receivers.map (Receiver.published out) }
  | sendModify {f : T → T} {out : List (ℕ × W)} {inner : Inner T W} :
      c.sender = true → c.inner.publish (f c.inner.value) = some (out, inner) →
      Stepped c (.sendModify f) { c with
        inner, receivers := c.receivers.map (Receiver.published out) }
  | dropSender : c.sender = true → Stepped c .dropSender
      ⟨c.inner.dropSender.2, false, c.receivers.map (Receiver.note c.inner.dropSender.1)⟩
  | subscribe : c.sender = true →
      Stepped c .subscribe { c with receivers := c.receivers.add (.new c.inner.subscribe) }
  | cloneReceiver {i : ℕ} {r : Receiver W} : c.free i = some r →
      Stepped c (.cloneReceiver i) { c with receivers := c.receivers.add r }
  | dropReceiver {i : ℕ} {r : Receiver W} : c.free i = some r →
      Stepped c (.dropReceiver i) { c with receivers := c.receivers.put i none }
  | borrowAndUpdate {i : ℕ} {r : Receiver W} : c.free i = some r →
      Stepped c (.borrowAndUpdate i) { c with receivers := c.receivers.put i (some { r with
        seenVersion := c.inner.borrowAndUpdate.2, unseen := false }) }
  | changed {i : ℕ} {r : Receiver W} : c.free i = some r →
      Stepped c (.changed i) { c with receivers := c.receivers.put i (some { r with
        changed := some ⟨⟨0, false⟩, false, none, none⟩ }) }
  | poll {i : ℕ} {waker : W} {r : Receiver W} {f : Future W} {res : Poll (Except Unit Unit)}
      {inner : Inner T W} {f' : Changed} {seen : ℕ} :
      c.receivers.get i = some r → r.changed = some f →
      c.inner.poll f.toChanged r.seenVersion waker = some (res, inner, f', seen) →
      Stepped c (.poll i waker) { c with
        inner
        receivers := c.receivers.put i (some ⟨seen, some ⟨f', f.finished || res.isReady,
          if res.isReady then none else some waker, none⟩, r.unseen && !res.isOk⟩) }
  | dropChanged {i : ℕ} {r : Receiver W} {f : Future W} :
      c.receivers.get i = some r → r.changed = some f →
      Stepped c (.dropChanged i) { c with
        inner := c.inner.dropChanged f.toChanged
        receivers := c.receivers.put i (some { r with changed := none }) }

/-- **One operation.** What a step can be. -/
theorem step_cases (h : c.step l = some c') : Stepped c l c' := by
  cases l with
  | send value =>
    simp only [step] at h
    split at h
    · rename_i hsender
      obtain ⟨⟨res, out, inner⟩, hsend, heq⟩ := Option.bind_eq_some_iff.mp h
      cases heq
      obtain ⟨⟨out', inner'⟩, hpub, heq⟩ := Option.bind_eq_some_iff.mp hsend
      cases heq
      exact .send hsender hpub
    · cases h
  | sendReplace value =>
    simp only [step] at h
    split at h
    · rename_i hsender
      obtain ⟨⟨old, out, inner⟩, hsend, heq⟩ := Option.bind_eq_some_iff.mp h
      cases heq
      obtain ⟨⟨out', inner'⟩, hpub, heq⟩ := Option.bind_eq_some_iff.mp hsend
      cases heq
      exact .sendReplace hsender hpub
    · cases h
  | sendModify f =>
    simp only [step] at h
    split at h
    · rename_i hsender
      obtain ⟨⟨out, inner⟩, hpub, heq⟩ := Option.bind_eq_some_iff.mp h
      cases heq
      exact .sendModify hsender hpub
    · cases h
  | dropSender =>
    simp only [step] at h
    split at h
    · rename_i hsender
      cases h
      exact .dropSender hsender
    · cases h
  | subscribe =>
    simp only [step] at h
    split at h
    · rename_i hsender
      cases h
      exact .subscribe hsender
    · cases h
  | cloneReceiver i =>
    obtain ⟨r, hfree, heq⟩ := Option.bind_eq_some_iff.mp h
    cases heq
    exact .cloneReceiver hfree
  | dropReceiver i =>
    obtain ⟨r, hfree, heq⟩ := Option.bind_eq_some_iff.mp h
    cases heq
    exact .dropReceiver hfree
  | borrowAndUpdate i =>
    obtain ⟨r, hfree, heq⟩ := Option.bind_eq_some_iff.mp h
    cases heq
    exact .borrowAndUpdate hfree
  | changed i =>
    obtain ⟨r, hfree, heq⟩ := Option.bind_eq_some_iff.mp h
    cases heq
    exact .changed hfree
  | poll i waker =>
    obtain ⟨r, hr, hrest⟩ := Option.bind_eq_some_iff.mp h
    obtain ⟨f, hf, hrest'⟩ := Option.bind_eq_some_iff.mp hrest
    obtain ⟨⟨res, inner, f', seen⟩, hpoll, heq⟩ := Option.bind_eq_some_iff.mp hrest'
    cases heq
    exact .poll hr hf hpoll
  | dropChanged i =>
    obtain ⟨r, hr, hrest⟩ := Option.bind_eq_some_iff.mp h
    obtain ⟨f, hf, heq⟩ := Option.bind_eq_some_iff.mp hrest
    cases heq
    exact .dropChanged hr hf

end Channel

/-! ### What the operations do -/

namespace Inner

variable {g g' : Inner T W} {f f' : Changed} {seen seen' : ℕ} {waker : W}
  {res : Poll (Except Unit Unit)} {out : List (ℕ × W)} {value : T}

/-- No permit is stored, and the queued ids are those with a waker. -/
structure Synced (g : Inner T W) : Prop where
  permit : g.rxKernel.permit = 0
  ids : g.waiters.map Prod.fst = g.rxKernel.queue
  nodup : g.rxKernel.queue.Nodup
  lt : ∀ id ∈ g.rxKernel.queue, id < g.nextId

theorem synced_new (value : T) : Synced (.new value : Inner T W) :=
  ⟨rfl, rfl, List.nodup_nil, by simp [Inner.new, WaiterKernel.new]⟩

theorem wakeAllLoop_eq (n : ℕ) (hids : g.waiters.map Prod.fst = g.rxKernel.queue)
    (hn : g.rxKernel.queue.length = n) :
    wakeAllLoop n g = (g.waiters, { g with
      rxKernel := { g.rxKernel with queue := [] }, waiters := [] }) := by
  induction n generalizing g with
  | zero =>
    have hqueue := List.length_eq_zero_iff.mp hn
    rw [hqueue, List.map_eq_nil_iff] at hids
    rw [wakeAllLoop, hids]
    obtain ⟨⟨permit, queue⟩, value, wkern, waiters, txDropped, nextId⟩ := g
    cases hqueue
    cases hids
    rfl
  | succ n ih =>
    obtain ⟨⟨permit, queue⟩, value, wkern, waiters, txDropped, nextId⟩ := g
    cases waiters with
    | nil =>
      cases hids
      cases hn
    | cons entry rest =>
      cases hids
      have hrest := @ih
        ⟨⟨permit, rest.map Prod.fst⟩, value, wkern, rest, txDropped, nextId⟩ rfl
        (Nat.succ.inj hn)
      rw [wakeAllLoop]
      simp [WaiterKernel.signalStep, hrest]

/-- **Everybody** who has parked is woken. -/
theorem wakeAll_eq (hids : g.waiters.map Prod.fst = g.rxKernel.queue) :
    g.wakeAll = (g.waiters, { g with
      rxKernel := { g.rxKernel with queue := [] }, waiters := [] }) :=
  wakeAllLoop_eq _ hids rfl

/-- Everybody who had parked was taken out, and nothing else has happened to the waiters. -/
structure Wakes (g : Inner T W) (out : List (ℕ × W)) (g' : Inner T W) : Prop where
  out : out = g.waiters
  rxKernel : g'.rxKernel = { g.rxKernel with queue := [] }
  waiters : g'.waiters = []
  nextId : g'.nextId = g.nextId

theorem publish_wakes (hsync : Synced g) (h : g.publish value = some (out, g')) :
    Wakes g out g' ∧ g'.wkern.version = g.wkern.version + 1 ∧ g'.txDropped = g.txDropped ∧
      g'.value = value := by
  obtain ⟨⟨version, wkern⟩, hsend, heq⟩ := Option.bind_eq_some_iff.mp h
  obtain ⟨version', hsucc, heq'⟩ := Option.bind_eq_some_iff.mp hsend
  cases heq'
  cases succ64_eq_some hsucc
  have hwake := wakeAll_eq (g := { g with value, wkern := ⟨g.wkern.version + 1⟩ }) hsync.ids
  dsimp only at heq
  rw [hwake] at heq
  cases heq
  exact ⟨⟨rfl, rfl, rfl, rfl⟩, rfl, rfl, rfl⟩

theorem dropSender_wakes (hsync : Synced g) :
    Wakes g g.dropSender.1 g.dropSender.2 ∧ g.dropSender.2.wkern = g.wkern ∧
      g.dropSender.2.txDropped = true ∧ g.dropSender.2.value = g.value := by
  have hwake := wakeAll_eq (g := { g with txDropped := true }) hsync.ids
  rw [dropSender, hwake]
  exact ⟨⟨rfl, rfl, rfl, rfl⟩, rfl, rfl, rfl⟩

/-- What a poll does: there are four cases, and the first that applies is the one. -/
inductive Polled (g : Inner T W) (f : Changed) (seen : ℕ) (waker : W) :
    Poll (Except Unit Unit) → Inner T W → Changed → ℕ → Prop
  /-- There is a version that was not seen. -/
  | changed : g.wkern.version ≠ seen → Polled g f seen waker (.ready (.ok ())) g f g.wkern.version
  /-- There is none, and there will be none. -/
  | closed : g.wkern.version = seen → g.txDropped = true →
      Polled g f seen waker (.ready (.error ())) g f seen
  /-- It has parked before, and its waker is replaced. -/
  | refreshed : g.wkern.version = seen → g.txDropped = false → f.parked = true →
      Polled g f seen waker .pending
        { g with
          waiters := g.waiters.map fun entry => if entry.1 = f.id then (f.id, waker) else entry }
        f seen
  /-- It parks under a fresh id. -/
  | parked : g.wkern.version = seen → g.txDropped = false → f.parked = false →
      Polled g f seen waker .pending
        { g with
          nextId := g.nextId + 1
          rxKernel := { g.rxKernel with queue := g.rxKernel.queue ++ [g.nextId] }
          waiters := g.waiters ++ [(g.nextId, waker)] }
        ⟨g.nextId, true⟩ seen

/-- **A poll** ends in its first turn, since no permit is stored. -/
theorem poll_cases (hpermit : g.rxKernel.permit = 0)
    (h : g.poll f seen waker = some (res, g', f', seen')) :
    Polled g f seen waker res g' f' seen' := by
  rw [poll, hpermit, pollLoop] at h
  split at h
  · rename_i hversion
    cases h
    exact .changed hversion
  · rename_i hversion
    have hversion := not_not.mp hversion
    split at h
    · rename_i hdropped
      cases h
      exact .closed hversion hdropped
    · rename_i hdropped
      have hdropped := Bool.eq_false_iff.mpr hdropped
      split at h
      · rename_i hparked
        cases h
        exact .refreshed hversion hdropped hparked
      · rename_i hparked
        have hparked := Bool.eq_false_iff.mpr hparked
        obtain ⟨nextId, hsucc, hwait⟩ := Option.bind_eq_some_iff.mp h
        cases succ64_eq_some hsucc
        have hpark : g.rxKernel.waitStep g.nextId =
            (.park g.nextId, { g.rxKernel with queue := g.rxKernel.queue ++ [g.nextId] }) := by
          rw [WaiterKernel.waitStep, if_neg (by omega)]
        rw [hpark] at hwait
        cases hwait
        exact .parked hversion hdropped hparked

/-- There is a turn for every poll, and the ids suffice. -/
theorem isSome_poll (hpermit : g.rxKernel.permit = 0) (hnext : g.nextId + 1 < UInt64.size)
    (f : Changed) (seen : ℕ) (waker : W) : (g.poll f seen waker).isSome = true := by
  rw [poll, hpermit, pollLoop]
  split
  · rfl
  · split
    · rfl
    · split
      · rfl
      · simp [WaiterKernel.waitStep, succ64, hnext, hpermit]

/-- A version that was not seen makes a poll ready. -/
theorem poll_of_ne (hversion : g.wkern.version ≠ seen) :
    g.poll f seen waker = some (.ready (.ok ()), g, f, g.wkern.version) := by
  rw [poll, pollLoop, if_pos hversion]

theorem dropChanged_eq (hsync : Synced g) (f : Changed) :
    g.dropChanged f = if f.parked then { g with
      rxKernel := { g.rxKernel with queue := g.rxKernel.queue.erase f.id }
      waiters := g.waiters.eraseP (·.1 = f.id) } else g := by
  rw [dropChanged]
  split
  · by_cases hmem : f.id ∈ g.rxKernel.queue
    · simp [WaiterKernel.removeStep, hmem]
    · have hnone : g.waiters.eraseP (·.1 = f.id) = g.waiters := by
        refine List.eraseP_of_forall_not fun entry hentry hid => hmem ?_
        rw [← hsync.ids, ← of_decide_eq_true hid]
        exact List.mem_map_of_mem hentry
      simp [WaiterKernel.removeStep, hmem, hnone]
  · rfl

/-! ### What is kept -/

theorem Synced.wakes (h : Synced g) (hwakes : Wakes g out g') : Synced g' := by
  refine ⟨?_, ?_, ?_, ?_⟩
  · rw [hwakes.rxKernel]
    exact h.permit
  · rw [hwakes.rxKernel, hwakes.waiters]
    rfl
  · rw [hwakes.rxKernel]
    exact List.nodup_nil
  · intro id hid
    rw [hwakes.rxKernel] at hid
    cases hid

theorem Synced.polled (h : Synced g) (hpoll : Polled g f seen waker res g' f' seen') :
    Synced g' := by
  cases hpoll with
  | changed => exact h
  | closed => exact h
  | refreshed =>
    refine ⟨h.permit, ?_, h.nodup, h.lt⟩
    rw [← h.ids, List.map_map]
    refine List.map_congr_left fun entry _ => ?_
    rw [Function.comp_apply]
    split
    · rename_i hid
      exact hid.symm
    · rfl
  | parked =>
    refine ⟨h.permit, ?_, ?_, ?_⟩
    · rw [List.map_append, h.ids]
      rfl
    · refine List.nodup_append.mpr ⟨h.nodup, by simp, ?_⟩
      intro id hid id' hid' heq
      rw [List.mem_singleton.mp hid'] at heq
      have hlt := h.lt id hid
      omega
    · intro id hid
      rcases List.mem_append.mp hid with hid | hid
      · exact Nat.lt_succ_of_lt (h.lt id hid)
      · rw [List.mem_singleton.mp hid]
        exact Nat.lt_succ_self _

theorem Synced.dropChanged (h : Synced g) (f : Changed) : Synced (g.dropChanged f) := by
  rw [dropChanged_eq h]
  split
  · refine ⟨h.permit, ?_, h.nodup.erase _, fun id hid => h.lt id (List.mem_of_mem_erase hid)⟩
    rw [map_fst_eraseP, h.ids]
  · exact h

/-- `g'` leaves alone who parked under this id. -/
structure Leaves (g g' : Inner T W) (id : ℕ) : Prop where
  version : g'.wkern.version = g.wkern.version
  txDropped : g'.txDropped = g.txDropped
  /-- Its id is not handed out again. -/
  next : g.nextId ≤ g'.nextId
  queue : id ∈ g'.rxKernel.queue ↔ id ∈ g.rxKernel.queue
  /-- No entry of it is made. -/
  entry : ∀ w, (id, w) ∈ g'.waiters → (id, w) ∈ g.waiters

theorem Leaves.refl (g : Inner T W) (id : ℕ) : Leaves g g id :=
  ⟨rfl, rfl, Nat.le_refl _, Iff.rfl, fun _ h => h⟩

/-- A poll of another future leaves alone who parked under an id that is not its own. -/
theorem leaves_polled (hpoll : Polled g f seen waker res g' f' seen') {id : ℕ}
    (hid : id < g.nextId) (hother : f.parked = true → id ≠ f.id) : Leaves g g' id := by
  cases hpoll with
  | changed => exact .refl g id
  | closed => exact .refl g id
  | refreshed hversion hdropped hparked =>
    refine ⟨rfl, rfl, Nat.le_refl _, Iff.rfl, fun w hw => ?_⟩
    obtain ⟨entry, hentry, heq⟩ := List.mem_map.mp hw
    split at heq
    · cases heq
      exact absurd rfl (hother hparked)
    · rw [← heq]
      exact hentry
  | parked =>
    refine ⟨rfl, rfl, Nat.le_succ _, ?_, fun w hw => ?_⟩
    · have hne : id ≠ g.nextId := Nat.ne_of_lt hid
      simp [hne]
    · rcases List.mem_append.mp hw with hw | hw
      · exact hw
      · cases List.mem_singleton.mp hw
        exact absurd hid (Nat.lt_irrefl _)

theorem leaves_dropChanged (h : Synced g) (f : Changed) {id : ℕ}
    (hother : f.parked = true → id ≠ f.id) : Leaves g (g.dropChanged f) id := by
  rw [dropChanged_eq h]
  split
  · rename_i hparked
    refine ⟨rfl, rfl, Nat.le_refl _, List.mem_erase_of_ne (hother hparked), fun w hw => ?_⟩
    exact List.mem_of_mem_eraseP hw
  · exact .refl g id

end Inner

/-- `has_changed` tells what a poll of `changed` would do. -/
theorem Inner.hasChanged_of_polled {g g' : Inner T W} {f f' : Changed} {seen seen' : ℕ} {waker : W}
    {res : Poll (Except Unit Unit)} (h : g.Polled f seen waker res g' f' seen') :
    g.hasChanged seen = match res with
      | .ready (.ok ()) => .ok true
      | .ready (.error ()) => .error ()
      | .pending => .ok false := by
  cases h with
  | changed hversion => simp [hasChanged, hversion]
  | closed hversion hdropped => simp [hasChanged, hversion, hdropped]
  | refreshed hversion hdropped => simp [hasChanged, hversion, hdropped]
  | parked hversion hdropped => simp [hasChanged, hversion, hdropped]

end Lion.Watch
