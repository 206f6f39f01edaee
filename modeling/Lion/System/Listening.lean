import Lion.Sync.BroadcastWakeup
import Lion.Sync.Closure
import Lion.Sync.Updates
import Lion.System.Primitives

/-!
# Listening to a channel

Who sends to a watch or a broadcast channel wakes everybody who has parked there, and so does the
last sender that is dropped. With the executor underneath, a task that listens is polled, however
many others do, and finds what was sent.

## One of many who wait

Unlike a mailbox, these channels have a table of wakers, and a task that listens is one of many. Its
entry is under an id that is its own. What others do in the meantime are other receivers' polls and
cancellations, clones and drops, each of which changes another entry or none. So `Awaits` is about
one receiver: it has a future that has parked, whose waker is in the table under its id, and it has
seen as much as it had then. It is kept by every step that is neither a poll nor a drop of that
future, nor a publish; and a publish calls the waker.

What the poll finds is a matter of the version, or of the cursor, and these the receiver has for
itself. It may find another value than the one it was woken for: of a watch channel the latest, and
of a broadcast channel the count of those it has missed.

## Conventions

A broadcast channel comes with the notes of `Broadcast.Channel.observed`, and is used as they allow:
while there is a future of `recv`, its receiver is not, and nobody polls it after it has returned
ready.

## Main results

* `Watch.Channel.run_polled_of_changed` — who waits for a change is polled
* `Broadcast.Channel.run_polled_of_broadcast` — who waits for the next value is polled
-/

namespace Lion

/-! ### Entries -/

section

variable {W : Type} {waiters : List (ℕ × W)} {id id' : ℕ} {w w' : W}

/-- Another entry gets a new waker, and this one stays. -/
theorem mem_refresh (hne : id ≠ id') (h : (id, w) ∈ waiters) :
    (id, w) ∈ waiters.map fun entry => if entry.1 = id' then (id', w') else entry :=
  List.mem_map.mpr ⟨_, h, if_neg hne⟩

/-- Another entry is withdrawn, and this one stays. -/
theorem mem_withdrawn (hne : id ≠ id') (h : (id, w) ∈ waiters) :
    (id, w) ∈ waiters.eraseP (·.1 = id') :=
  (List.mem_eraseP_of_neg (by simpa using hne)).mpr h

end

/-! ### Watch channels -/

namespace Watch.Channel

variable {T W : Type}

/-- The wakers that an operation on a watch channel calls. -/
def calls (c : Channel T W) : Label T W → List W
  | .send value => (c.inner.send value).elim [] fun res => res.2.1.map Prod.snd
  | .sendReplace value => (c.inner.sendReplace value).elim [] fun res => res.2.1.map Prod.snd
  | .sendModify f => (c.inner.sendModify f).elim [] fun res => res.1.map Prod.snd
  | .dropSender => c.inner.dropSender.1.map Prod.snd
  | .subscribe | .cloneReceiver _ | .dropReceiver _ | .borrowAndUpdate _ | .changed _ | .poll _ _
  | .dropChanged _ => []

/-- A watch channel, shared by its sender and its receivers. -/
def primitive (T : Type) : Primitive (Channel T TaskWaker) (Label T TaskWaker) :=
  ⟨fun c => ∃ value, c = new value, step, calls⟩

/-- Receiver number `i` has seen this version, and has a future of `changed`. -/
def Borrowed (c : Channel T W) (i seen : ℕ) (f : Changed) : Prop :=
  ∃ r f', c.receivers.get i = some r ∧ r.seenVersion = seen ∧ r.changed = some f' ∧
    f'.toChanged = f

/-- That future has parked, and left a waker. -/
def Awaits (c : Channel T W) (i seen : ℕ) (w : W) : Prop :=
  ∃ f, c.Borrowed i seen f ∧ f.parked = true ∧ (f.id, w) ∈ c.inner.waiters

/-- The future of receiver number `i` is polled or dropped. -/
def resumes (i : ℕ) : Label T W → Bool
  | .poll j _ | .dropChanged j => decide (j = i)
  | _ => false

variable {c c' : Channel T W} {l : Label T W} {w : W} {i seen : ℕ} {f : Changed}

/-- Another receiver changes, and this one does not. -/
theorem Borrowed.put (h : c.Borrowed i seen f) {j : ℕ} {r : Receiver W}
    (hj : c.receivers.get j = some r) (hne : i ≠ j) (inner : Inner T W) (o : Option (Receiver W)) :
    ({ c with inner, receivers := c.receivers.put j o } : Channel T W).Borrowed i seen f := by
  obtain ⟨r', f', hr', hrest⟩ := h
  exact ⟨r', f', by rw [Arena.get_put hj, if_neg hne, hr'], hrest⟩

/-- A receiver that has no future is another one. -/
theorem Borrowed.ne (h : c.Borrowed i seen f) {j : ℕ} {r : Receiver W} (hj : c.free j = some r) :
    i ≠ j := by
  rintro rfl
  obtain ⟨r', f', hr', -, hf', -⟩ := h
  obtain ⟨hr, hnone⟩ := free_eq_some hj
  cases hr.symm.trans hr'
  rw [hnone] at hf'
  cases hf'

/-- There is one more receiver, and this one stays. -/
theorem Borrowed.add (h : c.Borrowed i seen f) (r : Receiver W) :
    ({ c with receivers := c.receivers.add r } : Channel T W).Borrowed i seen f := by
  obtain ⟨r', f', hr', hrest⟩ := h
  exact ⟨r', f', by rw [Arena.get_add, if_neg (Nat.ne_of_lt (Arena.lt_size hr')), hr'], hrest⟩

/-- Receivers are told which wakers were taken. -/
theorem Borrowed.map (h : c.Borrowed i seen f) (inner : Inner T W) (sender : Bool)
    {out : List (ℕ × W)} {note : Receiver W → Receiver W}
    (hseen : ∀ r, (note r).seenVersion = r.seenVersion)
    (hnote : ∀ r, (note r).changed = r.changed.map (Future.note out)) :
    (⟨inner, sender, c.receivers.map note⟩ : Channel T W).Borrowed i seen f := by
  obtain ⟨r, f', hr, hversion, hf, hsame⟩ := h
  refine ⟨note r, f'.note out, by rw [Arena.get_map, hr, Option.map_some],
    (hseen r).trans hversion, by rw [hnote, hf, Option.map_some], ?_⟩
  rw [(f'.note_same out).1, hsame]

/-- **Nobody else touches a future of `changed`.** -/
theorem borrowed_step (hl : resumes i l = false) (hstep : c.step l = some c')
    (h : c.Borrowed i seen f) : c'.Borrowed i seen f := by
  cases step_cases hstep with
  | send | sendReplace | sendModify => exact h.map _ _ (fun _ => rfl) fun _ => rfl
  | dropSender => exact h.map _ _ (fun _ => rfl) fun _ => rfl
  | subscribe => exact h.add _
  | cloneReceiver => exact h.add _
  | dropReceiver hfree | borrowAndUpdate hfree | changed hfree =>
    exact h.put (free_eq_some hfree).1 (h.ne hfree) _ _
  | poll hr | dropChanged hr => exact h.put hr (Ne.symm (of_decide_eq_false hl)) _ _

/-- An operation of others leaves a waker where it is, or calls it. -/
theorem awaits_step (hsound : Sound c) (hwaits : c.Awaits i seen w) (hl : resumes i l = false)
    (hstep : c.step l = some c') : c'.Awaits i seen w ∨ w ∈ c.calls l := by
  obtain ⟨f, hf, hparked, hentry⟩ := hwaits
  have hkept := borrowed_step hl hstep hf
  have hwakes : ∀ {out inner}, c.inner.Wakes out inner → w ∈ out.map Prod.snd := by
    intro out inner hwakes
    rw [hwakes.out]
    exact List.mem_map_of_mem hentry
  have hother : ∀ {j r' f'}, j ≠ i → c.receivers.get j = some r' → r'.changed = some f' →
      f'.parked = true → f.id ≠ f'.id := by
    obtain ⟨r, f, hr, -, hf, rfl⟩ := hf
    exact fun hj hr' hf' hparked' heq =>
      hj (hsound.distinct _ _ _ _ _ _ hr' hr hf' hf hparked' hparked heq.symm)
  cases step_cases hstep with
  | send _ hpub | sendReplace _ hpub =>
    refine .inr ?_
    simp only [calls, Inner.send, Inner.sendReplace, hpub]
    exact hwakes (Inner.publish_wakes hsound.synced hpub).1
  | sendModify _ hpub =>
    refine .inr ?_
    simp only [calls, Inner.sendModify, hpub]
    exact hwakes (Inner.publish_wakes hsound.synced hpub).1
  | dropSender => exact .inr (hwakes (Inner.dropSender_wakes hsound.synced).1)
  | subscribe | cloneReceiver | dropReceiver | borrowAndUpdate | changed =>
    exact .inl ⟨f, hkept, hparked, hentry⟩
  | poll hr' hf' hpoll =>
    refine .inl ⟨f, hkept, hparked, ?_⟩
    cases Inner.poll_cases hsound.synced.permit hpoll with
    | changed | closed => exact hentry
    | refreshed _ _ hparked' =>
      exact mem_refresh (hother (of_decide_eq_false hl) hr' hf' hparked') hentry
    | parked => exact List.mem_append_left _ hentry
  | dropChanged hr' hf' =>
    refine .inl ⟨f, hkept, hparked, ?_⟩
    show (f.id, w) ∈ (c.inner.dropChanged _).waiters
    rw [Inner.dropChanged_eq hsound.synced]
    split
    · rename_i hparked'
      exact mem_withdrawn (hother (of_decide_eq_false hl) hr' hf' hparked') hentry
    · exact hentry

/-- Whoever waits for a change is called when there is one, or will be none. -/
theorem attends (i seen : ℕ) : (primitive T).Attends (Awaits · i seen) (resumes i) :=
  fun _ _ _ _ hreach hwaits hl hstep => awaits_step (sound_of_reachable hreach) hwaits hl hstep

/-- Whoever waits has seen the version, and the sender is alive. -/
theorem Awaits.idle (hsound : Sound c) (hwaits : c.Awaits i seen w) :
    c.inner.wkern.version = seen ∧ c.inner.txDropped = false := by
  obtain ⟨-, ⟨r, f, hr, rfl, hf, rfl⟩, hparked, hentry⟩ := hwaits
  refine ((hsound.receivers i r hr).changed f hf).waits hparked ?_
  rw [← hsound.synced.ids]
  exact List.mem_map_of_mem hentry

/-- A poll of `changed` is ready when there is another version, or there will be none. -/
theorem poll_of_over {g : Inner T W} (hover : g.wkern.version ≠ seen ∨ g.txDropped = true)
    (f : Changed) (waker : W) : (g.poll f seen waker).map (fun res => res.1) =
      some (.ready (if g.wkern.version ≠ seen then .ok () else .error ())) := by
  by_cases hversion : g.wkern.version ≠ seen
  · rw [Inner.poll_of_ne hversion, if_pos hversion, Option.map_some]
  · rw [Inner.poll, Inner.pollLoop, if_neg hversion, if_pos (hover.resolve_left hversion),
      if_neg hversion, Option.map_some]

variable {u m t : Users (Channel T TaskWaker)} {ls ls' : List (Users.Label (Label T TaskWaker))}
  {v : TaskWaker} {before after : List ExecutorEvent} {L : ℕ}

/-- **Who waits for a change is polled**, within `L / n + 3` ticks after a value was published, or
the sender dropped, and other threads have called its waker; and a poll of `changed` finds what it
has not seen, or an error if that is nothing. -/
theorem run_polled_of_changed (hu : (Users.machine (primitive T)).Reachable u)
    (hwaits : u.object.Awaits i seen v) (hto : (Users.machine (primitive T)).Run u ls m)
    (hkeep : ∀ l ∈ ls, l.leaves (resumes i) = false)
    (hdone : m.object.inner.wkern.version ≠ seen ∨ m.object.inner.txDropped = true)
    (hcalled : m.Called v.id) (hfrom : (Users.machine (primitive T)).Run m ls' t)
    (hm : m.log = u.log ++ before) (hlog : t.log = m.log ++ after)
    (haccepted : AcceptedIn u.log v.id) (hL : 0 < L)
    (hbound : State.QueueBound L u.log (before ++ after))
    (hticks : L ≤ u.runtime.exec.eventInterval * (ticks after - 3)) :
    Users.PolledAfterCall (primitive T) u m v (before ++ after) ∧
      ∃ f, m.object.Borrowed i seen f ∧ ∀ waker,
      (m.object.inner.poll f seen waker).map (fun res => res.1) =
        some (.ready (if m.object.inner.wkern.version ≠ seen then .ok () else .error ())) := by
  have hsound := sound_of_reachable (Users.reachable_object (hu.run hto))
  refine ⟨Users.polled_of_waits (attends i seen) hu hwaits hto hkeep (fun hidle => ?_) hcalled hfrom
    hm hlog haccepted hL hbound hticks, ?_⟩
  · obtain ⟨hversion, hdropped⟩ := hidle.idle hsound
    rcases hdone with hne | hgone
    · exact hne hversion
    · rw [hdropped] at hgone
      cases hgone
  · obtain ⟨f, hf, -, -⟩ := hwaits
    refine ⟨f, ?_, poll_of_over hdone f⟩
    exact Users.object_of_run (I := fun c => c.Borrowed i seen f)
      (fun _ _ _ hl hstep => borrowed_step hl hstep) hto hkeep hf

/-- Another thread publishes a value. -/
def otherPublishes : List (Users.Label (Label ℕ TaskWaker)) :=
  [.object false (.send 7), .wakesForeign 0, .runtime (.call 1)]

/-- A task waits for a change, and another thread publishes one. -/
theorem run_polled_of_changed_sent : ∃ u m t : Users (Channel ℕ TaskWaker), ∃ evs,
    (Users.machine (primitive ℕ)).Reachable u ∧
    (Users.machine (primitive ℕ)).Run u otherPublishes m ∧
    (Users.machine (primitive ℕ)).Run m Users.fourTicks t ∧ t.log = m.log ++ evs ∧
    1 ∈ u.polledSince evs ∧ m.object.inner.value = 7 ∧
    ∃ f, m.object.Borrowed 0 1 f ∧ ∀ waker, (m.object.inner.poll f 1 waker).map (fun res => res.1) =
      some (.ready (if m.object.inner.wkern.version ≠ 1 then .ok () else .error ())) := by
  obtain ⟨u, m, t, after, hu, hto, hfrom, ⟨hreceiver, hwaiters⟩, ⟨hversion, hvalue⟩, hm, hlog,
    haccepted, hcalled, hbound, hticks⟩ := Users.exists_of_check (primitive ℕ)
    [.object true (.changed 0), .object true (.poll 0 ⟨.task, 1⟩)] otherPublishes
    (fun u => u.object.receivers.get 0 =
      some ⟨1, some ⟨⟨0, true⟩, false, some ⟨.task, 1⟩, none⟩, false⟩ ∧
        u.object.inner.waiters = [(0, ⟨.task, 1⟩)])
    (fun m => m.object.inner.wkern.version = 2 ∧ m.object.inner.value = 7) ⟨3, rfl⟩
    (by decide +kernel)
  have hwaits : u.object.Awaits 0 1 ⟨.task, 1⟩ :=
    ⟨⟨0, true⟩, ⟨_, _, hreceiver, rfl, rfl, rfl⟩, rfl, by rw [hwaiters]; exact List.mem_cons_self⟩
  obtain ⟨hpolled, hready⟩ := run_polled_of_changed (v := ⟨.task, 1⟩) hu hwaits hto (by decide)
    (.inl (by rw [hversion]; decide)) hcalled hfrom hm hlog haccepted (by decide) hbound hticks
  exact ⟨u, m, t, after, hu, hto, hfrom, hlog, hpolled.polledSince (Users.hosts _) hu,
    hvalue, hready⟩

end Watch.Channel

/-! ### Broadcast channels -/

namespace Broadcast.Channel

variable {T W : Type}

/-- The wakers that an operation on a broadcast channel calls. -/
def calls (c : Channel T W) : Label T W → List W
  | .send value => (c.inner.send value c.handles).elim [] fun res => res.2.1
  | .dropSender => c.inner.dropSender.1
  | .cloneSender | .subscribe | .resubscribe _ | .cloneReceiver _ | .tryRecv _ | .recv _
  | .pollRecv _ _ | .dropRecv _ | .dropReceiver _ => []

/-- A broadcast channel, shared by its senders and its receivers, with notes taken. -/
def primitive (T : Type) : Primitive (Channel T TaskWaker × (ℕ → Phase)) (Label T TaskWaker) where
  init s := (∃ capacity, 0 < capacity ∧ s.1 = new capacity) ∧ s.2 = fun _ => .fresh
  step s l := if Contract s l then Machine.noting step note s l else none
  calls s := s.1.calls

/-- Receiver number `i` wants this value next, and has a future of `recv`. -/
def Borrowed (c : Channel T W) (i cursor : ℕ) (f : Recv) : Prop :=
  ∃ r, c.receiver i = some r ∧ r.nextSeq = cursor ∧ r.recv = some f

/-- That future has parked, and left a waker. -/
def Awaits (c : Channel T W) (i cursor : ℕ) (w : W) : Prop :=
  ∃ f, c.Borrowed i cursor f ∧ f.parked = true ∧ (f.id, w) ∈ c.inner.waiters

/-- The future of receiver number `i` is polled or dropped. -/
def resumes (i : ℕ) : Label T W → Bool
  | .pollRecv j _ | .dropRecv j | .dropReceiver j => decide (j = i)
  | _ => false

variable {c c' : Channel T W} {n : ℕ → Phase} {l : Label T W} {w : W} {i cursor : ℕ} {f : Recv}

/-- Another receiver changes, and this one does not. -/
theorem Borrowed.set (h : c.Borrowed i cursor f) {j : ℕ} {r : Receiver T}
    (hj : c.receiver j = some r) (hne : i ≠ j) (inner : Inner T W) (o : Option (Receiver T)) :
    ({ c with inner }.setReceiver j o).Borrowed i cursor f := by
  obtain ⟨r', hr', hrest⟩ := h
  exact ⟨r', by rw [receiver_set (c := { c with inner }) hj, if_neg hne]; exact hr', hrest⟩

/-- A receiver without a future is another one. -/
theorem Borrowed.ne (h : c.Borrowed i cursor f) {j : ℕ} {r : Receiver T}
    (hj : c.receiver j = some r) (hfree : r.recv = none) : i ≠ j := by
  rintro rfl
  obtain ⟨r', hr', -, hf⟩ := h
  cases hj.symm.trans hr'
  rw [hfree] at hf
  cases hf

/-- There is one more receiver, and this one stays. -/
theorem Borrowed.add (h : c.Borrowed i cursor f) (cursor' : ℕ) :
    (c.addReceiver cursor').Borrowed i cursor f := by
  obtain ⟨r, hr, hrest⟩ := h
  have hlt := (List.getElem?_eq_some_iff.mp (Option.join_eq_some_iff.mp hr)).1
  exact ⟨r, by rw [receiver_add, if_neg (Nat.ne_of_lt hlt), hr], hrest⟩

/-- **Nobody else touches a future of `recv`.** -/
theorem borrowed_step (hcontract : Contract (c, n) l) (hl : resumes i l = false)
    (hstep : c.step l = some c') (h : c.Borrowed i cursor f) : c'.Borrowed i cursor f := by
  cases step_cases hstep with
  | send | cloneSender | dropSender => exact h
  | subscribe | resubscribe | cloneReceiver => exact h.add _
  | tryRecv hr | recv hr => exact h.set hr (h.ne hr (hcontract.1 _ rfl _ hr)) _ _
  | pollRecv hr | dropRecv hr | dropReceiver hr =>
    exact h.set hr (Ne.symm (of_decide_eq_false hl)) _ _

/-- A future that is dropped takes its own entry only. -/
theorem mem_dropRecv {g : Inner T W} {f f' : Recv} (hother : f'.parked = true → f.id ≠ f'.id)
    (hentry : (f.id, w) ∈ g.waiters) : (f.id, w) ∈ (g.dropRecv f').waiters := by
  rw [Inner.dropRecv]
  split
  · rename_i hparked
    exact mem_withdrawn (hother hparked) hentry
  · exact hentry

/-- An operation of others leaves a waker where it is, or calls it. -/
theorem awaits_step (h : Heard c n) (hcontract : Contract (c, n) l) (hwaits : c.Awaits i cursor w)
    (hl : resumes i l = false) (hstep : c.step l = some c') :
    c'.Awaits i cursor w ∨ w ∈ c.calls l := by
  obtain ⟨f, hf, hparked, hentry⟩ := hwaits
  have hkept := borrowed_step hcontract hl hstep hf
  have hother : ∀ {j r' f'}, j ≠ i → c.receiver j = some r' → r'.recv = some f' →
      f'.parked = true → f.id ≠ f'.id := by
    obtain ⟨r, hr, -, hf⟩ := hf
    intro j r' f' hj hr' hf' hparked' heq
    exact hj (h.tickets.distinct j i f.id (mem_current.mpr ⟨r', f', hr', hf', hparked', heq.symm⟩)
      (mem_current.mpr ⟨r, f, hr, hf, hparked, rfl⟩))
  cases step_cases hstep with
  | send _ hsend =>
    rcases Inner.send_cases h.synced hsend with ⟨-, -, rfl⟩ | ⟨-, hwakers, -⟩
    · exact .inl ⟨f, hkept, hparked, hentry⟩
    · refine .inr ?_
      simp only [calls, hsend, Option.elim_some, hwakers]
      exact List.mem_map_of_mem hentry
  | cloneSender _ hclone =>
    obtain ⟨senderCount, -, heq⟩ := Option.bind_eq_some_iff.mp hclone
    cases heq
    exact .inl ⟨f, hkept, hparked, hentry⟩
  | dropSender =>
    rcases Inner.dropSender_cases h.synced with ⟨-, heq⟩ | ⟨-, hwakers, -⟩
    · refine .inl ⟨f, hkept, hparked, ?_⟩
      rw [heq]
      exact hentry
    · refine .inr ?_
      simp only [calls, hwakers]
      exact List.mem_map_of_mem hentry
  | subscribe | resubscribe | cloneReceiver | tryRecv | recv =>
    exact .inl ⟨f, hkept, hparked, hentry⟩
  | pollRecv hr' hf' hpoll =>
    refine .inl ⟨f, hkept, hparked, ?_⟩
    cases Inner.poll_cases h.synced.permit hpoll with
    | ready => exact hentry
    | refreshed _ _ hparked' =>
      exact mem_refresh (hother (of_decide_eq_false hl) hr' hf' hparked') hentry
    | parked => exact List.mem_append_left _ hentry
  | dropRecv hr' hf' =>
    exact .inl ⟨f, hkept, hparked, mem_dropRecv (hother (of_decide_eq_false hl) hr' hf') hentry⟩
  | @dropReceiver j r' hr' =>
    refine .inl ⟨f, hkept, hparked, ?_⟩
    cases hf' : r'.recv with
    | none => exact hentry
    | some f' => exact mem_dropRecv (hother (of_decide_eq_false hl) hr' hf') hentry

/-- What an operation of the shared channel is: one within the contract, with the notes it makes. -/
theorem step_primitive {s s' : Channel T TaskWaker × (ℕ → Phase)} {l : Label T TaskWaker}
    (hstep : (primitive T).step s l = some s') : Contract s l ∧ s.1.step l = some s'.1 ∧
      s'.2 = s.1.note l s.2 := by
  obtain ⟨hcontract, hnoting⟩ := Option.ite_none_right_eq_some.mp hstep
  obtain ⟨c', hnext, rfl⟩ := Option.map_eq_some_iff.mp hnoting
  exact ⟨hcontract, hnext, rfl⟩

/-- The notes are right. -/
theorem heard_of_primitive {s : Channel T TaskWaker × (ℕ → Phase)}
    (hs : (primitive T).machine.Reachable s) : Heard s.1 s.2 := by
  refine hs.invariant (I := fun s => Heard s.1 s.2) ?_ ?_
  · rintro ⟨c, n⟩ ⟨⟨capacity, hcapacity, rfl⟩, rfl⟩
    exact heard_new hcapacity
  · rintro s l s' h hstep
    obtain ⟨hcontract, hstep, hnote⟩ := step_primitive hstep
    rw [hnote]
    exact h.step hcontract hstep

/-- Whoever waits for a value is called when there is one, or will be none. -/
theorem attends (i cursor : ℕ) :
    (primitive T).Attends (fun s => s.1.Awaits i cursor) (resumes i) := by
  intro s s' l w hreach hwaits hl hstep
  obtain ⟨hcontract, hstep, -⟩ := step_primitive hstep
  exact awaits_step (heard_of_primitive hreach) hcontract hwaits hl hstep

/-- Whoever waits has got everything, and there are senders. -/
theorem Awaits.idle (h : Heard c n) (hwaits : c.Awaits i cursor w) :
    c.inner.bkern.nextSeq ≤ cursor ∧ c.inner.closed = false := by
  obtain ⟨f, ⟨r, hr, rfl, hf⟩, hparked, hentry⟩ := hwaits
  have hqueued : f.id ∈ c.inner.rxKernel.queue := by
    rw [← h.synced.ids]
    exact List.mem_map_of_mem hentry
  have hphase := h.phases i
  rw [(h.tickets.waits i).mpr
    ⟨f.id, mem_current.mpr ⟨r, f, hr, hf, hparked, rfl⟩, hqueued⟩] at hphase
  obtain ⟨r', -, hr', -, -, hidle⟩ := hphase
  cases hr.symm.trans hr'
  exact hidle

/-- A poll of `recv` returns what `try_recv` does when there is a value, or will be none. -/
theorem poll_of_over (hsound : Sound c) {r : Receiver T} (hr : c.receiver i = some r)
    (hover : r.nextSeq < c.inner.bkern.nextSeq ∨ c.inner.closed = true) :
    ∃ res, (c.inner.tryRecv r.nextSeq).map (fun res => res.1) = some res ∧ ∀ f waker,
      (c.inner.pollRecv f r.nextSeq waker).map (fun res => res.1) = some (.ready res) := by
  simp only [Inner.tryRecv, Inner.pollRecv, Inner.pollRecvLoop]
  rcases hsound.ring.next_cases (hsound.receivers i r hr).cursor_le with
    ⟨n, hnext, -⟩ | ⟨value, hnext, -⟩ | hnext
  · exact ⟨.error (.lagged n), by rw [hnext]; rfl, fun f waker => by rw [hnext]; rfl⟩
  · exact ⟨.ok value, by rw [hnext]; rfl, fun f waker => by rw [hnext]; rfl⟩
  · have hclosed : c.inner.closed = true := by
      have hle := (Inner.next_none hnext).2
      exact hover.resolve_left (Nat.not_lt.mpr hle)
    refine ⟨.error .closed, by rw [hnext]; rfl, fun f waker => ?_⟩
    simp [hnext, hclosed]

variable {u m t : Users (Channel T TaskWaker × (ℕ → Phase))}
  {ls ls' : List (Users.Label (Label T TaskWaker))} {v : TaskWaker}
  {before after : List ExecutorEvent} {L : ℕ}

/-- **Who waits for the next value is polled**, within `L / n + 3` ticks after it was sent, or the
last sender dropped, and other threads have called its waker; and a poll of `recv` returns what
`try_recv` does. -/
theorem run_polled_of_broadcast (hu : (Users.machine (primitive T)).Reachable u)
    (hwaits : u.object.1.Awaits i cursor v) (hto : (Users.machine (primitive T)).Run u ls m)
    (hkeep : ∀ l ∈ ls, l.leaves (resumes i) = false)
    (hdone : cursor < m.object.1.inner.bkern.nextSeq ∨ m.object.1.inner.closed = true)
    (hcalled : m.Called v.id) (hfrom : (Users.machine (primitive T)).Run m ls' t)
    (hm : m.log = u.log ++ before) (hlog : t.log = m.log ++ after)
    (haccepted : AcceptedIn u.log v.id) (hL : 0 < L)
    (hbound : State.QueueBound L u.log (before ++ after))
    (hticks : L ≤ u.runtime.exec.eventInterval * (ticks after - 3)) :
    Users.PolledAfterCall (primitive T) u m v (before ++ after) ∧
      ∃ f res, m.object.1.Borrowed i cursor f ∧
      (m.object.1.inner.tryRecv cursor).map (fun res => res.1) = some res ∧ ∀ waker,
        (m.object.1.inner.pollRecv f cursor waker).map (fun res => res.1) = some (.ready res) := by
  have hheard := heard_of_primitive (Users.reachable_object (hu.run hto))
  refine ⟨Users.polled_of_waits (attends i cursor) hu hwaits hto hkeep (fun hidle => ?_) hcalled
    hfrom hm hlog haccepted hL hbound hticks, ?_⟩
  · obtain ⟨hle, hopen⟩ := hidle.idle hheard
    rcases hdone with hlt | hclosed
    · exact Nat.not_lt.mpr hle hlt
    · rw [hopen] at hclosed
      cases hclosed
  · obtain ⟨f, hf, -, -⟩ := hwaits
    have hkept : m.object.1.Borrowed i cursor f := by
      refine Users.object_of_run (I := fun s => s.1.Borrowed i cursor f) ?_ hto hkeep hf
      intro s s' l hl hstep hs
      obtain ⟨hcontract, hstep, -⟩ := step_primitive hstep
      exact borrowed_step hcontract hl hstep hs
    obtain ⟨r, hr, rfl, hfuture⟩ := hkept
    obtain ⟨res, htry, hpoll⟩ := poll_of_over hheard.sound hr hdone
    exact ⟨f, res, ⟨r, hr, rfl, hfuture⟩, htry, hpoll f⟩

/-- Another thread sends a value. -/
def otherSends : List (Users.Label (Label ℕ TaskWaker)) :=
  [.object false (.send 7), .wakesForeign 0, .runtime (.call 1)]

/-- A task waits for the next value, and another thread sends it. -/
theorem run_polled_of_broadcast_one : ∃ u m t : Users (Channel ℕ TaskWaker × (ℕ → Phase)), ∃ evs,
    (Users.machine (primitive ℕ)).Reachable u ∧ (Users.machine (primitive ℕ)).Run u otherSends m ∧
    (Users.machine (primitive ℕ)).Run m Users.fourTicks t ∧ t.log = m.log ++ evs ∧
    1 ∈ u.polledSince evs ∧ m.object.1.sent = [7] ∧ ∃ f res, m.object.1.Borrowed 0 0 f ∧
      (m.object.1.inner.tryRecv 0).map (fun res => res.1) = some res ∧ ∀ waker,
        (m.object.1.inner.pollRecv f 0 waker).map (fun res => res.1) = some (.ready res) := by
  obtain ⟨u, m, t, after, hu, hto, hfrom, ⟨hreceiver, hwaiters⟩, ⟨hnext, hsent⟩, hm, hlog,
    haccepted, hcalled, hbound, hticks⟩ := Users.exists_of_check (primitive ℕ)
    [.object true (.recv 0), .object true (.pollRecv 0 ⟨.task, 1⟩)] otherSends
    (fun u => u.object.1.receiver 0 = some ⟨0, some ⟨0, true⟩, 0, [], 0⟩ ∧
      u.object.1.inner.waiters = [(0, ⟨.task, 1⟩)])
    (fun m => m.object.1.inner.bkern.nextSeq = 1 ∧ m.object.1.sent = [7])
    (o := (new 2, fun _ => .fresh)) ⟨⟨2, by decide, rfl⟩, rfl⟩ (by decide +kernel)
  have hwaits : u.object.1.Awaits 0 0 ⟨.task, 1⟩ :=
    ⟨⟨0, true⟩, ⟨_, hreceiver, rfl, rfl⟩, rfl, by rw [hwaiters]; exact List.mem_cons_self⟩
  obtain ⟨hpolled, hready⟩ := run_polled_of_broadcast (v := ⟨.task, 1⟩) hu hwaits hto (by decide)
    (.inl (by rw [hnext]; decide)) hcalled hfrom hm hlog haccepted (by decide) hbound hticks
  exact ⟨u, m, t, after, hu, hto, hfrom, hlog, hpolled.polledSince (Users.hosts _) hu,
    hsent, hready⟩

end Broadcast.Channel

end Lion
