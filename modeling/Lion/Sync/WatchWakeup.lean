import Lion.Library.Tickets
import Lion.Sync.Updates

/-!
# Who waits at a watch channel

A future of `changed` that returns pending has parked under an id, and is queued under it until it
is cancelled or everybody is woken. A future that is queued has nothing to return, and one that was
taken out has; so no poll returns ready and leaves its id behind, and none finds itself parked and
forgotten.

## Tickets

The ids are tickets: drawn in order, never twice, and in the queue exactly while their owner waits.
What one operation does to them is one of a few things (a ticket is drawn, one is given back, all
are called in), and the library has the lemma for each. Here it is shown which one an operation is.
That a receiver which waits cannot find its poll ready, and one which was woken cannot find it
pending, comes from `Sound`: both depend on the version, and on nothing that another receiver could
take away.

A future that is polled after it has returned ready may take itself for parked under an id that is
not queued any more, and return pending. `Fresh` leaves that out.

## Main definitions

* `Channel.Waits` — the latest poll has returned pending, and its waker was not taken since

## Main results

* `Channel.ticketed_of_reachable` — who waits is who is queued
-/

namespace Lion.Watch

variable {T W : Type}

/-- The receiver whose future is polled. -/
def Label.polled : Label T W → Option ℕ
  | .poll i _ => some i
  | _ => none

namespace Channel

variable {c c' : Channel T W} {l : Label T W} {i : ℕ} {r : Receiver W}

/-- No future is polled after it has returned ready. -/
def Fresh (c : Channel T W) (l : Label T W) : Prop :=
  ∀ i ∈ l.polled, ∀ r ∈ c.receivers.get i, ∀ f ∈ r.changed, f.finished = false

instance (c : Channel T W) (l : Label T W) : Decidable (c.Fresh l) :=
  inferInstanceAs (Decidable
    (∀ i ∈ l.polled, ∀ r ∈ c.receivers.get i, ∀ f ∈ r.changed, f.finished = false))

/-- The id that the future of receiver number `i` has parked under, if it has. -/
def current (c : Channel T W) (i : ℕ) : Option ℕ :=
  (c.receivers.get i).bind fun r => r.changed.bind fun f => if f.parked then some f.id else none

/-- The latest poll of the future of receiver number `i` has returned pending, and its waker was not
taken since. -/
def Waits (c : Channel T W) (i : ℕ) : Prop :=
  ∃ r f, c.receivers.get i = some r ∧ r.changed = some f ∧ f.last ≠ none ∧ f.woken = none

theorem mem_current {id : ℕ} : id ∈ c.current i ↔
    ∃ r f, c.receivers.get i = some r ∧ r.changed = some f ∧ f.parked = true ∧ f.id = id := by
  simp only [current, Option.mem_def, Option.bind_eq_some_iff, Option.ite_none_right_eq_some,
    Option.some.injEq, exists_and_left]

theorem current_put (hi : c.receivers.get i = some r) (inner : Inner T W)
    (o : Option (Receiver W)) (j : ℕ) :
    ({ c with inner, receivers := c.receivers.put i o } : Channel T W).current j =
      if j = i then o.bind fun r => r.changed.bind fun f => if f.parked then some f.id else none
      else c.current j := by
  rw [current, Arena.get_put hi]
  split <;> rfl

theorem waits_put (hi : c.receivers.get i = some r) (inner : Inner T W)
    (o : Option (Receiver W)) (j : ℕ) :
    ({ c with inner, receivers := c.receivers.put i o } : Channel T W).Waits j ↔
      if j = i then ∃ r f, o = some r ∧ r.changed = some f ∧ f.last ≠ none ∧ f.woken = none
      else c.Waits j := by
  rw [Waits, Arena.get_put hi]
  split <;> rfl

/-- Who waits is who is queued, and under the ticket that was drawn last. -/
def Ticketed (c : Channel T W) : Prop :=
  Tickets c.inner.rxKernel.queue c.inner.nextId c.current c.Waits

/-- Everybody is woken, and nobody waits. -/
theorem Ticketed.wakes (h : Ticketed c) (hsync : c.inner.Synced) {out : List (ℕ × W)}
    {inner : Inner T W} (hwakes : c.inner.Wakes out inner) (sender : Bool)
    {note : Receiver W → Receiver W}
    (hnote : ∀ r, (note r).changed = r.changed.map (Future.note out)) :
    Ticketed ⟨inner, sender, c.receivers.map note⟩ := by
  rw [Ticketed, hwakes.rxKernel, hwakes.nextId]
  refine Tickets.clear h (fun j => ?_) fun j => ?_
  · rw [current, Arena.get_map, current]
    cases c.receivers.get j with
    | none => rfl
    | some r =>
      rw [Option.map_some, Option.bind_some, hnote, Option.bind_some]
      cases r.changed with
      | none => rfl
      | some f =>
        rw [Option.map_some, Option.bind_some, Option.bind_some, (f.note_same out).1]
  · rintro ⟨r', f', hr', hf', hlast, hwoken⟩
    rw [Arena.get_map] at hr'
    obtain ⟨r, hr, rfl⟩ := Option.map_eq_some_iff.mp hr'
    rw [hnote] at hf'
    obtain ⟨f, hf, rfl⟩ := Option.map_eq_some_iff.mp hf'
    rw [(f.note_same out).2.2] at hlast
    -- it was not woken before, so it was queued, and its waker is taken now
    have hbefore : f.woken = none := by
      rw [Future.note] at hwoken
      split at hwoken
      · split at hwoken
        · cases hwoken
        · exact hwoken
      · exact hwoken
    have hwaits : c.Waits j := ⟨r, f, hr, hf, hlast, hbefore⟩
    obtain ⟨id, hid, hqueued⟩ := (Tickets.waits h j).mp hwaits
    obtain ⟨r₁, f₁, hr₁, hf₁, hparked, rfl⟩ := mem_current.mp hid
    rw [hr] at hr₁
    cases hr₁
    rw [hf] at hf₁
    cases hf₁
    rw [← hsync.ids, ← hwakes.out] at hqueued
    obtain ⟨entry, hentry, heq⟩ := List.mem_map.mp hqueued
    cases hfind : out.find? (·.1 = f.id) with
    | none =>
      have hnone := List.find?_eq_none.mp hfind entry hentry
      exact hnone (decide_eq_true heq)
    | some entry =>
      rw [Future.note, hfind] at hwoken
      dsimp only at hwoken
      rw [if_pos hparked] at hwoken
      cases hwoken

/-- The id of a receiver stays, and so does whether its future waits. -/
theorem Ticketed.set (h : Ticketed c) (hr : c.receivers.get i = some r) {inner : Inner T W}
    (hqueue : inner.rxKernel.queue = c.inner.rxKernel.queue) (hnext : inner.nextId = c.inner.nextId)
    {o : Option (Receiver W)}
    (hid : (o.bind fun r => r.changed.bind fun f => if f.parked then some f.id else none) =
      c.current i)
    (hwaits : (∃ r f, o = some r ∧ r.changed = some f ∧ f.last ≠ none ∧ f.woken = none) ↔
      c.Waits i) :
    Ticketed { c with inner, receivers := c.receivers.put i o } := by
  rw [Ticketed, hqueue, hnext]
  refine Tickets.congr h (fun j => ?_) fun j => ?_
  · rw [current_put hr]
    split
    · rename_i hj
      rw [hj, hid]
    · rfl
  · rw [waits_put hr]
    split
    · rename_i hj
      rw [hj, hwaits]
    · rfl

/-- A receiver changes that has no future. -/
theorem Ticketed.change_free (h : Ticketed c) (hfree : c.free i = some r)
    {o : Option (Receiver W)}
    (hnew : ∀ r' f', o = some r' → r'.changed = some f' → f'.parked = false ∧ f'.last = none) :
    Ticketed { c with receivers := c.receivers.put i o } := by
  obtain ⟨hr, hnone⟩ := free_eq_some hfree
  refine h.set hr rfl rfl ?_ (iff_of_false ?_ ?_)
  · rw [current, hr, Option.bind_some, hnone, Option.bind_none]
    cases ho : o with
    | none => rfl
    | some r' =>
      cases hf' : r'.changed with
      | none => rw [Option.bind_some, hf', Option.bind_none]
      | some f' =>
        have hparked := (hnew r' f' ho hf').1
        rw [Option.bind_some, hf', Option.bind_some, hparked]
        rfl
  · rintro ⟨r', f', ho, hf', hlast, -⟩
    exact hlast (hnew r' f' ho hf').2
  · rintro ⟨r', f', hr', hf', -⟩
    rw [hr] at hr'
    cases hr'
    rw [hnone] at hf'
    cases hf'

/-- One more receiver, which has no future. -/
theorem Ticketed.add (h : Ticketed c) (hnone : r.changed = none) :
    Ticketed { c with receivers := c.receivers.add r } := by
  have hsize : c.receivers.get c.receivers.size = none := by
    rw [Option.eq_none_iff_forall_ne_some]
    intro r' hr'
    exact absurd (Arena.lt_size hr') (Nat.lt_irrefl _)
  refine Tickets.congr h (fun j => ?_) fun j => ?_
  · rw [current, Arena.get_add]
    split
    · rename_i hj
      rw [hj, current, hsize, Option.bind_some, hnone]
      rfl
    · rfl
  · rw [Waits, Arena.get_add]
    split
    · rename_i hj
      rw [hj]
      refine iff_of_false ?_ ?_
      · rintro ⟨r', f', hr', hf', -⟩
        cases hr'
        rw [hnone] at hf'
        cases hf'
      · rintro ⟨r', f', hr', -⟩
        rw [hsize] at hr'
        cases hr'
    · rfl

/-- A future that does not wait returns ready. -/
theorem Ticketed.settled (h : Ticketed c) (hr : c.receivers.get i = some r) {f : Future W}
    (hf : r.changed = some f) (hidle : ¬ c.Waits i) (seen : ℕ) (finished unseen : Bool) :
    Ticketed { c with receivers := c.receivers.put i (some ⟨seen,
      some ⟨f.toChanged, finished, none, none⟩, unseen⟩) } := by
  refine h.set hr rfl rfl ?_ (iff_of_false ?_ hidle)
  · rw [current, hr, Option.bind_some, Option.bind_some, Option.bind_some, hf]
    rfl
  · rintro ⟨r', f', ⟨⟩, ⟨⟩, hne, -⟩
    exact hne rfl

/-- A poll of `changed` keeps it: it draws a ticket, keeps the one it has, or never had one. -/
theorem Ticketed.polled (h : Ticketed c) (hsound : Sound c) {f : Future W}
    (hr : c.receivers.get i = some r) (hf : r.changed = some f) (hfresh : f.finished = false)
    {waker : W} {res : Poll (Except Unit Unit)} {inner : Inner T W} {f' : Changed} {seen : ℕ}
    (hpoll : c.inner.Polled f.toChanged r.seenVersion waker res inner f' seen) (unseen : Bool) :
    Ticketed { c with
      inner
      receivers := c.receivers.put i (some ⟨seen, some ⟨f', f.finished || res.isReady,
        if res.isReady then none else some waker, none⟩, unseen⟩) } := by
  have hok := (hsound.receivers i r hr).changed f hf
  have hcurrent : c.current i = if f.parked then some f.id else none := by
    rw [current, hr, Option.bind_some, hf, Option.bind_some]
  have hqueued : c.Waits i → f.parked = true ∧ f.id ∈ c.inner.rxKernel.queue := by
    intro hwaits
    obtain ⟨id, hid, hq⟩ := (Tickets.waits h i).mp hwaits
    rw [hcurrent, Option.mem_def] at hid
    split at hid
    · rename_i hparked
      cases hid
      exact ⟨hparked, hq⟩
    · cases hid
  cases hpoll with
  | changed hversion =>
    refine h.settled hr hf (fun hwaits => ?_) _ _ _
    obtain ⟨hparked, hq⟩ := hqueued hwaits
    exact hversion (hok.waits hparked hq).1
  | closed hversion hdropped =>
    refine h.settled hr hf (fun hwaits => ?_) _ _ _
    obtain ⟨hparked, hq⟩ := hqueued hwaits
    rw [(hok.waits hparked hq).2] at hdropped
    cases hdropped
  | refreshed hversion hdropped hparked =>
    have hq : f.id ∈ c.inner.rxKernel.queue := by
      by_contra hq
      rcases hok.left hfresh hparked hq with hnews | hgone
      · exact hnews hversion
      · rw [hdropped] at hgone
        cases hgone
    have hwaits : c.Waits i := by
      refine (Tickets.waits h i).mpr ⟨f.id, ?_, hq⟩
      rw [hcurrent, if_pos hparked]
      rfl
    refine h.set hr rfl rfl ?_ (iff_of_true ⟨_, _, rfl, rfl, by simp [Poll.isReady], rfl⟩ hwaits)
    rw [hcurrent]
    rfl
  | parked hversion hdropped hparked =>
    have hidle : ¬ c.Waits i := by
      intro hwaits
      have hp : f.parked = true := (hqueued hwaits).1
      rw [hparked] at hp
      cases hp
    refine Tickets.arrive h hidle ?_ (fun j hj => ?_) fun j => ?_
    · rw [current_put hr, if_pos rfl]
      rfl
    · rw [current_put hr, if_neg hj]
    · rw [waits_put hr]
      split
      · rename_i hj
        exact iff_of_true ⟨_, _, rfl, rfl, by simp [Poll.isReady], rfl⟩ (.inl hj)
      · rename_i hj
        exact ⟨.inr, fun hor => hor.resolve_left hj⟩

/-- `changed` is cancelled, and its ticket given back. -/
theorem Ticketed.dropChanged (h : Ticketed c) (hsync : c.inner.Synced) {f : Future W}
    (hr : c.receivers.get i = some r) (hf : r.changed = some f) :
    Ticketed { c with
      inner := c.inner.dropChanged f.toChanged
      receivers := c.receivers.put i (some { r with changed := none }) } := by
  have hqueue : (c.inner.dropChanged f.toChanged).rxKernel.queue =
      (c.current i).elim c.inner.rxKernel.queue c.inner.rxKernel.queue.erase := by
    rw [Inner.dropChanged_eq hsync, current, hr, Option.bind_some, hf, Option.bind_some]
    split <;> rfl
  have hnext : (c.inner.dropChanged f.toChanged).nextId = c.inner.nextId := by
    rw [Inner.dropChanged_eq hsync]
    split <;> rfl
  rw [Ticketed, hqueue, hnext]
  refine Tickets.leave h (i := i) ?_ (fun j hj => ?_) fun j => ?_
  · rw [current_put hr, if_pos rfl]
    rfl
  · rw [current_put hr, if_neg hj]
  · rw [waits_put hr]
    split
    · rename_i hj
      refine iff_of_false ?_ fun hboth => hboth.1 hj
      rintro ⟨r', f', ⟨⟩, hf', -⟩
      cases hf'
    · rename_i hj
      exact ⟨fun hwaits => ⟨hj, hwaits⟩, And.right⟩

theorem Ticketed.publish (h : Ticketed c) (hsync : c.inner.Synced) {value : T}
    {out : List (ℕ × W)} {inner : Inner T W} (hpub : c.inner.publish value = some (out, inner)) :
    Ticketed { c with inner, receivers := c.receivers.map (Receiver.published out) } :=
  h.wakes hsync (Inner.publish_wakes hsync hpub).1 c.sender fun _ => rfl

/-- **One operation** keeps it, if it is not a poll of a future that has returned ready. -/
theorem Ticketed.step (h : Ticketed c) (hsound : Sound c) (hfresh : c.Fresh l)
    (hstep : c.step l = some c') : Ticketed c' := by
  have hsync := hsound.synced
  cases step_cases hstep with
  | send _ hpub => exact h.publish hsync hpub
  | sendReplace _ hpub => exact h.publish hsync hpub
  | sendModify _ hpub => exact h.publish hsync hpub
  | dropSender => exact h.wakes hsync (Inner.dropSender_wakes hsync).1 false fun _ => rfl
  | subscribe => exact h.add rfl
  | cloneReceiver hfree => exact h.add (free_eq_some hfree).2
  | dropReceiver hfree => exact h.change_free hfree (by simp)
  | borrowAndUpdate hfree =>
    refine h.change_free hfree ?_
    rintro r' f' ⟨⟩ hf'
    rw [(free_eq_some hfree).2] at hf'
    cases hf'
  | changed hfree =>
    refine h.change_free hfree ?_
    rintro r' f' ⟨⟩ ⟨⟩
    exact ⟨rfl, rfl⟩
  | @poll i waker r f res inner f' seen hr hf hpoll =>
    exact h.polled hsound hr hf (hfresh i rfl r hr f hf) (Inner.poll_cases hsync.permit hpoll) _
  | dropChanged hr hf => exact h.dropChanged hsync hr hf

theorem ticketed_new (value : T) : Ticketed (new value : Channel T W) := by
  have hnone : ∀ i r, (new value : Channel T W).receivers.get i = some r → r.changed = none := by
    intro i r hr
    rw [new, Arena.get_add] at hr
    split at hr
    · cases hr
      rfl
    · cases hr
  refine (Tickets.empty 0).congr (fun i => ?_) fun i => iff_of_false ?_ id
  · rw [Option.eq_none_iff_forall_not_mem]
    intro id hid
    obtain ⟨r, f, hr, hf, -⟩ := mem_current.mp hid
    rw [hnone i r hr] at hf
    cases hf
  · rintro ⟨r, f, hr, hf, -⟩
    rw [hnone i r hr] at hf
    cases hf

theorem ticketed_of_reachable (h : (machine.restrict Fresh).Reachable c) : Ticketed c := by
  suffices hall : Sound c ∧ Ticketed c from hall.2
  refine h.invariant (I := fun c => Sound c ∧ Ticketed c) ?_ ?_
  · rintro c ⟨value, rfl⟩
    exact ⟨sound_new value, ticketed_new value⟩
  · rintro c l c' ⟨hsound, htickets⟩ ⟨hstep, hfresh⟩
    exact ⟨hsound.step hstep, htickets.step hsound hfresh hstep⟩

end Channel

end Lion.Watch
