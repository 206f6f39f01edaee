import Lion.Sync.Watch

/-!
# No update is missed

A receiver that waits for a change is woken by the next one. While it is parked there is nothing it
has not seen, since a publish takes everybody out of the queue as it changes the version; and once
it was taken out its next poll is ready. Ids are never used twice, so that neither polls nor
cancellations of other receivers touch its entry.

## The invariant

Of the channel alone it says that kernel and table are in step (`Synced`) and that the flag of the
sender is right. Of a receiver it says that it has not seen more than there is, and that the note
`unseen` is what its version tells (`Receiver.Ok`). The heart of it is `FutureOk`, on a future that
has parked: while its id is queued there is nothing new and its entry has the waker of its latest
poll; when its id is not queued any more, there is something to return.

A poll sees to the second, and so does a publish, which makes the version another one for everybody
and takes everybody out. What one receiver does leaves the others alone, by `Leaves`; that their ids
differ from its own is `distinct`.

## Main results

* `Channel.reachable_neverMisses` — who is parked has seen everything, and the sender is alive; a
  publish that was not seen makes `changed` ready at once
-/

namespace Lion.Watch

variable {T W : Type}

/-- A note of who was woken changes nothing of the future but the note. -/
theorem Future.note_same (f : Future W) (out : List (ℕ × W)) :
    (f.note out).toChanged = f.toChanged ∧ (f.note out).finished = f.finished ∧
      (f.note out).last = f.last := by
  rw [Future.note]
  split
  · split <;> exact ⟨rfl, rfl, rfl⟩
  · exact ⟨rfl, rfl, rfl⟩

namespace Receiver

/-- What holds of a future of a receiver that has seen this version. -/
structure FutureOk (g : Inner T W) (seen : ℕ) (f : Future W) : Prop where
  lt : f.parked = true → f.id < g.nextId
  /-- While it is queued there is nothing new, and the sender is alive. -/
  waits : f.parked = true → f.id ∈ g.rxKernel.queue →
    g.wkern.version = seen ∧ g.txDropped = false
  /-- Its waker is the one of the latest poll. -/
  entry : f.parked = true → ∀ w, (f.id, w) ∈ g.waiters → f.last = some w
  /-- If it is not queued any more, the next poll is ready. -/
  left : f.finished = false → f.parked = true → f.id ∉ g.rxKernel.queue →
    g.wkern.version ≠ seen ∨ g.txDropped = true
  /-- The latest poll, if it has returned pending, left its waker. -/
  last : f.finished = false → ∀ w, f.last = some w → f.parked = true ∧
    (f.id ∈ g.rxKernel.queue ∨ f.woken = some w)

/-- What holds of a receiver, where `g` is what the mutex guards. -/
structure Ok (g : Inner T W) (r : Receiver W) : Prop where
  /-- It has not seen what is yet to come. -/
  le : r.seenVersion ≤ g.wkern.version
  /-- Its version is the current one if it has seen everything. -/
  unseen : r.unseen = true ↔ g.wkern.version ≠ r.seenVersion
  changed : ∀ f, r.changed = some f → FutureOk g r.seenVersion f

variable {g g' : Inner T W} {f : Future W} {seen : ℕ} {out : List (ℕ × W)} {r : Receiver W}

theorem FutureOk.leaves (h : FutureOk g seen f)
    (hleaves : f.parked = true → g.Leaves g' f.id) : FutureOk g' seen f := by
  refine ⟨fun hp => ?_, fun hp hq => ?_, fun hp w hw => ?_, fun hfin hp hq => ?_,
    fun hfin w hw => ?_⟩
  · exact Nat.lt_of_lt_of_le (h.lt hp) (hleaves hp).next
  · rw [(hleaves hp).version, (hleaves hp).txDropped]
    exact h.waits hp ((hleaves hp).queue.mp hq)
  · exact h.entry hp w ((hleaves hp).entry w hw)
  · rw [(hleaves hp).version, (hleaves hp).txDropped]
    exact h.left hfin hp fun hmem => hq ((hleaves hp).queue.mpr hmem)
  · obtain ⟨hp, hcase⟩ := h.last hfin w hw
    rw [(hleaves hp).queue]
    exact ⟨hp, hcase⟩

/-- An id with an entry is queued. -/
theorem mem_queue (hsync : g.Synced) {id : ℕ} {w : W} (hmem : (id, w) ∈ g.waiters) :
    id ∈ g.rxKernel.queue := by
  rw [← hsync.ids]
  exact List.mem_map_of_mem hmem

/-- What holds of a future holds after its own poll, of the version that the receiver has seen
then. -/
theorem FutureOk.polled (h : FutureOk g seen f) (hsync : g.Synced) {waker : W}
    {res : Poll (Except Unit Unit)} {f' : Changed} {seen' : ℕ}
    (hpoll : g.Polled f.toChanged seen waker res g' f' seen') :
    FutureOk g' seen' ⟨f', f.finished || res.isReady,
      if res.isReady then none else some waker, none⟩ := by
  cases hpoll with
  | changed hversion =>
    have hidle : f.parked = true → f.id ∉ g.rxKernel.queue := fun hp hq =>
      hversion (h.waits hp hq).1
    refine ⟨h.lt, fun hp hq => absurd hq (hidle hp), fun hp w hw => ?_, ?_, ?_⟩
    · exact absurd (mem_queue hsync hw) (hidle hp)
    · simp [Poll.isReady]
    · simp [Poll.isReady]
  | closed hversion hdropped =>
    have hidle : f.parked = true → f.id ∉ g.rxKernel.queue := by
      intro hp hq
      rw [(h.waits hp hq).2] at hdropped
      cases hdropped
    refine ⟨h.lt, fun hp hq => absurd hq (hidle hp), fun hp w hw => ?_, ?_, ?_⟩
    · exact absurd (mem_queue hsync hw) (hidle hp)
    · simp [Poll.isReady]
    · simp [Poll.isReady]
  | refreshed hversion hdropped hparked =>
    refine ⟨h.lt, fun _ _ => ⟨hversion, hdropped⟩, fun _ w hw => ?_, fun hfin hp hq => ?_,
      fun hfin w hw => ?_⟩
    · obtain ⟨entry, -, heq⟩ := List.mem_map.mp hw
      split at heq
      · cases heq
        rfl
      · rename_i hne
        rw [heq] at hne
        exact absurd rfl hne
    · rw [Poll.isReady, Bool.or_false] at hfin
      exact h.left hfin hp hq
    · rw [Poll.isReady, Bool.or_false] at hfin
      refine ⟨hparked, .inl ?_⟩
      -- otherwise the poll would have been ready
      by_contra hq
      rcases h.left hfin hparked hq with hnews | hgone
      · exact hnews hversion
      · rw [hdropped] at hgone
        cases hgone
  | parked hversion hdropped hparked =>
    have hqueued : g.nextId ∈ g.rxKernel.queue ++ [g.nextId] :=
      List.mem_append_right _ List.mem_cons_self
    refine ⟨fun _ => Nat.lt_succ_self _, fun _ _ => ⟨hversion, hdropped⟩, fun _ w hw => ?_,
      fun _ _ hq => absurd hqueued hq, fun _ w _ => ⟨rfl, .inl hqueued⟩⟩
    rcases List.mem_append.mp hw with hw | hw
    · exact absurd (hsync.lt _ (mem_queue hsync hw)) (Nat.lt_irrefl _)
    · cases List.mem_singleton.mp hw
      rfl

/-- Waking everybody. The future's waker, if it waits, is the one of its latest poll. -/
theorem FutureOk.note (h : FutureOk g seen f) (hsync : g.Synced) (hwakes : g.Wakes out g')
    (hnews : g'.wkern.version ≠ seen ∨ g'.txDropped = true) : FutureOk g' seen (f.note out) := by
  obtain ⟨hchanged, hfinished, hlast⟩ := f.note_same out
  have hqueue : ∀ id, id ∉ g'.rxKernel.queue := by
    intro id
    rw [hwakes.rxKernel]
    exact List.not_mem_nil
  refine ⟨?_, ?_, ?_, ?_, ?_⟩
  · rw [hchanged, hwakes.nextId]
    exact h.lt
  · intro _ hmem
    exact absurd hmem (hqueue _)
  · intro _ w hw
    rw [hwakes.waiters] at hw
    cases hw
  · exact fun _ _ _ => hnews
  · rw [hchanged, hfinished, hlast]
    intro hfin w hw
    obtain ⟨hparked, hcase⟩ := h.last hfin w hw
    refine ⟨hparked, .inr ?_⟩
    rw [Future.note, hwakes.out]
    cases hfind : g.waiters.find? (·.1 = f.id) with
    | some entry =>
      have hid : entry.1 = f.id := by simpa using List.find?_some hfind
      have hmem : (f.id, entry.2) ∈ g.waiters := by
        rw [← hid]
        exact List.mem_of_find?_eq_some hfind
      have hentry := h.entry hparked entry.2 hmem
      rw [hw] at hentry
      cases hentry
      rw [hparked]
      rfl
    | none =>
      rcases hcase with hqueued | hwoken
      · rw [← hsync.ids] at hqueued
        obtain ⟨entry, hentry, hid⟩ := List.mem_map.mp hqueued
        have hnone := List.find?_eq_none.mp hfind entry hentry
        simp [hid] at hnone
      · exact hwoken

theorem Ok.leaves (h : Ok g r) (hversion : g'.wkern = g.wkern)
    (hleaves : ∀ f, r.changed = some f → f.parked = true → g.Leaves g' f.id) : Ok g' r := by
  refine ⟨?_, ?_, fun f hf => (h.changed f hf).leaves (hleaves f hf)⟩
  · rw [hversion]
    exact h.le
  · rw [hversion]
    exact h.unseen

end Receiver

/-! ### Runs -/

namespace Channel

variable {c c' : Channel T W} {l : Label T W}

/-- **Nothing is missed**, by any of the receivers of a channel. -/
structure NeverMisses (c : Channel T W) : Prop where
  /-- Who is parked has seen the current version, the sender is alive, and the waker of the latest
  poll is registered. -/
  parked : ∀ i r f, c.receivers.get i = some r → r.changed = some f → f.parked = true →
    f.id ∈ c.inner.rxKernel.queue → c.inner.wkern.version = r.seenVersion ∧ c.sender = true ∧
      ∃ w, f.last = some w ∧ (f.id, w) ∈ c.inner.waiters
  /-- A future whose latest poll has returned pending is parked, or that poll's waker was woken. -/
  pending : ∀ i r f w, c.receivers.get i = some r → r.changed = some f → f.finished = false →
    f.last = some w → f.parked = true ∧ (f.id ∈ c.inner.rxKernel.queue ∨ f.woken = some w)
  /-- A publish wakes everybody who is parked, -/
  publish : ∀ value out inner, c.inner.publish value = some (out, inner) → out = c.inner.waiters
  /-- and so does the drop of the sender. -/
  drop : c.inner.dropSender.1 = c.inner.waiters
  /-- A publish that was not seen makes `changed` ready at once. -/
  ready : ∀ i r, c.receivers.get i = some r → r.unseen = true → ∀ (f : Changed) waker,
    ∃ seen, c.inner.poll f r.seenVersion waker = some (.ready (.ok ()), c.inner, f, seen)
  /-- `changed` reports an error if the sender was dropped and everything was seen. -/
  error : ∀ i r, c.receivers.get i = some r → ∀ (f : Changed) waker inner f' seen,
    c.inner.poll f r.seenVersion waker = some (.ready (.error ()), inner, f', seen) →
      c.sender = false ∧ r.unseen = false
  /-- Polls end, unless the ids run out. -/
  ends : ∀ f seen waker, c.inner.nextId + 1 < UInt64.size →
    (c.inner.poll f seen waker).isSome = true

/-- What holds of a channel in every run, for no update to be missed. -/
structure Sound (c : Channel T W) : Prop where
  synced : c.inner.Synced
  sender : c.inner.txDropped = !c.sender
  receivers : c.receivers.All (Receiver.Ok c.inner)
  /-- No two futures have parked under one id. -/
  distinct : ∀ i j r r' f f', c.receivers.get i = some r → c.receivers.get j = some r' →
    r.changed = some f → r'.changed = some f' → f.parked = true → f'.parked = true →
      f.id = f'.id → i = j

theorem Sound.neverMisses (h : Sound c) : c.NeverMisses := by
  refine ⟨fun i r f hr hf hp hq => ?_, fun i r f w hr hf hfin hw => ?_,
    fun value out inner hpub => ?_, ?_, fun i r hr hunseen f waker => ?_,
    fun i r hr f waker inner f' seen hpoll => ?_, fun f seen waker hnext => ?_⟩
  · have hok := (h.receivers i r hr).changed f hf
    obtain ⟨hversion, hdropped⟩ := hok.waits hp hq
    rw [h.sender, Bool.not_eq_false'] at hdropped
    rw [← h.synced.ids] at hq
    obtain ⟨⟨id, w⟩, hmem, rfl⟩ := List.mem_map.mp hq
    exact ⟨hversion, hdropped, w, hok.entry hp w hmem, hmem⟩
  · exact ((h.receivers i r hr).changed f hf).last hfin w hw
  · exact (Inner.publish_wakes h.synced hpub).1.out
  · exact (Inner.dropSender_wakes h.synced).1.out
  · have hne := (h.receivers i r hr).unseen.mp hunseen
    exact ⟨_, Inner.poll_of_ne hne⟩
  · cases Inner.poll_cases h.synced.permit hpoll with
    | closed hversion hdropped =>
      rw [h.sender, Bool.not_eq_true'] at hdropped
      refine ⟨hdropped, Bool.eq_false_iff.mpr fun hunseen => ?_⟩
      exact (h.receivers i r hr).unseen.mp hunseen hversion
  · exact Inner.isSome_poll h.synced.permit hnext f seen waker

theorem sound_new (value : T) : Sound (new value : Channel T W) := by
  have hget : ∀ i r, (new value : Channel T W).receivers.get i = some r → r = .new 1 := by
    intro i r hr
    rw [new, Arena.get_add] at hr
    split at hr
    · cases hr
      rfl
    · cases hr
  refine ⟨Inner.synced_new value, rfl, fun i r hr => ?_, ?_⟩
  · rw [hget i r hr]
    exact ⟨Nat.le_refl _, by simp [Receiver.new, new, Inner.new, WatchKernel.new], nofun⟩
  · intro i j r r' f f' hr _ hf
    rw [hget i r hr] at hf
    cases hf

/-- Everybody was woken, and every receiver told so. -/
theorem Sound.wakes (h : Sound c) {out : List (ℕ × W)} {inner : Inner T W} {sender : Bool}
    {f : Receiver W → Receiver W} (hwakes : c.inner.Wakes out inner)
    (hsender : inner.txDropped = !sender)
    (hf : ∀ r, (f r).changed = r.changed.map (Future.note out))
    (hok : ∀ i r, c.receivers.get i = some r → (f r).Ok inner) :
    Sound ⟨inner, sender, c.receivers.map f⟩ := by
  refine ⟨h.synced.wakes hwakes, hsender, fun i r hr => ?_, ?_⟩
  · rw [Arena.get_map] at hr
    obtain ⟨r₀, hr₀, rfl⟩ := Option.map_eq_some_iff.mp hr
    exact hok i r₀ hr₀
  · intro i j r r' f₁ f₂ hr hr' hf₁ hf₂ hp hp' hid
    rw [Arena.get_map] at hr hr'
    obtain ⟨r₀, hr₀, rfl⟩ := Option.map_eq_some_iff.mp hr
    obtain ⟨r₀', hr₀', rfl⟩ := Option.map_eq_some_iff.mp hr'
    rw [hf] at hf₁ hf₂
    obtain ⟨g₁, hg₁, rfl⟩ := Option.map_eq_some_iff.mp hf₁
    obtain ⟨g₂, hg₂, rfl⟩ := Option.map_eq_some_iff.mp hf₂
    rw [(g₁.note_same out).1] at hp hid
    rw [(g₂.note_same out).1] at hp' hid
    exact h.distinct i j r₀ r₀' g₁ g₂ hr₀ hr₀' hg₁ hg₂ hp hp' hid

theorem Sound.publish (h : Sound c) {value : T} {out : List (ℕ × W)} {inner : Inner T W}
    (hpub : c.inner.publish value = some (out, inner)) :
    Sound { c with inner, receivers := c.receivers.map (Receiver.published out) } := by
  obtain ⟨hwakes, hversion, hdropped, -⟩ := Inner.publish_wakes h.synced hpub
  refine h.wakes hwakes (hdropped.trans h.sender) (fun r => rfl) fun i r hr => ?_
  have hr := h.receivers i r hr
  have hne : inner.wkern.version ≠ r.seenVersion := by
    have hle := hr.le
    omega
  refine ⟨?_, iff_of_true rfl hne, fun f hf => ?_⟩
  · have hle := hr.le
    show r.seenVersion ≤ inner.wkern.version
    omega
  · obtain ⟨f₀, hf₀, rfl⟩ := Option.map_eq_some_iff.mp hf
    exact (hr.changed f₀ hf₀).note h.synced hwakes (.inl hne)

theorem Sound.dropSender (h : Sound c) :
    Sound ⟨c.inner.dropSender.2, false, c.receivers.map (Receiver.note c.inner.dropSender.1)⟩ := by
  obtain ⟨hwakes, hversion, hdropped, -⟩ := Inner.dropSender_wakes h.synced
  refine h.wakes hwakes hdropped (fun r => rfl) fun i r hr => ?_
  have hr := h.receivers i r hr
  refine ⟨?_, ?_, fun f hf => ?_⟩
  · rw [hversion]
    exact hr.le
  · rw [hversion]
    exact hr.unseen
  · obtain ⟨f₀, hf₀, rfl⟩ := Option.map_eq_some_iff.mp hf
    exact (hr.changed f₀ hf₀).note h.synced hwakes (.inr hdropped)

/-- One more receiver, which has no future. -/
theorem Sound.add (h : Sound c) {r : Receiver W} (hok : r.Ok c.inner) (hfree : r.changed = none) :
    Sound { c with receivers := c.receivers.add r } := by
  have hold : ∀ {i r' f}, (c.receivers.add r).get i = some r' → r'.changed = some f →
      c.receivers.get i = some r' := by
    intro i r' f hr' hf
    rw [Arena.get_add] at hr'
    split at hr'
    · cases hr'
      rw [hfree] at hf
      cases hf
    · exact hr'
  refine ⟨h.synced, h.sender, h.receivers.add hok, ?_⟩
  intro i j r₁ r₂ f₁ f₂ hr₁ hr₂ hf₁ hf₂
  exact h.distinct i j r₁ r₂ f₁ f₂ (hold hr₁ hf₁) (hold hr₂ hf₂) hf₁ hf₂

/-- One receiver changes, or goes, and the others are left alone. -/
theorem Sound.change (h : Sound c) {i : ℕ} {r : Receiver W} (hi : c.receivers.get i = some r)
    {inner : Inner T W} {new : Option (Receiver W)} (hsync : inner.Synced)
    (hversion : inner.wkern = c.inner.wkern) (hdropped : inner.txDropped = c.inner.txDropped)
    (hothers : ∀ id, id < c.inner.nextId →
      (∀ f, r.changed = some f → f.parked = true → id ≠ f.id) → c.inner.Leaves inner id)
    (hok : ∀ r', new = some r' → r'.Ok inner)
    (hid : ∀ r' f', new = some r' → r'.changed = some f' → f'.parked = true →
      (∃ f, r.changed = some f ∧ f.parked = true ∧ f'.id = f.id) ∨ f'.id = c.inner.nextId) :
    Sound { c with inner, receivers := c.receivers.put i new } := by
  have hapart : ∀ {j r₁ f₁ r₂ f₂}, j ≠ i → c.receivers.get j = some r₁ → r₁.changed = some f₁ →
      f₁.parked = true → new = some r₂ → r₂.changed = some f₂ → f₂.parked = true →
      f₁.id ≠ f₂.id := by
    intro j r₁ f₁ r₂ f₂ hj hr₁ hf₁ hp₁ hr₂ hf₂ hp₂ heq
    rcases hid r₂ f₂ hr₂ hf₂ hp₂ with ⟨f, hf, hp, hsame⟩ | hnew
    · exact hj (h.distinct j i r₁ r f₁ f hr₁ hi hf₁ hf hp₁ hp (heq.trans hsame))
    · have hlt := ((h.receivers j r₁ hr₁).changed f₁ hf₁).lt hp₁
      omega
  refine ⟨hsync, hdropped.trans h.sender, fun j r' hr' => ?_, ?_⟩
  · rw [Arena.get_put hi] at hr'
    split at hr'
    · exact hok r' hr'
    · rename_i hj
      have hr := h.receivers j r' hr'
      refine hr.leaves hversion fun f hf hp => hothers f.id ((hr.changed f hf).lt hp) ?_
      intro f₀ hf₀ hp₀ heq
      exact hj (h.distinct j i r' r f f₀ hr' hi hf hf₀ hp hp₀ heq)
  · intro j k r₁ r₂ f₁ f₂ hr₁ hr₂ hf₁ hf₂ hp₁ hp₂ heq
    rw [Arena.get_put hi] at hr₁ hr₂
    split at hr₁
    · rename_i hj
      split at hr₂
      · rename_i hk
        exact hj.trans hk.symm
      · rename_i hk
        exact absurd heq.symm (hapart hk hr₂ hf₂ hp₂ hr₁ hf₁ hp₁)
    · rename_i hj
      split at hr₂
      · exact absurd heq (hapart hj hr₁ hf₁ hp₁ hr₂ hf₂ hp₂)
      · exact h.distinct j k r₁ r₂ f₁ f₂ hr₁ hr₂ hf₁ hf₂ hp₁ hp₂ heq

theorem free_eq_some {i : ℕ} {r : Receiver W} (h : c.free i = some r) :
    c.receivers.get i = some r ∧ r.changed = none := by
  obtain ⟨hget, hfree⟩ := Option.filter_eq_some_iff.mp h
  exact ⟨hget, Option.isNone_iff_eq_none.mp hfree⟩

/-- A receiver that has no future changes. -/
theorem Sound.change_free (h : Sound c) {i : ℕ} {r : Receiver W} (hfree : c.free i = some r)
    {new : Option (Receiver W)} (hok : ∀ r', new = some r' → r'.Ok c.inner)
    (hid : ∀ r' f', new = some r' → r'.changed = some f' → f'.parked = false) :
    Sound { c with receivers := c.receivers.put i new } := by
  refine h.change (free_eq_some hfree).1 h.synced rfl rfl (fun id _ _ => .refl c.inner id) hok ?_
  intro r' f' hr' hf' hp
  rw [hid r' f' hr' hf'] at hp
  cases hp

/-- A poll of `changed` keeps the invariant: it is its own affair. -/
theorem Sound.polled (h : Sound c) {i : ℕ} {r : Receiver W} {f : Future W}
    (hr : c.receivers.get i = some r) (hf : r.changed = some f) {waker : W}
    {res : Poll (Except Unit Unit)} {inner : Inner T W} {f' : Changed} {seen : ℕ}
    (hpoll : c.inner.Polled f.toChanged r.seenVersion waker res inner f' seen) :
    Sound { c with
      inner
      receivers := c.receivers.put i (some ⟨seen, some ⟨f', f.finished || res.isReady,
        if res.isReady then none else some waker, none⟩, r.unseen && !res.isOk⟩) } := by
  have hok := h.receivers i r hr
  have hsame : inner.wkern = c.inner.wkern ∧ inner.txDropped = c.inner.txDropped := by
    cases hpoll <;> exact ⟨rfl, rfl⟩
  refine h.change hr (h.synced.polled hpoll) hsame.1 hsame.2 ?_ ?_ ?_
  · intro id hid hother
    exact Inner.leaves_polled hpoll hid (hother f hf)
  · rintro r' ⟨⟩
    have hle := hok.le
    have hunseen := hok.unseen
    refine ⟨?_, ?_, ?_⟩
    · cases hpoll with
      | changed => exact Nat.le_refl _
      | closed => exact hle
      | refreshed => exact hle
      | parked => exact hle
    · cases hpoll with
      | changed => simp [Poll.isOk, Except.isOk, Except.toBool]
      | closed => simpa [Poll.isOk, Except.isOk, Except.toBool] using hunseen
      | refreshed => simpa [Poll.isOk] using hunseen
      | parked => simpa [Poll.isOk] using hunseen
    · rintro f₁ ⟨⟩
      exact (hok.changed f hf).polled h.synced hpoll
  · rintro r' f₁ ⟨⟩ ⟨⟩ hp
    cases hpoll with
    | changed => exact .inl ⟨f, hf, hp, rfl⟩
    | closed => exact .inl ⟨f, hf, hp, rfl⟩
    | refreshed => exact .inl ⟨f, hf, hp, rfl⟩
    | parked => exact .inr rfl

/-- `changed` is cancelled, which keeps the invariant. -/
theorem Sound.dropChanged (h : Sound c) {i : ℕ} {r : Receiver W} {f : Future W}
    (hr : c.receivers.get i = some r) (hf : r.changed = some f) :
    Sound { c with
      inner := c.inner.dropChanged f.toChanged
      receivers := c.receivers.put i (some { r with changed := none }) } := by
  have hok := h.receivers i r hr
  have hsame : (c.inner.dropChanged f.toChanged).wkern = c.inner.wkern ∧
      (c.inner.dropChanged f.toChanged).txDropped = c.inner.txDropped := by
    rw [Inner.dropChanged_eq h.synced]
    split <;> exact ⟨rfl, rfl⟩
  refine h.change hr (h.synced.dropChanged _) hsame.1 hsame.2 ?_ ?_ ?_
  · intro id _ hother
    exact Inner.leaves_dropChanged h.synced _ (hother f hf)
  · rintro r' ⟨⟩
    refine ⟨?_, ?_, nofun⟩
    · rw [hsame.1]
      exact hok.le
    · rw [hsame.1]
      exact hok.unseen
  · rintro r' f' ⟨⟩ ⟨⟩

theorem Sound.step (h : Sound c) (hstep : c.step l = some c') : Sound c' := by
  cases step_cases hstep with
  | send _ hpub => exact h.publish hpub
  | sendReplace _ hpub => exact h.publish hpub
  | sendModify _ hpub => exact h.publish hpub
  | dropSender => exact h.dropSender
  | subscribe =>
    exact h.add ⟨Nat.le_refl _, by simp [Receiver.new, Inner.subscribe], nofun⟩ rfl
  | cloneReceiver hfree =>
    obtain ⟨hr, hnone⟩ := free_eq_some hfree
    exact h.add (h.receivers _ _ hr) hnone
  | dropReceiver hfree => exact h.change_free hfree nofun nofun
  | borrowAndUpdate hfree =>
    obtain ⟨hr, hnone⟩ := free_eq_some hfree
    refine h.change_free hfree ?_ ?_
    · rintro r' ⟨⟩
      refine ⟨Nat.le_refl _, by simp [Inner.borrowAndUpdate], fun f hf => ?_⟩
      rw [hnone] at hf
      cases hf
    · rintro r' f' ⟨⟩ hf'
      rw [hnone] at hf'
      cases hf'
  | changed hfree =>
    obtain ⟨hr, -⟩ := free_eq_some hfree
    have hok := h.receivers _ _ hr
    refine h.change_free hfree ?_ ?_
    · rintro r' ⟨⟩
      refine ⟨hok.le, hok.unseen, ?_⟩
      rintro f ⟨⟩
      exact ⟨nofun, nofun, nofun, nofun, nofun⟩
    · rintro r' f' ⟨⟩ ⟨⟩
      rfl
  | poll hr hf hpoll => exact h.polled hr hf (Inner.poll_cases h.synced.permit hpoll)
  | dropChanged hr hf => exact h.dropChanged hr hf

theorem sound_of_reachable (h : machine.Reachable c) : Sound c := by
  refine h.invariant ?_ ?_
  · rintro c ⟨value, rfl⟩
    exact sound_new value
  · intro c l c' hc hstep
    exact hc.step hstep

/-- **No update is missed.** In every run, a future of `changed` that is parked belongs to a
receiver that has seen the current version, while the sender is alive, and every publish and the
drop of the sender wakes it; one that has returned pending and is not parked any more was woken; a
publish that the receiver has not seen makes every poll ready; and an error means that there is
neither a sender nor anything unseen. -/
theorem reachable_neverMisses (h : machine.Reachable c) : c.NeverMisses :=
  (sound_of_reachable h).neverMisses

/-- One receiver has seen the second value and waits; the other has not. -/
theorem reachable_neverMisses_parked : ∃ c : Channel ℕ ℕ, machine.Reachable c ∧
    c.inner.waiters = [(0, 8)] ∧ (c.receivers.get 0).map Receiver.unseen = some true ∧
    c.NeverMisses := by
  have hstart : machine.Reachable (new 4 : Channel ℕ ℕ) := .of_init ⟨4, rfl⟩
  obtain ⟨c, hfollow, hwaiters, hunseen⟩ : ∃ c : Channel ℕ ℕ, Machine.follow step
      [.subscribe, .send 5, .borrowAndUpdate 1, .changed 1, .poll 1 8] (new 4) = some c ∧
      c.inner.waiters = [(0, 8)] ∧ (c.receivers.get 0).map Receiver.unseen = some true :=
    ⟨_, rfl, rfl, rfl⟩
  have hreach := hstart.follow hfollow
  exact ⟨c, hreach, hwaiters, hunseen, reachable_neverMisses hreach⟩

end Channel

end Lion.Watch
