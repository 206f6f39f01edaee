import Lion.Library.Arena
import Lion.Time.Sleep

/-!
# Sleeps and their timers

Any number of `Sleep` futures on the thread of one reactor. They are made, polled, reset and dropped
in any order, the reactor parks in between, and other things on the thread register and deregister
I/O resources. Timers are registered by the futures only.

The futures and the reactor stay in step (`Sleepers.Tracked`). A timer belongs to the future that
holds its id. It belongs to nobody if its deregistration is put off; and until the reactor parks for
the first time, polls go by the real clock, so that a future may find its deadline passed while its
timer is still there, and forget about it. The first park takes care of that.

## One future at a time

Every operation of a future is about one slot of the slab besides those that are swept: the slot of
the timer that it gives up or registers. `Change` says what has happened to that slot, to the future
and to the mark, and `Tracked.change` derives from it everything that `Tracked` says of all the
others. The operations then have only their own slot to look at. Two of them are enough, giving up a
timer (`Tracked.disarm`) and registering one (`Tracked.arm`), as a poll before the deadline is the
one and then the other.

The third kind of step is a park, which wakes what is due. What a future is owed then is `Prompted`:
its timer is there with the waker of its latest poll, or some park since that poll has called it.

## Conventions

`clock` is the latest reading of the real clock, which does not go back. `wakes` are the wakers that
parks have called so far, each with the instant the park has settled on; they are read off the log
of the reactor. A future comes with the waker of its latest poll, if its latest operation was a poll
that returned pending, and with the number of wakes by then.

## Main results

* `Sleepers.Tracked.change` — one future changes, and everything else stays in step
* `Sleepers.reachable_tracked` — a future that waits has its timer, or its waker has been called
-/

namespace Lion

/-- A `Sleep`, with a note of its latest poll. -/
structure Sleeper (W : Type*) where
  /-- The kernel, which is all there is in the source. -/
  kernel : SleepKernel
  /-- The waker of the latest operation, if that was a poll that returned pending. -/
  last : Option W
  /-- How many wakes there were by then. -/
  since : ℕ

/-- A waker that was called by a park, and what for. -/
structure Wake (W : Type*) where
  /-- The instant the park settled on. -/
  instant : UInt64
  waker : W
  /-- The resource on behalf of which it was called. -/
  rid : UInt64

/-- A reactor, and the futures on its thread. -/
structure Sleepers (W : Type*) where
  reactor : Reactor W
  sleeps : Arena (Sleeper W)
  /-- The latest reading of the clock, which later readings are not before. -/
  clock : UInt64
  /-- The wakes so far, in the order in which they were made. -/
  wakes : List (Wake W)

namespace Sleepers

variable {W : Type*}

/-- The wakes among the calls of a park. -/
def wakesOf (instant : UInt64) (calls : List (OutboundCall W)) : List (Wake W) :=
  calls.filterMap fun
    | .wakeTask waker rid => some ⟨instant, waker, rid⟩
    | _ => none

/-- An operation on I/O resources that the reactor permits. -/
def permitsIo (r : Reactor W) : Reactor.Op W → Bool
  | .registerIoResource _ _ => true
  | .deregisterIoResource rid _ => (Reactor.timerSlot r.resources rid).isNone
  | .setWaker _ _ _ => true
  | _ => false

/-- What happens on the thread, in the words of the source: `Sleep::new`, `Sleep::poll`,
`Sleep::reset` and `Sleep::drop` of a future, a park of the executor, and operations on I/O
resources. -/
inductive Label (W : Type*)
  | new (deadline : UInt64)
  /-- `Sleep::poll`, with the reading of the clock at that time. -/
  | poll (i : ℕ) (waker : W) (raw : UInt64)
  | reset (i : ℕ) (deadline : UInt64)
  | drop (i : ℕ)
  | park (timeout : Option UInt64) (raw : UInt64) (poll : Except IoError (List MioEvent))
  /-- An operation on I/O resources. -/
  | io (op : Reactor.Op W)

/-- `Sleep::poll` of future number `i`, which notes the waker if it returns pending. -/
def poll (s : Sleepers W) (i : ℕ) (waker : W) (raw : UInt64) : Option (Sleepers W) := do
  let f ← s.sleeps.get i
  let (action, kernel, reactor) := Sleep.poll f.kernel s.reactor waker raw
  let last := if action = .suspend then some waker else none
  return { s with
    reactor, clock := raw, sleeps := s.sleeps.put i (some ⟨kernel, last, s.wakes.length⟩) }

/-- `Sleep::reset` of future number `i`, after which nobody waits. -/
def reset (s : Sleepers W) (i : ℕ) (deadline : UInt64) : Option (Sleepers W) := do
  let f ← s.sleeps.get i
  let (kernel, reactor) := Sleep.reset f.kernel s.reactor deadline
  return { s with reactor, sleeps := s.sleeps.put i (some ⟨kernel, none, s.wakes.length⟩) }

/-- `Sleep::drop` of future number `i`, which is gone afterwards. -/
def drop (s : Sleepers W) (i : ℕ) : Option (Sleepers W) := do
  let f ← s.sleeps.get i
  let (_, reactor) := Sleep.drop f.kernel s.reactor
  return { s with reactor, sleeps := s.sleeps.put i none }

/-- `Executor::park_action`: deregistrations that were put off are made up for, and the reactor
parks. -/
def park (s : Sleepers W) (timeout : Option UInt64) (raw : UInt64)
    (poll : Except IoError (List MioEvent)) : Option (Sleepers W) := do
  let r := s.reactor.flushPendingDeregister
  let (_, reactor) ← r.park timeout raw poll
  return { s with
    reactor
    clock := raw
    wakes := s.wakes ++ wakesOf (r.getCurrentTime raw).1 (reactor.log.drop r.log.length) }

/-- One operation. `none`: it panics, there is nothing to call it on, or the clock goes back. -/
def step (s : Sleepers W) : Label W → Option (Sleepers W)
  | .new deadline => some { s with sleeps := s.sleeps.add ⟨.new deadline, none, s.wakes.length⟩ }
  | .poll i waker raw => if s.clock ≤ raw then s.poll i waker raw else none
  | .reset i deadline => s.reset i deadline
  | .drop i => s.drop i
  | .park timeout raw poll => if s.clock ≤ raw then s.park timeout raw poll else none
  | .io op =>
    if permitsIo s.reactor op then (s.reactor.call op).map fun reactor => { s with reactor }
    else none

/-- A new reactor. Another one may have been on the thread before, and left its clock behind. -/
def new (cachedNow : Option UInt64) (clock : UInt64) : Sleepers W :=
  ⟨{ Reactor.new with cachedNow }, .empty, clock, []⟩

/-- Sleeps as a machine, on a new reactor and a thread that may have a clock from before. -/
def machine : Machine (Sleepers W) (Label W) :=
  Machine.ofStep (fun s => ∃ cachedNow clock, s = new cachedNow clock) step

/-! ### What holds throughout -/

/-- The timer is there, with this waker; or a park since then has called it, at an instant that is
not before the deadline. -/
def Prompted (s : Sleepers W) (f : Sleeper W) (rid : UInt64) (waker : W) : Prop :=
  (∃ e, Reactor.timerSlot s.reactor.resources rid = some (e, waker)) ∨
    ∃ k ∈ s.wakes.drop f.since, k.waker = waker ∧ k.rid = rid ∧ f.kernel.deadline ≤ k.instant

/-- The futures and the reactor are in step: every timer is accounted for, and so is every
promise. -/
structure Tracked (s : Sleepers W) : Prop extends s.reactor.Kept where
  /-- Once there is a cached clock, timers are ahead of it. -/
  ahead : ∀ now, s.reactor.cachedNow = some now → ∀ rid t,
    Reactor.timerSlot s.reactor.resources rid = some t → now < t.1.deadline
  /-- The id that a future holds was handed out and is not marked, and if there is such a timer it
  has the future's deadline. -/
  held : ∀ i f rid, s.sleeps.get i = some f → f.kernel.rid = some rid →
    rid < s.reactor.nextResourceId ∧ ¬ s.reactor.Marked rid ∧
    ∀ t, Reactor.timerSlot s.reactor.resources rid = some t → t.1.deadline = f.kernel.deadline
  /-- No two futures hold the same id. -/
  apart : ∀ i j f g rid, s.sleeps.get i = some f → s.sleeps.get j = some g →
    f.kernel.rid = some rid → g.kernel.rid = some rid → i = j
  /-- A timer is held by a future, marked, or forgotten. -/
  owned : ∀ rid t, Reactor.timerSlot s.reactor.resources rid = some t →
    (∃ i f, s.sleeps.get i = some f ∧ f.kernel.rid = some rid) ∨ s.reactor.Marked rid ∨
      (s.reactor.cachedNow = none ∧ t.1.deadline ≤ s.clock)
  /-- A future that waits holds a timer that will call its waker, or has. -/
  prompt : ∀ i f waker, s.sleeps.get i = some f → f.last = some waker →
    ∃ rid, f.kernel.rid = some rid ∧ s.Prompted f rid waker
  /-- The future is no older than the wakes. -/
  since : ∀ i f, s.sleeps.get i = some f → f.since ≤ s.wakes.length

variable {s s' : Sleepers W} {i : ℕ} {f : Sleeper W}

theorem tracked_new (cachedNow : Option UInt64) (clock : UInt64) :
    Tracked (new cachedNow clock : Sleepers W) := by
  have hnone : ∀ rid, Reactor.timerSlot (Slab.new : ResourceSlab W) rid = none :=
    fun rid => Reactor.timerSlot_of_none (Slab.get_new rid)
  refine ⟨Reactor.kept_new cachedNow, ?_, ?_, ?_, ?_, ?_, ?_⟩
  · intro now _ rid t ht
    cases (hnone rid).symm.trans ht
  · rintro i f rid ⟨⟩
  · rintro i j f g rid ⟨⟩
  · intro rid t ht
    cases (hnone rid).symm.trans ht
  · rintro i f waker ⟨⟩
  · rintro i f ⟨⟩

/-- Future number `i` changes from `f` to `f'`, or goes, and the reactor with it, in slot `rid` and
those of marked timers. -/
structure Change (s : Sleepers W) (i : ℕ) (f : Sleeper W) (rid : UInt64) (r' : Reactor W)
    (f' : Option (Sleeper W)) : Prop where
  get : s.sleeps.get i = some f
  /-- The reactor changes in its slots only. -/
  tuned : s.reactor.Tuned r'
  /-- Only the timer in the slot can be marked. -/
  marked : ∀ k d, r'.pendingDeregister = some (k, d) → k = rid ∧ r'.wheel.live k = some d
  /-- Other slots are as they were. -/
  swept : ∀ k, k ≠ rid → s.reactor.Swept r' k
  /-- The slot is no other future's. -/
  others : ∀ j g, j ≠ i → s.sleeps.get j = some g → g.kernel.rid ≠ some rid
  /-- If the future held a timer it was there. -/
  own : ∀ k, f.kernel.rid = some k → k = rid
  /-- A timer in the slot is ahead of the clock, and the future holds it or has marked it. -/
  slot : ∀ t, Reactor.timerSlot r'.resources rid = some t →
    (∀ now, s.reactor.cachedNow = some now → now < t.1.deadline) ∧
    ((∃ g, f' = some g ∧ g.kernel.rid = some rid) ∨ r'.Marked rid)
  /-- The future holds no timer then, or holds the one in the slot. -/
  after : ∀ g, f' = some g → g.since ≤ s.wakes.length ∧
    (g.kernel.rid = none ∧ g.last = none ∨
    g.kernel.rid = some rid ∧ rid < r'.nextResourceId ∧ ¬ r'.Marked rid ∧
      ∃ e waker, Reactor.timerSlot r'.resources rid = some (e, waker) ∧
        e.deadline = g.kernel.deadline ∧ g.last = some waker)

namespace Change

variable {rid : UInt64} {r' : Reactor W} {f' : Option (Sleeper W)}

/-- A future that holds a timer after the change holds the one in the slot, or is another one, whose
timer is not in the slot. -/
theorem holds (hc : Change s i f rid r' f') {j : ℕ} {g : Sleeper W} {k : UInt64}
    (hj : (s.sleeps.put i f').get j = some g) (hrid : g.kernel.rid = some k) :
    (j = i ∧ k = rid ∧ f' = some g) ∨ (j ≠ i ∧ k ≠ rid ∧ s.sleeps.get j = some g) := by
  rw [Arena.get_put hc.get] at hj
  split at hj
  · rename_i hij
    obtain ⟨-, ⟨hnone, -⟩ | ⟨hsome, -⟩⟩ := hc.after g hj
    · rw [hnone] at hrid
      cases hrid
    · rw [hsome] at hrid
      cases hrid
      exact .inl ⟨hij, rfl, hj⟩
  · rename_i hij
    exact .inr ⟨hij, fun heq => hc.others j g hij hj (by rw [hrid, heq]), hj⟩

theorem ahead (hc : Change s i f rid r' f') (h : Tracked s) {now : UInt64}
    (hnow : r'.cachedNow = some now) {k : UInt64} {t : TimerEntry × W}
    (ht : Reactor.timerSlot r'.resources k = some t) : now < t.1.deadline := by
  have hnow' : s.reactor.cachedNow = some now := hc.tuned.cachedNow.symm.trans hnow
  by_cases hk : k = rid
  · subst hk
    exact (hc.slot t ht).1 now hnow'
  · exact h.ahead now hnow' k t ((hc.swept k hk).timerSlot_eq_some.mp ht).2

theorem held (hc : Change s i f rid r' f') (h : Tracked s) {j : ℕ} {g : Sleeper W} {k : UInt64}
    (hj : (s.sleeps.put i f').get j = some g) (hrid : g.kernel.rid = some k) :
    k < r'.nextResourceId ∧ ¬ r'.Marked k ∧
      ∀ t, Reactor.timerSlot r'.resources k = some t → t.1.deadline = g.kernel.deadline := by
  rcases hc.holds hj hrid with ⟨-, rfl, hg⟩ | ⟨-, hk, hold⟩
  · obtain ⟨-, ⟨hnone, -⟩ | ⟨-, hlt, hnot, e, waker, he, hdeadline, -⟩⟩ := hc.after g hg
    · rw [hnone] at hrid
      cases hrid
    · refine ⟨hlt, hnot, fun t ht => ?_⟩
      cases he.symm.trans ht
      exact hdeadline
  · obtain ⟨hlt, -, hdeadline⟩ := h.held j g k hold hrid
    refine ⟨UInt64.lt_of_lt_of_le hlt hc.tuned.next_le, ?_, fun t ht => ?_⟩
    · rintro ⟨d, hd⟩
      exact hk (hc.marked k d hd).1
    · exact hdeadline t ((hc.swept k hk).timerSlot_eq_some.mp ht).2

theorem apart (hc : Change s i f rid r' f') (h : Tracked s) {j₁ j₂ : ℕ} {g₁ g₂ : Sleeper W}
    {k : UInt64} (hj₁ : (s.sleeps.put i f').get j₁ = some g₁)
    (hj₂ : (s.sleeps.put i f').get j₂ = some g₂) (hrid₁ : g₁.kernel.rid = some k)
    (hrid₂ : g₂.kernel.rid = some k) : j₁ = j₂ := by
  rcases hc.holds hj₁ hrid₁ with ⟨rfl, hk₁, -⟩ | ⟨-, hk₁, hold₁⟩
  · rcases hc.holds hj₂ hrid₂ with ⟨rfl, -, -⟩ | ⟨-, hk₂, -⟩
    · rfl
    · exact absurd hk₁ hk₂
  · rcases hc.holds hj₂ hrid₂ with ⟨-, hk₂, -⟩ | ⟨-, -, hold₂⟩
    · exact absurd hk₂ hk₁
    · exact h.apart j₁ j₂ g₁ g₂ k hold₁ hold₂ hrid₁ hrid₂

theorem owned (hc : Change s i f rid r' f') (h : Tracked s) {k : UInt64} {t : TimerEntry × W}
    (ht : Reactor.timerSlot r'.resources k = some t) :
    (∃ j g, (s.sleeps.put i f').get j = some g ∧ g.kernel.rid = some k) ∨ r'.Marked k ∨
      (r'.cachedNow = none ∧ t.1.deadline ≤ s.clock) := by
  have hget := Arena.get_put hc.get f'
  by_cases hk : k = rid
  · subst hk
    rcases (hc.slot t ht).2 with ⟨g, hg, hrid⟩ | hm
    · exact .inl ⟨i, g, (hget i).trans ((if_pos rfl).trans hg), hrid⟩
    · exact .inr (.inl hm)
  · obtain ⟨hnot, ht'⟩ := (hc.swept k hk).timerSlot_eq_some.mp ht
    rcases h.owned k t ht' with ⟨j, g, hj, hrid⟩ | hm | ⟨hnone, hpast⟩
    · have hij : j ≠ i := by
        rintro rfl
        cases hc.get.symm.trans hj
        exact hk (hc.own k hrid)
      exact .inl ⟨j, g, (hget j).trans ((if_neg hij).trans hj), hrid⟩
    · exact absurd hm hnot
    · exact .inr (.inr ⟨hc.tuned.cachedNow.trans hnone, hpast⟩)

theorem prompt (hc : Change s i f rid r' f') (h : Tracked s) {j : ℕ} {g : Sleeper W} {waker : W}
    (hj : (s.sleeps.put i f').get j = some g) (hlast : g.last = some waker) :
    ∃ k, g.kernel.rid = some k ∧
      Prompted { s with reactor := r', sleeps := s.sleeps.put i f' } g k waker := by
  rw [Arena.get_put hc.get] at hj
  split at hj
  · obtain ⟨-, ⟨-, hnone⟩ | ⟨hsome, -, -, e, waker', he, -, hlast'⟩⟩ := hc.after g hj
    · rw [hnone] at hlast
      cases hlast
    · rw [hlast'] at hlast
      cases hlast
      exact ⟨rid, hsome, .inl ⟨e, he⟩⟩
  · rename_i hij
    obtain ⟨k, hrid, hprompted⟩ := h.prompt j g waker hj hlast
    have hk : k ≠ rid := fun heq => hc.others j g hij hj (by rw [hrid, heq])
    have hnot := (h.held j g k hj hrid).2.1
    refine ⟨k, hrid, hprompted.imp_left ?_⟩
    rintro ⟨e, he⟩
    exact ⟨e, (hc.swept k hk).timerSlot_eq_some.mpr ⟨hnot, he⟩⟩

theorem since (hc : Change s i f rid r' f') (h : Tracked s) {j : ℕ} {g : Sleeper W}
    (hj : (s.sleeps.put i f').get j = some g) : g.since ≤ s.wakes.length := by
  rw [Arena.get_put hc.get] at hj
  split at hj
  · exact (hc.after g hj).1
  · exact h.since j g hj

end Change

/-- **One future changes**, and the reactor with it. Everything else stays in step. -/
theorem Tracked.change (h : Tracked s) (rid : UInt64) {r' : Reactor W} {f' : Option (Sleeper W)}
    (hc : Change s i f rid r' f') :
    Tracked { s with reactor := r', sleeps := s.sleeps.put i f' } :=
  ⟨h.tuned hc.tuned fun k d hk => (hc.marked k d hk).2, fun _ hnow _ _ => hc.ahead h hnow,
    fun _ _ _ => hc.held h, fun _ _ _ _ _ => hc.apart h, fun _ _ => hc.owned h,
    fun _ _ _ => hc.prompt h, fun _ _ => hc.since h⟩

/-- A future changes that holds no timer afterwards, and nothing else does. The timer it held, if it
is there, is forgotten. -/
theorem Tracked.put (h : Tracked s) (hi : s.sleeps.get i = some f) {f' : Option (Sleeper W)}
    (hleft : ∀ k t, f.kernel.rid = some k → Reactor.timerSlot s.reactor.resources k = some t →
      s.reactor.cachedNow = none ∧ t.1.deadline ≤ s.clock)
    (hf' : ∀ g, f' = some g → g.kernel.rid = none ∧ g.last = none ∧ g.since ≤ s.wakes.length) :
    Tracked { s with sleeps := s.sleeps.put i f' } := by
  have hget := Arena.get_put hi f'
  have hold : ∀ j g k, (s.sleeps.put i f').get j = some g → g.kernel.rid = some k →
      s.sleeps.get j = some g := by
    intro j g k hj hk
    rw [hget] at hj
    split at hj
    · rw [(hf' g hj).1] at hk
      cases hk
    · exact hj
  refine ⟨h.toKept, h.ahead, ?_, ?_, ?_, ?_, ?_⟩
  · exact fun j g k hj hk => h.held j g k (hold j g k hj hk) hk
  · exact fun j₁ j₂ g₁ g₂ k hj₁ hj₂ hk₁ hk₂ =>
      h.apart j₁ j₂ g₁ g₂ k (hold j₁ g₁ k hj₁ hk₁) (hold j₂ g₂ k hj₂ hk₂) hk₁ hk₂
  · intro k t ht
    rcases h.owned k t ht with ⟨j, g, hj, hk⟩ | hm | hforgot
    · by_cases hij : j = i
      · subst hij
        rw [hi] at hj
        cases hj
        exact .inr (.inr (hleft k t hk ht))
      · exact .inl ⟨j, g, (hget j).trans ((if_neg hij).trans hj), hk⟩
    · exact .inr (.inl hm)
    · exact .inr (.inr hforgot)
  · intro j g waker hj hlast
    rw [hget] at hj
    split at hj
    · rw [(hf' g hj).2.1] at hlast
      cases hlast
    · exact h.prompt j g waker hj hlast
  · intro j g hj
    rw [hget] at hj
    split at hj
    · exact (hf' g hj).2.2
    · exact h.since j g hj

/-- **A future gives up its timer**, which is put off or removed, and is nobody's then. -/
theorem Tracked.disarm (h : Tracked s) (hi : s.sleeps.get i = some f) (f' : Option (Sleeper W))
    (hf' : ∀ g, f' = some g → g.kernel.rid = none ∧ g.last = none ∧ g.since ≤ s.wakes.length) :
    Tracked { s with
      reactor := Sleep.disarm f.kernel s.reactor, sleeps := s.sleeps.put i f' } := by
  rw [Sleep.disarm]
  split
  · rename_i rid hrid
    obtain ⟨htuned, -, hswept, hcase⟩ := ReactorHandle.deregisterTimer_spec h.consistent rid
    have hkept := h.toKept.deregisterTimer rid
    refine h.change rid ⟨hi, htuned, ?_, hswept, ?_, ?_, ?_, ?_⟩
    · intro k d hp
      refine ⟨?_, hkept.marked k d hp⟩
      rcases hcase with ⟨t, -, -, -, hpending⟩ | ⟨-, -, hnone⟩
      · rw [hpending] at hp
        cases hp
        rfl
      · rw [hnone] at hp
        cases hp
    · intro j g hij hj hg
      exact hij (h.apart j i g f rid hj hi hg hrid)
    · intro k hk
      rw [hrid] at hk
      cases hk
      rfl
    · intro t ht
      rcases hcase with ⟨t', -, ht', hget, hpending⟩ | ⟨-, hget, -⟩
      · rw [Reactor.timerSlot_congr hget] at ht
        exact ⟨fun now hnow => h.ahead now hnow rid t ht, .inr ⟨_, hpending⟩⟩
      · rw [Reactor.timerSlot_of_none hget] at ht
        cases ht
    · intro g hg
      obtain ⟨hnone, hlast, hsince⟩ := hf' g hg
      exact ⟨hsince, .inl ⟨hnone, hlast⟩⟩
  · rename_i hrid
    refine h.put hi (fun k t hk _ => ?_) hf'
    rw [hrid] at hk
    cases hk

/-- **A future that holds no timer registers one.** If the reactor refuses, it holds none still. -/
theorem Tracked.arm (h : Tracked s) (hi : s.sleeps.get i = some f) (hrid : f.kernel.rid = none)
    {waker : W} (hahead : s.reactor.wheel.elapsed < f.kernel.deadline)
    (hcached : ∀ now, s.reactor.cachedNow = some now → now < f.kernel.deadline)
    {res : Except IoError UInt64} {r' : Reactor W}
    (hreg : ReactorHandle.registerTimer s.reactor f.kernel.deadline waker = (res, r')) :
    Tracked { s with
      reactor := r'
      sleeps := s.sleeps.put i (some ⟨{ f.kernel with rid := res.toOption },
        if res.toOption.isSome then some waker else none, s.wakes.length⟩) } := by
  obtain ⟨htuned, hpending, hcase⟩ :=
    ReactorHandle.registerTimer_spec h.consistent h.marked hahead waker hreg
  have hmarked : ∀ k d, r'.pendingDeregister = some (k, d) → False := by
    intro k d hk
    rw [hpending] at hk
    cases hk
  have hown : ∀ k rid, f.kernel.rid = some k → k = rid := by
    intro k rid hk
    rw [hrid] at hk
    cases hk
  rcases hcase with ⟨rid, e, rfl, hfresh, hlt, hdeadline, hget, hswept⟩ | ⟨⟨e, rfl⟩, hswept⟩
  · have hslot : Reactor.timerSlot r'.resources rid = some (e, waker) :=
      Reactor.timerSlot_eq_some.mpr hget
    refine h.change rid ⟨hi, htuned, fun k d hk => (hmarked k d hk).elim, hswept, ?_,
      fun k hk => hown k rid hk, ?_, ?_⟩
    · intro j g _ hj hg
      obtain ⟨hlt', hnot, -⟩ := h.held j g rid hj hg
      rcases hfresh with hm | rfl
      · exact hnot hm
      · exact UInt64.lt_irrefl _ hlt'
    · intro t ht
      cases hslot.symm.trans ht
      refine ⟨fun now hnow => ?_, .inl ⟨_, rfl, rfl⟩⟩
      rw [hdeadline]
      exact hcached now hnow
    · rintro g ⟨⟩
      refine ⟨Nat.le_refl _, .inr ⟨rfl, hlt, ?_, e, waker, hslot, hdeadline, rfl⟩⟩
      rintro ⟨d, hd⟩
      exact hmarked rid d hd
  · -- nothing but the marked timer changes, so the id to be handed out next will do
    have hnext : Reactor.timerSlot r'.resources s.reactor.nextResourceId = none := by
      refine Reactor.timerSlot_of_none ?_
      by_cases hm : s.reactor.Marked s.reactor.nextResourceId
      · exact (hswept _).1 hm
      · exact ((hswept _).2 hm).trans h.consistent.get_next
    refine h.change s.reactor.nextResourceId ⟨hi, htuned,
      fun k d hk => (hmarked k d hk).elim, fun k _ => hswept k, ?_, fun k hk => hown k _ hk, ?_, ?_⟩
    · intro j g _ hj hg
      exact UInt64.lt_irrefl _ (h.held j g _ hj hg).1
    · intro t ht
      rw [hnext] at ht
      cases ht
    · rintro g ⟨⟩
      exact ⟨Nat.le_refl _, .inl ⟨rfl, rfl⟩⟩

/-- Time goes by, which nothing depends on until the clock is read. -/
theorem Tracked.tick (h : Tracked s) {raw : UInt64} (hle : s.clock ≤ raw) :
    Tracked { s with clock := raw } := by
  refine ⟨h.toKept, h.ahead, h.held, h.apart, ?_, h.prompt, h.since⟩
  intro k t ht
  rcases h.owned k t ht with hheld | hm | ⟨hnone, hpast⟩
  · exact .inl hheld
  · exact .inr (.inl hm)
  · exact .inr (.inr ⟨hnone, UInt64.le_trans hpast hle⟩)

/-- **A future finds its deadline passed** and forgets its timer. By the cached clock there is no
timer any more; else it is due when the reactor parks. -/
theorem Tracked.complete (h : Tracked s) (hi : s.sleeps.get i = some f)
    (hpast : f.kernel.deadline ≤ Sleep.clock s.reactor s.clock) :
    Tracked { s with
      sleeps := s.sleeps.put i
        (some ⟨{ f.kernel with rid := none }, none, s.wakes.length⟩) } := by
  refine h.put hi (fun k t hk ht => ?_) ?_
  · have hdeadline := (h.held i f k hi hk).2.2 t ht
    rw [Sleep.clock] at hpast
    cases hcached : s.reactor.cachedNow with
    | none =>
      rw [hcached] at hpast
      exact ⟨rfl, hdeadline ▸ hpast⟩
    | some now =>
      rw [hcached] at hpast
      have hlt := h.ahead now hcached k t ht
      rw [hdeadline] at hlt
      exact absurd hlt (UInt64.not_lt.mpr hpast)
  · rintro g ⟨⟩
    exact ⟨rfl, rfl, Nat.le_refl _⟩

theorem Tracked.poll (h : Tracked s) {waker : W} {raw : UInt64} (hle : s.clock ≤ raw)
    (hpoll : s.poll i waker raw = some s') : Tracked s' := by
  obtain ⟨f, hi, heq⟩ := Option.bind_eq_some_iff.mp hpoll
  by_cases hpast : f.kernel.deadline ≤ Sleep.clock s.reactor raw
  · rw [Sleep.poll_of_le hpast] at heq
    cases heq
    have hcomplete := (h.tick hle).complete hi hpast
    exact hcomplete
  · -- the timer is given up, and then another one registered
    obtain ⟨⟨res, r'⟩, hreg⟩ : ∃ x, ReactorHandle.registerTimer (Sleep.disarm f.kernel s.reactor)
      f.kernel.deadline waker = x := ⟨_, rfl⟩
    rw [Sleep.poll_of_not_le hpast hreg] at heq
    obtain ⟨-, htuned⟩ := h.toKept.disarm f.kernel
    have hdisarm := (h.tick hle).disarm hi
      (some ⟨{ f.kernel with rid := none }, none, s.wakes.length⟩) (by
        rintro g ⟨⟩
        exact ⟨rfl, rfl, Nat.le_refl _⟩)
    have harm := hdisarm.arm ((Arena.get_put hi _ i).trans (if_pos rfl)) rfl ?_ ?_ hreg
    · rw [Arena.put_put] at harm
      cases res with
      | ok rid =>
        cases heq
        exact harm
      | error e =>
        cases heq
        exact harm
    · show (Sleep.disarm f.kernel s.reactor).wheel.elapsed < f.kernel.deadline
      rw [htuned.elapsed]
      exact h.elapsed_lt hpast
    · intro now hnow
      have hcached : s.reactor.cachedNow = some now := htuned.cachedNow.symm.trans hnow
      rw [Sleep.clock, hcached] at hpast
      exact UInt64.not_le.mp hpast

theorem Tracked.reset (h : Tracked s) {deadline : UInt64} (hreset : s.reset i deadline = some s') :
    Tracked s' := by
  obtain ⟨f, hi, heq⟩ := Option.bind_eq_some_iff.mp hreset
  cases heq
  refine h.disarm hi _ ?_
  rintro g ⟨⟩
  exact ⟨rfl, rfl, Nat.le_refl _⟩

theorem Tracked.drop (h : Tracked s) (hdrop : s.drop i = some s') : Tracked s' := by
  obtain ⟨f, hi, heq⟩ := Option.bind_eq_some_iff.mp hdrop
  cases heq
  refine h.disarm hi _ ?_
  rintro g ⟨⟩

theorem Tracked.add (h : Tracked s) (deadline : UInt64) :
    Tracked { s with sleeps := s.sleeps.add ⟨.new deadline, none, s.wakes.length⟩ } := by
  have hget := Arena.get_add s.sleeps ⟨.new deadline, none, s.wakes.length⟩
  have hold : ∀ j g k, (s.sleeps.add ⟨.new deadline, none, s.wakes.length⟩).get j = some g →
      g.kernel.rid = some k → s.sleeps.get j = some g := by
    intro j g k hj hk
    rw [hget] at hj
    split at hj
    · cases hj
      cases hk
    · exact hj
  refine ⟨h.toKept, h.ahead, ?_, ?_, ?_, ?_, ?_⟩
  · exact fun j g k hj hk => h.held j g k (hold j g k hj hk) hk
  · exact fun j₁ j₂ g₁ g₂ k hj₁ hj₂ hk₁ hk₂ =>
      h.apart j₁ j₂ g₁ g₂ k (hold j₁ g₁ k hj₁ hk₁) (hold j₂ g₂ k hj₂ hk₂) hk₁ hk₂
  · intro k t ht
    refine (h.owned k t ht).imp_left ?_
    rintro ⟨j, g, hj, hk⟩
    exact ⟨j, g, (hget j).trans ((if_neg (Nat.ne_of_lt (Arena.lt_size hj))).trans hj), hk⟩
  · intro j g waker hj hlast
    rw [hget] at hj
    split at hj
    · cases hj
      cases hlast
    · exact h.prompt j g waker hj hlast
  · intro j g hj
    rw [hget] at hj
    split at hj
    · cases hj
      exact Nat.le_refl _
    · exact h.since j g hj

/-! ### I/O resources -/

theorem timerSlot_setWaker {r r' : Reactor W} {rid : UInt64} {interest : Interest} {waker : W}
    (hset : r.setWaker rid interest waker = some r') (k : UInt64) :
    Reactor.timerSlot r'.resources k = Reactor.timerSlot r.resources k ∧ r'.wheel = r.wheel ∧
      r'.pendingDeregister = r.pendingDeregister ∧ r'.cachedNow = r.cachedNow := by
  rcases Reactor.setWaker_cases hset with rfl | ⟨resources, rw, ww, rw', ww', rfl, hio, hget⟩
  · exact ⟨rfl, rfl, rfl, rfl⟩
  · -- an I/O slot is replaced by an I/O slot
    refine ⟨?_, rfl, rfl, rfl⟩
    show Reactor.timerSlot resources k = Reactor.timerSlot r.resources k
    by_cases hk : k = rid
    · rw [Reactor.timerSlot_of_io ((hget k).trans (if_pos hk)), hk, Reactor.timerSlot_of_io hio]
    · exact Reactor.timerSlot_congr ((hget k).trans (if_neg hk))

/-- Operations on I/O resources leave timers alone. -/
theorem call_io {r r' : Reactor W} {op : Reactor.Op W} (h : r.Consistent)
    (hio : permitsIo r op = true) (hcall : r.call op = some r') :
    r.Tuned r' ∧ r'.pendingDeregister = r.pendingDeregister ∧
      ∀ k, Reactor.timerSlot r'.resources k = Reactor.timerSlot r.resources k := by
  cases op with
  | registerTimer deadline waker => cases hio
  | deregisterTimer rid => cases hio
  | park timeout raw poll => cases hio
  | setWaker rid interest waker =>
    have hprogress := h.setWaker hcall
    have hsame := timerSlot_setWaker hcall
    obtain ⟨-, hwheel, hpending, hcached⟩ := hsame 0
    exact ⟨⟨hprogress.consistent, hprogress.next_le, hcached, congrArg TimerWheel.elapsed hwheel⟩,
      hpending, fun k => (hsame k).1⟩
  | deregisterIoResource rid osResult =>
    have hnone : Reactor.timerSlot r.resources rid = none := by simpa [permitsIo] using hio
    have hprogress := h.deregisterIoResource hnone osResult
    cases hcall
    refine ⟨⟨hprogress.consistent, hprogress.next_le, rfl, rfl⟩, rfl, fun k => ?_⟩
    have hget := ResourceSlab.get_removeIoSlot r.resources rid k
    by_cases hk : k = rid
    · rw [hk, hnone]
      exact Reactor.timerSlot_of_none ((ResourceSlab.get_removeIoSlot _ _ _).trans (if_pos rfl))
    · exact Reactor.timerSlot_congr (hget.trans (if_neg hk))
  | registerIoResource interest osResult =>
    have hprogress := h.registerIoResource interest osResult
    cases hcall
    rw [Reactor.registerIoResource] at hprogress ⊢
    obtain heq | ⟨hlt, heq⟩ := Reactor.allocResourceId_cases r
    · rw [heq]
      exact ⟨.refl h, rfl, fun k => rfl⟩
    · rw [heq] at hprogress ⊢
      cases osResult with
      | error e =>
        exact ⟨⟨hprogress.consistent, hprogress.next_le, rfl, rfl⟩, rfl, fun k => rfl⟩
      | ok u =>
        refine ⟨⟨hprogress.consistent, hprogress.next_le, rfl, rfl⟩, rfl, fun k => ?_⟩
        have hget := ResourceSlab.get_insertIoSlot r.resources r.nextResourceId k
        by_cases hk : k = r.nextResourceId
        · rw [hk, Reactor.timerSlot_of_none h.get_next]
          exact Reactor.timerSlot_of_io ((ResourceSlab.get_insertIoSlot _ _ _).trans (if_pos rfl))
        · exact Reactor.timerSlot_congr (hget.trans (if_neg hk))

theorem kept_io {r r' : Reactor W} {op : Reactor.Op W} (h : r.Kept) (hio : permitsIo r op = true)
    (hcall : r.call op = some r') : r'.Kept := by
  obtain ⟨htuned, hpending, hslots⟩ := call_io h.consistent hio hcall
  refine h.tuned htuned fun k d hk => ?_
  rw [htuned.consistent.agrees k, hslots k, ← h.consistent.agrees k]
  exact h.marked k d (hpending.symm.trans hk)

theorem Tracked.io (h : Tracked s) {op : Reactor.Op W} {r' : Reactor W}
    (hio : permitsIo s.reactor op = true) (hcall : s.reactor.call op = some r') :
    Tracked { s with reactor := r' } := by
  obtain ⟨htuned, hpending, hslots⟩ := call_io h.consistent hio hcall
  have hmarked : ∀ k, r'.Marked k ↔ s.reactor.Marked k := by
    intro k
    rw [Reactor.Marked, hpending]
    rfl
  refine ⟨kept_io h.toKept hio hcall, ?_, ?_, h.apart, ?_, ?_, h.since⟩
  · intro now hnow k t ht
    exact h.ahead now (htuned.cachedNow.symm.trans hnow) k t ((hslots k).symm.trans ht)
  · intro j g k hj hk
    obtain ⟨hlt, hnot, hdeadline⟩ := h.held j g k hj hk
    exact ⟨UInt64.lt_of_lt_of_le hlt htuned.next_le, fun hm => hnot ((hmarked k).mp hm),
      fun t ht => hdeadline t ((hslots k).symm.trans ht)⟩
  · intro k t ht
    rcases h.owned k t ((hslots k).symm.trans ht) with hheld | hm | ⟨hnone, hpast⟩
    · exact .inl hheld
    · exact .inr (.inl ((hmarked k).mpr hm))
    · exact .inr (.inr ⟨htuned.cachedNow.trans hnone, hpast⟩)
  · intro j g waker hj hlast
    obtain ⟨k, hk, hprompted⟩ := h.prompt j g waker hj hlast
    refine ⟨k, hk, hprompted.imp_left ?_⟩
    rintro ⟨e, he⟩
    exact ⟨e, (hslots k).trans he⟩

/-! ### Parking -/

theorem le_getCurrentTime (r : Reactor W) (raw : UInt64) : raw ≤ (r.getCurrentTime raw).1 := by
  simp only [Reactor.getCurrentTime]
  split
  · exact UInt64.le_refl _
  · rename_i hlt
    exact UInt64.le_of_lt (UInt64.not_le.mp hlt)

theorem mem_wakesOf {instant : UInt64} {calls : List (OutboundCall W)} {waker : W} {rid : UInt64}
    (h : .wakeTask waker rid ∈ calls) : ⟨instant, waker, rid⟩ ∈ wakesOf instant calls :=
  List.mem_filterMap.mpr ⟨_, h, rfl⟩

/-- What a park does to the slots and the wakes: what is due goes, and is called. -/
theorem park_cases (h : s.reactor.Kept) {timeout : Option UInt64} {raw : UInt64}
    {poll : Except IoError (List MioEvent)} (hpark : s.park timeout raw poll = some s') :
    ∃ now, raw ≤ now ∧ s'.sleeps = s.sleeps ∧ s'.clock = raw ∧ s'.reactor.Kept ∧
      s'.reactor.pendingDeregister = none ∧
      s'.reactor.nextResourceId = s.reactor.nextResourceId ∧ s'.reactor.cachedNow = some now ∧
      (∃ new, s'.wakes = s.wakes ++ new ∧ ∀ rid t, ¬ s.reactor.Marked rid →
        Reactor.timerSlot s.reactor.resources rid = some t → t.1.deadline ≤ now →
        ⟨now, t.2, rid⟩ ∈ new) ∧
      (∀ rid t, Reactor.timerSlot s'.reactor.resources rid = some t ↔
        ¬ s.reactor.Marked rid ∧ Reactor.timerSlot s.reactor.resources rid = some t ∧
          now < t.1.deadline) := by
  obtain ⟨htuned, hpending, hnext, hswept⟩ := Reactor.flush_spec h.consistent
  obtain ⟨⟨res, r'⟩, hrpark, heq⟩ := Option.bind_eq_some_iff.mp hpark
  cases heq
  have hclock := Reactor.park_clock htuned.consistent hrpark
  obtain ⟨wakes, io, r₁, hrun, hlog, -, hmem, -, -, hget, hnext', -⟩ :=
    Reactor.park_spec htuned.consistent timeout raw poll
  rw [hrpark] at hrun
  cases hrun
  -- the slots that the flush leaves
  have hflush := fun rid t => (hswept rid).timerSlot_eq_some (t := t)
  refine ⟨_, le_getCurrentTime s.reactor.flushPendingDeregister raw, rfl, rfl, h.park hrpark,
    hclock.2.2.trans hpending, hnext'.trans hnext, hclock.2.1, ⟨_, rfl, ?_⟩, ?_⟩
  · intro rid t hnot ht hdue
    refine mem_wakesOf ?_
    rw [hlog, List.append_assoc, List.append_assoc, List.drop_left]
    refine List.mem_append_right _ (List.mem_append_left _ (List.mem_map.mpr ⟨(t.2, rid), ?_, rfl⟩))
    exact (hmem t.2 rid).mpr ⟨t.1, (hflush rid t).mpr ⟨hnot, ht⟩, hdue⟩
  · intro rid t
    have hslot : Reactor.timerSlot r'.resources rid =
        if rid ∈ wakes.map Prod.snd then none
        else Reactor.timerSlot s.reactor.flushPendingDeregister.resources rid := by
      split
      · rename_i hin
        exact Reactor.timerSlot_of_none ((hget rid).trans (if_pos hin))
      · rename_i hout
        exact Reactor.timerSlot_congr ((hget rid).trans (if_neg hout))
    show Reactor.timerSlot r'.resources rid = some t ↔ _
    rw [hslot, ← and_assoc, ← hflush rid t]
    constructor
    · intro ht
      split at ht
      · cases ht
      · rename_i hout
        refine ⟨ht, ?_⟩
        by_contra hdue
        refine hout (List.mem_map.mpr ⟨(t.2, rid), (hmem t.2 rid).mpr ⟨t.1, ht, ?_⟩, rfl⟩)
        exact UInt64.not_lt.mp hdue
    · rintro ⟨ht, hlt⟩
      rw [if_neg ?_]
      · exact ht
      · intro hin
        obtain ⟨⟨w, k⟩, hk, rfl⟩ := List.mem_map.mp hin
        obtain ⟨entry, hentry, hdue⟩ := (hmem w k).mp hk
        cases ht.symm.trans hentry
        exact absurd hlt (UInt64.not_lt.mpr hdue)

theorem Tracked.park (h : Tracked s) {timeout : Option UInt64} {raw : UInt64}
    {poll : Except IoError (List MioEvent)} (hle : s.clock ≤ raw)
    (hpark : s.park timeout raw poll = some s') : Tracked s' := by
  obtain ⟨now, hnow, hsleeps, hclock, hkept, hpending, hnext, hcached, ⟨new, hwakes, hnew⟩,
    hslots⟩ := park_cases h.toKept hpark
  refine ⟨hkept, ?_, ?_, ?_, ?_, ?_, ?_⟩
  · intro now' hnow' k t ht
    rw [hcached] at hnow'
    cases hnow'
    exact ((hslots k t).mp ht).2.2
  · intro j g k hj hk
    rw [hsleeps] at hj
    obtain ⟨hlt, -, hdeadline⟩ := h.held j g k hj hk
    rw [hnext]
    refine ⟨hlt, ?_, fun t ht => hdeadline t ((hslots k t).mp ht).2.1⟩
    rintro ⟨d, hd⟩
    rw [hpending] at hd
    cases hd
  · rw [hsleeps]
    exact h.apart
  · intro k t ht
    obtain ⟨hnot, ht', hlt⟩ := (hslots k t).mp ht
    rw [hsleeps]
    rcases h.owned k t ht' with hheld | hm | ⟨-, hpast⟩
    · exact .inl hheld
    · exact absurd hm hnot
    · -- a timer that was forgotten is due
      have hdue := UInt64.le_trans hpast (UInt64.le_trans hle hnow)
      exact absurd hlt (UInt64.not_lt.mpr hdue)
  · intro j g waker hj hlast
    rw [hsleeps] at hj
    obtain ⟨k, hk, hprompted⟩ := h.prompt j g waker hj hlast
    obtain ⟨-, hnot, hdeadline⟩ := h.held j g k hj hk
    refine ⟨k, hk, ?_⟩
    have hdrop : s'.wakes.drop g.since = s.wakes.drop g.since ++ new := by
      rw [hwakes, List.drop_append_of_le_length (h.since j g hj)]
    rcases hprompted with ⟨e, he⟩ | ⟨wake, hwake, hrest⟩
    · by_cases hdue : e.deadline ≤ now
      · refine .inr ⟨⟨now, waker, k⟩, ?_, rfl, rfl, ?_⟩
        · rw [hdrop]
          exact List.mem_append_right _ (hnew k (e, waker) hnot he hdue)
        · rw [← hdeadline (e, waker) he]
          exact hdue
      · exact .inl ⟨e, (hslots k (e, waker)).mpr ⟨hnot, he, UInt64.not_le.mp hdue⟩⟩
    · refine .inr ⟨wake, ?_, hrest⟩
      rw [hdrop]
      exact List.mem_append_left _ hwake
  · intro j g hj
    rw [hsleeps] at hj
    rw [hwakes, List.length_append]
    exact Nat.le_add_right_of_le (h.since j g hj)

theorem Tracked.step (h : Tracked s) {l : Label W} (hstep : s.step l = some s') : Tracked s' := by
  cases l with
  | new deadline =>
    cases hstep
    exact h.add deadline
  | poll i waker raw =>
    simp only [Sleepers.step] at hstep
    split at hstep
    · rename_i hle
      exact h.poll hle hstep
    · cases hstep
  | reset i deadline => exact h.reset hstep
  | drop i => exact h.drop hstep
  | park timeout raw poll =>
    simp only [Sleepers.step] at hstep
    split at hstep
    · rename_i hle
      exact h.park hle hstep
    · cases hstep
  | io op =>
    simp only [Sleepers.step] at hstep
    split at hstep
    · rename_i hio
      obtain ⟨r', hcall, rfl⟩ := Option.map_eq_some_iff.mp hstep
      exact h.io hio hcall
    · cases hstep

theorem tracked_of_reachable (h : machine.Reachable s) : Tracked s := by
  refine h.invariant ?_ ?_
  · rintro s ⟨cachedNow, clock, rfl⟩
    exact tracked_new cachedNow clock
  · intro s l s' hs hstep
    exact hs.step hstep

/-- **Sleeps and their timers.** A future whose latest operation was a poll that returned pending
holds a timer with its deadline and the waker of that poll, which is not marked; or a later park, at
an instant that is not before the deadline, has called the waker. No two futures hold the same
timer. What a poll registers is ahead of the wheel. And after a park, every timer in the wheel is
held by exactly one future. -/
theorem reachable_tracked (h : machine.Reachable s) :
    (∀ i f waker, s.sleeps.get i = some f → f.last = some waker →
      ∃ rid, f.kernel.rid = some rid ∧
        ((s.reactor.wheel.live rid = some f.kernel.deadline ∧ ¬ s.reactor.Marked rid ∧
          ∃ e, Reactor.timerSlot s.reactor.resources rid = some (e, waker) ∧
            e.deadline = f.kernel.deadline) ∨
        ∃ k ∈ s.wakes.drop f.since, k.waker = waker ∧ k.rid = rid ∧
          f.kernel.deadline ≤ k.instant)) ∧
    (∀ i j f g rid, s.sleeps.get i = some f → s.sleeps.get j = some g → f.kernel.rid = some rid →
      g.kernel.rid = some rid → i = j) ∧
    (∀ i f raw, s.sleeps.get i = some f → ¬ f.kernel.deadline ≤ Sleep.clock s.reactor raw →
      (Sleep.disarm f.kernel s.reactor).wheel.elapsed < f.kernel.deadline) ∧
    ∀ timeout raw poll s', s.step (.park timeout raw poll) = some s' →
      ∀ rid d, s'.reactor.wheel.live rid = some d →
        ∃! i, ∃ f, s'.sleeps.get i = some f ∧ f.kernel.rid = some rid ∧ f.kernel.deadline = d := by
  have htracked := tracked_of_reachable h
  refine ⟨?_, htracked.apart, ?_, ?_⟩
  · intro i f waker hi hlast
    obtain ⟨rid, hrid, hprompted⟩ := htracked.prompt i f waker hi hlast
    refine ⟨rid, hrid, hprompted.imp_left ?_⟩
    rintro ⟨e, he⟩
    obtain ⟨-, hnot, hdeadline⟩ := htracked.held i f rid hi hrid
    have hd : e.deadline = f.kernel.deadline := hdeadline (e, waker) he
    refine ⟨?_, hnot, e, he, hd⟩
    rw [htracked.consistent.agrees rid, he, ← hd]
    rfl
  · intro i f raw _ hpast
    rw [(htracked.toKept.disarm f.kernel).2.elapsed]
    exact htracked.elapsed_lt hpast
  · intro timeout raw poll s' hstep rid d hlive
    have htracked' := htracked.step hstep
    obtain ⟨hcached, hpending⟩ : (∃ now, s'.reactor.cachedNow = some now) ∧
        s'.reactor.pendingDeregister = none := by
      simp only [step] at hstep
      split at hstep
      · obtain ⟨now, -, -, -, -, hpending, -, hcached, -⟩ := park_cases htracked.toKept hstep
        exact ⟨⟨now, hcached⟩, hpending⟩
      · cases hstep
    obtain ⟨t, ht, rfl⟩ := Option.map_eq_some_iff.mp
      ((htracked'.consistent.agrees rid).symm.trans hlive)
    rcases htracked'.owned rid t ht with ⟨i, f, hi, hrid⟩ | ⟨d, hm⟩ | ⟨hnone, -⟩
    · refine ⟨i, ⟨f, hi, hrid, ((htracked'.held i f rid hi hrid).2.2 t ht).symm⟩, ?_⟩
      rintro j ⟨g, hj, hg, -⟩
      exact htracked'.apart j i g f rid hj hi hg hrid
    · rw [hpending] at hm
      cases hm
    · obtain ⟨now, hnow⟩ := hcached
      rw [hnone] at hnow
      cases hnow

/-- A future is dropped, and its timer taken over by another one with the same deadline. -/
theorem reachable_tracked_taken_over : ∃ s : Sleepers ℕ, machine.Reachable s ∧
    ∃ f, s.sleeps.get 1 = some f ∧ f.last = some 8 ∧ f.kernel.rid = some 1 ∧ s.wakes = [] ∧
      s.reactor.wheel.live 1 = some 10 ∧ ¬ s.reactor.Marked 1 := by
  obtain ⟨s, hfollow, f, hf, hlast, hrid, hdeadline, hwakes⟩ : ∃ s : Sleepers ℕ,
      Machine.follow step [.new 10, .new 10, .poll 0 7 1, .drop 0, .poll 1 8 2] (new none 0) =
        some s ∧ ∃ f, s.sleeps.get 1 = some f ∧ f.last = some 8 ∧ f.kernel.rid = some 1 ∧
        f.kernel.deadline = 10 ∧ s.wakes = [] :=
    ⟨_, rfl, _, rfl, rfl, rfl, rfl, rfl⟩
  have hstart : machine.Reachable (new none 0 : Sleepers ℕ) := .of_init ⟨none, 0, rfl⟩
  have hreach := hstart.follow hfollow
  obtain ⟨rid, hrid', hcase⟩ := (reachable_tracked hreach).1 1 f 8 hf hlast
  rw [hrid] at hrid'
  cases hrid'
  rcases hcase with ⟨hlive, hnot, -⟩ | ⟨k, hk, -⟩
  · rw [hdeadline] at hlive
    exact ⟨s, hreach, f, hf, hlast, hrid, hwakes, hlive, hnot⟩
  · rw [hwakes, List.drop_nil] at hk
    cases hk

end Sleepers

end Lion
