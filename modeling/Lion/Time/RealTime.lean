import Lion.Reactor.Timeout
import Lion.Time.Rearming

/-!
# Sleeping for a duration

`sleep` of `lion-utility`, against the time that really passes. Instants are whole milliseconds
since `START`, and durations are made into milliseconds. The instant of the call is rounded down,
and so is the duration; the clock that a poll goes by is rounded down too. What the first two take
off can be more than what the last one gives back, so that a `Sleep` can be complete before its
time: by up to two milliseconds, and by any amount if the duration has more milliseconds than a
machine word holds.

## Two bounds

`lt_of_completes` bounds how early a run can be. It needs no more than that the deadline would be an
instant if nothing was rounded. `neverEarly_iff` says for which calls no run is early at all: the
instant of the call and the duration both have to be whole milliseconds, and their sum an instant
(`Whole`). If one of these fails, there is a run in which the reactor parks at just the wrong moment
(`exists_early`).

## Conventions

`Timeline.time` is the real time in nanoseconds since `START`, and `Timeline.readAt` that of the
reading of the clock that is cached. Neither is in the source, nor is it noted there by which call a
`Sleep` was made. A reading takes no time. Another reactor may have been on the thread before, and
left its clock behind.

## Main results

* `Timeline.neverEarly_iff` — for which calls of `sleep` no run completes early
* `Timeline.lt_of_completes` — how early a run can complete
* `Timeline.not_neverEarly` — a run that completes early
-/

namespace Lion

/-! ### Instants and durations -/

/-- `std::time::Duration`: seconds in a word, and nanoseconds of less than a second. -/
structure StdDuration where
  secs : UInt64
  nanos : ℕ
  /-- They are less than a second. -/
  nanos_lt : nanos < 1000000000

namespace StdDuration

/-- The duration in nanoseconds, which nothing is rounded in. -/
def asNanos (d : StdDuration) : ℕ := d.secs.toNat * 1000000000 + d.nanos

/-- `Duration::as_millis` of the standard library, which rounds down and does not overflow. -/
def asMillis (d : StdDuration) : ℕ := d.secs.toNat * 1000 + d.nanos / 1000000

theorem asMillis_eq (d : StdDuration) : d.asMillis = d.asNanos / 1000000 := by
  rw [asMillis, asNanos]
  omega

end StdDuration

/-- `Duration::from`, as `Duration::from_std`: the milliseconds, cut off to a word. -/
def Duration.fromStd (d : StdDuration) : UInt64 := .ofNat d.asMillis

/-- `Instant::now`, at a real time: whole milliseconds since `START`. -/
def Instant.now (time : ℕ) : UInt64 := .ofNat (time / 1000000)

/-- `Instant::add`, which is saturating: past the last instant there is none. -/
def Instant.add (instant duration : UInt64) : UInt64 :=
  if instant + duration < instant then 0xFFFFFFFFFFFFFFFF else instant + duration

/-- `sleep`, by way of `Sleep::for_duration`: the deadline is the sum of two numbers rounded
down. -/
def Sleep.sleep (time : ℕ) (d : StdDuration) : SleepKernel :=
  .new (Instant.add (Instant.now time) (Duration.fromStd d))

/-! ### Sleeps in real time -/

/-- A `Sleep`, and the call of `sleep` that has set its deadline, if it was one. -/
structure Nap where
  kernel : SleepKernel
  /-- When `sleep` was called, and with what. -/
  call : Option (ℕ × StdDuration)

/-- A reactor and the futures on its thread, in real time. -/
structure Timeline (W : Type) where
  time : ℕ
  reactor : Reactor W
  /-- When the cached clock was read, if it was by a reactor on this thread. -/
  readAt : Option ℕ
  naps : Arena Nap

namespace Timeline

variable {W : Type}

/-- What happens: real time passes, `sleep` and `sleep_until` are called, a `Sleep` is polled, reset
or dropped, the executor parks, and I/O resources are registered or deregistered. -/
inductive Label (W : Type)
  | wait (nanos : ℕ)
  | sleep (d : StdDuration)
  | sleepUntil (deadline : UInt64)
  | poll (i : ℕ) (waker : W)
  | reset (i : ℕ) (deadline : UInt64)
  | drop (i : ℕ)
  | park (timeout : Option UInt64) (poll : Except IoError (List MioEvent))
  | io (op : Reactor.Op W)

/-- One operation; `none` if it panics, or there is nothing to call it on. -/
def step (s : Timeline W) : Label W → Option (Timeline W)
  | .wait nanos => some { s with time := s.time + nanos }
  | .sleep d => some { s with naps := s.naps.add ⟨Sleep.sleep s.time d, some (s.time, d)⟩ }
  | .sleepUntil deadline => some { s with naps := s.naps.add ⟨.new deadline, none⟩ }
  | .poll i waker => do
    let f ← s.naps.get i
    let (action, kernel, reactor) := Sleep.poll f.kernel s.reactor waker (Instant.now s.time)
    if action = .fail then none
    else return { s with reactor, naps := s.naps.put i (some { f with kernel }) }
  | .reset i deadline => do
    let f ← s.naps.get i
    let (kernel, reactor) := Sleep.reset f.kernel s.reactor deadline
    return { s with reactor, naps := s.naps.put i (some ⟨kernel, none⟩) }
  | .drop i => do
    let f ← s.naps.get i
    let (_, reactor) := Sleep.drop f.kernel s.reactor
    return { s with reactor, naps := s.naps.put i none }
  | .park timeout poll => do
    let (_, reactor) ←
      s.reactor.flushPendingDeregister.park timeout (Instant.now s.time) poll
    return { s with reactor, readAt := some s.time }
  | .io op =>
    if Sleepers.permitsIo s.reactor op then
      (s.reactor.call op).map fun reactor => { s with reactor }
    else none

/-- A new reactor, at some time, on a thread that may have a clock from before. -/
def new (time : ℕ) (readAt : Option ℕ) : Timeline W :=
  ⟨time, { Reactor.new with cachedNow := readAt.map Instant.now }, readAt, .empty⟩

/-- Sleeps in real time as a machine. Time passes only by steps of its own. -/
def machine : Machine (Timeline W) (Label W) :=
  Machine.ofStep (fun s => ∃ time readAt, (∀ p ∈ readAt, p ≤ time) ∧ s = new time readAt) step

/-- When the clock was read that a poll goes by: the cached one, or else the real one. -/
def reading (s : Timeline W) : ℕ := s.readAt.getD s.time

/-- A poll of the future with this waker returns ready, in this state. -/
def Completes (s : Timeline W) (f : Nap) (waker : W) : Prop :=
  (Sleep.poll f.kernel s.reactor waker (Instant.now s.time)).1 = .complete

/-- A `Sleep` made at this time by `sleep` is complete only at polls that go by a clock that was
read when the duration had passed. -/
def NeverEarly (W : Type) (created : ℕ) (d : StdDuration) : Prop :=
  ∀ s : Timeline W, machine.Reachable s → ∀ i f waker, s.naps.get i = some f →
    f.call = some (created, d) → s.Completes f waker → created + d.asNanos ≤ s.reading

/-- Both are whole milliseconds, and the last of them still is an instant. -/
def Whole (created : ℕ) (d : StdDuration) : Prop :=
  created % 1000000 = 0 ∧ d.asNanos % 1000000 = 0 ∧ (created + d.asNanos) / 1000000 < 2 ^ 64

end Timeline

/-! ### Rounding -/

theorem Instant.toNat_now (time : ℕ) : (now time).toNat = time / 1000000 % 2 ^ 64 :=
  UInt64.toNat_ofNat'

/-- Instants are rounded down, so that they are not ahead of the real time. -/
theorem Instant.now_le (time : ℕ) : (now time).toNat * 1000000 ≤ time := by
  rw [toNat_now]
  omega

theorem Instant.toNat_add (instant duration : UInt64) :
    (add instant duration).toNat = min (instant.toNat + duration.toNat) (2 ^ 64 - 1) := by
  have hinstant := instant.toNat_lt
  have hduration := duration.toNat_lt
  rw [add]
  split
  · rename_i hlt
    rw [UInt64.lt_iff_toNat_lt, UInt64.toNat_add] at hlt
    show 2 ^ 64 - 1 = _
    omega
  · rename_i hnot
    rw [UInt64.lt_iff_toNat_lt, UInt64.toNat_add] at hnot
    rw [UInt64.toNat_add]
    omega

/-- The deadline of a `Sleep` in milliseconds, with what is cut off and what saturates. -/
theorem Sleep.toNat_deadline_sleep (time : ℕ) (d : StdDuration) :
    (sleep time d).deadline.toNat =
      min (time / 1000000 % 2 ^ 64 + d.asNanos / 1000000 % 2 ^ 64) (2 ^ 64 - 1) := by
  have hduration : (Duration.fromStd d).toNat = d.asNanos / 1000000 % 2 ^ 64 := by
    rw [← d.asMillis_eq]
    exact UInt64.toNat_ofNat'
  rw [sleep, SleepKernel.new, Instant.toNat_add, Instant.toNat_now, hduration]

/-- The deadline is not before the duration has passed, exactly if nothing is rounded. -/
theorem Sleep.le_deadline_sleep_iff (time : ℕ) (d : StdDuration) :
    time + d.asNanos ≤ (sleep time d).deadline.toNat * 1000000 ↔ Timeline.Whole time d := by
  rw [toNat_deadline_sleep, Timeline.Whole]
  omega

/-! ### The cached clock -/

namespace Timeline

variable {W : Type} {s s' : Timeline W} {l : Label W} {i : ℕ} {f : Nap} {waker : W}

/-- What holds in every run: what polls rely on, and what is known of readings and deadlines. -/
structure Sound (s : Timeline W) : Prop where
  kept : s.reactor.Kept
  /-- The cached clock was read, and is not ahead of that. -/
  cached : ∀ now, s.reactor.cachedNow = some now →
    ∃ p, s.readAt = some p ∧ p ≤ s.time ∧ now.toNat * 1000000 ≤ p
  /-- It was not read if there is none. -/
  uncached : s.reactor.cachedNow = none → s.readAt = none
  /-- The deadlines are those of the calls, unless the `Sleep` was reset since. -/
  deadline : ∀ i f created d, s.naps.get i = some f → f.call = some (created, d) →
    f.kernel.deadline = (Sleep.sleep created d).deadline

/-- A poll returns ready if the clock that it goes by has come to the deadline. -/
theorem completes_iff :
    s.Completes f waker ↔ f.kernel.deadline ≤ Sleep.clock s.reactor (Instant.now s.time) := by
  rw [Completes]
  by_cases h : f.kernel.deadline ≤ Sleep.clock s.reactor (Instant.now s.time)
  · rw [Sleep.poll_of_le h]
    exact iff_of_true rfl h
  · obtain ⟨res, r', hreg⟩ : ∃ res r', ReactorHandle.registerTimer
        (Sleep.disarm f.kernel s.reactor) f.kernel.deadline waker = (res, r') := ⟨_, _, rfl⟩
    rw [Sleep.poll_of_not_le h hreg]
    cases res with
    | ok rid => exact iff_of_false (by rintro ⟨⟩) h
    | error e => exact iff_of_false (by rintro ⟨⟩) h

/-- The clock that a poll goes by is not ahead of when it was read. -/
theorem Sound.clock_le (h : s.Sound) :
    (Sleep.clock s.reactor (Instant.now s.time)).toNat * 1000000 ≤ s.reading := by
  rw [Sleep.clock, reading]
  cases hcached : s.reactor.cachedNow with
  | none =>
    rw [h.uncached hcached]
    exact Instant.now_le s.time
  | some now =>
    obtain ⟨p, hp, -, hle⟩ := h.cached now hcached
    rw [hp]
    exact hle

/-- Neither is the wheel ahead of the time, as it follows the readings. -/
theorem Sound.elapsed_le (h : s.Sound) : s.reactor.wheel.elapsed.toNat * 1000000 ≤ s.time := by
  have helapsed := UInt64.le_iff_toNat_le.mp h.kept.elapsed
  cases hcached : s.reactor.cachedNow with
  | none =>
    rw [hcached] at helapsed
    have hzero : s.reactor.wheel.elapsed.toNat = 0 := Nat.le_zero.mp helapsed
    rw [hzero, Nat.zero_mul]
    exact Nat.zero_le _
  | some now =>
    rw [hcached] at helapsed
    have hnow : s.reactor.wheel.elapsed.toNat ≤ now.toNat := helapsed
    obtain ⟨p, -, hp, hle⟩ := h.cached now hcached
    exact (Nat.mul_le_mul_right _ hnow).trans (hle.trans hp)

/-- Steps that leave the clock of the reactor as it is. -/
theorem Sound.tuned (h : s.Sound) {r' : Reactor W} (hkept : r'.Kept)
    (hcached : r'.cachedNow = s.reactor.cachedNow) {naps : Arena Nap}
    (hnaps : ∀ i f created d, naps.get i = some f → f.call = some (created, d) →
      f.kernel.deadline = (Sleep.sleep created d).deadline) :
    Sound { s with reactor := r', naps } where
  kept := hkept
  cached := fun now hnow => h.cached now (hcached.symm.trans hnow)
  uncached := fun hnone => h.uncached (hcached.symm.trans hnone)
  deadline := hnaps

/-- What a poll leaves of the reactor and the kernel. -/
theorem Sound.poll (h : s.Sound) (f : Nap) (waker : W) :
    (Sleep.poll f.kernel s.reactor waker (Instant.now s.time)).2.2.Kept ∧
      (Sleep.poll f.kernel s.reactor waker (Instant.now s.time)).2.2.cachedNow =
        s.reactor.cachedNow ∧
      (Sleep.poll f.kernel s.reactor waker (Instant.now s.time)).2.1.deadline =
        f.kernel.deadline := by
  by_cases hle : f.kernel.deadline ≤ Sleep.clock s.reactor (Instant.now s.time)
  · rw [Sleep.poll_of_le hle]
    exact ⟨h.kept, rfl, rfl⟩
  · obtain ⟨hkept, htuned⟩ := h.kept.disarm f.kernel
    have hahead : (Sleep.disarm f.kernel s.reactor).wheel.elapsed < f.kernel.deadline := by
      rw [htuned.elapsed]
      exact h.kept.elapsed_lt hle
    have hreg := ReactorHandle.registerTimer_spec hkept.consistent hkept.marked hahead waker
      (Prod.mk.eta.symm)
    rw [Sleep.poll_of_not_le hle (Prod.mk.eta.symm)]
    refine ⟨hkept.tuned hreg.1 ?_, hreg.1.cachedNow.trans htuned.cachedNow, rfl⟩
    intro rid d hmarked
    rw [hreg.2.1] at hmarked
    cases hmarked

/-- A `Sleep` that is not new is as it was, or was reset. -/
theorem Sound.deadline_put (h : s.Sound) {g : Option Nap} (hi : s.naps.get i = some f)
    (hg : ∀ g', g = some g' → g'.call = none ∨
      g'.call = f.call ∧ g'.kernel.deadline = f.kernel.deadline) :
    ∀ j f' created d, (s.naps.put i g).get j = some f' → f'.call = some (created, d) →
      f'.kernel.deadline = (Sleep.sleep created d).deadline := by
  intro j f' created d hj hcall
  rw [Arena.get_put hi] at hj
  split at hj
  · rcases hg f' hj with hnone | ⟨hsame, hdeadline⟩
    · rw [hnone] at hcall
      cases hcall
    · rw [hdeadline]
      exact h.deadline i f created d hi (hsame.symm.trans hcall)
  · exact h.deadline j f' created d hj hcall

/-- A `Sleep` is made, with the deadline that its call has given it. -/
theorem Sound.deadline_add (h : s.Sound)
    (hf : ∀ created d, f.call = some (created, d) →
      f.kernel.deadline = (Sleep.sleep created d).deadline) :
    ∀ j f' created d, (s.naps.add f).get j = some f' → f'.call = some (created, d) →
      f'.kernel.deadline = (Sleep.sleep created d).deadline := by
  intro j f' created d hj hcall
  rw [Arena.get_add] at hj
  split at hj
  · cases hj
    exact hf created d hcall
  · exact h.deadline j f' created d hj hcall

theorem Sound.step (h : s.Sound) (hstep : s.step l = some s') : s'.Sound := by
  cases l with
  | wait nanos =>
    cases hstep
    refine ⟨h.kept, fun now hnow => ?_, h.uncached, h.deadline⟩
    obtain ⟨p, hp, hle, hnow⟩ := h.cached now hnow
    exact ⟨p, hp, hle.trans (Nat.le_add_right _ _), hnow⟩
  | sleep d =>
    cases hstep
    refine h.tuned h.kept rfl (h.deadline_add fun created d hcall => ?_)
    cases hcall
    rfl
  | sleepUntil deadline =>
    cases hstep
    exact h.tuned h.kept rfl (h.deadline_add fun created d hcall => by cases hcall)
  | poll i waker =>
    obtain ⟨f, hf, hstep⟩ := Option.bind_eq_some_iff.mp hstep
    obtain ⟨hkept, hcached, hdeadline⟩ := h.poll f waker
    dsimp only at hstep
    split at hstep
    · cases hstep
    · cases hstep
      refine h.tuned hkept hcached (h.deadline_put hf fun g' hg' => ?_)
      cases hg'
      exact .inr ⟨rfl, hdeadline⟩
  | reset i deadline =>
    obtain ⟨f, hf, hstep⟩ := Option.bind_eq_some_iff.mp hstep
    obtain ⟨hkept, htuned⟩ := h.kept.disarm f.kernel
    cases hstep
    refine h.tuned hkept htuned.cachedNow (h.deadline_put hf fun g' hg' => ?_)
    cases hg'
    exact .inl rfl
  | drop i =>
    obtain ⟨f, hf, hstep⟩ := Option.bind_eq_some_iff.mp hstep
    obtain ⟨hkept, htuned⟩ := h.kept.disarm f.kernel
    cases hstep
    exact h.tuned hkept htuned.cachedNow (h.deadline_put hf fun g' hg' => by cases hg')
  | park timeout poll =>
    obtain ⟨⟨res, r'⟩, hpark, hstep⟩ := Option.bind_eq_some_iff.mp hstep
    cases hstep
    obtain ⟨htuned, -⟩ := Reactor.flush_spec h.kept.consistent
    obtain ⟨-, hcached, -⟩ := Reactor.park_clock htuned.consistent hpark
    refine ⟨h.kept.park hpark, fun now hnow => ⟨s.time, rfl, Nat.le_refl _, ?_⟩, fun hnone => ?_,
      h.deadline⟩
    · cases hcached.symm.trans hnow
      have helapsed := h.elapsed_le
      rw [← htuned.elapsed] at helapsed
      rw [Reactor.toNat_getCurrentTime]
      rcases max_choice (Instant.now s.time).toNat
          s.reactor.flushPendingDeregister.wheel.elapsed.toNat with heq | heq
      · rw [heq]
        exact Instant.now_le s.time
      · rw [heq]
        exact helapsed
    · rw [hcached] at hnone
      cases hnone
  | io op =>
    rw [Timeline.step] at hstep
    split at hstep
    · rename_i hio
      obtain ⟨r', hcall, rfl⟩ := Option.map_eq_some_iff.mp hstep
      have hcached := (Sleepers.call_io h.kept.consistent hio hcall).1.cachedNow
      exact h.tuned (Sleepers.kept_io h.kept hio hcall) hcached h.deadline
    · cases hstep

theorem sound_of_reachable (h : machine.Reachable s) : s.Sound := by
  refine h.invariant ?_ fun s l s' hs hstep => hs.step hstep
  rintro s ⟨time, readAt, hle, rfl⟩
  refine ⟨Reactor.kept_new _, fun now hnow => ?_, fun hnone => Option.map_eq_none_iff.mp hnone, ?_⟩
  · obtain ⟨p, hp, rfl⟩ := Option.map_eq_some_iff.mp hnow
    exact ⟨p, hp, hle p hp, Instant.now_le p⟩
  · intro i f created d hi
    cases (Arena.get_empty i).symm.trans hi

/-! ### How early a sleep is complete -/

/-- A `Sleep` is complete at a reading of its deadline or later. -/
theorem deadline_le_reading (h : machine.Reachable s) {created : ℕ} {d : StdDuration}
    (hf : s.naps.get i = some f) (hcall : f.call = some (created, d))
    (hcompletes : s.Completes f waker) :
    (Sleep.sleep created d).deadline.toNat * 1000000 ≤ s.reading := by
  have hsound := sound_of_reachable h
  have hle := UInt64.le_iff_toNat_le.mp (completes_iff.mp hcompletes)
  rw [hsound.deadline i f created d hf hcall] at hle
  exact (Nat.mul_le_mul_right _ hle).trans hsound.clock_le

/-- **How early.** As long as deadlines are instants, a `Sleep` is complete less than two
milliseconds before its time, or later. -/
theorem lt_of_completes (h : machine.Reachable s) {created : ℕ} {d : StdDuration}
    (hf : s.naps.get i = some f) (hcall : f.call = some (created, d))
    (hcompletes : s.Completes f waker) (hlt : (created + d.asNanos) / 1000000 < 2 ^ 64) :
    created + d.asNanos < s.reading + 2000000 := by
  have hle := deadline_le_reading h hf hcall hcompletes
  rw [Sleep.toNat_deadline_sleep] at hle
  omega

/-- A park caches an instant that is not before the real time. -/
theorem exists_park (h : s.Sound) (timeout : Option UInt64)
    (poll : Except IoError (List MioEvent)) : ∃ r' now,
      s.step (.park timeout poll) = some { s with reactor := r', readAt := some s.time } ∧
        r'.cachedNow = some now ∧ Instant.now s.time ≤ now := by
  obtain ⟨htuned, -⟩ := Reactor.flush_spec h.kept.consistent
  obtain ⟨wakes, io, r', hpark, -⟩ :=
    Reactor.park_spec htuned.consistent timeout (Instant.now s.time) poll
  have hcached := (Reactor.park_clock htuned.consistent hpark).2.1
  refine ⟨r', _, ?_, hcached, Sleepers.le_getCurrentTime _ _⟩
  rw [step, hpark]
  rfl

/-- A `Sleep` whose deadline is too early can complete too early: the clock is read at the
deadline. -/
theorem exists_early (W : Type) (created : ℕ) (d : StdDuration) :
    ∃ s : Timeline W, machine.Reachable s ∧
    (∃ i f, s.naps.get i = some f ∧ f.call = some (created, d) ∧ ∀ waker, s.Completes f waker) ∧
      s.reading = (Sleep.sleep created d).deadline.toNat * 1000000 := by
  set nap : Nap := ⟨Sleep.sleep created d, some (created, d)⟩
  set deadline := (Sleep.sleep created d).deadline
  set due := deadline.toNat * 1000000 with hdue
  have hnow : Instant.now due = deadline := by
    rw [← UInt64.toNat_inj, Instant.toNat_now, hdue, Nat.mul_div_cancel _ (by decide)]
    exact Nat.mod_eq_of_lt deadline.toNat_lt
  have hnew : ∀ time, machine.Reachable (new time none : Timeline W) :=
    fun time => .of_init ⟨time, none, by simp, rfl⟩
  have hcompletes : ∀ {s : Timeline W} {now : UInt64}, s.reactor.cachedNow = some now →
      deadline ≤ now → ∀ waker, s.Completes nap waker := by
    intro s now hcached hle waker
    rw [completes_iff, Sleep.clock, hcached]
    exact hle
  rcases Nat.le_total due created with hle | hle
  · -- the clock is read before the call
    obtain ⟨r', now, hpark, hcached, hlate⟩ :=
      exists_park (sound_of_reachable (hnew due)) none (.ok [])
    have hlate : Instant.now due ≤ now := hlate
    rw [hnow] at hlate
    have hwait : (@machine W).step ⟨due, r', some due, .empty⟩ (.wait (created - due))
        ⟨created, r', some due, .empty⟩ := by
      show some (⟨due + (created - due), r', some due, .empty⟩ : Timeline W) = _
      rw [Nat.add_sub_cancel' hle]
    have hsleep : (@machine W).step ⟨created, r', some due, .empty⟩ (.sleep d)
        ⟨created, r', some due, .add .empty nap⟩ := rfl
    exact ⟨_, (((hnew due).step hpark).step hwait).step hsleep,
      ⟨0, nap, rfl, rfl, hcompletes hcached hlate⟩, rfl⟩
  · -- it is read after the call
    have hsleep : (@machine W).step (new created none) (.sleep d)
        ⟨created, (new created none).reactor, none, .add .empty nap⟩ := rfl
    have hwait : (@machine W).step ⟨created, (new created none).reactor, none, .add .empty nap⟩
        (.wait (due - created)) ⟨due, (new created none).reactor, none, .add .empty nap⟩ := by
      show some (⟨created + (due - created), (new created none).reactor, none, .add .empty nap⟩ :
        Timeline W) = _
      rw [Nat.add_sub_cancel' hle]
    have hreach := ((hnew created).step hsleep).step hwait
    obtain ⟨r', now, hpark, hcached, hlate⟩ :=
      exists_park (sound_of_reachable hreach) none (.ok [])
    have hlate : Instant.now due ≤ now := hlate
    rw [hnow] at hlate
    exact ⟨_, hreach.step hpark, ⟨0, nap, rfl, rfl, hcompletes hcached hlate⟩, rfl⟩

/-- **Whether a sleep is early.** A `Sleep` made by `sleep` completes only at polls that go by a
clock that was read after the duration had passed, whatever the run, if and only if the time of the
call and the duration are whole milliseconds, and their sum is an instant. -/
theorem neverEarly_iff [Inhabited W] (created : ℕ) (d : StdDuration) :
    NeverEarly W created d ↔ Whole created d := by
  rw [← Sleep.le_deadline_sleep_iff]
  constructor
  · intro h
    obtain ⟨s, hs, ⟨i, f, hf, hcall, hcompletes⟩, hreading⟩ := exists_early W created d
    rw [← hreading]
    exact h s hs i f default hf hcall (hcompletes default)
  · intro hle s hs i f waker hf hcall hcompletes
    exact hle.trans (deadline_le_reading hs hf hcall hcompletes)

/-- `sleep` is called a nanosecond before the first millisecond is over, with a nanosecond less than
two milliseconds. The `Sleep` is complete when the first millisecond is over. -/
theorem not_neverEarly : ¬ ∀ (created : ℕ) (d : StdDuration), NeverEarly ℕ created d := by
  intro h
  obtain ⟨s, hs, ⟨i, f, hf, hcall, hcompletes⟩, hreading⟩ :=
    exists_early ℕ 999999 ⟨0, 1999999, by decide⟩
  have hle := h 999999 ⟨0, 1999999, by decide⟩ s hs i f 0 hf hcall (hcompletes 0)
  rw [hreading, Sleep.toNat_deadline_sleep] at hle
  exact absurd hle (by decide)

end Timeline

end Lion
