import Lion.Time.RealTime

/-!
# Intervals

`Interval` of `lion-utility`: a `Sleep`, and a ledger of the deadline it is armed to. A poll that
finds the `Sleep` complete is a tick. It adds the period to the deadline in the ledger and arms
another `Sleep` to the sum, so that deadlines do not depend on when the polls come.

The ledger adds machine words, and relies on the sum being one. Nothing sees to that: an `Interval`
can start at any instant and have any period, and it is not limited how often it ticks. Where the
sum is not a word, the poll panics, or the deadline wraps around and lies in the past.

## What exact means

An interval is exact up to its tick number `n` if three things hold in every run: after any number
of ticks up to `n` the deadline is that many periods after the start, deadlines never went back, and
no poll before the last of these ticks panicked, other than by the reactor refusing a timer.
`exact_iff` gives the one number on which all three depend, the deadline that would be due after `n`
ticks. It is the same for both ways of building the code, though what goes wrong is not.

Only the number of ticks matters and not when they come. So the runs are of polls with any reactor
and any reading of the clock, and a poll at the last instant (`lastPoll`) is always a tick.

## Conventions

Whether additions are checked for overflow is up to how the code is built, and a parameter here. A
poll goes by the reactor of the thread; it may have become any other one since the last poll. The
deadlines that an interval was armed to before are not in the source.

## Main results

* `Ticker.exact_iff` — how many ticks are exact
* `Ticker.not_exact` — an interval whose first tick is not
-/

namespace Lion

/-! ### Intervals -/

/-- The sum of two words. Overflow is a panic if additions are checked, and else it wraps. -/
def add64 (checks : Bool) (a b : UInt64) : Option UInt64 :=
  if checks && decide (a + b < a) then none else some (a + b)

/-- `IntervalKernel`, without its ghost ledger: what the arithmetic of an interval works on. -/
structure IntervalKernel where
  /-- The deadline of the next tick. -/
  deadline : UInt64
  period : UInt64
deriving DecidableEq, Repr

namespace IntervalKernel

/-- `IntervalKernel::new`: the first tick is due at the start. -/
def new (start period : UInt64) : IntervalKernel := ⟨start, period⟩

/-- `IntervalKernel::tick_step`, whose sum is checked or wraps; `none` if it panics. -/
def tickStep (checks : Bool) (k : IntervalKernel) : Option (UInt64 × IntervalKernel) :=
  (add64 checks k.deadline k.period).map fun deadline => (deadline, { k with deadline })

end IntervalKernel

/-- `Interval`: the shell around the ledger, with the `Sleep` that waits for the next tick. -/
structure Interval where
  /-- The `Sleep` until the next tick. -/
  sleep : SleepKernel
  ikern : IntervalKernel
deriving DecidableEq, Repr

/-- Why a poll of an interval panics. -/
inductive TickPanic
  /-- The reactor refuses the timer of the `Sleep`. -/
  | refused
  /-- The next deadline is not a word. -/
  | overflow
deriving DecidableEq, Repr

namespace Interval

variable {W : Type*}

/-- `period_ticks`: a period of no milliseconds is taken to be one. -/
def periodTicks (period : UInt64) : UInt64 := if period = 0 then 1 else period

/-- `Interval::new_at`: a `Sleep` until the start, and a ledger that agrees with it. -/
def newAt (start period : UInt64) : Interval := ⟨.new start, .new start (periodTicks period)⟩

/-- `Interval::new`; `raw` is what `Instant::now` says. -/
def new (raw period : UInt64) : Interval := newAt (Instant.add raw period) period

/-- `Interval::poll_tick`; `raw` is what `Instant::now` would say to the poll of the `Sleep`, and
`now` is what it says at a tick. -/
def pollTick (checks : Bool) (iv : Interval) (r : Reactor W) (waker : W) (raw now : UInt64) :
    Except TickPanic (Option UInt64 × Interval × Reactor W) :=
  match Sleep.poll iv.sleep r waker raw with
  | (.complete, sleep, r) =>
    match iv.ikern.tickStep checks with
    | some (next, ikern) => .ok (some now, ⟨.new next, ikern⟩, (Sleep.drop sleep r).2)
    | none => .error .overflow
  | (.suspend, sleep, r) => .ok (none, { iv with sleep }, r)
  | (.fail, _, _) => .error .refused

/-- How an interval is made: by `interval_at`, or by `interval` at an instant. -/
inductive Making
  | intervalAt (start period : UInt64)
  | interval (raw period : UInt64)

namespace Making

/-- The interval that is made, in either way. -/
def make : Making → Interval
  | intervalAt start period => newAt start period
  | interval raw period => new raw period

/-- The start of the interval, at which the first tick is due. -/
def start : Making → UInt64
  | intervalAt start _ => start
  | interval raw period => Instant.add raw period

/-- The period that is asked for, which may be nothing. -/
def period : Making → UInt64
  | intervalAt _ period => period
  | interval _ period => period

/-- When the deadline after `n` ticks should be: a period of no time counts as one millisecond. -/
def due (made : Making) (n : ℕ) : ℕ := made.start.toNat + n * max made.period.toNat 1

end Making

end Interval

/-! ### Ticking -/

/-- An interval that is polled, and what its deadlines were. -/
structure Ticker where
  interval : Interval
  /-- The deadlines it was armed to before, the latest one first. -/
  past : List UInt64

namespace Ticker

/-- The deadline of the next tick, as the `Sleep` has it. -/
def deadline (s : Ticker) : UInt64 := s.interval.sleep.deadline

/-- The number of completed ticks, each of which has left its deadline behind. -/
def ticks (s : Ticker) : ℕ := s.past.length

/-- A poll, and what it finds: the reactor of its thread and the readings of the clock. -/
structure Poll (W : Type) where
  reactor : Reactor W
  waker : W
  /-- What `Instant::now` would say. -/
  raw : UInt64
  /-- What it says at a tick. -/
  now : UInt64

variable {W : Type}

/-- The poll of an interval, with the panic that it may end in. -/
def poll (checks : Bool) (s : Ticker) (p : Poll W) :
    Except TickPanic (Option UInt64 × Interval × Reactor W) :=
  s.interval.pollTick checks p.reactor p.waker p.raw p.now

/-- A poll that does not panic, as a step. -/
def step (checks : Bool) (s : Ticker) (p : Poll W) : Option Ticker :=
  match s.poll checks p with
  | .ok (some _, interval, _) => some ⟨interval, s.deadline :: s.past⟩
  | .ok (none, interval, _) => some { s with interval }
  | .error _ => none

/-- The polls of an interval as a machine. -/
def machine (W : Type) (checks : Bool) (made : Interval.Making) : Machine Ticker (Poll W) :=
  Machine.ofStep (fun s => s = ⟨made.make, []⟩) (step checks)

/-- An interval neither drifts nor regresses nor overflows up to its tick number `n`. -/
structure Exact (W : Type) (checks : Bool) (made : Interval.Making) (n : ℕ) : Prop where
  /-- After `n` ticks the deadline is `n` periods after the start, or the last instant. -/
  deadline : ∀ s, (machine W checks made).Reachable s → s.ticks = n →
    s.deadline.toNat = min (made.due n) (2 ^ 64 - 1)
  /-- The deadlines do not go back. -/
  sorted : ∀ s, (machine W checks made).Reachable s → s.ticks ≤ n →
    (s.deadline :: s.past).Pairwise (· ≥ ·)
  /-- Polls panic only if the reactor refuses the timer of the `Sleep`. -/
  noPanic : ∀ s, (machine W checks made).Reachable s → s.ticks < n →
    ∀ (p : Poll W) (e : TickPanic), s.poll checks p = .error e →
      (Sleep.poll s.interval.sleep p.reactor p.waker p.raw).1 = .fail

end Ticker

/-! ### The ledger -/

/-- A sum of words is less than the first of them if it wraps. -/
theorem add64_lt_iff (a b : UInt64) : a + b < a ↔ 2 ^ 64 ≤ a.toNat + b.toNat := by
  have ha := a.toNat_lt
  have hb := b.toNat_lt
  rw [UInt64.lt_iff_toNat_lt, UInt64.toNat_add]
  omega

/-- A sum is had, unless it overflows where that is checked. -/
theorem add64_eq_some_iff {checks : Bool} {a b c : UInt64} :
    add64 checks a b = some c ↔ (checks = true → a.toNat + b.toNat < 2 ^ 64) ∧ c = a + b := by
  rw [← Nat.not_le, ← add64_lt_iff, add64]
  cases checks <;> by_cases h : a + b < a <;> simp [h, eq_comm]

theorem add64_eq_none_iff {checks : Bool} {a b : UInt64} :
    add64 checks a b = none ↔ checks = true ∧ 2 ^ 64 ≤ a.toNat + b.toNat := by
  rw [← add64_lt_iff, add64]
  cases checks <;> by_cases h : a + b < a <;> simp [h]

namespace Interval

theorem toNat_periodTicks (period : UInt64) :
    (periodTicks period).toNat = max period.toNat 1 := by
  rw [periodTicks]
  split
  · rename_i hzero
    rw [hzero]
    rfl
  · rename_i hne
    have hpos : period.toNat ≠ 0 := fun h => hne (UInt64.toNat_inj.mp h)
    omega

namespace Making

variable (made : Making) (n : ℕ)

/-- Both ways to make an interval are the same, but for the start. -/
theorem make_eq : made.make = newAt made.start made.period := by
  cases made <;> rfl

@[simp]
theorem due_zero : made.due 0 = made.start.toNat := by
  simp [due]

theorem due_succ : made.due (n + 1) = made.due n + (periodTicks made.period).toNat := by
  rw [due, due, toNat_periodTicks, Nat.succ_mul, Nat.add_assoc]

theorem due_mono {m n : ℕ} (h : m ≤ n) : made.due m ≤ made.due n :=
  Nat.add_le_add_left (Nat.mul_le_mul_right _ h) _

end Making

end Interval

/-! ### Polls -/

/-- A poll leaves the deadline as it is, whatever it does about the timer. -/
theorem Sleep.deadline_poll {W : Type*} (k : SleepKernel) (r : Reactor W) (waker : W)
    (raw : UInt64) : (Sleep.poll k r waker raw).2.1.deadline = k.deadline := by
  have hstep : ∀ now reg, (k.pollStep now reg).2.deadline = k.deadline := by
    intro now reg
    simp only [SleepKernel.pollStep]
    split
    · rfl
    · cases reg <;> rfl
  exact hstep _ _

/-- **One poll.** It is refused, it finds nothing, or it is a tick, for which the next deadline has
to be had. -/
theorem Interval.pollTick_cases {W : Type*} (checks : Bool) (iv : Interval) (r : Reactor W)
    (waker : W) (raw now : UInt64) :
    (Sleep.poll iv.sleep r waker raw).1 = .fail ∧
      iv.pollTick checks r waker raw now = .error .refused ∨
    (Sleep.poll iv.sleep r waker raw).1 = .suspend ∧
      (∃ sleep r', iv.pollTick checks r waker raw now = .ok (none, { iv with sleep }, r') ∧
        sleep.deadline = iv.sleep.deadline) ∨
    (Sleep.poll iv.sleep r waker raw).1 = .complete ∧
      (add64 checks iv.ikern.deadline iv.ikern.period = none ∧
          iv.pollTick checks r waker raw now = .error .overflow ∨
        ∃ d r', add64 checks iv.ikern.deadline iv.ikern.period = some d ∧
          iv.pollTick checks r waker raw now =
            .ok (some now, ⟨.new d, { iv.ikern with deadline := d }⟩, r')) := by
  have hdeadline := Sleep.deadline_poll iv.sleep r waker raw
  obtain ⟨action, k, r', hpoll⟩ : ∃ action k r',
      Sleep.poll iv.sleep r waker raw = (action, k, r') := ⟨_, _, _, rfl⟩
  rw [hpoll] at hdeadline ⊢
  rw [pollTick, hpoll]
  cases action with
  | fail => exact .inl ⟨rfl, rfl⟩
  | suspend => exact .inr (.inl ⟨rfl, k, r', rfl, hdeadline⟩)
  | complete =>
    refine .inr (.inr ⟨rfl, ?_⟩)
    rw [IntervalKernel.tickStep]
    cases add64 checks iv.ikern.deadline iv.ikern.period with
    | none => exact .inl ⟨rfl, rfl⟩
    | some d => exact .inr ⟨d, _, rfl, rfl⟩

namespace Ticker

variable {W : Type} {checks : Bool} {made : Interval.Making} {s t : Ticker} {p : Poll W} {n : ℕ}

/-- The next tick, if its deadline can be had. -/
def tick (s : Ticker) (d : UInt64) : Ticker :=
  ⟨⟨.new d, { s.interval.ikern with deadline := d }⟩, s.deadline :: s.past⟩

/-- A step is a tick, or it leaves the deadlines as they are. -/
theorem step_cases (h : s.step checks p = some t) :
    (∃ d, add64 checks s.interval.ikern.deadline s.interval.ikern.period = some d ∧
      t = s.tick d) ∨
    t.interval.ikern = s.interval.ikern ∧ t.deadline = s.deadline ∧ t.past = s.past := by
  rw [step, poll] at h
  obtain ⟨-, hpoll⟩ | ⟨-, sleep, r', hpoll, hdeadline⟩ | ⟨-, ⟨-, hpoll⟩ | ⟨d, r', hadd, hpoll⟩⟩ :=
    s.interval.pollTick_cases checks p.reactor p.waker p.raw p.now
  · rw [hpoll] at h
    cases h
  · rw [hpoll] at h
    cases h
    exact .inr ⟨rfl, hdeadline, rfl⟩
  · rw [hpoll] at h
    cases h
  · rw [hpoll] at h
    cases h
    exact .inl ⟨d, hadd, rfl⟩

/-- A poll panics if the reactor refuses the timer, or if the next deadline cannot be had. -/
theorem poll_eq_error {e : TickPanic} (h : s.poll checks p = .error e) :
    (Sleep.poll s.interval.sleep p.reactor p.waker p.raw).1 = .fail ∨
      add64 checks s.interval.ikern.deadline s.interval.ikern.period = none := by
  rw [poll] at h
  obtain ⟨hfail, -⟩ | ⟨-, sleep, r', hpoll, -⟩ | ⟨-, ⟨hadd, -⟩ | ⟨d, r', -, hpoll⟩⟩ :=
    s.interval.pollTick_cases checks p.reactor p.waker p.raw p.now
  · exact .inl hfail
  · rw [hpoll] at h
    cases h
  · exact .inr hadd
  · rw [hpoll] at h
    cases h

/-! ### The end of time -/

section

variable (W) [Inhabited W]

/-- A poll at the last instant, which no deadline is after. -/
def lastPoll : Poll W := ⟨Reactor.new, default, 0xFFFFFFFFFFFFFFFF, 0xFFFFFFFFFFFFFFFF⟩

/-- It finds the `Sleep` complete, whatever the deadline. -/
theorem complete_lastPoll (k : SleepKernel) :
    (Sleep.poll k (lastPoll W).reactor (lastPoll W).waker (lastPoll W).raw).1 = .complete := by
  have hle : k.deadline ≤ Sleep.clock (Reactor.new : Reactor W) 0xFFFFFFFFFFFFFFFF := by
    have hlt := k.deadline.toNat_lt
    rw [UInt64.le_iff_toNat_le]
    show k.deadline.toNat ≤ 2 ^ 64 - 1
    omega
  exact congrArg Prod.fst (Sleep.poll_of_le hle)

/-- It is a tick if the next deadline can be had, and else it panics. -/
theorem step_lastPoll {d : UInt64}
    (hadd : add64 checks s.interval.ikern.deadline s.interval.ikern.period = some d) :
    s.step checks (lastPoll W) = some (s.tick d) := by
  have hcomplete := complete_lastPoll W s.interval.sleep
  rw [step, poll]
  obtain ⟨hfail, -⟩ | ⟨hsuspend, -⟩ | ⟨-, ⟨hnone, -⟩ | ⟨d', r', hadd', hpoll⟩⟩ :=
    s.interval.pollTick_cases checks (lastPoll W).reactor (lastPoll W).waker (lastPoll W).raw
      (lastPoll W).now
  · cases hcomplete.symm.trans hfail
  · cases hcomplete.symm.trans hsuspend
  · cases hadd.symm.trans hnone
  · cases hadd.symm.trans hadd'
    rw [hpoll]
    rfl

theorem poll_lastPoll
    (hadd : add64 checks s.interval.ikern.deadline s.interval.ikern.period = none) :
    s.poll checks (lastPoll W) = .error .overflow := by
  have hcomplete := complete_lastPoll W s.interval.sleep
  rw [poll]
  obtain ⟨hfail, -⟩ | ⟨hsuspend, -⟩ | ⟨-, ⟨-, hpoll⟩ | ⟨d', r', hadd', -⟩⟩ :=
    s.interval.pollTick_cases checks (lastPoll W).reactor (lastPoll W).waker (lastPoll W).raw
      (lastPoll W).now
  · cases hcomplete.symm.trans hfail
  · cases hcomplete.symm.trans hsuspend
  · exact hpoll
  · cases hadd.symm.trans hadd'

end

/-! ### What holds throughout -/

/-- What holds in every run of polls, however many ticks there were. -/
structure Kept (checks : Bool) (made : Interval.Making) (s : Ticker) : Prop where
  /-- The `Sleep` is armed to the deadline in the ledger. -/
  ledger : s.interval.ikern.deadline = s.deadline
  /-- The period is at least a millisecond. -/
  period : s.interval.ikern.period = Interval.periodTicks made.period
  /-- The deadline is what is due, but for whole words. -/
  deadline : s.deadline.toNat = made.due s.ticks % 2 ^ 64
  /-- It is due at an instant if additions are checked. -/
  checked : checks = true → made.due s.ticks < 2 ^ 64
  /-- As long as it is, deadlines do not go back. -/
  sorted : made.due s.ticks < 2 ^ 64 → (s.deadline :: s.past).Pairwise (· ≥ ·)

theorem kept_make (checks : Bool) (made : Interval.Making) : Kept checks made ⟨made.make, []⟩ := by
  have hlt := made.start.toNat_lt
  rw [made.make_eq]
  refine ⟨rfl, rfl, ?_, fun _ => ?_, fun _ => List.pairwise_singleton _ _⟩
  · show made.start.toNat = made.due 0 % 2 ^ 64
    rw [made.due_zero, Nat.mod_eq_of_lt hlt]
  · show made.due 0 < 2 ^ 64
    rw [made.due_zero]
    exact hlt

namespace Kept

/-- The next deadline, while the present one is due at an instant. -/
theorem sum (h : s.Kept checks made) (hlt : made.due s.ticks < 2 ^ 64) :
    s.interval.ikern.deadline.toNat + s.interval.ikern.period.toNat = made.due (s.ticks + 1) := by
  rw [h.ledger, h.period, h.deadline, Nat.mod_eq_of_lt hlt, made.due_succ]

theorem tick (h : s.Kept checks made) {d : UInt64}
    (hadd : add64 checks s.interval.ikern.deadline s.interval.ikern.period = some d) :
    (s.tick d).Kept checks made := by
  obtain ⟨hchecked, rfl⟩ := add64_eq_some_iff.mp hadd
  have hdeadline : (s.interval.ikern.deadline + s.interval.ikern.period).toNat =
      made.due (s.ticks + 1) % 2 ^ 64 := by
    rw [UInt64.toNat_add, h.ledger, h.period, h.deadline, made.due_succ, Nat.mod_add_mod]
  refine ⟨rfl, h.period, hdeadline, fun hchecks => ?_, fun hlt => ?_⟩
  · show made.due (s.ticks + 1) < 2 ^ 64
    rw [← h.sum (h.checked hchecks)]
    exact hchecked hchecks
  · -- the deadline before was due at an instant too, and this one is not before it
    have hlt : made.due (s.ticks + 1) < 2 ^ 64 := hlt
    have hle := made.due_mono (Nat.le_succ s.ticks)
    have hsorted := h.sorted (Nat.lt_of_le_of_lt hle hlt)
    have hge : s.deadline ≤ s.interval.ikern.deadline + s.interval.ikern.period := by
      rw [UInt64.le_iff_toNat_le, hdeadline, h.deadline, Nat.mod_eq_of_lt hlt,
        Nat.mod_eq_of_lt (Nat.lt_of_le_of_lt hle hlt)]
      exact hle
    refine List.pairwise_cons.mpr ⟨fun d' hd' => ?_, hsorted⟩
    rcases List.mem_cons.mp hd' with rfl | hd'
    · exact hge
    · exact UInt64.le_trans (List.rel_of_pairwise_cons hsorted hd') hge

theorem step (h : s.Kept checks made) (hstep : s.step checks p = some t) : t.Kept checks made := by
  rcases step_cases hstep with ⟨d, hadd, rfl⟩ | ⟨hikern, hdeadline, hpast⟩
  · exact h.tick hadd
  · have hticks : t.ticks = s.ticks := congrArg List.length hpast
    exact ⟨by rw [hikern, hdeadline, h.ledger], by rw [hikern, h.period],
      by rw [hdeadline, hticks, h.deadline], by rw [hticks]; exact h.checked,
      by rw [hticks, hdeadline, hpast]; exact h.sorted⟩

end Kept

theorem kept_of_reachable (h : (machine W checks made).Reachable s) : s.Kept checks made := by
  refine h.invariant ?_ fun s p t hs hstep => hs.step hstep
  rintro s rfl
  exact kept_make checks made

/-! ### Which ticks are exact -/

/-- Any number of ticks is reached that are due at an instant. -/
theorem exists_reachable [Inhabited W] (checks : Bool) (made : Interval.Making) (n : ℕ)
    (hlt : made.due n < 2 ^ 64) : ∃ s, (machine W checks made).Reachable s ∧ s.ticks = n := by
  induction n with
  | zero => exact ⟨_, .of_init rfl, rfl⟩
  | succ n ih =>
    have hn := Nat.lt_of_le_of_lt (made.due_mono (Nat.le_succ n)) hlt
    obtain ⟨s, hs, hticks⟩ := ih hn
    have hsum := (kept_of_reachable hs).sum (hticks ▸ hn)
    have hadd : add64 checks s.interval.ikern.deadline s.interval.ikern.period = some _ :=
      add64_eq_some_iff.mpr ⟨fun _ => by rw [hsum, hticks]; exact hlt, rfl⟩
    have hstep : (machine W checks made).step s (lastPoll W) (s.tick _) := step_lastPoll W hadd
    exact ⟨_, hs.step hstep, congrArg Nat.succ hticks⟩

theorem exact_of_lt (hlt : made.due n < 2 ^ 64) : Exact W checks made n where
  deadline s hs hticks := by
    rw [(kept_of_reachable hs).deadline, hticks]
    omega
  sorted s hs hticks :=
    (kept_of_reachable hs).sorted (Nat.lt_of_le_of_lt (made.due_mono hticks) hlt)
  noPanic s hs hticks p e hpoll := by
    have hkept := kept_of_reachable hs
    refine (poll_eq_error hpoll).resolve_right fun hnone => ?_
    obtain ⟨hchecks, hge⟩ := add64_eq_none_iff.mp hnone
    rw [hkept.sum (hkept.checked hchecks)] at hge
    exact Nat.not_lt.mpr hge (Nat.lt_of_le_of_lt (made.due_mono hticks) hlt)

/-- The first tick that is due later than the last instant panics, or goes back. -/
theorem not_exact_of_le [Inhabited W] (hle : 2 ^ 64 ≤ made.due n) : ¬ Exact W checks made n := by
  intro h
  have hex : ∃ m, 2 ^ 64 ≤ made.due m := ⟨n, hle⟩
  obtain ⟨m, hm⟩ : ∃ m, Nat.find hex = m + 1 := by
    refine Nat.exists_eq_succ_of_ne_zero fun hzero => ?_
    have hdue := Nat.find_spec hex
    rw [hzero, made.due_zero] at hdue
    exact Nat.not_lt.mpr hdue made.start.toNat_lt
  have hfirst := Nat.find_spec hex
  have hmn := Nat.find_le (h := hex) hle
  have hlt : made.due m < 2 ^ 64 := Nat.not_le.mp (Nat.find_min hex (hm ▸ Nat.lt_succ_self m))
  rw [hm] at hfirst hmn
  obtain ⟨s, hs, rfl⟩ := exists_reachable (W := W) checks made m hlt
  have hkept := kept_of_reachable hs
  cases hadd : add64 checks s.interval.ikern.deadline s.interval.ikern.period with
  | none =>
    have hfail := h.noPanic s hs hmn (lastPoll W) _ (poll_lastPoll W hadd)
    cases (complete_lastPoll W s.interval.sleep).symm.trans hfail
  | some d =>
    -- it wraps around by a whole word, which is more than the period
    have hstep : (machine W checks made).step s (lastPoll W) (s.tick d) := step_lastPoll W hadd
    have hsorted := h.sorted _ (hs.step hstep) hmn
    have hge : s.deadline ≤ d := List.rel_of_pairwise_cons hsorted List.mem_cons_self
    obtain ⟨-, rfl⟩ := add64_eq_some_iff.mp hadd
    rw [← hkept.sum hlt, ← add64_lt_iff, hkept.ledger] at hfirst
    rw [hkept.ledger] at hge
    exact absurd hfirst (UInt64.not_lt.mpr hge)

/-- **How many ticks are exact.** An interval neither drifts nor regresses nor overflows up to its
tick number `n`, if and only if `n` periods after its start is an instant. This is so whether
additions are checked or not. -/
theorem exact_iff [Inhabited W] (checks : Bool) (made : Interval.Making) (n : ℕ) :
    Exact W checks made n ↔ made.start.toNat + n * max made.period.toNat 1 < 2 ^ 64 :=
  ⟨fun h => Nat.not_le.mp fun hle => not_exact_of_le hle h, fun hlt => exact_of_lt hlt⟩

/-- An interval starts at the fifth millisecond and has the longest period there is. Its first tick
panics, or arms the `Sleep` to the fourth millisecond. -/
theorem not_exact : ¬ Exact ℕ true (.intervalAt 5 0xFFFFFFFFFFFFFFFF) 1 ∧
    ¬ Exact ℕ false (.intervalAt 5 0xFFFFFFFFFFFFFFFF) 1 :=
  ⟨not_exact_of_le (by decide), not_exact_of_le (by decide)⟩

end Ticker

end Lion
