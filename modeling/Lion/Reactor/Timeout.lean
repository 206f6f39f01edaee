import Lion.Reactor.IoWakes
import Lion.TimerWheel.Earliest
import Mathlib.Data.ENat.Lattice

/-!
# How long a park waits

`park` reads the clock, which it holds back to the wheel's instant, asks the wheel for the earliest
deadline, and polls the operating system for no longer than it takes to get there, and no longer
than its caller wants. Then it wakes what is due, which moves the wheel to the instant it read.

All of it rests on the wheel, so what other operations do to wakers and to I/O resources does not
matter here. `Settled` is what they have to leave in order: the wheel is well formed, and has been
drained, which insertions and removals rely on.

## The arithmetic

A wait is a number of milliseconds or has no limit, so the least of two waits is taken among the
extended natural numbers, where `⊤` is no limit (`span`). Three cases of the source are one minimum
there: no timer, a timer that is due already and waits for nothing, and a timer still to come, whose
difference from the instant does not underflow because the instant is the clamped one.

## Conventions

The calls are those of `Reactor` and those of `ReactorHandle`. New timers are set for the wheel's
future. Other calls have any arguments, and the operating system and the clock may answer anything.

## Main definitions

* `Settled` — the wheel at rest
* `span` — how long a timeout is

## Main results

* `Settled.park` — a park leaves the wheel at rest, at the instant it read
* `span_effectiveTimeout` — the lesser of the timeout and the time to the deadline
* `reachable_timeout` — no park oversleeps
-/

namespace Lion

variable {W : Type}

namespace Reactor

variable {r r' : Reactor W} {rid deadline now : UInt64}

/-- The wheel at rest: it is well formed, and has been drained. -/
structure Settled (r : Reactor W) : Prop where
  fullWf : r.wheel.FullWf
  pending : r.wheel.pending = []

/-- What is asked of callers: new timers are set for the wheel's future. -/
def Admits (r : Reactor W) : Watched.Call W → Prop
  | .op (.registerTimer deadline _) | .registerTimer deadline _ => r.wheel.elapsed < deadline
  | .op (.deregisterTimer _) | .op (.registerIoResource _ _) | .op (.deregisterIoResource _ _)
  | .op (.setWaker _ _ _) | .op (.park _ _ _) | .deregisterTimer _ | .flushPendingDeregister => True

/-- A reactor and its callers, which may be those of its handle. -/
def handled (W : Type) : Machine (Reactor W) (Watched.Call W) where
  init r := ∃ readiness cachedNow, r = { (new : Reactor W) with readiness, cachedNow }
  step r c r' := r.Admits c ∧ Watched.call r c = some r'

/-! ### The wheel at rest -/

theorem Settled.congr (h : r.Settled) (hwheel : r'.wheel = r.wheel) : r'.Settled :=
  ⟨hwheel ▸ h.fullWf, hwheel ▸ h.pending⟩

theorem Settled.registerTimer (h : r.Settled) (hd : r.wheel.elapsed < deadline) (waker : W) :
    (r.registerTimer deadline waker).2.Settled := by
  rw [Reactor.registerTimer]
  obtain heq | ⟨-, heq⟩ := allocResourceId_cases r
  · rw [heq]
    exact h
  · rw [heq]
    have hspec := TimerWheel.insert_spec h.fullWf.linked r.nextResourceId deadline
    exact ⟨h.fullWf.insert h.pending hd _, hspec.2.2.2.1.trans h.pending⟩

theorem Settled.deregisterTimer (h : r.Settled) (rid : UInt64) : (r.deregisterTimer rid).Settled :=
  ⟨h.fullWf.remove h.pending rid, (TimerWheel.pending_remove _ rid).trans h.pending⟩

theorem Settled.flush (h : r.Settled) : r.flushPendingDeregister.Settled := by
  rw [flushPendingDeregister]
  split
  · rename_i rid _ _
    have hunmark : Settled { r with pendingDeregister := none } := h.congr rfl
    exact hunmark.deregisterTimer rid
  · exact h

theorem Settled.handleRegister (h : r.Settled) (hd : r.wheel.elapsed < deadline) (waker : W) :
    (ReactorHandle.registerTimer r deadline waker).2.Settled := by
  rw [ReactorHandle.registerTimer]
  split
  · rename_i rid old _
    dsimp only
    split
    · exact h.congr rfl
    · have hunmark : Settled { r with pendingDeregister := none } := h.congr rfl
      have hremoved := hunmark.deregisterTimer rid
      refine hremoved.registerTimer ?_ waker
      exact (TimerWheel.elapsed_remove _ rid).symm ▸ hd
  · exact h.registerTimer hd waker

theorem Settled.handleDeregister (h : r.Settled) (rid : UInt64) :
    (ReactorHandle.deregisterTimer r rid).Settled := by
  rw [ReactorHandle.deregisterTimer]
  split
  · exact h.flush.congr rfl
  · exact h.flush.deregisterTimer rid

/-! ### Parking -/

/-- **The loop that wakes timers** ends, with the wheel at rest at the instant it was given. -/
theorem wakeExpiredTimers_settled {fuel : ℕ} (h : r.wheel.FullWf) (hwf : r.wheel.WellFormed)
    (hle : r.wheel.elapsed ≤ now) (hfuel : r.wheel.deadlines.occupancy < fuel) :
    ∃ (wakes : List (W × UInt64)) (r' : Reactor W), wakeExpiredTimers now fuel r = some r' ∧
      r'.Settled ∧ r'.wheel.elapsed = now ∧
      r'.log = r.log ++ wakes.map fun x => .wakeTask x.1 x.2 := by
  induction fuel generalizing r with
  | zero => omega
  | succ fuel ih =>
    rw [wakeExpiredTimers]
    obtain ⟨rid, d, wheel, hpop, hd, -, hdl, hwf', hel⟩ | ⟨wheel, hpop, -, -, hwf', hel, hpend⟩ :=
      hwf.tryPopExpired hle
    · have hfull : wheel.FullWf := by
        have hkeep : (r.wheel.tryPopExpired now).2.WellFormed →
            (r.wheel.tryPopExpired now).2.FullWf := h.tryPopExpired
        rw [hpop] at hkeep
        exact hkeep hwf'
      have hcount := VecMap.occupancy_remove hd
      have hfewer : wheel.deadlines.occupancy < fuel := by
        rw [hdl]
        omega
      rw [hpop]
      dsimp only
      split
      · rename_i waker _
        obtain ⟨wakes, r', hloop, hsettled, helapsed, hlog⟩ := ih (r := { r with
          wheel
          resources := ResourceSlab.removeTimerSlot r.resources rid
          log := r.log ++ [.wakeTask waker rid] }) hfull hwf' hel hfewer
        refine ⟨(waker, rid) :: wakes, r', hloop, hsettled, helapsed, ?_⟩
        rw [hlog]
        simp
      · exact ih (r := { r with wheel }) hfull hwf' hel hfewer
    · have hfull : wheel.FullWf := by
        have hkeep : (r.wheel.tryPopExpired now).2.WellFormed →
            (r.wheel.tryPopExpired now).2.FullWf := h.tryPopExpired
        rw [hpop] at hkeep
        exact hkeep hwf'
      rw [hpop]
      exact ⟨[], { r with wheel }, rfl, ⟨hfull, hpend⟩, hel, by simp⟩

/-- The instant that a park settles on: the reading, or that of the wheel if it is later. -/
theorem toNat_getCurrentTime (r : Reactor W) (raw : UInt64) :
    (r.getCurrentTime raw).1.toNat = max raw.toNat r.wheel.elapsed.toNat := by
  rw [Reactor.getCurrentTime]
  dsimp only
  split
  · rename_i hle
    exact (Nat.max_eq_left (UInt64.le_iff_toNat_le.mp hle)).symm
  · rename_i hgt
    exact (Nat.max_eq_right (Nat.le_of_lt (UInt64.lt_iff_toNat_lt.mp (UInt64.not_le.mp hgt)))).symm

/-- **A park** returns, with the wheel at rest at the instant it settled on, having polled once. -/
theorem Settled.park (h : r.Settled) (timeout : Option UInt64) (raw : UInt64)
    (poll : Except IoError (List MioEvent)) :
    ∃ (rest : List (OutboundCall W)) (r' : Reactor W),
      r.park timeout raw poll = some (poll.map fun _ => (), r') ∧ r'.Settled ∧
      r'.wheel.elapsed = (r.getCurrentTime raw).1 ∧
      r'.log = r.log ++ [.getCurrentTime (r.getCurrentTime raw).1,
        .pollEvents (effectiveTimeout timeout r.nextDeadline (r.getCurrentTime raw).1)] ++ rest ∧
      ∀ t, .pollEvents t ∉ rest := by
  set now := (r.getCurrentTime raw).1 with hnow
  have hle : r.wheel.elapsed ≤ now := by
    rw [UInt64.le_iff_toNat_le, hnow, toNat_getCurrentTime]
    exact Nat.le_max_right _ _
  obtain ⟨wakes, r₁, hloop, hsettled, helapsed, hlog⟩ :=
    wakeExpiredTimers_settled (r := { r with
        cachedNow := some now
        log := r.log ++ [.getCurrentTime now] ++
          [.pollEvents (effectiveTimeout timeout r.nextDeadline now)] })
      h.fullWf (h.fullWf.wellFormed h.pending) hle (Nat.lt_succ_self _)
  have hwakes : ∀ t, OutboundCall.pollEvents t ∉
      wakes.map fun x => OutboundCall.wakeTask x.1 x.2 := by
    intro t hmem
    obtain ⟨x, -, hx⟩ := List.mem_map.mp hmem
    cases hx
  cases poll with
  | error e =>
    refine ⟨wakes.map fun x => .wakeTask x.1 x.2, r₁, ?_, hsettled, helapsed, ?_, hwakes⟩
    · exact congrArg (Option.bind · fun r => some (Except.error e, r)) hloop
    · rw [hlog]
      simp
  | ok events =>
    obtain ⟨readiness, hio⟩ := processIoEvents_eq r₁ (collectIoEvents events)
    refine ⟨wakes.map (fun x => .wakeTask x.1 x.2) ++
      (collectIoEvents events).flatMap (eventCalls (ioSlot r₁.resources)),
      r₁.processIoEvents (collectIoEvents events), ?_, ?_, ?_, ?_, ?_⟩
    · exact congrArg (Option.bind · fun r =>
        some (Except.ok (), r.processIoEvents (collectIoEvents events))) hloop
    · rw [hio]
      exact hsettled.congr rfl
    · rw [hio]
      exact helapsed
    · rw [hio, hlog]
      simp
    · intro t hmem
      rcases List.mem_append.mp hmem with hmem | hmem
      · exact hwakes t hmem
      · obtain ⟨event, -, hcall⟩ := List.mem_flatMap.mp hmem
        rcases List.mem_cons.mp hcall with heq | hcall
        · cases heq
        · obtain ⟨w, -, heq⟩ := Option.map_eq_some_iff.mp (Option.mem_toList.mp hcall)
          cases heq

/-! ### The timeout -/

/-- How long a timeout is; without one a wait has no limit. -/
def span (timeout : Option UInt64) : ℕ∞ := timeout.elim ⊤ fun t => (t.toNat : ℕ∞)

/-- The timeout, if there is an earliest deadline: the lesser of the two waits. -/
theorem span_effectiveTimeout (timeout : Option UInt64) (e now : UInt64) :
    span (effectiveTimeout timeout (some e) now) =
      min (span timeout) ((e.toNat - now.toNat : ℕ) : ℕ∞) := by
  have hsub : ¬ e ≤ now → (e - now).toNat = e.toNat - now.toNat := fun h =>
    UInt64.toNat_sub_of_le _ _ (UInt64.le_of_lt (UInt64.not_le.mp h))
  have hzero : e ≤ now → e.toNat - now.toNat = 0 := fun h =>
    Nat.sub_eq_zero_of_le (UInt64.le_iff_toNat_le.mp h)
  cases timeout with
  | none =>
    rw [effectiveTimeout]
    split
    · rename_i hle
      rw [hzero hle]
      simp [span]
    · rename_i hgt
      simp [span, hsub hgt]
  | some t =>
    rw [effectiveTimeout]
    split
    · rename_i hle
      rw [hzero hle]
      simp [span]
    · rename_i hgt
      dsimp only
      split
      · rename_i hlt
        have hlt' := UInt64.lt_iff_toNat_lt.mp hlt
        rw [hsub hgt] at hlt'
        simp only [span, Option.elim_some, hsub hgt]
        exact (min_eq_right (Nat.cast_le.mpr (Nat.le_of_lt hlt'))).symm
      · rename_i hge
        have hge' := UInt64.le_iff_toNat_le.mp (UInt64.not_lt.mp hge)
        rw [hsub hgt] at hge'
        simp only [span, Option.elim_some]
        exact (min_eq_left (Nat.cast_le.mpr hge')).symm

theorem effectiveTimeout_none (timeout : Option UInt64) (now : UInt64) :
    effectiveTimeout timeout none now = timeout := by
  cases timeout with
  | none => rfl
  | some t => rfl

/-- A timer bounds every wait, also one that its caller would have without limit. -/
theorem effectiveTimeout_ne_none (timeout : Option UInt64) (e now : UInt64) :
    effectiveTimeout timeout (some e) now ≠ none := by
  intro h
  have hspan := span_effectiveTimeout timeout e now
  rw [h, span, Option.elim_none, eq_comm, min_eq_top] at hspan
  exact ENat.natCast_ne_top _ hspan.2

/-! ### Every operation -/

theorem settled_new : (new : Reactor W).Settled := ⟨TimerWheel.fullWf_new, rfl⟩

/-- **Every call** leaves the wheel at rest, if new timers are for its future. -/
theorem settled_call {c : Watched.Call W} (h : r.Settled) (hadmits : r.Admits c)
    (hcall : Watched.call r c = some r') : r'.Settled := by
  cases c with
  | op op =>
    cases op with
    | registerTimer deadline waker =>
      cases hcall
      exact h.registerTimer hadmits waker
    | deregisterTimer rid =>
      cases hcall
      exact h.deregisterTimer rid
    | registerIoResource interest osResult =>
      cases hcall
      refine h.congr ?_
      rw [Reactor.registerIoResource]
      obtain heq | ⟨-, heq⟩ := allocResourceId_cases r
      · rw [heq]
      · rw [heq]
        cases osResult <;> rfl
    | deregisterIoResource rid osResult =>
      cases hcall
      exact h.congr rfl
    | setWaker rid interest waker =>
      have hset : r.setWaker rid interest waker = some r' := hcall
      rcases setWaker_cases hset with rfl | ⟨_, _, _, _, _, rfl, -, -⟩
      · exact h
      · exact h.congr rfl
    | park timeout raw poll =>
      obtain ⟨⟨res, r₁⟩, hpark, rfl⟩ := Option.map_eq_some_iff.mp hcall
      obtain ⟨-, r₂, heq, hsettled, -⟩ := h.park timeout raw poll
      obtain rfl : r₂ = r₁ := (Prod.mk.inj (Option.some.inj (heq.symm.trans hpark))).2
      exact hsettled
  | registerTimer deadline waker =>
    cases hcall
    exact h.handleRegister hadmits waker
  | deregisterTimer rid =>
    cases hcall
    exact h.handleDeregister rid
  | flushPendingDeregister =>
    cases hcall
    exact h.flush

theorem settled_of_reachable (h : (handled W).Reachable r) : r.Settled := by
  refine h.invariant (fun r hr => ?_) fun _ _ _ hr hstep => settled_call hr hstep.1 hstep.2
  obtain ⟨readiness, cachedNow, rfl⟩ := hr
  exact settled_new.congr rfl

/-- **No park oversleeps a timer.** In every state that is reached, whatever the timeout, the clock
and the answer to the poll, `park` returns. The instant it goes by is the later of the clock's and
the wheel's. It polls once, with a timeout that is the one it was given or the time to the earliest
deadline of a live timer, whichever is shorter; there is no limit exactly if none was given and no
timer is live. The time to the deadline is only computed if the deadline is still to come, so that
it does not underflow. Afterwards the wheel is at rest at that instant, so that a timer may be
registered for any deadline after it. -/
theorem reachable_timeout (h : (handled W).Reachable r) (timeout : Option UInt64) (raw : UInt64)
    (poll : Except IoError (List MioEvent)) :
    ∃ (now : UInt64) (t : Option UInt64) (rest : List (OutboundCall W)) (r' : Reactor W),
      r.park timeout raw poll = some (poll.map fun _ => (), r') ∧
      now.toNat = max raw.toNat r.wheel.elapsed.toNat ∧
      r'.log = r.log ++ [.getCurrentTime now, .pollEvents t] ++ rest ∧
      (∀ t', .pollEvents t' ∉ rest) ∧
      t = effectiveTimeout timeout r.nextDeadline now ∧
      (∀ e, IsLeast r.wheel.liveDeadlines e →
        span t = min (span timeout) ((e.toNat - now.toNat : ℕ) : ℕ∞)) ∧
      (r.wheel.liveDeadlines = ∅ → t = timeout) ∧
      (t = none ↔ timeout = none ∧ ∀ rid, r.wheel.live rid = none) ∧
      (∀ e, r.nextDeadline = some e → ¬ e ≤ now → now.toNat + (e - now).toNat = e.toNat) ∧
      r'.wheel.elapsed ≤ now ∧
      ∀ deadline waker, now < deadline → r'.Settled ∧ r'.Admits (.registerTimer deadline waker) ∧
        r'.Admits (.op (.registerTimer deadline waker)) := by
  have hsettled := settled_of_reachable h
  obtain ⟨rest, r', hpark, hsettled', helapsed, hlog, hrest⟩ := hsettled.park timeout raw poll
  obtain ⟨hsome, hnone, -⟩ := TimerWheel.nextDeadline_exact.1 r.wheel hsettled.fullWf
  have hempty : r.wheel.liveDeadlines = ∅ ↔ r.nextDeadline = none := by
    rw [nextDeadline, hnone, Set.eq_empty_iff_forall_notMem]
    constructor
    · intro hno rid
      cases hd : r.wheel.live rid with
      | none => rfl
      | some d => exact (hno d ⟨rid, hd⟩).elim
    · rintro hno d ⟨rid, hd⟩
      cases (hno rid).symm.trans hd
  refine ⟨(r.getCurrentTime raw).1, _, rest, r', hpark, toNat_getCurrentTime r raw, hlog, hrest,
    rfl, fun e he => ?_, fun hno => ?_, ?_, fun e _ hgt => ?_, UInt64.le_of_eq helapsed,
    fun deadline waker hlt => ?_⟩
  · have hnext : r.nextDeadline = some e := (hsome e).mpr he
    rw [hnext, span_effectiveTimeout]
  · rw [hempty.mp hno, effectiveTimeout_none]
  · have hlive : (∀ rid, r.wheel.live rid = none) ↔ r.nextDeadline = none := hnone.symm
    rw [hlive]
    cases hnext : r.nextDeadline with
    | none => simp [effectiveTimeout_none]
    | some e => simp [effectiveTimeout_ne_none]
  · have hlt := UInt64.not_le.mp hgt
    rw [UInt64.toNat_sub_of_le _ _ (UInt64.le_of_lt hlt)]
    have hlt' := UInt64.lt_iff_toNat_lt.mp hlt
    omega
  · have hadmits : r'.wheel.elapsed < deadline := helapsed ▸ hlt
    exact ⟨hsettled', hadmits, hadmits⟩

/-- A park that may wait 100 waits 5 for a timer that is due at 12, at instant 7. -/
theorem reachable_timeout_timer :
    ∃ r' : Reactor ℕ, ((new : Reactor ℕ).registerTimer 12 42).2.park (some 100) 7 (.ok []) =
      some (.ok (), r') ∧ r'.wheel.elapsed ≤ 7 ∧
      ∃ rest, r'.log = [.getCurrentTime 7, .pollEvents (some 5)] ++ rest := by
  have hreach : (handled ℕ).Reachable ((new : Reactor ℕ).registerTimer 12 42).2 :=
    (Machine.Reachable.of_init (M := handled ℕ) (s := new) ⟨[], none, rfl⟩).step
      (a := .op (.registerTimer 12 42)) ⟨show (0 : UInt64) < 12 by decide, rfl⟩
  obtain ⟨now, t, rest, r', hpark, hnow, hlog, -, ht, -, -, -, -, helapsed, -⟩ :=
    reachable_timeout hreach (some 100) 7 (.ok [])
  obtain rfl : now = 7 := UInt64.toNat_inj.mp (hnow.trans (by decide +kernel))
  have hfive : t = some 5 := ht.trans (by decide +kernel)
  exact ⟨r', hpark, helapsed, rest, by rw [hlog, hfive]; rfl⟩

end Reactor

end Lion
