import Lion.System.Composition

/-!
# From the reactor to the task

What the reactor wakes is polled, and in time. Its wakers are called before the tick goes on, the
ready queue that they push to is drained in the same tick, and from there on it is the executor's
matter how long the task waits.

How long it takes the reactor to wake a sleeping task is a matter of the clock. If every park reads
a later time than the one before, each tick brings the reactor's instant closer to the deadline,
since there is one park in every tick; and the park that reaches it calls the waker.

## What is counted

Three clocks run here, and the results relate them. The executor counts ticks, the reactor has its
instant in milliseconds, and a log says what was polled when. `elapsed_of_run` goes from the first
to the second: in a run with later and later readings, the instant has come forward by the number of
ticks at least, but for the tick at the start, which may have parked before. `polled_of_due` goes
from the second to the third: when the instant has come to the deadline, so many ticks later the
task was polled, with the bound of `Hosts.polled_of_unwoken`.

A source of I/O has no deadline. There the count starts with the poll of the operating system that
reports it.

## Who was called

That a task is polled in time would be true of one that is polled for other reasons. The results say
`PolledAfterCall`: on the way there is a state in which the reactor has taken out the very waker
that the task had left, and the poll comes after it. For this the sleep must not be touched, and the
waker not be set anew, in the meantime; both are conditions on the labels of the run.

## Main definitions

* `System.Later` — a park reads a later time than the one before

## Main results

* `System.elapsed_of_run` — a tick brings the reactor's instant forward
* `System.unwoken_of_crossing` — the park that comes to a deadline takes the waker out
* `System.run_polled_of_sleep` — a task that sleeps is polled within so many ticks
* `System.run_polled_of_reported` — so is a task that waits for I/O, once the system reports it
-/

namespace Lion

/-! ### Parks and ticks -/

/-- The park of the current tick has returned from the operating system. -/
def Pc.parks : Pc → ℕ
  | .parkWakes _ | .parkCrossAfter _ | .tickEnd => 1
  | .pollLoop l | .nextReactor l | .nextCross l | .nextPop l | .nextInjection l | .polling l =>
    if l.second then 1 else 0
  | .idle | .rootBegin | .root | .tickBegin | .wakeDeferred | .popInjection | .parkBegin _
  | .parkCross _ _ _ | .parked _ _ => 0

/-- The poll of the operating system returns, which is the one park of its tick. -/
def Label.parks : Label → ℕ
  | .osReturns _ => 1
  | .exec | .wake _ _ | .yield | .futureReturns _ | .blockOn | .spawn _ _ | .wakeForeign _
  | .call _ => 0

theorem Marked.ticks_eq {j k : ℕ} {evs : List ExecutorEvent} (h : Marked j k evs) :
    ticks evs = if j = 6 ∧ k = 0 then 1 else 0 := by
  have hzero : ∀ ev : ExecutorEvent, ¬ ev.Bounds ∨ ev = .tickBegin → ticks [ev] = 0 := by
    intro ev hev
    refine List.count_eq_zero.mpr fun hmem => ?_
    rw [← List.mem_singleton.mp hmem] at hev
    exact hev.elim (fun hbounds => hbounds (.inr rfl)) nofun
  cases h with
  | nothing =>
    rw [if_neg (by omega)]
    rfl
  | plain hj hbounds =>
    rw [if_neg (by omega)]
    exact hzero _ (.inl hbounds)
  | @next j ev hev =>
    rw [if_neg (by omega)]
    refine hzero ev ?_
    by_cases hj : j = 0
    · subst hj
      exact .inr hev
    · exact .inl (hev.not_bounds (by omega))
  | last => rfl

namespace State

variable {s s' t : State} {l : Label} {ls : List Label} {evs : List ExecutorEvent}

theorem parks_afterLoop (lp : Loop) : (afterLoop lp).parks = if lp.second then 1 else 0 := by
  rw [afterLoop]
  split <;> rfl

theorem pc_pollHead (s : State) (lp : Loop) (empty : Pc) :
    (s.pollHead lp empty).pc = empty ∨ (s.pollHead lp empty).pc = .polling lp ∨
      (s.pollHead lp empty).pc = .pollLoop { lp with count := lp.count + 1 } := by
  rw [pollHead]
  split
  · exact .inl rfl
  · dsimp only
    split
    · exact .inr (.inl rfl)
    · exact .inr (.inr rfl)

theorem pc_drainCross (s : State) (done : State → State) :
    (s.drainCross done).pc = s.pc ∨ (s.drainCross done).pc = (done s).pc := by
  rw [drainCross]
  split
  · exact .inl rfl
  · exact .inr rfl

/-- A step of the executor's thread parks nowhere, and ends a tick that has parked. -/
theorem ExecStepped.parks (h : ExecStepped s s') :
    s'.pc.parks + (if s.pc.stage = 6 ∧ s'.pc.stage = 0 then 1 else 0) = s.pc.parks := by
  have hsame : s'.pc.stage ≠ 0 ∨ s.pc.stage ≠ 6 → s'.pc.parks = s.pc.parks →
      s'.pc.parks + (if s.pc.stage = 6 ∧ s'.pc.stage = 0 then 1 else 0) = s.pc.parks := by
    rintro hne heq
    rw [if_neg (by omega), heq, Nat.add_zero]
  have hloop : ∀ lp : Loop, s.pc.parks = (if lp.second then 1 else 0) →
      s'.pc.stage = lp.stage ∧ s'.pc.parks = (if lp.second then 1 else 0) →
      s'.pc.parks + (if s.pc.stage = 6 ∧ s'.pc.stage = 0 then 1 else 0) = s.pc.parks := by
    rintro lp hpc ⟨hstage, hparks⟩
    exact hsame (.inl (hstage ▸ lp.stage_ne_zero)) (hparks.trans hpc.symm)
  cases h with
  | rootBegin hpc => exact hsame (.inr (by simp [hpc, Pc.stage])) (by simp [hpc, Pc.parks])
  | tickBegin hpc => exact hsame (.inr (by simp [hpc, Pc.stage])) (by simp [hpc, Pc.parks])
  | wakeDeferred hpc => exact hsame (.inr (by simp [hpc, Pc.stage])) (by simp [hpc, Pc.parks])
  | popInjection hpc =>
    refine hsame (.inr (by simp [hpc, Pc.stage])) ?_
    rw [hpc, State.popInjection]
    dsimp only
    split <;> rfl
  | loopEnds lp hpc =>
    exact hloop lp (by rw [hpc, Pc.parks]) ⟨stage_afterLoop lp, parks_afterLoop lp⟩
  | loopPolls lp hpc =>
    refine hloop lp (by rw [hpc, Pc.parks]) ?_
    rcases pc_pollHead s lp (.nextReactor lp) with heq | heq | heq <;> rw [heq] <;> exact ⟨rfl, rfl⟩
  | nextReactor lp hpc => exact hloop lp (by rw [hpc, Pc.parks]) ⟨rfl, rfl⟩
  | nextCross lp hpc =>
    refine hloop lp (by rw [hpc, Pc.parks]) ?_
    rcases pc_drainCross s _ with heq | heq <;> rw [heq]
    · rw [hpc]
      exact ⟨rfl, rfl⟩
    · exact ⟨rfl, rfl⟩
  | nextPop lp hpc =>
    refine hloop lp (by rw [hpc, Pc.parks]) ?_
    rcases pc_pollHead s lp (.nextInjection lp) with heq | heq | heq <;> rw [heq] <;>
      exact ⟨rfl, rfl⟩
  | nextInjection lp hpc =>
    refine hloop lp (by rw [hpc, Pc.parks]) ?_
    rw [State.popInjection]
    dsimp only
    split
    · exact ⟨rfl, rfl⟩
    · exact ⟨stage_afterLoop lp, parks_afterLoop lp⟩
  | parkBegin count hpc => exact hsame (.inr (by simp [hpc, Pc.stage])) (by simp [hpc, Pc.parks])
  | parkCross count hd hr hpc =>
    refine hsame (.inr (by simp [hpc, Pc.stage])) ?_
    rcases pc_drainCross s _ with heq | heq <;> rw [heq, hpc]
    rfl
  | parkWakes count hpc => exact hsame (.inr (by simp [hpc, Pc.stage])) (by simp [hpc, Pc.parks])
  | parkCrossAfter count hpc =>
    refine hsame (.inr (by simp [hpc, Pc.stage])) ?_
    rcases pc_drainCross s _ with heq | heq <;> rw [heq, hpc]
    rfl
  | tickEnd hpc =>
    rw [hpc]
    rfl

/-- **Every tick that ends has parked**, and one that is inside of a tick may have. -/
theorem parks_step (hok : PcOk s) (hstep : s.step l = some s') : ∃ evs,
    s'.exec.log = s.exec.log ++ evs ∧ ticks evs + s'.pc.parks = s.pc.parks + l.parks := by
  obtain ⟨evs, hlogged, hmark⟩ := logged_step hok hstep
  refine ⟨evs, hlogged.log, ?_⟩
  rw [hmark.ticks_eq]
  cases step_cases hstep with
  | exec _ hexec =>
    have hparks := hexec.parks
    show _ = s.pc.parks + 0
    omega
  | wake | spawn | wakeForeign | call | yield =>
    show _ + s.pc.parks = s.pc.parks + 0
    dsimp only
    rw [if_neg (by omega)]
    omega
  | rootReturns ready _ hpc =>
    rw [hpc]
    cases ready <;> rfl
  | pollReturns ready _ hpc =>
    rw [hpc, if_neg fun h => Loop.stage_ne_zero _ h.2]
    exact Nat.zero_add _
  | blockOn _ hpc =>
    rw [hpc]
    rfl
  | osReturns consumed hpc =>
    rw [hpc]
    rfl

end State

namespace System

variable {s s' t : System} {l : Label} {ls : List Label} {evs : List ExecutorEvent}
  {w : TaskWaker} {L : ℕ}

/-! ### The log of the executor -/

def log (s : System) : List ExecutorEvent := s.runtime.exec.log

/-- The ids polled since `s`, but for a poll that was in progress there. -/
def polledSince (s : System) (evs : List ExecutorEvent) : List TaskId := s.runtime.polledSince evs

/-- Between `s` and `m` a park takes the waker out, and its task is polled after that. -/
abbrev PolledAfterCall (s m : System) (w : TaskWaker) (evs : List ExecutorEvent) : Prop :=
  PolledSinceCall machine System.runtime System.unwoken s m w evs

/-! ### The clock -/

/-- A park reads a later time than the instant of the one before. -/
def Later (s : System) : Label → Prop
  | .osReturns _ raw _ => s.sleepers.elapsed < raw
  | .runtime _ | .sleepers _ | .wakes => True

instance (s : System) (l : Label) : Decidable (Later s l) :=
  match l with
  | .osReturns _ raw _ => inferInstanceAs (Decidable (s.sleepers.elapsed < raw))
  | .runtime _ | .sleepers _ | .wakes => .isTrue trivial

/-- An operation on sleep number `i`: a poll, a reset or its drop. -/
def Label.touches (i : ℕ) : Label → Bool
  | .sleepers l => l.touches i
  | .runtime _ | .osReturns _ _ _ | .wakes => false

/-- A tick that ends has parked, and a park brings the instant forward. -/
theorem elapsed_step (hs : machine.Reachable s) (hstep : s.step l = some s') (hlater : Later s l) :
    ∃ evs, s'.log = s.log ++ evs ∧ s.sleepers.elapsed.toNat + ticks evs + s'.runtime.pc.parks ≤
      s'.sleepers.elapsed.toNat + s.runtime.pc.parks := by
  have hok := hosts.pcOk_of_reachable hs
  have htracked := Sleepers.tracked_of_reachable (reachable_sleepers hs)
  cases step_cases hstep with
  | @runtime l u hos _ hruntime =>
    obtain ⟨evs, hlog, hparks⟩ := State.parks_step hok hruntime
    have hzero : l.parks = 0 := by
      cases l with
      | osReturns consumed => exact absurd rfl (hos consumed)
      | _ => rfl
    refine ⟨evs, hlog, ?_⟩
    dsimp only
    omega
  | sleepers hl _ _ hsleepers =>
    refine ⟨[], (List.append_nil _).symm, ?_⟩
    dsimp only
    rw [(htracked.elapsed_step hl hsleepers).1]
    exact Nat.le_refl _
  | osReturns _ hruntime hsleepers =>
    obtain ⟨evs, hlog, hparks⟩ := State.parks_step hok hruntime
    change _ = _ + 1 at hparks
    have hraw := UInt64.lt_of_lt_of_le hlater (htracked.elapsed_park hsleepers).2.1
    rw [UInt64.lt_iff_toNat_lt] at hraw
    refine ⟨evs, hlog, ?_⟩
    dsimp only
    omega
  | wakes _ hwake =>
    obtain ⟨evs, hlog, hparks⟩ := State.parks_step hok hwake
    change _ = _ + 0 at hparks
    refine ⟨evs, hlog, ?_⟩
    dsimp only
    omega

/-- **A tick brings the reactor's instant forward.** The tick in progress at the start may have
parked before. -/
theorem elapsed_of_run (hs : machine.Reachable s) (hrun : (machine.restrict Later).Run s ls t)
    (hlog : t.log = s.log ++ evs) :
    s.sleepers.elapsed.toNat + ticks evs + t.runtime.pc.parks ≤
      t.sleepers.elapsed.toNat + s.runtime.pc.parks := by
  induction hrun generalizing evs with
  | nil =>
    obtain rfl : evs = [] := List.append_cancel_left (hlog.symm.trans (List.append_nil _).symm)
    exact Nat.le_refl _
  | @snoc as u v l hrun hlast ih =>
    obtain ⟨evs₁, hlog₁⟩ : ∃ evs₁, u.log = s.log ++ evs₁ := hosts.log_of_run hs hrun.of_restrict
    obtain ⟨evs₂, hlog₂, hle⟩ := elapsed_step (hs.run hrun.of_restrict) hlast.1 hlast.2
    obtain rfl : evs = evs₁ ++ evs₂ := by
      rw [hlog₂, hlog₁, List.append_assoc] at hlog
      exact (List.append_cancel_left hlog).symm
    have hbefore := ih hlog₁
    rw [ticks_append]
    omega

/-- A sleep that nobody touches is as it was left. -/
theorem get_of_run {i : ℕ} {f : Sleeper TaskWaker} (hrun : machine.Run s ls t)
    (hkeep : ∀ l ∈ ls, l.touches i = false) (hi : s.sleepers.sleeps.get i = some f) :
    t.sleepers.sleeps.get i = some f := by
  induction hrun with
  | nil => exact hi
  | snoc hrun hlast ih =>
    have hbefore := ih fun l hl => hkeep l (List.mem_append_left _ hl)
    have hl := hkeep _ (List.mem_append_right _ (List.mem_singleton.mpr rfl))
    cases step_cases hlast with
    | runtime | wakes => exact hbefore
    | sleepers _ _ _ hsleepers => exact Sleepers.get_of_step hl hbefore hsleepers
    | osReturns _ _ hsleepers => exact Sleepers.get_of_step rfl hbefore hsleepers

/-! ### Sleeping -/

/-- A step that moves the instant logs nothing. -/
theorem log_of_elapsed (hs : machine.Reachable s) (hstep : s.step l = some s')
    (hne : s'.sleepers.elapsed ≠ s.sleepers.elapsed) : s'.log = s.log := by
  cases step_cases hstep with
  | runtime | wakes => exact absurd rfl hne
  | sleepers hl _ _ hcall =>
    have htracked := Sleepers.tracked_of_reachable (reachable_sleepers hs)
    exact absurd (htracked.elapsed_step hl hcall).1 hne
  | osReturns _ hruntime =>
    cases State.step_cases hruntime with
    | osReturns => rfl

/-- The step that brings the instant to the deadline of a sleep that waits is a park, which is to
call its waker. -/
theorem unwoken_of_crossing {i : ℕ} {f : Sleeper TaskWaker} (hs : machine.Reachable s)
    (hi : s.sleepers.sleeps.get i = some f) (hlast : f.last = some w)
    (hstep : s.step l = some s') (hahead : s.sleepers.elapsed < f.kernel.deadline)
    (hdue : f.kernel.deadline ≤ s'.sleepers.elapsed) : w ∈ s'.unwoken := by
  have hsleepers := reachable_sleepers hs
  have hsame : s'.sleepers.elapsed = s.sleepers.elapsed → w ∈ s'.unwoken := by
    intro heq
    rw [heq] at hdue
    exact absurd (UInt64.lt_of_lt_of_le hahead hdue) (UInt64.lt_irrefl _)
  cases step_cases hstep with
  | runtime | wakes => exact hsame rfl
  | sleepers hl _ _ hcall =>
    exact hsame ((Sleepers.tracked_of_reachable hsleepers).elapsed_step hl hcall).1
  | osReturns _ _ hpark =>
    obtain ⟨k, hk, hkw⟩ := Sleepers.woken hsleepers hi hlast hahead hpark hdue
    exact List.mem_map.mpr ⟨k, hk, hkw⟩

/-- **A task whose sleep is due is polled**, within `L / n + 2` ticks after the reactor's instant
has come to the deadline, and after the park that brought it there has taken its waker out. -/
theorem polled_of_due {i : ℕ} {f : Sleeper TaskWaker} {v : System} {ls' : List Label}
    {before after : List ExecutorEvent} (hs : machine.Reachable s)
    (hi : s.sleepers.sleeps.get i = some f) (hlast : f.last = some w)
    (hahead : s.sleepers.elapsed < f.kernel.deadline) (hfirst : machine.Run s ls v)
    (hkeep : ∀ l ∈ ls, l.touches i = false) (hdue : f.kernel.deadline ≤ v.sleepers.elapsed)
    (hv : v.log = s.log ++ before) (hrest : machine.Run v ls' t) (hlog : t.log = v.log ++ after)
    (haccepted : AcceptedIn s.log w.id) (hL : 0 < L)
    (hbound : State.QueueBound L s.log (before ++ after))
    (hticks : L ≤ s.runtime.exec.eventInterval * (ticks after - 2)) :
    PolledAfterCall s v w (before ++ after) := by
  -- a park brought the instant there, and called the waker
  obtain ⟨ls₁, u, l, x, ls₂, rfl, hto, hcross, hfrom, hu, hx⟩ :=
    hfirst.exists_step (P := fun u => f.kernel.deadline ≤ u.sleepers.elapsed)
      (UInt64.not_le.mpr hahead) hdue
  have hreach := hs.run hto
  have hw := unwoken_of_crossing hreach
    (get_of_run hto (fun l hl => hkeep l (List.mem_append_left _ hl)) hi) hlast hcross
    (UInt64.not_le.mp hu) hx
  have hthrough := hto.snoc hcross
  obtain ⟨evs₁, evs₂, rfl, hx₁, hx₂⟩ := hosts.log_split hs hthrough hfrom hv
  rw [List.append_assoc] at hbound ⊢
  refine .of_run hthrough hx₁ (.of_mem hw hfrom ?_)
  refine hosts.polled_of_unwoken (hreach.step hcross) hw (hfrom.append hrest) ?_ ?_ hL ?_ ?_
  · exact hlog.trans ((congrArg (· ++ after) hx₂).trans (List.append_assoc _ _ _))
  · rw [hx₁]
    exact haccepted.append _
  · rw [hx₁]
    exact hbound.append
  · rw [hosts.interval_of_run hs hthrough, ticks_append]
    exact hticks.trans (Nat.mul_le_mul_left _ (by omega))

theorem parks_le_one (pc : Pc) : pc.parks ≤ 1 := by
  cases pc with
  | pollLoop l | nextReactor l | nextCross l | nextPop l | nextInjection l | polling l =>
    rw [Pc.parks]
    split <;> decide
  | parkWakes | parkCrossAfter | tickEnd => exact Nat.le_refl _
  | _ => exact Nat.zero_le _

/-- A task that sleeps is polled, and the instant comes to the deadline. -/
theorem polled_of_sleep {i : ℕ} {f : Sleeper TaskWaker} (hs : machine.Reachable s)
    (hrun : (machine.restrict Later).Run s ls t) (hlog : t.log = s.log ++ evs)
    (hi : s.sleepers.sleeps.get i = some f) (hlast : f.last = some w)
    (hahead : s.sleepers.elapsed < f.kernel.deadline) (hkeep : ∀ l ∈ ls, l.touches i = false)
    (haccepted : AcceptedIn s.log w.id) (hL : 0 < L) (hbound : State.QueueBound L s.log evs)
    (hticks : L ≤ s.runtime.exec.eventInterval *
      (ticks evs - (f.kernel.deadline.toNat - s.sleepers.elapsed.toNat) - 2)) :
    PolledAfterCall s t w evs ∧ f.kernel.deadline ≤ t.sleepers.elapsed := by
  have hparks := parks_le_one s.runtime.pc
  have hthree := State.lt_ticks hL ((Nat.sub_sub _ _ _).symm ▸ hticks)
  -- the instant comes to the deadline
  have hend : f.kernel.deadline ≤ t.sleepers.elapsed := by
    have hle := elapsed_of_run hs hrun hlog
    rw [UInt64.le_iff_toNat_le]
    omega
  refine ⟨?_, hend⟩
  obtain ⟨ls₁, u, l, v, ls₂, rfl, hto, hcross, hfrom, hu, hv⟩ :=
    hrun.exists_step (P := fun u => f.kernel.deadline ≤ u.sleepers.elapsed)
      (UInt64.not_le.mpr hahead) hend
  have hfirst := hto.of_restrict.snoc hcross.1
  obtain ⟨before, after, rfl, hv₁, hlog'⟩ := hosts.log_split hs hfirst hfrom.of_restrict hlog
  refine .mono hfrom.of_restrict ?_
  refine polled_of_due hs hi hlast hahead hfirst ?_ hv hv₁ hfrom.of_restrict hlog' haccepted hL
    hbound ?_
  · intro l' hl'
    refine hkeep l' ?_
    rw [List.append_cons]
    exact List.mem_append_left _ hl'
  · -- and not many ticks have ended by then
    have hu' := UInt64.not_le.mp hu
    have hsame := log_of_elapsed (hs.run hto.of_restrict) hcross.1
      (UInt64.ne_of_lt (UInt64.lt_of_lt_of_le hu' hv)).symm
    have hle := elapsed_of_run hs hto (hsame.symm.trans hv₁)
    rw [UInt64.lt_iff_toNat_lt] at hu'
    rw [ticks_append] at hticks
    exact hticks.trans (Nat.mul_le_mul_left _ (by omega))

/-- **A task that sleeps is polled.** Suppose a sleep waits with the waker of a task, nobody touches
the sleep, and every park reads a later time than the one before. Then the task is polled within
`d + L / n + 2` ticks, for `d` milliseconds to the deadline, a local queue of at most `L`, and a
budget of `n`, whatever else happens. And polling the sleep completes it then. -/
theorem run_polled_of_sleep {i : ℕ} {f : Sleeper TaskWaker} (hs : machine.Reachable s)
    (hrun : (machine.restrict Later).Run s ls t) (hlog : t.log = s.log ++ evs)
    (hi : s.sleepers.sleeps.get i = some f) (hlast : f.last = some w)
    (hahead : s.sleepers.elapsed < f.kernel.deadline) (hkeep : ∀ l ∈ ls, l.touches i = false)
    (haccepted : AcceptedIn s.log w.id) (hL : 0 < L) (hbound : State.QueueBound L s.log evs)
    (hticks : L ≤ s.runtime.exec.eventInterval *
      (ticks evs - (f.kernel.deadline.toNat - s.sleepers.elapsed.toNat) - 2)) :
    PolledAfterCall s t w evs ∧
      ∀ waker raw, (Sleep.poll f.kernel t.sleepers.reactor waker raw).1 = .complete := by
  obtain ⟨hpolled, hend⟩ := polled_of_sleep hs hrun hlog hi hlast hahead hkeep haccepted hL hbound
    hticks
  exact ⟨hpolled, Sleepers.completes (reachable_sleepers (hs.run hrun.of_restrict)) hend⟩

/-- Steps of the runtime alone. -/
def runs (ls : List Lion.Label) : List Label := ls.map .runtime

/-- A task is polled for the first time. It makes a sleep of 2 ms and polls it, and it sets a waker
for reading from a socket. -/
def waitStarts : List Label :=
  runs (.spawn false 0 :: .call 0 :: .blockOn :: .exec :: .futureReturns false :: State.execs 5) ++
    [.sleepers (.new 2), .sleepers (.poll 0 ⟨.task, 1⟩ 0),
      .sleepers (.io (.registerIoResource ⟨true, true⟩ (.ok ()))),
      .sleepers (.io (.setWaker 2 ⟨true, false⟩ ⟨.reactor, 1⟩))]

/-- A tick in which there is nothing to poll, with a park that reads `raw`. -/
def idleTick (raw : UInt64) : List Label :=
  runs (.exec :: .futureReturns false :: State.execs 10) ++
    .osReturns false raw (.ok []) :: runs (State.execs 8)

/-- What is left of a tick in whose park a waker is called of a task that completes then. -/
def wakesAndEnds : List Label :=
  .wakes :: runs (State.execs 3 ++ .futureReturns true :: State.execs 6)

/-- Five ticks. The task is woken in the second one. -/
def sleepEnds : List Label :=
  runs (.futureReturns false :: State.execs 7) ++ .osReturns false 1 (.ok []) ::
    runs (State.execs 8) ++ runs (.exec :: .futureReturns false :: State.execs 10) ++
    .osReturns false 2 (.ok []) :: wakesAndEnds ++ idleTick 3 ++ idleTick 4 ++ idleTick 5

/-- The task is polled again, and its sleep completes. -/
theorem run_polled_of_sleep_twoMillis : ∃ s t evs f, machine.Reachable s ∧
    (machine.restrict Later).Run s sleepEnds t ∧ t.log = s.log ++ evs ∧
    s.sleepers.sleeps.get 0 = some f ∧ f.kernel.deadline = 2 ∧ ticks evs = 5 ∧
    1 ∈ s.polledSince evs ∧
    (Sleep.poll f.kernel t.sleepers.reactor ⟨.task, 1⟩ 0).1 = .complete := by
  have hstart : machine.Reachable (new 4 .new none 0) :=
    .of_init ⟨4, .new, none, 0, by decide, rfl, rfl⟩
  obtain ⟨s, hs, hsleep, hahead, haccepted, hn, ht⟩ := Machine.exists_follow step waitStarts
    (new 4 .new none 0) (fun s => (s.sleepers.sleeps.get 0).map (fun f =>
        (f.last, f.kernel.deadline)) = some (some ⟨.task, 1⟩, 2) ∧ s.sleepers.elapsed = 0 ∧
      .popInjection (some ⟨1, 0⟩) ∈ s.log ∧ s.runtime.exec.eventInterval = 4 ∧
      (Machine.follow (fun s l => if Later s l then step s l else none) sleepEnds s).any
        (fun t => decide (t.log = s.log ++ t.log.drop s.log.length ∧
          ticks (t.log.drop s.log.length) = 5 ∧ (replay s.log).length +
            (enqueuedIds (t.log.drop s.log.length)).length ≤ 3)) = true)
    (by decide +kernel)
  obtain ⟨t, hfollow, hlog, hticks, hbound⟩ := Machine.exists_follow _ sleepEnds s _ ht
  obtain ⟨f, hf, heq⟩ := Option.map_eq_some_iff.mp hsleep
  obtain ⟨hlast, hdeadline⟩ := Prod.mk.inj heq
  have hrun : (machine.restrict Later).Run s sleepEnds t := .of_follow_restrict hfollow
  have hreach : machine.Reachable s := hstart.follow hs
  obtain ⟨hpolled, hcomplete⟩ := run_polled_of_sleep hreach hrun hlog hf hlast
    (by rw [hahead, hdeadline]; decide) (by decide) ⟨⟨1, 0⟩, haccepted, rfl⟩ (by decide)
    (State.queueBound_of_enqueued hbound) (by rw [hn, hticks, hahead, hdeadline]; decide)
  exact ⟨s, t, _, f, hreach, hrun, hlog, hf, hdeadline, hticks, hpolled.polledSince hosts hreach,
    hcomplete _ _⟩

/-! ### I/O -/

/-- A waker is set for a direction of a resource, or the resource is deregistered. -/
def Label.rearms (rid : UInt64) (mode : IoMode) : Label → Bool
  | .sleepers l => l.rearms rid mode
  | .runtime _ | .osReturns _ _ _ | .wakes => false

/-- A waker that is set stays there, until it is set anew, taken out or deregistered. -/
theorem watches_of_run {rid : UInt64} {mode : IoMode} (hs : machine.Reachable s)
    (hw : s.sleepers.Watches rid mode w) (hrun : machine.Run s ls t)
    (hkeep : ∀ l ∈ ls, l.rearms rid mode = false) : t.sleepers.Watches rid mode w := by
  induction hrun with
  | nil => exact hw
  | snoc hrun hlast ih =>
    have hbefore := ih fun l hl => hkeep l (List.mem_append_left _ hl)
    have hl := hkeep _ (List.mem_append_right _ (List.mem_singleton.mpr rfl))
    have hreach := reachable_sleepers (hs.run hrun)
    cases step_cases hlast with
    | runtime | wakes => exact hbefore
    | sleepers _ _ _ hsleepers => exact hbefore.step hreach hl hsleepers
    | osReturns _ _ hsleepers => exact hbefore.step hreach rfl hsleepers

/-- **A task that waits for I/O is polled.** Suppose a waker of the task is set for a direction of a
resource. It stays there, whatever happens, until that direction is set again or the resource is
deregistered. And if a park is told of the direction then, it takes the waker out, and the task is
polled within `L / n + 2` ticks from there. -/
theorem run_polled_of_reported {rid : UInt64} {u : System} {mode : IoMode}
    (hs : machine.Reachable s) (hw : s.sleepers.Watches rid mode w)
    (hbefore : machine.Run s ls u) (hkeep : ∀ l ∈ ls, l.rearms rid mode = false) :
    u.sleepers.Watches rid mode w ∧
      ∀ (consumed : Bool) (raw : UInt64) (poll : Except IoError (List MioEvent)) (v : System),
        u.step (.osReturns consumed raw poll) = some v → Reactor.reported poll mode rid = true →
        w ∈ v.unwoken ∧
          ∀ (ls' : List Label) (t : System) (evs : List ExecutorEvent) (L : ℕ),
            machine.Run v ls' t → t.log = v.log ++ evs → AcceptedIn v.log w.id → 0 < L →
            State.QueueBound L v.log evs →
            L ≤ v.runtime.exec.eventInterval * (ticks evs - 2) → w.id ∈ v.polledSince evs := by
  have hu := hs.run hbefore
  have hwatches := watches_of_run hs hw hbefore hkeep
  refine ⟨hwatches, fun consumed raw poll v hstep hreported => ?_⟩
  have hunwoken : w ∈ v.unwoken := by
    cases step_cases hstep with
    | osReturns _ _ hpark =>
      obtain ⟨k, hk, hkw⟩ := Sleepers.woken_of_reported (reachable_sleepers hu) hwatches hpark
        hreported
      exact List.mem_map.mpr ⟨k, hk, hkw⟩
  exact ⟨hunwoken, fun ls' t evs L hrun hlog haccepted hL hbound hticks =>
    hosts.polled_of_unwoken (hu.step hstep) hunwoken hrun hlog haccepted hL hbound hticks⟩

/-- The end of the poll, up to the park. -/
def parkBegins : List Label := runs (.futureReturns false :: State.execs 7)

/-- Three ticks, from the park that is told of the socket. -/
def readyEnds : List Label := wakesAndEnds ++ idleTick 1 ++ idleTick 1

/-- The operating system reports that the socket is readable. -/
def readable : Label := .osReturns false 1 (.ok [⟨2, true, false, false, false, false⟩])

/-- The socket is reported, and the task is polled again. -/
theorem run_polled_of_reported_readable : ∃ s u v t evs, machine.Reachable s ∧
    s.sleepers.Watches 2 .readable ⟨.reactor, 1⟩ ∧ machine.Run s parkBegins u ∧
    u.step readable = some v ∧
    machine.Run v readyEnds t ∧ t.log = v.log ++ evs ∧ ticks evs = 3 ∧ 1 ∈ v.polledSince evs := by
  have hstart : machine.Reachable (new 4 .new none 0) :=
    .of_init ⟨4, .new, none, 0, by decide, rfl, rfl⟩
  obtain ⟨s, hs, hslot, hu⟩ := Machine.exists_follow step waitStarts (new 4 .new none 0)
    (fun s => (Reactor.ioSlot s.sleepers.reactor.resources 2).bind (· .readable) =
        some ⟨.reactor, 1⟩ ∧
      (Machine.follow step parkBegins s).any (fun u => decide
        ((u.step readable).any (fun v => decide (.popInjection (some ⟨1, 0⟩) ∈ v.log ∧
          v.runtime.exec.eventInterval = 4 ∧ (Machine.follow step readyEnds v).any (fun t => decide
            (t.log = v.log ++ t.log.drop v.log.length ∧ ticks (t.log.drop v.log.length) = 3 ∧
              (replay v.log).length + (enqueuedIds (t.log.drop v.log.length)).length ≤ 3)) =
            true)) = true)) = true)
    (by decide +kernel)
  obtain ⟨u, hparks, hv⟩ := Machine.exists_follow step parkBegins s _ hu
  obtain ⟨v, hstep, hv⟩ := (Option.any_eq_true _ _).mp hv
  obtain ⟨haccepted, hn, ht⟩ := of_decide_eq_true hv
  obtain ⟨t, hends, hlog, hticks, hbound⟩ := Machine.exists_follow step readyEnds v _ ht
  have hreach : machine.Reachable s := hstart.follow hs
  have hbefore : machine.Run s parkBegins u := .of_follow hparks
  have hrun : machine.Run v readyEnds t := .of_follow hends
  have hw : s.sleepers.Watches 2 .readable ⟨.reactor, 1⟩ := Option.bind_eq_some_iff.mp hslot
  obtain ⟨-, hreported⟩ := run_polled_of_reported hreach hw hbefore (by decide)
  obtain ⟨-, hpolled⟩ := hreported _ _ _ v hstep (by decide)
  have hone := hpolled _ t _ 3 hrun hlog ⟨⟨1, 0⟩, haccepted, rfl⟩ (by decide)
    (State.queueBound_of_enqueued hbound) (by rw [hn, hticks]; decide)
  exact ⟨s, u, v, t, _, hreach, hw, hbefore, hstep, hrun, hlog, hticks, hone⟩

end System

end Lion
