import Lion.Library.Machine
import Lion.TimerWheel.Advance
import Mathlib.Logic.Function.Basic

/-!
# The wheel is a map from ids to deadlines

What the wheel is for, said without slots: a finite map from resource ids to deadlines, from which
ids whose deadline has passed can be taken. `Deadlines.Step` is that specification. The wheel
refines it for every sequence of calls its caller may make: deadlines after the wheel's instant,
instants that do not go back, and no insertion or removal between a `try_pop_expired` that returned
an id and the one that returns none.

## The contract

The third condition is the one that is easily overlooked. While ids are pending, an insertion or a
removal may concern one of them, and the next pop would then find an id that is gone, or that is not
due any longer. The reactor never does so: it pops until nothing is left, within one park, and calls
nothing else meanwhile. The wheel and what its caller has to remember for this are a `Session`, and
the contract is `Session.Permits`.

## The relation

`Session.Represents` relates a session to a map: the wheel is well formed, nothing is pending if the
last pop returned none, and the live timers are those of the map. The clock is not part of the map.
It is in the calls, and what the map requires of a pop that returns nothing is that everything left
is later than the instant of that call.

## Main definitions

* `WellFormed` — every live id is placed for the wheel's instant, or pending and due
* `Deadlines.machine` — the specification
* `Session.machine` — the wheel and its caller
* `drainExpired` — popping until nothing is due

## Main results

* `WellFormed.insert`, `WellFormed.remove`, `WellFormed.tryPopExpired` — one lemma per operation
* `WellFormed.drainExpired` — draining returns what is due, once, and terminates
* `run_refines_deadlines` — every run of the wheel is a run of the map
-/

namespace Lion

namespace TimerWheel

variable {w : TimerWheel} {rid now d : UInt64}

/-- Every live id is placed for the wheel's instant, or pending and due. -/
def WellFormed (w : TimerWheel) : Prop := Held (Placed w.elapsed) (· ≤ w.elapsed) [] w

theorem wellFormed_new : WellFormed new where
  linked := linked_new
  home_live rid l s h := by rw [home_new] at h; cases h
  hand_home rid h := by cases h
  pending_due rid h := by cases h
  live_held rid d h := by cases (VecMap.get_new rid).symm.trans h
  pending_nodup := List.nodup_nil

/-! ### Insertion and removal -/

/-- `invalidate_min` touches the cached minimum only, whatever it does to it. -/
theorem exists_invalidateMin_eq (w : TimerWheel) (d : UInt64) :
    ∃ c, w.invalidateMin d = { w with cachedMin := c } := by
  rw [invalidateMin]
  split
  · split
    · exact ⟨none, rfl⟩
    · exact ⟨w.cachedMin, rfl⟩
  · exact ⟨w.cachedMin, rfl⟩

theorem exists_invalidateOld_eq (w : TimerWheel) (rid : UInt64) :
    ∃ c, w.invalidateOld rid = { w with cachedMin := c } := by
  rw [invalidateOld]
  split
  · exact exists_invalidateMin_eq w _
  · exact ⟨w.cachedMin, rfl⟩

theorem exists_lowerMin_eq (w : TimerWheel) (d : UInt64) :
    ∃ c, w.lowerMin d = { w with cachedMin := c } := by
  rw [lowerMin]
  split
  · split
    · exact ⟨some d, rfl⟩
    · exact ⟨w.cachedMin, rfl⟩
  · exact ⟨w.cachedMin, rfl⟩

/-- `insert` up to the cached minimum, which has no part in where ids are stored. -/
theorem exists_insert_eq (w : TimerWheel) (rid d : UInt64) :
    ∃ c c', w.insert rid d = { place { w with cachedMin := c } rid d with cachedMin := c' } := by
  obtain ⟨c, hc⟩ := exists_invalidateOld_eq w rid
  obtain ⟨c', hc'⟩ := exists_lowerMin_eq ((w.invalidateOld rid).place rid d) d
  exact ⟨c, c', by rw [insert, hc', hc]⟩

/-- What `place` does, in terms of homes and deadlines. -/
theorem place_spec (h : Linked w []) (rid d : UInt64) :
    Linked (w.place rid d) [] ∧
      (∀ r, (w.place rid d).home r = if r = rid then some (levelSlot d w.elapsed) else w.home r) ∧
      (w.place rid d).deadlines = w.deadlines.insert rid d ∧
      (w.place rid d).pending = w.pending ∧ (w.place rid d).elapsed = w.elapsed := by
  have hhome := h.home_wheelRemoveInner rid
  obtain ⟨hdl, hpend, hel⟩ := wheelRemoveInner_frame w rid
  have h₁ : Linked { w.wheelRemoveInner rid with
      deadlines := (w.wheelRemoveInner rid).deadlines.insert rid d } [] :=
    (h.wheelRemoveInner rid).congr (fun _ _ => rfl) rfl
  have hnone := home_eq_none.mp ((hhome rid).trans (if_pos rfl))
  refine ⟨(h₁.hold hnone).wheelInsertInner (by simp) d _, fun r => ?_, ?_, hpend, hel⟩
  · rw [place, home_wheelInsertInner, hel]
    split
    · rfl
    · rename_i hr
      exact (hhome r).trans (if_neg hr)
  · show (w.wheelRemoveInner rid).deadlines.insert rid d = _
    rw [hdl]

/-- What `insert` does, in terms of homes and deadlines. -/
theorem insert_spec (h : Linked w []) (rid d : UInt64) :
    Linked (w.insert rid d) [] ∧
      (∀ r, (w.insert rid d).home r =
        if r = rid then some (levelSlot d w.elapsed) else w.home r) ∧
      (w.insert rid d).deadlines = w.deadlines.insert rid d ∧
      (w.insert rid d).pending = w.pending ∧ (w.insert rid d).elapsed = w.elapsed := by
  obtain ⟨c, c', heq⟩ := exists_insert_eq w rid d
  have h₀ : Linked { w with cachedMin := c } [] := h.congr (fun _ _ => rfl) rfl
  obtain ⟨hlinked, hspec⟩ := place_spec h₀ rid d
  rw [heq]
  exact ⟨hlinked.congr (fun _ _ => rfl) rfl, hspec⟩

@[simp] theorem deadlines_insert (w : TimerWheel) (rid d : UInt64) :
    (w.insert rid d).deadlines = w.deadlines.insert rid d := by
  obtain ⟨c, c', heq⟩ := exists_insert_eq w rid d
  rw [heq]
  show (wheelRemoveInner { w with cachedMin := c } rid).deadlines.insert rid d = _
  rw [(wheelRemoveInner_frame _ _).1]

/-- `insert` keeps the wheel well formed, if its caller has drained the wheel and asks for a
deadline still to come. -/
theorem WellFormed.insert (h : WellFormed w) (hpend : w.pending = []) (hd : w.elapsed < d)
    (rid : UInt64) : WellFormed (w.insert rid d) := by
  obtain ⟨hlinked, hhome, hdl, hpend', hel⟩ := insert_spec h.linked rid d
  refine ⟨hlinked, fun r l s hr => ?_, fun r hr => absurd hr List.not_mem_nil,
    fun r hr => ?_,
    fun r d' hr => ?_, ?_⟩
  · rw [hhome] at hr
    rw [hdl, hel, VecMap.get_insert]
    split
    · rename_i he
      rw [if_pos he] at hr
      have hls : levelSlot d w.elapsed = (l, s) := Option.some.inj hr
      have hplaced := levelSlot_placed hd
      rw [hls] at hplaced
      exact ⟨d, rfl, fun _ => hplaced⟩
    · rename_i he
      rw [if_neg he] at hr
      exact h.home_live r l s hr
  · rw [hpend', hpend] at hr
    cases hr
  · rw [hhome]
    split
    · exact .inl ⟨_, rfl⟩
    · rename_i he
      rw [hdl, VecMap.get_insert, if_neg he] at hr
      rw [hpend']
      exact h.live_held r d' hr
  · rw [hpend']
    exact h.pending_nodup

/-- What `remove` does to a live id: its home and its deadline go, and nothing else changes. -/
theorem remove_spec (h : Linked w []) (hd : w.deadlines.get rid = some d) :
    Linked (w.remove rid) [] ∧
      (∀ r, (w.remove rid).home r = if r = rid then none else w.home r) ∧
      (w.remove rid).deadlines = (w.deadlines.remove rid).2 ∧
      (w.remove rid).pending = w.pending ∧ (w.remove rid).elapsed = w.elapsed := by
  obtain ⟨c, hc⟩ := exists_invalidateMin_eq w d
  have h₀ : Linked { w with cachedMin := c } [] := h.congr (fun _ _ => rfl) rfl
  obtain ⟨hdl, hpend, hel⟩ := wheelRemoveInner_frame { w with cachedMin := c } rid
  have heq : w.remove rid = { wheelRemoveInner { w with cachedMin := c } rid with
      deadlines := (w.deadlines.remove rid).2 } := by
    rw [remove]
    rw [hd]
    dsimp only
    rw [hc, hdl]
  rw [heq]
  exact ⟨(h₀.wheelRemoveInner rid).congr (fun _ _ => rfl) rfl, h₀.home_wheelRemoveInner rid, rfl,
    hpend, hel⟩

/-- `remove` keeps the wheel well formed, if its caller has drained the wheel. -/
theorem WellFormed.remove (h : WellFormed w) (hpend : w.pending = []) (rid : UInt64) :
    WellFormed (w.remove rid) := by
  cases hd : w.deadlines.get rid with
  | none =>
    have heq : w.remove rid = w := by rw [TimerWheel.remove, hd]
    rw [heq]
    exact h
  | some d =>
    obtain ⟨hlinked, hhome, hdl, hpend', hel⟩ := remove_spec h.linked hd
    refine ⟨hlinked, fun r l s hr => ?_, fun r hr => absurd hr List.not_mem_nil,
    fun r hr => ?_,
      fun r d' hr => ?_, ?_⟩
    · rw [hhome] at hr
      split at hr
      · cases hr
      · rename_i he
        rw [hdl, hel, VecMap.get_remove_of_ne he]
        exact h.home_live r l s hr
    · rw [hpend', hpend] at hr
      cases hr
    · rw [hdl, VecMap.get_remove] at hr
      split at hr
      · cases hr
      · rename_i he
        rw [hhome, if_neg he, hpend']
        exact h.live_held r d' hr
    · rw [hpend']
      exact h.pending_nodup

/-- Removing an id that is not live does nothing, not even to the cached minimum. -/
theorem remove_of_get_none (h : w.deadlines.get rid = none) : w.remove rid = w := by
  rw [remove, h]

@[simp] theorem get_deadlines_remove (w : TimerWheel) (rid r : UInt64) :
    (w.remove rid).deadlines.get r = if r = rid then none else w.deadlines.get r := by
  cases hd : w.deadlines.get rid with
  | none =>
    rw [remove_of_get_none hd]
    split
    · rename_i hr
      rw [hr, hd]
    · rfl
  | some d =>
    rw [remove, hd]
    dsimp only
    rw [(wheelRemoveInner_frame _ _).1, (invalidateMin_frame _ _).1, VecMap.get_remove]

theorem pending_remove (w : TimerWheel) (rid : UInt64) : (w.remove rid).pending = w.pending := by
  rw [remove]
  split
  · exact (wheelRemoveInner_frame _ _).2.1.trans (invalidateMin_frame _ _).2.1
  · rfl

theorem elapsed_remove (w : TimerWheel) (rid : UInt64) : (w.remove rid).elapsed = w.elapsed := by
  rw [remove]
  split
  · exact (wheelRemoveInner_frame _ _).2.2.trans (invalidateMin_frame _ _).2.2
  · rfl

/-! ### Popping -/

/-- With nothing pending there is nothing to pop. -/
theorem popPending_of_nil (h : w.pending = []) (now : UInt64) (n : ℕ) :
    popPending now n w = (none, w) := by
  cases n with
  | zero => rfl
  | succ n => rw [popPending, h]; rfl

/-- Whatever wheel it is, a pop takes a deadline out for the id that it hands out. -/
theorem popPending_cases (now : UInt64) (n : ℕ) (w : TimerWheel) :
    (∃ w', popPending now n w = (none, w') ∧ w'.deadlines = w.deadlines) ∨
      ∃ rid d w', popPending now n w = (some rid, w') ∧ w.deadlines.get rid = some d ∧
        w'.deadlines = (w.deadlines.remove rid).2 := by
  induction n generalizing w with
  | zero => exact .inl ⟨w, rfl, rfl⟩
  | succ n ih =>
    rw [popPending]
    split
    · exact .inl ⟨w, rfl, rfl⟩
    · rename_i rid _
      dsimp only
      split
      · rename_i d hd
        split
        · refine .inr ⟨rid, d, _, rfl, hd, ?_⟩
          rw [(invalidateMin_frame _ _).1]
        · exact ih { w with pending := w.pending.dropLast }
      · exact ih { w with pending := w.pending.dropLast }

/-- So does `try_pop_expired`, which pops before it advances and again afterwards. -/
theorem tryPopExpired_cases (w : TimerWheel) (now : UInt64) :
    (∃ w', w.tryPopExpired now = (none, w') ∧ w'.deadlines = w.deadlines) ∨
      ∃ rid d w', w.tryPopExpired now = (some rid, w') ∧ w.deadlines.get rid = some d ∧
        w'.deadlines = (w.deadlines.remove rid).2 := by
  rw [tryPopExpired]
  obtain ⟨w₁, hpop, hsame⟩ | ⟨rid, d, w₁, hpop, hd, hremove⟩ :=
    popPending_cases now w.pending.length w
  · rw [hpop]
    dsimp only
    have hadvance : (if w₁.elapsed < now then w₁.advanceTo now else w₁).deadlines =
        w.deadlines := by
      split
      · rw [deadlines_advanceTo, hsame]
      · exact hsame
    rw [← hadvance]
    exact popPending_cases now _ _
  · rw [hpop]
    exact .inr ⟨rid, d, w₁, rfl, hd, hremove⟩

/-- `w'` is `w` with the pending id `rid` handed out. -/
structure Popped (w : TimerWheel) (rid : UInt64) (w' : TimerWheel) : Prop where
  wellFormed : WellFormed w'
  due : ∃ d, w.deadlines.get rid = some d ∧ d ≤ w.elapsed
  deadlines : w'.deadlines = (w.deadlines.remove rid).2
  elapsed : w'.elapsed = w.elapsed

/-- What is pending in a well-formed wheel is live and due, so the first pop succeeds. -/
theorem WellFormed.popPending {ps : List UInt64} (h : WellFormed w) (hle : w.elapsed ≤ now)
    (hpend : w.pending = ps ++ [rid]) :
    ∃ w', popPending now w.pending.length w = (some rid, w') ∧ Popped w rid w' := by
  have hmem : rid ∈ w.pending := by simp [hpend]
  obtain ⟨hhome, d, hd, hdue⟩ := h.pending_due rid hmem
  obtain ⟨c, hc⟩ := exists_invalidateMin_eq { w with pending := w.pending.dropLast } d
  have hstep : TimerWheel.popPending now w.pending.length w =
      (some rid, { w with
        pending := ps
        cachedMin := c
        deadlines := (w.deadlines.remove rid).2
        positions := (w.positions.remove rid).2 }) := by
    rw [show w.pending.length = ps.length + 1 by simp [hpend], TimerWheel.popPending]
    simp only [hpend, List.getLast?_concat, List.dropLast_concat] at hc ⊢
    rw [hd]
    dsimp only
    rw [if_pos (UInt64.le_trans hdue hle), hc]
  have hnodup : ps.Nodup ∧ rid ∉ ps := by
    have := h.pending_nodup
    rw [hpend, List.nodup_append] at this
    exact ⟨this.1, fun hin => this.2.2 rid hin rid (by simp) rfl⟩
  have hget : ∀ r, (w.positions.remove rid).2.get r = w.positions.get r := fun r => by
    rw [VecMap.get_remove]
    split
    · rename_i hr
      rw [hr, home_eq_none.mp hhome]
    · rfl
  have hhome' : ∀ r, TimerWheel.home { w with
      pending := ps
      cachedMin := c
      deadlines := (w.deadlines.remove rid).2
      positions := (w.positions.remove rid).2 } r = w.home r := fun r => by
    rw [home, home]
    exact congrArg _ (hget r)
  refine ⟨_, hstep, ⟨⟨fun l s i r => ?_⟩, fun r l s hr => ?_,
    fun r hr => absurd hr List.not_mem_nil, fun r hr => ?_, fun r d' hr => ?_, hnodup.1⟩,
    ⟨d, hd, hdue⟩, rfl, rfl⟩
  · rw [hget]
    exact h.linked.slot_iff l s i r
  · rw [hhome'] at hr
    have hne : r ≠ rid := fun e => by
      rw [e, hhome] at hr
      cases hr
    rw [VecMap.get_remove_of_ne hne]
    exact h.home_live r l s hr
  · have hne : r ≠ rid := fun e => hnodup.2 (e ▸ hr)
    rw [hhome', VecMap.get_remove_of_ne hne]
    exact h.pending_due r (by simp [hpend, show r ∈ ps from hr])
  · rw [hhome']
    rw [VecMap.get_remove] at hr
    split at hr
    · cases hr
    · rename_i hne
      refine (h.live_held r d' hr).imp id fun hin => ?_
      rw [hpend, List.mem_append, List.mem_singleton] at hin
      exact hin.resolve_right hne

/-- With nothing pending every live id is still to come. -/
theorem WellFormed.lt_of_get (h : WellFormed w) (hpend : w.pending = [])
    (hd : w.deadlines.get rid = some d) : w.elapsed < d := by
  rcases h.live_held rid d hd with ⟨⟨l, s⟩, ha⟩ | hmem
  · obtain ⟨d', hd', hplaced⟩ := h.home_live rid l s ha
    rw [hd] at hd'
    cases hd'
    exact (hplaced (by simp)).lt
  · rw [hpend] at hmem
    cases hmem

/-- `advance_to` keeps the wheel well formed, for any instant that is not before its own. -/
theorem WellFormed.advanceTo (h : WellFormed w) (hle : w.elapsed ≤ now) :
    WellFormed (w.advanceTo now) :=
  Held.advanceTo hle h

/-- **One pop.** `try_pop_expired` hands out a due id and deletes it, or finds that nothing is due
and changes no deadline. -/
theorem WellFormed.tryPopExpired (h : WellFormed w) (hle : w.elapsed ≤ now) :
    (∃ rid d w', w.tryPopExpired now = (some rid, w') ∧
      w.deadlines.get rid = some d ∧ d ≤ now ∧
      w'.deadlines = (w.deadlines.remove rid).2 ∧ WellFormed w' ∧ w'.elapsed ≤ now) ∨
    ∃ w', w.tryPopExpired now = (none, w') ∧
      (∀ rid d, w.deadlines.get rid = some d → now < d) ∧
      w'.deadlines = w.deadlines ∧ WellFormed w' ∧ w'.elapsed = now ∧ w'.pending = [] := by
  rw [TimerWheel.tryPopExpired]
  rcases List.eq_nil_or_concat' w.pending with hpend | ⟨ps, rid, hpend⟩
  · rw [popPending_of_nil hpend]
    dsimp only
    -- nothing was pending, so the wheel moves to `now` and is asked again
    obtain ⟨w₁, hw₁, hwf, hel, hdl⟩ : ∃ w₁, (if w.elapsed < now then w.advanceTo now else w) = w₁ ∧
        WellFormed w₁ ∧ w₁.elapsed = now ∧ w₁.deadlines = w.deadlines := by
      split
      · exact ⟨_, rfl, h.advanceTo hle, rfl, deadlines_advanceTo w now⟩
      · rename_i hge
        exact ⟨w, rfl, h, UInt64.le_antisymm hle (UInt64.not_lt.mp hge), rfl⟩
    rw [hw₁, ← hdl]
    rcases List.eq_nil_or_concat' w₁.pending with hpend₁ | ⟨ps, rid, hpend₁⟩
    · rw [popPending_of_nil hpend₁]
      refine .inr ⟨w₁, rfl, fun rid d hd => ?_, rfl, hwf, hel, hpend₁⟩
      rw [← hel]
      exact hwf.lt_of_get hpend₁ hd
    · obtain ⟨w', hpop, hw'⟩ := hwf.popPending (UInt64.le_of_eq hel) hpend₁
      obtain ⟨d, hd, hdue⟩ := hw'.due
      rw [hpop]
      exact .inl ⟨rid, d, w', rfl, hd, hel ▸ hdue, hw'.deadlines, hw'.wellFormed,
        UInt64.le_of_eq (hw'.elapsed.trans hel)⟩
  · obtain ⟨w', hpop, hw'⟩ := h.popPending hle hpend
    obtain ⟨d, hd, hdue⟩ := hw'.due
    rw [hpop]
    exact .inl ⟨rid, d, w', rfl, hd, UInt64.le_trans hdue hle, hw'.deadlines, hw'.wellFormed,
      hw'.elapsed ▸ hle⟩

/-! ### Draining -/

/-- Pop until nothing is due, collecting the ids; `none` if that takes more than `fuel` calls. -/
def drainExpired (now : UInt64) : ℕ → TimerWheel → Option (List UInt64 × TimerWheel)
  | 0, _ => none
  | fuel + 1, w =>
    match w.tryPopExpired now with
    | (none, w) => some ([], w)
    | (some rid, w) => (drainExpired now fuel w).map fun r => (rid :: r.1, r.2)

/-- **Draining.** One call more than there are live ids is enough; the ids returned are those due
at `now`, each once, and exactly they are deleted. -/
theorem WellFormed.drainExpired {fuel : ℕ} (h : WellFormed w) (hle : w.elapsed ≤ now)
    (hfuel : w.deadlines.occupancy < fuel) :
    ∃ rids w', drainExpired now fuel w = some (rids, w') ∧ rids.Nodup ∧
      (∀ rid, rid ∈ rids ↔ ∃ d, w.deadlines.get rid = some d ∧ d ≤ now) ∧
      (∀ rid, w'.deadlines.get rid = if rid ∈ rids then none else w.deadlines.get rid) ∧
      WellFormed w' ∧ w'.elapsed = now ∧ w'.pending = [] := by
  induction fuel generalizing w with
  | zero => omega
  | succ fuel ih =>
    rw [TimerWheel.drainExpired]
    obtain ⟨rid, d, w₁, hpop, hd, hdue, hdl, hwf, hel⟩ | ⟨w₁, hpop, hnone, hdl, hwf, hel, hpend⟩ :=
      h.tryPopExpired hle
    · have hocc := VecMap.occupancy_remove hd
      obtain ⟨rids, w', hdrain, hnodup, hmem, hget, hwf', hel', hpend'⟩ :=
        ih hwf hel (by rw [hdl]; omega)
      simp only [hdl, VecMap.get_remove] at hmem hget
      have hrid : rid ∉ rids := fun hin => by
        obtain ⟨d', hd', _⟩ := (hmem rid).mp hin
        rw [if_pos rfl] at hd'
        cases hd'
      refine ⟨rid :: rids, w', ?_, List.nodup_cons.mpr ⟨hrid, hnodup⟩, fun r => ?_, fun r => ?_,
        hwf', hel', hpend'⟩
      · rw [hpop]
        dsimp only
        rw [hdrain]
        rfl
      · rw [List.mem_cons, hmem]
        by_cases hr : r = rid
        · subst hr
          exact iff_of_true (.inl rfl) ⟨d, hd, hdue⟩
        · simp [hr]
      · rw [hget]
        by_cases hr : r = rid <;> simp [hr]
    · rw [hpop]
      refine ⟨[], w₁, rfl, List.nodup_nil, fun r => ?_, fun r => ?_, hwf, hel, hpend⟩
      · refine iff_of_false List.not_mem_nil ?_
        rintro ⟨d, hd, hdue⟩
        exact absurd (hnone r d hd) (UInt64.not_lt.mpr hdue)
      · rw [hdl, if_neg List.not_mem_nil]

/-! ### The specification -/

/-- The calls a wheel answers, with their arguments. -/
inductive Op
  | insert (rid deadline : UInt64)
  | remove (rid : UInt64)
  | tryPopExpired (now : UInt64)
deriving DecidableEq, Repr

/-- The live timers: a map from ids to deadlines. -/
abbrev Deadlines := UInt64 → Option UInt64

/-- What a map from ids to deadlines answers. A call comes with its result, which is `none` for
`insert` and `remove`. -/
inductive Deadlines.Step (m : Deadlines) : Op × Option UInt64 → Deadlines → Prop
  | insert (rid d : UInt64) : Step m (.insert rid d, none) (Function.update m rid (some d))
  | remove (rid : UInt64) : Step m (.remove rid, none) (Function.update m rid none)
  /-- `try_pop_expired` deletes an id that is due and returns it. -/
  | some {rid d now : UInt64} : m rid = some d → d ≤ now →
      Step m (.tryPopExpired now, some rid) (Function.update m rid none)
  /-- `try_pop_expired` returns none only if nothing is due. -/
  | none {now : UInt64} : (∀ rid d, m rid = some d → now < d) →
      Step m (.tryPopExpired now, none) m

/-- The map as a machine, which starts empty. -/
def Deadlines.machine : Machine Deadlines (Op × Option UInt64) where
  init m := m = fun _ => none
  step := Deadlines.Step

/-- The live timers of a wheel, which is the map that it stands for. -/
def live (w : TimerWheel) : Deadlines := w.deadlines.get

/-- One call on a wheel, and what it returns if it returns anything. -/
def call (w : TimerWheel) : Op → Option UInt64 × TimerWheel
  | .insert rid d => (none, w.insert rid d)
  | .remove rid => (none, w.remove rid)
  | .tryPopExpired now => w.tryPopExpired now

/-- A wheel with what its caller must remember: whether the last `try_pop_expired`, if any,
returned none. -/
structure Session where
  wheel : TimerWheel
  settled : Bool
deriving DecidableEq

/-- What the caller may call: deadlines are in the wheel's future, its instant never goes back, and
timers are set and cancelled only once the wheel has been drained. -/
def Session.Permits (c : Session) : Op → Prop
  | .insert _ d => c.settled = true ∧ c.wheel.elapsed < d
  | .remove _ => c.settled = true
  | .tryPopExpired now => c.wheel.elapsed ≤ now

/-- The session after a call and its result: settled, once a pop has found nothing. -/
def Session.after (c : Session) (op : Op) : Session where
  wheel := (c.wheel.call op).2
  settled := match op with
    | .tryPopExpired _ => (c.wheel.call op).1.isNone
    | _ => c.settled

/-- The wheel and its caller as a machine: `TimerWheel::new`, then any permitted calls. -/
def Session.machine : Machine Session (Op × Option UInt64) where
  init c := c = ⟨TimerWheel.new, true⟩
  step c a c' := c.Permits a.1 ∧ (c.wheel.call a.1).1 = a.2 ∧ c.after a.1 = c'

/-- The relation of the refinement: `m` is the live map of a well-formed wheel, which has been
drained if its caller thinks so. -/
structure Session.Represents (c : Session) (m : Deadlines) : Prop where
  wellFormed : WellFormed c.wheel
  pending : c.settled = true → c.wheel.pending = []
  live_eq : c.wheel.live = m

theorem live_insert (h : WellFormed w) (rid d : UInt64) :
    (w.insert rid d).live = Function.update w.live rid (some d) := by
  funext r
  rw [live, (insert_spec h.linked rid d).2.2.1, VecMap.get_insert, Function.update_apply]
  rfl

theorem live_remove (w : TimerWheel) (rid : UInt64) :
    (w.remove rid).live = Function.update w.live rid none := by
  funext r
  rw [live, get_deadlines_remove, Function.update_apply]
  rfl

/-- Every permitted call is a step of the map, with the result that the wheel has returned. -/
theorem Session.simulation :
    Machine.Simulation Session.machine Deadlines.machine Session.Represents where
  init := by
    rintro c rfl
    exact ⟨_, rfl, wellFormed_new, fun _ => rfl, funext fun r => VecMap.get_new r⟩
  step := by
    rintro c ⟨op, res⟩ c' m h ⟨hperm, hres, rfl⟩
    have hwf := h.wellFormed
    obtain rfl := h.live_eq
    cases op with
    | insert rid d =>
      obtain ⟨hset, hlt⟩ := hperm
      obtain rfl : none = res := hres
      refine ⟨_, .insert rid d, hwf.insert (h.pending hset) hlt rid, fun _ => ?_,
        live_insert hwf rid d⟩
      exact (insert_spec hwf.linked rid d).2.2.2.1.trans (h.pending hset)
    | remove rid =>
      obtain rfl : none = res := hres
      refine ⟨_, .remove rid, hwf.remove (h.pending hperm) rid, fun _ => ?_, live_remove _ rid⟩
      exact (pending_remove _ rid).trans (h.pending hperm)
    | tryPopExpired now =>
      obtain ⟨rid, d, w', hpop, hd, hdue, hdl, hwf', _⟩ | ⟨w', hpop, hnone, hdl, hwf', _, hpend⟩ :=
        hwf.tryPopExpired hperm
      · obtain rfl : some rid = res := (congrArg Prod.fst hpop).symm.trans hres
        have hwheel : (c.after (.tryPopExpired now)).wheel = w' := congrArg Prod.snd hpop
        refine ⟨_, .some hd hdue, hwheel ▸ hwf', fun hset => ?_, ?_⟩
        · exact absurd (hset.symm.trans (congrArg (fun r => r.1.isNone) hpop)) (by simp)
        · funext r
          rw [hwheel, live, hdl, VecMap.get_remove, Function.update_apply]
          rfl
      · obtain rfl : none = res := (congrArg Prod.fst hpop).symm.trans hres
        have hwheel : (c.after (.tryPopExpired now)).wheel = w' := congrArg Prod.snd hpop
        refine ⟨_, .none hnone, hwheel ▸ hwf', fun _ => hwheel ▸ hpend, ?_⟩
        rw [hwheel, live, hdl]
        rfl

/-- **The wheel is a map from ids to deadlines.** Every run of permitted calls on a wheel, with the
results it returned, is a run of the map that ends in the wheel's live timers, and from any state
so reached every permitted call is a step of the map; removing an absent id leaves the wheel
alone. Draining at an instant not before the wheel's returns the ids due then, each once, and
deletes exactly those. -/
theorem run_refines_deadlines {c : Session} {calls : List (Op × Option UInt64)}
    (hrun : Session.machine.Run ⟨new, true⟩ calls c) :
    Deadlines.machine.Run (fun _ => none) calls c.wheel.live ∧
      (∀ op, c.Permits op →
        Deadlines.Step c.wheel.live (op, (c.wheel.call op).1) (c.wheel.call op).2.live) ∧
      (∀ rid, c.wheel.live rid = none → c.wheel.remove rid = c.wheel) ∧
      ∀ now, c.wheel.elapsed ≤ now →
        ∃ rids w', c.wheel.drainExpired now (c.wheel.deadlines.occupancy + 1) = some (rids, w') ∧
          rids.Nodup ∧ (∀ rid, rid ∈ rids ↔ ∃ d, c.wheel.live rid = some d ∧ d ≤ now) ∧
          ∀ rid, w'.live rid = if rid ∈ rids then none else c.wheel.live rid := by
  obtain ⟨m, m', hinit, hrun', hrep⟩ := Session.simulation.run rfl hrun
  obtain rfl : m = fun _ => none := hinit
  obtain rfl := hrep.live_eq
  refine ⟨hrun', fun op hperm => ?_, fun rid => remove_of_get_none, fun now hle => ?_⟩
  · obtain ⟨m', hstep, hrep'⟩ :=
      Session.simulation.step c (op, (c.wheel.call op).1) (c.after op) _ hrep ⟨hperm, rfl, rfl⟩
    obtain rfl := hrep'.live_eq
    exact hstep
  · obtain ⟨rids, w', hdrain, hnodup, hmem, hget, _⟩ :=
      hrep.wellFormed.drainExpired hle (Nat.lt_succ_self _)
    exact ⟨rids, w', hdrain, hnodup, hmem, hget⟩

/-- A timer set for instant 3 is not due at 2 and is at 3. -/
theorem run_refines_deadlines_one_timer :
    Deadlines.machine.Run (fun _ => none)
      [(.insert 7 3, none), (.tryPopExpired 2, none), (.tryPopExpired 3, some 7)]
      ((((⟨new, true⟩ : Session).after (.insert 7 3)).after (.tryPopExpired 2)).after
        (.tryPopExpired 3)).wheel.live := by
  have h₁ : Session.machine.Run ⟨new, true⟩ [(.insert 7 3, none)]
      ((⟨new, true⟩ : Session).after (.insert 7 3)) :=
    .snoc .nil ⟨⟨rfl, by decide⟩, rfl, rfl⟩
  have h₂ : Session.machine.Run ⟨new, true⟩ [(.insert 7 3, none), (.tryPopExpired 2, none)]
      (((⟨new, true⟩ : Session).after (.insert 7 3)).after (.tryPopExpired 2)) :=
    .snoc h₁ ⟨show _ ≤ _ by decide +kernel, by decide +kernel, rfl⟩
  exact (run_refines_deadlines (.snoc h₂
    ⟨show _ ≤ _ by decide +kernel, by decide +kernel, rfl⟩)).1

end TimerWheel

end Lion
