import Lion.Library.Least
import Lion.TimerWheel.Counts
import Mathlib.Tactic.FinCases

/-!
# The earliest deadline

`next_deadline` answers from `cached_min` if it can, and scans the wheel otherwise. The scan takes
one candidate from `pending` or one from each level. At the lower levels it follows the ring from
the wheel's instant on and stops at the first slot that holds something: `Placed` makes the order of
the ring that of the deadlines. At the top level a ring may have been outrun, and everything is
scanned.

## Cutting a scan short

The scans of levels 1 and 2 are given what level 0 has found, and give up at a slot whose tick is
later than that. What they return is then not the least deadline of their level. It is enough that
it would lose against the bound anyway, which is what a `Candidate` is; the merge at the end does
not notice the difference.

## The invariant of the source

`FullWf` is the invariant of the source. Unlike `WellFormed` it does not ask that what is pending is
live, or pending once; and it covers what only `next_deadline` reads, the cached minimum and the
counts. With nothing pending the two agree (`FullWf.wellFormed`), and in every state that a caller
can reach who keeps to the contract, both hold (`fullWf_of_reachable`).

## Main definitions

* `FullWf` — the wheel's invariant
* `liveDeadlines`, `atLevel` — the sets that the scans look for the least of

## Main results

* `FullWf.first_slot` — the first occupied slot of a ring decides
* `FullWf.scanRing` — the scan of a ring
* `FullWf.scanWheelMin` — the scan of the wheel
* `fullWf_of_reachable` — the invariant holds throughout
* `nextDeadline_exact` — the answer is the earliest deadline, however it is found
-/

namespace Lion

namespace TimerWheel

open Scan

variable {w w' : TimerWheel} {l : Fin numLevels} {s : Fin wheelSize} {rid d now t : UInt64}

/-- The deadlines of the live timers, as a set: two timers may share one. -/
def liveDeadlines (w : TimerWheel) : Set UInt64 := {d | ∃ rid, w.live rid = some d}

/-- The deadlines of the timers stored at level `l`. -/
def atLevel (w : TimerWheel) (l : Fin numLevels) : Set UInt64 :=
  {d | ∃ rid s, w.home rid = some (l, s) ∧ w.live rid = some d}

/-- `cached_min_valid`: a minimum that is known is the earliest deadline. -/
def CachedMinValid (w : TimerWheel) : Prop := ∀ m, w.cachedMin = some m → IsLeast w.liveDeadlines m

/-- `full_wf`: the invariant of the wheel, clause by clause as the source has it. -/
structure FullWf (w : TimerWheel) : Prop where
  /-- `pos_levels_consistent`: slots and back-pointers agree. -/
  linked : Linked w []
  /-- `slot_matches_deadline`, `position_ahead` and `level_band`: what is stored is live, and stored
  where it belongs. -/
  home_placed : ∀ rid l s, w.home rid = some (l, s) →
    ∃ d, w.live rid = some d ∧ Placed w.elapsed l s d
  /-- `dl_pos_consistent`: nothing live is lost. -/
  live_held : ∀ rid d, w.live rid = some d → (∃ a, w.home rid = some a) ∨ rid ∈ w.pending
  /-- `pending_positions_disjoint` and `pending_expired`: what is pending is not stored, and due if
  it is live. -/
  pending_expired : ∀ rid ∈ w.pending, w.home rid = none ∧ ∀ d, w.live rid = some d → d ≤ w.elapsed
  cached_min_valid : CachedMinValid w
  count_wf : w.deadlines.CountWf
  level_counts_wf : LevelCountsWf w

theorem FullWf.of_wellFormed (h : WellFormed w) (hmin : CachedMinValid w)
    (hcount : w.deadlines.CountWf) (hcounts : LevelCountsWf w) : FullWf w where
  linked := h.linked
  home_placed rid l s hhome := by
    obtain ⟨d, hd, hplaced⟩ := h.home_live rid l s hhome
    exact ⟨d, hd, hplaced List.not_mem_nil⟩
  live_held := h.live_held
  pending_expired rid hmem := by
    obtain ⟨hnone, d, hd, hdue⟩ := h.pending_due rid hmem
    refine ⟨hnone, fun d' hd' => ?_⟩
    obtain rfl : d = d' := Option.some.inj (hd.symm.trans hd')
    exact hdue
  cached_min_valid := hmin
  count_wf := hcount
  level_counts_wf := hcounts

/-- With nothing pending the two invariants agree on where ids are. -/
theorem FullWf.wellFormed (h : FullWf w) (hpend : w.pending = []) : WellFormed w where
  linked := h.linked
  home_live rid l s hhome := by
    obtain ⟨d, hd, hplaced⟩ := h.home_placed rid l s hhome
    exact ⟨d, hd, fun _ => hplaced⟩
  hand_home _ hmem := absurd hmem List.not_mem_nil
  pending_due rid hmem := by
    rw [hpend] at hmem
    cases hmem
  live_held := h.live_held
  pending_nodup := hpend ▸ List.nodup_nil

/-! ### Scanning a ring -/

theorem slotAfter_eq_slotOf_iff {i : ℕ} :
    slotAfter (t >>> shift l) i = slotOf l d ↔ (pos l t + i) % 256 = pos l d % 256 := by
  have hval : (slotAfter (t >>> shift l) i).val = (pos l t + i) % 256 := by
    show (((t >>> shift l) &&& 255).toNat + i) % wheelSize = _
    rw [toNat_and_255, toNat_shiftRight_shift, Nat.mod_add_mod]
  rw [Fin.ext_iff, hval, val_slotOf]

/-- How far ahead a deadline is in the ring of a lower level. -/
theorem Placed.ring {e : UInt64} (h : Placed e l s d) (hl : l.val < 3) :
    pos l e < pos l d ∧ pos l d ≤ pos l e + 256 :=
  ⟨h.ahead, Radix.tick_le_add (by decide) (h.band hl)⟩

theorem FullWf.mem_slotAt_iff (h : FullWf w) :
    rid ∈ w.slotAt l s ↔ w.home rid = some (l, s) := by
  rw [h.linked.mem_slotAt_iff]
  exact and_iff_left List.not_mem_nil

/-- At ring offset `o` are the deadlines that are `o` ticks ahead. -/
theorem FullWf.home_slotAfter (h : FullWf w) (hl : l.val < 3) {o : ℕ} (hpos : 0 < o)
    (hle : o ≤ 256) (hhome : w.home rid = some (l, s)) (hd : w.live rid = some d) :
    s = slotAfter (w.elapsed >>> shift l) o ↔ pos l d = pos l w.elapsed + o := by
  obtain ⟨d', hd', hplaced⟩ := h.home_placed rid l s hhome
  obtain rfl : d' = d := Option.some.inj (hd'.symm.trans hd)
  obtain ⟨hahead, hring⟩ := hplaced.ring hl
  rw [hplaced.slot_eq, eq_comm, slotAfter_eq_slotOf_iff]
  omega

/-- The deadlines of one slot, as the values that a scan of it finds. -/
theorem FullWf.values_slotAt (h : FullWf w) (l : Fin numLevels) (s : Fin wheelSize) :
    values w.live (w.slotAt l s) = {d | ∃ rid, w.home rid = some (l, s) ∧ w.live rid = some d} := by
  ext d
  simp only [mem_values, h.mem_slotAt_iff]
  rfl

theorem mergeMin_eq (best : Option UInt64) (d : UInt64) : mergeMin best d = lower best d := by
  cases best with
  | none => rfl
  | some b => rfl

theorem scanMembers_eq (w : TimerWheel) (best : Option UInt64) (rids : List UInt64) :
    w.scanMembers best rids = scan w.live best rids := by
  rw [scanMembers, scan]
  refine congrArg (List.foldl · best rids) (funext fun best => funext fun rid => ?_)
  have hlive : w.live rid = w.deadlines.get rid := rfl
  rw [hlive]
  cases w.deadlines.get rid with
  | none => rfl
  | some d => exact mergeMin_eq best d

/-- A sum of a position and an offset does not wrap around at the levels that have a bound. -/
theorem toNat_pos_add {e : UInt64} (hl : l ≠ 0) {o : ℕ} (ho : o ≤ 256) :
    ((e >>> shift l) + UInt64.ofNat o).toNat = pos l e + o := by
  have hlt : pos l e < 2 ^ 56 := by
    have hone : wheelSize ^ 1 ≤ wheelSize ^ l.val :=
      Nat.pow_le_pow_right (by decide) (Nat.pos_of_ne_zero fun h0 => hl (Fin.ext h0))
    calc pos l e ≤ e.toNat / wheelSize ^ 1 := Nat.div_le_div_left hone (by decide)
      _ < 2 ^ 56 := by
        rw [Nat.div_lt_iff_lt_mul (by decide)]
        exact e.toNat_lt
  rw [UInt64.toNat_add, toNat_shiftRight_shift, UInt64.toNat_ofNat_of_lt' (by
    simp only [UInt64.size]
    omega)]
  exact Nat.mod_eq_of_lt (by omega)

/-- What has reached ring offset `o` is in the slot there, or further on. -/
theorem FullWf.mem_slot_or_next (h : FullWf w) (hl : l.val < 3) {o : ℕ} (hpos : 0 < o)
    (hle : o ≤ 256) (hmem : d ∈ w.atLevel l) (hfrom : pos l w.elapsed + o ≤ pos l d) :
    d ∈ values w.live (w.slotAt l (slotAfter (w.elapsed >>> shift l) o)) ∨
      pos l w.elapsed + (o + 1) ≤ pos l d := by
  obtain ⟨rid, s, hhome, hlive⟩ := hmem
  by_cases hat : pos l d = pos l w.elapsed + o
  · have hs := (h.home_slotAfter hl hpos hle hhome hlive).mpr hat
    exact .inl ⟨rid, h.mem_slotAt_iff.mpr (hs ▸ hhome), hlive⟩
  · exact .inr (by omega)

/-- **The first slot decides.** If everything at the level has reached the offset of a slot, and the
slot holds something, then the least there is the least of the level. -/
theorem FullWf.first_slot (h : FullWf w) (hl : l.val < 3) {o : ℕ} (hpos : 0 < o) (hle : o ≤ 256)
    {rid₀ : UInt64} {rids : List UInt64}
    (hslot : w.slotAt l (slotAfter (w.elapsed >>> shift l) o) = rid₀ :: rids)
    (hfrom : ∀ d ∈ w.atLevel l, pos l w.elapsed + o ≤ pos l d) :
    ∃ best, IsLeast (w.atLevel l) best ∧ w.scanMembers none (rid₀ :: rids) = some best ∧
      (l = 0 → w.deadlines.get rid₀ = some best) := by
  set s₀ := slotAfter (w.elapsed >>> shift l) o with hs₀
  have hfirst : rid₀ ∈ w.slotAt l s₀ := by
    rw [hslot]
    exact List.mem_cons_self
  have hhome₀ := h.mem_slotAt_iff.mp hfirst
  obtain ⟨d₀, hd₀, -⟩ := h.home_placed rid₀ l s₀ hhome₀
  have hscan := least_empty.scan w.live (w.slotAt l s₀)
  rw [Set.empty_union, ← scanMembers_eq] at hscan
  cases hbest : w.scanMembers none (w.slotAt l s₀) with
  | none =>
    rw [hbest] at hscan
    have hmem : d₀ ∈ values w.live (w.slotAt l s₀) := ⟨rid₀, hfirst, hd₀⟩
    rw [hscan.eq_empty] at hmem
    exact hmem.elim
  | some best =>
    obtain ⟨hmem, hleast⟩ := hscan.isLeast hbest
    have hmem' := hmem
    rw [h.values_slotAt] at hmem'
    obtain ⟨rid, hhome, hlive⟩ := hmem'
    have hat := (h.home_slotAfter hl hpos hle hhome hlive).mp hs₀
    refine ⟨best, ⟨⟨rid, s₀, hhome, hlive⟩, fun d hd => ?_⟩, by rw [← hslot, hbest], fun hl0 => ?_⟩
    · rcases h.mem_slot_or_next hl hpos hle hd (hfrom d hd) with hin | hnext
      · exact hleast hin
      · exact UInt64.le_of_lt (lt_of_pos_lt (l := l) (by omega))
    · -- at the lowest level a slot holds one deadline
      have hat₀ := (h.home_slotAfter hl hpos hle hhome₀ hd₀).mp hs₀
      have heq : pos l d₀ = pos l best := hat₀.trans hat.symm
      rw [hl0, pos, pos, Fin.val_zero, Radix.tick_zero, Radix.tick_zero, UInt64.toNat_inj] at heq
      exact hd₀.trans (congrArg some heq)

/-- **The scan of a ring**, from an offset on that everything at the level has reached. -/
theorem FullWf.scanRing (h : FullWf w) (hl : l.val < 3) {bound : Option UInt64} {B : Set UInt64}
    (hbound : ∀ b, bound = some b → b ∈ B ∧ l ≠ 0) {o n : ℕ} (hpos : 0 < o) (hon : o + n = 257)
    (hfrom : ∀ d ∈ w.atLevel l, pos l w.elapsed + o ≤ pos l d) :
    Candidate B (w.atLevel l) (w.scanRing l bound (List.range' o n)) := by
  induction n generalizing o with
  | zero =>
    -- a whole turn has been looked at
    refine ⟨fun d hd => (Option.some_ne_none d hd.symm).elim, fun _ d hd => ?_⟩
    have hfar := hfrom d hd
    obtain ⟨rid, s, hhome, hlive⟩ := hd
    obtain ⟨d', hd', hplaced⟩ := h.home_placed rid l s hhome
    obtain rfl : d' = d := Option.some.inj (hd'.symm.trans hlive)
    have hnear := (hplaced.ring hl).2
    omega
  | succ n ih =>
    have hle : o ≤ 256 := by omega
    rw [List.range'_succ, TimerWheel.scanRing.eq_def]
    dsimp only
    cases hslot : w.slotAt l (slotAfter (w.elapsed >>> shift l) o) with
    | nil =>
      refine ih (Nat.succ_pos o) (by omega) fun d hd => ?_
      rcases h.mem_slot_or_next hl hpos hle hd (hfrom d hd) with ⟨rid, hmem, -⟩ | hnext
      · rw [hslot] at hmem
        cases hmem
      · exact hnext
    | cons rid₀ rids =>
      dsimp only
      obtain ⟨best, hleast, hscan, hget⟩ := h.first_slot hl hpos hle hslot hfrom
      have hbest : Candidate B (w.atLevel l) (some best) :=
        ⟨fun d hd => Option.some.inj hd ▸ hleast, fun hnone => by cases hnone⟩
      by_cases hl0 : l = 0
      · rw [if_pos hl0, hget hl0]
        cases bound with
        | none => exact hbest
        | some b => exact absurd hl0 (hbound b rfl).2
      · rw [if_neg hl0, hscan]
        cases bound with
        | none => exact hbest
        | some b =>
          dsimp only
          split
          · -- the bound is less than whatever is in this slot or further on
            rename_i hbeaten
            obtain ⟨hb, -⟩ := hbound b rfl
            refine ⟨fun d hd => (Option.some_ne_none d hd.symm).elim, fun _ d hd => ?_⟩
            refine ⟨b, hb, lt_of_pos_lt (l := l) ?_⟩
            have hlt := UInt64.lt_iff_toNat_lt.mp (of_decide_eq_true hbeaten)
            rw [toNat_shiftRight_shift, toNat_pos_add hl0 hle] at hlt
            exact Nat.lt_of_lt_of_le hlt (hfrom d hd)
          · exact hbest

/-! ### Scanning the wheel -/

/-- A level whose count is zero holds nothing, so that skipping it loses nothing. -/
theorem FullWf.atLevel_of_count_eq_zero (h : FullWf w) (hcount : w.levelCounts.get l = 0) :
    w.atLevel l = ∅ := by
  refine Set.eq_empty_iff_forall_notMem.mpr ?_
  rintro d ⟨rid, s, hhome, -⟩
  have hmem := h.mem_slotAt_iff.mpr hhome
  have hpos := List.length_pos_of_mem hmem
  have hle := w.length_slotAt_le l s
  have hocc := h.level_counts_wf l
  omega

/-- **`scan_level_min`** finds the earliest deadline of a lower level, or nothing if the bound is
before all of them. -/
theorem FullWf.scanLevelMin (h : FullWf w) (hl : l.val < 3) {bound : Option UInt64}
    {B : Set UInt64} (hbound : ∀ b, bound = some b → b ∈ B ∧ l ≠ 0) :
    Candidate B (w.atLevel l) (w.scanLevelMin l bound) := by
  rw [TimerWheel.scanLevelMin]
  split
  · rename_i hcount
    rw [h.atLevel_of_count_eq_zero hcount]
    exact least_empty.candidate B
  · refine h.scanRing hl hbound Nat.one_pos rfl ?_
    rintro d ⟨rid, s, hhome, hlive⟩
    obtain ⟨d', hd', hplaced⟩ := h.home_placed rid l s hhome
    obtain rfl : d' = d := Option.some.inj (hd'.symm.trans hlive)
    exact hplaced.ahead

/-- **`scan_level3_min`** finds the earliest deadline of the top level. -/
theorem FullWf.scanLevel3Min (h : FullWf w) : Least (w.atLevel 3) w.scanLevel3Min := by
  rw [TimerWheel.scanLevel3Min]
  split
  · rename_i hcount
    rw [h.atLevel_of_count_eq_zero (l := 3) hcount]
    exact least_empty
  · have hscan := least_empty.scan w.live ((List.finRange wheelSize).flatMap (w.slotAt 3))
    rw [Set.empty_union, ← scanMembers_eq, scanMembers, List.foldl_flatMap] at hscan
    have hall : values w.live ((List.finRange wheelSize).flatMap (w.slotAt 3)) = w.atLevel 3 := by
      ext d
      constructor
      · rintro ⟨rid, hmem, hlive⟩
        obtain ⟨s, -, hs⟩ := List.mem_flatMap.mp hmem
        exact ⟨rid, s, h.mem_slotAt_iff.mp hs, hlive⟩
      · rintro ⟨rid, s, hhome, hlive⟩
        exact ⟨rid, List.mem_flatMap.mpr ⟨s, List.mem_finRange s, h.mem_slotAt_iff.mpr hhome⟩,
          hlive⟩
    rw [hall] at hscan
    exact hscan

/-- With nothing live pending, what is live is at some level. -/
theorem FullWf.liveDeadlines_eq (h : FullWf w) (hpend : values w.live w.pending = ∅) :
    w.liveDeadlines = w.atLevel 0 ∪ w.atLevel 1 ∪ w.atLevel 2 ∪ w.atLevel 3 := by
  ext d
  constructor
  · rintro ⟨rid, hlive⟩
    rcases h.live_held rid d hlive with ⟨⟨l, s⟩, hhome⟩ | hmem
    · have hat : d ∈ w.atLevel l := ⟨rid, s, hhome, hlive⟩
      fin_cases l
      · exact .inl (.inl (.inl hat))
      · exact .inl (.inl (.inr hat))
      · exact .inl (.inr hat)
      · exact .inr hat
    · have hin : d ∈ values w.live w.pending := ⟨rid, hmem, hlive⟩
      rw [hpend] at hin
      exact hin.elim
  · rintro (((⟨rid, s, -, hlive⟩ | ⟨rid, s, -, hlive⟩) | ⟨rid, s, -, hlive⟩) | ⟨rid, s, -, hlive⟩)
    all_goals exact ⟨rid, hlive⟩

/-- **`scan_wheel_min`** finds the earliest deadline, whether or not something is pending. -/
theorem FullWf.scanWheelMin (h : FullWf w) : Least w.liveDeadlines w.scanWheelMin := by
  have hscan := least_empty.scan w.live w.pending
  rw [Set.empty_union, ← scanMembers_eq] at hscan
  rw [TimerWheel.scanWheelMin]
  cases hpend : w.scanMembers none w.pending with
  | some pb =>
    -- what is pending and live is due, and nothing stored is
    obtain ⟨⟨rid, hmem, hlive⟩, hleast⟩ := hscan.isLeast hpend
    refine ⟨fun d hd => ?_, fun hnone => by cases hnone⟩
    cases hd
    refine ⟨⟨rid, hlive⟩, ?_⟩
    rintro d ⟨rid', hlive'⟩
    rcases h.live_held rid' d hlive' with ⟨⟨l, s⟩, hhome⟩ | hmem'
    · obtain ⟨d', hd', hplaced⟩ := h.home_placed rid' l s hhome
      obtain rfl : d' = d := Option.some.inj (hd'.symm.trans hlive')
      exact UInt64.le_trans ((h.pending_expired rid hmem).2 pb hlive) (UInt64.le_of_lt hplaced.lt)
    · exact hleast ⟨rid', hmem', hlive'⟩
  | none =>
    rw [hpend] at hscan
    dsimp only
    have h₀ : Least (w.atLevel 0) (w.scanLevelMin 0 none) :=
      (h.scanLevelMin (by decide) fun b hb => by cases hb).least
    have hbound : ∀ l : Fin numLevels, l ≠ 0 → ∀ b, w.scanLevelMin 0 none = some b →
        b ∈ w.atLevel 0 ∧ l ≠ 0 := fun l hl b hb => ⟨(h₀.isLeast hb).1, hl⟩
    have h₁ := h.scanLevelMin (l := 1) (by decide) (hbound 1 (by decide))
    have h₂ := h.scanLevelMin (l := 2) (by decide) (hbound 2 (by decide))
    have hmerge := (((least_empty.merge (h₀.candidate ∅)).merge
      (h₁.mono (by simp))).merge (h₂.mono (by simp))).merge (h.scanLevel3Min.candidate _)
    rw [Set.empty_union, ← h.liveDeadlines_eq hscan.eq_empty] at hmerge
    have hfold : ∀ f : Option UInt64 → Option UInt64 → Option UInt64, (∀ o c, f o c = merge o c) →
        ∀ c₀ c₁ c₂ c₃, [c₀, c₁, c₂, c₃].foldl f none =
          merge (merge (merge (merge none c₀) c₁) c₂) c₃ := by
      intro f hf c₀ c₁ c₂ c₃
      simp only [List.foldl_cons, List.foldl_nil, hf]
    rw [hfold _ fun o c => ?_]
    · exact hmerge
    · cases c with
      | none => rfl
      | some d => exact mergeMin_eq o d

/-! ### The known minimum -/

/-- Whatever is stored or pending, the known minimum depends on the live timers only. -/
theorem CachedMinValid.congr (h : CachedMinValid w) (hdl : w'.deadlines = w.deadlines)
    (hmin : w'.cachedMin = w.cachedMin) : CachedMinValid w' := by
  intro m hm
  rw [liveDeadlines, live, hdl]
  exact h m (hmin ▸ hm)

/-- `invalidate_min` forgets a minimum that is not before `d`. -/
theorem cachedMin_invalidateMin {m : UInt64} (h : (w.invalidateMin d).cachedMin = some m) :
    w.cachedMin = some m ∧ m < d := by
  rw [invalidateMin] at h
  cases hmin : w.cachedMin with
  | none =>
    rw [hmin] at h
    dsimp only at h
    rw [hmin] at h
    cases h
  | some b =>
    rw [hmin] at h
    dsimp only at h
    split at h
    · cases h
    · rename_i hlt
      rw [hmin] at h
      cases h
      exact ⟨rfl, UInt64.not_le.mp hlt⟩

/-- A minimum before the deadline of `rid` is that of the other timers. -/
theorem CachedMinValid.invalidateMin (h : CachedMinValid w) (hd : w.live rid = some d)
    (hdl : ∀ r, w'.live r = if r = rid then none else w.live r)
    (hmin : w'.cachedMin = (w.invalidateMin d).cachedMin) : CachedMinValid w' := by
  intro m hm
  obtain ⟨hold, hlt⟩ := cachedMin_invalidateMin (hmin ▸ hm)
  obtain ⟨⟨k, hk⟩, hleast⟩ := h m hold
  have hne : k ≠ rid := fun e => by
    rw [e, hd] at hk
    exact UInt64.lt_irrefl _ (Option.some.inj hk ▸ hlt)
  refine ⟨⟨k, ?_⟩, ?_⟩
  · rw [hdl, if_neg hne, hk]
  · rintro d' ⟨r, hr⟩
    rw [hdl] at hr
    split at hr
    · cases hr
    · exact hleast ⟨r, hr⟩

section Frame

variable (w : TimerWheel) (l : Fin numLevels) (s : Fin wheelSize) (rid d t now : UInt64)

theorem cachedMin_wheelRemoveInner : (w.wheelRemoveInner rid).cachedMin = w.cachedMin := by
  have hswap : ∀ w : TimerWheel, ∀ l s i, (w.slotSwapRemove l s i).cachedMin = w.cachedMin := by
    intro w l s i
    unfold slotSwapRemove
    dsimp only
    split <;> rfl
  rw [wheelRemoveInner]
  split
  · rfl
  · unfold unlink
    dsimp only
    split
    · split
      · split
        · exact hswap _ _ _ _
        · rfl
      · rfl
    · rfl

theorem cachedMin_cascadeEntry : (cascadeEntry now w rid).cachedMin = w.cachedMin := by
  rw [cascadeEntry]
  split
  · split <;> rfl
  · rfl

theorem cachedMin_cascadeSlot : (cascadeSlot now l w s).cachedMin = w.cachedMin := by
  show ((w.slotAt l s).foldl (cascadeEntry now) (w.slotDrain l s).2).cachedMin = _
  exact List.foldlRecOn (motive := fun w' => w'.cachedMin = w.cachedMin) (w.slotAt l s) _
    (b := (w.slotDrain l s).2) rfl fun w' hw' rid _ => (cachedMin_cascadeEntry w' rid now).trans hw'

theorem cachedMin_cascadeLevel : (cascadeLevel now l w).cachedMin = w.cachedMin :=
  List.foldlRecOn (motive := fun w' => w'.cachedMin = w.cachedMin) _ _ rfl fun w' hw' _ _ =>
    (cachedMin_cascadeSlot w' l _ now).trans hw'

theorem cachedMin_cascadeLevels (ls : List (Fin numLevels)) :
    (cascadeLevels now ls w).cachedMin = w.cachedMin := by
  induction ls generalizing w with
  | nil => rfl
  | cons l ls ih =>
    rw [cascadeLevels]
    split
    · rfl
    · rw [ih, cachedMin_cascadeLevel]

/-- `advance_to` leaves the known minimum alone, which does not depend on where ids are stored. -/
@[simp] theorem cachedMin_advanceTo : (w.advanceTo now).cachedMin = w.cachedMin :=
  cachedMin_cascadeLevels w now _

end Frame

theorem CachedMinValid.insert (h : CachedMinValid w) (rid d : UInt64) :
    CachedMinValid (w.insert rid d) := by
  have hlive : ∀ r, (w.insert rid d).live r = if r = rid then some d else w.live r := by
    intro r
    rw [live, deadlines_insert, VecMap.get_insert]
    rfl
  have hplace : ((w.invalidateOld rid).place rid d).cachedMin = (w.invalidateOld rid).cachedMin :=
    cachedMin_wheelRemoveInner _ _
  -- the minimum before `d` is considered is that of the timers other than `rid`
  have hold : ∀ m, (w.invalidateOld rid).cachedMin = some m →
      (∃ k, k ≠ rid ∧ w.live k = some m) ∧ ∀ k d', w.live k = some d' → m ≤ d' := by
    intro m hm
    rw [invalidateOld] at hm
    have hcases : w.cachedMin = some m ∧ ∀ d', w.live rid = some d' → m < d' := by
      split at hm
      · rename_i old hget
        obtain ⟨hmin, hlt⟩ := cachedMin_invalidateMin hm
        exact ⟨hmin, fun d' hd' => Option.some.inj (hget.symm.trans hd') ▸ hlt⟩
      · rename_i hget
        exact ⟨hm, fun d' hd' => by cases hget.symm.trans hd'⟩
    obtain ⟨⟨k, hk⟩, hleast⟩ := h m hcases.1
    refine ⟨⟨k, fun e => ?_, hk⟩, fun k' d' hd' => hleast ⟨k', hd'⟩⟩
    rw [e] at hk
    exact UInt64.lt_irrefl _ (hcases.2 m hk)
  intro m hm
  rw [TimerWheel.insert, lowerMin, hplace] at hm
  cases hb : (w.invalidateOld rid).cachedMin with
  | none =>
    rw [hb] at hm
    dsimp only at hm
    rw [hplace, hb] at hm
    cases hm
  | some b =>
    rw [hb] at hm
    dsimp only at hm
    obtain ⟨⟨k, hne, hk⟩, hleast⟩ := hold b hb
    split at hm
    · rename_i hlt
      cases hm
      refine ⟨⟨rid, by rw [hlive, if_pos rfl]⟩, ?_⟩
      rintro d' ⟨r, hr⟩
      rw [hlive] at hr
      split at hr
      · exact UInt64.le_of_eq (Option.some.inj hr)
      · exact UInt64.le_trans (UInt64.le_of_lt hlt) (hleast r d' hr)
    · rename_i hge
      rw [hplace, hb] at hm
      cases hm
      refine ⟨⟨k, by rw [hlive, if_neg hne, hk]⟩, ?_⟩
      rintro d' ⟨r, hr⟩
      rw [hlive] at hr
      split at hr
      · exact Option.some.inj hr ▸ UInt64.not_lt.mp hge
      · exact hleast r d' hr

theorem CachedMinValid.remove (h : CachedMinValid w) (rid : UInt64) :
    CachedMinValid (w.remove rid) := by
  cases hd : w.deadlines.get rid with
  | none =>
    rw [remove_of_get_none hd]
    exact h
  | some d =>
    refine h.invalidateMin hd (fun r => get_deadlines_remove w rid r) ?_
    rw [TimerWheel.remove, hd]
    exact cachedMin_wheelRemoveInner _ _

theorem CachedMinValid.popPending (h : CachedMinValid w) (now : UInt64) (n : ℕ) :
    CachedMinValid (popPending now n w).2 := by
  induction n generalizing w with
  | zero => exact h
  | succ n ih =>
    rw [TimerWheel.popPending]
    split
    · exact h
    · rename_i rid _
      have h₀ : CachedMinValid { w with pending := w.pending.dropLast } := h.congr rfl rfl
      dsimp only
      split
      · rename_i d hd
        split
        · have hlive : TimerWheel.live { w with pending := w.pending.dropLast } rid = some d := hd
          refine h₀.invalidateMin hlive (fun r => ?_) rfl
          dsimp only [live]
          rw [(invalidateMin_frame _ _).1, VecMap.get_remove]
        · exact ih h₀
      · exact ih h₀

theorem CachedMinValid.tryPopExpired (h : CachedMinValid w) (now : UInt64) :
    CachedMinValid (w.tryPopExpired now).2 := by
  have hfirst := h.popPending now w.pending.length
  rw [TimerWheel.tryPopExpired]
  split
  · rename_i heq
    rw [heq] at hfirst
    exact hfirst
  · rename_i heq
    rw [heq] at hfirst
    refine CachedMinValid.popPending ?_ _ _
    split
    · exact hfirst.congr (deadlines_advanceTo _ _) (cachedMin_advanceTo _ _)
    · exact hfirst

/-! ### Every operation -/

theorem fullWf_new : FullWf new :=
  .of_wellFormed wellFormed_new (fun m hm => by cases hm) VecMap.countWf_new levelCountsWf_new

theorem FullWf.insert (h : FullWf w) (hpend : w.pending = []) (hd : w.elapsed < d) (rid : UInt64) :
    FullWf (w.insert rid d) :=
  .of_wellFormed ((h.wellFormed hpend).insert hpend hd rid) (h.cached_min_valid.insert rid d)
    (deadlines_insert w rid d ▸ h.count_wf.insert rid d) (h.level_counts_wf.insert rid d)

theorem FullWf.remove (h : FullWf w) (hpend : w.pending = []) (rid : UInt64) :
    FullWf (w.remove rid) := by
  refine .of_wellFormed ((h.wellFormed hpend).remove hpend rid) (h.cached_min_valid.remove rid) ?_
    (h.level_counts_wf.remove rid)
  cases hd : w.deadlines.get rid with
  | none =>
    rw [remove_of_get_none hd]
    exact h.count_wf
  | some d =>
    rw [(remove_spec h.linked hd).2.2.1]
    exact h.count_wf.remove rid

/-- `try_pop_expired` keeps what it does not need: the counts, and the validity of a known
minimum. -/
theorem FullWf.tryPopExpired (h : FullWf w) (hwf : WellFormed (w.tryPopExpired now).2) :
    FullWf (w.tryPopExpired now).2 := by
  refine .of_wellFormed hwf (h.cached_min_valid.tryPopExpired now) ?_
    (h.level_counts_wf.tryPopExpired now)
  obtain ⟨w', heq, hdl⟩ | ⟨rid, d, w', heq, -, hdl⟩ := w.tryPopExpired_cases now
  · rw [heq, hdl]
    exact h.count_wf
  · rw [heq, hdl]
    exact h.count_wf.remove rid

/-- **The invariant holds throughout**, whatever a caller does that keeps to the contract. -/
theorem fullWf_of_reachable {c : Session} (h : Session.machine.Reachable c) :
    FullWf c.wheel := by
  suffices hinv : FullWf c.wheel ∧ WellFormed c.wheel ∧
      (c.settled = true → c.wheel.pending = []) from hinv.1
  refine h.invariant (I := fun c => FullWf c.wheel ∧ WellFormed c.wheel ∧
    (c.settled = true → c.wheel.pending = [])) (fun c hc => ?_) fun c a c' hc hstep => ?_
  · obtain rfl : c = ⟨new, true⟩ := hc
    exact ⟨fullWf_new, wellFormed_new, fun _ => rfl⟩
  · obtain ⟨hfull, hwf, hpend⟩ := hc
    obtain ⟨hperm, -, rfl⟩ := id hstep
    obtain ⟨m', -, hrep⟩ := Session.simulation.step c a _ _ ⟨hwf, hpend, rfl⟩ hstep
    refine ⟨?_, hrep.wellFormed, hrep.pending⟩
    obtain ⟨op, res⟩ := a
    cases op with
    | insert rid d => exact hfull.insert (hpend hperm.1) hperm.2 rid
    | remove rid => exact hfull.remove (hpend hperm) rid
    | tryPopExpired now => exact hfull.tryPopExpired hrep.wellFormed

/-- **The answer is exact.** In every state that satisfies the wheel's invariant `next_deadline`
returns the earliest deadline, and nothing if no timer is live. So would a scan of the wheel, known
minimum or not; and the known minimum, the scan of each of the lower levels within its bound, and
that of the top level agree with the earliest deadline there is, or is at the level. Every state
that is reached satisfies the invariant. -/
theorem nextDeadline_exact :
    (∀ w : TimerWheel, FullWf w →
      (∀ d, w.nextDeadline = some d ↔ IsLeast w.liveDeadlines d) ∧
      (w.nextDeadline = none ↔ ∀ rid, w.live rid = none) ∧
      w.scanWheelMin = w.nextDeadline ∧
      (∀ m, w.cachedMin = some m → IsLeast w.liveDeadlines m) ∧
      (∀ l : Fin numLevels, l.val < 3 →
        (∀ d, w.scanLevelMin l none = some d ↔ IsLeast (w.atLevel l) d) ∧
        (w.scanLevelMin l none = none ↔ w.atLevel l = ∅) ∧
        (0 < l.val → ∀ b,
          (∀ d, w.scanLevelMin l (some b) = some d → IsLeast (w.atLevel l) d) ∧
          (w.scanLevelMin l (some b) = none → ∀ d ∈ w.atLevel l, b < d)) ∧
        (w.levelCounts.get l = 0 → w.atLevel l = ∅)) ∧
      (∀ d, w.scanLevel3Min = some d ↔ IsLeast (w.atLevel 3) d) ∧
      (w.scanLevel3Min = none ↔ w.atLevel 3 = ∅)) ∧
    ∀ c : Session, Session.machine.Reachable c → FullWf c.wheel := by
  refine ⟨fun w h => ?_, fun c => fullWf_of_reachable⟩
  have hscan := h.scanWheelMin
  have hnext : Least w.liveDeadlines w.nextDeadline := by
    rw [nextDeadline]
    split
    · rename_i hempty
      have hnone : w.liveDeadlines = ∅ := by
        refine Set.eq_empty_iff_forall_notMem.mpr ?_
        rintro d ⟨rid, hd⟩
        cases (h.count_wf.get_of_isEmpty hempty rid).symm.trans hd
      rw [hnone]
      exact least_empty
    · cases hmin : w.cachedMin with
      | none => exact hscan
      | some m =>
        refine ⟨fun d hd => ?_, fun hnone => by cases hnone⟩
        exact Option.some.inj hd ▸ h.cached_min_valid m hmin
  refine ⟨fun d => hnext.eq_some_iff, ?_, Least.unique hscan hnext, h.cached_min_valid,
    fun l hl => ?_, fun d => h.scanLevel3Min.eq_some_iff, h.scanLevel3Min.eq_none_iff⟩
  · rw [hnext.eq_none_iff, Set.eq_empty_iff_forall_notMem]
    constructor
    · intro hno rid
      cases hd : w.live rid with
      | none => rfl
      | some d => exact (hno d ⟨rid, hd⟩).elim
    · rintro hno d ⟨rid, hd⟩
      cases (hno rid).symm.trans hd
  · have hcandidate : Candidate ∅ (w.atLevel l) (w.scanLevelMin l none) :=
      h.scanLevelMin hl fun b hb => by cases hb
    have hlevel := hcandidate.least
    refine ⟨fun d => hlevel.eq_some_iff, hlevel.eq_none_iff, fun hpos b => ?_,
      h.atLevel_of_count_eq_zero⟩
    have hbounded : Candidate {b} (w.atLevel l) (w.scanLevelMin l (some b)) :=
      h.scanLevelMin hl fun b' hb' =>
      ⟨Option.some.inj hb' ▸ rfl, fun e => Nat.ne_of_gt hpos (e ▸ rfl)⟩
    refine ⟨hbounded.isLeast, fun hnone d hd => ?_⟩
    obtain ⟨b', hb', hlt⟩ := hbounded.beaten hnone d hd
    exact Set.mem_singleton_iff.mp hb' ▸ hlt

/-- Of three timers at three levels the second is the earliest. -/
theorem nextDeadline_exact_three :
    IsLeast (((new.insert 1 70000).insert 2 300).insert 3 (2 ^ 40)).liveDeadlines 300 := by
  have h₁ : Session.machine.Run ⟨new, true⟩ [(.insert 1 70000, none)]
      ((⟨new, true⟩ : Session).after (.insert 1 70000)) :=
    .snoc .nil ⟨⟨rfl, by decide⟩, rfl, rfl⟩
  have h₂ : Session.machine.Run ⟨new, true⟩ [(.insert 1 70000, none), (.insert 2 300, none)]
      (((⟨new, true⟩ : Session).after (.insert 1 70000)).after (.insert 2 300)) :=
    .snoc h₁ ⟨⟨rfl, by decide +kernel⟩, rfl, rfl⟩
  have h₃ : Session.machine.Run ⟨new, true⟩
      [(.insert 1 70000, none), (.insert 2 300, none), (.insert 3 (2 ^ 40), none)]
      ((((⟨new, true⟩ : Session).after (.insert 1 70000)).after (.insert 2 300)).after
        (.insert 3 (2 ^ 40))) :=
    .snoc h₂ ⟨⟨rfl, by decide +kernel⟩, rfl, rfl⟩
  exact ((nextDeadline_exact.1 _ (nextDeadline_exact.2 _ ⟨_, _, rfl, h₃⟩)).1 300).mp
    (by decide +kernel)

end TimerWheel

end Lion
