import Lion.TimerWheel.Counts

/-!
# The representation of a wheel

What has to hold of the parts of a wheel for it to stand for a map: where ids are, what their
back-pointers say, and what is counted. The rest of the development has this in terms of homes,
which leave out at which index of its slot an id is; here it is said of the slots themselves, with
every index in view. What is pending may have been removed in the meantime, and be pending more than
once then.

## Two readings of one invariant

`RepInv` is written for a reader who wants to check it against a wheel in memory: each clause is
about an entry of a slot or of a map and can be tested by looking there. `Filed` is the same in the
terms in which the operations were proved correct. `repInv_iff` says that they are the same, so that
the proofs about `Filed` carry over and none is done twice.

## What is asked of the caller

Insertions, removals and advances are as callers make them, with nothing pending. For a pop it does
not matter what is pending: the invariant says nothing of an id there that is no longer live, and of
one that is, that it is due and there once. This is weaker than what a caller brings about who keeps
to the contract of `Session.Permits`, and it is what the source states.

## Main definitions

* `RepInv` — the representation invariant
* `Filed` — the same in terms of homes

## Main results

* `repInv_iff` — the two are the same
* `Filed.popPending` — popping, whatever is pending
* `repInv_preserved` — every operation keeps the invariant
-/

namespace Lion

namespace TimerWheel

variable {w w' : TimerWheel} {l : Fin numLevels} {s : Fin wheelSize} {rid now d : UInt64}

/-- The representation invariant, as one would check it on the fields of a wheel. -/
structure RepInv (w : TimerWheel) : Prop where
  /-- A live id is pending, once, or in one slot, at the index its back-pointer says. -/
  held : ∀ rid d, w.live rid = some d →
    (w.pending.count rid = 1 ∧ ∀ l s, rid ∉ w.slotAt l s) ∨
    (rid ∉ w.pending ∧ ∃ p, w.positions.get rid = some p ∧
      ∀ l s i, (w.slotAt l s)[i]? = some rid ↔ p = ⟨l, s, i⟩)
  /-- Everything in a slot has a back-pointer. -/
  entry : ∀ l s i rid, (w.slotAt l s)[i]? = some rid → w.positions.get rid = some ⟨l, s, i⟩
  /-- There are no other back-pointers, and none that are not of live ids. -/
  backPointer : ∀ rid p, w.positions.get rid = some p →
    (w.slotAt p.level p.slot)[p.idx]? = some rid ∧ ∃ d, w.live rid = some d
  /-- The slot is the one that the deadline names at its level. -/
  slot : ∀ rid l s d, rid ∈ w.slotAt l s → w.live rid = some d →
    s.val = ((d >>> shift l) &&& 255).toNat
  /-- The level has the deadline ahead. -/
  ahead : ∀ rid l s d, rid ∈ w.slotAt l s → w.live rid = some d →
    w.elapsed >>> shift l < d >>> shift l
  /-- Below the top level it is less than a turn ahead. -/
  band : ∀ rid l s d, rid ∈ w.slotAt l s → w.live rid = some d → l.val < 3 →
    d.toNat - w.elapsed.toNat < 256 ^ (l.val + 1)
  /-- What is pending is due, if it still is live. -/
  pending : ∀ rid ∈ w.pending, ∀ d, w.live rid = some d → d ≤ w.elapsed
  levelCounts : ∀ l : Fin numLevels, w.levelCounts.get l = ∑ s, (w.slotAt l s).length
  /-- The deadlines are counted, each once. -/
  count : w.deadlines.count = {rid | w.live rid ≠ none}.ncard

/-- What it says of ids, in terms of homes. -/
structure Filed (w : TimerWheel) : Prop where
  linked : Linked w []
  /-- What is stored is live, and stored where it belongs. -/
  home_placed : ∀ rid l s, w.home rid = some (l, s) →
    ∃ d, w.live rid = some d ∧ Placed w.elapsed l s d
  /-- No live id is lost between the slots and what is pending. -/
  live_held : ∀ rid d, w.live rid = some d → (∃ a, w.home rid = some a) ∨ rid ∈ w.pending
  /-- What is pending is not stored, and is due and pending once if it is live. -/
  pending_due : ∀ rid ∈ w.pending, w.home rid = none ∧
    ∀ d, w.live rid = some d → d ≤ w.elapsed ∧ w.pending.count rid = 1

/-! ### Homes and indices -/

/-- `Placed`, with the shifts and masks by which the code computes it. -/
theorem placed_iff {t : UInt64} : Placed t l s d ↔
    s.val = ((d >>> shift l) &&& 255).toNat ∧ t >>> shift l < d >>> shift l ∧
      (l.val < 3 → d.toNat - t.toNat < 256 ^ (l.val + 1)) := by
  have hahead : t >>> shift l < d >>> shift l ↔ pos l t < pos l d := by
    rw [UInt64.lt_iff_toNat_lt, toNat_shiftRight_shift, toNat_shiftRight_shift]
  constructor
  · intro h
    refine ⟨congrArg Fin.val h.slot_eq, hahead.mpr h.ahead, fun hl => ?_⟩
    have hband : d.toNat < t.toNat + 256 ^ (l.val + 1) := h.band hl
    have hpos : 0 < 256 ^ (l.val + 1) := Nat.pow_pos (by decide)
    omega
  · rintro ⟨hslot, hlt, hband⟩
    refine ⟨Fin.ext hslot, hahead.mp hlt, fun hl => ?_⟩
    have hlt' := UInt64.lt_iff_toNat_lt.mp (lt_of_pos_lt (hahead.mp hlt))
    have hband := hband hl
    show d.toNat < t.toNat + 256 ^ (l.val + 1)
    omega

namespace Filed

theorem mem_slotAt_iff (h : Filed w) : rid ∈ w.slotAt l s ↔ w.home rid = some (l, s) := by
  rw [h.linked.mem_slotAt_iff]
  exact and_iff_left List.not_mem_nil

/-- What is in a slot is where its deadline belongs, seen from the wheel's instant. -/
theorem placed (h : Filed w) (hmem : rid ∈ w.slotAt l s) (hd : w.live rid = some d) :
    Placed w.elapsed l s d := by
  obtain ⟨d', hd', hplaced⟩ := h.home_placed rid l s (h.mem_slotAt_iff.mp hmem)
  cases hd.symm.trans hd'
  exact hplaced

/-- Homes are as good as indices: a wheel that is filed has its entries where they should be. -/
theorem repInv (h : Filed w) (hcounts : LevelCountsWf w) (hcount : w.deadlines.Counted) :
    RepInv w where
  held rid d hd := by
    by_cases hpend : rid ∈ w.pending
    · obtain ⟨hhome, hdue⟩ := h.pending_due rid hpend
      refine .inl ⟨(hdue d hd).2, fun l s hmem => ?_⟩
      cases hhome.symm.trans (h.mem_slotAt_iff.mp hmem)
    · obtain ⟨⟨l, s⟩, hhome⟩ := (h.live_held rid d hd).resolve_right hpend
      obtain ⟨i, hp⟩ := home_eq_some.mp hhome
      refine .inr ⟨hpend, _, hp, fun l' s' i' => ?_⟩
      rw [h.linked.slot_iff, hp, and_iff_left List.not_mem_nil, Option.some_inj]
  entry l s i rid hi := ((h.linked.slot_iff l s i rid).mp hi).1
  backPointer rid p hp := by
    refine ⟨(h.linked.slot_iff _ _ _ _).mpr ⟨hp, List.not_mem_nil⟩, ?_⟩
    obtain ⟨d, hd, -⟩ := h.home_placed rid p.level p.slot (home_eq_some.mpr ⟨p.idx, hp⟩)
    exact ⟨d, hd⟩
  slot rid l s d hmem hd := (placed_iff.mp (h.placed hmem hd)).1
  ahead rid l s d hmem hd := (placed_iff.mp (h.placed hmem hd)).2.1
  band rid l s d hmem hd := (placed_iff.mp (h.placed hmem hd)).2.2
  pending rid hmem d hd := ((h.pending_due rid hmem).2 d hd).1
  levelCounts := hcounts
  count := hcount

end Filed

namespace RepInv

/-- Indices are as good as homes: the entries of the slots determine where every id is at home. -/
theorem filed (h : RepInv w) : Filed w where
  linked := by
    refine ⟨fun l s i rid => ⟨fun hi => ⟨h.entry l s i rid hi, List.not_mem_nil⟩, ?_⟩⟩
    rintro ⟨hp, -⟩
    exact (h.backPointer rid _ hp).1
  home_placed rid l s hhome := by
    obtain ⟨i, hp⟩ := home_eq_some.mp hhome
    obtain ⟨hi, d, hd⟩ := h.backPointer rid _ hp
    have hmem : rid ∈ w.slotAt l s := List.mem_of_getElem? hi
    exact ⟨d, hd, placed_iff.mpr
      ⟨h.slot rid l s d hmem hd, h.ahead rid l s d hmem hd, h.band rid l s d hmem hd⟩⟩
  live_held rid d hd := by
    rcases h.held rid d hd with ⟨hone, -⟩ | ⟨-, p, hp, -⟩
    · exact .inr (List.count_pos_iff.mp (hone ▸ Nat.one_pos))
    · exact .inl ⟨_, home_eq_some.mpr ⟨p.idx, hp⟩⟩
  pending_due rid hmem := by
    constructor
    · rw [home_eq_none]
      cases hp : w.positions.get rid with
      | none => rfl
      | some p =>
        -- it would be in a slot, and live
        obtain ⟨hi, d, hd⟩ := h.backPointer rid p hp
        rcases h.held rid d hd with ⟨-, hnot⟩ | ⟨hnot, -⟩
        · exact absurd (List.mem_of_getElem? hi) (hnot _ _)
        · exact absurd hmem hnot
    · intro d hd
      refine ⟨h.pending rid hmem d hd, ?_⟩
      rcases h.held rid d hd with ⟨hone, -⟩ | ⟨hnot, -⟩
      · exact hone
      · exact absurd hmem hnot

end RepInv

/-- **The invariant in terms of homes.** -/
theorem repInv_iff : RepInv w ↔ Filed w ∧ LevelCountsWf w ∧ w.deadlines.Counted :=
  ⟨fun h => ⟨h.filed, h.levelCounts, h.count⟩, fun h => h.1.repInv h.2.1 h.2.2⟩

/-! ### Nothing pending -/

theorem WellFormed.filed (h : WellFormed w) : Filed w where
  linked := h.linked
  home_placed rid l s hhome := by
    obtain ⟨d, hd, hplaced⟩ := h.home_live rid l s hhome
    exact ⟨d, hd, hplaced List.not_mem_nil⟩
  live_held := h.live_held
  pending_due rid hmem := by
    obtain ⟨hnone, d, hd, hdue⟩ := h.pending_due rid hmem
    refine ⟨hnone, fun d' hd' => ⟨?_, List.count_eq_one_of_mem h.pending_nodup hmem⟩⟩
    cases hd.symm.trans hd'
    exact hdue

theorem Filed.wellFormed (h : Filed w) (hpend : w.pending = []) : WellFormed w where
  linked := h.linked
  home_live rid l s hhome := by
    obtain ⟨d, hd, hplaced⟩ := h.home_placed rid l s hhome
    exact ⟨d, hd, fun _ => hplaced⟩
  hand_home _ hmem := absurd hmem List.not_mem_nil
  pending_due rid hmem := by
    rw [hpend] at hmem
    cases hmem
  live_held := h.live_held
  pending_nodup := hpend ▸ List.nodup_nil

/-! ### Popping -/

/-- The last id that is pending is taken out, and its deadline with it. -/
theorem Filed.pop {ps : List UInt64} (h : Filed w) (hpend : w.pending = ps ++ [rid])
    (hslot : ∀ l s, w'.slotAt l s = w.slotAt l s)
    (hpos : ∀ r, w'.positions.get r = w.positions.get r)
    (hlive : ∀ r, w'.live r = if r = rid then none else w.live r)
    (hpend' : w'.pending = ps) (helapsed : w'.elapsed = w.elapsed) : Filed w' := by
  have hhome : ∀ r, w'.home r = w.home r := fun r => by rw [home, home, hpos]
  have hne : ∀ {r d}, w'.live r = some d → r ≠ rid ∧ w.live r = some d := by
    intro r d hd
    rw [hlive] at hd
    split at hd
    · cases hd
    · rename_i hne
      exact ⟨hne, hd⟩
  have hrid : w.home rid = none := (h.pending_due rid (by simp [hpend])).1
  refine ⟨⟨fun l s i r => ?_⟩, fun r l s hr => ?_, fun r d hd => ?_,
    fun r hr => ⟨?_, fun d hd => ?_⟩⟩
  · rw [hslot, hpos]
    exact h.linked.slot_iff l s i r
  · rw [hhome] at hr
    obtain ⟨d, hd, hplaced⟩ := h.home_placed r l s hr
    have hne : r ≠ rid := fun e => by
      rw [e, hrid] at hr
      cases hr
    rw [hlive, if_neg hne, helapsed]
    exact ⟨d, hd, hplaced⟩
  · obtain ⟨hne, hd⟩ := hne hd
    rw [hhome, hpend']
    refine (h.live_held r d hd).imp_right fun hmem => ?_
    rw [hpend, List.mem_append, List.mem_singleton] at hmem
    exact hmem.resolve_right hne
  · rw [hhome]
    rw [hpend'] at hr
    exact (h.pending_due r (by simp [hpend, hr])).1
  · obtain ⟨hne, hd⟩ := hne hd
    rw [hpend'] at hr ⊢
    obtain ⟨hdue, hone⟩ := (h.pending_due r (by simp [hpend, hr])).2 d hd
    rw [hpend, List.count_append, List.count_singleton, if_neg (by simpa using Ne.symm hne)] at hone
    exact ⟨helapsed ▸ hdue, hone⟩

/-- **Popping.** It keeps the invariant, does not move the wheel, and leaves nothing pending if it
finds nothing. -/
theorem Filed.popPending {n : ℕ} (h : Filed w) (hle : w.elapsed ≤ now) (hn : w.pending.length ≤ n) :
    Filed (popPending now n w).2 ∧ (popPending now n w).2.elapsed = w.elapsed ∧
      ((popPending now n w).1 = none → (popPending now n w).2.pending = []) := by
  induction n generalizing w with
  | zero => exact ⟨h, rfl, fun _ => List.eq_nil_of_length_eq_zero (Nat.le_zero.mp hn)⟩
  | succ n ih =>
    rcases List.eq_nil_or_concat' w.pending with hnil | ⟨ps, rid, hpend⟩
    · rw [popPending_of_nil hnil]
      exact ⟨h, rfl, fun _ => hnil⟩
    · have hrid := h.pending_due rid (by simp [hpend])
      have hlen : ps.length ≤ n := by
        rw [hpend, List.length_append, List.length_singleton] at hn
        exact Nat.le_of_succ_le_succ hn
      rw [TimerWheel.popPending]
      simp only [hpend, List.getLast?_concat, List.dropLast_concat]
      cases hd : w.deadlines.get rid with
      | some d =>
        -- it is live, so it is due
        dsimp only
        rw [if_pos (UInt64.le_trans (hrid.2 d hd).1 hle)]
        obtain ⟨c, hc⟩ := exists_invalidateMin_eq { w with pending := ps } d
        rw [hc]
        refine ⟨h.pop hpend (fun _ _ => rfl) (fun r => ?_) (fun r => ?_) rfl rfl, rfl,
          fun hnone => by cases hnone⟩
        · show (w.positions.remove rid).2.get r = _
          rw [VecMap.get_remove]
          split
          · rename_i hr
            rw [hr, home_eq_none.mp hrid.1]
          · rfl
        · exact VecMap.get_remove _ _ _
      | none =>
        have hpop : Filed { w with pending := ps } := by
          refine h.pop hpend (fun _ _ => rfl) (fun _ => rfl) (fun r => ?_) rfl rfl
          split
          · rename_i hr
            rw [hr]
            exact hd
          · rfl
        exact ih hpop hle hlen

theorem Filed.tryPopExpired (h : Filed w) (hle : w.elapsed ≤ now) :
    Filed (w.tryPopExpired now).2 := by
  obtain ⟨hfiled, helapsed, hnone⟩ := h.popPending hle (Nat.le_refl _)
  rw [TimerWheel.tryPopExpired]
  obtain ⟨res, w₁, hpop⟩ : ∃ res w₁, TimerWheel.popPending now w.pending.length w = (res, w₁) :=
    ⟨_, _, rfl⟩
  rw [hpop] at hfiled helapsed hnone ⊢
  cases res with
  | some rid => exact hfiled
  | none =>
    -- nothing is pending any more when the wheel is advanced
    have hwf := hfiled.wellFormed (hnone rfl)
    have hle₁ : w₁.elapsed ≤ now := helapsed ▸ hle
    dsimp only
    split
    · refine ((hwf.advanceTo hle₁).filed.popPending ?_ (Nat.le_refl _)).1
      exact UInt64.le_refl _
    · exact (hfiled.popPending hle₁ (Nat.le_refl _)).1

/-! ### Every operation -/

theorem repInv_new : RepInv new :=
  wellFormed_new.filed.repInv levelCountsWf_new VecMap.counted_new

theorem RepInv.insert (h : RepInv w) (hpend : w.pending = []) (hd : w.elapsed < d) (rid : UInt64) :
    RepInv (w.insert rid d) := by
  obtain ⟨hfiled, hcounts, hcount⟩ := repInv_iff.mp h
  have hwf := (hfiled.wellFormed hpend).insert hpend hd rid
  refine hwf.filed.repInv (hcounts.insert rid d) ?_
  rw [deadlines_insert]
  exact hcount.insert rid d

theorem RepInv.remove (h : RepInv w) (hpend : w.pending = []) (rid : UInt64) :
    RepInv (w.remove rid) := by
  obtain ⟨hfiled, hcounts, hcount⟩ := repInv_iff.mp h
  have hwf := (hfiled.wellFormed hpend).remove hpend rid
  refine hwf.filed.repInv (hcounts.remove rid) ?_
  cases hd : w.deadlines.get rid with
  | none =>
    rw [remove_of_get_none hd]
    exact hcount
  | some d =>
    rw [(remove_spec hfiled.linked hd).2.2.1]
    exact hcount.remove rid

theorem RepInv.advanceTo (h : RepInv w) (hpend : w.pending = []) (hle : w.elapsed ≤ now) :
    RepInv (w.advanceTo now) := by
  obtain ⟨hfiled, hcounts, hcount⟩ := repInv_iff.mp h
  have hwf := (hfiled.wellFormed hpend).advanceTo hle
  refine hwf.filed.repInv (hcounts.advanceTo now) ?_
  rw [deadlines_advanceTo]
  exact hcount

theorem RepInv.tryPopExpired (h : RepInv w) (hle : w.elapsed ≤ now) :
    RepInv (w.tryPopExpired now).2 := by
  obtain ⟨hfiled, hcounts, hcount⟩ := repInv_iff.mp h
  refine (hfiled.tryPopExpired hle).repInv (hcounts.tryPopExpired now) ?_
  obtain ⟨w', heq, hsame⟩ | ⟨rid, d, w', heq, -, hremove⟩ := w.tryPopExpired_cases now
  · rw [heq, hsame]
    exact hcount
  · rw [heq, hremove]
    exact hcount.remove rid

/-- **Every operation keeps the representation invariant**, which holds of a new wheel: `insert`,
`remove` and `advance_to` with nothing pending and as callers call them, and `try_pop_expired`
whatever is pending. -/
theorem repInv_preserved :
    RepInv new ∧
    (∀ w, RepInv w → w.pending = [] → ∀ rid d, w.elapsed < d → RepInv (w.insert rid d)) ∧
    (∀ w, RepInv w → w.pending = [] → ∀ rid, RepInv (w.remove rid)) ∧
    (∀ w, RepInv w → w.pending = [] → ∀ now, w.elapsed ≤ now → RepInv (w.advanceTo now)) ∧
    ∀ w, RepInv w → ∀ now, w.elapsed ≤ now → RepInv (w.tryPopExpired now).2 :=
  ⟨repInv_new, fun _ h hpend rid _ hd => h.insert hpend hd rid,
    fun _ h hpend rid => h.remove hpend rid, fun _ h hpend _ hle => h.advanceTo hpend hle,
    fun _ h _ hle => h.tryPopExpired hle⟩

/-- Two timers are set, and one is removed, before the wheel is advanced and popped. -/
theorem repInv_preserved_two :
    RepInv (((((new.insert 7 3).insert 8 300).remove 7).advanceTo 299).tryPopExpired 300).2 := by
  obtain ⟨hnew, hinsert, hremove, hadvance, hpop⟩ := repInv_preserved
  have h₁ := hinsert _ hnew rfl 7 3 (by decide)
  have h₂ := hinsert _ h₁ rfl 8 300 (by decide +kernel)
  have h₃ := hremove _ h₂ rfl 7
  have h₄ := hadvance _ h₃ (by decide +kernel) 299 (by decide +kernel)
  exact hpop _ h₄ 300 (by decide +kernel)

end TimerWheel

end Lion
