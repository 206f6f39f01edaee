import Lion.TimerWheel.Wheel

/-!
# Slots and back-pointers

Every id stored in a slot has a back-pointer to its slot and index, and every back-pointer leads to
the id. `Linked w hand` states the correspondence; the ids in `hand` are those `advance_to` has
taken out of a slot and not yet dealt with, whose back-pointers are stale.

The rest of the development looks at a back-pointer only up to the index within the slot: `home` is
the level and slot an id is stored at. The index is what swap-removal moves around, and with
`Linked` established here nothing later needs it.

## Swap-removal

Taking an id out of the middle of a slot moves the last entry of the slot into its place, and the
back-pointer of the moved entry has to follow. Three things can go wrong: the last entry may be the
one that goes, the entry that moved may be looked up under its old index, and the index may be one
past the end after the slot has shrunk. All of them are settled in `swapRemove`, for an arbitrary
wheel that arises so, and `wheelRemoveInner_cases` then says what `wheel_remove_inner` does without
mentioning an index.

## Main results

* `Linked.wheelInsertInner`, `Linked.wheelRemoveInner`, `Linked.slotDrain`, `Linked.forget` — each
  operation on slots keeps the correspondence
* `home_wheelInsertInner`, `Linked.home_wheelRemoveInner` — what each does to `home`
-/

namespace Lion

namespace TimerWheel

variable {w : TimerWheel} {l : Fin numLevels} {s : Fin wheelSize} {rid : UInt64}
  {hand rest : List UInt64}

/-! ### Reading slots back -/

theorem slotAt_setSlotAt (w : TimerWheel) (l : Fin numLevels) (s : Fin wheelSize) (v : List UInt64)
    (l' : Fin numLevels) (s' : Fin wheelSize) :
    (w.setSlotAt l s v).slotAt l' s' = if l' = l ∧ s' = s then v else w.slotAt l' s' := by
  simp only [slotAt, setSlotAt, Fin.getElem_fin, Vector.getElem_set]
  by_cases hl : l = l'
  · subst hl
    by_cases hs : s = s'
    · simp [hs]
    · simp [hs, Ne.symm hs, Fin.val_inj]
  · simp [hl, Ne.symm hl, Fin.val_inj]

@[simp] theorem slotAt_setSlotAt_self (w : TimerWheel) (l : Fin numLevels) (s : Fin wheelSize)
    (v : List UInt64) : (w.setSlotAt l s v).slotAt l s = v := by
  rw [slotAt_setSlotAt, if_pos ⟨rfl, rfl⟩]

theorem slotAt_setSlotAt_of_ne {l' : Fin numLevels} {s' : Fin wheelSize} (h : ¬(l' = l ∧ s' = s))
    (w : TimerWheel) (v : List UInt64) : (w.setSlotAt l s v).slotAt l' s' = w.slotAt l' s' := by
  rw [slotAt_setSlotAt, if_neg h]

@[simp] theorem slotAt_setCount (w : TimerWheel) (l : Fin numLevels) (n : ℕ)
    (l' : Fin numLevels) (s' : Fin wheelSize) : (w.setCount l n).slotAt l' s' = w.slotAt l' s' :=
  rfl

@[simp] theorem slotAt_withPositions (w : TimerWheel) (p : VecMap WheelPos)
    (l : Fin numLevels) (s : Fin wheelSize) :
    ({ w with positions := p } : TimerWheel).slotAt l s = w.slotAt l s :=
  rfl

@[simp] theorem slotAt_new (l : Fin numLevels) (s : Fin wheelSize) : new.slotAt l s = [] := by
  simp [slotAt, new]

/-- `slot_swap_remove` on a non-empty slot, whose last entry is `x`. -/
theorem slotAt_slotSwapRemove (w : TimerWheel) {last : ℕ} {x : UInt64} (i : ℕ) (l' : Fin numLevels)
    {s' : Fin wheelSize} (hx : (w.slotAt l s)[last]? = some x)
    (hlen : (w.slotAt l s).length = last + 1) :
    (w.slotSwapRemove l s i).slotAt l' s' =
      if l' = l ∧ s' = s then ((w.slotAt l s).set i x).dropLast else w.slotAt l' s' := by
  have hlast : (w.slotAt l s).getLast? = some x := by
    rw [List.getLast?_eq_getElem?, hlen, Nat.add_sub_cancel, hx]
  unfold slotSwapRemove
  dsimp only
  rw [slotAt_setCount, hlast]
  exact slotAt_setSlotAt _ _ _ _ _ _

theorem positions_slotSwapRemove (w : TimerWheel) (l : Fin numLevels) (s : Fin wheelSize) (i : ℕ) :
    (w.slotSwapRemove l s i).positions = w.positions := by
  unfold slotSwapRemove
  dsimp only
  split <;> rfl

/-- `wheel_remove_inner` on a back-pointer that leads into its slot. -/
theorem unlink_eq {i last : ℕ} (hlen : (w.slotAt l s).length = last + 1) (hi : i ≤ last) :
    w.unlink ⟨l, s, i⟩ =
      if i < last then
        { w.slotSwapRemove l s i with
          positions := w.positions.insert ((w.slotAt l s).getD last 0) ⟨l, s, i⟩ }
      else w.slotPop l s := by
  rw [unlink]
  dsimp only
  rw [hlen, if_pos (Nat.succ_pos _), Nat.add_sub_cancel, if_pos hi, positions_slotSwapRemove]

/-! ### Homes -/

/-- The level and slot `rid`'s back-pointer names, without the index. -/
def home (w : TimerWheel) (rid : UInt64) : Option (Fin numLevels × Fin wheelSize) :=
  (w.positions.get rid).map fun p => (p.level, p.slot)

theorem home_eq_none : w.home rid = none ↔ w.positions.get rid = none :=
  Option.map_eq_none_iff

theorem home_eq_some : w.home rid = some (l, s) ↔ ∃ i, w.positions.get rid = some ⟨l, s, i⟩ := by
  constructor
  · intro h
    obtain ⟨⟨l', s', i⟩, hp, heq⟩ := Option.map_eq_some_iff.mp h
    cases heq
    exact ⟨i, hp⟩
  · rintro ⟨i, hp⟩
    rw [home, hp]
    rfl

@[simp] theorem home_new (rid : UInt64) : new.home rid = none := rfl

/-- `wheel_insert_inner` gives one id a home, and every other id keeps the one it has. -/
theorem home_wheelInsertInner (w : TimerWheel) (rid d t r : UInt64) :
    (w.wheelInsertInner rid d t).home r = if r = rid then some (levelSlot d t) else w.home r := by
  show (VecMap.get (VecMap.insert _ _ _) r).map _ = _
  rw [VecMap.get_insert]
  split
  · rfl
  · rfl

/-! ### The correspondence -/

/-- Slots and back-pointers agree, except for the ids in `hand`. -/
structure Linked (w : TimerWheel) (hand : List UInt64) : Prop where
  /-- An id is at an index exactly if its back-pointer says so. -/
  slot_iff : ∀ l s i rid, (w.slotAt l s)[i]? = some rid ↔
    w.positions.get rid = some ⟨l, s, i⟩ ∧ rid ∉ hand

theorem linked_new : Linked new [] where
  slot_iff l s i rid := by
    rw [slotAt_new]
    simp [new]

/-- `Linked` depends on the slots and the back-pointers only. -/
theorem Linked.congr {w' : TimerWheel} (h : Linked w hand)
    (hslot : ∀ l s, w'.slotAt l s = w.slotAt l s) (hpos : w'.positions = w.positions) :
    Linked w' hand where
  slot_iff l s i rid := by
    rw [hslot, hpos]
    exact h.slot_iff l s i rid

namespace Linked

theorem get_of_mem (h : Linked w hand) (hmem : rid ∈ w.slotAt l s) :
    ∃ i, w.positions.get rid = some ⟨l, s, i⟩ ∧ rid ∉ hand := by
  obtain ⟨i, hi⟩ := List.mem_iff_getElem?.mp hmem
  exact ⟨i, (h.slot_iff l s i rid).mp hi⟩

/-- What is stored in a slot has its home there. -/
theorem mem_slotAt_iff (h : Linked w hand) :
    rid ∈ w.slotAt l s ↔ w.home rid = some (l, s) ∧ rid ∉ hand := by
  rw [List.mem_iff_getElem?, home_eq_some]
  constructor
  · rintro ⟨i, hi⟩
    obtain ⟨hp, hh⟩ := (h.slot_iff l s i rid).mp hi
    exact ⟨⟨i, hp⟩, hh⟩
  · rintro ⟨⟨i, hp⟩, hh⟩
    exact ⟨i, (h.slot_iff l s i rid).mpr ⟨hp, hh⟩⟩

/-- No slot holds an id twice, since a back-pointer names one index only. -/
theorem nodup_slotAt (h : Linked w hand) (l : Fin numLevels) (s : Fin wheelSize) :
    (w.slotAt l s).Nodup := by
  rw [List.nodup_iff_getElem?_ne_getElem?]
  intro i j hij hj heq
  have hr := List.getElem?_eq_getElem hj
  have hpj := ((h.slot_iff l s j _).mp hr).1
  have hpi := ((h.slot_iff l s i _).mp (heq.trans hr)).1
  rw [hpi] at hpj
  cases hpj
  exact Nat.lt_irrefl _ hij

/-- An id without a back-pointer may be counted as held. -/
theorem hold (h : Linked w hand) (hpos : w.positions.get rid = none) : Linked w (rid :: hand) where
  slot_iff l s i r := by
    rw [h.slot_iff, List.mem_cons]
    constructor
    · rintro ⟨hp, hh⟩
      refine ⟨hp, fun hr => hr.elim (fun e => ?_) hh⟩
      rw [e, hpos] at hp
      cases hp
    · rintro ⟨hp, hh⟩
      exact ⟨hp, fun hr => hh (.inr hr)⟩

theorem not_getElem?_of_mem (h : Linked w hand) (hmem : rid ∈ hand) (l : Fin numLevels)
    (s : Fin wheelSize) (i : ℕ) : (w.slotAt l s)[i]? ≠ some rid :=
  fun hi => ((h.slot_iff l s i rid).mp hi).2 hmem

/-- Placing a held id, which is no longer in hand afterwards. -/
theorem wheelInsertInner (h : Linked w (rid :: rest)) (hrest : rid ∉ rest) (d t : UInt64) :
    Linked (w.wheelInsertInner rid d t) rest where
  slot_iff l s i r := by
    set L := (levelSlot d t).1 with hL
    set S := (levelSlot d t).2 with hS
    have hpos : (w.wheelInsertInner rid d t).positions.get r =
        if r = rid then some ⟨L, S, (w.slotAt L S).length⟩ else w.positions.get r :=
      VecMap.get_insert _ _ _ _
    have hslot : (w.wheelInsertInner rid d t).slotAt l s =
        if l = L ∧ s = S then w.slotAt L S ++ [rid] else w.slotAt l s :=
      slotAt_setSlotAt _ _ _ _ _ _
    have hheld := h.not_getElem?_of_mem List.mem_cons_self l s
    have hold := h.slot_iff l s i r
    rw [hpos, hslot]
    by_cases hr : r = rid
    · subst hr
      rw [if_pos rfl]
      split
      · rename_i hls
        obtain ⟨rfl, rfl⟩ := hls
        rw [List.getElem?_append]
        split
        · rename_i hlt
          simp only [hheld i, Option.some.injEq, WheelPos.mk.injEq, true_and, false_iff, not_and]
          omega
        · rename_i hge
          simp only [List.getElem?_singleton, Option.some.injEq, WheelPos.mk.injEq, true_and, hrest,
            not_false_eq_true, and_true]
          constructor
          · intro hi
            split at hi
            · omega
            · cases hi
          · intro hi
            rw [if_pos (by omega)]
      · rename_i hls
        simp only [hheld i, Option.some.injEq, WheelPos.mk.injEq, false_iff]
        rintro ⟨⟨h1, h2, _⟩, _⟩
        exact hls ⟨h1.symm, h2.symm⟩
    · rw [if_neg hr]
      simp only [List.mem_cons, hr, false_or] at hold
      rw [← hold]
      split
      · rename_i hls
        obtain ⟨rfl, rfl⟩ := hls
        rw [List.getElem?_append]
        split
        · rfl
        · rename_i hge
          rw [List.getElem?_eq_none (Nat.not_lt.mp hge), List.getElem?_singleton]
          split
          · simp [Ne.symm hr]
          · rfl
      · rfl

/-- Dropping the back-pointer of a held id, which is then nowhere. -/
theorem forget (h : Linked w (rid :: rest)) (p : List UInt64) :
    Linked { w with positions := (w.positions.remove rid).2, pending := p } rest where
  slot_iff l s i r := by
    show (w.slotAt l s)[i]? = some r ↔ (w.positions.remove rid).2.get r = _ ∧ _
    rw [VecMap.get_remove]
    by_cases hr : r = rid
    · subst hr
      simp [h.not_getElem?_of_mem List.mem_cons_self l s i]
    · rw [if_neg hr, h.slot_iff, List.mem_cons]
      simp [hr]

/-- Draining a slot puts its contents in hand, with the back-pointers that they had. -/
theorem slotDrain (h : Linked w []) (l : Fin numLevels) (s : Fin wheelSize) :
    Linked (w.slotDrain l s).2 (w.slotAt l s) where
  slot_iff l' s' i r := by
    have hslot : (w.slotDrain l s).2.slotAt l' s' =
        if l' = l ∧ s' = s then [] else w.slotAt l' s' :=
      slotAt_setSlotAt _ _ _ _ _ _
    show ((w.slotDrain l s).2.slotAt l' s')[i]? = some r ↔ w.positions.get r = _ ∧ _
    rw [hslot]
    split
    · rename_i hls
      obtain ⟨rfl, rfl⟩ := hls
      simp only [List.getElem?_nil, reduceCtorEq, false_iff, not_and, not_not]
      intro hp
      exact List.mem_of_getElem? ((h.slot_iff l' s' i r).mpr ⟨hp, by simp⟩)
    · rename_i hls
      rw [h.slot_iff]
      refine ⟨fun hp => ⟨hp.1, fun hmem => hls ?_⟩, fun hp => ⟨hp.1, by simp⟩⟩
      obtain ⟨j, hj, _⟩ := h.get_of_mem hmem
      rw [hj] at hp
      cases hp.1
      exact ⟨rfl, rfl⟩

theorem getElem?_of_pos {i : ℕ} (h : Linked w []) (hr : w.positions.get rid = some ⟨l, s, i⟩) :
    (w.slotAt l s)[i]? = some rid :=
  (h.slot_iff l s i rid).mpr ⟨hr, by simp⟩

/-- No two ids have the same place, and so none of them is overwritten by mistake. -/
theorem eq_of_pos {i : ℕ} {x : UInt64} (h : Linked w [])
    (hr : w.positions.get rid = some ⟨l, s, i⟩) (hx : w.positions.get x = some ⟨l, s, i⟩) :
    rid = x :=
  Option.some.inj ((h.getElem?_of_pos hr).symm.trans (h.getElem?_of_pos hx))

/-- The places in a slot after its last entry `x` was swapped into the place of `rid` and the last
place dropped, and the back-pointers after `rid` lost its own and `x` got it. The case where `rid`
is itself last is included. -/
theorem swapRemove_pos {i j last : ℕ} {x r : UInt64} (h : Linked w [])
    (hrid : w.positions.get rid = some ⟨l, s, i⟩) (hx : w.positions.get x = some ⟨l, s, last⟩)
    (hlen : (w.slotAt l s).length = last + 1) :
    (j < last ∧ if i = j then x = r else w.positions.get r = some ⟨l, s, j⟩) ↔
      (if r = rid then none else if r = x then some ⟨l, s, i⟩ else w.positions.get r) =
        some ⟨l, s, j⟩ := by
  by_cases hr : r = rid
  · subst hr
    rw [if_pos rfl, hrid]
    refine iff_of_false ?_ (by simp)
    rintro ⟨hj, hcase⟩
    split at hcase
    · subst hcase
      rw [hrid] at hx
      cases hx
      omega
    · rename_i hij
      cases hcase
      exact hij rfl
  · rw [if_neg hr]
    by_cases hrx : r = x
    · subst hrx
      have hil : i ≠ last := fun e => hr (h.eq_of_pos hx (e ▸ hrid))
      have hilt := (List.getElem?_eq_some_iff.mp (h.getElem?_of_pos hrid)).1
      rw [if_pos rfl, hx]
      simp only [Option.some.injEq, WheelPos.mk.injEq, true_and]
      constructor
      · rintro ⟨hj, hcase⟩
        split at hcase
        · assumption
        · omega
      · intro hij
        rw [if_pos hij]
        exact ⟨by omega, trivial⟩
    · rw [if_neg hrx]
      constructor
      · rintro ⟨_, hcase⟩
        split at hcase
        · exact absurd hcase.symm hrx
        · exact hcase
      · intro hp
        have hjlt := (List.getElem?_eq_some_iff.mp (h.getElem?_of_pos hp)).1
        -- `r` is neither the entry taken out nor the last one
        have hjl : j ≠ last := fun e => hrx (h.eq_of_pos hp (e ▸ hx))
        have hji : i ≠ j := fun e => hr (h.eq_of_pos hp (e ▸ hrid))
        rw [if_neg hji]
        exact ⟨by omega, hp⟩

/-- Swapping the last entry `x` of a slot into the place of `rid` and dropping the last place. -/
theorem swapRemove {w' : TimerWheel} {i last : ℕ} {x : UInt64} (h : Linked w [])
    (hrid : w.positions.get rid = some ⟨l, s, i⟩) (hx : w.positions.get x = some ⟨l, s, last⟩)
    (hlen : (w.slotAt l s).length = last + 1)
    (hslot : w'.slotAt l s = ((w.slotAt l s).set i x).dropLast)
    (hother : ∀ l' s', ¬(l' = l ∧ s' = s) → w'.slotAt l' s' = w.slotAt l' s')
    (hpos : ∀ r, w'.positions.get r =
      if r = rid then none else if r = x then some ⟨l, s, i⟩ else w.positions.get r) :
    Linked w' [] where
  slot_iff l' s' j r := by
    have hiff := h.slot_iff l' s' j r
    simp only [List.not_mem_nil, not_false_eq_true, and_true] at hiff ⊢
    rw [hpos]
    by_cases hls : l' = l ∧ s' = s
    · obtain ⟨rfl, rfl⟩ := hls
      rw [← h.swapRemove_pos hrid hx hlen, hslot, List.getElem?_dropLast, List.length_set, hlen,
        Nat.add_sub_cancel]
      by_cases hj : j < last
      · rw [if_pos hj, List.getElem?_set, hlen]
        by_cases hij : i = j
        · simp [hij, hj, Nat.lt_succ_of_lt hj]
        · simp [hij, hj, hiff]
      · simp [hj]
    · rw [hother l' s' hls, hiff]
      -- no entry of another slot is `rid` or `x`
      by_cases hr : r = rid
      · subst hr
        rw [if_pos rfl, hrid]
        refine iff_of_false (fun e => ?_) (by simp)
        cases e
        exact hls ⟨rfl, rfl⟩
      · rw [if_neg hr]
        by_cases hrx : r = x
        · subst hrx
          rw [if_pos rfl, hx]
          refine iff_of_false (fun e => ?_) (fun e => ?_)
          all_goals
            cases e
            exact hls ⟨rfl, rfl⟩
        · rw [if_neg hrx]

/-- What `wheel_remove_inner` does: nothing to the slots if `rid` has no back-pointer, and
otherwise the swap of `swapRemove`, in which the last entry of the slot gets `rid`'s
back-pointer. -/
theorem wheelRemoveInner_cases (h : Linked w []) (rid : UInt64) :
    (w.positions.get rid = none ∧
      (∀ l s, (w.wheelRemoveInner rid).slotAt l s = w.slotAt l s) ∧
      ∀ r, (w.wheelRemoveInner rid).positions.get r = w.positions.get r) ∨
    ∃ l s i last x, w.positions.get rid = some ⟨l, s, i⟩ ∧ w.positions.get x = some ⟨l, s, last⟩ ∧
      (w.slotAt l s).length = last + 1 ∧
      (w.wheelRemoveInner rid).slotAt l s = ((w.slotAt l s).set i x).dropLast ∧
      (∀ l' s', ¬(l' = l ∧ s' = s) → (w.wheelRemoveInner rid).slotAt l' s' = w.slotAt l' s') ∧
      ∀ r, (w.wheelRemoveInner rid).positions.get r =
        if r = rid then none else if r = x then some ⟨l, s, i⟩ else w.positions.get r := by
  obtain ⟨res, positions', hrem⟩ : ∃ res m, w.positions.remove rid = (res, m) := ⟨_, _, rfl⟩
  have hres : res = w.positions.get rid := by rw [← VecMap.remove_fst, hrem]
  have hget : ∀ r, positions'.get r = if r = rid then none else w.positions.get r := fun r => by
    rw [← VecMap.get_remove, hrem]
  cases hpos : w.positions.get rid with
  | none =>
    rw [hpos] at hres
    subst hres
    refine .inl ⟨rfl, fun l s => ?_, fun r => ?_⟩
    · rw [TimerWheel.wheelRemoveInner, hrem]
      rfl
    · rw [TimerWheel.wheelRemoveInner, hrem]
      show positions'.get r = _
      rw [hget]
      split
      · rename_i hr
        rw [hr, hpos]
      · rfl
  | some p =>
    obtain ⟨l, s, i⟩ := p
    rw [hpos] at hres
    subst hres
    have hi := h.getElem?_of_pos hpos
    obtain ⟨hilt, hrid⟩ := List.getElem?_eq_some_iff.mp hi
    obtain ⟨last, hlen⟩ := Nat.exists_eq_succ_of_ne_zero (Nat.ne_of_gt (Nat.zero_lt_of_lt hilt))
    have hlast : (w.slotAt l s)[last]? = some ((w.slotAt l s).getD last 0) := by
      rw [List.getD_eq_getElem?_getD, List.getElem?_eq_getElem (by omega)]
      rfl
    have hx := ((h.slot_iff l s last _).mp hlast).1
    have hself : ¬ i < last → (w.slotAt l s).getD last 0 = rid := fun hge => by
      obtain rfl : i = last := by omega
      exact Option.some.inj (hlast.symm.trans hi)
    have hpop : ¬ i < last → (w.slotAt l s).set i ((w.slotAt l s).getD last 0) = w.slotAt l s :=
      fun hge => by rw [hself hge, ← hrid, List.set_getElem_self]
    refine .inr ⟨l, s, i, last, _, rfl, hx, hlen, ?_⟩
    rw [TimerWheel.wheelRemoveInner, hrem]
    dsimp only
    rw [unlink_eq (w := { w with positions := positions' }) hlen (by omega)]
    split
    · rename_i hlt
      refine ⟨?_, fun l' s' hne => ?_, fun r => ?_⟩
      · exact (slotAt_slotSwapRemove { w with positions := positions' } i l hlast hlen).trans
          (if_pos ⟨rfl, rfl⟩)
      · exact (slotAt_slotSwapRemove { w with positions := positions' } i l' hlast hlen).trans
          (if_neg hne)
      · dsimp only [slotAt_withPositions]
        rw [VecMap.get_insert, hget]
        have hne : (w.slotAt l s).getD last 0 ≠ rid := fun e => by
          rw [e, hpos] at hx
          cases hx
          omega
        split
        · rename_i hr
          rw [hr, if_neg hne]
        · rfl
    · rename_i hge
      refine ⟨?_, fun l' s' hne => ?_, fun r => ?_⟩
      · rw [hpop hge]
        exact slotAt_setSlotAt_self _ _ _ _
      · exact slotAt_setSlotAt_of_ne hne _ _
      · rw [hself hge]
        show positions'.get r = _
        rw [hget]
        split <;> rfl

/-- `wheel_remove_inner` keeps slots and back-pointers together, for any id. -/
theorem wheelRemoveInner (h : Linked w []) (rid : UInt64) : Linked (w.wheelRemoveInner rid) [] := by
  obtain ⟨_, hslot, hpos⟩ | ⟨l, s, i, last, x, hrid, hx, hlen, hslot, hother, hpos⟩ :=
    h.wheelRemoveInner_cases rid
  · exact ⟨fun l s i r => by rw [hslot, hpos, h.slot_iff]⟩
  · exact h.swapRemove hrid hx hlen hslot hother hpos

/-- `wheel_remove_inner` takes one id's home away and moves no other. -/
theorem home_wheelRemoveInner (h : Linked w []) (rid r : UInt64) :
    (w.wheelRemoveInner rid).home r = if r = rid then none else w.home r := by
  obtain ⟨hnone, _, hpos⟩ | ⟨l, s, i, last, x, _, hx, _, _, _, hpos⟩ :=
    h.wheelRemoveInner_cases rid
  · rw [home, hpos]
    split
    · rename_i hr
      rw [hr, hnone]
      rfl
    · rfl
  · rw [home, hpos]
    split
    · rfl
    · split
      · rename_i hr
        rw [home, hr, hx]
        rfl
      · rfl

end Linked

end TimerWheel

end Lion
