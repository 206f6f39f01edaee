import Lion.Library.Radix
import Lion.TimerWheel.Wheel

/-!
# Where the wheel puts a timer

Level `l` of the wheel reads the clock in ticks of `256 ^ l`. A timer with deadline `d`, seen from
instant `t`, belongs at a level whose ring still has `d`'s tick ahead of `t`'s, in the slot `d`'s
tick names there. `Placed` says so; `levelSlot_placed` says `level_slot` achieves it.

The point of `advance_to` is that a drained slot is exactly one whose ticks have been reached, and
`exists_slotAfter` is that fact for one level: what is ahead of the old instant and not ahead of the
new one sits in a slot that the level's loop visits. It holds for any jump, since a full turn of the
ring visits every slot.

## The top level is different

Below the top level a placement also bounds the distance (`Placed.band`), so that a ring is never
outrun and the order of its slots, seen from the clock, is the order of the deadlines. At the top
level there is no such bound: a deadline may be several turns ahead, and shares its slot with nearer
ones. Draining copes with that, because what is not due is placed again. Looking for the earliest
deadline does not, which is why the source scans all of that level.

The shifts and masks of the source are division and remainder by powers of 256; the lemmas that say
so are here, and nothing above this module sees a bit operation on a deadline.

## Main results

* `Placed.lt` — a deadline that is placed lies ahead
* `levelSlot_placed` — `level_slot` places correctly
* `exists_slotAfter` — the slots the level loop visits
-/

namespace Lion

namespace TimerWheel

open Radix

/-- The tick instant `t` has reached at level `l`, as a natural number. -/
def pos (l : Fin numLevels) (t : UInt64) : ℕ := tick wheelSize l t.toNat

theorem toNat_shift (l : Fin numLevels) : (shift l).toNat = 8 * l.val := by
  have : l.val < 4 := l.isLt
  rw [shift, UInt64.toNat_ofNat_of_lt' (by simp [UInt64.size]; omega)]

theorem toNat_shiftRight_shift (t : UInt64) (l : Fin numLevels) :
    (t >>> shift l).toNat = pos l t := by
  have : l.val < 4 := l.isLt
  rw [UInt64.toNat_shiftRight, toNat_shift, Nat.mod_eq_of_lt (by omega), Nat.shiftRight_eq_div_pow,
    Nat.pow_mul]
  rfl

theorem toNat_and_255 (t : UInt64) : (t &&& 255).toNat = t.toNat % wheelSize := by
  rw [UInt64.toNat_and]
  exact Nat.and_two_pow_sub_one_eq_mod t.toNat 8

theorem val_slotOf (l : Fin numLevels) (t : UInt64) : (slotOf l t).val = pos l t % wheelSize := by
  rw [← toNat_shiftRight_shift, ← toNat_and_255]
  rfl

theorem pos_mono (l : Fin numLevels) {t d : UInt64} (h : t ≤ d) : pos l t ≤ pos l d :=
  tick_mono _ _ (UInt64.le_iff_toNat_le.mp h)

theorem lt_of_pos_lt {l : Fin numLevels} {t d : UInt64} (h : pos l t < pos l d) : t < d :=
  UInt64.lt_iff_toNat_lt.mpr (lt_of_tick_lt h)

/-- Deadline `d` may sit in slot `s` of level `l` while the wheel is at instant `t`. -/
structure Placed (t : UInt64) (l : Fin numLevels) (s : Fin wheelSize) (d : UInt64) : Prop where
  slot_eq : s = slotOf l d
  ahead : pos l t < pos l d
  /-- Below the top level the ring has not been outrun. -/
  band : l.val < 3 → d.toNat < t.toNat + wheelSize ^ (l.val + 1)

theorem Placed.lt {t : UInt64} {l : Fin numLevels} {s : Fin wheelSize} {d : UInt64}
    (h : Placed t l s d) : t < d :=
  lt_of_pos_lt h.ahead

/-- The bounds on a distance that `levelOf` establishes: the level's own span covers it, if it is
not the top level, and the span of the level below does not, if it is not the bottom one. -/
theorem levelOf_spec (delta : UInt64) :
    ((levelOf delta).val = 0 ∨ wheelSize ^ (levelOf delta).val ≤ delta.toNat) ∧
      ((levelOf delta).val < 3 → delta.toNat < wheelSize ^ ((levelOf delta).val + 1)) := by
  rw [levelOf]
  split
  · rename_i h
    exact ⟨.inl rfl, fun _ => UInt64.lt_iff_toNat_lt.mp h⟩
  rename_i h0
  replace h0 : 256 ≤ delta.toNat := UInt64.le_iff_toNat_le.mp (UInt64.not_lt.mp h0)
  split
  · rename_i h
    exact ⟨.inr h0, fun _ => UInt64.lt_iff_toNat_lt.mp h⟩
  rename_i h1
  replace h1 : 65536 ≤ delta.toNat := UInt64.le_iff_toNat_le.mp (UInt64.not_lt.mp h1)
  split
  · rename_i h
    exact ⟨.inr h1, fun _ => UInt64.lt_iff_toNat_lt.mp h⟩
  rename_i h2
  replace h2 : 16777216 ≤ delta.toNat := UInt64.le_iff_toNat_le.mp (UInt64.not_lt.mp h2)
  exact ⟨.inr h2, fun h => absurd h (by decide)⟩

/-- **`level_slot` places correctly**, for every deadline after the instant it is seen from. -/
theorem levelSlot_placed {t d : UInt64} (h : t < d) :
    Placed t (levelSlot d t).1 (levelSlot d t).2 d := by
  have hlt : t.toNat < d.toNat := UInt64.lt_iff_toNat_lt.mp h
  have hsub : (d - t).toNat = d.toNat - t.toNat :=
    UInt64.toNat_sub_of_le _ _ (UInt64.le_of_lt h)
  obtain ⟨hlow, hhigh⟩ := levelOf_spec (d - t)
  rw [hsub] at hlow hhigh
  refine ⟨rfl, ?_, fun hl => ?_⟩
  · show pos (levelOf (d - t)) t < pos (levelOf (d - t)) d
    rcases hlow with h0 | hge
    · rw [pos, pos, h0, tick_zero, tick_zero]
      exact hlt
    · exact tick_lt_of_add_le (by decide) (by omega)
  · have := hhigh hl
    show d.toNat < t.toNat + wheelSize ^ ((levelOf (d - t)).val + 1)
    omega

theorem slotsToDrain_eq {p q : UInt64} (h : p ≤ q) :
    slotsToDrain p q = min (q.toNat - p.toNat) wheelSize := by
  have hsub : (q - p).toNat = q.toNat - p.toNat := UInt64.toNat_sub_of_le _ _ h
  unfold slotsToDrain
  dsimp only
  split
  · rename_i hlt
    have : (q - p).toNat < 256 := UInt64.lt_iff_toNat_lt.mp hlt
    rw [hsub] at this ⊢
    exact (Nat.min_eq_left (Nat.le_of_lt this)).symm
  · rename_i hge
    have : 256 ≤ (q - p).toNat := UInt64.le_iff_toNat_le.mp (UInt64.not_lt.mp hge)
    rw [hsub] at this
    exact (Nat.min_eq_right this).symm

/-- **The slots the level loop visits.** A deadline ahead of `t` and not ahead of `now` sits in a
slot that is drained on the way from `t` to `now`, whatever the size of the jump. -/
theorem exists_slotAfter {l : Fin numLevels} {t now d : UInt64} (h : t ≤ now)
    (hold : pos l t < pos l d) (hnew : pos l d ≤ pos l now) :
    ∃ i ∈ List.range' 1 (slotsToDrain (t >>> shift l) (now >>> shift l)),
      slotAfter (t >>> shift l) i = slotOf l d := by
  have hle : t >>> shift l ≤ now >>> shift l := by
    rw [UInt64.le_iff_toNat_le, toNat_shiftRight_shift, toNat_shiftRight_shift]
    exact pos_mono l h
  obtain ⟨k, hk1, hkq, hkn, hmod⟩ :=
    exists_step_of_lt_of_le (n := wheelSize) (by decide) hold hnew
  refine ⟨k, ?_, ?_⟩
  · rw [List.mem_range'_1, slotsToDrain_eq hle, toNat_shiftRight_shift, toNat_shiftRight_shift]
    omega
  · apply Fin.ext
    rw [val_slotOf, ← hmod, ← toNat_shiftRight_shift, ← toNat_and_255]
    rfl

end TimerWheel

end Lion
