import Lion.TimerWheel.Refinement
import Mathlib.Algebra.BigOperators.Fin
import Mathlib.Algebra.Order.BigOperators.Group.Finset

/-!
# The counts of the levels

`level_counts` says how many ids are stored at each level. It is there for the scans, which skip a
level with none. It is kept by the operations on slots alone, so whatever is built from those keeps
it, whether its caller keeps to the wheel's contract or not.

That makes it the one part of the wheel's invariant which needs none of the others. A drained wheel,
a wheel with ids pending twice, a wheel whose clock went back: in all of them the counts are right.
So it is proved apart, for each primitive and then by following the functions that use them, and
`Earliest` and `Representation` take it from here.

## Main definitions

* `occupied` — how many ids are stored at a level
* `LevelCountsWf` — the counts are those of the slots

## Main results

* `LevelCountsWf.setSlotAt` — a slot and the count of its level change together
* `LevelCountsWf.insert`, `LevelCountsWf.remove`, `LevelCountsWf.tryPopExpired` — every operation
  keeps the counts
-/

namespace Lion

namespace TimerWheel

variable {w w' : TimerWheel} {l : Fin numLevels} {s : Fin wheelSize} {rid d now t : UInt64}

/-- The number of ids stored at level `l`, in whichever of its slots. -/
def occupied (w : TimerWheel) (l : Fin numLevels) : ℕ := ∑ s, (w.slotAt l s).length

/-- `level_counts_wf`: the stored counts are those of the slots. -/
def LevelCountsWf (w : TimerWheel) : Prop := ∀ l : Fin numLevels, w.levelCounts.get l = w.occupied l

theorem LevelCountsWf.congr (h : LevelCountsWf w) (hslot : ∀ l s, w'.slotAt l s = w.slotAt l s)
    (hcounts : w'.levelCounts = w.levelCounts) : LevelCountsWf w' := by
  intro l
  rw [hcounts, h l, occupied, occupied]
  exact Finset.sum_congr rfl fun s _ => by rw [hslot]

theorem levelCountsWf_new : LevelCountsWf new := by
  intro l
  have hcount : new.levelCounts.get l = 0 := Vector.getElem_replicate l.isLt
  rw [hcount]
  simp [occupied, new, slotAt]

/-! ### One slot -/

/-- One slot changes, and with it what is stored at its level. -/
theorem occupied_setSlotAt (w : TimerWheel) (l : Fin numLevels) (s : Fin wheelSize)
    (v : List UInt64) :
    (w.setSlotAt l s v).occupied l + (w.slotAt l s).length = w.occupied l + v.length := by
  have hupdate : (fun s' => ((w.setSlotAt l s v).slotAt l s').length) =
      Function.update (fun s' => (w.slotAt l s').length) s v.length := by
    funext s'
    rw [slotAt_setSlotAt, Function.update_apply]
    by_cases hs : s' = s
    · simp [hs]
    · simp [hs]
  have hs : s ∈ Finset.univ := Finset.mem_univ s
  rw [occupied, hupdate, Finset.sum_update_of_mem hs, Finset.sdiff_singleton_eq_erase, occupied,
    ← Finset.add_sum_erase _ (fun s' => (w.slotAt l s').length) hs]
  omega

theorem occupied_setSlotAt_of_ne {l' : Fin numLevels} (h : l' ≠ l) (w : TimerWheel)
    (s : Fin wheelSize) (v : List UInt64) : (w.setSlotAt l s v).occupied l' = w.occupied l' :=
  Finset.sum_congr rfl fun s' _ => by
    rw [slotAt_setSlotAt_of_ne (fun hls => h hls.1)]

/-- What is stored in one slot is stored at its level. -/
theorem length_slotAt_le (w : TimerWheel) (l : Fin numLevels) (s : Fin wheelSize) :
    (w.slotAt l s).length ≤ w.occupied l :=
  Finset.single_le_sum (f := fun s => (w.slotAt l s).length) (fun _ _ => Nat.zero_le _)
    (Finset.mem_univ s)

theorem get_setCount (w : TimerWheel) (l l' : Fin numLevels) (n : ℕ) :
    (w.setCount l n).levelCounts.get l' = if l' = l then n else w.levelCounts.get l' := by
  show (w.levelCounts.set l n)[l'.val] = if l' = l then n else w.levelCounts[l'.val]
  rw [Vector.getElem_set]
  by_cases hl : l' = l
  · simp [hl]
  · rw [if_neg hl, if_neg fun e => hl (Fin.ext e.symm)]

/-- A slot and the count of its level change together. Every operation on slots is a case of
this. -/
theorem LevelCountsWf.setSlotAt {v : List UInt64} {n : ℕ} (h : LevelCountsWf w)
    (hn : n + (w.slotAt l s).length = w.levelCounts.get l + v.length)
    (hslot : ∀ l' s', w'.slotAt l' s' = (w.setSlotAt l s v).slotAt l' s')
    (hcounts : w'.levelCounts = (w.setCount l n).levelCounts) : LevelCountsWf w' := by
  intro l'
  have hocc : w'.occupied l' = (w.setSlotAt l s v).occupied l' :=
    Finset.sum_congr rfl fun s' _ => by rw [hslot]
  rw [hcounts, hocc, get_setCount]
  by_cases hl : l' = l
  · subst hl
    have hchange := occupied_setSlotAt w l' s v
    have hcount := h l'
    rw [if_pos rfl]
    omega
  · rw [if_neg hl, occupied_setSlotAt_of_ne hl, ← h l']

theorem LevelCountsWf.slotPush (h : LevelCountsWf w) (rid : UInt64) :
    LevelCountsWf (w.slotPush l s rid) := by
  refine h.setSlotAt (l := l) (s := s) (v := w.slotAt l s ++ [rid]) (n := w.levelCounts.get l + 1)
    ?_ (fun _ _ => rfl) rfl
  rw [List.length_append, List.length_singleton]
  omega

theorem LevelCountsWf.slotDrain (h : LevelCountsWf w) : LevelCountsWf (w.slotDrain l s).2 := by
  refine h.setSlotAt (l := l) (s := s) (v := [])
    (n := w.levelCounts.get l - (w.slotAt l s).length) ?_ (fun _ _ => rfl) rfl
  have hle := w.length_slotAt_le l s
  rw [← h l] at hle
  rw [List.length_nil]
  omega

theorem LevelCountsWf.slotPop (h : LevelCountsWf w) (hpos : 0 < (w.slotAt l s).length) :
    LevelCountsWf (w.slotPop l s) := by
  refine h.setSlotAt (l := l) (s := s) (v := (w.slotAt l s).dropLast)
    (n := w.levelCounts.get l - 1) ?_ (fun _ _ => rfl) rfl
  have hle := w.length_slotAt_le l s
  rw [← h l] at hle
  rw [List.length_dropLast]
  omega

theorem LevelCountsWf.slotSwapRemove (h : LevelCountsWf w) (hpos : 0 < (w.slotAt l s).length)
    (i : ℕ) : LevelCountsWf (w.slotSwapRemove l s i) := by
  obtain ⟨last, hlast⟩ : ∃ last, (w.slotAt l s).getLast? = some last :=
    ⟨_, List.getLast?_eq_some_getLast (List.ne_nil_of_length_pos hpos)⟩
  have hset : w.slotSwapRemove l s i =
      (w.setCount l (w.levelCounts.get l - 1)).setSlotAt l s
        (((w.slotAt l s).set i last).dropLast) := by
    unfold TimerWheel.slotSwapRemove
    dsimp only
    rw [slotAt_setCount, hlast]
    rfl
  refine h.setSlotAt (l := l) (s := s) (v := ((w.slotAt l s).set i last).dropLast)
    (n := w.levelCounts.get l - 1) ?_ (fun _ _ => ?_) ?_
  · have hle := w.length_slotAt_le l s
    rw [← h l] at hle
    rw [List.length_dropLast, List.length_set]
    omega
  · rw [hset]
    rfl
  · rw [hset]
    rfl

/-! ### The operations -/

theorem LevelCountsWf.unlink (h : LevelCountsWf w) (p : WheelPos) : LevelCountsWf (w.unlink p) := by
  rw [TimerWheel.unlink]
  dsimp only
  split
  · rename_i hpos
    split
    · split
      · exact (h.slotSwapRemove hpos p.idx).congr (fun _ _ => rfl) rfl
      · exact h.slotPop hpos
    · exact h
  · exact h

theorem LevelCountsWf.wheelRemoveInner (h : LevelCountsWf w) (rid : UInt64) :
    LevelCountsWf (w.wheelRemoveInner rid) := by
  rw [TimerWheel.wheelRemoveInner]
  split
  · exact h.congr (fun _ _ => rfl) rfl
  · rename_i pos positions _
    have h₀ : LevelCountsWf { w with positions } := h.congr (fun _ _ => rfl) rfl
    exact h₀.unlink pos

theorem LevelCountsWf.wheelInsertInner (h : LevelCountsWf w) (rid d t : UInt64) :
    LevelCountsWf (w.wheelInsertInner rid d t) :=
  (h.slotPush rid).congr (fun _ _ => rfl) rfl

theorem LevelCountsWf.place (h : LevelCountsWf w) (rid d : UInt64) :
    LevelCountsWf (w.place rid d) := by
  have h₁ : LevelCountsWf { w.wheelRemoveInner rid with
      deadlines := (w.wheelRemoveInner rid).deadlines.insert rid d } :=
    (h.wheelRemoveInner rid).congr (fun _ _ => rfl) rfl
  exact h₁.wheelInsertInner rid d _

theorem LevelCountsWf.insert (h : LevelCountsWf w) (rid d : UInt64) :
    LevelCountsWf (w.insert rid d) := by
  obtain ⟨c, c', heq⟩ := exists_insert_eq w rid d
  have h₀ : LevelCountsWf { w with cachedMin := c } := h.congr (fun _ _ => rfl) rfl
  rw [heq]
  exact (h₀.place rid d).congr (fun _ _ => rfl) rfl

theorem LevelCountsWf.remove (h : LevelCountsWf w) (rid : UInt64) :
    LevelCountsWf (w.remove rid) := by
  rw [TimerWheel.remove]
  split
  · rename_i d _
    obtain ⟨c, hc⟩ := exists_invalidateMin_eq w d
    have h₀ : LevelCountsWf { w with cachedMin := c } := h.congr (fun _ _ => rfl) rfl
    dsimp only
    rw [hc]
    exact (h₀.wheelRemoveInner rid).congr (fun _ _ => rfl) rfl
  · exact h

theorem LevelCountsWf.cascadeEntry (h : LevelCountsWf w) (rid : UInt64) :
    LevelCountsWf (cascadeEntry now w rid) := by
  rw [TimerWheel.cascadeEntry]
  split
  · split
    · exact h.congr (fun _ _ => rfl) rfl
    · exact h.wheelInsertInner _ _ _
  · exact h

theorem LevelCountsWf.cascadeSlot (h : LevelCountsWf w) (l : Fin numLevels) (s : Fin wheelSize) :
    LevelCountsWf (cascadeSlot now l w s) :=
  List.foldlRecOn _ _ h.slotDrain fun _ hw rid _ => hw.cascadeEntry rid

theorem LevelCountsWf.cascadeLevel (h : LevelCountsWf w) (l : Fin numLevels) :
    LevelCountsWf (cascadeLevel now l w) :=
  List.foldlRecOn _ _ h fun _ hw _ _ => hw.cascadeSlot l _

theorem LevelCountsWf.cascadeLevels (h : LevelCountsWf w) (ls : List (Fin numLevels)) :
    LevelCountsWf (cascadeLevels now ls w) := by
  induction ls generalizing w with
  | nil => exact h
  | cons l ls ih =>
    rw [TimerWheel.cascadeLevels]
    split
    · exact h
    · exact ih (h.cascadeLevel l)

theorem LevelCountsWf.advanceTo (h : LevelCountsWf w) (now : UInt64) :
    LevelCountsWf (w.advanceTo now) :=
  (h.cascadeLevels _).congr (fun _ _ => rfl) rfl

theorem LevelCountsWf.popPending (h : LevelCountsWf w) (now : UInt64) (n : ℕ) :
    LevelCountsWf (popPending now n w).2 := by
  induction n generalizing w with
  | zero => exact h
  | succ n ih =>
    rw [TimerWheel.popPending]
    split
    · exact h
    · have h₀ : LevelCountsWf { w with pending := w.pending.dropLast } :=
        h.congr (fun _ _ => rfl) rfl
      dsimp only
      split
      · rename_i d _
        split
        · obtain ⟨c, hc⟩ := exists_invalidateMin_eq { w with pending := w.pending.dropLast } d
          rw [hc]
          exact h.congr (fun _ _ => rfl) rfl
        · exact ih h₀
      · exact ih h₀

theorem LevelCountsWf.tryPopExpired (h : LevelCountsWf w) (now : UInt64) :
    LevelCountsWf (w.tryPopExpired now).2 := by
  have hfirst := h.popPending now w.pending.length
  rw [TimerWheel.tryPopExpired]
  split
  · rename_i heq
    rw [heq] at hfirst
    exact hfirst
  · rename_i heq
    rw [heq] at hfirst
    refine LevelCountsWf.popPending ?_ _ _
    split
    · exact hfirst.advanceTo now
    · exact hfirst

end TimerWheel

end Lion
