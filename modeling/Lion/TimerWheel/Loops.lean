import Lion.TimerWheel.Earliest

/-!
# The loops of `advance_to`

`TimerWheel.advanceTo` folds over what the loops of `advance_to` range over. Here are the loops
themselves: counters of machine words, an index at each access, and sums and differences that stop
the program if they leave the range of a word. `Checked` has them under the names of the functions
they are from. Where the program would stop they return nothing, and so does a loop that is not done
within the number of turns it is given.

Nothing of this happens on a well-formed wheel, whose counts cannot overflow because no id is stored
twice: the loops compute what the folds do.

## What could go wrong

There are four dangers, and each needs another part of the invariant. A level or a slot could be out
of range; the loops bound them, and the masks do. A difference of ticks could be negative; time does
not go back. A count could fall below zero; it is the length of the slots it counts. A count could
grow beyond a word while ids are placed again. The last one is not a local matter: it needs that all
that is stored, at whatever level, is no more than the live timers (`FullWf.total_le_count`), whose
number the wheel stores in a word itself.

## Main definitions

* `Checked.advanceTo` — the loops
* `stored` — everything in the slots

## Main results

* `Checked.entryLoop_eq`, `Checked.slotLoop_eq`, `Checked.levelLoop_eq` — each loop is its fold
* `advanceTo_cascades` — what `advance_to` does
-/

namespace Lion

namespace TimerWheel

variable {w w' : TimerWheel} {l : Fin numLevels} {s : Fin wheelSize} {rid d now : UInt64}

/-! ### The code -/

namespace Checked

/-- A sum of two machine words, and nothing if it is not one. -/
def add (a b : ℕ) : Option ℕ := if a + b < 2 ^ 64 then some (a + b) else none

/-- A difference of two machine words, and nothing if it would be negative. -/
def sub (a b : ℕ) : Option ℕ := if b ≤ a then some (a - b) else none

/-- A shift of a machine word to the right. -/
def shiftRight (t : UInt64) (n : ℕ) : Option UInt64 :=
  if n < 64 then some (t >>> UInt64.ofNat n) else none

/-- `slot_push`, of which the count has to stay within a word. -/
def slotPush (w : TimerWheel) (l : Fin numLevels) (s : Fin wheelSize) (rid : UInt64) :
    Option TimerWheel := do
  let w := w.setSlotAt l s (w.slotAt l s ++ [rid])
  let count ← add (w.levelCounts.get l) 1
  return w.setCount l count

/-- `slot_drain`, at a level and a slot that are only numbers. -/
def slotDrain (w : TimerWheel) (level slot : ℕ) : Option (List UInt64 × TimerWheel) :=
  if h : level < numLevels ∧ slot < wheelSize then do
    let l : Fin numLevels := ⟨level, h.1⟩
    let s : Fin wheelSize := ⟨slot, h.2⟩
    let count ← sub (w.levelCounts.get l) (w.slotAt l s).length
    return (w.slotAt l s, (w.setCount l count).setSlotAt l s [])
  else none

/-- `wheel_insert_inner`, with the count of the level checked. -/
def wheelInsertInner (w : TimerWheel) (rid deadline elapsedForSlot : UInt64) :
    Option TimerWheel := do
  let (level, slot) := levelSlot deadline elapsedForSlot
  let idx := (w.slotAt level slot).length
  let w ← slotPush w level slot rid
  return { w with positions := w.positions.insert rid ⟨level, slot, idx⟩ }

/-- The body of the loop over the entries of a slot. -/
def cascadeEntry (now : UInt64) (w : TimerWheel) (rid : UInt64) : Option TimerWheel :=
  if w.deadlines.containsKey rid then do
    let deadline ← w.deadlines.get rid
    if deadline ≤ now then
      return { w with positions := (w.positions.remove rid).2, pending := w.pending ++ [rid] }
    else wheelInsertInner w rid deadline now
  else some w

/-- `while j < slot_vec.len()`, with the index of the entry as its counter. -/
def entryLoop (now : UInt64) (slotVec : List UInt64) : ℕ → ℕ → TimerWheel → Option TimerWheel
  | 0, _, _ => none
  | fuel + 1, j, w =>
    if j < slotVec.length then do
      let rid ← slotVec[j]?
      let w ← cascadeEntry now w rid
      let j ← add j 1
      entryLoop now slotVec fuel j w
    else some w

/-- `while i <= slots_to_drain`, with the number of slots passed as its counter. -/
def slotLoop (now : UInt64) (level oldSlot slotsToDrain : ℕ) :
    ℕ → ℕ → TimerWheel → Option TimerWheel
  | 0, _, _ => none
  | fuel + 1, i, w =>
    if i ≤ slotsToDrain then do
      let sum ← add oldSlot i
      let (slotVec, w) ← slotDrain w level (sum % wheelSize)
      let w ← entryLoop now slotVec (slotVec.length + 1) 0 w
      let i ← add i 1
      slotLoop now level oldSlot slotsToDrain fuel i w
    else some w

/-- `while level < NUM_LEVELS && !done`, which is done at the first level whose clock has not
moved. -/
def levelLoop (now elapsed : UInt64) : ℕ → ℕ → Bool → TimerWheel → Option TimerWheel
  | 0, _, _, _ => none
  | fuel + 1, level, done, w =>
    if level < numLevels && !done then do
      let oldPos ← shiftRight elapsed (level * 8)
      let newPos ← shiftRight now (level * 8)
      if oldPos = newPos then levelLoop now elapsed fuel level true w
      else do
        let diff ← sub newPos.toNat oldPos.toNat
        let slotsToDrain := if diff < wheelSize then diff else wheelSize
        let oldSlot := (oldPos &&& 255).toNat
        let w ← slotLoop now level oldSlot slotsToDrain (slotsToDrain + 1) 1 w
        let level ← add level 1
        levelLoop now elapsed fuel level false w
    else some w

/-- `advance_to`: a turn for each level, one to be done, and one to leave. -/
def advanceTo (w : TimerWheel) (now : UInt64) : Option TimerWheel := do
  let w ← levelLoop now w.elapsed (numLevels + 2) 0 false w
  return { w with elapsed := now }

end Checked

/-! ### Everything in the slots -/

/-- Everything in the slots, level by level and slot by slot. -/
def stored (w : TimerWheel) : List UInt64 :=
  (List.finRange numLevels).flatMap fun l => (List.finRange wheelSize).flatMap fun s => w.slotAt l s

/-- The sum of the counts, which bounds each of them. -/
def total (w : TimerWheel) : ℕ := ∑ l : Fin numLevels, w.levelCounts.get l

theorem LevelCountsWf.total_eq (h : LevelCountsWf w) : w.total = w.stored.length := by
  rw [total, stored, List.length_flatMap, Fin.sum_univ_def]
  refine congrArg List.sum (List.map_congr_left fun l _ => ?_)
  rw [h l, occupied, Fin.sum_univ_def, List.length_flatMap]

/-- **Nothing is stored twice**, in whichever slots. -/
theorem FullWf.nodup_stored (h : FullWf w) : w.stored.Nodup := by
  rw [stored, List.nodup_flatMap]
  refine ⟨fun l _ => ?_, ?_⟩
  · rw [List.nodup_flatMap]
    refine ⟨fun s _ => h.linked.nodup_slotAt l s, ?_⟩
    refine (List.nodup_finRange wheelSize).imp fun {s s'} hne => ?_
    intro rid hs hs'
    have heq := (h.mem_slotAt_iff.mp hs).symm.trans (h.mem_slotAt_iff.mp hs')
    exact hne (Prod.mk.inj (Option.some.inj heq)).2
  · refine (List.nodup_finRange numLevels).imp fun {l l'} hne => ?_
    intro rid hl hl'
    obtain ⟨s, -, hs⟩ := List.mem_flatMap.mp hl
    obtain ⟨s', -, hs'⟩ := List.mem_flatMap.mp hl'
    have heq := (h.mem_slotAt_iff.mp hs).symm.trans (h.mem_slotAt_iff.mp hs')
    exact hne (Prod.mk.inj (Option.some.inj heq)).1

/-- What is stored is live, so it is no more than `deadlines` counts. -/
theorem FullWf.total_le_count (h : FullWf w) : w.total ≤ w.deadlines.count := by
  rw [h.level_counts_wf.total_eq]
  refine h.count_wf.length_le h.nodup_stored fun rid hmem => ?_
  obtain ⟨l, -, hl⟩ := List.mem_flatMap.mp hmem
  obtain ⟨s, -, hs⟩ := List.mem_flatMap.mp hl
  obtain ⟨d, hd, -⟩ := h.home_placed rid l s (h.mem_slotAt_iff.mp hs)
  exact ⟨d, hd⟩

theorem total_setCount (w : TimerWheel) (l : Fin numLevels) (n : ℕ) :
    (w.setCount l n).total + w.levelCounts.get l = w.total + n := by
  have hupdate : (fun l' : Fin numLevels => (w.setCount l n).levelCounts.get l') =
      Function.update (fun l' : Fin numLevels => w.levelCounts.get l') l n := by
    funext l'
    rw [Function.update_apply, get_setCount]
  have hl : l ∈ Finset.univ := Finset.mem_univ l
  rw [total, hupdate, Finset.sum_update_of_mem hl, Finset.sdiff_singleton_eq_erase, total,
    ← Finset.add_sum_erase _ (fun l' : Fin numLevels => w.levelCounts.get l') hl]
  omega

theorem levelCounts_le_total (w : TimerWheel) (l : Fin numLevels) : w.levelCounts.get l ≤ w.total :=
  Finset.single_le_sum (f := fun l : Fin numLevels => w.levelCounts.get l)
    (fun _ _ => Nat.zero_le _) (Finset.mem_univ l)

theorem total_wheelInsertInner (w : TimerWheel) (rid d t : UInt64) :
    (w.wheelInsertInner rid d t).total = w.total + 1 := by
  set l := (levelSlot d t).1
  set w₁ := w.setSlotAt l (levelSlot d t).2 (w.slotAt l (levelSlot d t).2 ++ [rid])
  have hset : (w₁.setCount l (w.levelCounts.get l + 1)).total + w.levelCounts.get l =
      w.total + (w.levelCounts.get l + 1) := w₁.total_setCount l _
  have htotal : (w.wheelInsertInner rid d t).total =
      (w₁.setCount l (w.levelCounts.get l + 1)).total := rfl
  omega

/-- An entry in hand is stored again, or is not. -/
theorem total_cascadeEntry_le (w : TimerWheel) (now rid : UInt64) :
    (w.cascadeEntry now rid).total ≤ w.total + 1 := by
  rw [cascadeEntry]
  split
  · split
    · exact Nat.le_succ w.total
    · exact Nat.le_of_eq (w.total_wheelInsertInner _ _ _)
  · exact Nat.le_succ w.total

theorem total_foldl_cascadeEntry_le (rids : List UInt64) (w : TimerWheel) (now : UInt64) :
    (rids.foldl (cascadeEntry now) w).total ≤ w.total + rids.length := by
  induction rids generalizing w with
  | nil => exact Nat.le_refl _
  | cons rid rids ih =>
    have hrest := ih (w.cascadeEntry now rid)
    have hfirst := w.total_cascadeEntry_le now rid
    rw [List.foldl_cons, List.length_cons]
    omega

/-- Draining a slot moves what is stored there into the hand. -/
theorem LevelCountsWf.total_slotDrain (h : LevelCountsWf w) (l : Fin numLevels)
    (s : Fin wheelSize) : (w.slotDrain l s).2.total + (w.slotAt l s).length = w.total := by
  have hset := w.total_setCount l (w.levelCounts.get l - (w.slotAt l s).length)
  have htotal : (w.slotDrain l s).2.total =
      (w.setCount l (w.levelCounts.get l - (w.slotAt l s).length)).total := rfl
  have hle := w.length_slotAt_le l s
  have hcount := h l
  omega

/-- A turn of the slot loop stores nothing new. -/
theorem LevelCountsWf.total_cascadeSlot_le (h : LevelCountsWf w) (now : UInt64)
    (l : Fin numLevels) (s : Fin wheelSize) :
    (TimerWheel.cascadeSlot now l w s).total ≤ w.total := by
  have hdrain := h.total_slotDrain l s
  have hfold := total_foldl_cascadeEntry_le (w.slotAt l s) (w.slotDrain l s).2 now
  exact hfold.trans (Nat.le_of_eq hdrain)

/-- Neither does a turn of the level loop, of which each slot is a turn of that. -/
theorem LevelCountsWf.cascadeLevel_total (h : LevelCountsWf w) (now : UInt64) (l : Fin numLevels) :
    LevelCountsWf (TimerWheel.cascadeLevel now l w) ∧
      (TimerWheel.cascadeLevel now l w).total ≤ w.total :=
  List.foldlRecOn (motive := fun w' => LevelCountsWf w' ∧ w'.total ≤ w.total) _ _
    ⟨h, Nat.le_refl _⟩ fun _ hw _ _ =>
      ⟨hw.1.cascadeSlot l _, (hw.1.total_cascadeSlot_le now l _).trans hw.2⟩

/-! ### The loops are the folds -/

namespace Checked

theorem add_eq {a b : ℕ} (h : a + b < 2 ^ 64) : add a b = some (a + b) := if_pos h

theorem sub_eq {a b : ℕ} (h : b ≤ a) : sub a b = some (a - b) := if_pos h

theorem shiftRight_eq (t : UInt64) {level : ℕ} (h : level < numLevels) :
    shiftRight t (level * 8) = some (t >>> shift ⟨level, h⟩) := by
  have hlt : level * 8 < 64 := by
    simp only [numLevels] at h
    omega
  rw [shiftRight, if_pos hlt, shift, Nat.mul_comm]

/-- `slot_push` has room to count in, if there is less stored than a word can count. -/
theorem slotPush_eq (h : w.total + 1 < 2 ^ 64) (l : Fin numLevels) (s : Fin wheelSize)
    (rid : UInt64) : slotPush w l s rid = some (w.slotPush l s rid) := by
  have hcount := w.levelCounts_le_total l
  have hsum : w.levelCounts.get l + 1 < 2 ^ 64 := by omega
  have hadd := add_eq hsum
  exact congrArg (Option.bind · fun count =>
    some ((w.setSlotAt l s (w.slotAt l s ++ [rid])).setCount l count)) hadd

/-- So has `wheel_insert_inner`, which pushes once. -/
theorem wheelInsertInner_eq (h : w.total + 1 < 2 ^ 64) (rid d t : UInt64) :
    wheelInsertInner w rid d t = some (w.wheelInsertInner rid d t) := by
  rw [wheelInsertInner]
  dsimp only
  rw [slotPush_eq h]
  rfl

theorem cascadeEntry_eq (h : w.total + 1 < 2 ^ 64) (rid : UInt64) :
    cascadeEntry now w rid = some (w.cascadeEntry now rid) := by
  rw [cascadeEntry, TimerWheel.cascadeEntry, VecMap.containsKey]
  cases w.deadlines.get rid with
  | none => rfl
  | some d =>
    rw [Option.isSome_some, if_pos rfl, Option.bind_eq_bind, Option.bind_some]
    dsimp only
    by_cases hdue : d ≤ now
    · rw [if_pos hdue, if_pos hdue]
      rfl
    · rw [if_neg hdue, if_neg hdue]
      exact wheelInsertInner_eq h rid d now

/-- **The loop over the entries.** Each of those left may be stored again. -/
theorem entryLoop_eq {slotVec : List UInt64} {j fuel : ℕ} (hfuel : slotVec.length - j < fuel)
    (hroom : w.total + (slotVec.length - j) < 2 ^ 64) (hlength : slotVec.length < 2 ^ 64) :
    entryLoop now slotVec fuel j w =
      some ((slotVec.drop j).foldl (TimerWheel.cascadeEntry now) w) := by
  induction fuel generalizing j w with
  | zero => omega
  | succ fuel ih =>
    rw [entryLoop]
    by_cases hj : j < slotVec.length
    · have hentry : w.total + 1 < 2 ^ 64 := by omega
      have htotal := w.total_cascadeEntry_le now slotVec[j]
      rw [if_pos hj, List.getElem?_eq_getElem hj, List.drop_eq_getElem_cons hj, List.foldl_cons]
      simp only [Option.bind_eq_bind, Option.bind_some, cascadeEntry_eq hentry,
        add_eq (show j + 1 < 2 ^ 64 by omega)]
      exact ih (by omega) (by omega)
    · rw [if_neg hj, List.drop_eq_nil_of_le (Nat.not_lt.mp hj)]
      rfl

/-- A turn of the slot loop: the slot is drained, and its entries dealt with. -/
theorem drain_eq (now : UInt64) (h : LevelCountsWf w) (hroom : w.total < 2 ^ 64) {level slot : ℕ}
    (hlevel : level < numLevels) (hslot : slot < wheelSize) :
    ∃ slotVec w₁, slotDrain w level slot = some (slotVec, w₁) ∧
      entryLoop now slotVec (slotVec.length + 1) 0 w₁ =
        some (TimerWheel.cascadeSlot now ⟨level, hlevel⟩ w ⟨slot, hslot⟩) := by
  set l : Fin numLevels := ⟨level, hlevel⟩
  set s : Fin wheelSize := ⟨slot, hslot⟩
  have hle : (w.slotAt l s).length ≤ w.levelCounts.get l := by
    rw [h l]
    exact w.length_slotAt_le l s
  have hdrain := h.total_slotDrain l s
  refine ⟨w.slotAt l s, (w.slotDrain l s).2, ?_, ?_⟩
  · rw [slotDrain, dif_pos ⟨hlevel, hslot⟩]
    exact congrArg (Option.bind · fun count =>
      some (w.slotAt l s, (w.setCount l count).setSlotAt l s [])) (sub_eq hle)
  · exact entryLoop_eq (by omega) (by omega) (by omega)

/-- **The loop over the slots.** Those left are drained in the order in which the ring has them. -/
theorem slotLoop_eq {level slotsToDrain i n fuel : ℕ} (h : LevelCountsWf w)
    (hroom : w.total < 2 ^ 64) (hlevel : level < numLevels) (oldPos : UInt64)
    (hslots : slotsToDrain ≤ wheelSize) (hn : i + n = slotsToDrain + 1) (hfuel : n < fuel) :
    slotLoop now level (oldPos &&& 255).toNat slotsToDrain fuel i w =
      some ((List.range' i n).foldl
        (fun w i => TimerWheel.cascadeSlot now ⟨level, hlevel⟩ w (slotAfter oldPos i)) w) := by
  induction fuel generalizing i n w with
  | zero => omega
  | succ fuel ih =>
    rw [slotLoop]
    cases n with
    | zero =>
      rw [if_neg (by omega)]
      rfl
    | succ n =>
      have hmask := and_255_lt oldPos
      have hi : i ≤ 256 := by
        simp only [wheelSize] at hslots
        omega
      have hsum : (oldPos &&& 255).toNat + i < 2 ^ 64 := by
        simp only [wheelSize] at hmask
        omega
      have hslot : ((oldPos &&& 255).toNat + i) % wheelSize < wheelSize :=
        Nat.mod_lt _ (by decide)
      obtain ⟨slotVec, w₁, hdrain, hentries⟩ := drain_eq now h hroom hlevel hslot
      rw [if_pos (by omega), List.range'_succ, List.foldl_cons]
      simp only [Option.bind_eq_bind, Option.bind_some, add_eq hsum, hdrain, hentries,
        add_eq (show i + 1 < 2 ^ 64 by omega)]
      have hle := h.total_cascadeSlot_le now ⟨level, hlevel⟩ ⟨_, hslot⟩
      exact ih (h.cascadeSlot _ _) (by omega) (by omega) (by omega)

/-- **The loop over the levels**, as long as it has not found that it is done. -/
theorem levelLoop_eq {level fuel : ℕ} (h : LevelCountsWf w) (hroom : w.total < 2 ^ 64)
    (hle : w.elapsed ≤ now) (hfuel : numLevels - level + 1 < fuel) :
    levelLoop now w.elapsed fuel level false w =
      some (TimerWheel.cascadeLevels now ((List.finRange numLevels).drop level) w) := by
  induction fuel generalizing level w with
  | zero => omega
  | succ fuel ih =>
    rw [levelLoop]
    by_cases hlevel : level < numLevels
    · have hlength : level < (List.finRange numLevels).length := by
        rw [List.length_finRange]
        exact hlevel
      set l : Fin numLevels := ⟨level, hlevel⟩ with hl
      have hdrop : (List.finRange numLevels).drop level =
          l :: (List.finRange numLevels).drop (level + 1) := by
        rw [List.drop_eq_getElem_cons hlength, List.getElem_finRange]
        rfl
      rw [hdrop, TimerWheel.cascadeLevels, if_pos (by simp [hlevel])]
      simp only [Option.bind_eq_bind, Option.bind_some, shiftRight_eq _ hlevel, ← hl]
      split
      · -- one more turn to find that it is done
        cases fuel with
        | zero => omega
        | succ fuel =>
          rw [levelLoop]
          simp
      · have hpos : w.elapsed >>> shift l ≤ now >>> shift l := by
          rw [UInt64.le_iff_toNat_le, toNat_shiftRight_shift, toNat_shiftRight_shift]
          exact pos_mono l hle
        have hdiff := sub_eq (UInt64.le_iff_toNat_le.mp hpos)
        set n := slotsToDrain (w.elapsed >>> shift l) (now >>> shift l) with hn
        have hmin := slotsToDrain_eq hpos
        have hslots : (if (now >>> shift l).toNat - (w.elapsed >>> shift l).toNat < wheelSize then
            (now >>> shift l).toNat - (w.elapsed >>> shift l).toNat else wheelSize) = n := by
          rw [hn, hmin]
          split <;> omega
        have hloop : slotLoop now level ((w.elapsed >>> shift l) &&& 255).toNat n (n + 1) 1 w =
            some (TimerWheel.cascadeLevel now l w) :=
          slotLoop_eq h hroom hlevel _ (by omega) (Nat.add_comm 1 n) (Nat.lt_succ_self n)
        have hlevels : level + 1 < 2 ^ 64 := by
          simp only [numLevels] at hlevel
          omega
        obtain ⟨hcounts, htotal⟩ := h.cascadeLevel_total now l
        have helapsed := (cascadeLevel_frame w l now).2
        simp only [hdiff, Option.bind_some, hslots, hloop, add_eq hlevels]
        rw [← helapsed]
        exact ih hcounts (by omega) (helapsed ▸ hle) (by omega)
    · rw [if_neg (by simp [hlevel]), List.drop_eq_nil_of_le (by
        rw [List.length_finRange]
        exact Nat.not_lt.mp hlevel)]
      rfl

/-- **No index leaves its range, no sum or difference overflows, and every loop ends.** -/
theorem advanceTo_eq (h : FullWf w) (hcount : w.deadlines.count < 2 ^ 64)
    (hle : w.elapsed ≤ now) : advanceTo w now = some (w.advanceTo now) := by
  have hroom := Nat.lt_of_le_of_lt h.total_le_count hcount
  have hloop : levelLoop now w.elapsed (numLevels + 2) 0 false w =
      some (TimerWheel.cascadeLevels now ((List.finRange numLevels).drop 0) w) :=
    levelLoop_eq h.level_counts_wf hroom hle (by omega)
  rw [advanceTo, hloop]
  rfl

end Checked

/-! ### What the cascade does -/

/-- **The cascade of `advance_to`.** On a well-formed wheel with nothing pending, whose count of
timers fits a machine word, `advance_to` ends without an overflow for any instant that is not before
the wheel's. Then the wheel is at that instant, pending are the timers that are due, each once, and
every other live timer is in one slot: that of its deadline at a level that still has the deadline
ahead, and below the top level within a turn. Deadlines and known minimum are as they were. -/
theorem advanceTo_cascades (h : FullWf w) (hpend : w.pending = [])
    (hcount : w.deadlines.count < 2 ^ 64) (hle : w.elapsed ≤ now) :
    ∃ w', Checked.advanceTo w now = some w' ∧ w'.elapsed = now ∧
      w'.pending.Nodup ∧ (∀ rid, rid ∈ w'.pending ↔ ∃ d, w.live rid = some d ∧ d ≤ now) ∧
      (∀ rid d, w.live rid = some d → now < d → ∃ l s,
        (∀ l' s', rid ∈ w'.slotAt l' s' ↔ l' = l ∧ s' = s) ∧ (w'.slotAt l s).count rid = 1 ∧
        s.val = ((d >>> UInt64.ofNat (8 * l.val)) &&& 255).toNat ∧
        now >>> UInt64.ofNat (8 * l.val) < d >>> UInt64.ofNat (8 * l.val) ∧
        (l.val < 3 → (d - now).toNat < 256 ^ (l.val + 1))) ∧
      w'.deadlines = w.deadlines ∧ w'.cachedMin = w.cachedMin ∧ FullWf w' := by
  have hwf := (h.wellFormed hpend).advanceTo hle
  have hdl := deadlines_advanceTo w now
  have hfull : FullWf (w.advanceTo now) :=
    .of_wellFormed hwf
      (h.cached_min_valid.congr (deadlines_advanceTo w now) (cachedMin_advanceTo w now))
      (hdl ▸ h.count_wf) (h.level_counts_wf.advanceTo now)
  refine ⟨w.advanceTo now, Checked.advanceTo_eq h hcount hle, rfl, hwf.pending_nodup,
    fun rid => ⟨fun hmem => ?_, ?_⟩, fun rid d hd hlt => ?_, hdl, cachedMin_advanceTo w now, hfull⟩
  · obtain ⟨-, d, hd, hdue⟩ := hwf.pending_due rid hmem
    rw [hdl] at hd
    exact ⟨d, hd, hdue⟩
  · -- what is due is not stored any more
    rintro ⟨d, hd, hdue⟩
    have hd' : (w.advanceTo now).live rid = some d := by rw [live, hdl]; exact hd
    rcases hwf.live_held rid d hd' with ⟨⟨l, s⟩, hhome⟩ | hmem
    · obtain ⟨d', hd'', hplaced⟩ := hfull.home_placed rid l s hhome
      obtain rfl : d = d' := Option.some.inj (hd'.symm.trans hd'')
      exact absurd hplaced.lt (UInt64.not_lt.mpr hdue)
    · exact hmem
  · have hd' : (w.advanceTo now).live rid = some d := by rw [live, hdl]; exact hd
    rcases hwf.live_held rid d hd' with ⟨⟨l, s⟩, hhome⟩ | hmem
    · obtain ⟨d', hd'', hplaced⟩ := hfull.home_placed rid l s hhome
      obtain rfl : d = d' := Option.some.inj (hd'.symm.trans hd'')
      refine ⟨l, s, fun l' s' => ?_, ?_, ?_, ?_, fun hl => ?_⟩
      · rw [hfull.mem_slotAt_iff, hhome]
        simp [eq_comm]
      · exact List.count_eq_one_of_mem (hfull.linked.nodup_slotAt l s)
          (hfull.mem_slotAt_iff.mpr hhome)
      · rw [hplaced.slot_eq]
        rfl
      · rw [UInt64.lt_iff_toNat_lt]
        exact (toNat_shiftRight_shift now l).symm ▸ (toNat_shiftRight_shift d l).symm ▸
          hplaced.ahead
      · have hband := hplaced.band hl
        have hlt' := UInt64.lt_iff_toNat_lt.mp hlt
        rw [UInt64.toNat_sub_of_le _ _ (UInt64.le_of_lt hlt)]
        have hnow : (w.advanceTo now).elapsed.toNat = now.toNat := rfl
        simp only [wheelSize] at hband
        omega
    · obtain ⟨-, d', hd'', hdue⟩ := hwf.pending_due rid hmem
      obtain rfl : d = d' := Option.some.inj (hd'.symm.trans hd'')
      exact absurd hlt (UInt64.not_lt.mpr hdue)

/-- A jump over the first of two timers leaves the first one pending, and the second one not. -/
theorem advanceTo_cascades_jump :
    ∃ w', Checked.advanceTo ((new.insert 1 300).insert 2 70000) 69999 = some w' ∧
      w'.elapsed = 69999 ∧ 1 ∈ w'.pending ∧ 2 ∉ w'.pending := by
  have hfirst : FullWf (new.insert 1 300) := fullWf_new.insert rfl (by decide) 1
  have hsecond : FullWf ((new.insert 1 300).insert 2 70000) :=
    hfirst.insert (by decide +kernel) (by decide +kernel) 2
  have hlive : ((new.insert 1 300).insert 2 70000).live 1 = some 300 ∧
      ((new.insert 1 300).insert 2 70000).live 2 = some 70000 := by decide +kernel
  have hle : ((new.insert 1 300).insert 2 70000).elapsed ≤ 69999 := by decide +kernel
  obtain ⟨w', hrun, helapsed, -, hmem, -⟩ :=
    advanceTo_cascades hsecond (by decide +kernel) (by decide +kernel) hle
  refine ⟨w', hrun, helapsed, (hmem 1).mpr ⟨300, hlive.1, by decide⟩, fun h2 => ?_⟩
  obtain ⟨d, hd, hdue⟩ := (hmem 2).mp h2
  obtain rfl : 70000 = d := Option.some.inj (hlive.2.symm.trans hd)
  exact absurd hdue (by decide)

end TimerWheel

end Lion
