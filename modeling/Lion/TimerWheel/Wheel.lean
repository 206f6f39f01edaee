import Lion.TimerWheel.VecMap
import Mathlib.Data.UInt

/-!
# The hierarchical timer wheel

`TimerWheel` of `lion-timer-wheel`. Four levels of 256 slots hold resource ids; a timer sits at the
level its distance from `elapsed` calls for, in the slot its deadline names there. Moving time
forward drains the slots passed at each level and re-places what is not yet due (`advanceTo`); what
is due goes to `pending`, from which `tryPopExpired` hands ids out one at a time.

`deadlines` is the map the wheel stands for. `positions` holds back-pointers into the slots so that
a timer can be removed by swapping the last entry of its slot into its place. The other fields save
work: `cachedMin` a scan of the slots, `levelCounts` the scan of a level with nothing in it.

## Conventions

Deadlines, the clock and resource ids are `u64`, as in the source. Slot indices and the counters of
`level_counts` are natural numbers. A level is a `Fin 4` and a slot a `Fin 256`, so the bounds
`wheel_remove_inner` tests at run time hold by typing, and `levels` cannot have another shape.

The `while` loops are folds over what they range over: the entries of a slot, the slots passed, the
levels from the bottom up. The loop that pops `pending` recurses on the length of `pending`. `Loops`
has the same loops with their counters and indices, and shows that the folds are what they compute.

Functions of the source that do one thing after another are cut where a later proof wants to stop:
`insert` is `invalidateOld`, then `place`, then `lowerMin`, and `unlink` is what is left of
`wheel_remove_inner` once the back-pointer is known. Each part keeps the order of the source.

## What is left out

The specification functions and proof blocks of the Verus source are not translated. What they say
is said again in the modules that follow, about these definitions: `FullWf` in `Earliest` is the
wheel's own invariant, under the names of its clauses.
-/

namespace Lion

/-- `NUM_LEVELS`: how many rings there are, each coarser than the one below it. -/
abbrev numLevels : ℕ := 4

/-- `WHEEL_SIZE`: how many slots a ring has, which is also the ratio between two levels. -/
abbrev wheelSize : ℕ := 256

/-- `WheelPos`: where in the wheel an id is stored. -/
structure WheelPos where
  level : Fin numLevels
  slot : Fin wheelSize
  idx : ℕ
deriving DecidableEq, Repr

/-- `TimerWheel`: the slots, the clock, and the two maps that are indexed by resource id. -/
structure TimerWheel where
  /-- The slots, by level. An id is in one of them at most, and in no particular order there. -/
  levels : Vector (Vector (List UInt64) wheelSize) numLevels
  /-- The instant the wheel has been advanced to. -/
  elapsed : UInt64
  /-- Ids taken out of the slots because their deadline has passed. -/
  pending : List UInt64
  /-- The earliest deadline, when it is known. -/
  cachedMin : Option UInt64
  /-- The deadline of every live id. -/
  deadlines : VecMap UInt64
  /-- The back-pointer of every id stored in a slot. -/
  positions : VecMap WheelPos
  /-- The number of ids stored at each level. -/
  levelCounts : Vector ℕ numLevels
deriving DecidableEq

namespace TimerWheel

/-- `TimerWheel::new`: an empty wheel at instant `0`, which does not know its minimum. -/
def new : TimerWheel where
  levels := Vector.replicate numLevels (Vector.replicate wheelSize [])
  elapsed := 0
  pending := []
  cachedMin := none
  deadlines := VecMap.new
  positions := VecMap.new
  levelCounts := Vector.replicate numLevels 0

/-- The ids stored in slot `s` of level `l`. -/
def slotAt (w : TimerWheel) (l : Fin numLevels) (s : Fin wheelSize) : List UInt64 :=
  w.levels[l][s]

/-- Replace the contents of one slot, and touch nothing else. -/
def setSlotAt (w : TimerWheel) (l : Fin numLevels) (s : Fin wheelSize) (v : List UInt64) :
    TimerWheel :=
  { w with levels := w.levels.set l (w.levels[l].set s v) }

/-- Replace the stored count of one level, and touch nothing else. -/
def setCount (w : TimerWheel) (l : Fin numLevels) (n : ℕ) : TimerWheel :=
  { w with levelCounts := w.levelCounts.set l n }

/-! ### Placement -/

/-- The number of low bits a level ignores: `level * WHEEL_BITS`. -/
def shift (l : Fin numLevels) : UInt64 := UInt64.ofNat (8 * l.val)

theorem and_255_lt (t : UInt64) : (t &&& 255).toNat < wheelSize := by
  rw [UInt64.toNat_and]
  exact Nat.lt_of_le_of_lt Nat.and_le_right (by decide)

/-- The slot of level `l` that instant `t` falls into: `(t >> shift) & 255`. -/
def slotOf (l : Fin numLevels) (t : UInt64) : Fin wheelSize :=
  ⟨((t >>> shift l) &&& 255).toNat, and_255_lt _⟩

/-- The level whose span covers `delta`. Everything beyond the third level goes to the top one. -/
def levelOf (delta : UInt64) : Fin numLevels :=
  if delta < 256 then 0
  else if delta < 65536 then 1
  else if delta < 16777216 then 2
  else 3

/-- `TimerWheel::level_slot`. The subtraction wraps, as `wrapping_sub` does. -/
def levelSlot (deadline elapsed : UInt64) : Fin numLevels × Fin wheelSize :=
  let level := levelOf (deadline - elapsed)
  (level, slotOf level deadline)

/-! ### Slots -/

/-- `TimerWheel::slot_push`: append an id to a slot and count it at its level. -/
def slotPush (w : TimerWheel) (l : Fin numLevels) (s : Fin wheelSize) (rid : UInt64) : TimerWheel :=
  let w := w.setSlotAt l s (w.slotAt l s ++ [rid])
  w.setCount l (w.levelCounts[l] + 1)

/-- `TimerWheel::slot_swap_remove`: the last entry takes the place of entry `idx`. -/
def slotSwapRemove (w : TimerWheel) (l : Fin numLevels) (s : Fin wheelSize) (idx : ℕ) :
    TimerWheel :=
  let w := w.setCount l (w.levelCounts[l] - 1)
  let v := w.slotAt l s
  match v.getLast? with
  | none => w
  | some last => w.setSlotAt l s ((v.set idx last).dropLast)

/-- `TimerWheel::slot_pop`: drop the last entry of a slot and discount it at its level. -/
def slotPop (w : TimerWheel) (l : Fin numLevels) (s : Fin wheelSize) : TimerWheel :=
  let w := w.setCount l (w.levelCounts[l] - 1)
  w.setSlotAt l s (w.slotAt l s).dropLast

/-- `TimerWheel::slot_drain`: empty a slot, return what was in it and discount all of it. -/
def slotDrain (w : TimerWheel) (l : Fin numLevels) (s : Fin wheelSize) : List UInt64 × TimerWheel :=
  let w' := w.setCount l (w.levelCounts[l] - (w.slotAt l s).length)
  (w.slotAt l s, w'.setSlotAt l s [])

/-- The body of `wheel_remove_inner` for a back-pointer just taken: the entry it leads to leaves
its slot, and the back-pointer goes to the entry swapped into its place. -/
def unlink (w : TimerWheel) (pos : WheelPos) : TimerWheel :=
  let slotVec := w.slotAt pos.level pos.slot
  if 0 < slotVec.length then
    let last := slotVec.length - 1
    if pos.idx ≤ last then
      if pos.idx < last then
        let swappedRid := slotVec.getD last 0
        let w := w.slotSwapRemove pos.level pos.slot pos.idx
        { w with positions := w.positions.insert swappedRid pos }
      else w.slotPop pos.level pos.slot
    else w
  else w

/-- `TimerWheel::wheel_remove_inner`: take `rid` out of its slot. -/
def wheelRemoveInner (w : TimerWheel) (rid : UInt64) : TimerWheel :=
  match w.positions.remove rid with
  | (none, positions) => { w with positions }
  | (some pos, positions) => { w with positions }.unlink pos

/-- `TimerWheel::wheel_insert_inner`: place `rid` as seen from `elapsedForSlot`. -/
def wheelInsertInner (w : TimerWheel) (rid deadline elapsedForSlot : UInt64) : TimerWheel :=
  let (level, slot) := levelSlot deadline elapsedForSlot
  let idx := (w.slotAt level slot).length
  let w := w.slotPush level slot rid
  { w with positions := w.positions.insert rid ⟨level, slot, idx⟩ }

/-- `TimerWheel::invalidate_min`: a timer with this deadline goes, so that a minimum which is not
before it may not be the minimum any longer. -/
def invalidateMin (w : TimerWheel) (deadline : UInt64) : TimerWheel :=
  match w.cachedMin with
  | some m => if deadline ≤ m then { w with cachedMin := none } else w
  | none => w

/-! ### Insertion and removal -/

/-- The first step of `insert`: the old deadline of `rid` may have been the earliest. -/
def invalidateOld (w : TimerWheel) (rid : UInt64) : TimerWheel :=
  match w.deadlines.get rid with
  | some oldDeadline => w.invalidateMin oldDeadline
  | none => w

/-- The middle of `insert`: take `rid` out of its slot, record the deadline, place `rid`. -/
def place (w : TimerWheel) (rid deadline : UInt64) : TimerWheel :=
  let w := w.wheelRemoveInner rid
  let w := { w with deadlines := w.deadlines.insert rid deadline }
  w.wheelInsertInner rid deadline w.elapsed

/-- The last step of `insert`: a known minimum is lowered to `deadline`. -/
def lowerMin (w : TimerWheel) (deadline : UInt64) : TimerWheel :=
  match w.cachedMin with
  | some m => if deadline < m then { w with cachedMin := some deadline } else w
  | none => w

/-- `TimerWheel::insert`: set the deadline of `rid`, which may or may not have had one. -/
def insert (w : TimerWheel) (rid deadline : UInt64) : TimerWheel :=
  ((w.invalidateOld rid).place rid deadline).lowerMin deadline

/-- `TimerWheel::remove`: forget `rid`. An id without a deadline is not looked for in the slots. -/
def remove (w : TimerWheel) (rid : UInt64) : TimerWheel :=
  match w.deadlines.get rid with
  | some deadline =>
    let w := w.invalidateMin deadline
    let w := w.wheelRemoveInner rid
    { w with deadlines := (w.deadlines.remove rid).2 }
  | none => w

/-! ### Advancing -/

/-- The body of the innermost loop of `advance_to`: an id taken out of a drained slot is due and
goes to `pending`, or is re-placed as seen from `now`. -/
def cascadeEntry (now : UInt64) (w : TimerWheel) (rid : UInt64) : TimerWheel :=
  match w.deadlines.get rid with
  | some deadline =>
    if deadline ≤ now then
      { w with positions := (w.positions.remove rid).2, pending := w.pending ++ [rid] }
    else w.wheelInsertInner rid deadline now
  | none => w

/-- One turn of the slot loop of `advance_to`: drain a slot and cascade its entries. -/
def cascadeSlot (now : UInt64) (l : Fin numLevels) (w : TimerWheel) (s : Fin wheelSize) :
    TimerWheel :=
  let (slotVec, w) := w.slotDrain l s
  slotVec.foldl (cascadeEntry now) w

/-- The slot `i` steps after the one that `oldPos` masks to. -/
def slotAfter (oldPos : UInt64) (i : ℕ) : Fin wheelSize :=
  ⟨((oldPos &&& 255).toNat + i) % wheelSize, Nat.mod_lt _ (by decide)⟩

/-- `slots_to_drain`: one slot per tick of the level, and never more than a full turn. -/
def slotsToDrain (oldPos newPos : UInt64) : ℕ :=
  let diff := newPos - oldPos
  if diff < 256 then diff.toNat else wheelSize

/-- One turn of the level loop of `advance_to`: drain the slots passed at level `l`. -/
def cascadeLevel (now : UInt64) (l : Fin numLevels) (w : TimerWheel) : TimerWheel :=
  let oldPos := w.elapsed >>> shift l
  let newPos := now >>> shift l
  (List.range' 1 (slotsToDrain oldPos newPos)).foldl
    (fun w i => cascadeSlot now l w (slotAfter oldPos i)) w

/-- The level loop of `advance_to`, from the lowest of `ls` up; it stops at the first level whose
position does not move. -/
def cascadeLevels (now : UInt64) : List (Fin numLevels) → TimerWheel → TimerWheel
  | [], w => w
  | l :: ls, w =>
    if w.elapsed >>> shift l = now >>> shift l then w
    else cascadeLevels now ls (cascadeLevel now l w)

/-- `TimerWheel::advance_to`: drain the slots between the two instants at every level, then set the
clock. While the levels are drained the clock still shows the old instant. -/
def advanceTo (w : TimerWheel) (now : UInt64) : TimerWheel :=
  { cascadeLevels now (List.finRange numLevels) w with elapsed := now }

/-! ### Popping -/

/-- The loop of `try_pop_expired` over `pending`, popping from the back; `n` bounds the number of
pops left. -/
def popPending (now : UInt64) : ℕ → TimerWheel → Option UInt64 × TimerWheel
  | 0, w => (none, w)
  | n + 1, w =>
    match w.pending.getLast? with
    | none => (none, w)
    | some rid =>
      let w := { w with pending := w.pending.dropLast }
      match w.deadlines.get rid with
      | some deadline =>
        if deadline ≤ now then
          let w := w.invalidateMin deadline
          (some rid, { w with
            deadlines := (w.deadlines.remove rid).2
            positions := (w.positions.remove rid).2 })
        else popPending now n w
      | none => popPending now n w

/-- `TimerWheel::try_pop_expired`: drain what is pending, then advance and drain again. -/
def tryPopExpired (w : TimerWheel) (now : UInt64) : Option UInt64 × TimerWheel :=
  match popPending now w.pending.length w with
  | (some rid, w) => (some rid, w)
  | (none, w) =>
    let w := if w.elapsed < now then w.advanceTo now else w
    popPending now w.pending.length w

/-! ### The earliest deadline -/

/-- `TimerWheel::get_deadline`: the deadline of a live id. -/
def getDeadline (w : TimerWheel) (rid : UInt64) : Option UInt64 := w.deadlines.get rid

/-- `TimerWheel::is_empty`: whether there is a live id, stored or pending. -/
def isEmpty (w : TimerWheel) : Bool := w.deadlines.isEmpty

/-- `TimerWheel::merge_min`: the lesser of what a scan has found so far and one more deadline. -/
def mergeMin (best : Option UInt64) (d : UInt64) : Option UInt64 :=
  match best with
  | none => some d
  | some b => if d < b then some d else some b

/-- The loop all the scans share: the least deadline among `rids`, on top of `best`. -/
def scanMembers (w : TimerWheel) (best : Option UInt64) (rids : List UInt64) : Option UInt64 :=
  rids.foldl (fun best rid =>
    match w.deadlines.get rid with
    | some d => mergeMin best d
    | none => best) best

/-- The slot loop of `scan_level_min`, over the ring offsets `os`. The first occupied slot
decides: `bound` may rule out every member of it, and at level 0 all members share a deadline. -/
def scanRing (w : TimerWheel) (l : Fin numLevels) (bound : Option UInt64) :
    List ℕ → Option UInt64
  | [] => none
  | o :: os =>
    match w.slotAt l (slotAfter (w.elapsed >>> shift l) o) with
    | [] => scanRing w l bound os
    | rid0 :: rids =>
      let beaten := match bound with
        | some b => decide (b >>> shift l < (w.elapsed >>> shift l) + UInt64.ofNat o)
        | none => false
      if beaten then none
      else
        match (if l = 0 then w.deadlines.get rid0 else none) with
        | some d0 => some d0
        | none =>
          match scanMembers w none (rid0 :: rids) with
          | some best => some best
          | none => scanRing w l bound os

/-- `TimerWheel::scan_level_min`: follow the ring of a lower level from the wheel's instant on, over
a full turn, unless the stored count says that there is nothing at the level. -/
def scanLevelMin (w : TimerWheel) (l : Fin numLevels) (bound : Option UInt64) : Option UInt64 :=
  if w.levelCounts[l] = 0 then none else scanRing w l bound (List.range' 1 wheelSize)

/-- `TimerWheel::scan_level3_min`: level 3 has no ring order, so every slot is scanned. -/
def scanLevel3Min (w : TimerWheel) : Option UInt64 :=
  if w.levelCounts[3] = 0 then none
  else (List.finRange wheelSize).foldl (fun best s => scanMembers w best (w.slotAt 3 s)) none

/-- `TimerWheel::scan_wheel_min`: what is pending is due and so before everything stored; with
nothing live pending, the least of what the four levels have. -/
def scanWheelMin (w : TimerWheel) : Option UInt64 :=
  match scanMembers w none w.pending with
  | some pb => some pb
  | none =>
    let c0 := w.scanLevelMin 0 none
    let c1 := w.scanLevelMin 1 c0
    let c2 := w.scanLevelMin 2 c0
    let c3 := w.scanLevel3Min
    [c0, c1, c2, c3].foldl (fun best c =>
      match c with
      | some d => mergeMin best d
      | none => best) none

/-- `TimerWheel::next_deadline`: the earliest deadline of a live id, from the cache if it is
known. -/
def nextDeadline (w : TimerWheel) : Option UInt64 :=
  if w.isEmpty then none
  else
    match w.cachedMin with
    | some d => some d
    | none => w.scanWheelMin

end TimerWheel

end Lion
