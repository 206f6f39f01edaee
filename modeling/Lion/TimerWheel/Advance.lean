import Lion.TimerWheel.Linked
import Lion.TimerWheel.Placement

/-!
# Moving time forward

`advance_to` takes every id whose tick has been reached out of its slot, level by level, and either
hands it to `pending` or places it again. Its correctness rests on one invariant, `Held`: every live
id is in exactly one place, a slot that suits its deadline or `pending`. What "suits" means is a
parameter. Between operations it is `Placed` at the wheel's instant; while a level is being drained
it is `Straddles`, which says that an id is still ahead of the old instant, and already ahead of the
new one if the loop has been through its slot.

## Three loops, one predicate each

The innermost loop deals with the entries taken out of one slot, which are in hand meanwhile. The
next goes through the slots that the level's clock has passed. The outermost goes up the levels and
stops at the first whose clock has not moved, since no coarser one has then. Each has a lemma that
says what of `Held` it keeps, and the predicate with which it is stated says how far the loop has
come: `reached` is the set of slots, over all levels, that have been dealt with.

An entry that is not due is placed again while the loops still run, and may land in a slot that a
later turn visits. It is then ahead of the new instant at its level (`Straddles.of_placed_now`), so
that it would be placed once more and not lost.

## Main definitions

* `Held` — where the live ids are
* `Straddles` — placement while time moves from one instant to another

## Main results

* `Held.cascadeSlot`, `Held.cascadeLevel`, `Held.cascadeLevels` — the three loops
* `Held.advanceTo` — `advance_to` leaves every live id placed for the new instant, or pending and
  due
-/

namespace Lion

namespace TimerWheel

variable {w : TimerWheel} {hand rest : List UInt64} {rid now t : UInt64}

/-! ### What the operations on slots leave alone -/

section Frame

variable (w : TimerWheel) (l : Fin numLevels) (s : Fin wheelSize) (i : ℕ) (p : WheelPos)
  (rid d now : UInt64)

theorem slotSwapRemove_frame :
    (w.slotSwapRemove l s i).deadlines = w.deadlines ∧
      (w.slotSwapRemove l s i).pending = w.pending ∧
      (w.slotSwapRemove l s i).elapsed = w.elapsed := by
  unfold slotSwapRemove
  dsimp only
  split <;> exact ⟨rfl, rfl, rfl⟩

theorem unlink_frame :
    (w.unlink p).deadlines = w.deadlines ∧ (w.unlink p).pending = w.pending ∧
      (w.unlink p).elapsed = w.elapsed := by
  rw [unlink]
  dsimp only
  split
  · split
    · split
      · exact slotSwapRemove_frame w p.level p.slot p.idx
      · exact ⟨rfl, rfl, rfl⟩
    · exact ⟨rfl, rfl, rfl⟩
  · exact ⟨rfl, rfl, rfl⟩

theorem wheelRemoveInner_frame :
    (w.wheelRemoveInner rid).deadlines = w.deadlines ∧
      (w.wheelRemoveInner rid).pending = w.pending ∧
      (w.wheelRemoveInner rid).elapsed = w.elapsed := by
  rw [wheelRemoveInner]
  split
  · exact ⟨rfl, rfl, rfl⟩
  · exact unlink_frame _ _

theorem invalidateMin_frame :
    (w.invalidateMin d).deadlines = w.deadlines ∧ (w.invalidateMin d).pending = w.pending ∧
      (w.invalidateMin d).elapsed = w.elapsed := by
  rw [invalidateMin]
  split
  · split <;> exact ⟨rfl, rfl, rfl⟩
  · exact ⟨rfl, rfl, rfl⟩

theorem cascadeEntry_frame :
    (cascadeEntry now w rid).deadlines = w.deadlines ∧
      (cascadeEntry now w rid).elapsed = w.elapsed := by
  rw [cascadeEntry]
  split
  · split <;> exact ⟨rfl, rfl⟩
  · exact ⟨rfl, rfl⟩

theorem foldl_cascadeEntry_frame (rids : List UInt64) :
    (rids.foldl (cascadeEntry now) w).deadlines = w.deadlines ∧
      (rids.foldl (cascadeEntry now) w).elapsed = w.elapsed := by
  induction rids generalizing w with
  | nil => exact ⟨rfl, rfl⟩
  | cons rid rids ih =>
    obtain ⟨hd, he⟩ := ih (cascadeEntry now w rid)
    obtain ⟨hd', he'⟩ := cascadeEntry_frame w rid now
    exact ⟨hd.trans hd', he.trans he'⟩

theorem cascadeSlot_frame :
    (cascadeSlot now l w s).deadlines = w.deadlines ∧
      (cascadeSlot now l w s).elapsed = w.elapsed :=
  foldl_cascadeEntry_frame (w.slotDrain l s).2 now (w.slotAt l s)

theorem foldl_cascadeSlot_frame (f : ℕ → Fin wheelSize) (is : List ℕ) :
    (is.foldl (fun w i => cascadeSlot now l w (f i)) w).deadlines = w.deadlines ∧
      (is.foldl (fun w i => cascadeSlot now l w (f i)) w).elapsed = w.elapsed := by
  induction is generalizing w with
  | nil => exact ⟨rfl, rfl⟩
  | cons i is ih =>
    obtain ⟨hd, he⟩ := ih (cascadeSlot now l w (f i))
    obtain ⟨hd', he'⟩ := cascadeSlot_frame w l (f i) now
    exact ⟨hd.trans hd', he.trans he'⟩

theorem cascadeLevel_frame :
    (cascadeLevel now l w).deadlines = w.deadlines ∧ (cascadeLevel now l w).elapsed = w.elapsed :=
  foldl_cascadeSlot_frame _ _ _ _ _

theorem deadlines_cascadeLevels (ls : List (Fin numLevels)) :
    (cascadeLevels now ls w).deadlines = w.deadlines := by
  induction ls generalizing w with
  | nil => rfl
  | cons l ls ih =>
    rw [cascadeLevels]
    split
    · rfl
    · rw [ih, (cascadeLevel_frame w l now).1]

/-- `advance_to` changes no deadline, whatever it does to the slots. -/
@[simp] theorem deadlines_advanceTo : (w.advanceTo now).deadlines = w.deadlines :=
  deadlines_cascadeLevels w now _

end Frame

/-! ### Where the live ids are -/

/-- Every live id outside `hand` is either stored in one slot, which suits its deadline by `P`, or
pending, with a deadline that is due by `Q`. -/
structure Held (P : Fin numLevels → Fin wheelSize → UInt64 → Prop) (Q : UInt64 → Prop)
    (hand : List UInt64) (w : TimerWheel) : Prop where
  linked : Linked w hand
  /-- What has a home is live and, unless it is in hand, suits it. -/
  home_live : ∀ rid l s, w.home rid = some (l, s) →
    ∃ d, w.deadlines.get rid = some d ∧ (rid ∉ hand → P l s d)
  /-- What is in hand still has its old back-pointer. -/
  hand_home : ∀ rid ∈ hand, ∃ a, w.home rid = some a
  /-- What is pending has left its slot, and is live and due. -/
  pending_due : ∀ rid ∈ w.pending, w.home rid = none ∧ ∃ d, w.deadlines.get rid = some d ∧ Q d
  /-- No live id is lost between its slot, the hand and what is pending. -/
  live_held : ∀ rid d, w.deadlines.get rid = some d →
    (∃ a, w.home rid = some a) ∨ rid ∈ w.pending
  pending_nodup : w.pending.Nodup

namespace Held

variable {P P' : Fin numLevels → Fin wheelSize → UInt64 → Prop} {Q Q' : UInt64 → Prop}

theorem mono (h : Held P Q hand w) (hP : ∀ l s d, P l s d → P' l s d) (hQ : ∀ d, Q d → Q' d) :
    Held P' Q' hand w where
  linked := h.linked
  home_live rid l s hhome := by
    obtain ⟨d, hd, hsuit⟩ := h.home_live rid l s hhome
    exact ⟨d, hd, fun hh => hP l s d (hsuit hh)⟩
  hand_home := h.hand_home
  pending_due rid hmem := by
    obtain ⟨hnone, d, hd, hdue⟩ := h.pending_due rid hmem
    exact ⟨hnone, d, hd, hQ d hdue⟩
  live_held := h.live_held
  pending_nodup := h.pending_nodup

/-- An id in hand is placed again, in a slot that suits its deadline. -/
theorem wheelInsertInner {d : UInt64} (h : Held P Q (rid :: rest) w) (hrest : rid ∉ rest)
    (hd : w.deadlines.get rid = some d) (hsuit : P (levelSlot d t).1 (levelSlot d t).2 d) :
    Held P Q rest (w.wheelInsertInner rid d t) where
  linked := h.linked.wheelInsertInner hrest d t
  home_live r l s hhome := by
    rw [home_wheelInsertInner] at hhome
    by_cases hr : r = rid
    · rw [if_pos hr] at hhome
      have hls : levelSlot d t = (l, s) := Option.some.inj hhome
      rw [hls] at hsuit
      exact ⟨d, hr ▸ hd, fun _ => hsuit⟩
    · rw [if_neg hr] at hhome
      obtain ⟨d', hd', hsuit'⟩ := h.home_live r l s hhome
      exact ⟨d', hd', fun hh => hsuit' (by simp [hr, hh])⟩
  hand_home r hmem := by
    rw [home_wheelInsertInner, if_neg (fun e : r = rid => hrest (e ▸ hmem))]
    exact h.hand_home r (List.mem_cons_of_mem _ hmem)
  pending_due r hmem := by
    obtain ⟨hnone, hdue⟩ := h.pending_due r hmem
    obtain ⟨a, ha⟩ := h.hand_home rid List.mem_cons_self
    have hr : r ≠ rid := fun e => by rw [e, ha] at hnone; cases hnone
    rw [home_wheelInsertInner, if_neg hr]
    exact ⟨hnone, hdue⟩
  live_held r d' hd' := by
    rw [home_wheelInsertInner]
    split
    · exact .inl ⟨_, rfl⟩
    · exact h.live_held r d' hd'
  pending_nodup := h.pending_nodup

/-- An id in hand that is due becomes pending, and has no home any longer. -/
theorem expire {d : UInt64} (h : Held P Q (rid :: rest) w) (hrest : rid ∉ rest)
    (hd : w.deadlines.get rid = some d) (hdue : Q d) :
    Held P Q rest
      { w with positions := (w.positions.remove rid).2, pending := w.pending ++ [rid] } := by
  have hhome : ∀ r, home { w with
      positions := (w.positions.remove rid).2, pending := w.pending ++ [rid] } r =
      if r = rid then none else w.home r := fun r => by
    show (VecMap.get (w.positions.remove rid).2 r).map _ = _
    rw [VecMap.get_remove]
    split <;> rfl
  have hnot : rid ∉ w.pending := fun hmem => by
    obtain ⟨a, ha⟩ := h.hand_home rid List.mem_cons_self
    rw [(h.pending_due rid hmem).1] at ha
    cases ha
  refine ⟨h.linked.forget _, fun r l s hr => ?_, fun r hmem => ?_, fun r hmem => ?_,
    fun r d' hd' => ?_, ?_⟩
  · rw [hhome] at hr
    split at hr
    · cases hr
    · rename_i hne
      obtain ⟨d', hd', hsuit⟩ := h.home_live r l s hr
      exact ⟨d', hd', fun hh => hsuit (by simp [hne, hh])⟩
  · rw [hhome, if_neg (fun e : r = rid => hrest (e ▸ hmem))]
    exact h.hand_home r (List.mem_cons_of_mem _ hmem)
  · rw [hhome]
    rcases List.mem_append.mp hmem with hmem | hmem
    · rw [if_neg (fun e : r = rid => hnot (e ▸ hmem))]
      exact h.pending_due r hmem
    · obtain rfl := List.mem_singleton.mp hmem
      exact ⟨if_pos rfl, d, hd, hdue⟩
  · rw [hhome]
    by_cases hr : r = rid
    · exact .inr (List.mem_append_right _ (by simp [hr]))
    · rw [if_neg hr]
      exact (h.live_held r d' hd').imp id (List.mem_append_left _)
  · exact List.nodup_append.mpr ⟨h.pending_nodup, List.nodup_singleton _, fun a ha b hb => by
      rw [List.mem_singleton.mp hb]
      exact fun e => hnot (e ▸ ha)⟩

/-- Dealing with one id in hand: it is placed again or becomes pending, according to its
deadline. -/
theorem cascadeEntry (h : Held P Q (rid :: rest) w) (hrest : rid ∉ rest)
    (hplace : ∀ d, now < d → P (levelSlot d now).1 (levelSlot d now).2 d)
    (hdue : ∀ d, d ≤ now → Q d) : Held P Q rest (cascadeEntry now w rid) := by
  obtain ⟨⟨l, s⟩, ha⟩ := h.hand_home rid List.mem_cons_self
  obtain ⟨d, hd, _⟩ := h.home_live rid l s ha
  rw [TimerWheel.cascadeEntry]
  rw [hd]
  dsimp only
  split
  · rename_i hle
    exact h.expire hrest hd (hdue d hle)
  · rename_i hlt
    exact h.wheelInsertInner hrest hd (hplace d (UInt64.not_le.mp hlt))

/-- Dealing with everything in hand, one id after the other, leaves nothing there. -/
theorem foldl_cascadeEntry (h : Held P Q hand w) (hnodup : hand.Nodup)
    (hplace : ∀ d, now < d → P (levelSlot d now).1 (levelSlot d now).2 d)
    (hdue : ∀ d, d ≤ now → Q d) :
    Held P Q [] (hand.foldl (TimerWheel.cascadeEntry now) w) := by
  induction hand generalizing w with
  | nil => exact h
  | cons rid rest ih =>
    obtain ⟨hrest, hnodup⟩ := List.nodup_cons.mp hnodup
    exact ih (h.cascadeEntry hrest hplace hdue) hnodup

/-- Draining a slot. The ids in it are in hand afterwards, so `P` may become stricter about the
drained slot. -/
theorem slotDrain (h : Held P Q [] w) (l : Fin numLevels) (s : Fin wheelSize)
    (hP : ∀ l' s' d, ¬(l' = l ∧ s' = s) → P l' s' d → P' l' s' d) :
    Held P' Q (w.slotAt l s) (w.slotDrain l s).2 where
  linked := h.linked.slotDrain l s
  home_live r l' s' hhome := by
    obtain ⟨d, hd, hsuit⟩ := h.home_live r l' s' hhome
    refine ⟨d, hd, fun hh => hP l' s' d ?_ (hsuit (by simp))⟩
    rintro ⟨rfl, rfl⟩
    exact hh (h.linked.mem_slotAt_iff.mpr ⟨hhome, by simp⟩)
  hand_home r hmem := ⟨_, (h.linked.mem_slotAt_iff.mp hmem).1⟩
  pending_due := h.pending_due
  live_held := h.live_held
  pending_nodup := h.pending_nodup

/-- One turn of the slot loop: what was stored in the slot is dealt with. -/
theorem cascadeSlot (h : Held P Q [] w) (l : Fin numLevels) (s : Fin wheelSize)
    (hP : ∀ l' s' d, ¬(l' = l ∧ s' = s) → P l' s' d → P' l' s' d)
    (hplace : ∀ d, now < d → P' (levelSlot d now).1 (levelSlot d now).2 d)
    (hdue : ∀ d, d ≤ now → Q d) : Held P' Q [] (cascadeSlot now l w s) :=
  (h.slotDrain l s hP).foldl_cascadeEntry (h.linked.nodup_slotAt l s) hplace hdue

end Held

/-! ### Between two instants -/

/-- Deadline `d` sits in slot `s` of level `l` while time moves from `t` to `now`; `reached` marks
the slots that have been dealt with. -/
structure Straddles (t now : UInt64) (reached : Fin numLevels → Fin wheelSize → Prop)
    (l : Fin numLevels) (s : Fin wheelSize) (d : UInt64) : Prop where
  slot_eq : s = slotOf l d
  ahead : pos l t < pos l d
  /-- Below the top level the ring has not been outrun. -/
  band : l.val < 3 → d.toNat < now.toNat + wheelSize ^ (l.val + 1)
  /-- What has been dealt with is ahead of the new instant too. -/
  settled : reached l s → pos l now < pos l d

namespace Straddles

variable {reached reached' : Fin numLevels → Fin wheelSize → Prop} {l : Fin numLevels}
  {s : Fin wheelSize} {d : UInt64}

theorem of_placed (h : Placed t l s d) (hle : t ≤ now) (hun : ¬ reached l s) :
    Straddles t now reached l s d where
  slot_eq := h.slot_eq
  ahead := h.ahead
  band hl := by
    have := h.band hl
    have := UInt64.le_iff_toNat_le.mp hle
    omega
  settled hr := absurd hr hun

/-- A fresh placement is ahead of both instants. -/
theorem of_placed_now (h : Placed now l s d) (hle : t ≤ now) : Straddles t now reached l s d where
  slot_eq := h.slot_eq
  ahead := Nat.lt_of_le_of_lt (pos_mono l hle) h.ahead
  band := h.band
  settled _ := h.ahead

theorem placed (h : Straddles t now reached l s d) (hr : reached l s) : Placed now l s d where
  slot_eq := h.slot_eq
  ahead := h.settled hr
  band := h.band

theorem imp (h : Straddles t now reached l s d) (hr : reached' l s → reached l s) :
    Straddles t now reached' l s d where
  slot_eq := h.slot_eq
  ahead := h.ahead
  band := h.band
  settled hs := h.settled (hr hs)

end Straddles

namespace Held

variable {reached : Fin numLevels → Fin wheelSize → Prop}

/-- The slot loop: the slots it has been through are dealt with. -/
theorem foldl_cascadeSlot (l : Fin numLevels) (f : ℕ → Fin wheelSize) (hle : t ≤ now) (is : List ℕ)
    (h : Held (Straddles t now reached) (· ≤ now) [] w) :
    Held (Straddles t now fun l' s => reached l' s ∨ l' = l ∧ s ∈ is.map f) (· ≤ now) []
      (is.foldl (fun w i => TimerWheel.cascadeSlot now l w (f i)) w) := by
  induction is generalizing w reached with
  | nil => exact h.mono (fun l s d hs => hs.imp (by simp)) fun _ hd => hd
  | cons i is ih =>
    have hslot : Held (Straddles t now fun l' s => reached l' s ∨ l' = l ∧ s = f i) (· ≤ now) []
        (TimerWheel.cascadeSlot now l w (f i)) := by
      refine h.cascadeSlot l (f i) (fun l' s' d hne hs => hs.imp fun hr => ?_)
        (fun d hd => .of_placed_now (levelSlot_placed hd) hle) fun d hd => hd
      exact hr.elim id fun hl => absurd hl hne
    refine (ih hslot).mono (fun l' s' d hs => hs.imp ?_) fun _ hd => hd
    rintro (hr | ⟨rfl, hmem⟩)
    · exact .inl (.inl hr)
    · rcases List.mem_cons.mp hmem with hs' | hmem
      · exact .inl (.inr ⟨rfl, hs'⟩)
      · exact .inr ⟨rfl, hmem⟩

/-- **One level.** The slots drained are enough: what the loop has not been through is ahead of the
new instant anyway. -/
theorem cascadeLevel {ls : List (Fin numLevels)} {l : Fin numLevels} (hle : w.elapsed ≤ now)
    (h : Held (Straddles w.elapsed now fun l' _ => l' ∉ l :: ls) (· ≤ now) [] w) :
    Held (Straddles w.elapsed now fun l' _ => l' ∉ ls) (· ≤ now) [] (cascadeLevel now l w) := by
  refine (h.foldl_cascadeSlot l (slotAfter (w.elapsed >>> shift l)) hle _).mono
    (fun l' s d hs => ⟨hs.slot_eq, hs.ahead, hs.band, fun hr => ?_⟩) fun _ hd => hd
  by_cases hl : l' = l
  · subst hl
    by_contra hnot
    obtain ⟨i, hi, hslot⟩ := exists_slotAfter hle hs.ahead (Nat.not_lt.mp hnot)
    refine hnot (hs.settled (.inr ⟨rfl, List.mem_map.mpr ⟨i, hi, ?_⟩⟩))
    rw [hslot, hs.slot_eq]
  · exact hs.settled (.inl (by simp [hl, hr]))

/-- **All levels.** If a level's position does not move, neither does any above it, so the loop may
stop there. -/
theorem cascadeLevels {ls : List (Fin numLevels)} (hle : w.elapsed ≤ now)
    (hsorted : ls.Pairwise (· < ·))
    (h : Held (Straddles w.elapsed now fun l' _ => l' ∉ ls) (· ≤ now) [] w) :
    Held (Placed now) (· ≤ now) [] (cascadeLevels now ls w) := by
  induction ls generalizing w with
  | nil => exact h.mono (fun l s d hs => hs.placed (by simp)) fun _ hd => hd
  | cons l ls ih =>
    obtain ⟨hbelow, hsorted⟩ := List.pairwise_cons.mp hsorted
    rw [TimerWheel.cascadeLevels]
    split
    · rename_i heq
      have hpos : pos l w.elapsed = pos l now := by
        rw [← toNat_shiftRight_shift, ← toNat_shiftRight_shift, heq]
      refine h.mono (fun l' s d hs => ⟨hs.slot_eq, ?_, hs.band⟩) fun _ hd => hd
      by_cases hmem : l' ∈ l :: ls
      · have hll : l ≤ l' := by
          rcases List.mem_cons.mp hmem with rfl | hmem
          · exact Fin.le_refl _
          · exact Fin.le_of_lt (hbelow l' hmem)
        have hpos' : pos l' w.elapsed = pos l' now := Radix.tick_eq_of_le hll hpos
        exact hpos' ▸ hs.ahead
      · exact hs.settled hmem
    · have helapsed := (cascadeLevel_frame w l now).2
      exact ih (helapsed ▸ hle) hsorted (helapsed ▸ h.cascadeLevel hle)

/-- **`advance_to`.** Afterwards every live id is placed for the new instant, or pending and due. -/
theorem advanceTo (hle : w.elapsed ≤ now) (h : Held (Placed w.elapsed) (· ≤ w.elapsed) [] w) :
    Held (Placed now) (· ≤ now) [] (w.advanceTo now) := by
  have hstart : Held (Straddles w.elapsed now fun l' _ => l' ∉ List.finRange numLevels)
      (· ≤ now) [] w :=
    h.mono (fun l s d hs => .of_placed hs hle fun hl => hl (List.mem_finRange l))
      fun d hd => UInt64.le_trans hd hle
  have hend := hstart.cascadeLevels hle (by decide)
  exact ⟨hend.linked.congr (fun _ _ => rfl) rfl, hend.home_live, hend.hand_home, hend.pending_due,
    hend.live_held, hend.pending_nodup⟩

end Held

end TimerWheel

end Lion
