import Mathlib.Data.List.Basic
import Mathlib.Tactic.Common

/-!
# Windows of optional slots

A map from natural numbers stored as a contiguous run of optional slots starting at an offset: key
`k` lives in slot `k - offset`. The window grows at either end when a key outside it is written, and
never shrinks.

This is a good representation where keys are handed out in increasing order and live for about as
long as each other. It is a bad one for a single distant key, for which it allocates everything in
between. So besides being a finite map there are two more things to know of it: how far it extends
(`Spans`) and how full it is (`occupancy`).

## Conventions

The three writing primitives (`growFront`, `ensureSlot`, `setSlot`) are kept apart because code that
keeps extra bookkeeping next to the window interposes between them. Each has one lemma, and that
lemma speaks about `get` only: nothing downstream looks at the list of slots.

Keys are natural numbers and growing always succeeds. A program whose keys are machine words, or
whose memory is bounded, has to bound the extent; `Spans` says that both ends are keys that were
written, so that a bound on the keys is enough.

## Main results

* `Window.get_growFront`, `Window.get_ensureSlot` — growing changes no lookup
* `Window.get_insert`, `Window.get_remove` — the window is a finite map
* `Window.Spans.insert` — the window extends from one key that was written to another
* `Window.occupancy_remove` — removing a present key empties exactly one slot
* `Window.occupancy_insert` — writing a new key fills exactly one
-/

/-- A run of optional slots; slot `i` belongs to key `offset + i`. -/
structure Window (α : Type*) where
  inner : List (Option α)
  offset : ℕ
deriving DecidableEq, Repr

namespace Window

variable {α : Type*}

/-- The window with no slots. Its offset means nothing until a key is written. -/
def empty : Window α := ⟨[], 0⟩

/-- The entry under `key`; keys outside the window have none. -/
def get (w : Window α) (key : ℕ) : Option α :=
  if key < w.offset then none else (w.inner[key - w.offset]?).join

/-- Prepend empty slots until `key`, which is meant to be below the offset, is the offset. -/
def growFront (w : Window α) (key : ℕ) : Window α :=
  ⟨List.replicate (w.offset - key) none ++ w.inner, key⟩

/-- Append empty slots until slot `rel` exists, unless it does already. -/
def ensureSlot (w : Window α) (rel : ℕ) : Window α :=
  if w.inner.length ≤ rel then
    { w with inner := w.inner ++ List.replicate (rel + 1 - w.inner.length) none }
  else w

/-- Fill slot `rel`. Where there is no such slot, nothing happens. -/
def setSlot (w : Window α) (rel : ℕ) (value : α) : Window α :=
  { w with inner := w.inner.set rel (some value) }

/-- Empty slot `rel`, if it exists. The slot itself stays. -/
def takeAt (w : Window α) (rel : ℕ) : Window α :=
  { w with inner := w.inner.set rel none }

/-- Make room for `key`: an empty window is moved there, and a window that starts too late is
extended downwards. -/
def reach (w : Window α) (key : ℕ) : Window α :=
  if w.inner.length = 0 then { w with offset := key }
  else if key < w.offset then w.growFront key
  else w

/-- Write `value` under `key`, making room first. What was there under `key` is overwritten. -/
def insert (w : Window α) (key : ℕ) (value : α) : Window α :=
  let w := w.reach key
  let rel := key - w.offset
  (w.ensureSlot rel).setSlot rel value

/-- Remove the entry under `key`, returning it. The extent stays as it is. -/
def remove (w : Window α) (key : ℕ) : Option α × Window α :=
  if key < w.offset then (none, w)
  else if w.inner.length ≤ key - w.offset then (none, w)
  else (w.get key, w.takeAt (key - w.offset))

/-! ### Lookups -/

@[simp] theorem get_empty (k : ℕ) : (empty : Window α).get k = none := by
  simp [get, empty]

theorem get_of_lt {w : Window α} {k : ℕ} (h : k < w.offset) : w.get k = none := by
  simp [get, h]

theorem get_of_le {w : Window α} {k : ℕ} (h : w.offset ≤ k) :
    w.get k = (w.inner[k - w.offset]?).join := by
  simp [get, Nat.not_lt.mpr h]

theorem get_growFront {w : Window α} {key : ℕ} (h : key ≤ w.offset) (k : ℕ) :
    (w.growFront key).get k = w.get k := by
  rcases Nat.lt_or_ge k key with hk | hk
  · rw [get_of_lt (w := w.growFront key) hk, get_of_lt (Nat.lt_of_lt_of_le hk h)]
  · rw [get_of_le (w := w.growFront key) hk]
    simp only [growFront]
    rcases Nat.lt_or_ge k w.offset with hko | hko
    · rw [get_of_lt hko, List.getElem?_append_left (by simp; omega), List.getElem?_replicate]
      split <;> rfl
    · rw [get_of_le hko, List.getElem?_append_right (by simp; omega), List.length_replicate]
      congr 2
      omega

theorem get_ensureSlot (w : Window α) (rel k : ℕ) : (w.ensureSlot rel).get k = w.get k := by
  rw [ensureSlot]
  split
  · rename_i h
    simp only [get]
    split
    · rfl
    · rw [List.getElem?_append]
      split
      · rfl
      · rename_i hlen
        rw [List.getElem?_eq_none (Nat.not_lt.mp hlen), List.getElem?_replicate]
        split <;> rfl
  · rfl

theorem lt_length_ensureSlot (w : Window α) (rel : ℕ) : rel < (w.ensureSlot rel).inner.length := by
  rw [ensureSlot]
  split
  · simp only [List.length_append, List.length_replicate]
    omega
  · omega

@[simp] theorem offset_ensureSlot (w : Window α) (rel : ℕ) :
    (w.ensureSlot rel).offset = w.offset := by
  rw [ensureSlot]
  split <;> rfl

/-- Overwriting one slot is seen by one key only. -/
theorem get_set (w : Window α) (rel : ℕ) (o : Option α) (k : ℕ) :
    ({ w with inner := w.inner.set rel o } : Window α).get k =
      if k = w.offset + rel then (if rel < w.inner.length then o else none) else w.get k := by
  rcases Nat.lt_or_ge k w.offset with hk | hk
  · rw [get_of_lt (w := { w with inner := w.inner.set rel o }) hk, get_of_lt hk,
      if_neg (by omega)]
  · rw [get_of_le (w := { w with inner := w.inner.set rel o }) hk, get_of_le hk]
    dsimp only
    rw [List.getElem?_set]
    by_cases hr : k = w.offset + rel
    · rw [if_pos hr, if_pos (by omega)]
      split <;> rfl
    · rw [if_neg hr, if_neg (by omega)]

theorem get_setSlot {w : Window α} {rel : ℕ} (h : rel < w.inner.length) (v : α) (k : ℕ) :
    (w.setSlot rel v).get k = if k = w.offset + rel then some v else w.get k := by
  rw [setSlot, get_set, if_pos h]

theorem get_takeAt (w : Window α) (rel k : ℕ) :
    (w.takeAt rel).get k = if k = w.offset + rel then none else w.get k := by
  rw [takeAt, get_set, ite_self]

theorem get_reach (w : Window α) (key k : ℕ) : (w.reach key).get k = w.get k := by
  rw [reach]
  split
  · rename_i h
    have hnil : w.inner = [] := List.eq_nil_of_length_eq_zero h
    simp [get, hnil]
  · split
    · rename_i h
      exact get_growFront (Nat.le_of_lt h) k
    · rfl

theorem offset_reach_le (w : Window α) (key : ℕ) : (w.reach key).offset ≤ key := by
  rw [reach]
  split
  · exact Nat.le_refl _
  · split
    · exact Nat.le_refl _
    · omega

/-- The slot that is about to be written holds the entry. -/
theorem join_reach (w : Window α) (key : ℕ) :
    (((w.reach key).ensureSlot (key - (w.reach key).offset)).inner[
      key - (w.reach key).offset]?).join = w.get key := by
  have hle : ((w.reach key).ensureSlot (key - (w.reach key).offset)).offset ≤ key := by
    rw [offset_ensureSlot]
    exact offset_reach_le w key
  have hget := get_of_le hle
  rw [get_ensureSlot, get_reach, offset_ensureSlot] at hget
  exact hget.symm

/-- **Read after write.** The key that was written has the new value, every other key what it
had. -/
theorem get_insert (w : Window α) (key : ℕ) (v : α) (k : ℕ) :
    (w.insert key v).get k = if k = key then some v else w.get k := by
  have hle : (w.reach key).offset ≤ key := offset_reach_le w key
  rw [insert, get_setSlot (lt_length_ensureSlot _ _), offset_ensureSlot, get_ensureSlot, get_reach,
    show (w.reach key).offset + (key - (w.reach key).offset) = key by omega]

theorem get_eq_none_of_length_le {w : Window α} {key : ℕ} (h : w.inner.length ≤ key - w.offset) :
    w.get key = none := by
  rw [get]
  split
  · rfl
  · rw [List.getElem?_eq_none h]
    rfl

/-- Removing returns what was there, and nothing if nothing was. -/
theorem remove_fst (w : Window α) (key : ℕ) : (w.remove key).1 = w.get key := by
  rw [remove]
  split
  · rename_i h
    exact (get_of_lt h).symm
  · split
    · rename_i h
      exact (get_eq_none_of_length_le h).symm
    · rfl

/-- **Read after removal.** The key that was removed has no entry, every other key what it had. -/
theorem get_remove (w : Window α) (key k : ℕ) :
    (w.remove key).2.get k = if k = key then none else w.get k := by
  rw [remove]
  split
  · rename_i h
    split
    · rename_i hk
      rw [hk, get_of_lt h]
    · rfl
  · split
    · rename_i h
      split
      · rename_i hk
        rw [hk, get_eq_none_of_length_le h]
      · rfl
    · rename_i hlt _
      rw [get_takeAt, show w.offset + (key - w.offset) = key by omega]

/-- Removing an absent key changes nothing, not even the representation. -/
theorem remove_of_get_none {w : Window α} {key : ℕ} (h : w.get key = none) :
    (w.remove key).2 = w := by
  rw [remove]
  split
  · rfl
  · rename_i hlt
    split
    · rfl
    · rename_i hlen
      have hslot := Nat.not_le.mp hlen
      rw [get_of_le (Nat.not_lt.mp hlt), List.getElem?_eq_getElem hslot, Option.join_some] at h
      rw [takeAt, ← h, List.set_getElem_self]

/-! ### Size -/

@[simp] theorem length_setSlot (w : Window α) (rel : ℕ) (v : α) :
    (w.setSlot rel v).inner.length = w.inner.length :=
  List.length_set

theorem length_ensureSlot (w : Window α) (rel : ℕ) :
    (w.ensureSlot rel).inner.length = max w.inner.length (rel + 1) := by
  rw [ensureSlot]
  split
  · rw [List.length_append, List.length_replicate]
    omega
  · omega

/-- The slots are from some key of `ks` to another one. -/
def Spans (w : Window α) (ks : List ℕ) : Prop :=
  w.inner ≠ [] → w.offset ∈ ks ∧ ∃ k ∈ ks, w.offset + w.inner.length = k + 1

theorem spans_empty : (empty : Window α).Spans [] := fun h => absurd rfl h

theorem Spans.mono {w : Window α} {ks ks' : List ℕ} (h : w.Spans ks) (hsub : ks ⊆ ks') :
    w.Spans ks' := by
  intro hne
  obtain ⟨hlo, k, hk, heq⟩ := h hne
  exact ⟨hsub hlo, k, hsub hk, heq⟩

/-- `Spans` depends on the offset and the number of slots only. -/
theorem Spans.congr {w w' : Window α} {ks : List ℕ} (h : w.Spans ks)
    (hoffset : w'.offset = w.offset) (hlen : w'.inner.length = w.inner.length) : w'.Spans ks := by
  intro hne
  have hne' : w.inner ≠ [] := by
    rw [← List.length_pos_iff, ← hlen]
    exact List.length_pos_iff.mpr hne
  rw [hoffset, hlen]
  exact h hne'

theorem inner_reach_ne_nil {w : Window α} (h : w.inner ≠ []) (key : ℕ) :
    (w.reach key).inner ≠ [] := by
  rw [reach]
  split
  · exact h
  · split
    · exact List.append_ne_nil_of_right_ne_nil _ h
    · exact h

/-- Making room extends the slots to the key and not beyond it. -/
theorem Spans.reach {w : Window α} {ks : List ℕ} (h : w.Spans ks) (key : ℕ) :
    (w.reach key).Spans (key :: ks) := by
  rw [Window.reach]
  split
  · rename_i hnil
    exact fun hne => absurd (List.eq_nil_of_length_eq_zero hnil) hne
  · rename_i hpos
    have hne : w.inner ≠ [] := fun hnil => hpos (congrArg List.length hnil)
    obtain ⟨hlo, k, hk, heq⟩ := h hne
    split
    · refine fun _ => ⟨List.mem_cons_self, k, List.mem_cons_of_mem _ hk, ?_⟩
      simp only [growFront, List.length_append, List.length_replicate]
      omega
    · exact fun _ => ⟨List.mem_cons_of_mem _ hlo, k, List.mem_cons_of_mem _ hk, heq⟩

theorem length_insert (w : Window α) (key : ℕ) (v : α) :
    (w.insert key v).inner.length =
      max (w.reach key).inner.length (key - (w.reach key).offset + 1) := by
  rw [insert, length_setSlot, length_ensureSlot]

theorem offset_insert (w : Window α) (key : ℕ) (v : α) :
    (w.insert key v).offset = (w.reach key).offset :=
  offset_ensureSlot _ _

/-- Writing makes room and fills one slot, so that it extends the slots no further. -/
theorem Spans.insert {w : Window α} {ks : List ℕ} (h : w.Spans ks) (key : ℕ) (v : α) :
    (w.insert key v).Spans (key :: ks) := by
  have hle := offset_reach_le w key
  intro _
  rw [length_insert, offset_insert]
  by_cases hnil : w.inner = []
  · -- the first key is the offset
    have hreach : w.reach key = { w with offset := key } := if_pos (congrArg List.length hnil)
    rw [hreach]
    refine ⟨List.mem_cons_self, key, List.mem_cons_self, ?_⟩
    show key + max w.inner.length (key - key + 1) = key + 1
    rw [hnil, Nat.sub_self, List.length_nil]
    rfl
  · obtain ⟨hlo, k, hk, heq⟩ := h.reach key (inner_reach_ne_nil hnil key)
    refine ⟨hlo, ?_⟩
    rcases Nat.le_total key k with hkey | hkey
    · exact ⟨k, hk, by omega⟩
    · exact ⟨key, List.mem_cons_self, by omega⟩

/-- Removing leaves the slots where they are: only the entry goes. -/
theorem Spans.remove {w : Window α} {ks : List ℕ} (h : w.Spans ks) (key : ℕ) :
    (w.remove key).2.Spans ks := by
  rw [Window.remove]
  split
  · exact h
  · split
    · exact h
    · exact h.congr rfl List.length_set

/-! ### Occupancy -/

/-- The number of filled slots, which is the number of keys that have an entry. -/
def occupancy (w : Window α) : ℕ := w.inner.countP Option.isSome

/-- Emptying a filled slot lowers the occupancy by one. -/
theorem occupancy_takeAt {w : Window α} {rel : ℕ} {v : α} (h : w.inner[rel]? = some (some v)) :
    (w.takeAt rel).occupancy + 1 = w.occupancy := by
  obtain ⟨hlt, hv⟩ := List.getElem?_eq_some_iff.mp h
  have hpos : 0 < w.inner.countP Option.isSome :=
    List.countP_pos_iff.mpr ⟨some v, hv ▸ List.getElem_mem hlt, rfl⟩
  rw [occupancy, takeAt, List.countP_set hlt, hv]
  simp only [Option.isSome_some, if_true, Option.isSome_none, Bool.false_eq_true, if_false,
    Nat.add_zero, occupancy]
  omega

/-- Removing a present key lowers the occupancy by one. -/
theorem occupancy_remove {w : Window α} {key : ℕ} {v : α} (h : w.get key = some v) :
    (w.remove key).2.occupancy + 1 = w.occupancy := by
  have hge : ¬ key < w.offset := fun hlt => by rw [get_of_lt hlt] at h; cases h
  have hlen : ¬ w.inner.length ≤ key - w.offset := fun hle => by
    rw [get_eq_none_of_length_le hle] at h; cases h
  rw [remove, if_neg hge, if_neg hlen]
  refine occupancy_takeAt (v := v) ?_
  rw [get, if_neg hge] at h
  exact Option.join_eq_some_iff.mp h

/-- Making room fills no slot, since the slots that are added are empty. -/
@[simp] theorem occupancy_reach (w : Window α) (key : ℕ) :
    (w.reach key).occupancy = w.occupancy := by
  rw [reach]
  split
  · rfl
  · split
    · simp [occupancy, growFront, List.countP_append, List.countP_replicate]
    · rfl

@[simp] theorem occupancy_ensureSlot (w : Window α) (rel : ℕ) :
    (w.ensureSlot rel).occupancy = w.occupancy := by
  rw [ensureSlot]
  split
  · simp [occupancy, List.countP_append, List.countP_replicate]
  · rfl

/-- Filling a slot raises the occupancy by one, unless it was filled. -/
theorem occupancy_setSlot {w : Window α} {rel : ℕ} (h : rel < w.inner.length) (v : α) :
    (w.setSlot rel v).occupancy =
      if ((w.inner[rel]?).join).isNone then w.occupancy + 1 else w.occupancy := by
  rw [occupancy, setSlot, List.countP_set h, List.getElem?_eq_getElem h, Option.join_some]
  cases hv : w.inner[rel] with
  | none => simp [occupancy]
  | some old =>
    have hpos : 0 < w.inner.countP Option.isSome :=
      List.countP_pos_iff.mpr ⟨some old, hv ▸ List.getElem_mem h, rfl⟩
    simp only [Option.isSome_some, if_true, Option.isNone_some, Bool.false_eq_true, if_false,
      occupancy]
    omega

/-- Writing raises it by one, unless the key was present. -/
theorem occupancy_insert (w : Window α) (key : ℕ) (v : α) :
    (w.insert key v).occupancy = if (w.get key).isNone then w.occupancy + 1 else w.occupancy := by
  rw [insert, occupancy_setSlot (lt_length_ensureSlot _ _), join_reach, occupancy_ensureSlot,
    occupancy_reach]

/-- Distinct present keys are no more than the filled slots. -/
theorem length_le_occupancy {keys : List ℕ} (hnodup : keys.Nodup) {w : Window α}
    (h : ∀ k ∈ keys, ∃ v, w.get k = some v) : keys.length ≤ w.occupancy := by
  induction keys generalizing w with
  | nil => exact Nat.zero_le _
  | cons k keys ih =>
    obtain ⟨hk, hnodup⟩ := List.nodup_cons.mp hnodup
    obtain ⟨v, hv⟩ := h k List.mem_cons_self
    have hrest : keys.length ≤ (w.remove k).2.occupancy := ih hnodup fun k' hmem => by
      rw [get_remove, if_neg (fun e : k' = k => hk (e ▸ hmem))]
      exact h k' (List.mem_cons_of_mem _ hmem)
    have hcount := occupancy_remove hv
    rw [List.length_cons]
    omega

/-- With no slot filled there is no entry. -/
theorem get_of_occupancy_eq_zero {w : Window α} (h : w.occupancy = 0) (k : ℕ) :
    w.get k = none := by
  cases hk : w.get k with
  | none => rfl
  | some v =>
    have hcount := occupancy_remove hk
    omega

end Window
