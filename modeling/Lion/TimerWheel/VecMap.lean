import Lion.Library.Window
import Mathlib.Data.FinEnum
import Mathlib.Data.List.Nodup
import Mathlib.Data.Set.Card

/-!
# The wheel's id-indexed map

`VecMap` of `lion-timer-wheel`: a window of optional slots over `u64` keys, together with a count of
the filled slots that makes `is_empty` constant time. The window itself is the library's; what is
particular to `VecMap` is where the count is touched, so `setSlot` and `takeAt` are written out here
with the count beside them.

## Conventions

Keys are `u64` in the source. They index the window by their value, and every subtraction of the
offset from a key is guarded by a comparison, so the arithmetic happens in `ℕ`. Memory has no bound
here and no access is checked: `FiniteMaps` has the functions once more with every check that the
program makes, and shows that on keys that are not too far apart the two are the same. Everything
about the wheel uses the functions of this module.

## Two meanings of the count

The source documents the count as that of the filled slots, which is what its functions maintain
(`CountWf`). Its users rely on something else, that `is_empty` says whether there is an entry; that
is the number of keys (`Counted`). The two agree because a key has one slot, and only the second can
be said of the map that a `VecMap` stands for.

## Main results

* `VecMap.get_insert`, `VecMap.get_remove` — a `VecMap` is a finite map
* `VecMap.remove_fst` — removal returns the entry
* `VecMap.CountWf.insert`, `VecMap.CountWf.remove` — the stored count is that of the entries
* `VecMap.Counted.insert`, `VecMap.Counted.remove` — and that of the keys
-/

namespace Lion

/-- `VecMap<V>`: optional slots from `offset` on, and the number of filled ones. -/
structure VecMap (V : Type*) extends Window V where
  count : ℕ
deriving DecidableEq, Repr

namespace VecMap

variable {V : Type*}

/-- `VecMap::new`: no slots, and nothing to count. -/
def new : VecMap V := ⟨Window.empty, 0⟩

/-- `VecMap::set_slot`: fill slot `rel`, counting it if it was empty. -/
def setSlot (m : VecMap V) (rel : ℕ) (value : V) : VecMap V where
  toWindow := m.toWindow.setSlot rel value
  count := if ((m.inner[rel]?).join).isNone then m.count + 1 else m.count

/-- `VecMap::take_at`: empty slot `rel`, discounting it if it was filled. -/
def takeAt (m : VecMap V) (rel : ℕ) : Option V × VecMap V :=
  let result := (m.inner[rel]?).join
  (result, ⟨m.toWindow.takeAt rel, if result.isSome then m.count - 1 else m.count⟩)

/-- `VecMap::insert`: make room for the key at whichever end it needs some, and fill its slot. -/
def insert (m : VecMap V) (key : UInt64) (value : V) : VecMap V :=
  let m := { m with toWindow := m.toWindow.reach key.toNat }
  let rel := key.toNat - m.offset
  let m := { m with toWindow := m.toWindow.ensureSlot rel }
  m.setSlot rel value

/-- `VecMap::get`: the entry under `key`, if its slot exists and is filled. -/
def get (m : VecMap V) (key : UInt64) : Option V := m.toWindow.get key.toNat

/-- `VecMap::remove`: empty the slot of `key`, if it exists, and return what was in it. -/
def remove (m : VecMap V) (key : UInt64) : Option V × VecMap V :=
  if key.toNat < m.offset then (none, m)
  else if m.inner.length ≤ key.toNat - m.offset then (none, m)
  else m.takeAt (key.toNat - m.offset)

/-- `VecMap::contains_key`: whether there is an entry under `key`. -/
def containsKey (m : VecMap V) (key : UInt64) : Bool := (m.get key).isSome

/-- `VecMap::is_empty`, decided by the stored count and not by looking at the slots. -/
def isEmpty (m : VecMap V) : Bool := m.count == 0

/-! ### `VecMap` is a finite map -/

@[simp] theorem get_new (k : UInt64) : (new : VecMap V).get k = none :=
  Window.get_empty _

theorem toWindow_insert (m : VecMap V) (key : UInt64) (v : V) :
    (m.insert key v).toWindow = m.toWindow.insert key.toNat v := rfl

theorem get_insert (m : VecMap V) (key : UInt64) (v : V) (k : UInt64) :
    (m.insert key v).get k = if k = key then some v else m.get k := by
  rw [get, toWindow_insert, Window.get_insert]
  simp only [UInt64.toNat_inj, get]

theorem toWindow_remove (m : VecMap V) (key : UInt64) :
    (m.remove key).2.toWindow = (m.toWindow.remove key.toNat).2 := by
  simp only [remove, Window.remove, takeAt]
  split
  · rfl
  · split <;> rfl

/-- Removal returns the entry that a lookup would have found. -/
theorem remove_fst (m : VecMap V) (key : UInt64) : (m.remove key).1 = m.get key := by
  rw [remove]
  split
  · rename_i h
    exact (Window.get_of_lt h).symm
  · split
    · rename_i h
      exact (Window.get_eq_none_of_length_le h).symm
    · rename_i h _
      exact (Window.get_of_le (Nat.not_lt.mp h)).symm

theorem get_remove (m : VecMap V) (key k : UInt64) :
    (m.remove key).2.get k = if k = key then none else m.get k := by
  rw [get, toWindow_remove, Window.get_remove]
  simp only [UInt64.toNat_inj, get]

theorem get_remove_of_ne {k key : UInt64} (h : k ≠ key) (m : VecMap V) :
    (m.remove key).2.get k = m.get k := by
  rw [get_remove, if_neg h]

/-- Removing a present key leaves strictly fewer filled slots: what loops that pop entries one
at a time terminate on. -/
theorem occupancy_remove {m : VecMap V} {key : UInt64} {v : V} (h : m.get key = some v) :
    (m.remove key).2.occupancy + 1 = m.occupancy := by
  rw [toWindow_remove]
  exact Window.occupancy_remove h

/-! ### The stored count -/

/-- The count goes up with a new key, and stays when an entry is overwritten. -/
theorem count_insert (m : VecMap V) (key : UInt64) (v : V) :
    (m.insert key v).count = if (m.get key).isNone then m.count + 1 else m.count := by
  rw [get, ← Window.join_reach]
  rfl

/-- It goes down when an entry is removed, and stays when there is none. -/
theorem count_remove (m : VecMap V) (key : UInt64) :
    (m.remove key).2.count = if (m.get key).isSome then m.count - 1 else m.count := by
  rw [remove, get]
  split
  · rename_i hlt
    rw [Window.get_of_lt hlt]
    rfl
  · split
    · rename_i hlen
      rw [Window.get_eq_none_of_length_le hlen]
      rfl
    · rename_i hlt _
      rw [Window.get_of_le (Nat.not_lt.mp hlt)]
      rfl

/-- `count_wf`: the stored count is that of the filled slots. -/
def CountWf (m : VecMap V) : Prop := m.count = m.occupancy

theorem countWf_new : (new : VecMap V).CountWf := rfl

theorem CountWf.insert {m : VecMap V} (h : m.CountWf) (key : UInt64) (v : V) :
    (m.insert key v).CountWf := by
  rw [CountWf, count_insert, toWindow_insert, Window.occupancy_insert, h]
  rfl

theorem CountWf.remove {m : VecMap V} (h : m.CountWf) (key : UInt64) :
    (m.remove key).2.CountWf := by
  rw [CountWf, count_remove, toWindow_remove]
  cases hget : m.get key with
  | none =>
    rw [Window.remove_of_get_none hget]
    exact h
  | some v =>
    have hocc := Window.occupancy_remove hget
    have hcount : m.count = m.occupancy := h
    show m.count - 1 = _
    omega

/-- `is_empty` says that there is no entry, if the count is that of the filled slots. -/
theorem CountWf.get_of_isEmpty {m : VecMap V} (h : m.CountWf) (hempty : m.isEmpty = true)
    (k : UInt64) : m.get k = none :=
  Window.get_of_occupancy_eq_zero (h.symm.trans (beq_iff_eq.mp hempty)) _

/-- Distinct keys with an entry are no more than the count. -/
theorem CountWf.length_le {m : VecMap V} (h : m.CountWf) {keys : List UInt64}
    (hnodup : keys.Nodup) (hkeys : ∀ k ∈ keys, ∃ v, m.get k = some v) : keys.length ≤ m.count := by
  have hinj : Function.Injective UInt64.toNat := fun _ _ heq => UInt64.toNat_inj.mp heq
  have hle := Window.length_le_occupancy (List.Nodup.map hinj hnodup) (w := m.toWindow) (by
    intro k hmem
    obtain ⟨key, hkey, rfl⟩ := List.mem_map.mp hmem
    exact hkeys key hkey)
  rw [List.length_map] at hle
  exact Nat.le_trans hle (Nat.le_of_eq h.symm)

/-- The keys with an entry, as a set. -/
def keys (m : VecMap V) : Set UInt64 := {k | m.get k ≠ none}

theorem keys_new : (new : VecMap V).keys = ∅ := by
  ext k
  simp [keys]

theorem keys_insert (m : VecMap V) (key : UInt64) (v : V) :
    (m.insert key v).keys = Insert.insert key m.keys := by
  ext k
  show (m.insert key v).get k ≠ none ↔ k = key ∨ m.get k ≠ none
  rw [get_insert]
  by_cases hk : k = key <;> simp [hk]

theorem keys_remove (m : VecMap V) (key : UInt64) : (m.remove key).2.keys = m.keys \ {key} := by
  ext k
  show (m.remove key).2.get k ≠ none ↔ m.get k ≠ none ∧ k ≠ key
  rw [get_remove]
  by_cases hk : k = key <;> simp [hk]

/-- The stored count is that of the keys with an entry. -/
def Counted (m : VecMap V) : Prop := m.count = m.keys.ncard

theorem counted_new : (new : VecMap V).Counted := by
  rw [Counted, keys_new, Set.ncard_empty]
  rfl

theorem Counted.insert {m : VecMap V} (h : m.Counted) (key : UInt64) (v : V) :
    (m.insert key v).Counted := by
  rw [Counted, count_insert, keys_insert, h]
  split
  · rename_i hnone
    have hnot : key ∉ m.keys := fun hkey => hkey (Option.isNone_iff_eq_none.mp hnone)
    exact (Set.ncard_insert_of_notMem hnot).symm
  · rename_i hsome
    have hkey : key ∈ m.keys := fun hnone => hsome (Option.isNone_iff_eq_none.mpr hnone)
    rw [Set.insert_eq_of_mem hkey]

theorem Counted.remove {m : VecMap V} (h : m.Counted) (key : UInt64) :
    (m.remove key).2.Counted := by
  rw [Counted, count_remove, keys_remove, h]
  split
  · rename_i hsome
    have hkey : key ∈ m.keys := Option.isSome_iff_ne_none.mp hsome
    exact (Set.ncard_sdiff_singleton_of_mem hkey).symm
  · rename_i hnone
    have hnot : key ∉ m.keys := fun hkey => hnone (Option.isSome_iff_ne_none.mpr hkey)
    rw [Set.sdiff_singleton_eq_self hnot]

/-- `is_empty` says whether there is a key, which is what its callers take it to say. -/
theorem Counted.isEmpty_iff {m : VecMap V} (h : m.Counted) :
    m.isEmpty = true ↔ ∀ k, m.get k = none := by
  rw [isEmpty, beq_iff_eq, h, Set.ncard_eq_zero, Set.eq_empty_iff_forall_notMem]
  exact forall_congr' fun k => not_not

@[simp] theorem containsKey_eq_true {m : VecMap V} {key : UInt64} :
    m.containsKey key = true ↔ ∃ v, m.get key = some v := by
  rw [containsKey, Option.isSome_iff_exists]

end VecMap

end Lion
