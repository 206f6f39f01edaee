import Mathlib.Data.UInt
import Mathlib.Tactic.Common

/-!
# Readiness flags

`readiness` of `lion-reactor`: a thread-local vector of bytes indexed by resource id, bit 0 for
readable and bit 1 for writable. Bits are set when a resource is created and by the events the
reactor collects, and cleared by the I/O futures. Ids beyond the vector have no flags: marking or
clearing them does nothing, and they are never ready.

A flag that is set does not promise that there is anything to read or write; it says that trying is
worth it. A flag that is unset does promise that nothing has been reported since it was cleared, and
a future that finds it so may wait. So it is the clearing that has to be justified, and the lemmas
here say of every update exactly which flags it changes.

## Conventions

Marking and clearing are the same walk with a different update of the byte, `modifyAt`. The two bits
are tested through one function with a mask, `test`, so that what is said of one direction is said
of the other by the same lemma.

## Main results

* `isReadable_markReadable`, `isReadable_clearReadable` — a mark sets its bit, a clear unsets it
* `isReadable_markWritable`, `isWritable_markReadable` — the two bits are independent
* `isReadable_initReadiness` — a new resource is ready in both directions
-/

namespace Lion

/-- `IO_READINESS`: the flags of every resource id so far. -/
abbrev Readiness := List UInt8

namespace Readiness

/-- `READABLE`: the mask of bit 0. -/
def readable : UInt8 := 0x01

/-- `WRITABLE`: the mask of bit 1. -/
def writable : UInt8 := 0x02

/-- Update the byte of `rid`, if it has one. Ids beyond the vector are left without. -/
def modifyAt (v : Readiness) (rid : UInt64) (f : UInt8 → UInt8) : Readiness :=
  List.modify v rid.toNat f

/-- `init_readiness`: a new resource starts out ready in both directions. -/
def initReadiness (v : Readiness) (rid : UInt64) : Readiness :=
  let v := if v.length ≤ rid.toNat then v ++ List.replicate (rid.toNat + 1 - v.length) 0 else v
  v.set rid.toNat (readable ||| writable)

/-- `mark_readable`: set bit 0 of a resource that has a byte. -/
def markReadable (v : Readiness) (rid : UInt64) : Readiness := modifyAt v rid (· ||| readable)

/-- `mark_writable`: set bit 1 of a resource that has a byte. -/
def markWritable (v : Readiness) (rid : UInt64) : Readiness := modifyAt v rid (· ||| writable)

/-- `clear_readable`: unset bit 0 of a resource that has a byte. -/
def clearReadable (v : Readiness) (rid : UInt64) : Readiness := modifyAt v rid (· &&& ~~~readable)

/-- `clear_writable`: unset bit 1 of a resource that has a byte. -/
def clearWritable (v : Readiness) (rid : UInt64) : Readiness := modifyAt v rid (· &&& ~~~writable)

/-- Whether the byte of `rid` has a bit of `mask`. -/
def test (v : Readiness) (rid : UInt64) (mask : UInt8) : Bool :=
  match v[rid.toNat]? with
  | some b => b &&& mask != 0
  | none => false

/-- `is_readable`: whether bit 0 is set. A resource without a byte is not readable. -/
def isReadable (v : Readiness) (rid : UInt64) : Bool := test v rid readable

/-- `is_writable`: whether bit 1 is set. A resource without a byte is not writable. -/
def isWritable (v : Readiness) (rid : UInt64) : Bool := test v rid writable

/-! ### Bits -/

/-- What the updates of a byte do to its two bits. -/
theorem test_bits (b : UInt8) :
    ((b ||| readable) &&& readable != 0) = true ∧
      ((b ||| readable) &&& writable != 0) = (b &&& writable != 0) ∧
      ((b ||| writable) &&& readable != 0) = (b &&& readable != 0) ∧
      ((b ||| writable) &&& writable != 0) = true ∧
      ((b &&& ~~~readable) &&& readable != 0) = false ∧
      ((b &&& ~~~readable) &&& writable != 0) = (b &&& writable != 0) ∧
      ((b &&& ~~~writable) &&& readable != 0) = (b &&& readable != 0) ∧
      ((b &&& ~~~writable) &&& writable != 0) = false := by
  obtain ⟨b⟩ := b
  revert b
  decide +kernel

theorem test_modifyAt (v : Readiness) (rid k : UInt64) (f : UInt8 → UInt8) (mask : UInt8) :
    test (modifyAt v rid f) k mask =
      if k = rid then ((v[k.toNat]?).map fun b => f b &&& mask != 0).getD false
      else test v k mask := by
  rw [test, modifyAt, List.getElem?_modify]
  by_cases h : k = rid
  · subst h
    rw [if_pos rfl]
    cases v[k.toNat]? <;> simp
  · have hne : rid.toNat ≠ k.toNat := fun e => h (UInt64.toNat_inj.mp e.symm)
    rw [if_neg h]
    simp [test, hne]

theorem test_eq (v : Readiness) (k : UInt64) (mask : UInt8) :
    test v k mask = ((v[k.toNat]?).map fun b => b &&& mask != 0).getD false := by
  rw [test]
  cases v[k.toNat]? <;> rfl

/-- Marking a known resource makes it ready in a direction, and changes no other flag. -/
theorem test_modifyAt_of_set {v : Readiness} {f : UInt8 → UInt8} {mask : UInt8}
    (h : ∀ b, (f b &&& mask != 0) = true) (rid k : UInt64) :
    test (modifyAt v rid f) k mask =
      if k = rid then decide (k.toNat < v.length) else test v k mask := by
  rw [test_modifyAt]
  split
  · simp only [h]
    cases hk : v[k.toNat]? with
    | none => simpa using hk
    | some b => simpa using (List.getElem?_eq_some_iff.mp hk).1
  · rfl

theorem test_modifyAt_of_unset {v : Readiness} {f : UInt8 → UInt8} {mask : UInt8}
    (h : ∀ b, (f b &&& mask != 0) = false) (rid k : UInt64) :
    test (modifyAt v rid f) k mask = if k = rid then false else test v k mask := by
  rw [test_modifyAt]
  split
  · simp only [h]
    cases v[k.toNat]? <;> rfl
  · rfl

theorem test_modifyAt_of_keep {v : Readiness} {f : UInt8 → UInt8} {mask : UInt8}
    (h : ∀ b, (f b &&& mask != 0) = (b &&& mask != 0)) (rid k : UInt64) :
    test (modifyAt v rid f) k mask = test v k mask := by
  rw [test_modifyAt]
  split
  · rw [test_eq]
    simp only [h]
  · rfl

theorem isReadable_markReadable (v : Readiness) (rid k : UInt64) :
    isReadable (markReadable v rid) k =
      if k = rid then decide (k.toNat < v.length) else isReadable v k :=
  test_modifyAt_of_set (fun b => (test_bits b).1) rid k

theorem isReadable_markWritable (v : Readiness) (rid k : UInt64) :
    isReadable (markWritable v rid) k = isReadable v k :=
  test_modifyAt_of_keep (fun b => (test_bits b).2.2.1) rid k

theorem isReadable_clearReadable (v : Readiness) (rid k : UInt64) :
    isReadable (clearReadable v rid) k = if k = rid then false else isReadable v k :=
  test_modifyAt_of_unset (fun b => (test_bits b).2.2.2.2.1) rid k

theorem isWritable_markReadable (v : Readiness) (rid k : UInt64) :
    isWritable (markReadable v rid) k = isWritable v k :=
  test_modifyAt_of_keep (fun b => (test_bits b).2.1) rid k

theorem isWritable_markWritable (v : Readiness) (rid k : UInt64) :
    isWritable (markWritable v rid) k =
      if k = rid then decide (k.toNat < v.length) else isWritable v k :=
  test_modifyAt_of_set (fun b => (test_bits b).2.2.2.1) rid k

theorem isWritable_clearReadable (v : Readiness) (rid k : UInt64) :
    isWritable (clearReadable v rid) k = isWritable v k :=
  test_modifyAt_of_keep (fun b => (test_bits b).2.2.2.2.2.1) rid k

theorem isReadable_clearWritable (v : Readiness) (rid k : UInt64) :
    isReadable (clearWritable v rid) k = isReadable v k :=
  test_modifyAt_of_keep (fun b => (test_bits b).2.2.2.2.2.2.1) rid k

theorem isWritable_clearWritable (v : Readiness) (rid k : UInt64) :
    isWritable (clearWritable v rid) k = if k = rid then false else isWritable v k :=
  test_modifyAt_of_unset (fun b => (test_bits b).2.2.2.2.2.2.2) rid k

@[simp] theorem length_modifyAt (v : Readiness) (rid : UInt64) (f : UInt8 → UInt8) :
    (modifyAt v rid f).length = v.length :=
  List.length_modify _ _ _

theorem lt_length_initReadiness (v : Readiness) (rid : UInt64) :
    rid.toNat < (initReadiness v rid).length := by
  rw [initReadiness, List.length_set]
  split
  · rw [List.length_append, List.length_replicate]
    omega
  · omega

/-- The flags of a new resource are set, and the others stay as they are. -/
theorem test_initReadiness (v : Readiness) (rid k : UInt64) (mask : UInt8) :
    test (initReadiness v rid) k mask =
      if k = rid then (readable ||| writable) &&& mask != 0 else test v k mask := by
  have hlength := lt_length_initReadiness v rid
  rw [initReadiness, List.length_set] at hlength
  by_cases hk : k = rid
  · rw [if_pos hk, hk, test, initReadiness, List.getElem?_set_self hlength]
  · have hne : rid.toNat ≠ k.toNat := fun e => hk (UInt64.toNat_inj.mp e.symm)
    rw [if_neg hk, test_eq, test_eq, initReadiness, List.getElem?_set_ne hne]
    split
    · rcases lt_or_ge k.toNat v.length with hlt | hge
      · rw [List.getElem?_append_left hlt]
      · rw [List.getElem?_eq_none hge, List.getElem?_append_right hge, List.getElem?_replicate]
        split <;> simp
    · rfl

/-- A new resource has a byte, and is readable. -/
theorem isReadable_initReadiness (v : Readiness) (rid : UInt64) :
    rid.toNat < (initReadiness v rid).length ∧ isReadable (initReadiness v rid) rid = true := by
  refine ⟨lt_length_initReadiness v rid, ?_⟩
  rw [isReadable, test_initReadiness, if_pos rfl]
  decide

/-- What is ready has a byte, since a flag cannot be set where there is none. -/
theorem lt_length_of_test {v : Readiness} {k : UInt64} {mask : UInt8} (h : test v k mask = true) :
    k.toNat < v.length := by
  by_contra hge
  rw [test, List.getElem?_eq_none (not_lt.mp hge)] at h
  cases h

end Readiness

end Lion
