import Mathlib.Order.Bounds.Basic
import Mathlib.Tactic.Common

/-!
# The least of what a scan has seen

A scan for the least element of a set keeps what it has found so far, which is nothing at first.
`Least S o` says that `o` is the least element of `S`, or nothing if `S` is empty. `lower` is one
step of such a scan.

A scan may also stop early, once something smaller is known from elsewhere to exist. What it then
finds is only a `Candidate`, and `Least.merge` says when that is enough: the result of an early stop
may be merged into a minimum that holds the smaller thing already.

## Why not `sInf`

The least element of a set of machine integers is not its infimum in a complete lattice: for an
empty set a scan returns nothing, and not the greatest integer. Working with an optional element and
`IsLeast` keeps the two cases apart as the code does, and needs only a linear order with decidable
`<`, which fixed-width integers have. The order classes are those of the core library and not
Mathlib's, for the same reason.

## Main results

* `Least.lower`, `Least.scan` — one step, and a whole scan
* `Least.merge` — a candidate is merged
* `Least.unique` — two scans of one set find the same
-/

namespace Scan

variable {α ι : Type*} {B S T : Set α} {o c : Option α}

/-- `o` is the least element of `S`, and nothing if there is none, because `S` is empty. -/
def Least [LE α] (S : Set α) (o : Option α) : Prop :=
  (∀ d, o = some d → IsLeast S d) ∧ (o = none → S = ∅)

/-- `c` is the least element of `S`. If it is nothing, then `B` has something before each element
of `S`. -/
structure Candidate [LE α] [LT α] (B S : Set α) (c : Option α) : Prop where
  isLeast : ∀ d, c = some d → IsLeast S d
  beaten : c = none → ∀ d ∈ S, ∃ b ∈ B, b < d

/-- The lesser of what was found and `d`. On a tie what was found stays. -/
def lower [LT α] [DecidableLT α] (o : Option α) (d : α) : Option α :=
  match o with
  | none => some d
  | some b => if d < b then some d else some b

/-- The lesser of what was found and what there is to add, either of which may be nothing. -/
def merge [LT α] [DecidableLT α] (o c : Option α) : Option α :=
  match c with
  | some d => lower o d
  | none => o

/-- Scanning a list of things, some of which have a value, from the left. Those without one are
skipped. -/
def scan [LT α] [DecidableLT α] (f : ι → Option α) (o : Option α) (l : List ι) : Option α :=
  l.foldl (fun o i => merge o (f i)) o

/-- The values of the things in a list, as the set that a scan of the list sees. -/
def values (f : ι → Option α) (l : List ι) : Set α := {d | ∃ i ∈ l, f i = some d}

@[simp] theorem mem_values {f : ι → Option α} {l : List ι} {d : α} :
    d ∈ values f l ↔ ∃ i ∈ l, f i = some d :=
  Iff.rfl

theorem values_cons (f : ι → Option α) (i : ι) (l : List ι) :
    values f (i :: l) = {d | f i = some d} ∪ values f l := by
  ext d
  simp

section Found

variable [LE α]

theorem least_empty : Least (∅ : Set α) none :=
  ⟨fun _ h => (Option.some_ne_none _ h.symm).elim, fun _ => rfl⟩

theorem Least.isLeast {d : α} (h : Least S o) (heq : o = some d) : IsLeast S d := h.1 d heq

theorem Least.eq_empty (h : Least S none) : S = ∅ := h.2 rfl

theorem Least.eq_none_iff (h : Least S o) : o = none ↔ S = ∅ := by
  refine ⟨h.2, fun hS => ?_⟩
  cases o with
  | none => rfl
  | some b =>
    have hb := h.isLeast rfl
    rw [hS] at hb
    exact hb.1.elim

/-- A set has one least element, so that finding one is finding the result. -/
theorem Least.eq_some_iff [Std.IsLinearOrder α] (h : Least S o) {d : α} :
    o = some d ↔ IsLeast S d := by
  refine ⟨h.1 d, fun hd => ?_⟩
  cases o with
  | none =>
    rw [h.eq_empty] at hd
    exact hd.1.elim
  | some b =>
    have hb := h.isLeast rfl
    exact congrArg some (Std.le_antisymm (hb.2 hd.1) (hd.2 hb.1))

/-- Two scans of one set find the same, in whatever order they have gone through it. -/
theorem Least.unique [Std.IsLinearOrder α] (h : Least S o) (h' : Least S c) : o = c := by
  cases o with
  | none => exact (h'.eq_none_iff.mpr h.eq_empty).symm
  | some b => exact (h'.eq_some_iff.mpr (h.isLeast rfl)).symm

theorem Least.candidate [LT α] (h : Least S o) (B : Set α) : Candidate B S o where
  isLeast := h.1
  beaten hnone d hd := by
    rw [h.2 hnone] at hd
    exact hd.elim

theorem Candidate.mono [LT α] {B' : Set α} (h : Candidate B S c) (hB : B ⊆ B') :
    Candidate B' S c where
  isLeast := h.isLeast
  beaten hnone d hd := by
    obtain ⟨b, hb, hlt⟩ := h.beaten hnone d hd
    exact ⟨b, hB hb, hlt⟩

/-- A candidate that cannot have been beaten, because there is nothing else, is the least. -/
theorem Candidate.least [LT α] (h : Candidate ∅ S c) : Least S c := by
  refine ⟨h.isLeast, fun hnone => Set.eq_empty_iff_forall_notMem.mpr fun d hd => ?_⟩
  obtain ⟨b, hb, -⟩ := h.beaten hnone d hd
  exact hb

end Found

variable [LE α] [LT α] [Std.IsLinearOrder α] [Std.LawfulOrderLT α] [DecidableLT α]

/-- **One step** of a scan. What was found is compared with one more element. -/
theorem Least.lower (h : Least S o) (d : α) : Least (S ∪ {d}) (Scan.lower o d) := by
  cases o with
  | none =>
    rw [h.eq_empty, Set.empty_union]
    refine ⟨fun b hb => ?_, fun hnone => by cases hnone⟩
    cases hb
    exact ⟨rfl, fun b hb => Std.le_of_eq (Set.mem_singleton_iff.mp hb).symm⟩
  | some b =>
    obtain ⟨hmem, hle⟩ := h.isLeast rfl
    rw [Scan.lower]
    split
    · rename_i hlt
      refine ⟨fun b' hb' => ?_, fun hnone => by cases hnone⟩
      cases hb'
      refine ⟨.inr rfl, ?_⟩
      rintro x (hx | rfl)
      · exact Std.le_trans (Std.le_of_lt hlt) (hle hx)
      · exact Std.le_refl _
    · rename_i hge
      refine ⟨fun b' hb' => ?_, fun hnone => by cases hnone⟩
      cases hb'
      refine ⟨.inl hmem, ?_⟩
      rintro x (hx | rfl)
      · exact hle hx
      · exact Std.not_lt.mp hge

/-- **A whole scan.** What was found before it is compared with every value in the list. -/
theorem Least.scan (h : Least S o) (f : ι → Option α) (l : List ι) :
    Least (S ∪ values f l) (Scan.scan f o l) := by
  induction l generalizing S o with
  | nil =>
    have hnil : values f [] = ∅ := by
      ext d
      simp
    rw [hnil, Set.union_empty]
    exact h
  | cons i l ih =>
    rw [values_cons, ← Set.union_assoc, Scan.scan, List.foldl_cons]
    cases hi : f i with
    | none =>
      have hnone : {d : α | none = some d} = ∅ := by
        ext d
        simp
      rw [hnone, Set.union_empty]
      exact ih h
    | some d =>
      have hsome : {d' : α | some d = some d'} = {d} := by
        ext d'
        simp [eq_comm]
      rw [hsome]
      exact ih (h.lower d)

/-- **Merging a candidate.** What was passed over for something that the scan has seen is not the
least. -/
theorem Least.merge (h : Least S o) (hc : Candidate S T c) : Least (S ∪ T) (Scan.merge o c) := by
  cases c with
  | none =>
    have hbeaten := hc.beaten rfl
    refine ⟨fun d hd => ?_, fun hnone => ?_⟩
    · obtain ⟨hmem, hle⟩ := h.isLeast hd
      refine ⟨.inl hmem, ?_⟩
      rintro x (hx | hx)
      · exact hle hx
      · obtain ⟨b, hb, hlt⟩ := hbeaten x hx
        exact Std.le_trans (hle hb) (Std.le_of_lt hlt)
    · have hempty := h.2 hnone
      refine Set.eq_empty_iff_forall_notMem.mpr ?_
      rintro x (hx | hx)
      · rw [hempty] at hx
        exact hx
      · obtain ⟨b, hb, -⟩ := hbeaten x hx
        rw [hempty] at hb
        exact hb
  | some d =>
    obtain ⟨hmem, hle⟩ := hc.isLeast d rfl
    obtain ⟨hsome, hnone⟩ := h.lower d
    refine ⟨fun b hb => ?_, fun hb => ?_⟩
    · obtain ⟨hbmem, hble⟩ := hsome b hb
      refine ⟨hbmem.imp id fun heq => ?_, ?_⟩
      · rw [Set.mem_singleton_iff.mp heq]
        exact hmem
      · rintro x (hx | hx)
        · exact hble (.inl hx)
        · exact Std.le_trans (hble (.inr rfl)) (hle hx)
    · have hempty := hnone hb
      exact absurd (show d ∈ S ∪ {d} from .inr rfl) (by rw [hempty]; exact id)

end Scan
