import Lion.Time.RealTime

/-!
# Instants and durations

The arithmetic of `types/time.rs`. An `Instant` and a `Duration` are milliseconds in a machine word,
and all that is done to them is meant to saturate: `from_secs` does, and so do the operators that
add a `Duration` to an `Instant` or take it off. A duration of the standard library has more
milliseconds than a word holds from about `u64::MAX / 1000` seconds on. They are cut off to a word
before anything saturates, by each of `from_std`, `From`, `+`, `-` and `+=`, so that a duration that
is meant to be forever can be next to nothing.

## What is asked of the arithmetic

A conversion should clamp, agree with `from_secs` on whole seconds, and not go down as durations get
longer (`Saturating`). An operator should move an instant in its direction and the further the
longer the duration (`Forward`, `Backward`). For the operators on `Duration` this is always so. For
everything that takes a duration of the standard library it is a condition on the durations
(`StdDuration.Fits`): the milliseconds of each fit into a word, or their last 64 bits happen to be
all ones.

## Conventions

A statement about all durations of the standard library is made about those of a set, so that it can
be said of which of them it is true.

## Main results

* `timeArithmetic_iff` — of which durations the arithmetic is right
* `not_timeArithmetic` — not of all
-/

namespace Lion

/-! ### Conversions and operators -/

namespace StdDuration

/-- Durations are compared by their seconds, and then by their nanoseconds. -/
instance : LE StdDuration where
  le d e := d.secs < e.secs ∨ d.secs = e.secs ∧ d.nanos ≤ e.nanos

/-- `std::time::Duration::from_secs`: that many seconds and no nanoseconds. -/
def fromSecs (secs : UInt64) : StdDuration := ⟨secs, 0, by decide⟩

/-- `std::time::Duration::from_millis`: the seconds, and what is left over. -/
def fromMillis (millis : UInt64) : StdDuration :=
  ⟨millis / 1000, millis.toNat % 1000 * 1000000, by omega⟩

/-- `From<std::time::Duration>`: the milliseconds, cut off to a word. -/
def into (d : StdDuration) : UInt64 := .ofNat d.asMillis

end StdDuration

/-- `Duration::from_secs`: the milliseconds, clamped at the end of a word. -/
def Duration.fromSecs (secs : UInt64) : UInt64 :=
  if 0xFFFFFFFFFFFFFFFF / 1000 < secs then 0xFFFFFFFFFFFFFFFF else secs * 1000

/-- `From<Duration> for std::time::Duration`, which loses nothing. -/
def Duration.toStd (duration : UInt64) : StdDuration := .fromMillis duration

namespace Instant

/-- `Instant::sub`, which is saturating: before the first instant there is none. -/
def sub (instant duration : UInt64) : UInt64 :=
  if instant < duration then 0 else instant - duration

/-- `Instant::add` of a duration of the standard library. -/
def addStd (instant : UInt64) (d : StdDuration) : UInt64 := add instant (.ofNat d.asMillis)

/-- `Instant::sub` of a duration of the standard library. -/
def subStd (instant : UInt64) (d : StdDuration) : UInt64 := sub instant (.ofNat d.asMillis)

/-- `Instant::add_assign` of a duration of the standard library. -/
def addAssignStd (instant : UInt64) (d : StdDuration) : UInt64 := add instant (.ofNat d.asMillis)

end Instant

/-! ### What the arithmetic should be -/

section

variable {α : Type*} [LE α]

/-- A function does not go down on a set. -/
def Rises (f : α → UInt64) (D : Set α) : Prop := ∀ d ∈ D, ∀ e ∈ D, d ≤ e → f d ≤ f e

/-- A function does not go up on a set. -/
def Falls (f : α → UInt64) (D : Set α) : Prop := ∀ d ∈ D, ∀ e ∈ D, d ≤ e → f e ≤ f d

/-- The later, the longer the duration, and never before the instant. -/
def Forward (op : UInt64 → α → UInt64) (D : Set α) : Prop :=
  ∀ instant, Rises (op instant) D ∧ ∀ d ∈ D, instant ≤ op instant d

/-- The earlier, the longer the duration, and never after the instant. -/
def Backward (op : UInt64 → α → UInt64) (D : Set α) : Prop :=
  ∀ instant, Falls (op instant) D ∧ ∀ d ∈ D, op instant d ≤ instant

end

/-- A conversion clamps at the end of a word, as `from_secs` does. -/
structure Saturating (convert : StdDuration → UInt64) (D : Set StdDuration) : Prop where
  /-- It is the whole milliseconds if they are a word, and else the greatest word. -/
  clamps : ∀ d ∈ D, (convert d).toNat = min d.asMillis (2 ^ 64 - 1)
  /-- It agrees with `from_secs` on durations of whole seconds. -/
  fromSecs : ∀ secs, StdDuration.fromSecs secs ∈ D →
    convert (StdDuration.fromSecs secs) = Duration.fromSecs secs
  /-- It does not go down. -/
  rises : Rises convert D

/-- The arithmetic is right, as far as these durations of the standard library go. -/
structure TimeArithmetic (D : Set StdDuration) : Prop where
  fromStd : Saturating Duration.fromStd D
  into : Saturating StdDuration.into D
  add : Forward Instant.add Set.univ
  sub : Backward Instant.sub Set.univ
  addStd : Forward Instant.addStd D
  subStd : Backward Instant.subStd D
  addAssignStd : Forward Instant.addAssignStd D

/-- The milliseconds of a duration are a word, or their last 64 bits are all ones. -/
def StdDuration.Fits (d : StdDuration) : Prop :=
  d.asMillis < 2 ^ 64 ∨ d.asMillis % 2 ^ 64 = 2 ^ 64 - 1

/-! ### Conversions -/

namespace StdDuration

variable {d e : StdDuration}

/-- A longer duration has no fewer milliseconds, as long as they are not cut off. -/
theorem asMillis_mono (h : d ≤ e) : d.asMillis ≤ e.asMillis := by
  have hd := d.nanos_lt
  rw [asMillis, asMillis]
  rcases h with hlt | ⟨heq, hle⟩
  · rw [UInt64.lt_iff_toNat_lt] at hlt
    omega
  · rw [heq]
    exact Nat.add_le_add_left (Nat.div_le_div_right hle) _

theorem asMillis_fromSecs (secs : UInt64) : (fromSecs secs).asMillis = secs.toNat * 1000 := by
  show secs.toNat * 1000 + 0 / 1000000 = _
  rw [Nat.zero_div, Nat.add_zero]

/-- Milliseconds are cut off to a word, and keep what is left of them modulo `2 ^ 64`. -/
theorem toNat_into (d : StdDuration) : d.into.toNat = d.asMillis % 2 ^ 64 := UInt64.toNat_ofNat'

/-- Cutting off saturates just for the durations that fit. -/
theorem toNat_into_iff (d : StdDuration) : d.into.toNat = min d.asMillis (2 ^ 64 - 1) ↔ d.Fits := by
  rw [toNat_into, Fits]
  omega

end StdDuration

/-- `from_secs` saturates, and is what the other conversions are held against. -/
theorem Duration.toNat_fromSecs (secs : UInt64) :
    (fromSecs secs).toNat = min (secs.toNat * 1000) (2 ^ 64 - 1) := by
  have hmax : (0xFFFFFFFFFFFFFFFF / 1000 : UInt64).toNat = (2 ^ 64 - 1) / 1000 := rfl
  rw [fromSecs]
  split
  · rename_i hlt
    rw [UInt64.lt_iff_toNat_lt, hmax] at hlt
    show 2 ^ 64 - 1 = _
    omega
  · rename_i hnot
    rw [UInt64.lt_iff_toNat_lt, hmax] at hnot
    show secs.toNat * 1000 % 2 ^ 64 = _
    omega

/-- A duration of milliseconds in a word is had back. -/
theorem Duration.fromStd_toStd (duration : UInt64) : fromStd (toStd duration) = duration := by
  have hmillis : (toStd duration).asMillis = duration.toNat := by
    show (duration / 1000).toNat * 1000 + duration.toNat % 1000 * 1000000 / 1000000 = _
    rw [UInt64.toNat_div, Nat.mul_div_cancel _ (by decide)]
    exact Nat.div_add_mod' duration.toNat 1000
  rw [fromStd, hmillis, UInt64.ofNat_toNat]

/-! ### Operators -/

namespace Instant

theorem toNat_sub (instant duration : UInt64) :
    (sub instant duration).toNat = instant.toNat - duration.toNat := by
  rw [sub]
  split
  · rename_i hlt
    rw [UInt64.lt_iff_toNat_lt] at hlt
    exact (Nat.sub_eq_zero_of_le hlt.le).symm
  · rename_i hnot
    exact UInt64.toNat_sub_of_le _ _ (UInt64.not_lt.mp hnot)

theorem forward_add (D : Set UInt64) : Forward add D := by
  intro instant
  constructor
  · intro d _ e _ hle
    rw [UInt64.le_iff_toNat_le] at hle ⊢
    rw [toNat_add, toNat_add]
    omega
  · intro d _
    have hlt := instant.toNat_lt
    rw [UInt64.le_iff_toNat_le, toNat_add]
    omega

theorem backward_sub (D : Set UInt64) : Backward sub D := by
  intro instant
  constructor
  · intro d _ e _ hle
    rw [UInt64.le_iff_toNat_le] at hle ⊢
    rw [toNat_sub, toNat_sub]
    exact Nat.sub_le_sub_left hle _
  · intro d _
    rw [UInt64.le_iff_toNat_le, toNat_sub]
    exact Nat.sub_le _ _

end Instant

/-- An operator goes forward with durations that are converted, if the conversion rises. -/
theorem Forward.comp {α β : Type*} [LE α] [LE β] {op : UInt64 → β → UInt64} {E : Set β}
    (h : Forward op E) {convert : α → β} {D : Set α} (hmaps : Set.MapsTo convert D E)
    (hrises : ∀ d ∈ D, ∀ e ∈ D, d ≤ e → convert d ≤ convert e) :
    Forward (fun instant d => op instant (convert d)) D := by
  intro instant
  refine ⟨fun d hd e he hle => ?_, fun d hd => (h instant).2 _ (hmaps hd)⟩
  exact (h instant).1 _ (hmaps hd) _ (hmaps he) (hrises d hd e he hle)

/-- An operator goes backward with durations that are converted, if the conversion rises. -/
theorem Backward.comp {α β : Type*} [LE α] [LE β] {op : UInt64 → β → UInt64} {E : Set β}
    (h : Backward op E) {convert : α → β} {D : Set α} (hmaps : Set.MapsTo convert D E)
    (hrises : ∀ d ∈ D, ∀ e ∈ D, d ≤ e → convert d ≤ convert e) :
    Backward (fun instant d => op instant (convert d)) D := by
  intro instant
  refine ⟨fun d hd e he hle => ?_, fun d hd => (h instant).2 _ (hmaps hd)⟩
  exact (h instant).1 _ (hmaps hd) _ (hmaps he) (hrises d hd e he hle)

/-! ### Of which durations it is right -/

/-- The conversion saturates on durations that fit, of which nothing is cut off that matters. -/
theorem saturating_into {D : Set StdDuration} (h : ∀ d ∈ D, d.Fits) :
    Saturating StdDuration.into D := by
  have hclamps : ∀ d ∈ D, d.into.toNat = min d.asMillis (2 ^ 64 - 1) :=
    fun d hd => d.toNat_into_iff.mpr (h d hd)
  refine ⟨hclamps, fun secs hsecs => ?_, fun d hd e he hle => ?_⟩
  · rw [← UInt64.toNat_inj, hclamps _ hsecs, Duration.toNat_fromSecs,
      StdDuration.asMillis_fromSecs]
  · rw [UInt64.le_iff_toNat_le, hclamps d hd, hclamps e he]
    exact min_le_min_right _ (StdDuration.asMillis_mono hle)

/-- **Which durations saturate.** The arithmetic is right as far as a set of durations goes, if and
only if the milliseconds of each of them are a word, or their last 64 bits are all ones. -/
theorem timeArithmetic_iff (D : Set StdDuration) : TimeArithmetic D ↔ ∀ d ∈ D, d.Fits := by
  constructor
  · intro h d hd
    exact d.toNat_into_iff.mp (h.into.clamps d hd)
  · intro h
    have hsat := saturating_into h
    have hforward : Forward Instant.addStd D :=
      (Instant.forward_add Set.univ).comp (Set.mapsTo_univ _ _) hsat.rises
    have hbackward : Backward Instant.subStd D :=
      (Instant.backward_sub Set.univ).comp (Set.mapsTo_univ _ _) hsat.rises
    exact ⟨hsat, hsat, Instant.forward_add _, Instant.backward_sub _, hforward, hbackward,
      hforward⟩

/-- The least number of seconds with more milliseconds than a word holds is converted to 384
milliseconds. -/
theorem not_timeArithmetic : ¬ TimeArithmetic Set.univ := by
  intro h
  have hclamps := h.into.clamps (.fromSecs 18446744073709552) (Set.mem_univ _)
  have h384 : (StdDuration.fromSecs 18446744073709552).into = 384 := by decide
  rw [h384] at hclamps
  exact absurd hclamps (by decide)

end Lion
