import Lion.Slab

/-!
# The reactor's resource slab

`ResourceSlab` of `lion-reactor`: a slab whose slots hold either a timer with its waker, or an I/O
resource with a waker for each direction.

The setters of I/O wakers take the slot out, rebuild it and put it back. Taking out an absent slot
is an `unwrap` of nothing, and rebuilding a timer slot is `unreachable!`; both end the program, and
both are `none` here. Everything else is total: reading a waker of an absent slot finds none, and
removing an absent slot removes nothing.

## Conventions

Functions have their names in the source without the prefix `v_`, which marks the verified ones
there; `p_remove` is the one of the trusted functions that two of them share. What a later proof
needs of each operation is a lemma about `Slab.get` after it, with all other keys in the same
statement.

## Main results

* `ResourceSlab.get_insertTimerSlot`, `ResourceSlab.get_removeTimerSlot` — slots come and go
* `ResourceSlab.setReadWaker_eq_some`, `ResourceSlab.setWriteWaker_eq_some` — the setters
-/

namespace Lion

/-- `TimerEntry`, without its ghost log index: what the slab knows about a timer. -/
structure TimerEntry where
  deadline : UInt64
  resourceId : UInt64
deriving DecidableEq, Repr

/-- `ResourceSlot`, over the type of wakers: what may be behind an id. -/
inductive ResourceSlot (W : Type*)
  /-- A timer and the waker to call when it is due. -/
  | timer (entry : TimerEntry) (waker : W)
  /-- An I/O resource and the wakers to call when it is readable or writable. -/
  | io (readWaker writeWaker : Option W)
deriving DecidableEq, Repr

/-- `ResourceSlab`: the resources that are registered, by id. -/
abbrev ResourceSlab (W : Type*) := Slab (ResourceSlot W)

namespace ResourceSlab

variable {W : Type*} (s : ResourceSlab W) (key : UInt64)

/-- `ResourceSlab::v_insert_timer_slot`: file a timer with its waker under a key. -/
def insertTimerSlot (entry : TimerEntry) (waker : W) : ResourceSlab W :=
  Slab.insert s key (.timer entry waker)

/-- `ResourceSlab::v_insert_io_slot`: file an I/O resource, for which no waker is set yet. -/
def insertIoSlot : ResourceSlab W := Slab.insert s key (.io none none)

/-- `ResourceSlab::p_remove`, which `v_remove_timer_slot` and `v_remove_io_slot` both are. -/
def pRemove : Bool × ResourceSlab W :=
  let (result, s) := Slab.remove s key
  (result.isSome, s)

/-- `ResourceSlab::v_remove_timer_slot`: empty the slot, without looking at what is in it. -/
def removeTimerSlot : ResourceSlab W := (pRemove s key).2

/-- `ResourceSlab::v_remove_io_slot`: empty the slot, without looking at what is in it. -/
def removeIoSlot : ResourceSlab W := (pRemove s key).2

/-- `ResourceSlotWrapper::with_read_waker`: the slot with another read waker, if it is an I/O
resource's. -/
def withReadWaker (waker : W) : ResourceSlot W → Option (ResourceSlot W)
  | .io _ writeWaker => some (.io (some waker) writeWaker)
  | .timer _ _ => none

/-- `ResourceSlotWrapper::with_write_waker`: the same for the write waker. -/
def withWriteWaker (waker : W) : ResourceSlot W → Option (ResourceSlot W)
  | .io readWaker _ => some (.io readWaker (some waker))
  | .timer _ _ => none

/-- Take a slot out, rebuild it, and put it back, if there is one and it can be rebuilt. -/
def rebuild (f : ResourceSlot W → Option (ResourceSlot W)) : Option (ResourceSlab W) := do
  let (old, s) := Slab.remove s key
  let new ← f (← old)
  return Slab.insert s key new

/-- `ResourceSlab::v_set_read_waker`: replace the read waker, or panic. -/
def setReadWaker (waker : W) : Option (ResourceSlab W) := rebuild s key (withReadWaker waker)

/-- `ResourceSlab::v_set_write_waker`: replace the write waker, or panic. -/
def setWriteWaker (waker : W) : Option (ResourceSlab W) := rebuild s key (withWriteWaker waker)

/-- `ResourceSlab::v_take_timer_waker`: a copy of the timer's waker. -/
def takeTimerWaker : Option W :=
  match Slab.get s key with
  | some (.timer _ waker) => some waker
  | _ => none

/-- `ResourceSlab::v_get_read_waker`: a copy of the read waker, which stays in the slot. -/
def getReadWaker : Option W :=
  match Slab.get s key with
  | some (.io readWaker _) => readWaker
  | _ => none

/-- `ResourceSlab::v_get_write_waker`: a copy of the write waker, which stays in the slot. -/
def getWriteWaker : Option W :=
  match Slab.get s key with
  | some (.io _ writeWaker) => writeWaker
  | _ => none

/-- `ResourceSlab::contains`: whether the slot is filled, with a resource of either kind. -/
def contains : Bool := (Slab.get s key).isSome

/-- `ResourceSlab::replace_timer_waker`: another waker for a timer, and whether there was a
timer. -/
def replaceTimerWaker (waker : W) : Bool × ResourceSlab W :=
  match Slab.get s key with
  | some (.timer entry _) => (true, Slab.insert s key (.timer entry waker))
  | _ => (false, s)

/-! ### What the operations do to lookups -/

theorem get_insertTimerSlot (entry : TimerEntry) (waker : W) (k : UInt64) :
    (insertTimerSlot s key entry waker).get k =
      if k = key then some (.timer entry waker) else s.get k :=
  Slab.get_insert _ _ _ _

theorem get_insertIoSlot (k : UInt64) :
    (insertIoSlot s key).get k = if k = key then some (.io none none) else s.get k :=
  Slab.get_insert _ _ _ _

theorem get_removeTimerSlot (k : UInt64) :
    (removeTimerSlot s key).get k = if k = key then none else s.get k :=
  Slab.get_remove _ _ _

theorem get_removeIoSlot (k : UInt64) :
    (removeIoSlot s key).get k = if k = key then none else s.get k :=
  Slab.get_remove _ _ _

variable {s key}

/-- A timer keeps its entry when its waker is replaced. -/
theorem get_replaceTimerWaker {entry : TimerEntry} {old : W}
    (h : s.get key = some (.timer entry old)) (waker : W) (k : UInt64) :
    (replaceTimerWaker s key waker).2.get k =
      if k = key then some (.timer entry waker) else s.get k := by
  rw [replaceTimerWaker, h]
  exact Slab.get_insert _ _ _ _

theorem rebuild_eq_some {f : ResourceSlot W → Option (ResourceSlot W)} {s' : ResourceSlab W}
    (h : rebuild s key f = some s') :
    ∃ old new, s.get key = some old ∧ f old = some new ∧
      ∀ k, s'.get k = if k = key then some new else s.get k := by
  simp only [rebuild, Slab.remove_fst, Option.bind_eq_bind, Option.bind_eq_some_iff,
    Option.pure_def, Option.some.injEq] at h
  obtain ⟨old, hold, new, hnew, rfl⟩ := h
  refine ⟨old, new, hold, hnew, fun k => ?_⟩
  rw [Slab.get_insert]
  split
  · rfl
  · rename_i hk
    exact Slab.get_remove_of_ne hk s

theorem withReadWaker_eq_some {waker : W} {old new : ResourceSlot W}
    (h : withReadWaker waker old = some new) :
    ∃ rw ww, old = .io rw ww ∧ new = .io (some waker) ww := by
  cases old with
  | timer => cases h
  | io rw ww => exact ⟨rw, ww, rfl, (Option.some.inj h).symm⟩

theorem withWriteWaker_eq_some {waker : W} {old new : ResourceSlot W}
    (h : withWriteWaker waker old = some new) :
    ∃ rw ww, old = .io rw ww ∧ new = .io rw (some waker) := by
  cases old with
  | timer => cases h
  | io rw ww => exact ⟨rw, ww, rfl, (Option.some.inj h).symm⟩

/-- Setting a read waker succeeds on I/O slots only, and changes nothing else. -/
theorem setReadWaker_eq_some {waker : W} {s' : ResourceSlab W}
    (h : setReadWaker s key waker = some s') :
    ∃ rw ww, s.get key = some (.io rw ww) ∧
      ∀ k, s'.get k = if k = key then some (.io (some waker) ww) else s.get k := by
  obtain ⟨old, new, hold, hnew, hget⟩ := rebuild_eq_some h
  obtain ⟨rw, ww, rfl, rfl⟩ := withReadWaker_eq_some hnew
  exact ⟨rw, ww, hold, hget⟩

/-- Setting a write waker succeeds on I/O slots only, and changes nothing else. -/
theorem setWriteWaker_eq_some {waker : W} {s' : ResourceSlab W}
    (h : setWriteWaker s key waker = some s') :
    ∃ rw ww, s.get key = some (.io rw ww) ∧
      ∀ k, s'.get k = if k = key then some (.io rw (some waker)) else s.get k := by
  obtain ⟨old, new, hold, hnew, hget⟩ := rebuild_eq_some h
  obtain ⟨rw, ww, rfl, rfl⟩ := withWriteWaker_eq_some hnew
  exact ⟨rw, ww, hold, hget⟩

end ResourceSlab

end Lion
