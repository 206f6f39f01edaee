import Mathlib.Data.List.Basic
import Mathlib.Tactic.Common

/-!
# The kernels of the synchronisation primitives

`lion-utility` builds its primitives from small kernels that decide, and glue that performs what was
decided. `WaiterKernel` keeps the ids of parked waiters in the order they parked, and counts permits
stored while nobody waited. `ChannelKernel` counts the values in a channel's buffer and the slots
reserved in it; the values themselves are the glue's.

The kernels are what is verified in the source. They know ids and numbers, and no wakers, values or
futures. What can go wrong between a kernel and its glue is outside of that, and it is what most of
the modules in this directory are about: an id may be queued without a waker, a permit counted that
nobody holds, a value buffered that was not counted.

## Conventions

Counters are 64 bits wide. Where one is incremented without a bound, overflow is a panic, and the
operation has no result (`succ64`). Where one is decremented the source has a precondition, which
its callers keep; the subtraction is that of natural numbers here, and what a caller knows makes it
exact. The ghost fields of the kernels are left out, and with them their proofs.

For each kernel function there is one lemma that says in which cases it does what, and callers use
that lemma only.
-/

namespace Lion

/-- `n + 1` as a `u64`; `none` is the panic on overflow. -/
def succ64 (n : ℕ) : Option ℕ := if n + 1 < UInt64.size then some (n + 1) else none

theorem succ64_eq_some {n m : ℕ} (h : succ64 n = some m) : m = n + 1 := by
  rw [succ64] at h
  split at h
  · exact (Option.some.inj h).symm
  · cases h

/-- Taking an entry out of a queue takes its id out of the ids. -/
theorem map_fst_eraseP {W : Type*} (entries : List (ℕ × W)) (id : ℕ) :
    (entries.eraseP (·.1 = id)).map Prod.fst = (entries.map Prod.fst).erase id := by
  induction entries with
  | nil => rfl
  | cons x xs ih =>
    by_cases hx : x.1 = id
    · simp [hx]
    · simp [hx, ih]

/-! ### Waiters -/

/-- `WaitAction`: what somebody who wants to wait is told. -/
inductive WaitAction
  | ready
  | park (id : ℕ)
deriving DecidableEq, Repr

/-- `SignalAction`: what has become of a signal. -/
inductive SignalAction
  | woke (id : ℕ)
  /-- Nobody waited, and a permit was stored. -/
  | stored
deriving DecidableEq, Repr

/-- `WaiterKernel`: the permits stored while nobody waited, and the ids of those who wait, in the
order in which they parked. -/
structure WaiterKernel where
  permit : ℕ
  queue : List ℕ
deriving DecidableEq, Repr

namespace WaiterKernel

/-- `WaiterKernel::new`: no permits, and nobody waits. -/
def new : WaiterKernel := ⟨0, []⟩

/-- `WaiterKernel::with_permits`: permits to begin with. -/
def withPermits (permit : ℕ) : WaiterKernel := ⟨permit, []⟩

/-- `WaiterKernel::try_acquire_step`: take a stored permit, if there is one. -/
def tryAcquireStep (k : WaiterKernel) : Bool × WaiterKernel :=
  if 0 < k.permit then (true, { k with permit := k.permit - 1 }) else (false, k)

/-- `WaiterKernel::wait_step`: take a stored permit, or queue the id at the end. -/
def waitStep (k : WaiterKernel) (id : ℕ) : WaitAction × WaiterKernel :=
  if 0 < k.permit then (.ready, { k with permit := k.permit - 1 })
  else (.park id, { k with queue := k.queue ++ [id] })

/-- `WaiterKernel::signal_step`: take the id that was queued first, or store a permit if nobody
waits. Storing may overflow. -/
def signalStep (k : WaiterKernel) : Option (SignalAction × WaiterKernel) :=
  match k.queue with
  | head :: rest => some (.woke head, { k with queue := rest })
  | [] => (succ64 k.permit).map fun permit => (.stored, { k with permit })

/-- `WaiterKernel::remove_step`: take an id out of the queue, and say whether it was there. -/
def removeStep (k : WaiterKernel) (id : ℕ) : Bool × WaiterKernel :=
  (k.queue.contains id, { k with queue := k.queue.erase id })

end WaiterKernel

/-! ### Channels -/

/-- `ChannelKernel`, without its ghost fields: how full a channel is. -/
structure ChannelKernel where
  buffered : ℕ
  /-- The slots reserved and not filled. -/
  reserved : ℕ
  capacity : ℕ
deriving DecidableEq, Repr

namespace ChannelKernel

/-- `ChannelKernel::new`: an empty channel of this capacity. -/
def new (capacity : ℕ) : ChannelKernel := ⟨0, 0, capacity⟩

/-- The slots that are neither filled nor reserved. -/
def free (k : ChannelKernel) : ℕ := k.capacity - k.buffered - k.reserved

/-- `ChannelKernel::try_push`: count one more value, if there is a slot for it. -/
def tryPush (k : ChannelKernel) : Bool × ChannelKernel :=
  if k.buffered + k.reserved < k.capacity then (true, { k with buffered := k.buffered + 1 })
  else (false, k)

/-- `ChannelKernel::pop`: count one value less, if there is one. -/
def pop (k : ChannelKernel) : Bool × ChannelKernel :=
  if 0 < k.buffered then (true, { k with buffered := k.buffered - 1 }) else (false, k)

/-- `ChannelKernel::reserve`: count one more reservation, if there is a slot for it. -/
def reserve (k : ChannelKernel) : Bool × ChannelKernel :=
  if k.buffered + k.reserved < k.capacity then (true, { k with reserved := k.reserved + 1 })
  else (false, k)

/-- `ChannelKernel::fill`: a reserved slot becomes a filled one. -/
def fill (k : ChannelKernel) : ChannelKernel :=
  { k with buffered := k.buffered + 1, reserved := k.reserved - 1 }

/-- `ChannelKernel::unreserve`: a reserved slot becomes free. -/
def unreserve (k : ChannelKernel) : ChannelKernel := { k with reserved := k.reserved - 1 }

/-- There is a slot that is neither filled nor reserved, which is what `try_push` and `reserve`
ask. -/
def HasRoom (k : ChannelKernel) : Prop := k.buffered + k.reserved < k.capacity

theorem tryPush_cases (k : ChannelKernel) :
    (k.HasRoom ∧ k.tryPush = (true, { k with buffered := k.buffered + 1 })) ∨
      (¬ k.HasRoom ∧ k.tryPush = (false, k)) := by
  by_cases h : k.buffered + k.reserved < k.capacity
  · exact .inl ⟨h, if_pos h⟩
  · exact .inr ⟨h, if_neg h⟩

theorem reserve_cases (k : ChannelKernel) :
    (k.HasRoom ∧ k.reserve = (true, { k with reserved := k.reserved + 1 })) ∨
      (¬ k.HasRoom ∧ k.reserve = (false, k)) := by
  by_cases h : k.buffered + k.reserved < k.capacity
  · exact .inl ⟨h, if_pos h⟩
  · exact .inr ⟨h, if_neg h⟩

theorem pop_cases (k : ChannelKernel) :
    (0 < k.buffered ∧ k.pop = (true, { k with buffered := k.buffered - 1 })) ∨
      (k.buffered = 0 ∧ k.pop = (false, k)) := by
  by_cases h : 0 < k.buffered
  · exact .inl ⟨h, if_pos h⟩
  · exact .inr ⟨Nat.eq_zero_of_not_pos h, if_neg h⟩

end ChannelKernel

end Lion
