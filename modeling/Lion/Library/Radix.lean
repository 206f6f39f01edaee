import Mathlib.Data.Int.ModEq
import Mathlib.Tactic.Common

/-!
# Ticks of a hierarchy of rings

A clock read at several resolutions: at level `l` the instant `t` has reached tick `t / b ^ l`, and
a ring of `n` slots shows that tick modulo `n`. The lemmas say how the resolutions relate
(`tick_eq_of_le`, `tick_lt_of_add_le`, `lt_of_tick_lt`) and when walking a ring from one tick to
another visits a given slot (`exists_step_of_lt_of_le`).

A timer wheel with several levels is such a hierarchy, and its arithmetic is all here: that two
instants in the same tick of one level are in the same tick of every coarser one, and that a slot
between two ticks is passed on the way, unless the way is longer than a turn and then every slot is
passed. Nothing depends on the base or on the size of the ring, and instants are natural numbers.
What is special about powers of two, or about the word in which an instant is stored, belongs to
whoever uses it.

## Main results

* `tick_eq_of_le`, `tick_le_add` — how the levels relate
* `exists_step_of_lt_of_le` — which slots are passed on the way from one tick to another
-/

namespace Radix

variable {b l m t d : ℕ}

/-- The tick that instant `t` has reached at level `l` of a clock with base `b`. -/
def tick (b l t : ℕ) : ℕ := t / b ^ l

@[simp] theorem tick_zero (b t : ℕ) : tick b 0 t = t := by
  simp [tick]

theorem tick_mono (b l : ℕ) (h : t ≤ d) : tick b l t ≤ tick b l d :=
  Nat.div_le_div_right h

/-- A later tick means a later instant, at whatever level the two were read. -/
theorem lt_of_tick_lt (h : tick b l t < tick b l d) : t < d :=
  Nat.lt_of_not_le fun hle => Nat.not_lt.mpr (tick_mono b l hle) h

/-- Two instants a whole tick apart are at different ticks. -/
theorem tick_lt_of_add_le (hb : 0 < b) (h : t + b ^ l ≤ d) : tick b l t < tick b l d := by
  have hpow : 0 < b ^ l := Nat.pow_pos hb
  calc tick b l t < t / b ^ l + 1 := Nat.lt_succ_self _
    _ = (t + b ^ l) / b ^ l := (Nat.add_div_right t hpow).symm
    _ ≤ tick b l d := Nat.div_le_div_right h

/-- Instants less than a turn apart are at most a turn of ticks apart. -/
theorem tick_le_add (hb : 0 < b) (h : d < t + b ^ (l + 1)) : tick b l d ≤ tick b l t + b := by
  have hpow : 0 < b ^ l := Nat.pow_pos hb
  calc tick b l d ≤ (t + b * b ^ l) / b ^ l := by
        refine Nat.div_le_div_right (Nat.le_of_lt ?_)
        rwa [Nat.mul_comm, ← Nat.pow_succ]
    _ = tick b l t + b := Nat.add_mul_div_right t b hpow

theorem tick_add (b l k t : ℕ) : tick b (l + k) t = tick b l t / b ^ k := by
  rw [tick, tick, Nat.pow_add, Nat.div_div_eq_div_mul]

/-- Instants that agree at one level agree at every coarser one. -/
theorem tick_eq_of_le (hlm : l ≤ m) (h : tick b l t = tick b l d) : tick b m t = tick b m d := by
  obtain ⟨k, rfl⟩ := Nat.exists_eq_add_of_le hlm
  rw [tick_add, tick_add, h]

/-- **Visiting a slot.** Walking a ring of `n` slots from tick `p`, the slot of a tick `x` that
lies after `p` and not after `q` is met within `q - p` steps, and within one turn. -/
theorem exists_step_of_lt_of_le {n p q x : ℕ} (hn : 0 < n) (hpx : p < x) (hxq : x ≤ q) :
    ∃ k, 1 ≤ k ∧ k ≤ q - p ∧ k ≤ n ∧ (p % n + k) % n = x % n := by
  -- the distance, folded into `1..n`
  have hfold : (x - p - 1) % n + 1 ≤ x - p := by
    have := Nat.mod_le (x - p - 1) n
    omega
  have hturn : (x - p - 1) % n < n := Nat.mod_lt _ hn
  refine ⟨(x - p - 1) % n + 1, by omega, by omega, by omega, ?_⟩
  calc (p % n + ((x - p - 1) % n + 1)) % n
      = (p + (x - p - 1 + 1)) % n :=
        (Nat.mod_modEq p n).add ((Nat.mod_modEq (x - p - 1) n).add_right 1)
    _ = x % n := by congr 1; omega

end Radix
