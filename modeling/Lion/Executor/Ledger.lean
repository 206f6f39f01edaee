import Mathlib.Data.UInt
import Mathlib.Tactic.Common

/-!
# The ledger of accepted task ids

`TidLedger` of `lion-executor`: a set of task ids as a vector of 64-bit words, one bit per id. It
only grows, and it is what the executor consults before it queues an id that somebody woke.

An id that was once accepted stays in the ledger when its task is done. So an id in the ledger may
have no task, in which case a poll of it finds nothing; an id that is not in the ledger is dropped
wherever it turns up. Together with ids that are not reused this is all that keeps wakers of tasks
long gone from doing harm.

## Conventions

The words are extended in one step. `Checked` has the loop of the source, and an index that is
checked at each access; it returns nothing where the program would panic. `ledger_isSet` is about
the checked functions, and says that they do not.

## Main results

* `contains_mark` — marking adds one id
* `ledger_isSet` — the ledger is the set of the ids that were marked
-/

namespace Lion

/-- `TaskId`: the number of a task, taken from a counter that all spawners share. -/
abbrev TaskId := UInt64

/-- `TidLedger`: the ids that were accepted so far, one bit for each. -/
structure TidLedger where
  /-- The words; id `t` is bit `t % 64` of word `t / 64`. -/
  words : List UInt64
deriving DecidableEq, Repr

namespace TidLedger

/-- `TidLedger::new`: no words, and so no ids. -/
def new : TidLedger := ⟨[]⟩

/-- `TidLedger::contains`: whether the id has a word, and its bit is set there. -/
def contains (l : TidLedger) (tid : TaskId) : Bool :=
  match l.words[(tid / 64).toNat]? with
  | none => false
  | some word => (word >>> (tid % 64)) &&& 1 == 1

/-- `TidLedger::mark`: the words are extended with zeros until the id has one. -/
def mark (l : TidLedger) (tid : TaskId) : TidLedger :=
  let w := (tid / 64).toNat
  let words := l.words ++ List.replicate (w + 1 - l.words.length) 0
  ⟨words.modify w (· ||| ((1 : UInt64) <<< (tid % 64)))⟩

@[simp] theorem contains_new (t : TaskId) : new.contains t = false := rfl

/-- Shifting and masking reads a bit, whose number is below the width of a word. -/
theorem shiftRight_and_one (w : UInt64) {c : UInt64} (hc : c.toNat < 64) :
    (w >>> c &&& 1 == 1) = w.toNat.testBit c.toNat := by
  have hbit : (w >>> c &&& 1).toNat = w.toNat >>> c.toNat % 2 := by
    rw [UInt64.toNat_and, UInt64.toNat_shiftRight, Nat.mod_eq_of_lt hc]
    exact Nat.and_one_is_mod _
  rw [Nat.testBit_eq_decide_div_mod_eq, ← Nat.shiftRight_eq_div_pow, ← hbit, Bool.eq_iff_iff,
    beq_iff_eq, decide_eq_true_iff, ← UInt64.toNat_inj]
  rfl

/-- Setting bit `b` of a word is seen at bit `b` only. -/
theorem testBit_or_shiftLeft (w : UInt64) {b : UInt64} (hb : b.toNat < 64) (c : ℕ) :
    (w ||| (1 : UInt64) <<< b).toNat.testBit c = (w.toNat.testBit c || decide (b.toNat = c)) := by
  have hshift : ((1 : UInt64) <<< b).toNat = 2 ^ b.toNat := by
    rw [UInt64.toNat_shiftLeft, Nat.mod_eq_of_lt hb, Nat.shiftLeft_eq]
    show 1 * 2 ^ b.toNat % 2 ^ 64 = _
    rw [Nat.one_mul, Nat.mod_eq_of_lt (Nat.pow_lt_pow_right (by omega) hb)]
  rw [UInt64.toNat_or, hshift, Nat.testBit_or, Nat.testBit_two_pow]

theorem toNat_mod_64 (t : TaskId) : (t % 64).toNat = t.toNat % 64 := UInt64.toNat_mod _ _

theorem toNat_div_64 (t : TaskId) : (t / 64).toNat = t.toNat / 64 := UInt64.toNat_div _ _

/-- Padding with the default changes no look-up that falls back to it. -/
theorem getD_append_replicate {α : Type*} (v : List α) (d : α) (n i : ℕ) :
    (v ++ List.replicate n d)[i]?.getD d = v[i]?.getD d := by
  rw [List.getElem?_append]
  split
  · rfl
  · rename_i h
    rw [List.getElem?_eq_none (Nat.not_lt.mp h), List.getElem?_replicate]
    split <;> rfl

/-- An id is in the ledger if its word exists and has its bit. -/
theorem contains_eq (l : TidLedger) (t : TaskId) :
    l.contains t = ((l.words[t.toNat / 64]?).getD 0).toNat.testBit (t.toNat % 64) := by
  rw [contains, toNat_div_64]
  cases l.words[t.toNat / 64]? with
  | none => simp
  | some word =>
    have hlt : (t % 64).toNat < 64 := by
      rw [toNat_mod_64]
      omega
    rw [← toNat_mod_64]
    exact shiftRight_and_one word hlt

/-- **Marking adds one id**, and takes none away. -/
theorem contains_mark (l : TidLedger) (tid t : TaskId) :
    (l.mark tid).contains t = (l.contains t || decide (t = tid)) := by
  have hlt : (tid % 64).toNat < 64 := by
    rw [toNat_mod_64]
    omega
  have hword : (((l.mark tid).words[t.toNat / 64]?).getD 0) =
      if tid.toNat / 64 = t.toNat / 64 then
        ((l.words[t.toNat / 64]?).getD 0) ||| (1 : UInt64) <<< (tid % 64)
      else (l.words[t.toNat / 64]?).getD 0 := by
    simp only [mark, toNat_div_64, List.getElem?_modify]
    have hpad : ((l.words ++
        List.replicate (tid.toNat / 64 + 1 - l.words.length) 0)[t.toNat / 64]?).getD 0 =
          (l.words[t.toNat / 64]?).getD 0 := getD_append_replicate l.words 0 _ _
    by_cases hw : tid.toNat / 64 = t.toNat / 64
    · have hin : t.toNat / 64 <
          (l.words ++ List.replicate (tid.toNat / 64 + 1 - l.words.length) 0).length := by
        rw [List.length_append, List.length_replicate]
        omega
      rw [List.getElem?_eq_getElem hin] at hpad ⊢
      rw [if_pos hw, ← hpad]
      simp [hw]
    · simp only [hw, if_false]
      rw [← hpad]
      simp
  have hsame : decide (t = tid) =
      (decide (tid.toNat / 64 = t.toNat / 64) && decide (tid.toNat % 64 = t.toNat % 64)) := by
    rw [Bool.eq_iff_iff]
    simp only [decide_eq_true_iff, Bool.and_eq_true, ← UInt64.toNat_inj]
    omega
  rw [contains_eq, contains_eq, hword, hsame]
  by_cases hw : tid.toNat / 64 = t.toNat / 64
  · rw [if_pos hw, testBit_or_shiftLeft _ hlt, toNat_mod_64]
    simp [hw]
  · rw [if_neg hw]
    simp [hw]

theorem contains_mark_self (l : TidLedger) (t : TaskId) : (l.mark t).contains t = true := by
  simp [contains_mark]

/-! ### The loop -/

namespace Checked

/-- `while self.words.len() as u64 <= w64`: a zero is pushed. -/
def grow (words : List UInt64) (w64 : ℕ) : List UInt64 :=
  if words.length ≤ w64 then grow (words ++ [0]) w64 else words
termination_by w64 + 1 - words.length
decreasing_by
  rw [List.length_append, List.length_singleton]
  omega

/-- `TidLedger::contains`, with the index that it reads checked. -/
def contains (l : TidLedger) (tid : TaskId) : Option Bool :=
  let w64 := (tid / 64).toNat
  if l.words.length ≤ w64 then some false
  else do
    let word ← l.words[w64]?
    let bit := (word >>> (tid % 64)) &&& 1
    return bit == 1

/-- `TidLedger::mark`, with the loop that extends the words and the index that it writes. -/
def mark (l : TidLedger) (tid : TaskId) : Option TidLedger := do
  let w64 := (tid / 64).toNat
  let b := tid % 64
  let words := grow l.words w64
  let word ← words[w64]?
  let updated := word ||| ((1 : UInt64) <<< b)
  if w64 < words.length then some ⟨words.set w64 updated⟩ else none

/-- One turn of the loop after the other pushes as many zeros as are missing. -/
theorem grow_eq (words : List UInt64) (w64 : ℕ) :
    grow words w64 = words ++ List.replicate (w64 + 1 - words.length) 0 := by
  induction words using grow.induct w64 with
  | case1 words hle ih =>
    have hmissing : w64 + 1 - words.length = w64 + 1 - (words ++ [0]).length + 1 := by
      rw [List.length_append, List.length_singleton]
      omega
    rw [grow, if_pos hle, ih, hmissing, List.replicate_succ, List.append_assoc,
      List.singleton_append]
  | case2 words hnot =>
    rw [grow, if_neg hnot, Nat.sub_eq_zero_of_le (by omega), List.replicate_zero,
      List.append_nil]

/-- No index leaves the vector, so that a look-up does not panic. -/
theorem contains_eq (l : TidLedger) (tid : TaskId) : contains l tid = some (l.contains tid) := by
  rw [contains, TidLedger.contains]
  dsimp only
  split
  · rename_i hle
    rw [List.getElem?_eq_none hle]
  · rename_i hnot
    rw [List.getElem?_eq_getElem (Nat.not_le.mp hnot)]
    rfl

theorem mark_eq (l : TidLedger) (tid : TaskId) : mark l tid = some (l.mark tid) := by
  have hlt : (tid / 64).toNat < (grow l.words (tid / 64).toNat).length := by
    rw [grow_eq, List.length_append, List.length_replicate]
    omega
  simp only [mark, List.getElem?_eq_getElem hlt, Option.bind_eq_bind, Option.bind_some, if_pos hlt]
  rw [TidLedger.mark, ← grow_eq, List.modify_eq_set, List.getElem?_eq_getElem hlt]
  rfl

end Checked

/-- Marking one id after the other adds them all, in whichever order. -/
theorem contains_foldl_mark (ids : List TaskId) (l : TidLedger) (t : TaskId) :
    (ids.foldl mark l).contains t = (l.contains t || decide (t ∈ ids)) := by
  induction ids generalizing l with
  | nil => simp
  | cons id ids ih =>
    rw [List.foldl_cons, ih, contains_mark, Bool.or_assoc]
    simp [List.mem_cons]

/-- **The ledger is a set.** Whichever ids are marked in a new ledger, in any order, no index leaves
the vector, and it contains just those. Marking one more adds that, and changes no other answer. -/
theorem ledger_isSet (ids : List TaskId) : ∃ l, ids.foldlM Checked.mark new = some l ∧
    (∀ t, Checked.contains l t = some (decide (t ∈ ids))) ∧
    ∀ tid, ∃ l', Checked.mark l tid = some l' ∧ Checked.contains l' tid = some true ∧
      ∀ t, t ≠ tid → Checked.contains l' t = Checked.contains l t := by
  have hmarks : ∀ l, ids.foldlM Checked.mark l = some (ids.foldl mark l) := by
    induction ids with
    | nil => exact fun l => rfl
    | cons id ids ih =>
      intro l
      rw [List.foldlM_cons, Checked.mark_eq]
      exact ih (l.mark id)
  refine ⟨_, hmarks new, fun t => ?_, fun tid => ⟨_, Checked.mark_eq _ tid, ?_, fun t hne => ?_⟩⟩
  · rw [Checked.contains_eq, contains_foldl_mark, contains_new, Bool.false_or]
  · rw [Checked.contains_eq, contains_mark_self]
  · rw [Checked.contains_eq, Checked.contains_eq, contains_mark, decide_eq_false hne, Bool.or_false]

end TidLedger

end Lion
