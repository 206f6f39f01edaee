import Mathlib.Data.List.Basic
import Mathlib.Tactic.Common

/-!
# Vectors that have to fit

A growable vector, as a list: what asks for memory, or for an index, returns nothing where there is
none. Memory holds `room` elements of a vector.

These are the operations of a vector that can fail in a program, each with the condition under which
it does. A model written with them says where the program would abort, and a proof that it returns
something is a proof that it does not. Whatever cannot fail is an operation on lists and is not
repeated here.

## Main results

* `Buffer.resize_eq` — making a vector longer fills it up
* `Buffer.rotateRight_append` — what is appended and rotated to the front is prepended
-/

namespace Buffer

variable {α : Type*} {room n i : ℕ} {v v' : List α}

/-- A vector of no elements, with memory for `n`. -/
def withCapacity (α : Type*) (room n : ℕ) : Option (List α) := if n ≤ room then some [] else none

/-- Make a vector `n` elements long, cutting it off or filling it up with `a`. -/
def resize (room : ℕ) (v : List α) (n : ℕ) (a : α) : Option (List α) :=
  if n ≤ room then some (v.take n ++ List.replicate (n - v.length) a) else none

/-- Move another vector to the end, where it has to fit beside what is there. -/
def append (room : ℕ) (v v' : List α) : Option (List α) :=
  if v.length + v'.length ≤ room then some (v ++ v') else none

/-- Move the last `n` elements to the front, of which there have to be as many. -/
def rotateRight (v : List α) (n : ℕ) : Option (List α) :=
  if n ≤ v.length then some (v.drop (v.length - n) ++ v.take (v.length - n)) else none

/-- Overwrite element `i`, which has to exist. A vector does not grow by being written to. -/
def set (v : List α) (i : ℕ) (a : α) : Option (List α) :=
  if i < v.length then some (v.set i a) else none

theorem withCapacity_eq (h : n ≤ room) : withCapacity α room n = some [] := if_pos h

/-- A vector that is made longer is filled up. -/
theorem resize_eq (hle : v.length ≤ n) (h : n ≤ room) (a : α) :
    resize room v n a = some (v ++ List.replicate (n - v.length) a) := by
  rw [resize, if_pos h, List.take_of_length_le hle]

theorem append_eq (h : v.length + v'.length ≤ room) : append room v v' = some (v ++ v') := if_pos h

theorem set_eq (h : i < v.length) (a : α) : set v i a = some (v.set i a) := if_pos h

/-- What is appended and rotated to the front is prepended. -/
theorem rotateRight_append (v v' : List α) : rotateRight (v ++ v') v'.length = some (v' ++ v) := by
  have hlen : (v ++ v').length - v'.length = v.length := by
    rw [List.length_append, Nat.add_sub_cancel]
  have hle : v'.length ≤ (v ++ v').length := by
    rw [List.length_append]
    exact Nat.le_add_left _ _
  rw [rotateRight, if_pos hle, hlen, List.drop_left, List.take_left]

end Buffer
