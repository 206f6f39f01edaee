import Mathlib.Data.List.Basic
import Mathlib.Tactic.Common

/-!
# Arenas

Things by number, some of which are gone. An arena hands out numbers in order and never reuses one,
so a number that somebody keeps refers to the same thing, or to nothing. It is how a model speaks of
values that a program owns by reference: futures, handles, guards.

A program that drops a value has no name for it afterwards, and one that creates values in a loop
has no fixed set of names to begin with. Both are awkward with a function from names to values: the
names that are not in use yet have to be told apart from those that are used up. In an arena the
first are those from `size` on, the others read as `none`.

## Conventions

`get` is the only way to read, and every lemma about a writing operation says what `get` returns
afterwards. The list of slots is not looked at from outside. `put` at a number that was not handed
out does nothing; nobody calls it so, and a hypothesis to that effect would have to be carried
everywhere.

`All p` is a predicate on everything that is there and `count p` the number of things that satisfy a
decidable one. Invariants of machines whose states hold an arena are built from these two.

## Main results

* `get_add`, `get_put`, `get_update`, `get_map` — reading after writing
* `All.add`, `All.put` — what holds of everything that is there
* `count_add`, `count_put`, `count_update` — how many of the things there are satisfy a predicate
-/

/-- Things of type `α` by number. A number that was handed out is never handed out again. -/
structure Arena (α : Type*) where
  /-- The things; those that are gone are `none`. -/
  slots : List (Option α)
deriving DecidableEq, Repr

namespace Arena

variable {α : Type*} {a : Arena α} {i j : ℕ} {x : α}

/-- The arena with nothing in it, in which no number was handed out. -/
def empty : Arena α := ⟨[]⟩

/-- How many numbers were handed out; the next one is this. -/
def size (a : Arena α) : ℕ := a.slots.length

/-- The thing with number `i`, unless it is gone. -/
def get (a : Arena α) (i : ℕ) : Option α := a.slots[i]?.join

/-- Add a thing under the next number, which is `a.size`. -/
def add (a : Arena α) (x : α) : Arena α := ⟨a.slots ++ [some x]⟩

/-- Replace or remove the thing with number `i`. -/
def put (a : Arena α) (i : ℕ) (x : Option α) : Arena α := ⟨a.slots.set i x⟩

/-- Change the thing with number `i`, unless it is gone. -/
def update (a : Arena α) (i : ℕ) (f : α → α) : Arena α := ⟨a.slots.modify i (Option.map f)⟩

/-- Change everything that is there, and leave what is gone alone. -/
def map (a : Arena α) (f : α → α) : Arena α := ⟨a.slots.map (Option.map f)⟩

/-- Everything that is there satisfies `p`. What is gone need not. -/
def All (a : Arena α) (p : α → Prop) : Prop := ∀ i x, a.get i = some x → p x

/-- How many of the things that are there satisfy `p`. -/
def count (a : Arena α) (p : α → Bool) : ℕ := a.slots.countP (Option.any p)

theorem get_eq_some : a.get i = some x ↔ a.slots[i]? = some (some x) := by
  simp [get, Option.join_eq_some_iff]

theorem lt_size (h : a.get i = some x) : i < a.size :=
  (List.getElem?_eq_some_iff.mp (get_eq_some.mp h)).1

@[simp] theorem size_add (a : Arena α) (x : α) : (a.add x).size = a.size + 1 := by
  simp [size, add]

@[simp] theorem size_put (a : Arena α) (i : ℕ) (x : Option α) : (a.put i x).size = a.size := by
  simp [size, put]

@[simp] theorem size_update (a : Arena α) (i : ℕ) (f : α → α) : (a.update i f).size = a.size := by
  simp [size, update]

@[simp] theorem get_empty (i : ℕ) : (empty : Arena α).get i = none := rfl

theorem get_add (a : Arena α) (x : α) (j : ℕ) :
    (a.add x).get j = if j = a.size then some x else a.get j := by
  by_cases hj : j < a.size
  · rw [if_neg (Nat.ne_of_lt hj), get, add, List.getElem?_append_left hj, get]
  · by_cases heq : j = a.size
    · subst heq
      simp [get, add, size]
    · rw [if_neg heq, get, get, List.getElem?_eq_none (by simp [add, size] at *; omega),
        List.getElem?_eq_none (by simp [size] at *; omega)]

theorem get_put (h : a.get i = some x) (y : Option α) (j : ℕ) :
    (a.put i y).get j = if j = i then y else a.get j := by
  rw [get, put, List.getElem?_set]
  by_cases hij : i = j
  · subst hij
    simp [show i < a.slots.length from lt_size h]
  · simp [hij, Ne.symm hij, get]

@[simp] theorem put_put (a : Arena α) (i : ℕ) (x y : Option α) :
    (a.put i x).put i y = a.put i y := by
  simp [put]

theorem get_update (a : Arena α) (i : ℕ) (f : α → α) (j : ℕ) :
    (a.update i f).get j = if j = i then (a.get j).map f else a.get j := by
  rw [get, update, List.getElem?_modify]
  by_cases hij : i = j
  · subst hij
    rw [if_pos rfl, get]
    cases a.slots[i]? with
    | none => rfl
    | some o => cases o <;> simp
  · simp [hij, Ne.symm hij, get]

theorem get_map (a : Arena α) (f : α → α) (i : ℕ) : (a.map f).get i = (a.get i).map f := by
  rw [get, get, map, List.getElem?_map]
  cases a.slots[i]? with
  | none => rfl
  | some o => cases o <;> rfl

theorem all_empty (p : α → Prop) : (empty : Arena α).All p := by
  intro i x hx
  cases hx

theorem All.add {p : α → Prop} (h : a.All p) (hx : p x) : (a.add x).All p := by
  intro j y hj
  rw [get_add] at hj
  split at hj
  · cases hj
    exact hx
  · exact h j y hj

theorem All.put {p : α → Prop} (h : a.All p) (hi : a.get i = some x) {y : Option α}
    (hy : ∀ z, y = some z → p z) : (a.put i y).All p := by
  intro j z hj
  rw [get_put hi] at hj
  split at hj
  · exact hy z hj
  · exact h j z hj

/-- Predicates that agree on what is there count the same. -/
theorem count_congr {p q : α → Bool} (h : ∀ i x, a.get i = some x → p x = q x) :
    a.count p = a.count q := by
  refine List.countP_congr fun o ho => ?_
  obtain ⟨i, hi⟩ := List.getElem?_of_mem ho
  cases o with
  | none => rfl
  | some x => rw [Option.any_some, Option.any_some, h i x (get_eq_some.mpr hi)]

theorem count_add (a : Arena α) (x : α) (p : α → Bool) :
    (a.add x).count p = a.count p + if p x then 1 else 0 := by
  simp [count, add, List.countP_append, List.countP_singleton]

theorem count_put (h : a.get i = some x) (y : Option α) (p : α → Bool) :
    (a.put i y).count p + (if p x then 1 else 0) = a.count p + if y.any p then 1 else 0 := by
  obtain ⟨hlt, hget⟩ := List.getElem?_eq_some_iff.mp (get_eq_some.mp h)
  rw [count, count, put, List.countP_set hlt, hget, Option.any_some]
  by_cases hp : p x = true
  · have hpos : 0 < a.slots.countP (Option.any p) := by
      refine List.countP_pos_iff.mpr ⟨some x, ?_, hp⟩
      rw [← hget]
      exact List.getElem_mem hlt
    rw [if_pos hp]
    omega
  · simp [hp]

/-- Updating is replacing, if the thing is there, so that one lemma about `put` serves both. -/
theorem update_eq_put (h : a.get i = some x) (f : α → α) : a.update i f = a.put i (some (f x)) := by
  rw [get_eq_some] at h
  rw [update, put, List.modify_eq_set_getElem?, h]
  rfl

theorem count_update (h : a.get i = some x) (f : α → α) (p : α → Bool) :
    (a.update i f).count p + (if p x then 1 else 0) = a.count p + if p (f x) then 1 else 0 := by
  rw [update_eq_put h, count_put h]
  rfl

/-- Updating what is gone does nothing, whatever the function. -/
theorem update_of_get_eq_none (h : a.get i = none) (f : α → α) : a.update i f = a := by
  have hslots : a.slots.modify i (Option.map f) = a.slots := by
    refine List.ext_getElem? fun j => ?_
    rw [List.getElem?_modify]
    by_cases hij : i = j
    · subst hij
      rw [get] at h
      cases hget : a.slots[i]? with
      | none => rfl
      | some o =>
        rw [hget] at h
        cases o with
        | none => simp
        | some x => cases h
    · simp [hij]
  rw [update, hslots]

end Arena
