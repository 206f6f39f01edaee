import Lion.Library.Window
import Mathlib.Data.UInt

/-!
# Slabs

`Slab` of `lion-slab`: a window of optional slots over `u64` keys, without the count that `VecMap`
keeps. The reactor keeps its resources in one and the executor its tasks in another.

Its functions are the window's, with keys turned into natural numbers. The way in which the source
makes room at the front differs from that of `VecMap`, though not in what comes of it; `FiniteMaps`
has both ways, and every check that the program makes on the way.

## Main results

* `Slab.get_insert`, `Slab.get_remove` — a slab is a finite map
-/

namespace Lion

/-- `Slab<V>`: optional slots from an offset on, and nothing else. -/
structure Slab (V : Type*) extends Window V
deriving DecidableEq, Repr

namespace Slab

variable {V : Type*}

/-- `Slab::new`: no slots, until the first key is inserted. -/
def new : Slab V := ⟨Window.empty⟩

/-- `Slab::insert`: make room for the key and fill its slot. -/
def insert (s : Slab V) (key : UInt64) (value : V) : Slab V := ⟨s.toWindow.insert key.toNat value⟩

/-- `Slab::get`: the entry under `key`, if its slot exists and is filled. -/
def get (s : Slab V) (key : UInt64) : Option V := s.toWindow.get key.toNat

/-- `Slab::remove`: empty the slot of `key` and return what was in it. -/
def remove (s : Slab V) (key : UInt64) : Option V × Slab V :=
  let (result, w) := s.toWindow.remove key.toNat
  (result, ⟨w⟩)

@[simp] theorem get_new (k : UInt64) : (new : Slab V).get k = none :=
  Window.get_empty _

theorem get_insert (s : Slab V) (key : UInt64) (v : V) (k : UInt64) :
    (s.insert key v).get k = if k = key then some v else s.get k := by
  rw [get, insert, Window.get_insert]
  simp only [UInt64.toNat_inj, get]

theorem remove_fst (s : Slab V) (key : UInt64) : (s.remove key).1 = s.get key :=
  Window.remove_fst _ _

theorem get_remove (s : Slab V) (key k : UInt64) :
    (s.remove key).2.get k = if k = key then none else s.get k := by
  show (s.toWindow.remove key.toNat).2.get k.toNat = _
  rw [Window.get_remove]
  simp only [UInt64.toNat_inj, get]

theorem get_remove_of_ne {k key : UInt64} (h : k ≠ key) (s : Slab V) :
    (s.remove key).2.get k = s.get k := by
  rw [get_remove, if_neg h]

end Slab

end Lion
