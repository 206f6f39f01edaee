import Lion.Library.Buffer
import Lion.Slab
import Lion.TimerWheel.VecMap

/-!
# Two finite maps in memory

`VecMap` and `Slab` store their entries in one vector each, from an offset on. The first key that is
inserted is the offset. A smaller one has the vector grow at the front: `VecMap` builds another
vector, and `Slab` appends empty slots and rotates them to the front. A greater one has it grow at
the end.

Here are their functions as they are in the source, with every index checked and vectors that have
to fit. They do what the ones without these checks do, as long as the keys that were inserted are
not further apart than memory reaches; so they are a plain map, in whichever order the keys come.

## Why it is a condition on keys

Neither map bounds its extent. Inserting `0` and then the greatest `u64` asks for a vector of `2 ^
64` slots, and the program aborts. The condition `Fits` is on the keys that were ever inserted, and
not on those still present: the vector never shrinks, so a key that was removed long ago still
counts. Resource ids and task ids come from counters and satisfy it for as long as the slots between
the first and the latest of them fit into memory.

## Conventions

`Checked` has the functions under the names of the source, and what the two maps have in common is
about the window. They return nothing where the program would panic. `room` is the number of slots
that memory holds, which is a machine word. `get_mut` is given what its caller does to the entry.

## Main definitions

* `VecMap.Checked`, `Slab.Checked` — the functions
* `PlainMap` — what they should be
* `Fits` — the keys are near enough to each other

## Main results

* `VecMap.Checked.insert_eq`, `Slab.Checked.insert_eq` — what is checked does not fail
* `finiteMaps` — both are plain maps
-/

/-! ### The code -/

namespace Window.Checked

variable {α : Type} {room key rel : ℕ} {w : Window α}

/-- What `insert` begins with, for a way to grow at the front. -/
def reach (growFront : Window α → ℕ → Option (Window α)) (w : Window α) (key : ℕ) :
    Option (Window α) :=
  if w.inner.length = 0 then some { w with offset := key }
  else if key < w.offset then growFront w key
  else some w

/-- `ensure_slot`: append empty slots until slot `rel` exists, if they fit. -/
def ensureSlot (room : ℕ) (w : Window α) (rel : ℕ) : Option (Window α) :=
  if w.inner.length ≤ rel then
    (Buffer.resize room w.inner (rel + 1) none).map fun inner => { w with inner }
  else some w

/-- The index of a key, which `get`, `get_mut`, `remove` and `contains_key` begin with. -/
def index (w : Window α) (key : ℕ) : Option ℕ :=
  if key < w.offset then none
  else
    let diff := key - w.offset
    if w.inner.length ≤ diff then none else some diff

/-- `get`: a key outside the window has no entry, and is not looked up. -/
def get (w : Window α) (key : ℕ) : Option (Option α) :=
  match index w key with
  | none => some none
  | some idx => w.inner[idx]?

end Window.Checked

namespace Lion

variable {V : Type}

namespace VecMap.Checked

/-- `VecMap::grow_front`: build a vector of empty slots and move the old one to its end. -/
def growFront (room : ℕ) (w : Window V) (key : ℕ) : Option (Window V) := do
  let extra := w.offset - key
  let newInner ← Buffer.withCapacity (Option V) room (w.inner.length + extra)
  let newInner ← Buffer.resize room newInner extra none
  let newInner ← Buffer.append room newInner w.inner
  return ⟨newInner, key⟩

/-- `VecMap::set_slot`: the count goes up if the slot was empty, and has to stay within a word. -/
def setSlot (m : VecMap V) (rel : ℕ) (value : V) : Option (VecMap V) := do
  let slot ← m.inner[rel]?
  let count ← if slot.isNone then (if m.count + 1 < 2 ^ 64 then some (m.count + 1) else none)
    else some m.count
  let inner ← Buffer.set m.inner rel (some value)
  return { m with inner, count }

/-- `VecMap::take_at`: the count goes down if the slot was filled, and has to be positive. -/
def takeAt (m : VecMap V) (rel : ℕ) : Option (Option V × VecMap V) := do
  let result ← m.inner[rel]?
  let inner ← Buffer.set m.inner rel none
  let count ← if result.isSome then (if 0 < m.count then some (m.count - 1) else none)
    else some m.count
  return (result, { m with inner, count })

/-- `VecMap::insert`: make room at the front or at the end, and fill the slot. -/
def insert (room : ℕ) (m : VecMap V) (key : UInt64) (value : V) : Option (VecMap V) := do
  let w ← Window.Checked.reach (growFront room) m.toWindow key.toNat
  let rel := key.toNat - w.offset
  let w ← Window.Checked.ensureSlot room w rel
  setSlot ⟨w, m.count⟩ rel value

/-- `VecMap::get`, on the window that it has in common with `Slab`. -/
def get (m : VecMap V) (key : UInt64) : Option (Option V) :=
  Window.Checked.get m.toWindow key.toNat

/-- `VecMap::remove`: empty the slot of the key, if it has one. -/
def remove (m : VecMap V) (key : UInt64) : Option (Option V × VecMap V) :=
  match Window.Checked.index m.toWindow key.toNat with
  | none => some (none, m)
  | some idx => takeAt m idx

/-- `VecMap::contains_key`: look the key up, and say whether there was an entry. -/
def containsKey (m : VecMap V) (key : UInt64) : Option Bool :=
  match Window.Checked.index m.toWindow key.toNat with
  | none => some false
  | some idx => (m.inner[idx]?).map Option.isSome

end VecMap.Checked

namespace Slab.Checked

/-- `Slab::grow_front`: append the empty slots and rotate them to the front. -/
def growFront (room : ℕ) (w : Window V) (key : ℕ) : Option (Window V) := do
  let extra := w.offset - key
  let oldLen := w.inner.length
  let inner ← Buffer.resize room w.inner (oldLen + extra) none
  let inner ← Buffer.rotateRight inner extra
  return ⟨inner, key⟩

/-- `Slab::set_slot`: overwrite the slot, which has to exist. -/
def setSlot (s : Slab V) (rel : ℕ) (value : V) : Option (Slab V) :=
  (Buffer.set s.inner rel (some value)).map fun inner => ⟨⟨inner, s.offset⟩⟩

/-- `Slab::take_at`: empty the slot and return what was in it. Nothing is counted. -/
def takeAt (s : Slab V) (idx : ℕ) : Option (Option V × Slab V) := do
  let result ← s.inner[idx]?
  let inner ← Buffer.set s.inner idx none
  return (result, ⟨⟨inner, s.offset⟩⟩)

/-- `Slab::insert`: make room at the front or at the end, and fill the slot. -/
def insert (room : ℕ) (s : Slab V) (key : UInt64) (value : V) : Option (Slab V) := do
  let w ← Window.Checked.reach (growFront room) s.toWindow key.toNat
  let rel := key.toNat - w.offset
  let w ← Window.Checked.ensureSlot room w rel
  setSlot ⟨w⟩ rel value

/-- `Slab::get`, on the window that it has in common with `VecMap`. -/
def get (s : Slab V) (key : UInt64) : Option (Option V) :=
  Window.Checked.get s.toWindow key.toNat

/-- `Slab::get_mut`, of which the caller changes the entry by `f`. -/
def getMut (s : Slab V) (key : UInt64) (f : V → V) : Option (Option V × Slab V) :=
  match Window.Checked.index s.toWindow key.toNat with
  | none => some (none, s)
  | some idx => do
    let slot ← s.inner[idx]?
    let inner ← Buffer.set s.inner idx (slot.map f)
    return (slot, ⟨⟨inner, s.offset⟩⟩)

/-- `Slab::remove`: empty the slot of the key, if it has one. -/
def remove (s : Slab V) (key : UInt64) : Option (Option V × Slab V) :=
  match Window.Checked.index s.toWindow key.toNat with
  | none => some (none, s)
  | some idx => takeAt s idx

end Slab.Checked

/-! ### What the code should do -/

/-- Which of the two maps an operation is for. -/
inductive MapKind
  | vecMap
  | slab

/-- The operations of each map, under their names in the source. Some are of one of the two only. -/
inductive MapOp (V : Type) : MapKind → Type
  | insert {kind : MapKind} (key : UInt64) (value : V) : MapOp V kind
  | get {kind : MapKind} (key : UInt64) : MapOp V kind
  | remove {kind : MapKind} (key : UInt64) : MapOp V kind
  /-- `get_mut`, and what is done to the entry. -/
  | getMut (key : UInt64) (f : V → V) : MapOp V .slab
  | containsKey (key : UInt64) : MapOp V .vecMap
  | isEmpty : MapOp V .vecMap

/-- What an operation returns: nothing, an entry, or yes or no. -/
inductive MapAnswer (V : Type)
  | unit
  | entry (value : Option V)
  | flag (b : Bool)

/-- A map, as a function: what the two should be, without slots, offsets or counts. -/
abbrev PlainMap (V : Type) := UInt64 → Option V

open Classical in
/-- An operation on a plain map, and what it returns. -/
noncomputable def PlainMap.call {kind : MapKind} (p : PlainMap V) :
    MapOp V kind → MapAnswer V × PlainMap V
  | .insert key value => (.unit, Function.update p key (some value))
  | .get key => (.entry (p key), p)
  | .remove key => (.entry (p key), Function.update p key none)
  | .getMut key f => (.entry (p key), Function.update p key ((p key).map f))
  | .containsKey key => (.flag (p key).isSome, p)
  | .isEmpty => (.flag (decide (∀ k, p k = none)), p)

/-- Operations on a plain map, one after the other. -/
noncomputable def PlainMap.calls {kind : MapKind} :
    PlainMap V → List (MapOp V kind) → List (MapAnswer V) × PlainMap V
  | p, [] => ([], p)
  | p, op :: ops =>
    let (answer, p) := p.call op
    let (answers, p) := calls p ops
    (answer :: answers, p)

/-- An operation on a `VecMap`, with every check that the program makes. -/
def VecMap.call (room : ℕ) (m : VecMap V) : MapOp V .vecMap → Option (MapAnswer V × VecMap V)
  | .insert key value => (Checked.insert room m key value).map fun m => (.unit, m)
  | .get key => (Checked.get m key).map fun value => (.entry value, m)
  | .remove key => (Checked.remove m key).map fun res => (.entry res.1, res.2)
  | .containsKey key => (Checked.containsKey m key).map fun b => (.flag b, m)
  | .isEmpty => some (.flag m.isEmpty, m)

/-- An operation on a `Slab`, with every check that the program makes. -/
def Slab.call (room : ℕ) (s : Slab V) : MapOp V .slab → Option (MapAnswer V × Slab V)
  | .insert key value => (Checked.insert room s key value).map fun s => (.unit, s)
  | .get key => (Checked.get s key).map fun value => (.entry value, s)
  | .remove key => (Checked.remove s key).map fun res => (.entry res.1, res.2)
  | .getMut key f => (Checked.getMut s key f).map fun res => (.entry res.1, res.2)

/-- Operations, one after the other; none if one of them panics. -/
def calls {σ Op Answer : Type} (call : σ → Op → Option (Answer × σ)) :
    σ → List Op → Option (List Answer × σ)
  | s, [] => some ([], s)
  | s, op :: ops => do
    let (answer, s) ← call s op
    let (answers, s) ← calls call s ops
    return (answer :: answers, s)

/-- The key that an operation inserts, if it inserts one. -/
def MapOp.inserts {kind : MapKind} : MapOp V kind → List ℕ
  | .insert key _ => [key.toNat]
  | _ => []

/-- As many slots as memory holds reach from any key to any other one. -/
def Fits (room : ℕ) (ks : List ℕ) : Prop := ∀ k ∈ ks, ∀ k' ∈ ks, k' < k + room

instance (room : ℕ) (ks : List ℕ) : Decidable (Fits room ks) :=
  inferInstanceAs (Decidable (∀ k ∈ ks, ∀ k' ∈ ks, k' < k + room))

/-- The slots are shifted behind the new one, with empty ones between. -/
def Shifts (w : Window V) (key : ℕ) (value : V) (w' : Window V) : Prop :=
  w'.offset = key ∧
    w'.inner = some value :: (List.replicate (w.offset - key - 1) none ++ w.inner)

/-- A `VecMap` is a plain map, into which keys like `ks` were inserted. -/
structure VecMap.IsPlain (room : ℕ) (m : VecMap V) (p : PlainMap V) (ks : List ℕ) : Prop where
  get : ∀ k, m.get k = p k
  count : m.count = {k | p k ≠ none}.ncard
  isEmpty : m.isEmpty = true ↔ ∀ k, p k = none
  /-- A key below the offset shifts the slots. -/
  shifts : ∀ key value, m.inner ≠ [] → key.toNat < m.offset → Fits room (key.toNat :: ks) →
    ∃ m', VecMap.Checked.insert room m key value = some m' ∧
      Shifts m.toWindow key.toNat value m'.toWindow

/-- A `Slab` is a plain map, into which keys like `ks` were inserted. -/
structure Slab.IsPlain (room : ℕ) (s : Slab V) (p : PlainMap V) (ks : List ℕ) : Prop where
  get : ∀ k, s.get k = p k
  /-- A key below the offset shifts the slots. -/
  shifts : ∀ key value, s.inner ≠ [] → key.toNat < s.offset → Fits room (key.toNat :: ks) →
    ∃ s', Slab.Checked.insert room s key value = some s' ∧
      Shifts s.toWindow key.toNat value s'.toWindow

end Lion

/-! ### Windows -/

namespace Window

variable {α : Type} {room key rel : ℕ} {w : Window α}

namespace Checked

/-- A key has an index, which is the difference to the offset, or no entry. -/
theorem index_cases (w : Window α) (key : ℕ) :
    index w key = none ∧ w.get key = none ∨
      ∃ idx, index w key = some idx ∧ key = w.offset + idx ∧ idx < w.inner.length ∧
        w.inner[idx]? = some (w.get key) := by
  rw [index]
  split
  · rename_i hlt
    exact .inl ⟨rfl, get_of_lt hlt⟩
  · rename_i hnot
    have hle := Nat.not_lt.mp hnot
    dsimp only
    split
    · rename_i hlen
      exact .inl ⟨rfl, get_eq_none_of_length_le hlen⟩
    · rename_i hlen
      have hidx := Nat.not_le.mp hlen
      refine .inr ⟨_, rfl, by omega, hidx, ?_⟩
      rw [get_of_le hle, List.getElem?_eq_getElem hidx, Option.join_some]

/-- No index leaves the vector, so that a lookup does not panic. -/
theorem get_eq (w : Window α) (key : ℕ) : get w key = some (w.get key) := by
  rw [get]
  obtain ⟨hidx, hget⟩ | ⟨idx, hidx, -, -, hget⟩ := index_cases w key
  · rw [hidx, hget]
  · rw [hidx, ← hget]

theorem ensureSlot_eq (h : rel + 1 ≤ room) : ensureSlot room w rel = some (w.ensureSlot rel) := by
  rw [ensureSlot, Window.ensureSlot]
  split
  · rename_i hle
    rw [Buffer.resize_eq (Nat.le_succ_of_le hle) h]
    rfl
  · rfl

/-- Making room does not fail if there is room, at either end. -/
theorem reach_eq {growFront : Window α → ℕ → Option (Window α)}
    (hgrow : key < w.offset → (w.growFront key).inner.length ≤ room →
      growFront w key = some (w.growFront key))
    (h : (w.reach key).inner.length ≤ room) : reach growFront w key = some (w.reach key) := by
  rw [Window.reach] at h ⊢
  rw [reach]
  by_cases hnil : w.inner.length = 0
  · rw [if_pos hnil, if_pos hnil]
  · rw [if_neg hnil] at h ⊢
    rw [if_neg hnil]
    by_cases hlt : key < w.offset
    · rw [if_pos hlt] at h ⊢
      rw [if_pos hlt, hgrow hlt h]
    · rw [if_neg hlt, if_neg hlt]

end Checked

/-- A window of keys that are near enough to each other fits. -/
theorem Spans.length_le {ks : List ℕ} (h : w.Spans ks) (hfits : Lion.Fits room ks) :
    w.inner.length ≤ room := by
  by_cases hnil : w.inner = []
  · rw [hnil]
    exact Nat.zero_le _
  · obtain ⟨hlo, k, hk, heq⟩ := h hnil
    have hlt := hfits _ hlo k hk
    omega

/-- A key below the offset shifts the slots, and the offset is the key afterwards. -/
theorem shifts_insert (hne : w.inner ≠ []) (hlt : key < w.offset) (v : α) :
    Lion.Shifts w key v (w.insert key v) := by
  have hreach : w.reach key = w.growFront key := by
    rw [reach, if_neg fun hnil => hne (List.eq_nil_of_length_eq_zero hnil), if_pos hlt]
  have hpos : 0 < (w.growFront key).inner.length := by
    simp only [growFront, List.length_append, List.length_replicate]
    omega
  obtain ⟨n, hn⟩ : ∃ n, w.offset - key = n + 1 := Nat.exists_eq_succ_of_ne_zero (by omega)
  have hensure : (w.growFront key).ensureSlot (key - key) = w.growFront key := by
    rw [ensureSlot, Nat.sub_self, if_neg (Nat.not_le.mpr hpos)]
  rw [insert, hreach]
  show Lion.Shifts w key v (((w.growFront key).ensureSlot (key - key)).setSlot (key - key) v)
  rw [hensure, Nat.sub_self]
  refine ⟨rfl, ?_⟩
  simp only [setSlot, growFront, hn, List.replicate_succ, List.cons_append, List.set_cons_zero,
    Nat.add_sub_cancel]

end Window

namespace Lion

variable {V : Type} {room : ℕ} {w : Window V} {key : ℕ}

/-! ### Growing at the front -/

theorem VecMap.Checked.growFront_eq (h : (w.growFront key).inner.length ≤ room) :
    growFront room w key = some (w.growFront key) := by
  simp only [Window.growFront, List.length_append, List.length_replicate] at h
  have hcapacity : Buffer.withCapacity (Option V) room (w.inner.length + (w.offset - key)) =
      some [] :=
    Buffer.withCapacity_eq (by omega)
  have hresize : Buffer.resize room ([] : List (Option V)) (w.offset - key) none =
      some (List.replicate (w.offset - key) none) :=
    Buffer.resize_eq (Nat.zero_le _) (by omega) none
  have happend : Buffer.append room (List.replicate (w.offset - key) none) w.inner =
      some (List.replicate (w.offset - key) none ++ w.inner) :=
    Buffer.append_eq (by rw [List.length_replicate]; exact h)
  simp only [growFront, Option.bind_eq_bind, hcapacity, Option.bind_some, hresize, happend]
  rfl

theorem Slab.Checked.growFront_eq (h : (w.growFront key).inner.length ≤ room) :
    growFront room w key = some (w.growFront key) := by
  simp only [Window.growFront, List.length_append, List.length_replicate] at h
  have hresize : Buffer.resize room w.inner (w.inner.length + (w.offset - key)) none =
      some (w.inner ++ List.replicate (w.offset - key) none) := by
    rw [Buffer.resize_eq (Nat.le_add_right _ _) (by omega), Nat.add_sub_cancel_left]
  have hrotate := Buffer.rotateRight_append w.inner
    (List.replicate (w.offset - key) (none : Option V))
  rw [List.length_replicate] at hrotate
  simp only [growFront, Option.bind_eq_bind, Option.bind_some, hresize, hrotate]
  rfl

/-! ### What is checked does not fail -/

namespace VecMap

variable {m : VecMap V} {idx : ℕ}

/-- An empty slot is not counted yet, so there is room in the count for it. -/
theorem CountWf.count_lt (h : m.CountWf) (hslot : m.inner[idx]? = some none) :
    m.count < m.inner.length := by
  rw [h, Window.occupancy]
  refine List.countP_lt_length_iff.mpr ⟨none, ?_, rfl⟩
  exact List.mem_of_getElem? hslot

/-- A filled one is counted, so that the count can be lowered. -/
theorem CountWf.count_pos {v : V} (h : m.CountWf) (hslot : m.inner[idx]? = some (some v)) :
    0 < m.count := by
  rw [h, Window.occupancy]
  exact List.countP_pos_iff.mpr ⟨some v, List.mem_of_getElem? hslot, rfl⟩

theorem Checked.setSlot_eq (h : m.CountWf) (hroom : m.inner.length < 2 ^ 64)
    (hidx : idx < m.inner.length) (v : V) : setSlot m idx v = some (m.setSlot idx v) := by
  rw [setSlot, VecMap.setSlot]
  cases hslot : m.inner[idx]? with
  | none => exact absurd hidx (Nat.not_lt.mpr (List.getElem?_eq_none_iff.mp hslot))
  | some slot =>
    cases slot with
    | none =>
      have hlt := h.count_lt hslot
      have hcount : m.count + 1 < 2 ^ 64 := by omega
      simp only [Option.bind_eq_bind, Option.bind_some, Option.isNone_none, if_true, if_pos hcount,
        Buffer.set_eq hidx]
      rfl
    | some old =>
      simp only [Option.bind_eq_bind, Option.bind_some, Option.isNone_some, Bool.false_eq_true,
        if_false, Buffer.set_eq hidx]
      rfl

theorem Checked.takeAt_eq (h : m.CountWf) (hidx : idx < m.inner.length) :
    takeAt m idx = some (m.takeAt idx) := by
  rw [takeAt, VecMap.takeAt]
  cases hslot : m.inner[idx]? with
  | none => exact absurd hidx (Nat.not_lt.mpr (List.getElem?_eq_none_iff.mp hslot))
  | some slot =>
    cases slot with
    | none =>
      simp only [Option.bind_eq_bind, Option.bind_some, Option.isSome_none, Bool.false_eq_true,
        if_false, Buffer.set_eq hidx]
      rfl
    | some v =>
      have hpos := h.count_pos hslot
      simp only [Option.bind_eq_bind, Option.bind_some, Option.isSome_some, if_true, if_pos hpos,
        Buffer.set_eq hidx]
      rfl

/-- `insert` does not fail if the slots fit, and then does what it does without the checks. -/
theorem Checked.insert_eq (h : m.CountWf) (hroom : room < 2 ^ 64) (key : UInt64) (v : V)
    (hfits : (m.toWindow.insert key.toNat v).inner.length ≤ room) :
    insert room m key v = some (m.insert key v) := by
  rw [Window.length_insert, Nat.max_le] at hfits
  have hreach : Window.Checked.reach (growFront room) m.toWindow key.toNat =
      some (m.toWindow.reach key.toNat) :=
    Window.Checked.reach_eq (fun _ => growFront_eq) hfits.1
  have hlen := Window.length_ensureSlot (m.toWindow.reach key.toNat)
    (key.toNat - (m.toWindow.reach key.toNat).offset)
  have hcount : CountWf ⟨(m.toWindow.reach key.toNat).ensureSlot
      (key.toNat - (m.toWindow.reach key.toNat).offset), m.count⟩ := by
    rw [CountWf, Window.occupancy_ensureSlot, Window.occupancy_reach]
    exact h
  have hset := setSlot_eq hcount (by rw [hlen]; omega) (Window.lt_length_ensureSlot _ _) v
  rw [insert, hreach]
  simp only [Option.bind_eq_bind, Option.bind_some, Window.Checked.ensureSlot_eq hfits.2, hset]
  rfl

theorem Checked.remove_eq (h : m.CountWf) (key : UInt64) :
    remove m key = some (m.remove key) := by
  rw [remove, VecMap.remove, Window.Checked.index]
  by_cases hlt : key.toNat < m.offset
  · rw [if_pos hlt, if_pos hlt]
  · rw [if_neg hlt, if_neg hlt]
    by_cases hlen : m.inner.length ≤ key.toNat - m.offset
    · rw [if_pos hlen, if_pos hlen]
    · rw [if_neg hlen, if_neg hlen]
      exact takeAt_eq h (Nat.not_le.mp hlen)

theorem Checked.containsKey_eq (m : VecMap V) (key : UInt64) :
    containsKey m key = some (m.containsKey key) := by
  rw [containsKey, VecMap.containsKey, VecMap.get]
  obtain ⟨hidx, hget⟩ | ⟨idx, hidx, -, -, hget⟩ :=
    Window.Checked.index_cases m.toWindow key.toNat
  · rw [hidx, hget]
    rfl
  · rw [hidx]
    dsimp only
    rw [hget]
    rfl

end VecMap

namespace Slab

variable {s : Slab V}

/-- `insert` does not fail if the slots fit, whatever is stored already. -/
theorem Checked.insert_eq (key : UInt64) (v : V)
    (hfits : (s.toWindow.insert key.toNat v).inner.length ≤ room) :
    insert room s key v = some (s.insert key v) := by
  rw [Window.length_insert, Nat.max_le] at hfits
  have hreach : Window.Checked.reach (growFront room) s.toWindow key.toNat =
      some (s.toWindow.reach key.toNat) :=
    Window.Checked.reach_eq (fun _ => growFront_eq) hfits.1
  have hset := Buffer.set_eq (Window.lt_length_ensureSlot (s.toWindow.reach key.toNat)
    (key.toNat - (s.toWindow.reach key.toNat).offset)) (some v)
  rw [insert, hreach]
  simp only [Option.bind_eq_bind, Option.bind_some, Window.Checked.ensureSlot_eq hfits.2, setSlot,
    hset]
  rfl

theorem Checked.remove_eq (s : Slab V) (key : UInt64) : remove s key = some (s.remove key) := by
  rw [remove, Slab.remove, Window.remove, Window.Checked.index]
  by_cases hlt : key.toNat < s.offset
  · rw [if_pos hlt, if_pos hlt]
  · rw [if_neg hlt, if_neg hlt]
    by_cases hlen : s.inner.length ≤ key.toNat - s.offset
    · rw [if_pos hlen, if_pos hlen]
    · rw [if_neg hlen, if_neg hlen]
      have hidx := Nat.not_le.mp hlen
      have hget : s.inner[key.toNat - s.offset]? = some (s.toWindow.get key.toNat) := by
        rw [Window.get_of_le (Nat.not_lt.mp hlt), List.getElem?_eq_getElem hidx, Option.join_some]
      simp only [takeAt, hget, Option.bind_eq_bind, Option.bind_some, Buffer.set_eq hidx]
      rfl

/-- What `get_mut` does: its caller changes the entry, if there is one. -/
theorem Checked.getMut_spec (s : Slab V) (key : UInt64) (f : V → V) :
    ∃ s', getMut s key f = some (s.get key, s') ∧ s'.offset = s.offset ∧
      s'.inner.length = s.inner.length ∧
      ∀ k, s'.get k = if k = key then (s.get key).map f else s.get k := by
  rw [getMut]
  obtain ⟨hidx, hget⟩ | ⟨idx, hidx, hkey, hlt, hget⟩ :=
    Window.Checked.index_cases s.toWindow key.toNat
  · rw [hidx]
    refine ⟨s, by rw [Slab.get, hget], rfl, rfl, fun k => ?_⟩
    split
    · rename_i hk
      rw [hk, Slab.get, hget]
      rfl
    · rfl
  · rw [hidx]
    refine ⟨⟨⟨s.inner.set idx ((s.get key).map f), s.offset⟩⟩, ?_, rfl, List.length_set,
      fun k => ?_⟩
    · simp only [hget, Option.bind_eq_bind, Option.bind_some, Buffer.set_eq hlt]
      rfl
    · have hset := Window.get_set s.toWindow idx ((s.get key).map f) k.toNat
      rw [if_pos hlt, ← hkey] at hset
      simp only [UInt64.toNat_inj] at hset
      exact hset

end Slab

/-! ### One operation -/

/-- The entries are those of a plain map, and the slots are between keys of `ks`. -/
structure VecMap.Represents (m : VecMap V) (p : PlainMap V) (ks : List ℕ) : Prop where
  get : ∀ k, m.get k = p k
  spans : m.toWindow.Spans ks
  /-- The count is that of the filled slots. -/
  countWf : m.CountWf
  /-- It is that of the keys. -/
  counted : m.Counted

/-- The entries are those of a plain map, and the slots are between keys of `ks`. -/
structure Slab.Represents (s : Slab V) (p : PlainMap V) (ks : List ℕ) : Prop where
  get : ∀ k, s.get k = p k
  spans : s.toWindow.Spans ks

theorem Fits.mono {ks ks' : List ℕ} (h : Fits room ks') (hsub : ks ⊆ ks') : Fits room ks :=
  fun k hk k' hk' => h k (hsub hk) k' (hsub hk')

theorem VecMap.represents_new : (VecMap.new : VecMap V).Represents (fun _ => none) [] :=
  ⟨VecMap.get_new, Window.spans_empty, VecMap.countWf_new, VecMap.counted_new⟩

theorem Slab.represents_new : (Slab.new : Slab V).Represents (fun _ => none) [] :=
  ⟨Slab.get_new, Window.spans_empty⟩

namespace VecMap.Represents

variable {m : VecMap V} {p : PlainMap V} {ks : List ℕ}

theorem mono {ks' : List ℕ} (h : m.Represents p ks) (hsub : ks ⊆ ks') : m.Represents p ks' :=
  { h with spans := h.spans.mono hsub }

theorem insert (h : m.Represents p ks) (key : UInt64) (v : V) :
    (m.insert key v).Represents (Function.update p key (some v)) (key.toNat :: ks) := by
  refine ⟨fun k => ?_, h.spans.insert key.toNat v, h.countWf.insert key v, h.counted.insert key v⟩
  rw [get_insert, Function.update_apply, h.get]

theorem remove (h : m.Represents p ks) (key : UInt64) :
    (m.remove key).2.Represents (Function.update p key none) ks := by
  refine ⟨fun k => ?_, ?_, h.countWf.remove key, h.counted.remove key⟩
  · rw [get_remove, Function.update_apply, h.get]
  · rw [toWindow_remove]
    exact h.spans.remove key.toNat

/-- **One operation on a `VecMap`** is that on the plain map. -/
theorem call (h : m.Represents p ks) (hroom : room < 2 ^ 64) (op : MapOp V .vecMap)
    (hfits : Fits room (op.inserts ++ ks)) : ∃ m', m.call room op = some ((p.call op).1, m') ∧
      m'.Represents (p.call op).2 (op.inserts ++ ks) := by
  cases op with
  | insert key v =>
    have hinsert := h.insert key v
    have hlen := hinsert.spans.length_le hfits
    refine ⟨m.insert key v, ?_, hinsert⟩
    rw [VecMap.call, Checked.insert_eq h.countWf hroom key v hlen]
    rfl
  | get key =>
    refine ⟨m, ?_, h⟩
    have hget : Checked.get m key = some (p key) := by
      rw [← h.get]
      exact Window.Checked.get_eq _ _
    rw [VecMap.call, hget]
    rfl
  | remove key =>
    refine ⟨(m.remove key).2, ?_, h.remove key⟩
    rw [VecMap.call, Checked.remove_eq h.countWf key, Option.map_some, remove_fst, h.get]
    rfl
  | containsKey key =>
    refine ⟨m, ?_, h⟩
    rw [VecMap.call, Checked.containsKey_eq, VecMap.containsKey, h.get]
    rfl
  | isEmpty =>
    refine ⟨m, ?_, h⟩
    have hempty : m.isEmpty = decide (∀ k, p k = none) := by
      rw [Bool.eq_iff_iff, h.counted.isEmpty_iff, decide_eq_true_iff]
      exact forall_congr' fun k => by rw [h.get]
    rw [VecMap.call, hempty]
    rfl

theorem isPlain (h : m.Represents p ks) (hroom : room < 2 ^ 64) : m.IsPlain room p ks where
  get := h.get
  count := by
    rw [h.counted]
    have hkeys : m.keys = {k | p k ≠ none} := by
      ext k
      show m.get k ≠ none ↔ p k ≠ none
      rw [h.get]
    rw [hkeys]
  isEmpty := by
    rw [h.counted.isEmpty_iff]
    exact forall_congr' fun k => by rw [h.get]
  shifts key v hne hlt hfits := by
    have hlen := (h.spans.insert key.toNat v).length_le hfits
    exact ⟨m.insert key v, Checked.insert_eq h.countWf hroom key v hlen,
      Window.shifts_insert hne hlt v⟩

end VecMap.Represents

namespace Slab.Represents

variable {s : Slab V} {p : PlainMap V} {ks : List ℕ}

theorem mono {ks' : List ℕ} (h : s.Represents p ks) (hsub : ks ⊆ ks') : s.Represents p ks' :=
  { h with spans := h.spans.mono hsub }

/-- **One operation on a `Slab`** is that on the plain map. -/
theorem call (h : s.Represents p ks) (op : MapOp V .slab) (hfits : Fits room (op.inserts ++ ks)) :
    ∃ s', s.call room op = some ((p.call op).1, s') ∧
      s'.Represents (p.call op).2 (op.inserts ++ ks) := by
  cases op with
  | insert key v =>
    have hspans := h.spans.insert key.toNat v
    have hlen := hspans.length_le hfits
    refine ⟨s.insert key v, ?_, fun k => ?_, hspans⟩
    · rw [Slab.call, Checked.insert_eq key v hlen]
      rfl
    · rw [get_insert, h.get]
      exact (Function.update_apply p key (some v) k).symm
  | get key =>
    refine ⟨s, ?_, h⟩
    have hget : Checked.get s key = some (p key) := by
      rw [← h.get]
      exact Window.Checked.get_eq _ _
    rw [Slab.call, hget]
    rfl
  | remove key =>
    refine ⟨(s.remove key).2, ?_, fun k => ?_, h.spans.remove key.toNat⟩
    · rw [Slab.call, Checked.remove_eq, Option.map_some, remove_fst, h.get]
      rfl
    · rw [get_remove, h.get]
      exact (Function.update_apply p key none k).symm
  | getMut key f =>
    obtain ⟨s', hmut, hoffset, hlen, hget⟩ := Checked.getMut_spec s key f
    refine ⟨s', ?_, fun k => ?_, h.spans.congr hoffset hlen⟩
    · rw [Slab.call, hmut, h.get]
      rfl
    · rw [hget, h.get, h.get]
      exact (Function.update_apply p key ((p key).map f) k).symm

theorem isPlain (h : s.Represents p ks) : s.IsPlain room p ks where
  get := h.get
  shifts key v hne hlt hfits := by
    have hlen := (h.spans.insert key.toNat v).length_le hfits
    exact ⟨s.insert key v, Checked.insert_eq key v hlen, Window.shifts_insert hne hlt v⟩

end Slab.Represents

/-! ### Any operations -/

/-- What each operation does, all of them do, one after the other. -/
theorem calls_eq {kind : MapKind} {σ : Type}
    {call : σ → MapOp V kind → Option (MapAnswer V × σ)} {R : σ → PlainMap V → List ℕ → Prop}
    (hmono : ∀ {s p ks ks'}, R s p ks → ks ⊆ ks' → R s p ks')
    (hcall : ∀ {s p ks} (op : MapOp V kind), R s p ks → Fits room (op.inserts ++ ks) →
      ∃ s', call s op = some ((p.call op).1, s') ∧ R s' (p.call op).2 (op.inserts ++ ks))
    (ops : List (MapOp V kind)) {s : σ} {p : PlainMap V} {ks : List ℕ} (h : R s p ks)
    (hfits : Fits room (ops.flatMap MapOp.inserts ++ ks)) :
    ∃ s', calls call s ops = some ((p.calls ops).1, s') ∧
      R s' (p.calls ops).2 (ops.flatMap MapOp.inserts ++ ks) := by
  induction ops generalizing s p ks with
  | nil => exact ⟨s, rfl, h⟩
  | cons op ops ih =>
    have hsub : ops.flatMap MapOp.inserts ++ (op.inserts ++ ks) ⊆
        (op :: ops).flatMap MapOp.inserts ++ ks := by
      intro k hk
      rw [List.flatMap_cons]
      simp only [List.mem_append] at hk ⊢
      tauto
    obtain ⟨s₁, hop, hR₁⟩ := hcall op h ((hfits.mono hsub).mono (List.subset_append_right _ _))
    obtain ⟨s₂, hops, hR₂⟩ := ih hR₁ (hfits.mono hsub)
    refine ⟨s₂, ?_, hmono hR₂ hsub⟩
    simp only [calls, hop, hops, Option.bind_eq_bind, Option.bind_some]
    rfl

/-- **Both are finite maps.** Any operations on a new `VecMap` or `Slab`, in any order of keys that
are near enough to each other for memory, return what they return on a plain map, and leave what
they leave of it. -/
theorem finiteMaps (V : Type) (room : ℕ) (hroom : room < 2 ^ 64) :
    (∀ ops : List (MapOp V .vecMap), Fits room (ops.flatMap MapOp.inserts) →
      ∃ m, calls (VecMap.call room) .new ops = some ((PlainMap.calls (fun _ => none) ops).1, m) ∧
        m.IsPlain room (PlainMap.calls (fun _ => none) ops).2 (ops.flatMap MapOp.inserts)) ∧
    ∀ ops : List (MapOp V .slab), Fits room (ops.flatMap MapOp.inserts) →
      ∃ s, calls (Slab.call room) .new ops = some ((PlainMap.calls (fun _ => none) ops).1, s) ∧
        s.IsPlain room (PlainMap.calls (fun _ => none) ops).2 (ops.flatMap MapOp.inserts) := by
  refine ⟨fun ops hfits => ?_, fun ops hfits => ?_⟩
  · obtain ⟨m, hcalls, hrep⟩ := calls_eq (fun h => h.mono) (fun op h => h.call hroom op) ops
      VecMap.represents_new (by rwa [List.append_nil])
    rw [List.append_nil] at hrep
    exact ⟨m, hcalls, hrep.isPlain hroom⟩
  · obtain ⟨s, hcalls, hrep⟩ := calls_eq (fun h => h.mono) (fun op h => h.call op) ops
      Slab.represents_new (by rwa [List.append_nil])
    rw [List.append_nil] at hrep
    exact ⟨s, hcalls, hrep.isPlain⟩

/-- Keys above and below the first one, in a memory of six slots. -/
theorem finiteMaps_below : ∃ s : Slab ℕ, calls (Slab.call 6) .new
    [.insert 7 70, .insert 5 50, .insert 9 90, .getMut 7 (· + 1), .remove 5, .insert 4 40, .get 7] =
      some ((PlainMap.calls (fun _ => none) ([.insert 7 70, .insert 5 50, .insert 9 90,
        .getMut 7 (· + 1), .remove 5, .insert 4 40, .get 7] : List (MapOp ℕ .slab))).1, s) := by
  obtain ⟨-, hslab⟩ := finiteMaps ℕ 6 (by decide)
  obtain ⟨s, hcalls, -⟩ := hslab [.insert 7 70, .insert 5 50, .insert 9 90, .getMut 7 (· + 1),
    .remove 5, .insert 4 40, .get 7] (by decide)
  exact ⟨s, hcalls⟩

end Lion
