import Lion.Sync.Mpsc
import Mathlib.Data.List.Nodup

/-!
# Senders that wait for a slot

What matters about parked senders, without wakers, values and the receiver: the queue of ids, the
number of free slots, and the futures. `Parking.Step` is what can happen while the channel is open.
A slot that becomes free is paid for by taking a sender from the queue to be woken; the debt is
settled when that sender is polled, or passed on when it is dropped.

The invariant counts. While senders are queued, there are at most as many free slots as there are
senders that were woken and not polled since (`Parking.Paid`). For it to be kept, the flags of the
futures, their ids and the queue must agree (`Parking.Ok`).

## Why a count

No sender has a slot of its own to wait for. A woken sender that comes late finds the slot taken by
a `try_send` and parks again; one that comes early takes a slot that another was woken for. So it
cannot be said of a sender that its slot is there, but only of all of them that none is free without
a sender on its way to it. A poll takes one sender from those on their way, and it takes a slot as
well, or there was none free and nothing is owed.

## Which sender was woken

A future does not know that it was woken: nothing in it changes. It can be told, though, from its id
not being queued any more while it has parked and not returned (`FutureOk.woken`), and this is what
the drop of a future goes by when it passes the wake on. `Ok` is what makes that sound: ids are
distinct, handed out once, and queued for as long as their owner is alive and was not woken.

## Main results

* `Parking.Ok.step`, `Parking.Paid.step` — what one step keeps
-/

namespace Lion.Mpsc

variable {T : Type}

/-! ### Futures by number -/

/-- The future with number `i`, if there is one that was not dropped. -/
def live (futures : List (Option (SenderFuture T))) (i : ℕ) : Option (SenderFuture T) :=
  futures[i]?.join

/-- How many futures were woken and not polled since. They are the ones on their way to a slot. -/
def wokenCount (futures : List (Option (SenderFuture T))) : ℕ :=
  futures.countP (Option.any SenderFuture.woken)

section Futures

variable {futures : List (Option (SenderFuture T))} {i : ℕ} {f : SenderFuture T}

theorem live_eq_some : live futures i = some f ↔ futures[i]? = some (some f) := by
  simp [live, Option.join_eq_some_iff]

theorem lt_length_of_live (h : live futures i = some f) : i < futures.length :=
  (List.getElem?_eq_some_iff.mp (live_eq_some.mp h)).1

theorem live_set (h : live futures i = some f) (a : Option (SenderFuture T)) (j : ℕ) :
    live (futures.set i a) j = if j = i then a else live futures j := by
  rw [live, List.getElem?_set]
  by_cases hij : i = j
  · subst hij
    simp [lt_length_of_live h]
  · simp [hij, Ne.symm hij, live]

theorem live_append (futures : List (Option (SenderFuture T))) (a : SenderFuture T) (j : ℕ) :
    live (futures ++ [some a]) j = if j = futures.length then some a else live futures j := by
  by_cases hj : j < futures.length
  · simp [live, List.getElem?_append_left hj, Nat.ne_of_lt hj]
  · rw [live, List.getElem?_append_right (Nat.not_lt.mp hj), live,
      List.getElem?_eq_none (Nat.not_lt.mp hj)]
    by_cases heq : j = futures.length
    · simp [heq]
    · rw [List.getElem?_eq_none (by simp; omega), if_neg heq]

@[simp] theorem mark_id (id : ℕ) (f : SenderFuture T) : (f.mark id).id = f.id := by
  rw [SenderFuture.mark]
  split <;> rfl

@[simp] theorem mark_parked (id : ℕ) (f : SenderFuture T) : (f.mark id).parked = f.parked := by
  rw [SenderFuture.mark]
  split <;> rfl

theorem mark_woken (id : ℕ) (f : SenderFuture T) :
    (f.mark id).woken = (f.woken || (f.parked && f.id = id)) := by
  rw [SenderFuture.mark]
  split
  · rename_i h
    rw [h, Bool.or_true]
  · rename_i h
    rw [Bool.eq_false_iff.mpr h, Bool.or_false]

theorem live_markWoken (id : ℕ) (futures : List (Option (SenderFuture T))) (j : ℕ) :
    live (markWoken id futures) j = (live futures j).map (SenderFuture.mark id) := by
  simp only [live, markWoken, List.getElem?_map]
  cases futures[j]? with
  | none => rfl
  | some o => cases o <;> rfl

theorem wokenCount_set (h : live futures i = some f) (a : Option (SenderFuture T)) :
    wokenCount (futures.set i a) + (if f.woken then 1 else 0) =
      wokenCount futures + (if a.any SenderFuture.woken then 1 else 0) := by
  obtain ⟨hlt, hget⟩ := List.getElem?_eq_some_iff.mp (live_eq_some.mp h)
  rw [wokenCount, wokenCount, List.countP_set hlt, hget]
  by_cases hw : f.woken = true
  · have hpos : 0 < futures.countP (Option.any SenderFuture.woken) := by
      refine List.countP_pos_iff.mpr ⟨some f, ?_, hw⟩
      rw [← hget]
      exact List.getElem_mem hlt
    simp only [Option.any_some, hw, if_true]
    omega
  · simp [hw]

theorem wokenCount_append (futures : List (Option (SenderFuture T))) (a : SenderFuture T) :
    wokenCount futures ≤ wokenCount (futures ++ [some a]) := by
  rw [wokenCount, wokenCount, List.countP_append]
  exact Nat.le_add_right _ _

/-- A sender that was not woken before counts once it is marked. -/
theorem wokenCount_markWoken {id : ℕ} (h : live futures i = some f) (hparked : f.parked = true)
    (hid : f.id = id) (hwoken : f.woken = false) :
    wokenCount futures + 1 ≤ wokenCount (markWoken id futures) := by
  rw [live_eq_some] at h
  -- marking only sets flags, and sets this one
  have hmono : ∀ o : Option (SenderFuture T), o.any SenderFuture.woken = true →
      (o.map (SenderFuture.mark id)).any SenderFuture.woken = true := by
    intro o ho
    cases o with
    | none => exact ho
    | some f₀ =>
      simp only [Option.map_some, Option.any_some] at ho ⊢
      rw [mark_woken, ho, Bool.true_or]
  induction futures generalizing i with
  | nil => simp at h
  | cons o rest ih =>
    rw [wokenCount, wokenCount, markWoken, List.map_cons, List.countP_cons, List.countP_cons]
    cases i with
    | zero =>
      rw [List.getElem?_cons_zero, Option.some.injEq] at h
      subst h
      have hrest : rest.countP (Option.any SenderFuture.woken) ≤
          (rest.map (Option.map (SenderFuture.mark id))).countP
            (Option.any SenderFuture.woken) := by
        rw [List.countP_map]
        exact List.countP_mono_left fun o _ ho => hmono o ho
      have hself : (f.mark id).woken = true := by simp [mark_woken, hparked, hid]
      simp only [Option.map_some, Option.any_some, hwoken, hself, if_true]
      simpa using hrest
    | succ i =>
      rw [List.getElem?_cons_succ] at h
      have hrest := ih h
      rw [wokenCount, wokenCount, markWoken] at hrest
      have hhead := hmono o
      split
      · rename_i ho
        rw [if_pos (hhead ho)]
        omega
      · omega

end Futures

/-! ### Steps -/

/-- What matters about parked senders: who is queued, how many slots are free, and the futures
themselves. Wakers, values and the receiver are left out. -/
structure Parking (T : Type) where
  /-- The ids of parked senders, in the order they have parked in. -/
  queue : List ℕ
  /-- The id to be handed out next. -/
  next : ℕ
  /-- How many slots are neither filled nor reserved. -/
  free : ℕ
  futures : List (Option (SenderFuture T))

namespace Parking

/-- Take the sender that parked first from the queue, to be woken. If nobody is queued, nothing is
remembered. -/
def wakeOne (p : Parking T) : Parking T :=
  match p.queue with
  | [] => p
  | id :: rest => { p with queue := rest, futures := markWoken id p.futures }

/-- What can happen to the senders in one operation, while the channel is open. -/
inductive Step (p : Parking T) : Parking T → Prop
  /-- Slots are taken, or nothing happens. -/
  | take {free : ℕ} : free ≤ p.free → Step p { p with free := free }
  /-- A future is made. -/
  | create (kind : Kind T) : Step p { p with futures := p.futures ++ [some (.new kind)] }
  /-- A slot becomes free. -/
  | release {free : ℕ} : free ≤ p.free + 1 → Step p { p with free := free }.wakeOne
  /-- A future that is polled finds a slot. -/
  | done {i : ℕ} {f f' : SenderFuture T} :
      live p.futures i = some f → f.finished = false → 0 < p.free →
      f'.id = f.id → f'.parked = f.parked → f'.completed = true → f'.finished = true →
      f'.woken = false → Step p { p with
        free := p.free - 1
        queue := if f.parked then p.queue.erase f.id else p.queue
        futures := p.futures.set i (some f') }
  /-- A future that is polled finds none, and is still queued. -/
  | refresh {i : ℕ} {f f' : SenderFuture T} :
      live p.futures i = some f → f.finished = false → f.parked = true → f.id ∈ p.queue →
      f'.toWaiter = f.toWaiter → f'.finished = false → f'.woken = false →
      Step p { p with futures := p.futures.set i (some f') }
  /-- A future that is polled finds none and is not queued, and parks under a fresh id. -/
  | park {i : ℕ} {f f' : SenderFuture T} :
      live p.futures i = some f → f.finished = false → p.free = 0 →
      (f.parked = true → f.id ∉ p.queue) →
      f'.id = p.next → f'.parked = true → f'.completed = f.completed → f'.finished = false →
      f'.woken = false → Step p { p with
        queue := p.queue ++ [p.next]
        next := p.next + 1
        futures := p.futures.set i (some f') }
  /-- A future is dropped that is done or never parked. -/
  | drop {i : ℕ} {f : SenderFuture T} :
      live p.futures i = some f → f.completed = true ∨ f.parked = false →
      Step p { p with futures := p.futures.set i none }
  /-- A future is dropped that is queued. -/
  | cancel {i : ℕ} {f : SenderFuture T} :
      live p.futures i = some f → f.completed = false → f.parked = true → f.id ∈ p.queue →
      Step p { p with queue := p.queue.erase f.id, futures := p.futures.set i none }
  /-- A future is dropped that was woken, and another is woken in its place. -/
  | forward {i : ℕ} {f : SenderFuture T} :
      live p.futures i = some f → f.completed = false → f.parked = true →
      f.id ∉ p.queue → Step p { p with futures := p.futures.set i none }.wakeOne

/-! ### The flags of the futures -/

variable {p p' : Parking T} {i j : ℕ} {f f' : SenderFuture T}

/-- What the flags of a future say about the queue. Its own fields tell whether it was woken, which
no flag of the source does. -/
structure FutureOk (queue : List ℕ) (next : ℕ) (f : SenderFuture T) : Prop where
  completed : f.completed = f.finished
  below : f.parked = true → f.id < next
  finished : f.finished = true → f.parked = true → f.id ∉ queue
  /-- The woken ones are those that have parked, have not returned, and are not queued. -/
  woken : f.woken = true ↔ f.parked = true ∧ f.finished = false ∧ f.id ∉ queue

/-- The futures and the queue agree: who is queued, and under which id, can be told from either. -/
structure Ok (p : Parking T) : Prop where
  nodup : p.queue.Nodup
  below : ∀ id ∈ p.queue, id < p.next
  /-- No two futures parked under the same id. -/
  distinct : ∀ i j f f', live p.futures i = some f → live p.futures j = some f' →
    f.parked = true → f'.parked = true → f.id = f'.id → i = j
  owner : ∀ id ∈ p.queue, ∃ i f, live p.futures i = some f ∧ f.parked = true ∧ f.id = id
  /-- The flags of every future that is alive agree with the queue. -/
  flags : ∀ i f, live p.futures i = some f → FutureOk p.queue p.next f

/-- While senders are queued, free slots are paid for by woken ones. With nobody queued there may be
free slots and nobody on the way to them. -/
def Paid (p : Parking T) : Prop := p.queue ≠ [] → p.free ≤ wokenCount p.futures

/-- Fewer ids in the queue: a future whose own id stays, or that does not wait for it. -/
theorem FutureOk.mono {queue queue' : List ℕ} {next next' : ℕ} (h : FutureOk queue next f)
    (hnext : next ≤ next') (hqueue : f.parked = true → (f.id ∈ queue' ↔ f.id ∈ queue)) :
    FutureOk queue' next' f := by
  refine ⟨h.completed, fun hp => Nat.lt_of_lt_of_le (h.below hp) hnext, fun hf hp => ?_, ?_⟩
  · rw [hqueue hp]
    exact h.finished hf hp
  · rw [h.woken]
    constructor
    · rintro ⟨hp, hf, hid⟩
      exact ⟨hp, hf, fun hmem => hid ((hqueue hp).mp hmem)⟩
    · rintro ⟨hp, hf, hid⟩
      exact ⟨hp, hf, fun hmem => hid ((hqueue hp).mpr hmem)⟩

theorem Ok.wakeOne (h : Ok p) : Ok p.wakeOne := by
  rw [Parking.wakeOne]
  split
  · exact h
  · rename_i id rest hq
    have hnodup := h.nodup
    rw [hq, List.nodup_cons] at hnodup
    have hrest : ∀ x ∈ rest, x ∈ p.queue := fun x hx => by rw [hq]; exact List.mem_cons_of_mem _ hx
    have hlive : ∀ {j : ℕ} {f' : SenderFuture T}, live (markWoken id p.futures) j = some f' →
        ∃ f, live p.futures j = some f ∧ f' = f.mark id := by
      intro j f' hj
      rw [live_markWoken] at hj
      obtain ⟨f, hf, heq⟩ := Option.map_eq_some_iff.mp hj
      exact ⟨f, hf, heq.symm⟩
    constructor
    · exact hnodup.2
    · exact fun x hx => h.below x (hrest x hx)
    · intro i j f f' hi hj hp hp' heq
      obtain ⟨f₀, hi₀, rfl⟩ := hlive hi
      obtain ⟨f₁, hj₁, rfl⟩ := hlive hj
      rw [mark_parked] at hp hp'
      rw [mark_id, mark_id] at heq
      exact h.distinct i j f₀ f₁ hi₀ hj₁ hp hp' heq
    · intro x hx
      obtain ⟨i, f, hi, hp, hid⟩ := h.owner x (hrest x hx)
      refine ⟨i, f.mark id, ?_, ?_, ?_⟩
      · rw [live_markWoken, hi]
        rfl
      · rw [mark_parked, hp]
      · rw [mark_id, hid]
    · intro i f' hi
      obtain ⟨f, hf, rfl⟩ := hlive hi
      have hok := h.flags i f hf
      rw [SenderFuture.mark]
      split
      · rename_i hcond
        rw [Bool.and_eq_true, decide_eq_true_iff] at hcond
        obtain ⟨hp, rfl⟩ := hcond
        have hmem : f.id ∈ p.queue := by simp [hq]
        refine ⟨hok.completed, hok.below, fun hf => absurd hmem (hok.finished hf hp), ?_⟩
        have hfin : f.finished = false := by
          by_contra hf
          exact hok.finished (by simpa using hf) hp hmem
        exact iff_of_true rfl ⟨hp, hfin, hnodup.1⟩
      · rename_i hcond
        rw [Bool.and_eq_true, decide_eq_true_iff, not_and] at hcond
        refine hok.mono (Nat.le_refl _) fun hp => ?_
        rw [hq, List.mem_cons]
        exact ⟨.inr, fun hmem => hmem.resolve_left (hcond hp)⟩

/-- Waking a sender pays for one slot: there is one more free than was paid for, and one more sender
on its way. -/
theorem Paid.wakeOne (h : Ok p) (hfree : p.queue ≠ [] → p.free ≤ wokenCount p.futures + 1) :
    Paid p.wakeOne := by
  rw [Paid, Parking.wakeOne]
  split
  · rename_i hq
    exact fun hne => absurd hq hne
  · rename_i id rest hq
    intro _
    have hmem : id ∈ p.queue := by simp [hq]
    obtain ⟨i, f, hi, hp, hid⟩ := h.owner id hmem
    have hwoken : f.woken = false := by
      by_contra hw
      exact ((h.flags i f hi).woken.mp (by simpa using hw)).2.2 (hid ▸ hmem)
    have hcount := wokenCount_markWoken hi hp hid hwoken
    have hle := hfree (by simp [hq])
    show p.free ≤ wokenCount (markWoken id p.futures)
    omega

/-- Replacing one future. The queue changes for its id only, or by a new id; and the future that
stands in its place accounts for both. -/
theorem Ok.replace (h : Ok p) (hi : live p.futures i = some f) {a : Option (SenderFuture T)}
    (hfutures : p'.futures = p.futures.set i a) (hnext : p.next ≤ p'.next)
    (hnodup : p'.queue.Nodup) (hbelow : ∀ id ∈ p'.queue, id < p'.next)
    (hother : ∀ id, (f.parked = true → id ≠ f.id) → id < p.next → (id ∈ p'.queue ↔ id ∈ p.queue))
    (howner : ∀ id ∈ p'.queue, (f.parked = true ∧ id = f.id) ∨ p.next ≤ id →
      ∃ f', a = some f' ∧ f'.parked = true ∧ f'.id = id)
    (hself : ∀ f', a = some f' → FutureOk p'.queue p'.next f' ∧
      (f'.parked = true → (f.parked = true ∧ f'.id = f.id) ∨ p.next ≤ f'.id)) : Ok p' := by
  have hlive : ∀ j, live p'.futures j = if j = i then a else live p.futures j := by
    intro j
    rw [hfutures, live_set hi]
  -- no other future has an id of the replaced one
  have hne : ∀ j f₁ f', j ≠ i → live p.futures j = some f₁ → f₁.parked = true → a = some f' →
      f'.parked = true → f'.id ≠ f₁.id := by
    intro j f₁ f' hj hf₁ hp₁ ha hp' heq
    rcases (hself f' ha).2 hp' with ⟨hp, hid⟩ | hge
    · exact hj (h.distinct j i f₁ f hf₁ hi hp₁ hp (heq.symm.trans hid))
    · have hlt := (h.flags j f₁ hf₁).below hp₁
      omega
  refine ⟨hnodup, hbelow, ?_, ?_, ?_⟩
  · intro j k f₁ f₂ hj hk hp₁ hp₂ heq
    rw [hlive] at hj hk
    split at hj
    · rename_i hji
      split at hk
      · rename_i hki
        rw [hji, hki]
      · rename_i hki
        exact absurd heq (hne k f₂ f₁ hki hk hp₂ hj hp₁)
    · rename_i hji
      split at hk
      · exact absurd heq.symm (hne j f₁ f₂ hji hj hp₁ hk hp₂)
      · exact h.distinct j k f₁ f₂ hj hk hp₁ hp₂ heq
  · intro id hid
    by_cases hmine : (f.parked = true ∧ id = f.id) ∨ p.next ≤ id
    · obtain ⟨f', ha, hp', hid'⟩ := howner id hid hmine
      exact ⟨i, f', by rw [hlive, if_pos rfl, ha], hp', hid'⟩
    · rw [not_or, not_and, Nat.not_le] at hmine
      obtain ⟨j, f₁, hj, hp₁, hid₁⟩ := h.owner id ((hother id hmine.1 hmine.2).mp hid)
      refine ⟨j, f₁, ?_, hp₁, hid₁⟩
      rw [hlive, if_neg, hj]
      rintro rfl
      rw [hi] at hj
      cases hj
      exact hmine.1 hp₁ hid₁.symm
  · intro j f₁ hj
    rw [hlive] at hj
    split at hj
    · exact (hself f₁ hj).1
    · rename_i hji
      have hok := h.flags j f₁ hj
      refine hok.mono hnext fun hp₁ => hother f₁.id (fun hp heq => hji ?_) (hok.below hp₁)
      exact h.distinct j i f₁ f hj hi hp₁ hp heq

/-- The queue without the id of a future that parked, as far as other ids are concerned. -/
theorem mem_withdraw {id : ℕ} (h : f.parked = true → id ≠ f.id) :
    id ∈ (if f.parked then p.queue.erase f.id else p.queue) ↔ id ∈ p.queue := by
  split
  · rename_i hp
    exact List.mem_erase_of_ne (h hp)
  · exact Iff.rfl

theorem Ok.done (h : Ok p) (hi : live p.futures i = some f) (hid : f'.id = f.id)
    (hparked : f'.parked = f.parked) (hcompleted : f'.completed = true)
    (hfinished : f'.finished = true) (hwoken : f'.woken = false) {free : ℕ} : Ok { p with
      free := free
      queue := if f.parked then p.queue.erase f.id else p.queue
      futures := p.futures.set i (some f') } := by
  have hgone : f.parked = true → f.id ∉ (if f.parked then p.queue.erase f.id else p.queue) := by
    intro hp
    rw [if_pos hp]
    exact h.nodup.not_mem_erase
  have hsub : ∀ id ∈ (if f.parked then p.queue.erase f.id else p.queue), id ∈ p.queue := by
    intro id
    split
    · exact List.mem_of_mem_erase
    · exact fun hmem => hmem
  refine h.replace hi rfl (Nat.le_refl _) ?_ (fun id hid => h.below id (hsub id hid))
    (fun id hne _ => mem_withdraw hne) ?_ ?_
  · split
    · exact h.nodup.erase _
    · exact h.nodup
  · rintro id hmem (⟨hp, rfl⟩ | hge)
    · exact absurd hmem (hgone hp)
    · exact absurd (h.below id (hsub id hmem)) (Nat.not_lt.mpr hge)
  · rintro _ ⟨⟩
    rw [hparked, hid]
    refine ⟨⟨hcompleted.trans hfinished.symm, ?_, ?_, ?_⟩, fun hp => .inl ⟨hp, rfl⟩⟩
    · rw [hparked, hid]
      exact (h.flags i f hi).below
    · rw [hparked, hid]
      exact fun _ hp => hgone hp
    · rw [hwoken, hfinished]
      simp

theorem Ok.refresh (h : Ok p) (hi : live p.futures i = some f) (hfin : f.finished = false)
    (hp : f.parked = true) (hmem : f.id ∈ p.queue) (hsame : f'.toWaiter = f.toWaiter)
    (hfinished : f'.finished = false) (hwoken : f'.woken = false) :
    Ok { p with futures := p.futures.set i (some f') } := by
  refine h.replace hi rfl (Nat.le_refl _) h.nodup h.below (fun _ _ _ => Iff.rfl) ?_ ?_
  · rintro id hid (⟨-, rfl⟩ | hge)
    · exact ⟨f', rfl, by rw [hsame]; exact hp, by rw [hsame]⟩
    · exact absurd (h.below id hid) (Nat.not_lt.mpr hge)
  · rintro _ ⟨⟩
    have hok := h.flags i f hi
    rw [hsame]
    refine ⟨⟨?_, ?_, ?_, ?_⟩, fun _ => .inl ⟨hp, rfl⟩⟩
    · rw [hsame, hok.completed, hfin, hfinished]
    · rw [hsame]
      exact hok.below
    · rw [hfinished]
      exact fun hf => by cases hf
    · rw [hwoken, hsame]
      exact iff_of_false (by simp) fun hall => hall.2.2 hmem

theorem Ok.park (h : Ok p) (hi : live p.futures i = some f) (hfin : f.finished = false)
    (hout : f.parked = true → f.id ∉ p.queue) (hid : f'.id = p.next) (hparked : f'.parked = true)
    (hcompleted : f'.completed = f.completed) (hfinished : f'.finished = false)
    (hwoken : f'.woken = false) : Ok { p with
      queue := p.queue ++ [p.next]
      next := p.next + 1
      futures := p.futures.set i (some f') } := by
  have hok := h.flags i f hi
  have hnew : p.next ∉ p.queue := fun hmem => Nat.lt_irrefl _ (h.below _ hmem)
  refine h.replace hi rfl (Nat.le_succ _) ?_ ?_ ?_ ?_ ?_
  · rw [List.nodup_append]
    refine ⟨h.nodup, List.nodup_singleton _, ?_⟩
    rintro a ha b hb rfl
    rw [List.mem_singleton.mp hb] at ha
    exact hnew ha
  · intro id hmem
    rcases List.mem_append.mp hmem with hmem | hmem
    · exact Nat.lt_succ_of_lt (h.below id hmem)
    · rw [List.mem_singleton.mp hmem]
      exact Nat.lt_succ_self _
  · intro id _ hlt
    simp [Nat.ne_of_lt hlt]
  · intro id hmem hmine
    rcases List.mem_append.mp hmem with hmem | hmem
    · rcases hmine with ⟨hp, rfl⟩ | hge
      · exact absurd hmem (hout hp)
      · exact absurd (h.below id hmem) (Nat.not_lt.mpr hge)
    · rw [List.mem_singleton.mp hmem]
      exact ⟨f', rfl, hparked, hid⟩
  · rintro _ ⟨⟩
    refine ⟨⟨?_, ?_, ?_, ?_⟩, fun _ => .inr (Nat.le_of_eq hid.symm)⟩
    · rw [hcompleted, hok.completed, hfin, hfinished]
    · intro _
      rw [hid]
      exact Nat.lt_succ_self _
    · rw [hfinished]
      exact fun hf => by cases hf
    · rw [hwoken, hid]
      exact iff_of_false (by simp) fun hall => hall.2.2 (by simp)

/-- Dropping a future that is not queued: nobody else's id changes, and so does no other future. -/
theorem Ok.drop (h : Ok p) (hi : live p.futures i = some f)
    (hout : f.parked = true → f.id ∉ p.queue) : Ok { p with futures := p.futures.set i none } := by
  refine h.replace hi rfl (Nat.le_refl _) h.nodup h.below (fun _ _ _ => Iff.rfl) ?_ ?_
  · rintro id hid (⟨hp, rfl⟩ | hge)
    · exact absurd hid (hout hp)
    · exact absurd (h.below id hid) (Nat.not_lt.mpr hge)
  · rintro _ ⟨⟩

theorem Ok.cancel (h : Ok p) (hi : live p.futures i = some f) (hp : f.parked = true) :
    Ok { p with queue := p.queue.erase f.id, futures := p.futures.set i none } := by
  refine h.replace hi rfl (Nat.le_refl _) (h.nodup.erase _)
    (fun id hid => h.below id (List.mem_of_mem_erase hid))
    (fun id hne _ => List.mem_erase_of_ne (hne hp)) ?_ ?_
  · rintro id hid (⟨hp, rfl⟩ | hge)
    · exact absurd hid h.nodup.not_mem_erase
    · exact absurd (h.below id (List.mem_of_mem_erase hid)) (Nat.not_lt.mpr hge)
  · rintro _ ⟨⟩

/-- A future that is done or never parked is not queued, and was not woken. -/
theorem Ok.out_of_drop (h : Ok p) (hi : live p.futures i = some f)
    (hdone : f.completed = true ∨ f.parked = false) :
    (f.parked = true → f.id ∉ p.queue) ∧ f.woken = false := by
  have hok := h.flags i f hi
  rcases hdone with hc | hp
  · have hf : f.finished = true := hok.completed.symm.trans hc
    refine ⟨hok.finished hf, ?_⟩
    by_contra hw
    have hall := hok.woken.mp (by simpa using hw)
    rw [hf] at hall
    exact absurd hall.2.1 (by simp)
  · refine ⟨fun hp' => absurd hp' (by simp [hp]), ?_⟩
    by_contra hw
    have hall := hok.woken.mp (by simpa using hw)
    rw [hp] at hall
    exact absurd hall.1 (by simp)

/-- A queued future was not woken, since a wake takes its id out of the queue. -/
theorem Ok.not_woken (h : Ok p) (hi : live p.futures i = some f) (hmem : f.id ∈ p.queue) :
    f.woken = false := by
  by_contra hw
  exact ((h.flags i f hi).woken.mp (by simpa using hw)).2.2 hmem

theorem Ok.step (h : Ok p) (hstep : Step p p') : Ok p' := by
  cases hstep with
  | take _ => exact ⟨h.nodup, h.below, h.distinct, h.owner, h.flags⟩
  | create kind =>
    have hlive := live_append p.futures (.new kind)
    -- a new future has not parked, so nothing of it is compared with the others
    have hold : ∀ j f, live (p.futures ++ [some (.new kind)]) j = some f → f.parked = true →
        live p.futures j = some f := by
      intro j f hj hp
      rw [hlive] at hj
      split at hj
      · cases hj
        cases hp
      · exact hj
    refine ⟨h.nodup, h.below, ?_, ?_, ?_⟩
    · intro i j f f' hi hj hp hp' heq
      exact h.distinct i j f f' (hold i f hi hp) (hold j f' hj hp') hp hp' heq
    · intro id hid
      obtain ⟨i, f, hi, hp, heq⟩ := h.owner id hid
      refine ⟨i, f, ?_, hp, heq⟩
      rw [hlive, if_neg (Nat.ne_of_lt (lt_length_of_live hi)), hi]
    · intro i f hi
      rw [hlive] at hi
      split at hi
      · cases hi
        refine ⟨rfl, fun hp => ?_, fun _ hp => ?_, ?_⟩
        · cases hp
        · cases hp
        · exact iff_of_false (by simp [SenderFuture.new]) fun hall => by cases hall.1
      · exact h.flags i f hi
  | @release free _ =>
    have hfree : Ok { p with free := free } := ⟨h.nodup, h.below, h.distinct, h.owner, h.flags⟩
    exact hfree.wakeOne
  | done hi _ _ hid hp hc hf hw => exact h.done hi hid hp hc hf hw
  | refresh hi hfin hp hmem hsame hf hw => exact h.refresh hi hfin hp hmem hsame hf hw
  | park hi hfin _ hout hid hp hc hf hw => exact h.park hi hfin hout hid hp hc hf hw
  | drop hi hdone => exact h.drop hi (h.out_of_drop hi hdone).1
  | cancel hi _ hp _ => exact h.cancel hi hp
  | forward hi _ _ hout => exact (h.drop hi fun _ => hout).wakeOne

theorem Paid.step (h : Ok p) (hpaid : Paid p) (hstep : Step p p') : Paid p' := by
  cases hstep with
  | take hfree => exact fun hne => Nat.le_trans hfree (hpaid hne)
  | create kind => exact fun hne => Nat.le_trans (hpaid hne) (wokenCount_append _ _)
  | @release free hfree =>
    have hok : Ok { p with free := free } := ⟨h.nodup, h.below, h.distinct, h.owner, h.flags⟩
    exact Paid.wakeOne hok fun hne => Nat.le_trans hfree (Nat.succ_le_succ (hpaid hne))
  | @done i f f' hi _ _ _ _ _ _ hw =>
    intro hne
    have hqueue : p.queue ≠ [] := by
      rintro hnil
      simp [hnil] at hne
    have hle := hpaid hqueue
    have hcount := wokenCount_set hi (some f')
    rw [Option.any_some, hw] at hcount
    show p.free - 1 ≤ wokenCount (p.futures.set i (some f'))
    split at hcount
    · simp only [Bool.false_eq_true, if_false] at hcount
      omega
    · simp only [Bool.false_eq_true, if_false] at hcount
      omega
  | @refresh i f f' hi _ _ hmem _ _ hw =>
    intro hne
    have hcount := wokenCount_set hi (some f')
    rw [Option.any_some, hw, h.not_woken hi hmem] at hcount
    exact Nat.le_trans (hpaid hne) (Nat.le_of_eq hcount.symm)
  | park hi _ hfree _ _ _ _ _ _ =>
    intro _
    exact Nat.le_trans (Nat.le_of_eq hfree) (Nat.zero_le _)
  | drop hi hdone =>
    intro hne
    have hcount := wokenCount_set hi none
    rw [(h.out_of_drop hi hdone).2] at hcount
    exact Nat.le_trans (hpaid hne) (Nat.le_of_eq hcount.symm)
  | cancel hi _ _ hmem =>
    intro hne
    have hqueue : p.queue ≠ [] := List.ne_nil_of_mem hmem
    have hcount := wokenCount_set hi none
    rw [h.not_woken hi hmem] at hcount
    exact Nat.le_trans (hpaid hqueue) (Nat.le_of_eq hcount.symm)
  | @forward i f hi hc hp hout =>
    -- the dropped future was woken, and the one woken in its place makes up for it
    have hok := h.flags i f hi
    have hwoken : f.woken = true := hok.woken.mpr ⟨hp, hok.completed.symm.trans hc, hout⟩
    have hcount := wokenCount_set hi none
    rw [hwoken] at hcount
    refine Paid.wakeOne (h.drop hi fun _ => hout) fun hne => ?_
    exact Nat.le_trans (hpaid hne) (Nat.le_of_eq hcount.symm)

end Parking

end Lion.Mpsc
