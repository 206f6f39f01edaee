import Mathlib.Data.List.Basic
import Mathlib.Data.List.Nodup
import Mathlib.Tactic.Common

/-!
# Queues of tickets

Visitors take numbered tickets and queue. A visitor keeps the ticket when the queue is let in, and
takes a new one to queue again. Whoever runs the queue sees the numbers only, so that what is true
of the visitors has to be read off their tickets: who waits is whose ticket is still in the queue.

`Tickets` says that the numbers do tell this. It is kept as long as numbers are not used twice, and
nobody queues who waits already.

## Why the two sides are apart

A wait queue of a program holds ids, and the futures that wait hold them too. When the queue is
emptied at once the futures are not visited: each of them still has its id and finds out later that
the id is no longer queued. So the two sides of the invariant are not inverse to each other. A
ticket in the queue is somebody's, and somebody who waits has a ticket in the queue, but a visitor
with a ticket may have been let in (`clear`).

The statements take the tickets and the waiting as functions of the visitor, before and after, with
hypotheses that say what has changed. Whoever uses them has an arena of futures on one side and
needs no copy of it in the form of a table.

## Main results

* `Tickets.arrive`, `Tickets.leave`, `Tickets.clear` — what may happen to a queue
* `Tickets.congr` — nothing that concerns the queue happens
-/

variable {ι : Type*}

/-- The tickets in the queue are those of the visitors who wait, numbers below `next` were handed
out, and no two visitors share one. -/
structure Tickets (queue : List ℕ) (next : ℕ) (ticket : ι → Option ℕ) (waits : ι → Prop) :
    Prop where
  nodup : queue.Nodup
  lt : ∀ i, ∀ id ∈ ticket i, id < next
  /-- No two visitors have the same one. -/
  distinct : ∀ i j, ∀ id ∈ ticket i, id ∈ ticket j → i = j
  /-- Tickets in the queue are somebody's. -/
  owner : ∀ id ∈ queue, ∃ i, id ∈ ticket i
  /-- Who waits is in the queue. -/
  waits : ∀ i, waits i ↔ ∃ id ∈ ticket i, id ∈ queue

namespace Tickets

variable {queue : List ℕ} {next : ℕ} {ticket ticket' : ι → Option ℕ} {waits waits' : ι → Prop}
  {i : ι}

/-- Before anybody has come, with any number to start from. -/
theorem empty (next : ℕ) : Tickets [] next (fun _ : ι => none) fun _ => False := by
  constructor <;> simp

/-- Nothing happens to the queue, to the tickets or to those who wait. -/
theorem congr (h : Tickets queue next ticket waits) (hticket : ∀ j, ticket' j = ticket j)
    (hwaits : ∀ j, waits' j ↔ waits j) : Tickets queue next ticket' waits' := by
  obtain rfl : ticket' = ticket := funext hticket
  obtain rfl : waits' = waits := funext fun j => propext (hwaits j)
  exact h

/-- A ticket in the queue was handed out, so that the next number is not there yet. -/
theorem lt_of_mem (h : Tickets queue next ticket waits) {id : ℕ} (hid : id ∈ queue) :
    id < next := by
  obtain ⟨j, hj⟩ := h.owner id hid
  exact h.lt j id hj

/-- A visitor who does not wait takes the next ticket and queues with it at the end. -/
theorem arrive (h : Tickets queue next ticket waits) (hi : ¬ waits i)
    (hself : ticket' i = some next) (hothers : ∀ j, j ≠ i → ticket' j = ticket j)
    (hwaits : ∀ j, waits' j ↔ j = i ∨ waits j) :
    Tickets (queue ++ [next]) (next + 1) ticket' waits' := by
  have hmem : ∀ j, ∀ id ∈ ticket' j, (j = i ∧ id = next) ∨ (j ≠ i ∧ id ∈ ticket j ∧ id < next) := by
    intro j id hid
    by_cases hj : j = i
    · rw [hj, hself] at hid
      exact .inl ⟨hj, (Option.some.inj hid).symm⟩
    · rw [hothers j hj] at hid
      exact .inr ⟨hj, hid, h.lt j id hid⟩
  refine ⟨?_, ?_, ?_, ?_, ?_⟩
  · refine List.nodup_append.mpr ⟨h.nodup, List.nodup_singleton next, ?_⟩
    intro id hid id' hid' heq
    have hlt := h.lt_of_mem hid
    rw [heq, List.mem_singleton.mp hid'] at hlt
    exact Nat.lt_irrefl _ hlt
  · intro j id hid
    rcases hmem j id hid with ⟨-, rfl⟩ | ⟨-, -, hlt⟩
    · exact Nat.lt_succ_self _
    · exact Nat.lt_succ_of_lt hlt
  · intro j k id hj hk
    rcases hmem j id hj with ⟨hji, rfl⟩ | ⟨-, hj, hlt⟩
    · rcases hmem k id hk with ⟨hki, -⟩ | ⟨-, -, hlt⟩
      · exact hji.trans hki.symm
      · exact absurd hlt (Nat.lt_irrefl _)
    · rcases hmem k id hk with ⟨-, rfl⟩ | ⟨-, hk, -⟩
      · exact absurd hlt (Nat.lt_irrefl _)
      · exact h.distinct j k id hj hk
  · intro id hid
    rcases List.mem_append.mp hid with hid | hid
    · obtain ⟨j, hj⟩ := h.owner id hid
      by_cases hji : j = i
      · have hwaiting : waits i := (h.waits i).mpr ⟨id, by rw [← hji]; exact hj, hid⟩
        exact absurd hwaiting hi
      · exact ⟨j, by rw [hothers j hji]; exact hj⟩
    · exact ⟨i, by rw [List.mem_singleton.mp hid]; exact hself⟩
  · intro j
    rw [hwaits]
    constructor
    · rintro (rfl | hj)
      · exact ⟨next, hself, List.mem_append_right _ List.mem_cons_self⟩
      · obtain ⟨id, hid, hq⟩ := (h.waits j).mp hj
        have hji : j ≠ i := fun heq => hi (by rw [← heq]; exact hj)
        exact ⟨id, by rw [hothers j hji]; exact hid, List.mem_append_left _ hq⟩
    · rintro ⟨id, hid, hq⟩
      rcases hmem j id hid with ⟨hji, -⟩ | ⟨-, hid, hlt⟩
      · exact .inl hji
      · refine .inr ((h.waits j).mpr ⟨id, hid, ?_⟩)
        rcases List.mem_append.mp hq with hq | hq
        · exact hq
        · rw [List.mem_singleton.mp hq] at hlt
          exact absurd hlt (Nat.lt_irrefl _)

/-- A visitor goes, with the ticket, which is taken out of the queue if it is still there. -/
theorem leave (h : Tickets queue next ticket waits) (hself : ticket' i = none)
    (hothers : ∀ j, j ≠ i → ticket' j = ticket j) (hwaits : ∀ j, waits' j ↔ j ≠ i ∧ waits j) :
    Tickets ((ticket i).elim queue queue.erase) next ticket' waits' := by
  have hmem : ∀ j, ∀ id ∈ ticket' j, j ≠ i ∧ id ∈ ticket j := by
    intro j id hid
    by_cases hj : j = i
    · rw [hj, hself] at hid
      cases hid
    · rw [hothers j hj] at hid
      exact ⟨hj, hid⟩
  -- what is left are the tickets of the others
  have hqueue : ∀ id, id ∈ (ticket i).elim queue queue.erase ↔ id ∈ queue ∧ id ∉ ticket i := by
    intro id
    cases hi : ticket i with
    | none => simp
    | some id' =>
      rw [Option.elim_some, h.nodup.mem_erase_iff, Option.mem_some_iff]
      exact ⟨fun hid => ⟨hid.2, fun heq => hid.1 heq.symm⟩,
        fun hid => ⟨fun heq => hid.2 heq.symm, hid.1⟩⟩
  refine ⟨?_, ?_, ?_, ?_, ?_⟩
  · cases ticket i with
    | none => exact h.nodup
    | some id => exact h.nodup.erase id
  · exact fun j id hid => h.lt j id (hmem j id hid).2
  · exact fun j k id hj hk => h.distinct j k id (hmem j id hj).2 (hmem k id hk).2
  · intro id hid
    obtain ⟨hid, hnot⟩ := (hqueue id).mp hid
    obtain ⟨j, hj⟩ := h.owner id hid
    have hji : j ≠ i := fun heq => hnot (by rw [← heq]; exact hj)
    exact ⟨j, by rw [hothers j hji]; exact hj⟩
  · intro j
    rw [hwaits, h.waits]
    constructor
    · rintro ⟨hji, id, hid, hq⟩
      refine ⟨id, by rw [hothers j hji]; exact hid, (hqueue id).mpr ⟨hq, fun hi => ?_⟩⟩
      exact hji (h.distinct j i id hid hi)
    · rintro ⟨id, hid, hq⟩
      exact ⟨(hmem j id hid).1, id, (hmem j id hid).2, ((hqueue id).mp hq).1⟩

/-- Everybody is let in at once. The visitors keep their tickets, which are no longer queued. -/
theorem clear (h : Tickets queue next ticket waits) (hticket : ∀ j, ticket' j = ticket j)
    (hwaits : ∀ j, ¬ waits' j) : Tickets [] next ticket' waits' := by
  refine ⟨List.nodup_nil, ?_, ?_, by simp, ?_⟩
  · intro j id hid
    rw [hticket] at hid
    exact h.lt j id hid
  · intro j k id hj hk
    rw [hticket] at hj hk
    exact h.distinct j k id hj hk
  · exact fun j => iff_of_false (hwaits j) (by simp)

end Tickets
