import Lion.Library.Machine

/-!
# Serving a queue in rounds

A server has a queue that anybody may join at the end, and serves it from the front. It works in
rounds: a round that begins with `k` waiting may not end before `min k n` have been served, and may
not serve more than `n`. Between rounds nobody is served. The budget `n` is the only parameter.

How long one waits is then a matter of counting rounds. Whoever is in place `p`, counted from `0`,
has been served once more than `p / n` whole rounds are over, whatever joins meanwhile; this is
`Run.served`. The round in which the counting starts does not count, since it may have served its
share before.

## Conventions

Elements of the queue are not assumed to be distinct: somebody may join again while waiting already,
and is then served once for each time. So the statements are about places and not about elements,
and about the lists of what joined and of what was served, in order.

A round in progress carries two numbers and no history. `due` is what it still owes to those who
were there when it began, `left` is what it may still serve; a round with `due = 0` may end, and one
with `left = 0` serves nobody. Joining changes neither, which is why newcomers cannot hold a round
open.

## What is left out

Nothing says that a round ever begins or ends. A bound in rounds is all there is, and whoever uses
it has to know how rounds come about.

## Main results

* `Run.flow` — the queue is what joined, less what was served
* `Run.served` — place `p` is served within `p / n + 1` rounds
* `Run.served_ne_nil` — a round that began with somebody waiting serves somebody
-/

/-- A round in progress, as the two numbers that bound what it may still do. -/
structure Round where
  /-- How many must still be served before it may end. -/
  due : ℕ
  left : ℕ
deriving DecidableEq, Repr

/-- A server and its queue. Those who wait are in the order in which they are served. -/
structure Server (α : Type*) where
  /-- The round in progress, and nothing between rounds. -/
  queue : List α
  /-- The round in progress. -/
  round : Option Round

namespace Server

variable {α : Type*} {n p : ℕ} {s t : Server α} {as bs : List α} {a : α}

/-- What happens to a server. Joining is possible at any time, serving within a round only. -/
inductive Act (α : Type*)
  /-- Somebody joins the queue, or several do. -/
  | join (as : List α)
  | serve (a : α)
  | roundBegin
  | roundEnd

/-- What a server with budget `n` may do. A round begins with the debt to those who wait by then, up
to the budget, and ends when the debt is paid. -/
inductive Step (n : ℕ) : Server α → Act α → Server α → Prop
  | join (s : Server α) (as : List α) : Step n s (.join as) { s with queue := s.queue ++ as }
  | serve (a : α) (rest : List α) (due left : ℕ) :
      Step n ⟨a :: rest, some ⟨due, left + 1⟩⟩ (.serve a) ⟨rest, some ⟨due - 1, left⟩⟩
  | roundBegin (queue : List α) :
      Step n ⟨queue, none⟩ .roundBegin ⟨queue, some ⟨min queue.length n, n⟩⟩
  | roundEnd (queue : List α) (left : ℕ) : Step n ⟨queue, some ⟨0, left⟩⟩ .roundEnd ⟨queue, none⟩

/-- A server with budget `n`, as a machine that starts between rounds with nobody waiting. -/
def machine (α : Type*) (n : ℕ) : Machine (Server α) (Act α) where
  init s := s = ⟨[], none⟩
  step := Step n

/-- Who joins by an action, in the order in which they stand in the queue afterwards. -/
def Act.joins : Act α → List α
  | .join as => as
  | .serve _ | .roundBegin | .roundEnd => []

/-- Who is served by an action, if it serves anybody. -/
def Act.serves : Act α → Option α
  | .serve a => some a
  | .join _ | .roundBegin | .roundEnd => none

/-- Whether an action ends a round. The bounds count these. -/
def Act.ends : Act α → Bool
  | .roundEnd => true
  | .join _ | .serve _ | .roundBegin => false

/-- Who joined in the course of a run, in order. -/
def joined (acts : List (Act α)) : List α := acts.flatMap Act.joins

/-- Who was served in the course of a run, in order. -/
def served (acts : List (Act α)) : List α := acts.filterMap Act.serves

/-- How many rounds ended in the course of a run. -/
def rounds (acts : List (Act α)) : ℕ := acts.countP Act.ends

section Snoc

variable (acts : List (Act α)) (act : Act α)

@[simp] theorem joined_snoc : joined (acts ++ [act]) = joined acts ++ act.joins := by
  simp [joined]

@[simp] theorem served_snoc : served (acts ++ [act]) = served acts ++ act.serves.toList := by
  cases h : act.serves <;> simp [served, h]

@[simp] theorem rounds_snoc : rounds (acts ++ [act]) = rounds acts + act.ends.toNat := by
  cases h : act.ends <;> simp [rounds, h]

end Snoc

variable {acts : List (Act α)}

/-- **The queue** is what was there and joined, less what was served. -/
theorem Run.flow (h : (machine α n).Run s acts t) :
    s.queue ++ joined acts = served acts ++ t.queue := by
  induction h with
  | nil => simp [joined, served]
  | snoc _ hlast ih =>
    rw [joined_snoc, served_snoc, ← List.append_assoc, ih]
    cases hlast with
    | join | serve | roundBegin | roundEnd => simp [Act.joins, Act.serves]

/-- What is due in the current round, which is nothing between rounds. -/
def due (s : Server α) : ℕ := (s.round.map Round.due).getD 0

/-- While `want` of those who waited at the start are not served, every round serves `n` of them, or
has them due; the rounds are counted from the start, but for one in progress there. -/
theorem Run.credit (h : (machine α n).Run s acts t) {want : ℕ} (hwant : want ≤ s.queue.length) :
    min want (n * (rounds acts - s.round.isSome.toNat)) ≤ (served acts).length ∧
      min want (n * (rounds acts + t.round.isSome.toNat - s.round.isSome.toNat)) ≤
        (served acts).length + t.due := by
  induction h with
  | nil => simp [rounds]
  | @snoc as u v act hrun hlast ih =>
    obtain ⟨hended, hcurrent⟩ := ih
    cases hlast with
    | join _ xs => simpa [Act.serves, Act.ends, due] using And.intro hended hcurrent
    | serve a rest d l =>
      simp only [rounds_snoc, served_snoc, Act.ends, Act.serves, Bool.toNat_false, Nat.add_zero,
        Option.toList_some, List.length_append, List.length_singleton, due, Option.map_some,
        Option.getD_some, Option.isSome_some] at hcurrent ⊢
      exact ⟨by omega, by omega⟩
    | roundBegin queue =>
      -- the new round takes over what is missing, or its whole share
      have hflow := congrArg List.length (Run.flow hrun)
      have hmul : n * (rounds as + 1 - s.round.isSome.toNat) ≤
          n * (rounds as - s.round.isSome.toNat) + n := by
        rw [← Nat.mul_succ]
        exact Nat.mul_le_mul_left n (by omega)
      simp only [List.length_append] at hflow
      simp only [rounds_snoc, served_snoc, Act.ends, Act.serves, Bool.toNat_false, Nat.add_zero,
        Option.toList_none, List.append_nil, due, Option.map_some, Option.getD_some,
        Option.isSome_some, Bool.toNat_true]
      exact ⟨hended, by omega⟩
    | roundEnd queue l =>
      simp only [rounds_snoc, served_snoc, Act.ends, Act.serves, Bool.toNat_true, Bool.toNat_false,
        Nat.add_zero, Option.toList_none, List.append_nil, due, Option.map_some, Option.map_none,
        Option.getD_some, Option.getD_none, Option.isSome_some, Option.isSome_none] at hcurrent ⊢
      exact ⟨hcurrent, hcurrent⟩

/-- **Bounded waiting.** Who is in place `p` at the start is served after those in front, at the
latest when more than `p / n` rounds have ended, not counting one in progress at the start. -/
theorem Run.served (h : (machine α n).Run s acts t) (hp : s.queue[p]? = some a)
    (hrounds : p < n * (rounds acts - s.round.isSome.toNat)) :
    (Server.served acts)[p]? = some a := by
  have hlen : p < s.queue.length := (List.getElem?_eq_some_iff.mp hp).1
  have hserved : p < (Server.served acts).length := by
    have hcredit := (Run.credit h (Nat.succ_le_of_lt hlen)).1
    omega
  have hflow := congrArg (·[p]?) (Run.flow h)
  rw [List.getElem?_append_left hlen, List.getElem?_append_left hserved, hp] at hflow
  exact hflow.symm

/-- Between rounds, no round begins but the next. -/
theorem Run.round_eq_none (h : (machine α n).Run s (.roundBegin :: acts) t) : s.round = none := by
  obtain ⟨m, hfirst, -⟩ := Machine.Run.split (List.singleton_append.symm ▸ h)
  cases Machine.Run.of_singleton hfirst rfl with
  | roundBegin => rfl

/-- A round that is over has served somebody, if somebody waited when it began. -/
theorem Run.served_ne_nil (h : (machine α n).Run s (.roundBegin :: acts) t) (hn : 1 ≤ n)
    (hwait : s.queue ≠ []) (hend : 1 ≤ rounds acts) : Server.served acts ≠ [] := by
  obtain ⟨a, ha⟩ : ∃ a, s.queue[0]? = some a := by
    cases hq : s.queue with
    | nil => exact absurd hq hwait
    | cons a rest => exact ⟨a, rfl⟩
  have hrounds : rounds (.roundBegin :: acts) = rounds acts := rfl
  have hserved := Run.served h ha (by
    rw [hrounds, Run.round_eq_none h, Option.isSome_none, Bool.toNat_false, Nat.sub_zero]
    exact Nat.mul_pos hn hend)
  intro hnil
  rw [show Server.served (.roundBegin :: acts) = Server.served acts from rfl, hnil] at hserved
  cases hserved

end Server
