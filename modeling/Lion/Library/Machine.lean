import Mathlib.Tactic.Common

/-!
# Labelled machines and their runs

A machine is a set of starting states and a labelled step relation. Its runs are the finite
sequences of steps, recorded by their labels in order, and a state is reachable if some run from a
starting state ends in it.

Steps are a relation and not a function, because most of what is modelled with them is open: other
threads act, an operating system answers, a user program decides. What a label says is therefore
fixed by whoever defines the machine. It has to say enough that the step relation, restricted to one
label, is as deterministic as the program is.

## The two rules

`Reachable.invariant` proves a property of every reachable state from a property of one step.
`Simulation.run` turns a run of one machine into a run of another under the same labels; it is how a
detailed model is shown to do nothing that its specification does not allow. Runs grow at the end
(`Run.snoc`), so that an induction over a run has the last step at hand, which is the one that
invariants speak of. `Run.cons` and `Run.split` are there for arguments from the other end.

## Restriction, observation, projection

`restrict` cuts a machine down to the steps that meet a condition, so that a statement about runs
all of whose steps meet it is a statement about a machine again, and the two rules apply to it.
`Run.restrict_iff` says when two conditions cut a machine down to the same runs; the weaker of the
two is often the one that can be decided from the state alone.

`observe` takes notes of a run that its states do not keep, for statements that mention the past:
which waker was left, what was sent. Notes never enable or forbid a step (`Reachable.of_observe`),
so that nothing is proved of observed runs alone.

`Run.project` is for a machine made up of others: a run of the whole is a run of each part.

## What is left out

There are no infinite runs and no fairness. Progress is stated of finite runs instead, as a bound on
the number of steps of some kind by which something has happened; see `Server`.

## Main results

* `Reachable.invariant` — invariants from a property of one step
* `Simulation.run` — a simulated run is a run of the simulating machine
* `Run.restrict_iff` — two conditions that cut a machine down to the same runs
* `Run.project` — a run of the whole is a run of a part
-/

/-- A labelled transition system with starting states. The step relation is arbitrary: it may be
partial, and it may allow several successors under one label. -/
structure Machine (σ α : Type*) where
  init : σ → Prop
  /-- `step s a t`: the machine can go from `s` to `t` by `a`. -/
  step : σ → α → σ → Prop

namespace Machine

variable {σ τ α : Type*} {M : Machine σ α} {A : Machine τ α} {s s' t : σ} {a : α} {as : List α}

/-- `Run M s as t`: the labels `as`, taken in order, lead from `s` to `t`. -/
inductive Run (M : Machine σ α) (s : σ) : List α → σ → Prop
  | nil : Run M s [] s
  /-- A run and one more step. -/
  | snoc {as : List α} {t u : σ} {a : α} : Run M s as t → M.step t a u → Run M s (as ++ [a]) u

/-- Some run from a starting state ends in `s`. This is the quantifier of every safety statement:
what holds of all reachable states holds after any number of steps, in any order. -/
def Reachable (M : Machine σ α) (s : σ) : Prop := ∃ s₀ as, M.init s₀ ∧ Run M s₀ as s

theorem Reachable.of_init (h : M.init s) : M.Reachable s := ⟨s, [], h, .nil⟩

theorem Reachable.step (h : M.Reachable s) (hstep : M.step s a t) : M.Reachable t := by
  obtain ⟨s₀, as, hinit, hrun⟩ := h
  exact ⟨s₀, as ++ [a], hinit, hrun.snoc hstep⟩

/-- A run may also be extended at the front, by a step that leads to where it starts. -/
theorem Run.cons {u : σ} (hstep : M.step s a t) (hrun : M.Run t as u) : M.Run s (a :: as) u := by
  induction hrun with
  | nil => exact Run.nil.snoc hstep
  | snoc _ hlast ih => exact ih.snoc hlast

/-- A run, and another one from where the first ends, are one run. -/
theorem Run.append {bs : List α} {u : σ} (hrun : M.Run s as t) (hrest : M.Run t bs u) :
    M.Run s (as ++ bs) u := by
  induction hrest with
  | nil =>
    rw [List.append_nil]
    exact hrun
  | snoc _ hlast ih =>
    rw [← List.append_assoc]
    exact ih.snoc hlast

/-- A run that does `as` and then `bs` passes through a state between them. -/
theorem Run.split {bs : List α} (hrun : M.Run s (as ++ bs) t) :
    ∃ m, M.Run s as m ∧ M.Run m bs t := by
  generalize hcs : as ++ bs = cs at hrun
  induction hrun generalizing bs with
  | nil =>
    obtain ⟨rfl, rfl⟩ := List.append_eq_nil_iff.mp hcs
    exact ⟨s, .nil, .nil⟩
  | @snoc cs u v a hrun hlast ih =>
    rcases List.eq_nil_or_concat bs with rfl | ⟨bs, b, rfl⟩
    · rw [List.append_nil] at hcs
      exact ⟨v, hcs ▸ hrun.snoc hlast, .nil⟩
    · rw [List.concat_eq_append, ← List.append_assoc] at hcs
      obtain ⟨rfl, hb⟩ := List.append_inj' hcs rfl
      cases hb
      obtain ⟨m, hfirst, hrest⟩ := ih rfl
      refine ⟨m, hfirst, ?_⟩
      rw [List.concat_eq_append]
      exact hrest.snoc hlast

theorem Run.eq_of_nil (hrun : M.Run s as t) (has : as = []) : t = s := by
  cases hrun with
  | nil => rfl
  | snoc => simp at has

/-- A run of one step is that step. This is how a statement about runs is used for a single step. -/
theorem Run.of_singleton (hrun : M.Run s as t) (has : as = [a]) : M.step s a t := by
  cases hrun with
  | nil => cases has
  | @snoc as u _ b hrun hlast =>
    obtain ⟨hnil, hb⟩ := List.append_inj' (has.trans (List.nil_append [a]).symm) rfl
    cases hb
    rwa [hrun.eq_of_nil hnil] at hlast

/-- What does not hold at the start of a run, but at the end, comes to hold at a step of it. -/
theorem Run.exists_step {P : σ → Prop} (hrun : M.Run s as t) (hs : ¬ P s) (ht : P t) :
    ∃ as₁ u a v as₂, as = as₁ ++ a :: as₂ ∧ M.Run s as₁ u ∧ M.step u a v ∧ M.Run v as₂ t ∧
      ¬ P u ∧ P v := by
  induction hrun with
  | nil => exact absurd ht hs
  | @snoc as u t a hrun hlast ih =>
    by_cases hu : P u
    · obtain ⟨as₁, x, b, y, as₂, rfl, hfirst, hstep, hrest, hcross⟩ := ih hu
      refine ⟨as₁, x, b, y, as₂ ++ [a], ?_, hfirst, hstep, hrest.snoc hlast, hcross⟩
      rw [List.append_assoc, List.cons_append]
    · exact ⟨as, u, a, t, [], rfl, hrun, hlast, .nil, hu, ht⟩

theorem Reachable.run (h : M.Reachable s) (hrun : M.Run s as t) : M.Reachable t := by
  induction hrun with
  | nil => exact h
  | snoc _ hlast ih => exact ih.step hlast

/-- **Invariants.** A property of the starting states that every step preserves holds of every
reachable state. -/
theorem Reachable.invariant {I : σ → Prop} (h : M.Reachable s) (hinit : ∀ s, M.init s → I s)
    (hstep : ∀ s a t, I s → M.step s a t → I t) : I s := by
  obtain ⟨s₀, as, h₀, hrun⟩ := h
  induction hrun with
  | nil => exact hinit _ h₀
  | snoc _ hlast ih => exact hstep _ _ _ ih hlast

/-- The machine of a partial step function: a label is possible where the function returns a
state. -/
def ofStep (init : σ → Prop) (next : σ → α → Option σ) : Machine σ α where
  init := init
  step s a t := next s a = some t

/-- Follow a list of labels, if the step function allows it. -/
def follow (next : σ → α → Option σ) : List α → σ → Option σ
  | [], s => some s
  | a :: as, s => (next s a).bind (follow next as)

/-- Following labels on a fixed input, and checking a property of where that leads. -/
theorem exists_follow (next : σ → α → Option σ) (as : List α) (s : σ) (P : σ → Prop)
    [DecidablePred P] (h : (Machine.follow next as s).any (fun t => decide (P t)) = true) :
    ∃ t, Machine.follow next as s = some t ∧ P t := by
  cases hfollow : Machine.follow next as s with
  | none => simp [hfollow] at h
  | some t => exact ⟨t, rfl, by simpa [hfollow] using h⟩

/-- Following labels is running: a list that the step function accepts is a run of its machine. -/
theorem Run.of_follow {init : σ → Prop} {next : σ → α → Option σ}
    (hfollow : Machine.follow next as s = some t) : (ofStep init next).Run s as t := by
  induction as generalizing s with
  | nil =>
    cases hfollow
    exact .nil
  | cons a as ih =>
    obtain ⟨u, hstep, hrest⟩ := Option.bind_eq_some_iff.mp hfollow
    exact .cons hstep (ih hrest)

/-- Following labels from a reachable state leads to reachable states. -/
theorem Reachable.follow {init : σ → Prop} {next : σ → α → Option σ}
    (h : (ofStep init next).Reachable s) (hfollow : Machine.follow next as s = some t) :
    (ofStep init next).Reachable t :=
  h.run (.of_follow hfollow)

/-- A partial step function, with notes taken of the steps. The note sees the state before the
step. -/
def noting (next : σ → α → Option σ) (note : σ → α → τ → τ) (s : σ × τ) (a : α) : Option (σ × τ) :=
  (next s.1 a).map fun t => (t, note s.1 a s.2)

/-- The machine of a partial step function, with notes taken of its steps. -/
def observe (init : σ → Prop) (next : σ → α → Option σ) (start : τ) (note : σ → α → τ → τ) :
    Machine (σ × τ) α :=
  ofStep (fun s => init s.1 ∧ s.2 = start) (noting next note)

/-- A step with notes taken is a step, and the note that belongs to it. -/
theorem observe_step {init : σ → Prop} {next : σ → α → Option σ} {start : τ}
    {note : σ → α → τ → τ} {s t : σ × τ} (h : (observe init next start note).step s a t) :
    next s.1 a = some t.1 ∧ t.2 = note s.1 a s.2 := by
  obtain ⟨u, hnext, rfl⟩ := Option.map_eq_some_iff.mp h
  exact ⟨hnext, rfl⟩

/-- Taking notes changes nothing: the state of an observed machine is reachable without the
notes. -/
theorem Reachable.of_observe {init : σ → Prop} {next : σ → α → Option σ} {start : τ}
    {note : σ → α → τ → τ} {s : σ × τ} (h : (observe init next start note).Reachable s) :
    (ofStep init next).Reachable s.1 := by
  refine h.invariant (I := fun s => (ofStep init next).Reachable s.1) ?_ ?_
  · rintro s ⟨hinit, -⟩
    exact Reachable.of_init (M := ofStep init next) hinit
  · intro s a t hs hstep
    exact Reachable.step (M := ofStep init next) hs (observe_step hstep).1

/-- The steps of `M` that meet `G`. A condition on a step sees its label and the state before it. -/
def restrict (M : Machine σ α) (G : σ → α → Prop) : Machine σ α where
  init := M.init
  step s a t := M.step s a t ∧ G s a

/-- What the restricted machine does, the whole one does. -/
theorem Run.of_restrict {G : σ → α → Prop} (hrun : (M.restrict G).Run s as t) : M.Run s as t := by
  induction hrun with
  | nil => exact .nil
  | snoc _ hlast ih => exact ih.snoc hlast.1

/-- What the restricted machine reaches, the whole one does. -/
theorem Reachable.of_restrict {G : σ → α → Prop} (h : (M.restrict G).Reachable s) :
    M.Reachable s :=
  h.invariant (fun _ hinit => .of_init hinit) fun _ _ _ hs hstep => hs.step hstep.1

/-- A weaker condition allows more runs, so that more states can be reached under it. -/
theorem Reachable.restrict_mono {G G' : σ → α → Prop} (h : (M.restrict G).Reachable s)
    (himp : ∀ s a, G s a → G' s a) : (M.restrict G').Reachable s :=
  h.invariant (fun _ hinit => .of_init hinit) fun s a _ hs hstep =>
    hs.step ⟨hstep.1, himp s a hstep.2⟩

/-- Of two conditions that an invariant of the first makes the same, one cuts down the runs to what
the other does. -/
theorem Run.restrict_iff {G G' : σ → α → Prop} {I : σ → Prop} (hinit : I s)
    (hstep : ∀ s a t, I s → M.step s a t → G s a → I t)
    (hiff : ∀ s a t, I s → M.step s a t → (G s a ↔ G' s a)) :
    (M.restrict G).Run s as t ↔ (M.restrict G').Run s as t := by
  have hinv : ∀ {as t}, (M.restrict G).Run s as t → I t := by
    intro as t hrun
    induction hrun with
    | nil => exact hinit
    | snoc _ hlast ih => exact hstep _ _ _ ih hlast.1 hlast.2
  constructor
  · intro hrun
    induction hrun with
    | nil => exact .nil
    | snoc hbefore hlast ih =>
      exact ih.snoc ⟨hlast.1, (hiff _ _ _ (hinv hbefore) hlast.1).mp hlast.2⟩
  · intro hrun
    induction hrun with
    | nil => exact .nil
    | snoc _ hlast ih =>
      exact ih.snoc ⟨hlast.1, (hiff _ _ _ (hinv ih) hlast.1).mpr hlast.2⟩

/-- Two conditions that are the same in reachable states cut down the runs to the same ones. -/
theorem Run.restrict_iff_of_reachable {G G' : σ → α → Prop} (hinit : M.init s)
    (hiff : ∀ s a t, M.Reachable s → M.step s a t → (G s a ↔ G' s a)) :
    (M.restrict G).Run s as t ↔ (M.restrict G').Run s as t :=
  Run.restrict_iff (.of_init hinit) (fun _ _ _ hs hstep _ => hs.step hstep) hiff

/-- Following labels whose steps all meet `G` is running the restricted machine. -/
theorem Run.of_follow_restrict {init : σ → Prop} {next : σ → α → Option σ} {G : σ → α → Prop}
    [∀ s a, Decidable (G s a)]
    (hfollow : Machine.follow (fun s a => if G s a then next s a else none) as s = some t) :
    ((ofStep init next).restrict G).Run s as t := by
  induction as generalizing s with
  | nil =>
    cases hfollow
    exact .nil
  | cons a as ih =>
    obtain ⟨u, hstep, hrest⟩ := Option.bind_eq_some_iff.mp hfollow
    dsimp only at hstep
    split at hstep
    · rename_i hG
      exact .cons ⟨hstep, hG⟩ (ih hrest)
    · cases hstep

/-- Following such labels from a reachable state leads to reachable states. -/
theorem Reachable.follow_restrict {init : σ → Prop} {next : σ → α → Option σ} {G : σ → α → Prop}
    [∀ s a, Decidable (G s a)] (h : ((ofStep init next).restrict G).Reachable s)
    (hfollow : Machine.follow (fun s a => if G s a then next s a else none) as s = some t) :
    ((ofStep init next).restrict G).Reachable t :=
  h.run (.of_follow_restrict hfollow)

/-- Taking notes changes nothing about the steps that meet `G` either. -/
theorem Reachable.of_observe_restrict {init : σ → Prop} {next : σ → α → Option σ} {start : τ}
    {note : σ → α → τ → τ} {G : σ → α → Prop} {s : σ × τ}
    (h : ((observe init next start note).restrict fun s a => G s.1 a).Reachable s) :
    ((ofStep init next).restrict G).Reachable s.1 := by
  refine h.invariant (I := fun s => ((ofStep init next).restrict G).Reachable s.1) ?_ ?_
  · rintro s ⟨hinit, -⟩
    exact Reachable.of_init (M := (ofStep init next).restrict G) hinit
  · rintro s a t hs ⟨hstep, hG⟩
    exact Reachable.step (M := (ofStep init next).restrict G) hs ⟨(observe_step hstep).1, hG⟩

/-- **Projection.** If what is seen of every step of `M` is a run of `A`, then so is what is seen of
a run. -/
theorem Run.project {β : Type*} {A : Machine τ β} {f : σ → τ}
    (h : ∀ s a t, M.step s a t → ∃ bs, A.Run (f s) bs (f t)) (hrun : M.Run s as t) :
    ∃ bs, A.Run (f s) bs (f t) := by
  induction hrun with
  | nil => exact ⟨[], .nil⟩
  | snoc _ hlast ih =>
    obtain ⟨bs, hbefore⟩ := ih
    obtain ⟨bs', hafter⟩ := h _ _ _ hlast
    exact ⟨bs ++ bs', hbefore.append hafter⟩

/-- What is seen of a reachable state is reachable. -/
theorem Reachable.project {β : Type*} {A : Machine τ β} {f : σ → τ}
    (hinit : ∀ s, M.init s → A.init (f s))
    (h : ∀ s a t, M.step s a t → ∃ bs, A.Run (f s) bs (f t)) (hs : M.Reachable s) :
    A.Reachable (f s) := by
  obtain ⟨s₀, as, h₀, hrun⟩ := hs
  obtain ⟨bs, hproject⟩ := hrun.project h
  exact ⟨f s₀, bs, hinit s₀ h₀, hproject⟩

/-- Every step of `M` from a state related by `R` is matched, under the same label, by `A`. -/
structure Simulation (M : Machine σ α) (A : Machine τ α) (R : σ → τ → Prop) : Prop where
  init : ∀ s, M.init s → ∃ t, A.init t ∧ R s t
  step : ∀ s a s' t, R s t → M.step s a s' → ∃ t', A.step t a t' ∧ R s' t'

/-- **Simulation.** A simulated run is a run of the simulating machine. -/
theorem Simulation.run {R : σ → τ → Prop} (h : Simulation M A R) (hinit : M.init s)
    (hrun : M.Run s as s') : ∃ t t', A.init t ∧ A.Run t as t' ∧ R s' t' := by
  induction hrun with
  | nil =>
    obtain ⟨t, ht, hR⟩ := h.init s hinit
    exact ⟨t, t, ht, .nil, hR⟩
  | snoc _ hlast ih =>
    obtain ⟨t, t', ht, hrun, hR⟩ := ih
    obtain ⟨t'', hstep, hR'⟩ := h.step _ _ _ _ hR hlast
    exact ⟨t, t'', ht, hrun.snoc hstep, hR'⟩

end Machine
