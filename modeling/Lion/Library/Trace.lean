import Mathlib.Data.List.Induction
import Mathlib.Tactic.Common

/-!
# Properties of event logs

A log is a list of events, oldest first. Two templates cover what one usually wants to say of one.

An `ActionSafety` looks back: every event it accepts is valid in view of the log before it. A
`LocalLiveness` looks ahead: every event it accepts is answered, and before a deadline passes.
Acceptance and validity both see the log before the event, so that "an event of this kind after that
one" is a matter of acceptance and not of a state kept on the side.

## Looking at the newest event only

Both can be kept up by looking at the newest event only. For safety that is
`ActionSafety.Satisfied.snoc`. Liveness is safety at the deadlines: it is enough that a deadline
comes after everything accepted, and that whenever one comes there has been an answer
(`LocalLiveness.satisfied_of_deadline`). What has been is said with `Since`, which is a set of
events that count and a set of events after which they no longer do.

## Logs that fall short of a property

`ActionSafety.except` is what is left of a property when some of the events that it accepts are
exempted. It is for a program that satisfies a property up to named exceptions: the property without
them is satisfied (`Satisfied`), and each exception is an event that is accepted and not valid.
`Satisfied.of_except` gives the whole property back for a log in which no exception occurs.

## Main results

* `Since.snoc_of_not` — what is not cut off stays
* `since_append_iff_of_not` — what has happened by now, and has not gone on happening
* `ActionSafety.Satisfied.snoc` — safety, one event at a time
* `ActionSafety.Satisfied.append`, `LocalLiveness.Satisfied.append` — several at a time
* `LocalLiveness.satisfied_of_deadline` — liveness from safety at the deadlines
-/

namespace Trace

variable {ε : Type*} {log : List ε} {ev : ε}

/-! ### Since -/

/-- Something that `p` has happened, and nothing that `cut` since. An event that is both counts. -/
def Since (p cut : ε → Prop) (log : List ε) : Prop :=
  ∃ before ev after, log = before ++ ev :: after ∧ p ev ∧ ∀ x ∈ after, ¬ cut x

variable {p q cut : ε → Prop}

/-- An event that counts has just happened. -/
theorem Since.snoc_of_mem (h : p ev) : Since p cut (log ++ [ev]) :=
  ⟨log, ev, [], rfl, h, by simp⟩

/-- What has happened stays with every further event that does not cut it off. -/
theorem Since.snoc_of_not (h : Since p cut log) (hev : ¬ cut ev) : Since p cut (log ++ [ev]) := by
  obtain ⟨before, x, after, rfl, hx, hafter⟩ := h
  refine ⟨before, x, after ++ [ev], by simp, hx, ?_⟩
  intro y hy
  rcases List.mem_append.mp hy with hy | hy
  · exact hafter y hy
  · rw [List.mem_singleton.mp hy]
    exact hev

theorem Since.mono {cut' : ε → Prop} (h : Since p cut log) (hp : ∀ x, p x → q x)
    (hcut : ∀ x, cut' x → cut x) : Since q cut' log := by
  obtain ⟨before, x, after, rfl, hx, hafter⟩ := h
  exact ⟨before, x, after, rfl, hp x hx, fun y hy hc => hafter y hy (hcut y hc)⟩

theorem Since.exists_mem (h : Since p cut log) : ∃ ev ∈ log, p ev := by
  obtain ⟨before, ev, after, rfl, hev, -⟩ := h
  exact ⟨ev, by simp, hev⟩

theorem not_since_nil : ¬ Since p cut [] := by
  rintro ⟨before, ev, after, heq, -, -⟩
  simp at heq

/-- One more event: it counts itself, or something before it does and it does not cut that off. -/
theorem since_snoc_iff : Since p cut (log ++ [ev]) ↔ p ev ∨ Since p cut log ∧ ¬ cut ev := by
  refine ⟨?_, ?_⟩
  · rintro ⟨before, x, after, heq, hx, hafter⟩
    rcases List.eq_nil_or_concat after with rfl | ⟨after, last, rfl⟩
    · obtain ⟨-, hlast⟩ := List.append_inj' heq rfl
      cases hlast
      exact .inl hx
    · rw [List.concat_eq_append, ← List.cons_append, ← List.append_assoc] at heq
      obtain ⟨rfl, hlast⟩ := List.append_inj' heq rfl
      cases hlast
      refine .inr ⟨⟨before, x, after, rfl, hx, fun y hy => hafter y ?_⟩, hafter ev ?_⟩
      · simp [hy]
      · simp
  · rintro (hev | ⟨hsince, hcut⟩)
    · exact .snoc_of_mem hev
    · exact hsince.snoc_of_not hcut

/-- What does not happen in the rest has happened before it, and is not cut off by it. -/
theorem since_append_iff_of_not {rest : List ε} (hrest : ∀ x ∈ rest, ¬ p x) :
    Since p cut (log ++ rest) ↔ Since p cut log ∧ ∀ x ∈ rest, ¬ cut x := by
  induction rest using List.reverseRecOn with
  | nil => simp
  | append_singleton rest ev ih =>
    rw [← List.append_assoc, since_snoc_iff, ih fun x hx => hrest x (List.mem_append_left _ hx),
      or_iff_right (hrest ev (by simp)), and_assoc]
    refine and_congr_right fun _ => ?_
    simp [or_imp, forall_and]

/-- What has happened since the last cut has happened after any cut. -/
theorem Since.mem_of_cut (h : Since p cut (log ++ ev :: after)) (hev : cut ev) (hp : ¬ p ev) :
    ∃ x ∈ after, p x := by
  obtain ⟨before, x, rest, heq, hx, hrest⟩ := h
  rcases List.append_eq_append_iff.mp heq with ⟨as, rfl, htail⟩ | ⟨bs, rfl, htail⟩
  · cases as with
    | nil =>
      rw [List.nil_append, List.cons.injEq] at htail
      exact absurd (htail.1 ▸ hx) hp
    | cons a as =>
      rw [List.cons_append, List.cons.injEq] at htail
      refine ⟨x, ?_, hx⟩
      rw [htail.2]
      simp
  · cases bs with
    | nil =>
      rw [List.nil_append, List.cons.injEq] at htail
      exact absurd (htail.1 ▸ hx) hp
    | cons b bs =>
      rw [List.cons_append, List.cons.injEq] at htail
      refine absurd hev (hrest ev ?_)
      rw [htail.2]
      simp

/-! ### Looking back -/

/-- A safety property of the events of a log, each seen with the log before it. -/
structure ActionSafety (ε : Type*) where
  /-- The events it is about, in view of the log before them. -/
  acceptance : List ε → ε → Prop
  /-- What it says of them, in view of the same. -/
  validity : List ε → ε → Prop

namespace ActionSafety

variable {P : ActionSafety ε}

/-- The property of those events alone that `E` does not hold of. -/
def except (P : ActionSafety ε) (E : List ε → ε → Prop) : ActionSafety ε where
  acceptance before ev := P.acceptance before ev ∧ ¬ E before ev
  validity := P.validity

/-- Every event that is accepted is valid, wherever in the log it stands. -/
def Satisfied (P : ActionSafety ε) (log : List ε) : Prop :=
  ∀ before ev after, log = before ++ ev :: after → P.acceptance before ev → P.validity before ev

theorem satisfied_nil : P.Satisfied [] := by
  intro before ev after h
  simp at h

/-- One more event has to be looked at only by itself, and only if it is accepted. -/
theorem Satisfied.snoc (h : P.Satisfied log) (hev : P.acceptance log ev → P.validity log ev) :
    P.Satisfied (log ++ [ev]) := by
  intro before x after heq
  rcases List.eq_nil_or_concat after with rfl | ⟨after, last, rfl⟩
  · obtain ⟨rfl, hlast⟩ := List.append_inj' heq rfl
    cases hlast
    exact hev
  · rw [List.concat_eq_append, ← List.cons_append, ← List.append_assoc] at heq
    obtain ⟨rfl, -⟩ := List.append_inj' heq rfl
    exact h before x after rfl

/-- It is no loss to leave out what is not accepted anyway. -/
theorem Satisfied.of_except {E : List ε → ε → Prop} (h : (P.except E).Satisfied log)
    (hE : ∀ before ev, P.acceptance before ev → ¬ E before ev) : P.Satisfied log :=
  fun before ev after heq haccept => h before ev after heq ⟨haccept, hE before ev haccept⟩

/-- More events, each of them seen with what is there by then. -/
theorem Satisfied.append {rest : List ε} (h : P.Satisfied log)
    (hrest : ∀ before ev after, rest = before ++ ev :: after →
      P.acceptance (log ++ before) ev → P.validity (log ++ before) ev) :
    P.Satisfied (log ++ rest) := by
  induction rest using List.reverseRecOn with
  | nil => rwa [List.append_nil]
  | append_singleton rest ev ih =>
    rw [← List.append_assoc]
    refine (ih fun before x after heq => ?_).snoc (hrest rest ev [] rfl)
    exact hrest before x (after ++ [ev]) (by simp [heq])

end ActionSafety

/-! ### Looking ahead -/

/-- A liveness property of the events of a log: what is owed, what settles it, and by when. -/
structure LocalLiveness (ε : Type*) where
  /-- The events it is about, in view of the log before them. -/
  acceptance : List ε → ε → Prop
  fulfillment : ε → Prop
  deadline : ε → Prop

namespace LocalLiveness

variable {P : LocalLiveness ε}

/-- Every event that is accepted is answered, before a deadline passes. An event at the end of a log
is in time as long as no deadline has come. -/
def Satisfied (P : LocalLiveness ε) (log : List ε) : Prop :=
  ∀ before ev after, log = before ++ ev :: after → P.acceptance before ev →
    ∃ mid x rest, after = mid ++ x :: rest ∧ P.fulfillment x ∧ ∀ y ∈ mid, ¬ P.deadline y

/-- A list with an element that has a property has a first one. -/
theorem exists_first {after : List ε} (h : ∃ x ∈ after, q x) :
    ∃ mid x rest, after = mid ++ x :: rest ∧ q x ∧ ∀ y ∈ mid, ¬ q y := by
  induction after with
  | nil => simp at h
  | cons a as ih =>
    by_cases ha : q a
    · exact ⟨[], a, as, rfl, ha, by simp⟩
    · obtain ⟨x, hx, hq⟩ := h
      have hmem : x ∈ as := (List.mem_cons.mp hx).resolve_left fun heq => ha (heq ▸ hq)
      obtain ⟨mid, y, rest, rfl, hy, hmid⟩ := ih ⟨x, hmem, hq⟩
      refine ⟨a :: mid, y, rest, rfl, hy, ?_⟩
      intro z hz
      rcases List.mem_cons.mp hz with rfl | hz
      · exact ha
      · exact hmid z hz

theorem satisfied_nil : P.Satisfied [] := by
  intro before ev after h
  simp at h

/-- More events, in which everything that they accept is answered. -/
theorem Satisfied.append {rest : List ε} (h : P.Satisfied log)
    (hrest : ∀ before ev after, rest = before ++ ev :: after → P.acceptance (log ++ before) ev →
      ∃ mid x late, after = mid ++ x :: late ∧ P.fulfillment x ∧ ∀ y ∈ mid, ¬ P.deadline y) :
    P.Satisfied (log ++ rest) := by
  intro before ev after heq haccept
  rcases List.append_eq_append_iff.mp heq with ⟨as, rfl, hrest'⟩ | ⟨bs, hlog, htail⟩
  · exact hrest as ev after hrest' haccept
  · cases bs with
    | nil =>
      rw [List.append_nil] at hlog
      subst hlog
      exact hrest [] ev after htail.symm (by rwa [List.append_nil])
    | cons b bs =>
      rw [List.cons_append, List.cons.injEq] at htail
      obtain ⟨rfl, rfl⟩ := htail
      obtain ⟨mid, x, late, rfl, hx, hmid⟩ := h before ev bs hlog haccept
      exact ⟨mid, x, late ++ rest, by simp, hx, hmid⟩

/-- **Liveness from safety at the deadlines.** A deadline comes after everything that is accepted,
and between the two there is an answer. -/
theorem satisfied_of_deadline
    (hdeadline : ∀ before ev after, log = before ++ ev :: after → P.acceptance before ev →
      ∃ x ∈ after, P.deadline x)
    (hanswer : ∀ before ev mid x after, log = before ++ ev :: (mid ++ x :: after) →
      P.acceptance before ev → P.deadline x → (∀ y ∈ mid, ¬ P.deadline y) →
      ∃ y ∈ mid, P.fulfillment y) : P.Satisfied log := by
  intro before ev after heq haccept
  obtain ⟨mid, x, rest, rfl, hx, hmid⟩ := exists_first (hdeadline before ev after heq haccept)
  obtain ⟨y, hy, hfulfill⟩ := hanswer before ev mid x rest heq haccept hx hmid
  obtain ⟨early, late, rfl⟩ := List.append_of_mem hy
  refine ⟨early, y, late ++ x :: rest, by simp, hfulfill, ?_⟩
  intro z hz
  exact hmid z (List.mem_append_left _ hz)

end LocalLiveness

end Trace
