import Mathlib.Data.List.Nodup
import Mathlib.Logic.Function.Basic

/-!
# Jobs handed out to workers

Every worker has a queue. A job is handed to one of them once, and joins the end of its queue; a
worker starts the jobs of its queue from the front. Nothing is said about when.

The one thing to know of such a scheme is that no job is lost and none is started twice. Both are
read off a record of which job was handed to whom and of the jobs that were started, next to the
queues. `Sound` ties the record to the queues, and every step keeps it.

Jobs are whatever tells two of them apart, and workers likewise; neither type needs decidable
equality or a bound. A job that was handed to nobody has no target, so that handing it out twice is
excluded by the step and not by a hypothesis on runs.

## Main results

* `Dispatch.Sound.step` — in every step, a job that was handed to a worker is in its queue or was
  started, but not both, and was started once
-/

/-- Which job was handed to whom, and what became of it. -/
structure Dispatch (ι J : Type*) where
  target : J → Option ι
  queue : ι → List J
  /-- The jobs that were started, in the order in which they were. -/
  started : List J

namespace Dispatch

variable {ι J : Type*} [DecidableEq ι] [DecidableEq J] {a b : Dispatch ι J}

/-- What can happen to them: a job that was handed to nobody is handed to somebody, or a worker
starts the job that has been in its queue the longest. -/
inductive Step (a : Dispatch ι J) : Dispatch ι J → Prop
  | idle : Step a a
  | submit {job : J} {i : ι} : a.target job = none → Step a { a with
      target := Function.update a.target job (some i)
      queue := Function.update a.queue i (a.queue i ++ [job]) }
  | start {job : J} {i : ι} {rest : List J} : a.queue i = job :: rest → Step a { a with
      queue := Function.update a.queue i rest
      started := a.started ++ [job] }

/-- A job that was handed to a worker is in its queue, or it was started; there it is once. -/
structure Sound (a : Dispatch ι J) : Prop where
  /-- Jobs in a queue were handed to that worker. -/
  queued : ∀ i job, job ∈ a.queue i → a.target job = some i
  nodup : ∀ i, (a.queue i).Nodup
  /-- Jobs that were started are in no queue. -/
  gone : ∀ job ∈ a.started, a.target job ≠ none ∧ ∀ i, job ∉ a.queue i
  once : a.started.Nodup
  kept : ∀ job i, a.target job = some i → job ∈ a.started ∨ job ∈ a.queue i

/-- A job that was handed to nobody is handed to a worker, and is the last in its queue. -/
theorem Sound.submit {job : J} {i : ι} (h : a.Sound) (hnew : a.target job = none) :
    Sound { a with
      target := Function.update a.target job (some i)
      queue := Function.update a.queue i (a.queue i ++ [job]) } := by
  have hfresh : ∀ j k, k ∈ a.queue j → k ≠ job := by
    rintro j k hmem rfl
    rw [h.queued j k hmem] at hnew
    cases hnew
  refine ⟨fun j k hmem => ?_, fun j => ?_, fun k hmem => ?_, h.once, fun k j htarget => ?_⟩
  · by_cases hj : j = i
    · subst hj
      simp only [Function.update_self, List.mem_append, List.mem_singleton] at hmem
      rcases hmem with hmem | rfl
      · simp [hfresh j k hmem, h.queued j k hmem]
      · simp
    · simp only [ne_eq, hj, not_false_eq_true, Function.update_of_ne] at hmem
      simp [hfresh j k hmem, h.queued j k hmem]
  · by_cases hj : j = i
    · subst hj
      simp only [Function.update_self, List.nodup_append]
      refine ⟨h.nodup j, by simp, fun k hmem k' hk' => ?_⟩
      rw [List.mem_singleton.mp hk']
      exact hfresh j k hmem
    · simpa [hj] using h.nodup j
  · obtain ⟨htarget, hnone⟩ := h.gone k hmem
    have hne : k ≠ job := by
      rintro rfl
      exact htarget hnew
    refine ⟨by simpa [hne] using htarget, fun j => ?_⟩
    by_cases hj : j = i
    · subst hj
      simpa [hne] using hnone j
    · simpa [hj] using hnone j
  · by_cases hk : k = job
    · subst hk
      simp only [Function.update_self, Option.some.injEq] at htarget
      subst htarget
      simp
    · simp only [ne_eq, hk, not_false_eq_true, Function.update_of_ne] at htarget
      rcases h.kept k j htarget with hstarted | hmem
      · exact .inl hstarted
      · refine .inr ?_
        by_cases hj : j = i
        · subst hj
          simp [hmem]
        · simpa [hj] using hmem

omit [DecidableEq J] in
/-- A worker starts its next job, which is no longer in the queue. -/
theorem Sound.start {job : J} {i : ι} {rest : List J} (h : a.Sound)
    (hqueue : a.queue i = job :: rest) :
    Sound { a with
      queue := Function.update a.queue i rest
      started := a.started ++ [job] } := by
  have hsub : ∀ j k, k ∈ Function.update a.queue i rest j → k ∈ a.queue j ∧ k ≠ job := by
    intro j k hmem
    by_cases hj : j = i
    · subst hj
      have hnodup := h.nodup j
      rw [Function.update_self] at hmem
      rw [hqueue, List.nodup_cons] at hnodup
      refine ⟨by simp [hqueue, hmem], ?_⟩
      rintro rfl
      exact hnodup.1 hmem
    · rw [Function.update_of_ne hj] at hmem
      refine ⟨hmem, ?_⟩
      rintro rfl
      have htarget := h.queued i k (by simp [hqueue])
      rw [h.queued j k hmem] at htarget
      exact hj (Option.some.inj htarget)
  have htarget := h.queued i job (by simp [hqueue])
  have hunstarted : job ∉ a.started := fun hmem => (h.gone job hmem).2 i (by simp [hqueue])
  refine ⟨fun j k hmem => h.queued j k (hsub j k hmem).1, fun j => ?_, fun k hmem => ?_, ?_,
    fun k j hk => ?_⟩
  · by_cases hj : j = i
    · subst hj
      have hnodup := h.nodup j
      rw [hqueue, List.nodup_cons] at hnodup
      simpa using hnodup.2
    · simpa [hj] using h.nodup j
  · rcases List.mem_append.mp hmem with hmem | hmem
    · exact ⟨(h.gone k hmem).1, fun j hj => (h.gone k hmem).2 j (hsub j k hj).1⟩
    · rw [List.mem_singleton.mp hmem]
      refine ⟨by simp [htarget], fun j hj => (hsub j job hj).2 rfl⟩
  · refine List.nodup_append.mpr ⟨h.once, by simp, fun k hmem k' hk' => ?_⟩
    rw [List.mem_singleton.mp hk']
    rintro rfl
    exact hunstarted hmem
  · rcases h.kept k j hk with hstarted | hmem
    · exact .inl (List.mem_append_left _ hstarted)
    · by_cases hj : j = i
      · subst hj
        rw [hqueue, List.mem_cons] at hmem
        rcases hmem with rfl | hmem
        · exact .inl (by simp)
        · exact .inr (by simpa using hmem)
      · exact .inr (by simpa [hj] using hmem)

theorem Sound.step (h : a.Sound) (hstep : a.Step b) : b.Sound := by
  cases hstep with
  | idle => exact h
  | submit hnew => exact h.submit hnew
  | start hqueue => exact h.start hqueue

end Dispatch

