import Lion.Executor.Acts

/-!
# Cross-thread wakes reach a blocked executor

A waker called on another thread pushes an id, then swaps the interrupt's flag, and calls mio's
waker if the flag was unset. `park` resets the flag, then drains the queue, then blocks. From the
reset on, a set flag means that a wake of mio is pending or about to be issued (`Shared.Armed`):
nothing consumes one before the poll returns. An id that is pushed after the drain belongs to a call
that has yet to swap the flag, and the swap either finds the flag set or leads to a wake
(`Shared.Covered`).

## Tickets

Two calls may push the same id, and whether an entry of the queue will end the poll depends on which
of them it is from. So entries carry the ticket of their call, and the invariant is about tickets: a
covered ticket is that of a call that has yet to swap, or there is a wake due that the swap would
have led to. A call that is overtaken by another one between its push and its swap stays covered
through the other (`Shared.Covered.callStep`), which is the one place where the race is decided.

## The invariant

`Wired` is about the shared state from the reset to the end of the poll. Before the reset a set flag
says nothing: it may be left from a call long ago. That is why `park` has to drain the queue after
it has reset the flag and not before, and why the injection queue, which it does not drain again,
needs a condition of its own; see `Injection`.

## Main results

* `Shared.Covered.callStep` — a covered call stays covered
* `State.parked_cross` — what was pushed during a poll ends the poll, and what is drained is queued
-/

namespace Lion

namespace Shared

variable {sh sh' : Shared} {k j : ℕ}

/-- A wake of mio is pending, or about to be issued by a call that has swapped the flag. -/
def WakeDue (sh : Shared) : Prop := sh.mioPending = true ∨ ∃ c ∈ sh.calls, c.stage = .mioWake

/-- The call with ticket `k` has yet to swap the flag, or a wake is due anyway. -/
def Covered (sh : Shared) (k : ℕ) : Prop :=
  (∃ c ∈ sh.calls, c.ticket = k ∧ c.stage = .swap) ∨ sh.WakeDue

/-- The flag is set only if a wake is due. -/
def Armed (sh : Shared) : Prop := sh.notified = true → sh.WakeDue

instance : Decidable sh.WakeDue := inferInstanceAs (Decidable (_ ∨ _))

instance : Decidable (sh.Covered k) := inferInstanceAs (Decidable (_ ∨ _))

/-- Calls are known by their tickets, and a call whose task has been sent is past sending. -/
structure CallsOk (sh : Shared) : Prop where
  unique : ∀ c ∈ sh.calls, ∀ c' ∈ sh.calls, c.ticket = c'.ticket → c = c'
  below : ∀ c ∈ sh.calls, c.ticket < sh.nextTicket
  /-- So were those of sent tasks. -/
  sent_below : ∀ x ∈ sh.injection, x.2 < sh.nextTicket
  /-- The call of a sent task is about to wake. -/
  sent : ∀ x ∈ sh.injection, ∀ c ∈ sh.calls, c.ticket = x.2 → c.stage = .swap ∨ c.stage = .mioWake

theorem callsOk_new : CallsOk .new := by
  constructor <;> simp [new]

/-! ### Calls -/

theorem mem_setStage {stage : Stage} {c : Call} : c ∈ (sh.setStage k stage).calls ↔
    (c ∈ sh.calls ∧ c.ticket ≠ k) ∨
      ∃ c₀ ∈ sh.calls, c₀.ticket = k ∧ c = { c₀ with stage := stage } := by
  simp only [setStage, List.mem_map]
  constructor
  · rintro ⟨c₀, hmem, rfl⟩
    by_cases hk : c₀.ticket = k
    · rw [if_pos hk]
      exact .inr ⟨c₀, hmem, hk, rfl⟩
    · rw [if_neg hk]
      exact .inl ⟨hmem, hk⟩
  · rintro (⟨hmem, hk⟩ | ⟨c₀, hmem, hk, rfl⟩)
    · exact ⟨c, hmem, if_neg hk⟩
    · exact ⟨c₀, hmem, if_pos hk⟩

theorem mem_endCall {c : Call} : c ∈ (sh.endCall k).calls ↔ c ∈ sh.calls ∧ c.ticket ≠ k := by
  simp [endCall]

/-- What one step of a call does, according to its stage. -/
theorem callStep_cases (h : sh.callStep k = some sh') : ∃ c ∈ sh.calls, c.ticket = k ∧
    ((∃ task, c.stage = .send task ∧
        sh' = { sh with injection := sh.injection ++ [(task, k)] }.setStage k .swap) ∨
      (∃ id, c.stage = .push id ∧
        sh' = { sh with crossQueue := sh.crossQueue ++ [(id, k)] }.setStage k .swap) ∨
      (c.stage = .swap ∧ sh.notified = true ∧ sh' = sh.endCall k) ∨
      (c.stage = .swap ∧ sh.notified = false ∧
        sh' = { sh with notified := true }.setStage k .mioWake) ∨
      (c.stage = .mioWake ∧ sh' = { sh with mioPending := true }.endCall k)) := by
  simp only [callStep, Option.bind_eq_bind, Option.bind_eq_some_iff] at h
  obtain ⟨c, hfind, h⟩ := h
  refine ⟨c, List.mem_of_find?_eq_some hfind, by simpa using List.find?_some hfind, ?_⟩
  cases hstage : c.stage with
  | send task =>
    rw [hstage] at h
    cases h
    exact .inl ⟨task, rfl, rfl⟩
  | push id =>
    rw [hstage] at h
    cases h
    exact .inr (.inl ⟨id, rfl, rfl⟩)
  | swap =>
    rw [hstage] at h
    dsimp only at h
    cases hn : sh.notified with
    | true =>
      rw [hn] at h
      cases h
      exact .inr (.inr (.inl ⟨rfl, rfl, rfl⟩))
    | false =>
      rw [hn] at h
      cases h
      exact .inr (.inr (.inr (.inl ⟨rfl, rfl, rfl⟩)))
  | mioWake =>
    rw [hstage] at h
    cases h
    exact .inr (.inr (.inr (.inr ⟨rfl, rfl⟩)))

/-- Other calls stay as they are when one of them takes a step. -/
theorem callStep_other (h : sh.callStep k = some sh') {c₀ : Call} (hc₀ : c₀ ∈ sh.calls)
    (hk₀ : c₀.ticket ≠ k) : c₀ ∈ sh'.calls := by
  obtain ⟨c, -, -, hcases⟩ := callStep_cases h
  rcases hcases with ⟨_, _, rfl⟩ | ⟨_, _, rfl⟩ | ⟨_, _, rfl⟩ | ⟨_, _, rfl⟩ | ⟨_, rfl⟩
  · exact mem_setStage.mpr (.inl ⟨hc₀, hk₀⟩)
  · exact mem_setStage.mpr (.inl ⟨hc₀, hk₀⟩)
  · exact mem_endCall.mpr ⟨hc₀, hk₀⟩
  · exact mem_setStage.mpr (.inl ⟨hc₀, hk₀⟩)
  · exact mem_endCall.mpr ⟨hc₀, hk₀⟩

/-- A call that steps from its stage is the only one with its ticket. -/
theorem CallsOk.stage_eq (h : CallsOk sh) {c c₀ : Call} (hc : c ∈ sh.calls) (hc₀ : c₀ ∈ sh.calls)
    (hk : c.ticket = k) (hk₀ : c₀.ticket = k) : c₀.stage = c.stage := by
  rw [h.unique c₀ hc₀ c hc (hk₀.trans hk.symm)]

/-- A due wake stays due until the poll returns. -/
theorem WakeDue.callStep (hok : CallsOk sh) (h : sh.WakeDue) (hstep : sh.callStep k = some sh') :
    sh'.WakeDue := by
  obtain ⟨c, hc, hk, hcases⟩ := callStep_cases hstep
  rcases h with hpending | ⟨c₀, hc₀, hstage⟩
  · rcases hcases with ⟨_, _, rfl⟩ | ⟨_, _, rfl⟩ | ⟨_, _, rfl⟩ | ⟨_, _, rfl⟩ | ⟨_, rfl⟩
    · exact .inl hpending
    · exact .inl hpending
    · exact .inl hpending
    · exact .inl hpending
    · exact .inl rfl
  · by_cases hk₀ : c₀.ticket = k
    · -- it is this call that issues the wake
      have hsame := hok.stage_eq hc hc₀ hk hk₀
      rw [hstage] at hsame
      rcases hcases with ⟨_, hs, _⟩ | ⟨_, hs, _⟩ | ⟨hs, _, _⟩ | ⟨hs, _, _⟩ | ⟨_, rfl⟩
      · rw [hs] at hsame; cases hsame
      · rw [hs] at hsame; cases hsame
      · rw [hs] at hsame; cases hsame
      · rw [hs] at hsame; cases hsame
      · exact .inl rfl
    · exact .inr ⟨c₀, callStep_other hstep hc₀ hk₀, hstage⟩

theorem Armed.callStep (hok : CallsOk sh) (h : sh.Armed) (hstep : sh.callStep k = some sh') :
    sh'.Armed := by
  intro hn
  have hdue : sh.notified = true → sh'.WakeDue := fun hn => (h hn).callStep hok hstep
  obtain ⟨c, hc, hk, hcases⟩ := callStep_cases hstep
  rcases hcases with ⟨_, _, rfl⟩ | ⟨_, _, rfl⟩ | ⟨_, _, rfl⟩ | ⟨_, _, rfl⟩ | ⟨_, rfl⟩
  · exact hdue hn
  · exact hdue hn
  · exact hdue hn
  · exact .inr ⟨_, mem_setStage.mpr (.inr ⟨c, hc, hk, rfl⟩), rfl⟩
  · exact hdue hn

/-- **A covered call stays covered.** Its own swap finds the flag set, and then a wake is due, or
sets it, and then the call is about to issue one. -/
theorem Covered.callStep (hok : CallsOk sh) (harmed : sh.Armed) (h : sh.Covered j)
    (hstep : sh.callStep k = some sh') : sh'.Covered j := by
  rcases h with ⟨c₀, hc₀, hj, hstage⟩ | hdue
  · obtain ⟨c, hc, hk, hcases⟩ := callStep_cases hstep
    by_cases hk₀ : c₀.ticket = k
    · have hsame := hok.stage_eq hc hc₀ hk hk₀
      rw [hstage] at hsame
      rcases hcases with ⟨_, hs, _⟩ | ⟨_, hs, _⟩ | ⟨_, hn, _⟩ | ⟨_, _, rfl⟩ | ⟨hs, _⟩
      · rw [hs] at hsame; cases hsame
      · rw [hs] at hsame; cases hsame
      · exact .inr ((harmed hn).callStep hok hstep)
      · exact .inr (.inr ⟨_, mem_setStage.mpr (.inr ⟨c, hc, hk, rfl⟩), rfl⟩)
      · rw [hs] at hsame; cases hsame
    · exact .inl ⟨c₀, callStep_other hstep hc₀ hk₀, hj, hstage⟩
  · exact .inr (hdue.callStep hok hstep)

/-- What a call appends to a queue is covered. -/
theorem callStep_queues (h : sh.callStep k = some sh') :
    (∀ x ∈ sh'.injection, x ∈ sh.injection ∨ sh'.Covered x.2) ∧
      ∀ x ∈ sh'.crossQueue, x ∈ sh.crossQueue ∨ sh'.Covered x.2 := by
  obtain ⟨c, hc, hk, hcases⟩ := callStep_cases h
  rcases hcases with ⟨task, _, rfl⟩ | ⟨id, _, rfl⟩ | ⟨_, _, rfl⟩ | ⟨_, _, rfl⟩ | ⟨_, rfl⟩
  · refine ⟨fun x hx => ?_, fun x hx => .inl hx⟩
    refine (List.mem_append.mp hx).imp_right fun hx => .inl ?_
    rw [List.mem_singleton.mp hx]
    exact ⟨_, mem_setStage.mpr (.inr ⟨c, hc, hk, rfl⟩), hk, rfl⟩
  · refine ⟨fun x hx => .inl hx, fun x hx => ?_⟩
    refine (List.mem_append.mp hx).imp_right fun hx => .inl ?_
    rw [List.mem_singleton.mp hx]
    exact ⟨_, mem_setStage.mpr (.inr ⟨c, hc, hk, rfl⟩), hk, rfl⟩
  · exact ⟨fun x hx => .inl hx, fun x hx => .inl hx⟩
  · exact ⟨fun x hx => .inl hx, fun x hx => .inl hx⟩
  · exact ⟨fun x hx => .inl hx, fun x hx => .inl hx⟩

theorem CallsOk.setStage (h : CallsOk sh) {stage : Stage}
    (hstage : stage = .swap ∨ stage = .mioWake) : CallsOk (sh.setStage k stage) := by
  constructor
  · intro c hc c' hc' heq
    rcases mem_setStage.mp hc with ⟨hc, hk⟩ | ⟨c₀, hc₀, hk, rfl⟩
    · rcases mem_setStage.mp hc' with ⟨hc', -⟩ | ⟨c₁, -, hk₁, rfl⟩
      · exact h.unique c hc c' hc' heq
      · exact absurd (heq.trans hk₁) hk
    · rcases mem_setStage.mp hc' with ⟨-, hk'⟩ | ⟨c₁, hc₁, hk₁, rfl⟩
      · exact absurd (heq.symm.trans hk) hk'
      · rw [h.unique c₀ hc₀ c₁ hc₁ (hk.trans hk₁.symm)]
  · intro c hc
    rcases mem_setStage.mp hc with ⟨hc, -⟩ | ⟨c₀, hc₀, -, rfl⟩
    · exact h.below c hc
    · exact h.below c₀ hc₀
  · exact h.sent_below
  · intro x hx c hc heq
    rcases mem_setStage.mp hc with ⟨hc, -⟩ | ⟨c₀, -, -, rfl⟩
    · exact h.sent x hx c hc heq
    · exact hstage

theorem CallsOk.endCall (h : CallsOk sh) : CallsOk (sh.endCall k) := by
  constructor
  · intro c hc c' hc'
    exact h.unique c (mem_endCall.mp hc).1 c' (mem_endCall.mp hc').1
  · exact fun c hc => h.below c (mem_endCall.mp hc).1
  · exact h.sent_below
  · exact fun x hx c hc => h.sent x hx c (mem_endCall.mp hc).1

theorem CallsOk.startCall (h : CallsOk sh) (own : Bool) (stage : Stage) :
    CallsOk (sh.startCall own stage) := by
  have hmem : ∀ c ∈ (sh.startCall own stage).calls,
      c ∈ sh.calls ∨ c = ⟨sh.nextTicket, own, stage⟩ := by
    intro c hc
    exact (List.mem_append.mp hc).imp_right List.mem_singleton.mp
  constructor
  · intro c hc c' hc' heq
    rcases hmem c hc with hc | rfl
    · rcases hmem c' hc' with hc' | rfl
      · exact h.unique c hc c' hc' heq
      · exact absurd heq (h.below c hc).ne
    · rcases hmem c' hc' with hc' | rfl
      · exact absurd heq.symm (h.below c' hc').ne
      · rfl
  · intro c hc
    rcases hmem c hc with hc | rfl
    · exact Nat.lt_succ_of_lt (h.below c hc)
    · exact Nat.lt_succ_self _
  · exact fun x hx => Nat.lt_succ_of_lt (h.sent_below x hx)
  · intro x hx c hc heq
    rcases hmem c hc with hc | rfl
    · exact h.sent x hx c hc heq
    · exact absurd heq.symm (h.sent_below x hx).ne

/-- A change that neither starts nor moves a call and sends nothing. -/
theorem CallsOk.congr (h : CallsOk sh) (hcalls : sh'.calls = sh.calls)
    (hnext : sh'.nextTicket = sh.nextTicket) (hinj : ∀ x ∈ sh'.injection, x ∈ sh.injection) :
    CallsOk sh' := by
  constructor
  · rw [hcalls]
    exact h.unique
  · rw [hcalls, hnext]
    exact h.below
  · rw [hnext]
    exact fun x hx => h.sent_below x (hinj x hx)
  · rw [hcalls]
    exact fun x hx => h.sent x (hinj x hx)

theorem CallsOk.callStep (h : CallsOk sh) (hstep : sh.callStep k = some sh') : CallsOk sh' := by
  obtain ⟨c, hc, hk, hcases⟩ := callStep_cases hstep
  rcases hcases with ⟨task, hs, rfl⟩ | ⟨_, _, rfl⟩ | ⟨_, _, rfl⟩ | ⟨_, _, rfl⟩ | ⟨_, rfl⟩
  · have hset := (h.setStage (k := k) (.inl rfl))
    refine ⟨hset.unique, hset.below, fun x hx => ?_, fun x hx c' hc' heq => ?_⟩
    · rcases List.mem_append.mp hx with hx | hx
      · exact h.sent_below x hx
      · rw [List.mem_singleton.mp hx, ← hk]
        exact h.below c hc
    · rcases List.mem_append.mp hx with hx | hx
      · exact hset.sent x hx c' hc' heq
      · rw [List.mem_singleton.mp hx] at heq
        rcases mem_setStage.mp hc' with ⟨-, hne⟩ | ⟨_, -, -, rfl⟩
        · exact absurd heq hne
        · exact .inl rfl
  · exact (h.setStage (.inl rfl)).congr rfl rfl fun _ => id
  · exact h.endCall
  · exact (h.setStage (.inr rfl)).congr rfl rfl fun _ => id
  · exact h.endCall.congr rfl rfl fun _ => id

theorem WakeDue.startCall (h : sh.WakeDue) (own : Bool) (stage : Stage) :
    (sh.startCall own stage).WakeDue :=
  h.imp_right fun ⟨c, hc, hs⟩ => ⟨c, List.mem_append_left _ hc, hs⟩

theorem Covered.startCall (h : sh.Covered k) (own : Bool) (stage : Stage) :
    (sh.startCall own stage).Covered k :=
  h.imp (fun ⟨c, hc, hs⟩ => ⟨c, List.mem_append_left _ hc, hs⟩) fun h => h.startCall own stage

/-- The call of a covered ticket is in progress, or a wake is due. -/
theorem Covered.wakeDue (h : sh.Covered k) (hreturned : ∀ c ∈ sh.calls, c.ticket ≠ k) :
    sh.WakeDue := by
  rcases h with ⟨c, hc, hk, -⟩ | hdue
  · exact absurd hk (hreturned c hc)
  · exact hdue

/-- What callers do to the shared state: they start a call, having taken a task id if it is to
spawn, or take a step of one. -/
inductive CallerStep (sh : Shared) : Shared → Prop
  | start (counter : UInt64) (own : Bool) (stage : Stage) :
      CallerStep sh ({ sh with taskIdCounter := counter }.startCall own stage)
  | call {k : ℕ} {sh' : Shared} : sh.callStep k = some sh' → CallerStep sh sh'

theorem CallerStep.callsOk (h : CallerStep sh sh') (hok : CallsOk sh) : CallsOk sh' := by
  cases h with
  | start counter own stage => exact (hok.startCall own stage).congr rfl rfl fun _ => id
  | call hstep => exact hok.callStep hstep

theorem CallerStep.armed (h : CallerStep sh sh') (hok : CallsOk sh) (harmed : Armed sh) :
    Armed sh' := by
  cases h with
  | start counter own stage => exact fun hn => (harmed hn).startCall own stage
  | call hstep => exact harmed.callStep hok hstep

theorem CallerStep.covered (h : CallerStep sh sh') (hok : CallsOk sh) (harmed : Armed sh)
    (hk : sh.Covered k) : sh'.Covered k := by
  cases h with
  | start counter own stage => exact hk.startCall own stage
  | call hstep => exact hk.callStep hok harmed hstep

/-- What a caller appends to a queue is covered. -/
theorem CallerStep.queues (h : CallerStep sh sh') :
    (∀ x ∈ sh'.injection, x ∈ sh.injection ∨ sh'.Covered x.2) ∧
      ∀ x ∈ sh'.crossQueue, x ∈ sh.crossQueue ∨ sh'.Covered x.2 := by
  cases h with
  | start counter own stage => exact ⟨fun _ => .inl, fun _ => .inl⟩
  | call hstep => exact callStep_queues hstep

/-- A caller removes nothing from the cross-thread queue. -/
theorem CallerStep.mem_crossQueue (h : CallerStep sh sh') {x : TaskId × ℕ}
    (hx : x ∈ sh.crossQueue) : x ∈ sh'.crossQueue := by
  cases h with
  | start counter own stage => exact hx
  | call hstep =>
    obtain ⟨c, -, -, hcases⟩ := callStep_cases hstep
    rcases hcases with ⟨_, _, rfl⟩ | ⟨_, _, rfl⟩ | ⟨_, _, rfl⟩ | ⟨_, _, rfl⟩ | ⟨_, rfl⟩
    · exact hx
    · exact List.mem_append_left _ hx
    · exact hx
    · exact hx
    · exact hx

end Shared

/-- `park` has reset the flag and its poll has not returned. -/
def Pc.waiting : Pc → Bool
  | .parkCross _ _ _ | .parked _ _ => true
  | _ => false

namespace State

variable {s s' : State} {l : Label}

/-- What a step of `park` before its poll does. -/
def parkCross (s : State) (count : ℕ) (hd hr : Bool) : State :=
  s.drainCross fun s =>
    { s with
      exec := (s.exec.decideTimeout hd hr).2
      pc := .parked count (Executor.parkTimeout (s.exec.decideTimeout hd hr).1) }

/-- A step that leaves the executor's thread outside of what follows the reset in `park`. -/
structure Quiet (s s' : State) : Prop where
  pc : s'.pc.waiting = false
  calls : s'.shared.calls = s.shared.calls
  nextTicket : s'.shared.nextTicket = s.shared.nextTicket
  injection : ∀ x ∈ s'.shared.injection, x ∈ s.shared.injection
  /-- An id that leaves the cross-thread queue is received. -/
  crossQueue : ∀ x ∈ s.shared.crossQueue,
    x ∈ s'.shared.crossQueue ∨ s'.exec = s.exec.receiveCrossThread x.1

/-- Steps that keep to the executor, and leave the shared state alone. -/
theorem quiet_of_shared_eq (hpc : s'.pc.waiting = false) (h : s'.shared = s.shared) :
    Quiet s s' := by
  refine ⟨hpc, by rw [h], by rw [h], ?_, ?_⟩
  · rw [h]
    exact fun _ => id
  · rw [h]
    exact fun _ => .inl

theorem quiet_pollHead (s : State) (l : Loop) {empty : Pc} (hempty : empty.waiting = false) :
    Quiet s (s.pollHead l empty) := by
  simp only [pollHead]
  cases s.exec.localQueue with
  | nil => exact quiet_of_shared_eq hempty rfl
  | cons id rest =>
    refine quiet_of_shared_eq ?_ rfl
    dsimp only
    split <;> rfl

/-- One turn of `drain_cross_thread`: the queue is empty, or its head is received. -/
theorem drainCross_cases (s : State) (done : State → State) :
    (s.shared.crossQueue = [] ∧ s.drainCross done = done s) ∨
      ∃ id k rest, s.shared.crossQueue = (id, k) :: rest ∧ s.drainCross done = { s with
        exec := s.exec.receiveCrossThread id
        shared := { s.shared with crossQueue := rest } } := by
  simp only [drainCross]
  cases s.shared.crossQueue with
  | nil => exact .inl ⟨rfl, rfl⟩
  | cons x rest => exact .inr ⟨x.1, x.2, rest, rfl, rfl⟩

/-- An id leaves the cross-thread queue by being received. -/
theorem received_drainCross (s : State) (done : State → State)
    (hdone : (done s).shared = s.shared) (x : TaskId × ℕ) (hx : x ∈ s.shared.crossQueue) :
    x ∈ (s.drainCross done).shared.crossQueue ∨
      (s.drainCross done).exec = s.exec.receiveCrossThread x.1 := by
  rcases s.drainCross_cases done with ⟨-, heq⟩ | ⟨id, k, rest, hq, heq⟩
  · rw [heq, hdone]
    exact .inl hx
  · rw [hq] at hx
    rw [heq]
    rcases List.mem_cons.mp hx with rfl | hx
    · exact .inr rfl
    · exact .inl hx

theorem quiet_drainCross {done : State → State} (hpc : s.pc.waiting = false)
    (hdone : (done s).pc.waiting = false ∧ (done s).shared = s.shared) :
    Quiet s (s.drainCross done) := by
  have hreceived := received_drainCross s done hdone.2
  rcases s.drainCross_cases done with ⟨-, heq⟩ | ⟨id, k, rest, -, heq⟩
  · rw [heq]
    exact quiet_of_shared_eq hdone.1 hdone.2
  · rw [heq] at hreceived ⊢
    exact ⟨hpc, rfl, rfl, fun _ hx => hx, hreceived⟩

theorem quiet_popInjection (s : State) {accepted rejected : Pc} (ha : accepted.waiting = false)
    (hr : rejected.waiting = false) : Quiet s (s.popInjection accepted rejected) := by
  refine ⟨?_, rfl, rfl, fun x hx => List.mem_of_mem_tail hx, fun x hx => .inl hx⟩
  simp only [popInjection]
  split
  · exact ha
  · exact hr

theorem waiting_afterLoop (l : Loop) : (afterLoop l).waiting = false := by
  rw [afterLoop]
  split <;> rfl

theorem waiting_of_userCode {pc : Pc} (h : pc.userCode = true) : pc.waiting = false := by
  cases pc <;> first | rfl | cases h

/-- A step of the executor's thread resets the flag, prepares the poll, or is quiet. -/
theorem ExecStepped.interrupt_cases (h : ExecStepped s s') :
    (∃ count, s.pc = .parkBegin count ∧ s' = { s with
      pc := .parkCross count (!s.exec.tls.deferred.isEmpty) (!s.exec.tls.reactorReady.isEmpty)
      shared := { s.shared with notified := false } }) ∨
    (∃ count hd hr, s.pc = .parkCross count hd hr ∧ s' = s.parkCross count hd hr) ∨
    Quiet s s' := by
  cases h with
  | parkBegin count hpc => exact .inl ⟨count, hpc, rfl⟩
  | parkCross count hd hr hpc => exact .inr (.inl ⟨count, hd, hr, hpc, rfl⟩)
  | loopEnds lp => exact .inr (.inr (quiet_of_shared_eq (waiting_afterLoop lp) rfl))
  | loopPolls lp => exact .inr (.inr (quiet_pollHead s lp rfl))
  | nextPop lp => exact .inr (.inr (quiet_pollHead s lp rfl))
  | nextCross lp hpc => exact .inr (.inr (quiet_drainCross (by rw [hpc]; rfl) ⟨rfl, rfl⟩))
  | parkCrossAfter count hpc =>
    exact .inr (.inr (quiet_drainCross (by rw [hpc]; rfl) ⟨rfl, rfl⟩))
  | popInjection => exact .inr (.inr (quiet_popInjection s rfl rfl))
  | nextInjection lp => exact .inr (.inr (quiet_popInjection s rfl (waiting_afterLoop lp)))
  | _ => exact .inr (.inr (quiet_of_shared_eq rfl rfl))

/-- **Steps, seen from the interrupt.** A step is a caller's, resets the flag, prepares the poll, or
is quiet. -/
theorem Stepped.interrupt_cases (h : Stepped s l s') :
    (s'.exec = s.exec ∧ s'.pc = s.pc ∧ s.shared.CallerStep s'.shared) ∨
    (∃ count, l = .exec ∧ s.pc = .parkBegin count ∧ s' = { s with
      pc := .parkCross count (!s.exec.tls.deferred.isEmpty) (!s.exec.tls.reactorReady.isEmpty)
      shared := { s.shared with notified := false } }) ∨
    (∃ count hd hr, l = .exec ∧ s.pc = .parkCross count hd hr ∧ s' = s.parkCross count hd hr) ∨
    Quiet s s' := by
  cases h with
  | exec _ hexec =>
    rcases hexec.interrupt_cases with ⟨count, hpc, heq⟩ | ⟨count, hd, hr, hpc, heq⟩ | hq
    · exact .inr (.inl ⟨count, rfl, hpc, heq⟩)
    · exact .inr (.inr (.inl ⟨count, hd, hr, rfl, hpc, heq⟩))
    · exact .inr (.inr (.inr hq))
  | wake _ _ huser =>
    exact .inr (.inr (.inr (quiet_of_shared_eq (waiting_of_userCode huser) rfl)))
  | yield huser =>
    exact .inr (.inr (.inr (quiet_of_shared_eq (waiting_of_userCode huser) rfl)))
  | rootReturns ready =>
    refine .inr (.inr (.inr (quiet_of_shared_eq ?_ rfl)))
    cases ready <;> rfl
  | pollReturns => exact .inr (.inr (.inr (quiet_of_shared_eq rfl rfl)))
  | blockOn => exact .inr (.inr (.inr (quiet_of_shared_eq rfl rfl)))
  | osReturns => exact .inr (.inr (.inr ⟨rfl, rfl, rfl, fun _ => id, fun _ => .inl⟩))
  | spawn own => exact .inl ⟨rfl, rfl, .start _ own _⟩
  | wakeForeign => exact .inl ⟨rfl, rfl, .start _ false _⟩
  | call hcall => exact .inl ⟨rfl, rfl, .call hcall⟩

/-! ### Runs -/

/-- From the reset to the end of the poll the flag is set only if a wake is due, and what is in the
cross-thread queue during the poll is covered. -/
structure Wired (s : State) : Prop where
  calls : s.shared.CallsOk
  /-- From the reset to the end of the poll, the flag tells the truth. -/
  armed : s.pc.waiting = true → s.shared.Armed
  /-- What is in the cross-thread queue during the poll is covered. -/
  cross : ∀ count timeout, s.pc = .parked count timeout →
    ∀ x ∈ s.shared.crossQueue, s.shared.Covered x.2

theorem wired_new (n : ℕ) (tls : Tls) : Wired (new n tls) := by
  refine ⟨Shared.callsOk_new, fun h => ?_, fun count timeout h => ?_⟩
  · cases h
  · cases h

theorem Wired.step (h : Wired s) (hstep : s.step l = some s') : Wired s' := by
  rcases (step_cases hstep).interrupt_cases with ⟨-, hpc, hcaller⟩ | ⟨count, -, -, rfl⟩ |
    ⟨count, hd, hr, -, hpc, rfl⟩ | hq
  · refine ⟨hcaller.callsOk h.calls, ?_, ?_⟩
    · rw [hpc]
      exact fun hw => hcaller.armed h.calls (h.armed hw)
    · intro count timeout hparked x hx
      rw [hpc] at hparked
      have harmed := h.armed (by rw [hparked]; rfl)
      rcases hcaller.queues.2 x hx with hx | hcov
      · exact hcaller.covered h.calls harmed (h.cross count timeout hparked x hx)
      · exact hcov
  · refine ⟨h.calls.congr rfl rfl fun _ => id, fun _ hn => ?_, fun count timeout hparked => ?_⟩
    · cases hn
    · cases hparked
  · have harmed := h.armed (by rw [hpc]; rfl)
    rcases s.drainCross_cases fun s => { s with
        exec := (s.exec.decideTimeout hd hr).2
        pc := .parked count (Executor.parkTimeout (s.exec.decideTimeout hd hr).1) } with
      ⟨hempty, heq⟩ | ⟨id, k, rest, -, heq⟩
    · rw [parkCross, heq]
      refine ⟨h.calls, fun _ => harmed, fun count timeout _ x hx => ?_⟩
      rw [hempty] at hx
      cases hx
    · rw [parkCross, heq]
      refine ⟨h.calls.congr rfl rfl fun _ hx => hx, fun _ => harmed, ?_⟩
      intro count timeout hparked
      rw [hpc] at hparked
      cases hparked
  · refine ⟨h.calls.congr hq.calls hq.nextTicket hq.injection, ?_, ?_⟩
    · intro hw
      rw [hq.pc] at hw
      cases hw
    · intro count timeout hparked
      have hw := hq.pc
      rw [hparked] at hw
      cases hw

theorem wired_of_reachable (h : machine.Reachable s) : Wired s := by
  refine h.invariant ?_ ?_
  · rintro s ⟨n, tls, -, -, rfl⟩
    exact wired_new n tls
  · exact fun s l s' hs hstep => hs.step hstep

/-- An id received from another thread is in the task-ready queue, unless its flag was set. -/
theorem mem_taskReady_receive (e : Executor) (id : TaskId) :
    id ∈ (e.receiveCrossThread id).tls.taskReady ∨ e.tls.isNotified id = true := by
  have hready : (e.receiveCrossThread id).tls.taskReady = _ :=
    (Tls.pushed_pushReady e.tls .task id).ready_eq
  rw [hready]
  split
  · rename_i hset
    exact .inr hset.2
  · exact .inl (List.mem_append_right _ (List.mem_singleton_self id))

/-- **Cross-thread wakes reach a blocked executor.** In every run, while the executor is in the
poll, whatever its timeout, and an id whose wake has returned is in the cross-thread queue, a wake
of mio is due; and an id that leaves the queue is in the task-ready queue afterwards, or its flag
was set. -/
theorem parked_cross (h : machine.Reachable s) :
    (∀ count timeout, s.pc = .parked count timeout → ∀ id k, (id, k) ∈ s.shared.crossQueue →
      (∀ c ∈ s.shared.calls, c.ticket ≠ k) → s.shared.WakeDue) ∧
    (∀ l s', s.step l = some s' → ∀ id k, (id, k) ∈ s.shared.crossQueue →
      (id, k) ∉ s'.shared.crossQueue →
      id ∈ s'.exec.tls.taskReady ∨ s.exec.tls.isNotified id = true) := by
  constructor
  · intro count timeout hpc id k hmem hreturned
    exact ((wired_of_reachable h).cross count timeout hpc (id, k) hmem).wakeDue hreturned
  · intro l s' hstep id k hmem hgone
    have hreceived : s'.exec = s.exec.receiveCrossThread id := by
      rcases (step_cases hstep).interrupt_cases with ⟨-, -, hcaller⟩ | ⟨count, -, -, rfl⟩ |
        ⟨count, hd, hr, -, -, rfl⟩ | hq
      · exact absurd (hcaller.mem_crossQueue hmem) hgone
      · exact absurd hmem hgone
      · exact (received_drainCross s _ rfl _ hmem).resolve_left hgone
      · exact (hq.crossQueue _ hmem).resolve_left hgone
    rw [hreceived]
    exact mem_taskReady_receive s.exec id

/-- Two wakes race for the flag during a poll, and the one that lost returns first. -/
theorem parked_cross_race : ∃ s, machine.Reachable s ∧ s.pc = .parked 0 100 ∧
    (2, 1) ∈ s.shared.crossQueue ∧ (∀ c ∈ s.shared.calls, c.ticket ≠ 1) ∧ s.shared.WakeDue := by
  have hstart : machine.Reachable (new 61 .new) :=
    .of_init ⟨61, .new, by decide, rfl, rfl⟩
  obtain ⟨s, hfollow, hpc, hmem, hreturned⟩ : ∃ s, Machine.follow step
      [.blockOn, .exec, .futureReturns false, .exec, .exec, .exec, .exec, .exec, .exec, .exec,
        .exec, .exec, .exec, .wakeForeign 1, .wakeForeign 2, .call 0, .call 1, .call 0, .call 1]
      (new 61 .new) = some s ∧ s.pc = .parked 0 100 ∧ (2, 1) ∈ s.shared.crossQueue ∧
      ∀ c ∈ s.shared.calls, c.ticket ≠ 1 :=
    ⟨_, rfl, by decide, by decide, by decide⟩
  have hreach := hstart.follow hfollow
  exact ⟨s, hreach, hpc, hmem, hreturned,
    (parked_cross hreach).1 0 100 hpc 2 1 hmem hreturned⟩

end State

end Lion
