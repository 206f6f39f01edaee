import Lion.Library.Machine
import Lion.Reactor.Events
import Lion.TimerWheel.Refinement

/-!
# Timers of the reactor

The reactor keeps each timer in two places, the wheel and the slab, and each operation updates them
one after the other. This file shows that they never disagree while the reactor is at rest, and
that both hold the timers that its callers registered.

## Two levels of agreement

`Consistent` is about the reactor alone: the wheel holds exactly the deadlines of the slab's timer
slots. It is what the loop of `wake_expired_timers` needs, which pops ids from the wheel, looks up
each one's waker in the slab, and removes it there. `call_spec` shows that every permitted call
keeps it, and `Progress` collects what else a call does: ids are only handed out, an id that was
given up stays without a slot, and nobody is woken but through a slot.

Two places that agree can still both be wrong. A registration that filed a later deadline on both
sides, or a deregistration that removed a neighbour on both sides, keeps `Consistent`. So `Booked`
puts a table beside the reactor: what was registered, with the arguments it was registered with,
less what was deregistered and what a park was to wake. The table is changed from the arguments and
the answers of the calls, never from wheel or slab, and `Booked.Faithful` says that both hold
exactly the table. `Booked.step_faithful` has one case for each operation, and each of these is a
short lemma about the slab, `agrees_*`; the wheel follows from `Consistent`.

## Main definitions

* `Reactor.Consistent` — wheel and slab agree
* `Reactor.machine` — a reactor and the calls its callers may make
* `Reactor.DueTimer` — a timer that is due at an instant, with its waker
* `Booked`, `Booked.note` — a reactor, and the timers that there should be
* `Booked.Faithful` — wheel, slab and table agree

## Main results

* `Reactor.wakeExpiredTimers_spec` — the loop that wakes timers
* `Reactor.call_spec` — every permitted call keeps `Consistent`, and wakes nobody but existing
  resources
* `Booked.step_faithful` — every permitted call keeps the table
* `Booked.reachable_timers` — wheel and slab hold the timers of the table; each park wakes the due
  ones, once, and deletes exactly those; a deregistered timer stays silent
-/

namespace Lion

namespace Reactor

variable {W : Type*} {r r' : Reactor W} {rid now : UInt64}

/-- The timer in slot `rid`: its entry and its waker. -/
def timerSlot (s : ResourceSlab W) (rid : UInt64) : Option (TimerEntry × W) :=
  match s.get rid with
  | some (.timer entry waker) => some (entry, waker)
  | _ => none

theorem timerSlot_eq_some {s : ResourceSlab W} {e : TimerEntry} {w : W} :
    timerSlot s rid = some (e, w) ↔ s.get rid = some (.timer e w) := by
  rw [timerSlot]
  split
  · rename_i e' w' h
    simp [h]
  · rename_i h
    simp only [reduceCtorEq, false_iff]
    exact h e w

theorem timerSlot_congr {s s' : ResourceSlab W} (h : s'.get rid = s.get rid) :
    timerSlot s' rid = timerSlot s rid := by
  rw [timerSlot, timerSlot, h]

theorem timerSlot_of_io {s : ResourceSlab W} {rw ww : Option W} (h : s.get rid = some (.io rw ww)) :
    timerSlot s rid = none := by
  rw [timerSlot, h]

theorem timerSlot_of_none {s : ResourceSlab W} (h : s.get rid = none) : timerSlot s rid = none := by
  rw [timerSlot, h]

theorem timerSlot_removeTimerSlot (s : ResourceSlab W) (rid k : UInt64) :
    timerSlot (ResourceSlab.removeTimerSlot s rid) k =
      if k = rid then none else timerSlot s k := by
  have hget := ResourceSlab.get_removeTimerSlot s rid k
  by_cases hk : k = rid
  · rw [if_pos hk, timerSlot_of_none (hget.trans (if_pos hk))]
  · rw [if_neg hk, timerSlot_congr (hget.trans (if_neg hk))]

theorem takeTimerWaker_eq (s : ResourceSlab W) (rid : UInt64) :
    ResourceSlab.takeTimerWaker s rid = (timerSlot s rid).map Prod.snd := by
  rw [ResourceSlab.takeTimerWaker, timerSlot]
  rcases Slab.get s rid with _ | ⟨entry, waker⟩ | ⟨readWaker, writeWaker⟩
  · rfl
  · rfl
  · rfl

/-- The wheel holds the deadlines of the slab's timers, and nothing else. -/
def Agrees (w : TimerWheel) (s : ResourceSlab W) : Prop :=
  ∀ rid, w.live rid = (timerSlot s rid).map fun t => t.1.deadline

/-- A reactor at rest, between two calls: wheel and slab are in order, and agree with each other. -/
structure Consistent (r : Reactor W) : Prop where
  /-- The wheel is well formed. -/
  wheel_wf : r.wheel.WellFormed
  /-- The wheel has been drained. -/
  settled : r.wheel.pending = []
  agrees : Agrees r.wheel r.resources
  /-- Ids in use have been handed out. -/
  fresh : ∀ rid slot, r.resources.get rid = some slot → rid < r.nextResourceId

theorem consistent_new : Consistent (new : Reactor W) where
  wheel_wf := TimerWheel.wellFormed_new
  settled := rfl
  agrees rid := (VecMap.get_new rid).trans
    (congrArg (Option.map _) (timerSlot_of_none (Slab.get_new rid))).symm
  fresh rid slot h := by cases (Slab.get_new rid).symm.trans h

/-- The timer `rid` is due at `now`, and `waker` is the one to call. -/
def DueTimer (r : Reactor W) (now : UInt64) (waker : W) (rid : UInt64) : Prop :=
  ∃ entry, timerSlot r.resources rid = some (entry, waker) ∧ entry.deadline ≤ now

/-- With a due timer taken out, the due timers are the others. -/
theorem dueTimer_iff_of_remove {r₁ : Reactor W} {rid : UInt64} {entry : TimerEntry} {waker : W}
    (hslot : timerSlot r.resources rid = some (entry, waker)) (hdue : entry.deadline ≤ now)
    (hres : r₁.resources = ResourceSlab.removeTimerSlot r.resources rid) (w : W) (k : UInt64) :
    (w, k) = (waker, rid) ∨ DueTimer r₁ now w k ↔ DueTimer r now w k := by
  have hrest := timerSlot_removeTimerSlot r.resources rid k
  rw [DueTimer, DueTimer, hres, hrest]
  by_cases hk : k = rid
  · subst hk
    rw [if_pos rfl, hslot]
    constructor
    · rintro (heq | ⟨_, hnone, -⟩)
      · cases heq
        exact ⟨entry, rfl, hdue⟩
      · cases hnone
    · rintro ⟨_, heq, -⟩
      cases heq
      exact .inl rfl
  · rw [if_neg hk]
    exact or_iff_right fun heq => hk (Prod.mk.inj heq).2

/-! ### Parking -/

theorem ite_mem_cons_snd {α : Type*} (k rid : UInt64) (w : W) (wakes : List (W × UInt64))
    (a : Option α) :
    (if k ∈ wakes.map Prod.snd then none else if k = rid then none else a) =
      if k ∈ ((w, rid) :: wakes).map Prod.snd then none else a := by
  by_cases hk : k = rid
  · rw [if_pos hk, ite_self, if_pos (by simp [hk])]
  · rw [if_neg hk]
    exact if_congr (by simp [hk]) rfl rfl

/-- **The loop that wakes timers.** Given a turn for every live timer and one more, it wakes the
timers due at `now`, each once and with its own waker, and deletes exactly those from both the
wheel and the slab. -/
theorem wakeExpiredTimers_spec {fuel : ℕ} (hwf : r.wheel.WellFormed) (hle : r.wheel.elapsed ≤ now)
    (hagree : Agrees r.wheel r.resources) (hfuel : r.wheel.deadlines.occupancy < fuel) :
    ∃ (wakes : List (W × UInt64)) (wheel : TimerWheel) (resources : ResourceSlab W),
      wakeExpiredTimers now fuel r = some { r with
        wheel := wheel
        resources := resources
        log := r.log ++ wakes.map fun x => .wakeTask x.1 x.2 } ∧
      wheel.WellFormed ∧ wheel.pending = [] ∧ Agrees wheel resources ∧
      (wakes.map Prod.snd).Nodup ∧ (∀ w rid, (w, rid) ∈ wakes ↔ DueTimer r now w rid) ∧
      (∀ rid, wheel.live rid = if rid ∈ wakes.map Prod.snd then none else r.wheel.live rid) ∧
      ∀ rid, resources.get rid =
        if rid ∈ wakes.map Prod.snd then none else r.resources.get rid := by
  induction fuel generalizing r with
  | zero => omega
  | succ fuel ih =>
    obtain ⟨rid, d, w₁, hpop, hd, hdue, hdl, hwf₁, hel₁⟩ |
      ⟨w₁, hpop, hnone, hdl, hwf₁, hel₁, hpend₁⟩ := hwf.tryPopExpired hle
    · -- the wheel hands out `rid`; the slab has its waker
      obtain ⟨⟨e, waker⟩, hslot, rfl⟩ : ∃ t, timerSlot r.resources rid = some t ∧
          t.1.deadline = d := Option.map_eq_some_iff.mp ((hagree rid).symm.trans hd)
      have hlive₁ : ∀ k, w₁.live k = if k = rid then none else r.wheel.live k := fun k => by
        rw [TimerWheel.live, hdl, VecMap.get_remove]
        rfl
      obtain ⟨wakes, wheel, resources, hloop, hwf', hpend', hagree', hnodup, hmem, hlive, hget⟩ :=
        ih (r := { r with
              wheel := w₁
              resources := ResourceSlab.removeTimerSlot r.resources rid
              log := r.log ++ [.wakeTask waker rid] }) hwf₁ hel₁
          (fun k => by
            show w₁.live k = (timerSlot (ResourceSlab.removeTimerSlot r.resources rid) k).map _
            rw [hlive₁, timerSlot_removeTimerSlot, hagree k]
            split <;> rfl)
          (by
            have := VecMap.occupancy_remove hd
            show w₁.deadlines.occupancy < fuel
            rw [hdl]
            omega)
      dsimp only at hloop hlive hget
      have hrid : rid ∉ wakes.map Prod.snd := fun hin => by
        obtain ⟨⟨w, k⟩, hk, rfl⟩ := List.mem_map.mp hin
        obtain ⟨e', he', _⟩ := (hmem w k).mp hk
        rw [timerSlot_removeTimerSlot, if_pos rfl] at he'
        cases he'
      refine ⟨(waker, rid) :: wakes, wheel, resources, ?_, hwf', hpend', hagree',
        List.nodup_cons.mpr ⟨hrid, hnodup⟩, fun w k => ?_, fun k => ?_, fun k => ?_⟩
      · rw [wakeExpiredTimers, hpop]
        dsimp only
        rw [takeTimerWaker_eq, hslot]
        refine Eq.trans hloop ?_
        simp [List.append_assoc]
      · rw [List.mem_cons, hmem]
        exact dueTimer_iff_of_remove hslot hdue rfl w k
      · rw [hlive, hlive₁]
        exact ite_mem_cons_snd _ _ _ _ _
      · rw [hget, ResourceSlab.get_removeTimerSlot]
        exact ite_mem_cons_snd _ _ _ _ _
    · -- nothing is due
      refine ⟨[], w₁, r.resources, ?_, hwf₁, hpend₁, fun k => ?_, List.nodup_nil, fun w k => ?_,
        fun k => ?_, fun k => rfl⟩
      · rw [wakeExpiredTimers, hpop]
        simp
      · rw [TimerWheel.live, hdl]
        exact hagree k
      · refine iff_of_false List.not_mem_nil ?_
        rintro ⟨e, he, hdue⟩
        have : r.wheel.live k = some e.deadline := by rw [hagree k, he]; rfl
        exact absurd (hnone k _ this) (UInt64.not_lt.mpr hdue)
      · rw [TimerWheel.live, hdl]
        rfl

/-- Processing events touches neither wheel nor slab, and wakes I/O resources only. -/
theorem processIoEvents_spec (r : Reactor W) (events : List IoEvent) :
    ∃ (seg : List (OutboundCall W)) (readiness : Readiness),
      r.processIoEvents events = { r with log := r.log ++ seg, readiness := readiness } ∧
      ∀ w rid, .wakeTask w rid ∈ seg → ∃ rw ww, r.resources.get rid = some (.io rw ww) := by
  obtain ⟨readiness, heq⟩ := r.processIoEvents_eq events
  exact ⟨_, readiness, heq, fun _ _ hmem => exists_io_of_mem_eventCalls hmem⟩

/-- **Parking.** Whatever the clock reads and the operating system answers, `park` wakes the timers
that are due at the instant it settles on, each once and with its waker, and deletes exactly
those. -/
theorem park_spec (h : Consistent r) (timeout : Option UInt64) (raw : UInt64)
    (poll : Except IoError (List MioEvent)) :
    ∃ (wakes : List (W × UInt64)) (io : List (OutboundCall W)) (r' : Reactor W),
      r.park timeout raw poll = some (poll.map fun _ => (), r') ∧
      r'.log = r.log ++ [.getCurrentTime (r.getCurrentTime raw).1,
        .pollEvents (effectiveTimeout timeout r.nextDeadline (r.getCurrentTime raw).1)] ++
        wakes.map (fun x => .wakeTask x.1 x.2) ++ io ∧
      (wakes.map Prod.snd).Nodup ∧
      (∀ w rid, (w, rid) ∈ wakes ↔ DueTimer r (r.getCurrentTime raw).1 w rid) ∧
      (∀ w rid, .wakeTask w rid ∈ io → ∃ rw ww, r.resources.get rid = some (.io rw ww)) ∧
      (∀ rid, r'.wheel.live rid =
        if rid ∈ wakes.map Prod.snd then none else r.wheel.live rid) ∧
      (∀ rid, r'.resources.get rid =
        if rid ∈ wakes.map Prod.snd then none else r.resources.get rid) ∧
      r'.nextResourceId = r.nextResourceId ∧
      r'.wheel.WellFormed ∧ r'.wheel.pending = [] ∧ Agrees r'.wheel r'.resources := by
  set now := (r.getCurrentTime raw).1 with hnow
  have hle : r.wheel.elapsed ≤ now := by
    simp only [hnow, getCurrentTime]
    split
    · assumption
    · exact UInt64.le_refl _
  obtain ⟨wakes, wheel, resources, hloop, hwf, hpend, hagree, hnodup, hmem, hlive, hget⟩ :=
    wakeExpiredTimers_spec (r := { r with
        cachedNow := some now
        log := r.log ++ [.getCurrentTime now] ++
          [.pollEvents (effectiveTimeout timeout r.nextDeadline now)] })
      h.wheel_wf hle h.agrees (Nat.lt_succ_self _)
  have hnil : ∀ w rid, OutboundCall.wakeTask (W := W) w rid ∈ [] →
      ∃ rw ww, r.resources.get rid = some (.io rw ww) := fun w rid hk => by simp at hk
  cases poll with
  | error e =>
    refine ⟨wakes, [], { r with
        cachedNow := some now
        wheel := wheel
        resources := resources
        log := r.log ++ [.getCurrentTime now] ++
          [.pollEvents (effectiveTimeout timeout r.nextDeadline now)] ++
          wakes.map fun x => .wakeTask x.1 x.2 },
      ?_, ?_, hnodup, hmem, hnil, hlive, hget, rfl, hwf, hpend, hagree⟩
    · exact congrArg (Option.bind · fun r => some (Except.error e, r)) hloop
    · simp [List.append_assoc]
  | ok events =>
    obtain ⟨seg, rd, hio, hwake⟩ := processIoEvents_spec ({ r with
        cachedNow := some now
        wheel := wheel
        resources := resources
        log := r.log ++ [.getCurrentTime now] ++
          [.pollEvents (effectiveTimeout timeout r.nextDeadline now)] ++
          wakes.map fun x => .wakeTask x.1 x.2 }) (collectIoEvents events)
    refine ⟨wakes, seg, { r with
        cachedNow := some now
        wheel := wheel
        resources := resources
        readiness := rd
        log := r.log ++ [.getCurrentTime now] ++
          [.pollEvents (effectiveTimeout timeout r.nextDeadline now)] ++
          (wakes.map fun x => .wakeTask x.1 x.2) ++ seg },
      ?_, ?_, hnodup, hmem, fun w rid hk => ?_, hlive, hget, rfl, hwf, hpend, hagree⟩
    · exact (congrArg (Option.bind · fun r =>
          some (Except.ok (), r.processIoEvents (collectIoEvents events))) hloop).trans
        (congrArg (fun r => some (Except.ok (), r)) hio)
    · simp [List.append_assoc]
    · obtain ⟨rw, ww, hslot⟩ := hwake w rid hk
      have hsome : (if rid ∈ wakes.map Prod.snd then none else r.resources.get rid) =
          some (.io rw ww) := (hget rid).symm.trans hslot
      split at hsome
      · cases hsome
      · exact ⟨rw, ww, hsome⟩

/-- The loop leaves the wheel at the instant it was given. -/
theorem wakeExpiredTimers_clock {fuel : ℕ} (hwf : r.wheel.WellFormed) (hle : r.wheel.elapsed ≤ now)
    (h : wakeExpiredTimers now fuel r = some r') :
    r'.wheel.elapsed = now ∧ r'.cachedNow = r.cachedNow ∧
      r'.pendingDeregister = r.pendingDeregister := by
  induction fuel generalizing r with
  | zero => cases h
  | succ fuel ih =>
    rw [wakeExpiredTimers] at h
    obtain ⟨rid, d, w₁, hpop, -, -, -, hwf₁, hel₁⟩ | ⟨w₁, hpop, -, -, -, hel₁, -⟩ :=
      hwf.tryPopExpired hle
    · rw [hpop] at h
      dsimp only at h
      split at h
      · have hrest := ih hwf₁ hel₁ h
        exact hrest
      · have hrest := ih hwf₁ hel₁ h
        exact hrest
    · rw [hpop] at h
      cases h
      exact ⟨hel₁, rfl, rfl⟩

/-- A park leaves the wheel at the instant it settles on, and caches it. -/
theorem park_clock {timeout : Option UInt64} {raw : UInt64} {poll : Except IoError (List MioEvent)}
    {res : Except IoError Unit} (h : Consistent r)
    (hpark : r.park timeout raw poll = some (res, r')) :
    r'.wheel.elapsed = (r.getCurrentTime raw).1 ∧ r'.cachedNow = some (r.getCurrentTime raw).1 ∧
      r'.pendingDeregister = r.pendingDeregister := by
  have hle : r.wheel.elapsed ≤ (r.getCurrentTime raw).1 := by
    simp only [getCurrentTime]
    split
    · assumption
    · exact UInt64.le_refl _
  rw [park] at hpark
  dsimp only at hpark
  split at hpark
  · obtain ⟨r₁, hloop, heq⟩ := Option.bind_eq_some_iff.mp hpark
    cases heq
    have hclock := wakeExpiredTimers_clock (r := (r.getCurrentTime raw).2.emit _) h.wheel_wf hle
      hloop
    rename_i events _
    obtain ⟨seg, rd, hio, -⟩ := processIoEvents_spec r₁ events
    rw [hio]
    exact hclock
  · obtain ⟨r₁, hloop, heq⟩ := Option.bind_eq_some_iff.mp hpark
    cases heq
    exact wakeExpiredTimers_clock (r := (r.getCurrentTime raw).2.emit _) h.wheel_wf hle hloop

/-! ### Every operation -/

/-- What the callers of a reactor may call: a new timer's deadline is in the wheel's future, a
timer is deregistered while it is live, and a timer is never deregistered as an I/O resource. -/
def Permits (r : Reactor W) : Op W → Prop
  | .registerTimer deadline _ => r.wheel.elapsed < deadline
  | .deregisterTimer rid => timerSlot r.resources rid ≠ none
  | .deregisterIoResource rid _ => timerSlot r.resources rid = none
  | _ => True

/-- A reactor and its callers: `Reactor::new`, then any permitted calls that do not panic. -/
def machine (W : Type*) : Machine (Reactor W) (Op W) where
  init r := r = new
  step r op r' := r.Permits op ∧ r.call op = some r'

/-- `r'` comes from `r` by one permitted call. What other modules need of a call is collected
here. -/
structure Progress (r r' : Reactor W) : Prop where
  consistent : Consistent r'
  next_le : r.nextResourceId ≤ r'.nextResourceId
  /-- An id that has been handed out and given up is not used again. -/
  dead : ∀ rid, rid < r.nextResourceId → r.resources.get rid = none → r'.resources.get rid = none
  /-- The log grows, by wakes of existing resources at most. -/
  log : ∃ seg, r'.log = r.log ++ seg ∧ ∀ w rid, .wakeTask w rid ∈ seg → r.resources.get rid ≠ none

theorem lt_succ_of_lt_max {n : UInt64} (h : ¬0xFFFFFFFFFFFFFFFF ≤ n) : n < n + 1 := by
  have hlt : n.toNat < 0xFFFFFFFFFFFFFFFF := UInt64.lt_iff_toNat_lt.mp (UInt64.not_le.mp h)
  rw [UInt64.lt_iff_toNat_lt, UInt64.toNat_add]
  show n.toNat < (n.toNat + 1) % 2 ^ 64
  omega

/-- Allocation fails without a trace, or hands out the next id. -/
theorem allocResourceId_cases (r : Reactor W) :
    r.allocResourceId = (.error .resourceIdOverflow, r) ∨
      r.nextResourceId < r.nextResourceId + 1 ∧
        r.allocResourceId =
          (.ok r.nextResourceId, { r with nextResourceId := r.nextResourceId + 1 }) := by
  rw [allocResourceId]
  split
  · exact .inl rfl
  · rename_i h
    exact .inr ⟨lt_succ_of_lt_max h, rfl⟩

theorem Progress.refl (h : Consistent r) : Progress r r where
  consistent := h
  next_le := UInt64.le_refl _
  dead _ _ hnone := hnone
  log := ⟨[], by simp, fun w rid hk => by simp at hk⟩

/-- A fresh id is in no slot, since ids in use were handed out before it. -/
theorem Consistent.get_next (h : Consistent r) : r.resources.get r.nextResourceId = none := by
  cases hget : r.resources.get r.nextResourceId with
  | none => rfl
  | some slot => exact absurd (h.fresh _ _ hget) (UInt64.lt_irrefl _)

/-- Filling the slot of the id just handed out, with a timer that goes into the wheel as well or
with an I/O resource that does not. -/
theorem Consistent.insertSlot {wheel : TimerWheel} {resources : ResourceSlab W}
    {slot : ResourceSlot W} (h : Consistent r) (seg : List (OutboundCall W))
    (hlt : r.nextResourceId < r.nextResourceId + 1)
    (hget : ∀ k, resources.get k =
      if k = r.nextResourceId then some slot else r.resources.get k)
    (hwf : wheel.WellFormed) (hpend : wheel.pending = []) (hagree : Agrees wheel resources)
    (hseg : ∀ w rid, OutboundCall.wakeTask w rid ∉ seg) :
    Progress r { r with
      nextResourceId := r.nextResourceId + 1
      wheel := wheel
      resources := resources
      log := r.log ++ seg } where
  consistent := by
    refine ⟨hwf, hpend, hagree, fun rid slot hslot => ?_⟩
    have hsome := (hget rid).symm.trans hslot
    split at hsome
    · rename_i hk
      exact hk ▸ hlt
    · exact UInt64.lt_trans (h.fresh rid slot hsome) hlt
  next_le := UInt64.le_of_lt hlt
  dead rid hrid hnone := by
    refine (hget rid).trans ?_
    rw [if_neg (fun e => UInt64.lt_irrefl _ (e ▸ hrid)), hnone]
  log := ⟨seg, rfl, fun w rid hk => absurd hk (hseg w rid)⟩

theorem Consistent.registerTimer (h : Consistent r) {deadline : UInt64}
    (hd : r.wheel.elapsed < deadline) (waker : W) :
    Progress r (r.registerTimer deadline waker).2 := by
  rw [Reactor.registerTimer]
  obtain heq | ⟨hlt, heq⟩ := allocResourceId_cases r
  · rw [heq]
    exact .refl h
  · rw [heq]
    have hget := ResourceSlab.get_insertTimerSlot r.resources r.nextResourceId
      ⟨deadline, r.nextResourceId⟩ waker
    obtain ⟨_, _, _, hpend, _⟩ := TimerWheel.insert_spec h.wheel_wf.linked r.nextResourceId deadline
    have hprog := h.insertSlot [] hlt hget
      (h.wheel_wf.insert h.settled hd r.nextResourceId) (hpend.trans h.settled)
      (fun k => ?_) (by simp)
    · simpa using hprog
    · rw [TimerWheel.live_insert h.wheel_wf, Function.update_apply]
      split
      · rename_i hk
        rw [timerSlot_eq_some.mpr ((hget k).trans (if_pos hk))]
        rfl
      · rename_i hk
        rw [timerSlot_congr ((hget k).trans (if_neg hk))]
        exact h.agrees k

/-- Emptying one slot, of a timer that leaves the wheel too or of something that is not a timer. -/
theorem Consistent.removeSlot {wheel : TimerWheel} {resources : ResourceSlab W}
    (h : Consistent r) (seg : List (OutboundCall W))
    (hget : ∀ k, resources.get k = if k = rid then none else r.resources.get k)
    (hwf : wheel.WellFormed) (hpend : wheel.pending = []) (hagree : Agrees wheel resources)
    (hseg : ∀ w rid, OutboundCall.wakeTask w rid ∉ seg) :
    Progress r { r with wheel := wheel, resources := resources, log := r.log ++ seg } where
  consistent := by
    refine ⟨hwf, hpend, hagree, fun k slot hslot => ?_⟩
    have hsome := (hget k).symm.trans hslot
    split at hsome
    · cases hsome
    · exact h.fresh k slot hsome
  next_le := UInt64.le_refl _
  dead k _ hnone := by
    refine (hget k).trans ?_
    rw [hnone, ite_self]
  log := ⟨seg, rfl, fun w rid hk => absurd hk (hseg w rid)⟩

theorem Consistent.deregisterTimer (h : Consistent r) (rid : UInt64) :
    Progress r (r.deregisterTimer rid) := by
  have hget := ResourceSlab.get_removeTimerSlot r.resources rid
  have hprog := h.removeSlot [] hget (h.wheel_wf.remove h.settled rid)
    ((TimerWheel.pending_remove _ rid).trans h.settled) (fun k => ?_) (by simp)
  · simpa [Reactor.deregisterTimer] using hprog
  · rw [TimerWheel.live_remove, Function.update_apply]
    split
    · rename_i hk
      rw [timerSlot_of_none ((hget k).trans (if_pos hk))]
      rfl
    · rename_i hk
      rw [timerSlot_congr ((hget k).trans (if_neg hk))]
      exact h.agrees k

theorem Consistent.registerIoResource (h : Consistent r) (interest : Interest)
    (osResult : Except IoError Unit) : Progress r (r.registerIoResource interest osResult).2 := by
  rw [Reactor.registerIoResource]
  obtain heq | ⟨hlt, heq⟩ := allocResourceId_cases r
  · rw [heq]
    exact .refl h
  · rw [heq]
    cases osResult with
    | ok u =>
      have hget := ResourceSlab.get_insertIoSlot r.resources r.nextResourceId
      have hagree : Agrees r.wheel (ResourceSlab.insertIoSlot r.resources r.nextResourceId) :=
        fun k => by
          by_cases hk : k = r.nextResourceId
          · rw [timerSlot_of_io ((hget k).trans (if_pos hk)), h.agrees k, hk,
              timerSlot_of_none h.get_next]
          · rw [timerSlot_congr ((hget k).trans (if_neg hk))]
            exact h.agrees k
      exact h.insertSlot [.registerIoResource r.nextResourceId interest (.ok u)] hlt hget
        h.wheel_wf h.settled hagree (by simp)
    | error e =>
      exact {
        consistent := ⟨h.wheel_wf, h.settled, h.agrees, fun rid slot hslot =>
          UInt64.lt_trans (h.fresh rid slot hslot) hlt⟩
        next_le := UInt64.le_of_lt hlt
        dead := fun _ _ hnone => hnone
        log := ⟨[.registerIoResource r.nextResourceId interest (.error e)], rfl,
          fun w rid hk => by simp at hk⟩ }

theorem Consistent.deregisterIoResource (h : Consistent r) (hrid : timerSlot r.resources rid = none)
    (osResult : Except IoError Unit) :
    Progress r (r.deregisterIoResource rid osResult).2 := by
  have hget := ResourceSlab.get_removeIoSlot r.resources rid
  have hagree : Agrees r.wheel (ResourceSlab.removeIoSlot r.resources rid) := fun k => by
    by_cases hk : k = rid
    · rw [timerSlot_of_none ((hget k).trans (if_pos hk)), h.agrees k, hk, hrid]
    · rw [timerSlot_congr ((hget k).trans (if_neg hk))]
      exact h.agrees k
  exact h.removeSlot [.deregisterIoResource rid osResult] hget h.wheel_wf h.settled
    hagree (by simp)

/-- Replacing the contents of an I/O slot by those of an I/O slot. -/
theorem Consistent.replaceIo {resources : ResourceSlab W} {rw ww rw' ww' : Option W}
    (h : Consistent r) (hio : r.resources.get rid = some (.io rw ww))
    (hget : ∀ k, resources.get k = if k = rid then some (.io rw' ww') else r.resources.get k) :
    Progress r { r with resources := resources } where
  consistent := by
    refine ⟨h.wheel_wf, h.settled, fun k => ?_, fun k slot hslot => ?_⟩
    · by_cases hk : k = rid
      · rw [timerSlot_of_io ((hget k).trans (if_pos hk)), h.agrees k, hk, timerSlot_of_io hio]
      · rw [timerSlot_congr ((hget k).trans (if_neg hk))]
        exact h.agrees k
    · by_cases hk : k = rid
      · exact hk ▸ h.fresh rid _ hio
      · exact h.fresh k slot (((hget k).trans (if_neg hk)).symm.trans hslot)
  next_le := UInt64.le_refl _
  dead k _ hnone := by
    have hk : k ≠ rid := fun e => by rw [e, hio] at hnone; cases hnone
    exact ((hget k).trans (if_neg hk)).trans hnone
  log := ⟨[], by simp, fun w rid hk => by simp at hk⟩

theorem Consistent.setWaker {interest : Interest} {waker : W} (h : Consistent r)
    (hset : r.setWaker rid interest waker = some r') : Progress r r' := by
  rcases setWaker_cases hset with rfl | ⟨resources, rw, ww, rw', ww', rfl, hio, hget⟩
  · exact .refl h
  · exact h.replaceIo hio hget

theorem Consistent.park {timeout : Option UInt64} {raw : UInt64}
    {poll : Except IoError (List MioEvent)} {res : Except IoError Unit} (h : Consistent r)
    (hpark : r.park timeout raw poll = some (res, r')) : Progress r r' := by
  obtain ⟨wakes, io, r₁, heq, hlog, _, hmem, hio, _, hget, hnext, hwf, hpend, hagree⟩ :=
    park_spec h timeout raw poll
  rw [heq] at hpark
  cases hpark
  refine ⟨⟨hwf, hpend, hagree, fun rid slot hslot => ?_⟩, UInt64.le_of_eq hnext.symm,
    fun rid _ hnone => ?_, _, by rw [hlog, List.append_assoc, List.append_assoc],
    fun w rid hk => ?_⟩
  · rw [hget] at hslot
    split at hslot
    · cases hslot
    · exact hnext ▸ h.fresh rid slot hslot
  · rw [hget, hnone, ite_self]
  · simp only [List.cons_append, List.nil_append, List.mem_cons, reduceCtorEq, List.mem_append,
      List.mem_map, OutboundCall.wakeTask.injEq, Prod.exists, false_or] at hk
    rcases hk with ⟨w', rid', hw, rfl, rfl⟩ | hk
    · obtain ⟨e, he, _⟩ := (hmem w' rid').mp hw
      rw [timerSlot_eq_some.mp he]
      exact Option.some_ne_none _
    · obtain ⟨rw, ww, hslot⟩ := hio w rid hk
      rw [hslot]
      exact Option.some_ne_none _

/-- **Every permitted call** keeps wheel and slab in agreement, and does no more than `Progress`
says. -/
theorem call_spec {op : Op W} (h : Consistent r) (hperm : r.Permits op)
    (hcall : r.call op = some r') : Progress r r' := by
  cases op with
  | registerTimer deadline waker =>
    cases hcall
    exact h.registerTimer hperm waker
  | deregisterTimer rid =>
    cases hcall
    exact h.deregisterTimer rid
  | registerIoResource interest osResult =>
    cases hcall
    exact h.registerIoResource interest osResult
  | deregisterIoResource rid osResult =>
    cases hcall
    exact h.deregisterIoResource hperm osResult
  | setWaker rid interest waker => exact h.setWaker hcall
  | park timeout raw poll =>
    obtain ⟨⟨res, r₁⟩, hpark, rfl⟩ := Option.map_eq_some_iff.mp hcall
    exact h.park hpark

/-- Once an id has been given up, no run wakes it. -/
theorem Run.silent {ops : List (Op W)} (h : Consistent r) (hrid : rid < r.nextResourceId)
    (hnone : r.resources.get rid = none) (hrun : (machine W).Run r ops r') :
    ∃ seg, r'.log = r.log ++ seg ∧ ∀ w, .wakeTask w rid ∉ seg := by
  -- the run keeps `rid` handed out and without a slot
  suffices Consistent r' ∧ rid < r'.nextResourceId ∧ r'.resources.get rid = none ∧
      ∃ seg, r'.log = r.log ++ seg ∧ ∀ w, .wakeTask w rid ∉ seg from this.2.2.2
  induction hrun with
  | nil => exact ⟨h, hrid, hnone, [], by simp, by simp⟩
  | snoc _ hstep ih =>
    obtain ⟨hcons, hlt, hnone', seg, hlog, hsilent⟩ := ih
    obtain ⟨hcons', hnext, hdead, seg', hlog', hwake⟩ := call_spec hcons hstep.1 hstep.2
    refine ⟨hcons', UInt64.lt_of_lt_of_le hlt hnext, hdead rid hlt hnone', seg ++ seg', ?_,
      fun w hk => ?_⟩
    · rw [hlog', hlog, List.append_assoc]
    · rcases List.mem_append.mp hk with hk | hk
      · exact hsilent w hk
      · exact hwake w rid hk hnone'

end Reactor

/-! ### The timers that were registered -/

/-- A reactor and the timers its callers have: those that were registered, with the deadline and
the waker they were registered with, and since then neither deregistered nor due at a park. The
table is kept from the arguments and the answers of the calls alone. What the wheel and the slab
hold is not asked, so it says which timers there should be, and not which there are. -/
structure Booked (W : Type*) where
  reactor : Reactor W
  /-- For a timer that its callers have, its deadline and its waker. -/
  timers : UInt64 → Option (UInt64 × W)

namespace Booked

variable {W : Type*}

/-- The timers that there should be after a call. A registration adds one, under the id it answers;
a park ends those that are due at the instant it reads. -/
def note (s : Booked W) : Reactor.Op W → UInt64 → Option (UInt64 × W)
  | .registerTimer deadline waker =>
    match (s.reactor.registerTimer deadline waker).1 with
    | .ok rid => Function.update s.timers rid (some (deadline, waker))
    | .error _ => s.timers
  | .deregisterTimer rid => Function.update s.timers rid none
  | .park _ raw _ => fun rid =>
    (s.timers rid).filter fun t => (s.reactor.getCurrentTime raw).1 < t.1
  | .registerIoResource _ _ | .deregisterIoResource _ _ | .setWaker _ _ _ => s.timers

/-- What the callers may call: a new timer's deadline is in the wheel's future, a timer is
deregistered while its callers have it, and a timer is never deregistered as an I/O resource. -/
def Permits (s : Booked W) : Reactor.Op W → Prop
  | .registerTimer deadline _ => s.reactor.wheel.elapsed < deadline
  | .deregisterTimer rid => s.timers rid ≠ none
  | .deregisterIoResource rid _ => s.timers rid = none
  | .registerIoResource _ _ | .setWaker _ _ _ | .park _ _ _ => True

/-- A reactor and its callers: `Reactor::new`, then any permitted calls that do not panic. -/
def machine (W : Type*) : Machine (Booked W) (Reactor.Op W) where
  init s := s = ⟨.new, fun _ => none⟩
  step s op s' := s.Permits op ∧ ∃ r, s.reactor.call op = some r ∧ s' = ⟨r, s.note op⟩

/-- Wheel, slab and table agree. That the wheel does follows from the other two, see `live_eq`. -/
structure Faithful (s : Booked W) : Prop where
  consistent : s.reactor.Consistent
  agrees : ∀ rid, Reactor.timerSlot s.reactor.resources rid =
    (s.timers rid).map fun t => (⟨t.1, rid⟩, t.2)

variable {s s' s₁ : Booked W} {rid : UInt64} {op : Reactor.Op W} {ops : List (Reactor.Op W)}

theorem faithful_init (h : (machine W).init s) : s.Faithful := by
  cases h
  exact ⟨Reactor.consistent_new, fun rid => Reactor.timerSlot_of_none (Slab.get_new rid)⟩

theorem Faithful.timerSlot_eq_none (h : s.Faithful) :
    Reactor.timerSlot s.reactor.resources rid = none ↔ s.timers rid = none := by
  rw [h.agrees, Option.map_eq_none_iff]

/-- The wheel holds the deadlines of the table, one for each timer that its callers have. -/
theorem Faithful.live_eq (h : s.Faithful) (rid : UInt64) :
    s.reactor.wheel.live rid = (s.timers rid).map Prod.fst := by
  rw [h.consistent.agrees, h.agrees, Option.map_map]
  rfl

/-- The due timers of the slab are those of the table. -/
theorem Faithful.dueTimer_iff (h : s.Faithful) (now : UInt64) (w : W) (rid : UInt64) :
    s.reactor.DueTimer now w rid ↔ ∃ d, s.timers rid = some (d, w) ∧ d ≤ now := by
  rw [Reactor.DueTimer, h.agrees]
  constructor
  · rintro ⟨entry, hslot, hdue⟩
    obtain ⟨⟨d, w'⟩, htimer, heq⟩ := Option.map_eq_some_iff.mp hslot
    cases heq
    exact ⟨d, htimer, hdue⟩
  · rintro ⟨d, htimer, hdue⟩
    exact ⟨⟨d, rid⟩, by rw [htimer]; rfl, hdue⟩

/-- The callers' own reading of what they may call is the reactor's. -/
theorem Faithful.permits (h : s.Faithful) (hperm : s.Permits op) : s.reactor.Permits op := by
  cases op with
  | registerTimer deadline waker => exact hperm
  | deregisterTimer rid => exact fun hnone => hperm (h.timerSlot_eq_none.mp hnone)
  | deregisterIoResource rid osResult => exact h.timerSlot_eq_none.mpr hperm
  | registerIoResource interest osResult => trivial
  | setWaker rid interest waker => trivial
  | park timeout raw poll => trivial

/-- An id that a registration answers is that of no timer. -/
theorem Faithful.fresh (h : s.Faithful) {deadline : UInt64} {waker : W}
    (hrid : (s.reactor.registerTimer deadline waker).1 = .ok rid) :
    rid = s.reactor.nextResourceId ∧ s.timers rid = none := by
  rw [Reactor.registerTimer] at hrid
  obtain heq | ⟨-, heq⟩ := s.reactor.allocResourceId_cases
  · rw [heq] at hrid
    cases hrid
  · rw [heq] at hrid
    cases hrid
    exact ⟨rfl, h.timerSlot_eq_none.mp (Reactor.timerSlot_of_none h.consistent.get_next)⟩

/-! ### What each call does to the slab's timers -/

theorem agrees_registerTimer (h : s.Faithful) (deadline : UInt64) (waker : W) (k : UInt64) :
    Reactor.timerSlot (s.reactor.registerTimer deadline waker).2.resources k =
      (s.note (.registerTimer deadline waker) k).map fun t => (⟨t.1, k⟩, t.2) := by
  rw [note, Reactor.registerTimer]
  obtain heq | ⟨-, heq⟩ := s.reactor.allocResourceId_cases
  · rw [heq]
    exact h.agrees k
  · rw [heq]
    have hget := ResourceSlab.get_insertTimerSlot s.reactor.resources s.reactor.nextResourceId
      ⟨deadline, s.reactor.nextResourceId⟩ waker k
    by_cases hk : k = s.reactor.nextResourceId
    · refine (Reactor.timerSlot_eq_some.mpr (hget.trans (if_pos hk))).trans ?_
      simp [hk]
    · refine ((Reactor.timerSlot_congr (hget.trans (if_neg hk))).trans (h.agrees k)).trans ?_
      simp [hk]

theorem agrees_deregisterTimer (h : s.Faithful) (rid k : UInt64) :
    Reactor.timerSlot (s.reactor.deregisterTimer rid).resources k =
      (s.note (.deregisterTimer rid) k).map fun t => (⟨t.1, k⟩, t.2) := by
  refine (Reactor.timerSlot_removeTimerSlot _ rid k).trans ?_
  rw [note, Function.update_apply, h.agrees]
  split <;> rfl

/-- A call that keeps the slots of timers and makes none. -/
theorem agrees_of_io {r : Reactor W} (h : s.Faithful)
    (hget : ∀ k, r.resources.get k = s.reactor.resources.get k ∨
      Reactor.timerSlot s.reactor.resources k = none ∧ Reactor.timerSlot r.resources k = none)
    (k : UInt64) :
    Reactor.timerSlot r.resources k = (s.timers k).map fun t => (⟨t.1, k⟩, t.2) := by
  rcases hget k with hsame | ⟨hold, hnew⟩
  · exact (Reactor.timerSlot_congr hsame).trans (h.agrees k)
  · rw [hnew, ← h.agrees, hold]

theorem agrees_registerIoResource (h : s.Faithful) (interest : Interest)
    (osResult : Except IoError Unit) (k : UInt64) :
    Reactor.timerSlot (s.reactor.registerIoResource interest osResult).2.resources k =
      (s.timers k).map fun t => (⟨t.1, k⟩, t.2) := by
  refine agrees_of_io h (fun k => ?_) k
  rw [Reactor.registerIoResource]
  obtain heq | ⟨-, heq⟩ := s.reactor.allocResourceId_cases
  · rw [heq]
    exact .inl rfl
  · rw [heq]
    cases osResult with
    | error e => exact .inl rfl
    | ok u =>
      have hget := ResourceSlab.get_insertIoSlot s.reactor.resources s.reactor.nextResourceId k
      by_cases hk : k = s.reactor.nextResourceId
      · exact .inr ⟨hk ▸ Reactor.timerSlot_of_none h.consistent.get_next,
          Reactor.timerSlot_of_io (hget.trans (if_pos hk))⟩
      · exact .inl (hget.trans (if_neg hk))

theorem agrees_deregisterIoResource (h : s.Faithful) (hrid : s.timers rid = none)
    (osResult : Except IoError Unit) (k : UInt64) :
    Reactor.timerSlot (s.reactor.deregisterIoResource rid osResult).2.resources k =
      (s.timers k).map fun t => (⟨t.1, k⟩, t.2) := by
  refine agrees_of_io h (fun k => ?_) k
  have hget := ResourceSlab.get_removeIoSlot s.reactor.resources rid k
  by_cases hk : k = rid
  · exact .inr ⟨hk ▸ h.timerSlot_eq_none.mpr hrid,
      Reactor.timerSlot_of_none (hget.trans (if_pos hk))⟩
  · exact .inl (hget.trans (if_neg hk))

theorem agrees_setWaker {r : Reactor W} {interest : Interest} {waker : W} (h : s.Faithful)
    (hset : s.reactor.setWaker rid interest waker = some r) (k : UInt64) :
    Reactor.timerSlot r.resources k = (s.timers k).map fun t => (⟨t.1, k⟩, t.2) := by
  refine agrees_of_io h (fun k => ?_) k
  rcases Reactor.setWaker_cases hset with rfl | ⟨resources, rw, ww, rw', ww', rfl, hio, hget⟩
  · exact .inl rfl
  · by_cases hk : k = rid
    · exact .inr ⟨hk ▸ Reactor.timerSlot_of_io hio,
        Reactor.timerSlot_of_io ((hget k).trans (if_pos hk))⟩
    · exact .inl ((hget k).trans (if_neg hk))

theorem agrees_park {timeout : Option UInt64} {raw : UInt64}
    {poll : Except IoError (List MioEvent)} {res : Except IoError Unit} {r : Reactor W}
    (h : s.Faithful) (hpark : s.reactor.park timeout raw poll = some (res, r)) (k : UInt64) :
    Reactor.timerSlot r.resources k =
      (s.note (.park timeout raw poll) k).map fun t => (⟨t.1, k⟩, t.2) := by
  obtain ⟨wakes, io, r', hpark', -, -, hmem, -, -, hget, -⟩ :=
    Reactor.park_spec h.consistent timeout raw poll
  cases hpark.symm.trans hpark'
  -- an id is woken exactly if the table has it with a deadline that has come
  have hwoken : k ∈ wakes.map Prod.snd ↔
      ∃ t, s.timers k = some t ∧ t.1 ≤ (s.reactor.getCurrentTime raw).1 := by
    rw [List.mem_map]
    constructor
    · rintro ⟨⟨w, k⟩, hin, rfl⟩
      obtain ⟨d, htimer, hdue⟩ := (h.dueTimer_iff _ w k).mp ((hmem w k).mp hin)
      exact ⟨(d, w), htimer, hdue⟩
    · rintro ⟨⟨d, w⟩, htimer, hdue⟩
      exact ⟨(w, k), (hmem w k).mpr ((h.dueTimer_iff _ w k).mpr ⟨d, htimer, hdue⟩), rfl⟩
  rw [note]
  dsimp only
  cases htimer : s.timers k with
  | none =>
    have hslot := h.timerSlot_eq_none.mpr htimer
    have hnot : k ∉ wakes.map Prod.snd := fun hin => by
      obtain ⟨t, ht, -⟩ := hwoken.mp hin
      cases htimer.symm.trans ht
    refine (Reactor.timerSlot_congr ((hget k).trans (if_neg hnot))).trans (hslot.trans ?_)
    rfl
  | some t =>
    rw [Option.filter_some]
    by_cases hdue : t.1 ≤ (s.reactor.getCurrentTime raw).1
    · rw [if_neg (by simpa using UInt64.not_lt.mpr hdue)]
      exact Reactor.timerSlot_of_none ((hget k).trans (if_pos (hwoken.mpr ⟨t, htimer, hdue⟩)))
    · have hnot : k ∉ wakes.map Prod.snd := fun hin => by
        obtain ⟨t', ht', hdue'⟩ := hwoken.mp hin
        cases htimer.symm.trans ht'
        exact hdue hdue'
      rw [if_pos (by simpa using UInt64.not_le.mp hdue)]
      refine (Reactor.timerSlot_congr ((hget k).trans (if_neg hnot))).trans ((h.agrees k).trans ?_)
      rw [htimer]

/-- **One call.** It keeps wheel, slab and table in agreement, and it is a call that the reactor
permits. -/
theorem step_faithful (h : s.Faithful) (hstep : (machine W).step s op s') :
    s'.Faithful ∧ (Reactor.machine W).step s.reactor op s'.reactor := by
  obtain ⟨hperm, r, hcall, rfl⟩ := hstep
  have hcons := (Reactor.call_spec h.consistent (h.permits hperm) hcall).consistent
  refine ⟨⟨hcons, fun k => ?_⟩, h.permits hperm, hcall⟩
  cases op with
  | registerTimer deadline waker =>
    cases hcall
    exact agrees_registerTimer h deadline waker k
  | deregisterTimer rid =>
    cases hcall
    exact agrees_deregisterTimer h rid k
  | registerIoResource interest osResult =>
    cases hcall
    exact agrees_registerIoResource h interest osResult k
  | deregisterIoResource rid osResult =>
    cases hcall
    exact agrees_deregisterIoResource h hperm osResult k
  | setWaker rid interest waker => exact agrees_setWaker h hcall k
  | park timeout raw poll =>
    obtain ⟨⟨res, r₁⟩, hpark, rfl⟩ := Option.map_eq_some_iff.mp hcall
    exact agrees_park h hpark k

theorem faithful_of_reachable (h : (machine W).Reachable s) : s.Faithful :=
  h.invariant (fun _ => faithful_init) fun _ _ _ hs hstep => (step_faithful hs hstep).1

/-- A run with the table is a run of the reactor. -/
theorem run_reactor (h : s.Faithful) (hrun : (machine W).Run s ops s') :
    s'.Faithful ∧ (Reactor.machine W).Run s.reactor ops s'.reactor := by
  induction hrun with
  | nil => exact ⟨h, .nil⟩
  | snoc _ hlast ih =>
    obtain ⟨hfaithful, hbefore⟩ := ih
    obtain ⟨hfaithful', hstep⟩ := step_faithful hfaithful hlast
    exact ⟨hfaithful', hbefore.snoc hstep⟩

/-- Once a timer has been deregistered, no run wakes it. -/
theorem silent_of_deregister (h : s.Faithful)
    (hstep : (machine W).step s (.deregisterTimer rid) s₁) (hrun : (machine W).Run s₁ ops s') :
    ∃ seg, s'.reactor.log = s.reactor.log ++ seg ∧ ∀ w, .wakeTask w rid ∉ seg := by
  have hfaithful := (step_faithful h hstep).1
  obtain ⟨hperm, r, hcall, rfl⟩ := hstep
  cases hcall
  obtain ⟨slot, hslot⟩ : ∃ slot, s.reactor.resources.get rid = some slot := by
    cases hget : s.reactor.resources.get rid with
    | none => exact absurd (h.timerSlot_eq_none.mp (Reactor.timerSlot_of_none hget)) hperm
    | some slot => exact ⟨slot, rfl⟩
  exact Reactor.Run.silent (r := s.reactor.deregisterTimer rid) hfaithful.consistent
    (h.consistent.fresh rid slot hslot)
    ((ResourceSlab.get_removeTimerSlot _ _ rid).trans (if_pos rfl))
    (run_reactor hfaithful hrun).2

/-- **Timers of the reactor.** In every state that permitted calls lead to:

* wheel and slab both hold exactly the timers that were registered and are neither deregistered
  nor past, each with the deadline and the waker it was registered with;
* a registration answers an id that is no timer's;
* any `park` returns, failing exactly if the poll does. It wakes those timers that are due at the
  instant it reads, each once and with its waker, wakes no other timer, and deletes exactly
  those from wheel and slab;
* a timer that is deregistered is not woken by anything that follows.

The table is changed by `note` alone, which reads no wheel and no slab. So the first part also says
what each call may do to the two: a call that filed a deadline other than the one it was given, or
that touched another timer, would break it. -/
theorem reachable_timers (h : (machine W).Reachable s) :
    (∀ rid, Reactor.timerSlot s.reactor.resources rid =
        (s.timers rid).map fun t => (⟨t.1, rid⟩, t.2)) ∧
      (∀ rid, s.reactor.wheel.live rid = (s.timers rid).map Prod.fst) ∧
      (∀ deadline waker rid, (s.reactor.registerTimer deadline waker).1 = .ok rid →
        s.timers rid = none) ∧
      (∀ timeout raw poll, ∃ (wakes : List (W × UInt64)) (io : List (OutboundCall W))
        (r' : Reactor W),
        s.reactor.park timeout raw poll = some (poll.map fun _ => (), r') ∧
        r'.log = s.reactor.log ++ [.getCurrentTime (s.reactor.getCurrentTime raw).1,
          .pollEvents (Reactor.effectiveTimeout timeout s.reactor.nextDeadline
            (s.reactor.getCurrentTime raw).1)] ++
          wakes.map (fun x => .wakeTask x.1 x.2) ++ io ∧
        (wakes.map Prod.snd).Nodup ∧
        (∀ w rid, (w, rid) ∈ wakes ↔
          ∃ d, s.timers rid = some (d, w) ∧ d ≤ (s.reactor.getCurrentTime raw).1) ∧
        (∀ w rid, .wakeTask w rid ∈ io → s.timers rid = none) ∧
        (∀ rid, r'.wheel.live rid =
          if rid ∈ wakes.map Prod.snd then none else s.reactor.wheel.live rid) ∧
        ∀ rid, r'.resources.get rid =
          if rid ∈ wakes.map Prod.snd then none else s.reactor.resources.get rid) ∧
      ∀ rid s₁ ops s', (machine W).step s (.deregisterTimer rid) s₁ → (machine W).Run s₁ ops s' →
        ∃ seg, s'.reactor.log = s.reactor.log ++ seg ∧ ∀ w, .wakeTask w rid ∉ seg := by
  have hfaithful := faithful_of_reachable h
  refine ⟨hfaithful.agrees, hfaithful.live_eq, fun _ _ _ hrid => (hfaithful.fresh hrid).2,
    fun timeout raw poll => ?_, fun rid s₁ ops s' => silent_of_deregister hfaithful⟩
  obtain ⟨wakes, io, r', hpark, hlog, hnodup, hmem, hio, hlive, hget, -⟩ :=
    Reactor.park_spec hfaithful.consistent timeout raw poll
  refine ⟨wakes, io, r', hpark, hlog, hnodup, fun w rid => (hmem w rid).trans
    (hfaithful.dueTimer_iff _ w rid), fun w rid hk => ?_, hlive, hget⟩
  obtain ⟨rw, ww, hslot⟩ := hio w rid hk
  exact hfaithful.timerSlot_eq_none.mp (Reactor.timerSlot_of_io hslot)

/-- A timer that was registered for instant 5 is in the wheel under that deadline, and a park at
instant 7 wakes and deletes it. -/
theorem reachable_timers_one_timer :
    ∃ s : Booked ℕ, (machine ℕ).Reachable s ∧ s.timers 1 = some (5, 42) ∧
      s.reactor.wheel.live 1 = some 5 ∧
      ∃ r', s.reactor.park none 7 (.ok []) = some (.ok (), r') ∧ r'.wheel.live 1 = none ∧
        .wakeTask 42 1 ∈ r'.log := by
  have hreach : (machine ℕ).Reachable ⟨(Reactor.new.registerTimer 5 42).2,
      note ⟨.new, fun _ => none⟩ (.registerTimer 5 42)⟩ :=
    (Machine.Reachable.of_init (M := machine ℕ) (s := ⟨.new, fun _ => none⟩) rfl).step
      (a := .registerTimer 5 42) ⟨show (0 : UInt64) < 5 by decide, _, rfl, rfl⟩
  have htimer : note (W := ℕ) ⟨.new, fun _ => none⟩ (.registerTimer 5 42) 1 = some (5, 42) := rfl
  obtain ⟨-, hlive, -, hpark, -⟩ := reachable_timers hreach
  obtain ⟨wakes, io, r', heq, hlog, -, hmem, -, hlive', -⟩ := hpark none 7 (.ok [])
  have hwoken : (42, 1) ∈ wakes := (hmem 42 1).mpr ⟨5, htimer, by decide⟩
  refine ⟨_, hreach, htimer, (hlive 1).trans (congrArg (Option.map _) htimer), r', heq, ?_, ?_⟩
  · rw [hlive', if_pos (List.mem_map.mpr ⟨_, hwoken, rfl⟩)]
  · rw [hlog]
    exact List.mem_append_left _ (List.mem_append_right _ (List.mem_map.mpr ⟨_, hwoken, rfl⟩))

end Booked

end Lion
