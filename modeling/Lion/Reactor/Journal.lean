import Lion.Library.Trace
import Lion.Reactor.IoWakes

/-!
# The reactor's journal

The source gives a reactor a ghost log of everything that passes between it and the rest of the
world: its calls, when they begin and when they end with a result, and what it calls itself in
between. `Reactor.log` has the latter only. Here is the whole log, and what it says about the state
of the reactor: what is in the slab, with which wakers, is what has been registered and set since it
was last given up.

## From the log to the state

The properties that the source asks of a log are about the log alone. Proving them by looking at the
code is another matter: why does a wake not come without a registration? Because the slot was there,
and a slot is there only if something was registered. `Recorded` makes this step once. Each of its
clauses is an equivalence between something in the state and something that `Since` says of the log,
so that it can be used in both directions: the state explains what is logged next, and the log
explains the state.

There is one lemma for each call, which adds to the log what the call logs and changes the state as
the call does. A park is the exception, as it adds a whole list of events of several kinds; the ones
that say nothing about the state are `Quiet`, and are added all at once.

## Conventions

A call is logged as one: its beginning, its outbound calls in their order, its end. Nothing else can
be logged in between, as a reactor is used by one thread.

Callers do as the source requires of them (`Journal.Requires`). These are the preconditions of the
verified functions, read off the source: whoever violates them is outside of what is verified there.

## Main definitions

* `ReactorEvent` — the events of the log
* `Journal.machine` — a reactor and its callers, who do as the source requires of them
* `Journal.Recorded` — the log tells the state

## Main results

* `Reactor.park_calls` — what a park does, and in which order
* `Journal.recorded_of_reachable` — the log tells the state, in every state
-/

namespace Lion

open Trace

/-- `InboundCall`: a call of the reactor, with its result if that is there. A call is logged without
when it begins and with it when it ends; `deregister_timer` is logged once only. -/
inductive InboundCall (W : Type)
  | registerIoResource (interest : Interest) (result : Option (Except IoError UInt64))
  | deregisterIoResource (rid : UInt64) (result : Option (Except IoError Unit))
  | setWaker (rid : UInt64) (interest : Interest) (waker : W)
      (result : Option (Except IoError Unit))
  | registerTimer (deadline : UInt64) (waker : W) (result : Option (Except IoError UInt64))
  | deregisterTimer (rid : UInt64) (result : Bool)
  | park (timeout : Option UInt64) (result : Option (Except IoError Unit))

/-- `ReactorEvent`: what the log consists of. A reactor is called from one side and calls on the
other. -/
inductive ReactorEvent (W : Type)
  | inbound (call : InboundCall W)
  | outbound (call : OutboundCall W)

/-! ### What a park does -/

namespace Reactor

variable {W : Type} {r r' : Reactor W} {timeout : Option UInt64} {raw : UInt64}
  {poll : Except IoError (List MioEvent)} {res : Except IoError Unit}

/-- The wakers of I/O resources do not depend on timers. -/
theorem ioSlot_of_timers_removed {resources resources' : ResourceSlab W} {rids : List UInt64}
    (hget : ∀ k, resources'.get k = if k ∈ rids then none else resources.get k)
    (htimer : ∀ k ∈ rids, timerSlot resources k ≠ none) : ioSlot resources' = ioSlot resources := by
  funext k
  by_cases hk : k ∈ rids
  · obtain ⟨⟨e, w⟩, hslot⟩ := Option.ne_none_iff_exists'.mp (htimer k hk)
    rw [ioSlot_of_none ((hget k).trans (if_pos hk)), ioSlot_of_timer (timerSlot_eq_some.mp hslot)]
  · exact ioSlot_congr ((hget k).trans (if_neg hk))

/-- The clock is held back to the instant of the wheel. -/
theorem elapsed_le_getCurrentTime (r : Reactor W) (raw : UInt64) :
    r.wheel.elapsed ≤ (r.getCurrentTime raw).1 := by
  simp only [getCurrentTime]
  split
  · assumption
  · exact UInt64.le_refl _

/-- **What a park does**, and in which order: it reads the clock, polls, wakes the timers that are
due, each once, and then goes through the events. -/
theorem park_calls (h : Consistent r) (hpark : r.park timeout raw poll = some (res, r')) :
    ∃ wakes : List (W × UInt64), res = poll.map (fun _ => ()) ∧ (wakes.map Prod.snd).Nodup ∧
      (∀ w rid, (w, rid) ∈ wakes ↔ DueTimer r (r.getCurrentTime raw).1 w rid) ∧
      (∀ k, r'.resources.get k = if k ∈ wakes.map Prod.snd then none else r.resources.get k) ∧
      r'.log = r.log ++ (.getCurrentTime (r.getCurrentTime raw).1 ::
        .pollEvents (effectiveTimeout timeout r.nextDeadline (r.getCurrentTime raw).1) ::
        (wakes.map (fun x => .wakeTask x.1 x.2) ++ pollCalls (ioSlot r.resources) poll)) ∧
      r'.nextResourceId = r.nextResourceId := by
  have hle := r.elapsed_le_getCurrentTime raw
  set now := (r.getCurrentTime raw).1 with hnow
  obtain ⟨wakes, wheel, resources, hloop, -, -, -, hnodup, hmem, -, hget⟩ :=
    wakeExpiredTimers_spec (r := { r with
        cachedNow := some now
        log := r.log ++ [.getCurrentTime now] ++
          [.pollEvents (effectiveTimeout timeout r.nextDeadline now)] })
      h.wheel_wf hle h.agrees (Nat.lt_succ_self _)
  have hio : ioSlot resources = ioSlot r.resources := by
    refine ioSlot_of_timers_removed hget fun k hk => ?_
    obtain ⟨⟨w, rid⟩, hwake, rfl⟩ := List.mem_map.mp hk
    obtain ⟨e, hslot, -⟩ := (hmem w rid).mp hwake
    exact Option.ne_none_iff_exists'.mpr ⟨_, hslot⟩
  cases poll with
  | error e =>
    obtain ⟨r₁, hloop', heq⟩ := Option.bind_eq_some_iff.mp hpark
    cases heq
    cases hloop.symm.trans hloop'
    exact ⟨wakes, rfl, hnodup, hmem, hget, by simp [pollCalls], rfl⟩
  | ok events =>
    obtain ⟨r₁, hloop', heq⟩ := Option.bind_eq_some_iff.mp hpark
    cases heq
    obtain ⟨readiness, hprocess⟩ := processIoEvents_eq r₁ (collectIoEvents events)
    cases hloop.symm.trans hloop'
    rw [hprocess]
    exact ⟨wakes, rfl, hnodup, hmem, hget, by simp [pollCalls, hio], rfl⟩

end Reactor

/-! ### The log -/

/-- A reactor and its log, from `Reactor::new` on. -/
structure Journal (W : Type) where
  reactor : Reactor W
  log : List (ReactorEvent W)

namespace Journal

variable {W : Type}

/-- What a call logs first, before it does anything. -/
def began : Reactor.Op W → InboundCall W
  | .registerTimer deadline waker => .registerTimer deadline waker none
  | .deregisterTimer rid => .deregisterTimer rid true
  | .registerIoResource interest _ => .registerIoResource interest none
  | .deregisterIoResource rid _ => .deregisterIoResource rid none
  | .setWaker rid interest waker => .setWaker rid interest waker none
  | .park timeout _ _ => .park timeout none

/-- What a call logs last, which depends on what it returns, and is nothing for
`deregister_timer`. -/
def ended (r : Reactor W) : Reactor.Op W → Option (InboundCall W)
  | .registerTimer deadline waker =>
    some (.registerTimer deadline waker (some (r.registerTimer deadline waker).1))
  | .deregisterTimer _ => none
  | .registerIoResource interest osResult =>
    some (.registerIoResource interest (some (r.registerIoResource interest osResult).1))
  | .deregisterIoResource rid osResult =>
    some (.deregisterIoResource rid (some (r.deregisterIoResource rid osResult).1))
  | .setWaker rid interest waker => some (.setWaker rid interest waker (some (.ok ())))
  | .park timeout raw poll => some (.park timeout ((r.park timeout raw poll).map Prod.fst))

/-- What a call logs, if these are its outbound calls. -/
def events (r : Reactor W) (op : Reactor.Op W) (calls : List (OutboundCall W)) :
    List (ReactorEvent W) :=
  .inbound (began op) :: (calls.map .outbound ++ ((ended r op).map .inbound).toList)

/-- What the source requires of callers: a new timer is for the future, the timer that is
deregistered is there, what is deregistered as an I/O resource is not a timer, and wakers are set
for I/O resources that are there. -/
def Requires (r : Reactor W) : Reactor.Op W → Prop
  | .setWaker rid _ _ => Reactor.ioSlot r.resources rid ≠ none
  | op => r.Permits op

/-- A reactor and its callers, who do as the source requires of them. -/
def machine (W : Type) : Machine (Journal W) (Reactor.Op W) where
  init s := s = ⟨.new, []⟩
  step s op s' := Requires s.reactor op ∧ s.reactor.call op = some s'.reactor ∧
    s'.log = s.log ++ events s.reactor op (s'.reactor.log.drop s.reactor.log.length)

/-- A call, with what it adds to the log. -/
theorem step_call {s : Journal W} {r : Reactor W} (op : Reactor.Op W)
    (hreq : Requires s.reactor op) (hcall : s.reactor.call op = some r) :
    (machine W).step s op
      ⟨r, s.log ++ events s.reactor op (r.log.drop s.reactor.log.length)⟩ :=
  ⟨hreq, hcall, rfl⟩

end Journal

/-! ### What events say -/

namespace ReactorEvent

variable {W : Type}

/-- `is_succ_register_timer`: this timer was registered, and its id returned. -/
def Timer (deadline : UInt64) (waker : W) (rid : UInt64) (ev : ReactorEvent W) : Prop :=
  ev = .inbound (.registerTimer deadline waker (some (.ok rid)))

/-- `timer_retired_at`: the timer was deregistered or woken, after which it is no longer there. -/
def Retires (rid : UInt64) (ev : ReactorEvent W) : Prop :=
  ev = .inbound (.deregisterTimer rid true) ∨ ∃ w, ev = .outbound (.wakeTask w rid)

/-- `io_syscall_registered_at`: the resource was registered with the operating system, which
agreed. -/
def RegistersIo (rid : UInt64) (ev : ReactorEvent W) : Prop :=
  ∃ interest, ev = .outbound (.registerIoResource rid interest (.ok ()))

/-- `io_syscall_deregistered_at`: it was deregistered, whatever the operating system answered. -/
def DeregistersIo (rid : UInt64) (ev : ReactorEvent W) : Prop :=
  ∃ res, ev = .outbound (.deregisterIoResource rid res)

/-- `is_succ_set_waker`, for a direction that the interest covers. -/
def SetsWaker (rid : UInt64) (mode : IoMode) (waker : W) (ev : ReactorEvent W) : Prop :=
  ∃ interest : Interest, interest.covers mode = true ∧
    ev = .inbound (.setWaker rid interest waker (some (.ok ())))

/-- From now on the waker of the direction is another one, or there is none. -/
def Resets (rid : UInt64) (mode : IoMode) (ev : ReactorEvent W) : Prop :=
  ev.DeregistersIo rid ∨ ∃ w, ev.SetsWaker rid mode w

/-- The event is about an id that has been handed out. -/
def Mentions (rid : UInt64) (ev : ReactorEvent W) : Prop :=
  (∃ d w, ev.Timer d w rid) ∨ ev.RegistersIo rid ∨ ∃ mode w, ev.SetsWaker rid mode w

/-- The event is no registration, sets no waker, and deregisters no I/O resource. -/
def RegistersNothing (ev : ReactorEvent W) : Prop :=
  ∀ rid, ¬ ev.Mentions rid ∧ ¬ ev.DeregistersIo rid

/-- The event says nothing about the state, so that adding it keeps whatever the log tells. -/
def Quiet (ev : ReactorEvent W) : Prop :=
  ev.RegistersNothing ∧ (∀ rid, ¬ ev.Retires rid) ∧ ∀ ts, ev ≠ .outbound (.getCurrentTime ts)

end ReactorEvent

namespace Journal

open ReactorEvent

variable {W : Type} {s s' : Journal W} {r' : Reactor W} {rid : UInt64} {op : Reactor.Op W}

/-- The log tells the state: each clause is about a part of the state and what the log says of
it. -/
structure Recorded (s : Journal W) : Prop where
  consistent : s.reactor.Consistent
  /-- The wheel is at the latest reading of the clock. -/
  clock : ∀ ts, .outbound (.getCurrentTime ts) ∈ s.log → ts ≤ s.reactor.wheel.elapsed
  /-- The ids of the log have been handed out. -/
  ids : ∀ ev ∈ s.log, ∀ rid, ev.Mentions rid → rid < s.reactor.nextResourceId
  /-- No id is handed out for both kinds of resource. -/
  kinds : ∀ rid, (∃ ev ∈ s.log, ∃ d w, ev.Timer d w rid) → ¬ ∃ ev ∈ s.log, ev.RegistersIo rid
  /-- The timers are those that have been registered and not retired since. -/
  timers : ∀ d w rid,
    (∃ e, Reactor.timerSlot s.reactor.resources rid = some (e, w) ∧ e.deadline = d) ↔
      Since (Timer d w rid) (Retires rid) s.log
  /-- The I/O resources are those that have been registered and not deregistered since. -/
  io : ∀ rid, Reactor.ioSlot s.reactor.resources rid ≠ none ↔
    Since (RegistersIo rid) (DeregistersIo rid) s.log
  /-- Their wakers are those that have been set last. -/
  wakers : ∀ rid mode w, (Reactor.ioSlot s.reactor.resources rid).bind (· mode) = some w ↔
    Since (SetsWaker rid mode w) (Resets rid mode) s.log

theorem recorded_new : Recorded (⟨.new, []⟩ : Journal W) where
  consistent := Reactor.consistent_new
  clock ts h := by simp at h
  ids ev h := by simp at h
  kinds rid h := by simp at h
  timers d w rid := by
    refine iff_of_false ?_ not_since_nil
    rintro ⟨e, he, -⟩
    cases (Reactor.timerSlot_of_none (Slab.get_new rid)).symm.trans he
  io rid := iff_of_false (fun h => h (Reactor.ioSlot_of_none (Slab.get_new rid))) not_since_nil
  wakers rid mode w := by
    refine iff_of_false (fun h => ?_) not_since_nil
    rw [show Reactor.ioSlot (Reactor.new : Reactor W).resources rid = none from
      Reactor.ioSlot_of_none (Slab.get_new rid)] at h
    cases h

/-! ### Events that register nothing -/

/-- **Timers are retired**, and other things happen that the state does not depend on. -/
theorem Recorded.retire (h : s.Recorded) (rids : List UInt64) {rest : List (ReactorEvent W)}
    (hcons : r'.Consistent)
    (hget : ∀ k, r'.resources.get k = if k ∈ rids then none else s.reactor.resources.get k)
    (htimer : ∀ k ∈ rids, Reactor.timerSlot s.reactor.resources k ≠ none)
    (helapsed : s.reactor.wheel.elapsed ≤ r'.wheel.elapsed)
    (hclock : ∀ ts, .outbound (.getCurrentTime ts) ∈ rest → ts ≤ r'.wheel.elapsed)
    (hnext : s.reactor.nextResourceId ≤ r'.nextResourceId)
    (hrest : ∀ ev ∈ rest, ev.RegistersNothing)
    (hretires : ∀ k, Reactor.timerSlot s.reactor.resources k ≠ none →
      ((∃ ev ∈ rest, ev.Retires k) ↔ k ∈ rids)) : Recorded ⟨r', s.log ++ rest⟩ := by
  have hslot : ∀ k, Reactor.timerSlot r'.resources k =
      if k ∈ rids then none else Reactor.timerSlot s.reactor.resources k := by
    intro k
    split
    · rename_i hk
      exact Reactor.timerSlot_of_none ((hget k).trans (if_pos hk))
    · rename_i hk
      exact Reactor.timerSlot_congr ((hget k).trans (if_neg hk))
  have hio := Reactor.ioSlot_of_timers_removed hget htimer
  refine ⟨hcons, fun ts hts => ?_, fun ev hev k hk => ?_, fun k => ?_, fun d w k => ?_,
    fun k => ?_, fun k mode w => ?_⟩
  · rcases List.mem_append.mp hts with hts | hts
    · exact UInt64.le_trans (h.clock ts hts) helapsed
    · exact hclock ts hts
  · rcases List.mem_append.mp hev with hev | hev
    · exact UInt64.lt_of_lt_of_le (h.ids ev hev k hk) hnext
    · exact absurd hk (hrest ev hev k).1
  · rintro ⟨ev, hev, d, w, hreg⟩ ⟨ev', hev', hreg'⟩
    rcases List.mem_append.mp hev with hev | hev
    · rcases List.mem_append.mp hev' with hev' | hev'
      · exact h.kinds k ⟨ev, hev, d, w, hreg⟩ ⟨ev', hev', hreg'⟩
      · exact (hrest ev' hev' k).1 (.inr (.inl hreg'))
    · exact (hrest ev hev k).1 (.inl ⟨d, w, hreg⟩)
  · show (∃ e, Reactor.timerSlot r'.resources k = some (e, w) ∧ e.deadline = d) ↔
      Since _ _ (s.log ++ rest)
    rw [since_append_iff_of_not fun x hx hp => (hrest x hx k).1 (.inl ⟨d, w, hp⟩),
      ← h.timers d w k, hslot]
    constructor
    · rintro ⟨e, he, hd⟩
      split at he
      · cases he
      · rename_i hk
        refine ⟨⟨e, he, hd⟩, fun x hx hcut => hk ?_⟩
        exact (hretires k (by rw [he]; exact Option.some_ne_none _)).mp ⟨x, hx, hcut⟩
    · rintro ⟨⟨e, he, hd⟩, hcut⟩
      refine ⟨e, ?_, hd⟩
      rw [if_neg, he]
      intro hk
      obtain ⟨x, hx, hretire⟩ := (hretires k (htimer k hk)).mpr hk
      exact hcut x hx hretire
  · show Reactor.ioSlot r'.resources k ≠ none ↔ Since _ _ (s.log ++ rest)
    rw [hio, since_append_iff_of_not fun x hx hp => (hrest x hx k).1 (.inr (.inl hp)), h.io k,
      and_iff_left fun x hx => (hrest x hx k).2]
  · show (Reactor.ioSlot r'.resources k).bind (· mode) = some w ↔ Since _ _ (s.log ++ rest)
    have hset : ∀ x ∈ rest, ∀ w, ¬ x.SetsWaker k mode w := fun x hx w hp =>
      (hrest x hx k).1 (.inr (.inr ⟨mode, w, hp⟩))
    rw [hio, since_append_iff_of_not fun x hx => hset x hx w, h.wakers k mode w, and_iff_left]
    rintro x hx (hdereg | ⟨w', hp⟩)
    · exact (hrest x hx k).2 hdereg
    · exact hset x hx w' hp

/-- **Events that say nothing** are added, and ids may be wasted. -/
theorem Recorded.quiet (h : s.Recorded) (rest : List (ReactorEvent W))
    (hrest : ∀ ev ∈ rest, ev.Quiet) (hcons : r'.Consistent)
    (hres : r'.resources = s.reactor.resources)
    (helapsed : r'.wheel.elapsed = s.reactor.wheel.elapsed)
    (hnext : s.reactor.nextResourceId ≤ r'.nextResourceId) : Recorded ⟨r', s.log ++ rest⟩ := by
  refine h.retire [] hcons (fun k => by rw [hres]; simp) (by simp)
    (UInt64.le_of_eq helapsed.symm) (fun ts hts => absurd rfl ((hrest _ hts).2.2 ts)) hnext
    (fun ev hev => (hrest ev hev).1) fun k _ => ?_
  refine iff_of_false ?_ List.not_mem_nil
  rintro ⟨ev, hev, hretire⟩
  exact (hrest ev hev).2.1 k hretire

/-! ### Events that register something -/

/-- Nothing is said about an id that has not been handed out. -/
theorem Recorded.not_since (h : s.Recorded) {p cut : ReactorEvent W → Prop}
    (hp : ∀ ev, p ev → ev.Mentions s.reactor.nextResourceId) : ¬ Since p cut s.log := by
  intro hsince
  obtain ⟨ev, hev, hpev⟩ := hsince.exists_mem
  exact UInt64.lt_irrefl _ (h.ids ev hev _ (hp ev hpev))

/-- A timer is registered, under an id that the log does not mention yet. -/
theorem Recorded.registerTimer (h : s.Recorded) (deadline : UInt64) (waker : W)
    (hcons : r'.Consistent) (hlt : s.reactor.nextResourceId < s.reactor.nextResourceId + 1)
    (hget : ∀ k, r'.resources.get k = if k = s.reactor.nextResourceId then
      some (.timer ⟨deadline, s.reactor.nextResourceId⟩ waker) else s.reactor.resources.get k)
    (helapsed : r'.wheel.elapsed = s.reactor.wheel.elapsed)
    (hnext : r'.nextResourceId = s.reactor.nextResourceId + 1) :
    Recorded ⟨r', s.log ++
      [.inbound (.registerTimer deadline waker (some (.ok s.reactor.nextResourceId)))]⟩ := by
  have hold := h.consistent.get_next
  have htimer : ∀ k, Reactor.timerSlot r'.resources k = if k = s.reactor.nextResourceId then
      some (⟨deadline, s.reactor.nextResourceId⟩, waker)
        else Reactor.timerSlot s.reactor.resources k := by
    intro k
    split
    · rename_i hk
      exact Reactor.timerSlot_eq_some.mpr ((hget k).trans (if_pos hk))
    · rename_i hk
      exact Reactor.timerSlot_congr ((hget k).trans (if_neg hk))
  have hio : Reactor.ioSlot r'.resources = Reactor.ioSlot s.reactor.resources := by
    funext k
    by_cases hk : k = s.reactor.nextResourceId
    · rw [Reactor.ioSlot_of_timer ((hget k).trans (if_pos hk)), hk, Reactor.ioSlot_of_none hold]
    · exact Reactor.ioSlot_congr ((hget k).trans (if_neg hk))
  refine ⟨hcons, fun ts hts => ?_, fun ev hev rid hrid => ?_, fun rid => ?_, fun d w rid => ?_,
    fun rid => ?_, fun rid mode w => ?_⟩
  · rw [helapsed]
    exact h.clock ts (by simpa using hts)
  · rw [hnext]
    rcases List.mem_append.mp hev with hev | hev
    · exact UInt64.lt_trans (h.ids ev hev rid hrid) hlt
    · obtain rfl := List.mem_singleton.mp hev
      rcases hrid with ⟨d, w, hreg⟩ | ⟨interest, hreg⟩ | ⟨mode, w, interest, -, hreg⟩
      · cases hreg
        exact hlt
      · cases hreg
      · cases hreg
  · rintro ⟨ev, hev, d, w, htimer⟩ ⟨ev', hev', hreg⟩
    have hlog : ev' ∈ s.log := by
      rcases List.mem_append.mp hev' with hev' | hev'
      · exact hev'
      · obtain rfl := List.mem_singleton.mp hev'
        simp [RegistersIo] at hreg
    rcases List.mem_append.mp hev with hev | hev
    · exact h.kinds rid ⟨ev, hev, d, w, htimer⟩ ⟨ev', hlog, hreg⟩
    · obtain rfl := List.mem_singleton.mp hev
      cases htimer
      exact UInt64.lt_irrefl _ (h.ids ev' hlog _ (.inr (.inl hreg)))
  · show (∃ e, Reactor.timerSlot r'.resources rid = some (e, w) ∧ e.deadline = d) ↔
      Since _ _ (s.log ++ [_])
    rw [since_snoc_iff, htimer]
    by_cases hk : rid = s.reactor.nextResourceId
    · subst hk
      have hnot : ¬ Since (Timer d w s.reactor.nextResourceId)
          (Retires s.reactor.nextResourceId) s.log := h.not_since fun ev hev => .inl ⟨d, w, hev⟩
      rw [if_pos rfl]
      constructor
      · rintro ⟨e, he, rfl⟩
        cases he
        exact .inl rfl
      · rintro (hreg | ⟨hsince, -⟩)
        · cases hreg
          exact ⟨_, rfl, rfl⟩
        · exact absurd hsince hnot
    · simp only [if_neg hk, h.timers d w rid]
      simp [Timer, Retires, Ne.symm hk]
  · show Reactor.ioSlot r'.resources rid ≠ none ↔ Since _ _ (s.log ++ [_])
    rw [since_snoc_iff, hio, h.io rid]
    simp [RegistersIo, DeregistersIo]
  · show (Reactor.ioSlot r'.resources rid).bind (· mode) = some w ↔ Since _ _ (s.log ++ [_])
    rw [since_snoc_iff, hio, h.wakers rid mode w]
    simp [SetsWaker, Resets, DeregistersIo]

/-- An I/O resource is registered, under an id that the log does not mention yet. -/
theorem Recorded.registerIo (h : s.Recorded) (interest : Interest)
    (hcons : r'.Consistent) (hlt : s.reactor.nextResourceId < s.reactor.nextResourceId + 1)
    (hget : ∀ k, r'.resources.get k = if k = s.reactor.nextResourceId then some (.io none none)
      else s.reactor.resources.get k)
    (helapsed : r'.wheel.elapsed = s.reactor.wheel.elapsed)
    (hnext : r'.nextResourceId = s.reactor.nextResourceId + 1) :
    Recorded ⟨r', s.log ++
      [.outbound (.registerIoResource s.reactor.nextResourceId interest (.ok ()))]⟩ := by
  have hold := h.consistent.get_next
  have htimer : ∀ k, Reactor.timerSlot r'.resources k =
      Reactor.timerSlot s.reactor.resources k := by
    intro k
    by_cases hk : k = s.reactor.nextResourceId
    · rw [Reactor.timerSlot_of_io ((hget k).trans (if_pos hk)), hk,
        Reactor.timerSlot_of_none hold]
    · exact Reactor.timerSlot_congr ((hget k).trans (if_neg hk))
  have hio : ∀ k, Reactor.ioSlot r'.resources k = if k = s.reactor.nextResourceId then
      some fun _ => none else Reactor.ioSlot s.reactor.resources k := by
    intro k
    split
    · rename_i hk
      exact Reactor.ioSlot_of_io ((hget k).trans (if_pos hk)) rfl rfl
    · rename_i hk
      exact Reactor.ioSlot_congr ((hget k).trans (if_neg hk))
  refine ⟨hcons, fun ts hts => ?_, fun ev hev k hk => ?_, fun k => ?_, fun d w k => ?_,
    fun k => ?_, fun k mode w => ?_⟩
  · rw [helapsed]
    exact h.clock ts (by simpa using hts)
  · rw [hnext]
    rcases List.mem_append.mp hev with hev | hev
    · exact UInt64.lt_trans (h.ids ev hev k hk) hlt
    · obtain rfl := List.mem_singleton.mp hev
      rcases hk with ⟨d, w, hreg⟩ | ⟨interest, hreg⟩ | ⟨mode, w, interest, -, hreg⟩
      · cases hreg
      · cases hreg
        exact hlt
      · cases hreg
  · rintro ⟨ev, hev, d, w, hreg⟩ ⟨ev', hev', hreg'⟩
    have hlog : ev ∈ s.log := by
      rcases List.mem_append.mp hev with hev | hev
      · exact hev
      · cases (List.mem_singleton.mp hev).symm.trans hreg
    rcases List.mem_append.mp hev' with hev' | hev'
    · exact h.kinds k ⟨ev, hlog, d, w, hreg⟩ ⟨ev', hev', hreg'⟩
    · obtain rfl := List.mem_singleton.mp hev'
      obtain ⟨interest, heq⟩ := hreg'
      cases heq
      exact UInt64.lt_irrefl _ (h.ids ev hlog _ (.inl ⟨d, w, hreg⟩))
  · show (∃ e, Reactor.timerSlot r'.resources k = some (e, w) ∧ e.deadline = d) ↔
      Since _ _ (s.log ++ [_])
    rw [since_snoc_iff, htimer, h.timers d w k]
    simp [Timer, Retires]
  · show Reactor.ioSlot r'.resources k ≠ none ↔ Since _ _ (s.log ++ [_])
    rw [since_snoc_iff, hio]
    by_cases hk : k = s.reactor.nextResourceId
    · subst hk
      simp [RegistersIo]
    · rw [if_neg hk, h.io k]
      simp [RegistersIo, DeregistersIo, Ne.symm hk]
  · show (Reactor.ioSlot r'.resources k).bind (· mode) = some w ↔ Since _ _ (s.log ++ [_])
    rw [since_snoc_iff, hio]
    by_cases hk : k = s.reactor.nextResourceId
    · subst hk
      have hnot : ¬ Since (SetsWaker s.reactor.nextResourceId mode w)
          (Resets s.reactor.nextResourceId mode) s.log :=
        h.not_since fun ev hev => .inr (.inr ⟨mode, w, hev⟩)
      simp [SetsWaker, hnot]
    · rw [if_neg hk, h.wakers k mode w]
      simp [SetsWaker, Resets, DeregistersIo]

/-- An I/O resource is deregistered, if there is one. -/
theorem Recorded.deregisterIo (h : s.Recorded) (res : Except IoError Unit)
    (hrid : Reactor.timerSlot s.reactor.resources rid = none) (hcons : r'.Consistent)
    (hget : ∀ k, r'.resources.get k = if k = rid then none else s.reactor.resources.get k)
    (helapsed : r'.wheel.elapsed = s.reactor.wheel.elapsed)
    (hnext : r'.nextResourceId = s.reactor.nextResourceId) :
    Recorded ⟨r', s.log ++ [.outbound (.deregisterIoResource rid res)]⟩ := by
  have htimer : ∀ k, Reactor.timerSlot r'.resources k =
      Reactor.timerSlot s.reactor.resources k := by
    intro k
    by_cases hk : k = rid
    · rw [Reactor.timerSlot_of_none ((hget k).trans (if_pos hk)), hk, hrid]
    · exact Reactor.timerSlot_congr ((hget k).trans (if_neg hk))
  have hio : ∀ k, Reactor.ioSlot r'.resources k =
      if k = rid then none else Reactor.ioSlot s.reactor.resources k := by
    intro k
    split
    · rename_i hk
      exact Reactor.ioSlot_of_none ((hget k).trans (if_pos hk))
    · rename_i hk
      exact Reactor.ioSlot_congr ((hget k).trans (if_neg hk))
  have hmentions : ∀ k, ¬ Mentions k
      (.outbound (.deregisterIoResource rid res) : ReactorEvent W) := by
    rintro k (⟨d, w, hreg⟩ | ⟨interest, hreg⟩ | ⟨mode, w, interest, -, hreg⟩)
    · cases hreg
    · cases hreg
    · cases hreg
  refine ⟨hcons, fun ts hts => ?_, fun ev hev k hk => ?_, fun k => ?_, fun d w k => ?_,
    fun k => ?_, fun k mode w => ?_⟩
  · rw [helapsed]
    exact h.clock ts (by simpa using hts)
  · rw [hnext]
    rcases List.mem_append.mp hev with hev | hev
    · exact h.ids ev hev k hk
    · exact absurd (List.mem_singleton.mp hev ▸ hk) (hmentions k)
  · rintro ⟨ev, hev, d, w, hreg⟩ ⟨ev', hev', hreg'⟩
    rcases List.mem_append.mp hev with hev | hev
    · rcases List.mem_append.mp hev' with hev' | hev'
      · exact h.kinds k ⟨ev, hev, d, w, hreg⟩ ⟨ev', hev', hreg'⟩
      · exact hmentions k (List.mem_singleton.mp hev' ▸ .inr (.inl hreg'))
    · exact hmentions k (List.mem_singleton.mp hev ▸ .inl ⟨d, w, hreg⟩)
  · show (∃ e, Reactor.timerSlot r'.resources k = some (e, w) ∧ e.deadline = d) ↔
      Since _ _ (s.log ++ [_])
    rw [since_snoc_iff, htimer, h.timers d w k]
    simp [Timer, Retires]
  · show Reactor.ioSlot r'.resources k ≠ none ↔ Since _ _ (s.log ++ [_])
    rw [since_snoc_iff, hio]
    by_cases hk : k = rid
    · simp [hk, RegistersIo, DeregistersIo]
    · rw [if_neg hk, h.io k]
      simp [RegistersIo, DeregistersIo, Ne.symm hk]
  · show (Reactor.ioSlot r'.resources k).bind (· mode) = some w ↔ Since _ _ (s.log ++ [_])
    rw [since_snoc_iff, hio]
    by_cases hk : k = rid
    · simp [hk, SetsWaker, Resets, DeregistersIo]
    · rw [if_neg hk, h.wakers k mode w]
      simp [SetsWaker, Resets, DeregistersIo, Ne.symm hk]

/-- Wakers are set for the directions that the interest covers, of a resource that is there. -/
theorem Recorded.setWaker (h : s.Recorded) {interest : Interest} {waker : W}
    (hrid : Reactor.ioSlot s.reactor.resources rid ≠ none)
    (hset : s.reactor.setWaker rid interest waker = some r') (hcons : r'.Consistent) :
    Recorded ⟨r', s.log ++ [.inbound (.setWaker rid interest waker (some (.ok ())))]⟩ := by
  obtain ⟨resources, rfl, hother, hnew⟩ := Reactor.ioSlot_setWaker hset
  obtain ⟨wakers, hwakers⟩ := Option.ne_none_iff_exists'.mp hrid
  have hslot := Reactor.ioSlot_eq_some hwakers
  rw [hwakers] at hnew
  have hio : ∀ k, Reactor.ioSlot resources k = if k = rid then
      some (fun mode => if interest.covers mode then some waker else wakers mode)
        else Reactor.ioSlot s.reactor.resources k := by
    intro k
    split
    · rename_i hk
      exact hk ▸ hnew
    · rename_i hk
      exact Reactor.ioSlot_congr (hother k hk)
  have htimer : ∀ k, Reactor.timerSlot resources k =
      Reactor.timerSlot s.reactor.resources k := by
    intro k
    by_cases hk : k = rid
    · subst hk
      rw [Reactor.timerSlot_of_io hslot, Reactor.timerSlot_of_io (Reactor.ioSlot_eq_some hnew)]
    · exact Reactor.timerSlot_congr (hother k hk)
  refine ⟨hcons, fun ts hts => h.clock ts (by simpa using hts), fun ev hev k hk => ?_,
    fun k => ?_, fun d w k => ?_, fun k => ?_, fun k mode w => ?_⟩
  · rcases List.mem_append.mp hev with hev | hev
    · exact h.ids ev hev k hk
    · obtain rfl := List.mem_singleton.mp hev
      rcases hk with ⟨d, w, hreg⟩ | ⟨interest, hreg⟩ | ⟨mode, w, interest, -, hreg⟩
      · cases hreg
      · cases hreg
      · cases hreg
        exact h.consistent.fresh rid _ hslot
  · rintro ⟨ev, hev, d, w, hreg⟩ ⟨ev', hev', interest', hreg'⟩
    rcases List.mem_append.mp hev with hev | hev
    · rcases List.mem_append.mp hev' with hev' | hev'
      · exact h.kinds k ⟨ev, hev, d, w, hreg⟩ ⟨ev', hev', interest', hreg'⟩
      · cases (List.mem_singleton.mp hev').symm.trans hreg'
    · cases (List.mem_singleton.mp hev).symm.trans hreg
  · show (∃ e, Reactor.timerSlot resources k = some (e, w) ∧ e.deadline = d) ↔
      Since _ _ (s.log ++ [_])
    rw [since_snoc_iff, htimer, h.timers d w k]
    simp [Timer, Retires]
  · show Reactor.ioSlot resources k ≠ none ↔ Since _ _ (s.log ++ [_])
    rw [since_snoc_iff, hio]
    by_cases hk : k = rid
    · subst hk
      simp [RegistersIo, DeregistersIo, ← h.io k, hwakers]
    · rw [if_neg hk, h.io k]
      simp [RegistersIo, DeregistersIo]
  · show (Reactor.ioSlot resources k).bind (· mode) = some w ↔ Since _ _ (s.log ++ [_])
    rw [since_snoc_iff, hio]
    by_cases hk : k = rid
    · subst hk
      rw [if_pos rfl, Option.bind_some, ← h.wakers k mode w, hwakers, Option.bind_some]
      cases hcovers : interest.covers mode with
      | true => simp [SetsWaker, Resets, hcovers]
      | false => simp [SetsWaker, Resets, DeregistersIo, hcovers]
    · rw [if_neg hk, h.wakers k mode w]
      simp [SetsWaker, Resets, DeregistersIo, Ne.symm hk]

/-! ### Calls -/

/-- The outbound calls of a park that come from events: looks at them, and wakes. -/
theorem mem_pollCalls {wakers : UInt64 → Option (IoMode → Option W)}
    {poll : Except IoError (List MioEvent)} {c : OutboundCall W}
    (h : c ∈ Reactor.pollCalls wakers poll) :
    (∃ event, c = .ioEventReady event) ∨ ∃ w rid, c = .wakeTask w rid := by
  cases poll with
  | error e => cases h
  | ok events =>
    obtain ⟨event, -, hcall⟩ := List.mem_flatMap.mp h
    rcases List.mem_cons.mp hcall with rfl | hcall
    · exact .inl ⟨event, rfl⟩
    · obtain ⟨w, -, rfl⟩ := Option.map_eq_some_iff.mp (Option.mem_toList.mp hcall)
      exact .inr ⟨w, _, rfl⟩

/-- What a park logs between its beginning and its end, in this order. -/
def parkEvents (r : Reactor W) (timeout : Option UInt64) (raw : UInt64)
    (poll : Except IoError (List MioEvent)) (wakes : List (W × UInt64)) :
    List (ReactorEvent W) :=
  .inbound (.park timeout none) ::
    .outbound (.getCurrentTime (r.getCurrentTime raw).1) ::
    .outbound (.pollEvents
      (Reactor.effectiveTimeout timeout r.nextDeadline (r.getCurrentTime raw).1)) ::
    (wakes.map (fun x => .outbound (.wakeTask x.1 x.2)) ++
      (Reactor.pollCalls (Reactor.ioSlot r.resources) poll).map .outbound ++
      [.inbound (.park timeout (some (poll.map fun _ => ())))])

theorem mem_parkEvents {r : Reactor W} {timeout : Option UInt64} {raw : UInt64}
    {poll : Except IoError (List MioEvent)} {wakes : List (W × UInt64)} {ev : ReactorEvent W}
    (h : ev ∈ parkEvents r timeout raw poll wakes) :
    (∃ res, ev = .inbound (.park timeout res)) ∨
      ev = .outbound (.getCurrentTime (r.getCurrentTime raw).1) ∨
      (∃ t, ev = .outbound (.pollEvents t)) ∨ (∃ event, ev = .outbound (.ioEventReady event)) ∨
      ∃ w rid, ev = .outbound (.wakeTask w rid) ∧ ((w, rid) ∈ wakes ∨
        .wakeTask w rid ∈ Reactor.pollCalls (Reactor.ioSlot r.resources) poll) := by
  rcases List.mem_cons.mp h with rfl | h
  · exact .inl ⟨_, rfl⟩
  rcases List.mem_cons.mp h with rfl | h
  · exact .inr (.inl rfl)
  rcases List.mem_cons.mp h with rfl | h
  · exact .inr (.inr (.inl ⟨_, rfl⟩))
  rcases List.mem_append.mp h with h | h
  · rcases List.mem_append.mp h with h | h
    · obtain ⟨⟨w, rid⟩, hwake, rfl⟩ := List.mem_map.mp h
      exact .inr (.inr (.inr (.inr ⟨w, rid, rfl, .inl hwake⟩)))
    · obtain ⟨c, hc, rfl⟩ := List.mem_map.mp h
      rcases mem_pollCalls hc with ⟨event, rfl⟩ | ⟨w, rid, rfl⟩
      · exact .inr (.inr (.inr (.inl ⟨event, rfl⟩)))
      · exact .inr (.inr (.inr (.inr ⟨w, rid, rfl, .inr hc⟩)))
  · exact .inl ⟨_, List.mem_singleton.mp h⟩

/-- A park registers nothing, and deregisters no I/O resource. -/
theorem registersNothing_of_mem_parkEvents {r : Reactor W} {timeout : Option UInt64}
    {raw : UInt64} {poll : Except IoError (List MioEvent)} {wakes : List (W × UInt64)}
    {ev : ReactorEvent W} (h : ev ∈ parkEvents r timeout raw poll wakes) : ev.RegistersNothing := by
  intro k
  rcases mem_parkEvents h with ⟨res, rfl⟩ | rfl | ⟨t, rfl⟩ | ⟨event, rfl⟩ | ⟨w, rid, rfl, -⟩
  · simp [Mentions, Timer, RegistersIo, SetsWaker, DeregistersIo]
  · simp [Mentions, Timer, RegistersIo, SetsWaker, DeregistersIo]
  · simp [Mentions, Timer, RegistersIo, SetsWaker, DeregistersIo]
  · simp [Mentions, Timer, RegistersIo, SetsWaker, DeregistersIo]
  · simp [Mentions, Timer, RegistersIo, SetsWaker, DeregistersIo]

/-- A wake among the events of a park is for a timer that is due, or for an event. -/
theorem wakeTask_mem_parkEvents {r : Reactor W} {timeout : Option UInt64} {raw : UInt64}
    {poll : Except IoError (List MioEvent)} {wakes : List (W × UInt64)} {w : W}
    (h : (w, rid) ∈ wakes) :
    .outbound (.wakeTask w rid) ∈ parkEvents r timeout raw poll wakes := by
  have hmap : (.outbound (.wakeTask w rid) : ReactorEvent W) ∈
      wakes.map fun x => .outbound (.wakeTask x.1 x.2) := List.mem_map.mpr ⟨_, h, rfl⟩
  simp [parkEvents, hmap]

/-- Who is woken for an event has the slot of an I/O resource. -/
theorem ioSlot_of_mem_pollCalls {resources : ResourceSlab W}
    {poll : Except IoError (List MioEvent)} {w : W}
    (h : .wakeTask w rid ∈ Reactor.pollCalls (Reactor.ioSlot resources) poll) :
    Reactor.timerSlot resources rid = none ∧ Reactor.ioSlot resources rid ≠ none := by
  cases poll with
  | error e => cases h
  | ok events =>
    obtain ⟨readWaker, writeWaker, hslot⟩ := Reactor.exists_io_of_mem_eventCalls h
    refine ⟨Reactor.timerSlot_of_io hslot, ?_⟩
    rw [Reactor.ioSlot, hslot]
    exact Option.some_ne_none _

/-- **What a park logs**, and what it does to the slab. -/
theorem events_park {r : Reactor W} {timeout : Option UInt64} {raw : UInt64}
    {poll : Except IoError (List MioEvent)} (h : r.Consistent)
    (hcall : r.call (.park timeout raw poll) = some r') :
    ∃ wakes : List (W × UInt64), (wakes.map Prod.snd).Nodup ∧
      (∀ w rid, (w, rid) ∈ wakes ↔ r.DueTimer (r.getCurrentTime raw).1 w rid) ∧
      (∀ k, r'.resources.get k = if k ∈ wakes.map Prod.snd then none else r.resources.get k) ∧
      r'.nextResourceId = r.nextResourceId ∧ r'.wheel.elapsed = (r.getCurrentTime raw).1 ∧
      events r (.park timeout raw poll) (r'.log.drop r.log.length) =
        parkEvents r timeout raw poll wakes := by
  obtain ⟨⟨res, r₁⟩, hpark, rfl⟩ := Option.map_eq_some_iff.mp hcall
  obtain ⟨wakes, rfl, hnodup, hmem, hget, hlog, hnext⟩ := Reactor.park_calls h hpark
  obtain ⟨helapsed, -, -⟩ := Reactor.park_clock h hpark
  refine ⟨wakes, hnodup, hmem, hget, hnext, helapsed, ?_⟩
  simp [events, began, ended, parkEvents, hpark, hlog]

/-- A park is logged, and retires the timers that are due. -/
theorem Recorded.park (h : s.Recorded) {timeout : Option UInt64} {raw : UInt64}
    {poll : Except IoError (List MioEvent)} (hcons : r'.Consistent)
    (hcall : s.reactor.call (.park timeout raw poll) = some r') :
    Recorded ⟨r', s.log ++ events s.reactor (.park timeout raw poll)
      (r'.log.drop s.reactor.log.length)⟩ := by
  obtain ⟨wakes, -, hmem, hget, hnext, helapsed, hevents⟩ := events_park h.consistent hcall
  have hdue : ∀ k ∈ wakes.map Prod.snd, Reactor.timerSlot s.reactor.resources k ≠ none := by
    intro k hk
    obtain ⟨⟨w, rid⟩, hwake, rfl⟩ := List.mem_map.mp hk
    obtain ⟨e, hslot, -⟩ := (hmem w rid).mp hwake
    exact Option.ne_none_iff_exists'.mpr ⟨_, hslot⟩
  rw [hevents]
  refine h.retire _ hcons hget hdue ?_ ?_ (UInt64.le_of_eq hnext.symm) ?_ ?_
  · rw [helapsed]
    exact s.reactor.elapsed_le_getCurrentTime raw
  · intro ts hts
    rw [helapsed]
    rcases mem_parkEvents hts with ⟨res, heq⟩ | heq | ⟨t, heq⟩ | ⟨event, heq⟩ | ⟨w, rid, heq, -⟩
    · cases heq
    · cases heq
      exact UInt64.le_refl _
    · cases heq
    · cases heq
    · cases heq
  · exact fun ev hev => registersNothing_of_mem_parkEvents hev
  · intro k hk
    constructor
    · rintro ⟨ev, hev, rfl | ⟨w, rfl⟩⟩
      · rcases mem_parkEvents hev with
          ⟨res, heq⟩ | heq | ⟨t, heq⟩ | ⟨event, heq⟩ | ⟨w, rid, heq, -⟩
        · cases heq
        · cases heq
        · cases heq
        · cases heq
        · cases heq
      · rcases mem_parkEvents hev with
          ⟨res, heq⟩ | heq | ⟨t, heq⟩ | ⟨event, heq⟩ | ⟨w, rid, heq, hwake⟩
        · cases heq
        · cases heq
        · cases heq
        · cases heq
        · cases heq
          rcases hwake with hwake | hwake
          · exact List.mem_map.mpr ⟨_, hwake, rfl⟩
          · exact absurd (ioSlot_of_mem_pollCalls hwake).1 hk
    · intro hmem
      obtain ⟨⟨w, rid⟩, hwake, rfl⟩ := List.mem_map.mp hmem
      exact ⟨_, wakeTask_mem_parkEvents hwake, .inr ⟨w, rfl⟩⟩

/-- The beginning of a call, or the end of one that fails, says nothing. -/
theorem quiet_inbound {c : InboundCall W} (htimer : ∀ d w rid,
      c ≠ .registerTimer d w (some (.ok rid))) (hretire : ∀ rid, c ≠ .deregisterTimer rid true)
    (hset : ∀ rid interest w, c ≠ .setWaker rid interest w (some (.ok ()))) :
    Quiet (.inbound c) := by
  refine ⟨fun rid => ⟨?_, ?_⟩, fun rid => ?_, fun ts heq => by cases heq⟩
  · rintro (⟨d, w, heq⟩ | ⟨interest, heq⟩ | ⟨mode, w, interest, -, heq⟩)
    · cases heq
      exact htimer _ _ _ rfl
    · cases heq
    · cases heq
      exact hset _ _ _ rfl
  · rintro ⟨res, heq⟩
    cases heq
  · rintro (heq | ⟨w, heq⟩)
    · cases heq
      exact hretire _ rfl
    · cases heq

/-- A call begins, or ends in failure, and the state is as it was. -/
theorem Recorded.quiet_snoc (h : s.Recorded) (c : InboundCall W) (htimer : ∀ d w rid,
      c ≠ .registerTimer d w (some (.ok rid))) (hretire : ∀ rid, c ≠ .deregisterTimer rid true)
    (hset : ∀ rid interest w, c ≠ .setWaker rid interest w (some (.ok ()))) :
    Recorded ⟨s.reactor, s.log ++ [.inbound c]⟩ := by
  refine h.quiet _ (fun ev hev => ?_) h.consistent rfl rfl (UInt64.le_refl _)
  rw [List.mem_singleton.mp hev]
  exact quiet_inbound htimer hretire hset

/-- `register_timer`, whether or not there is an id left for it. -/
theorem Recorded.call_registerTimer (h : s.Recorded) {deadline : UInt64} {waker : W}
    (hcons : r'.Consistent)
    (hcall : s.reactor.call (.registerTimer deadline waker) = some r') :
    Recorded ⟨r', s.log ++ events s.reactor (.registerTimer deadline waker)
      (r'.log.drop s.reactor.log.length)⟩ := by
  have hquiet := h.quiet_snoc (.registerTimer deadline waker none) (by simp) (by simp) (by simp)
  cases hcall
  rcases Reactor.allocResourceId_cases s.reactor with heq | ⟨hlt, heq⟩
  · have hres : s.reactor.registerTimer deadline waker =
        (.error .resourceIdOverflow, s.reactor) := by
      rw [Reactor.registerTimer, heq]
    have hafter := hquiet.quiet_snoc (.registerTimer deadline waker
      (some (.error .resourceIdOverflow))) (by simp) (by simp) (by simp)
    simpa [events, began, ended, hres] using hafter
  · have hres : s.reactor.registerTimer deadline waker = (.ok s.reactor.nextResourceId,
        { s.reactor with
          nextResourceId := s.reactor.nextResourceId + 1
          resources := ResourceSlab.insertTimerSlot s.reactor.resources s.reactor.nextResourceId
            ⟨deadline, s.reactor.nextResourceId⟩ waker
          wheel := s.reactor.wheel.insert s.reactor.nextResourceId deadline }) := by
      rw [Reactor.registerTimer, heq]
    have hafter := hquiet.registerTimer deadline waker hcons hlt
      (by rw [hres]; exact ResourceSlab.get_insertTimerSlot _ _ _ _)
      (by rw [hres]; exact (TimerWheel.insert_spec h.consistent.wheel_wf.linked _ _).2.2.2.2)
      (by rw [hres])
    simpa [events, began, ended, hres] using hafter

/-- `deregister_timer`, which says whether there was such a timer. -/
theorem Recorded.call_deregisterTimer (h : s.Recorded)
    (hrid : Reactor.timerSlot s.reactor.resources rid ≠ none) (hcons : r'.Consistent)
    (hcall : s.reactor.call (.deregisterTimer rid) = some r') :
    Recorded ⟨r', s.log ++ events s.reactor (.deregisterTimer rid)
      (r'.log.drop s.reactor.log.length)⟩ := by
  cases hcall
  have hevents : events s.reactor (.deregisterTimer rid)
      ((s.reactor.deregisterTimer rid).log.drop s.reactor.log.length) =
      [.inbound (.deregisterTimer rid true)] := by
    simp [events, began, ended, Reactor.deregisterTimer]
  rw [hevents]
  refine h.retire [rid] hcons (fun k => ?_) (fun k hk => ?_)
    (UInt64.le_of_eq (TimerWheel.elapsed_remove _ _).symm) (by simp) (UInt64.le_refl _) ?_ ?_
  · simp only [List.mem_singleton]
    exact ResourceSlab.get_removeTimerSlot _ _ k
  · rw [List.mem_singleton.mp hk]
    exact hrid
  · simp [RegistersNothing, Mentions, Timer, RegistersIo, SetsWaker, DeregistersIo]
  · intro k _
    simp [Retires, eq_comm]

/-- `register_io_resource`, whether the operating system agrees or not, or is not asked at all. -/
theorem Recorded.call_registerIo (h : s.Recorded) {interest : Interest}
    {osResult : Except IoError Unit} (hcons : r'.Consistent)
    (hcall : s.reactor.call (.registerIoResource interest osResult) = some r') :
    Recorded ⟨r', s.log ++ events s.reactor (.registerIoResource interest osResult)
      (r'.log.drop s.reactor.log.length)⟩ := by
  have hquiet := h.quiet_snoc (.registerIoResource interest none) (by simp) (by simp)
    (by simp)
  cases hcall
  rcases Reactor.allocResourceId_cases s.reactor with heq | ⟨hlt, heq⟩
  · have hres : s.reactor.registerIoResource interest osResult =
        (.error .resourceIdOverflow, s.reactor) := by
      rw [Reactor.registerIoResource, heq]
    have hafter := hquiet.quiet_snoc (.registerIoResource interest
      (some (.error .resourceIdOverflow))) (by simp) (by simp) (by simp)
    simpa [events, began, ended, hres] using hafter
  · cases osResult with
    | error e =>
      have hres : s.reactor.registerIoResource interest (.error e) = (.error e,
          { s.reactor with nextResourceId := s.reactor.nextResourceId + 1 }.emit
            (.registerIoResource s.reactor.nextResourceId interest (.error e))) := by
        rw [Reactor.registerIoResource, heq]
      have hmid := hquiet.quiet [.outbound (.registerIoResource s.reactor.nextResourceId
        interest (.error e))]
        (by simp [Quiet, RegistersNothing, Mentions, Timer, RegistersIo, SetsWaker, Retires,
          DeregistersIo]) hcons
        (by rw [hres]; rfl) (by rw [hres]; rfl) (by rw [hres]; exact UInt64.le_of_lt hlt)
      have hafter := hmid.quiet_snoc (.registerIoResource interest (some (.error e)))
        (by simp) (by simp) (by simp)
      simpa [events, began, ended, hres, Reactor.emit] using hafter
    | ok u =>
      have hres : s.reactor.registerIoResource interest (.ok u) = (.ok s.reactor.nextResourceId,
          { { s.reactor with nextResourceId := s.reactor.nextResourceId + 1 }.emit
              (.registerIoResource s.reactor.nextResourceId interest (.ok u)) with
            resources := ResourceSlab.insertIoSlot s.reactor.resources
              s.reactor.nextResourceId }) := by
        rw [Reactor.registerIoResource, heq]
        rfl
      have hmid := hquiet.registerIo interest hcons hlt
        (by rw [hres]; exact ResourceSlab.get_insertIoSlot _ _) (by rw [hres]; rfl)
        (by rw [hres]; rfl)
      have hafter := hmid.quiet_snoc (.registerIoResource interest
        (some (.ok s.reactor.nextResourceId))) (by simp) (by simp) (by simp)
      simpa [events, began, ended, hres, Reactor.emit] using hafter

/-- `deregister_io_resource` of a resource that is registered, as its callers do. -/
theorem Recorded.call_deregisterIo (h : s.Recorded) {osResult : Except IoError Unit}
    (hrid : Reactor.timerSlot s.reactor.resources rid = none) (hcons : r'.Consistent)
    (hcall : s.reactor.call (.deregisterIoResource rid osResult) = some r') :
    Recorded ⟨r', s.log ++ events s.reactor (.deregisterIoResource rid osResult)
      (r'.log.drop s.reactor.log.length)⟩ := by
  have hquiet := h.quiet_snoc (.deregisterIoResource rid none) (by simp) (by simp) (by simp)
  cases hcall
  have hmid := hquiet.deregisterIo osResult hrid hcons
    (ResourceSlab.get_removeIoSlot _ _) rfl rfl
  have hafter := hmid.quiet_snoc (.deregisterIoResource rid (some osResult)) (by simp)
    (by simp) (by simp)
  simpa [events, began, ended, Reactor.deregisterIoResource, Reactor.emit] using hafter

/-- `set_waker` for a resource that is registered, as its callers do. -/
theorem Recorded.call_setWaker (h : s.Recorded) {interest : Interest} {waker : W}
    (hrid : Reactor.ioSlot s.reactor.resources rid ≠ none) (hcons : r'.Consistent)
    (hcall : s.reactor.call (.setWaker rid interest waker) = some r') :
    Recorded ⟨r', s.log ++ events s.reactor (.setWaker rid interest waker)
      (r'.log.drop s.reactor.log.length)⟩ := by
  have hquiet := h.quiet_snoc (.setWaker rid interest waker none) (by simp) (by simp)
    (by simp)
  have hafter := hquiet.setWaker hrid hcall hcons
  obtain ⟨resources, rfl, -⟩ := Reactor.ioSlot_setWaker hcall
  simpa [events, began, ended] using hafter

/-- **Every call** is logged as it should be, if what the source requires of callers is kept. -/
theorem step_recorded (h : s.Recorded) (hstep : (machine W).step s op s') : s'.Recorded := by
  obtain ⟨hreq, hcall, hlog⟩ := hstep
  have hperm : s.reactor.Permits op := by
    cases op with
    | setWaker rid interest waker => trivial
    | _ => exact hreq
  have hcons := (Reactor.call_spec h.consistent hperm hcall).consistent
  obtain ⟨r', log⟩ := s'
  dsimp only at hcall hlog hcons
  rw [hlog]
  cases op with
  | registerTimer deadline waker => exact h.call_registerTimer hcons hcall
  | deregisterTimer rid => exact h.call_deregisterTimer hreq hcons hcall
  | registerIoResource interest osResult => exact h.call_registerIo hcons hcall
  | deregisterIoResource rid osResult => exact h.call_deregisterIo hreq hcons hcall
  | setWaker rid interest waker => exact h.call_setWaker hreq hcons hcall
  | park timeout raw poll => exact h.park hcons hcall

/-- **The log tells the state**, in every state that calls lead to. -/
theorem recorded_of_reachable (h : (machine W).Reachable s) : s.Recorded :=
  h.invariant (fun _ hs => hs ▸ recorded_new) fun _ _ _ hs hstep => step_recorded hs hstep

end Journal

end Lion
