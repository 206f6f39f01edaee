import Lion.Reactor.Journal

/-!
# The specification of the reactor's log

`lion-reactor-spec` says what a reactor does by saying what its log looks like: sixteen properties
of single events in view of the log before them, and two that something follows. They are stated
here as they are there, as instances of the two templates of `Trace`, and held against every log of
a reactor whose callers do as the source requires of them, whatever clock and operating system say.

What the log tells of the state (`Journal.Recorded`) is what the properties need to know of it. An
event is checked once, when it is added: `Valid` says that it is as the properties say in view of
the log it is added to, and there is one lemma `valid_*` for each kind of event. A call is then a
few events one after the other (`Safe.call_*`), a park a few stages (`Safe.park_*`).

## Where the reactor departs from its specification

One of the sixteen fails, and in one place. `inbound_register_io_result` asks of the end of every
registration with the operating system that it match an outbound call made since the registration
began. With no id left `register_io_resource` returns its error before it calls anybody, so its end
matches nothing. `OutOfIds` names these ends, and `reachable_reactorSpec` shows that they are
exactly the ones that the property fails of. The proofs therefore carry `Safe`, the sixteen
properties of all events but these; for the other fifteen this leaves nothing out
(`Invariant.not_outOfIds`). A run that gets there is `exists_not_inboundRegisterIoResult`.

## Conventions

Positions in a log are written as splits of it. The source compares the handle of what is registered
as well; the reactor passes it on without looking at it, and it is left out here.

## Main definitions

* `Journal.Invariant` — the properties that look back
* `Journal.wakeOnExpired`, `Journal.wakeOnIoReady` — the ones that look ahead
* `ReactorEvent.OutOfIds` — the end of a registration that found no id left

## Main results

* `Journal.reachable_reactorSpec` — the log meets its specification, but for those ends
* `Journal.exists_not_inboundRegisterIoResult` — a log with one
-/

namespace Lion

open Trace

variable {W : Type}

namespace ReactorEvent

/-- `is_succ_register_timer`: a registration of a timer ends with an id. -/
def isSuccRegisterTimer : ReactorEvent W → Bool
  | .inbound (.registerTimer _ _ (some (.ok _))) => true
  | _ => false

/-- `is_park_end`: a park ends, with whatever result. -/
def isParkEnd : ReactorEvent W → Bool
  | .inbound (.park _ (some _)) => true
  | _ => false

/-- `is_poll_events`: the operating system is polled. -/
def isPollEvents : ReactorEvent W → Bool
  | .outbound (.pollEvents _) => true
  | _ => false

/-- `is_io_event_ready`: an event is about to be processed. -/
def isIoEventReady : ReactorEvent W → Bool
  | .outbound (.ioEventReady _) => true
  | _ => false

/-- `is_wake_task`: a waker is called, on behalf of whichever resource. -/
def isWakeTask : ReactorEvent W → Bool
  | .outbound (.wakeTask _ _) => true
  | _ => false

/-- `is_io_syscall_register`: the operating system is asked to watch a resource. -/
def isIoSyscallRegister : ReactorEvent W → Bool
  | .outbound (.registerIoResource _ _ _) => true
  | _ => false

/-- `is_succ_io_syscall_register`: it is asked to, and agrees. -/
def isSuccIoSyscallRegister : ReactorEvent W → Bool
  | .outbound (.registerIoResource _ _ (.ok _)) => true
  | _ => false

/-- `is_io_syscall_deregister`: it is asked to watch the resource no longer. -/
def isIoSyscallDeregister : ReactorEvent W → Bool
  | .outbound (.deregisterIoResource _ _) => true
  | _ => false

/-- `is_inbound_register_io_end`: a registration ends, with an id or with an error. -/
def isInboundRegisterIoEnd : ReactorEvent W → Bool
  | .inbound (.registerIoResource _ (some _)) => true
  | _ => false

/-- `is_inbound_deregister_io_end`: a deregistration ends, with whatever result. -/
def isInboundDeregisterIoEnd : ReactorEvent W → Bool
  | .inbound (.deregisterIoResource _ (some _)) => true
  | _ => false

/-- `is_succ_set_waker`: a waker has been set. -/
def isSuccSetWaker : ReactorEvent W → Bool
  | .inbound (.setWaker _ _ _ (some (.ok _))) => true
  | _ => false

/-- A park begins or ends, so that what comes after it belongs to another park or to none. -/
def BoundsPark (ev : ReactorEvent W) : Prop := ∃ timeout res, ev = .inbound (.park timeout res)

/-- A registration with the operating system that finds no id left: it ends with an error as soon as
it has begun, and nothing goes out in between. -/
def OutOfIds (before : List (ReactorEvent W)) (ev : ReactorEvent W) : Prop :=
  ∃ interest early, before = early ++ [.inbound (.registerIoResource interest none)] ∧
    ev = .inbound (.registerIoResource interest (some (.error .resourceIdOverflow)))

/-- A timer with this id was registered, with whatever deadline and waker. -/
def RegistersTimer (rid : UInt64) (ev : ReactorEvent W) : Prop := ∃ d w, ev.Timer d w rid

end ReactorEvent

namespace Journal

open ReactorEvent

/-! ### The properties -/

/-- `current_park_start`: a park is going on, and this is its log so far. -/
def InPark (log mid : List (ReactorEvent W)) : Prop :=
  ∃ before timeout, log = before ++ .inbound (.park timeout none) :: mid ∧
    ∀ x ∈ mid, ¬ x.BoundsPark

/-- `timer_deadline_future`: a timer is registered for an instant after every reading of the
clock. -/
def timerDeadlineFuture : ActionSafety (ReactorEvent W) where
  acceptance _ ev := ev.isSuccRegisterTimer
  validity before ev := ∀ d w rid, ev.Timer d w rid →
    0 < d ∧ ∀ ts, .outbound (.getCurrentTime ts) ∈ before → ts < d

/-- `park_has_timestamp`: a park that ends has read the clock. -/
def parkHasTimestamp : ActionSafety (ReactorEvent W) where
  acceptance _ ev := ev.isParkEnd
  validity before _ := ∃ mid, InPark before mid ∧ ∃ ts, .outbound (.getCurrentTime ts) ∈ mid

/-- `park_poll_once`: a park that ends has polled the operating system once. -/
def parkPollOnce : ActionSafety (ReactorEvent W) where
  acceptance _ ev := ev.isParkEnd
  validity before _ := ∃ mid, InPark before mid ∧ mid.countP isPollEvents = 1

/-- `io_ready_in_park`: events are processed during a park only. -/
def ioReadyInPark : ActionSafety (ReactorEvent W) where
  acceptance _ ev := ev.isIoEventReady
  validity before _ := ∃ mid, InPark before mid

/-- `timer_waker_validity`: a wake on behalf of a timer that is registered is with the waker that it
was registered with. -/
def timerWakerValidity : ActionSafety (ReactorEvent W) where
  acceptance before ev := ev.isWakeTask ∧ ∃ w rid, ev = .outbound (.wakeTask w rid) ∧
    Since (RegistersTimer rid) (Retires rid) before
  validity before ev := ∀ w rid, ev = .outbound (.wakeTask w rid) →
    ∃ d, Since (Timer d w rid) (Retires rid) before

/-- `io_waker_validity`: a wake on behalf of an I/O resource that is registered is with a waker that
was set for it since. -/
def ioWakerValidity : ActionSafety (ReactorEvent W) where
  acceptance before ev := ev.isWakeTask ∧ ∃ w rid, ev = .outbound (.wakeTask w rid) ∧
    Since (RegistersIo rid) (DeregistersIo rid) before
  validity before ev := ∀ w rid, ev = .outbound (.wakeTask w rid) →
    ∃ early x late mode, before = early ++ x :: late ∧ x.SetsWaker rid mode w ∧
      Since (RegistersIo rid) (DeregistersIo rid) early

/-- `timer_reg_uniqueness`: the id of a new timer is not that of one that is registered. -/
def timerRegUniqueness : ActionSafety (ReactorEvent W) where
  acceptance _ ev := ev.isSuccRegisterTimer
  validity before ev := ∀ rid, ev.RegistersTimer rid →
    ¬ Since (RegistersTimer rid) (Retires rid) before

/-- `io_reg_uniqueness`: the id of a new I/O resource is not that of one that is registered. -/
def ioRegUniqueness : ActionSafety (ReactorEvent W) where
  acceptance _ ev := ev.isSuccIoSyscallRegister
  validity before ev := ∀ rid, ev.RegistersIo rid →
    ¬ Since (RegistersIo rid) (DeregistersIo rid) before

/-- `timer_io_disjoint_at_timer`: the id of a new timer is not that of an I/O resource. -/
def timerIoDisjointAtTimer : ActionSafety (ReactorEvent W) where
  acceptance _ ev := ev.isSuccRegisterTimer
  validity before ev := ∀ rid, ev.RegistersTimer rid →
    ¬ Since (RegistersIo rid) (DeregistersIo rid) before

/-- `timer_io_disjoint_at_io`: the id of a new I/O resource is not that of a timer. -/
def timerIoDisjointAtIo : ActionSafety (ReactorEvent W) where
  acceptance _ ev := ev.isSuccIoSyscallRegister
  validity before ev := ∀ rid, ev.RegistersIo rid →
    ¬ Since (RegistersTimer rid) (Retires rid) before

/-- `register_io_in_cycle`: the operating system is asked to watch a resource only after a
registration has begun, and before it has ended. -/
def registerIoInCycle : ActionSafety (ReactorEvent W) where
  acceptance _ ev := ev.isIoSyscallRegister
  validity before _ := Since (fun x => ∃ interest, x = .inbound (.registerIoResource interest none))
    (fun x => x.isInboundRegisterIoEnd = true) before

/-- `deregister_io_in_cycle`: it is asked to stop only while a deregistration is going on. -/
def deregisterIoInCycle : ActionSafety (ReactorEvent W) where
  acceptance _ ev := ev.isIoSyscallDeregister
  validity before _ := Since (fun x => ∃ rid, x = .inbound (.deregisterIoResource rid none))
    (fun x => x.isInboundDeregisterIoEnd = true) before

/-- `inbound_register_io_result`: a registration that ends has asked the operating system since it
began, and its result is the answer, with the id that it asked for. -/
def inboundRegisterIoResult : ActionSafety (ReactorEvent W) where
  acceptance _ ev := ev.isInboundRegisterIoEnd
  validity before ev := ∀ interest res,
    ev = .inbound (.registerIoResource interest (some res)) →
    ∃ early mid, before = early ++ .inbound (.registerIoResource interest none) :: mid ∧
      (∀ x ∈ mid, ∀ i, x ≠ .inbound (.registerIoResource i none)) ∧
      ∃ rid osResult, .outbound (.registerIoResource rid interest osResult) ∈ mid ∧
        res = osResult.map fun _ => rid

/-- `inbound_deregister_io_result`: a deregistration that ends has asked the operating system about
the same resource, and its result is the answer. -/
def inboundDeregisterIoResult : ActionSafety (ReactorEvent W) where
  acceptance _ ev := ev.isInboundDeregisterIoEnd
  validity before ev := ∀ rid res, ev = .inbound (.deregisterIoResource rid (some res)) →
    ∃ early mid, before = early ++ .inbound (.deregisterIoResource rid none) :: mid ∧
      (∀ x ∈ mid, ∀ k, x ≠ .inbound (.deregisterIoResource k none)) ∧
      .outbound (.deregisterIoResource rid res) ∈ mid

/-- `wake_has_registration`: a wake is on behalf of something that was registered, at whatever
time. -/
def wakeHasRegistration : ActionSafety (ReactorEvent W) where
  acceptance _ ev := ev.isWakeTask
  validity before ev := ∀ w rid, ev = .outbound (.wakeTask w rid) →
    ∃ x ∈ before, x.RegistersTimer rid ∨ x.RegistersIo rid

/-- `set_waker_active_io`: a waker is set for a resource that is registered. -/
def setWakerActiveIo : ActionSafety (ReactorEvent W) where
  acceptance _ ev := ev.isSuccSetWaker
  validity before ev := ∀ rid interest w,
    ev = .inbound (.setWaker rid interest w (some (.ok ()))) →
    Since (RegistersIo rid) (DeregistersIo rid) before

/-- `wake_on_expired`: from the reading of the clock that a timer is due at, its waker is called
before the park ends. -/
def wakeOnExpired (deadline : UInt64) (waker : W) (rid : UInt64) :
    LocalLiveness (ReactorEvent W) where
  acceptance before ev := (∃ ts, ev = .outbound (.getCurrentTime ts) ∧ deadline ≤ ts) ∧
    Since (Timer deadline waker rid) (Retires rid) before
  fulfillment ev := ev = .outbound (.wakeTask waker rid)
  deadline ev := ev.isParkEnd

/-- `wake_on_io_ready_readable` and `wake_on_io_ready_writable`: at an event, the waker that was set
last for the resource and direction is called, before the park ends or polls. -/
def wakeOnIoReady (mode : IoMode) (rid : UInt64) (waker : W) :
    LocalLiveness (ReactorEvent W) where
  acceptance before ev := (∃ event : IoEvent, ev = .outbound (.ioEventReady event) ∧
      event.resourceId = rid ∧ event.mode = mode) ∧
    Since (SetsWaker rid mode waker) (Resets rid mode) before
  fulfillment ev := ev = .outbound (.wakeTask waker rid)
  deadline ev := ev.isParkEnd ∨ ev.isPollEvents

/-- The properties that look back. They go under the names that they have in the source. -/
inductive Invariant
  | timerDeadlineFuture
  | parkHasTimestamp
  | parkPollOnce
  | ioReadyInPark
  | timerWakerValidity
  | ioWakerValidity
  | timerRegUniqueness
  | ioRegUniqueness
  | timerIoDisjointAtTimer
  | timerIoDisjointAtIo
  | registerIoInCycle
  | deregisterIoInCycle
  | inboundRegisterIoResult
  | inboundDeregisterIoResult
  | wakeHasRegistration
  | setWakerActiveIo

/-- What a property says, so that something can be proved of all of them at once. -/
def Invariant.spec : Invariant → ActionSafety (ReactorEvent W)
  | timerDeadlineFuture => Journal.timerDeadlineFuture
  | parkHasTimestamp => Journal.parkHasTimestamp
  | parkPollOnce => Journal.parkPollOnce
  | ioReadyInPark => Journal.ioReadyInPark
  | timerWakerValidity => Journal.timerWakerValidity
  | ioWakerValidity => Journal.ioWakerValidity
  | timerRegUniqueness => Journal.timerRegUniqueness
  | ioRegUniqueness => Journal.ioRegUniqueness
  | timerIoDisjointAtTimer => Journal.timerIoDisjointAtTimer
  | timerIoDisjointAtIo => Journal.timerIoDisjointAtIo
  | registerIoInCycle => Journal.registerIoInCycle
  | deregisterIoInCycle => Journal.deregisterIoInCycle
  | inboundRegisterIoResult => Journal.inboundRegisterIoResult
  | inboundDeregisterIoResult => Journal.inboundDeregisterIoResult
  | wakeHasRegistration => Journal.wakeHasRegistration
  | setWakerActiveIo => Journal.setWakerActiveIo

/-- The log is as the properties that look back say, but for the registrations that found no id
left. -/
def Safe (log : List (ReactorEvent W)) : Prop :=
  ∀ i : Invariant, (i.spec.except OutOfIds).Satisfied log

/-- The event is as the properties that look back say, after this log, if it is not the end of a
registration that found no id left. -/
def Valid (log : List (ReactorEvent W)) (ev : ReactorEvent W) : Prop :=
  ∀ i : Invariant, i.spec.acceptance log ev → ¬ OutOfIds log ev → i.spec.validity log ev

/-! ### Looking back -/

variable {s s' : Journal W} {r : Reactor W} {op : Reactor.Op W} {rid : UInt64}
  {log : List (ReactorEvent W)} {ev : ReactorEvent W}

/-- Only one of the properties is about registrations that found no id left. -/
theorem Invariant.not_outOfIds {i : Invariant} (hi : i ≠ .inboundRegisterIoResult)
    (hacc : i.spec.acceptance log ev) : ¬ OutOfIds log ev := by
  rintro ⟨interest, early, -, rfl⟩
  cases i with
  | inboundRegisterIoResult => exact hi rfl
  | timerWakerValidity | ioWakerValidity => exact absurd hacc.1 Bool.false_ne_true
  | _ => exact absurd hacc Bool.false_ne_true

/-- Nothing goes out in a registration that found no id left, so there is nothing that its end could
match. -/
theorem not_validity_of_outOfIds (h : OutOfIds log ev) :
    ¬ inboundRegisterIoResult.validity log ev := by
  obtain ⟨interest, early, rfl, rfl⟩ := h
  intro hvalid
  obtain ⟨before, mid, heq, hmid, rid, osResult, hout, -⟩ := hvalid interest _ rfl
  -- the latest beginning is the last event of the log
  rcases List.eq_nil_or_concat mid with rfl | ⟨mid, last, rfl⟩
  · cases hout
  · rw [List.concat_eq_append, ← List.cons_append, ← List.append_assoc] at heq
    obtain ⟨-, hlast⟩ := List.append_inj' heq rfl
    cases hlast
    exact hmid _ (by simp) interest rfl

theorem Safe.snoc (h : Safe log) (hev : Valid log ev) : Safe (log ++ [ev]) := fun i =>
  (h i).snoc fun hacc => hev i hacc.1 hacc.2

theorem Safe.append {rest : List (ReactorEvent W)} (h : Safe log)
    (hrest : ∀ before ev after, rest = before ++ ev :: after → Valid (log ++ before) ev) :
    Safe (log ++ rest) := fun i =>
  (h i).append fun before ev after heq hacc => hrest before ev after heq i hacc.1 hacc.2

/-- None of the properties is about such an event. -/
def Inert (ev : ReactorEvent W) : Prop :=
  ev.isSuccRegisterTimer = false ∧ ev.isParkEnd = false ∧ ev.isIoEventReady = false ∧
    ev.isWakeTask = false ∧ ev.isIoSyscallRegister = false ∧
    ev.isSuccIoSyscallRegister = false ∧ ev.isIoSyscallDeregister = false ∧
    ev.isInboundRegisterIoEnd = false ∧ ev.isInboundDeregisterIoEnd = false ∧
    ev.isSuccSetWaker = false

theorem valid_of_inert (h : Inert ev) : Valid log ev := by
  obtain ⟨htimer, hpark, hready, hwake, hio, hsucc, hdereg, hend, hend', hset⟩ := h
  rintro i hacc -
  cases i with
  | timerDeadlineFuture | timerRegUniqueness | timerIoDisjointAtTimer =>
    cases htimer.symm.trans hacc
  | parkHasTimestamp | parkPollOnce => cases hpark.symm.trans hacc
  | ioReadyInPark => cases hready.symm.trans hacc
  | timerWakerValidity | ioWakerValidity => cases hwake.symm.trans hacc.1
  | ioRegUniqueness | timerIoDisjointAtIo => cases hsucc.symm.trans hacc
  | registerIoInCycle => cases hio.symm.trans hacc
  | deregisterIoInCycle => cases hdereg.symm.trans hacc
  | inboundRegisterIoResult => cases hend.symm.trans hacc
  | inboundDeregisterIoResult => cases hend'.symm.trans hacc
  | wakeHasRegistration => cases hwake.symm.trans hacc
  | setWakerActiveIo => cases hset.symm.trans hacc

theorem inert_began (op : Reactor.Op W) : Inert (.inbound (began op)) := by
  cases op <;> exact ⟨rfl, rfl, rfl, rfl, rfl, rfl, rfl, rfl, rfl, rfl⟩

/-- A timer is registered under the next id, for the future. -/
theorem valid_registerTimer (h : s.Recorded) {deadline : UInt64} (waker : W)
    (hd : s.reactor.wheel.elapsed < deadline) :
    Valid s.log (.inbound (.registerTimer deadline waker
      (some (.ok s.reactor.nextResourceId)))) := by
  rintro i hacc -
  cases i with
  | timerDeadlineFuture =>
    rintro d w rid heq
    cases heq
    exact ⟨UInt64.lt_of_le_of_lt UInt64.zero_le hd,
      fun ts hts => UInt64.lt_of_le_of_lt (h.clock ts hts) hd⟩
  | timerRegUniqueness =>
    rintro rid ⟨d, w, heq⟩
    cases heq
    exact h.not_since fun ev hev => .inl hev
  | timerIoDisjointAtTimer =>
    rintro rid ⟨d, w, heq⟩
    cases heq
    exact h.not_since fun ev hev => .inr (.inl hev)
  | timerWakerValidity | ioWakerValidity => exact absurd hacc.1 Bool.false_ne_true
  | _ => exact absurd hacc Bool.false_ne_true

/-- An I/O resource is registered with the operating system, under the next id. -/
theorem valid_syscallRegister (h : s.Recorded) (interest : Interest) (res : Except IoError Unit)
    (hcycle : Since (fun x => ∃ interest, x = .inbound (.registerIoResource interest none))
      (fun x => x.isInboundRegisterIoEnd = true) s.log) :
    Valid s.log (.outbound (.registerIoResource s.reactor.nextResourceId interest res)) := by
  rintro i hacc -
  cases i with
  | ioRegUniqueness =>
    rintro rid ⟨interest, heq⟩
    cases heq
    exact h.not_since fun ev hev => .inr (.inl hev)
  | timerIoDisjointAtIo =>
    rintro rid ⟨interest, heq⟩
    cases heq
    exact h.not_since fun ev hev => .inl hev
  | registerIoInCycle => exact hcycle
  | timerWakerValidity | ioWakerValidity => exact absurd hacc.1 Bool.false_ne_true
  | _ => exact absurd hacc Bool.false_ne_true

/-- What was registered with the operating system is handed out. -/
theorem valid_registerIoEnd {interest : Interest} {osResult : Except IoError Unit} :
    Valid (log ++ [.inbound (.registerIoResource interest none),
        .outbound (.registerIoResource rid interest osResult)])
      (.inbound (.registerIoResource interest (some (osResult.map fun _ => rid)))) := by
  rintro i hacc -
  cases i with
  | inboundRegisterIoResult =>
    rintro interest res heq
    cases heq
    refine ⟨log, [.outbound (.registerIoResource rid interest osResult)], rfl, by simp, rid,
      osResult, by simp, rfl⟩
  | timerWakerValidity | ioWakerValidity => exact absurd hacc.1 Bool.false_ne_true
  | _ => exact absurd hacc Bool.false_ne_true

/-- There was no id left, which the properties do not speak of once the exception is made. -/
theorem valid_registerIoOverflow (interest : Interest) :
    Valid (log ++ [.inbound (.registerIoResource interest none)])
      (.inbound (.registerIoResource interest (some (.error .resourceIdOverflow)))) := by
  intro i hacc hids
  cases i with
  | inboundRegisterIoResult => exact absurd ⟨interest, log, rfl, rfl⟩ hids
  | timerWakerValidity | ioWakerValidity => exact absurd hacc.1 Bool.false_ne_true
  | _ => exact absurd hacc Bool.false_ne_true

/-- A resource is deregistered with the operating system. -/
theorem valid_syscallDeregister (res : Except IoError Unit) :
    Valid (log ++ [.inbound (.deregisterIoResource rid none)])
      (.outbound (.deregisterIoResource rid res)) := by
  rintro i hacc -
  cases i with
  | deregisterIoInCycle => exact .snoc_of_mem ⟨rid, rfl⟩
  | timerWakerValidity | ioWakerValidity => exact absurd hacc.1 Bool.false_ne_true
  | _ => exact absurd hacc Bool.false_ne_true

/-- The answer of the operating system is passed on. -/
theorem valid_deregisterIoEnd {res : Except IoError Unit} :
    Valid (log ++ [.inbound (.deregisterIoResource rid none),
        .outbound (.deregisterIoResource rid res)])
      (.inbound (.deregisterIoResource rid (some res))) := by
  rintro i hacc -
  cases i with
  | inboundDeregisterIoResult =>
    rintro rid res heq
    cases heq
    exact ⟨log, [.outbound (.deregisterIoResource rid res)], rfl, by simp, by simp⟩
  | timerWakerValidity | ioWakerValidity => exact absurd hacc.1 Bool.false_ne_true
  | _ => exact absurd hacc Bool.false_ne_true

/-- Wakers are set for a resource that is there. -/
theorem valid_setWaker (h : s.Recorded) (interest : Interest) (waker : W)
    (hrid : Reactor.ioSlot s.reactor.resources rid ≠ none) :
    Valid s.log (.inbound (.setWaker rid interest waker (some (.ok ())))) := by
  rintro i hacc -
  cases i with
  | setWakerActiveIo =>
    rintro rid interest w heq
    cases heq
    exact (h.io rid).mp hrid
  | timerWakerValidity | ioWakerValidity => exact absurd hacc.1 Bool.false_ne_true
  | _ => exact absurd hacc Bool.false_ne_true

/-! ### Calls -/

/-- A call begins. None of the properties is about that. -/
theorem Safe.began (h : Safe log) (op : Reactor.Op W) :
    Safe (log ++ [.inbound (Journal.began op)]) :=
  h.snoc (valid_of_inert (inert_began op))

theorem Safe.call_registerTimer (h : s.Recorded) (hsafe : Safe s.log) {deadline : UInt64}
    {waker : W} (hd : s.reactor.wheel.elapsed < deadline) :
    Safe (s.log ++ events s.reactor (.registerTimer deadline waker) []) := by
  have hbegin := hsafe.began (.registerTimer deadline waker)
  rcases Reactor.allocResourceId_cases s.reactor with heq | ⟨-, heq⟩
  · have hres : (s.reactor.registerTimer deadline waker).1 = .error .resourceIdOverflow := by
      rw [Reactor.registerTimer, heq]
    have hinert : Inert (.inbound (.registerTimer deadline waker
        (some (.error .resourceIdOverflow)))) :=
      ⟨rfl, rfl, rfl, rfl, rfl, rfl, rfl, rfl, rfl, rfl⟩
    have hend := hbegin.snoc (valid_of_inert hinert)
    simpa [events, Journal.began, ended, hres] using hend
  · have hres : (s.reactor.registerTimer deadline waker).1 = .ok s.reactor.nextResourceId := by
      rw [Reactor.registerTimer, heq]
    have hquiet := h.quiet_snoc (.registerTimer deadline waker none) (by simp) (by simp)
      (by simp)
    have hend := hbegin.snoc (valid_registerTimer hquiet waker hd)
    simpa [events, Journal.began, ended, hres] using hend

theorem Safe.call_registerIo (h : s.Recorded) (hsafe : Safe s.log) {interest : Interest}
    {osResult : Except IoError Unit} :
    Safe (s.log ++ events s.reactor (.registerIoResource interest osResult)
      ((s.reactor.registerIoResource interest osResult).2.log.drop s.reactor.log.length)) := by
  have hbegin := hsafe.began (.registerIoResource interest osResult)
  rcases Reactor.allocResourceId_cases s.reactor with heq | ⟨-, heq⟩
  · have hres : s.reactor.registerIoResource interest osResult =
        (.error .resourceIdOverflow, s.reactor) := by
      rw [Reactor.registerIoResource, heq]
    have hend := hbegin.snoc (valid_registerIoOverflow interest)
    simpa [events, Journal.began, ended, hres] using hend
  · have hres : (s.reactor.registerIoResource interest osResult).1 =
          osResult.map (fun _ => s.reactor.nextResourceId) ∧
        (s.reactor.registerIoResource interest osResult).2.log = s.reactor.log ++
          [.registerIoResource s.reactor.nextResourceId interest osResult] := by
      rw [Reactor.registerIoResource, heq]
      cases osResult <;> exact ⟨rfl, rfl⟩
    have hquiet := h.quiet_snoc (.registerIoResource interest none) (by simp) (by simp)
      (by simp)
    have hmid := hbegin.snoc (valid_syscallRegister hquiet interest osResult
      (.snoc_of_mem ⟨interest, rfl⟩))
    rw [List.append_assoc] at hmid
    have hend := hmid.snoc valid_registerIoEnd
    simpa [events, Journal.began, ended, hres] using hend

theorem Safe.call_deregisterIo (hsafe : Safe s.log) {osResult : Except IoError Unit} :
    Safe (s.log ++ events s.reactor (.deregisterIoResource rid osResult)
      ((s.reactor.deregisterIoResource rid osResult).2.log.drop s.reactor.log.length)) := by
  have hmid := (hsafe.began (.deregisterIoResource rid osResult)).snoc
    (valid_syscallDeregister osResult)
  rw [List.append_assoc] at hmid
  have hend := hmid.snoc valid_deregisterIoEnd
  simpa [events, Journal.began, ended, Reactor.deregisterIoResource, Reactor.emit] using hend

theorem Safe.call_setWaker (h : s.Recorded) (hsafe : Safe s.log) {interest : Interest}
    {waker : W} (hrid : Reactor.ioSlot s.reactor.resources rid ≠ none) :
    Safe (s.log ++ events s.reactor (.setWaker rid interest waker) []) := by
  have hquiet := h.quiet_snoc (.setWaker rid interest waker none) (by simp) (by simp)
    (by simp)
  have hend := (hsafe.began (.setWaker rid interest waker)).snoc
    (valid_setWaker hquiet interest waker hrid)
  simpa [events, Journal.began, ended] using hend

/-! ### Parks -/

variable {mid : List (ReactorEvent W)} {w : W} {timeout : Option UInt64} {raw : UInt64}
  {poll : Except IoError (List MioEvent)} {wakes : List (W × UInt64)}

/-- What has been registered by now has been registered before things that register nothing. -/
theorem exists_mem_of_since {p cut : ReactorEvent W → Prop}
    (hp : ∀ ev, p ev → ev.Mentions rid) (hmid : ∀ x ∈ mid, x.RegistersNothing)
    (h : Since p cut (log ++ mid)) : ∃ ev ∈ log, p ev := by
  rw [since_append_iff_of_not fun x hx hpx => (hmid x hx rid).1 (hp x hpx)] at h
  exact h.1.exists_mem

/-- A timer is woken that has not been woken in this park. -/
theorem valid_wakeTimer (h : s.Recorded) {e : TimerEntry}
    (hslot : Reactor.timerSlot s.reactor.resources rid = some (e, w))
    (hmid : ∀ x ∈ mid, x.RegistersNothing) (hretire : ∀ x ∈ mid, ¬ x.Retires rid) :
    Valid (s.log ++ mid) (.outbound (.wakeTask w rid)) := by
  have hsince : Since (Timer e.deadline w rid) (Retires rid) s.log :=
    (h.timers e.deadline w rid).mp ⟨e, hslot, rfl⟩
  obtain ⟨x, hx, htimer⟩ := hsince.exists_mem
  rintro i hacc -
  cases i with
  | timerWakerValidity =>
    rintro w' rid' heq
    cases heq
    refine ⟨e.deadline, ?_⟩
    rw [since_append_iff_of_not fun x hx hp => (hmid x hx rid).1 (.inl ⟨_, _, hp⟩)]
    exact ⟨hsince, hretire⟩
  | ioWakerValidity =>
    obtain ⟨-, w', rid', heq, hio⟩ := hacc
    cases heq
    exact absurd (exists_mem_of_since (fun ev hev => .inr (.inl hev)) hmid hio)
      (h.kinds rid ⟨x, hx, _, _, htimer⟩)
  | wakeHasRegistration =>
    rintro w' rid' heq
    cases heq
    exact ⟨x, List.mem_append_left _ hx, .inl ⟨_, _, htimer⟩⟩
  | _ => exact absurd hacc Bool.false_ne_true

/-- A waker of an I/O resource is called. -/
theorem valid_wakeIo (h : s.Recorded) (hsafe : Safe s.log) {mode : IoMode}
    (hslot : (Reactor.ioSlot s.reactor.resources rid).bind (· mode) = some w)
    (hmid : ∀ x ∈ mid, x.RegistersNothing) :
    Valid (s.log ++ mid) (.outbound (.wakeTask w rid)) := by
  have hne : Reactor.ioSlot s.reactor.resources rid ≠ none := by
    intro hnone
    rw [hnone] at hslot
    cases hslot
  obtain ⟨x, hx, hio⟩ := ((h.io rid).mp hne).exists_mem
  rintro i hacc -
  cases i with
  | timerWakerValidity =>
    obtain ⟨-, w', rid', heq, hsince⟩ := hacc
    cases heq
    exact absurd ⟨x, hx, hio⟩ (h.kinds rid
      (exists_mem_of_since (fun ev hev => .inl hev) hmid hsince))
  | ioWakerValidity =>
    rintro w' rid' heq
    cases heq
    obtain ⟨early, y, late, hlog, hset, -⟩ := (h.wakers rid mode w).mp hslot
    refine ⟨early, y, late ++ mid, mode, by simp [hlog], hset, ?_⟩
    obtain ⟨interest, -, rfl⟩ := hset
    exact hsafe .setWakerActiveIo early _ late hlog
      ⟨rfl, Invariant.not_outOfIds (i := .setWakerActiveIo) (by simp) rfl⟩ rid interest w rfl
  | wakeHasRegistration =>
    rintro w' rid' heq
    cases heq
    exact ⟨x, List.mem_append_left _ hx, .inr hio⟩
  | _ => exact absurd hacc Bool.false_ne_true

/-- An event is looked at, during the park that has been going on since it began. -/
theorem valid_ready {event : IoEvent} (hmid : ∀ x ∈ mid, ¬ x.BoundsPark) :
    Valid (log ++ .inbound (.park timeout none) :: mid) (.outbound (.ioEventReady event)) := by
  rintro i hacc -
  cases i with
  | ioReadyInPark => exact ⟨mid, log, timeout, rfl, hmid⟩
  | timerWakerValidity | ioWakerValidity => exact absurd hacc.1 Bool.false_ne_true
  | _ => exact absurd hacc Bool.false_ne_true

/-- A park ends. It has read the clock and polled once. -/
theorem valid_parkEnd {res : Except IoError Unit} {ts : UInt64}
    (hmid : ∀ x ∈ mid, ¬ x.BoundsPark) (hts : .outbound (.getCurrentTime ts) ∈ mid)
    (hpoll : mid.countP isPollEvents = 1) :
    Valid (log ++ .inbound (.park timeout none) :: mid)
      (.inbound (.park timeout (some res))) := by
  rintro i hacc -
  cases i with
  | parkHasTimestamp => exact ⟨mid, ⟨log, timeout, rfl, hmid⟩, ts, hts⟩
  | parkPollOnce => exact ⟨mid, ⟨log, timeout, rfl, hmid⟩, hpoll⟩
  | timerWakerValidity | ioWakerValidity => exact absurd hacc.1 Bool.false_ne_true
  | _ => exact absurd hacc Bool.false_ne_true

/-- What a park logs before it wakes timers. -/
def parkHead (r : Reactor W) (timeout : Option UInt64) (raw : UInt64) : List (ReactorEvent W) :=
  [.outbound (.getCurrentTime (r.getCurrentTime raw).1), .outbound (.pollEvents
    (Reactor.effectiveTimeout timeout r.nextDeadline (r.getCurrentTime raw).1))]

/-- The timers that it wakes, each with its waker. -/
def parkTimers (wakes : List (W × UInt64)) : List (ReactorEvent W) :=
  wakes.map fun x => .outbound (.wakeTask x.1 x.2)

/-- The events that it goes through, each followed by the wake that it leads to. -/
def parkReady (r : Reactor W) (poll : Except IoError (List MioEvent)) : List (ReactorEvent W) :=
  (Reactor.pollCalls (Reactor.ioSlot r.resources) poll).map .outbound

/-- The events of a park, stage by stage. -/
theorem parkEvents_eq (r : Reactor W) (timeout : Option UInt64) (raw : UInt64)
    (poll : Except IoError (List MioEvent)) (wakes : List (W × UInt64)) :
    parkEvents r timeout raw poll wakes = .inbound (.park timeout none) ::
      (parkHead r timeout raw ++ parkTimers wakes ++ parkReady r poll) ++
      [.inbound (.park timeout (some (poll.map fun _ => ())))] := by
  simp [parkEvents, parkHead, parkTimers, parkReady]

/-- Whatever happens during a park registers nothing. -/
theorem registersNothing_of_mem_stages (hev : ev ∈ .inbound (.park timeout none) ::
    (parkHead r timeout raw ++ parkTimers wakes ++ parkReady r poll)) : ev.RegistersNothing := by
  have hmem : ev ∈ parkEvents r timeout raw poll wakes := by
    rw [parkEvents_eq]
    exact List.mem_append_left _ hev
  exact registersNothing_of_mem_parkEvents hmem

theorem not_boundsPark_of_mem_stages
    (hev : ev ∈ parkHead r timeout raw ++ parkTimers wakes ++ parkReady r poll) :
    ¬ ev.BoundsPark := by
  rintro ⟨t, res, rfl⟩
  simp [parkHead, parkTimers, parkReady] at hev

/-- The call of a waker for an event. -/
theorem exists_mode_of_mem_pollCalls {wakers : UInt64 → Option (IoMode → Option W)}
    (h : .wakeTask w rid ∈ Reactor.pollCalls wakers poll) :
    ∃ mode, (wakers rid).bind (· mode) = some w := by
  cases poll with
  | error e => cases h
  | ok events =>
    obtain ⟨event, -, hcall⟩ := List.mem_flatMap.mp h
    rcases List.mem_cons.mp hcall with heq | hcall
    · cases heq
    · obtain ⟨w', hw, heq⟩ := Option.map_eq_some_iff.mp (Option.mem_toList.mp hcall)
      cases heq
      exact ⟨event.mode, hw⟩

/-- A park begins, reads the clock, and polls. -/
theorem Safe.park_head (h : Safe log) (r : Reactor W) (timeout : Option UInt64) (raw : UInt64) :
    Safe (log ++ .inbound (.park timeout none) :: parkHead r timeout raw) := by
  have hbegin : Safe (log ++ [.inbound (.park timeout none)]) :=
    h.began (.park timeout raw (.ok []))
  rw [List.append_cons]
  refine hbegin.append fun before ev after heq => valid_of_inert ?_
  have hev : ev ∈ parkHead r timeout raw := by simp [heq]
  rcases List.mem_cons.mp hev with rfl | hev
  · exact ⟨rfl, rfl, rfl, rfl, rfl, rfl, rfl, rfl, rfl, rfl⟩
  · obtain rfl := List.mem_singleton.mp hev
    exact ⟨rfl, rfl, rfl, rfl, rfl, rfl, rfl, rfl, rfl, rfl⟩

/-- Then it wakes timers, each of them once. -/
theorem Safe.park_timers (h : s.Recorded)
    (hsafe : Safe (s.log ++ .inbound (.park timeout none) :: parkHead r timeout raw))
    (hnodup : (wakes.map Prod.snd).Nodup)
    (hdue : ∀ w rid, (w, rid) ∈ wakes →
      ∃ e, Reactor.timerSlot s.reactor.resources rid = some (e, w)) :
    Safe (s.log ++
      .inbound (.park timeout none) :: (parkHead r timeout raw ++ parkTimers wakes)) := by
  rw [← List.cons_append, ← List.append_assoc]
  refine hsafe.append fun before ev after heq => ?_
  obtain ⟨early, late, hwakes, rfl, hlate⟩ := List.map_eq_append_iff.mp heq
  obtain ⟨⟨w, rid⟩, late, rfl, rfl, -⟩ := List.map_eq_cons_iff.mp hlate
  obtain ⟨e, hslot⟩ := hdue w rid (by simp [hwakes])
  rw [List.append_assoc, List.cons_append]
  refine valid_wakeTimer h hslot (fun x hx => ?_) fun x hx => ?_
  · have hmem : x ∈ .inbound (.park timeout none) ::
        (parkHead r timeout raw ++ parkTimers early ++ parkReady r (.ok [])) := by
      rw [← List.cons_append]
      exact List.mem_append_left _ hx
    exact registersNothing_of_mem_stages hmem
  · rintro (rfl | ⟨w', rfl⟩)
    · simp [parkHead] at hx
    · -- the wake of this timer stands once in the list
      have hmem : (w', rid) ∈ early := by simpa [parkHead] using hx
      rw [hwakes, List.map_append, List.nodup_append] at hnodup
      exact hnodup.2.2 rid (List.mem_map.mpr ⟨_, hmem, rfl⟩) rid (by simp) rfl

/-- Then it goes through the events, and wakes for those whose waker is set. -/
theorem Safe.park_ready (h : s.Recorded) (hlog : Safe s.log)
    (hsafe : Safe (s.log ++
      .inbound (.park timeout none) :: (parkHead s.reactor timeout raw ++ parkTimers wakes))) :
    Safe (s.log ++ .inbound (.park timeout none) ::
      (parkHead s.reactor timeout raw ++ parkTimers wakes ++ parkReady s.reactor poll)) := by
  rw [← List.cons_append, ← List.append_assoc]
  refine hsafe.append fun before ev after heq => ?_
  have hbefore : ∀ x ∈ parkHead s.reactor timeout raw ++ parkTimers wakes ++ before,
      x ∈ parkHead s.reactor timeout raw ++ parkTimers wakes ++ parkReady s.reactor poll := by
    intro x hx
    refine List.mem_append.mpr ((List.mem_append.mp hx).imp_right fun hx => ?_)
    rw [heq]
    exact List.mem_append_left _ hx
  have hev : ev ∈ parkReady s.reactor poll := by simp [heq]
  obtain ⟨c, hc, rfl⟩ := List.mem_map.mp hev
  rw [List.append_assoc, List.cons_append]
  rcases mem_pollCalls hc with ⟨event, rfl⟩ | ⟨w, rid, rfl⟩
  · exact valid_ready fun x hx => not_boundsPark_of_mem_stages (hbefore x hx)
  · obtain ⟨mode, hslot⟩ := exists_mode_of_mem_pollCalls hc
    refine valid_wakeIo h hlog hslot fun x hx => ?_
    have hmem : x ∈ .inbound (.park timeout none) :: (parkHead s.reactor timeout raw ++
        parkTimers wakes ++ parkReady s.reactor poll) :=
      List.mem_cons.mpr ((List.mem_cons.mp hx).imp_right (hbefore x))
    exact registersNothing_of_mem_stages hmem

/-- The operating system is polled once, in the first stage of a park. -/
theorem countP_isPollEvents (r : Reactor W) (timeout : Option UInt64) (raw : UInt64)
    (poll : Except IoError (List MioEvent)) (wakes : List (W × UInt64)) :
    (parkHead r timeout raw ++ parkTimers wakes ++ parkReady r poll).countP isPollEvents = 1 := by
  have hpoll : (parkTimers wakes ++ parkReady r poll).countP isPollEvents = 0 := by
    rw [List.countP_eq_zero]
    intro x hx
    rcases List.mem_append.mp hx with hx | hx
    · obtain ⟨y, -, rfl⟩ := List.mem_map.mp hx
      exact Bool.false_ne_true
    · obtain ⟨c, hc, rfl⟩ := List.mem_map.mp hx
      rcases mem_pollCalls hc with ⟨event, rfl⟩ | ⟨w, rid, rfl⟩
      · exact Bool.false_ne_true
      · exact Bool.false_ne_true
  rw [List.append_assoc, List.countP_append, hpoll]
  rfl

/-- **A park** is logged as the properties say. -/
theorem Safe.call_park (h : s.Recorded) (hsafe : Safe s.log)
    (hnodup : (wakes.map Prod.snd).Nodup)
    (hdue : ∀ w rid, (w, rid) ∈ wakes →
      ∃ e, Reactor.timerSlot s.reactor.resources rid = some (e, w)) :
    Safe (s.log ++ parkEvents s.reactor timeout raw poll wakes) := by
  have hread := hsafe.park_head s.reactor timeout raw
  have hwoken := hread.park_timers h hnodup hdue
  have hlooked : Safe (s.log ++ .inbound (.park timeout none) :: (parkHead s.reactor timeout raw ++
      parkTimers wakes ++ parkReady s.reactor poll)) :=
    Safe.park_ready h hsafe hwoken
  have hts : .outbound (.getCurrentTime (s.reactor.getCurrentTime raw).1) ∈
      parkHead s.reactor timeout raw ++ parkTimers wakes ++ parkReady s.reactor poll := by
    simp [parkHead]
  rw [parkEvents_eq, ← List.append_assoc]
  exact hlooked.snoc (valid_parkEnd (fun x hx => not_boundsPark_of_mem_stages hx) hts
    (countP_isPollEvents _ _ _ _ _))

/-! ### Looking ahead -/

/-- The clock is read, or an event is looked at. -/
def Triggers (ev : ReactorEvent W) : Prop :=
  (∃ ts, ev = .outbound (.getCurrentTime ts)) ∨ ∃ event, ev = .outbound (.ioEventReady event)

/-- Only a park reads the clock, or looks at events. -/
theorem not_triggers_of_not_park {r' : Reactor W}
    (hop : ∀ timeout raw poll, op ≠ .park timeout raw poll) (hcall : r.call op = some r')
    (hev : ev ∈ events r op (r'.log.drop r.log.length)) : ¬ Triggers ev := by
  suffices ∀ c ∈ r'.log.drop r.log.length, ¬ Triggers (.outbound c) by
    rcases List.mem_cons.mp hev with rfl | hev
    · simp [Triggers]
    · rcases List.mem_append.mp hev with hev | hev
      · obtain ⟨c, hc, rfl⟩ := List.mem_map.mp hev
        exact this c hc
      · obtain ⟨c, -, rfl⟩ := Option.map_eq_some_iff.mp (Option.mem_toList.mp hev)
        simp [Triggers]
  cases op with
  | registerTimer deadline waker =>
    cases hcall
    rw [Reactor.registerTimer]
    rcases Reactor.allocResourceId_cases r with heq | ⟨-, heq⟩
    · simp [heq]
    · simp [heq]
  | deregisterTimer rid =>
    cases hcall
    simp [Reactor.deregisterTimer]
  | registerIoResource interest osResult =>
    cases hcall
    rw [Reactor.registerIoResource]
    rcases Reactor.allocResourceId_cases r with heq | ⟨-, heq⟩
    · simp [heq]
    · cases osResult <;> simp [heq, Reactor.emit, Triggers]
  | deregisterIoResource rid osResult =>
    cases hcall
    simp [Reactor.deregisterIoResource, Reactor.emit, Triggers]
  | setWaker rid interest waker =>
    obtain ⟨resources, rfl, -⟩ := Reactor.ioSlot_setWaker hcall
    simp
  | park timeout raw poll => exact absurd rfl (hop timeout raw poll)

/-- **Timers.** A park wakes what is due at the instant that it reads. -/
theorem satisfied_wakeOnExpired_park (h : s.Recorded) {deadline : UInt64} {waker : W}
    (hdue : ∀ w rid, s.reactor.DueTimer (s.reactor.getCurrentTime raw).1 w rid →
      (w, rid) ∈ wakes)
    (hlive : (wakeOnExpired deadline waker rid).Satisfied s.log) :
    (wakeOnExpired deadline waker rid).Satisfied
      (s.log ++ parkEvents s.reactor timeout raw poll wakes) := by
  refine hlive.append fun before ev after heq hacc => ?_
  obtain ⟨⟨ts, rfl, hts⟩, hsince⟩ := hacc
  rw [parkEvents] at heq
  cases before with
  | nil => cases heq
  | cons b before =>
    cases before with
    | nil =>
      -- the reading of the clock: the timers that are due are woken next
      simp only [List.cons_append, List.nil_append, List.cons.injEq, ReactorEvent.outbound.injEq,
        OutboundCall.getCurrentTime.injEq] at heq
      obtain ⟨rfl, rfl, rfl⟩ := heq
      rw [since_append_iff_of_not (by simp [Timer])] at hsince
      obtain ⟨e, hslot, rfl⟩ := (h.timers deadline waker rid).mpr hsince.1
      obtain ⟨early, late, rfl⟩ := List.append_of_mem (hdue waker rid ⟨e, hslot, hts⟩)
      refine ⟨.outbound (.pollEvents (Reactor.effectiveTimeout timeout s.reactor.nextDeadline
          (s.reactor.getCurrentTime raw).1)) :: early.map fun x => .outbound (.wakeTask x.1 x.2),
        .outbound (.wakeTask waker rid), late.map (fun x => .outbound (.wakeTask x.1 x.2)) ++
          ((Reactor.pollCalls (Reactor.ioSlot s.reactor.resources) poll).map .outbound ++
            [.inbound (.park timeout (some (poll.map fun _ => ())))]), by simp, rfl, fun y hy => ?_⟩
      rcases List.mem_cons.mp hy with rfl | hy
      · exact Bool.false_ne_true
      · obtain ⟨x, -, rfl⟩ := List.mem_map.mp hy
        exact Bool.false_ne_true
    | cons c bs =>
      -- the clock is not read again
      simp only [List.cons_append, List.cons.injEq] at heq
      have hmem : (.outbound (.getCurrentTime ts) : ReactorEvent W) ∈
          bs ++ .outbound (.getCurrentTime ts) :: after := by simp
      rw [← heq.2.2] at hmem
      have hcall : .getCurrentTime ts ∈
          Reactor.pollCalls (Reactor.ioSlot s.reactor.resources) poll := by simpa using hmem
      rcases mem_pollCalls hcall with ⟨event, heq⟩ | ⟨w, k, heq⟩
      · cases heq
      · cases heq

/-- A batch of events, seen from one of the calls that tells of an event. -/
theorem exists_split_of_flatMap {wakers : UInt64 → Option (IoMode → Option W)}
    {events : List IoEvent} {before after : List (OutboundCall W)} {event : IoEvent}
    (h : events.flatMap (Reactor.eventCalls wakers) = before ++ .ioEventReady event :: after) :
    ∃ rest, after = (((wakers event.resourceId).bind (· event.mode)).map fun waker =>
      .wakeTask waker event.resourceId).toList ++ rest := by
  induction events generalizing before with
  | nil => simp at h
  | cons e events ih =>
    rw [List.flatMap_cons, Reactor.eventCalls, List.cons_append] at h
    cases before with
    | nil =>
      rw [List.nil_append, List.cons.injEq] at h
      obtain ⟨heq, rfl⟩ := h
      cases heq
      exact ⟨_, rfl⟩
    | cons b before =>
      rw [List.cons_append, List.cons.injEq] at h
      cases hw : (wakers e.resourceId).bind (· e.mode) with
      | none =>
        rw [hw] at h
        exact ih h.2
      | some w =>
        rw [hw] at h
        cases before with
        | nil => simp at h
        | cons c before =>
          simp only [Option.map_some, Option.toList_some, List.cons_append, List.nil_append,
            List.cons.injEq] at h
          exact ih h.2.2

theorem exists_split_right {α : Type} {l₁ l₂ before after : List α} {a : α}
    (h : l₁ ++ l₂ = before ++ a :: after) (ha : a ∉ l₁) : ∃ mid, l₂ = mid ++ a :: after := by
  rcases List.append_eq_append_iff.mp h with ⟨as, -, heq⟩ | ⟨bs, rfl, heq⟩
  · exact ⟨as, heq⟩
  · cases bs with
    | nil => exact ⟨[], heq.symm⟩
    | cons b bs =>
      rw [List.cons_append, List.cons.injEq] at heq
      exact absurd (List.mem_append_right _ (heq.1 ▸ List.mem_cons_self)) ha

theorem exists_split_left {α : Type} {l₁ l₂ before after : List α} {a : α}
    (h : l₁ ++ l₂ = before ++ a :: after) (ha : a ∉ l₂) :
    ∃ rest, l₁ = before ++ a :: rest ∧ after = rest ++ l₂ := by
  rcases List.append_eq_append_iff.mp h with ⟨as, -, heq⟩ | ⟨bs, rfl, heq⟩
  · exact absurd (heq ▸ by simp) ha
  · cases bs with
    | nil =>
      rw [List.nil_append] at heq
      exact absurd (heq ▸ List.mem_cons_self) ha
    | cons b bs =>
      rw [List.cons_append, List.cons.injEq] at heq
      obtain ⟨rfl, rfl⟩ := heq
      exact ⟨bs, rfl, rfl⟩

/-- **I/O.** A park calls, right after it has looked at an event, the waker that is set for it. -/
theorem satisfied_wakeOnIoReady_park (h : s.Recorded) {mode : IoMode} {waker : W}
    (hlive : (wakeOnIoReady mode rid waker).Satisfied s.log) :
    (wakeOnIoReady mode rid waker).Satisfied
      (s.log ++ parkEvents s.reactor timeout raw poll wakes) := by
  refine hlive.append fun before ev after heq hacc => ?_
  obtain ⟨⟨event, rfl, rfl, rfl⟩, hsince⟩ := hacc
  have hbefore : ∀ x ∈ before, x.RegistersNothing := fun x hx =>
    registersNothing_of_mem_parkEvents (by rw [heq]; exact List.mem_append_left _ hx)
  rw [since_append_iff_of_not fun x hx hp =>
    (hbefore x hx event.resourceId).1 (.inr (.inr ⟨_, _, hp⟩))] at hsince
  have hslot := (h.wakers event.resourceId event.mode waker).mpr hsince.1
  rw [parkEvents_eq] at heq
  obtain ⟨front, hfront, rfl⟩ := exists_split_left heq (by simp)
  rw [← List.cons_append] at hfront
  obtain ⟨mid, hmid⟩ := exists_split_right hfront (by simp [parkHead, parkTimers])
  obtain ⟨calls, tail, hcalls, -, htail⟩ := List.map_eq_append_iff.mp hmid
  obtain ⟨c, late, rfl, hc, rfl⟩ := List.map_eq_cons_iff.mp htail
  cases hc
  obtain ⟨rest, rfl⟩ : ∃ rest, late = .wakeTask waker event.resourceId :: rest := by
    cases poll with
    | error e => simp [Reactor.pollCalls] at hcalls
    | ok events =>
      obtain ⟨rest, hrest⟩ := exists_split_of_flatMap hcalls
      rw [hslot] at hrest
      exact ⟨rest, hrest⟩
  exact ⟨[], _, _, rfl, rfl, by simp⟩

/-! ### Every run -/

/-- What a call adds to the log is as the properties say. -/
theorem step_specification (h : s.Recorded) (hsafe : Safe s.log)
    (htimer : ∀ d w rid, (wakeOnExpired d w rid).Satisfied s.log)
    (hio : ∀ mode rid w, (wakeOnIoReady mode rid w).Satisfied s.log)
    (hstep : (machine W).step s op s') :
    Safe s'.log ∧ (∀ d w rid, (wakeOnExpired d w rid).Satisfied s'.log) ∧
      ∀ mode rid w, (wakeOnIoReady mode rid w).Satisfied s'.log := by
  obtain ⟨hreq, hcall, hlog⟩ := hstep
  rw [hlog]
  by_cases hop : ∃ timeout raw poll, op = .park timeout raw poll
  · obtain ⟨timeout, raw, poll, rfl⟩ := hop
    obtain ⟨wakes, hnodup, hmem, -, -, -, hevents⟩ := events_park h.consistent hcall
    rw [hevents]
    refine ⟨hsafe.call_park h hnodup fun w rid hw => ?_,
      fun d w rid => satisfied_wakeOnExpired_park h (fun w rid => (hmem w rid).mpr)
        (htimer d w rid), fun mode rid w => satisfied_wakeOnIoReady_park h (hio mode rid w)⟩
    obtain ⟨e, hslot, -⟩ := (hmem w rid).mp hw
    exact ⟨e, hslot⟩
  · have hquiet : ∀ ev ∈ events s.reactor op (s'.reactor.log.drop s.reactor.log.length),
        ¬ Triggers ev := fun ev => not_triggers_of_not_park (fun _ _ _ heq => hop ⟨_, _, _, heq⟩)
      hcall
    refine ⟨?_, fun d w rid => (htimer d w rid).append fun before ev _ heq hacc =>
        absurd (.inl (hacc.1.imp fun _ => And.left)) (hquiet ev (by simp [heq])),
      fun mode rid w => (hio mode rid w).append fun before ev _ heq hacc =>
        absurd (.inr (hacc.1.imp fun _ => And.left)) (hquiet ev (by simp [heq]))⟩
    obtain ⟨r', log⟩ := s'
    dsimp only at hcall ⊢
    cases op with
    | registerTimer deadline waker =>
      have hsame : r'.log = s.reactor.log := by
        cases hcall
        rw [Reactor.registerTimer]
        rcases Reactor.allocResourceId_cases s.reactor with heq | ⟨-, heq⟩ <;> rw [heq]
      rw [hsame, List.drop_length]
      exact hsafe.call_registerTimer h hreq
    | deregisterTimer rid =>
      cases hcall
      simpa [events, ended, Reactor.deregisterTimer] using hsafe.began (.deregisterTimer rid)
    | registerIoResource interest osResult =>
      cases hcall
      exact hsafe.call_registerIo h
    | deregisterIoResource rid osResult =>
      cases hcall
      exact hsafe.call_deregisterIo
    | setWaker rid interest waker =>
      obtain ⟨resources, rfl, -⟩ := Reactor.ioSlot_setWaker hcall
      rw [List.drop_length]
      exact hsafe.call_setWaker h hreq
    | park timeout raw poll => exact absurd ⟨_, _, _, rfl⟩ hop

/-- **The specification of the reactor.** Whatever its callers do that they may do, and whatever
clock and operating system say, in every log:

* fifteen of the sixteen properties that look back hold;
* the sixteenth, that the end of a registration matches an outbound call made since it began, holds
  of every end but those of registrations that found no id left, and fails of each of these;
* a timer that is due when the clock is read is woken before the park ends;
* an event calls the waker that was set last for its resource and direction. -/
theorem reachable_reactorSpec (h : (machine W).Reachable s) :
    (∀ i : Invariant, i ≠ .inboundRegisterIoResult → i.spec.Satisfied s.log) ∧
      (∀ before ev after, s.log = before ++ ev :: after →
        inboundRegisterIoResult.acceptance before ev →
        (inboundRegisterIoResult.validity before ev ↔ ¬ OutOfIds before ev)) ∧
      (∀ deadline waker rid, (wakeOnExpired deadline waker rid).Satisfied s.log) ∧
      ∀ mode rid waker, (wakeOnIoReady mode rid waker).Satisfied s.log := by
  suffices (machine W).Reachable s ∧ Safe s.log ∧
      (∀ d w rid, (wakeOnExpired d w rid).Satisfied s.log) ∧
      ∀ mode rid w, (wakeOnIoReady mode rid w).Satisfied s.log by
    obtain ⟨-, hsafe, htimer, hio⟩ := this
    refine ⟨fun i hi => (hsafe i).of_except fun before ev => Invariant.not_outOfIds hi,
      fun before ev after heq hacc => ⟨fun hvalid hids => not_validity_of_outOfIds hids hvalid,
        fun hids => hsafe .inboundRegisterIoResult before ev after heq ⟨hacc, hids⟩⟩, htimer, hio⟩
  refine h.invariant (I := fun s => (machine W).Reachable s ∧ Safe s.log ∧
      (∀ d w rid, (wakeOnExpired d w rid).Satisfied s.log) ∧
      ∀ mode rid w, (wakeOnIoReady mode rid w).Satisfied s.log) ?_ ?_
  · rintro s rfl
    exact ⟨.of_init rfl, fun _ => ActionSafety.satisfied_nil,
      fun _ _ _ => LocalLiveness.satisfied_nil, fun _ _ _ => LocalLiveness.satisfied_nil⟩
  · rintro s op s' ⟨hs, hsafe, htimer, hio⟩ hstep
    exact ⟨hs.step hstep,
      step_specification (recorded_of_reachable hs) hsafe htimer hio hstep⟩

/-- A timer for instant 5, and a park at instant 7 that wakes it. -/
theorem reachable_reactorSpec_dueTimer : ∃ s : Journal ℕ,
    .outbound (.wakeTask 42 1) ∈ s.log ∧
      (∀ i : Invariant, i ≠ .inboundRegisterIoResult → i.spec.Satisfied s.log) ∧
      (∀ before ev after, s.log = before ++ ev :: after →
        inboundRegisterIoResult.acceptance before ev →
        (inboundRegisterIoResult.validity before ev ↔ ¬ OutOfIds before ev)) ∧
      (∀ deadline waker rid, (wakeOnExpired deadline waker rid).Satisfied s.log) ∧
      ∀ mode rid waker, (wakeOnIoReady mode rid waker).Satisfied s.log := by
  obtain ⟨s, hs⟩ : ∃ s : Journal ℕ, s = ⟨((Reactor.new : Reactor ℕ).registerTimer 5 42).2,
    events .new (.registerTimer 5 42) []⟩ := ⟨_, rfl⟩
  have hreach : (machine ℕ).Reachable s := by
    refine (Machine.Reachable.of_init (s := ⟨.new, []⟩) rfl).step (a := .registerTimer 5 42) ?_
    rw [hs]
    exact ⟨show (0 : UInt64) < 5 by decide, rfl, rfl⟩
  have hcons := (recorded_of_reachable hreach).consistent
  obtain ⟨-, -, r', hpark, -⟩ := Reactor.park_spec hcons none 7 (.ok [])
  have hcall : s.reactor.call (.park none 7 (.ok [])) = some r' :=
    congrArg (Option.map Prod.snd) hpark
  obtain ⟨wakes, -, hmem, -, -, -, hevents⟩ := events_park hcons hcall
  have hdue : (42, 1) ∈ wakes := (hmem 42 1).mpr (by rw [hs]; exact ⟨⟨5, 1⟩, rfl, by decide⟩)
  have hlater := hreach.step (step_call (.park none 7 (.ok [])) trivial hcall)
  refine ⟨_, ?_, reachable_reactorSpec hlater⟩
  rw [hevents]
  exact List.mem_append_right _ (wakeTask_mem_parkEvents hdue)

/-! ### Running out of ids -/

/-- Ids are used up by registrations that the operating system refuses, so a reactor can get as far
as it likes with them and have nothing registered. -/
theorem exists_reachable_next (n : ℕ) (hn : n + 1 < UInt64.size) : ∃ s : Journal W,
    (machine W).Reachable s ∧ s.reactor.nextResourceId.toNat = n + 1 := by
  induction n with
  | zero => exact ⟨⟨.new, []⟩, .of_init rfl, rfl⟩
  | succ n ih =>
    obtain ⟨s, hs, hnext⟩ := ih (by omega)
    have hlt : ¬ 0xFFFFFFFFFFFFFFFF ≤ s.reactor.nextResourceId := by
      rw [UInt64.le_iff_toNat_le, hnext]
      show ¬ 0xFFFFFFFFFFFFFFFF ≤ n + 1
      simp only [UInt64.size] at hn
      omega
    have hcall : (s.reactor.registerIoResource ⟨true, false⟩ (.error (.os 0))).2.nextResourceId =
        s.reactor.nextResourceId + 1 := by
      rw [Reactor.registerIoResource, Reactor.allocResourceId, if_neg hlt]
      rfl
    refine ⟨_, hs.step (step_call (.registerIoResource ⟨true, false⟩ (.error (.os 0))) trivial rfl),
      ?_⟩
    dsimp only
    rw [hcall, UInt64.toNat_add, hnext]
    exact Nat.mod_eq_of_lt hn

/-- **Where the log is not as its specification says.** With the last id handed out, a registration
with the operating system ends with an error and has made no outbound call, though
`inbound_register_io_result` asks for one of every end. -/
theorem exists_not_inboundRegisterIoResult : ∃ s : Journal W, (machine W).Reachable s ∧
    ¬ inboundRegisterIoResult.Satisfied s.log := by
  obtain ⟨s, hs, hnext⟩ := exists_reachable_next (W := W) (UInt64.size - 2) (by decide)
  have hfull : s.reactor.nextResourceId = 0xFFFFFFFFFFFFFFFF := UInt64.toNat_inj.mp hnext
  have hres : s.reactor.registerIoResource ⟨true, false⟩ (.ok ()) =
      (.error .resourceIdOverflow, s.reactor) := by
    rw [Reactor.registerIoResource, Reactor.allocResourceId, hfull]
    rfl
  have hcall : s.reactor.call (.registerIoResource ⟨true, false⟩ (.ok ())) = some s.reactor := by
    rw [Reactor.call, hres]
  refine ⟨_, hs.step (step_call (.registerIoResource ⟨true, false⟩ (.ok ())) trivial hcall),
    fun hsat => ?_⟩
  have hout : OutOfIds (s.log ++ [.inbound (.registerIoResource ⟨true, false⟩ none)])
      (.inbound (.registerIoResource ⟨true, false⟩ (some (.error .resourceIdOverflow)))) :=
    ⟨_, _, rfl, rfl⟩
  refine not_validity_of_outOfIds hout (hsat _ _ [] ?_ rfl)
  simp [events, Journal.began, ended, hres]

end Journal

end Lion
