import Lion.Time.Rearming
import Mathlib.Logic.Function.Basic

/-!
# Sleeps on several threads

`Sleep` is `Send`, and every thread has a reactor of its own, which numbers its resources from one.
A `Sleep` keeps the number of its timer only. Whatever it does, it does to the reactor of the thread
it is on at the time; so if it has come from another thread, the number may be that of something
else.

Here futures are made, polled, reset and dropped on any thread, in any order, while the threads park
and register I/O resources.

## When a future is at home

Nothing goes wrong by a future being on another thread as such. It may complete there, and if its
number is not in use there, deregistering it does nothing. The exact condition is about the number:
the future is about to deregister one, and on the thread that it is on it is that of an I/O resource
or of another future's timer (`AtHome` says that it is not). A poll deregisters before the deadline
only, so that a future that is past its deadline is safe to poll anywhere (`PollsAtHome`).

`Isolated` is what a step should do, spare what belongs to others, and `Home` is the condition, on
the state before the step. They are the same in states in which every thread is in order
(`Sound.step`), which is what steps of futures at home lead to. So the runs whose steps all meet the
one are those whose steps all meet the other.

## Conventions

A thread keeps a record of which future has registered a timer, until the future deregisters it
there. The record is not in the source, and nothing depends on it. A timer whose deregistration is
put off is nobody's: the next registration on the thread takes it over or removes it, whoever makes
it.

## Main results

* `Threads.isolated_run_iff` — a future never touches what is not its own, as long as the number it
  deregisters is not that of something else
* `Threads.not_isolated` — a run in which it is
-/

namespace Lion

/-- A thread, as far as sleeps are concerned: its reactor, and whose the timers there are. -/
structure Thread (W : Type*) where
  reactor : Reactor W
  /-- The future that has registered a timer here and has not deregistered it. -/
  owner : UInt64 → Option ℕ

namespace Thread

variable {W : Type*}

/-- Future number `i` no longer owns `rid`, if it did. Nobody else's timer changes hands. -/
def cede (owner : UInt64 → Option ℕ) (i : ℕ) (rid : Option UInt64) : UInt64 → Option ℕ :=
  fun k => if rid = some k ∧ owner k = some i then none else owner k

/-- Future number `i` owns `rid`, which it has just registered. -/
def take (owner : UInt64 → Option ℕ) (i : ℕ) (rid : Option UInt64) : UInt64 → Option ℕ :=
  fun k => if rid = some k then some i else owner k

/-- `Sleep::poll` of future number `i` on this thread. A poll that finds the deadline passed
deregisters nothing. -/
def poll (th : Thread W) (i : ℕ) (k : SleepKernel) (waker : W) (raw : UInt64) :
    Option SleepKernel × Thread W :=
  let (action, kernel, reactor) := Sleep.poll k th.reactor waker raw
  let owner :=
    if action = .complete then th.owner else take (cede th.owner i k.rid) i kernel.rid
  (some kernel, ⟨reactor, owner⟩)

/-- `Sleep::reset` of future number `i` on this thread, whichever thread its timer is on. -/
def reset (th : Thread W) (i : ℕ) (k : SleepKernel) (deadline : UInt64) :
    Option SleepKernel × Thread W :=
  let (kernel, reactor) := Sleep.reset k th.reactor deadline
  (some kernel, ⟨reactor, cede th.owner i k.rid⟩)

/-- `Sleep::drop` of future number `i` on this thread, which is gone then. -/
def drop (th : Thread W) (i : ℕ) (k : SleepKernel) : Option SleepKernel × Thread W :=
  let (_, reactor) := Sleep.drop k th.reactor
  (none, ⟨reactor, cede th.owner i k.rid⟩)

/-- The thread parks, after it has made up for the deregistration that was put off. -/
def park (th : Thread W) (timeout : Option UInt64) (raw : UInt64)
    (poll : Except IoError (List MioEvent)) : Option (Thread W) :=
  (th.reactor.flushPendingDeregister.park timeout raw poll).map fun p =>
    { th with reactor := p.2 }

/-- An operation on I/O resources of this thread's reactor. -/
def io (th : Thread W) (op : Reactor.Op W) : Option (Thread W) :=
  if Sleepers.permitsIo th.reactor op then
    (th.reactor.call op).map fun reactor => { th with reactor }
  else none

end Thread

/-- Threads, and the futures that move between them. A future is on no thread in particular. -/
structure Threads (T W : Type*) where
  thread : T → Thread W
  sleeps : Arena SleepKernel

namespace Threads

variable {T W : Type*}

/-- What happens, and on which thread: `Sleep::new`, `Sleep::poll`, `Sleep::reset` and
`Sleep::drop`, parks, and operations on I/O resources. -/
inductive Label (T W : Type*)
  | new (deadline : UInt64)
  /-- `Sleep::poll`, with the reading of the clock at that time. -/
  | poll (t : T) (i : ℕ) (waker : W) (raw : UInt64)
  | reset (t : T) (i : ℕ) (deadline : UInt64)
  | drop (t : T) (i : ℕ)
  | park (t : T) (timeout : Option UInt64) (raw : UInt64) (poll : Except IoError (List MioEvent))
  | io (t : T) (op : Reactor.Op W)

/-- The future that is polled, reset or dropped by a step, if one is. -/
def Label.sleep : Label T W → Option ℕ
  | .new _ => none
  | .poll _ i _ _ => some i
  | .reset _ i _ => some i
  | .drop _ i => some i
  | .park _ _ _ _ => none
  | .io _ _ => none

variable [DecidableEq T]

/-- Put a thread in place, and leave the others and the futures alone. -/
def set (s : Threads T W) (t : T) (th : Thread W) : Threads T W :=
  { s with thread := Function.update s.thread t th }

/-- Future number `i`, if there is one, does something on thread `t`. -/
def act (s : Threads T W) (t : T) (i : ℕ)
    (op : Thread W → ℕ → SleepKernel → Option SleepKernel × Thread W) : Option (Threads T W) :=
  (s.sleeps.get i).map fun k =>
    let (kernel, th) := op (s.thread t) i k
    { s.set t th with sleeps := s.sleeps.put i kernel }

/-- One operation. `none`: it panics, or there is nothing to call it on. -/
def step (s : Threads T W) : Label T W → Option (Threads T W)
  | .new deadline => some { s with sleeps := s.sleeps.add (.new deadline) }
  | .poll t i waker raw => s.act t i fun th i k => th.poll i k waker raw
  | .reset t i deadline => s.act t i fun th i k => th.reset i k deadline
  | .drop t i => s.act t i Thread.drop
  | .park t timeout raw poll => ((s.thread t).park timeout raw poll).map (s.set t)
  | .io t op => ((s.thread t).io op).map (s.set t)

/-- New reactors, on threads that may have a clock from before. -/
def new (cachedNow : T → Option UInt64) : Threads T W :=
  ⟨fun t => ⟨{ Reactor.new with cachedNow := cachedNow t }, fun _ => none⟩, .empty⟩

/-- Threads as a machine, each with a new reactor, and no futures yet. -/
def machine : Machine (Threads T W) (Label T W) :=
  Machine.ofStep (fun s => ∃ cachedNow, s = new cachedNow) step

end Threads

/-! ### What belongs to others -/

namespace Thread

variable {W : Type*}

/-- There is a resource `rid` on this thread, either an I/O resource or another future's timer. -/
def Foreign (th : Thread W) (i : ℕ) (rid : UInt64) (slot : ResourceSlot W) : Prop :=
  th.reactor.resources.get rid = some slot ∧
    (Reactor.timerSlot th.reactor.resources rid = none ∨ ∃ j, j ≠ i ∧ th.owner rid = some j)

/-- If the future holds the number of a timer, then that is not the number of something that belongs
to others here. -/
def AtHome (th : Thread W) (i : ℕ) (k : SleepKernel) : Prop :=
  ∀ rid slot, k.rid = some rid → ¬ th.Foreign i rid slot

/-- A poll deregisters the timer if it is before the deadline. -/
def PollsAtHome (th : Thread W) (i : ℕ) (k : SleepKernel) (raw : UInt64) : Prop :=
  ¬ k.deadline ≤ Sleep.clock th.reactor raw → th.AtHome i k

/-- What belongs to others than future number `i` still does. Slot and deadline are the same, and no
timer is cancelled. -/
def Spares (i : ℕ) (th th' : Thread W) : Prop :=
  ∀ rid slot, th.Foreign i rid slot → th'.Foreign i rid slot ∧
    th'.reactor.wheel.live rid = th.reactor.wheel.live rid ∧ ¬ th'.reactor.Marked rid

end Thread

namespace Threads

variable {T W : Type*} [DecidableEq T]

/-- A poll, reset or drop of a future spares what belongs to others, on every thread. -/
def Isolated (s : Threads T W) (l : Label T W) : Prop :=
  ∀ i s', l.sleep = some i → s.step l = some s' →
    ∀ t, Thread.Spares i (s.thread t) (s'.thread t)

omit [DecidableEq T] in
/-- A future that is going to deregister a timer is at home on the thread. -/
def Home (s : Threads T W) : Label T W → Prop
  | .new _ => True
  | .poll t i _ raw => ∀ k, s.sleeps.get i = some k → (s.thread t).PollsAtHome i k raw
  | .reset t i _ => ∀ k, s.sleeps.get i = some k → (s.thread t).AtHome i k
  | .drop t i => ∀ k, s.sleeps.get i = some k → (s.thread t).AtHome i k
  | .park _ _ _ _ => True
  | .io _ _ => True

end Threads

/-! ### What an operation does to a thread -/

namespace Thread

variable {W : Type*} {th th' : Thread W} {i : ℕ} {k : SleepKernel} {rid : UInt64}
  {slot : ResourceSlot W}

/-- What holds of a thread as long as futures are at home. -/
structure Sound (th : Thread W) : Prop where
  kept : th.reactor.Kept
  /-- A timer whose deregistration is put off is nobody's. -/
  ceded : ∀ rid, th.reactor.Marked rid → th.owner rid = none

/-- What belongs to others is not marked, as what is marked is nobody's. -/
theorem Sound.not_marked (h : Sound th) (hforeign : th.Foreign i rid slot) :
    ¬ th.reactor.Marked rid := by
  rintro ⟨d, hd⟩
  rcases hforeign.2 with hio | ⟨j, -, hj⟩
  · have hlive := h.kept.marked rid d hd
    rw [h.kept.consistent.agrees rid, hio] at hlive
    cases hlive
  · rw [h.ceded rid ⟨d, hd⟩] at hj
    cases hj

theorem Spares.refl (h : Sound th) : Spares i th th :=
  fun _ _ hforeign => ⟨hforeign, rfl, h.not_marked hforeign⟩

theorem Spares.trans {th₁ th₂ th₃ : Thread W} (h : Spares i th₁ th₂) (h' : Spares i th₂ th₃) :
    Spares i th₁ th₃ := by
  intro rid slot hforeign
  obtain ⟨hforeign₂, hlive, -⟩ := h rid slot hforeign
  obtain ⟨hforeign₃, hlive', hnot⟩ := h' rid slot hforeign₂
  exact ⟨hforeign₃, hlive'.trans hlive, hnot⟩

/-- Others are spared if their slots and timers are the same and are not marked. -/
theorem Spares.of_same (hth : th.reactor.Consistent) (hth' : th'.reactor.Consistent)
    (h : ∀ rid slot, th.Foreign i rid slot →
      th'.reactor.resources.get rid = th.reactor.resources.get rid ∧ th'.owner rid = th.owner rid ∧
        ¬ th'.reactor.Marked rid) : Spares i th th' := by
  intro rid slot hforeign
  obtain ⟨hget, howner, hnot⟩ := h rid slot hforeign
  have hslot := Reactor.timerSlot_congr hget
  refine ⟨⟨hget.trans hforeign.1, ?_⟩, ?_, hnot⟩
  · rw [hslot, howner]
    exact hforeign.2
  · rw [hth.agrees rid, hth'.agrees rid, hslot]

/-- The thread after future number `i` has deregistered its timer, if it has one. -/
def disarm (th : Thread W) (i : ℕ) (k : SleepKernel) : Thread W :=
  ⟨Sleep.disarm k th.reactor, cede th.owner i k.rid⟩

theorem disarm_of_none (hk : k.rid = none) : th.disarm i k = th := by
  have hcede : cede th.owner i none = th.owner := by
    funext rid
    exact if_neg (fun h => by cases h.1)
  rw [disarm, Sleep.disarm, hk, hcede]

theorem disarm_reactor (hk : k.rid = some rid) :
    (th.disarm i k).reactor = ReactorHandle.deregisterTimer th.reactor rid := by
  rw [disarm, Sleep.disarm, hk]

theorem cede_of_ne {owner : UInt64 → Option ℕ} {rid' : UInt64} (hne : rid' ≠ rid) :
    cede owner i (some rid) rid' = owner rid' :=
  if_neg fun h => hne (Option.some.inj h.1).symm

/-- **A future at home deregisters its timer**, and spares what belongs to others. -/
theorem Sound.disarm (h : Sound th) (hhome : th.AtHome i k) :
    Sound (th.disarm i k) ∧ Spares i th (th.disarm i k) := by
  cases hk : k.rid with
  | none =>
    rw [disarm_of_none hk]
    exact ⟨h, .refl h⟩
  | some rid =>
    have hkept := (h.kept.disarm k).1
    obtain ⟨htuned, -, hswept, hcase⟩ := ReactorHandle.deregisterTimer_spec h.kept.consistent rid
    have howner : (th.disarm i k).owner = cede th.owner i (some rid) := by
      rw [Thread.disarm, hk]
    rw [← disarm_reactor (i := i) hk] at htuned hswept hcase
    -- only the timer that is deregistered can be marked
    have hmarked : ∀ rid', (th.disarm i k).reactor.Marked rid' → rid' = rid ∧
        ∃ slot, th.reactor.resources.get rid = some slot := by
      rintro rid' ⟨d, hd⟩
      rcases hcase with ⟨t, -, ht, -, hpending⟩ | ⟨-, -, hpending⟩
      · rw [hpending] at hd
        cases hd
        exact ⟨rfl, _, Reactor.timerSlot_eq_some.mp ht⟩
      · rw [hpending] at hd
        cases hd
    refine ⟨⟨hkept, fun rid' hm => ?_⟩, .of_same h.kept.consistent htuned.consistent ?_⟩
    · obtain ⟨rfl, slot, hslot⟩ := hmarked rid' hm
      rw [howner, cede]
      split
      · rfl
      · rename_i hnot
        cases hj : th.owner rid' with
        | none => rfl
        | some j =>
          refine absurd ⟨hslot, .inr ⟨j, ?_, hj⟩⟩ (hhome rid' slot hk)
          rintro rfl
          exact hnot ⟨rfl, hj⟩
    · intro rid' slot hforeign
      have hne : rid' ≠ rid := by
        rintro rfl
        exact hhome rid' slot hk hforeign
      refine ⟨(hswept rid' hne).2 (h.not_marked hforeign), ?_, fun hm => hne (hmarked rid' hm).1⟩
      rw [howner, cede_of_ne hne]

/-- **A future registers a timer**, under a number that is not in use on the thread. -/
theorem Sound.arm (h : Sound th) {deadline : UInt64} {waker : W}
    (hahead : th.reactor.wheel.elapsed < deadline) {res : Except IoError UInt64} {r' : Reactor W}
    (hreg : ReactorHandle.registerTimer th.reactor deadline waker = (res, r')) :
    Sound ⟨r', take th.owner i res.toOption⟩ ∧
      Spares i th ⟨r', take th.owner i res.toOption⟩ := by
  obtain ⟨htuned, hpending, hcase⟩ :=
    ReactorHandle.registerTimer_spec h.kept.consistent h.kept.marked hahead waker hreg
  have hmarked : ∀ rid, ¬ r'.Marked rid := by
    rintro rid ⟨d, hd⟩
    rw [hpending] at hd
    cases hd
  refine ⟨⟨h.kept.tuned htuned fun rid d hd => (hmarked rid ⟨d, hd⟩).elim,
    fun rid hm => (hmarked rid hm).elim⟩, .of_same h.kept.consistent htuned.consistent ?_⟩
  intro rid slot hforeign
  have hnot := h.not_marked hforeign
  rcases hcase with ⟨n, e, rfl, hfresh, -, -, -, hswept⟩ | ⟨⟨e, rfl⟩, hswept⟩
  · -- the number is new, or that of a marked timer
    have hne : rid ≠ n := by
      rintro rfl
      rcases hfresh with hm | rfl
      · exact hnot hm
      · cases h.kept.consistent.get_next.symm.trans hforeign.1
    exact ⟨(hswept rid hne).2 hnot, if_neg fun heq => hne (Option.some.inj heq).symm, hmarked rid⟩
  · exact ⟨(hswept rid).2 hnot, rfl, hmarked rid⟩

/-- The timer of the number that is deregistered is marked, or there is nothing there any more. -/
theorem marked_disarm (h : Sound th) (i : ℕ) (hk : k.rid = some rid) :
    (th.disarm i k).reactor.Marked rid ∨ (th.disarm i k).reactor.resources.get rid = none := by
  obtain ⟨-, -, -, hcase⟩ := ReactorHandle.deregisterTimer_spec h.kept.consistent rid
  rw [disarm_reactor hk]
  rcases hcase with ⟨t, -, -, -, hpending⟩ | ⟨-, hget, -⟩
  · exact .inl ⟨_, hpending⟩
  · exact .inr hget

/-- **Resets and drops** keep the thread in order and spare what belongs to others if the future is
at home. Else they cancel a timer of others, or remove an I/O resource. -/
theorem Sound.release (h : Sound th) (i : ℕ) (k : SleepKernel) :
    (th.AtHome i k → Sound (th.disarm i k)) ∧
      (th.AtHome i k ↔ Spares i th (th.disarm i k)) := by
  refine ⟨fun hhome => (h.disarm hhome).1, fun hhome => (h.disarm hhome).2,
    fun hspares rid slot hk hforeign => ?_⟩
  obtain ⟨hforeign', -, hnot⟩ := hspares rid slot hforeign
  rcases marked_disarm h i hk with hm | hnone
  · exact hnot hm
  · cases hnone.symm.trans hforeign'.1

/-- A future that then registers a timer takes over the one it has cancelled, or removes it. -/
theorem not_foreign_arm (h : Sound th) (hk : k.rid = some rid) {deadline : UInt64} {waker : W}
    (hahead : (th.disarm i k).reactor.wheel.elapsed < deadline) {res : Except IoError UInt64}
    {r' : Reactor W}
    (hreg : ReactorHandle.registerTimer (th.disarm i k).reactor deadline waker = (res, r')) :
    ¬ Foreign ⟨r', take (th.disarm i k).owner i res.toOption⟩ i rid slot := by
  rintro ⟨hget, hothers⟩
  have hkept : (th.disarm i k).reactor.Kept := (h.kept.disarm k).1
  obtain ⟨-, -, hcase⟩ :=
    ReactorHandle.registerTimer_spec hkept.consistent hkept.marked hahead waker hreg
  have hgone : ¬ (th.disarm i k).reactor.Swept r' rid := by
    intro hswept
    have hnone : r'.resources.get rid = none := by
      by_cases hm : (th.disarm i k).reactor.Marked rid
      · exact hswept.1 hm
      · exact (hswept.2 hm).trans ((marked_disarm h i hk).resolve_left hm)
    cases hnone.symm.trans hget
  rcases hcase with ⟨n, e, rfl, -, -, -, hn, hswept⟩ | ⟨-, hswept⟩
  · by_cases heq : rid = n
    · subst heq
      rcases hothers with hio | ⟨j, hj, howner⟩
      · cases (Reactor.timerSlot_eq_some.mpr hn).symm.trans hio
      · have hmine : some i = some j := (if_pos rfl).symm.trans howner
        exact hj (Option.some.inj hmine).symm
    · exact hgone (hswept rid heq)
  · exact hgone (hswept rid)

/-! ### Polls, resets and drops -/

theorem poll_of_le {waker : W} {raw : UInt64} (h : k.deadline ≤ Sleep.clock th.reactor raw) :
    (th.poll i k waker raw).2 = th := by
  simp only [poll, Sleep.poll_of_le h, if_true]

theorem poll_of_not_le {waker : W} {raw : UInt64} (h : ¬ k.deadline ≤ Sleep.clock th.reactor raw)
    {res : Except IoError UInt64} {r' : Reactor W}
    (hreg : ReactorHandle.registerTimer (th.disarm i k).reactor k.deadline waker = (res, r')) :
    (th.poll i k waker raw).2 = ⟨r', take (th.disarm i k).owner i res.toOption⟩ := by
  have hpending : (if res.toOption.isSome then SleepAction.suspend else .fail) ≠ .complete := by
    split <;> decide
  simp only [poll, Sleep.poll_of_not_le h hreg, if_neg hpending]
  rfl

/-- **A poll** keeps the thread in order and spares what belongs to others if the future is at home,
and does not spare it else. -/
theorem Sound.poll (h : Sound th) (i : ℕ) (k : SleepKernel) (waker : W) (raw : UInt64) :
    (th.PollsAtHome i k raw → Sound (th.poll i k waker raw).2) ∧
      (th.PollsAtHome i k raw ↔ Spares i th (th.poll i k waker raw).2) := by
  by_cases hpast : k.deadline ≤ Sleep.clock th.reactor raw
  · rw [poll_of_le hpast]
    exact ⟨fun _ => h, fun _ => .refl h, fun _ hnot => absurd hpast hnot⟩
  · obtain ⟨⟨res, r'⟩, hreg⟩ :
      ∃ x, ReactorHandle.registerTimer (th.disarm i k).reactor k.deadline waker = x := ⟨_, rfl⟩
    rw [poll_of_not_le hpast hreg]
    have hahead : (th.disarm i k).reactor.wheel.elapsed < k.deadline := by
      rw [Thread.disarm, (h.kept.disarm k).2.elapsed]
      exact h.kept.elapsed_lt hpast
    refine ⟨fun hhome => ?_, fun hhome => ?_, fun hspares _ rid slot hk hforeign => ?_⟩
    · exact ((h.disarm (hhome hpast)).1.arm hahead hreg).1
    · obtain ⟨hsound, hspares⟩ := h.disarm (hhome hpast)
      exact hspares.trans (hsound.arm hahead hreg).2
    · exact not_foreign_arm h hk hahead hreg (hspares rid slot hforeign).1

theorem Sound.park (h : Sound th) {timeout : Option UInt64} {raw : UInt64}
    {poll : Except IoError (List MioEvent)} (hpark : th.park timeout raw poll = some th') :
    Sound th' := by
  obtain ⟨⟨res, r'⟩, hreactor, rfl⟩ := Option.map_eq_some_iff.mp hpark
  refine ⟨h.kept.park hreactor, ?_⟩
  rintro rid ⟨d, hd⟩
  obtain ⟨htuned, hpending, -, -⟩ := Reactor.flush_spec h.kept.consistent
  obtain ⟨-, -, hsame⟩ := Reactor.park_clock htuned.consistent hreactor
  cases (hsame.trans hpending).symm.trans hd

theorem Sound.io (h : Sound th) {op : Reactor.Op W} (hio : th.io op = some th') : Sound th' := by
  rw [Thread.io] at hio
  split at hio
  · rename_i hpermits
    obtain ⟨r', hcall, rfl⟩ := Option.map_eq_some_iff.mp hio
    refine ⟨Sleepers.kept_io h.kept hpermits hcall, ?_⟩
    rintro rid ⟨d, hd⟩
    obtain ⟨-, hpending, -⟩ := Sleepers.call_io h.kept.consistent hpermits hcall
    exact h.ceded rid ⟨d, hpending.symm.trans hd⟩
  · cases hio

end Thread

/-! ### Runs -/

namespace Threads

variable {T W : Type*} [DecidableEq T] {s s' s₀ : Threads T W} {t : T} {i : ℕ} {l : Label T W}
  {as : List (Label T W)}

/-- Every thread is in order, whichever futures are or have been on it. -/
def Sound (s : Threads T W) : Prop := ∀ t, (s.thread t).Sound

omit [DecidableEq T] in
theorem sound_new (cachedNow : T → Option UInt64) : Sound (new cachedNow : Threads T W) := by
  intro t
  refine ⟨Reactor.kept_new (cachedNow t), ?_⟩
  rintro rid ⟨d, hd⟩
  cases hd

theorem Sound.set (h : Sound s) {th : Thread W} (hth : th.Sound) : Sound (s.set t th) := by
  intro t'
  show (Function.update s.thread t th t').Sound
  by_cases ht : t' = t
  · rw [ht, Function.update_self]
    exact hth
  · rw [Function.update_of_ne ht]
    exact h t'

theorem spares_set_iff (h : Sound s) {th : Thread W} :
    (∀ t', Thread.Spares i (s.thread t') ((s.set t th).thread t')) ↔
      Thread.Spares i (s.thread t) th := by
  constructor
  · intro hall
    have ht : Thread.Spares i (s.thread t) (Function.update s.thread t th t) := hall t
    rw [Function.update_self] at ht
    exact ht
  · intro hspares t'
    show Thread.Spares i (s.thread t') (Function.update s.thread t th t')
    by_cases ht : t' = t
    · rw [ht, Function.update_self]
      exact hspares
    · rw [Function.update_of_ne ht]
      exact .refl (h t')

/-- **A future does something on a thread.** If what it does to the thread is in order under a
condition on the future, and spares what belongs to others under just that condition, then so it is
with all threads. -/
theorem Sound.act (h : Sound s) {op : Thread W → ℕ → SleepKernel → Option SleepKernel × Thread W}
    {home : SleepKernel → Prop} (hact : s.act t i op = some s')
    (hop : ∀ k, (home k → (op (s.thread t) i k).2.Sound) ∧
      (home k ↔ Thread.Spares i (s.thread t) (op (s.thread t) i k).2)) :
    ((∀ k, s.sleeps.get i = some k → home k) → Sound s') ∧
      ((∀ k, s.sleeps.get i = some k → home k) ↔
        ∀ t', Thread.Spares i (s.thread t') (s'.thread t')) := by
  obtain ⟨k, hk, rfl⟩ := Option.map_eq_some_iff.mp hact
  have hhome : (∀ k, s.sleeps.get i = some k → home k) ↔ home k := by
    constructor
    · exact fun hall => hall k hk
    · intro hthis k' hk'
      cases hk.symm.trans hk'
      exact hthis
  rw [hhome]
  exact ⟨fun hthis => h.set ((hop k).1 hthis), (hop k).2.trans (spares_set_iff h).symm⟩

/-- **One step.** Every thread is in order after it if the future was at home, and that is just when
what belongs to others is spared. -/
theorem Sound.step (h : Sound s) (hstep : s.step l = some s') :
    (s.Home l → Sound s') ∧ (s.Home l ↔ s.Isolated l) := by
  -- the state after the step is the one we have
  have hiso : ∀ {i}, l.sleep = some i →
      (s.Isolated l ↔ ∀ t, Thread.Spares i (s.thread t) (s'.thread t)) := by
    intro i hi
    constructor
    · exact fun hall => hall i s' hi hstep
    · intro hspares j s'' hj hstep'
      cases hi.symm.trans hj
      cases hstep.symm.trans hstep'
      exact hspares
  -- nor is there anything to show if no future does anything
  have hvacuous : l.sleep = none → s.Isolated l := by
    intro hnone i s'' hi
    cases hnone.symm.trans hi
  cases l with
  | new deadline =>
    cases hstep
    exact ⟨fun _ => h, fun _ => hvacuous rfl, fun _ => trivial⟩
  | poll t i waker raw =>
    rw [hiso rfl]
    have hact : s.act t i (fun th i k => th.poll i k waker raw) = some s' := hstep
    exact h.act hact fun k => (h t).poll i k waker raw
  | reset t i deadline =>
    rw [hiso rfl]
    have hact : s.act t i (fun th i k => th.reset i k deadline) = some s' := hstep
    exact h.act hact fun k => (h t).release i k
  | drop t i =>
    rw [hiso rfl]
    have hact : s.act t i Thread.drop = some s' := hstep
    exact h.act hact fun k => (h t).release i k
  | park t timeout raw poll =>
    obtain ⟨th, hpark, rfl⟩ := Option.map_eq_some_iff.mp hstep
    exact ⟨fun _ => h.set ((h t).park hpark), fun _ => hvacuous rfl, fun _ => trivial⟩
  | io t op =>
    obtain ⟨th, hio, rfl⟩ := Option.map_eq_some_iff.mp hstep
    exact ⟨fun _ => h.set ((h t).io hio), fun _ => hvacuous rfl, fun _ => trivial⟩

/-- **Isolation.** For any threads, and futures that move between them at will: the runs in which
every poll, reset and drop leaves alone what belongs to others are those in which every future is at
home whenever it deregisters a timer. -/
theorem isolated_run_iff (hinit : machine.init s₀) :
    (machine.restrict Home).Run s₀ as s ↔ (machine.restrict Isolated).Run s₀ as s := by
  obtain ⟨cachedNow, rfl⟩ := hinit
  exact Machine.Run.restrict_iff (sound_new cachedNow) (fun _ _ _ hs hstep => (hs.step hstep).1)
    fun _ _ _ hs hstep => (hs.step hstep).2

/-- A future moves to a thread where its number is not in use, registers a timer there and is
dropped. -/
theorem isolated_run_iff_moved : ∃ s : Threads ℕ ℕ,
    (machine.restrict Isolated).Run (new fun _ => none)
      [.new 10, .poll 0 0 7 1, .poll 1 0 8 1, .drop 1 0] s ∧
    (s.thread 1).reactor.Marked 1 := by
  refine ⟨_, (isolated_run_iff ⟨_, rfl⟩).mp (.cons ⟨rfl, trivial⟩ (.cons ⟨rfl, ?_⟩
    (.cons ⟨rfl, ?_⟩ (.cons ⟨rfl, ?_⟩ .nil)))), ⟨10, rfl⟩⟩
  · rintro k ⟨⟩ - rid slot ⟨⟩
  · rintro k ⟨⟩ - rid slot ⟨⟩ ⟨⟨⟩, -⟩
  · rintro k ⟨⟩ rid slot ⟨⟩ ⟨⟨⟩, ⟨⟨⟩⟩ | ⟨j, hj, ⟨⟩⟩⟩
    exact hj rfl

/-- Two futures have registered the timers with number 1 of two threads. The first one is dropped on
the thread of the second, and cancels the timer of the second. -/
theorem not_isolated : ¬ ∀ s : Threads ℕ ℕ, machine.Reachable s → ∀ l, s.Isolated l := by
  intro h
  obtain ⟨s, s', hfollow, hstep, ⟨slot, hget⟩, howner, hmarked⟩ : ∃ s s' : Threads ℕ ℕ,
      Machine.follow step [.new 10, .new 20, .poll 0 0 7 1, .poll 1 1 8 1] (new fun _ => none) =
        some s ∧ s.step (.drop 1 0) = some s' ∧
        (∃ slot, (s.thread 1).reactor.resources.get 1 = some slot) ∧
        (s.thread 1).owner 1 = some 1 ∧
        (s'.thread 1).reactor.pendingDeregister = some (1, 20) :=
    ⟨_, _, rfl, rfl, ⟨_, rfl⟩, rfl, rfl⟩
  have hstart : machine.Reachable (new fun _ => none : Threads ℕ ℕ) := .of_init ⟨_, rfl⟩
  have hisolated := h s (hstart.follow hfollow) (.drop 1 0) 0 s' rfl hstep 1
  obtain ⟨-, -, hnot⟩ := hisolated 1 slot ⟨hget, .inr ⟨1, by decide, howner⟩⟩
  exact hnot ⟨20, hmarked⟩

end Threads

end Lion
