import Lion.Library.Tickets
import Lion.Sync.Broadcast

/-!
# Who waits at a broadcast channel

A future of `recv` that returns pending has parked under an id, and is queued under it until
everybody is woken. It is queued as long as its receiver has got everything and the channel is open;
when it is taken out, there is a value for it or the channel is closed. So its next poll is ready,
and it never finds itself parked and forgotten.

## What is noted

The model keeps no record of polls. `observed` is the channel with notes taken of what happens to
the futures: how the latest poll of each has ended, and whether it was signalled since. These notes
are taken from the operations and their results, not from the fields of the futures, so that it
means something that they agree (`PhaseOk`).

A send and the drop of the last sender return wakers, without saying whose they are. The same loop
with ids, `wokenLoop`, says it, and `map_snd_signalled` that these are the same wakers.

## Why the contract is needed

The borrows of the source are not in the model. A receiver that has a future and is used directly
could take the value that the future was woken for; the future would find itself parked, with
nothing to receive, and not queued. The same may happen to a future that is polled after it has
returned ready. `Contract` excludes both, the first because the compiler does and the second because
a future promises nothing then.

## Main definitions

* `Channel.observed` — the channel with notes taken

## Main results

* `Channel.map_snd_signalled` — the futures noted as signalled are those whose wakers are taken
* `Channel.heard_of_reachable` — who waits is who is queued
-/

namespace Lion.Broadcast

variable {T W : Type}

/-! ### Waking everybody -/

namespace Inner

variable {g g' : Inner T W}

/-- The loop of `wakeAll`, with the ids of those it wakes. -/
def wokenLoop : ℕ → Inner T W → List (ℕ × W)
  | 0, _ => []
  | n + 1, g =>
    if 0 < g.rxKernel.queue.length then
      match g.rxKernel.signalStep with
      | some (.woke id, rxKernel) =>
        (g.waiters.find? (·.1 = id)).toList ++
          wokenLoop n { g with rxKernel, waiters := g.waiters.eraseP (·.1 = id) }
      | _ => []
    else []

/-- The entries of those whom `wakeAll` wakes. -/
def woken (g : Inner T W) : List (ℕ × W) := wokenLoop g.rxKernel.queue.length g

/-- No permit is stored, and the queued ids are those with a waker. -/
structure Synced (g : Inner T W) : Prop where
  permit : g.rxKernel.permit = 0
  ids : g.waiters.map Prod.fst = g.rxKernel.queue

theorem wakeAllLoop_eq (n : ℕ) (hids : g.waiters.map Prod.fst = g.rxKernel.queue)
    (hn : g.rxKernel.queue.length = n) : wokenLoop n g = g.waiters ∧
      wakeAllLoop n g = (g.waiters.map Prod.snd, { g with
        rxKernel := { g.rxKernel with queue := [] }, waiters := [] }) := by
  obtain ⟨⟨permit, queue⟩, bkern, buffer, waiters, closed, nextId, senderCount⟩ := g
  obtain rfl : waiters.map Prod.fst = queue := hids
  induction n generalizing waiters with
  | zero =>
    have hnil : waiters = [] := by simpa using hn
    cases hnil
    exact ⟨rfl, rfl⟩
  | succ n ih =>
    cases waiters with
    | nil => cases hn
    | cons entry rest =>
      obtain ⟨hwoken, hrest⟩ := ih rest (Nat.succ.inj hn)
      rw [wokenLoop, wakeAllLoop]
      simp [WaiterKernel.signalStep, hwoken, hrest]

/-- **Everybody** who has parked is woken. -/
theorem wakeAll_eq (h : Synced g) : g.wakeAll = (g.waiters.map Prod.snd, { g with
    rxKernel := { g.rxKernel with queue := [] }, waiters := [] }) :=
  (wakeAllLoop_eq _ h.ids rfl).2

theorem woken_eq (h : Synced g) : g.woken = g.waiters := (wakeAllLoop_eq _ h.ids rfl).1

/-- Everybody who had parked was taken out, and nothing else has happened to the waiters. -/
structure Wakes (g g' : Inner T W) : Prop where
  rxKernel : g'.rxKernel = { g.rxKernel with queue := [] }
  waiters : g'.waiters = []
  nextId : g'.nextId = g.nextId

/-- **A send** fails, or wakes everybody. -/
theorem send_cases (h : Synced g) {value : T} {handles : ℕ} {res : Except T ℕ} {wakers : List W}
    (hsend : g.send value handles = some (res, wakers, g')) :
    (g.closed = true ∧ wakers = [] ∧ g' = g) ∨
      (g.closed = false ∧ wakers = g.waiters.map Prod.snd ∧ Wakes g g' ∧
        g'.bkern.nextSeq = g.bkern.nextSeq + 1 ∧ g'.closed = false) := by
  rw [send] at hsend
  split at hsend
  · rename_i hclosed
    cases hsend
    exact .inl ⟨hclosed, rfl, rfl⟩
  · rename_i hclosed
    have hopen := Bool.eq_false_iff.mpr hclosed
    obtain ⟨⟨seq, bkern⟩, hstep, heq⟩ := Option.bind_eq_some_iff.mp hsend
    have hwake := wakeAll_eq (g := { g with
      bkern
      buffer := (if g.buffer.length = bkern.capacity then g.buffer.tail else g.buffer) ++
        [⟨value, seq⟩] }) ⟨h.permit, h.ids⟩
    dsimp only at heq
    rw [hwake] at heq
    cases heq
    obtain ⟨nextSeq, hsucc, heq⟩ := Option.bind_eq_some_iff.mp hstep
    cases heq
    cases succ64_eq_some hsucc
    exact .inr ⟨hopen, rfl, ⟨rfl, rfl, rfl⟩, rfl, hopen⟩

/-- **The drop of a sender** wakes everybody if it is the last. -/
theorem dropSender_cases (h : Synced g) :
    (g.senderCount - 1 ≠ 0 ∧ g.dropSender = ([], { g with senderCount := g.senderCount - 1 })) ∨
      (g.senderCount - 1 = 0 ∧ g.dropSender.1 = g.waiters.map Prod.snd ∧ Wakes g g.dropSender.2 ∧
        g.dropSender.2.bkern = g.bkern ∧ g.dropSender.2.closed = true) := by
  by_cases hlast : g.senderCount - 1 = 0
  · have heq := wakeAll_eq (g := { g with senderCount := g.senderCount - 1, closed := true })
      ⟨h.permit, h.ids⟩
    refine .inr ⟨hlast, ?_⟩
    rw [dropSender]
    dsimp only
    rw [if_pos hlast, heq]
    exact ⟨rfl, ⟨rfl, rfl, rfl⟩, rfl, rfl⟩
  · exact .inl ⟨hlast, if_neg hlast⟩

/-! ### Polls -/

/-- There is nothing to receive exactly if the cursor is at the next number. -/
theorem recvStep_eq_park (k : BroadcastKernel) (cursor : ℕ) :
    k.recvStep cursor = .park ↔ k.nextSeq ≤ cursor := by
  simp only [BroadcastKernel.recvStep]
  split
  · refine iff_of_false (by simp) ?_
    omega
  · split
    · refine iff_of_false (by simp) ?_
      omega
    · refine iff_of_true rfl ?_
      omega

/-- What a poll does: there are three cases, and they exclude each other. -/
inductive Polled (g : Inner T W) (f : Recv) (cursor : ℕ) (waker : W) :
    Poll (Except RecvError T) → Inner T W → Recv → ℕ → Prop
  /-- There is something to receive, or there will be nothing. -/
  | ready {res : Except RecvError T} {cursor' : ℕ} :
      cursor < g.bkern.nextSeq ∨ g.closed = true →
      Polled g f cursor waker (.ready res) g f cursor'
  /-- It has parked before, and its waker is replaced. -/
  | refreshed : g.bkern.nextSeq ≤ cursor → g.closed = false → f.parked = true →
      Polled g f cursor waker .pending
        { g with
          waiters := g.waiters.map fun entry => if entry.1 = f.id then (f.id, waker) else entry }
        f cursor
  /-- It parks under a fresh id. -/
  | parked : g.bkern.nextSeq ≤ cursor → g.closed = false → f.parked = false →
      Polled g f cursor waker .pending
        { g with
          nextId := g.nextId + 1
          rxKernel := { g.rxKernel with queue := g.rxKernel.queue ++ [g.nextId] }
          waiters := g.waiters ++ [(g.nextId, waker)] }
        ⟨g.nextId, true⟩ cursor

/-- **A poll** ends in its first turn, since no permit is stored. -/
theorem poll_cases (hpermit : g.rxKernel.permit = 0) {f f' : Recv} {cursor cursor' : ℕ} {waker : W}
    {res : Poll (Except RecvError T)}
    (h : g.pollRecv f cursor waker = some (res, g', f', cursor')) :
    Polled g f cursor waker res g' f' cursor' := by
  rw [pollRecv, hpermit, pollRecvLoop] at h
  obtain ⟨⟨found, cursor₁⟩, hnext, hrest⟩ := Option.bind_eq_some_iff.mp h
  cases hrecv : g.bkern.recvStep cursor with
  | park =>
    have hle := (recvStep_eq_park g.bkern cursor).mp hrecv
    rw [next, hrecv] at hnext
    cases hnext
    dsimp only at hrest
    split at hrest
    · rename_i hclosed
      cases hrest
      exact .ready (.inr hclosed)
    · rename_i hclosed
      have hopen := Bool.eq_false_iff.mpr hclosed
      split at hrest
      · rename_i hparked
        cases hrest
        exact .refreshed hle hopen hparked
      · rename_i hparked
        have hparked := Bool.eq_false_iff.mpr hparked
        obtain ⟨nextId, hsucc, hwait⟩ := Option.bind_eq_some_iff.mp hrest
        cases succ64_eq_some hsucc
        have hpark : g.rxKernel.waitStep g.nextId =
            (.park g.nextId, { g.rxKernel with queue := g.rxKernel.queue ++ [g.nextId] }) := by
          rw [WaiterKernel.waitStep, if_neg (by omega)]
        rw [hpark] at hwait
        cases hwait
        exact .parked hle hopen hparked
  | lagged skipped newCursor =>
    have hlt : cursor < g.bkern.nextSeq := by
      have hne := mt (recvStep_eq_park g.bkern cursor).mpr (by simp [hrecv])
      omega
    rw [next, hrecv] at hnext
    cases hnext
    cases hrest
    exact .ready (.inl hlt)
  | ready seq =>
    have hlt : cursor < g.bkern.nextSeq := by
      have hne := mt (recvStep_eq_park g.bkern cursor).mpr (by simp [hrecv])
      omega
    rw [next, hrecv] at hnext
    obtain ⟨value, -, heq⟩ := Option.bind_eq_some_iff.mp hnext
    cases heq
    cases hrest
    exact .ready (.inl hlt)

theorem Synced.polled (h : Synced g) {f f' : Recv} {cursor cursor' : ℕ} {waker : W}
    {res : Poll (Except RecvError T)} (hpoll : Polled g f cursor waker res g' f' cursor') :
    Synced g' := by
  cases hpoll with
  | ready => exact h
  | refreshed =>
    refine ⟨h.permit, ?_⟩
    rw [← h.ids, List.map_map]
    refine List.map_congr_left fun entry _ => ?_
    rw [Function.comp_apply]
    split
    · rename_i hid
      exact hid.symm
    · rfl
  | parked =>
    refine ⟨h.permit, ?_⟩
    rw [List.map_append, h.ids]
    rfl

theorem Synced.dropRecv (h : Synced g) (f : Recv) : Synced (g.dropRecv f) := by
  rw [Inner.dropRecv]
  split
  · refine ⟨h.permit, ?_⟩
    rw [map_fst_eraseP, h.ids]
    rfl
  · exact h

end Inner

/-! ### Notes -/

/-- What has happened to a future of `recv`, as it is noted. -/
inductive Phase
  | fresh
  /-- Its latest poll has returned pending, and it was not signalled since. -/
  | waiting
  /-- Its latest poll has returned pending, and it was signalled since. -/
  | signalled
  | ready
deriving DecidableEq, Repr

/-- The receiver of which something else than its future is used, other than to make or drop a
receiver. -/
def Label.used : Label T W → Option ℕ
  | .tryRecv i => some i
  | .recv i => some i
  | _ => none

/-- The receiver whose future is polled. -/
def Label.polled : Label T W → Option ℕ
  | .pollRecv i _ => some i
  | _ => none

namespace Channel

/-- The id that the future of receiver number `i` parked under, if it has. -/
def current (c : Channel T W) (i : ℕ) : Option ℕ :=
  (c.receiver i).bind fun r => r.recv.bind fun f => if f.parked then some f.id else none

/-- The entries of those whom the operation wakes. -/
def signalled (c : Channel T W) : Label T W → List (ℕ × W)
  | .send _ => if c.inner.closed then [] else c.inner.woken
  | .dropSender => if c.inner.senderCount - 1 = 0 then c.inner.woken else []
  | _ => []

/-- The result of a poll with this waker, if there is a future to be polled. -/
def pollResult (c : Channel T W) (i : ℕ) (waker : W) : Option (Poll (Except RecvError T)) := do
  let r ← c.receiver i
  let f ← r.recv
  let (res, _) ← c.inner.pollRecv f r.nextSeq waker
  return res

/-- Note of receiver number `i` that its future is signalled, if one of these entries is under its
id. -/
def noteSignals (c : Channel T W) (out : List (ℕ × W)) (n : ℕ → Phase) (i : ℕ) : Phase :=
  if n i = .waiting && (c.current i).any fun id => out.any (·.1 = id) then .signalled else n i

/-- Note what happens to the futures in one operation. -/
def note (c : Channel T W) (l : Label T W) (n : ℕ → Phase) : ℕ → Phase :=
  match l with
  | .recv i => Function.update n i .fresh
  | .pollRecv i waker =>
    match c.pollResult i waker with
    | some res => Function.update n i (if res.isReady then .ready else .waiting)
    | none => n
  | .dropRecv i => Function.update n i .fresh
  | .dropReceiver i => Function.update n i .fresh
  | l => c.noteSignals (c.signalled l) n

/-- Channels as a machine, with notes taken of their futures. -/
def observed : Machine (Channel T W × (ℕ → Phase)) (Label T W) :=
  Machine.observe (fun c => ∃ capacity, 0 < capacity ∧ c = new capacity) step (fun _ => .fresh) note

/-- A receiver that has a future is not used, and no future is polled after it has returned
ready. -/
def Contract (s : Channel T W × (ℕ → Phase)) (l : Label T W) : Prop :=
  (∀ i ∈ l.used, ∀ r ∈ s.1.receiver i, r.recv = none) ∧ ∀ i ∈ l.polled, s.2 i ≠ .ready

instance (s : Channel T W × (ℕ → Phase)) (l : Label T W) : Decidable (Contract s l) :=
  inferInstanceAs (Decidable (_ ∧ _))

variable {c c' : Channel T W} {n n' : ℕ → Phase} {l : Label T W} {i : ℕ} {r : Receiver T}

/-- The wakers that a send and the drop of a sender take are those of the futures noted as
signalled. -/
theorem map_snd_signalled (h : c.inner.Synced) :
    (∀ value handles res wakers inner, c.inner.send value handles = some (res, wakers, inner) →
      (c.signalled (.send value)).map Prod.snd = wakers) ∧
    (c.signalled .dropSender).map Prod.snd = c.inner.dropSender.1 := by
  constructor
  · intro value handles res wakers inner hsend
    rw [signalled]
    rcases Inner.send_cases h hsend with ⟨hclosed, rfl, -⟩ | ⟨hopen, rfl, -⟩
    · rw [if_pos hclosed]
      rfl
    · rw [if_neg (by simp [hopen]), Inner.woken_eq h]
  · rw [signalled]
    rcases Inner.dropSender_cases h with ⟨hmore, heq⟩ | ⟨hlast, heq, -⟩
    · rw [if_neg hmore, heq]
      rfl
    · rw [if_pos hlast, heq, Inner.woken_eq h]

/-! ### Receivers by number -/

theorem receiver_set (hr : c.receiver i = some r) (o : Option (Receiver T)) (j : ℕ) :
    (c.setReceiver i o).receiver j = if j = i then o else c.receiver j := by
  obtain ⟨hlt, -⟩ := List.getElem?_eq_some_iff.mp (Option.join_eq_some_iff.mp hr)
  rw [receiver, setReceiver, List.getElem?_set]
  by_cases hij : i = j
  · subst hij
    simp [hlt]
  · rw [if_neg hij, if_neg (Ne.symm hij), receiver]

theorem receiver_add (c : Channel T W) (cursor j : ℕ) : (c.addReceiver cursor).receiver j =
    if j = c.receivers.length then some (.new cursor) else c.receiver j := by
  by_cases hj : j < c.receivers.length
  · rw [if_neg (Nat.ne_of_lt hj), receiver, addReceiver, List.getElem?_append_left hj, receiver]
  · rw [receiver, addReceiver, List.getElem?_append_right (Nat.not_lt.mp hj), receiver,
      List.getElem?_eq_none (Nat.not_lt.mp hj), List.getElem?_singleton]
    by_cases heq : j = c.receivers.length
    · simp [heq]
    · rw [if_neg heq, if_neg (by omega)]

theorem mem_current {id : ℕ} : id ∈ c.current i ↔
    ∃ r f, c.receiver i = some r ∧ r.recv = some f ∧ f.parked = true ∧ f.id = id := by
  simp only [current, Option.mem_def, Option.bind_eq_some_iff, Option.ite_none_right_eq_some,
    Option.some.injEq, exists_and_left]

theorem current_eq (hr : c.receiver i = some r) {f : Recv} (hf : r.recv = some f) :
    c.current i = if f.parked then some f.id else none := by
  rw [current, hr, Option.bind_some, hf, Option.bind_some]

/-! ### What the notes say -/

/-- What the note on a future says about its receiver, which is `o`. -/
def PhaseOk (g : Inner T W) (o : Option (Receiver T)) : Phase → Prop
  | .fresh => ∀ r f, o = some r → r.recv = some f → f.parked = false
  | .waiting => ∃ r f, o = some r ∧ r.recv = some f ∧ f.parked = true ∧
      g.bkern.nextSeq ≤ r.nextSeq ∧ g.closed = false
  | .signalled => ∃ r f, o = some r ∧ r.recv = some f ∧ f.parked = true ∧
      (r.nextSeq < g.bkern.nextSeq ∨ g.closed = true)
  | .ready => ∃ r f, o = some r ∧ r.recv = some f

/-- The notes, the receivers and the queue agree. -/
structure Heard (c : Channel T W) (n : ℕ → Phase) : Prop where
  sound : Sound c
  synced : c.inner.Synced
  phases : ∀ i, PhaseOk c.inner (c.receiver i) (n i)
  tickets : Tickets c.inner.rxKernel.queue c.inner.nextId c.current fun i => n i = .waiting

theorem PhaseOk.congr {g g' : Inner T W} {o : Option (Receiver T)} {p : Phase}
    (h : PhaseOk g o p) (hnext : g'.bkern.nextSeq = g.bkern.nextSeq)
    (hclosed : g'.closed = g.closed) : PhaseOk g' o p := by
  cases p with
  | fresh => exact h
  | ready => exact h
  | waiting =>
    rw [PhaseOk, hnext, hclosed]
    exact h
  | signalled =>
    rw [PhaseOk, hnext, hclosed]
    exact h

theorem heard_new {capacity : ℕ} (h : 0 < capacity) :
    Heard (new capacity : Channel T W) fun _ => .fresh := by
  have hrecv : ∀ i r, (new capacity : Channel T W).receiver i = some r → r.recv = none := by
    intro i r hr
    rw [receiver, new, List.getElem?_singleton] at hr
    split at hr
    · cases hr
      rfl
    · cases hr
  refine ⟨sound_new h, ⟨rfl, rfl⟩, fun i r f hr hf => ?_, ?_⟩
  · rw [hrecv i r hr] at hf
    cases hf
  · refine (Tickets.empty 0).congr (fun i => ?_) fun i => iff_of_false (by simp) id
    rw [Option.eq_none_iff_forall_not_mem]
    intro id hid
    obtain ⟨r, f, hr, hf, -⟩ := mem_current.mp hid
    rw [hrecv i r hr] at hf
    cases hf

@[simp] theorem noteSignals_nil (c : Channel T W) (n : ℕ → Phase) : c.noteSignals [] n = n := by
  funext i
  simp [noteSignals]

/-- The id of a receiver that has changed. -/
theorem current_set (hr : c.receiver i = some r) (inner : Inner T W) (o : Option (Receiver T))
    (j : ℕ) : ({ c with inner }.setReceiver i o).current j =
      if j = i then o.bind fun r => r.recv.bind fun f => if f.parked then some f.id else none
      else c.current j := by
  have hset : ({ c with inner }.setReceiver i o).receiver j = if j = i then o else c.receiver j :=
    receiver_set (c := { c with inner }) hr o j
  rw [current, hset]
  split <;> rfl

/-- One receiver changes, or goes, and what is noted of its future. -/
theorem Heard.change (h : Heard c n) (hr : c.receiver i = some r) (inner : Inner T W)
    {o : Option (Receiver T)} {p : Phase} (hsound : Sound ({ c with inner }.setReceiver i o))
    (hsync : inner.Synced) (hnext : inner.bkern.nextSeq = c.inner.bkern.nextSeq)
    (hclosed : inner.closed = c.inner.closed) (hphase : PhaseOk inner o p)
    (htickets : Tickets inner.rxKernel.queue inner.nextId
      ({ c with inner }.setReceiver i o).current fun j => Function.update n i p j = .waiting) :
    Heard ({ c with inner }.setReceiver i o) (Function.update n i p) := by
  refine ⟨hsound, hsync, fun j => ?_, htickets⟩
  have hset : ({ c with inner }.setReceiver i o).receiver j = if j = i then o else c.receiver j :=
    receiver_set (c := { c with inner }) hr o j
  rw [hset, Function.update_apply]
  split
  · exact hphase
  · exact (h.phases j).congr hnext hclosed

/-- The id of a receiver stays, and so does whether its future waits. -/
theorem Heard.tickets_set (h : Heard c n) (hr : c.receiver i = some r) (inner : Inner T W)
    {o : Option (Receiver T)} {p : Phase}
    (hid : (o.bind fun r => r.recv.bind fun f => if f.parked then some f.id else none) =
      c.current i) (hp : p = .waiting ↔ n i = .waiting) :
    Tickets c.inner.rxKernel.queue c.inner.nextId ({ c with inner }.setReceiver i o).current
      fun j => Function.update n i p j = .waiting := by
  refine h.tickets.congr (fun j => ?_) fun j => ?_
  · rw [current_set hr]
    split
    · rename_i hj
      rw [hj, hid]
    · rfl
  · rw [Function.update_apply]
    split
    · rename_i hj
      rw [hj]
      exact hp
    · rfl

/-- A receiver is used that has no future, and has none afterwards, or a new one. -/
theorem Heard.change_free (h : Heard c n) (hr : c.receiver i = some r) (hfree : r.recv = none)
    {r' : Receiver T} (hsound : Sound (c.setReceiver i (some r')))
    (hrecv : ∀ f, r'.recv = some f → f.parked = false) :
    Heard (c.setReceiver i (some r')) (Function.update n i .fresh) := by
  have hnone : c.current i = none := by
    rw [current, hr, Option.bind_some, hfree, Option.bind_none]
  refine h.change hr c.inner hsound h.synced rfl rfl ?_ (h.tickets_set hr c.inner ?_ ?_)
  · rintro r₁ f ⟨⟩ hf
    exact hrecv f hf
  · rw [hnone, Option.bind_some]
    cases hf : r'.recv with
    | none => rfl
    | some f =>
      rw [Option.bind_some, if_neg]
      simp [hrecv f hf]
  · refine iff_of_false (by simp) fun hwaits => ?_
    obtain ⟨id, hid, -⟩ := (h.tickets.waits i).mp hwaits
    rw [hnone] at hid
    cases hid

/-- Nothing is noted of a receiver that has no future. -/
theorem Heard.fresh (h : Heard c n) (hr : c.receiver i = some r) (hfree : r.recv = none) :
    n i = .fresh := by
  have hnone : ∀ r₁ f, c.receiver i = some r₁ → r₁.recv ≠ some f := by
    intro r₁ f hr₁ hf
    rw [hr] at hr₁
    cases hr₁
    rw [hfree] at hf
    cases hf
  have hphase := h.phases i
  cases hp : n i with
  | fresh => rfl
  | waiting =>
    rw [hp] at hphase
    obtain ⟨r₁, f, hr₁, hf, -⟩ := hphase
    exact absurd hf (hnone r₁ f hr₁)
  | signalled =>
    rw [hp] at hphase
    obtain ⟨r₁, f, hr₁, hf, -⟩ := hphase
    exact absurd hf (hnone r₁ f hr₁)
  | ready =>
    rw [hp] at hphase
    obtain ⟨r₁, f, hr₁, hf⟩ := hphase
    exact absurd hf (hnone r₁ f hr₁)

/-- One more receiver, which has no future. -/
theorem Heard.add (h : Heard c n) {cursor : ℕ} (hsound : Sound (c.addReceiver cursor)) :
    Heard (c.addReceiver cursor) n := by
  have hnew : c.receiver c.receivers.length = none := by
    rw [receiver, List.getElem?_eq_none (Nat.le_refl _)]
    rfl
  refine ⟨hsound, h.synced, fun j => ?_, h.tickets.congr (fun j => ?_) fun _ => Iff.rfl⟩
  · rw [receiver_add]
    split
    · rename_i hj
      have hold := h.phases j
      rw [hj, hnew] at hold
      rw [hj]
      cases hp : n c.receivers.length with
      | fresh =>
        rintro r f ⟨⟩ ⟨⟩
      | waiting =>
        rw [hp] at hold
        obtain ⟨r, f, hr, -⟩ := hold
        cases hr
      | signalled =>
        rw [hp] at hold
        obtain ⟨r, f, hr, -⟩ := hold
        cases hr
      | ready =>
        rw [hp] at hold
        obtain ⟨r, f, hr, -⟩ := hold
        cases hr
    · exact h.phases j
  · rw [current, receiver_add]
    split
    · rename_i hj
      rw [hj, current, hnew]
      rfl
    · rfl

/-- The queue and the wakers stay as they are. -/
theorem Heard.same (h : Heard c n) {inner : Inner T W} (hsound : Sound { c with inner })
    (hkernel : inner.rxKernel = c.inner.rxKernel) (hwaiters : inner.waiters = c.inner.waiters)
    (hid : inner.nextId = c.inner.nextId) (hnext : inner.bkern.nextSeq = c.inner.bkern.nextSeq)
    (hclosed : inner.closed = c.inner.closed) : Heard { c with inner } n := by
  refine ⟨hsound, ⟨?_, ?_⟩, fun i => (h.phases i).congr hnext hclosed, ?_⟩
  · rw [hkernel]
    exact h.synced.permit
  · rw [hkernel, hwaiters]
    exact h.synced.ids
  · rw [hkernel, hid]
    exact h.tickets

/-- Everybody who waits is noted as signalled. -/
theorem Heard.noteSignals (h : Heard c n) (i : ℕ) :
    c.noteSignals c.inner.woken n i = if n i = .waiting then .signalled else n i := by
  rw [Channel.noteSignals, Inner.woken_eq h.synced]
  by_cases hwaits : n i = .waiting
  · obtain ⟨id, hid, hq⟩ := (h.tickets.waits i).mp hwaits
    rw [← h.synced.ids] at hq
    obtain ⟨entry, hentry, heq⟩ := List.mem_map.mp hq
    have hany : (c.inner.waiters.any fun e => e.1 = id) = true :=
      List.any_eq_true.mpr ⟨entry, hentry, decide_eq_true heq⟩
    rw [Option.mem_def.mp hid, Option.any_some, hany]
    simp [hwaits]
  · simp [hwaits]

/-- Everybody is woken, and has something to receive, or will have nothing. -/
theorem Heard.wakes (h : Heard c n) (hsound : Sound c') (hreceivers : c'.receivers = c.receivers)
    (hwakes : c.inner.Wakes c'.inner) (hnext : c.inner.bkern.nextSeq ≤ c'.inner.bkern.nextSeq)
    (hclosed : c.inner.closed = true → c'.inner.closed = true)
    (hnews : c.inner.bkern.nextSeq < c'.inner.bkern.nextSeq ∨ c'.inner.closed = true) :
    Heard c' (c.noteSignals c.inner.woken n) := by
  have hreceiver : ∀ i, c'.receiver i = c.receiver i := by
    intro i
    rw [receiver, hreceivers, receiver]
  refine ⟨hsound, ⟨?_, ?_⟩, fun i => ?_, ?_⟩
  · rw [hwakes.rxKernel]
    exact h.synced.permit
  · rw [hwakes.rxKernel, hwakes.waiters]
    rfl
  · rw [h.noteSignals, hreceiver]
    have hold := h.phases i
    cases hp : n i with
    | fresh =>
      rw [hp] at hold
      exact hold
    | ready =>
      rw [hp] at hold
      exact hold
    | waiting =>
      rw [hp] at hold
      obtain ⟨r, f, hr, hf, hparked, -, -⟩ := hold
      have hle := (h.sound.receivers i r hr).cursor_le
      rw [← h.sound.ring.nextSeq] at hle
      exact ⟨r, f, hr, hf, hparked, hnews.imp_left fun hlt => Nat.lt_of_le_of_lt hle hlt⟩
    | signalled =>
      rw [hp] at hold
      obtain ⟨r, f, hr, hf, hparked, hready⟩ := hold
      exact ⟨r, f, hr, hf, hparked,
        hready.imp (fun hlt => Nat.lt_of_lt_of_le hlt hnext) hclosed⟩
  · rw [hwakes.rxKernel, hwakes.nextId]
    refine h.tickets.clear (fun i => ?_) fun i => ?_
    · rw [current, hreceiver, current]
    · rw [h.noteSignals]
      split
      · simp
      · assumption

/-- A poll of `recv` keeps it: it draws a ticket, keeps the one it has, or never had one. -/
theorem Heard.polled (h : Heard c n) (hr : c.receiver i = some r) {f f' : Recv}
    (hf : r.recv = some f) (hfresh : n i ≠ .ready) {waker : W} {res : Poll (Except RecvError T)}
    {inner : Inner T W} {cursor : ℕ}
    (hpoll : c.inner.Polled f r.nextSeq waker res inner f' cursor)
    (hsound : Sound ({ c with inner }.setReceiver i
      (some { r.notePoll res cursor with recv := some f' }))) :
    Heard ({ c with inner }.setReceiver i (some { r.notePoll res cursor with recv := some f' }))
      (Function.update n i (if res.isReady then .ready else .waiting)) := by
  have hold := h.phases i
  have hunique : ∀ r₁ f₁, c.receiver i = some r₁ → r₁.recv = some f₁ → r₁ = r ∧ f₁ = f := by
    intro r₁ f₁ hr₁ hf₁
    rw [hr] at hr₁
    cases hr₁
    rw [hf] at hf₁
    exact ⟨rfl, (Option.some.inj hf₁).symm⟩
  cases hpoll with
  | @ready res cursor hnews =>
    have hidle : n i ≠ .waiting := by
      intro hwaits
      rw [hwaits] at hold
      obtain ⟨r₁, f₁, hr₁, hf₁, -, hle, hopen⟩ := hold
      obtain ⟨rfl, rfl⟩ := hunique r₁ f₁ hr₁ hf₁
      rcases hnews with hlt | hclosed
      · omega
      · rw [hopen] at hclosed
        cases hclosed
    refine h.change hr _ hsound h.synced rfl rfl ⟨_, f, rfl, rfl⟩ (h.tickets_set hr _ ?_ ?_)
    · exact (current_eq hr hf).symm
    · exact iff_of_false (by simp [Poll.isReady]) hidle
  | refreshed hle hopen hparked =>
    have hwaits : n i = .waiting := by
      cases hp : n i with
      | fresh =>
        rw [hp] at hold
        rw [hold r f hr hf] at hparked
        cases hparked
      | waiting => rfl
      | signalled =>
        rw [hp] at hold
        obtain ⟨r₁, f₁, hr₁, hf₁, -, hnews⟩ := hold
        obtain ⟨rfl, rfl⟩ := hunique r₁ f₁ hr₁ hf₁
        rcases hnews with hlt | hclosed
        · omega
        · rw [hopen] at hclosed
          cases hclosed
      | ready => exact absurd hp hfresh
    refine h.change hr _ hsound (h.synced.polled (.refreshed hle hopen hparked)) rfl rfl
      ⟨_, f, rfl, rfl, hparked, hle, hopen⟩ (h.tickets_set hr _ ?_ ?_)
    · exact (current_eq hr hf).symm
    · exact iff_of_true rfl hwaits
  | parked hle hopen hparked =>
    have hidle : n i ≠ .waiting := by
      intro hwaits
      rw [hwaits] at hold
      obtain ⟨r₁, f₁, hr₁, hf₁, hp, -⟩ := hold
      obtain ⟨rfl, rfl⟩ := hunique r₁ f₁ hr₁ hf₁
      rw [hparked] at hp
      cases hp
    refine h.change hr _ hsound (h.synced.polled (.parked hle hopen hparked)) rfl rfl
      ⟨_, _, rfl, rfl, rfl, hle, hopen⟩ (h.tickets.arrive hidle ?_ (fun j hj => ?_) fun j => ?_)
    · rw [current_set hr, if_pos rfl]
      rfl
    · rw [current_set hr, if_neg hj]
    · rw [Function.update_apply]
      split
      · rename_i hj
        exact iff_of_true rfl (.inl hj)
      · rename_i hj
        exact ⟨.inr, fun hor => hor.resolve_left hj⟩

/-- A future of `recv` is dropped, and perhaps its receiver. -/
theorem Heard.dropRecv (h : Heard c n) (hr : c.receiver i = some r) {inner : Inner T W}
    (hinner : inner = r.recv.elim c.inner c.inner.dropRecv) {o : Option (Receiver T)}
    (ho : ∀ r', o = some r' → r'.recv = none) (hsound : Sound ({ c with inner }.setReceiver i o)) :
    Heard ({ c with inner }.setReceiver i o) (Function.update n i .fresh) := by
  have hsync : inner.Synced := by
    rw [hinner]
    cases r.recv with
    | none => exact h.synced
    | some f => exact h.synced.dropRecv f
  have hqueue : inner.rxKernel.queue =
      (c.current i).elim c.inner.rxKernel.queue c.inner.rxKernel.queue.erase := by
    rw [hinner, current, hr, Option.bind_some]
    cases r.recv with
    | none => rfl
    | some f =>
      rw [Option.elim_some, Option.bind_some, Inner.dropRecv]
      split <;> rfl
  have hsame : inner.nextId = c.inner.nextId ∧ inner.bkern = c.inner.bkern ∧
      inner.closed = c.inner.closed := by
    rw [hinner]
    cases r.recv with
    | none => exact ⟨rfl, rfl, rfl⟩
    | some f =>
      rw [Option.elim_some, Inner.dropRecv]
      split <;> exact ⟨rfl, rfl, rfl⟩
  refine h.change hr _ hsound hsync (by rw [hsame.2.1]) hsame.2.2 ?_ ?_
  · intro r' f hr' hf
    rw [ho r' hr'] at hf
    cases hf
  · rw [hqueue, hsame.1]
    refine h.tickets.leave (i := i) ?_ (fun j hj => ?_) fun j => ?_
    · rw [current_set hr, if_pos rfl]
      cases o with
      | none => rfl
      | some r' => rw [Option.bind_some, ho r' rfl, Option.bind_none]
    · rw [current_set hr, if_neg hj]
    · rw [Function.update_apply]
      split
      · rename_i hj
        exact iff_of_false (by simp) fun hboth => hboth.1 hj
      · rename_i hj
        exact ⟨fun hwaits => ⟨hj, hwaits⟩, And.right⟩

/-- **One operation** keeps it, within the contract. -/
theorem Heard.step (h : Heard c n) (hcontract : Contract (c, n) l) (hstep : c.step l = some c') :
    Heard c' (c.note l n) := by
  have hsound := h.sound.step hstep
  cases step_cases hstep with
  | @send value res wakers inner _ hsend =>
    have hnote : c.note (.send value) n =
        c.noteSignals (if c.inner.closed then [] else c.inner.woken) n := rfl
    rw [hnote]
    rcases Inner.send_cases h.synced hsend with ⟨hclosed, -, rfl⟩ | ⟨hopen, -, hwakes, hnext, -⟩
    · rw [if_pos hclosed, noteSignals_nil]
      exact ⟨hsound, h.synced, h.phases, h.tickets⟩
    · have hnot : ¬ c.inner.closed = true := by simp [hopen]
      rw [if_neg hnot]
      refine h.wakes hsound rfl hwakes ?_ (fun hclosed => ?_) (.inl ?_)
      · show c.inner.bkern.nextSeq ≤ inner.bkern.nextSeq
        omega
      · rw [hopen] at hclosed
        cases hclosed
      · show c.inner.bkern.nextSeq < inner.bkern.nextSeq
        omega
  | cloneSender _ hclone =>
    obtain ⟨senderCount, -, heq⟩ := Option.bind_eq_some_iff.mp hclone
    cases heq
    have hnote : c.note .cloneSender n = n := c.noteSignals_nil n
    rw [hnote]
    exact h.same hsound rfl rfl rfl rfl rfl
  | dropSender =>
    have hnote : c.note .dropSender n =
        c.noteSignals (if c.inner.senderCount - 1 = 0 then c.inner.woken else []) n := rfl
    rw [hnote]
    rcases Inner.dropSender_cases h.synced with ⟨hmore, heq⟩ | ⟨hlast, -, hwakes, hkern, hclosed⟩
    · rw [if_neg hmore, noteSignals_nil]
      refine h.same hsound ?_ ?_ ?_ ?_ ?_ <;> rw [heq]
    · rw [if_pos hlast]
      refine h.wakes hsound rfl hwakes ?_ (fun _ => hclosed) (.inr hclosed)
      exact Nat.le_of_eq (congrArg BroadcastKernel.nextSeq hkern).symm
  | subscribe =>
    have hnote : c.note .subscribe n = n := c.noteSignals_nil n
    rw [hnote]
    exact h.add hsound
  | @resubscribe i =>
    have hnote : c.note (.resubscribe i) n = n := c.noteSignals_nil n
    rw [hnote]
    exact h.add hsound
  | @cloneReceiver i =>
    have hnote : c.note (.cloneReceiver i) n = n := c.noteSignals_nil n
    rw [hnote]
    exact h.add hsound
  | @tryRecv i r res cursor hr =>
    have hfree : r.recv = none := hcontract.1 i rfl r hr
    have hkept : Function.update n i .fresh = n := by
      rw [← h.fresh hr hfree]
      exact Function.update_eq_self i n
    have hnote : c.note (.tryRecv i) n = n := c.noteSignals_nil n
    rw [hnote, ← hkept]
    refine h.change_free hr hfree hsound fun f hf => ?_
    have hsame : (r.note res cursor).recv = r.recv := rfl
    rw [hsame, hfree] at hf
    cases hf
  | @recv i r hr =>
    refine h.change_free hr (hcontract.1 i rfl r hr) hsound ?_
    rintro f ⟨⟩
    rfl
  | @pollRecv i waker r f f' res inner cursor hr hf hpoll =>
    have hres : c.pollResult i waker = some res := by
      rw [pollResult, hr]
      show (r.recv.bind _) = _
      rw [hf]
      show ((c.inner.pollRecv f r.nextSeq waker).bind _) = _
      rw [hpoll]
      rfl
    rw [note, hres]
    exact h.polled hr hf (hcontract.2 i rfl) (Inner.poll_cases h.synced.permit hpoll) hsound
  | dropRecv hr hf =>
    refine h.dropRecv hr (by rw [hf]; rfl) ?_ hsound
    rintro r' ⟨⟩
    rfl
  | dropReceiver hr => exact h.dropRecv hr rfl (by simp) hsound

/-- **Who waits is who is queued**, as long as futures are used as the compiler and the contract of
`Future` say. -/
theorem heard_of_reachable {s : Channel T W × (ℕ → Phase)}
    (h : (observed.restrict Contract).Reachable s) : Heard s.1 s.2 := by
  refine h.invariant (I := fun s => Heard s.1 s.2) ?_ ?_
  · rintro ⟨c, n⟩ ⟨⟨capacity, hcap, rfl⟩, rfl⟩
    exact heard_new hcap
  · rintro ⟨c, n⟩ l ⟨c', n'⟩ hc ⟨hstep, hcontract⟩
    obtain ⟨hnext, rfl⟩ := Machine.observe_step hstep
    exact hc.step hcontract hnext

end Channel

end Lion.Broadcast
