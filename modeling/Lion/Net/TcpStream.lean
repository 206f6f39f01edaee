import Lion.Library.Machine
import Lion.Poll
import Lion.Reactor.Events

/-!
# Reading from a stream

`TcpStream` of `lion-utility`, its reading half, with the reactor under it and the socket as mio and
the operating system present it. Readiness is edge-triggered: the flag of the stream is set by the
events that `park` collects, one for each batch of arrivals, and `poll_read` clears it when it has
reason to think that there is nothing left. It waits if the flag is unset.

A read that would block is such a reason. `poll_read` takes a short read for another: what was
unread is read then, but if the peer's FIN has come too and was already reported, the end of the
stream is still to be read, and no further event will say so.

## Which runs are safe

The condition is on reads, and on the state before them (`Conn.SafeRead`): the buffer is not larger
than what is unread, or there is nothing unread, or the FIN has not come, or it is still to be
reported. In runs of such reads the flag is set as long as something that was reported is waiting
(`Conn.Flagged`), so that a reader that parks will be woken. The condition cannot be weakened. One
read outside of it leaves the stream `Lost`: the flag is unset, the end of the stream is unread and
already reported, and no step changes that.

## The socket

What is under the reactor is not modelled further than reading depends on it. Bytes arrive, then
possibly a FIN, and nothing afterwards. A read returns what there is up to the size of the buffer,
and no bytes at the end of the stream. mio reports a socket to which something has arrived since it
reported last, at whichever park it pleases.

## Conventions

`Conn.parked` is not in the source: a `poll_read` has returned pending, and no readable event has
been processed since. The operating system may report arrivals at whatever park it likes, but does
not report what did not arrive.

## Main results

* `Conn.restrict_safeRead_neverLost` — the runs in which no readiness is lost
* `Conn.Ok.lost`, `Conn.Lost.step` — a read that is not safe loses the end of the stream for good
* `Conn.not_neverLost` — a run in which it is
-/

namespace Lion

/-! ### The socket -/

/-- A socket, its receiving half: what has arrived, and what was done about it. -/
structure Socket where
  /-- What has arrived and was not read. -/
  unread : List UInt8
  /-- The peer's FIN has arrived. -/
  fin : Bool
  /-- A read has returned the end of the stream. -/
  eofRead : Bool
  /-- Something has arrived since mio last reported. -/
  unreported : Bool
deriving DecidableEq, Repr

/-- What a read of the socket returns. -/
inductive ReadResult
  /-- `Ok`; no bytes are the end of the stream. -/
  | ok (bytes : List UInt8)
  | wouldBlock
deriving DecidableEq, Repr

/-- `read` with a buffer of `len` bytes. -/
def Socket.read (sock : Socket) (len : ℕ) : ReadResult × Socket :=
  if sock.unread = [] then
    if sock.fin then (.ok [], { sock with eofRead := true }) else (.wouldBlock, sock)
  else (.ok (sock.unread.take len), { sock with unread := sock.unread.drop len })

/-- Something is waiting to be read: bytes, or the end of the stream. -/
def Socket.waiting (sock : Socket) : Bool :=
  !sock.unread.isEmpty || (sock.fin && !sock.eofRead)

/-! ### The stream -/

/-- `IoAction`: what a poll comes to after the system call. -/
inductive IoAction
  | complete
  /-- Set the waker of the direction and return pending. -/
  | arm
deriving DecidableEq, Repr

/-- `IoKernel::poll_step`, its decision: arm the waker unless the flag was set and a call went
through. -/
def pollStep (wasReady wouldBlock : Bool) : IoAction :=
  if !wasReady || wouldBlock then .arm else .complete

/-- A stream, the reactor of its thread, and its socket. -/
structure Conn (W : Type) where
  reactor : Reactor W
  resourceId : UInt64
  socket : Socket
  /-- A `poll_read` has returned pending, and no readable event has been processed since. -/
  parked : Bool

/-- What can happen to a stream: bytes or the peer's FIN arrive, the reactor parks, or it is
read. -/
inductive NetLabel (W : Type)
  | arrive (bytes : List UInt8)
  | fin
  | park (timeout : Option UInt64) (raw : UInt64) (poll : Except IoError (List MioEvent))
  /-- `TcpStream::poll_read` with a buffer of `len` bytes. -/
  | pollRead (len : ℕ) (waker : W)

namespace Conn

variable {W : Type}

/-- `is_readable` of the stream, which is the flag that the reactor keeps for its resource. -/
def isReadable (s : Conn W) : Bool := Readiness.isReadable s.reactor.readiness s.resourceId

/-- `clear_readable` of the stream, which nothing but an event undoes. -/
def clearReadable (s : Conn W) : Conn W :=
  { s with reactor := { s.reactor with
      readiness := Readiness.clearReadable s.reactor.readiness s.resourceId } }

/-- The read in `poll_read`: whether it would block, what was read, and the flag cleared after a
read that would block or was short. -/
def tryRead (s : Conn W) (len : ℕ) : Bool × List UInt8 × Conn W :=
  match s.socket.read len with
  | (.ok bytes, socket) =>
    let s := { s with socket }
    (false, bytes, if 0 < bytes.length ∧ bytes.length < len then s.clearReadable else s)
  | (.wouldBlock, socket) => (true, [], { s with socket }.clearReadable)

/-- `TcpStream::poll_read`: try to read if the flag is set, and wait if there was nothing to
read. -/
def pollRead (s : Conn W) (len : ℕ) (waker : W) : Option (Poll (List UInt8) × Conn W) :=
  let wasReady := s.isReadable
  let (wouldBlock, bytes, s) := if wasReady then s.tryRead len else (false, [], s)
  match pollStep wasReady wouldBlock with
  | .arm => do
    let reactor ← s.reactor.setWaker s.resourceId ⟨true, false⟩ waker
    return (.pending, { s with reactor, parked := true })
  | .complete => some (.ready bytes, { s with parked := false })

/-- One step. Nothing arrives after a FIN; mio reports only what has arrived since it last did; and
buffers are not empty. -/
def step (s : Conn W) : NetLabel W → Option (Conn W)
  | .arrive bytes =>
    if bytes = [] ∨ s.socket.fin = true then none
    else some { s with socket :=
      { s.socket with unread := s.socket.unread ++ bytes, unreported := true } }
  | .fin =>
    if s.socket.fin then none
    else some { s with socket := { s.socket with fin := true, unreported := true } }
  | .park timeout raw poll =>
    let reported := reports poll s.resourceId
    if reported && !s.socket.unreported then none
    else do
      let (_, reactor) ← s.reactor.park timeout raw poll
      return { s with
        reactor
        socket := { s.socket with unreported := s.socket.unreported && !reported }
        parked := s.parked && !reported }
  | .pollRead len waker => if len = 0 then none else (s.pollRead len waker).map Prod.snd

/-- `TcpStream::from_mio`, with what has arrived by then; registering a source makes mio report what
it already has. -/
def fromMio (r : Reactor W) (unread : List UInt8) (fin : Bool) : Option (Conn W) :=
  match r.registerIoResource ⟨true, true⟩ (.ok ()) with
  | (.ok rid, r) => some {
      reactor := { r with readiness := Readiness.initReadiness r.readiness rid }
      resourceId := rid
      socket := ⟨unread, fin, false, !unread.isEmpty || fin⟩
      parked := false }
  | (.error _, _) => none

/-- Streams as a machine: on any reactor, with anything arrived. -/
def machine : Machine (Conn W) (NetLabel W) :=
  Machine.ofStep (fun s => ∃ r unread fin, fromMio r unread fin = some s) step

/-! ### The read -/

variable {s s' : Conn W} {len : ℕ} {waker : W}

/-- No reader is left waiting: if one is parked and nothing is still to be reported, then there are
no unread bytes, and the end of the stream has been read if it has come. -/
def NeverLost (s : Conn W) : Prop :=
  s.parked = true → s.socket.unreported = false → s.socket.waiting = false

instance (s : Conn W) : Decidable s.NeverLost :=
  inferInstanceAs (Decidable (_ → _ → _))

/-- The step is not a short read of the last bytes before a FIN that has been reported. -/
def SafeRead (s : Conn W) : NetLabel W → Prop
  | .pollRead len _ => ¬ (s.isReadable = true ∧ 0 < s.socket.unread.length ∧
      s.socket.unread.length < len ∧ s.socket.fin = true ∧ s.socket.unreported = false)
  | _ => True

instance (s : Conn W) : ∀ l, Decidable (s.SafeRead l)
  | .pollRead _ _ => inferInstanceAs (Decidable (¬ _))
  | .arrive _ => inferInstanceAs (Decidable True)
  | .fin => inferInstanceAs (Decidable True)
  | .park _ _ _ => inferInstanceAs (Decidable True)

/-- What holds of a stream in every run, besides what is lost. -/
structure Ok (s : Conn W) : Prop where
  /-- The stream has a flag, as it was registered. -/
  known : s.resourceId.toNat < s.reactor.readiness.length
  /-- The end of the stream is read after everything else. -/
  drained : s.socket.eofRead = true → s.socket.unread = [] ∧ s.socket.fin = true
  /-- A parked reader finds the flag unset. -/
  unset : s.parked = true → s.isReadable = false

/-- The flag is set as long as something reported is waiting. -/
def Flagged (s : Conn W) : Prop :=
  s.socket.unreported = false → s.isReadable = false → s.socket.waiting = false

theorem Ok.neverLost (h : s.Ok) (hflag : s.Flagged) : s.NeverLost :=
  fun hparked hreported => hflag hreported (h.unset hparked)

/-- What a `poll_read` does to the socket, the flag and the reader. -/
inductive Reads (s : Conn W) (len : ℕ) : Socket → Bool → Bool → Prop
  | unready : s.isReadable = false → Reads s len s.socket false true
  | block : s.isReadable = true → s.socket.unread = [] → s.socket.fin = false →
      Reads s len s.socket false true
  /-- The read is the end of the stream. -/
  | eof : s.isReadable = true → s.socket.unread = [] → s.socket.fin = true →
      Reads s len { s.socket with eofRead := true } true false
  | short : s.isReadable = true → 0 < s.socket.unread.length → s.socket.unread.length < len →
      Reads s len { s.socket with unread := [] } false false
  | full : s.isReadable = true → len ≤ s.socket.unread.length →
      Reads s len { s.socket with unread := s.socket.unread.drop len } true false

@[simp] theorem isReadable_clearReadable (s : Conn W) : s.clearReadable.isReadable = false := by
  simp [isReadable, clearReadable, Readiness.isReadable_clearReadable]

@[simp] theorem length_clearReadable (s : Conn W) :
    s.clearReadable.reactor.readiness.length = s.reactor.readiness.length := by
  simp [clearReadable, Readiness.clearReadable]

/-- A stream that arms its waker, which leaves flag and socket alone. -/
def arm (s : Conn W) (waker : W) : Option (Poll (List UInt8) × Conn W) :=
  (s.reactor.setWaker s.resourceId ⟨true, false⟩ waker).bind fun reactor =>
    some (.pending, { s with reactor, parked := true })

theorem pollRead_unready (hready : s.isReadable = false) :
    s.pollRead len waker = s.arm waker := by
  simp [pollRead, hready, pollStep, arm]

theorem pollRead_ready (hready : s.isReadable = true) :
    s.pollRead len waker =
      match s.tryRead len with
      | (true, _, t) => t.arm waker
      | (false, bytes, t) => some (.ready bytes, { t with parked := false }) := by
  rw [pollRead, hready]
  obtain ⟨wouldBlock, bytes, t⟩ := s.tryRead len
  cases wouldBlock <;> rfl

theorem tryRead_empty (hempty : s.socket.unread = []) :
    s.tryRead len =
      if s.socket.fin then (false, [], { s with socket := { s.socket with eofRead := true } })
      else (true, [], s.clearReadable) := by
  rw [tryRead, Socket.read, if_pos hempty]
  by_cases hfin : s.socket.fin = true
  · rw [if_pos hfin, if_pos hfin]
    rfl
  · rw [if_neg hfin, if_neg hfin]

theorem tryRead_nonempty (hne : s.socket.unread ≠ []) :
    s.tryRead len =
      if s.socket.unread.length < len then
        (false, s.socket.unread, { s with socket := { s.socket with unread := [] } }.clearReadable)
      else (false, s.socket.unread.take len,
        { s with socket := { s.socket with unread := s.socket.unread.drop len } }) := by
  have hpos := List.length_pos_iff.mpr hne
  rw [tryRead, Socket.read, if_neg hne]
  dsimp only
  rw [List.length_take]
  split
  · rename_i hshort
    rw [if_pos (by omega), List.take_of_length_le (by omega), List.drop_of_length_le (by omega)]
  · rw [if_neg (by omega)]

/-- Arming keeps the flags, and sets one waker. -/
theorem arm_spec {res : Poll (List UInt8)} (h : s.arm waker = some (res, s')) :
    s'.socket = s.socket ∧ s'.isReadable = s.isReadable ∧ s'.parked = true ∧
      s'.resourceId = s.resourceId ∧
      s'.reactor.readiness.length = s.reactor.readiness.length := by
  obtain ⟨reactor, hset, heq⟩ := Option.bind_eq_some_iff.mp h
  cases heq
  have hkeep := Reactor.readiness_setWaker hset
  refine ⟨rfl, ?_, rfl, rfl, by rw [hkeep]⟩
  rw [isReadable, hkeep]
  rfl

theorem pollRead_reads {res : Poll (List UInt8)}
    (h : s.pollRead len waker = some (res, s')) :
    Reads s len s'.socket s'.isReadable s'.parked ∧ s'.resourceId = s.resourceId ∧
      s'.reactor.readiness.length = s.reactor.readiness.length := by
  cases hready : s.isReadable with
  | false =>
    rw [pollRead_unready hready] at h
    obtain ⟨hsock, hflag, hparked, hid, hlength⟩ := arm_spec h
    rw [hsock, hflag, hparked, hready]
    exact ⟨.unready hready, hid, hlength⟩
  | true =>
    rw [pollRead_ready hready] at h
    by_cases hempty : s.socket.unread = []
    · rw [tryRead_empty hempty] at h
      cases hfin : s.socket.fin with
      | false =>
        rw [hfin] at h
        obtain ⟨hsock, hflag, hparked, hid, hlength⟩ := arm_spec h
        rw [hsock, hflag, hparked, isReadable_clearReadable]
        exact ⟨.block hready hempty hfin, hid, by rw [hlength, length_clearReadable]⟩
      | true =>
        rw [hfin] at h
        cases h
        have heof : Reads s len { s.socket with eofRead := true } s.isReadable false := by
          rw [hready]
          exact .eof hready hempty hfin
        exact ⟨heof, rfl, rfl⟩
    · rw [tryRead_nonempty hempty] at h
      by_cases hshort : s.socket.unread.length < len
      · rw [if_pos hshort] at h
        cases h
        have hread : Reads s len { s.socket with unread := [] }
            { s with socket := { s.socket with unread := [] } }.clearReadable.isReadable false := by
          rw [isReadable_clearReadable]
          exact .short hready (List.length_pos_iff.mpr hempty) hshort
        exact ⟨hread, rfl, length_clearReadable _⟩
      · rw [if_neg hshort] at h
        cases h
        have hread := Reads.full hready (Nat.le_of_not_lt hshort)
        rw [← hready] at hread
        exact ⟨hread, rfl, rfl⟩

/-! ### One step -/

/-- A park reports nothing, or it reports the stream and sets its flag. -/
theorem step_park {timeout : Option UInt64} {raw : UInt64} {poll : Except IoError (List MioEvent)}
    (hknown : s.resourceId.toNat < s.reactor.readiness.length)
    (h : s.step (.park timeout raw poll) = some s') :
    s'.resourceId = s.resourceId ∧
      s'.reactor.readiness.length = s.reactor.readiness.length ∧
      ((s'.isReadable = s.isReadable ∧ s'.socket = s.socket ∧ s'.parked = s.parked) ∨
        (s.socket.unreported = true ∧ s'.isReadable = true ∧ s'.parked = false ∧
          s'.socket = { s.socket with unreported := false })) := by
  simp only [step] at h
  split at h
  · cases h
  · rename_i hnew
    obtain ⟨⟨res, reactor⟩, hpark, heq⟩ := Option.bind_eq_some_iff.mp h
    cases heq
    obtain ⟨hflag, hlength⟩ := Reactor.isReadable_park hpark hknown
    refine ⟨rfl, hlength, ?_⟩
    cases hreported : reports poll s.resourceId with
    | false =>
      rw [hreported, Bool.or_false] at hflag
      exact .inl ⟨hflag, by simp, by simp⟩
    | true =>
      rw [hreported, Bool.or_true] at hflag
      simp only [hreported, Bool.true_and, Bool.not_eq_true', Bool.not_eq_false] at hnew
      exact .inr ⟨hnew, hflag, by simp, by simp⟩

theorem step_pollRead (h : s.step (.pollRead len waker) = some s') :
    Reads s len s'.socket s'.isReadable s'.parked ∧ s'.resourceId = s.resourceId ∧
      s'.reactor.readiness.length = s.reactor.readiness.length := by
  simp only [step] at h
  split at h
  · cases h
  · obtain ⟨⟨res, t⟩, hpoll, heq⟩ := Option.map_eq_some_iff.mp h
    cases heq
    exact pollRead_reads hpoll

theorem step_arrive {bytes : List UInt8} (h : s.step (.arrive bytes) = some s') :
    s.socket.fin = false ∧ s' = { s with socket :=
      { s.socket with unread := s.socket.unread ++ bytes, unreported := true } } := by
  simp only [step] at h
  split at h
  · cases h
  · rename_i hopen
    cases h
    exact ⟨by simpa using (not_or.mp hopen).2, rfl⟩

theorem step_fin (h : s.step .fin = some s') :
    s.socket.fin = false ∧
      s' = { s with socket := { s.socket with fin := true, unreported := true } } := by
  simp only [step] at h
  split at h
  · cases h
  · rename_i hopen
    cases h
    exact ⟨by simpa using hopen, rfl⟩

theorem Ok.step {l : NetLabel W} (h : s.Ok) (hstep : s.step l = some s') : s'.Ok := by
  cases l with
  | arrive bytes =>
    obtain ⟨hfin, rfl⟩ := step_arrive hstep
    exact ⟨h.known, fun heof => by simp [(h.drained heof).2] at hfin, h.unset⟩
  | fin =>
    obtain ⟨hfin, rfl⟩ := step_fin hstep
    exact ⟨h.known, fun heof => by simp [(h.drained heof).2] at hfin, h.unset⟩
  | park timeout raw poll =>
    obtain ⟨hid, hlength, ⟨hflag, hsock, hparked⟩ | ⟨-, -, hparked, hsock⟩⟩ :=
      step_park h.known hstep
    · refine ⟨by rw [hid, hlength]; exact h.known, by rw [hsock]; exact h.drained, ?_⟩
      rw [hflag, hparked]
      exact h.unset
    · refine ⟨by rw [hid, hlength]; exact h.known, by rw [hsock]; exact h.drained, ?_⟩
      simp [hparked]
  | pollRead len waker =>
    obtain ⟨hread, hid, hlength⟩ := step_pollRead hstep
    have hknown : s'.resourceId.toNat < s'.reactor.readiness.length := by
      rw [hid, hlength]
      exact h.known
    refine ⟨hknown, ?_, ?_⟩
    · intro heof
      generalize s'.socket = sock, s'.isReadable = flag, s'.parked = parked at hread heof ⊢
      cases hread with
      | unready => exact h.drained heof
      | block => exact h.drained heof
      | eof _ hempty hfin => exact ⟨hempty, hfin⟩
      | short => exact ⟨rfl, (h.drained heof).2⟩
      | full =>
        obtain ⟨hempty, hfin⟩ := h.drained heof
        exact ⟨by simp [hempty], hfin⟩
    · generalize s'.socket = sock, s'.isReadable = flag, s'.parked = parked at hread ⊢
      cases hread <;> simp

/-- A safe step leaves the flag set if something reported is waiting. -/
theorem Flagged.step {l : NetLabel W} (h : s.Flagged) (hok : s.Ok) (hsafe : s.SafeRead l)
    (hstep : s.step l = some s') : s'.Flagged := by
  rw [Flagged] at h ⊢
  cases l with
  | arrive bytes =>
    obtain ⟨-, rfl⟩ := step_arrive hstep
    intro hreported
    simp at hreported
  | fin =>
    obtain ⟨-, rfl⟩ := step_fin hstep
    intro hreported
    simp at hreported
  | park timeout raw poll =>
    obtain ⟨-, -, ⟨hflag, hsock, -⟩ | ⟨-, hflag, -, -⟩⟩ := step_park hok.known hstep
    · rw [hflag, hsock]
      exact h
    · simp [hflag]
  | pollRead len waker =>
    have hread := (step_pollRead hstep).1
    generalize s'.socket = sock, s'.isReadable = flag, s'.parked = parked at hread ⊢
    intro hreported hunset
    cases hread with
    | unready hready => exact h hreported hready
    | block _ hempty hfin => simp [Socket.waiting, hempty, hfin]
    | eof => cases hunset
    | short hready hpos hshort =>
      -- what is left is the end of the stream, which has not come or is yet to be reported
      have hfin : s.socket.fin = false := by
        by_contra hfin
        exact hsafe ⟨hready, hpos, hshort, by simpa using hfin, hreported⟩
      simp [Socket.waiting, hfin]
    | full => cases hunset

/-! ### Runs -/

/-- The end of the stream is left unread, with the flag unset and nothing to be reported. -/
structure Lost (s : Conn W) : Prop where
  unset : s.isReadable = false
  fin : s.socket.fin = true
  eofRead : s.socket.eofRead = false
  unreported : s.socket.unreported = false

/-- A read that is not safe loses the end of the stream. -/
theorem Ok.lost {l : NetLabel W} (h : s.Ok) (hsafe : ¬ s.SafeRead l) (hstep : s.step l = some s') :
    s'.Lost ∧ s'.Ok := by
  refine ⟨?_, h.step hstep⟩
  cases l with
  | arrive => exact absurd trivial hsafe
  | fin => exact absurd trivial hsafe
  | park => exact absurd trivial hsafe
  | pollRead len waker =>
    obtain ⟨hready, hpos, hshort, hfin, hreported⟩ := not_not.mp hsafe
    have hread := (step_pollRead hstep).1
    have heof : s.socket.eofRead = false := by
      by_contra heof
      have hempty := (h.drained (by simpa using heof)).1
      simp [hempty] at hpos
    suffices hlost : s'.isReadable = false ∧ s'.socket.fin = true ∧ s'.socket.eofRead = false ∧
        s'.socket.unreported = false from ⟨hlost.1, hlost.2.1, hlost.2.2.1, hlost.2.2.2⟩
    generalize s'.socket = sock, s'.isReadable = flag, s'.parked = parked at hread ⊢
    cases hread with
    | unready hunready => simp [hready] at hunready
    | block _ hempty => simp [hempty] at hpos
    | eof _ hempty => simp [hempty] at hpos
    | short => exact ⟨rfl, hfin, heof, hreported⟩
    | full _ hfull => omega

/-- Without the flag, a `poll_read` parks and reads nothing. -/
theorem step_pollRead_unready (hunset : s.isReadable = false)
    (h : s.step (.pollRead len waker) = some s') :
    s'.socket = s.socket ∧ s'.isReadable = false ∧ s'.parked = true := by
  have hread := (step_pollRead h).1
  generalize s'.socket = sock, s'.isReadable = flag, s'.parked = parked at hread ⊢
  cases hread with
  | unready => exact ⟨rfl, rfl, rfl⟩
  | block hready => simp [hunset] at hready
  | eof hready => simp [hunset] at hready
  | short hready => simp [hunset] at hready
  | full hready => simp [hunset] at hready

/-- What is lost stays lost, whatever the step. -/
theorem Lost.step {l : NetLabel W} (h : s.Lost) (hok : s.Ok) (hstep : s.step l = some s') :
    s'.Lost ∧ s'.Ok := by
  refine ⟨?_, hok.step hstep⟩
  cases l with
  | arrive bytes =>
    have hopen := (step_arrive hstep).1
    simp [h.fin] at hopen
  | fin =>
    have hopen := (step_fin hstep).1
    simp [h.fin] at hopen
  | park timeout raw poll =>
    obtain ⟨-, -, ⟨hflag, hsock, -⟩ | ⟨hnew, -⟩⟩ := step_park hok.known hstep
    · exact ⟨by rw [hflag, h.unset], by rw [hsock, h.fin], by rw [hsock, h.eofRead],
        by rw [hsock, h.unreported]⟩
    · simp [h.unreported] at hnew
  | pollRead len waker =>
    obtain ⟨hsock, hflag, -⟩ := step_pollRead_unready h.unset hstep
    exact ⟨hflag, by rw [hsock, h.fin], by rw [hsock, h.eofRead], by rw [hsock, h.unreported]⟩

theorem Lost.run {as : List (NetLabel W)} (h : s.Lost) (hok : s.Ok) (hrun : machine.Run s as s') :
    s'.Lost ∧ s'.Ok := by
  induction hrun with
  | nil => exact ⟨h, hok⟩
  | snoc _ hlast ih => exact ih.1.step ih.2 hlast

/-- A reader of a lost stream is left waiting. -/
theorem Lost.left_waiting (h : s.Lost) (hstep : s.step (.pollRead len waker) = some s') :
    ¬ s'.NeverLost := by
  obtain ⟨hsock, -, hparked⟩ := step_pollRead_unready h.unset hstep
  intro hnever
  have hwaiting := hnever hparked (by rw [hsock, h.unreported])
  rw [hsock] at hwaiting
  simp [Socket.waiting, h.fin, h.eofRead] at hwaiting

/-- A new stream has its flag set, so that the first read is tried. -/
theorem ok_fromMio {r : Reactor W} {unread : List UInt8} {fin : Bool}
    (h : fromMio r unread fin = some s) : s.Ok ∧ s.isReadable = true := by
  rw [fromMio] at h
  split at h
  · rename_i rid r' _
    cases h
    obtain ⟨hlength, hflag⟩ := Readiness.isReadable_initReadiness r'.readiness rid
    exact ⟨⟨hlength, by simp, by simp⟩, hflag⟩
  · cases h

theorem ok_of_restrict (h : (machine.restrict SafeRead).Reachable s) : s.Ok ∧ s.Flagged := by
  refine h.invariant (I := fun s => s.Ok ∧ s.Flagged) ?_ ?_
  · rintro s ⟨r, unread, fin, hnew⟩
    obtain ⟨hok, hflag⟩ := ok_fromMio hnew
    exact ⟨hok, fun _ hunset => by simp [hflag] at hunset⟩
  · rintro s l t ⟨hok, hflag⟩ ⟨hstep, hsafe⟩
    exact ⟨hok.step hstep, hflag.step hok hsafe hstep⟩

/-- **Readiness.** In every run without unsafe reads, no reader is left waiting, in any state on the
way; and after the first unsafe read, every reader is, whatever happens. -/
theorem restrict_safeRead_neverLost (h : (machine.restrict SafeRead).Reachable s) :
    s.NeverLost ∧ ∀ l s', s.step l = some s' → ¬ s.SafeRead l →
      ∀ as t, machine.Run s' as t →
        ∀ len waker u, t.step (.pollRead len waker) = some u → ¬ u.NeverLost := by
  obtain ⟨hok, hflag⟩ := ok_of_restrict h
  refine ⟨hok.neverLost hflag, fun l s' hstep hunsafe as t hrun len waker u hpoll => ?_⟩
  obtain ⟨hlost, hok'⟩ := hok.lost hunsafe hstep
  exact (hlost.run hok' hrun).1.left_waiting hpoll

/-- mio reports that `rid` can be read. -/
def readableEvent (rid : UInt64) : Except IoError (List MioEvent) :=
  .ok [⟨rid, true, false, false, false, false⟩]

/-- Bytes, then the end of the stream, each reported by itself. -/
theorem restrict_safeRead_neverLost_apart : ∃ s : Conn ℕ, (machine.restrict SafeRead).Reachable s ∧
    s.parked = true ∧ s.NeverLost := by
  obtain ⟨s₀, hnew⟩ : ∃ s, fromMio (.new : Reactor ℕ) [] false = some s := ⟨_, rfl⟩
  have hstart : (machine.restrict SafeRead).Reachable s₀ := .of_init ⟨_, _, _, hnew⟩
  obtain ⟨s, hfollow, hparked⟩ : ∃ s,
      Machine.follow (fun s l => if SafeRead s l then step s l else none)
        [.pollRead 10 7, .arrive [1, 2, 3], .park none 5 (readableEvent 1), .pollRead 10 7,
          .fin, .pollRead 10 7] s₀ = some s ∧ s.parked = true := by
    cases hnew
    exact ⟨_, rfl, by decide⟩
  have hreach := hstart.follow_restrict hfollow
  exact ⟨s, hreach, hparked, (restrict_safeRead_neverLost hreach).1⟩

/-- Three bytes and the FIN are reported together; a read into ten bytes takes the three and clears
the flag, and the next parks before the end of the stream. -/
theorem not_neverLost : ¬ ∀ s : Conn ℕ, machine.Reachable s → s.NeverLost := by
  intro hall
  obtain ⟨s₀, hnew⟩ : ∃ s, fromMio (.new : Reactor ℕ) [] false = some s := ⟨_, rfl⟩
  have hstart : machine.Reachable s₀ := .of_init ⟨_, _, _, hnew⟩
  obtain ⟨s, hfollow, hlost⟩ : ∃ s, Machine.follow step
      [.arrive [1, 2, 3], .fin, .park none 5 (readableEvent 1), .pollRead 10 7, .pollRead 10 7] s₀ =
        some s ∧ ¬ s.NeverLost := by
    cases hnew
    exact ⟨_, rfl, by decide⟩
  exact hlost (hall s (hstart.follow hfollow))

end Conn

end Lion
