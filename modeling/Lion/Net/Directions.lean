import Lion.Net.Connect

/-!
# The two directions of a stream

`TcpStream` of `lion-utility`. A stream has a flag for each direction, and the reactor sets a flag
once for each report of mio; so a flag must be cleared only when there is nothing more to be had in
its direction, or nobody will set it again. `poll_read` and `poll_write` clear the flag of theirs
after a transfer that was short or would block, a connection that is not yet established clears the
writable flag, and `try_io` clears the readable one if its closure would block.

For `try_io` that is so whatever interest it is called with. One for writing that would block takes
the flag from the readers, and leaves the writers with one that is wrong.

## What may clear a flag

`Finds` is the licence to clear: the operation has seen for itself that nothing is to be had in the
direction. A transfer has if it would block or was shorter than its buffer, a closure if it would
block and is for that direction, and a connection if it is not there yet. A step is `Independent` if
it clears no flag without such a licence. What is then proved of each operation is which flag it
clears at most, and under which condition; `try_io` for writing is the only one whose flag and
licence are for different directions.

That a short transfer leaves nothing is a matter of the socket (`Socket.unread_of_exhausted`), and
does not extend to the FIN, which is what `TcpStream` is about. Here it is the directions that are
held apart.

## Conventions

What the operating system and closures answer is given. Of what is transferred there is the number
of bytes. Other code on the thread calls the reactor as it likes, and leaves the flags alone.

## Main results

* `Streams.independent_run_iff` — the runs in which no direction loses its flag to the other
* `Streams.not_independent` — a run in which one does
* `Conn.pollRead_eq` — the polls here are those of `Conn`
-/

namespace Lion

variable {C β : Type}

/-! ### The operations -/

namespace TcpStream

/-- The poll that reading and writing share, with a buffer of `len` bytes. The flag is cleared after
a transfer that is short, too. -/
def pollTransfer (mode : IoMode) (result : ℕ → β) (r : Reactor (StdWaker C)) (rid : UInt64)
    (tls : Tls) (len : ℕ) (syscall : Syscall ℕ) :
    Option (Poll (Except IoError β) × Reactor (StdWaker C)) :=
  pollSocket mode (some (.ready (.ok (result 0))))
    (fun r n => (.ok (result n),
      if 0 < n ∧ n < len then { r with readiness := mode.clear r.readiness rid } else r))
    r rid tls syscall

/-- `TcpStream::poll_read`, which is a transfer in the readable direction. -/
def pollRead (r : Reactor (StdWaker C)) (rid : UInt64) (tls : Tls) (len : ℕ) (syscall : Syscall ℕ) :
    Option (Poll (Except IoError Unit) × Reactor (StdWaker C)) :=
  pollTransfer .readable (fun _ => ()) r rid tls len syscall

/-- `TcpStream::poll_write`, which is a transfer in the writable direction. -/
def pollWrite (r : Reactor (StdWaker C)) (rid : UInt64) (tls : Tls) (len : ℕ)
    (syscall : Syscall ℕ) : Option (Poll (Except IoError ℕ) × Reactor (StdWaker C)) :=
  pollTransfer .writable id r rid tls len syscall

/-- `TcpStream::poll_read_ready`: the result, and the waker that is called. -/
def pollReadReady (r : Reactor (StdWaker C)) (rid : UInt64) (cx : StdWaker C) :
    Poll (Except IoError Unit) × Option (StdWaker C) :=
  if Readiness.isReadable r.readiness rid then (.ready (.ok ()), none) else (.pending, some cx)

/-- `TcpStream::try_io`. The interest is not looked at: what is cleared is the readable flag. -/
def tryIo (r : Reactor (StdWaker C)) (rid : UInt64) (_interest : IoMode) (outcome : Syscall β) :
    Syscall β × Reactor (StdWaker C) :=
  match outcome with
  | .ok v => (.ok v, r)
  | .wouldBlock =>
    (.wouldBlock, { r with readiness := Readiness.clearReadable r.readiness rid })
  | .error e => (.error e, r)

end TcpStream

/-- An operation on a stream, with what the operating system and the closure of `try_io` answer. -/
inductive StreamOp (C : Type)
  | pollRead (tls : Tls) (len : ℕ) (syscall : Syscall ℕ)
  | pollWrite (tls : Tls) (len : ℕ) (syscall : Syscall ℕ)
  | pollReadReady (cx : StdWaker C)
  /-- `TcpStream::try_io`, with what the closure returns -/
  | tryIo (interest : IoMode) (outcome : Syscall Unit)
  | pollConnect (tls : Tls) (takeError : Except IoError (Option IoError)) (peerAddr : PeerAddr)

/-- The reactor after an operation, which is all that the flags depend on. -/
def StreamOp.run (r : Reactor (StdWaker C)) (rid : UInt64) :
    StreamOp C → Option (Reactor (StdWaker C))
  | .pollRead tls len syscall => (TcpStream.pollRead r rid tls len syscall).map Prod.snd
  | .pollWrite tls len syscall => (TcpStream.pollWrite r rid tls len syscall).map Prod.snd
  | .pollReadReady _ => some r
  | .tryIo interest outcome => some (TcpStream.tryIo r rid interest outcome).2
  | .pollConnect tls takeError peerAddr =>
    (connectPoll r rid tls takeError peerAddr).map Prod.snd

/-- A reactor, and the streams on its thread. -/
structure Streams (C : Type) where
  reactor : Reactor (StdWaker C)
  streams : List UInt64

namespace Streams

/-- What can happen to the streams of a thread and the reactor under them. -/
inductive Label (C : Type)
  | fromMio (osResult : Except IoError Unit)
  | op (rid : UInt64) (op : StreamOp C)
  | drop (rid : UInt64) (osResult : Except IoError Unit)
  /-- The reactor is called by other code, or parked. -/
  | other (c : Watched.Call (StdWaker C))

/-- One step; `none` if it panics, or if there is no such stream. -/
def step (s : Streams C) : Label C → Option (Streams C)
  | .fromMio osResult =>
    match streamFromMio s.reactor osResult with
    | (.ok rid, reactor) => some ⟨reactor, rid :: s.streams⟩
    | (.error _, reactor) => some { s with reactor }
  | .op rid op =>
    if rid ∈ s.streams then (op.run s.reactor rid).map fun reactor => { s with reactor } else none
  | .drop rid osResult =>
    if rid ∈ s.streams then
      some ⟨(s.reactor.deregisterIoResource rid osResult).2, s.streams.erase rid⟩
    else none
  | .other c => (Watched.call s.reactor c).map fun reactor => { s with reactor }

/-- Streams as a machine: none at first, on any reactor. -/
def machine (C : Type) : Machine (Streams C) (Label C) := Machine.ofStep (·.streams = []) step

end Streams

/-! ### What an operation finds -/

/-- A transfer with a buffer of `len` bytes has shown that there is no more to be had: it would
block, or was short. -/
def Exhausted (len : ℕ) (syscall : Syscall ℕ) : Prop :=
  syscall = .wouldBlock ∨ ∃ n, syscall = .ok n ∧ 0 < n ∧ n < len

/-- The operation finds that there is nothing to be had in the direction: nothing to read, or no
room to write or no connection yet. -/
def StreamOp.Finds (mode : IoMode) : StreamOp C → Prop
  | .pollRead _ len syscall => mode = .readable ∧ Exhausted len syscall
  | .pollWrite _ len syscall => mode = .writable ∧ Exhausted len syscall
  | .pollReadReady _ => False
  | .tryIo interest outcome => mode = interest ∧ outcome = .wouldBlock
  | .pollConnect _ _ peerAddr => mode = .writable ∧ peerAddr = .notConnected

namespace Streams

/-- The step is an operation that finds that there is nothing to be had in the direction. -/
def Finds (rid : UInt64) (mode : IoMode) (l : Label C) : Prop :=
  ∃ op, l = .op rid op ∧ op.Finds mode

/-- The flags of the streams, one for each direction. -/
def flag (s : Streams C) (rid : UInt64) (mode : IoMode) : Bool :=
  mode.isReady s.reactor.readiness rid

/-- The step clears a flag only if it finds that there is nothing to be had in its direction, and a
`try_io` that would block clears the flag of its interest and no other. -/
def Independent (s : Streams C) (l : Label C) : Prop :=
  ∀ s', s.step l = some s' →
    (∀ rid mode, s.flag rid mode = true → s'.flag rid mode = false → Finds rid mode l) ∧
      ∀ rid interest, l = .op rid (.tryIo interest .wouldBlock) → ∀ k mode,
        s'.flag k mode = if mode = interest ∧ k = rid then false else s.flag k mode

/-- The step is not a `try_io` for writing that would block, on a stream with a flag that is set. -/
def Heeds (s : Streams C) (l : Label C) : Prop :=
  ∀ rid, l = .op rid (.tryIo .writable .wouldBlock) → ∀ mode, s.flag rid mode = false

end Streams

/-! ### What the operations do to the flags -/

variable {α : Type} {r r' : Reactor (StdWaker C)} {rid : UInt64}

/-- A poll clears the flag of its direction if it would block, and does what is done with the result
otherwise. -/
theorem pollSocket_readiness {mode : IoMode} {unset : Option (Poll (Except IoError β))}
    {finish : Reactor (StdWaker C) → α → Except IoError β × Reactor (StdWaker C)} {tls : Tls}
    {syscall : Syscall α} {res : Poll (Except IoError β)}
    (h : pollSocket mode unset finish r rid tls syscall = some (res, r')) :
    r'.readiness = r.readiness ∨
      (syscall = .wouldBlock ∧ r'.readiness = mode.clear r.readiness rid) ∨
      ∃ a, syscall = .ok a ∧ r'.readiness = (finish r a).2.readiness := by
  have harm : ∀ readiness, ((createReactorWakerForCurrent tls).bind fun waker =>
      (Reactor.setWaker { r with readiness } rid mode.interest waker).bind fun r =>
        some ((.pending : Poll (Except IoError β)), r)) = some (res, r') →
      r'.readiness = readiness := by
    intro readiness harm
    obtain ⟨waker, -, hset⟩ := Option.bind_eq_some_iff.mp harm
    obtain ⟨r₁, hset, heq⟩ := Option.bind_eq_some_iff.mp hset
    cases heq
    exact Reactor.readiness_setWaker hset
  unfold pollSocket at h
  cases hready : mode.isReady r.readiness rid with
  | false =>
    simp only [hready] at h
    exact .inl (harm _ h)
  | true =>
    simp only [hready] at h
    cases syscall with
    | ok a =>
      cases h
      exact .inr (.inr ⟨a, rfl, rfl⟩)
    | wouldBlock => exact .inr (.inl ⟨rfl, harm _ h⟩)
    | error e =>
      cases h
      exact .inl rfl

/-- A transfer clears no flag but that of its direction, and that one only if it is exhausted. -/
theorem TcpStream.pollTransfer_readiness {mode : IoMode} {result : ℕ → β} {tls : Tls} {len : ℕ}
    {syscall : Syscall ℕ} {res : Poll (Except IoError β)}
    (h : pollTransfer mode result r rid tls len syscall = some (res, r')) :
    r'.readiness = r.readiness ∨
      Exhausted len syscall ∧ r'.readiness = mode.clear r.readiness rid := by
  rcases pollSocket_readiness h with hsame | ⟨hblock, hclear⟩ | ⟨n, hn, hfinish⟩
  · exact .inl hsame
  · exact .inr ⟨.inl hblock, hclear⟩
  · by_cases hshort : 0 < n ∧ n < len
    · rw [if_pos hshort] at hfinish
      exact .inr ⟨.inr ⟨n, hn, hshort⟩, hfinish⟩
    · rw [if_neg hshort] at hfinish
      exact .inl hfinish

/-- Polling a connection clears the writable flag if there is no connection yet. -/
theorem connectPoll_readiness {tls : Tls} {takeError : Except IoError (Option IoError)}
    {peerAddr : PeerAddr} {res : Poll (Except IoError Unit)}
    (h : connectPoll r rid tls takeError peerAddr = some (res, r')) :
    r'.readiness = r.readiness ∨
      peerAddr = .notConnected ∧ r'.readiness = IoMode.writable.clear r.readiness rid := by
  rw [connectPoll] at h
  cases haction :
      connectAction (IoMode.writable.isReady r.readiness rid) takeError peerAddr with
  | ready res =>
    rw [haction] at h
    cases h
    exact .inl rfl
  | arm clear =>
    rw [haction] at h
    obtain ⟨waker, -, h⟩ := Option.bind_eq_some_iff.mp h
    obtain ⟨r₁, hset, heq⟩ := Option.bind_eq_some_iff.mp h
    cases heq
    rw [Reactor.readiness_setWaker hset]
    cases clear with
    | false => exact .inl rfl
    | true => exact .inr ⟨peerAddr_of_clear haction, rfl⟩

/-- An operation that is no `try_io` for writing clears at most one flag, and only if it finds that
there is nothing to be had in its direction. -/
theorem StreamOp.run_readiness {op : StreamOp C} (h : op.run r rid = some r') :
    r'.readiness = r.readiness ∨
      (∃ mode, op.Finds mode ∧ r'.readiness = mode.clear r.readiness rid) ∨
      op = .tryIo .writable .wouldBlock := by
  cases op with
  | pollRead tls len syscall =>
    obtain ⟨⟨res, r₁⟩, hpoll, rfl⟩ := Option.map_eq_some_iff.mp h
    rcases TcpStream.pollTransfer_readiness hpoll with hsame | ⟨hfound, hclear⟩
    · exact .inl hsame
    · exact .inr (.inl ⟨.readable, ⟨rfl, hfound⟩, hclear⟩)
  | pollWrite tls len syscall =>
    obtain ⟨⟨res, r₁⟩, hpoll, rfl⟩ := Option.map_eq_some_iff.mp h
    rcases TcpStream.pollTransfer_readiness hpoll with hsame | ⟨hfound, hclear⟩
    · exact .inl hsame
    · exact .inr (.inl ⟨.writable, ⟨rfl, hfound⟩, hclear⟩)
  | pollReadReady cx =>
    cases h
    exact .inl rfl
  | tryIo interest outcome =>
    cases h
    cases outcome with
    | ok v => exact .inl rfl
    | wouldBlock =>
      cases interest with
      | readable => exact .inr (.inl ⟨.readable, ⟨rfl, rfl⟩, rfl⟩)
      | writable => exact .inr (.inr rfl)
    | error e => exact .inl rfl
  | pollConnect tls takeError peerAddr =>
    obtain ⟨⟨res, r₁⟩, hpoll, rfl⟩ := Option.map_eq_some_iff.mp h
    rcases connectPoll_readiness hpoll with hsame | ⟨hfound, hclear⟩
    · exact .inl hsame
    · exact .inr (.inl ⟨.writable, ⟨rfl, hfound⟩, hclear⟩)

/-! ### What the reactor does to the flags -/

section Calls

variable {W : Type}

theorem Reactor.readiness_registerTimer (r : Reactor W) (deadline : UInt64) (waker : W) :
    (r.registerTimer deadline waker).2.readiness = r.readiness := by
  rw [registerTimer]
  rcases allocResourceId_cases r with heq | ⟨-, heq⟩
  · rw [heq]
  · rw [heq]

theorem Reactor.readiness_registerIoResource (r : Reactor W) (interest : Interest)
    (osResult : Except IoError Unit) :
    (r.registerIoResource interest osResult).2.readiness = r.readiness := by
  rw [registerIoResource]
  rcases allocResourceId_cases r with heq | ⟨-, heq⟩
  · rw [heq]
  · rw [heq]
    cases osResult with
    | ok => rfl
    | error e => rfl

theorem Reactor.readiness_flushPendingDeregister (r : Reactor W) :
    r.flushPendingDeregister.readiness = r.readiness := by
  rw [flushPendingDeregister]
  split <;> rfl

theorem ReactorHandle.readiness_registerTimer (r : Reactor W) (deadline : UInt64) (waker : W) :
    (registerTimer r deadline waker).2.readiness = r.readiness := by
  rw [registerTimer]
  split
  · dsimp only
    split
    · rfl
    · exact Reactor.readiness_registerTimer _ deadline waker
  · exact Reactor.readiness_registerTimer r deadline waker

theorem ReactorHandle.readiness_deregisterTimer (r : Reactor W) (rid : UInt64) :
    (deregisterTimer r rid).readiness = r.readiness := by
  have hflush := r.readiness_flushPendingDeregister
  rw [deregisterTimer]
  split
  · exact hflush
  · exact hflush

variable {r r' : Reactor W} {mode : IoMode} {k : UInt64}

/-- Calls of the reactor clear no flag, parks included. -/
theorem Watched.isReady_call {c : Call W} (h : call r c = some r')
    (hflag : mode.isReady r.readiness k = true) : mode.isReady r'.readiness k = true := by
  have hkeep : r'.readiness = r.readiness → mode.isReady r'.readiness k = true := by
    intro heq
    rw [heq]
    exact hflag
  cases c with
  | op op =>
    cases op with
    | registerTimer deadline waker =>
      cases h
      exact hkeep (r.readiness_registerTimer deadline waker)
    | deregisterTimer rid =>
      cases h
      exact hkeep rfl
    | registerIoResource interest osResult =>
      cases h
      exact hkeep (r.readiness_registerIoResource interest osResult)
    | deregisterIoResource rid osResult =>
      cases h
      exact hkeep rfl
    | setWaker rid interest waker => exact hkeep (Reactor.readiness_setWaker h)
    | park timeout raw poll =>
      obtain ⟨⟨res, r₁⟩, hpark, rfl⟩ := Option.map_eq_some_iff.mp h
      rw [(Reactor.isReady_park hpark mode (IoMode.lt_length_of_isReady hflag)).1, hflag,
        Bool.true_or]
  | registerTimer deadline waker =>
    cases h
    exact hkeep (ReactorHandle.readiness_registerTimer r deadline waker)
  | deregisterTimer rid =>
    cases h
    exact hkeep (ReactorHandle.readiness_deregisterTimer r rid)
  | flushPendingDeregister =>
    cases h
    exact hkeep r.readiness_flushPendingDeregister

end Calls

/-! ### What the steps do to the flags -/

/-- A new stream has its flags set, and nothing else changes. -/
theorem isReady_streamFromMio (osResult : Except IoError Unit) {mode : IoMode} {k : UInt64}
    (hflag : mode.isReady r.readiness k = true) :
    mode.isReady (streamFromMio r osResult).2.readiness k = true := by
  have hkeep := r.readiness_registerIoResource ⟨true, true⟩ osResult
  rw [streamFromMio]
  split
  · rename_i rid r₁ hreg
    rw [hreg] at hkeep
    dsimp only at hkeep ⊢
    rw [IoMode.isReady_initReadiness, hkeep, hflag, ite_self]
  · rename_i e r₁ hreg
    rw [hreg] at hkeep
    dsimp only at hkeep ⊢
    rw [hkeep, hflag]

namespace Streams

variable {s s' : Streams C} {l : Label C}

/-- Only an operation on a stream clears flags. -/
theorem flag_step (hstep : s.step l = some s') (hnot : ∀ rid op, l ≠ .op rid op) {mode : IoMode}
    {k : UInt64} (hflag : s.flag k mode = true) : s'.flag k mode = true := by
  cases l with
  | fromMio osResult =>
    have hkeep := isReady_streamFromMio osResult hflag
    rw [step] at hstep
    split at hstep
    · rename_i rid reactor hmio
      cases hstep
      rw [hmio] at hkeep
      exact hkeep
    · rename_i e reactor hmio
      cases hstep
      rw [hmio] at hkeep
      exact hkeep
  | op rid op => exact absurd rfl (hnot rid op)
  | drop rid osResult =>
    rw [step] at hstep
    split at hstep
    · cases hstep
      exact hflag
    · cases hstep
  | other c =>
    obtain ⟨reactor, hcall, rfl⟩ := Option.map_eq_some_iff.mp hstep
    exact Watched.isReady_call hcall hflag

/-- An operation is run on the reactor, and the streams stay the same. -/
theorem step_op {op : StreamOp C} (hstep : s.step (.op rid op) = some s') :
    op.run s.reactor rid = some s'.reactor := by
  rw [step] at hstep
  split at hstep
  · obtain ⟨reactor, hrun, rfl⟩ := Option.map_eq_some_iff.mp hstep
    exact hrun
  · cases hstep

/-- A `try_io` that would block clears the readable flag, whatever its interest. -/
theorem flag_tryIo {interest : IoMode}
    (hstep : s.step (.op rid (.tryIo interest .wouldBlock)) = some s') (k : UInt64)
    (mode : IoMode) :
    s'.flag k mode = if mode = .readable ∧ k = rid then false else s.flag k mode := by
  have hrun := Option.some.inj (step_op hstep)
  rw [flag, ← hrun]
  exact IoMode.isReady_clear .readable mode s.reactor.readiness rid k

/-- The directions are independent in the steps that heed the interest. -/
theorem independent_iff_heeds (hstep : s.step l = some s') : s.Independent l ↔ s.Heeds l := by
  constructor
  · rintro hind rid rfl mode
    have hclear := (hind s' hstep).2 rid .writable rfl rid
    have hread := flag_tryIo hstep rid
    cases mode with
    | readable =>
      have h := (hclear .readable).symm.trans (hread .readable)
      simpa using h
    | writable =>
      have h := (hclear .writable).symm.trans (hread .writable)
      simpa using h.symm
  · intro hheeds s₁ hstep₁
    cases hstep.symm.trans hstep₁
    refine ⟨fun k mode hset hunset => ?_, ?_⟩
    · cases l with
      | op rid op =>
        rcases StreamOp.run_readiness (step_op hstep) with hsame | ⟨mode', hfinds, hclear⟩ | rfl
        · rw [flag, hsame] at hunset
          rw [flag, hunset] at hset
          cases hset
        · rw [flag, hclear, IoMode.isReady_clear] at hunset
          split at hunset
          · rename_i heq
            obtain ⟨rfl, rfl⟩ := heq
            exact ⟨op, rfl, hfinds⟩
          · rw [flag, hunset] at hset
            cases hset
        · rw [flag_tryIo hstep] at hunset
          split at hunset
          · rename_i heq
            rw [heq.2, hheeds rid rfl mode] at hset
            cases hset
          · rw [hset] at hunset
            cases hunset
      | fromMio osResult =>
        rw [flag_step hstep (fun _ _ => by simp) hset] at hunset
        cases hunset
      | drop rid osResult =>
        rw [flag_step hstep (fun _ _ => by simp) hset] at hunset
        cases hunset
      | other c =>
        rw [flag_step hstep (fun _ _ => by simp) hset] at hunset
        cases hunset
    · rintro rid interest rfl k mode
      rw [flag_tryIo hstep]
      cases interest with
      | readable => rfl
      | writable =>
        by_cases hk : k = rid
        · have hunset := hheeds rid rfl mode
          rw [hk, hunset, ite_self, ite_self]
        · simp [hk]

/-- **Independence of the directions.** In a run, from whatever state, every flag is cleared only by
an operation that finds nothing to be had in its direction, and a `try_io` that would block clears
the flag of its interest and no other, if and only if no `try_io` for writing would block on a
stream with a flag that is set. -/
theorem independent_run_iff (s₀ s : Streams C) (ls : List (Label C)) :
    ((machine C).restrict Heeds).Run s₀ ls s ↔ ((machine C).restrict Independent).Run s₀ ls s :=
  Machine.Run.restrict_iff (I := fun _ => True) trivial (fun _ _ _ _ _ _ => trivial)
    fun _ _ _ _ hstep => (independent_iff_heeds hstep).symm

/-- A closure that writes on a new stream would block. The stream is then not readable any more,
and still writable. -/
theorem not_independent :
    ¬ ∀ s : Streams ℕ, (machine ℕ).Reachable s → ∀ l, s.Independent l := by
  intro h
  obtain ⟨s, hfollow, hset⟩ : ∃ s : Streams ℕ, Machine.follow step [.fromMio (.ok ())]
      ⟨.new, []⟩ = some s ∧ s.flag 1 .readable = true := ⟨_, rfl, by decide⟩
  have hstart : (machine ℕ).Reachable ⟨.new, []⟩ := .of_init rfl
  obtain ⟨s', hstep, hunset⟩ : ∃ s', s.step (.op 1 (.tryIo .writable .wouldBlock)) = some s' ∧
      s'.flag 1 .readable = false := by
    cases hfollow
    exact ⟨_, rfl, by decide⟩
  have hclear := (h s (hstart.follow hfollow) _ s' hstep).2 1 .writable rfl 1 .readable
  rw [hset, hunset] at hclear
  cases hclear

end Streams

/-! ### The streams of `Conn` -/

/-- What a read of the socket comes to, as an answer of the operating system. -/
def Socket.answer (sock : Socket) (len : ℕ) : Syscall ℕ :=
  match (sock.read len).1 with
  | .ok bytes => .ok bytes.length
  | .wouldBlock => .wouldBlock

/-- An exhausted read leaves no bytes to read, though it may leave the end of the stream. -/
theorem Socket.unread_of_exhausted {sock : Socket} {len : ℕ}
    (h : Exhausted len (sock.answer len)) : (sock.read len).2.unread = [] := by
  by_cases hempty : sock.unread = []
  · rw [read, if_pos hempty]
    split
    · exact hempty
    · exact hempty
  · rw [answer, read, if_neg hempty] at h
    rw [read, if_neg hempty]
    rcases h with hblock | ⟨n, hn, -, hlt⟩
    · cases hblock
    · cases hn
      rw [List.length_take] at hlt
      exact List.drop_eq_nil_of_le (by omega)

/-- With its waker that of the running task, `poll_read` of `Conn` is that of `TcpStream`, given the
answer of the socket. -/
theorem Conn.pollRead_eq (s : Conn (StdWaker C)) {tls : Tls} {task : TaskId}
    (htask : tls.currentTask = some task) (len : ℕ) :
    (s.pollRead len (.reactor task)).map (fun x => (x.1.isReady, x.2.reactor)) =
      (TcpStream.pollRead s.reactor s.resourceId tls len (s.socket.answer len)).map
        (fun x => (x.1.isReady, x.2)) := by
  have hwaker : createReactorWakerForCurrent (C := C) tls = some (.reactor task) := by
    rw [createReactorWakerForCurrent, htask]
    rfl
  have hmode : IoMode.readable.isReady s.reactor.readiness s.resourceId = s.isReadable := rfl
  unfold TcpStream.pollRead TcpStream.pollTransfer pollSocket
  rw [hmode, hwaker]
  cases hready : s.isReadable with
  | false =>
    rw [pollRead_unready hready, arm]
    cases hset : s.reactor.setWaker s.resourceId ⟨true, false⟩ (.reactor task) <;>
      simp [pollStep, IoMode.interest, hset, Poll.isReady]
  | true =>
    rw [pollRead_ready hready, tryRead, Socket.answer]
    cases hread : s.socket.read len with
    | mk res socket =>
    cases res with
    | ok bytes =>
      by_cases hshort : 0 < bytes.length ∧ bytes.length < len
      · simp [pollStep, hshort, clearReadable, IoMode.clear, Poll.isReady]
      · simp [pollStep, hshort, Poll.isReady]
    | wouldBlock =>
      cases hset : Reactor.setWaker { s.reactor with
          readiness := Readiness.clearReadable s.reactor.readiness s.resourceId }
          s.resourceId ⟨true, false⟩ (.reactor task) <;>
        simp [arm, pollStep, IoMode.interest, IoMode.clear, clearReadable, hset, Poll.isReady]

end Lion
