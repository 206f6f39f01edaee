import Lion.Net.Sockets
import Mathlib.Data.List.TakeWhile

/-!
# Connecting

`TcpStream::connect` of `lion-utility`. A name resolves to a list of addresses. For each of them in
turn a connection is started; whether it can be started is known at once, and whether it succeeds
later. A future, `Connect`, waits for that: it is polled until the socket is writable, and looks for
an error of the socket first and for its peer next.

The loop over the addresses goes on if a connection could not be started. Once one has been, the
loop is left, and what becomes of that one is what `connect` returns. This is a `?` on the future
where a refused connection should have gone on to the next address.

## What it should return

`bestOf` is what trying one address after the other yields: a connection if one is to be had, or the
error of the last attempt. The code can do no better than the first address whose connection can be
started. That is enough if this one succeeds in the end, or if none of the later ones does and the
last of them fails in the same way (`StartsWell`); otherwise a later address should have been tried.

That `connect` returns at all is part of the statement. A future that waits for a socket that never
becomes writable does not, so it is said as a possibility: from every state that the call can be in,
it can still return (`CanReturn`).

## Conventions

What becomes of each address is given beforehand, as its `Outcome`; when it is known is up to the
runs, and so is when the reactor reports that a socket is writable, with reason or without. Of the
reactor, `Connecting` keeps the flag of the socket.

## Main results

* `Connecting.connected_of_reachable` — what `connect` returns
* `Connecting.triesAll_iff` — when that is the best of the addresses
* `Connecting.not_triesAll` — a connection is refused late, and the next address is not tried
-/

namespace Lion

variable {C : Type}

/-! ### Polling a connection -/

/-- What `peer_addr` returns. `ErrorKind::NotConnected` means that there is no connection yet. -/
inductive PeerAddr
  | ok
  | notConnected
  | error (e : IoError)
deriving DecidableEq, Repr

/-- What a poll of `Connect` comes to, once it has asked the socket. -/
inductive ConnectAction
  | ready (res : Except IoError Unit)
  /-- It waits; the flag is cleared before or not. -/
  | arm (clear : Bool)

/-- The decision of `Connect::poll`, given the flag and what the socket answers. -/
def connectAction (writable : Bool) (takeError : Except IoError (Option IoError))
    (peerAddr : PeerAddr) : ConnectAction :=
  if writable then
    match takeError with
    | .error e => .ready (.error e)
    | .ok (some e) => .ready (.error e)
    | .ok none =>
      match peerAddr with
      | .ok => .ready (.ok ())
      | .notConnected => .arm true
      | .error e => .ready (.error e)
  else .arm false

/-- The flag is cleared while there is no connection yet. -/
theorem peerAddr_of_clear {writable : Bool} {takeError : Except IoError (Option IoError)}
    {peerAddr : PeerAddr} (h : connectAction writable takeError peerAddr = .arm true) :
    peerAddr = .notConnected := by
  cases writable with
  | false => cases h
  | true =>
    cases takeError with
    | error e => cases h
    | ok found =>
      cases found with
      | some e => cases h
      | none =>
        cases peerAddr with
        | ok => cases h
        | notConnected => rfl
        | error e => cases h

/-- `Connect::poll`, with the flag of the socket and what the socket answers. -/
def connectPoll (r : Reactor (StdWaker C)) (rid : UInt64) (tls : Tls)
    (takeError : Except IoError (Option IoError)) (peerAddr : PeerAddr) :
    Option (Poll (Except IoError Unit) × Reactor (StdWaker C)) :=
  match connectAction (IoMode.writable.isReady r.readiness rid) takeError peerAddr with
  | .ready res => some (.ready res, r)
  | .arm clear => do
    let r := if clear then { r with readiness := IoMode.writable.clear r.readiness rid } else r
    let waker ← createReactorWakerForCurrent tls
    let r ← r.setWaker rid IoMode.writable.interest waker
    return (.pending, r)

/-! ### The loop over the addresses -/

/-- What becomes of an address, from the attempt to start a connection on. -/
inductive Outcome
  /-- The connection cannot be started. -/
  | immediate (e : IoError)
  /-- It is started, and the reactor refuses the socket. -/
  | unregistered (e : IoError)
  /-- It is started, and fails later. -/
  | later (e : IoError)
  /-- It is started, and succeeds. -/
  | success
deriving DecidableEq, Repr

/-- `std::io::Error`, as far as `connect` makes it. -/
inductive ConnectError
  /-- An error of an address. -/
  | io (e : IoError)
  /-- `ErrorKind::InvalidInput` with a message. -/
  | invalidInput (message : String)
deriving DecidableEq, Repr

/-- The error for no addresses, with the text of the source. -/
def ConnectError.noAddresses : ConnectError :=
  .invalidInput "could not resolve to any addresses"

/-- The end of the loop in `TcpStream::connect`: the last error, or the one for no addresses. -/
def lastErrOr : Option IoError → ConnectError
  | some e => .io e
  | none => .noAddresses

/-- The loop in `TcpStream::connect`, up to the connection that it waits for. -/
def connectLoop (lastErr : Option IoError) : List Outcome → Except ConnectError Outcome
  | [] => .error (lastErrOr lastErr)
  | .immediate e :: addrs => connectLoop (some e) addrs
  | .unregistered e :: _ => .error (.io e)
  | .later e :: _ => .ok (.later e)
  | .success :: _ => .ok .success

/-- The future of `TcpStream::connect`, as far as it has got. -/
inductive ConnectFuture
  | unresumed
  | awaiting (outcome : Outcome)
  | returned (res : Except ConnectError Unit)

/-- A future of `TcpStream::connect`, and the socket it waits for. -/
structure Connecting where
  future : ConnectFuture
  writable : Bool
  settled : Bool

/-- What can happen while a connection is waited for. -/
inductive ConnectLabel
  /-- The future is polled; a connection that is started then may be settled at once. -/
  | poll (instant : Bool)
  /-- The socket gets to know what has become of it. -/
  | settle
  /-- The reactor reports that the socket is writable. -/
  | writable
deriving DecidableEq, Repr

/-- What `take_error` returns, which is the error of a connection that has failed by now. -/
def Outcome.takeError (outcome : Outcome) (settled : Bool) : Except IoError (Option IoError) :=
  match outcome with
  | .later e => .ok (if settled then some e else none)
  | .immediate _ | .unregistered _ | .success => .ok none

/-- What `peer_addr` returns, which is a peer once the connection is there. -/
def Outcome.peerAddr (outcome : Outcome) (settled : Bool) : PeerAddr :=
  if settled && decide (outcome = .success) then .ok else .notConnected

namespace Connecting

/-- A future that was not polled, and has no socket yet. -/
def new : Connecting := ⟨.unresumed, false, false⟩

/-- The poll of the connection that the future waits for. -/
def pollAwaiting (s : Connecting) (outcome : Outcome) : Connecting :=
  match connectAction s.writable (outcome.takeError s.settled) (outcome.peerAddr s.settled) with
  | .ready (.ok ()) => { s with future := .returned (.ok ()) }
  | .ready (.error e) => { s with future := .returned (.error (.io e)) }
  | .arm clear => { s with writable := s.writable && !clear }

/-- One step. A new socket has its flag set. -/
def step (addrs : List Outcome) (s : Connecting) : ConnectLabel → Option Connecting
  | .poll instant =>
    match s.future with
    | .unresumed =>
      match connectLoop none addrs with
      | .error e => some { s with future := .returned (.error e) }
      | .ok outcome => some (pollAwaiting ⟨.awaiting outcome, true, instant⟩ outcome)
    | .awaiting outcome => some (s.pollAwaiting outcome)
    | .returned _ => none
  | .settle =>
    match s.future with
    | .awaiting _ => some { s with settled := true }
    | .unresumed | .returned _ => none
  | .writable =>
    match s.future with
    | .awaiting _ => some { s with writable := true }
    | .unresumed | .returned _ => none

/-- A call of `TcpStream::connect` with these addresses. -/
def machine (addrs : List Outcome) : Machine Connecting ConnectLabel :=
  Machine.ofStep (· = new) (step addrs)

end Connecting

/-! ### What the addresses have to offer -/

/-- The error of an address, if it has one. -/
def Outcome.error : Outcome → Option IoError
  | .immediate e | .unregistered e | .later e => some e
  | .success => none

/-- The connection can be started, whatever becomes of it later. -/
def Outcome.started : Outcome → Bool
  | .immediate _ => false
  | .unregistered _ | .later _ | .success => true

theorem Outcome.error_eq_none {outcome : Outcome} : outcome.error = none ↔ outcome = .success := by
  cases outcome <;> simp [error]

/-- What the address yields if it is tried to the end. -/
def Outcome.result (outcome : Outcome) : Except ConnectError Unit :=
  match outcome.error with
  | none => .ok ()
  | some e => .error (.io e)

/-- What trying one address after the other yields: a connection if there is one to be had, and else
the error of the last attempt. -/
def bestOf (addrs : List Outcome) : Except ConnectError Unit :=
  if .success ∈ addrs then .ok ()
  else .error (lastErrOr (addrs.getLast?.bind Outcome.error))

/-- The first connection that can be started succeeds; or none of those after it does, and the last
address fails in the same way. -/
def StartsWell (addrs : List Outcome) : Prop :=
  ∀ outcome after, addrs.dropWhile (!·.started) = outcome :: after →
    outcome = .success ∨ .success ∉ after ∧
      (outcome :: after).getLast?.bind Outcome.error = outcome.error

/-- What `TcpStream::connect` returns, as a function of the addresses. -/
def connected (addrs : List Outcome) : Except ConnectError Unit :=
  (connectLoop none addrs).bind Outcome.result

variable {addrs before after : List Outcome} {outcome : Outcome} {lastErr : Option IoError}

/-- The loop passes over what cannot be started. -/
theorem connectLoop_append (hbefore : ∀ a ∈ before, a.started = false) :
    connectLoop lastErr (before ++ after) =
      connectLoop ((before.getLast?.bind Outcome.error).or lastErr) after := by
  induction before using List.reverseRecOn generalizing after with
  | nil => rfl
  | append_singleton before a ih =>
    have hrest := @ih (a :: after) fun b hb => hbefore b (List.mem_append_left _ hb)
    rw [List.append_assoc, List.singleton_append, hrest, List.getLast?_concat]
    cases a with
    | immediate e => rfl
    | unregistered | later | success => cases hbefore _ (List.mem_append_right _ List.mem_cons_self)

/-- The loop ends with the first connection that can be started. -/
theorem connected_of_started (hbefore : ∀ a ∈ before, a.started = false)
    (hstarted : outcome.started = true) :
    connected (before ++ outcome :: after) = outcome.result := by
  rw [connected, connectLoop_append hbefore]
  cases outcome with
  | immediate e => cases hstarted
  | unregistered e => rfl
  | later e => rfl
  | success => rfl

/-- Without any, it ends with the last error, or the one for no addresses. -/
theorem connected_of_not_started (haddrs : ∀ a ∈ addrs, a.started = false) :
    connected addrs = .error (lastErrOr (addrs.getLast?.bind Outcome.error)) := by
  have hloop : connectLoop none (addrs ++ []) = _ := connectLoop_append haddrs
  rw [List.append_nil] at hloop
  rw [connected, hloop, Option.or_none]
  rfl

/-- The first connection that can be started, if there is one. -/
theorem exists_first_started (addrs : List Outcome) :
    (∀ a ∈ addrs, a.started = false) ∨ ∃ before outcome after, addrs = before ++ outcome :: after ∧
      (∀ a ∈ before, a.started = false) ∧ outcome.started = true := by
  induction addrs with
  | nil => exact .inl (by simp)
  | cons a addrs ih =>
    cases ha : a.started with
    | true => exact .inr ⟨[], a, addrs, rfl, by simp, ha⟩
    | false =>
      rcases ih with hnone | ⟨before, outcome, after, rfl, hbefore, hstarted⟩
      · exact .inl (List.forall_mem_cons.mpr ⟨ha, hnone⟩)
      · exact .inr ⟨a :: before, outcome, after, rfl, List.forall_mem_cons.mpr ⟨ha, hbefore⟩,
          hstarted⟩

theorem result_eq_bestOf_iff (hbefore : ∀ a ∈ before, a.started = false) :
    outcome.result = bestOf (before ++ outcome :: after) ↔
      outcome = .success ∨ .success ∉ after ∧
        (outcome :: after).getLast?.bind Outcome.error = outcome.error := by
  have hnot : Outcome.success ∉ before := fun hmem => by cases hbefore _ hmem
  have hlast : (before ++ outcome :: after).getLast? = (outcome :: after).getLast? := by
    rw [List.getLast?_append_of_ne_nil _ (List.cons_ne_nil _ _)]
  have hmem : .success ∈ before ++ outcome :: after ↔ outcome = .success ∨ .success ∈ after := by
    simp [hnot, eq_comm]
  rw [bestOf, hlast]
  cases herror : outcome.error with
  | none =>
    have hsuccess := Outcome.error_eq_none.mp herror
    rw [if_pos (hmem.mpr (.inl hsuccess)), Outcome.result, herror]
    exact iff_of_true rfl (.inl hsuccess)
  | some e =>
    have hfail : outcome ≠ .success := by
      rintro rfl
      cases herror
    rw [Outcome.result, herror]
    by_cases hafter : .success ∈ after
    · rw [if_pos (hmem.mpr (.inr hafter))]
      exact iff_of_false (by simp) (by simp [hfail, hafter])
    · rw [if_neg (by rw [hmem]; simp [hfail, hafter])]
      obtain ⟨last, hlast⟩ : ∃ last, (outcome :: after).getLast? = some last :=
        ⟨_, List.getLast?_eq_some_getLast (List.cons_ne_nil _ _)⟩
      have hne : last ≠ .success := by
        rintro rfl
        rcases List.mem_cons.mp (List.mem_of_getLast? hlast) with heq | hmem
        · exact hfail heq.symm
        · exact hafter hmem
      obtain ⟨e', he'⟩ := Option.ne_none_iff_exists'.mp (mt Outcome.error_eq_none.mp hne)
      rw [hlast, Option.bind_some, he']
      simp [lastErrOr, hfail, hafter, eq_comm]

/-- Leaving the loop with the first connection is as good as trying them all, if that one is. -/
theorem connected_eq_bestOf_iff (addrs : List Outcome) :
    connected addrs = bestOf addrs ↔ StartsWell addrs := by
  rcases exists_first_started addrs with hnone | ⟨before, outcome, after, rfl, hbefore, hstarted⟩
  · rw [connected_of_not_started hnone, bestOf, if_neg fun hmem => by cases hnone _ hmem]
    refine iff_of_true rfl fun outcome after hdrop => ?_
    rw [List.dropWhile_eq_nil_iff.mpr (by simpa using hnone)] at hdrop
    cases hdrop
  · have hdrop : (before ++ outcome :: after).dropWhile (!·.started) = outcome :: after := by
      rw [List.dropWhile_append_of_pos (by simpa using hbefore), List.dropWhile_cons_of_neg]
      simp [hstarted]
    rw [connected_of_started hbefore hstarted, result_eq_bestOf_iff hbefore, StartsWell, hdrop]
    constructor
    · rintro h _ _ ⟨⟩
      exact h
    · intro h
      exact h _ _ rfl

/-! ### Runs -/

namespace Connecting

variable {s s' : Connecting} {l : ConnectLabel}

/-- A call that has not returned can still return. -/
def CanReturn (addrs : List Outcome) (s : Connecting) : Prop :=
  (∀ res, s.future ≠ .returned res) →
    ∃ ls s' res, (machine addrs).Run s ls s' ∧ s'.future = .returned res

/-- What a future has come to is what `connected` says that the call returns. -/
def Agrees (addrs : List Outcome) (s : Connecting) : Prop :=
  match s.future with
  | .unresumed => True
  | .awaiting outcome => connectLoop none addrs = .ok outcome
  | .returned res => res = connected addrs

/-- The loop waits for what succeeds or fails later. -/
theorem connectLoop_ok {addrs : List Outcome} {lastErr : Option IoError} {outcome : Outcome}
    (h : connectLoop lastErr addrs = .ok outcome) :
    outcome = .success ∨ ∃ e, outcome = .later e := by
  induction addrs generalizing lastErr with
  | nil => cases h
  | cons a addrs ih =>
    cases a with
    | immediate e => exact ih h
    | unregistered e => cases h
    | later e =>
      cases h
      exact .inr ⟨e, rfl⟩
    | success =>
      cases h
      exact .inl rfl

/-- A poll that finds the socket settled and its flag set is the last one. -/
theorem pollAwaiting_settled {outcome : Outcome}
    (houtcome : outcome = .success ∨ ∃ e, outcome = .later e) (hwritable : s.writable = true)
    (hsettled : s.settled = true) :
    (s.pollAwaiting outcome).future = .returned outcome.result := by
  rcases houtcome with rfl | ⟨e, rfl⟩
  · simp [pollAwaiting, connectAction, hwritable, hsettled, Outcome.takeError, Outcome.peerAddr,
      Outcome.result, Outcome.error]
  · simp [pollAwaiting, connectAction, hwritable, hsettled, Outcome.takeError, Outcome.result,
      Outcome.error]

/-- Any other poll goes on waiting, and clears the flag at most. -/
theorem pollAwaiting_not_settled {outcome : Outcome}
    (h : ¬ (s.writable = true ∧ s.settled = true)) :
    (s.pollAwaiting outcome).future = s.future := by
  cases hwritable : s.writable with
  | false => simp [pollAwaiting, connectAction, hwritable]
  | true =>
    have hsettled : s.settled = false := by
      cases hs : s.settled with
      | false => rfl
      | true => exact absurd ⟨hwritable, hs⟩ h
    cases outcome <;>
      simp [pollAwaiting, connectAction, hwritable, hsettled, Outcome.takeError, Outcome.peerAddr]

theorem Agrees.pollAwaiting {addrs : List Outcome} {outcome : Outcome}
    (hloop : connectLoop none addrs = .ok outcome) (hfuture : s.future = .awaiting outcome) :
    (s.pollAwaiting outcome).Agrees addrs := by
  by_cases h : s.writable = true ∧ s.settled = true
  · rw [Agrees, pollAwaiting_settled (connectLoop_ok hloop) h.1 h.2, connected, hloop]
    rfl
  · rw [Agrees, pollAwaiting_not_settled h, hfuture]
    exact hloop

theorem Agrees.step {addrs : List Outcome} (h : s.Agrees addrs)
    (hstep : s.step addrs l = some s') : s'.Agrees addrs := by
  rw [Agrees] at h
  cases hfuture : s.future with
  | unresumed =>
    cases l with
    | poll instant =>
      simp only [Connecting.step, hfuture] at hstep
      cases hloop : connectLoop none addrs with
      | error e =>
        rw [hloop] at hstep
        cases hstep
        rw [Agrees, connected, hloop]
        rfl
      | ok outcome =>
        rw [hloop] at hstep
        cases hstep
        exact Agrees.pollAwaiting hloop rfl
    | settle => simp [Connecting.step, hfuture] at hstep
    | writable => simp [Connecting.step, hfuture] at hstep
  | awaiting outcome =>
    rw [hfuture] at h
    cases l with
    | poll instant =>
      simp only [Connecting.step, hfuture] at hstep
      cases hstep
      exact Agrees.pollAwaiting h hfuture
    | settle =>
      simp only [Connecting.step, hfuture] at hstep
      cases hstep
      exact h
    | writable =>
      simp only [Connecting.step, hfuture] at hstep
      cases hstep
      exact h
  | returned res => cases l <;> simp [Connecting.step, hfuture] at hstep

theorem agrees_of_reachable {addrs : List Outcome} (h : (machine addrs).Reachable s) :
    s.Agrees addrs := by
  refine h.invariant ?_ fun s l s' hs hstep => hs.step hstep
  rintro s rfl
  trivial

/-- Once the socket is settled and reported, `connect` returns at its next poll. -/
theorem exists_returned_of_settled {addrs : List Outcome} {outcome : Outcome}
    (h : (machine addrs).Reachable s) (hfuture : s.future = .awaiting outcome)
    (hwritable : s.writable = true) (hsettled : s.settled = true) (instant : Bool) :
    ∃ s' res, s.step addrs (.poll instant) = some s' ∧ s'.future = .returned res := by
  have hloop := agrees_of_reachable h
  rw [Agrees, hfuture] at hloop
  refine ⟨s.pollAwaiting outcome, outcome.result, ?_,
    pollAwaiting_settled (connectLoop_ok hloop) hwritable hsettled⟩
  rw [Connecting.step, hfuture]

/-- A future that waits can be brought to return. -/
theorem exists_run_of_awaiting {addrs : List Outcome} {outcome : Outcome}
    (h : (machine addrs).Reachable s) (hfuture : s.future = .awaiting outcome) :
    ∃ ls s' res, (machine addrs).Run s ls s' ∧ s'.future = .returned res := by
  have hsettle : (machine addrs).step s .settle { s with settled := true } := by
    show s.step addrs .settle = _
    rw [Connecting.step, hfuture]
  have hwritable : (machine addrs).step { s with settled := true } .writable
      { s with settled := true, writable := true } := by
    show Connecting.step addrs { s with settled := true } .writable = _
    simp only [Connecting.step, hfuture]
  obtain ⟨s', res, hpoll, hreturned⟩ := exists_returned_of_settled
    ((h.step hsettle).step hwritable) hfuture rfl rfl false
  exact ⟨_, s', res, .cons hsettle (.cons hwritable (.cons hpoll .nil)), hreturned⟩

/-- **What `connect` returns.** Whenever it returns, it is what the first connection yields that
can be started, or else the last error. It returns at the first poll after that connection has
succeeded or failed and the reactor has said so. -/
theorem connected_of_reachable {addrs : List Outcome} (h : (machine addrs).Reachable s) :
    (∀ res, s.future = .returned res → res = connected addrs) ∧
      (∀ outcome, s.future = .awaiting outcome → s.writable = true → s.settled = true →
        ∀ instant, ∃ s' res, s.step addrs (.poll instant) = some s' ∧
          s'.future = .returned res) ∧
      s.CanReturn addrs := by
  refine ⟨fun res hfuture => ?_, fun outcome hfuture hwritable hsettled =>
    exists_returned_of_settled h hfuture hwritable hsettled, fun hnot => ?_⟩
  · have hagrees := agrees_of_reachable h
    rw [Agrees, hfuture] at hagrees
    exact hagrees
  · cases hfuture : s.future with
    | unresumed =>
      cases hloop : connectLoop none addrs with
      | error e =>
        refine ⟨_, { s with future := .returned (.error e) }, _, .cons (a := .poll false) ?_ .nil,
          rfl⟩
        show s.step addrs (.poll false) = _
        rw [Connecting.step, hfuture]
        dsimp only
        rw [hloop]
      | ok outcome =>
        have hpoll : (machine addrs).step s (.poll false)
            (Connecting.pollAwaiting ⟨.awaiting outcome, true, false⟩ outcome) := by
          show s.step addrs (.poll false) = _
          rw [Connecting.step, hfuture]
          dsimp only
          rw [hloop]
        obtain ⟨ls, s', res, hrun, hreturned⟩ := exists_run_of_awaiting (h.step hpoll)
          (pollAwaiting_not_settled (by simp))
        exact ⟨_, s', res, .cons hpoll hrun, hreturned⟩
    | awaiting outcome => exact exists_run_of_awaiting h hfuture
    | returned res => exact absurd hfuture (hnot res)

/-- `connect` tries all the addresses: it can always return, and what it returns is a connection if
there is one to be had, and else the error of the last attempt. -/
def TriesAll (addrs : List Outcome) : Prop :=
  ∀ s, (machine addrs).Reachable s →
    s.CanReturn addrs ∧ ∀ res, s.future = .returned res → res = bestOf addrs

/-- **Trying every address.** `connect` tries all the addresses if and only if it can do with the
first one whose connection can be started: that one succeeds, or none of the later ones does and
the last of them fails in the same way. -/
theorem triesAll_iff (addrs : List Outcome) : TriesAll addrs ↔ StartsWell addrs := by
  rw [← connected_eq_bestOf_iff]
  constructor
  · intro h
    have hinit : (machine addrs).Reachable new := .of_init rfl
    obtain ⟨ls, s, res, hrun, hreturned⟩ := (h new hinit).1 fun res hres => by cases hres
    have hreach := hinit.run hrun
    exact ((connected_of_reachable hreach).1 res hreturned).symm.trans
      ((h s hreach).2 res hreturned)
  · intro heq s hs
    obtain ⟨hreturned, -, hcan⟩ := connected_of_reachable hs
    exact ⟨hcan, fun res hres => (hreturned res hres).trans heq⟩

/-- The first address refuses the connection after it was started, and the second one would
accept it. -/
theorem not_triesAll : ¬ ∀ addrs : List Outcome, TriesAll addrs := by
  intro h
  obtain ⟨s, hfollow, hreturned⟩ : ∃ s, Machine.follow (step [.later (.os 111), .success])
      [.poll false, .settle, .writable, .poll false] new = some s ∧
        s.future = .returned (.error (.io (.os 111))) := ⟨_, rfl, rfl⟩
  have hinit : (machine [.later (.os 111), .success]).Reachable new := .of_init rfl
  have hres := (h _ s (hinit.follow hfollow)).2 _ hreturned
  cases hres

end Connecting

end Lion
