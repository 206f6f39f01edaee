import Lion.Sync.MpscFifo
import Lion.Sync.Parking

/-!
# No sender waits for a slot that nobody was woken for

The channel, as long as it is open, does to its parked senders what `Parking.Step` allows. The
kernel of the senders never stores a permit, and has the same ids queued as there are wakers
(`Inner.TxOk`), so waking finds the sender that parked first. Once the receiver has closed the
channel the wakers are gone and the queue is not maintained.

## What is shown of the operations

Most operations leave the senders alone, and need only not to free a slot: `SameTx` is that they
have done so, and `SameTx.step` makes a step of it. Where a slot is freed, `release_parking` says
that one sender is woken for it. A poll is the only operation with several outcomes, and `Polled`
lists these. From `TxOk` it follows that its loop has one turn, since no permit is stored.

The proof for a whole run carries three facts (`OpenOk`): the kernel and the table of wakers agree,
the futures agree with the queue, and free slots are paid for. They are claimed for open channels
only, and kept because a channel that is open was open before (`open_of_step`).

## Main results

* `Channel.step_parking` — operations on an open channel are steps of `Parking`
* `Channel.reachable_free_le_woken` — free slots are covered by senders that were woken
-/

namespace Lion.Mpsc

variable {T W : Type}

namespace Inner

variable {g g' : Inner T W} {f f' : Waiter}

/-- No permit is stored for senders, and the queued ids are those with a waker. -/
structure TxOk (g : Inner T W) : Prop where
  permit : g.txKernel.permit = 0
  ids : g.txWakers.map Prod.fst = g.txKernel.queue

/-- What matters about parked senders, of a channel and the futures that wait for its slots. -/
def parking (g : Inner T W) (futures : List (Option (SenderFuture T))) : Parking T :=
  ⟨g.txKernel.queue, g.txNextId, g.ckernel.free, futures⟩

/-- `g'` has the same parked senders, and is open if `g` is. -/
structure SameTx (g g' : Inner T W) : Prop where
  kernel : g'.txKernel = g.txKernel
  wakers : g'.txWakers = g.txWakers
  next : g'.txNextId = g.txNextId
  closed : g'.rxClosed = g.rxClosed

theorem SameTx.txOk (h : SameTx g g') (hok : TxOk g) : TxOk g' := by
  refine ⟨?_, ?_⟩
  · rw [h.kernel]
    exact hok.permit
  · rw [h.wakers, h.kernel]
    exact hok.ids

/-- Free slots are what decides whether there is room. -/
theorem hasRoom_iff (k : ChannelKernel) : k.HasRoom ↔ 0 < k.free := by
  rw [ChannelKernel.HasRoom, ChannelKernel.free]
  omega

theorem sameTx_wakeRx {w : Option W} (h : g.wakeRx = some (w, g')) : SameTx g g' := by
  simp only [wakeRx, Option.bind_eq_bind, Option.bind_eq_some_iff, Option.pure_def,
    Option.some.injEq, Prod.mk.injEq] at h
  obtain ⟨_, -, -, rfl⟩ := h
  exact ⟨rfl, rfl, rfl, rfl⟩

/-! ### Waking and withdrawing -/

/-- **Waking** takes the sender that parked first. -/
theorem wakeOneTx_parking (h : TxOk g) (futures : List (Option (SenderFuture T))) :
    g.wakeOneTx.2.parking (noteWoken g.wakeOneTx.1 futures) = (g.parking futures).wakeOne ∧
      TxOk g.wakeOneTx.2 ∧ g.wakeOneTx.2.rxClosed = g.rxClosed := by
  have hids := h.ids
  cases hq : g.txKernel.queue with
  | nil =>
    have heq : g.wakeOneTx = (none, g) := by simp [wakeOneTx, wakeOneTxLoop, hq]
    rw [heq]
    refine ⟨?_, h, rfl⟩
    simp [Parking.wakeOne, parking, hq, noteWoken]
  | cons id rest =>
    rw [hq] at hids
    obtain ⟨⟨id', w⟩, ws, hwakers, rfl, hrest⟩ := List.map_eq_cons_iff.mp hids
    have heq : g.wakeOneTx = (some (id', w), { g with
        txKernel := { g.txKernel with queue := rest }, txWakers := ws }) := by
      simp [wakeOneTx, wakeOneTxLoop, hq, WaiterKernel.signalStep, hwakers]
    rw [heq]
    refine ⟨?_, ⟨h.permit, hrest⟩, rfl⟩
    simp [Parking.wakeOne, parking, hq, noteWoken]

theorem txOk_removeTxWaiter (h : TxOk g) (id : ℕ) : TxOk (g.removeTxWaiter id).2 := by
  refine ⟨h.permit, ?_⟩
  show (g.txWakers.eraseP (·.1 = id)).map Prod.fst = g.txKernel.queue.erase id
  rw [map_fst_eraseP, h.ids]

theorem withdraw_parking (h : TxOk g) (f : Waiter) : TxOk (g.withdraw f) ∧
    (g.withdraw f).txKernel.queue =
      (if f.parked then g.txKernel.queue.erase f.id else g.txKernel.queue) ∧
    (g.withdraw f).ckernel = g.ckernel ∧ (g.withdraw f).txNextId = g.txNextId ∧
    (g.withdraw f).rxClosed = g.rxClosed := by
  rw [withdraw]
  split
  · rename_i hp
    exact ⟨txOk_removeTxWaiter h f.id, rfl, rfl, rfl, rfl⟩
  · rename_i hp
    exact ⟨h, rfl, rfl, rfl, rfl⟩

/-! ### Polling -/

/-- What a poll of a sender does, on an open channel: it finds a slot, or is still queued, or
parks. -/
def Polled (g g' : Inner T W) (f f' : Waiter) (ready : Bool) : Prop :=
  (ready = true ∧ 0 < g.ckernel.free ∧ g'.ckernel.free = g.ckernel.free - 1 ∧
    f' = { f with completed := true } ∧ g'.txNextId = g.txNextId ∧
    g'.txKernel.queue = (if f.parked then g.txKernel.queue.erase f.id else g.txKernel.queue)) ∨
  (ready = false ∧ g'.ckernel = g.ckernel ∧ f.parked = true ∧ f.id ∈ g.txKernel.queue ∧ f' = f ∧
    g'.txNextId = g.txNextId ∧ g'.txKernel.queue = g.txKernel.queue) ∨
  (ready = false ∧ g'.ckernel = g.ckernel ∧ g.ckernel.free = 0 ∧
    (f.parked = true → f.id ∉ g.txKernel.queue) ∧
    f' = { f with id := g.txNextId, parked := true } ∧ g'.txNextId = g.txNextId + 1 ∧
    g'.txKernel.queue = g.txKernel.queue ++ [g.txNextId])

/-- Without a slot the waker is refreshed or the sender parks: the kernel has no permit stored that
would make the loop go round again. -/
theorem parkTx_polled (h : TxOk g) (hfull : g.ckernel.free = 0) {waker : W} {ended : Bool}
    (hpark : g.parkTx f waker = some (ended, g', f')) :
    ended = true ∧ Polled g g' f f' false ∧ TxOk g' ∧ g'.rxClosed = g.rxClosed := by
  have hany : g.txWakers.any (·.1 = f.id) = true ↔ f.id ∈ g.txKernel.queue := by
    rw [← h.ids]
    simp [List.any_eq_true]
  rw [parkTx] at hpark
  split at hpark
  · rename_i hcond
    rw [Bool.and_eq_true] at hcond
    cases hpark
    refine ⟨rfl, .inr (.inl ⟨rfl, rfl, hcond.1, hany.mp hcond.2, rfl, rfl, rfl⟩),
      ⟨h.permit, ?_⟩, rfl⟩
    rw [← h.ids]
    simp only [List.map_map]
    refine List.map_congr_left fun entry _ => ?_
    simp only [Function.comp_apply]
    split
    · rename_i heq
      exact heq.symm
    · rfl
  · rename_i hcond
    rw [Bool.and_eq_true, not_and, hany] at hcond
    simp only [Option.bind_eq_bind, Option.bind_eq_some_iff] at hpark
    obtain ⟨next, hnext, hpark⟩ := hpark
    have hwait : g.txKernel.waitStep g.txNextId =
        (.park g.txNextId, { g.txKernel with queue := g.txKernel.queue ++ [g.txNextId] }) := by
      simp [WaiterKernel.waitStep, h.permit]
    rw [hwait] at hpark
    cases hpark
    rw [succ64_eq_some hnext]
    refine ⟨rfl, .inr (.inr ⟨rfl, rfl, hfull, hcond, rfl, rfl, rfl⟩), ⟨h.permit, ?_⟩, rfl⟩
    simp [h.ids]

theorem pollSend_polled (h : TxOk g) (hopen : g.rxClosed = false) {value value' : Option T}
    {waker : W} {res : Poll (Except T Unit)} {woken : Option W}
    (hpoll : g.pollSend f value waker = some (res, woken, g', f', value')) :
    Polled g g' f f' res.isReady ∧ TxOk g' ∧ g'.rxClosed = false := by
  rw [pollSend, pollSendLoop, if_neg (by simp [hopen])] at hpoll
  rcases g.ckernel.tryPush_cases with ⟨hroom, heq⟩ | ⟨hroom, heq⟩
  · rw [heq] at hpoll
    simp only [Option.bind_eq_bind, Option.bind_eq_some_iff, Option.pure_def, Option.some.injEq,
      Prod.mk.injEq] at hpoll
    obtain ⟨v, -, ⟨w, g₁⟩, hw, rfl, -, rfl, rfl, -⟩ := hpoll
    obtain ⟨hok, hqueue, hck, hnext, hclosed⟩ := withdraw_parking (g := { g with
      ckernel := { g.ckernel with buffered := g.ckernel.buffered + 1 }
      buffer := g.buffer ++ [v] }) ⟨h.permit, h.ids⟩ f
    have hsame := sameTx_wakeRx hw
    refine ⟨.inl ⟨rfl, (hasRoom_iff _).mp hroom, ?_, rfl, hsame.next.trans hnext, ?_⟩,
      hsame.txOk hok, hsame.closed.trans (hclosed.trans hopen)⟩
    · rw [(sameStock_wakeRx hw).1, hck]
      simp only [ChannelKernel.free]
      omega
    · rw [hsame.kernel]
      exact hqueue
  · rw [heq] at hpoll
    simp only [Option.bind_eq_bind, Option.bind_eq_some_iff] at hpoll
    obtain ⟨⟨ended, g₁, f₁⟩, hpark, hpoll⟩ := hpoll
    have hfull : g.ckernel.free = 0 := by
      rw [hasRoom_iff] at hroom
      omega
    obtain ⟨rfl, hpolled, hok, hclosed⟩ := parkTx_polled h hfull hpark
    cases hpoll
    exact ⟨hpolled, hok, hclosed.trans hopen⟩

theorem pollReserve_polled (h : TxOk g) (hopen : g.rxClosed = false) {waker : W}
    {res : Poll (Except Unit Unit)} (hpoll : g.pollReserve f waker = some (res, g', f')) :
    Polled g g' f f' res.isReady ∧ TxOk g' ∧ g'.rxClosed = false := by
  rw [pollReserve, pollReserveLoop, if_neg (by simp [hopen])] at hpoll
  rcases g.ckernel.reserve_cases with ⟨hroom, heq⟩ | ⟨hroom, heq⟩
  · rw [heq] at hpoll
    cases hpoll
    obtain ⟨hok, hqueue, hck, hnext, hclosed⟩ := withdraw_parking (g := { g with
      ckernel := { g.ckernel with reserved := g.ckernel.reserved + 1 } }) ⟨h.permit, h.ids⟩ f
    refine ⟨.inl ⟨rfl, (hasRoom_iff _).mp hroom, ?_, rfl, hnext, hqueue⟩, hok, hclosed.trans hopen⟩
    rw [hck]
    simp only [ChannelKernel.free]
    omega
  · rw [heq] at hpoll
    simp only [Option.bind_eq_bind, Option.bind_eq_some_iff] at hpoll
    obtain ⟨⟨ended, g₁, f₁⟩, hpark, hpoll⟩ := hpoll
    have hfull : g.ckernel.free = 0 := by
      rw [hasRoom_iff] at hroom
      omega
    obtain ⟨rfl, hpolled, hok, hclosed⟩ := parkTx_polled h hfull hpark
    cases hpoll
    exact ⟨hpolled, hok, hclosed.trans hopen⟩

/-- A poll is a step of the parked senders, for the future that is polled. -/
theorem Polled.step {w : Waiter} {futures : List (Option (SenderFuture T))} {i : ℕ}
    {f : SenderFuture T} (f' : SenderFuture T) (h : Polled g g' f.toWaiter w f'.finished)
    (hw : f'.toWaiter = w) (hwoken : f'.woken = false) (hlive : live futures i = some f)
    (hfin : f.finished = false) :
    (g.parking futures).Step (g'.parking (futures.set i (some f'))) := by
  rcases h with ⟨hready, hfree, hfree', hwaiter, hnext, hqueue⟩ |
    ⟨hready, hck, hp, hmem, hwaiter, hnext, hqueue⟩ |
    ⟨hready, hck, hfull, hout, hwaiter, hnext, hqueue⟩
  · simp only [parking, hfree', hnext, hqueue]
    exact .done (p := g.parking futures) hlive hfin hfree (by rw [hw, hwaiter])
      (by rw [hw, hwaiter]) (by rw [hw, hwaiter]) hready hwoken
  · simp only [parking, hck, hnext, hqueue]
    exact .refresh (p := g.parking futures) hlive hfin hp hmem (by rw [hw, hwaiter]) hready hwoken
  · simp only [parking, hck, hnext, hqueue]
    exact .park (p := g.parking futures) hlive hfin hfull hout (by rw [hw, hwaiter]; rfl)
      (by rw [hw, hwaiter]) (by rw [hw, hwaiter]) hready hwoken

/-! ### Dropping and receiving -/

/-- A slot that becomes free wakes a sender. -/
theorem release_parking (h : TxOk g) (hsame : SameTx g g')
    (hfree : g'.ckernel.free ≤ g.ckernel.free + 1)
    (futures : List (Option (SenderFuture T))) :
    (g.parking futures).Step (g'.wakeOneTx.2.parking (noteWoken g'.wakeOneTx.1 futures)) ∧
      TxOk g'.wakeOneTx.2 ∧ g'.wakeOneTx.2.rxClosed = g.rxClosed := by
  obtain ⟨heq, hok, hclosed⟩ := wakeOneTx_parking (hsame.txOk h) futures
  refine ⟨?_, hok, hclosed.trans hsame.closed⟩
  rw [heq]
  simp only [parking, hsame.kernel, hsame.next]
  exact .release (p := g.parking futures) hfree

theorem dropTxWaiter_parking (h : TxOk g) {futures : List (Option (SenderFuture T))} {i : ℕ}
    {f : SenderFuture T} (hlive : live futures i = some f) :
    (g.parking futures).Step ((g.dropTxWaiter f.toWaiter).2.parking
        (noteWoken (g.dropTxWaiter f.toWaiter).1 (futures.set i none))) ∧
      TxOk (g.dropTxWaiter f.toWaiter).2 ∧
      (g.dropTxWaiter f.toWaiter).2.rxClosed = g.rxClosed := by
  rw [dropTxWaiter]
  split
  · rename_i hcond
    refine ⟨.drop (p := g.parking futures) hlive ?_, h, rfl⟩
    simpa using hcond
  · rename_i hcond
    simp only [Bool.or_eq_true, Bool.not_eq_true', not_or, Bool.not_eq_true,
      Bool.not_eq_false] at hcond
    by_cases hmem : f.id ∈ g.txKernel.queue
    · have heq : g.removeTxWaiter f.id = (true, (g.removeTxWaiter f.id).2) := by
        simp [removeTxWaiter, WaiterKernel.removeStep, hmem]
      rw [heq]
      refine ⟨.cancel (p := g.parking futures) hlive hcond.1 hcond.2 hmem,
        txOk_removeTxWaiter h f.id, rfl⟩
    · -- the future is not queued, so there is nothing to remove
      have hwakers : g.txWakers.eraseP (·.1 = f.id) = g.txWakers := by
        refine List.eraseP_of_forall_not fun entry hentry heq => hmem ?_
        rw [← h.ids, ← of_decide_eq_true heq]
        exact List.mem_map_of_mem hentry
      have heq : g.removeTxWaiter f.id = (false, g) := by
        simp [removeTxWaiter, WaiterKernel.removeStep, hmem, hwakers, List.erase_of_not_mem hmem]
      rw [heq]
      obtain ⟨hpark, hok, hclosed⟩ := wakeOneTx_parking h (futures.set i none)
      refine ⟨?_, hok, hclosed⟩
      rw [hpark]
      exact .forward (p := g.parking futures) hlive hcond.1 hcond.2 hmem

/-- Popping a value frees a slot. -/
theorem popFront_parking (h : TxOk g) {ckernel : ChannelKernel} {v : T} {woken : Option (ℕ × W)}
    (hfree : ckernel.free ≤ g.ckernel.free + 1) (hpop : g.popFront ckernel = some (v, woken, g'))
    (futures : List (Option (SenderFuture T))) :
    (g.parking futures).Step (g'.parking (noteWoken woken futures)) ∧ TxOk g' := by
  rw [popFront] at hpop
  split at hpop
  · cases hpop
  · rename_i value buffer hbuf
    cases hpop
    have hsame : SameTx g { g with ckernel := ckernel, buffer := buffer } := ⟨rfl, rfl, rfl, rfl⟩
    obtain ⟨hstep, hok, -⟩ := release_parking h hsame hfree futures
    exact ⟨hstep, hok⟩

/-- An operation that leaves the parked senders alone and frees no slot is a step of them. -/
theorem SameTx.step (hsame : SameTx g g') (hok : TxOk g) (hfree : g'.ckernel.free ≤ g.ckernel.free)
    (futures : List (Option (SenderFuture T))) :
    (g.parking futures).Step (g'.parking futures) ∧ TxOk g' := by
  refine ⟨?_, hsame.txOk hok⟩
  simp only [parking, hsame.kernel, hsame.next]
  exact .take (p := g.parking futures) hfree

/-- The same, of an operation that then wakes the receiver. -/
theorem wakeRx_parking {g₁ : Inner T W} {w : Option W} (hw : g'.wakeRx = some (w, g₁))
    (hok : TxOk g) (hsame : SameTx g g') (hfree : g'.ckernel.free ≤ g.ckernel.free)
    (futures : List (Option (SenderFuture T))) :
    (g.parking futures).Step (g₁.parking futures) ∧ TxOk g₁ := by
  have hrx := sameTx_wakeRx hw
  refine SameTx.step ⟨hrx.kernel.trans hsame.kernel, hrx.wakers.trans hsame.wakers,
    hrx.next.trans hsame.next, hrx.closed.trans hsame.closed⟩ hok ?_ futures
  rw [(sameStock_wakeRx hw).1]
  exact hfree

theorem trySend_parking {value : T} {res : Except T Unit} {w : Option W} (h : TxOk g)
    (hopen : g.rxClosed = false) (hsend : g.trySend value = some (res, w, g'))
    (futures : List (Option (SenderFuture T))) :
    (g.parking futures).Step (g'.parking futures) ∧ TxOk g' := by
  rw [trySend, if_neg (by simp [hopen])] at hsend
  rcases g.ckernel.tryPush_cases with ⟨-, heq⟩ | ⟨-, heq⟩
  · rw [heq] at hsend
    obtain ⟨⟨w, g₁⟩, hw, heq⟩ := Option.bind_eq_some_iff.mp hsend
    cases heq
    refine wakeRx_parking hw h ⟨rfl, rfl, rfl, rfl⟩ ?_ futures
    simp only [ChannelKernel.free]
    omega
  · rw [heq] at hsend
    cases hsend
    exact ⟨.take (p := g.parking futures) (Nat.le_refl _), ⟨h.permit, h.ids⟩⟩

theorem tryReserve_parking {res : Except TrySendError Unit} (h : TxOk g)
    (hopen : g.rxClosed = false) (hreserve : g.tryReserve = (res, g'))
    (futures : List (Option (SenderFuture T))) :
    (g.parking futures).Step (g'.parking futures) ∧ TxOk g' := by
  rw [tryReserve, if_neg (by simp [hopen])] at hreserve
  rcases g.ckernel.reserve_cases with ⟨-, heq⟩ | ⟨-, heq⟩
  · rw [heq] at hreserve
    cases hreserve
    refine ⟨.take (p := g.parking futures) ?_, ⟨h.permit, h.ids⟩⟩
    simp only [parking, ChannelKernel.free]
    omega
  · rw [heq] at hreserve
    cases hreserve
    exact ⟨.take (p := g.parking futures) (Nat.le_refl _), ⟨h.permit, h.ids⟩⟩

theorem permitSend_parking {value : T} {w : Option W} (h : TxOk g)
    (hsend : g.permitSend value = some (w, g')) (futures : List (Option (SenderFuture T))) :
    (g.parking futures).Step (g'.parking futures) ∧ TxOk g' := by
  refine wakeRx_parking hsend h ⟨rfl, rfl, rfl, rfl⟩ ?_ futures
  simp only [ChannelKernel.free, ChannelKernel.fill]
  omega

theorem cloneSender_parking (h : TxOk g) (hclone : g.cloneSender = some g')
    (futures : List (Option (SenderFuture T))) :
    (g.parking futures).Step (g'.parking futures) ∧ TxOk g' := by
  obtain ⟨n, -, heq⟩ := Option.bind_eq_some_iff.mp hclone
  cases heq
  exact ⟨.take (p := g.parking futures) (Nat.le_refl _), ⟨h.permit, h.ids⟩⟩

theorem dropSender_parking {w : Option W} (h : TxOk g) (hdrop : g.dropSender = some (w, g'))
    (futures : List (Option (SenderFuture T))) :
    (g.parking futures).Step (g'.parking futures) ∧ TxOk g' := by
  rw [dropSender] at hdrop
  dsimp only at hdrop
  split at hdrop
  · exact wakeRx_parking hdrop h ⟨rfl, rfl, rfl, rfl⟩ (Nat.le_refl _) futures
  · cases hdrop
    exact ⟨.take (p := g.parking futures) (Nat.le_refl _), ⟨h.permit, h.ids⟩⟩

theorem dropRecv_parking (h : TxOk g) (f : Recv) (futures : List (Option (SenderFuture T))) :
    (g.parking futures).Step ((g.dropRecv f).parking futures) ∧ TxOk (g.dropRecv f) := by
  rw [dropRecv]
  split
  · exact ⟨.take (p := g.parking futures) (Nat.le_refl _), ⟨h.permit, h.ids⟩⟩
  · exact ⟨.take (p := g.parking futures) (Nat.le_refl _), ⟨h.permit, h.ids⟩⟩

theorem free_pop_le (k : ChannelKernel) :
    ({ k with buffered := k.buffered - 1 } : ChannelKernel).free ≤ k.free + 1 := by
  simp only [ChannelKernel.free]
  omega

theorem tryRecv_parking {value : Option T} {woken : Option (ℕ × W)} (h : TxOk g)
    (hrecv : g.tryRecv = some (value, woken, g')) (futures : List (Option (SenderFuture T))) :
    (g.parking futures).Step (g'.parking (noteWoken woken futures)) ∧ TxOk g' := by
  rw [tryRecv] at hrecv
  rcases g.ckernel.pop_cases with ⟨-, heq⟩ | ⟨-, heq⟩
  · rw [heq] at hrecv
    obtain ⟨⟨v, w, g₁⟩, hpop, heq⟩ := Option.bind_eq_some_iff.mp hrecv
    cases heq
    exact popFront_parking h (free_pop_le _) hpop futures
  · rw [heq] at hrecv
    cases hrecv
    exact ⟨.take (p := g.parking futures) (Nat.le_refl _), ⟨h.permit, h.ids⟩⟩

theorem pollRecvLoop_parking {n : ℕ} {f f' : Recv} {waker : W} {res : Poll (Option T)}
    {woken : Option (ℕ × W)} (h : TxOk g)
    (hpoll : pollRecvLoop n g f waker = some (res, woken, g', f'))
    (futures : List (Option (SenderFuture T))) :
    (g.parking futures).Step (g'.parking (noteWoken woken futures)) ∧ TxOk g' := by
  induction n generalizing g with
  | zero => cases hpoll
  | succ n ih =>
    rw [pollRecvLoop] at hpoll
    rcases g.ckernel.pop_cases with ⟨-, heq⟩ | ⟨-, heq⟩
    · rw [heq] at hpoll
      simp only [Option.bind_eq_bind, Option.bind_eq_some_iff, Option.pure_def, Option.some.injEq,
        Prod.mk.injEq] at hpoll
      obtain ⟨⟨v, w, g₁⟩, hpop, -, rfl, rfl, -⟩ := hpoll
      exact popFront_parking h (free_pop_le _) hpop futures
    · rw [heq] at hpoll
      dsimp only at hpoll
      split at hpoll
      · cases hpoll
        exact ⟨.take (p := g.parking futures) (Nat.le_refl _), ⟨h.permit, h.ids⟩⟩
      · split at hpoll
        · cases hpoll
          exact ⟨.take (p := g.parking futures) (Nat.le_refl _), ⟨h.permit, h.ids⟩⟩
        · simp only [Option.bind_eq_bind, Option.bind_eq_some_iff] at hpoll
          obtain ⟨next, -, hpoll⟩ := hpoll
          split at hpoll
          · have hrest := fun hok => ih hok hpoll
            exact hrest ⟨h.permit, h.ids⟩
          · cases hpoll
            exact ⟨.take (p := g.parking futures) (Nat.le_refl _), ⟨h.permit, h.ids⟩⟩

end Inner

namespace Channel

variable {s s' : Channel T W} {l : Label T W}

/-- What matters about the parked senders of a channel. -/
def parking (s : Channel T W) : Parking T := s.inner.parking s.futures

/-- A channel that is open was open before. -/
theorem open_of_step (h : s.step l = some s') (hopen : s'.inner.rxClosed = false) :
    s.inner.rxClosed = false := by
  by_contra hclosed
  have hclosed' : s'.inner.rxClosed = true :=
    (step_stock h).closed (by simpa [stock] using hclosed)
  rw [hopen] at hclosed'
  cases hclosed'

/-- **Operations and parked senders.** While the channel is open, an operation does to the parked
senders what `Parking.Step` allows. -/
theorem step_parking (h : s.step l = some s') (hok : s.inner.TxOk)
    (hopen : s'.inner.rxClosed = false) : s.parking.Step s'.parking ∧ s'.inner.TxOk := by
  have hopen₀ := open_of_step h hopen
  cases step_cases h with
  | trySend _ hsend => exact Inner.trySend_parking hok hopen₀ hsend s.futures
  | send => exact ⟨.create (p := s.parking) _, hok⟩
  | tryReserve _ hreserve => exact Inner.tryReserve_parking hok hopen₀ hreserve s.futures
  | reserve => exact ⟨.create (p := s.parking) _, hok⟩
  | pollSend hf hfin hpoll =>
    obtain ⟨hpolled, hok', -⟩ := Inner.pollSend_polled hok hopen₀ hpoll
    exact ⟨Inner.Polled.step _ hpolled rfl rfl (live_eq_some.mpr hf) hfin, hok'⟩
  | pollReserve hf hfin hpoll =>
    obtain ⟨hpolled, hok', -⟩ := Inner.pollReserve_polled hok hopen₀ hpoll
    exact ⟨Inner.Polled.step _ hpolled rfl rfl (live_eq_some.mpr hf) hfin, hok'⟩
  | drop hf =>
    obtain ⟨hstep, hok', -⟩ := Inner.dropTxWaiter_parking hok (live_eq_some.mpr hf)
    exact ⟨hstep, hok'⟩
  | permitSend _ hsend => exact Inner.permitSend_parking hok hsend s.futures
  | permitDrop =>
    have hsame : s.inner.SameTx { s.inner with ckernel := s.inner.ckernel.unreserve } :=
      ⟨rfl, rfl, rfl, rfl⟩
    obtain ⟨hstep, hok', -⟩ := Inner.release_parking hok hsame
      (by simp only [ChannelKernel.free, ChannelKernel.unreserve]; omega) s.futures
    exact ⟨hstep, hok'⟩
  | cloneSender _ hclone => exact Inner.cloneSender_parking hok hclone s.futures
  | dropSender _ hdrop => exact Inner.dropSender_parking hok hdrop s.futures
  | tryRecv _ _ hrecv => exact Inner.tryRecv_parking hok hrecv s.futures
  | recv => exact ⟨.take (p := s.parking) (Nat.le_refl _), hok⟩
  | pollRecv _ hpoll => exact Inner.pollRecvLoop_parking hok hpoll s.futures
  | dropRecv => exact Inner.dropRecv_parking hok _ s.futures
  | close => cases hopen
  | dropReceiver => cases hopen

/-! ### Runs -/

/-- What holds of an open channel, in every run. -/
structure OpenOk (s : Channel T W) : Prop where
  tx : s.inner.TxOk
  ok : s.parking.Ok
  /-- Free slots are paid for by woken senders. -/
  paid : s.parking.Paid

theorem openOk_of_reachable (h : machine.Reachable s) (hopen : s.inner.rxClosed = false) :
    OpenOk s := by
  refine h.invariant (I := fun s => s.inner.rxClosed = false → OpenOk s) ?_ ?_ hopen
  · rintro s ⟨capacity, -, rfl⟩ -
    refine ⟨⟨rfl, rfl⟩, ⟨List.nodup_nil, ?_, ?_, ?_, ?_⟩, ?_⟩
    · intro id hid
      cases hid
    · intro i j f f' hi
      cases hi
    · intro id hid
      cases hid
    · intro i f hi
      cases hi
    · intro hne
      exact absurd rfl hne
  · intro s l s' hs hstep hopen'
    obtain ⟨htx, hok, hpaid⟩ := hs (open_of_step hstep hopen')
    obtain ⟨hpark, htx'⟩ := step_parking hstep htx hopen'
    exact ⟨htx', hok.step hpark, hpaid.step hok hpark⟩

/-- **No sender waits for a slot that nobody was woken for.** After any operations in any order, if
the channel is open and a sender is parked, there are at most as many free slots as there are live
futures of `send` and `reserve` that were taken from the queue to be woken and were neither polled
nor dropped since. -/
theorem reachable_free_le_woken (h : machine.Reachable s) (hopen : s.inner.rxClosed = false)
    (hparked : s.inner.txKernel.queue ≠ []) :
    s.inner.ckernel.capacity - s.inner.ckernel.buffered - s.inner.ckernel.reserved ≤
      wokenCount s.futures :=
  (openOk_of_reachable h hopen).paid hparked

/-- A channel for one value, with two parked senders: the value is received and the first sender
woken. The second is parked, and there is one free slot. -/
theorem reachable_free_le_woken_two_senders : ∃ s : Channel ℕ ℕ, machine.Reachable s ∧
    s.inner.rxClosed = false ∧ s.inner.txKernel.queue ≠ [] ∧ s.inner.ckernel.free = 1 ∧
    s.inner.ckernel.capacity - s.inner.ckernel.buffered - s.inner.ckernel.reserved ≤
      wokenCount s.futures := by
  have hstart : machine.Reachable (new 1 : Channel ℕ ℕ) := .of_init ⟨1, by decide, rfl⟩
  obtain ⟨s, hfollow, hopen, hparked, hfree⟩ : ∃ s, Machine.follow step
      [.trySend 5, .send 6, .reserve, .poll 0 0, .poll 1 1, .tryRecv] (new 1) = some s ∧
      s.inner.rxClosed = false ∧ s.inner.txKernel.queue ≠ [] ∧ s.inner.ckernel.free = 1 :=
    ⟨_, rfl, rfl, by decide, rfl⟩
  have hreach := hstart.follow hfollow
  exact ⟨s, hreach, hopen, hparked, hfree, reachable_free_le_woken hreach hopen hparked⟩

end Channel

end Lion.Mpsc
