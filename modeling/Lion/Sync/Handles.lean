import Lion.Sync.Closure

/-!
# How many receivers a broadcast channel has

Senders and receivers hold a channel by one `Arc`, and `receiver_count` is one less than its
reference count; so is the count that `send` returns. The handle that is taken off is the sender
that is asked. Any other sender is counted as a receiver, although the channel knows how many
senders there are.

## What is counted

The count is that of an `Arc`, and the model of the channel does not have it. It is noted along the
runs instead, by what each operation does to handles, and shown to be the sum of the senders and the
receivers that are alive (`Held`). From there the condition is arithmetic: the count is too large by
the number of the other senders.

## Conventions

`Handles` is the reference count, and next to it how many senders are alive, which is not in the
source. They are noted along the runs of the channel: whoever makes a sender or a receiver clones
the `Arc`, and who drops one drops it.

## Main results

* `Channel.counts_iff` — the count is right if and only if there is no other sender
* `Channel.not_counts` — a run after which it is not
-/

namespace Lion.Broadcast

variable {T W : Type}

/-- The handles on the `Arc` of a channel, and how many of them are senders. -/
structure Handles where
  senders : ℕ
  /-- `Arc::strong_count`, which counts all of them. -/
  strong : ℕ
deriving DecidableEq, Repr

namespace Handles

/-- The handles that `channel` returns, which are one sender and one receiver. -/
def new : Handles := ⟨1, 2⟩

/-- What an operation does to the handles: who is made holds one, and who is dropped gives it
back. -/
def note (h : Handles) : Label T W → Handles
  | .cloneSender => ⟨h.senders + 1, h.strong + 1⟩
  | .dropSender => ⟨h.senders - 1, h.strong - 1⟩
  | .subscribe | .resubscribe _ | .cloneReceiver _ => { h with strong := h.strong + 1 }
  | .dropReceiver _ => { h with strong := h.strong - 1 }
  | _ => h

/-- `Sender::receiver_count`, which leaves out the sender that is asked and no other. -/
def receiverCount (h : Handles) : ℕ := h.strong - 1

end Handles

/-- A sender that is dropped is no longer counted. -/
theorem Inner.senderCount_dropSender (g : Inner T W) :
    g.dropSender.2.senderCount = g.senderCount - 1 := by
  rw [dropSender]
  split
  · exact (sameSenders_wakeAllLoop _ _).2
  · rfl

namespace Channel

variable {c c' : Channel T W} {h : Handles} {l : Label T W}

/-- How many receivers are alive. -/
def live (c : Channel T W) : ℕ := c.receivers.countP Option.isSome

/-- Channels with their handles, as a machine. -/
def counted : Machine (Channel T W × Handles) (Label T W) :=
  Machine.observe (fun c => ∃ capacity, 0 < capacity ∧ c = new capacity) step .new
    fun _ l h => h.note l

/-- **The count of receivers is right**, and so is the one that a successful send returns. -/
structure Counts (c : Channel T W) (h : Handles) : Prop where
  receiverCount : h.receiverCount = c.live
  send : ∀ value n wakers inner,
    c.inner.send value h.strong = some (.ok n, wakers, inner) → n = c.live

/-! ### Receivers -/

@[simp]
theorem live_addReceiver (c : Channel T W) (cursor : ℕ) :
    (c.addReceiver cursor).live = c.live + 1 := by
  simp [live, addReceiver]

/-- A receiver is set anew, or dropped. -/
theorem live_setReceiver {i : ℕ} {r : Receiver T} (hr : c.receiver i = some r)
    (new : Option (Receiver T)) :
    (c.setReceiver i new).live + 1 = c.live + if new.isSome then 1 else 0 := by
  obtain ⟨hi, hget⟩ := List.getElem?_eq_some_iff.mp (Option.join_eq_some_iff.mp hr)
  have hpos : 0 < c.receivers.countP Option.isSome :=
    List.countP_pos_iff.mpr ⟨_, List.getElem_mem hi, by rw [hget]; rfl⟩
  show (c.receivers.set i new).countP Option.isSome + 1 = _
  rw [List.countP_set hi, hget, live]
  simp only [Option.isSome_some, if_true]
  omega

/-! ### What holds throughout -/

/-- The handles are the senders, as many as the channel knows of, and the receivers. -/
structure Held (c : Channel T W) (h : Handles) : Prop where
  senders : c.inner.senderCount = h.senders
  /-- They hold the channel, and nobody else does. -/
  strong : h.strong = h.senders + c.live

theorem held_new (capacity : ℕ) : Held (new capacity : Channel T W) .new :=
  ⟨rfl, rfl⟩

theorem Held.addReceiver (hheld : Held c h) (cursor : ℕ) :
    Held (c.addReceiver cursor) { h with strong := h.strong + 1 } := by
  refine ⟨hheld.senders, ?_⟩
  rw [live_addReceiver, ← Nat.add_assoc, ← hheld.strong]

/-- An operation on one receiver that leaves the senders alone. -/
theorem Held.setReceiver (hheld : Held c h) {i : ℕ} {r : Receiver T} (hr : c.receiver i = some r)
    {inner : Inner T W} (hinner : c.inner.SameSenders inner) (r' : Receiver T) :
    Held ({ c with inner }.setReceiver i (some r')) h := by
  have hlive : (c.setReceiver i (some r')).live + 1 = c.live + 1 := live_setReceiver hr (some r')
  refine ⟨hinner.2.trans hheld.senders, ?_⟩
  rw [hheld.strong, ← Nat.succ.inj hlive]
  rfl

/-- A receiver is dropped, and its handle with it. -/
theorem Held.dropReceiver (hheld : Held c h) {i : ℕ} {r : Receiver T} (hr : c.receiver i = some r)
    {inner : Inner T W} (hinner : c.inner.SameSenders inner) :
    Held ({ c with inner }.setReceiver i none) { h with strong := h.strong - 1 } := by
  have hlive : (c.setReceiver i none).live + 1 = c.live := live_setReceiver hr none
  refine ⟨hinner.2.trans hheld.senders, ?_⟩
  show h.strong - 1 = h.senders + (c.setReceiver i none).live
  rw [hheld.strong, ← hlive]
  rfl

theorem Held.step (hheld : Held c h) (hstep : c.step l = some c') : Held c' (h.note l) := by
  cases step_cases hstep with
  | send _ hsend => exact ⟨(Inner.sameSenders_send hsend).2.trans hheld.senders, hheld.strong⟩
  | cloneSender _ hclone =>
    obtain ⟨senderCount, hsucc, heq⟩ := Option.bind_eq_some_iff.mp hclone
    cases heq
    cases succ64_eq_some hsucc
    refine ⟨congrArg Nat.succ hheld.senders, ?_⟩
    show h.strong + 1 = h.senders + 1 + c.live
    rw [hheld.strong, Nat.add_right_comm]
  | dropSender hpos =>
    -- the sender that is dropped is one of those the channel knows of
    have hsome : h.senders ≠ 0 := hheld.senders ▸ hpos
    refine ⟨?_, ?_⟩
    · rw [Inner.senderCount_dropSender, hheld.senders]
      rfl
    · show h.strong - 1 = h.senders - 1 + c.live
      rw [hheld.strong]
      omega
  | subscribe => exact hheld.addReceiver _
  | resubscribe => exact hheld.addReceiver _
  | cloneReceiver => exact hheld.addReceiver _
  | tryRecv hr => exact hheld.setReceiver hr ⟨rfl, rfl⟩ _
  | recv hr => exact hheld.setReceiver hr ⟨rfl, rfl⟩ _
  | pollRecv hr _ hpoll => exact hheld.setReceiver hr (Inner.pollRecvLoop_closed _ hpoll).1 _
  | dropRecv hr => exact hheld.setReceiver hr (c.inner.sameSenders_dropRecv _) _
  | @dropReceiver _ r hr =>
    cases r.recv with
    | none => exact hheld.dropReceiver hr ⟨rfl, rfl⟩
    | some f => exact hheld.dropReceiver hr (c.inner.sameSenders_dropRecv f)

theorem held_of_reachable {s : Channel T W × Handles} (hs : counted.Reachable s) :
    Held s.1 s.2 := by
  refine hs.invariant (I := fun s => Held s.1 s.2) ?_ fun s l s' hheld hstep => ?_
  · rintro ⟨c, h⟩ ⟨⟨capacity, -, rfl⟩, rfl⟩
    exact held_new capacity
  · obtain ⟨hnext, hnote⟩ := Machine.observe_step hstep
    rw [hnote]
    exact hheld.step hnext

/-! ### When the count is right -/

/-- All handles but one are counted. -/
theorem Held.receiverCount (hheld : Held c h) (hsome : h.senders ≠ 0) :
    h.receiverCount = c.live + (h.senders - 1) := by
  rw [Handles.receiverCount, hheld.strong]
  omega

/-- The count that a successful send returns is the other one. -/
theorem receiverCount_of_send {g g' : Inner T W} {value : T} {handles n : ℕ} {wakers : List W}
    (hsend : g.send value handles = some (.ok n, wakers, g')) : n = handles - 1 := by
  rw [Inner.send] at hsend
  split at hsend
  · cases hsend
  · obtain ⟨⟨seq, bkern⟩, -, hrest⟩ := Option.bind_eq_some_iff.mp hsend
    cases hrest
    rfl

/-- **When the count is right.** Whatever senders and receivers were made and dropped, a sender
counts the receivers that are alive, by `receiver_count` as by `send`, if and only if it is the only
sender. -/
theorem counts_iff {s : Channel T W × Handles} (hs : counted.Reachable s)
    (hsome : s.2.senders ≠ 0) : Counts s.1 s.2 ↔ s.2.senders = 1 := by
  have hcount := (held_of_reachable hs).receiverCount hsome
  constructor
  · intro h
    rw [h.receiverCount] at hcount
    omega
  · intro hone
    rw [hone] at hcount
    exact ⟨hcount, fun value n wakers inner hsend => (receiverCount_of_send hsend).trans hcount⟩

/-- A run from a new channel with one slot. -/
theorem counted_of_follow {ls : List (Label T W)} {s : Channel T W × Handles}
    (hfollow : Machine.follow (Machine.noting step fun _ l h => Handles.note h l) ls
      (new 1, .new) = some s) : counted.Reachable s := by
  have hnew : (counted (T := T) (W := W)).Reachable (new 1, .new) :=
    .of_init ⟨⟨1, Nat.one_pos, rfl⟩, rfl⟩
  exact Machine.Reachable.follow hnew hfollow

/-- A sender is cloned, a receiver subscribes, and the clone is dropped. -/
theorem counts_two : ∃ s : Channel ℕ Unit × Handles, counted.Reachable s ∧ s.1.live = 2 ∧
    Counts s.1 s.2 := by
  obtain ⟨s, hs⟩ : ∃ s : Channel ℕ Unit × Handles, Machine.follow
      (Machine.noting step fun _ l h => Handles.note h l)
      [.cloneSender, .subscribe, .dropSender] (new 1, .new) = some s := ⟨_, rfl⟩
  have hreach := counted_of_follow hs
  cases hs
  exact ⟨_, hreach, rfl, (counts_iff hreach (by decide)).mpr rfl⟩

/-- A sender is cloned, and then counts two receivers, although there is one. -/
theorem not_counts : ∃ s : Channel ℕ Unit × Handles, counted.Reachable s ∧ s.2.senders ≠ 0 ∧
    s.2.receiverCount = 2 ∧ s.1.live = 1 ∧ ¬ Counts s.1 s.2 := by
  obtain ⟨s, hs⟩ : ∃ s : Channel ℕ Unit × Handles, Machine.follow
      (Machine.noting step fun _ l h => Handles.note h l) [.cloneSender] (new 1, .new) = some s :=
    ⟨_, rfl⟩
  have hreach := counted_of_follow hs
  cases hs
  exact ⟨_, hreach, by decide, rfl, rfl, fun h => absurd h.receiverCount (by decide)⟩

end Channel

end Lion.Broadcast
