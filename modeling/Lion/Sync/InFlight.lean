import Lion.Sync.Delivery

/-!
# Deliveries in flight

What has been delivered to a future and not been collected by a poll is in flight. Together with the
permits stored it is what the table still owes. A signal adds one to that, a poll that returns ready
takes one away, and nothing else changes it, a cancellation included: what was in flight to a future
that goes is signalled again.

This holds as long as no future is polled after it has returned ready (`WaitList.Once`). Such a
future may park again without anybody expecting it to, and when it is dropped it leaves its entry
behind.

## One count for three primitives

Which deliveries count is a parameter, a predicate on flags. For a semaphore all of them do. For
`Notify` it is those of `notify_one`, while those of `notify_waiters` are neither owed nor passed
on. Counting all futures with a property is `tally`, and the four lemmas about `owed` are about how
one operation changes such a count; the conservation laws of `Notify` and `Semaphore` add what is
kept outside of the table, and the mutex counts with a predicate of its own.

## Main results

* `owed_load`, `owed_lock`, `owed_signal`, `owed_cancel` — how each operation changes what is owed
* `owed_signalAll` — a delivery to everybody that does not count changes nothing
-/

namespace Lion

variable {φ W : Type}

/-- The future was delivered to, by a flag that counts, and has not collected. -/
def Waiting.owed (owing : φ → Bool) (f : Waiting φ W) : Bool := owing f.flag && !f.completed

namespace WaitList

variable {s s' : WaitList φ W} {closed : Bool} {i : ℕ} {f : Waiting φ W} {v : φ} {owing : φ → Bool}

/-- The permits stored, and the futures that satisfy `p`: what of the stock is not in use. -/
def tally (p : Waiting φ W → Bool) (s : WaitList φ W) : ℕ := s.kernel.permit + s.futures.count p

/-- The permits stored, and the deliveries in flight. Signals add to this number and polls that are
ready take from it. -/
def owed (owing : φ → Bool) (s : WaitList φ W) : ℕ := s.tally (Waiting.owed owing)

/-- One future changes, or goes, and with it what is counted of the futures. -/
theorem tally_change (p : Waiting φ W → Bool) (hi : s.futures.get i = some f)
    {f' : Option (Waiting φ W)} (hfutures : s'.futures = s.futures.put i f') :
    s'.tally p + s.kernel.permit + (p f).toNat =
      s.tally p + s'.kernel.permit + (f'.any p).toNat := by
  have hcount := Arena.count_put hi f' p
  rw [← hfutures] at hcount
  have htoNat : ∀ b : Bool, b.toNat = if b then 1 else 0 := by
    intro b
    cases b <;> rfl
  rw [tally, tally, htoNat, htoNat]
  omega

/-- No future is polled after it has returned ready. With that, a future collects what was delivered
to it at most once, and has no entry after that. -/
structure Once (s : WaitList φ W) : Prop where
  /-- A poll in progress is of a future that has not returned ready. -/
  loaded : ∀ i f, s.futures.get i = some f → f.loaded ≠ none → f.finished = false
  /-- Collecting is returning ready, and is done once. -/
  completed : ∀ i f, s.futures.get i = some f → f.completed = true → f.finished = true
  /-- An entry is of a future that is alive and has not collected. -/
  entries : ∀ e ∈ s.wakers, ∃ f, s.futures.get e.future = some f ∧ f.completed = false

theorem once_new (permit : ℕ) : Once (new permit : WaitList φ W) := by
  constructor <;> simp [new, Table.new]

/-- One future changes, and the table with it. An entry that is new is of this future. -/
theorem Once.change (h : Once s) (hi : s.futures.get i = some f) {f' : Waiting φ W}
    (hfutures : s'.futures = s.futures.put i (some f'))
    (hloaded : f'.loaded ≠ none → f'.finished = false)
    (hcompleted : f'.completed = true → f'.finished = true)
    (hentries : ∀ e ∈ s'.wakers, if e.future = i then f'.completed = false else
      ∃ e₀ ∈ s.wakers, e₀.future = e.future) : Once s' := by
  have hget := Arena.get_put hi (some f')
  rw [← hfutures] at hget
  constructor
  · intro j f₁ hj
    rw [hget] at hj
    split at hj
    · cases hj
      exact hloaded
    · exact h.loaded j f₁ hj
  · intro j f₁ hj
    rw [hget] at hj
    split at hj
    · cases hj
      exact hcompleted
    · exact h.completed j f₁ hj
  · intro e he
    have hentry := hentries e he
    rw [hget]
    split at hentry
    · rename_i heq
      rw [if_pos heq]
      exact ⟨f', rfl, hentry⟩
    · rename_i heq
      rw [if_neg heq]
      obtain ⟨e₀, he₀, hfuture⟩ := hentry
      rw [← hfuture]
      exact h.entries e₀ he₀

/-- A future is replaced by one that has collected just as much, and the table is left alone. -/
theorem Once.put_same (h : Once s) (hi : s.futures.get i = some f) {f' : Waiting φ W}
    (hloaded : f'.loaded ≠ none → f'.finished = false)
    (hcompleted : f'.completed = true → f'.finished = true)
    (hsame : f'.completed = f.completed) : Once (s.put i (some f')) := by
  refine h.change hi rfl hloaded hcompleted fun e he => ?_
  split
  · rename_i heq
    obtain ⟨f₀, hf₀, hnot⟩ := h.entries e he
    rw [heq, hi] at hf₀
    cases hf₀
    rw [hsame]
    exact hnot
  · exact ⟨e, he, rfl⟩

theorem Once.add [Inhabited φ] (h : Once s) : Once s.add := by
  constructor
  · intro j f hj
    simp only [WaitList.add, Arena.get_add] at hj
    split at hj
    · cases hj
      simp
    · exact h.loaded j f hj
  · intro j f hj
    simp only [WaitList.add, Arena.get_add] at hj
    split at hj
    · cases hj
      simp
    · exact h.completed j f hj
  · intro e he
    obtain ⟨f, hf, hnot⟩ := h.entries e he
    refine ⟨f, ?_, hnot⟩
    simp only [WaitList.add, Arena.get_add]
    rw [if_neg (Nat.ne_of_lt (Arena.lt_size hf))]
    exact hf

/-- A future goes that has no entry, so that no entry is without its future. -/
theorem Once.remove (h : Once s) (hi : s.futures.get i = some f) {s' : WaitList φ W}
    (hfutures : s'.futures = s.futures.put i none)
    (hentries : ∀ e ∈ s'.wakers, e ∈ s.wakers ∧ e.future ≠ i) : Once s' := by
  have hget := Arena.get_put hi none
  rw [← hfutures] at hget
  constructor
  · intro j f₁ hj
    rw [hget] at hj
    split at hj
    · cases hj
    · exact h.loaded j f₁ hj
  · intro j f₁ hj
    rw [hget] at hj
    split at hj
    · cases hj
    · exact h.completed j f₁ hj
  · intro e he
    obtain ⟨hmem, hne⟩ := hentries e he
    rw [hget, if_neg hne]
    exact h.entries e hmem

theorem Once.close (h : Once s) :
    Once { s with wakers := [], futures := noteTaken s.wakers s.futures } := by
  refine ⟨?_, ?_, by simp⟩
  · intro j f' hj
    obtain ⟨f, t, hf, rfl, -⟩ := get_noteTaken _ _ hj
    exact h.loaded j f hf
  · intro j f' hj
    obtain ⟨f, t, hf, rfl, -⟩ := get_noteTaken _ _ hj
    exact h.completed j f hf

theorem owed_close (owing : φ → Bool) (s : WaitList φ W) : { s with
    wakers := [], futures := noteTaken s.wakers s.futures }.owed owing = s.owed owing := by
  simp only [owed, tally]
  rw [count_noteTaken]
  exact fun _ _ => rfl

section Agree

variable [Inhabited φ]

theorem Once.load [DecidableEq φ] {waker : W} {ready : Bool} (h : Once s) (hok : Ok s closed)
    (hload : s.load i waker = some (ready, s'))
    (hfresh : ∀ f, s.futures.get i = some f → f.finished = false) : Once s' := by
  obtain ⟨f, hf, hnone, ⟨-, hflag, rfl⟩ | ⟨-, -, rfl⟩⟩ := load_cases hload
  · refine h.change hf rfl (fun hl => absurd hnone hl) (fun _ => rfl) fun e he => ?_
    split
    · rename_i heq
      exact absurd ((hok.futures i f hf).entry e he heq).2.2 hflag
    · exact ⟨e, he, rfl⟩
  · exact h.put_same hf (fun _ => hfresh f hf) (h.completed i f hf) rfl

theorem Once.lock {ready : Bool} (h : Once s) (hok : Ok s closed)
    (hlock : s.lock i = some (ready, s')) : Once s' := by
  obtain ⟨f, waker, hf, hloaded, hcase⟩ := lock_cases hlock
  have hfin : f.finished = false := h.loaded i f hf (by simp [hloaded])
  have hnot : f.completed = false := by
    by_contra hc
    rw [h.completed i f hf (by simpa using hc)] at hfin
    cases hfin
  have hentry : ∀ e ∈ s.wakers, if e.future = i then f.completed = false else
      ∃ e₀ ∈ s.wakers, e₀.future = e.future := by
    intro e he
    split
    · exact hnot
    · exact ⟨e, he, rfl⟩
  obtain ⟨-, -, rfl⟩ | ⟨hp, -, -, rfl⟩ | ⟨-, -, -, rfl⟩ := hcase
  · refine h.change hf rfl (by simp) (h.completed i f hf) fun e he => ?_
    obtain ⟨e₀, he₀, rfl⟩ := List.mem_map.mp he
    have hsame : (if e₀.id = f.id then { e₀ with waker } else e₀).future = e₀.future := by
      split <;> rfl
    rw [hsame]
    exact hentry e₀ he₀
  · refine h.change hf rfl (by simp) (fun _ => rfl) fun e he => ?_
    split
    · rename_i heq
      have hp' := ((hok.futures i f hf).entry e he heq).2.1
      rw [hp] at hp'
      cases hp'
    · exact ⟨e, he, rfl⟩
  · refine h.change hf rfl (by simp) (h.completed i f hf) fun e he => ?_
    rcases List.mem_append.mp he with he | he
    · exact hentry e he
    · rw [if_pos (by rw [List.mem_singleton.mp he])]
      exact hnot

theorem Once.signal (h : Once s) (hok : Ok s closed) (hsignal : s.signal v = some s') :
    Once s' := by
  rcases signal_cases hok hsignal with ⟨-, rfl⟩ | ⟨e, rest, ids, -, hwakers, -, rfl⟩
  · exact ⟨h.loaded, h.completed, h.entries⟩
  · obtain ⟨f, hf, hnot⟩ := h.entries e (by rw [hwakers]; exact List.mem_cons_self)
    refine h.change hf (Arena.update_eq_put hf _) (h.loaded _ f hf) (h.completed _ f hf) ?_
    intro e' he'
    split
    · exact hnot
    · refine ⟨e', ?_, rfl⟩
      rw [hwakers]
      exact List.mem_cons_of_mem _ he'

/-- A future that goes leaves no entry behind, if it had not returned ready. -/
theorem Once.no_entry (h : Once s) (hok : Ok s closed) (hi : s.futures.get i = some f)
    (hgone : f.completed = true ∨ f.parked = false ∨ f.id ∉ s.kernel.queue) :
    ∀ e ∈ s.wakers, e.future ≠ i := by
  intro e he heq
  obtain ⟨hid, hparked, -⟩ := (hok.futures i f hi).entry e he heq
  rcases hgone with hc | hp | hq
  · obtain ⟨f₀, hf₀, hnot⟩ := h.entries e he
    rw [heq, hi] at hf₀
    cases hf₀
    rw [hc] at hnot
    cases hnot
  · rw [hp] at hparked
    cases hparked
  · rw [hid] at hq
    exact hq (hok.mem_queue he).2

theorem Once.cancel {forwards : φ → Bool} (h : Once s) (hok : Ok s closed)
    (hcancel : s.cancel forwards v i = some s') : Once s' := by
  obtain ⟨f, hf, -, ⟨rfl, hgone⟩ | ⟨-, hp, hmem, rfl⟩ | ⟨-, -, hq, -, hsignal⟩⟩ :=
    cancel_cases hcancel
  · have hnone := h.no_entry hok hf (hgone.imp_right (Or.imp_right And.left))
    exact h.remove hf rfl fun e he => ⟨he, hnone e he⟩
  · refine h.remove hf rfl fun e he => ⟨List.mem_of_mem_eraseP he, fun heq => ?_⟩
    -- the entry of the future that goes is the one taken out
    have hmem' : e ∈ s.wakers := List.mem_of_mem_eraseP he
    have hid := ((hok.futures i f hf).entry e hmem' heq).1
    have hout : e.id ∉ (s.wakers.eraseP (·.id = f.id)).map Entry.id := by
      have herase : (s.wakers.eraseP (·.id = f.id)).map Entry.id =
          (s.wakers.map Entry.id).erase f.id := map_id_eraseP s.wakers f.id
      rw [herase, hid]
      exact hok.wakers_nodup.not_mem_erase
    exact hout (List.mem_map_of_mem he)
  · have hnone := h.no_entry hok hf (.inr (.inr hq))
    have hput : Once (s.put i none) := h.remove hf rfl fun e he => ⟨he, hnone e he⟩
    exact hput.signal (hok.put_none hf) hsignal

/-! ### What is owed -/

theorem owed_add (s : WaitList φ W) (hdefault : owing default = false) :
    s.add.owed owing = s.owed owing := by
  simp only [owed, tally, WaitList.add, Arena.count_add, Waiting.owed, hdefault]
  rfl

omit [Inhabited φ] in
theorem owed_change (owing : φ → Bool) (hi : s.futures.get i = some f)
    {f' : Option (Waiting φ W)} (hfutures : s'.futures = s.futures.put i f') :
    s'.owed owing + s.kernel.permit + (f.owed owing).toNat =
      s.owed owing + s'.kernel.permit + (f'.any (Waiting.owed owing)).toNat :=
  tally_change (Waiting.owed owing) hi hfutures

/-- A poll that finds its flag set collects what was in flight to its future. -/
theorem owed_load [DecidableEq φ] (owing : φ → Bool) {waker : W} {ready : Bool} (h : Once s)
    (hload : s.load i waker = some (ready, s'))
    (hfresh : ∀ f, s.futures.get i = some f → f.finished = false) :
    ∃ f, s.futures.get i = some f ∧
      ((ready = true ∧ f.flag ≠ default ∧
        s'.owed owing + (owing f.flag).toNat = s.owed owing) ∨
      (ready = false ∧ s'.owed owing = s.owed owing)) := by
  obtain ⟨f, hf, -, hcase⟩ := load_cases hload
  refine ⟨f, hf, ?_⟩
  have hnot : f.completed = false := by
    by_contra hc
    have hfin := h.completed i f hf (by simpa using hc)
    rw [hfresh f hf] at hfin
    cases hfin
  rcases hcase with ⟨rfl, hflag, hs⟩ | ⟨rfl, -, hs⟩
  · have hchange := owed_change owing hf (congrArg WaitList.futures hs)
    have hpermit : s'.kernel.permit = s.kernel.permit := by rw [hs]; rfl
    refine .inl ⟨rfl, hflag, ?_⟩
    simp only [Waiting.owed, hnot, Option.any_some, Bool.not_false, Bool.and_true, Bool.not_true,
      Bool.and_false, Bool.toNat_false] at hchange
    omega
  · have hchange := owed_change owing hf (congrArg WaitList.futures hs)
    have hpermit : s'.kernel.permit = s.kernel.permit := by rw [hs]; rfl
    refine .inr ⟨rfl, ?_⟩
    simp only [Waiting.owed, Option.any_some] at hchange
    omega

/-- A poll that takes the mutex collects a stored permit, if there is one. -/
theorem owed_lock (owing : φ → Bool) {ready : Bool} (hok : Ok s closed)
    (hdefault : owing default = false)
    (hlock : s.lock i = some (ready, s')) : s'.owed owing + ready.toNat = s.owed owing := by
  obtain ⟨f, waker, hf, -, hcase⟩ := lock_cases hlock
  rcases hcase with ⟨-, rfl, hs⟩ | ⟨hp, rfl, hpos, hs⟩ | ⟨hp, rfl, -, hs⟩
  · have hchange := owed_change owing hf (congrArg WaitList.futures hs)
    have hpermit : s'.kernel.permit = s.kernel.permit := by rw [hs]; rfl
    simp only [Waiting.owed, Option.any_some] at hchange
    simp only [Bool.toNat_false]
    omega
  · have hchange := owed_change owing hf (congrArg WaitList.futures hs)
    have hpermit : s'.kernel.permit = s.kernel.permit - 1 := by rw [hs]
    -- the future has not parked, so it has no flag
    have hflag : f.flag = default := by
      by_contra hne
      rw [((hok.futures i f hf).flagged hne).1] at hp
      cases hp
    simp only [Waiting.owed, hflag, hdefault, Option.any_some, Bool.false_and,
      Bool.toNat_false] at hchange
    simp only [Bool.toNat_true]
    omega
  · have hchange := owed_change owing hf (congrArg WaitList.futures hs)
    have hpermit : s'.kernel.permit = s.kernel.permit := by rw [hs]
    simp only [Waiting.owed, Option.any_some] at hchange
    simp only [Bool.toNat_false]
    omega

/-- A signal stores a permit or puts a delivery in flight, if its flag counts. -/
theorem owed_signal (owing : φ → Bool) (h : Once s) (hok : Ok s closed)
    (hdefault : owing default = false)
    (hsignal : s.signal v = some s') :
    ((s.wakers = [] ∨ owing v = true) ∧ s'.owed owing = s.owed owing + 1) ∨
      (s.wakers ≠ [] ∧ owing v = false ∧ s'.owed owing = s.owed owing) := by
  rcases signal_cases hok hsignal with ⟨hwakers, hs⟩ | ⟨e, rest, ids, -, hwakers, -, hs⟩
  · refine .inl ⟨.inl hwakers, ?_⟩
    rw [hs]
    simp only [owed, tally]
    omega
  · have hmem : e ∈ s.wakers := by
      rw [hwakers]
      exact List.mem_cons_self
    obtain ⟨f, hf, hnot⟩ := h.entries e hmem
    have hflag := ((hok.futures _ f hf).entry e hmem rfl).2.2
    have hfutures := congrArg WaitList.futures hs
    dsimp only at hfutures
    rw [Arena.update_eq_put hf] at hfutures
    have hchange := owed_change owing hf hfutures
    have hpermit : s'.kernel.permit = s.kernel.permit := by rw [hs]
    simp only [Waiting.owed, hnot, hflag, hdefault, Option.any_some, Bool.toNat_false,
      Bool.not_false, Bool.and_true] at hchange
    cases hv : owing v with
    | true =>
      rw [hv, Bool.toNat_true] at hchange
      exact .inl ⟨.inr rfl, by omega⟩
    | false =>
      rw [hv, Bool.toNat_false] at hchange
      refine .inr ⟨?_, rfl, by omega⟩
      rw [hwakers]
      exact List.cons_ne_nil _ _

/-- Delivering to everybody, by a flag that does not count, changes nothing in what is owed. -/
theorem owed_signalAll (owing : φ → Bool) (h : Once s) (hok : Ok s false)
    (hdefault : owing default = false) (hv : v ≠ default) (hnot : owing v = false) :
    Once (s.signalAll v) ∧ (s.signalAll v).owed owing = s.owed owing := by
  refine (signalAll_induction (P := fun w => Once w ∧ w.owed owing = s.owed owing) hok hv
    ⟨h, rfl⟩ ?_).1
  rintro w w' hw hwakers ⟨honce, howed⟩ hsignal
  refine ⟨honce.signal hw hsignal, ?_⟩
  rcases owed_signal owing honce hw hdefault hsignal with ⟨hnil | htrue, -⟩ | ⟨-, -, hsame⟩
  · exact absurd hnil hwakers
  · rw [hnot] at htrue
    cases htrue
  · exact hsame.trans howed

/-- **A cancellation loses nothing.** What was in flight to the future is passed on to another one,
or stored. -/
theorem owed_cancel (h : Once s) (hok : Ok s closed) (hdefault : owing default = false)
    (hv : owing v = true)
    (hbound : s.owed owing < UInt64.size ∨ s.kernel.permit + 1 < UInt64.size)
    (hcancel : s.cancel owing v i = some s') : s'.owed owing = s.owed owing := by
  obtain ⟨f, hf, -, hcase⟩ := cancel_cases hcancel
  have hfok := hok.futures i f hf
  rcases hcase with ⟨hs, hgone⟩ | ⟨-, -, hmem, hs⟩ | ⟨hnot, -, hq, hforward, hsignal⟩
  · have hchange := owed_change owing hf (congrArg WaitList.futures hs)
    have hpermit : s'.kernel.permit = s.kernel.permit := by rw [hs]; rfl
    -- nothing was in flight to it, or there would be room for another permit
    have hnone : f.owed owing = false := by
      rcases hgone with hc | hp | ⟨-, hflag | hfull⟩
      · simp [Waiting.owed, hc]
      · have hflag : f.flag = default := by
          by_contra hne
          rw [(hfok.flagged hne).1] at hp
          cases hp
        simp [Waiting.owed, hflag, hdefault]
      · simp [Waiting.owed, hflag]
      · by_contra howed
        rw [Bool.not_eq_false] at howed
        rw [howed, Bool.toNat_true] at hchange
        simp only [Option.any_none, Bool.toNat_false] at hchange
        simp only [owed, tally] at hbound hchange
        omega
    rw [hnone] at hchange
    simp only [Option.any_none, Bool.toNat_false] at hchange
    omega
  · have hchange := owed_change owing hf (congrArg WaitList.futures hs)
    have hpermit : s'.kernel.permit = s.kernel.permit := by rw [hs]
    have hflag : f.flag = default := by
      by_contra hne
      exact (hfok.flagged hne).2 hmem
    simp only [Waiting.owed, hflag, hdefault, Bool.false_and, Option.any_none,
      Bool.toNat_false] at hchange
    omega
  · have hchange := owed_change owing hf (Eq.refl (s.put i none).futures)
    have hpermit : (s.put i none).kernel.permit = s.kernel.permit := rfl
    simp only [Waiting.owed, hforward, hnot, Bool.not_false, Bool.and_true, Option.any_none,
      Bool.toNat_false, Bool.toNat_true] at hchange
    have hput : Once (s.put i none) :=
      h.remove hf rfl fun e he => ⟨he, h.no_entry hok hf (.inr (.inr hq)) e he⟩
    rcases owed_signal owing hput (hok.put_none hf) hdefault hsignal with ⟨-, hone⟩ | ⟨-, hv', -⟩
    · omega
    · rw [hv] at hv'
      cases hv'

end Agree

end WaitList

end Lion
