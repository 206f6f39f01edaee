import Lion.Reactor.Timers

/-!
# Resource ids

Timers and I/O resources get their ids from one counter, which is never set back. A registration
takes an id before anything can go wrong, so an id is used up by a registration that the operating
system refuses; but nothing else is done then. The last id is never handed out.

The operating system knows an I/O resource by a token, a machine word. `encode_token_raw` casts the
id to it and `decode_token_raw` casts it back, which loses nothing where a machine word has 64 bits.
Token `0` is the one of the waker that interrupts a poll; no resource has it, as ids start from `1`.

## What has been handed out

That ids are unique is a statement about the past of a reactor and not about its state: an id may
have been given up long ago and must still not come back. `Registry` puts the list of everything
handed out beside the reactor, in order and with its kind. The list is read off what registrations
answer. That it increases strictly is then an invariant like any other (`Registry.Sound`), and that
slots and deadlines belong to ids of the right kind is another clause of it.

## Conventions

The calls are those of `Reactor`, with any arguments, whether its callers keep to a contract or not.
In particular nothing is assumed of deadlines, and `deregister_timer` may be called with the id of
an I/O resource.

## Main definitions

* `Registry` — a reactor, with the ids it has handed out
* `encodeTokenRaw`, `decodeTokenRaw` — ids as tokens

## Main results

* `Registry.Sound.call` — a call uses the next id, and otherwise those it finds
* `Registry.reachable_ids` — ids are unique for the life of a reactor
-/

namespace Lion

variable {W : Type*}

/-! ### Tokens -/

/-- `encode_token_raw`, where a machine word has `bits` bits. -/
def encodeTokenRaw (bits : ℕ) (rid : UInt64) : BitVec bits := BitVec.ofNat bits rid.toNat

/-- `decode_token_raw`: the cast back, whatever the width of a machine word. -/
def decodeTokenRaw {bits : ℕ} (raw : BitVec bits) : UInt64 := UInt64.ofNat raw.toNat

/-- The token of the waker that interrupts a poll. -/
def interruptToken (bits : ℕ) : BitVec bits := 0

/-- **Tokens.** With machine words of 64 bits an id is read back from its token. -/
theorem decodeTokenRaw_encodeTokenRaw (rid : UInt64) :
    decodeTokenRaw (encodeTokenRaw 64 rid) = rid := by
  rw [decodeTokenRaw, encodeTokenRaw, BitVec.toNat_ofNat, Nat.mod_eq_of_lt rid.toNat_lt,
    UInt64.ofNat_toNat]

/-! ### What is handed out -/

/-- What an id is for. The reactor itself does not keep track of it. -/
inductive ResourceKind
  | timer
  | io
deriving DecidableEq, Repr

/-- What is in a slot, which is all that tells the two kinds apart. -/
def ResourceSlot.kind : ResourceSlot W → ResourceKind
  | .timer _ _ => .timer
  | .io _ _ => .io

/-- What an allocation hands out: one id of the kind asked for, or nothing if there is none left. -/
def allocated (kind : ResourceKind) : Except IoError UInt64 → List (UInt64 × ResourceKind)
  | .ok rid => [(rid, kind)]
  | .error _ => []

/-- A reactor, with the ids it has handed out. -/
structure Registry (W : Type*) where
  reactor : Reactor W
  /-- The ids, in the order they were handed out. -/
  issued : List (UInt64 × ResourceKind)

namespace Registry

variable {s s' : Registry W} {op : Reactor.Op W} {k : UInt64}

/-- The ids that a call hands out, whether it succeeds or not. -/
def issue (r : Reactor W) : Reactor.Op W → List (UInt64 × ResourceKind)
  | .registerTimer _ _ => allocated .timer r.allocResourceId.1
  | .registerIoResource _ _ => allocated .io r.allocResourceId.1
  | .deregisterTimer _ | .deregisterIoResource _ _ | .setWaker _ _ _ | .park _ _ _ => []

/-- A reactor and its callers, who may call anything with any arguments. -/
def machine (W : Type*) : Machine (Registry W) (Reactor.Op W) where
  init s := ∃ readiness cachedNow, s = ⟨{ (Reactor.new : Reactor W) with readiness, cachedNow }, []⟩
  step s op s' := ∃ r, s.reactor.call op = some r ∧ s' = ⟨r, s.issued ++ issue s.reactor op⟩

/-- What is handed out is in order, and what is in use has been handed out for that. -/
structure Sound (s : Registry W) : Prop where
  /-- There is no id before the first, which leaves `0` to the operating system. -/
  one_le : 1 ≤ s.reactor.nextResourceId ∧ ∀ x ∈ s.issued, 1 ≤ x.1
  /-- What is to be handed out has not been. -/
  lt_next : ∀ x ∈ s.issued, x.1 < s.reactor.nextResourceId
  increasing : s.issued.Pairwise fun x y => x.1 < y.1
  /-- What is in the slab has been handed out. -/
  slab : ∀ k slot, s.reactor.resources.get k = some slot → (k, slot.kind) ∈ s.issued
  /-- What is in the wheel has been handed out to a timer. -/
  wheel : ∀ k d, s.reactor.wheel.live k = some d → (k, .timer) ∈ s.issued

end Registry

/-! ### One call -/

namespace Reactor

variable {r r' : Reactor W} {rid now : UInt64}

/-- `r'` is `r` with some resources given up, and nothing else changed that concerns ids. -/
structure Fewer (r r' : Reactor W) : Prop where
  next : r'.nextResourceId = r.nextResourceId
  slab : ∀ k slot, r'.resources.get k = some slot →
    ∃ slot', r.resources.get k = some slot' ∧ slot'.kind = slot.kind
  wheel : ∀ k d, r'.wheel.live k = some d → r.wheel.live k = some d

theorem Fewer.refl (r : Reactor W) : Fewer r r where
  next := rfl
  slab _ slot hk := ⟨slot, hk, rfl⟩
  wheel _ _ hk := hk

theorem Fewer.trans {r₁ r₂ r₃ : Reactor W} (h : Fewer r₁ r₂) (h' : Fewer r₂ r₃) :
    Fewer r₁ r₃ where
  next := h'.next.trans h.next
  slab k slot hk := by
    obtain ⟨slot', hk', hkind⟩ := h'.slab k slot hk
    obtain ⟨slot'', hk'', hkind'⟩ := h.slab k slot' hk'
    exact ⟨slot'', hk'', hkind'.trans hkind⟩
  wheel k d hk := h.wheel k d (h'.wheel k d hk)

/-- A slot is emptied, and the wheel loses deadlines at most. -/
theorem Fewer.of_remove (rid : UInt64) (hnext : r'.nextResourceId = r.nextResourceId)
    (hget : ∀ k, r'.resources.get k = if k = rid then none else r.resources.get k)
    (hwheel : ∀ k d, r'.wheel.live k = some d → r.wheel.live k = some d) : Fewer r r' where
  next := hnext
  slab k slot hk := by
    rw [hget] at hk
    split at hk
    · cases hk
    · exact ⟨slot, hk, rfl⟩
  wheel := hwheel

/-- The slab is left alone, and the wheel loses deadlines at most. -/
theorem Fewer.of_resources_eq (hnext : r'.nextResourceId = r.nextResourceId)
    (hres : r'.resources = r.resources)
    (hwheel : ∀ k d, r'.wheel.live k = some d → r.wheel.live k = some d) : Fewer r r' where
  next := hnext
  slab _ slot hk := ⟨slot, hres ▸ hk, rfl⟩
  wheel := hwheel

theorem fewer_wakeExpiredTimers {fuel : ℕ} (h : wakeExpiredTimers now fuel r = some r') :
    Fewer r r' := by
  induction fuel generalizing r with
  | zero => cases h
  | succ fuel ih =>
    rw [wakeExpiredTimers] at h
    obtain ⟨wheel, hpop, hdl⟩ | ⟨rid, d, wheel, hpop, -, hdl⟩ := r.wheel.tryPopExpired_cases now
    · rw [hpop] at h
      cases h
      exact .of_resources_eq rfl rfl fun k d hk => by rwa [TimerWheel.live, hdl] at hk
    · have hwheel : ∀ k d, wheel.live k = some d → r.wheel.live k = some d := by
        intro k d hk
        rw [TimerWheel.live, hdl, VecMap.get_remove] at hk
        split at hk
        · cases hk
        · exact hk
      rw [hpop] at h
      dsimp only at h
      split at h
      · rename_i waker _
        have hstep : Fewer r { r with
            wheel := wheel
            resources := ResourceSlab.removeTimerSlot r.resources rid
            log := r.log ++ [.wakeTask waker rid] } :=
          .of_remove rid rfl (ResourceSlab.get_removeTimerSlot _ _) hwheel
        exact hstep.trans (ih h)
      · have hstep : Fewer r { r with wheel } := .of_resources_eq rfl rfl hwheel
        exact hstep.trans (ih h)

/-- Reading the clock and polling give up nothing, since they leave slab and wheel alone. -/
theorem fewer_emit_getCurrentTime (r : Reactor W) (raw : UInt64) (c : OutboundCall W) :
    Fewer r ((r.getCurrentTime raw).2.emit c) :=
  .of_resources_eq rfl rfl fun _ _ hk => hk

theorem fewer_park {timeout : Option UInt64} {raw : UInt64} {poll : Except IoError (List MioEvent)}
    {res : Except IoError Unit} (h : r.park timeout raw poll = some (res, r')) : Fewer r r' := by
  simp only [park, Option.bind_eq_bind] at h
  cases poll with
  | ok events =>
    obtain ⟨r₁, hwake, h⟩ := Option.bind_eq_some_iff.mp h
    cases h
    have hbefore := (fewer_emit_getCurrentTime r raw _).trans (fewer_wakeExpiredTimers hwake)
    obtain ⟨_, readiness, hio, -⟩ := processIoEvents_spec r₁ (collectIoEvents events)
    rw [hio]
    exact hbefore.trans (.of_resources_eq rfl rfl fun _ _ hk => hk)
  | error e =>
    obtain ⟨r₁, hwake, h⟩ := Option.bind_eq_some_iff.mp h
    cases h
    exact (fewer_emit_getCurrentTime r raw _).trans (fewer_wakeExpiredTimers hwake)

theorem fewer_setWaker {interest : Interest} {waker : W}
    (h : r.setWaker rid interest waker = some r') : Fewer r r' := by
  rcases setWaker_cases h with rfl | ⟨resources, rw, ww, rw', ww', rfl, hio, hget⟩
  · exact .refl r'
  · refine ⟨rfl, fun k slot hk => ?_, fun _ _ hk => hk⟩
    have hsome := (hget k).symm.trans hk
    split at hsome
    · rename_i heq
      cases hsome
      exact ⟨.io rw ww, heq ▸ hio, rfl⟩
    · exact ⟨slot, hsome, rfl⟩

theorem fewer_deregisterTimer (r : Reactor W) (rid : UInt64) : Fewer r (r.deregisterTimer rid) := by
  refine .of_remove rid rfl (ResourceSlab.get_removeTimerSlot _ _) fun k d hk => ?_
  rw [deregisterTimer, TimerWheel.live, TimerWheel.get_deadlines_remove] at hk
  split at hk
  · cases hk
  · exact hk

theorem fewer_deregisterIoResource (r : Reactor W) (rid : UInt64) (osResult : Except IoError Unit) :
    Fewer r (r.deregisterIoResource rid osResult).2 :=
  .of_remove rid rfl (ResourceSlab.get_removeIoSlot _ _) fun _ _ hk => hk

/-! ### Registrations -/

/-- Ids run out at the last one, and at no other. -/
theorem allocResourceId_eq_error_iff {e : IoError} :
    r.allocResourceId.1 = .error e ↔
      r.nextResourceId = 0xFFFFFFFFFFFFFFFF ∧ e = .resourceIdOverflow := by
  rw [allocResourceId]
  split
  · rename_i hle
    have hmax : r.nextResourceId = 0xFFFFFFFFFFFFFFFF :=
      UInt64.le_antisymm (UInt64.le_iff_toNat_le.mpr (Nat.le_of_lt_succ r.nextResourceId.toNat_lt))
        hle
    simp [hmax, eq_comm]
  · rename_i hle
    simp only [reduceCtorEq, false_iff, not_and]
    intro hmax
    exact absurd (hmax ▸ UInt64.le_refl _) hle

/-- A timer is refused once ids have run out, and nothing is done then. -/
theorem registerTimer_eq_error_iff {deadline : UInt64} {waker : W} {e : IoError} :
    (r.registerTimer deadline waker).1 = .error e ↔
      r.nextResourceId = 0xFFFFFFFFFFFFFFFF ∧ e = .resourceIdOverflow := by
  rw [← allocResourceId_eq_error_iff, registerTimer]
  rcases allocResourceId_cases r with heq | ⟨-, heq⟩ <;> rw [heq]

theorem registerTimer_snd_of_error {deadline : UInt64} {waker : W} {e : IoError}
    (h : (r.registerTimer deadline waker).1 = .error e) :
    (r.registerTimer deadline waker).2 = r := by
  rw [registerTimer] at h ⊢
  rcases allocResourceId_cases r with heq | ⟨-, heq⟩
  · rw [heq]
  · rw [heq] at h
    cases h

/-- An I/O resource is refused once ids have run out, or by the operating system. -/
theorem registerIoResource_eq_error_iff {interest : Interest} {osResult : Except IoError Unit}
    {e : IoError} :
    (r.registerIoResource interest osResult).1 = .error e ↔
      if r.nextResourceId = 0xFFFFFFFFFFFFFFFF then e = .resourceIdOverflow
      else osResult = .error e := by
  have halloc := allocResourceId_eq_error_iff (r := r) (e := .resourceIdOverflow)
  rw [registerIoResource]
  rcases allocResourceId_cases r with heq | ⟨-, heq⟩
  · rw [heq] at halloc ⊢
    obtain ⟨hmax, -⟩ := halloc.mp rfl
    simp [hmax, eq_comm]
  · rw [heq] at halloc ⊢
    rw [if_neg fun hmax => by cases halloc.mpr ⟨hmax, rfl⟩]
    cases osResult with
    | ok => simp
    | error e' => simp

theorem registerIoResource_snd_of_error {interest : Interest} {osResult : Except IoError Unit}
    {e : IoError} (h : (r.registerIoResource interest osResult).1 = .error e) :
    (r.registerIoResource interest osResult).2.resources = r.resources ∧
      (r.registerIoResource interest osResult).2.wheel = r.wheel := by
  rw [registerIoResource] at h ⊢
  rcases allocResourceId_cases r with heq | ⟨-, heq⟩
  · rw [heq]
    exact ⟨rfl, rfl⟩
  · rw [heq] at h ⊢
    cases osResult with
    | ok => cases h
    | error e' => exact ⟨rfl, rfl⟩

/-- A registration that hands out an id, which it fills a slot with at most. -/
structure Allocates (kind : ResourceKind) (r r' : Reactor W) : Prop where
  lt : r.nextResourceId < r.nextResourceId + 1
  next : r'.nextResourceId = r.nextResourceId + 1
  slab : ∀ k slot, r'.resources.get k = some slot →
    k = r.nextResourceId ∧ slot.kind = kind ∨ r.resources.get k = some slot
  wheel : ∀ k d, r'.wheel.live k = some d →
    k = r.nextResourceId ∧ kind = .timer ∨ r.wheel.live k = some d

/-- A timer takes an id, or nothing is done. -/
theorem registerTimer_cases (r : Reactor W) (deadline : UInt64) (waker : W) :
    r.allocResourceId.1 = .error .resourceIdOverflow ∧ (r.registerTimer deadline waker).2 = r ∨
      r.allocResourceId.1 = .ok r.nextResourceId ∧
        Allocates .timer r (r.registerTimer deadline waker).2 := by
  rw [registerTimer]
  rcases allocResourceId_cases r with heq | ⟨hlt, heq⟩
  · rw [heq]
    exact .inl ⟨rfl, rfl⟩
  · rw [heq]
    refine .inr ⟨rfl, hlt, rfl, fun k slot hk => ?_, fun k d hk => ?_⟩
    · rw [ResourceSlab.get_insertTimerSlot] at hk
      split at hk
      · rename_i hnew
        cases hk
        exact .inl ⟨hnew, rfl⟩
      · exact .inr hk
    · rw [TimerWheel.live, TimerWheel.deadlines_insert, VecMap.get_insert] at hk
      split at hk
      · rename_i hnew
        exact .inl ⟨hnew, rfl⟩
      · exact .inr hk

/-- An I/O resource takes an id, whatever the operating system says, or nothing is done. -/
theorem registerIoResource_cases (r : Reactor W) (interest : Interest)
    (osResult : Except IoError Unit) :
    r.allocResourceId.1 = .error .resourceIdOverflow ∧
        (r.registerIoResource interest osResult).2 = r ∨
      r.allocResourceId.1 = .ok r.nextResourceId ∧
        Allocates .io r (r.registerIoResource interest osResult).2 := by
  rw [registerIoResource]
  rcases allocResourceId_cases r with heq | ⟨hlt, heq⟩
  · rw [heq]
    exact .inl ⟨rfl, rfl⟩
  · rw [heq]
    refine .inr ⟨rfl, ?_⟩
    cases osResult with
    | ok =>
      refine ⟨hlt, rfl, fun k slot hk => ?_, fun k d hk => .inr hk⟩
      rw [ResourceSlab.get_insertIoSlot] at hk
      split at hk
      · rename_i hnew
        cases hk
        exact .inl ⟨hnew, rfl⟩
      · exact .inr hk
    | error e => exact ⟨hlt, rfl, fun k slot hk => .inr hk, fun k d hk => .inr hk⟩

end Reactor

/-! ### Runs -/

namespace Registry

open Reactor

variable {s s' : Registry W} {op : Reactor.Op W} {kind : ResourceKind}

theorem sound_new (readiness : Readiness) (cachedNow : Option UInt64) :
    Sound ⟨{ (Reactor.new : Reactor W) with readiness, cachedNow }, []⟩ where
  one_le := ⟨UInt64.le_refl _, by simp⟩
  lt_next := by simp
  increasing := .nil
  slab k slot hk := by cases (Slab.get_new k).symm.trans hk
  wheel k d hk := by cases (VecMap.get_new k).symm.trans hk

theorem Sound.fewer {r' : Reactor W} (h : Sound s) (hf : Fewer s.reactor r') :
    Sound ⟨r', s.issued ++ []⟩ := by
  rw [List.append_nil]
  refine ⟨hf.next ▸ h.one_le, fun x hx => hf.next ▸ h.lt_next x hx, h.increasing,
    fun k slot hk => ?_, fun k d hk => h.wheel k d (hf.wheel k d hk)⟩
  obtain ⟨slot', hk', hkind⟩ := hf.slab k slot hk
  exact hkind ▸ h.slab k slot' hk'

theorem Sound.allocates {r' : Reactor W} (h : Sound s) (ha : Allocates kind s.reactor r') :
    Sound ⟨r', s.issued ++ [(s.reactor.nextResourceId, kind)]⟩ where
  one_le := by
    refine ⟨?_, fun x hx => ?_⟩
    · rw [ha.next]
      exact UInt64.le_of_lt (UInt64.lt_of_le_of_lt h.one_le.1 ha.lt)
    · rcases List.mem_append.mp hx with hold | hnew
      · exact h.one_le.2 x hold
      · cases List.mem_singleton.mp hnew
        exact h.one_le.1
  lt_next x hx := by
    rw [ha.next]
    rcases List.mem_append.mp hx with hold | hnew
    · exact UInt64.lt_trans (h.lt_next x hold) ha.lt
    · cases List.mem_singleton.mp hnew
      exact ha.lt
  increasing := by
    refine List.pairwise_append.mpr ⟨h.increasing, List.pairwise_singleton _ _, fun x hx y hy => ?_⟩
    cases List.mem_singleton.mp hy
    exact h.lt_next x hx
  slab k slot hk := by
    rcases ha.slab k slot hk with ⟨rfl, rfl⟩ | hold
    · exact List.mem_append_right _ (List.mem_singleton_self _)
    · exact List.mem_append_left _ (h.slab k slot hold)
  wheel k d hk := by
    rcases ha.wheel k d hk with ⟨rfl, rfl⟩ | hold
    · exact List.mem_append_right _ (List.mem_singleton_self _)
    · exact List.mem_append_left _ (h.wheel k d hold)

/-- A call either hands out the next id, or nothing. -/
theorem Sound.call {r' : Reactor W} (h : Sound s) (hcall : s.reactor.call op = some r') :
    Sound ⟨r', s.issued ++ issue s.reactor op⟩ := by
  cases op with
  | registerTimer deadline waker =>
    cases hcall
    rcases registerTimer_cases s.reactor deadline waker with ⟨halloc, heq⟩ | ⟨halloc, ha⟩
    · rw [heq, issue, halloc]
      exact h.fewer (.refl _)
    · rw [issue, halloc]
      exact h.allocates ha
  | registerIoResource interest osResult =>
    cases hcall
    rcases registerIoResource_cases s.reactor interest osResult with
      ⟨halloc, heq⟩ | ⟨halloc, ha⟩
    · rw [heq, issue, halloc]
      exact h.fewer (.refl _)
    · rw [issue, halloc]
      exact h.allocates ha
  | deregisterTimer rid =>
    cases hcall
    exact h.fewer (fewer_deregisterTimer _ rid)
  | deregisterIoResource rid osResult =>
    cases hcall
    exact h.fewer (fewer_deregisterIoResource _ rid osResult)
  | setWaker rid interest waker => exact h.fewer (fewer_setWaker hcall)
  | park timeout raw poll =>
    obtain ⟨⟨res, r₁⟩, hpark, rfl⟩ := Option.map_eq_some_iff.mp hcall
    exact h.fewer (fewer_park hpark)

/-- The id that a registration returns is the one it hands out. -/
theorem issue_registerTimer {r : Reactor W} {deadline rid : UInt64} {waker : W}
    (h : (r.registerTimer deadline waker).1 = .ok rid) :
    issue r (.registerTimer deadline waker) = [(rid, .timer)] := by
  rw [registerTimer] at h
  rw [issue]
  rcases allocResourceId_cases r with heq | ⟨-, heq⟩
  · rw [heq] at h
    cases h
  · rw [heq] at h ⊢
    cases h
    rfl

theorem issue_registerIoResource {r : Reactor W} {rid : UInt64} {interest : Interest}
    {osResult : Except IoError Unit} (h : (r.registerIoResource interest osResult).1 = .ok rid) :
    issue r (.registerIoResource interest osResult) = [(rid, .io)] := by
  rw [registerIoResource] at h
  rw [issue]
  rcases allocResourceId_cases r with heq | ⟨-, heq⟩
  · rw [heq] at h
    cases h
  · rw [heq] at h ⊢
    cases osResult with
    | ok =>
      cases h
      rfl
    | error e => cases h

theorem sound_of_reachable (h : (machine W).Reachable s) : Sound s := by
  refine h.invariant (fun s hinit => ?_) fun s op s' hs hstep => ?_
  · obtain ⟨readiness, cachedNow, rfl⟩ := hinit
    exact sound_new readiness cachedNow
  · obtain ⟨r', hcall, rfl⟩ := hstep
    exact hs.call hcall

/-- What has been handed out stays handed out, since the list only grows. -/
theorem issued_of_run {ops : List (Reactor.Op W)} (hrun : (machine W).Run s ops s') :
    ∃ later, s'.issued = s.issued ++ later := by
  induction hrun with
  | nil => exact ⟨[], (List.append_nil _).symm⟩
  | snoc _ hlast ih =>
    obtain ⟨later, hlater⟩ := ih
    obtain ⟨r', -, rfl⟩ := hlast
    exact ⟨later ++ issue _ _, by rw [hlater, List.append_assoc]⟩

/-- One id is for one kind of resource, for as long as the reactor lives. -/
theorem Sound.kind_unique (h : Sound s) {k : UInt64} {kind kind' : ResourceKind}
    (hk : (k, kind) ∈ s.issued) (hk' : (k, kind') ∈ s.issued) : kind = kind' := by
  have hnodup : (s.issued.map Prod.fst).Nodup :=
    List.pairwise_map.mpr (h.increasing.imp fun hlt => UInt64.ne_of_lt hlt)
  exact (Prod.mk.inj (List.inj_on_of_nodup_map hnodup hk hk' rfl)).2

theorem encodeTokenRaw_ne_interruptToken {rid : UInt64} (h : 1 ≤ rid) :
    encodeTokenRaw 64 rid ≠ interruptToken 64 := by
  intro heq
  have hzero : rid = 0 := by
    rw [← decodeTokenRaw_encodeTokenRaw rid, heq]
    rfl
  exact absurd (hzero ▸ h) (by decide)

/-- **Ids are unique for the life of a reactor.** Whatever its callers do, ids are handed out in
increasing order, from 1 on, each for one resource of one kind, and no run from here on hands one
out again; a registration that succeeds returns the id it has handed out. Slab and wheel have
keys below the next id only. A registration is refused when ids have run out, or by the operating
system, and then leaves slab and wheel as they were. Tokens are read back as the ids they stand
for, and none is the one of the waker that interrupts a poll. -/
theorem reachable_ids (h : (machine W).Reachable s) :
    s.issued.Pairwise (fun x y => x.1 < y.1) ∧
      (∀ x ∈ s.issued, 1 ≤ x.1 ∧ x.1 < s.reactor.nextResourceId ∧
        encodeTokenRaw 64 x.1 ≠ interruptToken 64) ∧
      (∀ k kind kind', (k, kind) ∈ s.issued → (k, kind') ∈ s.issued → kind = kind') ∧
      (∀ k slot, s.reactor.resources.get k = some slot →
        k < s.reactor.nextResourceId ∧ (k, slot.kind) ∈ s.issued) ∧
      (∀ k d, s.reactor.wheel.live k = some d →
        k < s.reactor.nextResourceId ∧ (k, .timer) ∈ s.issued) ∧
      (∀ ops s', (machine W).Run s ops s' → ∃ later, s'.issued = s.issued ++ later ∧
        ∀ x ∈ s.issued, ∀ y ∈ later, x.1 < y.1) ∧
      (∀ deadline waker,
        (∀ rid, (s.reactor.registerTimer deadline waker).1 = .ok rid →
          issue s.reactor (.registerTimer deadline waker) = [(rid, .timer)]) ∧
        ∀ e, ((s.reactor.registerTimer deadline waker).1 = .error e ↔
            s.reactor.nextResourceId = 0xFFFFFFFFFFFFFFFF ∧ e = .resourceIdOverflow) ∧
          ((s.reactor.registerTimer deadline waker).1 = .error e →
            (s.reactor.registerTimer deadline waker).2 = s.reactor)) ∧
      (∀ interest osResult,
        (∀ rid, (s.reactor.registerIoResource interest osResult).1 = .ok rid →
          issue s.reactor (.registerIoResource interest osResult) = [(rid, .io)]) ∧
        ∀ e, ((s.reactor.registerIoResource interest osResult).1 = .error e ↔
            if s.reactor.nextResourceId = 0xFFFFFFFFFFFFFFFF then e = .resourceIdOverflow
            else osResult = .error e) ∧
          ((s.reactor.registerIoResource interest osResult).1 = .error e →
            (s.reactor.registerIoResource interest osResult).2.resources = s.reactor.resources ∧
            (s.reactor.registerIoResource interest osResult).2.wheel = s.reactor.wheel)) ∧
      ∀ rid, decodeTokenRaw (encodeTokenRaw 64 rid) = rid := by
  have hs := sound_of_reachable h
  refine ⟨hs.increasing, fun x hx => ?_, fun k kind kind' => hs.kind_unique, fun k slot hk => ?_,
    fun k d hk => ?_, fun ops s' hrun => ?_, fun deadline waker => ?_, fun interest osResult => ?_,
    decodeTokenRaw_encodeTokenRaw⟩
  · exact ⟨hs.one_le.2 x hx, hs.lt_next x hx, encodeTokenRaw_ne_interruptToken (hs.one_le.2 x hx)⟩
  · exact ⟨hs.lt_next _ (hs.slab k slot hk), hs.slab k slot hk⟩
  · exact ⟨hs.lt_next _ (hs.wheel k d hk), hs.wheel k d hk⟩
  · obtain ⟨later, hlater⟩ := issued_of_run hrun
    have hincreasing := (sound_of_reachable (h.run hrun)).increasing
    rw [hlater] at hincreasing
    exact ⟨later, hlater, (List.pairwise_append.mp hincreasing).2.2⟩
  · exact ⟨fun rid hok => issue_registerTimer hok, fun e =>
      ⟨registerTimer_eq_error_iff, registerTimer_snd_of_error⟩⟩
  · exact ⟨fun rid hok => issue_registerIoResource hok, fun e =>
      ⟨registerIoResource_eq_error_iff, registerIoResource_snd_of_error⟩⟩

/-- A timer has the first id, the operating system refuses an I/O resource, which uses up the
second, and accepts another one. -/
theorem exists_reachable_three :
    ∃ s, (machine ℕ).Reachable s ∧ s.issued = [(1, .timer), (2, .io), (3, .io)] := by
  have h₀ : (machine ℕ).Reachable ⟨Reactor.new, []⟩ := .of_init ⟨[], none, rfl⟩
  have h₁ := h₀.step (a := .registerTimer 5 0) ⟨_, rfl, rfl⟩
  have h₂ := h₁.step (a := .registerIoResource ⟨true, false⟩ (.error (.os 24))) ⟨_, rfl, rfl⟩
  have h₃ := h₂.step (a := .registerIoResource ⟨true, false⟩ (.ok ())) ⟨_, rfl, rfl⟩
  exact ⟨_, h₃, rfl⟩

theorem reachable_ids_three :
    ∃ s, (machine ℕ).Reachable s ∧ s.issued = [(1, .timer), (2, .io), (3, .io)] ∧
      ∀ ops s', (machine ℕ).Run s ops s' → ∃ later, s'.issued = s.issued ++ later ∧
        ∀ x ∈ s.issued, ∀ y ∈ later, x.1 < y.1 := by
  obtain ⟨s, hs, hissued⟩ := exists_reachable_three
  obtain ⟨-, -, -, -, -, hlater, -⟩ := reachable_ids hs
  exact ⟨s, hs, hissued, hlater⟩

end Registry

end Lion
