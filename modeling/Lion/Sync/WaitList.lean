import Lion.Library.Arena
import Lion.Library.Machine
import Lion.Sync.Kernel

/-!
# Futures that wait for a signal

What `Notify` and `Semaphore` of `lion-utility` have in common. Behind a mutex there is a
`WaiterKernel`, the wakers of those who parked, and the next id. A future has a flag that it shares
with its entry among the wakers: whoever takes the entry out, to deliver what the future waits for,
sets the flag and then wakes. A poll loads the flag first, and takes the mutex only if the flag is
not set. So a poll is two steps here, and other threads may come between them; every other operation
holds the mutex from beginning to end and is one step.

The type of flags is a parameter, whose default is the flag of a new future: `false`, or `PENDING`.

## Why one definition for two primitives

The source has the code twice, line by line the same but for the flag and for what happens when the
semaphore is closed. Everything that is said about queues, entries and deliveries is therefore said
of `WaitList`, in `Delivery` and `InFlight`, and `Notify` and `Semaphore` add what is theirs: which
value a delivery sets the flag to, which flags are passed on when a future is dropped, and closing.
The definitions in those modules carry the names of the source and consist of calls of these.

## Conventions

Futures are numbered, and an entry says by number whose flag it has. `Waiting.loaded` is the waker
of a poll that has loaded the flag and not yet taken the mutex; while there is one the future can be
neither polled nor dropped. Nothing keeps a future from being polled after it has returned ready.

Some fields are not in the source, and nothing depends on them: of a future whether it has returned
ready, and whether because of its flag, the waker of the latest poll if that has returned pending,
and the waker that was taken with its entry; and the ids parked under and delivered to, in order.
-/

namespace Lion

/-- An entry of `wakers`: somebody who has parked, and how to reach them. -/
structure Entry (W : Type) where
  id : ℕ
  /-- The number of the future whose flag it is. -/
  future : ℕ
  waker : W
deriving DecidableEq, Repr

/-- What is behind the mutex, and is changed as a whole by whoever holds it. -/
structure Table (W : Type) where
  kernel : WaiterKernel
  /-- The wakers of those who parked. -/
  wakers : List (Entry W)
  nextId : ℕ
deriving DecidableEq, Repr

/-- A future, with what it keeps itself and what is noted of it. -/
structure Waiting (φ W : Type) where
  flag : φ
  id : ℕ
  parked : Bool
  /-- It has returned ready with what it waited for. -/
  completed : Bool
  /-- A poll has found the flag not set, and is about to take the mutex. -/
  loaded : Option W
  /-- It has returned ready. -/
  finished : Bool
  /-- It has returned ready because the flag was set. -/
  spent : Bool
  /-- The waker of the latest poll, if that has returned pending. -/
  last : Option W
  /-- The waker that was taken with its entry. -/
  taken : Option W
deriving DecidableEq, Repr

/-- The table, the futures around it, and what has happened in order. -/
structure WaitList (φ W : Type) extends Table W where
  futures : Arena (Waiting φ W)
  /-- The ids parked under, in order. -/
  parks : List ℕ
  /-- The ids delivered to, in order. -/
  grants : List ℕ
deriving DecidableEq, Repr

namespace Table

variable {W : Type}

/-- A new table, with permits stored and nobody waiting. -/
def new (permit : ℕ) : Table W := ⟨.withPermits permit, [], 0⟩

/-- The loop of a delivery, for a number of turns: ids whose waiter is gone are skipped. -/
def signalLoop : ℕ → Table W → Option (Option (Entry W) × Table W)
  | 0, _ => none
  | n + 1, t => do
    match ← t.kernel.signalStep with
    | (.woke id, kernel) =>
      match t.wakers.find? (·.id = id) with
      | some entry =>
        return (some entry, { t with kernel, wakers := t.wakers.eraseP (·.id = id) })
      | none => signalLoop n { t with kernel }
    | (.stored, kernel) => return (none, { t with kernel })

/-- A delivery: the entry taken out, unless a permit was stored. There are at most as many turns as
ids are queued, and one more. -/
def signal (t : Table W) : Option (Option (Entry W) × Table W) :=
  signalLoop (t.kernel.queue.length + 1) t

/-- Delivering to everybody, for a number of turns of the loop. -/
def drainLoop : ℕ → Table W → List (Entry W) × Table W
  | 0, t => ([], t)
  | n + 1, t =>
    if 0 < t.kernel.queue.length then
      match t.kernel.signalStep with
      | some (.woke id, kernel) =>
        let entry := t.wakers.find? (·.id = id)
        let (out, t) := drainLoop n { t with kernel, wakers := t.wakers.eraseP (·.id = id) }
        (entry.toList ++ out, t)
      | some (.stored, kernel) => ([], { t with kernel })
      | none => ([], t)
    else ([], t)

/-- Delivering to everybody who is queued by now: the entries taken out, in order. -/
def drain (t : Table W) : List (Entry W) × Table W := drainLoop t.kernel.queue.length t

/-- Store a new waker for an id, if it has an entry. -/
def refresh (t : Table W) (id : ℕ) (waker : W) : Table W :=
  { t with wakers := t.wakers.map fun e => if e.id = id then { e with waker } else e }

/-- A waiter leaves, if its id is still queued. -/
def withdraw (t : Table W) (id : ℕ) : Bool × Table W :=
  match t.kernel.removeStep id with
  | (true, kernel) => (true, { t with kernel, wakers := t.wakers.eraseP (·.id = id) })
  | (false, kernel) => (false, { t with kernel })

end Table

namespace WaitList

variable {φ W : Type} [DecidableEq φ] [Inhabited φ]

/-- No futures, and permits stored for the first of them. -/
def new (permit : ℕ) : WaitList φ W := ⟨.new permit, .empty, [], []⟩

/-- Change future number `i`, or remove it. -/
def put (s : WaitList φ W) (i : ℕ) (f : Option (Waiting φ W)) : WaitList φ W :=
  { s with futures := s.futures.put i f }

/-- A future is made, and has not been polled. -/
def add (s : WaitList φ W) : WaitList φ W :=
  { s with futures := s.futures.add ⟨default, 0, false, false, none, false, false, none, none⟩ }

/-- A poll, up to the mutex. Whether the flag was set; if it was, the poll is over. -/
def load (s : WaitList φ W) (i : ℕ) (waker : W) : Option (Bool × WaitList φ W) := do
  let f ← s.futures.get i
  if f.loaded.isSome then none
  else if f.flag ≠ default then
    return (true, s.put i (some { f with
      completed := true, finished := true, spent := true, last := none }))
  else return (false, s.put i (some { f with loaded := some waker, last := none }))

/-- The rest of a poll. Whether a permit was taken; if not, the poll has returned pending. -/
def lock (s : WaitList φ W) (i : ℕ) : Option (Bool × WaitList φ W) := do
  let f ← s.futures.get i
  let waker ← f.loaded
  if f.parked then
    return (false, { s with
      toTable := s.toTable.refresh f.id waker
      futures := s.futures.put i (some { f with loaded := none, last := some waker }) })
  else
    let id := s.nextId
    let nextId ← succ64 id
    match s.kernel.waitStep id with
    | (.ready, kernel) =>
      return (true, { s with
        kernel, nextId
        futures := s.futures.put i (some { f with
          id, loaded := none, completed := true, finished := true }) })
    | (.park _, kernel) =>
      return (false, { s with
        kernel, nextId
        wakers := s.wakers ++ [⟨id, i, waker⟩]
        futures := s.futures.put i (some { f with
          id, parked := true, loaded := none, last := some waker })
        parks := s.parks ++ [id] })

/-- Note which wakers were taken with these entries. -/
def noteTaken (entries : List (Entry W)) (futures : Arena (Waiting φ W)) : Arena (Waiting φ W) :=
  entries.foldl (fun a e => a.update e.future fun f => { f with taken := some e.waker }) futures

/-- Deliver `v`, if there is somebody to deliver to: the flag is set and the waker will be woken. -/
def deliver (s : WaitList φ W) (v : φ) (e : Entry W) : WaitList φ W :=
  { s with
    futures := s.futures.update e.future fun f => { f with flag := v, taken := some e.waker }
    grants := s.grants ++ [e.id] }

/-- Signal once, delivering `v` if there is somebody to deliver to. -/
def signal (s : WaitList φ W) (v : φ) : Option (WaitList φ W) := do
  match ← s.toTable.signal with
  | (some e, table) => return { s with toTable := table }.deliver v e
  | (none, table) => return { s with toTable := table }

/-- Deliver `v` to everybody who waits. -/
def signalAll (s : WaitList φ W) (v : φ) : WaitList φ W :=
  let (entries, table) := s.toTable.drain
  entries.foldl (fun s e => s.deliver v e) { s with toTable := table }

/-- A future is dropped. If it was delivered to and not polled since, what was delivered is
signalled again, for flags that say so. -/
def cancel (s : WaitList φ W) (forwards : φ → Bool) (v : φ) (i : ℕ) : Option (WaitList φ W) := do
  let f ← s.futures.get i
  if f.loaded.isSome then none
  else
    let s := s.put i none
    if f.completed || !f.parked then return s
    else
      match s.toTable.withdraw f.id with
      | (true, table) => return { s with toTable := table }
      | (false, table) =>
        let s := { s with toTable := table }
        if forwards f.flag && s.kernel.permit + 1 < UInt64.size then s.signal v else return s

end WaitList

end Lion
