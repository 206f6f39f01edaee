import Mathlib.Tactic.Common

/-!
# Polls

`Poll`, what polling a future returns, and the few questions that are asked of an answer. Futures of
this repository are functions that are called again and again with a waker until they are ready, so
an answer of pending is a promise: the waker that came with the poll will be called. `waits` is the
waker for which the promise was made.
-/

namespace Lion

/-- `Poll`: what polling a future returns. -/
inductive Poll (α : Type)
  | ready (a : α)
  | pending
deriving DecidableEq, Repr

namespace Poll

variable {α ε : Type}

/-- Whether the poll has returned ready, with whatever value. -/
def isReady : Poll α → Bool
  | .ready _ => true
  | .pending => false

/-- Whether the poll has returned ready, and no error. -/
def isOk : Poll (Except ε α) → Bool
  | .ready res => res.isOk
  | .pending => false

/-- The value that the poll has returned, if it is ready with one. -/
def value : Poll (Option α) → Option α
  | .ready value => value
  | .pending => none

/-- The waker that the poll leaves waiting, which is none if it has returned ready. -/
def waits {W : Type} (res : Poll α) (waker : W) : Option W :=
  if res.isReady then none else some waker

end Poll

end Lion
