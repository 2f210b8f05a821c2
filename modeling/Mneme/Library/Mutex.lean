/-
A mutex that its holder cannot take again, as one thread meets it.

While another thread holds the mutex, a `lock` waits and then goes on; a `lock` of the thread
that holds it already waits for good.
-/

import Mathlib.Tactic.Common

namespace Mneme.Library

/-- The thread waits for a mutex that it holds. -/
inductive SelfDeadlock where
  | waiting
deriving DecidableEq, Repr

/-- What a mutex guards, and whether the thread holds it. -/
structure Guarded (Data : Type) where
  data : Data
  held : Bool
deriving DecidableEq

/-- What a thread does with a mutex. -/
abbrev Locking (Data Result : Type) : Type :=
  StateT (Guarded Data) (Except SelfDeadlock) Result

namespace Locking

variable {Data Result : Type}

def lock : Locking Data Unit := fun state =>
  if state.held then .error .waiting else .ok ((), { state with held := true })

def unlock : Locking Data Unit := fun state =>
  .ok ((), { state with held := false })

def read (field : Data → Result) : Locking Data Result := fun state =>
  .ok (field state.data, state)

def write (change : Data → Data) : Locking Data Unit := fun state =>
  .ok ((), { state with data := change state.data })

theorem lock_bind_free (data : Data) (next : Unit → Locking Data Result) :
    (lock >>= next) { data, held := false } = next () { data, held := true } := rfl

theorem lock_bind_held (data : Data) (next : Unit → Locking Data Result) :
    (lock >>= next) { data, held := true } = .error .waiting := rfl

theorem read_bind {Value : Type} (state : Guarded Data) (field : Data → Value)
    (next : Value → Locking Data Result) :
    (read field >>= next) state = next (field state.data) state := rfl

/-- A thread that fails does nothing after it. -/
theorem bind_of_error {Value : Type} {first : Locking Data Value} {state : Guarded Data}
    {error : SelfDeadlock} (failed : first state = .error error)
    (next : Value → Locking Data Result) : (first >>= next) state = .error error := by
  change (first state).bind _ = _
  rw [failed]
  rfl

end Locking

end Mneme.Library
