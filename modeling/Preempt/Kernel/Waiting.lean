import Preempt.Kernel.Engine

/-!
Calls that ask for a lock. While a core waits for one the others go on, so such a call is cut there:
it comes to its question (`Ask`), the lock is taken in turns (`Board.beginFor`, `Board.proceed`),
and the rest of the call is done once the core has it (`Callouts.finish`).
-/

namespace Preempt

variable {κ : Type} {n : Nat}

/-- What is left of a call once it has its lock. A handler puts back the mask that it found. -/
inductive Rest where
  | taken
  | tick (wasEnabled : Bool)
  | ipi (wasEnabled : Bool)
deriving DecidableEq

/-- A core asks for a lock, if it needs one, and goes on from there. -/
structure Ask (n : Nat) where
  core : Fin n
  lock : Option LockClass
  rest : Rest

namespace Board

/-- With one core there is nobody to lock out. -/
def handlersLock (n : Nat) : Option LockClass := if 1 < n then some .isr else none

/-- Release the handlers' lock, if it was needed. -/
def leaveHandler (c : Fin n) : BoardM n Unit := if 1 < n then release c .isr else return ()

def beginFor (ask : Ask n) : BoardM n Phase :=
  match ask.lock with
  | some d => beginCall ask.core (.acquire d)
  | none => return .outside

def acquireFor (ask : Ask n) : BoardM n Unit := do complete ask.core (← beginFor ask)

theorem acquireFor_some (c : Fin n) (d : LockClass) (rest : Rest) :
    acquireFor ⟨c, some d, rest⟩ = acquire c d := rfl

theorem acquireFor_none (c : Fin n) (rest : Rest) : acquireFor ⟨c, none, rest⟩ = return () := rfl

/-- The end of the handler of an inter-processor interrupt. -/
def finishIpi (c : Fin n) (wasEnabled : Bool) : BoardM n Unit := do
  let _ ← requestSwitch c
  clearIpi
  leaveHandler c
  restoreMask wasEnabled
  log (.ipi c (← core c).pending)

end Board

open Kernel (onBoard)

def Callouts.finish (x : Callouts κ n) (c : Fin n) : Rest → KernelM κ n Unit
  | .taken => return ()
  | .tick wasEnabled => do
    let due ← x.tick
    onBoard (Board.leaveHandler c)
    onBoard (Board.restoreMask wasEnabled)
    if due then
      let _ ← onBoard (Board.requestSwitch c)
    onBoard (Board.log (.tick c due))
  | .ipi wasEnabled => onBoard (Board.finishIpi c wasEnabled)

end Preempt
