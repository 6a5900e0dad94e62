import Preempt.Kernel.Waiting

/-!
Starting and stopping the scheduler, exclusion between tasks, and yields, all on the executing
core.
-/

namespace Preempt

variable {κ : Type} {n : Nat}

namespace Kernel

/-- Let each of `others` but `c` enter its first task at its next outermost interrupt return, and
call it by an inter-processor interrupt. -/
def releaseOthers (c : Fin n) : (others : List (Fin n)) → BoardM n Unit
  | [] => return ()
  | other :: rest => do
    if other ≠ c then
      Board.setPending other .firstTask
      Board.log (.releasingCore c other)
      Board.sendIpi other
    releaseOthers c rest

end Kernel

namespace Callouts

open Kernel (onBoard)

/-- Start the tick, release the other cores and enter the first task on the executing core. -/
def start (x : Callouts κ n) : KernelM κ n Resumption := do
  onBoard Board.disable
  let c ← onBoard Board.executingCore
  onBoard Board.tickStart
  onBoard (Kernel.releaseOthers c (List.finRange n))
  onBoard (Board.setPending c .idle)
  onBoard (Board.resetNesting c)
  x.enterFirst c 0

/-- The handler of the software interrupt: the switch that was asked for. -/
def onTrap (x : Callouts κ n) : KernelM κ n Resumption := do
  x.switch (← onBoard Board.executingCore) Settings.trapDepth

end Callouts

namespace Kernel

def start [SwitchPrimitives κ] : KernelM κ n Resumption := Callouts.own.start

/-- Stop the tick. Tasks keep their contexts. -/
def stop : BoardM n Unit := do
  Board.tickStop
  Board.log (.schedulerEnded (← Board.ownId))

def enterCritical : BoardM n Unit := do Board.enterCritical (← Board.executingCore)

def exitCritical : BoardM n Unit := do Board.exitCritical (← Board.executingCore)

def askLock (d : LockClass) : BoardM n (Ask n) := return ⟨← Board.executingCore, some d, .taken⟩

def lock (d : LockClass) : BoardM n Unit := do Board.acquireFor (← askLock d)

def unlock (d : LockClass) : BoardM n Unit := do Board.release (← Board.executingCore) d

/-- The class is the one that fits what the executing core runs. -/
def askShared : BoardM n (LockClass × Ask n) := do
  let c ← Board.executingCore
  let d := (← Board.core c).lockClass
  return (d, ⟨c, some d, .taken⟩)

/-- Take the lock that guards shared state. The answer is the class to release it in. -/
def lockShared : BoardM n LockClass := do
  let (d, ask) ← askShared
  Board.acquireFor ask
  return d

/-- Ask for a switch on the executing core. It runs in the handler of the software interrupt. -/
def yield [SwitchPrimitives κ] : KernelM κ n Unit := do
  pendTrap (← onBoard Board.ownId)

def onTrap [SwitchPrimitives κ] : KernelM κ n Resumption := Callouts.own.onTrap

/-- Ask for a switch on a core: on the executing one by the software interrupt, on any other by an
inter-processor interrupt. -/
def yieldTo [SwitchPrimitives κ] (target : CoreId) : KernelM κ n (Except Refusal Unit) := do
  if target < n then
    let me ← onBoard Board.ownId
    if target = me then yield
    else
      onBoard (Board.log (.yieldRequest me target))
      onBoard (Board.sendIpi target)
    return .ok ()
  else return .error (.invalidCore target)

theorem lock_eq (d : LockClass) :
    (lock d : BoardM n Unit) = (do Board.acquire (← Board.executingCore) d : BoardM n Unit) := by
  simp only [lock, askLock, bind_assoc, pure_bind, Board.acquireFor_some]

theorem lockShared_eq : (lockShared : BoardM n LockClass) = (do
    let c ← Board.executingCore
    let d := (← Board.core c).lockClass
    Board.acquire c d
    return d : BoardM n LockClass) := by
  simp only [lockShared, askShared, bind_assoc, pure_bind, Board.acquireFor_some]

end Kernel

end Preempt
