import Preempt.Kernel.Lifecycle

/-!
Interrupt handling on the executing core: prologue, the handlers of the tick and the
inter-processor interrupt, and two epilogues. A pending switch is looked at only when the outermost
level is left. The one epilogue runs it on the way out; the other hands it on to the software
interrupt, for architectures that switch only there.
-/

namespace Preempt

variable {κ : Type} {n : Nat}

namespace Kernel

def beginInterrupt : BoardM n UInt32 := do Board.enterInterrupt (← Board.executingCore)

/-- The handler of the tick, up to where it asks for its lock. -/
def askTick : BoardM n (Arrival × Ask n) := do
  let c ← Board.executingCore
  let arrival ← Board.acknowledge
  return (arrival, ⟨c, Board.handlersLock n, .tick (← Board.saveMask)⟩)

/-- The handler of an inter-processor interrupt, up to where it asks for its lock, with the mask
that it found. -/
def askIpi : BoardM n (Bool × Ask n) := do
  let c ← Board.executingCore
  let wasEnabled ← Board.saveMask
  return (wasEnabled, ⟨c, Board.handlersLock n, .ipi wasEnabled⟩)

/-- Handle an inter-processor interrupt. A core that waits for its first task keeps waiting. -/
def onIpi : BoardM n Unit := do
  let (wasEnabled, ask) ← askIpi
  Board.acquireFor ask
  Board.finishIpi ask.core wasEnabled

end Kernel

namespace Callouts

open Kernel (onBoard)

def onTick (x : Callouts κ n) : KernelM κ n Arrival := do
  let (arrival, ask) ← onBoard Kernel.askTick
  onBoard (Board.acquireFor ask)
  x.finish ask.core ask.rest
  return arrival

/-- Leave one level, and run what is pending if it was the outermost. -/
def endInterrupt (x : Callouts κ n) : KernelM κ n (Option Resumption) := do
  let c ← onBoard Board.executingCore
  if ← onBoard (Board.leaveInterrupt c) then
    match ← onBoard (Board.takePending c) with
    | .idle => return none
    | .switch => return some (← x.switch c 0)
    | .firstTask =>
      onBoard (Board.resetNesting c)
      return some (← x.enterFirst c 0)
  else return none

end Callouts

namespace Kernel

def onTick [SwitchPrimitives κ] : KernelM κ n Arrival := Callouts.own.onTick

def endInterrupt [SwitchPrimitives κ] : KernelM κ n (Option Resumption) :=
  Callouts.own.endInterrupt

/-- Leave one level, and hand a pending switch on to the software interrupt if it was the
outermost. The first task cannot be entered there, so its request stays. True if a switch was
handed on. -/
def endInterruptHandingOn [SwitchPrimitives κ] : KernelM κ n Bool := do
  let c ← onBoard Board.executingCore
  if ← onBoard (Board.leaveInterrupt c) then
    match ← onBoard (Board.takePending c) with
    | .idle => return false
    | .switch =>
      pendTrap c
      return true
    | .firstTask =>
      onBoard (Board.setPending c .firstTask)
      return false
  else return false

/-- A tick is counted as a handler may. -/
theorem onTick_eq [SwitchPrimitives κ] : (onTick : KernelM κ n Arrival) = (do
    let c ← onBoard Board.executingCore
    let arrival ← onBoard Board.acknowledge
    let due ← Board.guarded c countTick
    if due then
      let _ ← onBoard (Board.requestSwitch c)
    onBoard (Board.log (.tick c due))
    return arrival : KernelM κ n Arrival) := by
  have lifted {α : Type} (action : BoardM n α) :
      (liftM action : KernelM κ n α) = onBoard action := rfl
  have ticks : (Callouts.own : Callouts κ n).tick = countTick := rfl
  by_cases others : 1 < n
  · simp only [onTick, Callouts.onTick, askTick, Board.handlersLock, if_pos others,
      Board.acquireFor_some, Callouts.finish, Board.leaveHandler, Board.guarded, Board.withMask,
      Board.withLock, onBoard_bind, onBoard_pure, bind_assoc, pure_bind, lifted, ticks]
    refine bind_congr fun c => bind_congr fun arrival => bind_congr fun wasEnabled =>
      bind_congr fun _ => bind_congr fun due => ?_
    cases due <;> simp only [if_true, Bool.false_eq_true, if_false, bind_assoc]
  · simp only [onTick, Callouts.onTick, askTick, Board.handlersLock, if_neg others,
      Board.acquireFor_none, Callouts.finish, Board.leaveHandler, Board.guarded, Board.withMask,
      onBoard_bind, onBoard_pure, bind_assoc, pure_bind, lifted, ticks]
    refine bind_congr fun c => bind_congr fun arrival => bind_congr fun wasEnabled =>
      bind_congr fun due => ?_
    cases due <;> simp only [if_true, Bool.false_eq_true, if_false, bind_assoc]

/-- A handler of an inter-processor interrupt asks for a switch and acknowledges, guarded. -/
theorem onIpi_eq : (onIpi : BoardM n Unit) = (do
    let c ← Board.executingCore
    Board.guarded c do
      let _ ← Board.requestSwitch c
      Board.clearIpi
    Board.log (.ipi c (← Board.core c).pending) : BoardM n Unit) := by
  by_cases others : 1 < n
  · simp only [onIpi, askIpi, Board.handlersLock, if_pos others, Board.acquireFor_some,
      Board.finishIpi, Board.leaveHandler, Board.guarded, Board.withMask, Board.withLock,
      bind_assoc, pure_bind]
    rfl
  · simp only [onIpi, askIpi, Board.handlersLock, if_neg others, Board.acquireFor_none,
      Board.finishIpi, Board.leaveHandler, Board.guarded, Board.withMask, bind_assoc, pure_bind]
    rfl

end Kernel

end Preempt
