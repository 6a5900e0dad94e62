import Preempt.Frame.RegisterFile
import Preempt.Kernel.Basic
import Preempt.Segment.Suspension

/-!
Creating tasks. A new task is a context that starts at its entry point with its argument in place
and interrupts enabled: a frame on its own stack, or two segments of the pool.
-/

namespace Preempt.Kernel

variable {n size : Nat}

/-- Set up a task of a linear layout on its own stack. -/
def createLinear {layout : Layout} (task : TaskId) (entry argument : Word) :
    KernelM (RegisterFile layout n) n (Except Refusal Unit) := do
  match ← onStorage (Storage.onTasks (layout.prepare task entry argument)) with
  | .error refusal => return .error refusal
  | .ok top =>
    onBoard (Board.log (.initialFrame layout.name top))
    return .ok ()

abbrev SegmentedM (size n : Nat) := KernelM (Banks size n) n

def onPool {α : Type} (action : PoolM size n α) : SegmentedM size n α :=
  onStorage (Storage.onContext (Banks.onPool action))

/-- Build the context of a new task whose stack pointer is `sp`; the answer is the top to save. -/
def createAt (sp entry argument : Word) : SegmentedM size n (Except Refusal Word) := do
  match ← Board.withMask n (onPool Pool.allocatePair) with
  | .error refusal => return .error refusal
  | .ok (lower, upper) =>
    onPool (Pool.writeInitial lower upper sp entry argument)
    let top ← onStorage (Storage.onTasks (Tasks.pushHead sp lower 0))
    onBoard (Board.log (.initialSegments lower upper))
    return .ok top

/-- Set up a task over the pool whose stack pointer is `sp`. -/
def createFrom (task : TaskId) (sp entry argument : Word) :
    SegmentedM size n (Except Refusal Unit) := do
  match ← createAt sp entry argument with
  | .error refusal => return .error refusal
  | .ok top =>
    onStorage (Storage.setTop task top)
    return .ok ()

/-- Set up a task over the pool, with its stack pointer where its stack starts out. -/
def createSegmented (task : TaskId) (entry argument : Word) :
    SegmentedM size n (Except Refusal Unit) := do
  createFrom task ((← get).storage.tasks.initialTop task .descending) entry argument

end Preempt.Kernel
