import Preempt.Segment.Banks

/-!
Suspended tasks over the segment pool. A suspended task is a chain that starts at its lower
context and goes on to its upper context and the call frames it had open. Its stack keeps two
words below the live stack pointer: the head of the chain and the critical nesting. A switch copies
no registers. It moves the head between the stack and the core's link register, or a link further
down the core's chain if kernel calls are open above the task.
-/

namespace Preempt.Pool

variable {size n : Nat}

/-- The upper context of a new task, with the link of a task that nothing called. -/
def initialUpper (sp : Word) : Segment where
  link := Link.null.withFlags false true
  data := .ofFn fun i =>
    if i.val + 1 = upperStatus then .num initialUpperStatus
    else if i.val + 1 = upperStackPointer then sp
    else if i.val + 1 = upperReturnAddress then .exitTrap
    else .num 0

/-- The lower context of a new task whose upper context is `upper`. -/
def initialLower (upper : Link) (entry argument : Word) : Segment where
  link := upper.withFlags true true
  data := .ofFn fun i =>
    if i.val + 1 = lowerProgramCounter then entry
    else if i.val + 1 = lowerArgument then argument
    else .num 0

def writeInitial (lower upper : Link) (sp entry argument : Word) : PoolM size n Unit := do
  writeSegment upper (initialUpper sp)
  writeSegment lower (initialLower upper entry argument)

/-- The segment whose link leads to the task at a depth: the head of the core's chain, and for each
further level one link down. -/
def callerAt (core : CoreId) (depth : TrapDepth) : PoolM size n Link := do
  follow (depth.toNat - 1) (← chain core)

/-- The lower context of the task that a core interrupted, seen from a depth. -/
def interruptedTask (core : CoreId) (depth : TrapDepth) : PoolM size n Link := do
  if depth = 0 then chain core else next (← callerAt core depth)

/-- Let the core return into the chain at `head`, seen from a depth. -/
def resumeAt (core : CoreId) (depth : TrapDepth) (head : Link) : PoolM size n Unit := do
  if depth = 0 then setChain core head else writeLink (← callerAt core depth) head

/-- Live stack pointer in the upper context behind a lower context. -/
def suspendedPointer (lower : Link) : PoolM size n Word := do
  let upper ← segment (← next lower)
  return upper.data[upperStackPointer - 1]

/-- Interrupt enable that the chain at `head` returns to. -/
def resumesEnabled (head : Link) : PoolM size n Bool := return (← next head).enabled

end Preempt.Pool

namespace Preempt

/-- Push the head of a suspended chain and the critical nesting below `sp`; the answer is the top
to save. -/
def Tasks.pushHead (sp : Word) (head : Link) (nesting : UInt32) : TasksM Word := do
  let top := sp.advance (-2)
  store top (.ofUInt32 head.address.raw)
  store (top.advance 1) (.ofUInt32 nesting)
  return top

/-- The head that a suspended task has on its stack. -/
def Tasks.savedHead (task : TaskId) : TasksM Link := do
  return (Link.ofRaw (← load ((← get).top task)).low).address

namespace Banks

open Storage

variable {size n : Nat}

def save (core : CoreId) (task : TaskId) (nesting : UInt32) (depth : TrapDepth) :
    StorageM (Banks size n) Unit := do
  let lower ← onContext (onPool (Pool.interruptedTask core depth))
  let sp ← onContext (onPool (Pool.suspendedPointer lower))
  let top ← onTasks (Tasks.pushHead sp lower nesting)
  setTop task top

/-- Make a task the one that a core returns into. A head on the free list halts before anything
changes. -/
def restore (core : CoreId) (task : TaskId) (depth : TrapDepth) :
    StorageM (Banks size n) Resumption := do
  let top ← topOf task
  let head ← onTasks (Tasks.savedHead task)
  let nesting ← onTasks (Tasks.load (top.advance 1))
  if (← get).context.pool.isInUse head then
    setTop task (top.advance 2)
    onContext (onPool (Pool.resumeAt core depth head))
    let enabled ← onContext (onPool (Pool.resumesEnabled head))
    return { nesting := nesting.low, enabled }
  else throw (.violation .releasedContextRestored)

instance : SwitchPrimitives (Banks size n) where
  save := save
  restore := restore
  pend core := onContext (pend core)

end Banks

end Preempt
