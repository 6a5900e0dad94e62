import Preempt.Action
import Preempt.Settings
import Preempt.Tasks.Basic

/-!
What a context switch moves data between: the register state of the cores, of some kind `κ`, and
the storage of the tasks. An architecture provides save and restore as actions on the two.
-/

namespace Preempt

/-- What the switch engine gets back from a restore. -/
structure Resumption where
  /-- Critical nesting that the task was suspended with. -/
  nesting : UInt32
  /-- Whether the restored status has interrupts enabled. -/
  enabled : Bool
deriving DecidableEq

structure Storage (κ : Type) where
  context : κ
  tasks : Tasks

abbrev StorageM (κ : Type) := EStateM Halt (Storage κ)

namespace Storage

variable {κ α : Type}

/-- Run an action on the register state alone. -/
def onContext (action : EStateM Halt κ α) : StorageM κ α := fun s =>
  match action s.context with
  | .ok a context => .ok a { s with context }
  | .error halt context => .error halt { s with context }

def onTasks (action : TasksM α) : StorageM κ α := fun s =>
  match action s.tasks with
  | .ok a tasks => .ok a { s with tasks }
  | .error halt tasks => .error halt { s with tasks }

def setTop (task : TaskId) (top : Word) : StorageM κ Unit := fun s =>
  .ok () { s with tasks := s.tasks.setTop task top }

def topOf (task : TaskId) : StorageM κ Word := fun s => .ok (s.tasks.top task) s

end Storage

/-- Save and restore of one architecture. Each acts on a core by number; at a core that the machine
lacks it halts at its first access to it. -/
class SwitchPrimitives (κ : Type) where
  /-- Write the context of the running task, with its critical nesting, into the task. -/
  save (core : CoreId) (task : TaskId) (nesting : UInt32) (depth : TrapDepth) : StorageM κ Unit
  /-- Make the task the one that the core resumes when it leaves the trap. -/
  restore (core : CoreId) (task : TaskId) (depth : TrapDepth) : StorageM κ Resumption
  /-- Pend the software interrupt whose handler runs the switch engine. -/
  pend (core : CoreId) : StorageM κ Unit

end Preempt
