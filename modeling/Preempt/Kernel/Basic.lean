import Preempt.RoundRobin
import Preempt.Segment.DeletionQueue
import Preempt.Storage
import Preempt.Tick.Service

/-!
The kernel layer of `n` cores with register state of kind `κ`: board, contexts and tasks, the
scheduler and the queue of deleted tasks. An action on one part leaves the others alone, and
running actions on a part one after the other is running them as one (`onBoard_bind`,
`onStorage_bind`). Calls that leave the layer are recorded before they take effect.
-/

namespace Preempt

structure Kernel (κ : Type) (n : Nat) where
  board : Board n
  storage : Storage κ
  scheduler : RoundRobin n
  deletions : DeletionQueue

abbrev KernelM (κ : Type) (n : Nat) := EStateM Halt (Kernel κ n)

namespace Kernel

variable {κ α β : Type} {n : Nat}

/-- Run an action on the board alone. -/
def onBoard (action : BoardM n α) : KernelM κ n α := fun k =>
  match action k.board with
  | .ok a board => .ok a { k with board }
  | .error halt board => .error halt { k with board }

def onStorage (action : StorageM κ α) : KernelM κ n α := fun k =>
  match action k.storage with
  | .ok a storage => .ok a { k with storage }
  | .error halt storage => .error halt { k with storage }

instance : MonadLift (BoardM n) (KernelM κ n) := ⟨onBoard⟩

@[simp] theorem onBoard_pure (a : α) : (onBoard (pure a) : KernelM κ n α) = pure a := rfl

@[simp] theorem onBoard_bind (action : BoardM n α) (next : α → BoardM n β) :
    (onBoard (action >>= next) : KernelM κ n β) =
      onBoard action >>= fun a => onBoard (next a) := by
  funext k
  simp only [onBoard, Action.bind_run]
  cases action k.board <;> rfl

@[simp] theorem onStorage_bind (action : StorageM κ α) (next : α → StorageM κ β) :
    (onStorage (action >>= next) : KernelM κ n β) =
      onStorage action >>= fun a => onStorage (next a) := by
  funext k
  simp only [onStorage, Action.bind_run]
  cases action k.storage <;> rfl

/-- What a kernel layer is put together from. -/
structure Boot (n : Nat) where
  clockHz : UInt32 := Settings.clockHz
  tickHz : UInt32 := Settings.tickHz
  strict : Bool := true
  /-- The timers reload on their own. -/
  autoReload : Bool := false
  /-- The tasks of each core, in the order they take turns. -/
  queues : Vector (List TaskId) n
  switchDue : Bool := true
  /-- Words of the stack of each task. -/
  stackSizes : Array Nat
  deletionCapacity : Nat := Settings.deletionCapacity

/-- A kernel layer out of reset with `core` executing. The tick rate is checked before the queues
of the scheduler. -/
def boot (core : Fin n) (b : Boot n) (context : κ) : Except Halt (Kernel κ n) := do
  let rate ← TickRate.make b.clockHz b.tickHz
  let scheduler ← RoundRobin.make b.queues b.switchDue
  return {
    board := { machine := .reset core b.autoReload, tick := { rate, strict := b.strict } }
    storage := { context, tasks := .ofSizes b.stackSizes }
    scheduler
    deletions := .ofCapacity b.deletionCapacity }

theorem eq_of_boot {core : Fin n} {b : Boot n} {context : κ} {k : Kernel κ n}
    (booted : boot core b context = .ok k) :
    ∃ rate scheduler, RoundRobin.make b.queues b.switchDue = .ok scheduler ∧ k = {
      board := { machine := .reset core b.autoReload, tick := { rate, strict := b.strict } }
      storage := { context, tasks := .ofSizes b.stackSizes }
      scheduler
      deletions := .ofCapacity b.deletionCapacity } := by
  unfold boot at booted
  cases rated : TickRate.make b.clockHz b.tickHz with
  | error halt => simp [rated, bind, Except.bind] at booted
  | ok rate =>
    cases made : RoundRobin.make b.queues b.switchDue with
    | error halt => simp [rated, made, bind, Except.bind] at booted
    | ok scheduler =>
      simp only [rated, made, bind, Except.bind, pure, Except.pure, Except.ok.injEq] at booted
      exact ⟨rate, scheduler, rfl, booted.symm⟩

def save [SwitchPrimitives κ] (core : CoreId) (task : TaskId) (nesting : UInt32)
    (depth : TrapDepth) : KernelM κ n Unit := do
  onBoard (Board.emit (.save core task nesting depth))
  onStorage (SwitchPrimitives.save core task nesting depth)

def restore [SwitchPrimitives κ] (core : CoreId) (task : TaskId) (depth : TrapDepth) :
    KernelM κ n Resumption := do
  onBoard (Board.emit (.restore core task depth))
  onStorage (SwitchPrimitives.restore core task depth)

def pendTrap [SwitchPrimitives κ] (core : CoreId) : KernelM κ n Unit := do
  onBoard (Board.emit (.pendTrap core))
  onStorage (SwitchPrimitives.pend core)

def onScheduler (f : RoundRobin n → RoundRobin n) : KernelM κ n Unit :=
  fun k => .ok () { k with scheduler := f k.scheduler }

/-- Let the scheduler count a tick. True if a switch is due. -/
def countTick : KernelM κ n Bool := do
  let m ← onBoard Board.machineOf
  onBoard (Board.emit (.tick m.isEnabled m.exclusive))
  onScheduler (·.tick)
  return (← get).scheduler.switchDue

def currentTask (c : Fin n) : KernelM κ n TaskId := return (← get).scheduler.current c

def isCurrent (task : TaskId) : KernelM κ n Bool := return (← get).scheduler.isCurrent task

end Kernel

end Preempt
