import Preempt.Kernel.Basic

/-!
The switch engine: save the current task, let the scheduler choose, restore its choice. It runs
with interrupts masked and at most once at a time on a core, and it hands critical nesting over
from task to task. A task that was suspended inside a critical section resumes with interrupts
masked. The calls that leave the kernel layer are a parameter of the engine (`Callouts`), so that
they can be looked at where they are made.
-/

namespace Preempt

variable {κ : Type} {n : Nat}

/-- The tick and the choice of the scheduler, and save and restore of a context. -/
structure Callouts (κ : Type) (n : Nat) where
  /-- Count a tick. True if a switch is due. -/
  tick : KernelM κ n Bool
  save (c : Fin n) (task : TaskId) (nesting : UInt32) (depth : TrapDepth) : KernelM κ n Unit
  select (c : Fin n) : KernelM κ n Unit
  restore (c : Fin n) (task : TaskId) (depth : TrapDepth) : KernelM κ n Resumption

namespace Callouts

open Kernel (onBoard currentTask)

/-- Restore `task` on a core and hand it its nesting. -/
def resume (x : Callouts κ n) (c : Fin n) (task : TaskId) (depth : TrapDepth) :
    KernelM κ n Resumption := do
  let resumption ← x.restore c task depth
  onBoard (Board.onCore c ({ · with nesting := resumption.nesting, state := .running }))
  if resumption.enabled ∧ resumption.nesting = 0 then onBoard Board.enable
  return resumption

/-- One switch on a core. -/
def switch (x : Callouts κ n) (c : Fin n) (depth : TrapDepth) : KernelM κ n Resumption := do
  onBoard Board.disable
  onBoard (Board.enterEngine c)
  let outgoing ← currentTask c
  let core ← onBoard (Board.core c)
  x.save c outgoing core.nesting depth
  x.select c
  let incoming ← currentTask c
  let resumption ← x.resume c incoming depth
  onBoard (Board.onCore c (·.countSwitch))
  onBoard (Board.log (.switched c outgoing incoming depth))
  return resumption

/-- Enter the current task of a core and save nothing. -/
def enterFirst (x : Callouts κ n) (c : Fin n) (depth : TrapDepth) : KernelM κ n Resumption := do
  onBoard Board.disable
  let task ← currentTask c
  onBoard (Board.log (.firstTask c task))
  x.resume c task depth

end Callouts

namespace Kernel

/-- The choice of the scheduler for a core. One that stays keeps the current task; one that
reenters runs `engine` before it chooses. -/
def selectAfter (engine : KernelM κ n Unit) (c : Fin n) : KernelM κ n Unit := do
  onBoard (Board.emit (.select c))
  let scheduler := (← get).scheduler
  if scheduler.stays then return ()
  else
    if scheduler.reenters then engine
    onScheduler (·.rotate c)

variable [SwitchPrimitives κ]

/-- The calls that the kernel layer makes, with `select` as the choice of the scheduler. -/
def callouts (select : Fin n → KernelM κ n Unit) : Callouts κ n where
  tick := countTick
  save c := save c
  select
  restore c := restore c

/-- One switch on a core, with `select` as the choice of the scheduler. -/
def switchWith (select : Fin n → KernelM κ n Unit) (c : Fin n) (depth : TrapDepth) :
    KernelM κ n Resumption := (callouts select).switch c depth

/-- The choice of the scheduler with the engine inside it at most `levels` deep. -/
def selectWithin : Nat → Fin n → KernelM κ n Unit
  | 0, _ => return ()
  | levels + 1, c => selectAfter (do let _ ← switchWith (selectWithin levels) c 0) c

/-- The choice of the scheduler. The engine refuses to run twice on one core, so a choice that
reenters never gets deeper than this. -/
def select (c : Fin n) : KernelM κ n Unit := selectWithin 2 c

/-- The choice of the scheduler for a core given by number. -/
def selectOn (core : CoreId) : KernelM κ n Unit :=
  if h : core < n then select ⟨core, h⟩
  else do
    onBoard (Board.emit (.select core))
    if (← get).scheduler.stays then return ()
    else throw (.outOfRange n core)

/-- A scheduler that does not reenter just goes on to the next task. -/
theorem select_run (c : Fin n) (k : Kernel κ n) (stays : k.scheduler.stays = false)
    (reenters : k.scheduler.reenters = false) :
    select c k = .ok ()
      { k with
        board := { k.board with trace := k.board.trace.push (.select c) }
        scheduler := k.scheduler.rotate c } := by
  simp [select, selectWithin, selectAfter, onBoard, Board.emit, Action.bind_run, Action.get_run,
    stays, reenters, onScheduler]

end Kernel

variable [SwitchPrimitives κ]

/-- The calls that the kernel layer makes. -/
def Callouts.own : Callouts κ n := Kernel.callouts Kernel.select

namespace Kernel

def resume (c : Fin n) (task : TaskId) (depth : TrapDepth) : KernelM κ n Resumption :=
  Callouts.own.resume c task depth

def switch (c : Fin n) (depth : TrapDepth) : KernelM κ n Resumption := Callouts.own.switch c depth

def enterFirst (c : Fin n) (depth : TrapDepth) : KernelM κ n Resumption :=
  Callouts.own.enterFirst c depth

@[simp] theorem callouts_save (select : Fin n → KernelM κ n Unit) (c : Fin n) :
    (callouts select).save c = save c := rfl

@[simp] theorem callouts_select (select : Fin n → KernelM κ n Unit) :
    (callouts select).select = select := rfl

@[simp] theorem callouts_restore (select : Fin n → KernelM κ n Unit) (c : Fin n) :
    (callouts select).restore c = restore c := rfl

/-- To resume a task is the same whatever the choice of the scheduler. -/
@[simp] theorem callouts_resume (select : Fin n → KernelM κ n Unit) (c : Fin n) :
    (callouts select).resume c = resume c := rfl

end Kernel

end Preempt
