import Preempt.Kernel.Interrupts

/-!
Runs of the switch engine, whatever the calls do that leave the kernel layer. A core that runs a
task gets into the engine (`switch_engages`), and any other is refused. What the engine makes of the
board is named part by part.
-/

namespace Preempt

open Preempt.Action

variable {κ : Type} {n : Nat}

/-- The core once a task with this resumption runs on it. -/
def Core.resumed (core : Core) (r : Resumption) : Core :=
  { core with nesting := r.nesting, state := .running }

namespace Board

def shows (b : Board n) (e : Event) : Board n := { b with trace := b.trace.push e }

/-- Masked, with a first task of core `c` about to be restored. -/
def entering (b : Board n) (c : Fin n) (task : TaskId) : Board n :=
  { b with
    trace := (b.trace.push .disable).push (.log (.firstTask c task))
    machine := b.machine.setEnabled false }

/-- Masked, with core `c` in the engine. -/
def engaged (b : Board n) (c : Fin n) : Board n :=
  { b with
    trace := b.trace.push .disable
    machine := b.machine.setEnabled false
    cores := b.cores.put c { b.cores.get c with state := .switching } }

/-- Core `c` goes on with a task that was restored with this resumption. -/
def resumed (b : Board n) (c : Fin n) (r : Resumption) : Board n :=
  { b with
    trace := if r.enabled ∧ r.nesting = 0 then b.trace.push .enable else b.trace
    machine := if r.enabled ∧ r.nesting = 0 then b.machine.setEnabled true else b.machine
    cores := b.cores.put c ((b.cores.get c).resumed r) }

def switched (b : Board n) (c : Fin n) (outgoing incoming : TaskId) (depth : TrapDepth) : Board n :=
  { b with
    trace := b.trace.push (.log (.switched c outgoing incoming depth))
    cores := b.cores.put c (b.cores.get c).countSwitch }

/-- A core that runs a task may enter the engine. -/
theorem enterEngine_run {c : Fin n} {b : Board n} (running : (b.cores.get c).state = .running) :
    enterEngine c { b with
      trace := b.trace.push .disable, machine := b.machine.setEnabled false } =
        .ok () (b.engaged c) := by
  simp only [enterEngine, bind_run, core, running, onCore, engaged]

end Board

namespace Callouts

open Kernel (onBoard currentTask)

variable {k k' : Kernel κ n} {c : Fin n}

theorem current_run (k : Kernel κ n) (c : Fin n) :
    currentTask c k = .ok (k.scheduler.current c) k := rfl

theorem core_run (k : Kernel κ n) (c : Fin n) :
    onBoard (Board.core c) k = .ok (k.board.cores.get c) k := rfl

/-- A core that runs a task gets into the engine. -/
theorem switch_engages (x : Callouts κ n) (running : (k.board.cores.get c).state = .running)
    (depth : TrapDepth) : x.switch c depth k = (do
      x.save c (k.scheduler.current c) (k.board.cores.get c).nesting depth
      x.select c
      let incoming ← currentTask c
      let r ← x.resume c incoming depth
      onBoard (Board.onCore c (·.countSwitch))
      onBoard (Board.log (.switched c (k.scheduler.current c) incoming depth))
      return r : KernelM κ n Resumption) { k with board := k.board.engaged c } := by
  have disables : onBoard Board.disable k = .ok () { k with board := { k.board with
      trace := k.board.trace.push .disable, machine := k.board.machine.setEnabled false } } := rfl
  have engages : onBoard (Board.enterEngine c) { k with board := { k.board with
      trace := k.board.trace.push .disable, machine := k.board.machine.setEnabled false } } =
        .ok () { k with board := k.board.engaged c } := by
    rw [onBoard, Board.enterEngine_run running]
  have nesting : ((k.board.engaged c).cores.get c).nesting = (k.board.cores.get c).nesting := by
    rw [Board.engaged, Vector.get_put_self]
  rw [switch, bind_ok disables, bind_ok engages, bind_ok (current_run _ c), bind_ok (core_run _ c),
    nesting]

/-- A core whose scheduler was not started does not switch. -/
theorem switch_run_notStarted (x : Callouts κ n) (depth : TrapDepth)
    (state : (k.board.cores.get c).state = .notStarted) :
    x.switch c depth k = .error (.violation .schedulerNotStarted)
      { k with
        board := { k.board with
          trace := k.board.trace.push .disable
          machine := k.board.machine.setEnabled false } } := by
  simp only [switch, bind_run, onBoard, Board.disable_run, Board.enterEngine, Board.core, state]
  rfl

/-- A core in its engine does not enter it again. -/
theorem switch_run_switching (x : Callouts κ n) (depth : TrapDepth)
    (state : (k.board.cores.get c).state = .switching) :
    x.switch c depth k = .error (.violation .switchReentered)
      { k with
        board := { k.board with
          trace := k.board.trace.push .disable
          machine := k.board.machine.setEnabled false } } := by
  simp only [switch, bind_run, onBoard, Board.disable_run, Board.enterEngine, Board.core, state]
  rfl

theorem running_of_switch {x : Callouts κ n} {depth : TrapDepth} {r : Resumption}
    (ran : x.switch c depth k = .ok r k') : (k.board.cores.get c).state = .running := by
  cases state : (k.board.cores.get c).state with
  | running => rfl
  | notStarted =>
    rw [x.switch_run_notStarted depth state] at ran
    cases ran
  | switching =>
    rw [x.switch_run_switching depth state] at ran
    cases ran

end Callouts

namespace Kernel

variable [SwitchPrimitives κ]

theorem save_run (k : Kernel κ n) (c : Fin n) (task : TaskId) (nesting : UInt32)
    (depth : TrapDepth) : save c task nesting depth k =
      match SwitchPrimitives.save c task nesting depth k.storage with
      | .error e storage =>
        .error e { k with board := k.board.shows (.save c task nesting depth), storage }
      | .ok u storage =>
        .ok u { k with board := k.board.shows (.save c task nesting depth), storage } := by
  simp only [save, bind_run, onBoard, Board.emit, onStorage, Board.shows]
  cases SwitchPrimitives.save c task nesting depth k.storage <;> rfl

theorem resume_eq (k : Kernel κ n) (c : Fin n) (task : TaskId) (depth : TrapDepth) :
    resume c task depth k =
      match SwitchPrimitives.restore c task depth k.storage with
      | .error e storage =>
        .error e { k with board := k.board.shows (.restore c task depth), storage }
      | .ok r storage =>
        .ok r { k with board := (k.board.shows (.restore c task depth)).resumed c r, storage } := by
  simp only [resume, Callouts.own, Callouts.resume, callouts_restore, restore, bind_run, onBoard,
    Board.emit, onStorage, Board.shows]
  cases SwitchPrimitives.restore c task depth k.storage with
  | error e storage => rfl
  | ok r storage =>
    by_cases unmasks : r.enabled ∧ r.nesting = 0
    · simp only [Board.resumed, if_pos unmasks]
      rfl
    · simp only [Board.resumed, if_neg unmasks]
      rfl

theorem enterFirst_eq (k : Kernel κ n) (c : Fin n) (depth : TrapDepth) :
    enterFirst c depth k =
      resume c (k.scheduler.current c) depth
        { k with board := k.board.entering c (k.scheduler.current c) } := rfl

end Kernel

end Preempt
