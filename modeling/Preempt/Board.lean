import Preempt.Action
import Preempt.Machine
import Preempt.Tick.Rate
import Preempt.Trace

/-!
A machine with the per-core state of the kernel layer and the record of what it did. Actions on
it run in `BoardM`: each hardware access is recorded before it takes effect, and a halt keeps the
state at that point. The trace only ever grows.
-/

namespace Preempt

structure Board (n : Nat) where
  machine : Machine n
  cores : Vector Core n := Vector.replicate n {}
  tick : TickClock := {}
  trace : Trace := #[]

abbrev BoardM (n : Nat) := EStateM Halt (Board n)

namespace Board

variable {n : Nat}

def emit (e : Event) : BoardM n Unit := fun b => .ok () { b with trace := b.trace.push e }

def log (entry : LogEntry) : BoardM n Unit := emit (.log entry)

def machineOf : BoardM n (Machine n) := fun b => .ok b.machine b

def onMachine (f : Machine n → Machine n) : BoardM n Unit :=
  fun b => .ok () { b with machine := f b.machine }

def fatal {α : Type} (cause : Violation) : BoardM n α := throw (.violation cause)

/-- Where a task ends up that returns. -/
def taskReturned {α : Type} : BoardM n α := fatal .taskReturned

/-! Interrupt mask of the executing core. -/

def disable : BoardM n Unit := do
  emit .disable
  onMachine (·.setEnabled false)

def enable : BoardM n Unit := do
  emit .enable
  onMachine (·.setEnabled true)

def isEnabled : BoardM n Bool := return (← machineOf).isEnabled

/-- Mask interrupts. The answer is whether they were enabled. -/
def saveMask : BoardM n Bool := do
  let wasEnabled ← isEnabled
  disable
  return wasEnabled

/-- Unmask interrupts if they were enabled before; otherwise do nothing. -/
def restoreMask (wasEnabled : Bool) : BoardM n Unit := do
  if wasEnabled then enable

/-! Timer of the executing core. -/

def timerStart (period : UInt32) : BoardM n Unit := do
  emit (.timerStart period)
  onMachine (·.updateTimer (·.start period))

def timerStop : BoardM n Unit := do
  emit .timerStop
  onMachine (·.updateTimer (·.stop))

def clearPending : BoardM n Unit := do
  emit .clearPending
  onMachine (·.updateTimer (·.clearPending))

/-- Move the compare value one period forward; the answer is the cycles left until it, unless
the timer reloads on its own. -/
def rearm (period : UInt32) : BoardM n (Option UInt32) := do
  emit (.rearm period)
  onMachine (·.updateTimer (·.rearm period))
  let m ← machineOf
  return if m.autoReload then none else some m.timer.remaining

def elapse (cycles : UInt32) : BoardM n Unit := onMachine (·.updateTimer (·.elapse cycles))

/-! Exclusive word. -/

/-- Set `bit` of the exclusive word. True if it was clear, so that the caller now owns it. -/
def testAndSet (bit : UInt32) : BoardM n Bool := do
  let won := !(← machineOf).isHeld bit
  emit (.testAndSet bit won)
  onMachine (·.setBit bit)
  return won

def clear (bit : UInt32) : BoardM n Unit := do
  emit (.clear bit)
  onMachine (·.clearBit bit)

/-- Wait a little for another core. A wait that leaves the machine stuck halts it. -/
def snooze : BoardM n Unit := do
  emit .snooze
  onMachine (·.snooze)
  if (← machineOf).isStuck then throw (.deadlock Machine.fullPatience)

/-! Inter-processor interrupts. -/

def sendIpi (target : CoreId) : BoardM n Unit := do
  emit (.ipi target)
  onMachine (·.raiseIpi target)

def clearIpi : BoardM n Unit := do
  emit .clearIpi
  onMachine (·.clearIpi)

def ownId : BoardM n CoreId := return (← machineOf).ownId

def runAs (core : CoreId) : BoardM n (Except Refusal Unit) := do
  if h : core < n then
    onMachine ({ · with executing := ⟨core, h⟩ })
    return .ok ()
  else return .error (.invalidCore core)

/-! Per-core state. -/

def lookup (core : CoreId) : Except Refusal (Fin n) :=
  if h : core < n then .ok ⟨core, h⟩ else .error (.invalidCore core)

def core (c : Fin n) : BoardM n Core := fun b => .ok (b.cores.get c) b

def onCore (c : Fin n) (f : Core → Core) : BoardM n Unit :=
  fun b => .ok () { b with cores := b.cores.put c (f (b.cores.get c)) }

/-- The executing core, by the number it reads as its own. -/
def executingCore : BoardM n (Fin n) := do
  match lookup (← ownId) with
  | .ok c => return c
  | .error _ => fatal .unknownCore

/-- The board after a halt. A violation is logged, which ends the trace. -/
def close (b : Board n) : Halt → Board n
  | .violation cause => { b with trace := b.trace.push (.log (.violation cause)) }
  | _ => b

theorem disable_run (b : Board n) : disable b =
    .ok () { b with trace := b.trace.push .disable, machine := b.machine.setEnabled false } := rfl

theorem enable_run (b : Board n) : enable b =
    .ok () { b with trace := b.trace.push .enable, machine := b.machine.setEnabled true } := rfl

theorem saveMask_run (b : Board n) : saveMask b =
    .ok b.machine.isEnabled
      { b with trace := b.trace.push .disable, machine := b.machine.setEnabled false } := rfl

theorem restoreMask_run (wasEnabled : Bool) (b : Board n) :
    restoreMask wasEnabled b = if wasEnabled then enable b else .ok () b := by
  cases wasEnabled <;> rfl

theorem testAndSet_run (bit : UInt32) (b : Board n) : testAndSet bit b =
    .ok (!b.machine.isHeld bit)
      { b with
        trace := b.trace.push (.testAndSet bit (!b.machine.isHeld bit))
        machine := b.machine.setBit bit } := rfl

theorem snooze_run (b : Board n) : snooze b =
    if b.machine.snooze.isStuck then .error (.deadlock Machine.fullPatience)
      { b with trace := b.trace.push .snooze, machine := b.machine.snooze }
    else .ok () { b with trace := b.trace.push .snooze, machine := b.machine.snooze } := by
  simp only [snooze, emit, onMachine, machineOf, Action.bind_run]
  split <;> rfl

theorem clear_run (bit : UInt32) (b : Board n) : clear bit b =
    .ok () { b with trace := b.trace.push (.clear bit), machine := b.machine.clearBit bit } := rfl

end Board

end Preempt
