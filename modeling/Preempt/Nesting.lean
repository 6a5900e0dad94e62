import Preempt.Board

/-!
Critical sections and interrupt nesting of one core. A task's sections nest: the first masks
interrupts, and only the one that brings the depth back to zero unmasks them. An interrupt
handler leaves the depth alone and keeps the mask it found (`withMask`).
-/

namespace Preempt.Board

variable {n : Nat} {α : Type} {m : Type → Type}

/-- Mask interrupts and open one level; the answer is the new depth. -/
def enterNesting (c : Fin n) : BoardM n UInt32 := do
  disable
  let depth := (← core c).nesting + 1
  onCore c ({ · with nesting := depth })
  return depth

/-- Close one level, and unmask interrupts if it was the outermost; the answer is the new depth.
A level that was never opened halts. -/
def exitNesting (c : Fin n) : BoardM n UInt32 := do
  let depth := (← core c).nesting
  if depth = 0 then fatal .unmatchedCriticalExit
  else
    onCore c ({ · with nesting := depth - 1 })
    if depth = 1 then enable
    return depth - 1

/-- Overwrite the depth, as a restored task brings its own. -/
def setNesting (c : Fin n) (depth : UInt32) : BoardM n Unit :=
  onCore c ({ · with nesting := depth })

/-- Drop the boot value. -/
def resetNesting (c : Fin n) : BoardM n Unit := setNesting c 0

/-- A task enters a critical section. In an interrupt only the outermost level is refused, so that
code which already holds a level may nest further. -/
def enterCritical (c : Fin n) : BoardM n Unit := do
  let depth ← enterNesting c
  if depth = 1 ∧ (← core c).inInterrupt then fatal .criticalFromIsr

def exitCritical (c : Fin n) : BoardM n Unit := do
  let _ ← exitNesting c

def withNesting [Monad m] [MonadLiftT (BoardM n) m] (c : Fin n) (body : m α) : m α := do
  let _ ← (enterNesting c : BoardM n UInt32)
  let result ← body
  let _ ← (exitNesting c : BoardM n UInt32)
  return result

/-- Run `body` with interrupts masked and put the mask back as it was. -/
def withMask (n : Nat) [Monad m] [MonadLiftT (BoardM n) m] (body : m α) : m α := do
  let wasEnabled ← (saveMask : BoardM n Bool)
  let result ← body
  (restoreMask wasEnabled : BoardM n Unit)
  return result

/-- Count one level of interrupt nesting; the answer is the new depth. -/
def enterInterrupt (c : Fin n) : BoardM n UInt32 := do
  let depth := (← core c).interruptDepth + 1
  onCore c ({ · with interruptDepth := depth })
  if Settings.maxInterruptNesting < depth then fatal .interruptNestingExceeded
  else return depth

/-- Leave one level of interrupt nesting. True if it was the outermost. -/
def leaveInterrupt (c : Fin n) : BoardM n Bool := do
  let depth := (← core c).interruptDepth
  if depth = 0 then fatal .unmatchedInterruptExit
  else
    onCore c ({ · with interruptDepth := depth - 1 })
    return depth = 1

/-- Ask for a switch on a core. True if none was pending. -/
def requestSwitch (c : Fin n) : BoardM n Bool := do
  let fresh := (← core c).pending = .idle
  onCore c (·.request)
  return fresh

/-- Raise the pending flag without counting the request. True if none was pending. -/
def raisePending (c : Fin n) : BoardM n Bool := do
  let fresh := (← core c).pending = .idle
  onCore c fun k => { k with pending := k.pending.raise }
  return fresh

def setPending (c : Fin n) (request : Pending) : BoardM n Unit :=
  onCore c ({ · with pending := request })

def takePending (c : Fin n) : BoardM n Pending := do
  let request := (← core c).pending
  setPending c .idle
  return request

/-- Enter the switch engine. Only a running core may; the two other states tell why not. -/
def enterEngine (c : Fin n) : BoardM n Unit := do
  match (← core c).state with
  | .running => onCore c ({ · with state := .switching })
  | .notStarted => fatal .schedulerNotStarted
  | .switching => fatal .switchReentered

theorem enterNesting_run (c : Fin n) (b : Board n) : enterNesting c b =
    .ok ((b.cores.get c).nesting + 1)
      { b with
        trace := b.trace.push .disable
        machine := b.machine.setEnabled false
        cores := b.cores.put c { b.cores.get c with
          nesting := (b.cores.get c).nesting + 1 } } := rfl

theorem exitNesting_run_zero (c : Fin n) (b : Board n) (zero : (b.cores.get c).nesting = 0) :
    exitNesting c b = .error (.violation .unmatchedCriticalExit) b := by
  simp [exitNesting, core, Action.bind_run, zero]
  rfl

theorem exitNesting_run_one (c : Fin n) (b : Board n) (one : (b.cores.get c).nesting = 1) :
    exitNesting c b = .ok 0
      { b with
        trace := b.trace.push .enable
        machine := b.machine.setEnabled true
        cores := b.cores.put c { b.cores.get c with nesting := 0 } } := by
  simp [exitNesting, core, Action.bind_run, one, onCore]
  rfl

theorem exitNesting_run_more (c : Fin n) (b : Board n) (zero : (b.cores.get c).nesting ≠ 0)
    (one : (b.cores.get c).nesting ≠ 1) :
    exitNesting c b = .ok ((b.cores.get c).nesting - 1)
      { b with
        cores := b.cores.put c { b.cores.get c with nesting := (b.cores.get c).nesting - 1 } } := by
  simp [exitNesting, core, Action.bind_run, zero, one, onCore]
  rfl

end Preempt.Board
