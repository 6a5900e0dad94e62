import Preempt.Word

/-!
What can go wrong, as causes. A `Refusal` is an answer its caller can act on, and leaves the
run going. A `Violation` is a broken protocol, after which the interrupt mask or a lock is in
an unknown state. A `Halt` is everything that stops a core for good, violations included.
-/

namespace Preempt

inductive Refusal where
  /-- Fewer free context segments than the operation needs. -/
  | segmentsExhausted
  /-- The context is still the current task of some core. -/
  | contextInUse
  | queueFull
  /-- The task already waits in the queue of deleted tasks. -/
  | alreadyParked
  | invalidCore (id : CoreId)
  /-- The task's stack cannot hold an initial frame. -/
  | stackTooSmall (needed available : Nat)
deriving DecidableEq

def Refusal.message : Refusal → String
  | segmentsExhausted => "no free context segments"
  | contextInUse => "context is still running on a core"
  | queueFull => "reclaim queue is full"
  | alreadyParked => "task is already awaiting reclamation"
  | invalidCore id => s!"core {id} is not configured"
  | stackTooSmall needed available =>
      s!"stack too small for initial frame ({needed} words needed, {available} available)"

inductive Violation where
  | unmatchedCriticalExit
  /-- A task's critical section is entered from an interrupt. -/
  | criticalFromIsr
  | unheldLockRelease
  | taskReturned
  | interruptNestingExceeded
  | unmatchedInterruptExit
  | releasedContextRestored
  | releasedContextReclaimed
  | switchReentered
  /-- A switch runs before the scheduler was started on this core. -/
  | schedulerNotStarted
  | unknownCore
deriving DecidableEq

def Violation.message : Violation → String
  | unmatchedCriticalExit => "unmatched critical section exit"
  | criticalFromIsr => "task critical section entered from interrupt"
  | unheldLockRelease => "release of unheld recursive lock"
  | taskReturned => "task function returned"
  | interruptNestingExceeded => "interrupt nesting limit exceeded"
  | unmatchedInterruptExit => "unmatched interrupt exit"
  | releasedContextRestored => "restore of released context"
  | releasedContextReclaimed => "reclaim of released context"
  | switchReentered => "context switch re-entered"
  | schedulerNotStarted => "scheduler not started"
  | unknownCore => "executing core is not configured"

inductive Halt where
  | violation (cause : Violation)
  /-- A table of `length` entries was asked for entry `index`. -/
  | outOfRange (length index : Nat)
  | tickRateZero
  | tickRateAboveClock
  /-- A tick came so late that its next compare value has already passed. -/
  | tickInPast
  /-- Some core has no task to run. -/
  | emptyQueue
  | missingSlot
  /-- A lock stayed held for this many waits with nobody left to release it. -/
  | deadlock (snoozes : Nat)
  /-- A stack access outside every task stack. -/
  | wildAccess
deriving DecidableEq

def Halt.message : Halt → String
  | violation cause => cause.message
  | outOfRange length index =>
      s!"index out of bounds: the len is {length} but the index is {index}"
  | tickRateZero => "tick rate must be non-zero"
  | tickRateAboveClock => "tick rate must not exceed the clock"
  | tickInPast => "tick compare already in the past"
  | emptyQueue => "assertion failed: queues.iter().all(|q| !q.is_empty())"
  | missingSlot => "frame layout is missing a required slot"
  | deadlock snoozes => s!"lock still held after {snoozes} snoozes"
  | wildAccess => "access outside the task stacks"

end Preempt
