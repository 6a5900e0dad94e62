import Preempt.Core
import Preempt.Fault
import Preempt.Segment.Link

/-!
What a run shows on the outside: hardware accesses, calls to the scheduler and the context
primitives, and log lines, in order. The wording is here and nowhere else.
-/

namespace Preempt

inductive LogLevel where
  | error
  | warn
  | debug
  | trace
deriving DecidableEq

def LogLevel.name : LogLevel → String
  | error => "error"
  | warn => "warn"
  | debug => "debug"
  | trace => "trace"

inductive LogEntry where
  | violation (cause : Violation)
  | tickStarted (hz period : UInt32)
  | tickLate
  | tick (core : CoreId) (due : Bool)
  | releasingCore (core other : CoreId)
  | firstTask (core : CoreId) (task : TaskId)
  | switched (core : CoreId) (outgoing incoming : TaskId) (depth : TrapDepth)
  | schedulerEnded (core : CoreId)
  | yieldRequest (core target : CoreId)
  | ipi (core : CoreId) (pending : Pending)
  | initialFrame (layout : String) (top : Word)
  | initialSegments (lower upper : Link)
  | reclaimed (count : Nat) (head : Link)
  | deferred (task : TaskId)
deriving DecidableEq

namespace LogEntry

def level : LogEntry → LogLevel
  | violation _ => .error
  | tickLate | deferred _ => .warn
  | tickStarted .. | releasingCore .. | firstTask .. | schedulerEnded _ | yieldRequest ..
  | ipi .. | reclaimed .. => .debug
  | tick .. | switched .. | initialFrame .. | initialSegments .. => .trace

def message : LogEntry → String
  | violation cause => s!"fatal: {cause.message}"
  | tickStarted hz period => s!"tick: {hz} Hz, period {period} cycles"
  | tickLate => "tick: compare already passed, next tick compressed"
  | tick core due => s!"core {core}: tick, switch due: {due}"
  | releasingCore core other => s!"core {core}: releasing core {other}"
  | firstTask core task => s!"core {core}: starting first task T{task}"
  | switched core outgoing incoming depth =>
      s!"core {core}: switch T{outgoing} -> T{incoming} (depth {depth})"
  | schedulerEnded core => s!"core {core}: scheduler ended"
  | yieldRequest core target => s!"core {core}: yield request to core {target}"
  | ipi core pending => s!"core {core}: ipi, pending {pending.name}"
  | initialFrame layout top => s!"{layout}: initial frame at {top.text}"
  | initialSegments lower upper => s!"segments {lower.text}/{upper.text} for new task"
  | reclaimed count head => s!"reclaimed {count} segments from {head.text}"
  | deferred task => s!"reclaim: task T{task} still current, deferred"

end LogEntry

inductive Event where
  | disable
  | enable
  | timerStart (period : UInt32)
  | timerStop
  | clearPending
  | rearm (period : UInt32)
  | testAndSet (bit : UInt32) (won : Bool)
  | clear (bit : UInt32)
  | snooze
  | ipi (target : CoreId)
  | clearIpi
  /-- The scheduler counts a tick, with the interrupt enable and the exclusive word it sees. -/
  | tick (enabled : Bool) (exclusive : UInt32)
  | select (core : CoreId)
  | save (core : CoreId) (task : TaskId) (nesting : UInt32) (depth : TrapDepth)
  | restore (core : CoreId) (task : TaskId) (depth : TrapDepth)
  | pendTrap (core : CoreId)
  | log (entry : LogEntry)
deriving DecidableEq

def Event.text : Event → String
  | disable => "disable"
  | enable => "enable"
  | timerStart period => s!"start {period}"
  | timerStop => "stop"
  | clearPending => "clear_pending"
  | rearm period => s!"advance {period}"
  | testAndSet bit won => s!"tas {bit} " ++ if won then "ok" else "busy"
  | clear bit => s!"clear {bit}"
  | snooze => "snooze"
  | ipi target => s!"ipi {target}"
  | clearIpi => "clear_ipi"
  | tick enabled exclusive => s!"tick en={enabled.toNat} x={exclusive}"
  | select core => s!"select {core}"
  | save core task nesting depth => s!"save {core} T{task} n={nesting} d={depth}"
  | restore core task depth => s!"restore {core} T{task} d={depth}"
  | pendTrap core => s!"trigger {core}"
  | log entry => s!"log {entry.level.name} {entry.message}"

abbrev Trace := Array Event

end Preempt
