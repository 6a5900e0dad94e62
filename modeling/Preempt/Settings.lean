/-!
Fixed settings of a build: clock and tick rate, table sizes, nesting limits and the default
depth of the yield trap. The examples at the end are the conditions a build has to meet.
-/

namespace Preempt

/-- Number of kernel call frames between a trap's entry and the switch; zero in an interrupt. -/
abbrev TrapDepth := UInt8

/-- The two choices a build leaves open. -/
structure Build where
  /-- The cores have a numeric coprocessor whose state some frames carry. -/
  fpu : Bool := false
  /-- A late tick halts the core instead of being counted. -/
  strict : Bool := true
deriving DecidableEq

namespace Settings

def clockHz : UInt32 := 16000000

def tickHz : UInt32 := 1000

def tickPeriod : UInt32 := clockHz / tickHz

def maxCores : Nat := 2

/-- Interrupts run on the stack of the interrupted task, so every stack has to leave room for
this many levels. -/
def maxInterruptNesting : UInt32 := 2

/-- Critical nesting before the scheduler starts. Any non-zero value keeps interrupts masked
across a matched pair of enter and exit during boot. -/
def bootNesting : UInt32 := 0xAAAAAAAA

def stackWords : Nat := 256

/-- Context segments in the pool that all cores share. -/
def contextSegments : Nat := 64

/-- A yield reaches the switch engine through the trap handler and the call dispatcher. -/
def trapDepth : TrapDepth := 2

/-- Deleted tasks that can be parked at a time. -/
def deletionCapacity : Nat := 8

example : 0 < tickHz ∧ tickHz ≤ clockHz := by decide
example : 1 ≤ maxCores ∧ maxCores ≤ 32 := by decide
example : maxInterruptNesting ≠ 0 ∧ bootNesting ≠ 0 := by decide
example : 2 ≤ contextSegments ∧ contextSegments < 0x100000 := by decide

end Settings

end Preempt
