import Preempt.Frame.Layout

/-!
The three frame layouts: Cortex-M4, RH850 and C29x. The examples at the end check that each has
the four required roles exactly once.
-/

namespace Preempt

namespace CortexM4

/-- Program status with only the Thumb bit set. -/
def initialStatus : UInt64 := 0x01000000

/-- The nesting word, the eight registers saved in software, then the frame that the exception
entry stacks. -/
def slots : List Slot :=
  [.role .criticalNesting] ++ List.replicate 8 (.fill (.num 0)) ++
  [.role .argument] ++ List.replicate 4 (.fill (.num 0)) ++
  [.role .returnAddress, .role .programCounter, .role .status]

/-- The mask is not part of the frame: an exception return always resumes with interrupts on. -/
def layout : Layout where
  name := "cortex-m4"
  growth := .descending
  slots := slots
  initialStatus := .num initialStatus
  enabledIn _ := true
  entryAddress := Word.clearLowBit

end CortexM4

namespace Rh850

/-- Set in a status word when interrupts are off. -/
def disabledBit : UInt64 := 0x20

/-- Set in a status word when the coprocessor is usable. -/
def coprocessorBit : UInt64 := 0x10000

/-- Coprocessor status: flush to zero, round to nearest. -/
def initialCoprocessorStatus : UInt64 := 0x00020000

/-- A recognizable value for register `number`: its two decimal digits as one byte, four times.
Larger numbers carry on in the same way. -/
def registerFill (number : Nat) : UInt64 :=
  .ofNat (0x01010101 * (number / 10 * 16 + number % 10))

def initialStatus (fpu : Bool) : UInt64 := if fpu then coprocessorBit else 0

/-- The slots in address order, with or without the two coprocessor words. -/
def slots (fpu withCoprocessor : Bool) : List Slot :=
  [.role .criticalNesting] ++
  (if withCoprocessor then [.fill (.num 0), .fill (.num initialCoprocessorStatus)] else []) ++
  [.fill (.num 0), .fill (.num (initialStatus fpu)), .fill (.num 0),
    .role .programCounter, .role .status,
    .fill (.num (registerFill 2)), .fill (.num (registerFill 1))] ++
  (List.range 24).map (fun i => .fill (.num (registerFill (30 - i)))) ++
  [.role .argument, .fill (.num (registerFill 5)), .role .returnAddress]

/-- The slots in a table of a given size, zero filled behind them. The slots are written one
after the other, so a table that is too small fails at its own end. -/
def slotTable (fpu withCoprocessor : Bool) (size : Nat) : Except Halt (List Slot) :=
  let all := slots fpu withCoprocessor
  if all.length ≤ size then
    .ok (all ++ List.replicate (size - all.length) (.fill (.num 0)))
  else .error (.outOfRange size size)

def layout (fpu : Bool) : Layout where
  name := "rh850"
  growth := .descending
  slots := slots fpu fpu
  initialStatus := .num (initialStatus fpu)
  enabledIn status := !status.meets disabledBit

end Rh850

namespace C29x

/-- Status with the low-priority interrupt enable set. -/
def initialStatus : UInt64 := 0x07F90001

def enabledBit : UInt64 := 0x00010000

def initialExceptionStatus : UInt64 := 0x00020101

/-- Value of the plain registers of a new task. -/
def registerFill : Word := .num 0xDEADDEAD

/-- Six status words, 62 address, data and matrix registers of which the fifth takes the
argument, the coprocessor flag and the nesting word. -/
def slots : List Slot :=
  [.role .returnAddress, .fill (.num initialStatus), .fill (.num 0xABABABAB),
    .role .programCounter, .role .status, .fill (.num initialExceptionStatus)] ++
  List.replicate 4 (.fill registerFill) ++ [.role .argument] ++
  List.replicate 57 (.fill registerFill) ++
  [.role .fpuFlag, .role .criticalNesting]

/-- The compiler uses coprocessor registers in all code, so the flag starts set in any build. -/
def layout : Layout where
  name := "c29x"
  growth := .ascending
  slots := slots
  initialStatus := .num initialStatus
  initialFpuFlag := .num 1
  enabledIn status := status.meets enabledBit
  entryAddress := Word.clearLowBit

end C29x

def maxFrameWords : Nat :=
  max CortexM4.slots.length (max (Rh850.slots true true).length C29x.slots.length)

/-- The roles that a layout needs exactly once. -/
def Role.required : List Role := [.status, .programCounter, .argument, .criticalNesting]

example : maxFrameWords = 70 := by decide
example : ∀ r ∈ Role.required, CortexM4.slots.count (.role r) = 1 := by decide
example : ∀ fpu, ∀ r ∈ Role.required, (Rh850.slots fpu fpu).count (.role r) = 1 := by decide
example : ∀ r ∈ Role.required, C29x.slots.count (.role r) = 1 := by decide

end Preempt
