/-!
Machine words. A word is a 64-bit number or one of the two kinds of address that can sit on a
task stack or in a register: a place in a stack, and the trap that a returning task lands in.
Addresses stay symbolic. They are moved by whole words and compared, never taken apart, so no
memory layout has to be fixed. All addresses are even.
-/

namespace Preempt

/-- Number of a core, counted from zero. -/
abbrev CoreId := Nat

/-- Number of a task, counted from zero; task `i` owns stack `i`. -/
abbrev TaskId := Nat

inductive Word where
  | num (value : UInt64)
  /-- The address of word `offset` of the stack of `task`, which may lie outside that stack. -/
  | stack (task : TaskId) (offset : Int)
  /-- The address of the trap for tasks that return. -/
  | exitTrap
deriving DecidableEq

namespace Word

instance : Inhabited Word := ⟨.num 0⟩

def null : Word := .num 0

/-- The word that holds `value` in its low half. -/
def ofUInt32 (value : UInt32) : Word := .num value.toUInt64

def bytes : Nat := 8

/-- The address `count` words further up. -/
def advance (w : Word) (count : Int) : Word :=
  match w with
  | num value => .num (value + UInt64.ofInt (bytes * count))
  | stack task offset => .stack task (offset + count)
  | exitTrap => .exitTrap

/-- The low half of a number. An address is never stored where a half word is read back. -/
def low : Word → UInt32
  | num value => value.toUInt32
  | _ => 0

/-- The word with bit zero cleared; addresses are even. -/
def clearLowBit : Word → Word
  | num value => .num (value - value % 2)
  | w => w

/-- Whether `mask` and the word share a bit. Only numbers are ever tested. -/
def meets (w : Word) (mask : UInt64) : Bool :=
  match w with
  | num value => value &&& mask != 0
  | _ => false

/-- Lower-case hexadecimal without leading zeros. -/
def hex (value : Nat) : String := "0x" ++ String.ofList (Nat.toDigits 16 value)

def text : Word → String
  | num value => hex value.toNat
  | stack task offset => s!"S{task}+{offset}"
  | exitTrap => "TRAP"

@[simp] theorem low_ofUInt32 (value : UInt32) : (ofUInt32 value).low = value := by
  simp [ofUInt32, low]

@[simp] theorem advance_stack (task : TaskId) (offset count : Int) :
    (stack task offset).advance count = stack task (offset + count) := rfl

end Word

end Preempt
