import Preempt.Tasks.Basic

/-!
Layouts of linear frames. A linear frame is a whole register image on the task's own stack; a
layout names the role of each word, lowest address first. Four roles are looked up by position,
so a layout must have them: `slotIndex` refuses one that has not.
-/

namespace Preempt

/-- A word of a frame that the kernel layer knows the meaning of. -/
inductive Role where
  | criticalNesting
  /-- The status word with the interrupt enable. -/
  | status
  | programCounter
  | argument
  | returnAddress
  /-- Whether the frame carries coprocessor state. -/
  | fpuFlag
deriving DecidableEq

def Role.name : Role → String
  | criticalNesting => "CriticalNesting"
  | status => "Status"
  | programCounter => "ProgramCounter"
  | argument => "Argument"
  | returnAddress => "ReturnAddress"
  | fpuFlag => "FpuFlag"

inductive Slot where
  | role (role : Role)
  /-- Any other register, with its value in a new task. -/
  | fill (value : Word)
deriving DecidableEq

namespace Slot

def text : Slot → String
  | role r => r.name
  | fill value => value.text

def hasRole (slot : Slot) (wanted : Role) : Bool :=
  match slot with
  | role r => r = wanted
  | fill _ => false

/-- Position of the first slot with a role, or the number of slots if there is none. -/
def position (slots : List Slot) (wanted : Role) : Nat := slots.findIdx (·.hasRole wanted)

/-- Position of the first slot with the role of `wanted`. Plain registers have no role, so none
is ever found. -/
def slotIndex (slots : List Slot) : Slot → Except Halt Nat
  | role r =>
    if position slots r < slots.length then .ok (position slots r) else .error .missingSlot
  | fill _ => .error .missingSlot

theorem position_lt_iff (slots : List Slot) (wanted : Role) :
    position slots wanted < slots.length ↔ .role wanted ∈ slots := by
  simp only [position, List.findIdx_lt_length]
  constructor
  · rintro ⟨slot, member, has⟩
    cases slot with
    | role r => simp only [hasRole, decide_eq_true_eq] at has; exact has ▸ member
    | fill value => simp [hasRole] at has
  · intro member
    exact ⟨.role wanted, member, by simp [hasRole]⟩

end Slot

structure Layout where
  name : String
  growth : Growth
  /-- The slots, lowest address first. -/
  slots : List Slot
  initialStatus : Word
  initialFpuFlag : Word := .num 0
  enabledIn : Word → Bool
  /-- The resume address of a task that starts at an entry point. -/
  entryAddress : Word → Word := id

namespace Layout

def words (layout : Layout) : Nat := layout.slots.length

def position (layout : Layout) (wanted : Role) : Nat := Slot.position layout.slots wanted

/-- The value of a slot in the frame of a new task. -/
def initialValue (layout : Layout) (entry argument : Word) : Slot → Word
  | .role .criticalNesting => .num 0
  | .role .status => layout.initialStatus
  | .role .programCounter => layout.entryAddress entry
  | .role .argument => argument
  | .role .returnAddress => .exitTrap
  | .role .fpuFlag => layout.initialFpuFlag
  | .fill value => value

/-- The frame of a new task, lowest address first. -/
def initialImage (layout : Layout) (entry argument : Word) : List Word :=
  layout.slots.map (layout.initialValue entry argument)

@[simp] theorem length_initialImage (layout : Layout) (entry argument : Word) :
    (layout.initialImage entry argument).length = layout.words := by
  simp [initialImage, words]

end Layout

end Preempt
