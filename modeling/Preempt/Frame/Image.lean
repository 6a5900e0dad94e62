import Preempt.Frame.Layout
import Preempt.Tasks.Blocks

/-!
Moving register images between a register file and a frame on a stack. The saved top of stack is
the low end of the frame on a descending stack and the high end on an ascending one.
-/

namespace Preempt.Layout

/-- Lowest address of the frame whose saved top is `top`. -/
def lowEnd (layout : Layout) (top : Word) : Word :=
  match layout.growth with
  | .descending => top
  | .ascending => top.advance (-layout.words)

/-- Lowest address of the frame pushed at a live stack pointer. -/
def pushBase (layout : Layout) (sp : Word) : Word :=
  match layout.growth with
  | .descending => sp.advance (-layout.words)
  | .ascending => sp

/-- The end of a frame that later pushes move away from. -/
def topOf (layout : Layout) (base : Word) : Word :=
  match layout.growth with
  | .descending => base
  | .ascending => base.advance layout.words

/-- The stack pointer that a task has once the frame at `base` is popped. -/
def poppedPointer (layout : Layout) (base : Word) : Word :=
  match layout.growth with
  | .descending => base.advance layout.words
  | .ascending => base

/-- Write the frame of a new task at the live stack pointer `sp`; the answer is its saved top. -/
def prepareAt (layout : Layout) (sp entry argument : Word) : TasksM Word := do
  let base := layout.pushBase sp
  Tasks.storeBlock base (layout.initialImage entry argument)
  return layout.topOf base

/-- Set up a task on its own stack. One word more than the frame is asked for, to cover an
alignment trim at a descending end. -/
def prepare (layout : Layout) (task : TaskId) (entry argument : Word) :
    TasksM (Except Refusal Word) := do
  let available := (← get).stackSize task
  let needed := layout.words + 1
  if available < needed then return .error (.stackTooSmall needed available)
  else
    let sp := (← get).initialTop task layout.growth
    let top ← layout.prepareAt sp entry argument
    modify (·.setTop task top)
    return .ok top

/-- The words of a frame: the registers in slot order, but the critical nesting in its own slot.
A register that is missing is out of range; the nesting slot needs none. -/
def image (layout : Layout) (registers : List Word) (nesting : UInt32) :
    Except Halt (List Word) :=
  (List.range layout.words).mapM fun i =>
    if i = layout.position .criticalNesting then .ok (Word.ofUInt32 nesting)
    else
      match registers[i]? with
      | some value => .ok value
      | none => .error (.outOfRange registers.length i)

/-- Push a frame at the live stack pointer `sp`; the answer is the top to save. -/
def push (layout : Layout) (sp : Word) (registers : List Word) (nesting : UInt32) :
    TasksM Word := do
  match layout.image registers nesting with
  | .error halt => throw halt
  | .ok values =>
    let base := layout.pushBase sp
    Tasks.storeBlock base values
    return layout.topOf base

structure Popped where
  sp : Word
  nesting : UInt32
  registers : List Word

/-- Pop the frame saved at `top` into `registers`, as far as both reach. The nesting slot's
register keeps its value; the nesting is zero if the registers end before its slot. -/
def pop (layout : Layout) (top : Word) (registers : List Word) : TasksM Popped := do
  let base := layout.lowEnd top
  let values ← Tasks.loadBlock base (min registers.length layout.words)
  let nestingSlot := layout.position .criticalNesting
  return {
    sp := layout.poppedPointer base
    nesting := ((values[nestingSlot]?).map Word.low).getD 0
    registers := registers.mapIdx fun i old =>
      if i = nestingSlot then old else (values[i]?).getD old }

def frame (layout : Layout) (top : Word) : TasksM (List Word) :=
  Tasks.loadBlock (layout.lowEnd top) layout.words

@[simp] theorem lowEnd_topOf (layout : Layout) (task : TaskId) (offset : Int) :
    layout.lowEnd (layout.topOf (.stack task offset)) = .stack task offset := by
  cases h : layout.growth
  · simp only [lowEnd, topOf, h]
  · simp only [lowEnd, topOf, h, Word.advance_stack, Int.add_neg_cancel_right]

@[simp] theorem poppedPointer_pushBase (layout : Layout) (task : TaskId) (offset : Int) :
    layout.poppedPointer (layout.pushBase (.stack task offset)) = .stack task offset := by
  cases h : layout.growth
  · simp only [poppedPointer, pushBase, h, Word.advance_stack, Int.neg_add_cancel_right]
  · simp only [poppedPointer, pushBase, h]

@[simp] theorem pushBase_poppedPointer (layout : Layout) (task : TaskId) (offset : Int) :
    layout.pushBase (layout.poppedPointer (.stack task offset)) = .stack task offset := by
  cases h : layout.growth
  · simp only [poppedPointer, pushBase, h, Word.advance_stack, Int.add_neg_cancel_right]
  · simp only [poppedPointer, pushBase, h]

end Preempt.Layout
