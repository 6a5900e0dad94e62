import Preempt.Frame.Architectures
import Preempt.Frame.Image
import Preempt.Indexed
import Preempt.Storage

/-!
The register files of `n` cores of an architecture with linear frames. Register `i` is the value
that goes into slot `i` of a saved frame; the stack pointer is kept apart.
-/

namespace Preempt

/-- The registers that a frame of `layout` is saved from, per core. -/
structure RegisterFile (layout : Layout) (n : Nat) where
  registers : Vector (Vector Word maxFrameWords) n := .replicate n (.replicate _ (.num 0))
  sp : Vector Word n := .replicate n .null
  trapPending : Vector Bool n := .replicate n false

namespace RegisterFile

open Storage

variable {layout : Layout} {n : Nat}

abbrev FileM (layout : Layout) (n : Nat) := EStateM Halt (RegisterFile layout n)

def registersOf (core : CoreId) : FileM layout n (Vector Word maxFrameWords) := fun f =>
  if h : core < n then .ok (f.registers.get ⟨core, h⟩) f else .error (.outOfRange n core) f

def register (core : CoreId) (index : Nat) : FileM layout n Word := do
  let registers ← registersOf core
  if h : index < maxFrameWords then return registers[index]
  else throw (.outOfRange maxFrameWords index)

def setRegisters (core : CoreId) (registers : Vector Word maxFrameWords) : FileM layout n Unit :=
  fun f =>
    if h : core < n then .ok () { f with registers := f.registers.put ⟨core, h⟩ registers }
    else .error (.outOfRange n core) f

def setRegister (core : CoreId) (index : Nat) (value : Word) : FileM layout n Unit := do
  let registers ← registersOf core
  if h : index < maxFrameWords then setRegisters core (registers.set index value)
  else throw (.outOfRange maxFrameWords index)

def registerWithRole (core : CoreId) (role : Role) : FileM layout n Word :=
  register core (layout.position role)

def stackPointer (core : CoreId) : FileM layout n Word := fun f =>
  if h : core < n then .ok (f.sp.get ⟨core, h⟩) f else .error (.outOfRange n core) f

def setStackPointer (core : CoreId) (sp : Word) : FileM layout n Unit := fun f =>
  if h : core < n then .ok () { f with sp := f.sp.put ⟨core, h⟩ sp }
  else .error (.outOfRange n core) f

/-- Let the running task compute for a while: each of its registers takes a value made from
`seed`, except the status word and the nesting slot. -/
def churn (core : CoreId) (seed : UInt64) : FileM layout n Unit := do
  let registers ← registersOf core
  setRegisters core <| .ofFn fun i =>
    if i < layout.words ∧ i.val ≠ layout.position .status ∧
        i.val ≠ layout.position .criticalNesting then
      .num (seed * 31 + .ofNat i)
    else registers.get i

def pend (core : CoreId) : FileM layout n Unit := fun f =>
  if h : core < n then
    .ok () { f with trapPending := f.trapPending.put ⟨core, h⟩ true }
  else .error (.outOfRange n core) f

/-- Take the software interrupt of a core. True if it was pending. -/
def takeTrap (core : CoreId) : FileM layout n Bool := fun f =>
  if h : core < n then
    .ok (f.trapPending.get ⟨core, h⟩)
      { f with trapPending := f.trapPending.put ⟨core, h⟩ false }
  else .error (.outOfRange n core) f

/-- Push the frame of the running task onto its stack and save the top. -/
def save (core : CoreId) (task : TaskId) (nesting : UInt32) :
    StorageM (RegisterFile layout n) Unit := do
  let registers ← onContext (registersOf core)
  let sp ← onContext (stackPointer core)
  let top ← onTasks (layout.push sp (registers.toList.take layout.words) nesting)
  setTop task top

/-- Load the registers from the frame that a task saved. -/
def restore (core : CoreId) (task : TaskId) : StorageM (RegisterFile layout n) Resumption := do
  let top ← topOf task
  let popped ← onTasks (layout.pop top (List.replicate layout.words (.num 0)))
  let old ← onContext (registersOf core)
  onContext (setRegisters core (.ofFn fun i => (popped.registers[i.val]?).getD (old.get i)))
  onContext (setStackPointer core popped.sp)
  let status := (popped.registers[layout.position .status]?).getD (.num 0)
  return { nesting := popped.nesting, enabled := layout.enabledIn status }

instance : SwitchPrimitives (RegisterFile layout n) where
  save core task nesting _ := save core task nesting
  restore core task _ := restore core task
  pend core := onContext (pend core)

end RegisterFile

end Preempt
