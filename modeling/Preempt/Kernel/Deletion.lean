import Preempt.Kernel.Creation

/-!
Deleting tasks over a segment pool. The segments of a deleted task go back to the free list once
no core runs the task; until then it is parked in a queue, to be collected later. The saved head of
a task is read only when the task is not current, since it is written when the task is switched
out.
-/

namespace Preempt

/-- What became of a deletion. -/
inductive Deletion where
  | done
  /-- The task waits until it is no longer current. -/
  | parked
deriving DecidableEq

def Deletion.name : Deletion → String
  | done => "Reclaimed"
  | parked => "Deferred"

namespace Kernel

variable {n size : Nat} {m : Type → Type}

/-- Give a whole chain back in one splice. A chain with a free segment halts before anything
changes; an empty chain leaves no trace. -/
def freeChain (head : Link) : SegmentedM size n Unit := do
  let head := head.address
  if head.isNull then return ()
  else
    onPool (Pool.requireInUse size head)
    let (tail, count) ← onPool (Pool.unmarkFrom (size - 1) head 1)
    Board.withMask n (onPool (Pool.splice head tail))
    onBoard (Board.log (.reclaimed count head))

def freeTask (task : TaskId) : SegmentedM size n Unit := do
  freeChain (← onStorage (Storage.onTasks (Tasks.savedHead task)))

def park (task : TaskId) : SegmentedM size n (Except Refusal Unit) := do
  match (← get).deletions.park task with
  | .error refusal => return .error refusal
  | .ok deletions =>
    modify ({ · with deletions })
    onBoard (Board.log (.deferred task))
    return .ok ()

/-- Empty a slot that still holds `task`, and give back its chain. False if something else has
emptied the slot in the meantime. -/
def collectSlot (slot : Nat) (task : TaskId) : SegmentedM size n Bool := do
  if (← get).deletions.slots[slot]? = some (some task) then
    modify fun k => { k with deletions := k.deletions.empty slot }
    freeTask task
    return true
  else return false

/-- Go through `count` slots from `slot` on and collect every parked task that is not current. -/
def collectFrom (size n : Nat) [Monad m] [MonadLiftT (SegmentedM size n) m]
    (isCurrent : TaskId → m Bool) : (slot count : Nat) → m Nat
  | _, 0 => return 0
  | slot, count + 1 => do
    let k ← (get : SegmentedM size n (Kernel (Banks size n) n))
    let collected ←
      match k.deletions.slots[slot]? with
      | some (some task) =>
        if ← isCurrent task then pure false
        else (collectSlot slot task : SegmentedM size n Bool)
      | _ => pure false
    let rest ← collectFrom size n isCurrent (slot + 1) count
    return rest + collected.toNat

/-- Collect every parked task for which `isCurrent` is false, and keep the others parked. The
answer is the number collected. -/
def collectWith (size n : Nat) [Monad m] [MonadLiftT (SegmentedM size n) m]
    (isCurrent : TaskId → m Bool) : m Nat := do
  let k ← (get : SegmentedM size n (Kernel (Banks size n) n))
  collectFrom size n isCurrent 0 k.deletions.capacity

def collect : SegmentedM size n Nat := collectWith size n isCurrent

/-- Delete a task: its segments go back now, or it is parked because some core runs it. -/
def delete (task : TaskId) : SegmentedM size n (Except Refusal Deletion) := do
  if ← isCurrent task then return (← park task).map fun _ => .parked
  else
    freeTask task
    return .ok .done

/-- Delete a task that no core runs, or refuse. -/
def deleteNow (task : TaskId) : SegmentedM size n (Except Refusal Unit) := do
  if ← isCurrent task then return .error .contextInUse
  else
    freeTask task
    return .ok ()

end Kernel

end Preempt
