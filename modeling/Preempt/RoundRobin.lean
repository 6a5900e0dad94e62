import Preempt.Fault
import Preempt.Indexed

/-!
The scheduler that the kernel layer drives: round robin over a fixed list of tasks per core. A
queue always has a current task, so selecting never fails.
-/

namespace Preempt

/-- The tasks of one core, and which of them is current. -/
structure TaskQueue where
  tasks : Array TaskId
  index : Fin tasks.size

namespace TaskQueue

/-- The queue of a list of tasks, the first of them current. There has to be one. -/
def ofList? (tasks : List TaskId) : Option TaskQueue :=
  if h : 0 < tasks.toArray.size then some ⟨tasks.toArray, ⟨0, h⟩⟩ else none

def current (q : TaskQueue) : TaskId := q.tasks[q.index]

def rotate (q : TaskQueue) : TaskQueue where
  tasks := q.tasks
  index := ⟨(q.index + 1) % q.tasks.size, Nat.mod_lt _ (Nat.zero_lt_of_lt q.index.isLt)⟩

theorem current_mem (q : TaskQueue) : q.current ∈ q.tasks := Array.getElem_mem q.index.isLt

end TaskQueue

structure RoundRobin (n : Nat) where
  queues : Vector TaskQueue n
  /-- What every tick answers: whether a switch is due. -/
  switchDue : Bool := true
  ticks : UInt32 := 0
  /-- Selecting keeps the task that is current. -/
  stays : Bool := false
  /-- Selecting first runs the switch engine itself, which it must not. -/
  reenters : Bool := false

namespace RoundRobin

variable {n : Nat}

/-- A scheduler for the given task lists, none of which may be empty. -/
def make (lists : Vector (List TaskId) n) (switchDue : Bool) : Except Halt (RoundRobin n) :=
  match lists.mapM TaskQueue.ofList? with
  | some queues => .ok { queues, switchDue }
  | none => .error .emptyQueue

theorem eq_of_make {lists : Vector (List TaskId) n} {switchDue : Bool} {s : RoundRobin n}
    (made : make lists switchDue = .ok s) :
    ∃ queues, lists.mapM TaskQueue.ofList? = some queues ∧ s = { queues, switchDue } := by
  unfold make at made
  split at made
  · cases made
    exact ⟨_, ‹_›, rfl⟩
  · cases made

def current (s : RoundRobin n) (c : Fin n) : TaskId := (s.queues.get c).current

def rotate (s : RoundRobin n) (c : Fin n) : RoundRobin n :=
  { s with queues := s.queues.put c (s.queues.get c).rotate }

def tick (s : RoundRobin n) : RoundRobin n := { s with ticks := s.ticks + 1 }

/-- Whether some core has `task` as its current task. -/
def isCurrent (s : RoundRobin n) (task : TaskId) : Bool :=
  (List.finRange n).any fun c => s.current c = task

theorem isCurrent_iff (s : RoundRobin n) (task : TaskId) :
    s.isCurrent task = true ↔ ∃ c, s.current c = task := by
  simp [isCurrent]

@[simp] theorem current_rotate (s : RoundRobin n) (c d : Fin n) :
    (s.rotate c).current d = if c = d then (s.queues.get c).rotate.current else s.current d := by
  simp only [rotate, current, Vector.get_put]
  split <;> rfl

end RoundRobin

end Preempt
