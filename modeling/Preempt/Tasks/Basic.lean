import Preempt.Fault

/-!
Task storage: per task a stack and the saved top of stack, through which a suspended context is
found. A word of a stack is read and written by its address; an address outside every stack
halts. `read?_write` says what the stacks hold after a write.
-/

namespace Preempt

/-- Direction in which pushes move. -/
inductive Growth where
  | descending
  | ascending
deriving DecidableEq

def Growth.name : Growth → String
  | descending => "Descending"
  | ascending => "Ascending"

/-- A stack of words, lowest address first. -/
structure Stack where
  words : Array Word

namespace Stack

def zeroed (size : Nat) : Stack := ⟨Array.replicate size .null⟩

def size (s : Stack) : Nat := s.words.size

/-- Where the first push lands: one past the end of a descending stack, the base of an ascending
one. The end is rounded down to a multiple of 8 bytes (`& !7`). A stack begins at such a multiple
and its words have 8 bytes, so the rounding takes nothing off. -/
def initialTop (s : Stack) : Growth → Nat
  | .descending => s.size
  | .ascending => 0

/-- Whether the address `offset` bytes from the base lies in the stack or at its end. -/
def contains (s : Stack) (offset : Int) : Bool := 0 ≤ offset && offset ≤ Word.bytes * s.size

end Stack

structure TaskRecord where
  stack : Stack
  /-- The saved top of stack, null until there is a frame. -/
  top : Word := .null

structure Tasks where
  list : Array TaskRecord

abbrev TasksM := EStateM Halt Tasks

namespace Tasks

/-- Tasks with zeroed stacks of the given sizes and no frames. -/
def ofSizes (sizes : Array Nat) : Tasks := ⟨sizes.map fun size => { stack := .zeroed size }⟩

def stack? (ts : Tasks) (task : TaskId) : Option Stack := ts.list[task]?.map (·.stack)

def stackSize (ts : Tasks) (task : TaskId) : Nat := ((ts.stack? task).map Stack.size).getD 0

def top (ts : Tasks) (task : TaskId) : Word := (ts.list[task]?.map (·.top)).getD .null

def setTop (ts : Tasks) (task : TaskId) (top : Word) : Tasks :=
  ⟨ts.list.modify task ({ · with top })⟩

def isInitialized (ts : Tasks) (task : TaskId) : Bool := ts.top task != .null

def initialTop (ts : Tasks) (task : TaskId) (growth : Growth) : Word :=
  .stack task (((ts.stack? task).map (·.initialTop growth)).getD 0 : Nat)

def read? (ts : Tasks) : Word → Option Word
  | .stack task (.ofNat k) => (ts.stack? task).bind (·.words[k]?)
  | _ => none

def write (ts : Tasks) (address value : Word) : Tasks :=
  match address with
  | .stack task (.ofNat k) =>
      ⟨ts.list.modify task fun t => { t with stack := ⟨t.stack.words.setIfInBounds k value⟩ }⟩
  | _ => ts

def load (address : Word) : TasksM Word := fun ts =>
  match ts.read? address with
  | some value => .ok value ts
  | none => .error .wildAccess ts

def store (address value : Word) : TasksM Unit := fun ts =>
  match ts.read? address with
  | some _ => .ok () (ts.write address value)
  | none => .error .wildAccess ts

@[simp] theorem top_setTop (ts : Tasks) (task other : TaskId) (top : Word) :
    (ts.setTop task top).top other =
      if task = other ∧ other < ts.list.size then top else ts.top other := by
  by_cases same : task = other
  · subst same
    by_cases inside : task < ts.list.size
    · simp [Tasks.top, setTop, inside, Array.getElem_modify]
    · simp [Tasks.top, setTop, inside]
  · simp [Tasks.top, setTop, Array.getElem?_modify, same]

@[simp] theorem read?_setTop (ts : Tasks) (task : TaskId) (top address : Word) :
    (ts.setTop task top).read? address = ts.read? address := by
  unfold read?
  split
  · rename_i other k
    by_cases same : task = other
    · subst same
      cases h : ts.list[task]? <;> simp [stack?, setTop, Array.getElem?_modify, h]
    · simp [stack?, setTop, Array.getElem?_modify, same]
  · rfl

@[simp] theorem top_write (ts : Tasks) (task : TaskId) (address value : Word) :
    (ts.write address value).top task = ts.top task := by
  unfold write
  split
  · rename_i other k
    by_cases same : other = task
    · subst same
      cases h : ts.list[other]? <;> simp [Tasks.top, Array.getElem?_modify, h]
    · simp [Tasks.top, Array.getElem?_modify, same]
  · rfl

/-- A write inside a stack changes the word it addresses and no other. -/
theorem read?_write (ts : Tasks) (address value other : Word)
    (inside : (ts.read? address).isSome) :
    (ts.write address value).read? other = if other = address then some value
      else ts.read? other := by
  match address with
  | .stack task (.ofNat k) =>
    simp only [read?, stack?] at inside
    obtain ⟨t, ht⟩ : ∃ t, ts.list[task]? = some t := by
      cases h : ts.list[task]? <;> simp_all
    have bound : k < t.stack.words.size := by
      simp only [ht, Option.map_some, Option.bind_some] at inside
      simpa using inside
    match other with
    | .stack task' (.ofNat k') =>
      by_cases sameTask : task = task'
      · subst sameTask
        by_cases sameWord : k = k'
        · subst sameWord
          simp [write, read?, stack?, Array.getElem?_modify, ht, bound]
        · have apart : ¬ (k' : Int) = (k : Int) := by omega
          simp [write, read?, stack?, Array.getElem?_modify, ht, sameWord, apart,
            Array.getElem?_setIfInBounds_ne]
      · have apart : ¬ task' = task := fun h => sameTask h.symm
        simp [write, read?, stack?, Array.getElem?_modify, sameTask, apart]
    | .stack _ (.negSucc _) => simp [read?]
    | .num _ => simp [read?]
    | .exitTrap => simp [read?]
  | .stack _ (.negSucc _) => simp [read?] at inside
  | .num _ => simp [read?] at inside
  | .exitTrap => simp [read?] at inside

/-- Writing the word that is there changes nothing. -/
theorem write_self {ts : Tasks} {address value : Word} (holds : ts.read? address = some value) :
    ts.write address value = ts := by
  match address with
  | .stack task (.ofNat k) =>
    simp only [read?, stack?] at holds
    cases found : ts.list[task]? with
    | none => simp [found] at holds
    | some t =>
      simp only [found, Option.map_some, Option.bind_some] at holds
      simp only [write]
      congr 1
      apply Array.ext_getElem?
      intro other
      rw [Array.getElem?_modify]
      split
      · rename_i same
        subst same
        have kept : t.stack.words.setIfInBounds k value = t.stack.words := by
          obtain ⟨bound, rfl⟩ := Array.getElem?_eq_some_iff.mp holds
          simp [Array.setIfInBounds, bound]
        simp [found, kept]
      · rfl
  | .stack _ (.negSucc _) => rfl
  | .num _ => rfl
  | .exitTrap => rfl

theorem lt_size_of_read? {ts : Tasks} {task : TaskId} {offset : Int}
    (inside : (ts.read? (.stack task offset)).isSome) : task < ts.list.size := by
  cases offset with
  | negSucc k => simp [read?] at inside
  | ofNat k =>
    refine Nat.lt_of_not_le fun outside => ?_
    simp [read?, stack?, Array.getElem?_eq_none outside] at inside

/-! Each task has its own record; what is done to one leaves the others alone. -/

theorem record_write (ts : Tasks) {task other : TaskId} (apart : other ≠ task) (offset : Int)
    (value : Word) : (ts.write (.stack task offset) value).list[other]? = ts.list[other]? := by
  cases offset with
  | negSucc k => rfl
  | ofNat k => simp [write, Array.getElem?_modify, Ne.symm apart]

theorem record_setTop (ts : Tasks) {task other : TaskId} (apart : other ≠ task) (top : Word) :
    (ts.setTop task top).list[other]? = ts.list[other]? := by
  simp [setTop, Array.getElem?_modify, Ne.symm apart]

theorem top_congr {ts ts' : Tasks} {task : TaskId} (same : ts'.list[task]? = ts.list[task]?) :
    ts'.top task = ts.top task := by
  simp [Tasks.top, same]

theorem read?_congr {ts ts' : Tasks} {task : TaskId} (same : ts'.list[task]? = ts.list[task]?)
    (offset : Int) : ts'.read? (.stack task offset) = ts.read? (.stack task offset) := by
  cases offset with
  | negSucc k => rfl
  | ofNat k => simp [read?, stack?, same]

@[simp] theorem size_write (ts : Tasks) (address value : Word) :
    (ts.write address value).list.size = ts.list.size := by
  unfold write
  split <;> simp

@[simp] theorem size_setTop (ts : Tasks) (task : TaskId) (top : Word) :
    (ts.setTop task top).list.size = ts.list.size := by
  simp [setTop]

end Tasks

end Preempt
