import Preempt.Settings
import Preempt.Word

/-!
What the kernel layer keeps per core: critical nesting, the pending switch request, interrupt
depth, the nesting of the recursive lock in each lock class, the state of the switch engine and
two counters. Everything here is a value; the operations that also touch the machine are elsewhere.
-/

namespace Preempt

/-- What a core has to do when it next returns from its outermost interrupt. -/
inductive Pending where
  | idle
  | switch
  /-- Bring-up, once per core: enter the first task and save nothing. -/
  | firstTask
deriving DecidableEq

namespace Pending

def name : Pending → String
  | idle => "NoRequest"
  | switch => "SwitchRequested"
  | firstTask => "StartFirstTask"

/-- The flag after one more switch is asked for: only an idle one changes. -/
def raise : Pending → Pending
  | idle => switch
  | r => r

theorem raise_ne_idle (r : Pending) : r.raise ≠ idle := by
  cases r <;> decide

end Pending

inductive EngineState where
  | notStarted
  | running
  /-- Between the save of one task and the restore of the next. -/
  | switching
deriving DecidableEq

def EngineState.name : EngineState → String
  | notStarted => "NotStarted"
  | running => "Running"
  | switching => "Switching"

/-- What a lock is taken from: a task or an interrupt handler. Each class has its own bit of the
exclusive word, so the two never wait for each other. -/
inductive LockClass where
  | task
  | isr
deriving DecidableEq

namespace LockClass

def bit : LockClass → UInt32
  | task => 0
  | isr => 1

def name : LockClass → String
  | task => "Task"
  | isr => "Isr"

end LockClass

structure Core where
  /-- Open critical sections of the running task. -/
  nesting : UInt32 := Settings.bootNesting
  pending : Pending := .idle
  interruptDepth : UInt32 := 0
  taskLock : UInt32 := 0
  isrLock : UInt32 := 0
  state : EngineState := .notStarted
  /-- Fresh switch requests so far. -/
  requests : UInt32 := 0
  switches : UInt32 := 0
deriving DecidableEq

namespace Core

instance : Inhabited Core := ⟨{}⟩

@[simp] theorem get_reset {n : Nat} (c : Fin n) : (Vector.replicate n ({} : Core)).get c = {} :=
  Vector.getElem_replicate c.isLt

def inInterrupt (c : Core) : Bool := 0 < c.interruptDepth

/-- The lock class of what the core executes right now. -/
def lockClass (c : Core) : LockClass := if c.inInterrupt then .isr else .task

def lockNesting (c : Core) : LockClass → UInt32
  | .task => c.taskLock
  | .isr => c.isrLock

def setLockNesting (c : Core) (d : LockClass) (count : UInt32) : Core :=
  match d with
  | .task => { c with taskLock := count }
  | .isr => { c with isrLock := count }

/-- One more level of the lock of a class. -/
def raiseLock (c : Core) (d : LockClass) : Core := c.setLockNesting d (c.lockNesting d + 1)

/-- One level less of the lock of a class. -/
def lowerLock (c : Core) (d : LockClass) : Core := c.setLockNesting d (c.lockNesting d - 1)

@[simp] theorem lockNesting_setLockNesting (c : Core) (d e : LockClass) (count : UInt32) :
    (c.setLockNesting d count).lockNesting e = if d = e then count else c.lockNesting e := by
  cases d <;> cases e <;> rfl

theorem lockNesting_raiseLock (c : Core) (d e : LockClass) :
    (c.raiseLock d).lockNesting e =
      if d = e then c.lockNesting e + 1 else c.lockNesting e := by
  by_cases same : d = e <;> simp [raiseLock, same]

theorem lockNesting_lowerLock (c : Core) (d e : LockClass) :
    (c.lowerLock d).lockNesting e =
      if d = e then c.lockNesting e - 1 else c.lockNesting e := by
  by_cases same : d = e <;> simp [lowerLock, same]

@[simp] theorem lockNesting_raiseLock_self (c : Core) (d : LockClass) :
    (c.raiseLock d).lockNesting d = c.lockNesting d + 1 := by
  rw [lockNesting_raiseLock, if_pos rfl]

@[simp] theorem lockNesting_lowerLock_self (c : Core) (d : LockClass) :
    (c.lowerLock d).lockNesting d = c.lockNesting d - 1 := by
  rw [lockNesting_lowerLock, if_pos rfl]

theorem lockNesting_raiseLock_of_ne (c : Core) {d e : LockClass} (apart : e ≠ d) :
    (c.raiseLock d).lockNesting e = c.lockNesting e := by
  rw [lockNesting_raiseLock, if_neg apart.symm]

theorem lockNesting_lowerLock_of_ne (c : Core) {d e : LockClass} (apart : e ≠ d) :
    (c.lowerLock d).lockNesting e = c.lockNesting e := by
  rw [lockNesting_lowerLock, if_neg apart.symm]

/-- Ask for a switch and count the request if it is fresh. -/
def request (c : Core) : Core :=
  if c.pending = .idle then
    { c with pending := .switch, requests := c.requests + 1 }
  else c

theorem request_pending (c : Core) : c.request.pending = c.pending.raise := by
  unfold request
  split
  · rename_i h; simp [h, Pending.raise]
  · rename_i h
    cases hp : c.pending with
    | idle => exact absurd hp h
    | switch => rfl
    | firstTask => rfl

def countSwitch (c : Core) : Core := { c with switches := c.switches + 1 }

end Core

end Preempt
