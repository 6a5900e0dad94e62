import Preempt.Indexed
import Preempt.Tick.Timer
import Preempt.Word

/-!
A machine of `n` cores on one bus. Each core has an interrupt enable and a timer; the exclusive
word and the inter-processor request register are shared. One core executes at a time. What the
other cores do while it waits for a lock is fixed beforehand, as a promise to clear one bit of
the exclusive word at a given wait.
-/

namespace Preempt

/-- Another core's promise to clear `bit` of the exclusive word, after `before` more waits and
during the next one. -/
structure Promise where
  before : Nat
  bit : UInt32
deriving DecidableEq

structure Machine (n : Nat) where
  executing : Fin n
  /-- The number that the executing core reads as its own, if it is not its own. -/
  identity : Option CoreId := none
  enabled : Vector Bool n := Vector.replicate n false
  timers : Vector Timer n := Vector.replicate n {}
  /-- The timers reload on their own, so advancing the compare value tells no time left. -/
  autoReload : Bool := false
  /-- Pending inter-processor interrupts, one bit per core. -/
  ipi : UInt32 := 0
  exclusive : UInt32 := 0
  snoozes : UInt32 := 0
  promise : Option Promise := none
  /-- Waits left before a lock that nobody has promised to release counts as a deadlock. -/
  patience : Nat

namespace Machine

variable {n : Nat}

/-- Waits without a promise that an operation may make, the last of which is its end. -/
def fullPatience : Nat := 4

/-- The word with one bit set. Bit numbers count modulo 32. -/
def bitWord (bit : UInt32) : UInt32 := 1 <<< bit

/-- A machine out of reset: interrupts masked, timers stopped, `core` executing. -/
def reset (core : Fin n) (autoReload : Bool) : Machine n :=
  { executing := core, autoReload, patience := fullPatience }

def ownId (m : Machine n) : CoreId := m.identity.getD m.executing

def isEnabled (m : Machine n) : Bool := m.enabled.get m.executing

def setEnabled (m : Machine n) (on : Bool) : Machine n :=
  { m with enabled := m.enabled.put m.executing on }

def timer (m : Machine n) : Timer := m.timers.get m.executing

def updateTimer (m : Machine n) (f : Timer → Timer) : Machine n :=
  { m with timers := m.timers.put m.executing (f m.timer) }

def isHeld (m : Machine n) (bit : UInt32) : Bool := m.exclusive &&& bitWord bit != 0

def setBit (m : Machine n) (bit : UInt32) : Machine n :=
  { m with exclusive := m.exclusive ||| bitWord bit }

def clearBit (m : Machine n) (bit : UInt32) : Machine n :=
  { m with exclusive := m.exclusive &&& ~~~bitWord bit }

def raiseIpi (m : Machine n) (target : CoreId) : Machine n :=
  { m with ipi := m.ipi ||| bitWord (.ofNat target) }

/-- Acknowledge the requests pending for the executing core. -/
def clearIpi (m : Machine n) : Machine n :=
  { m with ipi := m.ipi &&& ~~~bitWord (.ofNat m.executing) }

/-- One low-power wait. It brings the promised release closer, or else costs patience. -/
def snooze (m : Machine n) : Machine n :=
  let m := { m with snoozes := m.snoozes + 1 }
  match m.promise with
  | some ⟨0, bit⟩ => { m.clearBit bit with promise := none }
  | some ⟨k + 1, bit⟩ => { m with promise := some ⟨k, bit⟩ }
  | none => { m with patience := m.patience - 1 }

/-- Let `bit` be cleared during wait number `snoozes` from here. -/
def promiseRelease (m : Machine n) (snoozes : Nat) (bit : UInt32) : Machine n :=
  { m with promise := some ⟨snoozes - 1, bit⟩ }

/-- No promise is left, and the patience is used up. -/
def isStuck (m : Machine n) : Bool := m.promise.isNone && m.patience = 0

/-- A bound on the waits before the machine is stuck. -/
def waits (m : Machine n) : Nat :=
  (match m.promise with
  | some p => p.before + 1
  | none => 0) + m.patience

def renewPatience (m : Machine n) : Machine n := { m with patience := fullPatience }

theorem waits_snooze (m : Machine n) : m.snooze.waits = m.waits - 1 := by
  unfold snooze waits
  rcases m.promise with _ | ⟨_ | k, bit⟩
  · simp
  · simp [clearBit]
  · simp only
    omega

theorem isStuck_iff_waits (m : Machine n) : m.isStuck = true ↔ m.waits = 0 := by
  unfold isStuck waits
  rcases m.promise with _ | p <;> simp

@[simp] theorem isEnabled_setEnabled (m : Machine n) (on : Bool) :
    (m.setEnabled on).isEnabled = on := by
  simp [isEnabled, setEnabled]

@[simp] theorem setEnabled_setEnabled (m : Machine n) (on on' : Bool) :
    (m.setEnabled on).setEnabled on' = m.setEnabled on' := by
  simp [setEnabled]

@[simp] theorem setEnabled_isEnabled (m : Machine n) : m.setEnabled m.isEnabled = m := by
  simp [setEnabled, isEnabled]

theorem setEnabled_eq_self_iff (m : Machine n) (on : Bool) :
    m.setEnabled on = m ↔ on = m.isEnabled := by
  constructor
  · intro same
    rw [← same, isEnabled_setEnabled]
  · rintro rfl
    exact m.setEnabled_isEnabled

/-- The enable comes back to what it was. -/
theorem mask_restored (m : Machine n) :
    (if m.isEnabled then (m.setEnabled false).setEnabled true else m.setEnabled false) = m := by
  calc _ = m.setEnabled m.isEnabled := by cases m.isEnabled <;> simp
    _ = m := m.setEnabled_isEnabled

@[simp] theorem timer_updateTimer (m : Machine n) (f : Timer → Timer) :
    (m.updateTimer f).timer = f m.timer := by
  simp [timer, updateTimer]

end Machine

end Preempt
