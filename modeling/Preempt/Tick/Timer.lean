/-!
A compare-match timer: a free-running 32-bit counter and a compare value that moves one period
forward at every firing. Nothing reads the counter to rearm, so latency does not build up. All
arithmetic wraps.
-/

namespace Preempt

structure Timer where
  counter : UInt32 := 0
  compare : UInt32 := 0
  pending : Bool := false
  running : Bool := false
deriving DecidableEq

namespace Timer

instance : Inhabited Timer := ⟨{}⟩

/-- Cycles from the counter up to the compare value. -/
def remaining (t : Timer) : UInt32 := t.compare - t.counter

/-- Let the timer fire `period` cycles from now. -/
def start (t : Timer) (period : UInt32) : Timer :=
  { t with compare := t.counter + period, pending := false, running := true }

def stop (t : Timer) : Timer := { t with running := false }

def clearPending (t : Timer) : Timer := { t with pending := false }

/-- Let `cycles` pass. A running timer that meets its compare value becomes pending. -/
def elapse (t : Timer) (cycles : UInt32) : Timer :=
  { t with
    counter := t.counter + cycles
    pending := t.pending || (t.running && t.remaining ≤ cycles) }

/-- Move the compare value one period forward. -/
def rearm (t : Timer) (period : UInt32) : Timer := { t with compare := t.compare + period }

theorem remaining_elapse (t : Timer) (cycles : UInt32) :
    (t.elapse cycles).remaining = t.remaining - cycles := by
  simp only [remaining, elapse, UInt32.sub_eq_add_neg, UInt32.neg_add, UInt32.add_assoc]

theorem elapse_counter (t : Timer) (cycles : UInt32) :
    (t.elapse cycles).counter = t.counter + cycles := rfl

end Timer

end Preempt
