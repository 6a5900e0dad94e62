import Preempt.Fault
import Preempt.Settings

/-!
Clock and tick rate. A rate exists only if it is not zero and does not exceed the clock, so that
its period is at least one cycle (`period_pos`).
-/

namespace Preempt

structure TickRate where
  clockHz : UInt32
  tickHz : UInt32
  tick_pos : 0 < tickHz
  tick_le : tickHz ≤ clockHz

namespace TickRate

/-- The rate for a clock and a tick frequency. Zero is looked for first. -/
def make (clockHz tickHz : UInt32) : Except Halt TickRate :=
  if pos : 0 < tickHz then
    if le : tickHz ≤ clockHz then .ok ⟨clockHz, tickHz, pos, le⟩
    else .error .tickRateAboveClock
  else .error .tickRateZero

def period (r : TickRate) : UInt32 := r.clockHz / r.tickHz

instance : Inhabited TickRate :=
  ⟨⟨Settings.clockHz, Settings.tickHz, by decide, by decide⟩⟩

theorem period_pos (r : TickRate) : 0 < r.period := by
  have pos := r.tick_pos
  have le := r.tick_le
  rw [UInt32.lt_iff_toNat_lt] at pos ⊢
  rw [UInt32.le_iff_toNat_le] at le
  simpa [period, UInt32.toNat_div] using Nat.div_pos le pos

theorem make_eq_ok_iff (clockHz tickHz : UInt32) (r : TickRate) :
    make clockHz tickHz = .ok r ↔ r.clockHz = clockHz ∧ r.tickHz = tickHz := by
  constructor
  · intro made
    unfold make at made
    split at made
    · split at made
      · cases made; exact ⟨rfl, rfl⟩
      · cases made
    · cases made
  · rintro ⟨rfl, rfl⟩
    simp [make, r.tick_pos, r.tick_le]

end TickRate

/-- A tick rate in use, and how often a tick came too late for it. -/
structure TickClock where
  rate : TickRate := default
  lateTicks : UInt32 := 0
  /-- A late tick halts the core. -/
  strict : Bool := true

end Preempt
