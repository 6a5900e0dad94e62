import Preempt.Lock

/-!
Serving the tick timer. A firing is cleared before the next compare value is set, so that one in
between is not lost. A tick is late if more than one period is left until the next compare value,
which then lies in the past: the counter has to go all the way around.
-/

namespace Preempt

/-- How a tick was served. -/
inductive Arrival where
  | onTime
  /-- The next compare value had already passed. -/
  | late
deriving DecidableEq

def Arrival.name : Arrival → String
  | onTime => "OnTime"
  | late => "Late"

namespace Board

variable {n : Nat}

def tickClock : BoardM n TickClock := fun b => .ok b.tick b

def countLate : BoardM n Unit := fun b =>
  .ok () { b with tick.lateTicks := b.tick.lateTicks + 1 }

def tickStart : BoardM n Unit := do
  let rate := (← tickClock).rate
  log (.tickStarted rate.tickHz rate.period)
  timerStart rate.period

def tickStop : BoardM n Unit := timerStop

/-- Clear the firing and set up the next tick. A late tick is counted, and halts the core if the
clock is strict. -/
def acknowledge : BoardM n Arrival := do
  clearPending
  let clock ← tickClock
  let period := clock.rate.period
  match ← rearm period with
  | none => return .onTime
  | some remaining =>
    if period < remaining then
      countLate
      log .tickLate
      if clock.strict then throw .tickInPast else return .late
    else return .onTime

end Board

end Preempt
