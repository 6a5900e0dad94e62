import Preempt.Nesting

/-!
Exclusion between cores. A spin lock is one bit of the exclusive word, tried until it is won. The
recursive lock adds a count per core and lock class: the bit is taken by the first acquire of a core
and given up by its last release, and interrupts are masked while the count changes. An acquire goes
through phases, with one shared access for each turn.
-/

namespace Preempt

/-- Try until `attempt` succeeds, with a wait after each failure, at most `tries` times. -/
def spin {m : Type → Type} [Monad m] (attempt : m Bool) (wait giveUp : m Unit) : Nat → m Unit
  | 0 => giveUp
  | k + 1 => do
    if ← attempt then return ()
    wait
    spin attempt wait giveUp k

inductive LockCall where
  | acquire (d : LockClass)
  | release (d : LockClass)
deriving DecidableEq

def LockCall.lockClass : LockCall → LockClass
  | acquire d | release d => d

@[simp] theorem LockCall.lockClass_acquire (d : LockClass) : (acquire d).lockClass = d := rfl

@[simp] theorem LockCall.lockClass_release (d : LockClass) : (release d).lockClass = d := rfl

/-- How far a core is with a call, and whether the call found interrupts enabled. -/
inductive Phase where
  | outside
  /-- Between two attempts. -/
  | trying (d : LockClass) (wasEnabled : Bool)
  /-- The bit is won and not yet counted. -/
  | counting (d : LockClass) (wasEnabled : Bool)
deriving DecidableEq

namespace Board

variable {n : Nat} {α : Type} {m : Type → Type}

/-- Take a spin lock. Every wait uses up some of what the machine has left, so that the bound on
the tries is never what ends the loop. -/
def lock (bit : UInt32) : BoardM n Unit := do
  let waits := (← machineOf).waits
  spin (testAndSet bit) snooze (throw (.deadlock Machine.fullPatience)) (waits + 1)

def unlock (bit : UInt32) : BoardM n Unit := clear bit

/-- Release one level of the recursive lock. A release without an acquire halts. -/
def release (c : Fin n) (d : LockClass) : BoardM n Unit := do
  let wasEnabled ← saveMask
  let held := (← core c).lockNesting d
  if held = 0 then fatal .unheldLockRelease
  else
    onCore c (·.lowerLock d)
    if held = 1 then unlock d.bit
    restoreMask wasEnabled

/-- Count one level and leave the call. -/
def countLevel (c : Fin n) (d : LockClass) (wasEnabled : Bool) : BoardM n Phase := do
  onCore c (·.raiseLock d)
  restoreMask wasEnabled
  return .outside

/-- Only the first level of a core needs the bit. -/
def beginCall (c : Fin n) : LockCall → BoardM n Phase
  | .acquire d => do
    let wasEnabled ← saveMask
    if (← core c).lockNesting d = 0 then return .trying d wasEnabled
    else countLevel c d wasEnabled
  | .release d => do
    release c d
    return .outside

def proceed (c : Fin n) : Phase → BoardM n Phase
  | .outside => return .outside
  | .trying d wasEnabled => do
    if ← testAndSet d.bit then return .counting d wasEnabled
    else
      snooze
      return .trying d wasEnabled
  | .counting d wasEnabled => countLevel c d wasEnabled

/-- Go on with a call until it is through, for at most as many turns. -/
def proceedWithin (c : Fin n) : (turns : Nat) → Phase → BoardM n Unit
  | 0, phase => if phase = .outside then return () else throw (.deadlock Machine.fullPatience)
  | turns + 1, phase => do
    if phase = .outside then return ()
    else proceedWithin c turns (← proceed c phase)

/-- Go on with a call until it is through, with nobody getting between. As with a spin lock, the
bound on the turns never ends the loop (`complete_trying`). -/
def complete (c : Fin n) (phase : Phase) : BoardM n Unit := do
  proceedWithin c ((← machineOf).waits + 2) phase

/-- Acquire the recursive lock of a class for a core. -/
def acquire (c : Fin n) (d : LockClass) : BoardM n Unit := do
  complete c (← beginCall c (.acquire d))

def withLock [Monad m] [MonadLiftT (BoardM n) m] (c : Fin n) (d : LockClass) (body : m α) :
    m α := do
  (acquire c d : BoardM n Unit)
  let result ← body
  (release c d : BoardM n Unit)
  return result

/-- Run `body` as an interrupt handler may: interrupts masked and, with more than one core, the
interrupt handlers' lock held. -/
def guarded [Monad m] [MonadLiftT (BoardM n) m] (c : Fin n) (body : m α) : m α :=
  withMask n (if 1 < n then withLock c .isr body else body)

theorem proceedWithin_outside (c : Fin n) (turns : Nat) :
    proceedWithin c turns .outside = return () := by
  cases turns <;> rfl

theorem proceedWithin_counting (c : Fin n) (d : LockClass) (wasEnabled : Bool) (turns : Nat) :
    proceedWithin c (turns + 1) (.counting d wasEnabled) = (do
      onCore c (·.raiseLock d)
      restoreMask wasEnabled : BoardM n Unit) := by
  have inside : Phase.counting d wasEnabled ≠ .outside := nofun
  simp only [proceedWithin, inside, if_false, proceed, countLevel, bind_assoc, pure_bind,
    proceedWithin_outside]
  cases wasEnabled <;> rfl

/-- Every lost attempt uses up one of the waits that the machine has left, so the loop ends before
its bound does. -/
theorem proceedWithin_trying (c : Fin n) (d : LockClass) (wasEnabled : Bool) {turns : Nat}
    {b : Board n} (enough : b.machine.waits ≤ turns) :
    proceedWithin c (turns + 2) (.trying d wasEnabled) b = (do
      spin (testAndSet d.bit) snooze (throw (.deadlock Machine.fullPatience)) (turns + 1)
      onCore c (·.raiseLock d)
      restoreMask wasEnabled : BoardM n Unit) b := by
  have inside : Phase.trying d wasEnabled ≠ .outside := nofun
  induction turns using Nat.strongRecOn generalizing b with
  | ind turns ih =>
    obtain ⟨won, tried, attempted, waits⟩ : ∃ won tried, testAndSet d.bit b = .ok won tried ∧
        tried.machine.waits = b.machine.waits := ⟨_, _, rfl, rfl⟩
    rw [proceedWithin, if_neg inside]
    cases won with
    | true =>
      simp only [proceed, spin, Action.bind_run, attempted, if_true, Action.pure_run,
        proceedWithin_counting]
    | false =>
      simp only [proceed, spin, Action.bind_run, attempted, Bool.false_eq_true, if_false,
        snooze_run, Action.pure_run]
      cases stuck : tried.machine.snooze.isStuck with
      | true => rfl
      | false =>
        have left : tried.machine.snooze.waits ≠ 0 := by
          rw [ne_eq, ← Machine.isStuck_iff_waits, stuck]
          exact Bool.false_ne_true
        rw [Machine.waits_snooze, waits] at left
        obtain ⟨fewer, rfl⟩ : ∃ fewer, turns = fewer + 1 := ⟨turns - 1, by omega⟩
        refine ih fewer (Nat.lt_succ_self fewer) ?_
        rw [Machine.waits_snooze, waits]
        omega

/-- A core that needs the bit takes the spin lock, and counts. -/
theorem complete_trying (c : Fin n) (d : LockClass) (wasEnabled : Bool) :
    complete c (.trying d wasEnabled) = (do
      lock d.bit
      onCore c (·.raiseLock d)
      restoreMask wasEnabled : BoardM n Unit) := by
  funext b
  exact proceedWithin_trying c d wasEnabled (Nat.le_refl b.machine.waits)

/-- Only the first level touches the bit. -/
theorem acquire_eq (c : Fin n) (d : LockClass) : acquire c d = (do
    let wasEnabled ← saveMask
    if (← core c).lockNesting d = 0 then lock d.bit
    onCore c (·.raiseLock d)
    restoreMask wasEnabled : BoardM n Unit) := by
  funext b
  simp only [acquire, beginCall, Action.bind_run, saveMask_run, core]
  by_cases first : (b.cores.get c).lockNesting d = 0
  · simp only [first, if_true, Action.pure_run, complete_trying, Action.bind_run]
  · simp only [first, if_false, countLevel]
    cases b.machine.isEnabled <;> rfl

theorem release_run_unheld (c : Fin n) (d : LockClass) (b : Board n)
    (unheld : (b.cores.get c).lockNesting d = 0) :
    release c d b = .error (.violation .unheldLockRelease) { b with
      trace := b.trace.push .disable
      machine := b.machine.setEnabled false } := by
  simp only [release, Action.bind_run, saveMask_run, core, unheld, if_true]
  rfl

end Board

/-- An exclusive bit that answers busy a given number of times. -/
structure BusyBit where
  busy : Nat
  tries : Nat := 0
  trace : Trace := #[]

namespace BusyBit

def attempt : StateM BusyBit Bool := fun s =>
  (s.busy = 0, { s with busy := s.busy - 1, tries := s.tries + 1 })

/-- Lock and unlock. Waiting leaves no record here. -/
def lockUnlock (bit : UInt32) : StateM BusyBit Unit := do
  let s ← get
  spin attempt (pure ()) (pure ()) (s.busy + 1)
  modify fun s => { s with trace := s.trace.push (.clear bit) }

/-- The tries that the spin lock makes on a bit that answers busy `busy` times. -/
theorem spin_tries (busy tries extra : Nat) (trace : Trace) :
    (spin attempt (pure ()) (pure ()) (busy + 1 + extra)).run ⟨busy, tries, trace⟩ =
      ((), ⟨0, tries + busy + 1, trace⟩) := by
  induction busy generalizing tries with
  | zero =>
    rw [show 0 + 1 + extra = extra + 1 by omega]
    rfl
  | succ busy ih =>
    have failed : (spin attempt (pure ()) (pure ()) (busy + 1 + extra + 1)).run
        ⟨busy + 1, tries, trace⟩ =
      (spin attempt (pure ()) (pure ()) (busy + 1 + extra)).run ⟨busy, tries + 1, trace⟩ := rfl
    rw [show busy + 1 + 1 + extra = busy + 1 + extra + 1 by omega, failed, ih,
      show tries + 1 + busy + 1 = tries + (busy + 1) + 1 by omega]

end BusyBit

end Preempt
