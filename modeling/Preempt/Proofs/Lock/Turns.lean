import Mathlib.Data.Nat.Bitwise
import Preempt.Lock

/-!
The turns of the recursive lock. Each turn of a core is run out, from a board on which other cores
have taken turns before.
-/

namespace Preempt

namespace Machine

variable {n : Nat}

theorem toNat_bitWord (d : LockClass) : (bitWord d.bit).toNat = 2 ^ d.bit.toNat := by
  cases d <;> rfl

theorem isHeld_eq_testBit (m : Machine n) (d : LockClass) :
    m.isHeld d.bit = m.exclusive.toNat.testBit d.bit.toNat := by
  have masked : (m.exclusive &&& bitWord d.bit).toNat =
      (m.exclusive.toNat.testBit d.bit.toNat).toNat * 2 ^ d.bit.toNat := by
    rw [UInt32.toNat_and, toNat_bitWord, Nat.and_two_pow]
  rw [isHeld, Bool.eq_iff_iff, bne_iff_ne, ne_eq, ← UInt32.toNat_inj, masked]
  cases m.exclusive.toNat.testBit d.bit.toNat <;> simp

/-- The two classes have different bits. -/
theorem bit_toNat_inj (d e : LockClass) : d.bit.toNat = e.bit.toNat ↔ d = e := by
  cases d <;> cases e <;> decide

theorem isHeld_setBit (m : Machine n) (d e : LockClass) :
    (m.setBit d.bit).isHeld e.bit = (m.isHeld e.bit || decide (d = e)) := by
  simp only [isHeld_eq_testBit, setBit, UInt32.toNat_or, Nat.testBit_or, toNat_bitWord,
    Nat.testBit_two_pow, bit_toNat_inj]

theorem isHeld_clearBit (m : Machine n) (d e : LockClass) :
    (m.clearBit d.bit).isHeld e.bit = (m.isHeld e.bit && !decide (d = e)) := by
  have complement : (~~~bitWord d.bit).toNat.testBit e.bit.toNat = !decide (d = e) := by
    cases d <;> cases e <;> decide
  simp only [isHeld_eq_testBit, clearBit, UInt32.toNat_and, Nat.testBit_and, complement]

theorem isHeld_setBit_of_ne (m : Machine n) {d e : LockClass} (apart : e ≠ d) :
    (m.setBit d.bit).isHeld e.bit = m.isHeld e.bit := by
  rw [isHeld_setBit, decide_eq_false apart.symm, Bool.or_false]

theorem isHeld_clearBit_of_ne (m : Machine n) {d e : LockClass} (apart : e ≠ d) :
    (m.clearBit d.bit).isHeld e.bit = m.isHeld e.bit := by
  rw [isHeld_clearBit, decide_eq_false apart.symm, Bool.not_false, Bool.and_true]

/-- The machine when it is the turn of `core`. Other cores take turns while it waits, so nothing has
to be promised and no wait is the last. -/
def turnOf (m : Machine n) (core : Fin n) : Machine n :=
  { m with executing := core, promise := none, patience := fullPatience }

end Machine

namespace Board

variable {n : Nat} {c : Fin n} {d : LockClass} {b : Board n}

theorem restoreMask_masked (b : Board n) (trace : Trace) (m : Machine n) (cores : Vector Core n) :
    ∃ trace', restoreMask m.isEnabled { b with trace, machine := m.setEnabled false, cores } =
      .ok () { b with trace := trace', machine := m, cores } := by
  have restored := Machine.mask_restored m
  cases on : m.isEnabled with
  | true =>
    rw [on, if_pos rfl] at restored
    exact ⟨trace.push .enable, by simp only [restoreMask_run, if_true, enable_run, restored]⟩
  | false =>
    rw [on, if_neg (by decide)] at restored
    exact ⟨trace, by simp only [restoreMask_run, Bool.false_eq_true, if_false, restored]⟩

theorem beginCall_run_first (unheld : (b.cores.get c).lockNesting d = 0) :
    ∃ trace, beginCall c (.acquire d) b = .ok (.trying d b.machine.isEnabled)
      { b with trace, machine := b.machine.setEnabled false } := by
  refine ⟨b.trace.push .disable, ?_⟩
  simp only [beginCall, Action.bind_run, saveMask_run, core, unheld, if_true, Action.pure_run]

/-- A nested acquire neither tries nor waits. -/
theorem beginCall_run_nested (held : (b.cores.get c).lockNesting d ≠ 0) :
    ∃ trace, beginCall c (.acquire d) b = .ok .outside
      { b with trace, cores := b.cores.put c ((b.cores.get c).raiseLock d) } := by
  obtain ⟨trace, restored⟩ := restoreMask_masked b (b.trace.push .disable) b.machine
    (b.cores.put c ((b.cores.get c).raiseLock d))
  refine ⟨trace, ?_⟩
  simp only [beginCall, Action.bind_run, saveMask_run, core, held, if_false, countLevel, onCore,
    restored, Action.pure_run]

theorem release_run_last (last : (b.cores.get c).lockNesting d = 1) :
    ∃ trace, release c d b = .ok () { b with
      trace
      machine := b.machine.clearBit d.bit
      cores := b.cores.put c ((b.cores.get c).lowerLock d) } := by
  obtain ⟨trace, restored⟩ := restoreMask_masked b ((b.trace.push .disable).push (.clear d.bit))
    (b.machine.clearBit d.bit) (b.cores.put c ((b.cores.get c).lowerLock d))
  refine ⟨trace, ?_⟩
  have held : (1 : UInt32) ≠ 0 := by decide
  simp only [release, Action.bind_run, saveMask_run, core, last, held, if_true, if_false, onCore,
    unlock, clear_run]
  exact restored

theorem release_run_inner (held : (b.cores.get c).lockNesting d ≠ 0)
    (inner : (b.cores.get c).lockNesting d ≠ 1) :
    ∃ trace, release c d b = .ok ()
      { b with trace, cores := b.cores.put c ((b.cores.get c).lowerLock d) } := by
  obtain ⟨trace, restored⟩ := restoreMask_masked b (b.trace.push .disable) b.machine
    (b.cores.put c ((b.cores.get c).lowerLock d))
  refine ⟨trace, ?_⟩
  simp only [release, Action.bind_run, saveMask_run, core, held, inner, if_false, onCore]
  exact restored

theorem proceed_run_won (wasEnabled : Bool) (free : b.machine.isHeld d.bit = false) :
    ∃ trace, proceed c (.trying d wasEnabled) b = .ok (.counting d wasEnabled)
      { b with trace, machine := b.machine.setBit d.bit } := by
  refine ⟨b.trace.push (.testAndSet d.bit true), ?_⟩
  simp only [proceed, Action.bind_run, testAndSet_run, free, Bool.not_false, if_true,
    Action.pure_run]

/-- A failed attempt sets a bit that is set already, and waits once. -/
theorem proceed_run_lost (wasEnabled : Bool) (busy : b.machine.isHeld d.bit = true)
    (waits : ((b.machine.setBit d.bit).snooze).isStuck = false) :
    ∃ trace, proceed c (.trying d wasEnabled) b = .ok (.trying d wasEnabled)
      { b with trace, machine := (b.machine.setBit d.bit).snooze } := by
  refine ⟨(b.trace.push (.testAndSet d.bit false)).push .snooze, ?_⟩
  simp only [proceed, Action.bind_run, testAndSet_run, busy, Bool.not_true, Bool.false_eq_true,
    if_false, snooze_run, waits, Action.pure_run]

theorem proceed_run_counting (wasEnabled : Bool) :
    ∃ trace, proceed c (.counting d wasEnabled) b = .ok .outside { b with
      trace
      machine := if wasEnabled then b.machine.setEnabled true else b.machine
      cores := b.cores.put c ((b.cores.get c).raiseLock d) } := by
  cases wasEnabled with
  | true => exact ⟨b.trace.push .enable, rfl⟩
  | false => exact ⟨b.trace, rfl⟩

end Board

end Preempt
