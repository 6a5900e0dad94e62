import Preempt.Board

/-!
What a mask comes back to that is saved and later restored. A call on the interrupt enable either
settles it or leaves it, so that after any calls the last one that settles it has decided
(`performAll_run`). A restore only ever unmasks. It brings the machine back to where it was if
interrupts were enabled before, or else if the calls since the save leave them masked, and in no
other case (`mask_comes_back_iff`).
-/

namespace Preempt

/-- A call on the interrupt enable of the executing core. What is restored may have been saved at
any time, or never. -/
inductive MaskCall where
  | disable
  | enable
  | save
  | restore (wasEnabled : Bool)

namespace MaskCall

/-- The enable after a call that settles it. -/
def settles : MaskCall → Option Bool
  | disable | save => some false
  | enable | restore true => some true
  | restore false => none

/-- The enable after some calls, from the one before them. -/
def settled (calls : List MaskCall) (before : Bool) : Bool :=
  (calls.filterMap settles).getLast?.getD before

@[simp] theorem settled_nil (before : Bool) : settled [] before = before := rfl

@[simp] theorem settled_cons (call : MaskCall) (calls : List MaskCall) (before : Bool) :
    settled (call :: calls) before = settled calls (call.settles.getD before) := by
  cases outcome : call.settles with
  | none => simp [settled, outcome]
  | some on => simp [settled, outcome, List.getLast?_cons]

variable {n : Nat}

def perform : MaskCall → BoardM n Unit
  | disable => Board.disable
  | enable => Board.enable
  | save => do
    let _ ← Board.saveMask
  | restore wasEnabled => Board.restoreMask wasEnabled

def performAll : List MaskCall → BoardM n Unit
  | [] => return
  | call :: calls => do
    perform call
    performAll calls

theorem perform_run (call : MaskCall) (b : Board n) :
    ∃ trace, perform call b = .ok () { b with
      trace
      machine := b.machine.setEnabled (call.settles.getD b.machine.isEnabled) } := by
  cases call with
  | disable => exact ⟨_, rfl⟩
  | enable => exact ⟨_, rfl⟩
  | save => exact ⟨_, rfl⟩
  | restore wasEnabled =>
    cases wasEnabled with
    | true => exact ⟨_, rfl⟩
    | false =>
      refine ⟨b.trace, ?_⟩
      simp only [settles, Option.getD_none, Machine.setEnabled_isEnabled]
      rfl

theorem performAll_run (calls : List MaskCall) (b : Board n) :
    ∃ trace, performAll calls b = .ok () { b with
      trace
      machine := b.machine.setEnabled (settled calls b.machine.isEnabled) } := by
  induction calls generalizing b with
  | nil =>
    refine ⟨b.trace, ?_⟩
    rw [settled_nil, Machine.setEnabled_isEnabled]
    rfl
  | cons call calls ih =>
    obtain ⟨performed, first⟩ := perform_run call b
    obtain ⟨trace, rest⟩ := ih { b with
      trace := performed
      machine := b.machine.setEnabled (call.settles.getD b.machine.isEnabled) }
    simp only [Machine.isEnabled_setEnabled, Machine.setEnabled_setEnabled] at rest
    refine ⟨trace, ?_⟩
    simp only [performAll, Action.bind_run, first, rest, settled_cons]

/-- Save the mask, make some calls and restore what was saved. -/
def between (calls : List MaskCall) : BoardM n Unit := do
  let saved ← Board.saveMask
  performAll calls
  Board.restoreMask saved

theorem between_run (calls : List MaskCall) (b : Board n) :
    ∃ trace, between calls b = .ok () { b with
      trace
      machine := b.machine.setEnabled (b.machine.isEnabled || settled calls false) } := by
  obtain ⟨trace, called⟩ := performAll_run calls
    { b with trace := b.trace.push .disable, machine := b.machine.setEnabled false }
  simp only [Machine.isEnabled_setEnabled, Machine.setEnabled_setEnabled] at called
  simp only [between, Action.bind_run, Board.saveMask_run, called, Board.restoreMask_run]
  cases b.machine.isEnabled with
  | true => exact ⟨trace.push .enable, by simp [Board.enable_run]⟩
  | false => exact ⟨trace, by simp⟩

/-- Whatever the calls are, a restore never fails and touches nothing but the enable. Afterwards
interrupts are enabled if they were before, or if the calls leave them enabled; the machine is back
where it was if interrupts were enabled before, or if the calls leave them masked. -/
theorem mask_comes_back_iff (calls : List MaskCall) (b : Board n) :
    ∃ after, between calls b = .ok () after ∧
      (after.machine.isEnabled = true ↔
        b.machine.isEnabled = true ∨ settled calls false = true) ∧
      (after.machine = b.machine ↔ b.machine.isEnabled = true ∨ settled calls false = false) ∧
      (∀ on, after.machine.setEnabled on = b.machine.setEnabled on) ∧
      after.cores = b.cores ∧ after.tick = b.tick := by
  obtain ⟨trace, ran⟩ := between_run calls b
  refine ⟨_, ran, by simp, ?_, by simp, rfl, rfl⟩
  rw [Machine.setEnabled_eq_self_iff]
  cases b.machine.isEnabled <;> simp

/-- Interrupts that were masked stay enabled if a call between the save and the restore enabled
them. -/
theorem restore_leaves_enabled :
    (Machine.reset (0 : Fin 1) false).isEnabled = false ∧
      ∃ after : Board 1, between [.enable] { machine := .reset 0 false } = .ok () after ∧
        after.machine.isEnabled = true :=
  ⟨rfl, _, rfl, rfl⟩

end MaskCall

end Preempt
