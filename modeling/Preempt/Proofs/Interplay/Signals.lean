import Preempt.Proofs.Interplay.Requests

/-!
A yield to another core is not lost. It sets the bit of an inter-processor interrupt and nothing
else; the handler of that interrupt asks for a switch before it clears the bit; and a core that was
asked stays so until its engine runs or it hands the switch on (`PortCall.Outcome.signalled`).
-/

namespace Preempt

open Preempt.Action
open Kernel (onBoard)

variable {κ : Type} {n : Nat} {c : Fin n}

namespace PortCall

variable {call : PortCall} {k k' : Kernel κ n}

/-- No call clears the bit of another core. -/
theorem Outcome.called (outcome : call.Outcome k k' c) (few : n ≤ 32) {d : Fin n} (other : d ≠ c)
    (called : k.board.machine.isCalled d = true) : k'.board.machine.isCalled d = true := by
  cases outcome with
  | advances _ advances => exact advances.board.called few d other called
  | handsOn _ handed => rwa [handed.machine]
  | switches _ _ switched => exact switched.called d called
  | enters _ entered => exact entered.called d called

/-- Nor does it forget what another core is to do. -/
theorem Outcome.pended (outcome : call.Outcome k k' c) {d : Fin n} (other : d ≠ c)
    (pended : (k.board.cores.get d).pending ≠ .idle) : (k'.board.cores.get d).pending ≠ .idle := by
  by_cases starts : call = .start
  · cases outcome with
    | enters _ entered =>
      have called := entered.others d other
      rw [if_pos starts] at called
      exact (congrArg Core.pending called).trans_ne Pending.noConfusion
    | advances calm => exact absurd (.inr (.inl (starts ▸ trivial))) calm
    | handsOn hands => exact absurd hands.1 (by rw [starts]; decide)
    | switches switches =>
      subst starts
      exact absurd switches id
  · rw [(outcome.apart starts other).1]
    exact pended

/-- A core that is called, or asked to do something, stays so until its engine runs or it hands the
switch on. -/
theorem Outcome.signalled (outcome : call.Outcome k k' c) (few : n ≤ 32) {d : Fin n}
    (signalled : k.board.Signalled d) (rests : k'.board.engineSteps d = k.board.engineSteps d)
    (keeps : d = c → ¬call.HandsOn k) : k'.board.Signalled d := by
  by_cases here : d = c
  · subst here
    -- On its own core a signal goes only to the engine, which shows steps then, or to the trap.
    cases outcome with
    | advances _ advances => exact advances.board.signalled signalled
    | handsOn hands => exact absurd hands (keeps rfl)
    | switches _ _ switched =>
      rw [switched.steps, if_pos rfl] at rests
      simp [Kernel.switchSteps] at rests
    | enters _ entered =>
      rw [entered.steps, if_pos rfl] at rests
      simp at rests
  · exact signalled.imp (outcome.called few here) (outcome.pended here)

end PortCall

namespace Machine

/-- With at most 32 cores each has a bit of its own. -/
theorem isCalled_raiseIpi_of_few (few : n ≤ 32) (m : Machine n) (target d : Fin n) :
    (m.raiseIpi target).isCalled d = (m.isCalled d || decide (d = target)) := by
  rw [isCalled_raiseIpi, Nat.mod_eq_of_lt (by omega), Nat.mod_eq_of_lt (by omega)]
  simp [Fin.val_inj, eq_comm]

end Machine

namespace Kernel

variable [SwitchPrimitives κ] {k : Kernel κ n}

theorem yieldTo_run {target : Fin n} (ready : k.board.Ready c) (other : target ≠ c) :
    yieldTo target k = .ok (.ok ()) { k with board := { k.board with
      trace := (k.board.trace.push (.log (.yieldRequest c target))).push (.ipi target)
      machine := k.board.machine.raiseIpi target } } := by
  have own : onBoard Board.ownId k = .ok c.val k := by
    rw [onBoard, Board.ownId]
    simp [bind_run, Board.machineOf, Machine.ownId, ready.known, ready.executing, pure_run]
  have apart : target.val ≠ c.val := fun same => other (Fin.ext same)
  rw [yieldTo, if_pos target.isLt, bind_ok own, if_neg apart]
  rfl

theorem yieldTo_run_invalid {target : CoreId} (unknown : n ≤ target) :
    yieldTo target k = .ok (.error (.invalidCore target)) k := by
  rw [yieldTo, if_neg (Nat.not_lt.mpr unknown)]
  rfl

end Kernel

namespace Interplay

variable [SwitchPrimitives κ] {rule : Interplay κ n → Option (Move n) → Prop}
  {w w' : Interplay κ n} {m : Option (Move n)} {done : Deed → Nat}

theorem Step.called {m : Move n} (step : w.Step (some m) w') (orderly : w.Orderly) (few : n ≤ 32)
    {d : Fin n} (other : d ≠ m.core) (called : w.kernel.board.machine.isCalled d = true) :
    w'.kernel.board.machine.isCalled d = true := by
  cases step with
  | move _ ran =>
    cases orderly.outcome ran with
    | start outcome => exact outcome.called few other called
    | proceed advances => exact advances.board.called few d other called

theorem Step.signalled (step : w.Step m w') (orderly : w.Orderly) (few : n ≤ 32) {d : Fin n}
    (signalled : w.kernel.board.Signalled d) (rests : ¬w.Does w' m d .engage)
    (keeps : ¬w.Does w' m d .handOn) : w'.kernel.board.Signalled d := by
  cases step with
  | aside spares =>
    refine signalled.imp (spares.called d) ?_
    rw [spares.cores]
    exact id
  | @move m stance k allowed ran =>
    cases orderly.outcome ran with
    | @proceed c _ advances =>
      by_cases here : d = c
      · subst here
        exact advances.board.signalled signalled
      · have same := advances.board.others d here
        exact signalled.imp (advances.board.called few d here)
          fun pended => (congrArg Core.pending same).trans_ne pended
    | @start c call _ outcome =>
      refine outcome.signalled few signalled (not_not.mp rests) ?_
      rintro rfl ⟨rfl, outermost, asked⟩
      obtain ⟨_, performed, _⟩ := ran_of_return (f := fun _ => Stance.outside) ran
      obtain ⟨handedOn, handed, _⟩ := ran_of_return (f := fun _ => none) performed
      exact keeps ⟨rfl, (handsOn_iff orderly.known handed).mpr ⟨outermost, asked⟩⟩

theorem Run.signalled (run : Run rule c w done w') (orderly : w.Orderly) (few : n ≤ 32)
    (signalled : w.kernel.board.Signalled c) (rests : done .engage = 0) (keeps : done .handOn = 0) :
    w'.kernel.board.Signalled c := by
  induction run with
  | refl => exact signalled
  | @step done w₁ w₂ m run step _ ih =>
    obtain ⟨restsBefore, rests⟩ := Nat.add_eq_zero_iff.mp rests
    obtain ⟨keepsBefore, keeps⟩ := Nat.add_eq_zero_iff.mp keeps
    refine step.signalled (run.orderly orderly) few (ih restsBefore keepsBefore)
      (fun engages => ?_) fun hands => ?_
    · simp [engages] at rests
    · simp [hands] at keeps

/-- After a yield to another core that core is called, or asked to do something, in every later
state until its engine runs or it hands the switch on. The yield sets the bit of that core and does
nothing else, no move clears the bit of another core, and a yield to a core that the machine lacks
is refused and changes nothing. -/
theorem Reached.yields_kept (few : n ≤ 32) (reached : w.Reached rule) :
    (∀ c target : Fin n, target ≠ c → ∀ w₁, w.Step (some (.start c (.yieldTo target))) w₁ →
      ∀ done w', Run rule target w₁ done w' → done .engage = 0 → done .handOn = 0 →
        w'.kernel.board.machine.isCalled target = true ∨ (w'.core target).pending ≠ .idle) ∧
    (∀ c target : Fin n, target ≠ c → ∃ trace,
      Kernel.yieldTo target (w.turn c) = .ok (.ok ()) { w.turn c with board :=
        { (w.turn c).board with trace, machine := (w.turn c).board.machine.raiseIpi target } } ∧
      ∀ d : Fin n, ((w.turn c).board.machine.raiseIpi target).isCalled d =
        (w.kernel.board.machine.isCalled d || decide (d = target))) ∧
    (∀ m w', w.Step (some m) w' → ∀ d, d ≠ m.core → w.kernel.board.machine.isCalled d = true →
      w'.kernel.board.machine.isCalled d = true) ∧
    ∀ c target, n ≤ target →
      Kernel.yieldTo target (w.turn c) = .ok (.error (.invalidCore target)) (w.turn c) := by
  have orderly := reached.orderly
  have yields {c target : Fin n} (other : target ≠ c) :=
    Kernel.yieldTo_run (ready_turn orderly.known c) other
  refine ⟨fun c target other w₁ step done w' run rests keeps => ?_, fun c target other => ?_,
    fun m w' step d => step.called orderly few, fun c target => Kernel.yieldTo_run_invalid⟩
  · have called : w₁.kernel.board.machine.isCalled target = true := by
      cases step with
      | move _ ran =>
        obtain ⟨_, performed, _⟩ := ran_of_return (f := fun _ => Stance.outside) ran
        obtain ⟨_, yielded, _⟩ := ran_of_return (f := fun _ => none) performed
        cases (yields other).symm.trans yielded
        exact (Machine.isCalled_raiseIpi_of_few few ..).trans (by simp)
    exact run.signalled (step.orderly orderly) few (.inl called) rests keeps
  · exact ⟨_, yields other, Machine.isCalled_raiseIpi_of_few few _ target⟩

omit [SwitchPrimitives κ] in
/-- Core 0 yields to core 1, which answers the interrupt that calls it and has not left it yet. -/
theorem Reached.yields_kept_second_core :
    ∃ w w₁ w' : Interplay (Banks 8 2) 2, w.Reached Once ∧ w.Step (some (.start 0 (.yieldTo 1))) w₁ ∧
      w₁.Step (some (.start 1 .beginInterrupt)) w' ∧
      (w'.kernel.board.machine.isCalled 1 = true ∨ (w'.core 1).pending ≠ .idle) := by
  obtain ⟨w, reached, passes⟩ := Reached.of_twoCores? [.start 0 .start, .start 1 .beginInterrupt,
      .start 1 .onIpi, .proceed 1, .proceed 1, .start 1 .endInterrupt]
    (fun w => (w.make? (.start 0 (.yieldTo 1))).any fun w₁ =>
      (w₁.make? (.start 1 .beginInterrupt)).any fun w' =>
        decide (w'.kernel.board.engineSteps 1 = w₁.kernel.board.engineSteps 1))
    (by decide +kernel)
  obtain ⟨w₁, yields, passes⟩ := (Option.any_eq_true ..).mp passes
  obtain ⟨w', interrupts, passes⟩ := (Option.any_eq_true ..).mp passes
  have rests := of_decide_eq_true passes
  obtain ⟨kept, _⟩ := yields_kept (by decide) reached
  have begins : Run Once 1 w₁ (fun _ => 0) w₁ := .refl
  have run := begins.step (.of_make? interrupts) (.of_make? interrupts)
  exact ⟨w, w₁, w', reached, .of_make? yields, .of_make? interrupts,
    kept 0 1 (by decide) w₁ (.of_make? yields) _ w' run (by simp [Does, rests]) (by simp [Does])⟩

end Interplay

end Preempt
