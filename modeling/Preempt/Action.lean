import Preempt.Fault

/-!
Actions on a state that may halt. The lemmas say what the operators that build actions do when the
action runs from a state, what a list of steps keeps (`Action.foldlM_keeps`), and when two actions
come to the same end (`SameEnd.bind`).
-/

namespace Preempt

namespace Action

variable {ε σ α β : Type}

theorem bind_run (action : EStateM ε σ α) (next : α → EStateM ε σ β) (s : σ) :
    (action >>= next) s =
      match action s with
      | .ok a s => next a s
      | .error e s => .error e s := rfl

theorem bind_ok {action : EStateM ε σ α} {next : α → EStateM ε σ β} {s t : σ} {a : α}
    (ran : action s = .ok a t) : (action >>= next) s = next a t := by
  rw [bind_run, ran]

theorem pure_run (a : α) (s : σ) : (pure a : EStateM ε σ α) s = .ok a s := rfl

theorem get_run (s : σ) : (get : EStateM ε σ σ) s = .ok s s := rfl

theorem modify_run (f : σ → σ) (s : σ) : (modify f : EStateM ε σ Unit) s = .ok () (f s) := rfl

/-- What one step keeps, a list of steps keeps. -/
theorem foldlM_keeps {P : σ → Prop} {step : σ → α → Option σ}
    (keeps : ∀ s a t, step s a = some t → P s → P t) {s t : σ} {as : List α}
    (made : as.foldlM step s = some t) (before : P s) : P t := by
  induction as generalizing s with
  | nil =>
    cases made
    exact before
  | cons a rest ih =>
    rw [List.foldlM_cons] at made
    obtain ⟨next, first, made⟩ := Option.bind_eq_some_iff.mp made
    exact ih made (keeps s a next first before)

end Action

/-- Two runs come to the same end: both complete with one answer, in states that are related, or
both halt for one reason. -/
inductive SameEnd {σ τ α : Type} (related : σ → τ → Prop) :
    EStateM.Result Halt σ α → EStateM.Result Halt τ α → Prop
  | done {a : α} {s : σ} {t : τ} (same : related s t) : SameEnd related (.ok a s) (.ok a t)
  | halts {halt : Halt} {s : σ} {t : τ} : SameEnd related (.error halt s) (.error halt t)

theorem SameEnd.refl {σ α : Type} (x : EStateM.Result Halt σ α) : SameEnd Eq x x := by
  cases x with
  | ok => exact .done rfl
  | error => exact .halts

theorem SameEnd.bind {σ τ α β : Type} {R S : σ → τ → Prop} {x : EStateM Halt σ α}
    {y : EStateM Halt τ α} {f : α → EStateM Halt σ β} {g : α → EStateM Halt τ β} {s : σ} {t : τ}
    (first : SameEnd R (x s) (y t)) (rest : ∀ a s t, R s t → SameEnd S (f a s) (g a t)) :
    SameEnd S ((x >>= f) s) ((y >>= g) t) := by
  rw [Action.bind_run, Action.bind_run]
  generalize x s = r at first
  generalize y t = r' at first
  cases first with
  | done same => exact rest _ _ _ same
  | halts => exact .halts

theorem SameEnd.ok_iff {σ α : Type} {x y : EStateM.Result Halt σ α} {a : α} {s : σ}
    (ends : SameEnd Eq x y) : x = .ok a s ↔ y = .ok a s := by
  cases ends with
  | done same => rw [same]
  | halts => simp

theorem SameEnd.halted {σ τ α : Type} {related : σ → τ → Prop} {x : EStateM.Result Halt σ α}
    {y : EStateM.Result Halt τ α} {halt : Halt} {t : τ} (ends : SameEnd related x y)
    (halted : y = .error halt t) : ∃ s, x = .error halt s := by
  cases ends with
  | done => cases halted
  | halts =>
    cases halted
    exact ⟨_, rfl⟩

end Preempt
