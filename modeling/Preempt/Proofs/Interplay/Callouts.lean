import Preempt.Proofs.Calls

/-!
The calls that leave the kernel layer, each checked where it is made. A check that holds there
changes nothing (`Callouts.checked_switch`, `Callouts.checked_enterFirst`).
-/

namespace Preempt

open Preempt.Action

variable {κ : Type} {n : Nat}

/-- A call that leaves the kernel layer, with the core that it is about. -/
inductive Callout (n : Nat) where
  | tick
  | save (c : Fin n)
  | select (c : Fin n)
  | restore (c : Fin n)
deriving DecidableEq

/-- The same calls, each of which halts where its check fails. -/
def Callouts.checked (x : Callouts κ n) (check : Callout n → Kernel κ n → Bool) (halt : Halt) :
    Callouts κ n where
  tick := fun k => if check .tick k then x.tick k else .error halt k
  save c task nesting depth := fun k =>
    if check (.save c) k then x.save c task nesting depth k else .error halt k
  select c := fun k => if check (.select c) k then x.select c k else .error halt k
  restore c task depth := fun k =>
    if check (.restore c) k then x.restore c task depth k else .error halt k

namespace Kernel

/-- Selecting goes on to the next task. -/
structure TakesTurns (k : Kernel κ n) : Prop where
  stays : k.scheduler.stays = false
  reenters : k.scheduler.reenters = false

variable [SwitchPrimitives κ] {k : Kernel κ n} {c : Fin n}

/-- A switch of a core that runs a task, by a scheduler that goes on to the next one. -/
theorem switch_run (running : (k.board.cores.get c).state = .running) (turns : k.TakesTurns)
    (depth : TrapDepth) : switch c depth k =
      match SwitchPrimitives.save c (k.scheduler.current c) (k.board.cores.get c).nesting depth
        k.storage with
      | .error e storage => .error e { k with
          board := (k.board.engaged c).shows
            (.save c (k.scheduler.current c) (k.board.cores.get c).nesting depth)
          storage }
      | .ok _ storage => (do
          let r ← resume c ((k.scheduler.rotate c).current c) depth
          onBoard fun b => .ok () (b.switched c (k.scheduler.current c)
            ((k.scheduler.rotate c).current c) depth)
          return r : KernelM κ n Resumption) { k with
            board := ((k.board.engaged c).shows
              (.save c (k.scheduler.current c) (k.board.cores.get c).nesting depth)).shows
                (.select c)
            storage
            scheduler := k.scheduler.rotate c } := by
  rw [switch, Callouts.switch_engages .own running, bind_run]
  simp only [Callouts.own, callouts_save, callouts_select, callouts_resume, save_run]
  cases SwitchPrimitives.save c (k.scheduler.current c) (k.board.cores.get c).nesting depth
      k.storage with
  | error e storage => rfl
  | ok u storage =>
    simp only
    rw [bind_ok (select_run c { k with
      board := (k.board.engaged c).shows
        (.save c (k.scheduler.current c) (k.board.cores.get c).nesting depth)
      storage } turns.stays turns.reenters)]
    rfl

end Kernel

namespace Callouts

variable {check : Callout n → Kernel κ n → Bool} {halt : Halt} {k : Kernel κ n} {c : Fin n}

/-- The check holds in every state with the machine and the cores of the board. -/
def Passes (check : Callout n → Kernel κ n → Bool) (o : Callout n) (b : Board n) : Prop :=
  ∀ k : Kernel κ n, k.board.machine = b.machine → k.board.cores = b.cores → check o k = true

variable [SwitchPrimitives κ]

theorem checked_resume (passes : Passes check (.restore c) k.board) (task : TaskId)
    (depth : TrapDepth) :
    (own.checked check halt).resume c task depth k = Kernel.resume c task depth k := by
  have same : (own.checked check halt).restore c task depth k = own.restore c task depth k :=
    if_pos (passes k rfl rfl)
  rw [Kernel.resume, resume, resume, bind_run, bind_run, same]

theorem checked_enterFirst
    (passes : Passes check (.restore c) (k.board.entering c (k.scheduler.current c)))
    (depth : TrapDepth) :
    (own.checked check halt).enterFirst c depth k = Kernel.enterFirst c depth k :=
  checked_resume (k := { k with board := k.board.entering c (k.scheduler.current c) }) passes
    (k.scheduler.current c) depth

theorem checked_switch (turns : k.TakesTurns)
    (passes : (k.board.cores.get c).state = .running → ∀ o, o = .save c ∨ o = .select c ∨
      o = .restore c → Passes check o (k.board.engaged c)) (depth : TrapDepth) :
    (own.checked check halt).switch c depth k = Kernel.switch c depth k := by
  rw [Kernel.switch]
  cases state : (k.board.cores.get c).state with
  | notStarted => rw [switch_run_notStarted _ depth state, switch_run_notStarted _ depth state]
  | switching => rw [switch_run_switching _ depth state, switch_run_switching _ depth state]
  | running =>
    rw [switch_engages _ state, switch_engages _ state]
    have saves : (own.checked check halt).save c (k.scheduler.current c)
        (k.board.cores.get c).nesting depth { k with board := k.board.engaged c } =
          Kernel.save c (k.scheduler.current c) (k.board.cores.get c).nesting depth
            { k with board := k.board.engaged c } :=
      if_pos (passes state _ (.inl rfl) _ rfl rfl)
    have saves_own : (own : Callouts κ n).save c = Kernel.save c := rfl
    rw [bind_run, bind_run, saves, saves_own, Kernel.save_run]
    cases SwitchPrimitives.save c (k.scheduler.current c) (k.board.cores.get c).nesting depth
        k.storage with
    | error e storage => rfl
    | ok u storage =>
      set k₁ : Kernel κ n := { k with
        board := (k.board.engaged c).shows
          (.save c (k.scheduler.current c) (k.board.cores.get c).nesting depth)
        storage }
      have selects : (own.checked check halt).select c k₁ = (own : Callouts κ n).select c k₁ :=
        if_pos (passes state _ (.inr (.inl rfl)) _ rfl rfl)
      have chosen : (own : Callouts κ n).select c k₁ = _ :=
        Kernel.select_run c k₁ turns.stays turns.reenters
      set k₂ : Kernel κ n := { k₁ with
        board := { k₁.board with trace := k₁.board.trace.push (.select c) }
        scheduler := k₁.scheduler.rotate c }
      have restores : (own.checked check halt).resume c (k₂.scheduler.current c) depth k₂ =
          Kernel.resume c (k₂.scheduler.current c) depth k₂ :=
        checked_resume (passes state _ (.inr (.inr rfl))) _ _
      simp only
      rw [bind_ok (selects.trans chosen), bind_ok chosen, bind_ok (current_run _ c),
        bind_ok (current_run _ c), bind_run, bind_run, restores, Kernel.resume]

end Callouts

end Preempt
