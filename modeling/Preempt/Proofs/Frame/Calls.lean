import Preempt.Proofs.Calls
import Preempt.Proofs.Frame.Saving

/-!
The calls of the kernel layer on cores with register files. Those that end in the switch engine
apart, they leave every stack, every register and every queue alone.
-/

namespace Preempt

open Preempt.Action

variable {layout : Layout} {n : Nat}

/-- The stacks, the registers, the queues and the engines are left alone. -/
structure Kernel.Quiet (k k' : Kernel (RegisterFile layout n) n) : Prop where
  board : k.board.Steady k'.board
  queues : k'.scheduler.queues = k.scheduler.queues
  reenters : k'.scheduler.reenters = k.scheduler.reenters
  tasks : k'.storage.tasks = k.storage.tasks
  registers : k'.storage.context.registers = k.storage.context.registers
  sp : k'.storage.context.sp = k.storage.context.sp

namespace Kernel

variable {α : Type}

instance : IsPreorder (Kernel (RegisterFile layout n) n) Quiet where
  refl _ := ⟨refl _, rfl, rfl, rfl, rfl, rfl⟩
  trans _ _ _ first second :=
    ⟨IsTrans.trans _ _ _ first.board second.board, second.queues.trans first.queues,
      second.reenters.trans first.reenters, second.tasks.trans first.tasks,
      second.registers.trans first.registers, second.sp.trans first.sp⟩

theorem quiet_onBoard {action : BoardM n α} (steady : Within Board.Steady action) :
    Within Quiet (onBoard action : KernelM (RegisterFile layout n) n α) := by
  intro k
  have ended := steady k.board
  unfold onBoard
  cases ran : action k.board <;> rw [ran] at ended <;> exact ⟨ended, rfl, rfl, rfl, rfl, rfl⟩

theorem quiet_pendTrap (core : CoreId) :
    Within Quiet (pendTrap core : KernelM (RegisterFile layout n) n Unit) := by
  refine (quiet_onBoard (Board.steady_emit _)).bind fun _ k => ?_
  by_cases known : core < n
  · simp only [SwitchPrimitives.pend, RegisterFile.pend, onStorage, Storage.onContext, known,
      dif_pos]
    exact ⟨refl _, rfl, rfl, rfl, rfl, rfl⟩
  · simp only [SwitchPrimitives.pend, RegisterFile.pend, onStorage, Storage.onContext, known,
      dif_neg, not_false_eq_true]
    exact ⟨refl _, rfl, rfl, rfl, rfl, rfl⟩

theorem quiet_countTick :
    Within Quiet (countTick : KernelM (RegisterFile layout n) n Bool) := by
  refine (quiet_onBoard Board.steady_machineOf).bind fun m =>
    (quiet_onBoard (Board.steady_emit _)).bind fun _ => Within.bind (fun k => ?_) fun _ =>
      within_get.bind fun _ => within_pure _
  exact ⟨refl _, rfl, rfl, rfl, rfl, rfl⟩

theorem quiet_guarded (c : Fin n) {body : KernelM (RegisterFile layout n) n α}
    (quiet : Within Quiet body) : Within Quiet (Board.guarded c body) := by
  refine (quiet_onBoard Board.steady_saveMask).bind fun wasEnabled => Within.bind ?_ fun _ =>
    (quiet_onBoard (Board.steady_restoreMask wasEnabled)).bind fun _ => within_pure _
  exact within_ite ((quiet_onBoard (Board.steady_acquire c .isr)).bind fun _ => quiet.bind fun _ =>
    (quiet_onBoard (Board.steady_release c .isr)).bind fun _ => within_pure _) quiet

theorem quiet_onTick : Within Quiet (onTick : KernelM (RegisterFile layout n) n Arrival) := by
  rw [onTick_eq]
  refine (quiet_onBoard Board.steady_executingCore).bind fun c =>
    (quiet_onBoard Board.steady_acknowledge).bind fun arrival =>
      (quiet_guarded c quiet_countTick).bind fun due => ?_
  have logs := (@quiet_onBoard layout n _ _ (Board.steady_log (.tick c due))).bind
    fun _ => within_pure arrival
  exact within_ite ((quiet_onBoard (Board.steady_requestSwitch c)).bind fun _ => logs) logs

theorem steady_onIpi : Within (Board.Steady (n := n)) onIpi := by
  rw [onIpi_eq]
  exact Board.steady_executingCore.bind fun c =>
    (Board.steady_guarded c ((Board.steady_requestSwitch c).bind fun _ =>
      Board.steady_clearIpi)).bind fun _ => (Board.steady_core c).bind fun _ => Board.steady_log _

theorem quiet_yield : Within Quiet (yield : KernelM (RegisterFile layout n) n Unit) :=
  (quiet_onBoard Board.steady_ownId).bind fun _ => quiet_pendTrap _

theorem quiet_yieldTo (target : CoreId) :
    Within Quiet (yieldTo target : KernelM (RegisterFile layout n) n (Except Refusal Unit)) := by
  refine within_ite ((quiet_onBoard Board.steady_ownId).bind fun me => ?_) (within_pure _)
  exact within_ite (quiet_yield.bind fun _ => within_pure _)
    ((quiet_onBoard (Board.steady_log _)).bind fun _ =>
      (quiet_onBoard (Board.steady_sendIpi target)).bind fun _ => within_pure _)

theorem quiet_endInterruptHandingOn :
    Within Quiet (endInterruptHandingOn : KernelM (RegisterFile layout n) n Bool) := by
  refine (quiet_onBoard Board.steady_executingCore).bind fun c =>
    (quiet_onBoard (Board.steady_leaveInterrupt c)).bind fun outermost =>
      within_ite (fun k => ?_) (within_pure _)
  have taken := quiet_onBoard (Board.steady_takePending c) k
  simp only [bind_run, onBoard, Board.takePending_run, ending] at taken ⊢
  cases pending : (k.board.cores.get c).pending with
  | idle => exact taken
  | switch =>
    refine IsTrans.trans _ _ _ taken ?_
    exact ((quiet_pendTrap c).bind fun _ => within_pure _) _
  | firstTask =>
    let idle : Core := { k.board.cores.get c with pending := .idle }
    change k.Quiet { k with board := { k.board with
      cores := (k.board.cores.put c idle).put c
        { (k.board.cores.put c idle).get c with pending := .firstTask } } }
    have back : { idle with pending := .firstTask } = k.board.cores.get c := by
      rw [← pending]
    rw [Vector.get_put_self, Vector.put_put, back, Vector.put_get]
    exact refl k

/-- A task is set up at rest, in its own stack. -/
theorem createLinear_run {k : Kernel (RegisterFile layout n) n} {task : TaskId}
    (entry argument : Word) (sound : layout.Sound)
    (large : layout.words + 1 ≤ k.storage.tasks.stackSize task) :
    ∃ base trace ts, createLinear task entry argument k = .ok (.ok ())
        { k with board := { k.board with trace }, storage := { k.storage with tasks := ts } } ∧
      layout.Rests ts task (layout.initialSnapshot k.storage.tasks task entry argument) base ∧
      k.storage.tasks.Touched ts task base layout.words := by
  obtain ⟨base, top, ts, prepared, rested, touched⟩ :=
    Layout.prepare_run entry argument sound large
  refine ⟨base, k.board.trace.push (.log (.initialFrame layout.name top)), ts, ?_, rested, touched⟩
  simp only [createLinear, bind_run, onStorage, Storage.onTasks, prepared, onBoard, Board.log,
    Board.emit, pure_run]

theorem createLinear_run_refused {k : Kernel (RegisterFile layout n) n} {task : TaskId}
    (entry argument : Word) (small : k.storage.tasks.stackSize task < layout.words + 1) :
    createLinear task entry argument k = .ok (.error
      (.stackTooSmall (layout.words + 1) (k.storage.tasks.stackSize task))) k := by
  simp only [createLinear, bind_run, onStorage, Storage.onTasks,
    Layout.prepare_run_refused entry argument small, pure_run]

variable {c : Fin n}

/-- The end of any other interrupt takes nothing. -/
theorem quiet_endInterrupt_inner {k : Kernel (RegisterFile layout n) n}
    (known : k.board.machine.identity = none) (mine : k.board.machine.executing = c)
    (inner : (k.board.cores.get c).interruptDepth ≠ 1) :
    k.Quiet (ending (endInterrupt k)) ∧
      ∀ answer k', endInterrupt k = .ok answer k' → answer = none := by
  by_cases zero : (k.board.cores.get c).interruptDepth = 0
  · rw [endInterrupt_run_zero known mine zero]
    exact ⟨refl k, by simp⟩
  · have left := quiet_onBoard (Board.steady_leaveInterrupt c) k
    simp only [onBoard, Board.leaveInterrupt_run zero] at left
    rw [endInterrupt_run_inner known mine zero inner]
    refine ⟨left, fun answer k' same => ?_⟩
    cases same
    rfl

end Kernel

theorem PortCall.quiet {call : PortCall} (plain : call.isPlain = true) :
    Within Kernel.Quiet
      (call.perform : KernelM (RegisterFile layout n) n (Option Resumption)) := by
  have board {α : Type} {action : BoardM n α} (steady : Within Board.Steady action) :
      Within Kernel.Quiet (do
        let _ ← Kernel.onBoard action
        return none : KernelM (RegisterFile layout n) n (Option Resumption)) :=
    (Kernel.quiet_onBoard steady).bind fun _ => within_pure _
  cases call with
  | start | onTrap | endInterrupt => cases plain
  | stop => exact board (Board.steady_timerStop.bind fun _ => Board.steady_ownId.bind fun _ =>
      Board.steady_log _)
  | enterCritical =>
    exact board (Board.steady_executingCore.bind fun c => Board.steady_enterCritical c)
  | exitCritical =>
    exact board (Board.steady_executingCore.bind fun c => Board.steady_exitCritical c)
  | lock d =>
    refine board ?_
    rw [Kernel.lock_eq]
    exact Board.steady_executingCore.bind fun c => Board.steady_acquire c d
  | unlock d => exact board (Board.steady_executingCore.bind fun c => Board.steady_release c d)
  | lockShared =>
    refine board ?_
    rw [Kernel.lockShared_eq]
    exact Board.steady_executingCore.bind fun c => (Board.steady_core c).bind fun core =>
      (Board.steady_acquire c core.lockClass).bind fun _ => within_pure _
  | yield => exact Kernel.quiet_yield.bind fun _ => within_pure _
  | yieldTo target => exact (Kernel.quiet_yieldTo target).bind fun _ => within_pure _
  | beginInterrupt =>
    exact board (Board.steady_executingCore.bind fun c => Board.steady_enterInterrupt c)
  | onTick => exact Kernel.quiet_onTick.bind fun _ => within_pure _
  | onIpi => exact board Kernel.steady_onIpi
  | endInterruptHandingOn => exact Kernel.quiet_endInterruptHandingOn.bind fun _ => within_pure _

end Preempt
