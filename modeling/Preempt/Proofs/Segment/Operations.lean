import Preempt.Kernel.Deletion
import Preempt.Proofs.Engine
import Preempt.Proofs.Segment.Handover

/-!
Runs of the kernel calls that create a task over the pool and give its segments back. Both mask
interrupts while they change the free list, and leave the mask as it was: apart from the trace the
board does not change.
-/

namespace Preempt.Kernel

variable {κ α : Type} {size n : Nat}

theorem withMask_run {action : KernelM κ n α} {a : α} {k : Kernel κ n} {s : Storage κ}
    (ran : ∀ board, action { k with board } = .ok a { k with board, storage := s }) :
    ∃ trace, Board.withMask n action k =
      .ok a { k with board := { k.board with trace }, storage := s } := by
  have masked : (liftM (Board.saveMask : BoardM n Bool) : KernelM κ n Bool) k =
      .ok k.board.machine.isEnabled { k with board := { k.board with
        trace := k.board.trace.push .disable, machine := k.board.machine.setEnabled false } } := rfl
  have lifted (wasEnabled : Bool) (b : Board n) :
      (liftM (Board.restoreMask wasEnabled : BoardM n Unit) : KernelM κ n Unit)
          { k with board := b, storage := s } = .ok ()
        { k with
          board := if wasEnabled
            then { b with trace := b.trace.push .enable, machine := b.machine.setEnabled true }
            else b
          storage := s } := by
    cases wasEnabled <;> rfl
  simp only [Board.withMask, Action.bind_run, masked, ran, lifted, Action.pure_run]
  have machine := Machine.mask_restored k.board.machine
  cases on : k.board.machine.isEnabled with
  | true =>
    simp only [on, if_true] at machine
    refine ⟨(k.board.trace.push .disable).push .enable, ?_⟩
    simp only [if_true, machine]
  | false =>
    simp only [on, Bool.false_eq_true, if_false] at machine
    refine ⟨k.board.trace.push .disable, ?_⟩
    simp only [Bool.false_eq_true, if_false, machine]

theorem onPool_run {action : PoolM size n α} {a : α} {q : Pool size n}
    {k : Kernel (Banks size n) n} (ran : action k.storage.context.pool = .ok a q) :
    onPool action k = .ok a { k with storage := Banks.withPool k.storage q } := by
  simp only [onPool, onStorage, Banks.onPool_run ran]

theorem maskedPool_run {action : PoolM size n α} {a : α} {q : Pool size n}
    {k : Kernel (Banks size n) n} (ran : action k.storage.context.pool = .ok a q) :
    ∃ trace, Board.withMask n (onPool action) k = .ok a
      { k with board := { k.board with trace }, storage := Banks.withPool k.storage q } := by
  have inner (board : Board n) : onPool action { k with board } =
      .ok a { k with board, storage := Banks.withPool k.storage q } := onPool_run ran
  exact withMask_run inner

variable {k : Kernel (Banks size n) n} {task : TaskId} {head tail : Link} {sp : Word}

theorem createAt_run_refused (sp entry argument : Word)
    (refused : Pool.allocatePair k.storage.context.pool =
      .ok (.error .segmentsExhausted) k.storage.context.pool) :
    ∃ trace, createAt sp entry argument k =
      .ok (.error .segmentsExhausted) { k with board := { k.board with trace } } := by
  obtain ⟨trace, ran⟩ := maskedPool_run refused
  refine ⟨trace, ?_⟩
  simp only [createAt, Action.bind_run, ran]
  rfl

/-- Once two segments have been taken and written only the stack of the task can halt. -/
theorem createAt_run {entry argument : Word} {q r : Pool size n}
    (taken : Pool.allocatePair k.storage.context.pool = .ok (.ok (head, tail)) q)
    (written : Pool.writeInitial head tail sp entry argument q = .ok () r) :
    ∃ trace, createAt sp entry argument k =
      match Tasks.pushHead sp head 0 k.storage.tasks with
      | .ok top ts => .ok (.ok top) { k with
          board := { k.board with trace }
          storage := { Banks.withPool k.storage r with tasks := ts } }
      | .error halt ts => .error halt { k with
          board := { k.board with trace }
          storage := { Banks.withPool k.storage r with tasks := ts } } := by
  obtain ⟨trace, ran⟩ := maskedPool_run taken
  have filled (board : Board n) : onPool (Pool.writeInitial head tail sp entry argument)
      { k with board, storage := Banks.withPool k.storage q } = .ok ()
        { k with board, storage := Banks.withPool k.storage r } :=
    onPool_run (k := { k with board, storage := Banks.withPool k.storage q }) written
  cases pushed : Tasks.pushHead sp head 0 k.storage.tasks with
  | ok top ts =>
    refine ⟨trace.push (.log (.initialSegments head tail)), ?_⟩
    simp only [createAt, Action.bind_run, ran, filled, onStorage, Storage.onTasks,
      Banks.tasks_withPool, pushed, onBoard, Board.log, Board.emit, Action.pure_run]
  | error halt ts =>
    refine ⟨trace, ?_⟩
    simp only [createAt, Action.bind_run, ran, filled, onStorage, Storage.onTasks,
      Banks.tasks_withPool, pushed]

theorem createFrom_run_refused (entry argument : Word)
    (refused : Pool.allocatePair k.storage.context.pool =
      .ok (.error .segmentsExhausted) k.storage.context.pool) :
    ∃ trace, createFrom task sp entry argument k =
      .ok (.error .segmentsExhausted) { k with board := { k.board with trace } } := by
  obtain ⟨trace, ran⟩ := createAt_run_refused sp entry argument refused
  refine ⟨trace, ?_⟩
  simp only [createFrom, Action.bind_run, ran, Action.pure_run]

theorem createFrom_run_words (task : TaskId) {entry argument top : Word} {q r : Pool size n}
    {ts : Tasks}
    (taken : Pool.allocatePair k.storage.context.pool = .ok (.ok (head, tail)) q)
    (written : Pool.writeInitial head tail sp entry argument q = .ok () r)
    (pushed : Tasks.pushHead sp head 0 k.storage.tasks = .ok top ts) :
    ∃ trace, createFrom task sp entry argument k = .ok (.ok ())
      { k with
        board := { k.board with trace }
        storage := { Banks.withPool k.storage r with tasks := ts.setTop task top } } := by
  obtain ⟨trace, ran⟩ := createAt_run taken written
  simp only [pushed] at ran
  refine ⟨trace, ?_⟩
  simp only [createFrom, Action.bind_run, ran, onStorage, Storage.setTop, Action.pure_run]

/-- A new task gets two segments and two words of its stack. -/
theorem createFrom_run {entry argument : Word} {q r : Pool size n}
    (taken : Pool.allocatePair k.storage.context.pool = .ok (.ok (head, tail)) q)
    (written : Pool.writeInitial head tail sp entry argument q = .ok () r)
    (room : k.storage.tasks.Room task sp) :
    ∃ trace ts, createFrom task sp entry argument k = .ok (.ok ())
        { k with
          board := { k.board with trace }
          storage := { Banks.withPool k.storage r with tasks := ts } } ∧
      ts.Parks task head 0 ∧
      ∀ other, other ≠ task → ts.list[other]? = k.storage.tasks.list[other]? := by
  obtain ⟨top, ts, pushed, parks, others, _⟩ := Tasks.pushHead_run room head 0
  obtain ⟨trace, ran⟩ := createFrom_run_words task taken written pushed
  refine ⟨trace, ts.setTop task top, ran, parks, fun other apart => ?_⟩
  rw [Tasks.record_setTop _ apart, others other apart]

/-- A chain goes back in one splice, which is logged. -/
theorem freeChain_run {count : Nat} {q r : Pool size n} (present : head.isNull = false)
    (passes : Pool.requireInUse size head.address k.storage.context.pool =
      .ok () k.storage.context.pool)
    (unmarked : Pool.unmarkFrom (size - 1) head.address 1 k.storage.context.pool =
      .ok (tail, count) q)
    (spliced : Pool.splice head.address tail q = .ok () r) :
    ∃ trace : Trace, freeChain head k = .ok () { k with
      board := { k.board with trace := trace.push (.log (.reclaimed count head.address)) }
      storage := Banks.withPool k.storage r } := by
  have passesRun : onPool (Pool.requireInUse size head.address) k = .ok () k := onPool_run passes
  have unmarkedRun := onPool_run unmarked
  obtain ⟨trace, ran⟩ :=
    maskedPool_run (k := { k with storage := Banks.withPool k.storage q }) spliced
  refine ⟨trace, ?_⟩
  simp only [freeChain, Action.bind_run, Link.isNull_address, present, Bool.false_eq_true, if_false,
    passesRun, unmarkedRun, ran]
  rfl

/-- The whole chain of a task goes back. -/
theorem freeTask_run {count : Nat} {q r : Pool size n}
    (saved : Tasks.savedHead task k.storage.tasks = .ok head k.storage.tasks)
    (plain : head.address = head) (notNull : head.isNull = false)
    (passes : Pool.requireInUse size head k.storage.context.pool = .ok () k.storage.context.pool)
    (unmarked : Pool.unmarkFrom (size - 1) head 1 k.storage.context.pool = .ok (tail, count) q)
    (spliced : Pool.splice head tail q = .ok () r) :
    ∃ trace, freeTask task k = .ok ()
      { k with
        board := { k.board with trace }
        storage := Banks.withPool k.storage r } := by
  rw [← plain] at passes unmarked spliced
  obtain ⟨trace, ran⟩ := freeChain_run notNull passes unmarked spliced
  refine ⟨trace.push (.log (.reclaimed count head.address)), ?_⟩
  simp only [freeTask, Action.bind_run, onStorage, Storage.onTasks, saved]
  exact ran

end Preempt.Kernel
