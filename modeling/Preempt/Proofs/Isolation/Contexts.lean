import Preempt.Proofs.Frame.Saving
import Preempt.Proofs.Isolation.Calls
import Preempt.Proofs.Segment.Footprint

/-!
What save, restore and the pending of a trap leave of the register state of the other cores and of
the tasks that do not take part. A save writes where the stack pointer of the outgoing task is, so
that has to be in its own stack. A restore over a pool changes one link: the link register of its
core, or the link of a segment on the live chain of that core.
-/

namespace Preempt

open Preempt.Action
open Kernel (PendsOwn)
open Storage

variable {n size : Nat} {c : Fin n} {task : TaskId} {depth : TrapDepth} {nesting : UInt32}

/-! Stacks. -/

theorem Tasks.store_apart {offset : Int} {value : Word} {ts ts' : Tasks} {u : Unit}
    (ran : store (.stack task offset) value ts = .ok u ts') (other : TaskId)
    (apart : other ≠ task) : ts'.list[other]? = ts.list[other]? := by
  unfold store at ran
  split at ran
  · cases ran
    exact record_write ts apart offset value
  · cases ran

theorem Tasks.pushHead_apart {offset : Int} {head : Link} {top : Word} {ts ts' : Tasks}
    (ran : pushHead (.stack task offset) head nesting ts = .ok top ts') (other : TaskId)
    (apart : other ≠ task) : ts'.list[other]? = ts.list[other]? := by
  obtain ⟨_, ts₁, first, ran⟩ := ran_of_bind ran
  obtain ⟨_, ts₂, second, ran⟩ := ran_of_bind ran
  cases ran
  exact (store_apart second other apart).trans (store_apart first other apart)

theorem Tasks.reads_load (address : Word) : Ensures Eq (load address) := by
  intro ts a ts' ran
  unfold load at ran
  split at ran <;> cases ran
  rfl

theorem Tasks.reads_savedHead (task : TaskId) : Ensures Eq (savedHead task) :=
  Ensures.bind (.of_run get_run fun _ => rfl) fun _ => (reads_load _).bind fun _ =>
    ensures_pure _

theorem Tasks.reads_loadBlock (address : Word) (count : Nat) :
    Ensures Eq (loadBlock address count) := by
  induction count generalizing address with
  | zero => exact ensures_pure _
  | succ count ih => exact (reads_load _).bind fun _ => (ih _).bind fun _ => ensures_pure _

/-- A frame that is pushed inside a stack goes to no other. -/
theorem Layout.push_apart {layout : Layout} {offset : Int} {registers : List Word} {top : Word}
    {ts ts' : Tasks} (ran : layout.push (.stack task offset) registers nesting ts = .ok top ts')
    (other : TaskId) (apart : other ≠ task) : ts'.list[other]? = ts.list[other]? := by
  obtain ⟨low, base⟩ : ∃ low, layout.pushBase (.stack task offset) = .stack task low := by
    unfold pushBase
    split <;> exact ⟨_, rfl⟩
  cases imaged : layout.image registers nesting with
  | error halt =>
    simp only [push, imaged] at ran
    cases ran
  | ok values =>
    simp only [push, imaged, base] at ran
    obtain ⟨_, _, stored, ran⟩ := ran_of_bind ran
    cases ran
    exact (Tasks.storeBlock_apart stored).1 other apart

/-! Actions on a part of the storage. -/

namespace Storage

variable {κ α : Type} {s s' : Storage κ} {a : α}

theorem onContext_ran {action : EStateM Halt κ α}
    (ran : (onContext action : StorageM κ α) s = .ok a s') :
    action s.context = .ok a s'.context ∧ s'.tasks = s.tasks := by
  unfold onContext at ran
  split at ran <;> cases ran
  exact ⟨‹_›, rfl⟩

theorem onTasks_ran {action : TasksM α} (ran : (onTasks action : StorageM κ α) s = .ok a s') :
    action s.tasks = .ok a s'.tasks ∧ s'.context = s.context := by
  unfold onTasks at ran
  split at ran <;> cases ran
  exact ⟨‹_›, rfl⟩

end Storage

/-! Register files. -/

namespace RegisterFile

variable {layout : Layout} {s s' : Storage (RegisterFile layout n)}

/-- The register files of the cores other than `c`, and their traps, are as they were. -/
structure Apart (c : Fin n) (f f' : RegisterFile layout n) : Prop where
  registers : ∀ d, d ≠ c → f'.registers.get d = f.registers.get d
  sp : ∀ d, d ≠ c → f'.sp.get d = f.sp.get d
  trapPending : ∀ d, d ≠ c → f'.trapPending.get d = f.trapPending.get d

theorem Apart.refl (f : RegisterFile layout n) : f.Apart c f :=
  ⟨fun _ _ => rfl, fun _ _ => rfl, fun _ _ => rfl⟩

theorem save_keeps {u : Unit} {offset : Int} (own : s.context.sp.get c = .stack task offset)
    (ran : save c task nesting s = .ok u s') : s'.context = s.context ∧
      ∀ other, other ≠ task → s'.tasks.list[other]? = s.tasks.list[other]? := by
  obtain ⟨registers, s₁, read, ran⟩ := ran_of_bind ran
  obtain ⟨read, tasks₁⟩ := onContext_ran read
  simp only [registersOf, c.isLt, dite_true, EStateM.Result.ok.injEq] at read
  obtain ⟨sp, s₂, pointed, ran⟩ := ran_of_bind ran
  obtain ⟨pointed, tasks₂⟩ := onContext_ran pointed
  simp only [stackPointer, c.isLt, dite_true, EStateM.Result.ok.injEq] at pointed
  obtain ⟨top, s₃, pushed, ran⟩ := ran_of_bind ran
  obtain ⟨pushed, context₃⟩ := onTasks_ran pushed
  cases ran
  rw [← pointed.1, ← read.2, own, tasks₂, tasks₁] at pushed
  refine ⟨by rw [context₃, ← pointed.2, ← read.2], fun other apart => ?_⟩
  rw [Tasks.record_setTop _ apart, Layout.push_apart pushed other apart]

theorem restore_keeps {r : Resumption} (ran : restore c task s = .ok r s') :
    s.context.Apart c s'.context ∧ s'.tasks = s.tasks := by
  obtain ⟨top, s₁, read, ran⟩ := ran_of_bind ran
  cases read
  obtain ⟨popped, s₂, pops, ran⟩ := ran_of_bind ran
  obtain ⟨pops, context₂⟩ := onTasks_ran pops
  have tasks₂ : s₂.tasks = s.tasks :=
    (((Tasks.reads_loadBlock _ _).bind fun _ => ensures_pure _) _ _ _ pops).symm
  obtain ⟨registers, s₃, read, ran⟩ := ran_of_bind ran
  obtain ⟨read, tasks₃⟩ := onContext_ran read
  simp only [registersOf, c.isLt, dite_true, EStateM.Result.ok.injEq] at read
  obtain ⟨_, s₄, sets, ran⟩ := ran_of_bind ran
  obtain ⟨sets, tasks₄⟩ := onContext_ran sets
  simp only [setRegisters, c.isLt, dite_true, EStateM.Result.ok.injEq, true_and] at sets
  obtain ⟨_, s₅, points, ran⟩ := ran_of_bind ran
  obtain ⟨points, tasks₅⟩ := onContext_ran points
  simp only [setStackPointer, c.isLt, dite_true, EStateM.Result.ok.injEq, true_and] at points
  cases ran
  refine ⟨?_, by rw [tasks₅, tasks₄, tasks₃, tasks₂]⟩
  rw [← points, ← sets, ← read.2, context₂]
  exact ⟨fun _ other => Vector.get_put_of_ne _ other.symm _,
    fun _ other => Vector.get_put_of_ne _ other.symm _, fun _ _ => rfl⟩

theorem pendsOwn_keeps (pends : PendsOwn c s s') :
    s.context.Apart c s'.context ∧ s'.tasks = s.tasks := by
  induction pends with
  | refl => exact ⟨.refl _, rfl⟩
  | tail _ last ih =>
    obtain ⟨apart, tasks⟩ := ih
    obtain ⟨pended, tasks'⟩ := onContext_ran last
    simp only [pend, c.isLt, dite_true, EStateM.Result.ok.injEq, true_and] at pended
    refine ⟨?_, tasks'.trans tasks⟩
    rw [← pended]
    refine ⟨apart.registers, apart.sp, fun d other => ?_⟩
    rw [Vector.get_put_of_ne _ other.symm, apart.trapPending d other]

/-- A call leaves the register files of the other cores as they were, and all tasks but the outgoing
and the incoming one of a switch. -/
theorem isolated {call : PortCall} {k k' : Kernel (RegisterFile layout n) n}
    {answer : Option Resumption} (hands : call.Hands k k' c answer)
    (own : ∀ depth, call.Switches k depth → ∃ offset,
      k.storage.context.sp.get c = .stack (k.scheduler.current c) offset) :
    k.storage.context.Apart c k'.storage.context ∧
      ∀ task, (answer ≠ none → task ≠ k.scheduler.current c ∧ task ≠ k'.scheduler.current c) →
        k'.storage.tasks.list[task]? = k.storage.tasks.list[task]? := by
  cases hands with
  | rests pends =>
    obtain ⟨apart, tasks⟩ := pendsOwn_keeps pends
    exact ⟨apart, fun task _ => by rw [tasks]⟩
  | enters stays restored =>
    obtain ⟨apart, tasks⟩ := restore_keeps restored
    exact ⟨apart, fun task _ => by rw [tasks]⟩
  | @switches depth r storage switches saved restored =>
    obtain ⟨offset, own⟩ := own depth switches
    obtain ⟨context, others⟩ := save_keeps own saved
    obtain ⟨apart, tasks⟩ := restore_keeps restored
    rw [context] at apart
    refine ⟨apart, fun task neither => ?_⟩
    rw [tasks, others task (neither (Option.some_ne_none _)).1]

end RegisterFile

/-! Banks over a pool. -/

/-- The stack pointer that a core interrupted a task with is in the stack of that task. -/
def Pool.PointsInto (p : Pool size n) (c : Fin n) (depth : TrapDepth) (task : TaskId) : Prop :=
  ∀ lower sp, interruptedTask c depth p = .ok lower p → suspendedPointer lower p = .ok sp p →
    ∃ offset, sp = .stack task offset

namespace Banks

variable {s s' : Storage (Banks size n)} {live : List (Fin size)}

theorem onPool_reads {α : Type} {action : PoolM size n α} {a : α} (reads : Ensures Eq action)
    (ran : (onContext (onPool action) : StorageM (Banks size n) α) s = .ok a s') :
    s' = s ∧ action s.context.pool = .ok a s.context.pool := by
  obtain ⟨acted, tasks⟩ := onContext_ran ran
  obtain ⟨q, walked, context⟩ := onPool_ran acted
  obtain rfl := reads _ _ _ walked
  cases s
  cases s'
  cases tasks
  cases context
  exact ⟨rfl, walked⟩

/-- A save reads the banks, and writes where the stack pointer of the interrupted task is. -/
theorem save_ran {u : Unit} (ran : save c task nesting depth s = .ok u s') :
    s'.context = s.context ∧ ∃ lower sp,
      Pool.interruptedTask c depth s.context.pool = .ok lower s.context.pool ∧
      Pool.suspendedPointer lower s.context.pool = .ok sp s.context.pool ∧
      ∀ offset, sp = .stack task offset →
        ∀ other, other ≠ task → s'.tasks.list[other]? = s.tasks.list[other]? := by
  obtain ⟨lower, s₁, found, second⟩ := ran_of_bind ran
  obtain ⟨sp, s₂, pointed, third⟩ := ran_of_bind second
  obtain ⟨top, s₃, pushed, set⟩ := ran_of_bind third
  cases set
  obtain ⟨rfl, lowerIs⟩ := onPool_reads (Pool.reads_interruptedTask c depth) found
  obtain ⟨rfl, spIs⟩ := onPool_reads (Pool.reads_suspendedPointer lower) pointed
  obtain ⟨stored, context⟩ := onTasks_ran pushed
  refine ⟨context, lower, sp, lowerIs, spIs, ?_⟩
  rintro offset rfl other apart
  rw [Tasks.record_setTop _ apart, Tasks.pushHead_apart stored other apart]

theorem save_keeps {u : Unit} (own : s.context.pool.PointsInto c depth task)
    (ran : save c task nesting depth s = .ok u s') : s'.context = s.context ∧
      ∀ other, other ≠ task → s'.tasks.list[other]? = s.tasks.list[other]? := by
  obtain ⟨context, lower, sp, found, pointed, others⟩ := save_ran ran
  obtain ⟨offset, is⟩ := own lower sp found pointed
  exact ⟨context, others offset is⟩

theorem restore_keeps {r : Resumption}
    (path : Pool.Path s.context.pool (s.context.pool.links.get c) live)
    (ran : restore c task depth s = .ok r s') : s.context.Apart c live s'.context ∧
      ∀ other, other ≠ task → s'.tasks.list[other]? = s.tasks.list[other]? := by
  obtain ⟨top, s₁, read, ran⟩ := ran_of_bind ran
  cases read
  obtain ⟨head, s₂, headed, ran⟩ := ran_of_bind ran
  obtain ⟨headed, context₂⟩ := onTasks_ran headed
  have tasks₂ := Tasks.reads_savedHead task _ _ _ headed
  obtain ⟨nested, s₃, loaded, ran⟩ := ran_of_bind ran
  obtain ⟨loaded, context₃⟩ := onTasks_ran loaded
  have tasks₃ := Tasks.reads_load _ _ _ _ loaded
  obtain ⟨_, _, got, ran⟩ := ran_of_bind ran
  cases got
  split at ran
  · obtain ⟨_, s₄, set, ran⟩ := ran_of_bind ran
    cases set
    obtain ⟨_, s₅, resumes, ran⟩ := ran_of_bind ran
    obtain ⟨returns, tasks₅⟩ := onContext_ran resumes
    obtain ⟨q, turned, context₅⟩ := onPool_ran returns
    obtain ⟨enabled, s₆, asked, ends⟩ := ran_of_bind ran
    cases ends
    obtain ⟨rfl, _⟩ := onPool_reads (Pool.reads_resumesEnabled head) asked
    have context : s₃.context = s.context := context₃.trans context₂
    rw [context] at turned context₅
    refine ⟨?_, fun other apart => ?_⟩
    · rw [context₅]
      exact apart_of_pool (Pool.resumeAt_ran path turned)
    · rw [tasks₅, Tasks.record_setTop _ apart, ← tasks₃, ← tasks₂]
  · cases ran

theorem pendsOwn_keeps (pends : PendsOwn c s s') :
    s.context.Apart c live s'.context ∧ s'.tasks = s.tasks := by
  induction pends with
  | refl => exact ⟨apart_of_pool (.refl _), rfl⟩
  | tail _ last ih =>
    obtain ⟨apart, tasks⟩ := ih
    obtain ⟨pended, tasks'⟩ := onContext_ran last
    simp only [pend, c.isLt, dite_true, EStateM.Result.ok.injEq, true_and] at pended
    refine ⟨apart.trans ?_, tasks'.trans tasks⟩
    rw [← pended]
    exact ⟨fun _ _ => rfl, fun _ _ => rfl, fun d other => Vector.get_put_of_ne _ other.symm _,
      .refl _⟩

/-- A call leaves the banks and the chains of the other cores as they were, and all tasks but the
outgoing and the incoming one of a switch. No segment changes that is not on the chain of the core
that called. -/
theorem isolated {call : PortCall} {k k' : Kernel (Banks size n) n} {answer : Option Resumption}
    (hands : call.Hands k k' c answer)
    (path : Pool.Path k.storage.context.pool (k.storage.context.pool.links.get c) live)
    (own : ∀ depth, call.Switches k depth →
      k.storage.context.pool.PointsInto c depth (k.scheduler.current c)) :
    k.storage.context.Apart c live k'.storage.context ∧
      ∀ task, (answer ≠ none → task ≠ k.scheduler.current c ∧ task ≠ k'.scheduler.current c) →
        k'.storage.tasks.list[task]? = k.storage.tasks.list[task]? := by
  cases hands with
  | rests pends =>
    obtain ⟨apart, tasks⟩ := pendsOwn_keeps pends
    exact ⟨apart, fun task _ => by rw [tasks]⟩
  | enters stays restored =>
    obtain ⟨apart, others⟩ := restore_keeps path restored
    exact ⟨apart, fun task neither => others task (neither (Option.some_ne_none _)).2⟩
  | @switches depth r storage switches saved restored =>
    obtain ⟨context, others⟩ := save_keeps (own depth switches) saved
    obtain ⟨apart, others'⟩ := restore_keeps (by rwa [context]) restored
    rw [context] at apart
    refine ⟨apart, fun task neither => ?_⟩
    obtain ⟨notOut, notIn⟩ := neither (Option.some_ne_none _)
    rw [others' task notIn, others task notOut]

end Banks

end Preempt
