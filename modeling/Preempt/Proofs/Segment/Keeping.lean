import Preempt.Proofs.Isolation.Contexts
import Preempt.Proofs.Segment.Reclaiming

/-!
The chains of suspended tasks through the operations on contexts. An operation writes segments of
the free list, or of the live chain of its core, and the stacks of the tasks it is about. So a task
that is suspended before and after it still has the chain that it saved (`Custody.chained_after`).
-/

namespace Preempt

open Preempt.Action
open Kernel

variable {size n : Nat} {k k' : Kernel (Banks size n) n} {L L' : Ledger n} {task : TaskId}
  {share : Owner n → List (Fin size)} {chain : List (Fin size)} {lost : List (Fin size)}

/-- An action on the banks leaves the tasks alone. -/
theorem Kernel.onBanks_ran {α : Type} {action : BanksM size n α} {a : α}
    (ran : onBanks action k = .ok a k') :
    action k.storage.context = .ok a k'.storage.context ∧ k'.storage.tasks = k.storage.tasks := by
  unfold onBanks onStorage at ran
  split at ran <;> cases ran
  exact Storage.onContext_ran ‹_›

/-- A new task takes segments off the free list, and words of its own stack. -/
theorem Kernel.createFrom_ran {suspended : TaskId → Prop} (shares : k.Shares suspended share)
    {sp entry argument : Word} {answer : Except Refusal Unit} (room : k.storage.tasks.Room task sp)
    (ran : createFrom task sp entry argument k = .ok answer k') :
    (∀ i, i ∉ share .free →
      k'.storage.context.pool.segments.get i = k.storage.context.pool.segments.get i) ∧
    ∀ other, other ≠ task → k'.storage.tasks.list[other]? = k.storage.tasks.list[other]? := by
  have path := shares.free
  have once := shares.parts.nodup .free
  have refused (nothing : Pool.allocatePair k.storage.context.pool =
      .ok (.error .segmentsExhausted) k.storage.context.pool) :
      k'.storage.context.pool = k.storage.context.pool ∧ k'.storage.tasks = k.storage.tasks := by
    obtain ⟨trace, ran'⟩ : ∃ trace, createFrom task sp entry argument k =
        .ok (.error .segmentsExhausted) { k with board := { k.board with trace } } :=
      createFrom_run_refused entry argument nothing
    rw [ran] at ran'
    cases ran'
    exact ⟨rfl, rfl⟩
  match free : share .free with
  | [] =>
    rw [free] at path
    obtain ⟨pool, tasks⟩ := refused (Pool.allocatePair_run_null _ path.isNull)
    exact ⟨fun i _ => by rw [pool], fun other _ => by rw [tasks]⟩
  | [i] =>
    rw [free] at path
    obtain ⟨pool, tasks⟩ := refused (Pool.allocatePair_run_one _ path.named path.onward.isNull)
    exact ⟨fun i _ => by rw [pool], fun other _ => by rw [tasks]⟩
  | i :: j :: rest =>
    rw [free] at path once
    have apart : i ≠ j := by
      rintro rfl
      exact (List.nodup_cons.mp once).1 List.mem_cons_self
    obtain ⟨head, tail, q, r, taken, wrote, _, _, _, _, _, _, old, _⟩ :=
      Pool.Sharing.create_run _ path.named path.onward.named apart sp entry argument
    obtain ⟨trace, ts, ran', _, others⟩ := createFrom_run taken wrote room
    rw [ran] at ran'
    cases ran'
    refine ⟨fun m outside => old m ?_ ?_, others⟩ <;>
    · rintro rfl
      simp at outside

/-- An operation writes no segment of a suspended task, nor the stack of one that stays
suspended. -/
theorem Operation.spares (custody : Custody k L lost)
    (shares : k.Shares (fun task => L.saved task ≠ none) share) {op : Operation n} {answer : Answer}
    (issued : L.Step k op answer L') (notFree : ∀ task, op ≠ .free task)
    (ran : op.perform k = .ok answer k') :
    (∀ task, ∀ i ∈ share (.saved task),
      k'.storage.context.pool.segments.get i = k.storage.context.pool.segments.get i) ∧
    ∀ task, L.saved task ≠ none → L'.saved task ≠ none →
      k'.storage.tasks.list[task]? = k.storage.tasks.list[task]? := by
  have created {task : TaskId} {sp entry argument : Word} (absent : L.saved task = none)
      (room : k.storage.tasks.Room task sp)
      (ran : (Operation.create task sp entry argument).perform k = .ok answer k') :
      (∀ task, ∀ i ∈ share (.saved task),
        k'.storage.context.pool.segments.get i = k.storage.context.pool.segments.get i) ∧
      ∀ task, L.saved task ≠ none → L'.saved task ≠ none →
        k'.storage.tasks.list[task]? = k.storage.tasks.list[task]? := by
    obtain ⟨_, made, _⟩ := ran_of_return (f := Answer.of) ran
    obtain ⟨elsewhere, others⟩ := createFrom_ran shares room made
    refine ⟨fun _ i inside => elsewhere i (shares.not_mem inside (by simp)), fun other away _ => ?_⟩
    apply others
    rintro rfl
    exact away absent
  have onStack {c : Fin n} {o : Owner n} (real : ∀ task, o ≠ .saved task)
      (apart : k.storage.context.Apart c (share o) k'.storage.context)
      (tasks : k'.storage.tasks = k.storage.tasks) :
      (∀ task, ∀ i ∈ share (.saved task),
        k'.storage.context.pool.segments.get i = k.storage.context.pool.segments.get i) ∧
      ∀ task, L.saved task ≠ none → L'.saved task ≠ none →
        k'.storage.tasks.list[task]? = k.storage.tasks.list[task]? :=
    ⟨fun task i inside => apart.pool.segments i (shares.not_mem inside (real task)),
      fun task _ _ => by rw [tasks]⟩
  have free := shares.parts.nodup .free
  cases issued with
  | created absent _ room => exact created absent room ran
  | notCreated absent _ room => exact created absent room ran
  | trapped | halfTrapped | notTrapped =>
    obtain ⟨_, acted, _⟩ := ran_of_return (f := Answer.of) ran
    obtain ⟨acted, tasks⟩ := onBanks_ran acted
    exact onStack (by simp) (Banks.enterTrap_ran shares.free free acted) tasks
  | called | notCalled =>
    obtain ⟨_, acted, _⟩ := ran_of_return (f := Answer.of) ran
    obtain ⟨acted, tasks⟩ := onBanks_ran acted
    exact onStack (by simp) (Banks.spillBank_ran shares.free free acted).1 tasks
  | @leftTrap c =>
    obtain ⟨_, acted, _⟩ := ran_of_return (f := fun _ => Answer.done) ran
    obtain ⟨acted, tasks⟩ := onBanks_ran acted
    exact onStack (by simp) (Banks.leaveTrap_ran (shares.live c) (shares.parts.nodup _) acted) tasks
  | @leftCall c =>
    obtain ⟨_, acted, _⟩ := ran_of_return (f := fun _ => Answer.done) ran
    obtain ⟨acted, tasks⟩ := onBanks_ran acted
    exact onStack (by simp) (Banks.reloadBank_ran (shares.live c) (shares.parts.nodup _) acted).1
      tasks
  | @switched c choice depth calls old new top plain deep nesting room suspended =>
    obtain ⟨_, acted, _⟩ := ran_of_return (f := Answer.resumed) ran
    cases state : (k.board.cores.get c).state with
    | switching => exact absurd state (custody.settled c)
    | notStarted =>
      rw [switchWith_run_notStarted depth (choosing choice) state] at acted
      cases acted
    | running =>
      have idle := custody.own ⟨state, rfl⟩
      obtain ⟨s₁, q, ts, saved, restored, _, others⟩ :=
        custody.kept.handOver top plain deep idle room suspended
      obtain ⟨context, _⟩ := Banks.save_ran saved
      have path := shares.live c
      rw [← context] at path
      obtain ⟨apart, _⟩ := Banks.restore_keeps path restored
      rw [context] at apart
      rw [nesting] at saved
      obtain ⟨trace, ran'⟩ := switchWith_run state saved restored
      rw [acted] at ran'
      cases ran'
      refine ⟨fun task i inside => apart.pool.segments i (shares.not_mem inside (by simp)),
        fun task before after => others task ?_ ?_⟩
      · rintro rfl
        exact before idle
      · rintro rfl
        simp [Ledger.saved_resume] at after
  | @entered c new null suspended =>
    obtain ⟨_, acted, _⟩ := ran_of_return (f := Answer.resumed) ran
    obtain ⟨dropped, q, ts, restored, _, _, others⟩ := custody.kept.enter c suspended
    obtain ⟨apart, _⟩ := Banks.restore_keeps (shares.live c) restored
    obtain ⟨trace, ran'⟩ := enterFirst_run (k := k) restored
    rw [acted] at ran'
    cases ran'
    refine ⟨fun task i inside => apart.pool.segments i (shares.not_mem inside (by simp)),
      fun task _ after => others task ?_⟩
    rintro rfl
    simp [Ledger.saved_resume] at after
  | freed _ => exact absurd rfl (notFree _)

/-- The chain that a suspended task has is found again from the same stack and segments. -/
theorem Kernel.Chained.congr {suspension : Suspension}
    (kept : Kept k.storage.context.pool k.storage.tasks L lost)
    (is : L.saved task = some suspension) (chained : k.Chained task chain)
    (record : k'.storage.tasks.list[task]? = k.storage.tasks.list[task]?)
    (same : ∀ i ∈ chain,
      k'.storage.context.pool.segments.get i = k.storage.context.pool.segments.get i) :
    k'.Chained task chain := by
  obtain ⟨heads, share, shared, parked⟩ := kept
  have parks := parked task suspension is
  obtain ⟨head, saved, path⟩ := chained
  rw [parks.savedHead_run] at saved
  cases saved
  exact ⟨_, (parks.congr record).savedHead_run, path.congr same⟩

/-- A task that stays suspended keeps its chain. -/
theorem Custody.chained_after (custody : Custody k L) {op : Operation n} {answer : Answer}
    (issued : L.Step k op answer L') (notFree : ∀ task, op ≠ .free task)
    (ran : op.perform k = .ok answer k') (before : L.saved task ≠ none)
    (after : L'.saved task ≠ none) (chained : k.Chained task chain) : k'.Chained task chain := by
  obtain ⟨share, shares⟩ := partitioned_iff.mp custody.kept.partitioned
  obtain ⟨s, is⟩ := Option.ne_none_iff_exists'.mp before
  obtain ⟨segments, records⟩ := Operation.spares custody shares issued notFree ran
  refine chained.congr custody.kept is (records task before after) fun i inside => ?_
  rw [chained.unique (shares.saved task before)] at inside
  exact segments task i inside

end Preempt
