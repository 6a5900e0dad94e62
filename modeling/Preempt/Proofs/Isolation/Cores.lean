import Preempt.Proofs.Isolation.Contexts
import Preempt.Proofs.Segment.Reclaiming

/-!
The isolation of the cores. Whatever a core calls, the other cores keep their records, masks,
timers, turns, register state and chains, and so do the tasks that the call is not about. A call
that deletes tasks keeps to their chains as long as these are still the ones that the tasks saved: a
parked task whose chain has gone back already takes the segments of others with it.
-/

namespace Preempt

open Preempt.Action
open Kernel

variable {size n : Nat} {c : Fin n}

/-- The calls of a kernel layer over a pool: those of every layout, and the deletions. -/
inductive PoolCall where
  | port (call : PortCall)
  | delete (task : TaskId)
  | deleteNow (task : TaskId)
  | collect

namespace PoolCall

/-- The answer is what a task was resumed with, if one was. -/
def perform : PoolCall → SegmentedM size n (Option Resumption)
  | port call => call.perform
  | delete task => do
    let _ ← Kernel.delete task
    return none
  | deleteNow task => do
    let _ ← Kernel.deleteNow task
    return none
  | collect => do
    let _ ← Kernel.collect
    return none

/-- The tasks whose chains the call gives back. -/
def gone (call : PoolCall) (k : Kernel (Banks size n) n) : List TaskId :=
  match call with
  | port _ => []
  | delete task | deleteNow task => if k.scheduler.isCurrent task then [] else [task]
  | collect => k.deletions.due k.scheduler.isCurrent

def starts : PoolCall → Bool
  | port call => call = .start
  | _ => false

def calls (n : Nat) : PoolCall → CoreId → Bool
  | port call => call.calls n
  | _ => fun _ => false

/-- When the call gets as far as a switch, and at which depth. -/
def Switches (call : PoolCall) (k : Kernel (Banks size n) n) (depth : TrapDepth) : Prop :=
  match call with
  | port call => call.Switches k depth
  | _ => False

/-- A call of core `c` leaves the other cores, the tasks that it does not switch and the chains that
it does not give back. -/
structure Isolated (call : PoolCall) (k k' : Kernel (Banks size n) n) (c : Fin n)
    (suspended : TaskId → Prop) (answer : Option Resumption) : Prop where
  confined : k.Confined k' c call.starts (call.calls n)
  banks : ∃ touched, k.storage.context.Apart c touched k'.storage.context ∧
    (∀ d, d ≠ c → ∀ chain, Pool.Path k.storage.context.pool (k.storage.context.pool.links.get d)
      chain → touched.Disjoint chain) ∧
    ∀ task, suspended task → task ∉ call.gone k → ∀ chain, k.Chained task chain →
      touched.Disjoint chain
  tasks : ∀ task,
    (answer ≠ none → task ≠ k.scheduler.current c ∧ task ≠ k'.scheduler.current c) →
      k'.storage.tasks.list[task]? = k.storage.tasks.list[task]?

variable {call : PoolCall} {k k' : Kernel (Banks size n) n} {suspended : TaskId → Prop}
  {share : Owner n → List (Fin size)} {answer : Option Resumption}

/-- A deletion puts the chains of the tasks that are gone onto the free list, and no others. -/
theorem reclaims (shares : k.Shares suspended share) (once : k.deletions.parked.Nodup)
    (away : ∀ task ∈ call.gone k, suspended task) (deletes : ∀ port, call ≠ .port port)
    (ran : call.perform k = .ok answer k') :
    k.Reclaimed k' share (call.gone k) ∧ answer = none := by
  have none : answer = none := by
    cases call with
    | port call => exact absurd rfl (deletes call)
    | delete | deleteNow | collect =>
      obtain ⟨_, _, rfl⟩ := ran_of_return (f := fun _ => Option.none) ran
      rfl
  refine ⟨?_, none⟩
  cases call with
  | port call => exact absurd rfl (deletes call)
  | delete task =>
    obtain ⟨a, acted, _⟩ := ran_of_return (f := fun _ => Option.none) ran
    cases current : k.scheduler.isCurrent task with
    | true =>
      rw [delete_run_current current] at acted
      simp only [gone, current, if_true]
      split at acted <;> cases acted
      · exact .nil shares.free k.board.trace k.deletions
      · exact .nil shares.free _ _
    | false =>
      simp only [gone, current, Bool.false_eq_true, if_false] at away ⊢
      obtain ⟨k₁, deleted, _, reclaimed, _⟩ := shares.delete_left current (away task (by simp))
      rw [deleted] at acted
      cases acted
      exact reclaimed
  | deleteNow task =>
    obtain ⟨a, acted, _⟩ := ran_of_return (f := fun _ => Option.none) ran
    cases current : k.scheduler.isCurrent task with
    | true =>
      rw [deleteNow_run_current current] at acted
      simp only [gone, current, if_true]
      cases acted
      exact .nil shares.free k.board.trace k.deletions
    | false =>
      simp only [gone, current, Bool.false_eq_true, if_false] at away ⊢
      obtain ⟨k₁, _, deleted, reclaimed, _⟩ := shares.delete_left current (away task (by simp))
      rw [deleted] at acted
      cases acted
      exact reclaimed
  | collect =>
    obtain ⟨a, acted, _⟩ := ran_of_return (f := fun _ => Option.none) ran
    obtain ⟨k₁, collected, reclaimed, _⟩ := shares.collect once away
    rw [collected] at acted
    cases acted
    exact reclaimed

end PoolCall

namespace Kernel

variable {k k' : Kernel (Banks size n) n} {suspended : TaskId → Prop}
  {share : Owner n → List (Fin size)} {gone : List TaskId}

theorem Reclaimed.apart (reclaimed : k.Reclaimed k' share gone) (c : Fin n) :
    k.storage.context.Apart c (chainsOf share gone) k'.storage.context := by
  have context : k'.storage.context =
      { k.storage.context with pool := k'.storage.context.pool } :=
    congrArg Storage.context reclaimed.storage
  rw [context]
  refine Banks.apart_of_pool ⟨fun d _ => by rw [reclaimed.links], reclaimed.elsewhere, ?_⟩
  intro i outside
  rw [reclaimed.inUse, if_neg outside]

/-- A deletion needs no turn of its own: whichever core makes it, nothing of any core changes. -/
theorem Reclaimed.confined (reclaimed : k.Reclaimed k' share gone) (ready : k.board.Ready c)
    {calls : CoreId → Bool} (silent : ∀ d, calls d = false) : k.Confined k' c false calls := by
  obtain ⟨trace, board⟩ := reclaimed.board
  refine confined_of_apart silent ?_ fun d _ => by rw [reclaimed.scheduler]
  rw [board]
  exact ⟨⟨ready.executing, ready.known⟩, fun _ _ => rfl, fun _ _ => rfl, fun _ _ => rfl,
    fun _ _ => rfl⟩

end Kernel

/-- Over a pool the cores are isolated, if a call gives back only chains that are where the tasks
saved them. -/
theorem PoolCall.isolated {call : PoolCall} {k k' : Kernel (Banks size n) n}
    {suspended : TaskId → Prop} {answer : Option Resumption} (parted : Partitioned k suspended)
    (ready : k.board.Ready c) (once : k.deletions.parked.Nodup)
    (away : ∀ task ∈ call.gone k, suspended task)
    (own : ∀ depth, call.Switches k depth →
      k.storage.context.pool.PointsInto c depth (k.scheduler.current c))
    (ran : call.perform k = .ok answer k') : call.Isolated k k' c suspended answer := by
  obtain ⟨share, shares⟩ := partitioned_iff.mp parted
  by_cases deletes : ∀ port, call ≠ .port port
  · obtain ⟨reclaimed, rfl⟩ := call.reclaims shares once away deletes ran
    refine ⟨?_, ⟨_, reclaimed.apart c, fun d _ chain path => ?_,
      fun task here stays chain chained => ?_⟩, fun task _ => by rw [reclaimed.tasks]⟩
    · cases call with
      | port port => exact absurd rfl (deletes port)
      | delete | deleteNow | collect => exact reclaimed.confined ready fun _ => rfl
    · rw [path.unique (shares.live d)]
      exact shares.chains_disjoint fun _ _ => by simp
    · rw [chained.unique (shares.saved task here)]
      refine shares.chains_disjoint fun other went same => ?_
      cases same
      exact stays went
  · obtain ⟨port, rfl⟩ := not_forall_not.mp deletes
    obtain ⟨confined, hands⟩ := port.confined ready ran
    obtain ⟨apart, tasks⟩ := Banks.isolated hands (shares.live c) own
    refine ⟨confined, ⟨_, apart, fun d other chain path => ?_, fun task here _ chain chained => ?_⟩,
      tasks⟩
    · rw [path.unique (shares.live d)]
      exact shares.disjoint (by simpa using other)
    · rw [chained.unique (shares.saved task here)]
      exact shares.disjoint (by simp)

/-- The cores are isolated, over every layout and over a pool. -/
theorem cores_isolated (c : Fin n) :
    (∀ {layout : Layout} {call : PortCall} {k k' : Kernel (RegisterFile layout n) n}
      {answer : Option Resumption}, k.board.Ready c →
      (∀ depth, call.Switches k depth → ∃ offset,
        k.storage.context.sp.get c = .stack (k.scheduler.current c) offset) →
      call.perform k = .ok answer k' →
      call.Confined k k' c ∧ k.storage.context.Apart c k'.storage.context ∧
        ∀ task, (answer ≠ none → task ≠ k.scheduler.current c ∧ task ≠ k'.scheduler.current c) →
          k'.storage.tasks.list[task]? = k.storage.tasks.list[task]?) ∧
    ∀ {size : Nat} {call : PoolCall} {k k' : Kernel (Banks size n) n} {suspended : TaskId → Prop}
      {answer : Option Resumption}, Partitioned k suspended → k.board.Ready c →
      k.deletions.parked.Nodup → (∀ task ∈ call.gone k, suspended task) →
      (∀ depth, call.Switches k depth →
        k.storage.context.pool.PointsInto c depth (k.scheduler.current c)) →
      call.perform k = .ok answer k' → call.Isolated k k' c suspended answer := by
  constructor
  · intro layout call k k' answer ready own ran
    obtain ⟨confined, hands⟩ := call.confined ready ran
    exact ⟨confined, RegisterFile.isolated hands own⟩
  · intro size call k k' suspended answer parted ready once away own ran
    exact PoolCall.isolated parted ready once away own ran

/-- Core 0 of two creates its task and starts the scheduler. -/
theorem PoolCall.start_passes : (match
    Kernel.boot 0 { queues := #v[[0], [1]], stackSizes := #[8, 8] } {} with
  | .ok (k₀ : Kernel (Banks 4 2) 2) =>
    match (Operation.create 0 (.stack 0 8) (.num 4) (.num 5)).perform k₀ with
    | .ok .done k₁ =>
      match (PoolCall.port .start).perform k₁ with
      | .ok (some _) _ => decide ((∀ c, (k₀.board.cores.get c).state = .notStarted) ∧
          (k₀.storage.tasks.read? (.stack 0 6)).isSome ∧
          (k₀.storage.tasks.read? (.stack 0 7)).isSome ∧ k₁.board.machine.executing = 0 ∧
          k₁.board.machine.identity = none ∧ k₁.deletions.parked = [])
      | _ => false
    | _ => false
  | _ => false) = true := by decide +kernel

/-- One of two cores yields to the other, and one of two starts the scheduler. -/
theorem cores_isolated_two_cores :
    (∃ k k' : Kernel (RegisterFile CortexM4.layout 2) 2,
      (PortCall.yieldTo 1).perform k = .ok none k' ∧ (PortCall.yieldTo 1).Confined k k' 0 ∧
      k'.board.machine.isCalled 1 = true) ∧
    ∃ (k k' : Kernel (Banks 4 2) 2) (r : Resumption),
      (PoolCall.port .start).perform k = .ok (some r) k' ∧
      (PoolCall.port .start).Isolated k k' 0 (· = 0) (some r) ∧
      (k'.board.cores.get 1).pending = .firstTask ∧ k'.board.machine.isCalled 1 = true := by
  constructor
  · obtain ⟨k₀, k₁, booted, ran, ready⟩ : ∃ k₀ k₁ : Kernel (RegisterFile CortexM4.layout 2) 2,
        Kernel.boot 0 { queues := #v[[0], [1]], stackSizes := #[8, 8] } {} = .ok k₀ ∧
        (PortCall.yieldTo 1).perform k₀ = .ok none k₁ ∧ k₀.board.Ready 0 :=
      ⟨_, _, by with_unfolding_all rfl, by with_unfolding_all rfl, rfl, rfl⟩
    obtain ⟨confined, _⟩ := (cores_isolated 0).1 ready (fun _ => False.elim) ran
    have called := confined.called 1 (by decide)
    rw [show (PortCall.yieldTo 1).calls 2 (1 : Fin 2) = true from rfl, Bool.or_true] at called
    exact ⟨k₀, k₁, ran, confined, called⟩
  · have passes := PoolCall.start_passes
    repeat' split at passes
    any_goals cases passes
    rename_i k₀ booted _ k₁ created _ r k₂ started
    obtain ⟨state, low, high, executing, known, queue⟩ := of_decide_eq_true passes
    have idle (c : Fin 2) : ¬k₀.Runs c 0 := by
      intro runs
      have running := runs.1
      rw [state c] at running
      cases running
    have custody := (Custody.boot (by decide) booted).follow
      (.created rfl idle ⟨6, rfl, low, high⟩) created
    have first (task : TaskId) : (({} : Ledger 2).withSaved 0
        (some (.initial (.stack 0 8) (.num 4) (.num 5)))).saved task ≠ none ↔ task = 0 := by
      simp [Ledger.saved_withSaved]
    have parted : Partitioned k₁ (· = 0) :=
      (congrArg (Partitioned k₁) (funext fun task => propext (first task))).mp
        custody.kept.partitioned
    have isolated := (cores_isolated 0).2 parted ⟨executing, known⟩ (by simp [queue])
      (by simp [PoolCall.gone]) (fun _ => False.elim) started
    have called := isolated.confined.called 1 (by decide)
    have cores := isolated.confined.cores 1 (by decide)
    refine ⟨k₁, k₂, r, started, isolated, ?_, ?_⟩
    · rw [cores]
      rfl
    · rw [show (PoolCall.port .start).calls 2 (1 : Fin 2) = true from rfl, Bool.or_true] at called
      exact called

/-- On one core task 0 is deleted while it runs, and again once task 1 runs. A new task gets its
segments. -/
def PoolCall.reuse : SegmentedM 4 1 (Except Refusal Unit) := do
  let _ ← createSegmented 0 (.num 4) (.num 5)
  let _ ← createSegmented 1 (.num 6) (.num 7)
  let _ ← Kernel.start
  onBanks (Banks.leaveTrap 0)
  let _ ← Kernel.delete 0
  let _ ← onBanks (Banks.enterTrap 0 true)
  let _ ← Kernel.switch (Fin.last 0) 0
  let _ ← Kernel.deleteNow 0
  createSegmented 2 (.num 8) (.num 9)

/-- Who has which segments then: the core those of task 1, and task 2 its own. -/
def PoolCall.reused : Owner 1 → List (Fin 4)
  | .free => []
  | .live _ => [2, 3]
  | .saved task => if task = 2 then [0, 1] else []

theorem PoolCall.partition_reused : Partition reused := by
  have owner (i : Fin 4) (o : Owner 1) :
      i ∈ reused o ↔ o = if i < 2 then .saved 2 else .live 0 := by
    cases o with
    | free => revert i; decide
    | live c => revert i c; decide
    | saved task =>
      by_cases same : task = 2
      · subst same
        revert i
        decide
      · simp only [reused, if_neg same, List.not_mem_nil, false_iff]
        split <;> simp [same]
  refine ⟨fun o => ?_, fun i => ⟨_, (owner i _).mpr rfl, fun o => (owner i o).mp⟩⟩
  cases o with
  | free => exact List.nodup_nil
  | live c => exact (by decide : [(2 : Fin 4), 3].Nodup)
  | saved task =>
    by_cases same : task = 2
    · rw [same]
      decide
    · simp only [reused, if_neg same]
      exact List.nodup_nil

theorem PoolCall.reuse_passes : (match
    Kernel.boot 0 { queues := #v[[0, 1]], stackSizes := #[8, 8, 8] } {} with
  | .ok (k₀ : Kernel (Banks 4 1) 1) =>
    match reuse k₀ with
    | .ok (.ok ()) k₁ =>
      match Tasks.savedHead 2 k₁.storage.tasks, PoolCall.collect.perform k₁ with
      | .ok head _, .ok none k₂ =>
        decide (k₁.storage.context.pool.freeHead.isNull = true ∧
          k₁.storage.context.pool.Path (k₁.storage.context.pool.links.get 0) [2, 3] ∧
          k₁.storage.context.pool.Path head [0, 1] ∧
          (∀ i, k₁.storage.context.pool.inUse.get i = true) ∧
          k₁.board.machine.identity = none ∧ PoolCall.collect.gone k₁ = [0] ∧
          k₂.storage.context.pool.inUse.get 0 = false)
      | _, _ => false
    | _ => false
  | _ => false) = true := by decide +kernel

/-- The segments are shared out, but a collection frees those of the new task. -/
theorem PoolCall.collect_frees_new_task :
    ∃ k₀ k₁ k₂ : Kernel (Banks 4 1) 1,
      Kernel.boot 0 { queues := #v[[0, 1]], stackSizes := #[8, 8, 8] } {} = .ok k₀ ∧
      reuse k₀ = .ok (.ok ()) k₁ ∧ Partitioned k₁ (· = 2) ∧ k₁.board.Ready 0 ∧
      PoolCall.collect.gone k₁ = [0] ∧ PoolCall.collect.perform k₁ = .ok none k₂ ∧
      ¬PoolCall.collect.Isolated k₁ k₂ 0 (· = 2) none := by
  have passes := PoolCall.reuse_passes
  repeat' split at passes
  any_goals cases passes
  rename_i _ k₀ booted _ k₁ ran _ _ head ts k₂ headed collected
  obtain ⟨free, live, saved, used, known, gone, freed⟩ := of_decide_eq_true passes
  obtain rfl := Tasks.reads_savedHead 2 _ _ _ headed
  have chained : k₁.Chained 2 [0, 1] := ⟨head, headed, saved⟩
  have shares : k₁.Shares (· = 2) PoolCall.reused := by
    refine ⟨partition_reused, .nil free, fun c => ?_, ?_, fun task other => if_neg other,
      fun i => by simp [reused, used]⟩
    · rw [Subsingleton.elim c 0]
      exact live
    · rintro task rfl
      exact chained
  refine ⟨k₀, k₁, k₂, booted, ran, partitioned_iff.mpr ⟨_, shares⟩,
    ⟨Subsingleton.elim _ _, known⟩, gone, collected, fun isolated => ?_⟩
  obtain ⟨touched, apart, _, spared⟩ := isolated.banks
  have outside := spared 2 rfl (by simp [gone]) [0, 1] chained
  have kept := apart.pool.inUse 0 fun inside => outside inside (by simp)
  rw [freed, used] at kept
  cases kept

end Preempt
