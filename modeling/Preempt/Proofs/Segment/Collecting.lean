import Preempt.Proofs.Segment.Custody

/-!
Collecting deleted tasks. Going through the slots of the queue comes to the same end as giving back
the chains of the tasks that are due, one after the other, once they have all left the queue
(`collectWith_sameEnd`). That completes if the tasks have their contexts (`collect_run`). A parked
task whose chain has gone back already stops it: its saved head names a free segment
(`collect_halts`).
-/

namespace Preempt

open Kernel

namespace DeletionQueue

variable (isCurrent : TaskId → Bool)

/-- The tasks of some slots that are to be collected. -/
def dueOf (slots : List (Option TaskId)) : List TaskId :=
  (slots.filterMap id).filter (!isCurrent ·)

/-- The parked tasks that are not current. -/
def due (q : DeletionQueue) : List TaskId := dueOf isCurrent q.slots

/-- The queue once all tasks that are not current have left it. -/
def collected (q : DeletionQueue) : DeletionQueue := ⟨q.slots.map (·.filter isCurrent)⟩

theorem dueOf_some (task : TaskId) (rest : List (Option TaskId)) :
    dueOf isCurrent (some task :: rest) =
      if isCurrent task then dueOf isCurrent rest else task :: dueOf isCurrent rest := by
  cases current : isCurrent task <;> simp [dueOf, current]

theorem mem_due (q : DeletionQueue) (task : TaskId) :
    task ∈ q.due isCurrent ↔ task ∈ q.parked ∧ isCurrent task = false := by
  simp [due, dueOf, parked]

theorem parked_collected (q : DeletionQueue) :
    (q.collected isCurrent).parked = q.parked.filter isCurrent := by
  rcases q with ⟨slots⟩
  simp only [collected, parked]
  induction slots with
  | nil => rfl
  | cons slot rest ih =>
    cases slot with
    | none => simpa using ih
    | some task =>
      cases current : isCurrent task with
      | true => simpa [Option.filter_some, current] using ih
      | false => simpa [Option.filter_some, current] using ih

theorem slot_of_drop {q : DeletionQueue} {slot : Nat} {held : Option TaskId}
    {rest : List (Option TaskId)} (here : q.slots.drop slot = held :: rest) :
    q.slots[slot]? = some held ∧ q.slots.drop (slot + 1) = rest ∧
      q.slots.take (slot + 1) = q.slots.take slot ++ [held] ∧
      (q.empty slot).slots.drop (slot + 1) = rest ∧
      (q.empty slot).slots.take (slot + 1) = q.slots.take slot ++ [none] := by
  have found : q.slots[slot]? = some held := by
    rw [← List.head?_drop, here, List.head?_cons]
  have onward : q.slots.drop (slot + 1) = rest := by
    rw [← List.drop_drop, here, List.drop_one, List.tail_cons]
  have inside : slot < q.slots.length := (List.getElem?_eq_some_iff.mp found).1
  refine ⟨found, onward, ?_, ?_, ?_⟩
  · rw [List.take_add_one, found, Option.toList_some]
  · rw [empty, List.drop_set_of_lt (by omega), onward]
  · rw [empty, List.take_add_one, List.take_set, List.getElem?_set_self inside, Option.toList_some,
      List.set_eq_of_length_le (by simp)]

end DeletionQueue

open DeletionQueue

/-- The ledger once the contexts of some suspended tasks are gone. -/
def Ledger.freed {n : Nat} (L : Ledger n) (gone : List TaskId) : Ledger n :=
  { L with saved := fun task => if task ∈ gone then none else L.saved task }

namespace Ledger

variable {n : Nat} (L : Ledger n)

@[simp] theorem freed_nil : L.freed [] = L := by simp [freed]

theorem freed_cons (task : TaskId) (gone : List TaskId) :
    L.freed (task :: gone) = (L.withSaved task none).freed gone := by
  simp only [freed, withSaved, mk.injEq, true_and]
  funext other
  by_cases same : other = task <;> simp [same]

theorem freed_singleton (task : TaskId) : L.freed [task] = L.withSaved task none := by
  rw [freed_cons, freed_nil]

end Ledger

variable {size n : Nat} {k : Kernel (Banks size n) n} {L : Ledger n} {lost : List (Fin size)}
  {task : TaskId}

/-- The head that a task has on its stack names a free segment. -/
def Pool.Dangles (p : Pool size n) (ts : Tasks) (task : TaskId) : Prop :=
  ∃ head i, Tasks.savedHead task ts = .ok head ts ∧ head.place? size = some i ∧
    p.inUse.get i = false

namespace Kernel

/-- The check before a chain is given back stops at a head that dangles. -/
theorem freeTask_run_dangling (dangles : k.storage.context.pool.Dangles k.storage.tasks task) :
    freeTask task k = .error (.violation .releasedContextReclaimed) k := by
  obtain ⟨head, i, saved, named, free⟩ := dangles
  obtain ⟨bound, rfl⟩ : ∃ bound, size = bound + 1 := ⟨size - 1, by have := i.isLt; omega⟩
  have unused : k.storage.context.pool.isInUse head.address = false := by
    simp only [Pool.isInUse, Link.place?_address, named, free]
  have stops : Pool.requireInUse (bound + 1) head.address k.storage.context.pool =
      .error (.violation .releasedContextReclaimed) k.storage.context.pool := by
    simp only [Pool.requireInUse, Link.isNull_address, Link.isNull_of_place? named,
      Bool.false_eq_true, if_false, Action.bind_run, Action.get_run, unused]
    rfl
  have notNull := Link.isNull_of_place? named
  have halted : onPool (Pool.requireInUse (bound + 1) head.address) k =
      .error (.violation .releasedContextReclaimed) k := by
    simp only [onPool, onStorage, Storage.onContext, Banks.onPool, stops]
  simp only [freeTask, freeChain, Action.bind_run, onStorage, Storage.onTasks, saved]
  rw [if_neg (by simp [notNull])]
  simp only [Action.bind_run, halted]

/-- The action works beneath the scheduler and the queue of deleted tasks. It neither reads nor
changes them. -/
def Beneath {κ α : Type} (action : KernelM κ n α) : Prop :=
  ∀ (k : Kernel κ n) (scheduler : RoundRobin n) (deletions : DeletionQueue),
    SameEnd (fun k₁ k₂ => k₁.scheduler = k.scheduler ∧ k₁.deletions = k.deletions ∧
      k₂ = { k₁ with scheduler, deletions }) (action k) (action { k with scheduler, deletions })

section Beneath

variable {κ α β : Type}

theorem beneath_pure (a : α) : Beneath (pure a : KernelM κ n α) :=
  fun _ _ _ => .done ⟨rfl, rfl, rfl⟩

theorem beneath_onBoard (action : BoardM n α) : Beneath (onBoard action : KernelM κ n α) := by
  intro k scheduler deletions
  simp only [onBoard]
  cases action k.board with
  | ok => exact .done ⟨rfl, rfl, rfl⟩
  | error => exact .halts

theorem beneath_onStorage (action : StorageM κ α) :
    Beneath (onStorage action : KernelM κ n α) := by
  intro k scheduler deletions
  simp only [onStorage]
  cases action k.storage with
  | ok => exact .done ⟨rfl, rfl, rfl⟩
  | error => exact .halts

theorem Beneath.bind {action : KernelM κ n α} {next : α → KernelM κ n β} (first : Beneath action)
    (rest : ∀ a, Beneath (next a)) : Beneath (action >>= next) := by
  intro k scheduler deletions
  refine SameEnd.bind (first k scheduler deletions) fun a k₁ k₂ ⟨turn, queue, same⟩ => ?_
  rw [same, ← turn, ← queue]
  exact rest a k₁ scheduler deletions

theorem Beneath.withMask {action : KernelM κ n α} (beneath : Beneath action) :
    Beneath (Board.withMask n action) :=
  (beneath_onBoard Board.saveMask).bind fun wasEnabled => beneath.bind fun _ =>
    (beneath_onBoard (Board.restoreMask wasEnabled)).bind fun _ => beneath_pure _

theorem Beneath.keeps {action : KernelM κ n α} {k k' : Kernel κ n} {a : α}
    (beneath : Beneath action) (ran : action k = .ok a k') :
    k'.scheduler = k.scheduler ∧ k'.deletions = k.deletions := by
  have same : SameEnd _ (action k) (action k) := beneath k k.scheduler k.deletions
  rw [ran] at same
  cases same with
  | done kept => exact ⟨kept.1, kept.2.1⟩

end Beneath

theorem beneath_freeTask (task : TaskId) : Beneath (freeTask task : SegmentedM size n Unit) := by
  refine (beneath_onStorage _).bind fun head => ?_
  simp only [freeChain]
  split
  · exact beneath_pure ()
  · exact (beneath_onStorage _).bind fun _ => (beneath_onStorage _).bind fun _ =>
      (Beneath.withMask (beneath_onStorage _)).bind fun _ => beneath_onBoard _

/-- Give back the chains of some tasks, one after the other, and count them. -/
def freeTasks : List TaskId → SegmentedM size n Nat
  | [] => return 0
  | task :: tasks => do
    freeTask task
    return (← freeTasks tasks) + 1

theorem beneath_freeTasks (tasks : List TaskId) :
    Beneath (freeTasks tasks : SegmentedM size n Nat) := by
  induction tasks with
  | nil => exact beneath_pure 0
  | cons task tasks ih =>
    exact (beneath_freeTask task).bind fun _ => ih.bind fun count => beneath_pure (count + 1)

variable {asks : TaskId → SegmentedM size n Bool} {current : TaskId → Bool}

/-- The actions answer for each task as the predicate does, while the scheduler is that of `k`. -/
def Answers (k : Kernel (Banks size n) n) (asks : TaskId → SegmentedM size n Bool)
    (current : TaskId → Bool) : Prop :=
  ∀ k' : Kernel (Banks size n) n, k'.scheduler = k.scheduler →
    ∀ task, asks task k' = .ok (current task) k'

theorem answers_pure (k : Kernel (Banks size n) n) (current : TaskId → Bool) :
    k.Answers (fun task => pure (current task)) current := fun _ _ _ => rfl

theorem answers_isCurrent (k : Kernel (Banks size n) n) :
    k.Answers isCurrent k.scheduler.isCurrent := by
  intro k' same task
  rw [← same]
  rfl

theorem liftM_self {α : Type} (action : SegmentedM size n α) :
    (liftM action : SegmentedM size n α) = action := rfl

/-- A step at a slot without a task, or with one that stays. -/
theorem collectFrom_run_kept {slot count : Nat} {held : Option TaskId}
    (answers : k.Answers asks current)
    (found : k.deletions.slots[slot]? = some held) (stays : held.all current = true) :
    collectFrom size n asks slot (count + 1) k = collectFrom size n asks (slot + 1) count k := by
  cases held with
  | none =>
    simp only [collectFrom, liftM_self, Action.bind_run, Action.get_run, found, Action.pure_run]
    cases collectFrom size n asks (slot + 1) count k <;> rfl
  | some task =>
    have busy : current task = true := stays
    simp only [collectFrom, liftM_self, Action.bind_run, Action.get_run, found, answers k rfl, busy,
      Action.pure_run, if_true]
    cases collectFrom size n asks (slot + 1) count k <;> rfl

/-- A step at a slot with a task that is due. -/
theorem collectFrom_run_due {slot count : Nat} {task : TaskId}
    (answers : k.Answers asks current)
    (found : k.deletions.slots[slot]? = some (some task)) (left : current task = false) :
    collectFrom size n asks slot (count + 1) k =
      (do
        freeTask task
        return (← collectFrom size n asks (slot + 1) count) + 1 : SegmentedM size n Nat)
        { k with deletions := k.deletions.empty slot } := by
  simp only [collectFrom, liftM_self, Action.bind_run, Action.get_run, found, answers k rfl, left,
    Action.pure_run, if_true, Bool.false_eq_true, if_false, collectSlot, Action.modify_run]
  cases freeTask task { k with deletions := k.deletions.empty slot } <;> rfl

/-- The walk from a slot on. -/
theorem collectFrom_sameEnd {slot : Nat} {rest : List (Option TaskId)}
    (answers : k.Answers asks current) (here : k.deletions.slots.drop slot = rest) :
    SameEnd Eq (collectFrom size n asks slot rest.length k)
      (freeTasks (dueOf current rest) { k with deletions :=
        ⟨k.deletions.slots.take slot ++ rest.map (·.filter current)⟩ }) := by
  induction rest generalizing slot k with
  | nil =>
    have all : k.deletions.slots.take slot = k.deletions.slots :=
      List.take_of_length_le (List.drop_eq_nil_iff.mp here)
    rw [all, List.map_nil, List.append_nil]
    exact .refl _
  | cons held rest ih =>
    obtain ⟨found, onward, before, onward', before'⟩ := slot_of_drop here
    rw [List.length_cons]
    cases held with
    | none =>
      have later := ih answers onward
      rw [before, List.append_assoc] at later
      rwa [collectFrom_run_kept answers found rfl]
    | some task =>
      rw [dueOf_some]
      cases busy : current task with
      | true =>
        have later := ih answers onward
        rw [before, List.append_assoc] at later
        rw [collectFrom_run_kept answers found busy]
        simpa [busy, Option.filter_some] using later
      | false =>
        have gone : k.deletions.slots.take slot ++ (some task :: rest).map (·.filter current) =
            (k.deletions.empty slot).slots.take (slot + 1) ++ rest.map (·.filter current) := by
          simp [before', busy, Option.filter_some]
        rw [collectFrom_run_due answers found busy, gone]
        refine SameEnd.bind (beneath_freeTask task _ k.scheduler _) ?_
        rintro _ k₁ _ ⟨turn, queue, rfl⟩
        have later := ih (fun k' same => answers k' (same.trans turn))
          (show k₁.deletions.slots.drop (slot + 1) = rest by rw [queue, onward'])
        rw [queue, turn] at later
        refine SameEnd.bind later ?_
        rintro count k' _ rfl
        exact .refl _

/-- A collection comes to the same end as if the tasks that are due left the queue together and gave
back their chains one after the other. -/
theorem collectWith_sameEnd (answers : k.Answers asks current) :
    SameEnd Eq (collectWith size n asks k)
      (freeTasks (k.deletions.due current)
        { k with deletions := k.deletions.collected current }) := by
  have whole : k.deletions.slots.drop 0 = k.deletions.slots := rfl
  have started : collectWith size n asks k =
      collectFrom size n asks 0 k.deletions.slots.length k := rfl
  rw [started, collected, ← List.nil_append (List.map _ _)]
  exact collectFrom_sameEnd answers whole

theorem collect_sameEnd (k : Kernel (Banks size n) n) :
    SameEnd Eq (collect k) (freeTasks (k.deletions.due k.scheduler.isCurrent)
      { k with deletions := k.deletions.collected k.scheduler.isCurrent }) :=
  collectWith_sameEnd k.answers_isCurrent

end Kernel

theorem Pool.Dangles.frees {p q : Pool size n} {ts : Tasks} {head : Link} (frees : p.Frees q head)
    (dangles : p.Dangles ts task) : q.Dangles ts task := by
  obtain ⟨own, i, saved, named, free⟩ := dangles
  exact ⟨own, i, saved, named, frees.others i free⟩

namespace Custody

theorem withDeletions (custody : Custody k L lost) (deletions : DeletionQueue) :
    Custody { k with deletions } L lost :=
  custody.calm ⟨rfl, fun _ => rfl⟩ custody.kept fun runs => custody.own runs

/-- Suspended tasks give back their chains one after the other. -/
theorem freeTasks {tasks : List TaskId} (custody : Custody k L lost) (once : tasks.Nodup)
    (suspended : ∀ task ∈ tasks, L.saved task ≠ none) :
    ∃ k', Kernel.freeTasks tasks k = .ok tasks.length k' ∧ Custody k' (L.freed tasks) lost ∧
      k.Calm k' := by
  induction tasks generalizing k L with
  | nil => exact ⟨k, rfl, by simpa using custody, ⟨rfl, fun _ => rfl⟩⟩
  | cons task tasks ih =>
    obtain ⟨outside, once⟩ := List.nodup_cons.mp once
    obtain ⟨trace, r, head, freed, custody₁, _, _⟩ := custody.freeTask (suspended task (by simp))
    obtain ⟨k', ran, custody', calm⟩ := ih custody₁ once fun other due => by
      have apart : other ≠ task := by
        rintro rfl
        exact outside due
      rw [Ledger.saved_withSaved, if_neg apart]
      exact suspended other (by simp [due])
    refine ⟨k', ?_, ?_, ⟨calm.queues, calm.states⟩⟩
    · simp only [Kernel.freeTasks, Action.bind_run, freed, ran]
      rfl
    · rw [Ledger.freed_cons]
      exact custody'

/-- Tasks stop giving back their chains at one whose chain has gone back already, if not before. -/
theorem freeTasks_halts {tasks : List TaskId} (custody : Custody k L lost) (once : tasks.Nodup)
    (due : task ∈ tasks) (dangles : k.storage.context.pool.Dangles k.storage.tasks task)
    (suspended : ∀ other ∈ tasks, other ≠ task → L.saved other ≠ none) :
    ∃ k', Kernel.freeTasks tasks k = .error (.violation .releasedContextReclaimed) k' := by
  induction tasks generalizing k L with
  | nil => cases due
  | cons other tasks ih =>
    obtain ⟨outside, once⟩ := List.nodup_cons.mp once
    by_cases same : task = other
    · subst same
      simp only [Kernel.freeTasks, Action.bind_run, freeTask_run_dangling dangles]
      exact ⟨_, rfl⟩
    · obtain ⟨trace, r, head, freed, custody₁, _, frees⟩ :=
        custody.freeTask (suspended other (by simp) (Ne.symm same))
      have behind : task ∈ tasks := (List.mem_cons.mp due).resolve_left same
      obtain ⟨k', halted⟩ := ih custody₁ once behind (dangles.frees frees)
          fun third later apart => by
        have notOther : third ≠ other := by
          rintro rfl
          exact outside later
        rw [Ledger.saved_withSaved, if_neg notOther]
        exact suspended third (by simp [later]) apart
      simp only [Kernel.freeTasks, Action.bind_run, freed, halted]
      exact ⟨_, rfl⟩

/-- A collection completes if all tasks that are due have their contexts. -/
theorem collect_run (custody : Custody k L lost) (once : k.deletions.parked.Nodup)
    (suspended : ∀ task ∈ k.deletions.due k.scheduler.isCurrent, L.saved task ≠ none) :
    ∃ k', collect k = .ok (k.deletions.due k.scheduler.isCurrent).length k' ∧
      Custody k' (L.freed (k.deletions.due k.scheduler.isCurrent)) lost ∧ k.Calm k' ∧
      k'.deletions = k.deletions.collected k.scheduler.isCurrent := by
  obtain ⟨k', ran, custody', calm⟩ :=
    (custody.withDeletions (k.deletions.collected k.scheduler.isCurrent)).freeTasks
      (once.filter _) suspended
  exact ⟨k', (collect_sameEnd k).ok_iff.mpr ran, custody', ⟨calm.queues, calm.states⟩,
    ((beneath_freeTasks _).keeps ran).2⟩

/-- A collection halts if the chain of a task that is due has gone back already. -/
theorem collect_halts (custody : Custody k L lost) (once : k.deletions.parked.Nodup)
    (due : task ∈ k.deletions.due k.scheduler.isCurrent)
    (dangles : k.storage.context.pool.Dangles k.storage.tasks task)
    (suspended : ∀ other ∈ k.deletions.due k.scheduler.isCurrent, other ≠ task →
      L.saved other ≠ none) :
    ∃ k', collect k = .error (.violation .releasedContextReclaimed) k' := by
  obtain ⟨k', halted⟩ :=
    (custody.withDeletions (k.deletions.collected k.scheduler.isCurrent)).freeTasks_halts
      (once.filter _) due dangles suspended
  exact (collect_sameEnd k).halted halted

end Custody

end Preempt
