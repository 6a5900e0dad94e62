import Preempt.Proofs.Segment.Deletion
import Preempt.Proofs.Undisturbed

/-!
What the kernel changes when it gives chains back. `Reclaimed` says all of it: the chains of some
suspended tasks are in front of the free list, the last one first, and no other segment has been
written. Both a single deletion and a collection complete with that (`Shares.freeTask`,
`Shares.collect`), as long as the segments are shared out among the free list, the cores and the
suspended tasks.
-/

namespace Preempt

open Function (update)
open Preempt.Action
open Kernel

variable {size n : Nat}

namespace Pool

variable {p : Pool size n} {l : Link} {is js : List (Fin size)}

theorem countFrom_run (path : Path p l is) {bound : Nat} (long : is.length ≤ bound) :
    countFrom bound l p = .ok is.length p := by
  induction bound generalizing l is with
  | zero =>
    rw [List.length_eq_zero_iff.mp (Nat.le_zero.mp long)]
    rfl
  | succ bound ih =>
    cases is with
    | nil =>
      simp only [countFrom, path.isNull, if_true]
      rfl
    | cons i is =>
      simp only [countFrom, Link.isNull_of_place? path.named, Bool.false_eq_true, if_false,
        bind_run, next_run_named p path.named, ih path.onward (by simpa using long), pure_run,
        List.length_cons]

theorem freeCount_run (path : Path p p.freeHead is) (once : is.Nodup) :
    freeCount p = .ok is.length p := by
  simp only [freeCount, bind_run, get_run]
  exact countFrom_run path (by simpa using once.length_le_card)

/-- Any segments hold calls, if nothing is asked of their data. -/
theorem fits_calls (p : Pool size n) (is : List (Fin size)) :
    Fits p is (is.map fun i => .call (p.segments.get i).data) := by
  induction is with
  | nil => exact .nil
  | cons i is ih => exact .call rfl ih

end Pool

theorem Tasks.savedHead_plain {ts ts' : Tasks} {task : TaskId} {head : Link}
    (saved : savedHead task ts = .ok head ts') : head.address = head := by
  obtain ⟨word, _, _, ran⟩ := ran_of_bind saved
  obtain ⟨_, _, _, ran⟩ := ran_of_bind ran
  cases ran
  rfl

namespace Kernel

variable {k k' k₁ : Kernel (Banks size n) n} {suspended : TaskId → Prop}
  {share : Owner n → List (Fin size)} {task : TaskId} {gone : List TaskId}

/-- The chain from the head that a task has on its stack. -/
def Chained (k : Kernel (Banks size n) n) (task : TaskId) (chain : List (Fin size)) : Prop :=
  ∃ head, Tasks.savedHead task k.storage.tasks = .ok head k.storage.tasks ∧
    Pool.Path k.storage.context.pool head chain

theorem Chained.unique {chain other : List (Fin size)} (first : k.Chained task chain)
    (second : k.Chained task other) : chain = other := by
  obtain ⟨head, saved, path⟩ := first
  obtain ⟨head', saved', path'⟩ := second
  rw [saved] at saved'
  cases saved'
  exact path.unique path'

/-- The chain of a task goes in front of the free list if all of it is in use, even an empty one. -/
theorem Chained.freeTask {chain : List (Fin size)} (chained : k.Chained task chain)
    (used : ∀ i ∈ chain, k.storage.context.pool.inUse.get i = true) :
    ∃ trace q, Kernel.freeTask task k = .ok () { k with
        board := { k.board with trace }
        storage := Banks.withPool k.storage q } ∧
      k.storage.context.pool.GivenBack q q.freeHead chain := by
  obtain ⟨head, saved, path⟩ := chained
  have plain := Tasks.savedHead_plain saved
  cases chain with
  | nil =>
    refine ⟨k.board.trace, k.storage.context.pool, ?_, rfl, rfl, by simp, fun _ _ => rfl, .here⟩
    simp only [Kernel.freeTask, freeChain, bind_run, onStorage, Storage.onTasks, saved, plain,
      path.isNull, if_true]
    rfl
  | cons i is =>
    obtain ⟨tail, q, r, passes, unmarked, spliced, given⟩ := Pool.giveBack_run path path.nodup used
    obtain ⟨trace, ran⟩ := freeTask_run saved plain (Link.isNull_of_place? path.named) passes
      unmarked spliced
    refine ⟨trace, r, ran, ?_⟩
    rw [given.freeHead]
    exact given

/-- Which segments are free, and which ones the cores and the suspended tasks have. -/
structure Shares (k : Kernel (Banks size n) n) (suspended : TaskId → Prop)
    (share : Owner n → List (Fin size)) : Prop where
  parts : Partition share
  free : Pool.Path k.storage.context.pool k.storage.context.pool.freeHead (share .free)
  live : ∀ c, Pool.Path k.storage.context.pool (k.storage.context.pool.links.get c)
    (share (.live c))
  saved : ∀ task, suspended task → k.Chained task (share (.saved task))
  awake : ∀ task, ¬suspended task → share (.saved task) = []
  inUse : ∀ i, k.storage.context.pool.inUse.get i = true ↔ i ∉ share .free

/-- The chains of some tasks. -/
def chainsOf (share : Owner n → List (Fin size)) (tasks : List TaskId) : List (Fin size) :=
  tasks.flatMap fun task => share (.saved task)

@[simp] theorem chainsOf_singleton (share : Owner n → List (Fin size)) (task : TaskId) :
    chainsOf share [task] = share (.saved task) := by
  simp [chainsOf]

/-- The chains of the tasks `gone` have been put in front of the free list, one after the other,
and nothing else has changed, apart from the trace and the queue of deleted tasks. -/
structure Reclaimed (k k' : Kernel (Banks size n) n) (share : Owner n → List (Fin size))
    (gone : List TaskId) : Prop where
  board : ∃ trace, k'.board = { k.board with trace }
  scheduler : k'.scheduler = k.scheduler
  storage : k'.storage = Banks.withPool k.storage k'.storage.context.pool
  links : k'.storage.context.pool.links = k.storage.context.pool.links
  inUse : ∀ i, k'.storage.context.pool.inUse.get i =
    if i ∈ chainsOf share gone then false else k.storage.context.pool.inUse.get i
  elsewhere : ∀ i, i ∉ chainsOf share gone →
    k'.storage.context.pool.segments.get i = k.storage.context.pool.segments.get i
  free : Pool.Path k'.storage.context.pool k'.storage.context.pool.freeHead
    (chainsOf share gone.reverse ++ share .free)

theorem partitioned_iff : Partitioned k suspended ↔ ∃ share, k.Shares suspended share :=
  ⟨fun ⟨share, parts, free, live, saved, awake, inUse⟩ =>
      ⟨share, parts, free, live, saved, awake, inUse⟩,
    fun ⟨share, parts, free, live, saved, awake, inUse⟩ =>
      ⟨share, parts, free, live, saved, awake, inUse⟩⟩

/-- What was shared out before the chain of a task went back. -/
def returned (share : Owner n → List (Fin size)) (task : TaskId) : Owner n → List (Fin size) :=
  update (update share (.saved task) []) .free (share (.saved task) ++ share .free)

theorem returned_saved_of_ne {other : TaskId} (apart : other ≠ task) :
    returned share task (.saved other) = share (.saved other) := by
  simp [returned, apart]

namespace Shares

/-- The same segments as an owner's chains each, with nothing said about what they hold. -/
theorem sharing (shares : k.Shares suspended share) :
    ∃ heads spills, k.storage.context.pool.Sharing heads share spills [] ∧
      ∀ task, suspended task →
        Tasks.savedHead task k.storage.tasks = .ok (heads task) k.storage.tasks := by
  have found (task : TaskId) : ∃ head, (suspended task →
      Tasks.savedHead task k.storage.tasks = .ok head k.storage.tasks) ∧
      Pool.Path k.storage.context.pool head (share (.saved task)) := by
    by_cases away : suspended task
    · obtain ⟨head, saved, path⟩ := shares.saved task away
      exact ⟨head, fun _ => saved, path⟩
    · rw [shares.awake task away]
      exact ⟨.null, fun away' => absurd away' away, .nil rfl⟩
  choose heads saved path using found
  refine ⟨heads, _, ⟨?_, fun o => ?_, fun o _ => Pool.fits_calls _ (share o), shares.inUse⟩, saved⟩
  · exact ⟨shares.parts.nodup, fun i _ => shares.parts.unique i, nofun, List.nodup_nil⟩
  · cases o with
    | free => exact shares.free
    | live c => exact shares.live c
    | saved task => exact path task

theorem not_mem (shares : k.Shares suspended share) {i : Fin size} {o o' : Owner n}
    (here : i ∈ share o) (apart : o' ≠ o) : i ∉ share o' := fun there =>
  apart ((shares.parts.unique i).unique there here)

theorem disjoint (shares : k.Shares suspended share) {o o' : Owner n} (apart : o' ≠ o) :
    (share o).Disjoint (share o') := fun _ here there => shares.not_mem here apart there

/-- The chains of some tasks have nothing in common with what none of them has. -/
theorem chains_disjoint (shares : k.Shares suspended share) {o : Owner n}
    (apart : ∀ task ∈ gone, o ≠ .saved task) : (chainsOf share gone).Disjoint (share o) := by
  intro i inside there
  obtain ⟨task, went, here⟩ := List.mem_flatMap.mp inside
  exact shares.not_mem here (apart task went) there

/-- The chain of a suspended task goes back. -/
theorem freeTask (shares : k.Shares suspended share) (away : suspended task) :
    ∃ k', Kernel.freeTask task k = .ok () k' ∧ k.Reclaimed k' share [task] ∧
      k'.deletions = k.deletions := by
  have used : ∀ i ∈ share (.saved task), k.storage.context.pool.inUse.get i = true := by
    intro i inside
    rw [shares.inUse]
    exact shares.not_mem inside (by simp)
  obtain ⟨trace, q, ran, given⟩ := (shares.saved task away).freeTask used
  have unwritten : ∀ i ∈ share .free, q.segments.get i = k.storage.context.pool.segments.get i :=
    fun i inside => given.elsewhere i (shares.not_mem inside (by simp))
  refine ⟨_, ran, ⟨⟨trace, rfl⟩, rfl, rfl, given.links, ?_, ?_, ?_⟩, rfl⟩
  · simpa using given.inUse
  · simpa using given.elsewhere
  · simpa using Pool.Path.append given.leads (shares.free.congr unwritten)

end Shares

namespace Reclaimed

theorem tasks (reclaimed : k.Reclaimed k' share gone) : k'.storage.tasks = k.storage.tasks := by
  rw [reclaimed.storage]
  rfl

/-- Nothing has gone back, whatever has been noted in the queue and the trace. -/
theorem nil (free : Pool.Path k.storage.context.pool k.storage.context.pool.freeHead (share .free))
    (trace : Trace) (deletions : DeletionQueue) :
    k.Reclaimed { k with board := { k.board with trace }, deletions } share [] :=
  ⟨⟨_, rfl⟩, rfl, rfl, rfl, by simp [chainsOf], fun _ _ => rfl, by simpa [chainsOf] using free⟩

/-- Once the chain of a task has gone back its segments are free. -/
theorem shares (reclaimed : k.Reclaimed k' share [task]) (shares : k.Shares suspended share) :
    k'.Shares (fun other => suspended other ∧ other ≠ task) (returned share task) := by
  obtain ⟨heads, spills, shared, saved⟩ := shares.sharing
  have elsewhere (o : Owner n) (apart : o ≠ .saved task) : ∀ i ∈ share o,
      k'.storage.context.pool.segments.get i = k.storage.context.pool.segments.get i :=
    fun i inside => reclaimed.elsewhere i (by simpa using shares.not_mem inside apart.symm)
  constructor
  · refine (shared.parts.transfer (.saved task) .free (share (.saved task)) (by simp) ?_ ?_
      ?_).partition
    · simp [returned]
    · simp [returned]
    · intro o notSaved notFree
      simp [returned, notSaved, notFree]
  · simpa [returned] using reclaimed.free
  · intro c
    rw [reclaimed.links]
    simpa [returned] using (shares.live c).congr (elsewhere _ (by simp))
  · rintro other ⟨away, apart⟩
    obtain ⟨head, saved, path⟩ := shares.saved other away
    rw [returned_saved_of_ne apart]
    refine ⟨head, ?_, path.congr (elsewhere _ (by simpa using apart))⟩
    rw [reclaimed.tasks, saved]
  · intro other stays
    by_cases mine : other = task
    · simp [returned, mine]
    · rw [returned_saved_of_ne mine]
      exact shares.awake other fun away => stays ⟨away, mine⟩
  · intro i
    have before := shares.inUse i
    rw [reclaimed.inUse]
    by_cases freed : i ∈ share (.saved task)
    · simp [returned, freed]
    · simpa [returned, freed] using before

/-- First one chain, then those of other tasks. -/
theorem cons (first : k.Reclaimed k₁ share [task])
    (rest : k₁.Reclaimed k' (returned share task) gone) (apart : task ∉ gone) :
    k.Reclaimed k' share (task :: gone) := by
  have others (tasks : List TaskId) (without : task ∉ tasks) :
      chainsOf (returned share task) tasks = chainsOf share tasks := by
    refine List.flatMap_congr fun other inside => returned_saved_of_ne ?_
    rintro rfl
    exact without inside
  have split : chainsOf share (task :: gone) = share (.saved task) ++ chainsOf share gone := rfl
  have same := others gone apart
  obtain ⟨trace, board⟩ := first.board
  obtain ⟨trace', board'⟩ := rest.board
  refine ⟨⟨trace', by rw [board', board]⟩, rest.scheduler.trans first.scheduler, ?_,
    rest.links.trans first.links, fun i => ?_, fun i outside => ?_, ?_⟩
  · rw [rest.storage, first.storage]
    rfl
  · rw [rest.inUse, first.inUse, same, split, chainsOf_singleton]
    by_cases here : i ∈ share (.saved task) <;> by_cases there : i ∈ chainsOf share gone <;>
      simp [here, there]
  · rw [split, List.mem_append, not_or] at outside
    rw [rest.elsewhere i (by rw [same]; exact outside.2),
      first.elsewhere i (by simpa using outside.1)]
  · have free := rest.free
    rw [others gone.reverse (by simpa using apart)] at free
    simpa [chainsOf, returned] using free

end Reclaimed

/-- Suspended tasks give back their chains one after the other. -/
theorem Shares.freeTasks (shares : k.Shares suspended share) (once : gone.Nodup)
    (away : ∀ task ∈ gone, suspended task) :
    ∃ k', Kernel.freeTasks gone k = .ok gone.length k' ∧ k.Reclaimed k' share gone := by
  induction gone generalizing k suspended share with
  | nil => exact ⟨k, rfl, .nil shares.free k.board.trace k.deletions⟩
  | cons task gone ih =>
    obtain ⟨outside, once⟩ := List.nodup_cons.mp once
    obtain ⟨k₁, freed, first, _⟩ := shares.freeTask (away task (by simp))
    obtain ⟨k', ran, rest⟩ := ih (first.shares shares) once fun other due => by
      refine ⟨away other (by simp [due]), ?_⟩
      rintro rfl
      exact outside due
    refine ⟨k', ?_, first.cons rest outside⟩
    simp only [Kernel.freeTasks, bind_run, freed, ran]
    rfl

/-- A suspended task that is not current is deleted at once, by either request. -/
theorem Shares.delete_left (shares : k.Shares suspended share)
    (left : k.scheduler.isCurrent task = false) (away : suspended task) :
    ∃ k', delete task k = .ok (.ok .done) k' ∧ deleteNow task k = .ok (.ok ()) k' ∧
      k.Reclaimed k' share [task] ∧ k'.deletions = k.deletions := by
  obtain ⟨k', freed, reclaimed, queue⟩ := shares.freeTask away
  refine ⟨k', ?_, ?_, reclaimed, queue⟩
  · rw [delete_run_left left, bind_run, freed]
    rfl
  · rw [deleteNow_run_left left, bind_run, freed]
    rfl

/-- A collection gives back the chains of the parked tasks that are not current. -/
theorem Shares.collect (shares : k.Shares suspended share) (once : k.deletions.parked.Nodup)
    (away : ∀ task ∈ k.deletions.due k.scheduler.isCurrent, suspended task) :
    ∃ k', Kernel.collect k = .ok (k.deletions.due k.scheduler.isCurrent).length k' ∧
      k.Reclaimed k' share (k.deletions.due k.scheduler.isCurrent) ∧
      k'.deletions = k.deletions.collected k.scheduler.isCurrent := by
  have emptied : Shares { k with deletions := k.deletions.collected k.scheduler.isCurrent }
      suspended share :=
    ⟨shares.parts, shares.free, shares.live, shares.saved, shares.awake, shares.inUse⟩
  obtain ⟨k', ran, reclaimed⟩ := emptied.freeTasks (once.filter _) away
  exact ⟨k', (collect_sameEnd k).ok_iff.mpr ran,
    ⟨reclaimed.board, reclaimed.scheduler, reclaimed.storage, reclaimed.links, reclaimed.inUse,
      reclaimed.elsewhere, reclaimed.free⟩, ((beneath_freeTasks _).keeps ran).2⟩

end Kernel

end Preempt
