import Preempt.Proofs.Segment.Reclaiming

/-!
The queue of deleted tasks as a bounded set. In any run that parks tasks, collects by any predicate
and otherwise leaves the queue alone, no task is parked twice, and the parked tasks are those that
were parked without those that were collected (`Queueing.accounts`). What a request or a collection
does next depends on that set and its size only, and not on which slots are free
(`Queueing.bounded_set`).
-/

namespace Preempt

open Preempt.Action Kernel

variable {size n capacity : Nat} {k k' : Kernel (Banks size n) n} {entered left : List TaskId}
  {task : TaskId} {tasks : List TaskId} {asks : TaskId → SegmentedM size n Bool}
  {current : TaskId → Bool}

namespace Kernel

/-- The tasks have chains that share no segment, all of them in use. -/
def Collectable (k : Kernel (Banks size n) n) (tasks : List TaskId) : Prop :=
  ∃ chains : TaskId → List (Fin size),
    (∀ task ∈ tasks, k.Chained task (chains task) ∧
      ∀ i ∈ chains task, k.storage.context.pool.inUse.get i = true) ∧
    tasks.Pairwise fun task other => (chains task).Disjoint (chains other)

/-- The first of the tasks gives back its chain and leaves the chains of the others alone. -/
theorem Collectable.freeTask (ready : k.Collectable (task :: tasks)) :
    ∃ k', Kernel.freeTask task k = .ok () k' ∧ k'.Collectable tasks := by
  obtain ⟨chains, each, apart⟩ := ready
  obtain ⟨away, apart⟩ := List.pairwise_cons.mp apart
  obtain ⟨chained, used⟩ := each task (by simp)
  obtain ⟨trace, q, ran, given⟩ := chained.freeTask used
  refine ⟨_, ran, chains, fun other later => ?_, apart⟩
  obtain ⟨⟨head, saved, path⟩, used⟩ := each other (by simp [later])
  have spared : ∀ i ∈ chains other, i ∉ chains task := fun i inside there =>
    away other later there inside
  refine ⟨⟨head, saved, path.congr fun i inside => given.elsewhere i (spared i inside)⟩,
    fun i inside => ?_⟩
  rw [Banks.pool_withPool, given.inUse, if_neg (spared i inside), used i inside]

theorem Collectable.freeTasks (ready : k.Collectable tasks) :
    ∃ k', Kernel.freeTasks tasks k = .ok tasks.length k' := by
  induction tasks generalizing k with
  | nil => exact ⟨k, rfl⟩
  | cons task tasks ih =>
    obtain ⟨k₁, freed, ready⟩ := ready.freeTask
    obtain ⟨k', ran⟩ := ih ready
    refine ⟨k', ?_⟩
    simp only [Kernel.freeTasks, bind_run, freed, ran]
    rfl

/-- A collection that completes has emptied the slots of the tasks that were due. -/
theorem deletions_of_collectWith (answers : k.Answers asks current) {count : Nat}
    (ran : collectWith size n asks k = .ok count k') :
    k'.deletions = k.deletions.collected current :=
  ((beneath_freeTasks _).keeps ((collectWith_sameEnd answers).ok_iff.mp ran)).2

/-- The answers to a request to park a task, each with when it is given. -/
theorem park_answers (k : Kernel (Banks size n) n) (task : TaskId) :
    (task ∈ k.deletions.parked ∧ Kernel.park task k = .ok (.error .alreadyParked) k) ∨
    (task ∉ k.deletions.parked ∧ k.deletions.count = k.deletions.capacity ∧
      Kernel.park task k = .ok (.error .queueFull) k) ∨
    (task ∉ k.deletions.parked ∧ k.deletions.count < k.deletions.capacity ∧ ∃ deletions,
      Kernel.park task k = .ok (.ok ()) { k with
        board := { k.board with trace := k.board.trace.push (.log (.deferred task)) }
        deletions } ∧ deletions.parked.Perm (task :: k.deletions.parked)) := by
  rw [park_run]
  by_cases known : task ∈ k.deletions.parked
  · exact .inl ⟨known, by rw [DeletionQueue.park_known known]⟩
  · rcases Nat.eq_or_lt_of_le k.deletions.count_le_capacity with full | room
    · exact .inr (.inl ⟨known, full, by rw [DeletionQueue.park_full known full]⟩)
    · obtain ⟨deletions, accepted⟩ := DeletionQueue.park_room known room
      exact .inr (.inr ⟨known, room, deletions, by rw [accepted],
        DeletionQueue.perm_parked_of_park accepted⟩)

/-- A request is refused and changes nothing, or its task joins the queue. -/
theorem park_ran {answer : Except Refusal Unit} (ran : Kernel.park task k = .ok answer k') :
    (∃ refusal, answer = .error refusal ∧ k' = k) ∨
    (answer = .ok () ∧ k.deletions.park task = .ok k'.deletions) := by
  rw [park_run] at ran
  cases accepted : k.deletions.park task with
  | error refusal =>
    rw [accepted] at ran
    cases ran
    exact .inl ⟨refusal, rfl, rfl⟩
  | ok after =>
    rw [accepted] at ran
    cases ran
    exact .inr ⟨rfl, rfl⟩

end Kernel

/-- The kernels that runs lead to from an empty queue of some capacity, with the tasks that have
been parked and the tasks that have been collected on the way, each as often as that happened. A
collection may ask anything of the tasks, and anything may happen that leaves the queue alone. -/
inductive Queueing (capacity : Nat) :
    Kernel (Banks size n) n → List TaskId → List TaskId → Prop
  | start {k : Kernel (Banks size n) n} (fresh : k.deletions = .ofCapacity capacity) :
      Queueing capacity k [] []
  | park {k k' : Kernel (Banks size n) n} {entered left : List TaskId} {task : TaskId}
      (before : Queueing capacity k entered left) (ran : Kernel.park task k = .ok (.ok ()) k') :
      Queueing capacity k' (task :: entered) left
  | refuse {k k' : Kernel (Banks size n) n} {entered left : List TaskId} {task : TaskId}
      {refusal : Refusal} (before : Queueing capacity k entered left)
      (ran : Kernel.park task k = .ok (.error refusal) k') : Queueing capacity k' entered left
  | collect {k k' : Kernel (Banks size n) n} {entered left : List TaskId}
      {asks : TaskId → SegmentedM size n Bool} {current : TaskId → Bool} {count : Nat}
      (before : Queueing capacity k entered left) (answers : k.Answers asks current)
      (ran : collectWith size n asks k = .ok count k') :
      Queueing capacity k' entered (k.deletions.due current ++ left)
  | elsewhere {k k' : Kernel (Banks size n) n} {entered left : List TaskId}
      (before : Queueing capacity k entered left) (same : k'.deletions = k.deletions) :
      Queueing capacity k' entered left

namespace DeletionQueue

variable {q after : DeletionQueue}

/-- No task is parked twice, and the parked tasks are those that entered and have not left. -/
structure Accounts (q : DeletionQueue) (capacity : Nat) (entered left : List TaskId) : Prop where
  slots : q.capacity = capacity
  once : q.parked.Nodup
  balance : entered.Perm (left ++ q.parked)

namespace Accounts

theorem start (capacity : Nat) : (ofCapacity capacity).Accounts capacity [] [] := by
  have none : (ofCapacity capacity).parked = [] := by simp [ofCapacity, parked]
  exact ⟨by simp [ofCapacity, DeletionQueue.capacity], by simp [none], by simp [none]⟩

theorem park (accounts : q.Accounts capacity entered left) (accepted : q.park task = .ok after) :
    after.Accounts capacity (task :: entered) left := by
  refine ⟨(capacity_of_park accepted).trans accounts.slots, nodup_park accepted accounts.once, ?_⟩
  have added := (perm_parked_of_park accepted).symm.append_left left
  exact (accounts.balance.cons task).trans (List.perm_middle.symm.trans added)

theorem collect (accounts : q.Accounts capacity entered left) (current : TaskId → Bool) :
    (q.collected current).Accounts capacity entered (q.due current ++ left) := by
  have split : (q.due current ++ q.parked.filter current).Perm q.parked :=
    List.perm_append_comm.trans (List.filter_append_perm current q.parked)
  refine ⟨?_, ?_, ?_⟩
  · simpa [collected, DeletionQueue.capacity] using accounts.slots
  · rw [parked_collected]
    exact accounts.once.filter current
  · rw [parked_collected, List.append_assoc]
    have moved := split.symm.append_left left
    exact accounts.balance.trans (moved.trans (List.perm_append_comm_assoc _ _ _))

end Accounts

end DeletionQueue

namespace Queueing

theorem accounts (run : Queueing capacity k entered left) :
    k.deletions.Accounts capacity entered left := by
  induction run with
  | start fresh =>
    rw [fresh]
    exact .start capacity
  | park _ ran ih =>
    obtain ⟨_, refused, _⟩ | ⟨_, accepted⟩ := park_ran ran
    · cases refused
    · exact ih.park accepted
  | refuse _ ran ih =>
    obtain ⟨_, _, rfl⟩ | ⟨done, _⟩ := park_ran ran
    · exact ih
    · cases done
  | @collect _ _ _ _ _ current _ _ answers ran ih =>
    rw [deletions_of_collectWith answers ran]
    exact ih.collect current
  | elsewhere _ same ih => rwa [same]

/-- Whatever was parked and collected before, the parked tasks are distinct, at most as many as the
capacity, and those that entered without those that left. A task that is parked is refused as such,
also when the queue is full; any other is refused if the queue is full, and otherwise joins. A
collection takes out all tasks that are not current and gives back the chain of each. -/
theorem bounded_set (run : Queueing capacity k entered left) :
    k.deletions.parked.Nodup ∧ k.deletions.count = k.deletions.parked.length ∧
    k.deletions.count ≤ capacity ∧ entered.Perm (left ++ k.deletions.parked) ∧
    (∀ task,
      (Kernel.park task k = .ok (.error .alreadyParked) k ↔ task ∈ k.deletions.parked) ∧
      (Kernel.park task k = .ok (.error .queueFull) k ↔
        task ∉ k.deletions.parked ∧ k.deletions.count = capacity) ∧
      (task ∉ k.deletions.parked ∧ k.deletions.count ≠ capacity → ∃ deletions,
        Kernel.park task k = .ok (.ok ()) { k with
          board := { k.board with trace := k.board.trace.push (.log (.deferred task)) }
          deletions } ∧ deletions.parked.Perm (task :: k.deletions.parked))) ∧
    ∀ (asks : TaskId → SegmentedM size n Bool) (current : TaskId → Bool),
      k.Answers asks current → k.Collectable (k.deletions.due current) → ∃ k',
        collectWith size n asks k = .ok (k.deletions.due current).length k' ∧
        freeTasks (k.deletions.due current)
            { k with deletions := k.deletions.collected current } =
          .ok (k.deletions.due current).length k' ∧
        k'.deletions.parked = k.deletions.parked.filter current := by
  have accounts := run.accounts
  refine ⟨accounts.once, k.deletions.count_eq_length_parked,
    accounts.slots ▸ k.deletions.count_le_capacity, accounts.balance, fun task => ?_,
    fun asks current answers ready => ?_⟩
  · have slots := accounts.slots
    rcases park_answers k task with ⟨known, ran⟩ | ⟨new, full, ran⟩ | ⟨new, room, joins⟩
    · simp [ran, known]
    · simp [ran, new, full, slots]
    · have some : k.deletions.count ≠ capacity := by omega
      have ⟨deletions, ran, _⟩ := joins
      exact ⟨by simp [ran, new], by simp [ran, some], fun _ => joins⟩
  · have emptied : Collectable { k with deletions := k.deletions.collected current }
        (k.deletions.due current) := ready
    obtain ⟨k', ran⟩ := emptied.freeTasks
    have collected := (collectWith_sameEnd answers).ok_iff.mpr ran
    refine ⟨k', collected, ran, ?_⟩
    rw [deletions_of_collectWith answers collected, DeletionQueue.parked_collected]

/-- With room for one task another is refused, until the first has been collected. -/
theorem bounded_set_one_slot : ∃ k k₁ k₂ : Kernel (Banks 4 1) 1,
    Queueing 1 k [0] [] ∧ Kernel.park 0 k = .ok (.error .alreadyParked) k ∧
    Kernel.park 1 k = .ok (.error .queueFull) k ∧
    collectWith 4 1 (fun _ => (pure false : SegmentedM 4 1 Bool)) k = .ok 1 k₁ ∧
    Queueing 1 k₁ [0] [0] ∧ Kernel.park 1 k₁ = .ok (.ok ()) k₂ ∧ k₂.deletions.parked = [1] := by
  obtain ⟨_, k₀, k, _, _, fresh, parked, queue, chained, used₀, used₁⟩ :
      ∃ (booted k₀ k : Kernel (Banks 4 1) 1),
        Kernel.boot 0 { queues := #v[[0]], stackSizes := #[8], deletionCapacity := 1 } {} =
          .ok booted ∧
        createSegmented 0 (.num 4) (.num 5) booted = .ok (.ok ()) k₀ ∧
        k₀.deletions = .ofCapacity 1 ∧ Kernel.park 0 k₀ = .ok (.ok ()) k ∧
        k.deletions = ⟨[some 0]⟩ ∧ k.Chained 0 [0, 1] ∧
        k.storage.context.pool.inUse.get 0 = true ∧ k.storage.context.pool.inUse.get 1 = true :=
    ⟨_, _, _, by with_unfolding_all rfl, by with_unfolding_all rfl, rfl,
      by with_unfolding_all rfl, rfl, ⟨.ofIndex 0, by with_unfolding_all rfl, by decide⟩, rfl, rfl⟩
  have run := (Queueing.start fresh).park parked
  have due : k.deletions.due (fun _ => false) = [0] := by rw [queue]; rfl
  obtain ⟨_, _, _, _, asked, collects⟩ := run.bounded_set
  obtain ⟨k₁, collected, _, left⟩ := collects _ _ (k.answers_pure fun _ => false)
    (by rw [due]; exact ⟨fun _ => [0, 1], by simp [chained, used₀, used₁], by simp⟩)
  have run₁ := run.collect (k.answers_pure fun _ => false) collected
  rw [due] at collected run₁
  have none : k₁.deletions.parked = [] := by simpa using left
  obtain ⟨deletions, joins, added⟩ := (run₁.bounded_set.2.2.2.2.1 1).2.2
    (by simp [none, DeletionQueue.count_eq_length_parked])
  refine ⟨k, k₁, _, run, (asked 0).1.mpr ?_, (asked 1).2.1.mpr ?_, collected, run₁, joins, ?_⟩
  · rw [queue]; decide
  · rw [queue]; decide
  · rw [none] at added
    exact List.perm_singleton.mp added

end Queueing

end Preempt
