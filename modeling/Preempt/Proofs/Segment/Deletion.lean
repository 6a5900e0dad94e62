import Preempt.Proofs.Segment.Collecting
import Preempt.Proofs.Segment.Runs
import Preempt.Proofs.Steady

/-!
Deleting tasks in whole runs. A tally counts how often a context was made for each task and how
often its chain went back. While a task that is parked already is deleted again only as long as it
is current, every chain goes back once. Deleted again after that, it goes back at once and stays
parked, and the next collection halts.
-/

namespace Preempt

open Function (update)
open Preempt.Action Kernel

variable {size n : Nat} {κ α : Type}

namespace Kernel

/-- The queue of deleted tasks stays as it is. -/
def SameQueue (k k' : Kernel κ n) : Prop := k'.deletions = k.deletions

instance : IsPreorder (Kernel κ n) SameQueue where
  refl _ := rfl
  trans _ _ _ first second := second.trans first

theorem sameQueue_onBoard (action : BoardM n α) :
    Within SameQueue (onBoard action : KernelM κ n α) := by
  intro k
  unfold onBoard
  cases action k.board <;> rfl

theorem sameQueue_onStorage (action : StorageM κ α) :
    Within SameQueue (onStorage action : KernelM κ n α) := by
  intro k
  unfold onStorage
  cases action k.storage <;> rfl

theorem sameQueue_currentTask (c : Fin n) :
    Within SameQueue (currentTask c : KernelM κ n TaskId) :=
  within_get.bind fun _ => within_pure _

theorem sameQueue_choosing (choice : Choice) (c : Fin n) :
    Within SameQueue (choosing choice c : KernelM κ n Unit) :=
  (sameQueue_onBoard _).bind fun _ _ => rfl

theorem sameQueue_withMask {action : KernelM κ n α} (same : Within SameQueue action) :
    Within SameQueue (Board.withMask n action) :=
  (sameQueue_onBoard Board.saveMask).bind fun wasEnabled => same.bind fun _ =>
    (sameQueue_onBoard (Board.restoreMask wasEnabled)).bind fun _ => within_pure _

theorem sameQueue_createFrom (task : TaskId) (sp entry argument : Word) :
    Within SameQueue (createFrom task sp entry argument : SegmentedM size n _) := by
  refine Within.bind ?_ fun answer => ?_
  · refine (sameQueue_withMask (sameQueue_onStorage _)).bind fun pair => ?_
    rcases pair with refusal | ⟨lower, upper⟩
    · exact within_pure _
    · exact (sameQueue_onStorage _).bind fun _ => (sameQueue_onStorage _).bind fun _ =>
        (sameQueue_onBoard _).bind fun _ => within_pure _
  · cases answer with
    | error refusal => exact within_pure _
    | ok top => exact (sameQueue_onStorage _).bind fun _ => within_pure _

variable [SwitchPrimitives κ]

theorem sameQueue_resume (c : Fin n) (task : TaskId) (depth : TrapDepth) :
    Within SameQueue (resume c task depth : KernelM κ n Resumption) := by
  refine Within.bind ((sameQueue_onBoard _).bind fun _ => sameQueue_onStorage _) fun r => ?_
  exact (sameQueue_onBoard _).bind fun _ =>
    within_ite ((sameQueue_onBoard _).bind fun _ => within_pure _) (within_pure _)

theorem sameQueue_switchWith (choice : Choice) (c : Fin n) (depth : TrapDepth) :
    Within SameQueue (switchWith (choosing choice) c depth : KernelM κ n Resumption) := by
  refine (sameQueue_onBoard _).bind fun _ => (sameQueue_onBoard _).bind fun _ =>
    (sameQueue_currentTask c).bind fun outgoing => (sameQueue_onBoard _).bind fun core =>
      Within.bind ((sameQueue_onBoard _).bind fun _ => sameQueue_onStorage _) fun _ => ?_
  exact (sameQueue_choosing choice c).bind fun _ => (sameQueue_currentTask c).bind fun incoming =>
    (sameQueue_resume c incoming depth).bind fun _ => (sameQueue_onBoard _).bind fun _ =>
      (sameQueue_onBoard _).bind fun _ => within_pure _

theorem sameQueue_enterFirst (c : Fin n) (depth : TrapDepth) :
    Within SameQueue (enterFirst c depth : KernelM κ n Resumption) :=
  (sameQueue_onBoard _).bind fun _ => (sameQueue_currentTask c).bind fun task =>
    (sameQueue_onBoard _).bind fun _ => sameQueue_resume c task depth

end Kernel

/-- The operations on contexts other than giving a chain back leave the queue alone. -/
theorem Operation.deletions_eq {op : Operation n} {k k' : Kernel (Banks size n) n}
    {answer : Answer} (ran : op.perform k = .ok answer k') (notFree : ∀ task, op ≠ .free task) :
    k'.deletions = k.deletions := by
  have same : Within SameQueue (op.perform : SegmentedM size n Answer) := by
    cases op with
    | create task sp entry argument =>
      exact (sameQueue_createFrom task sp entry argument).bind fun _ => within_pure _
    | enterTrap | enterCall | leaveTrap | leaveCall =>
      exact (sameQueue_onStorage _).bind fun _ => within_pure _
    | switch c choice depth =>
      exact (sameQueue_switchWith choice c depth).bind fun _ => within_pure _
    | enterFirst c => exact (sameQueue_enterFirst c 0).bind fun _ => within_pure _
    | free task => exact absurd rfl (notFree task)
  have ended := same k
  rwa [ran] at ended

/-- How often a context was made for each task, and how often its chain went back. -/
structure Tally where
  made : TaskId → Nat := fun _ => 0
  returned : TaskId → Nat := fun _ => 0

namespace Tally

def after (t : Tally) : Operation n → Answer → Tally
  | .create task .., .done => { t with made := update t.made task (t.made task + 1) }
  | _, _ => t

def giveBack (t : Tally) (gone : List TaskId) : Tally :=
  { t with returned := fun task => t.returned task + gone.count task }

end Tally

/-- The task whose chain goes back at once, by the answer of a deletion. -/
def Deletion.gone (task : TaskId) : Except Refusal Deletion → List TaskId
  | .ok .done => [task]
  | _ => []

/-- The kernels that runs with deletions lead to, with their ledgers and tallies. A task may be
deleted that has a context; one that is parked may be deleted again as long as it is current. -/
inductive Deleting : Kernel (Banks size n) n → Ledger n → Tally → Prop
  | boot {core : Fin n} {b : Kernel.Boot n} {k : Kernel (Banks size n) n}
      (booted : Kernel.boot core b {} = .ok k) : Deleting k {} {}
  | perform {k k' : Kernel (Banks size n) n} {L L' : Ledger n} {t : Tally} {op : Operation n}
      {answer : Answer} (before : Deleting k L t) (issued : L.Step k op answer L')
      (notFree : ∀ task, op ≠ .free task) (ran : op.perform k = .ok answer k') :
      Deleting k' L' (t.after op answer)
  | delete {k k' : Kernel (Banks size n) n} {L : Ledger n} {t : Tally} {task : TaskId}
      {answer : Except Refusal Deletion} (before : Deleting k L t) (has : k.Has L.saved task)
      (again : task ∈ k.deletions.parked → k.scheduler.isCurrent task = true)
      (ran : Kernel.delete task k = .ok answer k') :
      Deleting k' (L.freed (Deletion.gone task answer)) (t.giveBack (Deletion.gone task answer))
  | deleteNow {k k' : Kernel (Banks size n) n} {L : Ledger n} {t : Tally} {task : TaskId}
      {answer : Except Refusal Unit} (before : Deleting k L t) (has : k.Has L.saved task)
      (again : task ∈ k.deletions.parked → k.scheduler.isCurrent task = true)
      (ran : Kernel.deleteNow task k = .ok answer k') :
      Deleting k' (L.freed (Deletion.gone task (answer.map fun _ => .done)))
        (t.giveBack (Deletion.gone task (answer.map fun _ => .done)))
  | collect {k k' : Kernel (Banks size n) n} {L : Ledger n} {t : Tally} {count : Nat}
      (before : Deleting k L t) (ran : Kernel.collect k = .ok count k') :
      Deleting k' (L.freed (k.deletions.due k.scheduler.isCurrent))
        (t.giveBack (k.deletions.due k.scheduler.isCurrent))
  | elsewhere {k k' : Kernel (Banks size n) n} {L : Ledger n} {t : Tally}
      (before : Deleting k L t) (quiet : Elsewhere (fun task => L.saved task ≠ none) k k')
      (same : k'.deletions = k.deletions) : Deleting k' L t

/-- A task that has a context and is not current is suspended. -/
theorem Kernel.Has.suspended {β : Type} {k : Kernel κ n} {suspended : TaskId → Option β}
    {task : TaskId} (has : k.Has suspended task) (left : k.scheduler.isCurrent task = false) :
    suspended task ≠ none := by
  rcases has with saved | ⟨c, runs⟩
  · exact saved
  · have current := (k.scheduler.isCurrent_iff task).mpr ⟨c, runs.2⟩
    rw [left] at current
    cases current

/-- Every parked task has its context, and every context that was made is there or went back. -/
structure Settled (k : Kernel (Banks size n) n) (L : Ledger n) (t : Tally) : Prop where
  custody : Custody k L
  once : k.deletions.parked.Nodup
  parked : ∀ task ∈ k.deletions.parked, k.Has L.saved task
  balance : ∀ task, (k.Has L.saved task ∧ t.made task = t.returned task + 1) ∨
    (¬k.Has L.saved task ∧ t.made task = t.returned task)

namespace Kernel

variable {k : Kernel (Banks size n) n} {task : TaskId}

/-- A task that some core runs is parked, if the queue takes it. -/
theorem park_run (task : TaskId) (k : Kernel (Banks size n) n) :
    park task k = match k.deletions.park task with
      | .error refusal => .ok (.error refusal) k
      | .ok deletions => .ok (.ok ()) { k with
          board := { k.board with trace := k.board.trace.push (.log (.deferred task)) }
          deletions } := by
  simp only [park, Action.bind_run, Action.get_run]
  cases k.deletions.park task <;> rfl

theorem delete_run_current (current : k.scheduler.isCurrent task = true) :
    delete task k = match k.deletions.park task with
      | .error refusal => .ok (.error refusal) k
      | .ok deletions => .ok (.ok .parked) { k with
          board := { k.board with trace := k.board.trace.push (.log (.deferred task)) }
          deletions } := by
  simp only [delete, Action.bind_run, isCurrent, Action.get_run, Action.pure_run, current, if_true,
    park_run]
  cases k.deletions.park task <;> rfl

theorem delete_run_left (left : k.scheduler.isCurrent task = false) :
    delete task k = (do
      freeTask task
      return .ok .done : SegmentedM size n (Except Refusal Deletion)) k := by
  simp only [delete, Action.bind_run, isCurrent, Action.get_run, Action.pure_run, left,
    Bool.false_eq_true, if_false]

theorem deleteNow_run_current (current : k.scheduler.isCurrent task = true) :
    deleteNow task k = .ok (.error .contextInUse) k := by
  simp only [deleteNow, Action.bind_run, isCurrent, Action.get_run, Action.pure_run, current,
    if_true]

theorem deleteNow_run_left (left : k.scheduler.isCurrent task = false) :
    deleteNow task k = (do
      freeTask task
      return .ok () : SegmentedM size n (Except Refusal Unit)) k := by
  simp only [deleteNow, Action.bind_run, isCurrent, Action.get_run, Action.pure_run, left,
    Bool.false_eq_true, if_false]

end Kernel

namespace Settled

variable {k k' : Kernel (Banks size n) n} {L L' : Ledger n} {t : Tally} {task : TaskId}

/-- No context comes or goes. -/
theorem same (settled : Settled k L t) (custody : Custody k' L')
    (deletions : k'.deletions = k.deletions)
    (has : ∀ task, k'.Has L'.saved task ↔ k.Has L.saved task) : Settled k' L' t := by
  refine ⟨custody, ?_, ?_, ?_⟩
  · rw [deletions]
    exact settled.once
  · rw [deletions]
    exact fun task parked => (has task).mpr (settled.parked task parked)
  · intro task
    rw [has]
    exact settled.balance task

theorem suspended_of_due (settled : Settled k L t)
    (due : task ∈ k.deletions.due k.scheduler.isCurrent) : L.saved task ≠ none := by
  obtain ⟨parked, left⟩ := (DeletionQueue.mem_due _ _ task).mp due
  exact (settled.parked task parked).suspended left

/-- The contexts of some suspended tasks go. -/
theorem giveBack (settled : Settled k L t) {gone : List TaskId}
    (custody : Custody k' (L.freed gone)) (calm : k.Calm k') (once : gone.Nodup)
    (suspended : ∀ task ∈ gone, L.saved task ≠ none)
    (fewer : k'.deletions.parked.Nodup)
    (left : ∀ task ∈ k'.deletions.parked, task ∈ k.deletions.parked ∧ task ∉ gone) :
    Settled k' (L.freed gone) (t.giveBack gone) := by
  have has (task : TaskId) :
      k'.Has (L.freed gone).saved task ↔ k.Has L.saved task ∧ task ∉ gone := by
    rw [calm.has_iff]
    by_cases went : task ∈ gone
    · have idle : ¬∃ c, k.Runs c task := fun ⟨c, runs⟩ =>
        suspended task went (settled.custody.own runs)
      simp [Has, Ledger.freed, went, idle]
    · simp [Has, Ledger.freed, went]
  refine ⟨custody, fewer, fun task parked => ?_, fun task => ?_⟩
  · obtain ⟨before, stays⟩ := left task parked
    exact (has task).mpr ⟨settled.parked task before, stays⟩
  · rw [has]
    by_cases went : task ∈ gone
    · have count : gone.count task = 1 := List.count_eq_one_of_mem once went
      rcases settled.balance task with ⟨_, made⟩ | ⟨lacks, _⟩
      · exact Or.inr ⟨fun held => held.2 went, by simp [Tally.giveBack, count, made]⟩
      · exact absurd (Or.inl (suspended task went)) lacks
    · have count : gone.count task = 0 := List.count_eq_zero.mpr went
      rcases settled.balance task with ⟨held, made⟩ | ⟨lacks, made⟩
      · exact Or.inl ⟨⟨held, went⟩, by simp [Tally.giveBack, count, made]⟩
      · exact Or.inr ⟨fun held => lacks held.1, by simp [Tally.giveBack, count, made]⟩

/-- A context is made for a task that had none. -/
theorem created (settled : Settled k L t) {sp entry argument : Word} {s : Suspension}
    (custody : Custody k' (L.withSaved task (some s))) (calm : k.Calm k')
    (deletions : k'.deletions = k.deletions) (absent : L.saved task = none)
    (idle : ∀ c, ¬k.Runs c task) :
    Settled k' (L.withSaved task (some s))
      (t.after (.create task sp entry argument : Operation n) .done) := by
  have has (other : TaskId) : k'.Has (L.withSaved task (some s)).saved other ↔
      other = task ∨ k.Has L.saved other := by
    rw [calm.has_iff, Has, Ledger.saved_withSaved]
    by_cases mine : other = task <;> simp [mine, Has]
  have lacked : ¬k.Has L.saved task := by
    rintro (saved | ⟨c, runs⟩)
    · exact saved absent
    · exact idle c runs
  refine ⟨custody, by rw [deletions]; exact settled.once, fun other parked => ?_, fun other => ?_⟩
  · rw [deletions] at parked
    exact (has other).mpr (Or.inr (settled.parked other parked))
  · rw [has]
    by_cases mine : other = task
    · subst mine
      rcases settled.balance other with ⟨held, _⟩ | ⟨_, made⟩
      · exact absurd held lacked
      · exact Or.inl ⟨Or.inl rfl, by simp [Tally.after, made]⟩
    · simpa [Tally.after, mine] using settled.balance other

theorem perform (settled : Settled k L t) {op : Operation n} {answer : Answer}
    (issued : L.Step k op answer L') (notFree : ∀ task, op ≠ .free task)
    (ran : op.perform k = .ok answer k') : Settled k' L' (t.after op answer) := by
  have custody := settled.custody
  have custody' := custody.follow issued ran
  have deletions := Operation.deletions_eq ran notFree
  have onStack {c : Fin n} {stack : List Spill} (calm : k.Calm k')
      (after : Custody k' (L.withLive c stack)) : Settled k' (L.withLive c stack) t :=
    settled.same after deletions (calm.has_iff L.saved)
  cases issued with
  | @created task sp entry argument absent idle room =>
    rcases custody.create absent idle room entry argument with
      ⟨k₁, ran₁, _, calm⟩ | ⟨k₁, ran₁, _, calm⟩
    · rw [ran] at ran₁
      cases ran₁
      exact settled.created custody' calm deletions absent idle
    · rw [ran] at ran₁
      cases ran₁
  | @notCreated task sp entry argument absent idle room =>
    rcases custody.create absent idle room entry argument with
      ⟨k₁, ran₁, _, calm⟩ | ⟨k₁, ran₁, _, calm⟩
    · rw [ran] at ran₁
      cases ran₁
    · rw [ran] at ran₁
      cases ran₁
      exact settled.same custody' deletions (calm.has_iff L.saved)
  | @trapped c enabled =>
    rcases custody.enterTrap c enabled with ⟨b, ran₁, _⟩ | ⟨b, _, ran₁, _⟩ | ⟨_, ran₁⟩
    all_goals
      rw [ran] at ran₁
      cases ran₁
    exact onStack ⟨rfl, fun _ => rfl⟩ custody'
  | @halfTrapped c enabled left =>
    rcases custody.enterTrap c enabled with ⟨b, ran₁, _⟩ | ⟨b, _, ran₁, _⟩ | ⟨full, _⟩
    · rw [ran] at ran₁
      cases ran₁
    · rw [ran] at ran₁
      cases ran₁
      exact onStack ⟨rfl, fun _ => rfl⟩ custody'
    · exact absurd full (by simp [left])
  | @notTrapped c enabled full =>
    rcases custody.enterTrap c enabled with ⟨b, ran₁, _⟩ | ⟨b, left, _⟩ | ⟨_, ran₁⟩
    · rw [ran] at ran₁
      cases ran₁
    · exact absurd full (by simp [left])
    · rw [ran] at ran₁
      cases ran₁
      exact settled
  | @called c =>
    rcases custody.enterCall c with ⟨b, ran₁, _⟩ | ran₁
    all_goals
      rw [ran] at ran₁
      cases ran₁
    exact onStack ⟨rfl, fun _ => rfl⟩ custody'
  | @notCalled c =>
    rcases custody.enterCall c with ⟨b, ran₁, _⟩ | ran₁
    all_goals
      rw [ran] at ran₁
      cases ran₁
    exact settled
  | leftTrap top =>
    obtain ⟨b, ran₁, _⟩ := custody.leaveTrap top
    rw [ran] at ran₁
    cases ran₁
    exact onStack ⟨rfl, fun _ => rfl⟩ custody'
  | leftCall top =>
    obtain ⟨b, ran₁, _⟩ := custody.leaveCall top
    rw [ran] at ran₁
    cases ran₁
    exact onStack ⟨rfl, fun _ => rfl⟩ custody'
  | @switched c choice depth calls old new top plain deep nesting room suspended =>
    cases state : (k.board.cores.get c).state with
    | switching => exact absurd state (custody.settled c)
    | notStarted =>
      have halted := Kernel.switchWith_run_notStarted depth (Kernel.choosing choice) state
      rw [Operation.perform, Custody.unanswered (f := .resumed) halted] at ran
      cases ran
    | running =>
      obtain ⟨k₁, ran₁, _, goesOn⟩ := custody.switch state top plain deep nesting room suspended
      rw [ran] at ran₁
      cases ran₁
      have others (other : TaskId) (apart : other ≠ k.scheduler.current c) :
          (L.suspend c calls (k.scheduler.current c) old).saved other = L.saved other := by
        simp [Ledger.suspend, Ledger.saved_withSaved, apart]
      refine settled.same custody' deletions (goesOn.has_switched state others ?_ ?_
        (Ledger.saved_resume _ c _ · new))
      · simp [Ledger.suspend, Ledger.saved_withSaved]
      · simp [suspended]
  | @entered c new null suspended =>
    obtain ⟨k₁, ran₁, _, goesOn⟩ := custody.enterFirst null suspended
    rw [ran] at ran₁
    cases ran₁
    refine settled.same custody' deletions (goesOn.has_entered (fun task runs => ?_)
      (by simp [suspended]) (Ledger.saved_resume _ c _ · new))
    rw [← runs.2] at runs
    simp [custody.own runs] at suspended
  | freed _ => exact absurd rfl (notFree _)

theorem freeTask (settled : Settled k L t) (suspended : L.saved task ≠ none)
    (outside : task ∉ k.deletions.parked) (ran : Kernel.freeTask task k = .ok () k') :
    Settled k' (L.freed [task]) (t.giveBack [task]) := by
  obtain ⟨trace, r, head, ran₁, custody', _⟩ := settled.custody.freeTask suspended
  rw [ran] at ran₁
  cases ran₁
  refine settled.giveBack (by rwa [L.freed_singleton]) ⟨rfl, fun _ => rfl⟩ (List.nodup_singleton _)
    (by simpa using suspended) settled.once fun other parked => ⟨parked, ?_⟩
  rintro went
  rw [List.mem_singleton.mp went] at parked
  exact outside parked

/-- Nothing is given back. -/
theorem unchanged (settled : Settled k L t) : Settled k (L.freed []) (t.giveBack []) := by
  simpa [Tally.giveBack] using settled

theorem park (settled : Settled k L t) (has : k.Has L.saved task) {deletions : DeletionQueue}
    (accepted : k.deletions.park task = .ok deletions) (trace : Trace) :
    Settled { k with board := { k.board with trace }, deletions } L t := by
  refine ⟨settled.custody.calm ⟨rfl, fun _ => rfl⟩ settled.custody.kept fun runs =>
    settled.custody.own runs, DeletionQueue.nodup_park accepted settled.once,
    fun other parked => ?_, settled.balance⟩
  rcases (DeletionQueue.mem_parked_of_park accepted other).mp parked with rfl | before
  · exact has
  · exact settled.parked other before

theorem delete (settled : Settled k L t) (has : k.Has L.saved task)
    (again : task ∈ k.deletions.parked → k.scheduler.isCurrent task = true)
    {answer : Except Refusal Deletion} (ran : Kernel.delete task k = .ok answer k') :
    Settled k' (L.freed (Deletion.gone task answer)) (t.giveBack (Deletion.gone task answer)) := by
  cases current : k.scheduler.isCurrent task with
  | true =>
    rw [delete_run_current current] at ran
    split at ran
    · cases ran
      exact settled.unchanged
    · rename_i deletions accepted
      cases ran
      exact (settled.park has accepted _).unchanged
  | false =>
    have suspended := has.suspended current
    obtain ⟨trace, r, head, freed, _⟩ := settled.custody.freeTask suspended
    rw [delete_run_left current, Action.bind_run, freed] at ran
    cases ran
    exact settled.freeTask suspended (fun parked => by simp [again parked] at current) freed

theorem deleteNow (settled : Settled k L t) (has : k.Has L.saved task)
    (again : task ∈ k.deletions.parked → k.scheduler.isCurrent task = true)
    {answer : Except Refusal Unit} (ran : Kernel.deleteNow task k = .ok answer k') :
    Settled k' (L.freed (Deletion.gone task (answer.map fun _ => .done)))
      (t.giveBack (Deletion.gone task (answer.map fun _ => .done))) := by
  cases current : k.scheduler.isCurrent task with
  | true =>
    rw [deleteNow_run_current current] at ran
    cases ran
    exact settled.unchanged
  | false =>
    have suspended := has.suspended current
    obtain ⟨trace, r, head, freed, _⟩ := settled.custody.freeTask suspended
    rw [deleteNow_run_left current, Action.bind_run, freed] at ran
    cases ran
    exact settled.freeTask suspended (fun parked => by simp [again parked] at current) freed

theorem collect (settled : Settled k L t) {count : Nat}
    (ran : Kernel.collect k = .ok count k') :
    Settled k' (L.freed (k.deletions.due k.scheduler.isCurrent))
      (t.giveBack (k.deletions.due k.scheduler.isCurrent)) := by
  obtain ⟨k₁, ran₁, custody', calm, collected⟩ :=
    settled.custody.collect_run settled.once fun _ due => settled.suspended_of_due due
  rw [ran] at ran₁
  cases ran₁
  have parked : k'.deletions.parked = k.deletions.parked.filter k.scheduler.isCurrent := by
    rw [collected, DeletionQueue.parked_collected]
  refine settled.giveBack custody' calm (settled.once.filter _)
    (fun _ due => settled.suspended_of_due due) ?_ fun task stays => ?_
  · rw [parked]
    exact settled.once.filter _
  · rw [parked, List.mem_filter] at stays
    refine ⟨stays.1, fun due => ?_⟩
    have left := ((DeletionQueue.mem_due _ _ task).mp due).2
    rw [stays.2] at left
    cases left

theorem elsewhere (settled : Settled k L t)
    (quiet : Elsewhere (fun task => L.saved task ≠ none) k k')
    (same : k'.deletions = k.deletions) : Settled k' L t :=
  settled.same (quiet.custody settled.custody) same (quiet.calm.has_iff L.saved)

theorem boot (small : size < segmentNumbers) {core : Fin n} {b : Kernel.Boot n}
    (booted : Kernel.boot core b {} = .ok k) : Settled k {} {} := by
  have custody := Custody.boot small booted
  obtain ⟨rate, scheduler, _, rfl⟩ := Kernel.eq_of_boot booted
  have empty : (DeletionQueue.ofCapacity b.deletionCapacity).parked = [] := by
    simp [DeletionQueue.parked, DeletionQueue.ofCapacity]
  refine ⟨custody, by simp [empty], by simp [empty], fun task => Or.inr ⟨?_, rfl⟩⟩
  rintro (saved | ⟨c, runs⟩)
  · exact saved rfl
  · have started := runs.1
    simp at started

end Settled

theorem Deleting.settled {k : Kernel (Banks size n) n} {L : Ledger n} {t : Tally}
    (run : Deleting k L t) (small : size < segmentNumbers) : Settled k L t := by
  induction run with
  | boot booted => exact .boot small booted
  | perform _ issued notFree ran ih => exact ih.perform issued notFree ran
  | delete _ has again ran ih => exact ih.delete has again ran
  | deleteNow _ has again ran ih => exact ih.deleteNow has again ran
  | collect _ ran ih => exact ih.collect ran
  | elsewhere _ quiet same ih => exact ih.elsewhere quiet same

/-- What comes of deleting a parked task again. While it is current nothing changes. After that its
chain goes back while it stays parked, and the next collection halts. -/
structure Retried (k : Kernel (Banks size n) n) (task : TaskId) : Prop where
  current : k.scheduler.isCurrent task = true →
    delete task k = .ok (.error .alreadyParked) k ∧ deleteNow task k = .ok (.error .contextInUse) k
  left : k.scheduler.isCurrent task = false → ∃ k₁ k₂,
    delete task k = .ok (.ok .done) k₁ ∧ deleteNow task k = .ok (.ok ()) k₁ ∧
    task ∈ k₁.deletions.parked ∧ collect k₁ = .error (.violation .releasedContextReclaimed) k₂

theorem Settled.retried {k : Kernel (Banks size n) n} {L : Ledger n} {t : Tally} {task : TaskId}
    (settled : Settled k L t) (parked : task ∈ k.deletions.parked) : Retried k task := by
  constructor
  · intro current
    refine ⟨?_, deleteNow_run_current current⟩
    have known : some task ∈ k.deletions.slots := (DeletionQueue.mem_parked_iff _ task).mp parked
    rw [delete_run_current current, DeletionQueue.park, if_pos known]
  · intro left
    have due : task ∈ k.deletions.due k.scheduler.isCurrent :=
      (DeletionQueue.mem_due _ _ task).mpr ⟨parked, left⟩
    obtain ⟨trace, r, head, freed, custody', saved, frees⟩ :=
      settled.custody.freeTask (settled.suspended_of_due due)
    obtain ⟨i, named, free⟩ := frees.head
    obtain ⟨k₂, halted⟩ := custody'.collect_halts settled.once due ⟨head, i, saved, named, free⟩
      fun other due' apart => by
        rw [Ledger.saved_withSaved, if_neg apart]
        exact settled.suspended_of_due due'
    refine ⟨_, k₂, ?_, ?_, ?_, halted⟩
    · rw [delete_run_left left, Action.bind_run, freed]
      rfl
    · rw [deleteNow_run_left left, Action.bind_run, freed]
      rfl
    · exact parked

/-- In a run of deletions every context that was made is there or went back once, and every parked
task has its context. A collection completes, and takes from the ledger the contexts of the parked
tasks that are not current and no others. -/
theorem Deleting.chains_return_once (small : size < segmentNumbers) {k : Kernel (Banks size n) n}
    {L : Ledger n} {t : Tally} (run : Deleting k L t) :
    Partitioned k (fun task => L.saved task ≠ none) ∧
    (∀ task, (k.Has L.saved task ∧ t.made task = t.returned task + 1) ∨
      (¬k.Has L.saved task ∧ t.made task = t.returned task)) ∧
    (∀ task ∈ k.deletions.parked, k.Has L.saved task ∧ Retried k task) ∧
    ∃ k', Kernel.collect k = .ok (k.deletions.due k.scheduler.isCurrent).length k' ∧
      k'.deletions.parked = k.deletions.parked.filter k.scheduler.isCurrent ∧
      Custody k' (L.freed (k.deletions.due k.scheduler.isCurrent)) := by
  have settled := run.settled small
  refine ⟨settled.custody.kept.partitioned, settled.balance,
    fun task parked => ⟨settled.parked task parked, settled.retried parked⟩, ?_⟩
  obtain ⟨k', ran, custody', _, collected⟩ :=
    settled.custody.collect_run settled.once fun _ due => settled.suspended_of_due due
  exact ⟨k', ran, by rw [collected, DeletionQueue.parked_collected], custody'⟩

/-- One core enters its only task, which is deleted and stays parked. -/
theorem Deleting.chains_return_once_parked :
    ∃ (k : Kernel (Banks 4 1) 1) (L : Ledger 1) (t : Tally), Deleting k L t ∧
      k.deletions.parked = [0] ∧ t.made 0 = 1 ∧ Retried k 0 ∧
      Partitioned k fun task => L.saved task ≠ none := by
  obtain ⟨k₀, k₁, k₂, booted, created, entered, state, room, null, current, started, queue⟩ :
      ∃ k₀ k₁ k₂ : Kernel (Banks 4 1) 1,
        Kernel.boot 0 { queues := #v[[0]], stackSizes := #[8] } {} = .ok k₀ ∧
        (Operation.create 0 (.stack 0 8) (.num 4) (.num 5)).perform k₀ = .ok .done k₁ ∧
        (Operation.enterFirst 0).perform k₁ = .ok (.resumed ⟨0, true⟩) k₂ ∧
        (k₀.board.cores.get 0).state = .notStarted ∧
        k₀.storage.tasks.Room 0 (.stack 0 8) ∧
        (k₁.storage.context.pool.links.get 0).isNull = true ∧ k₁.scheduler.current 0 = 0 ∧
        k₂.Runs 0 0 ∧ k₂.deletions = .ofCapacity 8 :=
    ⟨_, _, _, by with_unfolding_all rfl, by with_unfolding_all rfl, by with_unfolding_all rfl,
      rfl, ⟨6, rfl, by with_unfolding_all rfl, by with_unfolding_all rfl⟩, rfl, rfl, ⟨rfl, rfl⟩,
      rfl⟩
  have idle (c : Fin 1) : ¬k₀.Runs c 0 := by
    intro runs
    have started := runs.1
    rw [Subsingleton.elim c 0, state] at started
    cases started
  have run₁ := (Deleting.boot booted).perform (.created rfl idle room) (by simp) created
  have issued := Ledger.Step.entered (c := 0) null (L := ({} : Ledger 1).withSaved 0
    (some (.initial (.stack 0 8) (.num 4) (.num 5)))) (by rw [current]; rfl)
  have run₂ := run₁.perform issued (by simp) entered
  have busy : k₂.scheduler.isCurrent 0 = true :=
    (k₂.scheduler.isCurrent_iff 0).mpr ⟨0, started.2⟩
  have parks := delete_run_current busy
  rw [queue, show (DeletionQueue.ofCapacity 8).park 0 =
    .ok ⟨some 0 :: List.replicate 7 none⟩ from rfl] at parks
  have run₃ := run₂.delete (Or.inr ⟨0, started⟩) (fun _ => busy) parks
  obtain ⟨parted, _, parked, _⟩ := run₃.chains_return_once (by decide)
  exact ⟨_, _, _, run₃, rfl, rfl, (parked 0 (by simp [DeletionQueue.parked])).2, parted⟩

/-- On one core task 0 is deleted while it runs, and again once task 1 runs. -/
def Deleting.retry : SegmentedM 8 1 (Except Refusal Deletion × Except Refusal Unit) := do
  let _ ← createSegmented 0 (.num 4) (.num 5)
  let _ ← createSegmented 1 (.num 6) (.num 7)
  let _ ← Kernel.start
  onBanks (Banks.leaveTrap 0)
  let first ← Kernel.delete 0
  let _ ← onBanks (Banks.enterTrap 0 true)
  let _ ← Kernel.switch 0 0
  return (first, ← Kernel.deleteNow 0)

theorem Deleting.retry_passes : (match
    Kernel.boot 0 { queues := #v[[0, 1]], stackSizes := #[8, 8] } {} with
  | .ok k₀ =>
    match Deleting.retry k₀ with
    | .ok (.ok .parked, .ok ()) k₁ =>
      match Kernel.collect k₁ with
      | .error (.violation .releasedContextReclaimed) _ => true
      | _ => false
    | _ => false
  | _ => false) = true := by decide +kernel

/-- The chain goes back while the task stays parked, and the next collection halts. -/
theorem Deleting.chain_returns_twice :
    ∃ k₀ k₁ k₂ : Kernel (Banks 8 1) 1,
      Kernel.boot 0 { queues := #v[[0, 1]], stackSizes := #[8, 8] } {} = .ok k₀ ∧
      Deleting.retry k₀ = .ok (.ok .parked, .ok ()) k₁ ∧
      Kernel.collect k₁ = .error (.violation .releasedContextReclaimed) k₂ := by
  have passes := Deleting.retry_passes
  repeat' split at passes
  all_goals first
    | exact ⟨_, _, _, ‹_›, ‹_›, ‹_›⟩
    | cases passes

end Preempt
