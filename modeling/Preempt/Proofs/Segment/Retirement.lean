import Preempt.Proofs.Segment.Keeping

/-!
Deletions that are accepted once. A run remembers the chain that each task saved when it was last
switched out, and whether a request to delete it was accepted. If no task has two requests accepted,
a request either gives back that very chain, or parks the task, or changes nothing; a collection
gives back the chains of all parked tasks that no core runs; and no other chain is touched.
-/

namespace Preempt

open Function (update)
open Preempt.Action
open Kernel

variable {size n : Nat}

namespace Pool

variable {p : Pool size n} {l : Link} {is : List (Fin size)}

/-- The segments on the chain from a link, at most `bound` of them. -/
def walk (p : Pool size n) : Nat → Link → List (Fin size)
  | 0, _ => []
  | bound + 1, l =>
    match l.place? size with
    | some i => i :: p.walk bound (p.segments.get i).link
    | none => []

theorem walk_eq (path : Path p l is) {bound : Nat} (long : is.length ≤ bound) :
    p.walk bound l = is := by
  induction bound generalizing l is with
  | zero => exact (List.length_eq_zero_iff.mp (Nat.le_zero.mp long)).symm
  | succ bound ih =>
    cases is with
    | nil => simp [walk, Link.place?_of_isNull path.isNull]
    | cons i is => simp [walk, path.named, ih path.onward (by simpa using long)]

end Pool

namespace Kernel

variable {k k' : Kernel (Banks size n) n} {suspended : TaskId → Prop}
  {share : Owner n → List (Fin size)} {task : TaskId} {gone : List TaskId}

/-- The chain that a task has saved. -/
def chainOf (k : Kernel (Banks size n) n) (task : TaskId) : List (Fin size) :=
  match Tasks.savedHead task k.storage.tasks with
  | .ok head _ => k.storage.context.pool.walk size head
  | .error _ _ => []

theorem Shares.chainOf_eq (shares : k.Shares suspended share) (away : suspended task) :
    k.chainOf task = share (.saved task) := by
  obtain ⟨head, saved, path⟩ := shares.saved task away
  have long : (share (.saved task)).length ≤ size := by
    simpa using (shares.parts.nodup (.saved task)).length_le_card
  simp only [chainOf, saved, Pool.walk_eq path long]

theorem Shares.chained (shares : k.Shares suspended share) (away : suspended task) :
    k.Chained task (k.chainOf task) := by
  rw [shares.chainOf_eq away]
  exact shares.saved task away

/-- The chains of the tasks `gone` have gone back, and with them the free list has grown. All other
chains are in use as before. -/
structure Returns (k k' : Kernel (Banks size n) n) (share : Owner n → List (Fin size))
    (gone : List TaskId) : Prop extends k.Reclaimed k' share gone where
  counted : ∃ count, Pool.freeCount k.storage.context.pool = .ok count k.storage.context.pool ∧
    Pool.freeCount k'.storage.context.pool =
      .ok (count + (gone.map fun task => (share (.saved task)).length).sum) k'.storage.context.pool
  spared : ∀ o, o ≠ .free → (∀ task ∈ gone, o ≠ .saved task) → ∀ i ∈ share o,
    k'.storage.context.pool.segments.get i = k.storage.context.pool.segments.get i ∧
      k'.storage.context.pool.inUse.get i = true

/-- No segment is on the free list twice. -/
theorem Shares.nodup_freed (shares : k.Shares suspended share) (once : gone.Nodup) :
    (chainsOf share gone ++ share .free).Nodup := by
  refine List.nodup_append'.mpr ⟨List.nodup_flatMap.mpr ⟨fun task _ => shares.parts.nodup _, ?_⟩,
    shares.parts.nodup .free, shares.chains_disjoint (by simp)⟩
  exact once.imp fun apart => shares.disjoint (by simpa using apart.symm)

theorem Reclaimed.returns (reclaimed : k.Reclaimed k' share gone)
    (shares : k.Shares suspended share) (once : gone.Nodup) : k.Returns k' share gone := by
  refine ⟨reclaimed, ⟨_, Pool.freeCount_run shares.free (shares.parts.nodup .free), ?_⟩, ?_⟩
  · rw [Pool.freeCount_run reclaimed.free
      (shares.nodup_freed (List.nodup_reverse.mpr once)), List.length_append, Nat.add_comm,
      chainsOf, List.length_flatMap, List.map_reverse, List.sum_reverse]
  · intro o real apart i inside
    have outside : i ∉ chainsOf share gone := fun went => shares.chains_disjoint apart went inside
    refine ⟨reclaimed.elsewhere i outside, ?_⟩
    rw [reclaimed.inUse, if_neg outside, shares.inUse]
    exact shares.not_mem inside real.symm

end Kernel

/-- What a run remembers of the tasks: the chain that each saved when it was last switched out, or
was created with, and whether a request to delete it was accepted since it was created. -/
structure Annals (size : Nat) where
  chains : TaskId → List (Fin size) := fun _ => []
  accepted : TaskId → Bool := fun _ => false

namespace Annals

def after (a : Annals size) (k k' : Kernel (Banks size n) n) : Operation n → Answer → Annals size
  | .create task .., .done =>
    ⟨update a.chains task (k'.chainOf task), update a.accepted task false⟩
  | .switch c .., _ => { a with
      chains := update a.chains (k.scheduler.current c) (k'.chainOf (k.scheduler.current c)) }
  | _, _ => a

def asked {α : Type} (a : Annals size) (task : TaskId) : Except Refusal α → Annals size
  | .ok _ => { a with accepted := update a.accepted task true }
  | .error _ => a

end Annals

/-- The kernels that runs lead to in which no task has two requests accepted, with their ledgers,
tallies and annals. A request may be made for a task that has a context. -/
inductive Retiring : Kernel (Banks size n) n → Ledger n → Tally → Annals size → Prop
  | boot {core : Fin n} {b : Kernel.Boot n} {k : Kernel (Banks size n) n}
      (booted : Kernel.boot core b {} = .ok k) : Retiring k {} {} {}
  | perform {k k' : Kernel (Banks size n) n} {L L' : Ledger n} {t : Tally} {a : Annals size}
      {op : Operation n} {answer : Answer} (before : Retiring k L t a)
      (issued : L.Step k op answer L') (notFree : ∀ task, op ≠ .free task)
      (ran : op.perform k = .ok answer k') :
      Retiring k' L' (t.after op answer) (a.after k k' op answer)
  | delete {k k' : Kernel (Banks size n) n} {L : Ledger n} {t : Tally} {a : Annals size}
      {task : TaskId} {answer : Except Refusal Deletion} (before : Retiring k L t a)
      (has : k.Has L.saved task) (once : ∀ d, answer = .ok d → a.accepted task = false)
      (ran : Kernel.delete task k = .ok answer k') :
      Retiring k' (L.freed (Deletion.gone task answer)) (t.giveBack (Deletion.gone task answer))
        (a.asked task answer)
  | deleteNow {k k' : Kernel (Banks size n) n} {L : Ledger n} {t : Tally} {a : Annals size}
      {task : TaskId} {answer : Except Refusal Unit} (before : Retiring k L t a)
      (has : k.Has L.saved task) (once : ∀ u, answer = .ok u → a.accepted task = false)
      (ran : Kernel.deleteNow task k = .ok answer k') :
      Retiring k' (L.freed (Deletion.gone task (answer.map fun _ => .done)))
        (t.giveBack (Deletion.gone task (answer.map fun _ => .done))) (a.asked task answer)
  | collect {k k' : Kernel (Banks size n) n} {L : Ledger n} {t : Tally} {a : Annals size}
      {count : Nat} (before : Retiring k L t a) (ran : Kernel.collect k = .ok count k') :
      Retiring k' (L.freed (k.deletions.due k.scheduler.isCurrent))
        (t.giveBack (k.deletions.due k.scheduler.isCurrent)) a
  | elsewhere {k k' : Kernel (Banks size n) n} {L : Ledger n} {t : Tally} {a : Annals size}
      (before : Retiring k L t a) (quiet : Elsewhere (fun task => L.saved task ≠ none) k k')
      (same : k'.deletions = k.deletions) : Retiring k' L t a

/-- Every suspended task has the chain that it saved, the parked tasks were accepted, and of the
others that were accepted the chains have gone back. -/
structure Retired (k : Kernel (Banks size n) n) (L : Ledger n) (t : Tally) (a : Annals size) :
    Prop where
  settled : Settled k L t
  chained : ∀ task, L.saved task ≠ none → k.Chained task (a.chains task)
  parked : ∀ task ∈ k.deletions.parked, a.accepted task = true
  accepted : ∀ task, a.accepted task = true → task ∈ k.deletions.parked ∨
    t.made task = t.returned task

namespace Retired

variable {k k' : Kernel (Banks size n) n} {L L' : Ledger n} {t : Tally} {a : Annals size}
  {task : TaskId} {gone : List TaskId}

theorem shares (retired : Retired k L t a) :
    ∃ share, k.Shares (fun task => L.saved task ≠ none) share ∧
      ∀ task, L.saved task ≠ none → share (.saved task) = a.chains task := by
  obtain ⟨share, shares⟩ := partitioned_iff.mp retired.settled.custody.kept.partitioned
  exact ⟨share, shares, fun task away =>
    (shares.saved task away).unique (retired.chained task away)⟩

/-- The chain that is remembered of a task is that with which it was suspended anew. -/
theorem chains_after (custody : Custody k L) {op : Operation n} {answer : Answer}
    (issued : L.Step k op answer L') (ran : op.perform k = .ok answer k')
    (after : L'.saved task ≠ none) :
    (L.saved task = none ∧ (a.after k k' op answer).chains task = k'.chainOf task) ∨
    (L.saved task ≠ none ∧ (a.after k k' op answer).chains task = a.chains task) := by
  have stays (suspended : L.saved task ≠ none) (same : a.after k k' op answer = a) :
      (L.saved task = none ∧ (a.after k k' op answer).chains task = k'.chainOf task) ∨
      (L.saved task ≠ none ∧ (a.after k k' op answer).chains task = a.chains task) :=
    .inr ⟨suspended, by rw [same]⟩
  cases issued with
  | @created other sp entry argument absent =>
    by_cases mine : task = other
    · subst mine
      exact .inl ⟨absent, by simp [Annals.after]⟩
    · rw [Ledger.saved_withSaved, if_neg mine] at after
      exact .inr ⟨after, by simp [Annals.after, mine]⟩
  | notCreated | trapped | halfTrapped | notTrapped | called | notCalled | leftTrap | leftCall =>
    exact stays after rfl
  | @switched c choice depth calls old new =>
    have idle : L.saved (k.scheduler.current c) = none := by
      cases state : (k.board.cores.get c).state with
      | running => exact custody.own ⟨state, rfl⟩
      | switching => exact absurd state (custody.settled c)
      | notStarted =>
        have halted := switchWith_run_notStarted depth (choosing choice) state
        rw [Operation.perform, Custody.unanswered (f := .resumed) halted] at ran
        cases ran
    by_cases mine : task = k.scheduler.current c
    · subst mine
      exact .inl ⟨idle, by simp [Annals.after]⟩
    · rw [Ledger.saved_resume] at after
      split at after
      · exact absurd rfl after
      · simp only [Ledger.suspend, Ledger.saved_withLive, Ledger.saved_withSaved, if_neg mine]
          at after
        exact .inr ⟨after, by simp [Annals.after, mine]⟩
  | @entered c new =>
    rw [Ledger.saved_resume] at after
    split at after
    · exact absurd rfl after
    · exact stays after rfl
  | @freed other =>
    rw [Ledger.saved_withSaved] at after
    split at after
    · exact absurd rfl after
    · exact stays after rfl

/-- Nothing is noted of the requests and the tally but when a task is created. -/
theorem created_or_same (k' : Kernel (Banks size n) n) {op : Operation n} {answer : Answer}
    (issued : L.Step k op answer L') :
    (∃ other sp entry argument, op = .create other sp entry argument ∧ answer = .done ∧
      ¬k.Has L.saved other) ∨
    (t.after op answer = t ∧ (a.after k k' op answer).accepted = a.accepted) := by
  cases issued with
  | created absent idle =>
    refine .inl ⟨_, _, _, _, rfl, rfl, ?_⟩
    rintro (saved | ⟨c, runs⟩)
    · exact saved absent
    · exact idle c runs
  | _ => exact .inr ⟨rfl, rfl⟩

theorem boot (small : size < segmentNumbers) {core : Fin n} {b : Kernel.Boot n}
    (booted : Kernel.boot core b {} = .ok k) : Retired k {} {} {} := by
  have settled := Settled.boot small booted
  refine ⟨settled, fun task away => absurd rfl away, fun task parked => ?_, nofun⟩
  rcases settled.parked task parked with saved | ⟨c, runs⟩
  · exact absurd rfl saved
  · obtain ⟨rate, scheduler, _, rfl⟩ := eq_of_boot booted
    have started := runs.1
    simp at started

theorem perform (retired : Retired k L t a) {op : Operation n} {answer : Answer}
    (issued : L.Step k op answer L') (notFree : ∀ task, op ≠ .free task)
    (ran : op.perform k = .ok answer k') :
    Retired k' L' (t.after op answer) (a.after k k' op answer) := by
  have custody := retired.settled.custody
  have settled := retired.settled.perform issued notFree ran
  have deletions := Operation.deletions_eq ran notFree
  obtain ⟨share, shares⟩ := partitioned_iff.mp settled.custody.kept.partitioned
  have chained (task : TaskId) (after : L'.saved task ≠ none) :
      k'.Chained task ((a.after k k' op answer).chains task) := by
    rcases chains_after (a := a) custody issued ran after with ⟨_, anew⟩ | ⟨before, same⟩
    · rw [anew]
      exact shares.chained after
    · rw [same]
      exact custody.chained_after issued notFree ran before after (retired.chained task before)
  rcases created_or_same k' (t := t) (a := a) issued with
    ⟨other, sp, entry, argument, rfl, rfl, lacks⟩ | ⟨tally, same⟩
  · refine ⟨settled, chained, fun task parked => ?_, fun task asked => ?_⟩
    · rw [deletions] at parked
      have apart : task ≠ other := by
        rintro rfl
        exact lacks (retired.settled.parked task parked)
      simpa [Annals.after, apart] using retired.parked task parked
    · have apart : task ≠ other := by
        rintro rfl
        simp [Annals.after] at asked
      rw [deletions]
      have before : a.accepted task = true := by simpa [Annals.after, apart] using asked
      simpa [Tally.after, apart] using retired.accepted task before
  · refine ⟨settled, chained, fun task parked => ?_, fun task asked => ?_⟩
    · rw [same]
      exact retired.parked task (by rwa [deletions] at parked)
    · rw [same] at asked
      rw [tally, deletions]
      exact retired.accepted task asked

/-- The suspended tasks whose chains have not gone back keep them. -/
theorem chained_of_reclaimed (retired : Retired k L t a) {share : Owner n → List (Fin size)}
    (shares : k.Shares (fun task => L.saved task ≠ none) share)
    (reclaimed : k.Reclaimed k' share gone) (away : (L.freed gone).saved task ≠ none) :
    k'.Chained task (a.chains task) := by
  simp only [Ledger.freed] at away
  split at away
  · exact absurd rfl away
  rename_i stays
  obtain ⟨s, is⟩ := Option.ne_none_iff_exists'.mp away
  have chained := retired.chained task away
  refine chained.congr retired.settled.custody.kept is (by rw [reclaimed.tasks]) fun i inside => ?_
  refine reclaimed.elsewhere i fun went => ?_
  rw [chained.unique (shares.saved task away)] at inside
  refine shares.chains_disjoint (fun other here same => ?_) went inside
  cases same
  exact stays here

/-- A task that was accepted stays parked, or all its contexts have gone back. -/
theorem settles (retired : Retired k L t a) (once : gone.Nodup)
    (has : ∀ task ∈ gone, k.Has L.saved task) (asked : a.accepted task = true ∨ task ∈ gone) :
    (task ∈ k.deletions.parked ∧ task ∉ gone) ∨
      (t.giveBack gone).made task = (t.giveBack gone).returned task := by
  by_cases went : task ∈ gone
  · right
    have count : gone.count task = 1 := List.count_eq_one_of_mem once went
    rcases retired.settled.balance task with ⟨_, made⟩ | ⟨lacks, _⟩
    · simp [Tally.giveBack, count, made]
    · exact absurd (has task went) lacks
  · have count : gone.count task = 0 := List.count_eq_zero.mpr went
    rcases retired.accepted task (asked.resolve_right went) with parked | made
    · exact .inl ⟨parked, went⟩
    · exact .inr (by simp [Tally.giveBack, count, made])

/-- A request for a parked task is accepted only once no core runs the task. -/
theorem again {α : Type} (retired : Retired k L t a) {answer : Except Refusal α}
    (once : ∀ d, answer = .ok d → a.accepted task = false)
    (accepts : k.scheduler.isCurrent task = false → ∃ d, answer = .ok d)
    (parked : task ∈ k.deletions.parked) : k.scheduler.isCurrent task = true := by
  by_contra left
  obtain ⟨d, is⟩ := accepts (Bool.eq_false_iff.mpr left)
  have new := once d is
  rw [retired.parked task parked] at new
  cases new

/-- A request that changes at most the queue and the trace gives nothing back. -/
theorem noted (retired : Retired k L t a) (trace : Trace) (deletions : DeletionQueue)
    {accepted : TaskId → Bool}
    (settled : Settled { k with board := { k.board with trace }, deletions } (L.freed [])
      (t.giveBack []))
    (grows : ∀ task ∈ k.deletions.parked, task ∈ deletions.parked)
    (notes : ∀ task, accepted task = true ↔ a.accepted task = true ∨ task ∈ deletions.parked) :
    Retired { k with board := { k.board with trace }, deletions } (L.freed []) (t.giveBack [])
      { a with accepted } := by
  obtain ⟨share, shares, _⟩ := retired.shares
  refine ⟨settled,
    fun task => retired.chained_of_reclaimed shares (.nil shares.free trace deletions),
    fun task parked => (notes task).mpr (.inr parked), fun task asked => ?_⟩
  rcases (notes task).mp asked with before | parked
  · exact (retired.settles List.nodup_nil (by simp) (.inl before)).imp
      (fun still => grows _ still.1) id
  · exact .inl parked

/-- A request that is refused changes nothing. -/
theorem refused (retired : Retired k L t a)
    (settled : Settled k (L.freed []) (t.giveBack [])) :
    Retired k (L.freed []) (t.giveBack []) a :=
  retired.noted k.board.trace k.deletions settled (fun _ => id) fun task =>
    ⟨.inl, fun known => known.elim id (retired.parked task)⟩

/-- A request that gives back the chain at once leaves the queue alone. -/
theorem done (retired : Retired k L t a) {share : Owner n → List (Fin size)}
    (shares : k.Shares (fun task => L.saved task ≠ none) share) (has : k.Has L.saved task)
    (settled : Settled k' (L.freed [task]) (t.giveBack [task]))
    (reclaimed : k.Reclaimed k' share [task]) (queue : k'.deletions = k.deletions) :
    Retired k' (L.freed [task]) (t.giveBack [task])
      { a with accepted := update a.accepted task true } := by
  refine ⟨settled, fun other => retired.chained_of_reclaimed shares reclaimed,
    fun other parked => ?_, fun other asked => ?_⟩
  · rw [queue] at parked
    by_cases mine : other = task
    · simp [mine]
    · simpa [mine] using retired.parked other parked
  · rw [queue]
    have known : a.accepted other = true ∨ other ∈ [task] := by
      by_cases mine : other = task
      · simp [mine]
      · exact .inl (by simpa [mine] using asked)
    exact (retired.settles (List.nodup_singleton _) (by simpa using has) known).imp And.left id

theorem delete (retired : Retired k L t a) (has : k.Has L.saved task)
    {answer : Except Refusal Deletion} (once : ∀ d, answer = .ok d → a.accepted task = false)
    (ran : Kernel.delete task k = .ok answer k') :
    Retired k' (L.freed (Deletion.gone task answer)) (t.giveBack (Deletion.gone task answer))
      (a.asked task answer) := by
  obtain ⟨share, shares, _⟩ := retired.shares
  have accepts (left : k.scheduler.isCurrent task = false) : ∃ d, answer = .ok d := by
    obtain ⟨k₁, deleted, _⟩ := shares.delete_left left (has.suspended left)
    rw [ran] at deleted
    cases deleted
    exact ⟨_, rfl⟩
  have settled := retired.settled.delete has (retired.again once accepts) ran
  cases current : k.scheduler.isCurrent task with
  | true =>
    rw [delete_run_current current] at ran
    split at ran
    · cases ran
      exact retired.refused settled
    · rename_i deletions accepted
      cases ran
      have joins := DeletionQueue.mem_parked_of_park accepted
      refine retired.noted _ deletions settled (fun other parked => (joins other).mpr (.inr parked))
        fun other => ?_
      rw [joins]
      by_cases mine : other = task
      · simp [mine]
      · simpa [mine] using retired.parked other
  | false =>
    obtain ⟨k₁, deleted, _, reclaimed, queue⟩ := shares.delete_left current (has.suspended current)
    rw [ran] at deleted
    cases deleted
    exact retired.done shares has settled reclaimed queue

theorem deleteNow (retired : Retired k L t a) (has : k.Has L.saved task)
    {answer : Except Refusal Unit} (once : ∀ u, answer = .ok u → a.accepted task = false)
    (ran : Kernel.deleteNow task k = .ok answer k') :
    Retired k' (L.freed (Deletion.gone task (answer.map fun _ => .done)))
      (t.giveBack (Deletion.gone task (answer.map fun _ => .done))) (a.asked task answer) := by
  obtain ⟨share, shares, _⟩ := retired.shares
  have accepts (left : k.scheduler.isCurrent task = false) : ∃ u, answer = .ok u := by
    obtain ⟨k₁, _, deleted, _⟩ := shares.delete_left left (has.suspended left)
    rw [ran] at deleted
    cases deleted
    exact ⟨_, rfl⟩
  have settled := retired.settled.deleteNow has (retired.again once accepts) ran
  cases current : k.scheduler.isCurrent task with
  | true =>
    rw [deleteNow_run_current current] at ran
    cases ran
    exact retired.refused settled
  | false =>
    obtain ⟨k₁, _, deleted, reclaimed, queue⟩ := shares.delete_left current (has.suspended current)
    rw [ran] at deleted
    cases deleted
    exact retired.done shares has settled reclaimed queue

theorem collect (retired : Retired k L t a) {count : Nat} (ran : Kernel.collect k = .ok count k') :
    Retired k' (L.freed (k.deletions.due k.scheduler.isCurrent))
      (t.giveBack (k.deletions.due k.scheduler.isCurrent)) a := by
  obtain ⟨share, shares, _⟩ := retired.shares
  have once := retired.settled.once
  obtain ⟨k₁, collected, reclaimed, queue⟩ :=
    shares.collect once fun _ due => retired.settled.suspended_of_due due
  rw [ran] at collected
  cases collected
  have stays (task : TaskId) : task ∈ k'.deletions.parked ↔
      task ∈ k.deletions.parked ∧ task ∉ k.deletions.due k.scheduler.isCurrent := by
    rw [queue, DeletionQueue.parked_collected, List.mem_filter, DeletionQueue.mem_due]
    cases k.scheduler.isCurrent task <;> simp
  refine ⟨retired.settled.collect ran, fun task => retired.chained_of_reclaimed shares reclaimed,
    fun task parked => retired.parked task ((stays task).mp parked).1, fun task asked => ?_⟩
  exact (retired.settles (once.filter _)
    (fun _ due => .inl (retired.settled.suspended_of_due due)) (.inl asked)).imp
    (stays task).mpr id

theorem elsewhere (retired : Retired k L t a)
    (quiet : Elsewhere (fun task => L.saved task ≠ none) k k')
    (same : k'.deletions = k.deletions) : Retired k' L t a := by
  refine ⟨retired.settled.elsewhere quiet same, fun task away => ?_, fun task parked => ?_,
    fun task asked => ?_⟩
  · obtain ⟨s, is⟩ := Option.ne_none_iff_exists'.mp away
    exact (retired.chained task away).congr retired.settled.custody.kept is
      (quiet.parked task away) fun i _ => by rw [quiet.pool]
  · exact retired.parked task (by rwa [same] at parked)
  · rw [same]
    exact retired.accepted task asked

end Retired

theorem Retiring.retired {k : Kernel (Banks size n) n} {L : Ledger n} {t : Tally} {a : Annals size}
    (run : Retiring k L t a) (small : size < segmentNumbers) : Retired k L t a := by
  induction run with
  | boot booted => exact .boot small booted
  | perform _ issued notFree ran ih => exact ih.perform issued notFree ran
  | delete _ has once ran ih => exact ih.delete has once ran
  | deleteNow _ has once ran ih => exact ih.deleteNow has once ran
  | collect _ ran ih => exact ih.collect ran
  | elsewhere _ quiet same ih => exact ih.elsewhere quiet same

/-- What comes of a request to delete a task that has a context. -/
structure Deletable (k : Kernel (Banks size n) n) (share : Owner n → List (Fin size))
    (accepted : Bool) (task : TaskId) : Prop where
  left : k.scheduler.isCurrent task = false → accepted = false →
    ∃ k', delete task k = .ok (.ok .done) k' ∧ deleteNow task k = .ok (.ok ()) k' ∧
      k.Returns k' share [task] ∧ k'.deletions = k.deletions
  busy : k.scheduler.isCurrent task = true → deleteNow task k = .ok (.error .contextInUse) k
  known : k.scheduler.isCurrent task = true → task ∈ k.deletions.parked →
    delete task k = .ok (.error .alreadyParked) k
  full : k.scheduler.isCurrent task = true → task ∉ k.deletions.parked →
    k.deletions.count = k.deletions.capacity → delete task k = .ok (.error .queueFull) k
  parks : k.scheduler.isCurrent task = true → task ∉ k.deletions.parked →
    k.deletions.count < k.deletions.capacity → ∃ trace deletions,
      delete task k = .ok (.ok .parked) { k with board := { k.board with trace }, deletions } ∧
      ∀ other, other ∈ deletions.parked ↔ other = task ∨ other ∈ k.deletions.parked

theorem Retired.deletable {k : Kernel (Banks size n) n} {L : Ledger n}
    {share : Owner n → List (Fin size)} (shares : k.Shares (fun task => L.saved task ≠ none) share)
    {task : TaskId} (has : k.Has L.saved task) (accepted : Bool) :
    Deletable k share accepted task where
  left left _ := by
    obtain ⟨k', deleted, now, reclaimed, queue⟩ := shares.delete_left left (has.suspended left)
    exact ⟨k', deleted, now, reclaimed.returns shares (List.nodup_singleton task), queue⟩
  busy := deleteNow_run_current
  known current parked := by
    rw [delete_run_current current, DeletionQueue.park_known parked]
  full current new full := by
    rw [delete_run_current current, DeletionQueue.park_full new full]
  parks current new room := by
    obtain ⟨deletions, accepts⟩ := DeletionQueue.park_room new room
    refine ⟨k.board.trace.push (.log (.deferred task)), deletions, ?_,
      DeletionQueue.mem_parked_of_park accepts⟩
    rw [delete_run_current current, accepts]

/-- In a run in which no task has two requests accepted, a request for a task that no core runs
gives back the chain that the task saved when it was last switched out. Any other parks the task or
changes nothing. A collection gives back such chains of all parked tasks that no core runs, and
after it each task that was deleted and left has had every chain returned once. -/
theorem Retiring.chains_return_once_left (small : size < segmentNumbers)
    {k : Kernel (Banks size n) n} {L : Ledger n} {t : Tally} {a : Annals size}
    (run : Retiring k L t a) :
    ∃ share, k.Shares (fun task => L.saved task ≠ none) share ∧
      (∀ task, L.saved task ≠ none → share (.saved task) = a.chains task) ∧
      (∀ task, k.Has L.saved task → Deletable k share (a.accepted task) task) ∧
      (∀ task ∈ k.deletions.parked, a.accepted task = true ∧ k.Has L.saved task) ∧
      (∀ task, a.accepted task = true → task ∈ k.deletions.parked ∨
        (¬k.Has L.saved task ∧ t.made task = t.returned task)) ∧
      (∃ k', Kernel.collect k = .ok (k.deletions.due k.scheduler.isCurrent).length k' ∧
        (∀ task ∈ k.deletions.due k.scheduler.isCurrent, L.saved task ≠ none) ∧
        k.Returns k' share (k.deletions.due k.scheduler.isCurrent) ∧
        k'.deletions.parked = k.deletions.parked.filter k.scheduler.isCurrent) ∧
      ((∀ task ∈ k.deletions.parked, k.scheduler.isCurrent task = false) →
        ∀ task, a.accepted task = true → t.made task =
          (t.giveBack (k.deletions.due k.scheduler.isCurrent)).returned task) := by
  have retired := run.retired small
  have settled := retired.settled
  obtain ⟨share, shares, chains⟩ := retired.shares
  have once : (k.deletions.due k.scheduler.isCurrent).Nodup := settled.once.filter _
  have away (task : TaskId) (due : task ∈ k.deletions.due k.scheduler.isCurrent) :
      L.saved task ≠ none := settled.suspended_of_due due
  refine ⟨share, shares, chains, fun task has => Retired.deletable shares has _,
    fun task parked => ⟨retired.parked task parked, settled.parked task parked⟩,
    fun task asked => ?_, ?_, fun left task asked => ?_⟩
  · refine (retired.accepted task asked).imp id fun made => ⟨fun has => ?_, made⟩
    rcases settled.balance task with ⟨_, more⟩ | ⟨lacks, _⟩
    · omega
    · exact lacks has
  · obtain ⟨k', ran, reclaimed, queue⟩ := shares.collect settled.once away
    refine ⟨k', ran, away, reclaimed.returns shares once, ?_⟩
    rw [queue, DeletionQueue.parked_collected]
  · rcases retired.settles once (fun task due => .inl (away task due)) (.inl asked) with
      ⟨parked, stays⟩ | returned
    · exact absurd ((DeletionQueue.mem_due _ _ task).mpr ⟨parked, left task parked⟩) stays
    · exact returned

/-- Task 0 is deleted while it runs, and collected once task 1 runs. -/
theorem Retiring.chains_return_once_left_collected :
    ∃ (k k' : Kernel (Banks 4 1) 1) (L : Ledger 1) (t : Tally) (a : Annals 4), Retiring k L t a ∧
      a.accepted 0 = true ∧ k.deletions.parked = [0] ∧ t.made 0 = 1 ∧ t.returned 0 = 0 ∧
      Kernel.collect k = .ok 1 k' ∧ k'.deletions.parked = [] ∧
      t.made 0 = (t.giveBack [0]).returned 0 := by
  obtain ⟨k₀, k₁, k₂, k₃, booted, created₀, created₁, entered, state₀, state₁, room₀, room₁, null,
      current₂, state₃, nesting₃, current₃, room₃, queue₃, next₃⟩ :
      ∃ k₀ k₁ k₂ k₃ : Kernel (Banks 4 1) 1,
        Kernel.boot 0 { queues := #v[[0, 1]], stackSizes := #[8, 8] } {} = .ok k₀ ∧
        (Operation.create 0 (.stack 0 8) (.num 4) (.num 5)).perform k₀ = .ok .done k₁ ∧
        (Operation.create 1 (.stack 1 8) (.num 6) (.num 7)).perform k₁ = .ok .done k₂ ∧
        (Operation.enterFirst 0).perform k₂ = .ok (.resumed ⟨0, true⟩) k₃ ∧
        (k₀.board.cores.get 0).state = .notStarted ∧ (k₁.board.cores.get 0).state = .notStarted ∧
        k₀.storage.tasks.Room 0 (.stack 0 8) ∧ k₁.storage.tasks.Room 1 (.stack 1 8) ∧
        (k₂.storage.context.pool.links.get 0).isNull = true ∧ k₂.scheduler.current 0 = 0 ∧
        (k₃.board.cores.get 0).state = .running ∧ (k₃.board.cores.get 0).nesting = 0 ∧
        k₃.scheduler.current 0 = 0 ∧ k₃.storage.tasks.Room 0 (.stack 0 8) ∧
        k₃.deletions = .ofCapacity 8 ∧
        (Choice.next.pick (k₃.scheduler.queues.get 0)).current = 1 :=
    ⟨_, _, _, _, by with_unfolding_all rfl, by with_unfolding_all rfl, by with_unfolding_all rfl,
      by with_unfolding_all rfl, rfl, rfl,
      ⟨6, rfl, by with_unfolding_all rfl, by with_unfolding_all rfl⟩,
      ⟨6, rfl, by with_unfolding_all rfl, by with_unfolding_all rfl⟩, rfl, rfl, rfl,
      by with_unfolding_all rfl, rfl,
      ⟨6, rfl, by with_unfolding_all rfl, by with_unfolding_all rfl⟩, rfl,
      by with_unfolding_all rfl⟩
  have idle {k : Kernel (Banks 4 1) 1} (state : (k.board.cores.get 0).state = .notStarted)
      (task : TaskId) (c : Fin 1) : ¬k.Runs c task := by
    intro runs
    have started := runs.1
    rw [Subsingleton.elim c 0, state] at started
    cases started
  have run₁ := (Retiring.boot booted).perform (.created rfl (idle state₀ 0) room₀) (by simp)
    created₀
  have run₂ := run₁.perform (.created rfl (idle state₁ 1) room₁) (by simp) created₁
  have issued := Ledger.Step.entered (c := 0) null
    (L := (({} : Ledger 1).withSaved 0 (some (.initial (.stack 0 8) (.num 4) (.num 5)))).withSaved 1
      (some (.initial (.stack 1 8) (.num 6) (.num 7))))
    (show _ = some (Suspension.initial (.stack 0 8) (.num 4) (.num 5)) by rw [current₂]; rfl)
  rw [current₂] at issued
  have run₃ := run₂.perform issued (by simp) entered
  have busy : k₃.scheduler.isCurrent 0 = true := (k₃.scheduler.isCurrent_iff 0).mpr ⟨0, current₃⟩
  have parks := delete_run_current busy
  rw [queue₃, show (DeletionQueue.ofCapacity 8).park 0 =
    .ok ⟨some 0 :: List.replicate 7 none⟩ from rfl] at parks
  obtain ⟨k₄, L₄, t₄, a₄, run₄, asked, parked₄, made, returned, state, nesting, current, next, room,
      top, suspended⟩ : ∃ (k₄ : Kernel (Banks 4 1) 1) (L₄ : Ledger 1) (t₄ : Tally) (a₄ : Annals 4),
        Retiring k₄ L₄ t₄ a₄ ∧ a₄.accepted 0 = true ∧
        k₄.deletions = ⟨some 0 :: List.replicate 7 none⟩ ∧ t₄.made 0 = 1 ∧ t₄.returned 0 = 0 ∧
        (k₄.board.cores.get 0).state = .running ∧ 0 = (k₄.board.cores.get 0).nesting ∧
        k₄.scheduler.current 0 = 0 ∧ (Choice.next.pick (k₄.scheduler.queues.get 0)).current = 1 ∧
        k₄.storage.tasks.Room (k₄.scheduler.current 0) (.stack 0 8) ∧
        L₄.live 0 = [] ++ (Suspension.initial (.stack 0 8) (.num 4) (.num 5)).spills ∧
        L₄.saved 1 = some (.initial (.stack 1 8) (.num 6) (.num 7)) :=
    ⟨_, _, _, _, run₃.delete (.inr ⟨0, state₃, current₃⟩) (fun _ _ => rfl) parks, rfl, rfl, rfl,
      rfl, state₃, nesting₃.symm, current₃, next₃, by rw [current₃]; exact room₃, rfl, rfl⟩
  have deep : ([] : List Spill).length = (0 : TrapDepth).toNat := rfl
  have resumes : (L₄.suspend 0 [] (k₄.scheduler.current 0)
      (.initial (.stack 0 8) (.num 4) (.num 5))).saved
      (Choice.next.pick (k₄.scheduler.queues.get 0)).current =
        some (.initial (.stack 1 8) (.num 6) (.num 7)) := by
    simpa [current, next, Ledger.suspend, Ledger.saved_withSaved] using suspended
  obtain ⟨k₅, switched, _, goesOn⟩ := (run₄.retired (by decide)).settled.custody.switch state top
    (by simp) deep nesting room resumes
  have run₅ := run₄.perform (.switched top (by simp) deep nesting room resumes) (by simp) switched
  have queue : k₅.deletions = ⟨some 0 :: List.replicate 7 none⟩ := by
    rw [Operation.deletions_eq switched (by simp), parked₄]
  have parked₅ : k₅.deletions.parked = [0] := by rw [queue]; rfl
  have left : k₅.scheduler.isCurrent 0 = false := by
    refine Bool.eq_false_iff.mpr fun current => ?_
    obtain ⟨c, same⟩ := (k₅.scheduler.isCurrent_iff 0).mp current
    rw [Subsingleton.elim c 0, goesOn.runs.2, next] at same
    cases same
  have due : k₅.deletions.due k₅.scheduler.isCurrent = [0] := by
    simp [queue, DeletionQueue.due, DeletionQueue.dueOf, left]
  obtain ⟨share, _, _, _, _, _, ⟨k₆, collected, _, _, parked₆⟩, complete⟩ :=
    run₅.chains_return_once_left (by decide)
  rw [due] at collected complete
  refine ⟨k₅, k₆, _, _, _, run₅, asked, parked₅, made, returned, collected, ?_,
    complete (fun task parked => ?_) 0 asked⟩
  · rw [parked₆, parked₅, List.filter_cons, left]
    rfl
  · obtain rfl : task = 0 := by simpa [parked₅] using parked
    exact left

/-- On one core task 0 is deleted twice while it runs. -/
def Retiring.impatient : SegmentedM 8 1 (Except Refusal Deletion × Except Refusal Deletion) := do
  let _ ← createSegmented 0 (.num 4) (.num 5)
  let _ ← createSegmented 1 (.num 6) (.num 7)
  let _ ← Kernel.start
  onBanks (Banks.leaveTrap 0)
  let first ← Kernel.delete 0
  return (first, ← Kernel.delete 0)

theorem Retiring.impatient_passes : (match
    Kernel.boot 0 { queues := #v[[0, 1]], stackSizes := #[8, 8], deletionCapacity := 1 } {} with
  | .ok k =>
    match Retiring.impatient k with
    | .ok (.ok .parked, .error .alreadyParked) k' =>
      decide (k'.scheduler.current 0 = 0 ∧ k'.deletions.parked = [0])
    | _ => false
  | _ => false) = true := by decide +kernel

/-- The second request finds the queue full, but is refused because the task is parked already. -/
theorem Retiring.parked_task_refused :
    ∃ k k' : Kernel (Banks 8 1) 1,
      Kernel.boot 0 { queues := #v[[0, 1]], stackSizes := #[8, 8], deletionCapacity := 1 } {} =
        .ok k ∧
      Retiring.impatient k = .ok (.ok .parked, .error .alreadyParked) k' ∧
      k'.scheduler.current 0 = 0 ∧ k'.deletions.parked = [0] := by
  have passes := Retiring.impatient_passes
  repeat' split at passes
  all_goals first
    | exact ⟨_, _, ‹_›, ‹_›, of_decide_eq_true passes⟩
    | cases passes

end Preempt
