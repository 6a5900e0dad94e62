import Preempt.Proofs.Segment.Custody

/-!
Runs of any length. From boot on, the operations that move contexts come in any order on any cores,
each when it may be issued, and in between tasks compute and the rest of the kernel layer works.
Every segment is on exactly one chain all along.
-/

namespace Preempt

variable {size n : Nat}

/-- What else goes on leaves alone the pool, the queues, the engines and the tasks that are
suspended. -/
structure Elsewhere (suspended : TaskId → Prop) (k k' : Kernel (Banks size n) n) : Prop where
  pool : k'.storage.context.pool = k.storage.context.pool
  calm : k.Calm k'
  parked : ∀ task, suspended task → k'.storage.tasks.list[task]? = k.storage.tasks.list[task]?

/-- The kernels that runs lead to, with their ledgers. A trap that is refused ends a run. -/
inductive Reachable : Kernel (Banks size n) n → Ledger n → Prop
  | boot {core : Fin n} {b : Kernel.Boot n} {k : Kernel (Banks size n) n}
      (booted : Kernel.boot core b {} = .ok k) : Reachable k {}
  | perform {k k' : Kernel (Banks size n) n} {L L' : Ledger n} {op : Operation n}
      {answer : Answer} (before : Reachable k L) (issued : L.Step k op answer L')
      (ran : op.perform k = .ok answer k')
      (whole : ∀ c enabled, op = .enterTrap c enabled → answer = .done) : Reachable k' L'
  | elsewhere {k k' : Kernel (Banks size n) n} {L : Ledger n} (before : Reachable k L)
      (quiet : Elsewhere (fun task => L.saved task ≠ none) k k') : Reachable k' L

/-- A kernel out of reset has all segments free and runs no task. -/
theorem Custody.boot (small : size < segmentNumbers) {core : Fin n} {b : Kernel.Boot n}
    {k : Kernel (Banks size n) n} (booted : Kernel.boot core b {} = .ok k) : Custody k {} := by
  obtain ⟨rate, scheduler, _, rfl⟩ := Kernel.eq_of_boot booted
  refine ⟨⟨?_, ?_, ?_⟩, Kept.fresh small⟩
  · intro c
    simp
  · intro c task _
    rfl
  · intro c d task runs
    have started := runs.1
    simp at started

theorem Elsewhere.custody {k k' : Kernel (Banks size n) n} {L : Ledger n}
    {lost : List (Fin size)} (quiet : Elsewhere (fun task => L.saved task ≠ none) k k')
    (custody : Custody k L lost) : Custody k' L lost := by
  refine custody.calm quiet.calm ?_ fun runs => custody.own runs
  rw [quiet.pool]
  exact custody.kept.congr quiet.parked

theorem Reachable.custody {k : Kernel (Banks size n) n} {L : Ledger n} (reached : Reachable k L)
    (small : size < segmentNumbers) : Custody k L := by
  induction reached with
  | boot booted => exact Custody.boot small booted
  | perform _ issued ran _ ih => exact ih.follow issued ran
  | elsewhere _ quiet ih => exact quiet.custody ih

/-- The free list, the live chains of the cores and the chains at the saved heads of the suspended
tasks end in null links and hold every segment exactly once; the free segments are those not in
use. -/
def Partitioned (k : Kernel (Banks size n) n) (suspended : TaskId → Prop) : Prop :=
  ∃ share : Owner n → List (Fin size), Partition share ∧
    Pool.Path k.storage.context.pool k.storage.context.pool.freeHead (share .free) ∧
    (∀ c, Pool.Path k.storage.context.pool (k.storage.context.pool.links.get c)
      (share (.live c))) ∧
    (∀ task, suspended task → ∃ head,
      Tasks.savedHead task k.storage.tasks = .ok head k.storage.tasks ∧
      Pool.Path k.storage.context.pool head (share (.saved task))) ∧
    (∀ task, ¬suspended task → share (.saved task) = []) ∧
    ∀ i, k.storage.context.pool.inUse.get i = true ↔ i ∉ share .free

theorem Kept.partitioned {k : Kernel (Banks size n) n} {L : Ledger n}
    (kept : Kept k.storage.context.pool k.storage.tasks L) :
    Partitioned k fun task => L.saved task ≠ none := by
  obtain ⟨heads, share, shared, parked⟩ := kept
  refine ⟨share, shared.parts.partition, shared.path .free, fun c => shared.path (.live c), ?_, ?_,
    shared.inUse⟩
  · intro task suspended
    obtain ⟨s, is⟩ := Option.ne_none_iff_exists'.mp suspended
    exact ⟨_, (parked task s is).savedHead_run, (shared.path (.saved task)).relabel rfl⟩
  · intro task awake
    have absent : L.saved task = none := not_not.mp awake
    exact share_eq_nil shared (by simp) (by simp [Ledger.spills, absent])

/-- After every operation of a run every segment is on exactly one chain. The operations that may
be issued complete, refused or not; only a switch on a core that was not started halts, before it
changes anything. -/
theorem Reachable.segments_partitioned (small : size < segmentNumbers) {k : Kernel (Banks size n) n}
    {L : Ledger n} (reached : Reachable k L) :
    Partitioned k (fun task => L.saved task ≠ none) ∧
    ∀ op a L₁, L.Step k op a L₁ →
      (∃ answer L' k', L.Step k op answer L' ∧ op.perform k = .ok answer k' ∧
        Partitioned k' fun task => L'.saved task ≠ none) ∨
      ∃ c choice depth k', op = .switch c choice depth ∧
        (k.board.cores.get c).state = .notStarted ∧
        op.perform k = .error (.violation .schedulerNotStarted) k' ∧
        Partitioned k' fun task => L.saved task ≠ none := by
  have custody := reached.custody small
  refine ⟨custody.kept.partitioned, fun op a L₁ issued => ?_⟩
  rcases custody.step issued with
    ⟨answer, L', k', issued', ran, custody'⟩ | ⟨c, choice, depth, k', is, state, halted, same⟩
  · exact Or.inl ⟨answer, L', k', issued', ran, custody'.kept.partitioned⟩
  · refine Or.inr ⟨c, choice, depth, k', is, state, halted, Kept.partitioned ?_⟩
    rw [same]
    exact custody.kept

/-- One core enters its only task. -/
theorem Reachable.segments_partitioned_first_task :
    ∃ (k : Kernel (Banks 4 1) 1) (L : Ledger 1), Reachable k L ∧ L.live 0 ≠ [] ∧
      Partitioned k fun task => L.saved task ≠ none := by
  obtain ⟨k₀, k₁, k₂, booted, created, entered, state, room, null, current⟩ :
      ∃ k₀ k₁ k₂ : Kernel (Banks 4 1) 1,
        Kernel.boot 0 { queues := #v[[0]], stackSizes := #[8] } {} = .ok k₀ ∧
        (Operation.create 0 (.stack 0 8) (.num 4) (.num 5)).perform k₀ = .ok .done k₁ ∧
        (Operation.enterFirst 0).perform k₁ = .ok (.resumed ⟨0, true⟩) k₂ ∧
        (k₀.board.cores.get 0).state = .notStarted ∧
        k₀.storage.tasks.Room 0 (.stack 0 8) ∧
        (k₁.storage.context.pool.links.get 0).isNull = true ∧ k₁.scheduler.current 0 = 0 :=
    ⟨_, _, _, by with_unfolding_all rfl, by with_unfolding_all rfl, by with_unfolding_all rfl,
      rfl, ⟨6, rfl, by with_unfolding_all rfl, by with_unfolding_all rfl⟩, rfl, rfl⟩
  have idle (c : Fin 1) : ¬k₀.Runs c 0 := by
    intro runs
    have started := runs.1
    rw [Subsingleton.elim c 0, state] at started
    cases started
  have reached₁ := (Reachable.boot booted).perform (.created rfl idle room) created (by simp)
  have issued := Ledger.Step.entered (c := 0) null (L := ({} : Ledger 1).withSaved 0
    (some (.initial (.stack 0 8) (.num 4) (.num 5)))) (by rw [current]; rfl)
  have reached₂ := reached₁.perform issued entered (by simp)
  refine ⟨k₂, _, reached₂, by simp [Ledger.resume, Suspension.spills], ?_⟩
  exact (reached₂.segments_partitioned (by decide)).1

end Preempt
