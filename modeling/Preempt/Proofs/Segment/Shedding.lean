import Preempt.Proofs.Calls
import Preempt.Proofs.Segment.Audit
import Preempt.Proofs.Segment.Runs

/-!
Bringing up cores over a pool. A core enters its first task with its link register overwritten, so
whatever it has spilled until then belongs to nobody any more. The segments lost in a run are those
of the contexts shed in this way, and an audit passes exactly if there were none.
-/

namespace Preempt

open Kernel

variable {size n : Nat}

/-- The kernels that runs lead to in which cores are brought up with anything on their stacks, with
their ledgers and the contexts shed. -/
inductive Shedding : Kernel (Banks size n) n → Ledger n → List Spill → Prop
  | boot {core : Fin n} {b : Kernel.Boot n} {k : Kernel (Banks size n) n}
      (booted : Kernel.boot core b {} = .ok k) : Shedding k {} []
  | perform {k k' : Kernel (Banks size n) n} {L L' : Ledger n} {shed : List Spill}
      {op : Operation n} {answer : Answer} (before : Shedding k L shed)
      (issued : L.Step k op answer L') (ran : op.perform k = .ok answer k') :
      Shedding k' L' shed
  | bringUp {k k' : Kernel (Banks size n) n} {L : Ledger n} {shed : List Spill} {c : Fin n}
      {call : PortCall} {new : Suspension} {answer : Option Resumption}
      (before : Shedding k L shed) (known : k.board.machine.identity = none)
      (mine : k.board.machine.executing = c) (enters : call.Enters k)
      (suspended : L.saved (k.scheduler.current c) = some new)
      (ran : call.perform k = .ok answer k') :
      Shedding k' ((L.withLive c []).resume c (k.scheduler.current c) new) (L.live c ++ shed)
  | elsewhere {k k' : Kernel (Banks size n) n} {L : Ledger n} {shed : List Spill}
      (before : Shedding k L shed) (quiet : Elsewhere (fun task => L.saved task ≠ none) k k') :
      Shedding k' L shed

/-- A core that enters its first task loses what it has on its stack. -/
theorem Custody.bringUp {k k' : Kernel (Banks size n) n} {L : Ledger n} {lost : List (Fin size)}
    {c : Fin n} {call : PortCall} {new : Suspension} {answer : Option Resumption}
    (custody : Custody k L lost) (known : k.board.machine.identity = none)
    (mine : k.board.machine.executing = c) (enters : call.Enters k)
    (suspended : L.saved (k.scheduler.current c) = some new)
    (ran : call.perform k = .ok answer k') :
    ∃ dropped : List (Fin size), dropped.length = ((L.live c).map Spill.segments).sum ∧
      Custody k' ((L.withLive c []).resume c (k.scheduler.current c) new) (dropped ++ lost) := by
  obtain ⟨board, reached, readied⟩ := PortCall.enters_run enters known mine
  have ready : Custody { k with board } L lost :=
    custody.calm ⟨rfl, readied.states⟩ custody.kept fun runs => custody.own runs
  obtain ⟨dropped, k₁, entered, long, custody', _⟩ := ready.enter c suspended
  refine ⟨dropped, long, ?_⟩
  simp only [Operation.perform, Action.bind_run] at entered
  rw [reached, Action.bind_run] at ran
  cases first : Kernel.enterFirst c 0 { k with board } with
  | error halt k₂ =>
    rw [first] at ran
    cases ran
  | ok r k₂ =>
    rw [first] at ran entered
    cases ran
    cases entered
    exact custody'

theorem Shedding.custody {k : Kernel (Banks size n) n} {L : Ledger n} {shed : List Spill}
    (run : Shedding k L shed) (small : size < segmentNumbers) :
    ∃ lost : List (Fin size), lost.length = (shed.map Spill.segments).sum ∧ Custody k L lost := by
  induction run with
  | boot booted => exact ⟨[], rfl, Custody.boot small booted⟩
  | perform _ issued ran ih =>
    obtain ⟨lost, long, custody⟩ := ih
    exact ⟨lost, long, custody.follow issued ran⟩
  | bringUp _ known mine enters suspended ran ih =>
    obtain ⟨lost, long, custody⟩ := ih
    obtain ⟨dropped, more, custody'⟩ := custody.bringUp known mine enters suspended ran
    exact ⟨dropped ++ lost, by simp [long, more], custody'⟩
  | elsewhere _ quiet ih =>
    obtain ⟨lost, long, custody⟩ := ih
    exact ⟨lost, long, quiet.custody custody⟩

/-- Every context takes a segment. -/
theorem Spill.segments_eq_zero_iff (spills : List Spill) :
    (spills.map segments).sum = 0 ↔ spills = [] := by
  cases spills with
  | nil => simp
  | cons spill spills => cases spill <;> simp [segments]

/-- All segments but those of the contexts shed are on exactly one chain, once, and an audit of the
saved heads passes exactly if no core has shed any. -/
theorem Shedding.audit_passes_iff (small : size < segmentNumbers) {k : Kernel (Banks size n) n}
    {L : Ledger n} {shed : List Spill} (run : Shedding k L shed) :
    ∃ lost heads share, lost.length = (shed.map Spill.segments).sum ∧
      k.storage.context.pool.Sharing heads share L.spills lost ∧
      (∀ task, L.saved task ≠ none →
        Tasks.savedHead task k.storage.tasks = .ok (heads task) k.storage.tasks) ∧
      ∀ tasks : List TaskId, tasks.Nodup → (∀ task, task ∈ tasks ↔ L.saved task ≠ none) →
        (k.storage.context.pool.audit (tasks.map heads) = true ↔ shed = []) := by
  obtain ⟨lost, long, custody⟩ := run.custody small
  obtain ⟨heads, share, shared, saved, audits⟩ := custody.kept.audit_iff
  refine ⟨lost, heads, share, long, shared, saved, fun tasks once all => ?_⟩
  rw [audits tasks once all, ← Spill.segments_eq_zero_iff, ← long, List.length_eq_zero_iff]

/-- Core 1 of two traps, and starts the scheduler with that trap on its chain. -/
theorem Shedding.trap_passes : (match Kernel.boot (1 : Fin 2)
    { queues := #v[[0], [1]], stackSizes := #[8, 8] } ({} : Banks 4 2) with
  | .ok k₀ =>
    match (Operation.create 1 (.stack 1 8) (.num 4) (.num 5)).perform k₀ with
    | .ok .done k₁ =>
      match (Operation.enterTrap 1 true).perform k₁ with
      | .ok .done k₂ =>
        match PortCall.start.perform k₂ with
        | .ok (some _) _ => decide ((∀ c, (k₀.board.cores.get c).state = .notStarted) ∧
            (k₀.storage.tasks.read? (.stack 1 6)).isSome ∧
            (k₀.storage.tasks.read? (.stack 1 7)).isSome ∧
            k₂.board.machine.identity = none ∧ k₂.board.machine.executing = 1 ∧
            k₂.scheduler.current 1 = 1)
        | _ => false
      | _ => false
    | _ => false
  | _ => false) = true := by decide +kernel

/-- Core 1 of two is brought up with one trap on its stack. -/
theorem Shedding.audit_passes_iff_one_trap :
    ∃ (k : Kernel (Banks 4 2) 2) (L : Ledger 2) (shed : List Spill), Shedding k L shed ∧
      shed ≠ [] ∧ k.storage.context.pool.audit [] = false := by
  obtain ⟨k₀, k₁, k₂, k₃, r, booted, created, trapped, started, state, low, high, known, mine,
      task⟩ :
      ∃ (k₀ k₁ k₂ k₃ : Kernel (Banks 4 2) 2) (r : Resumption),
        Kernel.boot 1 { queues := #v[[0], [1]], stackSizes := #[8, 8] } {} = .ok k₀ ∧
        (Operation.create 1 (.stack 1 8) (.num 4) (.num 5)).perform k₀ = .ok .done k₁ ∧
        (Operation.enterTrap 1 true).perform k₁ = .ok .done k₂ ∧
        PortCall.start.perform k₂ = .ok (some r) k₃ ∧
        (∀ c, (k₀.board.cores.get c).state = .notStarted) ∧
        (k₀.storage.tasks.read? (.stack 1 6)).isSome ∧
        (k₀.storage.tasks.read? (.stack 1 7)).isSome ∧
        k₂.board.machine.identity = none ∧ k₂.board.machine.executing = 1 ∧
        k₂.scheduler.current 1 = 1 := by
    have passes := Shedding.trap_passes
    repeat' split at passes
    all_goals first
      | exact ⟨_, _, _, _, _, ‹_›, ‹_›, ‹_›, ‹_›, of_decide_eq_true passes⟩
      | cases passes
  have idle (c : Fin 2) : ¬k₀.Runs c 1 := by
    intro runs
    have notStarted := state c
    rw [runs.1] at notStarted
    cases notStarted
  have run₁ := (Shedding.boot booted).perform (.created rfl idle ⟨6, rfl, low, high⟩) created
  have run₂ := run₁.perform .trapped trapped
  have enters : PortCall.start.Enters k₂ := trivial
  have run₃ := run₂.bringUp known mine enters (by rw [task]; rfl) started
  refine ⟨k₃, _, _, run₃, by simp, ?_⟩
  obtain ⟨_, heads, _, _, _, _, audits⟩ := run₃.audit_passes_iff (by decide)
  rw [Bool.eq_false_iff]
  intro passed
  have kept := (audits [] List.nodup_nil fun other => ?_).mp passed
  · simp at kept
  · rw [task]
    by_cases other = 1 <;> simp_all [Ledger.resume, Ledger.saved_withSaved]

/-- Two cores, each with one task. Core 0 starts the scheduler; core 1 takes the interrupt that
calls it as the hardware does, and enters its first task on the way out. -/
def Shedding.bootTwo : SegmentedM 8 2 Unit := do
  let _ ← createSegmented 0 (.num 4) (.num 5)
  let _ ← createSegmented 1 (.num 6) (.num 7)
  let _ ← Kernel.start
  onBanks (Banks.leaveTrap 0)
  let _ ← onBoard (Board.runAs 1)
  let _ ← onBanks (Banks.enterTrap 1 true)
  let _ ← onBoard Kernel.beginInterrupt
  onBoard Kernel.onIpi
  let _ ← Kernel.endInterrupt
  onBanks (Banks.leaveTrap 1)

theorem Shedding.bootTwo_passes : (match
    Kernel.boot 0 { queues := #v[[0], [1]], stackSizes := #[8, 8] } {} with
  | .ok k₀ =>
    match Shedding.bootTwo k₀ with
    | .ok () k₁ => decide
        (((k₁.board.cores.get 0).state = .running ∧ k₁.scheduler.current 0 = 0) ∧
        ((k₁.board.cores.get 1).state = .running ∧ k₁.scheduler.current 1 = 1) ∧
        k₁.storage.context.pool.audit [] = false)
    | _ => false
  | _ => false) = true := by decide +kernel

/-- Both cores run their tasks and none is suspended, but two segments are lost. -/
theorem Shedding.audit_fails :
    ∃ k₀ k₁ : Kernel (Banks 8 2) 2,
      Kernel.boot 0 { queues := #v[[0], [1]], stackSizes := #[8, 8] } {} = .ok k₀ ∧
      Shedding.bootTwo k₀ = .ok () k₁ ∧ k₁.Runs 0 0 ∧ k₁.Runs 1 1 ∧
      k₁.storage.context.pool.audit [] = false := by
  have fails := Shedding.bootTwo_passes
  repeat' split at fails
  · obtain ⟨runs, runs', failed⟩ := of_decide_eq_true fails
    exact ⟨_, _, ‹_›, ‹_›, runs, runs', failed⟩
  all_goals cases fails

end Preempt
