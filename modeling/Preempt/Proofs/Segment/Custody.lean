import Preempt.Proofs.Segment.Ledger
import Preempt.Proofs.Segment.Operations

/-!
The operations that move contexts, and what each does to the ledger. `Ledger.Step` gives the
conditions under which an operation may be issued; `Custody` says that a kernel holds the contexts
of a ledger and that no task is in two places. An operation that may be issued completes and keeps
custody (`Custody.step`), except that a core whose scheduler was not started does not switch.
-/

namespace Preempt

variable {size n : Nat}

def Kernel.onBanks {α : Type} (action : BanksM size n α) : Kernel.SegmentedM size n α :=
  onStorage (Storage.onContext action)

inductive Operation (n : Nat) where
  | create (task : TaskId) (sp entry argument : Word)
  | enterTrap (c : Fin n) (enabled : Bool)
  | enterCall (c : Fin n)
  | leaveTrap (c : Fin n)
  | leaveCall (c : Fin n)
  | switch (c : Fin n) (choice : Choice) (depth : TrapDepth)
  | enterFirst (c : Fin n)
  | free (task : TaskId)

inductive Answer where
  | done
  | refused (cause : Refusal)
  | resumed (r : Resumption)

def Answer.of : Except Refusal Unit → Answer
  | .ok () => done
  | .error cause => refused cause

namespace Operation

open Kernel

def perform : Operation n → SegmentedM size n Answer
  | create task sp entry argument => return .of (← createFrom task sp entry argument)
  | enterTrap c enabled => return .of (← onBanks (Banks.enterTrap c enabled))
  | enterCall c => return .of (← onBanks (Banks.enterCall c))
  | leaveTrap c => do
    onBanks (Banks.leaveTrap c)
    return .done
  | leaveCall c => do
    onBanks (Banks.leaveCall c)
    return .done
  | switch c choice depth => return .resumed (← switchWith (choosing choice) c depth)
  | enterFirst c => return .resumed (← Kernel.enterFirst c 0)
  | free task => do
    freeTask task
    return .done

end Operation

/-- What an operation does to the ledger, and when it may be issued. A call or a trap with no free
segment is refused; a trap with only one free segment is refused with that segment spilled. -/
inductive Ledger.Step (k : Kernel (Banks size n) n) (L : Ledger n) :
    Operation n → Answer → Ledger n → Prop
  | created {task : TaskId} {sp entry argument : Word} (absent : L.saved task = none)
      (idle : ∀ c, ¬k.Runs c task) (room : k.storage.tasks.Room task sp) :
      Step k L (.create task sp entry argument) .done
        (L.withSaved task (some (.initial sp entry argument)))
  | notCreated {task : TaskId} {sp entry argument : Word} (absent : L.saved task = none)
      (idle : ∀ c, ¬k.Runs c task) (room : k.storage.tasks.Room task sp) :
      Step k L (.create task sp entry argument) (.refused .segmentsExhausted) L
  | trapped {c : Fin n} {enabled : Bool} :
      Step k L (.enterTrap c enabled) .done (L.withLive c (.trap enabled
        (k.storage.context.upper.get c).spill (k.storage.context.lower.get c).spill :: L.live c))
  | halfTrapped {c : Fin n} {enabled : Bool}
      (left : k.storage.context.pool.freeHead.isNull = false) :
      Step k L (.enterTrap c enabled) (.refused .segmentsExhausted)
        (L.withLive c (.call (k.storage.context.upper.get c).spill :: L.live c))
  | notTrapped {c : Fin n} {enabled : Bool}
      (full : k.storage.context.pool.freeHead.isNull = true) :
      Step k L (.enterTrap c enabled) (.refused .segmentsExhausted) L
  | called {c : Fin n} :
      Step k L (.enterCall c) .done
        (L.withLive c (.call (k.storage.context.upper.get c).spill :: L.live c))
  | notCalled {c : Fin n} : Step k L (.enterCall c) (.refused .segmentsExhausted) L
  | leftTrap {c : Fin n} {enabled : Bool} {upper lower : Vector Word dataWords}
      {below : List Spill} (top : L.live c = .trap enabled upper lower :: below) :
      Step k L (.leaveTrap c) .done (L.withLive c below)
  | leftCall {c : Fin n} {upper : Vector Word dataWords} {below : List Spill}
      (top : L.live c = .call upper :: below) : Step k L (.leaveCall c) .done (L.withLive c below)
  /-- Exactly `depth` calls are open above the interrupted task. -/
  | switched {c : Fin n} {choice : Choice} {depth : TrapDepth} {calls : List Spill}
      {old new : Suspension} (top : L.live c = calls ++ old.spills)
      (plain : ∀ x ∈ calls, x.isCall = true) (deep : calls.length = depth.toNat)
      (nesting : old.nesting = (k.board.cores.get c).nesting)
      (room : k.storage.tasks.Room (k.scheduler.current c) old.upper[upperStackPointer - 1])
      (suspended : (L.suspend c calls (k.scheduler.current c) old).saved
        (choice.pick (k.scheduler.queues.get c)).current = some new) :
      Step k L (.switch c choice depth) (.resumed ⟨new.nesting, new.enabled⟩)
        ((L.suspend c calls (k.scheduler.current c) old).resume c
          (choice.pick (k.scheduler.queues.get c)).current new)
  | entered {c : Fin n} {new : Suspension}
      (null : (k.storage.context.pool.links.get c).isNull = true)
      (suspended : L.saved (k.scheduler.current c) = some new) :
      Step k L (.enterFirst c) (.resumed ⟨new.nesting, new.enabled⟩)
        (L.resume c (k.scheduler.current c) new)
  | freed {task : TaskId} (suspended : L.saved task ≠ none) :
      Step k L (.free task) .done (L.withSaved task none)

/-- The answer tells what happened to the ledger; after a trap that was refused, whether a segment
was free does. -/
theorem Ledger.Step.unique {k : Kernel (Banks size n) n} {L L₁ L₂ : Ledger n} {op : Operation n}
    {answer : Answer} (first : L.Step k op answer L₁) (second : L.Step k op answer L₂) :
    L₁ = L₂ := by
  cases first with
  | created _ _ _ =>
    cases second
    rfl
  | notCreated _ _ _ =>
    cases second
    rfl
  | trapped =>
    cases second
    rfl
  | halfTrapped left =>
    cases second with
    | halfTrapped _ => rfl
    | notTrapped full => exact absurd full (by simp [left])
  | notTrapped full =>
    cases second with
    | halfTrapped left => exact absurd full (by simp [left])
    | notTrapped _ => rfl
  | called =>
    cases second
    rfl
  | notCalled =>
    cases second
    rfl
  | leftTrap top =>
    cases second with
    | leftTrap top' =>
      rw [top] at top'
      cases top'
      rfl
  | leftCall top =>
    cases second with
    | leftCall top' =>
      rw [top] at top'
      cases top'
      rfl
  | @switched c choice depth calls old new top _ deep nesting _ suspended =>
    generalize said : Answer.resumed ⟨new.nesting, new.enabled⟩ = answer at second
    cases second with
    | @switched _ _ _ calls' old' new' top' _ deep' nesting' _ suspended' =>
      rw [top] at top'
      obtain ⟨rfl, same⟩ := List.append_inj top' (deep.trans deep'.symm)
      obtain rfl : old = old' := by
        cases old
        cases old'
        simp only [Suspension.spills, List.cons.injEq, Spill.trap.injEq] at same nesting nesting'
        simp [same, nesting, nesting']
      rw [suspended] at suspended'
      cases suspended'
      rfl
  | @entered c new null suspended =>
    generalize said : Answer.resumed ⟨new.nesting, new.enabled⟩ = answer at second
    cases second with
    | entered _ suspended' =>
      rw [suspended] at suspended'
      cases suspended'
      rfl
  | freed _ =>
    cases second
    rfl

/-- A kernel holds the contexts of a ledger, in all segments but the free and the lost ones. -/
structure Custody (k : Kernel (Banks size n) n) (L : Ledger n) (lost : List (Fin size) := []) :
    Prop extends k.Sole L.saved where
  kept : Kept k.storage.context.pool k.storage.tasks L lost

theorem Ledger.saved_resume (L : Ledger n) (c : Fin n) (task other : TaskId) (new : Suspension) :
    (L.resume c task new).saved other = if other = task then none else L.saved other := by
  rw [resume, saved_withLive, saved_withSaved]

/-! The banks on top of a core's stack. -/

namespace Kept

variable {b : Banks size n} {ts : Tasks} {L : Ledger n} {lost : List (Fin size)} {c : Fin n}
  {upper lower : Vector Word dataWords} {below : List Spill} {enabled : Bool}

theorem enterTrap (kept : Kept b.pool ts L lost) (c : Fin n) (enabled : Bool) :
    (∃ b', Banks.enterTrap c enabled b = .ok (.ok ()) b' ∧ Kept b'.pool ts
      (L.withLive c (.trap enabled (b.upper.get c).spill (b.lower.get c).spill :: L.live c))
      lost) ∨
    (∃ b', b.pool.freeHead.isNull = false ∧
      Banks.enterTrap c enabled b = .ok (.error .segmentsExhausted) b' ∧
      Kept b'.pool ts (L.withLive c (.call (b.upper.get c).spill :: L.live c)) lost) ∨
    b.pool.freeHead.isNull = true ∧
      Banks.enterTrap c enabled b = .ok (.error .segmentsExhausted) b := by
  rcases kept.pushTrap c enabled (b.upper.get c).spill (b.lower.get c).spill with
    ⟨l, l', q, r, first, second, kept'⟩ | ⟨l, q, left, first, second, kept'⟩ | ⟨full, refused⟩
  · have upper := Banks.spillBank_run .upper first
    have lower := Banks.spillBank_run .lower (b := { b with pool := q }) second
    refine Or.inl ⟨{ b with pool := r }, ?_, kept'⟩
    simp only [Banks.enterTrap, Action.bind_run, upper, Except.map, lower]
  · have upper := Banks.spillBank_run .upper first
    have lower := Banks.spillBank_run .lower (b := { b with pool := q }) second
    refine Or.inr (Or.inl ⟨{ b with pool := q }, left, ?_, kept'⟩)
    simp only [Banks.enterTrap, Action.bind_run, upper, Except.map, lower]
  · have upper := Banks.spillBank_run .upper refused
    refine Or.inr (Or.inr ⟨full, ?_⟩)
    simp only [Banks.enterTrap, Action.bind_run, upper, Except.map]
    rfl

theorem enterCall (kept : Kept b.pool ts L lost) (c : Fin n) :
    (∃ b', Banks.enterCall c b = .ok (.ok ()) b' ∧
      Kept b'.pool ts (L.withLive c (.call (b.upper.get c).spill :: L.live c)) lost) ∨
    Banks.enterCall c b = .ok (.error .segmentsExhausted) b := by
  rcases kept.push c (b.upper.get c).spill true false with ⟨l, q, pushed, kept'⟩ | refused
  · exact Or.inl ⟨_, Banks.spillBank_run .upper pushed, kept'⟩
  · exact Or.inr (Banks.spillBank_run .upper refused)

/-- A return gives back what the call spilled. -/
theorem leaveCall (kept : Kept b.pool ts L lost) (top : L.live c = .call upper :: below) :
    ∃ b', Banks.leaveCall c b = .ok () b' ∧ Kept b'.pool ts (L.withLive c below) lost ∧
      (b'.upper.get c).spill = upper ∧ b'.lower = b.lower := by
  obtain ⟨s, q, popped, data, kept'⟩ := kept.pop top
  refine ⟨_, Banks.reloadBank_run .upper popped, kept', ?_, rfl⟩
  simp [Banks.withBank, data]

/-- A return from a trap gives back both banks as the trap found them. -/
theorem leaveTrap (kept : Kept b.pool ts L lost)
    (top : L.live c = .trap enabled upper lower :: below) :
    ∃ b', Banks.leaveTrap c b = .ok () b' ∧ Kept b'.pool ts (L.withLive c below) lost ∧
      (b'.upper.get c).spill = upper ∧ (b'.lower.get c).spill = lower := by
  obtain ⟨s, s', q, r, first, second, data, data', kept'⟩ := kept.popTrap top
  have lowerRan := Banks.reloadBank_run .lower first
  set b₁ := ({ b with pool := q }).withBank .lower c ((b.bankOf .lower c).reload s.data) with hb₁
  have upperRan := Banks.reloadBank_run .upper (b := b₁) second
  refine ⟨({ b₁ with pool := r }).withBank .upper c ((b₁.bankOf .upper c).reload s'.data), ?_,
    kept', ?_, ?_⟩
  · simp only [Banks.leaveTrap, Action.bind_run, lowerRan, upperRan]
  · simp [Banks.withBank, data']
  · simp [Banks.withBank, hb₁, data]

end Kept

namespace Custody

variable {k k' : Kernel (Banks size n) n} {L L' : Ledger n} {lost : List (Fin size)} {c : Fin n}
  {task : TaskId}

/-- Custody depends on the engine only through the tasks that run. -/
theorem calm (custody : Custody k L lost) (calm : k.Calm k')
    (kept : Kept k'.storage.context.pool k'.storage.tasks L' lost)
    (own : ∀ {c task}, k.Runs c task → L'.saved task = none) : Custody k' L' lost :=
  ⟨custody.toSole.calm calm own, kept⟩

/-! One operation after the other. -/

/-- The kernel with other banks. -/
def withBanks (k : Kernel (Banks size n) n) (b : Banks size n) : Kernel (Banks size n) n :=
  { k with storage := { k.storage with context := b } }

theorem onBanks_run {α : Type} {action : BanksM size n α} {a : α} {b : Banks size n}
    (ran : action k.storage.context = .ok a b) :
    Kernel.onBanks action k = .ok a (withBanks k b) := by
  simp only [Kernel.onBanks, Kernel.onStorage, Storage.onContext, ran]
  rfl

theorem answered {α : Type} {action : Kernel.SegmentedM size n α} {f : α → Answer} {a : α}
    (ran : action k = .ok a k') :
    (do return f (← action) : Kernel.SegmentedM size n Answer) k = .ok (f a) k' := by
  simp only [Action.bind_run, ran]
  rfl

theorem unanswered {α : Type} {action : Kernel.SegmentedM size n α} {f : α → Answer} {halt : Halt}
    (ran : action k = .error halt k') :
    (do return f (← action) : Kernel.SegmentedM size n Answer) k = .error halt k' := by
  simp only [Action.bind_run, ran]

/-- What happens to a core's stack leaves the tasks alone. -/
theorem onStack (custody : Custody k L lost) {b : Banks size n} {stack : List Spill}
    (kept : Kept b.pool k.storage.tasks (L.withLive c stack) lost) :
    Custody (withBanks k b) (L.withLive c stack) lost :=
  custody.calm ⟨rfl, fun _ => rfl⟩ kept fun runs => custody.own runs

theorem create (custody : Custody k L lost) (absent : L.saved task = none)
    (idle : ∀ c, ¬k.Runs c task) {sp : Word} (room : k.storage.tasks.Room task sp)
    (entry argument : Word) :
    (∃ k', (Operation.create task sp entry argument).perform k = .ok .done k' ∧
      Custody k' (L.withSaved task (some (.initial sp entry argument))) lost ∧ k.Calm k') ∨
    ∃ k', (Operation.create task sp entry argument).perform k =
      .ok (.refused .segmentsExhausted) k' ∧ Custody k' L lost ∧ k.Calm k' := by
  rcases custody.kept.create absent sp entry argument with
    ⟨head, tail, q, r, taken, written, kept⟩ | refused
  · obtain ⟨trace, ts, ran, parks, others⟩ := Kernel.createFrom_run taken written room
    refine Or.inl ⟨_, answered (f := .of) ran, ?_, ⟨rfl, fun _ => rfl⟩⟩
    refine custody.calm ⟨rfl, fun _ => rfl⟩ (kept ts parks others) ?_
    intro c other runs
    have apart : other ≠ task := by
      rintro rfl
      exact idle c runs
    rw [Ledger.saved_withSaved, if_neg apart]
    exact custody.own runs
  · obtain ⟨trace, ran⟩ := Kernel.createFrom_run_refused entry argument refused
    refine Or.inr ⟨_, answered (f := .of) ran, ?_, ⟨rfl, fun _ => rfl⟩⟩
    exact custody.calm ⟨rfl, fun _ => rfl⟩ custody.kept fun runs => custody.own runs

theorem enterTrap (custody : Custody k L lost) (c : Fin n) (enabled : Bool) :
    (∃ b, (Operation.enterTrap c enabled).perform k = .ok .done (withBanks k b) ∧
      Custody (withBanks k b) (L.withLive c (.trap enabled (k.storage.context.upper.get c).spill
        (k.storage.context.lower.get c).spill :: L.live c)) lost) ∨
    (∃ b, k.storage.context.pool.freeHead.isNull = false ∧
      (Operation.enterTrap c enabled).perform k =
        .ok (.refused .segmentsExhausted) (withBanks k b) ∧
      Custody (withBanks k b)
        (L.withLive c (.call (k.storage.context.upper.get c).spill :: L.live c)) lost) ∨
    k.storage.context.pool.freeHead.isNull = true ∧
      (Operation.enterTrap c enabled).perform k = .ok (.refused .segmentsExhausted) k := by
  rcases custody.kept.enterTrap c enabled with ⟨b, ran, kept⟩ | ⟨b, left, ran, kept⟩ | ⟨full, ran⟩
  · exact Or.inl ⟨b, answered (f := .of) (onBanks_run ran), custody.onStack kept⟩
  · exact Or.inr (Or.inl ⟨b, left, answered (f := .of) (onBanks_run ran), custody.onStack kept⟩)
  · exact Or.inr (Or.inr ⟨full, answered (f := .of) (onBanks_run ran)⟩)

theorem enterCall (custody : Custody k L lost) (c : Fin n) :
    (∃ b, (Operation.enterCall c).perform k = .ok .done (withBanks k b) ∧
      Custody (withBanks k b)
        (L.withLive c (.call (k.storage.context.upper.get c).spill :: L.live c)) lost) ∨
    (Operation.enterCall c).perform k = .ok (.refused .segmentsExhausted) k := by
  rcases custody.kept.enterCall c with ⟨b, ran, kept⟩ | ran
  · exact Or.inl ⟨b, answered (f := .of) (onBanks_run ran), custody.onStack kept⟩
  · exact Or.inr (answered (f := .of) (onBanks_run ran))

/-- A return gives back what the call spilled. -/
theorem leaveCall (custody : Custody k L lost) {upper : Vector Word dataWords}
    {below : List Spill} (top : L.live c = .call upper :: below) :
    ∃ b, (Operation.leaveCall c).perform k = .ok .done (withBanks k b) ∧
      Custody (withBanks k b) (L.withLive c below) lost ∧ (b.upper.get c).spill = upper ∧
      b.lower = k.storage.context.lower := by
  obtain ⟨b, ran, kept, same⟩ := custody.kept.leaveCall top
  exact ⟨b, answered (f := fun _ => .done) (onBanks_run ran), custody.onStack kept, same⟩

/-- A return from a trap gives back both banks as the trap found them. -/
theorem leaveTrap (custody : Custody k L lost) {enabled : Bool}
    {upper lower : Vector Word dataWords} {below : List Spill}
    (top : L.live c = .trap enabled upper lower :: below) :
    ∃ b, (Operation.leaveTrap c).perform k = .ok .done (withBanks k b) ∧
      Custody (withBanks k b) (L.withLive c below) lost ∧ (b.upper.get c).spill = upper ∧
      (b.lower.get c).spill = lower := by
  obtain ⟨b, ran, kept, same⟩ := custody.kept.leaveTrap top
  exact ⟨b, answered (f := fun _ => .done) (onBanks_run ran), custody.onStack kept, same⟩

/-- The chain of a suspended task goes back. -/
theorem freeTask (custody : Custody k L lost) (suspended : L.saved task ≠ none) :
    ∃ trace r head, Kernel.freeTask task k = .ok () { k with
        board := { k.board with trace }
        storage := Banks.withPool k.storage r } ∧
      Custody { k with
        board := { k.board with trace }
        storage := Banks.withPool k.storage r } (L.withSaved task none) lost ∧
      Tasks.savedHead task k.storage.tasks = .ok head k.storage.tasks ∧
      k.storage.context.pool.Frees r head := by
  obtain ⟨s, is⟩ := Option.ne_none_iff_exists'.mp suspended
  obtain ⟨head, tail, count, q, r, saved, plain, notNull, passes, unmarked, spliced, kept, frees⟩ :=
    custody.kept.giveBack is
  obtain ⟨trace, ran⟩ := Kernel.freeTask_run saved plain notNull passes unmarked spliced
  refine ⟨trace, r, head, ran, custody.calm ⟨rfl, fun _ => rfl⟩ kept ?_, saved, frees⟩
  intro c other runs
  rw [Ledger.saved_withSaved]
  split
  · rfl
  · exact custody.own runs

theorem free (custody : Custody k L lost) (suspended : L.saved task ≠ none) :
    ∃ k', (Operation.free task).perform k = .ok .done k' ∧
      Custody k' (L.withSaved task none) lost ∧ k.Calm k' := by
  obtain ⟨trace, r, head, ran, custody', _⟩ := custody.freeTask suspended
  exact ⟨_, answered (f := fun _ => .done) ran, custody', ⟨rfl, fun _ => rfl⟩⟩

/-- A running core hands itself over from one task to another. -/
theorem switch (custody : Custody k L lost) {choice : Choice} {depth : TrapDepth}
    {calls : List Spill} {old new : Suspension}
    (running : (k.board.cores.get c).state = .running)
    (top : L.live c = calls ++ old.spills) (plain : ∀ x ∈ calls, x.isCall = true)
    (deep : calls.length = depth.toNat) (nesting : old.nesting = (k.board.cores.get c).nesting)
    (room : k.storage.tasks.Room (k.scheduler.current c) old.upper[upperStackPointer - 1])
    (suspended : (L.suspend c calls (k.scheduler.current c) old).saved
      (choice.pick (k.scheduler.queues.get c)).current = some new) :
    ∃ k', (Operation.switch c choice depth).perform k =
        .ok (.resumed ⟨new.nesting, new.enabled⟩) k' ∧
      Custody k' ((L.suspend c calls (k.scheduler.current c) old).resume c
        (choice.pick (k.scheduler.queues.get c)).current new) lost ∧
      k.GoesOn k' c (choice.pick (k.scheduler.queues.get c)).current := by
  set outgoing := k.scheduler.current c with houtgoing
  set incoming := (choice.pick (k.scheduler.queues.get c)).current with hincoming
  have outgoingRuns : k.Runs c outgoing := ⟨running, rfl⟩
  obtain ⟨s₁, q, ts, saved, restored, kept, _⟩ :=
    custody.kept.handOver top plain deep (custody.own outgoingRuns) room suspended
  rw [nesting] at saved
  obtain ⟨trace, ran⟩ := Kernel.switchWith_run running saved restored
  refine ⟨_, answered (f := .resumed) ran, ⟨?_, kept⟩, .of_put choice rfl rfl rfl⟩
  refine custody.toSole.switched running ?_ (Option.ne_none_iff_exists'.mpr ⟨_, suspended⟩)
    (.of_put choice rfl rfl rfl) (Ledger.saved_resume _ c incoming · new)
  intro other apart
  simp [Ledger.suspend, Ledger.saved_withSaved, apart, houtgoing]

/-- A core enters its current task, and the chain that it had is lost. -/
theorem enter (custody : Custody k L lost) (c : Fin n) {new : Suspension}
    (suspended : L.saved (k.scheduler.current c) = some new) :
    ∃ dropped k', (Operation.enterFirst c).perform k =
        .ok (.resumed ⟨new.nesting, new.enabled⟩) k' ∧
      dropped.length = ((L.live c).map Spill.segments).sum ∧
      Custody k' ((L.withLive c []).resume c (k.scheduler.current c) new) (dropped ++ lost) ∧
      k.GoesOn k' c (k.scheduler.current c) := by
  obtain ⟨dropped, q, ts, restored, long, kept, _⟩ := custody.kept.enter c suspended
  obtain ⟨trace, ran⟩ := Kernel.enterFirst_run (k := k) restored
  have same : k.scheduler = k.scheduler.choose .stay c := (k.scheduler.choose_stay c).symm
  refine ⟨dropped, _, answered (f := .resumed) ran, long, ⟨?_, kept⟩, .of_put .stay rfl rfl same⟩
  exact custody.toSole.entered (Option.ne_none_iff_exists'.mpr ⟨_, suspended⟩)
    (.of_put .stay rfl rfl same) (Ledger.saved_resume _ c _ · new)

/-- A core without a chain loses nothing when it enters its current task. -/
theorem enterFirst (custody : Custody k L lost)
    (null : (k.storage.context.pool.links.get c).isNull = true) {new : Suspension}
    (suspended : L.saved (k.scheduler.current c) = some new) :
    ∃ k', (Operation.enterFirst c).perform k = .ok (.resumed ⟨new.nesting, new.enabled⟩) k' ∧
      Custody k' (L.resume c (k.scheduler.current c) new) lost ∧
      k.GoesOn k' c (k.scheduler.current c) := by
  obtain ⟨dropped, k', ran, long, custody', goesOn⟩ := custody.enter c suspended
  have idle := custody.kept.live_eq_nil null
  have none : dropped = [] := by simpa [idle] using long
  rw [none, Ledger.withLive_nil idle] at custody'
  exact ⟨k', ran, custody', goesOn⟩

/-- An operation that may be issued completes, unless it is a switch on a core whose scheduler was
not started. -/
theorem step (custody : Custody k L lost) {op : Operation n} {a : Answer}
    (issued : L.Step k op a L') :
    (∃ answer L₁ k', L.Step k op answer L₁ ∧ op.perform k = .ok answer k' ∧ Custody k' L₁ lost) ∨
    ∃ c choice depth k', op = .switch c choice depth ∧ (k.board.cores.get c).state = .notStarted ∧
      op.perform k = .error (.violation .schedulerNotStarted) k' ∧ k'.storage = k.storage := by
  have created {task : TaskId} {sp : Word} (entry argument : Word) (absent : L.saved task = none)
      (idle : ∀ c, ¬k.Runs c task) (room : k.storage.tasks.Room task sp) :
      ∃ answer L₁ k', L.Step k (.create task sp entry argument) answer L₁ ∧
        (Operation.create task sp entry argument).perform k = .ok answer k' ∧
        Custody k' L₁ lost := by
    rcases custody.create absent idle room entry argument with
      ⟨k₁, ran, kept, _⟩ | ⟨k₁, ran, kept, _⟩
    · exact ⟨_, _, k₁, .created absent idle room, ran, kept⟩
    · exact ⟨_, _, k₁, .notCreated absent idle room, ran, kept⟩
  have trapped (c : Fin n) (enabled : Bool) : ∃ answer L₁ k',
      L.Step k (.enterTrap c enabled) answer L₁ ∧
        (Operation.enterTrap c enabled).perform k = .ok answer k' ∧ Custody k' L₁ lost := by
    rcases custody.enterTrap c enabled with
      ⟨b, ran, kept⟩ | ⟨b, left, ran, kept⟩ | ⟨full, ran⟩
    · exact ⟨_, _, _, .trapped, ran, kept⟩
    · exact ⟨_, _, _, .halfTrapped left, ran, kept⟩
    · exact ⟨_, _, _, .notTrapped full, ran, custody⟩
  have called (c : Fin n) : ∃ answer L₁ k', L.Step k (.enterCall c) answer L₁ ∧
      (Operation.enterCall c).perform k = .ok answer k' ∧ Custody k' L₁ lost := by
    rcases custody.enterCall c with ⟨b, ran, kept⟩ | ran
    · exact ⟨_, _, _, .called, ran, kept⟩
    · exact ⟨_, _, _, .notCalled, ran, custody⟩
  cases issued with
  | created absent idle room => exact Or.inl (created _ _ absent idle room)
  | notCreated absent idle room => exact Or.inl (created _ _ absent idle room)
  | trapped => exact Or.inl (trapped _ _)
  | halfTrapped _ => exact Or.inl (trapped _ _)
  | notTrapped _ => exact Or.inl (trapped _ _)
  | called => exact Or.inl (called _)
  | notCalled => exact Or.inl (called _)
  | leftTrap top =>
    obtain ⟨b, ran, kept, _⟩ := custody.leaveTrap top
    exact Or.inl ⟨_, _, _, .leftTrap top, ran, kept⟩
  | leftCall top =>
    obtain ⟨b, ran, kept, _⟩ := custody.leaveCall top
    exact Or.inl ⟨_, _, _, .leftCall top, ran, kept⟩
  | @switched c choice depth calls old new top plain deep nesting room suspended =>
    cases state : (k.board.cores.get c).state with
    | running =>
      obtain ⟨k₁, ran, kept, _⟩ := custody.switch state top plain deep nesting room suspended
      exact Or.inl ⟨_, _, k₁, .switched top plain deep nesting room suspended, ran, kept⟩
    | switching => exact absurd state (custody.settled c)
    | notStarted =>
      have halted := Kernel.switchWith_run_notStarted depth (Kernel.choosing choice) state
      exact Or.inr ⟨c, choice, depth, _, rfl, state, unanswered (f := .resumed) halted, rfl⟩
  | entered null suspended =>
    obtain ⟨k₁, ran, kept, _⟩ := custody.enterFirst null suspended
    exact Or.inl ⟨_, _, k₁, .entered null suspended, ran, kept⟩
  | freed suspended =>
    obtain ⟨k₁, ran, kept, _⟩ := custody.free suspended
    exact Or.inl ⟨_, _, k₁, .freed suspended, ran, kept⟩

/-- The ledger follows what the operation answered. -/
theorem follow (custody : Custody k L lost) {op : Operation n} {answer : Answer}
    (issued : L.Step k op answer L') (ran : op.perform k = .ok answer k') :
    Custody k' L' lost := by
  rcases custody.step issued with
    ⟨answer₁, L₁, k₁, step₁, ran₁, kept⟩ | ⟨_, _, _, k₁, _, _, ran₁, _⟩
  · rw [ran] at ran₁
    cases ran₁
    rw [issued.unique step₁]
    exact kept
  · rw [ran] at ran₁
    cases ran₁

end Custody

end Preempt
