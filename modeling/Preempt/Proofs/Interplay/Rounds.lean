import Preempt.Proofs.Interplay.Checks

/-!
What the engine of a core shows over a whole run: the restore of the first task, and then rounds of
save, select and restore. Each round saves the task that was restored last, and the tasks take turns
in the order of the queue (`TaskQueue.rounds`).
-/

namespace Preempt

open Preempt.Action

variable {κ : Type} {n : Nat} {c : Fin n}

namespace TaskQueue

/-- The queue when it is a given turn, counted from the first task. -/
def atTurn (q : TaskQueue) (turn : Nat) : TaskQueue where
  tasks := q.tasks
  index := ⟨turn % q.tasks.size, Nat.mod_lt _ (Nat.zero_lt_of_lt q.index.isLt)⟩

/-- The engine's steps up to the turn that is the last. -/
def rounds (q : TaskQueue) : Nat → List EngineStep
  | 0 => [.restore (q.atTurn 0).current]
  | turn + 1 => q.rounds turn ++
      [.save (q.atTurn turn).current, .select, .restore (q.atTurn (turn + 1)).current]

theorem rotate_atTurn (q : TaskQueue) (turn : Nat) :
    (q.atTurn turn).rotate = q.atTurn (turn + 1) := by
  simp only [rotate, atTurn, Nat.mod_add_mod]

theorem rounds_atTurn (q : TaskQueue) (turn last : Nat) :
    (q.atTurn turn).rounds last = q.rounds last := by
  induction last with
  | zero => rfl
  | succ last ih => rw [rounds, ih]; rfl

/-- A queue that is made of a list starts with the first turn. -/
theorem atTurn_of_ofList? {tasks : List TaskId} {q : TaskQueue} (made : ofList? tasks = some q) :
    q = q.atTurn 0 := by
  unfold ofList? at made
  split at made
  · cases made
    simp only [atTurn, Nat.zero_mod]
  · cases made

end TaskQueue

theorem exists_of_mapM_eq_some {α β : Type} {f : α → Option β} {xs : List α} {ys : List β}
    (mapped : xs.mapM f = some ys) {y : β} (member : y ∈ ys) : ∃ x, f x = some y := by
  induction xs generalizing ys with
  | nil =>
    cases mapped
    cases member
  | cons x xs ih =>
    rw [List.mapM_cons] at mapped
    obtain ⟨first, made, mapped⟩ := Option.bind_eq_some_iff.mp mapped
    obtain ⟨others, rest, is⟩ := Option.bind_eq_some_iff.mp mapped
    cases is
    rcases List.mem_cons.mp member with rfl | later
    · exact ⟨x, made⟩
    · exact ih rest later

theorem RoundRobin.atTurn_of_make {lists : Vector (List TaskId) n} {queues : Vector TaskQueue n}
    (made : lists.mapM TaskQueue.ofList? = some queues) (c : Fin n) :
    queues.get c = (queues.get c).atTurn 0 := by
  have mapped : lists.toList.mapM TaskQueue.ofList? = some queues.toList := by
    have flat : Vector.toArray <$> lists.mapM TaskQueue.ofList? =
        lists.toArray.mapM TaskQueue.ofList? := Vector.toArray_mapM
    have lowered : Array.toList <$> lists.toArray.mapM TaskQueue.ofList? =
        lists.toList.mapM TaskQueue.ofList? := Array.toList_mapM
    rw [← lowered, ← flat, made]
    rfl
  have member : queues.get c ∈ queues.toList := by
    rw [Vector.mem_toList_iff]
    exact Vector.getElem_mem c.isLt
  obtain ⟨tasks, made⟩ := exists_of_mapM_eq_some mapped member
  exact TaskQueue.atTurn_of_ofList? made

namespace Kernel

/-- The engine of core `c` has not run yet. -/
structure Unstarted (k : Kernel κ n) (c : Fin n) : Prop where
  state : (k.board.cores.get c).state = .notStarted
  steps : k.board.engineSteps c = []
  switches : (k.board.cores.get c).switches = 0
  queue : k.scheduler.queues.get c = (k.scheduler.queues.get c).atTurn 0

/-- Core `c` runs the task of a turn, after one switch for each turn but the first. -/
structure InTurn (k : Kernel κ n) (c : Fin n) (turn : Nat) : Prop where
  state : (k.board.cores.get c).state = .running
  steps : k.board.engineSteps c = (k.scheduler.queues.get c).rounds turn
  switches : (k.board.cores.get c).switches = .ofNat turn
  queue : k.scheduler.queues.get c = (k.scheduler.queues.get c).atTurn turn
  entered : (k.board.cores.get c).pending ≠ .firstTask

def InRounds (k : Kernel κ n) (c : Fin n) : Prop := k.Unstarted c ∨ ∃ turn, k.InTurn c turn

variable {k k' : Kernel κ n} {turn : Nat} {pending : Pending}

theorem Unstarted.congr (unstarted : k.Unstarted c)
    (state : (k'.board.cores.get c).state = (k.board.cores.get c).state)
    (switches : (k'.board.cores.get c).switches = (k.board.cores.get c).switches)
    (steps : k'.board.engineSteps c = k.board.engineSteps c)
    (queue : k'.scheduler.queues.get c = k.scheduler.queues.get c) : k'.Unstarted c := by
  refine ⟨state.trans unstarted.state, steps.trans unstarted.steps,
    switches.trans unstarted.switches, ?_⟩
  rw [queue]
  exact unstarted.queue

theorem InRounds.congr (rounds : k.InRounds c)
    (state : (k'.board.cores.get c).state = (k.board.cores.get c).state)
    (switches : (k'.board.cores.get c).switches = (k.board.cores.get c).switches)
    (pending : (k'.board.cores.get c).pending = .firstTask →
      (k.board.cores.get c).pending = .firstTask)
    (steps : k'.board.engineSteps c = k.board.engineSteps c)
    (queue : k'.scheduler.queues.get c = k.scheduler.queues.get c) : k'.InRounds c := by
  rcases rounds with unstarted | ⟨turn, inTurn⟩
  · exact .inl (unstarted.congr state switches steps queue)
  · refine .inr ⟨turn, state.trans inTurn.state, ?_, switches.trans inTurn.switches, ?_,
      fun called => inTurn.entered (pending called)⟩
    · rw [queue, steps]
      exact inTurn.steps
    · rw [queue]
      exact inTurn.queue

theorem InRounds.running (rounds : k.InRounds c)
    (running : (k.board.cores.get c).state = .running) : ∃ turn, k.InTurn c turn := by
  rcases rounds with unstarted | inTurn
  · rw [unstarted.state] at running
    cases running
  · exact inTurn

theorem InRounds.called (rounds : k.InRounds c)
    (called : (k.board.cores.get c).pending = .firstTask) : k.Unstarted c := by
  rcases rounds with unstarted | ⟨turn, inTurn⟩
  · exact unstarted
  · exact absurd called inTurn.entered

theorem InRounds.stopped (rounds : k.InRounds c)
    (stopped : (k.board.cores.get c).state = .notStarted) : k.Unstarted c := by
  rcases rounds with unstarted | ⟨turn, inTurn⟩
  · exact unstarted
  · rw [inTurn.state] at stopped
    cases stopped

theorem Advances.inRounds {d : Fin n} {locking : Bool} (advances : k.Advances c locking k')
    (rounds : k.InRounds d) : k'.InRounds d := by
  have queue : k'.scheduler.queues.get d = k.scheduler.queues.get d := by rw [advances.queues]
  by_cases here : d = c
  · subst here
    have asks := advances.board.asks
    refine rounds.congr asks.state asks.switches (fun called => ?_)
      (advances.board.steps d) queue
    rcases asks.asked with ⟨same, _⟩ | ⟨_, switch, _⟩
    · rwa [same] at called
    · rw [switch] at called
      cases called
  · have same := advances.board.others d here
    exact rounds.congr (congrArg _ same) (congrArg _ same) (fun called => same ▸ called)
      (advances.board.steps d) queue

theorem Unstarted.rounds (unstarted : k.Unstarted c) :
    (k.scheduler.queues.get c).rounds 0 = [.restore (k.scheduler.current c)] := by
  rw [TaskQueue.rounds, ← unstarted.queue]
  rfl

/-- The next switch goes one round on. -/
theorem InTurn.rounds (inTurn : k.InTurn c turn) :
    (k.scheduler.queues.get c).rounds (turn + 1) = k.board.engineSteps c ++ k.switchSteps c := by
  have saved : k.scheduler.current c = ((k.scheduler.queues.get c).atTurn turn).current := by
    rw [RoundRobin.current, ← inTurn.queue]
  have restored : (k.scheduler.rotate c).current c =
      ((k.scheduler.queues.get c).atTurn (turn + 1)).current := by
    rw [RoundRobin.current, RoundRobin.rotate, Vector.get_put_self, ← TaskQueue.rotate_atTurn,
      ← inTurn.queue]
  rw [TaskQueue.rounds, inTurn.steps, switchSteps, saved, restored]

theorem InRounds.part (rounds : k.InRounds c) :
    ∃ turn, k.board.engineSteps c <+: (k.scheduler.queues.get c).rounds turn := by
  rcases rounds with unstarted | ⟨turn, inTurn⟩
  · exact ⟨0, unstarted.steps ▸ List.nil_prefix⟩
  · exact ⟨turn, inTurn.steps ▸ List.prefix_rfl⟩

theorem Switched.inTurn (inTurn : k.InTurn c turn) (switched : k.Switched k' c pending)
    (entered : pending ≠ .firstTask) : k'.InTurn c (turn + 1) := by
  have next : k'.scheduler.queues.get c = (k.scheduler.queues.get c).atTurn (turn + 1) := by
    rw [switched.queues, RoundRobin.rotate, Vector.get_put_self, ← TaskQueue.rotate_atTurn,
      ← inTurn.queue]
  refine ⟨switched.state, ?_, ?_, ?_, switched.pending.trans_ne entered⟩
  · rw [switched.steps, if_pos rfl, next, TaskQueue.rounds_atTurn, inTurn.rounds]
  · rw [switched.switches, inTurn.switches, UInt32.ofNat_add]
    rfl
  · rw [next]
    rfl

theorem Entered.inTurn {starting : Prop} [Decidable starting] (unstarted : k.Unstarted c)
    (entered : k.Entered k' c starting) : k'.InTurn c 0 := by
  have same : k'.scheduler.queues.get c = k.scheduler.queues.get c := by rw [entered.queues]
  refine ⟨entered.state, ?_, ?_, ?_, entered.pending.trans_ne Pending.noConfusion⟩
  · rw [entered.steps, if_pos rfl, unstarted.steps, same, unstarted.rounds, List.nil_append]
  · rw [entered.switches, unstarted.switches]
    rfl
  · rw [same]
    exact unstarted.queue

end Kernel

namespace PortCall

variable {call : PortCall} {k k' : Kernel κ n}

/-- A first task is entered only once. -/
theorem Enters.unstarted (entry : call.Enters k) (mine : k.board.machine.executing = c)
    (rounds : k.InRounds c) (once : call = .start → (k.board.cores.get c).state = .notStarted) :
    k.Unstarted c := by
  subst mine
  cases call with
  | start => exact rounds.stopped (once rfl)
  | endInterrupt => exact rounds.called entry.2
  | _ => exact absurd entry id

/-- A call that completes keeps every core to its rounds, if the scheduler is started only once. -/
theorem Outcome.inRounds (outcome : call.Outcome k k' c) (ready : k.board.Ready c)
    (rounds : ∀ d, k.InRounds d)
    (once : call = .start → ∀ d, (k.board.cores.get d).state = .notStarted) (d : Fin n) :
    k'.InRounds d := by
  cases outcome with
  | advances _ advances => exact advances.inRounds (rounds d)
  | handsOn _ handed =>
    have queue : k'.scheduler.queues.get d = k.scheduler.queues.get d := by rw [handed.scheduler]
    have same : (k'.board.cores.get d).state = (k.board.cores.get d).state ∧
        (k'.board.cores.get d).switches = (k.board.cores.get d).switches ∧
        ((k'.board.cores.get d).pending = .firstTask →
          (k.board.cores.get d).pending = .firstTask) := by
      rw [handed.cores, Vector.get_put]
      split
      · subst d
        exact ⟨rfl, rfl, nofun⟩
      · exact ⟨rfl, rfl, id⟩
    exact (rounds d).congr same.1 same.2.1 same.2.2 (handed.steps d) queue
  | @switches depth pending switches left switched =>
    by_cases here : d = c
    · subst here
      obtain ⟨turn, inTurn⟩ := (rounds d).running switched.running
      refine .inr ⟨turn + 1, switched.inTurn inTurn ?_⟩
      rw [left]
      split
      · exact Pending.noConfusion
      · exact inTurn.entered
    · have same := switched.others d here
      refine (rounds d).congr (congrArg _ same) (congrArg _ same) (fun called => same ▸ called)
        ?_ ?_
      · rw [switched.steps, if_neg here, List.append_nil]
      · rw [switched.queues]
        exact Vector.get_put_of_ne _ (Ne.symm here) _
  | enters entry entered =>
    by_cases here : d = c
    · subst here
      have unstarted := entry.unstarted ready.executing (rounds d) (once · d)
      exact .inr ⟨0, entered.inTurn unstarted⟩
    · have steps : k'.board.engineSteps d = k.board.engineSteps d := by
        rw [entered.steps, if_neg here, List.append_nil]
      have queue : k'.scheduler.queues.get d = k.scheduler.queues.get d := by rw [entered.queues]
      have others := entered.others d here
      -- A start calls the others, none of which has begun, and each enters its own task later.
      by_cases starting : call = .start
      · rw [if_pos starting] at others
        exact .inl (((rounds d).stopped (once starting d)).congr (by rw [others]) (by rw [others])
          steps queue)
      · rw [if_neg starting] at others
        exact (rounds d).congr (congrArg _ others) (congrArg _ others)
          (fun called => others ▸ called) steps queue

/-- What a call has shown that halts is part of some rounds. -/
theorem Breaks.part (breaks : call.Breaks k k' c) (mine : k.board.machine.executing = c)
    (rounds : ∀ d, k.InRounds d) (once : call = .start → (k.board.cores.get c).state = .notStarted)
    (d : Fin n) :
    ∃ turn, k'.board.engineSteps d <+: (k.scheduler.queues.get d).rounds turn := by
  have onward {shown : List EngineStep} (broken : k.Broken k' c shown) {turn : Nat}
      (grows : (k.scheduler.queues.get c).rounds turn = k.board.engineSteps c ++ shown) :
      ∃ turn, k'.board.engineSteps d <+: (k.scheduler.queues.get d).rounds turn := by
    obtain ⟨part, isPrefix, steps⟩ := broken
    by_cases here : d = c
    · refine ⟨turn, ?_⟩
      rw [here, steps, if_pos rfl, grows]
      exact (List.prefix_append_right_inj _).mpr isPrefix
    · rw [steps, if_neg here, List.append_nil]
      exact (rounds d).part
  cases breaks with
  | silent steps =>
    rw [steps]
    exact (rounds d).part
  | switching running broken =>
    obtain ⟨turn, inTurn⟩ := (rounds c).running running
    exact onward broken inTurn.rounds
  | entering entry broken =>
    have unstarted := entry.unstarted mine (rounds c) once
    exact onward broken (by rw [unstarted.rounds, unstarted.steps, List.nil_append])

end PortCall

/-- Saving, restoring and pending have nothing to do with the state of an engine. -/
theorem Architecture.haltIn (a : Architecture) :
    SwitchPrimitives.HaltIn (a.State n) (· ≠ .violation .switchReentered) := by
  have other {α : Type} {action : StorageM (a.State n) α} (halts : HaltsIn Halt.OfContext action) :
      HaltsIn (· ≠ .violation .switchReentered) action := by
    rintro s _ s' halted rfl
    exact halts s _ s' halted
  exact ⟨fun core task nesting depth => other (a.haltsIn_save core task nesting depth),
    fun core task depth => other (a.haltsIn_restore core task depth),
    fun core => other (a.haltsIn_pend core)⟩

namespace Interplay

variable [SwitchPrimitives κ] {w w' : Interplay κ n} {m : Option (Move n)}

omit [SwitchPrimitives κ] in
theorem inRounds_boot {core : Fin n} {boot : Kernel.Boot n} {context : κ} {k : Kernel κ n}
    (booted : Kernel.boot core boot context = .ok k) (c : Fin n) : k.InRounds c := by
  obtain ⟨rate, scheduler, made, rfl⟩ := Kernel.eq_of_boot booted
  obtain ⟨queues, mapped, rfl⟩ := RoundRobin.eq_of_make made
  refine .inl ⟨?_, rfl, ?_, RoundRobin.atTurn_of_make mapped c⟩
  · rw [Core.get_reset]
  · rw [Core.get_reset]

theorem Step.inRounds (step : w.Step m w') (once : w.Once m) (orderly : w.Orderly)
    (rounds : ∀ c, w.kernel.InRounds c) (c : Fin n) : w'.kernel.InRounds c := by
  cases step with
  | aside spares =>
    refine (rounds c).congr ?_ ?_ ?_ (spares.steps c) (by rw [spares.queues])
    all_goals rw [spares.cores]
    exact id
  | @move m stance k allowed ran =>
    have outcome := orderly.outcome ran
    have turned (e : Fin n) : (w.turn m.core).InRounds e := (rounds e).congr rfl rfl id rfl rfl
    cases outcome with
    | start outcome =>
      exact outcome.inRounds (ready_turn orderly.known _) turned
        (fun starts => once _ (by rw [starts])) c
    | proceed advances => exact advances.inRounds (turned c)

theorem Reached.inRounds (reached : w.Reached Once) (c : Fin n) : w.kernel.InRounds c := by
  induction reached generalizing c with
  | boot booted => exact inRounds_boot booted c
  | step before step once ih => exact step.inRounds once before.orderly ih c

omit [SwitchPrimitives κ] in
/-- What a move that completes leaves of the queues. -/
theorem Outcome.tasks {m : Move n} {k : Kernel κ n} (outcome : w.Outcome m k) (c : Fin n) :
    (k.scheduler.queues.get c).tasks = (w.kernel.scheduler.queues.get c).tasks := by
  cases outcome with
  | proceed advances => rw [advances.queues]; rfl
  | start outcome =>
    cases outcome with
    | advances _ advances => rw [advances.queues]; rfl
    | handsOn _ handed => rw [handed.scheduler]; rfl
    | enters _ entered => rw [entered.queues]; rfl
    | switches _ _ switched =>
      rw [switched.queues, RoundRobin.rotate, Vector.get_put]
      split
      · subst c
        rfl
      · rfl

theorem Step.tasks (step : w.Step m w') (orderly : w.Orderly) (c : Fin n) :
    (w'.kernel.scheduler.queues.get c).tasks = (w.kernel.scheduler.queues.get c).tasks := by
  cases step with
  | move _ ran => exact (orderly.outcome ran).tasks c
  | aside spares => rw [spares.queues]

omit [SwitchPrimitives κ] in
/-- In the engine of core `c`, and nowhere else, when it saves and selects, and when it restores
after that. A core that enters its first task restores it outside. -/
def inEngine (w : Interplay κ n) (o : Callout n) (k : Kernel κ n) : Bool :=
  match o with
  | .tick => decide (∀ d, (k.board.cores.get d).state ≠ .switching)
  | .save c | .select c => decide (∀ d, (k.board.cores.get d).state = .switching ↔ d = c)
  | .restore c => decide (∀ d, (k.board.cores.get d).state = .switching ↔
      d = c ∧ (w.core c).state = .running)

omit [SwitchPrimitives κ] in
theorem Orderly.passesEngine (orderly : w.Orderly) {c : Fin n} {call : PortCall}
    (rounds : w.kernel.InRounds c)
    (once : call = .start → (w.core c).state = .notStarted) :
    Callouts.PassesEngine w.inEngine call (w.turn c) c := by
  constructor
  · intro k₁ prepares running o which k machine cores
    have engaged (d : Fin n) : (k.board.cores.get d).state = .switching ↔ d = c := by
      rw [cores, Board.engaged, Vector.get_put]
      split
      · subst d
        exact ⟨fun _ => rfl, fun _ => rfl⟩
      · rename_i apart
        rw [prepares.states]
        exact ⟨fun switching => absurd switching (orderly.settled d),
          fun same => absurd same.symm apart⟩
    rcases which with rfl | rfl | rfl
    · exact decide_eq_true engaged
    · exact decide_eq_true engaged
    · exact decide_eq_true fun d => (engaged d).trans (and_iff_left running).symm
  · intro entry k₁ prepares task k machine cores
    have turned : (w.turn c).InRounds c := rounds.congr rfl rfl id rfl rfl
    have stopped : (w.core c).state = .notStarted := (entry.unstarted rfl turned once).state
    refine decide_eq_true fun d => ⟨fun switching => ?_, fun running => ?_⟩
    · rw [cores] at switching
      exact absurd ((prepares.states d).symm.trans switching) (orderly.settled d)
    · rw [stopped] at running
      cases running.2

/-- In every state that cores lead to by calls in any order, each core has restored its first task
and then made rounds of save, select and restore, one task of its queue after the other, or has done
nothing yet. While a call runs, the core that makes it is in its engine from the save on up to the
restore, and no core is at any other time. No call gets into an engine that is running already, and
one that halts leaves a part of the rounds. -/
theorem Reached.rounds_in_order {a : Architecture} {w : Interplay (a.State n) n}
    (reached : w.Reached Once) :
    (∀ c, w.kernel.Unstarted c ∨ ∃ turn, w.kernel.InTurn c turn) ∧
    (∀ m w', w.Step m w' → ∀ c,
      (w'.kernel.scheduler.queues.get c).tasks = (w.kernel.scheduler.queues.get c).tasks) ∧
    (∀ m halt, w.Allows m → w.Once (some m) →
      m.act (Callouts.own.checked w.inEngine halt) (w.stance m.core) (w.turn m.core) =
        m.act .own (w.stance m.core) (w.turn m.core)) ∧
    ∀ m e k, w.Allows m → w.Once (some m) →
      m.act .own (w.stance m.core) (w.turn m.core) = .error e k →
      e ≠ .violation .switchReentered ∧
        ∀ c, ∃ turn, k.board.engineSteps c <+: (w.kernel.scheduler.queues.get c).rounds turn := by
  have orderly := reached.orderly
  have rounds := reached.inRounds
  refine ⟨rounds, fun m w' step => step.tasks orderly, fun m halt _ once => ?_,
    fun m e k _ once halted => ?_⟩
  · have ready := ready_turn orderly.known m.core
    refine Callouts.checked_act ready ⟨orderly.turns.1, orderly.turns.2⟩ (fun call is => ?_)
      fun b ticks k machine cores => decide_eq_true fun d => ?_
    · exact orderly.passesEngine (rounds _) fun starts => once _ (by rw [is, starts]) _
    · rw [cores, ticks.states ready]
      exact orderly.settled d
  · obtain ⟨other, steps | ⟨call, is, breaks⟩⟩ := orderly.breaks (fun _ => id) a.haltIn halted
    · refine ⟨other, fun c => ?_⟩
      rw [steps]
      exact (rounds c).part
    · refine ⟨other, breaks.part rfl (fun d => (rounds d).congr rfl rfl id rfl rfl)
        fun starts => ?_⟩
      exact once _ (by rw [is, starts]) _

omit [SwitchPrimitives κ] in
/-- Core 1 has entered its task, and core 0 has switched to its second one at the end of a tick. -/
theorem Reached.rounds_in_order_second_turn :
    ∃ w : Interplay (Banks 8 2) 2, w.Reached Once ∧ (∃ turn, w.kernel.InTurn 0 turn) ∧
      w.kernel.board.engineSteps 0 = [.restore 0, .save 0, .select, .restore 1] := by
  obtain ⟨w, reached, passes⟩ := Reached.of_twoCores? [.start 0 .start, .start 1 .beginInterrupt,
      .start 1 .onIpi, .proceed 1, .proceed 1, .start 1 .endInterrupt, .start 0 .beginInterrupt,
      .start 0 .onTick, .proceed 0, .proceed 0, .start 0 .endInterrupt]
    (fun w => decide (w.kernel.board.engineSteps 0 =
      [.restore 0, .save 0, .select, .restore 1])) (by decide +kernel)
  have shown := of_decide_eq_true passes
  obtain ⟨rounds, _⟩ := rounds_in_order (a := .segmented 8 (by decide)) reached
  rcases rounds 0 with unstarted | inTurn
  · rw [unstarted.steps] at shown
    cases shown
  · exact ⟨w, reached, inTurn, shown⟩

end Interplay

end Preempt
