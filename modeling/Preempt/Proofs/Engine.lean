import Mathlib.Tactic.Set
import Preempt.Proofs.Callouts

/-!
Runs of the switch engine. Whatever the register state of the cores is, a switch is a save, a
choice from the queue of the core and a restore, and a first entry is a restore: given what save
and restore do, `switchWith_run` and `enterFirst_run` say all that the kernel holds afterwards. The
scheduler's own choice is one of the choices (`switch_eq`).
-/

namespace Preempt

open Preempt.Action

/-- A way to go on in a queue, which keeps the tasks in it. -/
structure Choice where
  pick : TaskQueue → TaskQueue
  tasks_pick : ∀ q, (pick q).tasks = q.tasks

namespace Choice

def stay : Choice := ⟨id, fun _ => rfl⟩

def next : Choice := ⟨TaskQueue.rotate, fun _ => rfl⟩

end Choice

namespace RoundRobin

variable {n : Nat}

/-- The choice that the scheduler makes itself. -/
def choice (s : RoundRobin n) : Choice := if s.stays then .stay else .next

def choose (s : RoundRobin n) (choice : Choice) (c : Fin n) : RoundRobin n :=
  { s with queues := s.queues.put c (choice.pick (s.queues.get c)) }

theorem current_choose_self (s : RoundRobin n) (choice : Choice) (c : Fin n) :
    (s.choose choice c).current c = (choice.pick (s.queues.get c)).current := by
  simp [choose, current]

theorem current_choose_of_ne (s : RoundRobin n) (choice : Choice) {c d : Fin n} (apart : c ≠ d) :
    (s.choose choice c).current d = s.current d := by
  simp [choose, current, Vector.get_put_of_ne _ apart]

theorem tasks_choose (s : RoundRobin n) (choice : Choice) (c d : Fin n) :
    ((s.choose choice c).queues.get d).tasks = (s.queues.get d).tasks := by
  simp only [choose, Vector.get_put]
  split
  · rename_i same
    rw [choice.tasks_pick, same]
  · rfl

theorem choose_stay (s : RoundRobin n) (c : Fin n) : s.choose .stay c = s := by
  simp [choose, Choice.stay]

end RoundRobin

namespace Kernel

variable {κ : Type} {n : Nat}

/-- The task that a core runs, if its scheduler was started. -/
def Runs (k : Kernel κ n) (c : Fin n) (task : TaskId) : Prop :=
  (k.board.cores.get c).state = .running ∧ k.scheduler.current c = task

/-- With disjoint queues a task of one core's queue runs on no other core. -/
theorem not_runs_of_mem {k : Kernel κ n}
    (apart : ∀ c d task, task ∈ (k.scheduler.queues.get c).tasks →
      task ∈ (k.scheduler.queues.get d).tasks → c = d)
    {c d : Fin n} {task : TaskId} (owned : task ∈ (k.scheduler.queues.get c).tasks)
    (other : d ≠ c) : ¬k.Runs d task := by
  intro runs
  refine other (apart d c task ?_ owned)
  rw [← runs.2]
  exact TaskQueue.current_mem _

/-- Queues and engines stay as they are. -/
structure Calm (k k' : Kernel κ n) : Prop where
  queues : k'.scheduler.queues = k.scheduler.queues
  states : ∀ c, (k'.board.cores.get c).state = (k.board.cores.get c).state

/-- A core goes on with a task; the other cores and the tasks of the queues stay. -/
structure GoesOn (k k' : Kernel κ n) (c : Fin n) (task : TaskId) : Prop where
  runs : k'.Runs c task
  states : ∀ d, d ≠ c → (k'.board.cores.get d).state = (k.board.cores.get d).state
  current : ∀ d, d ≠ c → k'.scheduler.current d = k.scheduler.current d
  tasks : ∀ d, (k'.scheduler.queues.get d).tasks = (k.scheduler.queues.get d).tasks

theorem Calm.current {k k' : Kernel κ n} (calm : k.Calm k') (c : Fin n) :
    k'.scheduler.current c = k.scheduler.current c := by
  simp only [RoundRobin.current, calm.queues]

theorem Calm.runs_iff {k k' : Kernel κ n} (calm : k.Calm k') (c : Fin n)
    (task : TaskId) : k'.Runs c task ↔ k.Runs c task := by
  simp only [Runs, calm.states, calm.current]

theorem GoesOn.runs_iff {k k' : Kernel κ n} {c d : Fin n} {task : TaskId}
    (goesOn : k.GoesOn k' c task) (apart : d ≠ c) (other : TaskId) :
    k'.Runs d other ↔ k.Runs d other := by
  simp only [Runs, goesOn.states d apart, goesOn.current d apart]

theorem GoesOn.of_put {k k' : Kernel κ n} {c : Fin n} {core : Core}
    (choice : Choice) (cores : k'.board.cores = k.board.cores.put c core)
    (running : core.state = .running) (scheduler : k'.scheduler = k.scheduler.choose choice c) :
    k.GoesOn k' c (choice.pick (k.scheduler.queues.get c)).current := by
  constructor
  · rw [Runs, cores, scheduler, Vector.get_put_self, running]
    exact ⟨rfl, k.scheduler.current_choose_self choice c⟩
  · intro d apart
    rw [cores, Vector.get_put_of_ne _ (Ne.symm apart)]
  · intro d apart
    rw [scheduler]
    exact k.scheduler.current_choose_of_ne choice (Ne.symm apart)
  · intro d
    rw [scheduler]
    exact k.scheduler.tasks_choose choice c d

/-- No core is in the middle of a switch. A task that runs is not suspended, and runs on one core
only. -/
structure Sole {α : Type} (k : Kernel κ n) (suspended : TaskId → Option α) : Prop where
  settled : ∀ c, (k.board.cores.get c).state ≠ .switching
  own : ∀ {c task}, k.Runs c task → suspended task = none
  alone : ∀ {c d task}, k.Runs c task → k.Runs d task → c = d

/-- A task has a context: it is suspended or runs. -/
def Has {α : Type} (k : Kernel κ n) (suspended : TaskId → Option α) (task : TaskId) : Prop :=
  suspended task ≠ none ∨ ∃ c, k.Runs c task

section Has

variable {α : Type} {k k' : Kernel κ n} {before mid after : TaskId → Option α} {c : Fin n}
  {task : TaskId}

theorem Calm.has_iff (calm : k.Calm k') (suspended : TaskId → Option α) (task : TaskId) :
    k'.Has suspended task ↔ k.Has suspended task := by
  simp only [Has, calm.runs_iff]

/-- What a core goes on with has its context there; all other contexts stay where they were. -/
theorem GoesOn.has_iff (goesOn : k.GoesOn k' c task) (suspended : mid task ≠ none)
    (now : ∀ other, after other = if other = task then none else mid other) (other : TaskId) :
    k'.Has after other ↔ mid other ≠ none ∨ ∃ d, d ≠ c ∧ k.Runs d other := by
  rw [Has, now]
  by_cases mine : other = task
  · subst mine
    exact ⟨fun _ => Or.inl suspended, fun _ => Or.inr ⟨c, goesOn.runs⟩⟩
  · rw [if_neg mine]
    refine or_congr_right ⟨fun ⟨d, runs⟩ => ?_, fun ⟨d, apart, runs⟩ =>
      ⟨d, (goesOn.runs_iff apart other).mpr runs⟩⟩
    by_cases here : d = c
    · subst here
      rw [← runs.2, goesOn.runs.2] at mine
      exact absurd rfl mine
    · exact ⟨d, here, (goesOn.runs_iff here other).mp runs⟩

/-- A switch takes no context away and makes none. -/
theorem GoesOn.has_switched (goesOn : k.GoesOn k' c task)
    (running : (k.board.cores.get c).state = .running)
    (others : ∀ other, other ≠ k.scheduler.current c → mid other = before other)
    (parked : mid (k.scheduler.current c) ≠ none) (suspended : mid task ≠ none)
    (now : ∀ other, after other = if other = task then none else mid other) (other : TaskId) :
    k'.Has after other ↔ k.Has before other := by
  rw [goesOn.has_iff suspended now]
  by_cases mine : other = k.scheduler.current c
  · subst mine
    exact ⟨fun _ => Or.inr ⟨c, running, rfl⟩, fun _ => Or.inl parked⟩
  · rw [others other mine]
    refine or_congr_right ⟨fun ⟨d, _, runs⟩ => ⟨d, runs⟩, fun ⟨d, runs⟩ => ⟨d, ?_, runs⟩⟩
    rintro rfl
    exact mine runs.2.symm

/-- Nor does the entry of a core that runs no task. -/
theorem GoesOn.has_entered (goesOn : k.GoesOn k' c task) (idle : ∀ task, ¬k.Runs c task)
    (suspended : before task ≠ none)
    (now : ∀ other, after other = if other = task then none else before other) (other : TaskId) :
    k'.Has after other ↔ k.Has before other := by
  rw [goesOn.has_iff suspended now]
  refine or_congr_right ⟨fun ⟨d, _, runs⟩ => ⟨d, runs⟩, fun ⟨d, runs⟩ => ⟨d, ?_, runs⟩⟩
  rintro rfl
  exact idle other runs

end Has

namespace Sole

variable {α : Type} {k k' : Kernel κ n} {before mid after : TaskId → Option α} {c : Fin n}
  {task : TaskId}

/-- It depends on the engine only through the tasks that run. -/
theorem calm (sole : k.Sole before) (calm : k.Calm k')
    (own : ∀ {c task}, k.Runs c task → after task = none) : k'.Sole after := by
  constructor
  · intro c
    rw [calm.states]
    exact sole.settled c
  · intro c task runs
    exact own ((calm.runs_iff c task).mp runs)
  · intro c d task runs runs'
    exact sole.alone ((calm.runs_iff c task).mp runs) ((calm.runs_iff d task).mp runs')

/-- A core goes on with a task that was suspended, once its own is. -/
theorem resumed (sole : k.Sole before)
    (own : ∀ {d task}, d ≠ c → k.Runs d task → mid task = none) (suspended : mid task ≠ none)
    (goesOn : k.GoesOn k' c task)
    (now : ∀ other, after other = if other = task then none else mid other) : k'.Sole after := by
  have elsewhere {d : Fin n} (apart : d ≠ c) : ¬k'.Runs d task := fun runsHere =>
    suspended (own apart ((goesOn.runs_iff apart task).mp runsHere))
  have only {other : TaskId} (runsOther : k'.Runs c other) : other = task := by
    rw [← runsOther.2, goesOn.runs.2]
  constructor
  · intro d
    by_cases mine : d = c
    · rw [mine, goesOn.runs.1]
      simp
    · rw [goesOn.states d mine]
      exact sole.settled d
  · intro d other runsOther
    rw [now]
    by_cases mine : d = c
    · subst mine
      rw [if_pos (only runsOther)]
    · split
      · rfl
      · exact own mine ((goesOn.runs_iff mine other).mp runsOther)
  · intro d e other runsD runsE
    by_cases mine : d = c
    · by_cases mine' : e = c
      · rw [mine, mine']
      · subst mine
        rw [only runsD] at runsE
        exact absurd runsE (elsewhere mine')
    · by_cases mine' : e = c
      · subst mine'
        rw [only runsE] at runsD
        exact absurd runsD (elsewhere mine)
      · exact sole.alone ((goesOn.runs_iff mine other).mp runsD)
          ((goesOn.runs_iff mine' other).mp runsE)

/-- A running core suspends its task and goes on with a suspended one. -/
theorem switched (sole : k.Sole before) (running : (k.board.cores.get c).state = .running)
    (others : ∀ other, other ≠ k.scheduler.current c → mid other = before other)
    (suspended : mid task ≠ none) (goesOn : k.GoesOn k' c task)
    (now : ∀ other, after other = if other = task then none else mid other) : k'.Sole after := by
  refine sole.resumed (fun {d other} apart runs => ?_) suspended goesOn now
  have notOutgoing : other ≠ k.scheduler.current c := by
    rintro rfl
    exact apart (sole.alone runs ⟨running, rfl⟩)
  rw [others other notOutgoing]
  exact sole.own runs

/-- A core goes on with a suspended task and suspends none. -/
theorem entered (sole : k.Sole before) (suspended : before task ≠ none)
    (goesOn : k.GoesOn k' c task)
    (now : ∀ other, after other = if other = task then none else before other) : k'.Sole after :=
  sole.resumed (fun _ runs => sole.own runs) suspended goesOn now

end Sole

theorem masked_resumed (m : Machine n) (unmasks : Prop) [Decidable unmasks] :
    (if unmasks then (m.setEnabled false).setEnabled true else m.setEnabled false) =
      m.setEnabled unmasks := by
  by_cases unmasked : unmasks
  · simp [unmasked, Machine.setEnabled]
  · simp [unmasked]

/-- A scheduler that makes one choice. -/
def choosing (choice : Choice) (c : Fin n) : KernelM κ n Unit := do
  onBoard (Board.emit (.select c))
  onScheduler (·.choose choice c)

variable [SwitchPrimitives κ] {k : Kernel κ n} {c : Fin n} {depth : TrapDepth} {choice : Choice}
  {r : Resumption} {s₁ s₂ : Storage κ}

theorem select_eq (k : Kernel κ n) (c : Fin n) (reenters : k.scheduler.reenters = false) :
    select c k = choosing k.scheduler.choice c k := by
  cases stays : k.scheduler.stays with
  | true =>
    simp [select, selectWithin, selectAfter, choosing, onBoard, Board.emit, Action.bind_run,
      Action.get_run, onScheduler, stays, RoundRobin.choice, RoundRobin.choose_stay]
    rfl
  | false =>
    rw [select_run c k stays reenters]
    simp [choosing, onBoard, Board.emit, Action.bind_run, onScheduler, RoundRobin.choice, stays]
    rfl

/-- Up to the choice a switch leaves the scheduler alone. -/
theorem switch_eq (k : Kernel κ n) (c : Fin n) (depth : TrapDepth)
    (reenters : k.scheduler.reenters = false) :
    switch c depth k = switchWith (choosing k.scheduler.choice) c depth k := by
  have chooses (k' : Kernel κ n) (same : k'.scheduler = k.scheduler) :
      select c k' = choosing k.scheduler.choice c k' := by
    rw [select_eq k' c (by rw [same, reenters]), same]
  rw [switch, switchWith]
  cases state : (k.board.cores.get c).state with
  | notStarted =>
    rw [Callouts.switch_run_notStarted _ depth state, Callouts.switch_run_notStarted _ depth state]
  | switching =>
    rw [Callouts.switch_run_switching _ depth state, Callouts.switch_run_switching _ depth state]
  | running =>
    rw [Callouts.switch_engages _ state, Callouts.switch_engages _ state]
    simp only [Callouts.own, callouts_save, callouts_select, callouts_resume, bind_run, save_run]
    cases SwitchPrimitives.save c (k.scheduler.current c) (k.board.cores.get c).nesting depth
        k.storage with
    | error halt storage => rfl
    | ok u storage => simp only [chooses]

theorem resume_run (k : Kernel κ n) (c : Fin n) {task : TaskId}
    (restored : SwitchPrimitives.restore c task depth k.storage = .ok r s₂) :
    ∃ trace, resume c task depth k = .ok r
      { k with
        board := { k.board with
          trace
          machine := if r.enabled ∧ r.nesting = 0 then k.board.machine.setEnabled true
            else k.board.machine
          cores := k.board.cores.put c ((k.board.cores.get c).resumed r) }
        storage := s₂ } := by
  rw [resume_eq, restored]
  exact ⟨_, rfl⟩

theorem switchWith_run (running : (k.board.cores.get c).state = .running)
    (saved : SwitchPrimitives.save c (k.scheduler.current c) (k.board.cores.get c).nesting depth
      k.storage = .ok () s₁)
    (restored : SwitchPrimitives.restore c (choice.pick (k.scheduler.queues.get c)).current depth
      s₁ = .ok r s₂) :
    ∃ trace, switchWith (choosing choice) c depth k = .ok r
      { k with
        board := { k.board with
          trace
          machine := k.board.machine.setEnabled (r.enabled ∧ r.nesting = 0)
          cores := k.board.cores.put c ((k.board.cores.get c).resumed r).countSwitch }
        storage := s₂
        scheduler := k.scheduler.choose choice c } := by
  set k₂ : Kernel κ n :=
    { k with
      board := ((k.board.engaged c).shows
        (.save c (k.scheduler.current c) (k.board.cores.get c).nesting depth)).shows (.select c)
      storage := s₁
      scheduler := k.scheduler.choose choice c } with hk₂
  obtain ⟨trace, resumed⟩ := resume_run k₂ c restored
  refine ⟨trace.push (.log (.switched c (k.scheduler.current c)
    (choice.pick (k.scheduler.queues.get c)).current depth)), ?_⟩
  have chosen : k₂.scheduler.current c = (choice.pick (k.scheduler.queues.get c)).current :=
    k.scheduler.current_choose_self choice c
  have chooses : choosing choice c { k with
      board := (k.board.engaged c).shows
        (.save c (k.scheduler.current c) (k.board.cores.get c).nesting depth)
      storage := s₁ } = .ok () k₂ := rfl
  rw [switchWith, Callouts.switch_engages _ running]
  simp only [callouts_save, callouts_select, callouts_resume, bind_run, save_run, saved, chooses,
    Callouts.current_run, chosen, resumed]
  simp only [onBoard, Board.onCore, Board.log, Board.emit, Vector.put_put, Vector.get_put_self, hk₂,
    Board.shows, Board.engaged, masked_resumed]
  rfl

theorem switchWith_run_notStarted (depth : TrapDepth) (select : Fin n → KernelM κ n Unit)
    (state : (k.board.cores.get c).state = .notStarted) :
    switchWith select c depth k = .error (.violation .schedulerNotStarted)
      { k with
        board := { k.board with
          trace := k.board.trace.push .disable
          machine := k.board.machine.setEnabled false } } :=
  (callouts select).switch_run_notStarted depth state

theorem enterFirst_run
    (restored : SwitchPrimitives.restore c (k.scheduler.current c) depth k.storage = .ok r s₂) :
    ∃ trace, enterFirst c depth k = .ok r
      { k with
        board := { k.board with
          trace
          machine := k.board.machine.setEnabled (r.enabled ∧ r.nesting = 0)
          cores := k.board.cores.put c ((k.board.cores.get c).resumed r) }
        storage := s₂ } := by
  obtain ⟨trace, resumed⟩ := resume_run
    { k with board := k.board.entering c (k.scheduler.current c) } c restored
  refine ⟨trace, ?_⟩
  rw [enterFirst_eq, resumed]
  simp only [Board.entering, masked_resumed]

end Kernel

end Preempt
