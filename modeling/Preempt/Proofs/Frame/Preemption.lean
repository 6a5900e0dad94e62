import Mathlib.Logic.Function.Basic
import Preempt.Proofs.Frame.Calls

/-!
Preemption with frames on stacks. What a task had in its registers when it was last suspended is
noted from the core itself; whenever a task is resumed, on whichever path, the core shows exactly
that, and what was written meanwhile went into the stacks of the tasks that were suspended.
-/

namespace Preempt

open Preempt.Action
open Function (update)

variable {layout : Layout} {n : Nat}

/-- What is noted of each task that was set up. -/
abbrev Notes := TaskId → Option Snapshot

/-- The notes after a call that was issued in `k`. A core that resumes a task while it runs one has
suspended that one. -/
def Notes.after (notes : Notes) (k : Kernel (RegisterFile layout n) n) :
    Option Resumption → Notes
  | some _ =>
    let c := k.board.machine.executing
    if (k.board.cores.get c).state = .running then
      update notes (k.scheduler.current c)
        (some (k.storage.context.snapshot c (k.board.cores.get c).nesting))
    else notes
  | none => notes

def Notes.created (notes : Notes) (layout : Layout) (ts : Tasks) (task : TaskId)
    (entry argument : Word) : Except Refusal Unit → Notes
  | .ok () => update notes task (some (layout.initialSnapshot ts task entry argument))
  | .error _ => notes

/-- The scheduler is started once, when all tasks of all queues are set up. -/
def PortCall.Allowed (call : PortCall) (k : Kernel (RegisterFile layout n) n) (notes : Notes) :
    Prop :=
  match call with
  | .start => ∀ c, (k.board.cores.get c).state = .notStarted ∧
      ∀ task ∈ (k.scheduler.queues.get c).tasks, notes task ≠ none
  | _ => True

/-- What may happen between calls. Another core executes, time passes and masks change; the
registers of all cores and the stacks of the running tasks take any values, as long as each stack
pointer leaves room for a frame in its task's own stack. -/
structure Kernel.Computes (k k' : Kernel (RegisterFile layout n) n) : Prop where
  cores : k'.board.cores = k.board.cores
  identity : k'.board.machine.identity = k.board.machine.identity
  scheduler : k'.scheduler = k.scheduler
  others : ∀ task, (∀ c, ¬k.Runs c task) →
    k'.storage.tasks.list[task]? = k.storage.tasks.list[task]?
  room : ∀ c task, k.Runs c task →
    ∃ base, layout.Room k'.storage.tasks task (k'.storage.context.sp.get c) base

/-- The kernels that runs lead to, with what is noted on the way. No task is in two queues. -/
inductive Preempting : Kernel (RegisterFile layout n) n → Notes → Prop
  | boot {core : Fin n} {b : Kernel.Boot n} {file : RegisterFile layout n}
      {k : Kernel (RegisterFile layout n) n} (booted : Kernel.boot core b file = .ok k)
      (apart : ∀ c d task, task ∈ (k.scheduler.queues.get c).tasks →
        task ∈ (k.scheduler.queues.get d).tasks → c = d) : Preempting k fun _ => none
  | create {k k' : Kernel (RegisterFile layout n) n} {notes : Notes}
      {answer : Except Refusal Unit} (before : Preempting k notes) (task : TaskId)
      (entry argument : Word) (idle : ∀ c, ¬k.Runs c task)
      (ran : Kernel.createLinear task entry argument k = .ok answer k') :
      Preempting k' (notes.created layout k.storage.tasks task entry argument answer)
  | call {k k' : Kernel (RegisterFile layout n) n} {notes : Notes} {answer : Option Resumption}
      (before : Preempting k notes) (call : PortCall) (allowed : call.Allowed k notes)
      (ran : call.perform k = .ok answer k') : Preempting k' (notes.after k answer)
  | compute {k k' : Kernel (RegisterFile layout n) n} {notes : Notes}
      (before : Preempting k notes) (computes : k.Computes k') : Preempting k' notes

/-- A core resumes a task with what is noted of it. The task that it leaves, if it ran one, has its
frame below or above its stack pointer, in its own stack; nothing else is written. -/
structure HandsOver (notes : Notes) (k k' : Kernel (RegisterFile layout n) n) (c : Fin n)
    (r : Resumption) : Prop where
  running : (k'.board.cores.get c).state = .running
  resumed : ∃ s, notes (k'.scheduler.current c) = some s ∧ k'.storage.context.Shows c s ∧
    r.nesting = s.nesting
  saved : (k.board.cores.get c).state = .running → ∃ base,
    layout.Room k.storage.tasks (k.scheduler.current c) (k.storage.context.sp.get c) base ∧
    k.storage.tasks.Touched k'.storage.tasks (k.scheduler.current c) base layout.words
  entered : (k.board.cores.get c).state ≠ .running → k'.storage.tasks = k.storage.tasks
  elsewhere : ∀ d, d ≠ c →
    k'.storage.context.registers.get d = k.storage.context.registers.get d ∧
    k'.storage.context.sp.get d = k.storage.context.sp.get d

/-- What a call has changed on the board before it gets to the engine does not matter. -/
theorem HandsOver.of_board {k k' : Kernel (RegisterFile layout n) n} {notes : Notes} {c : Fin n}
    {board : Board n} {r : Resumption} (handsOver : HandsOver notes { k with board } k' c r)
    (state : (board.cores.get c).state = (k.board.cores.get c).state) :
    HandsOver notes k k' c r where
  running := handsOver.running
  resumed := handsOver.resumed
  saved running := handsOver.saved (state.trans running)
  entered stopped := handsOver.entered fun running => stopped (state.symm.trans running)
  elsewhere := handsOver.elsewhere

/-- A task that no core runs rests as it is noted; one that runs has room for its next frame. -/
structure Keeps (k : Kernel (RegisterFile layout n) n) (notes : Notes) : Prop where
  known : k.board.machine.identity = none
  plain : k.scheduler.reenters = false
  apart : ∀ c d task, task ∈ (k.scheduler.queues.get c).tasks →
    task ∈ (k.scheduler.queues.get d).tasks → c = d
  settled : ∀ c, (k.board.cores.get c).state ≠ .switching
  waiting : ∀ c, (k.board.cores.get c).pending = .firstTask →
    (k.board.cores.get c).state = .notStarted
  created : ∀ c, (k.board.cores.get c).state = .running ∨
    (k.board.cores.get c).pending = .firstTask →
    ∀ task ∈ (k.scheduler.queues.get c).tasks, notes task ≠ none
  room : ∀ c task, k.Runs c task →
    ∃ base, layout.Room k.storage.tasks task (k.storage.context.sp.get c) base
  rests : ∀ task s, notes task = some s → (∀ c, ¬k.Runs c task) →
    ∃ base, layout.Rests k.storage.tasks task s base

/-- How a call ends: it resumes a task and hands it over, or it leaves all contexts alone. -/
inductive Ends (notes : Notes) (k : Kernel (RegisterFile layout n) n) (call : PortCall) : Prop
  | resumes (expected : call.Resumes k) {r : Resumption} {k' : Kernel (RegisterFile layout n) n}
      (ran : call.perform k = .ok (some r) k') (keeps : Keeps k' (notes.after k (some r)))
      (handsOver : HandsOver (notes.after k (some r)) k k' k.board.machine.executing r)
  | quiet (expected : ¬call.Resumes k) (quiet : k.Quiet (ending (call.perform k)))
      (silent : ∀ answer k', call.perform k = .ok answer k' → answer = none)

/-- The notes once a core has suspended what it runs. -/
def Notes.suspend (notes : Notes) (k : Kernel (RegisterFile layout n) n) (c : Fin n) : Notes :=
  update notes (k.scheduler.current c)
    (some (k.storage.context.snapshot c (k.board.cores.get c).nesting))

theorem Kernel.Quiet.calm {k k' : Kernel (RegisterFile layout n) n} (quiet : k.Quiet k') :
    k.Calm k' :=
  ⟨quiet.queues, quiet.board.states⟩

namespace Keeps

variable {k k' : Kernel (RegisterFile layout n) n} {notes notes' : Notes} {c : Fin n}

theorem quiet (keeps : Keeps k notes) (quiet : k.Quiet k') : Keeps k' notes := by
  constructor
  · rw [quiet.board.identity]
    exact keeps.known
  · rw [quiet.reenters]
    exact keeps.plain
  · rw [quiet.queues]
    exact keeps.apart
  · intro c
    rw [quiet.board.states]
    exact keeps.settled c
  · intro c waits
    rw [quiet.board.states]
    exact keeps.waiting c (quiet.board.waiting c waits)
  · intro c begun
    rw [quiet.queues]
    rw [quiet.board.states] at begun
    exact keeps.created c (begun.imp id (quiet.board.waiting c))
  · intro c task runs
    rw [quiet.tasks, quiet.sp]
    exact keeps.room c task ((quiet.calm.runs_iff c task).mp runs)
  · intro task s noted idle
    rw [quiet.tasks]
    exact keeps.rests task s noted fun c runs => idle c ((quiet.calm.runs_iff c task).mpr runs)

theorem compute (keeps : Keeps k notes) (computes : k.Computes k') : Keeps k' notes := by
  have runs_iff (c : Fin n) (task : TaskId) : k'.Runs c task ↔ k.Runs c task := by
    simp only [Kernel.Runs, computes.cores, computes.scheduler]
  constructor
  · rw [computes.identity]
    exact keeps.known
  · rw [computes.scheduler]
    exact keeps.plain
  · rw [computes.scheduler]
    exact keeps.apart
  · rw [computes.cores]
    exact keeps.settled
  · rw [computes.cores]
    exact keeps.waiting
  · rw [computes.cores, computes.scheduler]
    exact keeps.created
  · intro c task runs
    exact computes.room c task ((runs_iff c task).mp runs)
  · intro task s noted idle
    have idle' (c : Fin n) : ¬k.Runs c task := fun runs => idle c ((runs_iff c task).mpr runs)
    obtain ⟨base, rests⟩ := keeps.rests task s noted idle'
    exact ⟨base, rests.congr (computes.others task idle')⟩

/-- A core goes on with a task whose frame was read. -/
theorem goesOn (keeps : Keeps k notes) {task : TaskId} {m : Snapshot} {base : Nat}
    (goesOn : k.GoesOn k' c task) (identity : k'.board.machine.identity = none)
    (plain : k'.scheduler.reenters = false)
    (waiting : ∀ d, (k'.board.cores.get d).pending = .firstTask →
      d ≠ c ∧ (k.board.cores.get d).pending = .firstTask)
    (created : ∀ d, (k.board.cores.get d).state = .running ∨
      (k.board.cores.get d).pending = .firstTask ∨ d = c →
      ∀ task ∈ (k.scheduler.queues.get d).tasks, notes' task ≠ none)
    (sizes : ∀ task, k'.storage.tasks.stackSize task = k.storage.tasks.stackSize task)
    (rested : layout.Rests k'.storage.tasks task m base) (shows : k'.storage.context.Shows c m)
    (elsewhere : ∀ d, d ≠ c → k'.storage.context.sp.get d = k.storage.context.sp.get d)
    (rests : ∀ task s, notes' task = some s → (∀ d, ¬k'.Runs d task) →
      ∃ base, layout.Rests k'.storage.tasks task s base) : Keeps k' notes' := by
  constructor
  · exact identity
  · exact plain
  · intro d e task owned owned'
    rw [goesOn.tasks] at owned owned'
    exact keeps.apart d e task owned owned'
  · intro d
    by_cases mine : d = c
    · rw [mine, goesOn.runs.1]
      simp
    · rw [goesOn.states d mine]
      exact keeps.settled d
  · intro d waits
    obtain ⟨mine, waited⟩ := waiting d waits
    rw [goesOn.states d mine]
    exact keeps.waiting d waited
  · intro d begun task owned
    rw [goesOn.tasks] at owned
    refine created d ?_ task owned
    by_cases mine : d = c
    · exact Or.inr (Or.inr mine)
    · rw [goesOn.states d mine] at begun
      exact begun.imp id fun waits => Or.inl (waiting d waits).2
  · intro d other runs
    by_cases mine : d = c
    · subst mine
      have same : other = task := by rw [← runs.2, goesOn.runs.2]
      rw [same, shows.sp]
      exact ⟨base, rested.room⟩
    · obtain ⟨base', room⟩ := keeps.room d other ((goesOn.runs_iff mine other).mp runs)
      rw [elsewhere d mine]
      exact ⟨base', by rw [sizes]; exact room.inside, room.bottom⟩
  · exact rests

theorem suspend_ne_none {task : TaskId} (known : notes task ≠ none) :
    notes.suspend k c task ≠ none := by
  rw [Notes.suspend, Function.update_apply]
  split
  · simp
  · exact known

/-- Once a core has saved its task, all noted tasks that no other core runs are at rest. -/
theorem rests_suspend (keeps : Keeps k notes) {ts : Tasks} {base : Nat}
    (parked : layout.Rests ts (k.scheduler.current c)
      (k.storage.context.snapshot c (k.board.cores.get c).nesting) base)
    (touched : k.storage.tasks.Touched ts (k.scheduler.current c) base layout.words)
    {task : TaskId} {s : Snapshot} (noted : notes.suspend k c task = some s)
    (idle : ∀ d, d ≠ c → ¬k.Runs d task) : ∃ base, layout.Rests ts task s base := by
  by_cases left : task = k.scheduler.current c
  · rw [left, Notes.suspend, Function.update_self] at noted
    cases noted
    exact ⟨base, left ▸ parked⟩
  · rw [Notes.suspend, Function.update_of_ne left] at noted
    obtain ⟨base', rested⟩ := keeps.rests task s noted fun d runs => by
      by_cases mine : d = c
      · subst mine
        exact left runs.2.symm
      · exact idle d mine runs
    exact ⟨base', rested.congr (touched.others task left)⟩

/-- A switch on a core that runs a task suspends that task and resumes the one that is chosen. -/
theorem switch (sound : layout.Sound) (keeps : Keeps k notes)
    (running : (k.board.cores.get c).state = .running) (depth : TrapDepth) :
    ∃ r k', Kernel.switch c depth k = .ok r k' ∧ Keeps k' (notes.suspend k c) ∧
      HandsOver (notes.suspend k c) k k' c r := by
  set choice := k.scheduler.choice
  set incoming := (choice.pick (k.scheduler.queues.get c)).current with hincoming
  have owned : incoming ∈ (k.scheduler.queues.get c).tasks := by
    rw [← choice.tasks_pick]
    exact TaskQueue.current_mem _
  obtain ⟨base, room⟩ := keeps.room c (k.scheduler.current c) ⟨running, rfl⟩
  obtain ⟨ts, saved, parked, touched⟩ :=
    RegisterFile.save_run sound room (k.board.cores.get c).nesting depth
  obtain ⟨new, noted⟩ := Option.ne_none_iff_exists'.mp
    (suspend_ne_none (keeps.created c (Or.inl running) incoming owned))
  obtain ⟨base', rested⟩ := keeps.rests_suspend parked touched noted
    fun d other => Kernel.not_runs_of_mem keeps.apart owned other
  obtain ⟨file, restored, shows, elsewhere⟩ := RegisterFile.restore_run
    (s := { k.storage with tasks := ts }) sound rested c depth
  obtain ⟨trace, ran⟩ := Kernel.switchWith_run running saved restored
  rw [← Kernel.switch_eq k c depth keeps.plain] at ran
  refine ⟨_, _, ran, keeps.goesOn (.of_put choice rfl rfl rfl) keeps.known keeps.plain ?_ ?_
    touched.sizes rested shows (fun d apart => (elsewhere d apart).2) ?_, ?_,
    ⟨new, ?_, shows, rfl⟩, fun _ => ⟨base, room, touched⟩, fun stopped => absurd running stopped,
    elsewhere⟩
  · intro d waits
    by_cases mine : d = c
    · subst mine
      rw [Vector.get_put_self] at waits
      have notStarted := keeps.waiting d waits
      rw [running] at notStarted
      cases notStarted
    · rw [Vector.get_put_of_ne _ (Ne.symm mine)] at waits
      exact ⟨mine, waits⟩
  · intro d begun task mine
    refine suspend_ne_none (keeps.created d ?_ task mine)
    rcases begun with started | waits | rfl
    · exact Or.inl started
    · exact Or.inr waits
    · exact Or.inl running
  · intro task s known idle
    refine keeps.rests_suspend parked touched known fun d apart runs => idle d ?_
    refine ((Kernel.GoesOn.of_put choice rfl rfl rfl).runs_iff apart task).mpr runs
  · rw [Vector.get_put_self]
    rfl
  · rw [RoundRobin.current_choose_self]
    exact noted

/-- A core that runs no task yet enters the one that is current. -/
theorem enterFirst (sound : layout.Sound) (keeps : Keeps k notes)
    (stopped : (k.board.cores.get c).state ≠ .running)
    (taken : (k.board.cores.get c).pending ≠ .firstTask)
    (created : ∀ task ∈ (k.scheduler.queues.get c).tasks, notes task ≠ none)
    (depth : TrapDepth) :
    ∃ r k', Kernel.enterFirst c depth k = .ok r k' ∧ Keeps k' notes ∧
      HandsOver notes k k' c r := by
  have current : k.scheduler.current c ∈ (k.scheduler.queues.get c).tasks :=
    TaskQueue.current_mem _
  have idle (d : Fin n) : ¬k.Runs d (k.scheduler.current c) := by
    by_cases mine : d = c
    · exact fun runs => stopped (mine ▸ runs.1)
    · exact Kernel.not_runs_of_mem keeps.apart current mine
  obtain ⟨m, noted⟩ := Option.ne_none_iff_exists'.mp (created _ current)
  obtain ⟨base, rested⟩ := keeps.rests _ m noted idle
  obtain ⟨file, restored, shows, elsewhere⟩ :=
    RegisterFile.restore_run sound rested c depth
  obtain ⟨trace, ran⟩ := Kernel.enterFirst_run (k := k) restored
  have same : k.scheduler = k.scheduler.choose .stay c := (k.scheduler.choose_stay c).symm
  refine ⟨_, _, ran, keeps.goesOn (.of_put .stay rfl rfl same) keeps.known keeps.plain ?_ ?_
    (fun _ => rfl) rested shows (fun d apart => (elsewhere d apart).2) ?_, ?_,
    ⟨m, noted, shows, rfl⟩, fun running => absurd running stopped, fun _ => rfl, elsewhere⟩
  · intro d waits
    by_cases mine : d = c
    · subst mine
      rw [Vector.get_put_self] at waits
      exact absurd waits taken
    · rw [Vector.get_put_of_ne _ (Ne.symm mine)] at waits
      exact ⟨mine, waits⟩
  · intro d begun task mine
    rcases begun with started | waits | rfl
    · exact keeps.created d (Or.inl started) task mine
    · exact keeps.created d (Or.inr waits) task mine
    · exact created task mine
  · intro task s known idle
    refine keeps.rests task s known fun d runs => idle d ?_
    by_cases mine : d = c
    · subst mine
      exact absurd runs.1 stopped
    · refine ⟨?_, runs.2⟩
      rw [Vector.get_put_of_ne _ (Ne.symm mine)]
      exact runs.1
  · rw [Vector.get_put_self]
    rfl

theorem after_of_running (notes : Notes) (r : Resumption) (mine : k.board.machine.executing = c)
    (running : (k.board.cores.get c).state = .running) :
    notes.after k (some r) = notes.suspend k c := by
  subst mine
  exact if_pos running

theorem after_of_stopped (notes : Notes) (r : Resumption) (mine : k.board.machine.executing = c)
    (stopped : (k.board.cores.get c).state ≠ .running) : notes.after k (some r) = notes := by
  subst mine
  exact if_neg stopped

/-- A core that was not started does not get past the start of a switch. -/
theorem switch_stops (keeps : Keeps k notes) (stopped : (k.board.cores.get c).state ≠ .running)
    (depth : TrapDepth) :
    ∃ k', Kernel.switch c depth k = .error (.violation .schedulerNotStarted) k' ∧ k.Quiet k' := by
  have notStarted : (k.board.cores.get c).state = .notStarted := by
    cases state : (k.board.cores.get c).state with
    | notStarted => rfl
    | running => exact absurd state stopped
    | switching => exact absurd state (keeps.settled c)
  exact ⟨_, Kernel.switchWith_run_notStarted depth Kernel.select notStarted,
    Board.steady_of_machine rfl rfl, rfl, rfl, rfl, rfl, rfl⟩

end Keeps

namespace Ends

variable {k : Kernel (RegisterFile layout n) n} {notes : Notes} {c : Fin n} {call : PortCall}
  {board : Board n}

theorem of_halt {k₁ : Kernel (RegisterFile layout n) n} {halt : Halt} (expected : ¬call.Resumes k)
    (quiet : k.Quiet k₁) (ran : call.perform k = .error halt k₁) : Ends notes k call := by
  refine .quiet expected (by rw [ran]; exact quiet) fun answer k' done => ?_
  rw [ran] at done
  cases done

theorem of_none {k₁ : Kernel (RegisterFile layout n) n} (expected : ¬call.Resumes k)
    (quiet : k.Quiet k₁) (ran : call.perform k = .ok none k₁) : Ends notes k call := by
  refine .quiet expected (by rw [ran]; exact quiet) fun answer k' done => ?_
  rw [ran] at done
  cases done
  rfl

/-- A call that gets as far as a switch, having changed the board alone. -/
theorem of_switch (sound : layout.Sound) (keeps : Keeps k notes) (depth : TrapDepth)
    (mine : k.board.machine.executing = c) (steady : k.board.Steady board)
    (nesting : (board.cores.get c).nesting = (k.board.cores.get c).nesting)
    (expected : call.Resumes k ↔ (k.board.cores.get c).state = .running)
    (ran : call.perform k = (do return some (← Kernel.switch c depth) :
      KernelM (RegisterFile layout n) n (Option Resumption)) { k with board }) :
    Ends notes k call := by
  have quiet : k.Quiet { k with board } := ⟨steady, rfl, rfl, rfl, rfl, rfl⟩
  rw [bind_run] at ran
  by_cases running : (k.board.cores.get c).state = .running
  · obtain ⟨r, k', switched, keeps', handsOver⟩ :=
      (keeps.quiet quiet).switch sound ((steady.states c).trans running) depth
    rw [switched] at ran
    have after := Keeps.after_of_running notes r mine running
    have same : notes.suspend { k with board } c = notes.suspend k c := by
      simp only [Notes.suspend, nesting]
    rw [same, ← after] at keeps' handsOver
    refine .resumes (expected.mpr running) (r := r) ran keeps' ?_
    rw [mine]
    exact handsOver.of_board (steady.states c)
  · obtain ⟨k', halted, stays⟩ := (keeps.quiet quiet).switch_stops (c := c)
      (by rw [steady.states]; exact running) depth
    rw [halted] at ran
    exact of_halt (fun resumes => running (expected.mp resumes)) (IsTrans.trans _ _ _ quiet stays)
      ran

/-- A call that gets as far as a first entry, having changed the board alone. -/
theorem of_enterFirst (sound : layout.Sound) (ready : Keeps { k with board } notes)
    (depth : TrapDepth)
    (mine : k.board.machine.executing = c)
    (state : (board.cores.get c).state = (k.board.cores.get c).state)
    (stopped : (k.board.cores.get c).state = .notStarted)
    (taken : (board.cores.get c).pending = .idle)
    (created : ∀ task ∈ (k.scheduler.queues.get c).tasks, notes task ≠ none)
    (expected : call.Resumes k)
    (ran : call.perform k = (do return some (← Kernel.enterFirst c depth) :
      KernelM (RegisterFile layout n) n (Option Resumption)) { k with board }) :
    Ends notes k call := by
  have idle : (k.board.cores.get c).state ≠ .running := by simp [stopped]
  obtain ⟨r, k', entered, keeps', handsOver⟩ := ready.enterFirst sound
    (by rw [state]; exact idle) (by simp [taken]) created depth
  rw [bind_run, entered] at ran
  have after := Keeps.after_of_stopped notes r mine idle
  refine .resumes expected (r := r) ran (by rw [after]; exact keeps') ?_
  rw [after, mine]
  exact handsOver.of_board state

end Ends

namespace Keeps

variable {k : Kernel (RegisterFile layout n) n} {notes : Notes}

theorem start (sound : layout.Sound) (keeps : Keeps k notes)
    (allowed : PortCall.start.Allowed k notes) : Ends notes k .start := by
  obtain ⟨board, ran, readied⟩ := Kernel.start_run keeps.known rfl
  have states := readied.states
  have halted {d : Fin n} {task : TaskId} : ¬k.Runs d task := by
    intro runs
    have stopped := (allowed d).1
    rw [runs.1] at stopped
    cases stopped
  have ready : Keeps { k with board } notes := by
    constructor
    · exact readied.identity
    · exact keeps.plain
    · exact keeps.apart
    · intro d
      rw [states]
      exact keeps.settled d
    · intro d _
      rw [states]
      exact (allowed d).1
    · exact fun d _ => (allowed d).2
    · intro d task runs
      exact absurd ⟨(states d).symm.trans runs.1, runs.2⟩ halted
    · exact fun task s noted _ => keeps.rests task s noted fun _ => halted
  refine .of_enterFirst sound ready 0 rfl (states _) (allowed _).1 (by simp [readied.pending])
    (allowed _).2 trivial ?_
  simp only [PortCall.perform_start, bind_run, ran]

theorem onTrap (sound : layout.Sound) (keeps : Keeps k notes) : Ends notes k .onTrap := by
  refine .of_switch sound keeps Settings.trapDepth rfl (refl _) rfl Iff.rfl ?_
  simp only [PortCall.perform_onTrap, bind_run, Kernel.onTrap_run keeps.known rfl]

theorem endInterrupt (sound : layout.Sound) (keeps : Keeps k notes) :
    Ends notes k .endInterrupt := by
  set c := k.board.machine.executing with mine
  by_cases outermost : (k.board.cores.get c).interruptDepth = 1
  · have ran := Kernel.endInterrupt_run_outermost keeps.known mine.symm outermost
    have left (nesting : UInt32) : k.board.Steady { k.board with
        cores := k.board.cores.put c { k.board.cores.get c with
          nesting, interruptDepth := 0, pending := .idle } } :=
      Board.steady_of_put rfl fun waits => (by cases waits)
    cases pending : (k.board.cores.get c).pending with
    | idle =>
      simp only [pending] at ran
      refine .of_none ?_ ?_ ran
      · simp [PortCall.Resumes, ← mine, pending]
      · exact ⟨left _, rfl, rfl, rfl, rfl, rfl⟩
    | switch =>
      simp only [pending] at ran
      refine .of_switch sound keeps 0 mine.symm (left _) ?_ ?_ ran
      · rw [Vector.get_put_self]
      · simp [PortCall.Resumes, ← mine, pending, outermost]
    | firstTask =>
      simp only [pending, bind_run, Kernel.onBoard, Board.resetNesting, Board.setNesting,
        Board.onCore, Vector.get_put_self, Vector.put_put] at ran
      refine .of_enterFirst sound (keeps.quiet ⟨left 0, rfl, rfl, rfl, rfl, rfl⟩) 0 mine.symm
        ((left 0).states c) (keeps.waiting c pending) ?_ (keeps.created c (Or.inr pending)) ?_ ran
      · rw [Vector.get_put_self]
      · exact ⟨outermost, Or.inl pending⟩
  · obtain ⟨quiet, silent⟩ := Kernel.quiet_endInterrupt_inner keeps.known mine.symm outermost
    exact .quiet (fun expected => outermost expected.1) quiet silent

theorem goes (sound : layout.Sound) (keeps : Keeps k notes) (call : PortCall)
    (allowed : call.Allowed k notes) : Ends notes k call := by
  cases plain : call.isPlain with
  | true =>
    exact .quiet (PortCall.not_resumes_of_plain plain k) (PortCall.quiet plain k) fun answer k' =>
      PortCall.answer_of_plain plain
  | false =>
    cases call with
    | start => exact keeps.start sound allowed
    | onTrap => exact keeps.onTrap sound
    | endInterrupt => exact keeps.endInterrupt sound
    | _ => cases plain

theorem create {k' : Kernel (RegisterFile layout n) n} {answer : Except Refusal Unit}
    (sound : layout.Sound) (keeps : Keeps k notes) {task : TaskId} {entry argument : Word}
    (idle : ∀ c, ¬k.Runs c task)
    (ran : Kernel.createLinear task entry argument k = .ok answer k') :
    Keeps k' (notes.created layout k.storage.tasks task entry argument answer) := by
  by_cases large : layout.words + 1 ≤ k.storage.tasks.stackSize task
  · obtain ⟨base, trace, ts, created, rested, touched⟩ :=
      Kernel.createLinear_run entry argument sound large
    rw [created] at ran
    cases ran
    have noted (other : TaskId) (apart : other ≠ task) :
        notes.created layout k.storage.tasks task entry argument (.ok ()) other = notes other :=
      Function.update_of_ne apart _ _
    constructor
    · exact keeps.known
    · exact keeps.plain
    · exact keeps.apart
    · exact keeps.settled
    · exact keeps.waiting
    · intro c begun other owned
      by_cases same : other = task
      · simp [same, Notes.created]
      · rw [noted other same]
        exact keeps.created c begun other owned
    · intro c other runs
      obtain ⟨base', room⟩ := keeps.room c other runs
      exact ⟨base', by rw [touched.sizes]; exact room.inside, room.bottom⟩
    · intro other s known awake
      by_cases same : other = task
      · subst same
        simp only [Notes.created, Function.update_self] at known
        cases known
        exact ⟨base, rested⟩
      · rw [noted other same] at known
        obtain ⟨base', rested'⟩ := keeps.rests other s known awake
        exact ⟨base', rested'.congr (touched.others other same)⟩
  · rw [Kernel.createLinear_run_refused entry argument (Nat.lt_of_not_le large)] at ran
    cases ran
    exact keeps

theorem boot {core : Fin n} {b : Kernel.Boot n} {file : RegisterFile layout n}
    (booted : Kernel.boot core b file = .ok k)
    (apart : ∀ c d task, task ∈ (k.scheduler.queues.get c).tasks →
      task ∈ (k.scheduler.queues.get d).tasks → c = d) : Keeps k fun _ => none := by
  obtain ⟨rate, scheduler, made, rfl⟩ := Kernel.eq_of_boot booted
  have plain : scheduler.reenters = false := by
    unfold RoundRobin.make at made
    split at made <;> cases made
    rfl
  constructor
  · rfl
  · exact plain
  · exact apart
  · intro c
    simp
  · intro c waits
    simp at waits
  · intro c begun
    simp at begun
  · intro c task runs
    have started := runs.1
    simp at started
  · intro task s noted
    cases noted

end Keeps

theorem Preempting.keeps (sound : layout.Sound) {k : Kernel (RegisterFile layout n) n}
    {notes : Notes} (run : Preempting k notes) : Keeps k notes := by
  induction run with
  | boot booted apart => exact .boot booted apart
  | create _ task entry argument idle ran ih => exact ih.create sound idle ran
  | call _ call allowed ran ih =>
    rcases ih.goes sound call allowed with ⟨_, ran', keeps, _⟩ | ⟨_, quiet, silent⟩
    · rw [ran] at ran'
      cases ran'
      exact keeps
    · rw [silent _ _ ran]
      rw [ran] at quiet
      exact ih.quiet quiet
  | compute _ computes ih => exact ih.compute computes

/-- A task whose stack is large enough is set up. -/
theorem Preempting.setUp (sound : layout.Sound) {k : Kernel (RegisterFile layout n) n}
    {notes : Notes} (run : Preempting k notes) (task : TaskId) (entry argument : Word)
    (idle : ∀ c, ¬k.Runs c task) (large : layout.words + 1 ≤ k.storage.tasks.stackSize task) :
    ∃ k' : Kernel (RegisterFile layout n) n, Preempting k' (update notes task
        (some (layout.initialSnapshot k.storage.tasks task entry argument))) ∧
      k'.board.cores = k.board.cores ∧ k'.scheduler = k.scheduler ∧
      ∀ other, k'.storage.tasks.stackSize other = k.storage.tasks.stackSize other := by
  obtain ⟨base, trace, ts, ran, _, touched⟩ := Kernel.createLinear_run entry argument sound large
  exact ⟨_, run.create task entry argument idle ran, rfl, rfl, touched.sizes⟩

/-- A call completes and resumes a task exactly when it gets as far as the engine on a core that
may switch. The core then goes on with what is noted of that task, and the task that it leaves is
saved inside its own stack. All other calls, and those that halt, leave stacks and registers
alone. -/
theorem Preempting.resumed_intact (builtIn : layout ∈ Layout.builtIn)
    {k : Kernel (RegisterFile layout n) n} {notes : Notes} (run : Preempting k notes)
    (call : PortCall) (allowed : call.Allowed k notes) :
    (call.Resumes k ∧ ∃ r k', call.perform k = .ok (some r) k' ∧
      HandsOver (notes.after k (some r)) k k' k.board.machine.executing r) ∨
    (¬call.Resumes k ∧ k.Quiet (ending (call.perform k)) ∧
      ∀ answer k', call.perform k = .ok answer k' → answer = none) := by
  have sound := Layout.sound_of_builtIn builtIn
  rcases (run.keeps sound).goes sound call allowed with
    ⟨expected, ran, _, handsOver⟩ | ⟨expected, quiet, silent⟩
  · exact Or.inl ⟨expected, _, _, ran, handsOver⟩
  · exact Or.inr ⟨expected, quiet, silent⟩

/-- One core starts with the first of two tasks and switches to the other. -/
theorem Preempting.resumed_intact_first_switch :
    ∃ (k : Kernel (RegisterFile CortexM4.layout 1) 1) (notes : Notes), Preempting k notes ∧
      PortCall.onTrap.Resumes k ∧ ∃ r k', PortCall.onTrap.perform k = .ok (some r) k' ∧
        HandsOver (notes.after k (some r)) k k' k.board.machine.executing r := by
  obtain ⟨k₀, booted, size₀, size₁, stopped, owned⟩ :
      ∃ k₀ : Kernel (RegisterFile CortexM4.layout 1) 1,
        Kernel.boot 0 { queues := #v[[0, 1]], stackSizes := #[40, 40] } {} = .ok k₀ ∧
        k₀.storage.tasks.stackSize 0 = 40 ∧ k₀.storage.tasks.stackSize 1 = 40 ∧
        (k₀.board.cores.get 0).state = .notStarted ∧
        (k₀.scheduler.queues.get 0).tasks = #[0, 1] :=
    ⟨_, by with_unfolding_all rfl, by with_unfolding_all rfl, by with_unfolding_all rfl, rfl,
      by with_unfolding_all rfl⟩
  have known : CortexM4.layout ∈ Layout.builtIn := by simp [Layout.builtIn]
  have sound := Layout.sound_of_builtIn known
  have idle (task : TaskId) (c : Fin 1) : ¬k₀.Runs c task := by
    intro runs
    have started := runs.1
    rw [Subsingleton.elim c 0, stopped] at started
    cases started
  have run₀ := Preempting.boot booted fun c d _ _ _ => Subsingleton.elim c d
  obtain ⟨k₁, run₁, cores₁, scheduler₁, sizes₁⟩ := run₀.setUp sound 0 (.num 4) (.num 5)
    (fun c runs => idle 0 c runs) (by rw [size₀]; decide)
  obtain ⟨k₂, run₂, cores₂, scheduler₂, _⟩ := run₁.setUp sound 1 (.num 6) (.num 7)
    (fun c runs => idle 1 c (by rwa [Kernel.Runs, cores₁, scheduler₁] at runs))
    (by rw [sizes₁, size₁]; decide)
  have ready (c : Fin 1) : (k₂.board.cores.get c).state = .notStarted ∧
      ∀ task ∈ (k₂.scheduler.queues.get c).tasks, update (update (fun _ => none) 0
        (some (CortexM4.layout.initialSnapshot k₀.storage.tasks 0 (.num 4) (.num 5)))) 1
        (some (CortexM4.layout.initialSnapshot k₁.storage.tasks 1 (.num 6) (.num 7))) task ≠
        none := by
    rw [cores₂, cores₁, scheduler₂, scheduler₁, Subsingleton.elim c 0, owned]
    refine ⟨stopped, fun task member => ?_⟩
    simp only [List.mem_toArray, List.mem_cons, List.not_mem_nil, or_false] at member
    rcases member with rfl | rfl <;> simp
  obtain ⟨r, k₃, started, running⟩ : ∃ r k₃, PortCall.start.perform k₂ = .ok (some r) k₃ ∧
      ∀ c, (k₃.board.cores.get c).state = .running := by
    rcases (run₂.keeps sound).goes sound .start ready with ⟨_, ran, _, handsOver⟩ | ⟨stays, _, _⟩
    · refine ⟨_, _, ran, fun c => ?_⟩
      rw [Subsingleton.elim c k₂.board.machine.executing]
      exact handsOver.running
    · exact absurd trivial stays
  have run₃ := run₂.call .start ready started
  refine ⟨k₃, _, run₃, running _, ?_⟩
  rcases run₃.resumed_intact known .onTrap trivial with ⟨_, done⟩ | ⟨stays, _⟩
  · exact done
  · exact absurd (running _) stays

end Preempt
