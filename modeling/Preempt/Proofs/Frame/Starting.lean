import Preempt.Proofs.Frame.Contexts

/-!
New tasks on their own stacks. Whatever its slots and wherever they are, a layout that has the roles
it needs sets up a task by writing one frame inside the stack, or refuses and writes nothing. A
restore that finds the frame untouched starts the task at its entry (`tasks_start_inside_stack`):
every slot but the nesting one is in its register (`Shows.initial_run`).
-/

namespace Preempt

open SwitchPrimitives (restore)

namespace Layout

variable {layout : Layout}

/-- A layout that tasks can be set up with. -/
structure Startable (layout : Layout) : Prop where
  small : layout.words ≤ maxFrameWords
  once : ∀ role ∈ Role.required, layout.slots.count (.role role) = 1
  starts : layout.enabledIn layout.initialStatus = true

theorem startable_of_builtIn (known : layout ∈ builtIn) : layout.Startable := by
  simp only [builtIn, List.mem_cons, List.not_mem_nil, or_false] at known
  rcases known with rfl | rfl | rfl | rfl <;> exact ⟨by decide, by decide, by decide⟩

theorem Startable.mem (startable : layout.Startable) {role : Role}
    (required : role ∈ Role.required) : .role role ∈ layout.slots := by
  rw [← List.count_pos_iff, startable.once role required]
  exact Nat.one_pos

theorem Startable.reports (startable : layout.Startable) : layout.Reports where
  nests := startable.mem (by decide)
  small := startable.small
  status := startable.mem (by decide)
  starts := startable.starts

theorem Startable.sound (startable : layout.Startable) : layout.Sound := startable.reports.toSound

end Layout

namespace RegisterFile

variable {layout : Layout} {n : Nat} {file : RegisterFile layout n} {c : Fin n} {m : Snapshot}
  {entry argument : Word}

/-- A core is at the start of a task. -/
structure AtStart (file : RegisterFile layout n) (c : Fin n) (entry argument : Word) : Prop where
  programCounter :
    registerWithRole c .programCounter file = .ok (layout.entryAddress entry) file
  argument : registerWithRole c .argument file = .ok argument file
  status : registerWithRole c .status file = .ok layout.initialStatus file
  returnAddress : ∀ i : Nat, layout.slots[i]? = some (.role .returnAddress) →
    register c i file = .ok .exitTrap file
  fpuFlag : ∀ i : Nat, layout.slots[i]? = some (.role .fpuFlag) →
    register c i file = .ok layout.initialFpuFlag file
  fill : ∀ (i : Nat) (value : Word), layout.slots[i]? = some (.fill value) →
    register c i file = .ok value file

theorem Shows.register_run (shows : file.Shows c m) (small : layout.words ≤ maxFrameWords)
    {i : Nat} (bound : i < layout.words) (apart : i ≠ layout.nestingSlot) {value : Word}
    (holds : m.registers[i]? = some value) : register c i file = .ok value file := by
  have inside : i < maxFrameWords := Nat.lt_of_lt_of_le bound small
  have shown := shows.registers ⟨i, inside⟩ bound apart
  rw [holds] at shown
  simp only [register, registersOf, Action.bind_run, c.isLt, dif_pos, inside, Action.pure_run]
  rw [Option.some.inj shown]
  rfl

/-- A new task has the initial value of every slot in its register. -/
theorem Shows.initial_run {ts : Tasks} {task : TaskId}
    (shows : file.Shows c (layout.initialSnapshot ts task entry argument)) (sound : layout.Sound)
    {i : Nat} {slot : Slot} (here : layout.slots[i]? = some slot)
    (plain : slot ≠ .role .criticalNesting) :
    register c i file = .ok (layout.initialValue entry argument slot) file := by
  obtain ⟨bound, -⟩ := List.getElem?_eq_some_iff.mp here
  have apart : i ≠ layout.nestingSlot := by
    rintro rfl
    rw [Layout.nestingSlot, Layout.slot_position sound.nests] at here
    exact plain (Option.some.inj here).symm
  refine shows.register_run sound.small bound apart ?_
  simp [Layout.initialSnapshot, Layout.initialImage, here]

theorem Shows.atStart {ts : Tasks} {task : TaskId}
    (shows : file.Shows c (layout.initialSnapshot ts task entry argument))
    (startable : layout.Startable) : file.AtStart c entry argument where
  programCounter := shows.initial_run startable.sound
    (Layout.slot_position (startable.mem (by decide))) (by decide)
  argument := shows.initial_run startable.sound
    (Layout.slot_position (startable.mem (by decide))) (by decide)
  status := shows.initial_run startable.sound
    (Layout.slot_position startable.reports.status) (by decide)
  returnAddress _ here := shows.initial_run startable.sound here (by decide)
  fpuFlag _ here := shows.initial_run startable.sound here (by decide)
  fill _ _ here := shows.initial_run startable.sound here (by simp)

end RegisterFile

open RegisterFile (stackPointer)

/-- Without a word to spare beyond the frame the stack is refused, and nothing is written. Otherwise
only the frame is, inside the stack, and any core that restores the task from there starts it at its
entry, with interrupts enabled and outside critical sections. -/
theorem Layout.Startable.tasks_start_inside_stack {layout : Layout} (startable : layout.Startable)
    {n : Nat} (k : Kernel (RegisterFile layout n) n) (task : TaskId) (entry argument : Word) :
    (k.storage.tasks.stackSize task < layout.words + 1 ↔
      Kernel.createLinear task entry argument k = .ok (.error
        (.stackTooSmall (layout.words + 1) (k.storage.tasks.stackSize task))) k) ∧
    (layout.words + 1 ≤ k.storage.tasks.stackSize task → ∃ k' base,
      Kernel.createLinear task entry argument k = .ok (.ok ()) k' ∧
      k'.storage.context = k.storage.context ∧
      k.storage.tasks.Touched k'.storage.tasks task base layout.words ∧
      ∀ s : Storage (RegisterFile layout n),
        s.tasks.list[task]? = k'.storage.tasks.list[task]? → ∀ (c : Fin n) (depth : TrapDepth),
        ∃ file, restore c task depth s = .ok ⟨0, true⟩ { s with context := file } ∧
          file.AtStart c entry argument ∧
          stackPointer c file = .ok (k.storage.tasks.initialTop task layout.growth) file) ∧
    ∀ known ∈ Layout.builtIn, known.Startable := by
  have sound := startable.sound
  refine ⟨⟨fun small => Kernel.createLinear_run_refused entry argument small, fun refused => ?_⟩,
    fun large => ?_, fun _ known => Layout.startable_of_builtIn known⟩
  · by_contra large
    obtain ⟨_, _, _, created, _⟩ := Kernel.createLinear_run entry argument sound
      (Nat.le_of_not_lt large)
    rw [created] at refused
    cases refused
  · obtain ⟨base, trace, ts, created, rested, touched⟩ :=
      Kernel.createLinear_run (k := k) entry argument sound large
    refine ⟨_, base, created, rfl, touched, fun s same c depth => ?_⟩
    obtain ⟨file, restored, shows, _⟩ :=
      RegisterFile.restore_run sound (rested.congr same) c depth
    rw [startable.reports.resumption_initial] at restored
    refine ⟨file, restored, shows.atStart startable, ?_⟩
    simp only [stackPointer, c.isLt, dif_pos]
    rw [shows.sp]
    rfl

/-- A frame of 17 words fits on a stack of 18, but not on one of 17. -/
theorem Layout.Startable.tasks_start_inside_stack_cortexM4 :
    ∃ (k k' : Kernel (RegisterFile CortexM4.layout 1) 1) (file : RegisterFile CortexM4.layout 1),
      Kernel.boot 0 { queues := #v[[0, 1]], stackSizes := #[18, 17] } {} = .ok k ∧
      Kernel.createLinear 0 (.num 4) (.num 5) k = .ok (.ok ()) k' ∧
      Kernel.createLinear 1 (.num 4) (.num 5) k = .ok (.error (.stackTooSmall 18 17)) k ∧
      restore (0 : Fin 1) 0 0 k'.storage = .ok ⟨0, true⟩ { k'.storage with context := file } ∧
      file.AtStart 0 (.num 4) (.num 5) ∧ stackPointer 0 file = .ok (.stack 0 18) file := by
  have startable : CortexM4.layout.Startable :=
    Layout.startable_of_builtIn (by simp [Layout.builtIn])
  obtain ⟨k, booted, large, small, top⟩ : ∃ k : Kernel (RegisterFile CortexM4.layout 1) 1,
      Kernel.boot 0 { queues := #v[[0, 1]], stackSizes := #[18, 17] } {} = .ok k ∧
      k.storage.tasks.stackSize 0 = 18 ∧ k.storage.tasks.stackSize 1 = 17 ∧
      k.storage.tasks.initialTop 0 .descending = .stack 0 18 :=
    ⟨_, by with_unfolding_all rfl, by with_unfolding_all rfl, by with_unfolding_all rfl,
      by with_unfolding_all rfl⟩
  have words : CortexM4.layout.words = 17 := by decide
  obtain ⟨_, completes, _⟩ := startable.tasks_start_inside_stack k 0 (.num 4) (.num 5)
  obtain ⟨refuses, _, _⟩ := startable.tasks_start_inside_stack k 1 (.num 4) (.num 5)
  rw [small, words] at refuses
  obtain ⟨k', _, created, _, _, starts⟩ := completes (by rw [large, words])
  obtain ⟨file, restored, atStart, pointer⟩ := starts k'.storage rfl 0 0
  exact ⟨k, k', file, booted, created, refuses.mp (by decide), restored, atStart,
    pointer.trans (by rw [← top]; rfl)⟩

end Preempt
