import Mathlib.Data.List.Forall2
import Preempt.Kernel.Creation

/-!
Frames on stacks. A frame that is pushed lies in the stack of its task and holds the registers,
with the nesting in its own slot; popping it gives the registers, the stack pointer and the nesting
back. This is for either direction of growth and wherever the layout has its nesting slot.
-/

namespace Preempt

namespace Tasks

theorem stackSize_congr {ts ts' : Tasks} {task : TaskId}
    (same : ts'.list[task]? = ts.list[task]?) : ts'.stackSize task = ts.stackSize task := by
  simp [stackSize, stack?, same]

theorem isSome_read?_iff (ts : Tasks) (task : TaskId) (k : Nat) :
    (ts.read? (.stack task k)).isSome ↔ k < ts.stackSize task := by
  change ((ts.stack? task).bind (·.words[k]?)).isSome ↔ _
  cases holds : ts.stack? task with
  | none => simp [stackSize, holds]
  | some stack => simp [stackSize, holds, Stack.size]

theorem lt_size_of_stackSize {ts : Tasks} {task : TaskId} (pos : 0 < ts.stackSize task) :
    task < ts.list.size :=
  lt_size_of_read? ((isSome_read?_iff ts task 0).mpr pos)

theorem initialTop_descending (ts : Tasks) (task : TaskId) :
    ts.initialTop task .descending = .stack task (ts.stackSize task) := by
  cases holds : ts.stack? task <;> simp [initialTop, stackSize, holds, Stack.initialTop]

theorem initialTop_ascending (ts : Tasks) (task : TaskId) :
    ts.initialTop task .ascending = .stack task (0 : Nat) := by
  cases holds : ts.stack? task <;> simp [initialTop, holds, Stack.initialTop]

theorem stackSize_write (ts : Tasks) (address value : Word) (task : TaskId) :
    (ts.write address value).stackSize task = ts.stackSize task := by
  unfold write
  split
  · rename_i other k
    by_cases same : other = task
    · subst same
      cases holds : ts.list[other]? <;>
        simp [stackSize, stack?, Array.getElem?_modify, holds, Stack.size]
    · simp [stackSize, stack?, Array.getElem?_modify, same]
  · rfl

theorem stackSize_setTop (ts : Tasks) (task other : TaskId) (top : Word) :
    (ts.setTop task top).stackSize other = ts.stackSize other := by
  by_cases same : task = other
  · subst same
    cases holds : ts.list[task]? <;>
      simp [stackSize, stack?, setTop, Array.getElem?_modify, holds]
  · exact stackSize_congr (record_setTop ts (Ne.symm same) top)

/-- At most the `count` words from `base` on of one stack change, and the saved top of its task. -/
structure Touched (before after : Tasks) (task : TaskId) (base count : Nat) : Prop where
  inside : base + count ≤ before.stackSize task
  words : ∀ offset : Int, ¬(base ≤ offset ∧ offset < base + count) →
    after.read? (.stack task offset) = before.read? (.stack task offset)
  others : ∀ other, other ≠ task → after.list[other]? = before.list[other]?
  sizes : ∀ other, after.stackSize other = before.stackSize other

/-- A block goes to one stack, whose size it leaves alone. -/
theorem storeBlock_apart {task : TaskId} {offset : Int} {values : List Word} {ts after : Tasks}
    (ran : storeBlock (.stack task offset) values ts = .ok () after) :
    (∀ other, other ≠ task → after.list[other]? = ts.list[other]?) ∧
      ∀ other, after.stackSize other = ts.stackSize other := by
  induction values generalizing offset ts with
  | nil =>
    cases ran
    exact ⟨fun _ _ => rfl, fun _ => rfl⟩
  | cons value rest ih =>
    cases holds : ts.read? (.stack task offset) with
    | none => simp [storeBlock, Action.bind_run, store, holds] at ran
    | some old =>
      simp only [storeBlock, Action.bind_run, store, holds, Word.advance_stack] at ran
      obtain ⟨others, sizes⟩ := ih ran
      refine ⟨fun other apart => ?_, fun other => ?_⟩
      · rw [others other apart, record_write ts apart]
      · rw [sizes, stackSize_write]

/-- A block that fits into a stack is written there. -/
theorem storeBlock_inside {task : TaskId} {base : Nat} {values : List Word} {ts : Tasks}
    (inside : base + values.length ≤ ts.stackSize task) :
    ∃ after, storeBlock (.stack task base) values ts = .ok () after ∧
      (∀ i : Nat, i < values.length → after.read? (.stack task (base + i)) = values[i]?) ∧
      ts.Touched after task base values.length ∧ ∀ other, after.top other = ts.top other := by
  obtain ⟨after, ran, tops, apart, written⟩ :=
    @storeBlock_run task base values ts fun k bound => by
      rw [← Int.natCast_add, isSome_read?_iff]
      omega
  obtain ⟨others, sizes⟩ := storeBlock_apart ran
  refine ⟨after, ran, fun i bound => ?_, ⟨inside, fun offset outside => ?_, others, sizes⟩,
    tops⟩
  · rw [written i bound, List.getElem?_eq_getElem bound]
  · refine apart task offset fun i bound both => outside ?_
    omega

theorem Touched.setTop {before after : Tasks} {task : TaskId} {base count : Nat}
    (touched : before.Touched after task base count) (top : Word) :
    before.Touched (after.setTop task top) task base count where
  inside := touched.inside
  words offset outside := by rw [read?_setTop, touched.words offset outside]
  others other apart := by rw [record_setTop _ apart, touched.others other apart]
  sizes other := by rw [stackSize_setTop, touched.sizes]

end Tasks

/-- What a suspended task has to get back. -/
structure Snapshot where
  /-- The registers in slot order. -/
  registers : List Word
  sp : Word
  nesting : UInt32

/-- What a task is resumed with: its nesting, and the interrupt enable of its status word. -/
def Snapshot.resumption (s : Snapshot) (layout : Layout) : Resumption where
  nesting := s.nesting
  enabled := layout.enabledIn ((s.registers[layout.position .status]?).getD (.num 0))

namespace Layout

variable {layout : Layout} {ts : Tasks} {task : TaskId} {sp : Word} {base : Nat}

/-- What the kernel layer asks of a layout: it has a nesting slot, and the register files are large
enough for it. -/
structure Sound (layout : Layout) : Prop where
  nests : .role .criticalNesting ∈ layout.slots
  small : layout.words ≤ maxFrameWords

/-- The layouts of the architectures. -/
def builtIn : List Layout :=
  [CortexM4.layout, Rh850.layout false, Rh850.layout true, C29x.layout]

theorem sound_of_builtIn (known : layout ∈ builtIn) : layout.Sound := by
  simp only [builtIn, List.mem_cons, List.not_mem_nil, or_false] at known
  rcases known with rfl | rfl | rfl | rfl <;> exact ⟨by decide, by decide⟩

def nestingSlot (layout : Layout) : Nat := layout.position .criticalNesting

theorem Sound.nestingSlot_lt (sound : layout.Sound) : layout.nestingSlot < layout.words :=
  (Slot.position_lt_iff layout.slots _).mpr sound.nests

/-- The words of the frame of a snapshot. -/
def frameOf (layout : Layout) (s : Snapshot) : List Word :=
  s.registers.set layout.nestingSlot (.ofUInt32 s.nesting)

/-- What a new task starts with. -/
def initialSnapshot (layout : Layout) (ts : Tasks) (task : TaskId) (entry argument : Word) :
    Snapshot where
  registers := layout.initialImage entry argument
  sp := ts.initialTop task layout.growth
  nesting := 0

/-- The saved top of a task leads to the frame of a snapshot, and the frame is all in its stack. -/
structure Rests (layout : Layout) (ts : Tasks) (task : TaskId) (s : Snapshot) (base : Nat) :
    Prop where
  inside : base + layout.words ≤ ts.stackSize task
  top : ts.top task = layout.topOf (.stack task base)
  pointer : layout.poppedPointer (.stack task base) = s.sp
  length : s.registers.length = layout.words
  holds : ∀ i : Nat, i < layout.words → ts.read? (.stack task (base + i)) = (layout.frameOf s)[i]?

theorem Rests.congr {ts' : Tasks} {s : Snapshot} (rests : layout.Rests ts task s base)
    (same : ts'.list[task]? = ts.list[task]?) : layout.Rests ts' task s base where
  inside := by rw [Tasks.stackSize_congr same]; exact rests.inside
  top := by rw [Tasks.top_congr same]; exact rests.top
  pointer := rests.pointer
  length := rests.length
  holds i bound := by rw [Tasks.read?_congr same]; exact rests.holds i bound

/-- There is room for a frame at a stack pointer into the stack of a task. -/
structure Room (layout : Layout) (ts : Tasks) (task : TaskId) (sp : Word) (base : Nat) :
    Prop where
  inside : base + layout.words ≤ ts.stackSize task
  bottom : layout.pushBase sp = .stack task base

theorem Room.pointer (room : layout.Room ts task sp base) :
    layout.poppedPointer (.stack task base) = sp := by
  have bottom := room.bottom
  cases sp with
  | stack owner offset => rw [← bottom, poppedPointer_pushBase]
  | num value => cases growth : layout.growth <;> simp [pushBase, growth, Word.advance] at bottom
  | exitTrap => cases growth : layout.growth <;> simp [pushBase, growth, Word.advance] at bottom

/-- A task that goes on where its frame was has room for that frame. -/
theorem Rests.room {s : Snapshot} (rests : layout.Rests ts task s base) :
    layout.Room ts task s.sp base where
  inside := rests.inside
  bottom := by rw [← rests.pointer, pushBase_poppedPointer]

theorem mapM_eq_ok {α β ε : Type} {f : α → Except ε β} {xs : List α} {ys : List β}
    (each : List.Forall₂ (fun x y => f x = .ok y) xs ys) : xs.mapM f = .ok ys := by
  induction each with
  | nil => rfl
  | cons first _ ih =>
    rw [List.mapM_cons, first, ih]
    rfl

/-- Registers beyond the frame are not looked at. -/
theorem image_take {registers : List Word} (enough : layout.words ≤ registers.length)
    (nesting : UInt32) : layout.image registers nesting =
      .ok ((registers.take layout.words).set layout.nestingSlot (.ofUInt32 nesting)) := by
  refine mapM_eq_ok (List.forall₂_iff_get.mpr ⟨by simp [enough], fun i bound bound' => ?_⟩)
  simp only [List.length_set, List.length_take] at bound'
  have held : i < registers.length := by omega
  simp only [List.get_eq_getElem, List.getElem_range, List.getElem_set, List.getElem_take]
  by_cases slot : i = layout.nestingSlot
  · subst slot
    simp [nestingSlot]
  · have apart : i ≠ layout.position .criticalNesting := slot
    simp [apart, Ne.symm slot, held]

theorem image_eq {registers : List Word} (length : registers.length = layout.words)
    (nesting : UInt32) :
    layout.image registers nesting =
      .ok (registers.set layout.nestingSlot (.ofUInt32 nesting)) := by
  rw [image_take (Nat.le_of_eq length.symm), List.take_of_length_le (Nat.le_of_eq length)]

/-- A push writes the words of one frame and nothing else. -/
theorem push_run_words {registers : List Word} (room : layout.Room ts task sp base)
    (enough : layout.words ≤ registers.length) (nesting : UInt32) :
    ∃ after, layout.push sp registers nesting ts = .ok (layout.topOf (.stack task base)) after ∧
      (∀ i : Nat, i < layout.words → after.read? (.stack task (base + i)) =
        ((registers.take layout.words).set layout.nestingSlot (.ofUInt32 nesting))[i]?) ∧
      ts.Touched after task base layout.words ∧ ∀ other, after.top other = ts.top other := by
  have size : ((registers.take layout.words).set layout.nestingSlot
      (.ofUInt32 nesting)).length = layout.words := by simp [enough]
  obtain ⟨after, ran, written, touched, tops⟩ :=
    @Tasks.storeBlock_inside task base _ ts (by rw [size]; exact room.inside)
  rw [size] at written touched
  refine ⟨after, ?_, written, touched, tops⟩
  simp only [push, image_take enough, room.bottom, Action.bind_run, ran, Action.pure_run]

/-- A push writes one frame, above or below the stack pointer as the stack grows. -/
theorem push_run (sound : layout.Sound) {registers : List Word}
    (room : layout.Room ts task sp base) (length : registers.length = layout.words)
    (nesting : UInt32) :
    ∃ top after, layout.push sp registers nesting ts = .ok top after ∧
      layout.Rests (after.setTop task top) task ⟨registers, sp, nesting⟩ base ∧
      ts.Touched (after.setTop task top) task base layout.words := by
  obtain ⟨after, ran, written, touched, _⟩ := push_run_words room (Nat.le_of_eq length.symm) nesting
  rw [List.take_of_length_le (Nat.le_of_eq length)] at written
  have fits : base + layout.words ≤ after.stackSize task := by
    rw [touched.sizes]
    exact room.inside
  have known : task < after.list.size := by
    have slot := sound.nestingSlot_lt
    exact Tasks.lt_size_of_stackSize (by omega)
  refine ⟨layout.topOf (.stack task base), after, ran, ?_, touched.setTop _⟩
  constructor
  · rw [Tasks.stackSize_setTop]
    exact fits
  · rw [Tasks.top_setTop, if_pos ⟨rfl, known⟩]
  · exact room.pointer
  · exact length
  · intro i bound
    rw [Tasks.read?_setTop, written i bound]
    rfl

theorem frame_run {values : List Word} (length : values.length = layout.words)
    (holds : ∀ i : Nat, i < layout.words → ts.read? (.stack task (base + i)) = values[i]?) :
    layout.frame (layout.topOf (.stack task base)) ts = .ok values ts := by
  rw [frame, lowEnd_topOf, ← length]
  refine Tasks.loadBlock_run ts fun k bound => ?_
  rw [holds k (length ▸ bound), List.getElem?_eq_getElem bound]

/-- A pop reads the words of one frame. What the registers hold beyond it, and the register of the
nesting slot, stays as it is. -/
theorem pop_run_words {values into : List Word} (length : values.length = layout.words)
    (holds : ∀ i : Nat, i < layout.words → ts.read? (.stack task (base + i)) = values[i]?)
    (enough : layout.words ≤ into.length) :
    ∃ popped, layout.pop (layout.topOf (.stack task base)) into ts = .ok popped ts ∧
      popped.sp = layout.poppedPointer (.stack task base) ∧
      popped.nesting = ((values[layout.nestingSlot]?).map Word.low).getD 0 ∧
      popped.registers.length = into.length ∧
      ∀ i : Nat, popped.registers[i]? =
        if i < layout.words ∧ i ≠ layout.nestingSlot then values[i]? else into[i]? := by
  have loaded := frame_run length holds
  rw [frame, lowEnd_topOf] at loaded
  refine ⟨⟨layout.poppedPointer (.stack task base), _, into.mapIdx fun i old =>
    if i = layout.nestingSlot then old else (values[i]?).getD old⟩, ?_, rfl, rfl, by simp,
    fun i => ?_⟩
  · simp only [pop, lowEnd_topOf, Nat.min_eq_right enough, Action.bind_run, loaded,
      Action.pure_run]
    rfl
  · rw [List.getElem?_mapIdx]
    by_cases bound : i < layout.words
    · have held : i < values.length := by rw [length]; exact bound
      have taken : i < into.length := Nat.lt_of_lt_of_le bound enough
      by_cases here : i = layout.nestingSlot <;> simp [bound, here, held, taken]
    · have beyond : values[i]? = none := List.getElem?_eq_none (by rw [length]; omega)
      simp [bound, beyond]

/-- A pop gives back what the frame was pushed from. -/
theorem pop_run {s : Snapshot} (sound : layout.Sound) (rests : layout.Rests ts task s base)
    (fill : Word) :
    ∃ popped, layout.pop (ts.top task) (List.replicate layout.words fill) ts = .ok popped ts ∧
      popped.sp = s.sp ∧ popped.nesting = s.nesting ∧
      ∀ i, i ≠ layout.nestingSlot → popped.registers[i]? = s.registers[i]? := by
  have size : (layout.frameOf s).length = layout.words := by simp [frameOf, rests.length]
  obtain ⟨popped, ran, sp, nesting, _, registers⟩ := pop_run_words size rests.holds
    (show layout.words ≤ (List.replicate layout.words fill).length by simp)
  rw [← rests.top] at ran
  refine ⟨popped, ran, sp.trans rests.pointer, ?_, fun i apart => ?_⟩
  · have slot : layout.nestingSlot < s.registers.length := by
      rw [rests.length]
      exact sound.nestingSlot_lt
    rw [nesting, frameOf, List.getElem?_set_self slot]
    simp
  · rw [registers]
    by_cases bound : i < layout.words
    · rw [if_pos ⟨bound, apart⟩]
      exact List.getElem?_set_ne (Ne.symm apart)
    · have beyond : s.registers.length ≤ i := by rw [rests.length]; omega
      simp [bound, beyond]

theorem slot_position {wanted : Role} (known : .role wanted ∈ layout.slots) :
    layout.slots[layout.position wanted]? = some (.role wanted) := by
  have bound : layout.position wanted < layout.slots.length :=
    (Slot.position_lt_iff layout.slots wanted).mpr known
  have has := List.findIdx_getElem (w := (bound : layout.slots.findIdx _ < _))
  change layout.slots[layout.position wanted].hasRole wanted = true at has
  rw [List.getElem?_eq_getElem bound]
  cases slot : layout.slots[layout.position wanted] with
  | role r =>
    rw [slot] at has
    rw [of_decide_eq_true has]
  | fill value =>
    rw [slot] at has
    cases has

theorem Sound.status_ne_nestingSlot (sound : layout.Sound) :
    layout.position .status ≠ layout.nestingSlot := by
  intro same
  have bound : layout.position .status < layout.slots.length := by
    rw [same]
    exact sound.nestingSlot_lt
  have slot := slot_position ((Slot.position_lt_iff _ _).mp bound)
  rw [same, nestingSlot, slot_position sound.nests] at slot
  cases slot

theorem initialImage_set (entry argument : Word) :
    (layout.initialImage entry argument).set layout.nestingSlot (.ofUInt32 0) =
      layout.initialImage entry argument := by
  apply List.ext_getElem
  · simp
  · intro i bound bound'
    rw [List.getElem_set]
    split
    · rename_i slot
      subst slot
      rw [length_initialImage] at bound'
      simp only [initialImage, List.getElem_map]
      have slot := slot_position ((Slot.position_lt_iff layout.slots _).mp bound')
      change layout.slots[layout.nestingSlot]? = _ at slot
      rw [List.getElem?_eq_getElem bound'] at slot
      exact (congrArg (layout.initialValue entry argument) (Option.some.inj slot)).symm
    · rfl

/-- A new stack has room for a frame from its end on. -/
theorem initialRoom (large : layout.words ≤ ts.stackSize task) :
    ∃ base, layout.Room ts task (ts.initialTop task layout.growth) base := by
  cases growth : layout.growth with
  | descending =>
    refine ⟨ts.stackSize task - layout.words, by omega, ?_⟩
    simp only [Tasks.initialTop_descending, growth, pushBase, Word.advance_stack]
    congr 1
    omega
  | ascending => exact ⟨0, by omega, by simp only [Tasks.initialTop_ascending, growth, pushBase]⟩

/-- Setting up a task on a stack that is large enough leaves it at rest. -/
theorem prepare_run (entry argument : Word) (sound : layout.Sound)
    (large : layout.words + 1 ≤ ts.stackSize task) :
    ∃ base top after, layout.prepare task entry argument ts = .ok (.ok top) after ∧
      layout.Rests after task (layout.initialSnapshot ts task entry argument) base ∧
      ts.Touched after task base layout.words := by
  obtain ⟨base, room⟩ : ∃ base, layout.Room ts task (ts.initialTop task layout.growth) base :=
    initialRoom (by omega)
  have image := length_initialImage layout entry argument
  obtain ⟨top, after, pushed, rests, touched⟩ := push_run sound room image 0
  refine ⟨base, top, after.setTop task top, ?_, rests, touched⟩
  have written : layout.prepareAt (ts.initialTop task layout.growth) entry argument ts =
      .ok top after := by
    rw [← pushed, push, image_eq image, initialImage_set]
    rfl
  simp only [prepare, Action.bind_run, Action.get_run, Nat.not_lt.mpr large, if_false, written,
    Action.modify_run, Action.pure_run]

theorem prepare_run_refused (entry argument : Word)
    (small : ts.stackSize task < layout.words + 1) :
    layout.prepare task entry argument ts =
      .ok (.error (.stackTooSmall (layout.words + 1) (ts.stackSize task))) ts := by
  simp only [prepare, Action.bind_run, Action.get_run, small, if_true, Action.pure_run]

end Layout

namespace RegisterFile

variable {layout : Layout} {n : Nat} {s : Storage (RegisterFile layout n)} {task : TaskId}
  {base : Nat} {c : Fin n}

/-- What the task that a core runs has in its registers. -/
def snapshot (file : RegisterFile layout n) (c : Fin n) (nesting : UInt32) : Snapshot where
  registers := (file.registers.get c).toList.take layout.words
  sp := file.sp.get c
  nesting

/-- The registers of a core, apart from the nesting slot, are those of a snapshot. -/
structure Shows (file : RegisterFile layout n) (c : Fin n) (s : Snapshot) : Prop where
  registers : ∀ i : Fin maxFrameWords, i < layout.words → i ≠ layout.nestingSlot →
    s.registers[i.val]? = some ((file.registers.get c).get i)
  sp : file.sp.get c = s.sp

theorem save_run (sound : layout.Sound)
    (room : layout.Room s.tasks task (s.context.sp.get c) base) (nesting : UInt32)
    (depth : TrapDepth) :
    ∃ ts, SwitchPrimitives.save c task nesting depth s = .ok () { s with tasks := ts } ∧
      layout.Rests ts task (s.context.snapshot c nesting) base ∧
      s.tasks.Touched ts task base layout.words := by
  have length : ((s.context.registers.get c).toList.take layout.words).length = layout.words := by
    simp [sound.small]
  obtain ⟨top, after, pushed, rests, touched⟩ := Layout.push_run sound room length nesting
  refine ⟨after.setTop task top, ?_, rests, touched⟩
  simp [SwitchPrimitives.save, save, Action.bind_run, Storage.onContext, registersOf,
    stackPointer, Storage.onTasks, pushed, Storage.setTop]

/-- Only the core that a task goes on with changes its registers. -/
theorem restore_run {m : Snapshot} (sound : layout.Sound)
    (rests : layout.Rests s.tasks task m base) (c : Fin n) (depth : TrapDepth) :
    ∃ file, SwitchPrimitives.restore c task depth s =
        .ok (m.resumption layout) { s with context := file } ∧
      file.Shows c m ∧ ∀ d, d ≠ c →
        file.registers.get d = s.context.registers.get d ∧
        file.sp.get d = s.context.sp.get d := by
  obtain ⟨popped, ran, sp, nesting, registers⟩ := Layout.pop_run sound rests (.num 0)
  let loaded : Vector Word maxFrameWords :=
    .ofFn fun i => (popped.registers[i.val]?).getD ((s.context.registers.get c).get i)
  refine ⟨{ s.context with
      registers := s.context.registers.put c loaded
      sp := s.context.sp.put c popped.sp }, ?_, ⟨?_, ?_⟩, ?_⟩
  · simp only [SwitchPrimitives.restore, restore, Action.bind_run, Storage.topOf, Storage.onTasks,
      ran, Storage.onContext, registersOf, setRegisters, setStackPointer, c.isLt, dif_pos,
      nesting, loaded, Action.pure_run, registers _ sound.status_ne_nestingSlot]
    rfl
  · intro i bound apart
    have held : i.val < m.registers.length := by rw [rests.length]; exact bound
    have entry : loaded.get i =
        (popped.registers[i.val]?).getD ((s.context.registers.get c).get i) :=
      Vector.getElem_ofFn i.isLt
    rw [Vector.get_put_self, entry, registers i apart, List.getElem?_eq_getElem held]
    rfl
  · rw [Vector.get_put_self]
    exact sp
  · intro d apart
    exact ⟨Vector.get_put_of_ne _ (Ne.symm apart) _, Vector.get_put_of_ne _ (Ne.symm apart) _⟩

end RegisterFile

end Preempt
