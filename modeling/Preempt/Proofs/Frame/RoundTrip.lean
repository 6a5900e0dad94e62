import Mathlib.Algebra.Group.Nat.Defs
import Preempt.Proofs.Frame.Saving

/-!
Pushing and popping frames undo each other, on any layout with a nesting slot and in either
direction of growth. A push writes the words between the stack pointer and the new top and no
others, and a pop gets the registers and the nesting back from them. Conversely, a frame that is
popped and pushed again where it was leaves every word as it is, as long as its nesting word is one
that a push could have written (`push_pop_inverse`).
-/

namespace Preempt

namespace Word

/-- A place between two others in a stack. The lower of the two counts, the higher does not. -/
def Between : Word → Word → Word → Prop
  | .stack task a, .stack task' b, .stack owner k =>
    owner = task ∧ owner = task' ∧ min a b ≤ k ∧ k < max a b
  | _, _, _ => False

theorem between_iff {task : TaskId} {a b : Int} {address : Word} :
    Between (.stack task a) (.stack task b) address ↔
      ∃ offset : Int, address = .stack task offset ∧ min a b ≤ offset ∧ offset < max a b := by
  cases address with
  | num value => simp [Between]
  | exitTrap => simp [Between]
  | stack owner offset =>
    simp only [Between, stack.injEq]
    constructor
    · rintro ⟨rfl, -, within⟩
      exact ⟨offset, ⟨rfl, rfl⟩, within⟩
    · rintro ⟨_, ⟨rfl, rfl⟩, within⟩
      exact ⟨rfl, rfl, within⟩

theorem ofUInt32_toUInt32 {value : UInt64} (small : value.toNat < 2 ^ 32) :
    ofUInt32 value.toUInt32 = .num value := by
  rw [ofUInt32, num.injEq, ← UInt64.toNat_inj]
  simpa using Nat.mod_eq_of_lt small

end Word

namespace Tasks

theorem exists_block {ts : Tasks} {task : TaskId} {base count : Nat}
    (inside : base + count ≤ ts.stackSize task) :
    ∃ values : List Word, values.length = count ∧
      ∀ i : Nat, i < count → ts.read? (.stack task (base + i)) = values[i]? := by
  refine ⟨List.ofFn fun i : Fin count => (ts.read? (.stack task (base + i))).getD .null, by simp,
    fun i bound => ?_⟩
  have held : (ts.read? (.stack task (base + i))).isSome := by
    rw [← Int.natCast_add, isSome_read?_iff]
    omega
  obtain ⟨value, found⟩ := Option.isSome_iff_exists.mp held
  simp [bound, found]

end Tasks

namespace Layout

variable {layout : Layout} {ts after : Tasks} {task : TaskId} {sp top : Word} {base : Nat}

/-- The end of a frame opposite to the stack pointer that it is pushed at. -/
def across (layout : Layout) (sp : Word) : Word :=
  match layout.growth with
  | .descending => sp.advance (-layout.words)
  | .ascending => sp.advance layout.words

theorem Room.topOf_eq (room : layout.Room ts task sp base) :
    layout.topOf (.stack task base) = layout.across sp := by
  rw [← room.bottom]
  cases growth : layout.growth <;> simp only [topOf, pushBase, across, growth]

/-- The frame pushed at a stack pointer is all that lies between the pointer and the new top. -/
theorem Room.between_iff (room : layout.Room ts task sp base) (address : Word) :
    Word.Between sp (layout.across sp) address ↔
      ∃ offset : Int, address = .stack task offset ∧
        base ≤ offset ∧ offset < base + layout.words := by
  have pointer := room.pointer
  subst pointer
  cases growth : layout.growth with
  | descending =>
    simp only [poppedPointer, across, growth, Word.advance_stack, Word.between_iff]
    refine exists_congr fun offset => and_congr_right fun _ => ?_
    omega
  | ascending =>
    simp only [poppedPointer, across, growth, Word.advance_stack, Word.between_iff]
    refine exists_congr fun offset => and_congr_right fun _ => ?_
    omega

theorem Room.read?_eq (room : layout.Room ts task sp base)
    (touched : ts.Touched after task base layout.words) {address : Word}
    (outside : ¬Word.Between sp (layout.across sp) address) :
    after.read? address = ts.read? address := by
  rw [room.between_iff] at outside
  cases address with
  | num value => rfl
  | exitTrap => rfl
  | stack owner offset =>
    by_cases mine : owner = task
    · subst mine
      exact touched.words offset fun within => outside ⟨offset, rfl, within⟩
    · exact Tasks.read?_congr (touched.others owner mine) offset

/-- A whole frame lies in a stack, and `top` is the saved top that leads to it. -/
structure Complete (layout : Layout) (ts : Tasks) (task : TaskId) (top : Word) (base : Nat) :
    Prop where
  inside : base + layout.words ≤ ts.stackSize task
  bottom : layout.lowEnd top = .stack task base

theorem Complete.topOf_eq (complete : layout.Complete ts task top base) :
    layout.topOf (.stack task base) = top := by
  have bottom := complete.bottom
  cases growth : layout.growth with
  | descending =>
    simp only [lowEnd, growth] at bottom
    simp only [topOf, growth, bottom]
  | ascending =>
    simp only [lowEnd, growth] at bottom
    cases top with
    | stack owner offset =>
      simp only [topOf, growth, ← bottom, Word.advance_stack, Int.neg_add_cancel_right]
    | num value => simp [Word.advance] at bottom
    | exitTrap => simp [Word.advance] at bottom

/-- There is room for a frame where one is popped. -/
theorem Complete.room (complete : layout.Complete ts task top base) :
    layout.Room ts task (layout.poppedPointer (.stack task base)) base :=
  ⟨complete.inside, pushBase_poppedPointer layout task base⟩

/-- A push of the frame that is there already changes nothing. -/
theorem push_run_self {registers : List Word} {nesting : UInt32}
    (room : layout.Room ts task sp base) (enough : layout.words ≤ registers.length)
    (holds : ∀ i : Nat, i < layout.words → ts.read? (.stack task (base + i)) =
      ((registers.take layout.words).set layout.nestingSlot (.ofUInt32 nesting))[i]?) :
    layout.push sp registers nesting ts = .ok (layout.topOf (.stack task base)) ts := by
  have written := Tasks.storeBlock_self fun i bound => holds i (by simpa [enough] using bound)
  simp only [push, image_take enough, room.bottom, Action.bind_run, written, Action.pure_run]

/-- Popping what was pushed gives the stack pointer, the registers and the nesting back, and only
the words of the frame are written. Pushing what was popped writes the words that are there. -/
theorem push_pop_inverse (nests : .role .criticalNesting ∈ layout.slots) (ts : Tasks)
    (task : TaskId) (base : Nat) (into : List Word) (large : layout.words ≤ into.length) :
    (∀ (sp : Word) (registers : List Word) (nesting : UInt32), layout.Room ts task sp base →
      layout.words ≤ registers.length → ∃ after popped,
        layout.push sp registers nesting ts = .ok (layout.across sp) after ∧
        layout.pop (layout.across sp) into after = .ok popped after ∧
        popped.sp = sp ∧ popped.nesting = nesting ∧
        (∀ i : Nat, popped.registers[i]? =
          if i < layout.words ∧ i ≠ layout.nestingSlot then registers[i]? else into[i]?) ∧
        layout.frame (layout.across sp) after = .ok
          ((registers.take layout.words).set layout.nestingSlot (.ofUInt32 nesting)) after ∧
        (∀ address, ¬Word.Between sp (layout.across sp) address →
          after.read? address = ts.read? address) ∧
        ∀ other, after.top other = ts.top other) ∧
    ∀ (top : Word) (value : UInt64), layout.Complete ts task top base →
      ts.read? (.stack task (base + layout.nestingSlot)) = some (.num value) →
      value.toNat < 2 ^ 32 → ∃ popped,
        layout.pop top into ts = .ok popped ts ∧
        layout.push popped.sp popped.registers popped.nesting ts = .ok top ts := by
  have slot : layout.nestingSlot < layout.words := (Slot.position_lt_iff layout.slots _).mpr nests
  constructor
  · intro sp registers nesting room enough
    obtain ⟨after, pushed, written, touched, tops⟩ := push_run_words room enough nesting
    have size : ((registers.take layout.words).set layout.nestingSlot
        (.ofUInt32 nesting)).length = layout.words := by simp [enough]
    have framed := frame_run size written
    obtain ⟨popped, ran, pointer, counted, _, loaded⟩ := pop_run_words size written large
    rw [room.topOf_eq] at pushed ran framed
    refine ⟨after, popped, pushed, ran, pointer.trans room.pointer, ?_, fun i => ?_, framed,
      fun address => room.read?_eq touched, tops⟩
    · have held : layout.nestingSlot < (registers.take layout.words).length := by
        rw [List.length_take]
        omega
      simp [counted, List.getElem?_set_self held]
    · rw [loaded]
      split
      · rename_i inside
        rw [List.getElem?_set_ne (Ne.symm inside.2), List.getElem?_take_of_lt inside.1]
      · rfl
  · intro top value complete nesting small
    obtain ⟨values, size, holds⟩ := Tasks.exists_block complete.inside
    obtain ⟨popped, ran, pointer, counted, length, loaded⟩ := pop_run_words size holds large
    rw [complete.topOf_eq] at ran
    refine ⟨popped, ran, ?_⟩
    rw [holds _ slot] at nesting
    have room : layout.Room ts task popped.sp base := by
      rw [pointer]
      exact complete.room
    rw [← complete.topOf_eq]
    refine push_run_self room (by rw [length]; exact large) fun i bound => ?_
    rw [holds i bound]
    by_cases here : i = layout.nestingSlot
    · have held : i < (popped.registers.take layout.words).length := by
        rw [List.length_take]
        omega
      rw [← here] at nesting counted
      rw [← here, List.getElem?_set_self held, nesting, counted, nesting]
      exact congrArg some (Word.ofUInt32_toUInt32 small).symm
    · rw [List.getElem?_set_ne (Ne.symm here), List.getElem?_take_of_lt bound, loaded,
        if_pos ⟨bound, here⟩]

/-- A frame of 70 words on a stack of 72 that grows upward, with the nesting word at its far end. -/
theorem push_pop_inverse_c29x : ∃ (ts after : Tasks) (popped unchanged : Popped),
    ts = .ofSizes #[72] ∧
    C29x.layout.push (.stack 0 1) (List.replicate 71 (.num 7)) 3 ts = .ok (.stack 0 71) after ∧
    C29x.layout.pop (.stack 0 71) (List.replicate 70 (.num 9)) after = .ok popped after ∧
    popped.sp = .stack 0 1 ∧ popped.nesting = 3 ∧ popped.registers[68]? = some (.num 7) ∧
    popped.registers[69]? = some (.num 9) ∧
    C29x.layout.pop (.stack 0 71) (List.replicate 70 (.num 9)) ts = .ok unchanged ts ∧
    C29x.layout.push unchanged.sp unchanged.registers unchanged.nesting ts =
      .ok (.stack 0 71) ts := by
  have words : C29x.layout.words = 70 := by decide
  have slot : C29x.layout.nestingSlot = 69 := by decide
  have size : (Tasks.ofSizes #[72]).stackSize 0 = 72 := by with_unfolding_all rfl
  have zero : (Tasks.ofSizes #[72]).read? (.stack 0 70) = some (.num 0) := by
    with_unfolding_all rfl
  have nests : .role .criticalNesting ∈ C29x.layout.slots := by decide
  obtain ⟨forth, back⟩ :=
    push_pop_inverse nests (.ofSizes #[72]) 0 1 (List.replicate 70 (.num 9)) (by decide)
  obtain ⟨after, popped, pushed, ran, sp, nesting, registers, _⟩ :=
    forth (.stack 0 1) (List.replicate 71 (.num 7)) 3 ⟨by rw [words, size]; decide, rfl⟩ (by decide)
  obtain ⟨unchanged, ran', pushed'⟩ :=
    back (.stack 0 71) 0 ⟨by rw [words, size]; decide, by decide⟩ (by rw [slot]; exact zero)
      (by decide)
  rw [words, slot] at registers
  exact ⟨_, after, popped, unchanged, rfl, pushed, ran, sp, nesting, registers 68, registers 69,
    ran', pushed'⟩

end Layout

end Preempt
