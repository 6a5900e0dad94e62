import Preempt.Proofs.Contexts
import Preempt.Proofs.Frame.Calls

/-!
Frames on stacks as contexts of runs. The book has a snapshot of each suspended task, and the task
rests as it was noted; it is resumed with the nesting of the snapshot and the interrupt enable of
its status word.
-/

namespace Preempt

open Preempt.Action
open Function (update)

variable {layout : Layout} {n : Nat}

namespace Layout

/-- The status word of a frame is a slot of its own, and a new task has interrupts enabled. -/
structure Reports (layout : Layout) : Prop extends layout.Sound where
  status : .role .status ∈ layout.slots
  starts : layout.enabledIn layout.initialStatus = true

theorem reports_of_builtIn (known : layout ∈ builtIn) : layout.Reports := by
  refine ⟨sound_of_builtIn known, ?_, ?_⟩ <;>
  · simp only [builtIn, List.mem_cons, List.not_mem_nil, or_false] at known
    rcases known with rfl | rfl | rfl | rfl <;> decide

theorem Reports.resumption_initial (reports : layout.Reports) (ts : Tasks) (task : TaskId)
    (entry argument : Word) :
    (layout.initialSnapshot ts task entry argument).resumption layout = ⟨0, true⟩ := by
  have slot := slot_position reports.status
  simp [Snapshot.resumption, initialSnapshot, initialImage, slot, initialValue, reports.starts]

end Layout

namespace Snapshot

/-- The snapshots of the suspended tasks. -/
abbrev Book := TaskId → Option Snapshot

def Book.resumption (layout : Layout) (book : Book) (task : TaskId) : Option Resumption :=
  (book task).map (·.resumption layout)

theorem Book.resumption_update (layout : Layout) (book : Book) (task : TaskId)
    (s : Option Snapshot) : Book.resumption layout (update book task s) =
      update (book.resumption layout) task (s.map (·.resumption layout)) := by
  funext other
  simp only [resumption, Function.update_apply]
  split <;> rfl

/-- All tasks that are noted rest. -/
def Book.Rests (layout : Layout) (ts : Tasks) (book : Book) : Prop :=
  ∀ task m, book task = some m → ∃ base, layout.Rests ts task m base

theorem Book.Rests.touched {ts ts' : Tasks} {book : Book} {task : TaskId} {base count : Nat}
    {m : Snapshot} (rests : book.Rests layout ts) (touched : ts.Touched ts' task base count)
    (rested : layout.Rests ts' task m base) :
    Book.Rests layout ts' (update book task (some m)) := by
  intro other s noted
  rw [Function.update_apply] at noted
  split at noted
  · rename_i same
    cases noted
    exact ⟨base, same ▸ rested⟩
  · rename_i apart
    obtain ⟨base', rested'⟩ := rests other s noted
    exact ⟨base', rested'.congr (touched.others other apart)⟩

theorem Book.Rests.forget {ts : Tasks} {book : Book} (rests : book.Rests layout ts)
    (task : TaskId) : Book.Rests layout ts (update book task none) := by
  intro other s noted
  rw [Function.update_apply] at noted
  split at noted
  · cases noted
  · exact rests other s noted

end Snapshot

open Snapshot (Book)

/-- The contexts of a layout. The task of a core may be suspended where there is room for its frame
in its own stack; work is done outside the stacks of the suspended tasks. -/
def RegisterFile.contexts (builtIn : layout ∈ Layout.builtIn) :
    Contexts (RegisterFile layout n) n where
  Book := Book
  blank _ := none
  Fresh _ := True
  suspended := Book.resumption layout
  Holds s book := book.Rests layout s.tasks
  Works s book s' book' := book' = book ∧
    ∀ task m, book task = some m → s'.tasks.list[task]? = s.tasks.list[task]?
  Creates k book task answer k' book' := ∃ entry argument,
    Kernel.createLinear task entry argument k = .ok answer k' ∧
    book' = match answer with
      | .ok () => update book task
          (some (layout.initialSnapshot k.storage.tasks task entry argument))
      | .error _ => book
  Frees _ _ _ _ _ := False
  Suspends s book c task _ r book' :=
    (∃ base, layout.Room s.tasks task (s.context.sp.get c) base) ∧
    r = (s.context.snapshot c r.nesting).resumption layout ∧
    book' = update book task (some (s.context.snapshot c r.nesting))
  resume book _ task := update book task none
  enter book _ task := update book task none
  suspended_blank _ := rfl
  suspended_suspends := by
    rintro s book c task _ r book' ⟨_, same, rfl⟩
    rw [Book.resumption_update, Option.map_some, ← same]
  suspended_resume book _ task := Book.resumption_update layout book task none
  suspended_enter book _ task := Book.resumption_update layout book task none
  boots _ _ _ noted := by cases noted
  pends := by
    intro s book s' core rests pended
    simp only [SwitchPrimitives.pend, Storage.onContext, pend] at pended
    split at pended <;> cases pended
    exact rests
  works := by
    rintro s book s' _ rests ⟨rfl, same⟩
    refine ⟨fun task m noted => ?_, rfl⟩
    obtain ⟨base, rested⟩ := rests task m noted
    exact ⟨base, rested.congr (same task m noted)⟩
  creates := by
    rintro k book task answer k' book' rests ⟨entry, argument, ran, rfl⟩
    have reports := Layout.reports_of_builtIn builtIn
    by_cases large : layout.words + 1 ≤ k.storage.tasks.stackSize task
    · obtain ⟨base, trace, ts, created, rested, touched⟩ :=
        Kernel.createLinear_run entry argument reports.toSound large
      rw [created] at ran
      cases ran
      refine ⟨⟨rfl, rfl, rfl, rfl, rfl⟩, rests.touched touched rested, ?_⟩
      rw [Book.resumption_update, Option.map_some, reports.resumption_initial]
    · rw [Kernel.createLinear_run_refused entry argument (Nat.lt_of_not_le large)] at ran
      cases ran
      exact ⟨⟨rfl, rfl, rfl, rfl, rfl⟩, rests, rfl⟩
  frees _ never := never.elim
  handsOver := by
    rintro s book c task depth r _ incoming new rests _ ⟨⟨base, room⟩, _, rfl⟩ chosen
    have sound := Layout.sound_of_builtIn builtIn
    obtain ⟨ts, saved, parked, touched⟩ := save_run sound room r.nesting depth
    have parking := rests.touched touched parked
    obtain ⟨m, noted, rfl⟩ := Option.map_eq_some_iff.mp chosen
    obtain ⟨base', rested⟩ := parking incoming m noted
    obtain ⟨file, restored, _⟩ := restore_run (s := { s with tasks := ts }) sound rested c depth
    exact ⟨_, _, saved, restored, parking.forget incoming⟩
  enters := by
    intro s book task new c rests left
    obtain ⟨m, noted, rfl⟩ := Option.map_eq_some_iff.mp left
    obtain ⟨base, rested⟩ := rests task m noted
    obtain ⟨file, restored, _⟩ := restore_run (Layout.sound_of_builtIn builtIn) rested c 0
    exact ⟨_, restored, rests.forget task⟩

end Preempt
