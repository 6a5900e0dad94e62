import Preempt.Action
import Preempt.Tasks.Basic

/-!
Runs of words in a task stack, read and written from an address upward. `storeBlock_run` says what
every word of every stack is after a write that stays inside the stacks; `loadBlock_run` says when
a read gives a list of words.
-/

namespace Preempt.Tasks

/-- The `count` words from `address` upward. -/
def loadBlock (address : Word) : Nat → TasksM (List Word)
  | 0 => return []
  | count + 1 => return (← load address) :: (← loadBlock (address.advance 1) count)

def storeBlock (address : Word) : List Word → TasksM Unit
  | [] => return ()
  | value :: rest => do
    store address value
    storeBlock (address.advance 1) rest

theorem load_run {address value : Word} (ts : Tasks) (holds : ts.read? address = some value) :
    load address ts = .ok value ts := by
  simp [load, holds]

theorem store_run {address : Word} (value : Word) (ts : Tasks)
    (inside : (ts.read? address).isSome) :
    store address value ts = .ok () (ts.write address value) := by
  obtain ⟨old, holds⟩ := Option.isSome_iff_exists.mp inside
  simp [store, holds]

theorem loadBlock_run {values : List Word} {task : TaskId} {offset : Int} (ts : Tasks)
    (holds : ∀ k, (h : k < values.length) →
      ts.read? (.stack task (offset + k)) = some values[k]) :
    loadBlock (.stack task offset) values.length ts = .ok values ts := by
  induction values generalizing offset with
  | nil => rfl
  | cons value rest ih =>
    have first := holds 0 (by simp)
    have others := @ih (offset + 1) fun k h => by
      have at' := holds (k + 1) (by simpa using h)
      rw [show offset + (k + 1 : Nat) = offset + 1 + k by omega] at at'
      simpa using at'
    simp only [Int.ofNat_zero, Int.add_zero, List.getElem_cons_zero] at first
    simp only [List.length_cons, loadBlock, Action.bind_run, load_run ts first,
      Word.advance_stack, others]
    rfl

/-- Inside the block a word is the one written there, elsewhere what it was before. -/
theorem storeBlock_run {task : TaskId} {offset : Int} (values : List Word) (ts : Tasks)
    (inside : ∀ k : Nat, k < values.length → (ts.read? (.stack task (offset + k))).isSome) :
    ∃ after, storeBlock (.stack task offset) values ts = .ok () after ∧
      (∀ other, after.top other = ts.top other) ∧
      (∀ other k, (∀ i : Nat, i < values.length → ¬ (other = task ∧ k = offset + i)) →
        after.read? (.stack other k) = ts.read? (.stack other k)) ∧
      ∀ i, (h : i < values.length) →
        after.read? (.stack task (offset + i)) = some values[i] := by
  induction values generalizing offset ts with
  | nil => exact ⟨ts, rfl, fun _ => rfl, fun _ _ _ => rfl, fun i h => by simp at h⟩
  | cons value rest ih =>
    have here : (ts.read? (.stack task offset)).isSome := by simpa using inside 0 (by simp)
    have readAt (other : Word) := read?_write ts (.stack task offset) value other here
    obtain ⟨after, ran, tops, apart, written⟩ :=
      @ih (offset + 1) (ts.write (.stack task offset) value) fun k h => by
        have was := inside (k + 1) (by simpa using h)
        rw [show offset + (k + 1 : Nat) = offset + 1 + k by omega] at was
        rw [readAt]
        split
        · rfl
        · exact was
    refine ⟨after, ?_, ?_, ?_, ?_⟩
    · simpa [storeBlock, Action.bind_run, store_run value ts here] using ran
    · intro other
      rw [tops, top_write]
    · intro other k outside
      rw [apart, readAt, if_neg]
      · intro same
        injection same with sameTask sameOffset
        exact outside 0 (by simp) ⟨sameTask, by simpa using sameOffset⟩
      · intro i h both
        exact outside (i + 1) (by simpa using h)
          ⟨both.1, by rw [both.2, show offset + (i + 1 : Nat) = offset + 1 + i by omega]⟩
    · intro i h
      cases i with
      | zero =>
        rw [apart, readAt, if_pos]
        · rfl
        · simp
        · intro i _ both
          have off := both.2
          omega
      | succ i =>
        have placed := written i (by simpa using h)
        rw [show offset + 1 + (i : Int) = offset + (i + 1 : Nat) by omega] at placed
        simpa using placed

/-- A block that is there already is written without a change. -/
theorem storeBlock_self {values : List Word} {task : TaskId} {offset : Int} {ts : Tasks}
    (holds : ∀ i : Nat, i < values.length → ts.read? (.stack task (offset + i)) = values[i]?) :
    storeBlock (.stack task offset) values ts = .ok () ts := by
  induction values generalizing offset with
  | nil => rfl
  | cons value rest ih =>
    have first : ts.read? (.stack task offset) = some value := by simpa using holds 0 (by simp)
    have onward := @ih (offset + 1) fun i bound => by
      have next := holds (i + 1) (by simpa using bound)
      rw [show offset + (i + 1 : Nat) = offset + 1 + i by omega] at next
      simpa using next
    simp only [storeBlock, Action.bind_run, store, first, write_self first, Word.advance_stack]
    exact onward

end Preempt.Tasks
