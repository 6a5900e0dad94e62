import Preempt.Fault

/-!
The queue of deleted tasks whose segments cannot be given back yet, because the task still runs on
some core. It has a fixed number of slots. A task is parked at most once, in the first free slot.
Parking adds that task and no other (`perm_parked_of_park`); it is refused if the task is parked
already, and otherwise only if no slot is free (`park_known`, `park_full`, `park_room`).
-/

namespace Preempt

structure DeletionQueue where
  slots : List (Option TaskId)

namespace DeletionQueue

def ofCapacity (capacity : Nat) : DeletionQueue := ⟨List.replicate capacity none⟩

def capacity (q : DeletionQueue) : Nat := q.slots.length

/-- The parked tasks in slot order. -/
def parked (q : DeletionQueue) : List TaskId := q.slots.filterMap id

def count (q : DeletionQueue) : Nat := q.slots.countP Option.isSome

/-- Put a task into the first free slot. -/
def fillFirst (task : TaskId) : List (Option TaskId) → Option (List (Option TaskId))
  | [] => none
  | none :: rest => some (some task :: rest)
  | some other :: rest => (fillFirst task rest).map (some other :: ·)

/-- Park a task. One that is parked already is refused first, so that its chain goes back at most
once. -/
def park (q : DeletionQueue) (task : TaskId) : Except Refusal DeletionQueue :=
  if some task ∈ q.slots then .error .alreadyParked
  else
    match fillFirst task q.slots with
    | some slots => .ok ⟨slots⟩
    | none => .error .queueFull

def empty (q : DeletionQueue) (slot : Nat) : DeletionQueue := ⟨q.slots.set slot none⟩

theorem count_eq_length_parked (q : DeletionQueue) : q.count = q.parked.length := by
  rcases q with ⟨slots⟩
  simp only [count, parked]
  induction slots with
  | nil => rfl
  | cons slot rest ih => cases slot <;> simp [ih]

theorem count_le_capacity (q : DeletionQueue) : q.count ≤ q.capacity :=
  List.countP_le_length

theorem mem_parked_iff (q : DeletionQueue) (task : TaskId) :
    task ∈ q.parked ↔ some task ∈ q.slots := by
  simp [parked]

theorem fillFirst_eq_none_iff (task : TaskId) (slots : List (Option TaskId)) :
    fillFirst task slots = none ↔ none ∉ slots := by
  induction slots with
  | nil => simp [fillFirst]
  | cons slot rest ih => cases slot <;> simp [fillFirst, ih]

theorem length_fillFirst {task : TaskId} {slots filled : List (Option TaskId)}
    (h : fillFirst task slots = some filled) : filled.length = slots.length := by
  induction slots generalizing filled with
  | nil => simp [fillFirst] at h
  | cons slot rest ih =>
    cases slot with
    | none => simp only [fillFirst, Option.some.injEq] at h; subst h; rfl
    | some other =>
      simp only [fillFirst, Option.map_eq_some_iff] at h
      obtain ⟨inner, hinner, rfl⟩ := h
      simp [ih hinner]

theorem perm_fillFirst {task : TaskId} {slots filled : List (Option TaskId)}
    (h : fillFirst task slots = some filled) :
    (filled.filterMap id).Perm (task :: slots.filterMap id) := by
  induction slots generalizing filled with
  | nil => simp [fillFirst] at h
  | cons slot rest ih =>
    cases slot with
    | none =>
      simp only [fillFirst, Option.some.injEq] at h
      subst h
      simp
    | some other =>
      simp only [fillFirst, Option.map_eq_some_iff] at h
      obtain ⟨inner, found, rfl⟩ := h
      exact ((ih found).cons other).trans (List.Perm.swap task other _)

variable {q after : DeletionQueue} {task : TaskId}

theorem count_eq_capacity_iff (q : DeletionQueue) : q.count = q.capacity ↔ none ∉ q.slots := by
  rw [count, capacity, List.countP_eq_length]
  refine ⟨fun all gap => by simpa using all none gap, fun full slot inside => ?_⟩
  cases slot with
  | none => exact absurd inside full
  | some other => rfl

theorem park_known (known : task ∈ q.parked) : q.park task = .error .alreadyParked := by
  rw [park, if_pos ((mem_parked_iff q task).mp known)]

theorem park_full (new : task ∉ q.parked) (full : q.count = q.capacity) :
    q.park task = .error .queueFull := by
  rw [mem_parked_iff] at new
  rw [park, if_neg new, (fillFirst_eq_none_iff task _).mpr ((count_eq_capacity_iff q).mp full)]

theorem park_room (new : task ∉ q.parked) (room : q.count < q.capacity) :
    ∃ after, q.park task = .ok after := by
  rw [mem_parked_iff] at new
  have gap : none ∈ q.slots :=
    Decidable.not_not.mp fun full => Nat.ne_of_lt room ((count_eq_capacity_iff q).mpr full)
  cases filled : fillFirst task q.slots with
  | none => exact absurd gap ((fillFirst_eq_none_iff task _).mp filled)
  | some slots => exact ⟨⟨slots⟩, by rw [park, if_neg new, filled]⟩

/-- What a task that is parked takes: one slot that was free. -/
theorem fillFirst_of_park (accepted : q.park task = .ok after) :
    task ∉ q.parked ∧ fillFirst task q.slots = some after.slots := by
  unfold park at accepted
  split at accepted
  · cases accepted
  · rename_i outside
    split at accepted
    · rename_i slots filled
      cases accepted
      exact ⟨by rwa [mem_parked_iff], filled⟩
    · cases accepted

theorem perm_parked_of_park (accepted : q.park task = .ok after) :
    after.parked.Perm (task :: q.parked) :=
  perm_fillFirst (fillFirst_of_park accepted).2

theorem capacity_of_park (accepted : q.park task = .ok after) : after.capacity = q.capacity :=
  length_fillFirst (fillFirst_of_park accepted).2

theorem mem_parked_of_park (accepted : q.park task = .ok after) (other : TaskId) :
    other ∈ after.parked ↔ other = task ∨ other ∈ q.parked := by
  rw [(perm_parked_of_park accepted).mem_iff, List.mem_cons]

/-- A task is parked in one slot only. -/
theorem nodup_park (accepted : q.park task = .ok after) (once : q.parked.Nodup) :
    after.parked.Nodup :=
  (perm_parked_of_park accepted).nodup_iff.mpr
    (List.nodup_cons.mpr ⟨(fillFirst_of_park accepted).1, once⟩)

end DeletionQueue

end Preempt
