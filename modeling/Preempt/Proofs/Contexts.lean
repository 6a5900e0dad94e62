import Mathlib.Logic.Function.Basic
import Preempt.Proofs.Undisturbed

/-!
Runs of the kernel layer over any register state. `Contexts` is what a run has to know of it: how a
book is kept of the suspended tasks, when a task may be suspended, and that a suspended task is
resumed with what the book says. The kernel, in turn, keeps every task of a queue in one place, and
resumes only tasks that are suspended (`Contexts.Held`).
-/

namespace Preempt

open Preempt.Action
open Function (update)

/-- No core but `c` runs the task. -/
def Kernel.Free {κ : Type} {n : Nat} (k : Kernel κ n) (c : Fin n) (task : TaskId) : Prop :=
  ∀ d, k.Runs d task → d = c

/-- What is done besides the calls leaves all cores alone, and their masks. -/
structure Kernel.Aside {κ : Type} {n : Nat} (k k' : Kernel κ n) : Prop where
  cores : k'.board.cores = k.board.cores
  identity : k'.board.machine.identity = k.board.machine.identity
  enabled : k'.board.machine.enabled = k.board.machine.enabled
  queues : k'.scheduler.queues = k.scheduler.queues
  reenters : k'.scheduler.reenters = k.scheduler.reenters

/-- Register state of kind `κ`, with the book that is kept of the suspended tasks. -/
structure Contexts (κ : Type) (n : Nat) [SwitchPrimitives κ] where
  Book : Type
  blank : Book
  /-- Register state out of reset. -/
  Fresh : κ → Prop
  /-- What a suspended task is resumed with. -/
  suspended : Book → TaskId → Option Resumption
  Holds : Storage κ → Book → Prop
  /-- Tasks compute, and the hardware takes and leaves traps and calls. -/
  Works : Storage κ → Book → Storage κ → Book → Prop
  /-- A task is set up, or that is refused. -/
  Creates : Kernel κ n → Book → TaskId → Except Refusal Unit → Kernel κ n → Book → Prop
  /-- The context of a suspended task is given up. -/
  Frees : Kernel κ n → Book → TaskId → Kernel κ n → Book → Prop
  /-- The task that a core runs may be suspended at a depth, to be resumed with `r`. -/
  Suspends : Storage κ → Book → Fin n → TaskId → TrapDepth → (r : Resumption) → Book → Prop
  /-- A task goes on on a core that has suspended one. -/
  resume : Book → Fin n → TaskId → Book
  /-- A task goes on on a core that ran none. -/
  enter : Book → Fin n → TaskId → Book
  suspended_blank : ∀ task, suspended blank task = none
  suspended_suspends : ∀ {s b c task depth r b'}, Suspends s b c task depth r b' →
    suspended b' = update (suspended b) task (some r)
  suspended_resume : ∀ b c task, suspended (resume b c task) = update (suspended b) task none
  suspended_enter : ∀ b c task, suspended (enter b c task) = update (suspended b) task none
  boots : ∀ {context : κ} {sizes}, Fresh context → Holds { context, tasks := .ofSizes sizes } blank
  pends : ∀ {s b s'} {core : CoreId}, Holds s b → SwitchPrimitives.pend core s = .ok () s' →
    Holds s' b
  works : ∀ {s b s' b'}, Holds s b → Works s b s' b' → Holds s' b' ∧ suspended b' = suspended b
  creates : ∀ {k b task answer k' b'}, Holds k.storage b → Creates k b task answer k' b' →
    k.Aside k' ∧ Holds k'.storage b' ∧ suspended b' = match answer with
      | .ok () => update (suspended b) task (some ⟨0, true⟩)
      | .error _ => suspended b
  frees : ∀ {k b task k' b'}, Holds k.storage b → Frees k b task k' b' →
    k.Aside k' ∧ Holds k'.storage b' ∧ suspended b' = update (suspended b) task none
  /-- One task is saved and a suspended one restored, which may be the same. -/
  handsOver : ∀ {s b c task depth r b' incoming new}, Holds s b → suspended b task = none →
    Suspends s b c task depth r b' → suspended b' incoming = some new →
    ∃ s₁ s₂, SwitchPrimitives.save c task r.nesting depth s = .ok () s₁ ∧
      SwitchPrimitives.restore c incoming depth s₁ = .ok new s₂ ∧ Holds s₂ (resume b' c incoming)
  enters : ∀ {s b task new} (c : Fin n), Holds s b → suspended b task = some new →
    ∃ s', SwitchPrimitives.restore c task 0 s = .ok new s' ∧ Holds s' (enter b c task)

namespace Contexts

variable {κ : Type} {n : Nat} [SwitchPrimitives κ] {C : Contexts κ n} {k k' : Kernel κ n}
  {b b' : C.Book} {call : PortCall} {answer : Option Resumption}

/-- How a call changes the book, and what the executing core's task is saved to be resumed with, if
it is suspended. A core goes on with a task only if no other core runs it. -/
inductive Follows (C : Contexts κ n) (k : Kernel κ n) (b : C.Book) (call : PortCall) :
    Option Resumption → C.Book → Prop
  | rests (noSwitch : ∀ depth, ¬call.Switches k depth) (noEntry : ¬call.Enters k) :
      Follows C k b call none b
  | enters {c : Fin n} (mine : k.board.machine.executing = c) (entry : call.Enters k)
      (free : k.Free c (k.scheduler.current c)) :
      Follows C k b call none (C.enter b c (k.scheduler.current c))
  | switches {c : Fin n} {depth : TrapDepth} {r : Resumption} {b' : C.Book}
      (mine : k.board.machine.executing = c) (switches : call.Switches k depth)
      (nesting : r.nesting = (k.board.cores.get c).nesting)
      (suspends : C.Suspends k.storage b c (k.scheduler.current c) depth r b')
      (free : k.Free c (k.incoming c)) :
      Follows C k b call (some r) (C.resume b' c (k.incoming c))

/-- The scheduler is started once, when all tasks of all queues are set up. -/
def MayStart (C : Contexts κ n) (k : Kernel κ n) (b : C.Book) : Prop :=
  ∀ c, (k.board.cores.get c).state = .notStarted ∧
    ∀ task ∈ (k.scheduler.queues.get c).tasks, C.suspended b task ≠ none

/-- The kernel holds the contexts of the book. The tasks of the cores that were started or told to
enter their first task all have their contexts. -/
structure Held (C : Contexts κ n) (k : Kernel κ n) (b : C.Book) : Prop
    extends k.Sole (C.suspended b) where
  holds : C.Holds k.storage b
  known : k.board.machine.identity = none
  plain : k.scheduler.reenters = false
  waiting : ∀ c, (k.board.cores.get c).pending = .firstTask →
    (k.board.cores.get c).state = .notStarted
  ready : ∀ c, (k.board.cores.get c).state = .running ∨
    (k.board.cores.get c).pending = .firstTask →
    ∀ task ∈ (k.scheduler.queues.get c).tasks, k.Has (C.suspended b) task

theorem pended (C : Contexts κ n) {b : C.Book} {s s' : Storage κ} (holds : C.Holds s b)
    (pended : Kernel.Pended s s') : C.Holds s' b := by
  induction pended with
  | refl => exact holds
  | tail _ last ih =>
    obtain ⟨core, last⟩ := last
    exact C.pends ih last

namespace Held

theorem boot {core : Fin n} {boot : Kernel.Boot n} {context : κ} (fresh : C.Fresh context)
    (booted : Kernel.boot core boot context = .ok k) : C.Held k C.blank := by
  obtain ⟨rate, scheduler, made, rfl⟩ := Kernel.eq_of_boot booted
  refine ⟨⟨fun c => ?_, fun {c task} _ => C.suspended_blank task, fun {c d task} runs => ?_⟩,
    C.boots fresh, rfl, ?_, fun c waits => ?_, fun c begun => ?_⟩
  · simp
  · have started := runs.1
    simp at started
  · unfold RoundRobin.make at made
    split at made
    · cases made
      rfl
    · cases made
  · simp at waits
  · simp at begun

/-- Engines and orders stay as they are, and so do the contexts of the queues. -/
theorem calm (held : C.Held k b) (calm : k.Calm k')
    (identity : k'.board.machine.identity = k.board.machine.identity)
    (reenters : k'.scheduler.reenters = k.scheduler.reenters)
    (waits : ∀ c, (k'.board.cores.get c).pending = .firstTask ↔
      (k.board.cores.get c).pending = .firstTask)
    (holds : C.Holds k'.storage b')
    (own : ∀ {c task}, k.Runs c task → C.suspended b' task = none)
    (has : ∀ c, ∀ task ∈ (k.scheduler.queues.get c).tasks, k.Has (C.suspended b) task →
      k.Has (C.suspended b') task) : C.Held k' b' := by
  refine ⟨held.toSole.calm calm own, holds, identity.trans held.known, reenters.trans held.plain,
    fun c waits' => ?_, fun c begun task owned => ?_⟩
  · rw [calm.states]
    exact held.waiting c ((waits c).mp waits')
  · rw [calm.queues] at owned
    rw [calm.states, waits] at begun
    exact (calm.has_iff _ task).mpr (has c task owned (held.ready c begun task owned))

theorem stays (held : C.Held k b) (stays : k.Stays k') : C.Held k' b := by
  have calm : k.Calm k' := ⟨stays.queues, fun c => (stays.board.cores c).state⟩
  exact held.calm calm stays.board.identity stays.reenters (fun c => (stays.board.cores c).waits)
    (C.pended held.holds stays.storage) held.own fun _ _ _ => id

theorem aside (held : C.Held k b) (aside : k.Aside k') (holds : C.Holds k'.storage b')
    (own : ∀ {c task}, k.Runs c task → C.suspended b' task = none)
    (has : ∀ c, ∀ task ∈ (k.scheduler.queues.get c).tasks, k.Has (C.suspended b) task →
      k.Has (C.suspended b') task) : C.Held k' b' := by
  have calm : k.Calm k' := ⟨aside.queues, fun c => by rw [aside.cores]⟩
  exact held.calm calm aside.identity aside.reenters (fun c => by rw [aside.cores]) holds own has

theorem works (held : C.Held k b) (aside : k.Aside k')
    (works : C.Works k.storage b k'.storage b') : C.Held k' b' := by
  obtain ⟨holds, same⟩ := C.works held.holds works
  refine held.aside aside holds (fun runs => ?_) fun _ _ _ has => ?_
  · rw [same]
    exact held.own runs
  · rw [same]
    exact has

theorem creates {task : TaskId} {made : Except Refusal Unit} (held : C.Held k b)
    (idle : ∀ c, ¬k.Runs c task) (creates : C.Creates k b task made k' b') : C.Held k' b' := by
  obtain ⟨aside, holds, now⟩ := C.creates held.holds creates
  cases made with
  | error refusal =>
    simp only at now
    refine held.aside aside holds (fun runs => ?_) fun _ _ _ has => ?_
    · rw [now]
      exact held.own runs
    · rw [now]
      exact has
  | ok u =>
    simp only at now
    refine held.aside aside holds (fun {c other} runs => ?_) fun _ other _ has => ?_
    · have apart : other ≠ task := by
        rintro rfl
        exact idle c runs
      rw [now, Function.update_of_ne apart]
      exact held.own runs
    · rw [now]
      by_cases mine : other = task
      · subst mine
        exact Or.inl (by simp)
      · rwa [Kernel.Has, Function.update_of_ne mine]

theorem frees {task : TaskId} (held : C.Held k b)
    (outside : ∀ c, task ∉ (k.scheduler.queues.get c).tasks) (frees : C.Frees k b task k' b') :
    C.Held k' b' := by
  obtain ⟨aside, holds, now⟩ := C.frees held.holds frees
  refine held.aside aside holds (fun {c other} runs => ?_) fun c other owned has => ?_
  · rw [now, Function.update_apply]
    split
    · rfl
    · exact held.own runs
  · have apart : other ≠ task := by
      rintro rfl
      exact outside c owned
    rwa [now, Kernel.Has, Function.update_of_ne apart]

/-- A core goes on with a task, and every context stays somewhere. -/
theorem of_goesOn {c : Fin n} {task : TaskId} (goesOn : k.GoesOn k' c task)
    (sole : k'.Sole (C.suspended b')) (holds : C.Holds k'.storage b')
    (known : k'.board.machine.identity = none) (plain : k'.scheduler.reenters = false)
    (waits : ∀ d, (k'.board.cores.get d).pending = .firstTask →
      d ≠ c ∧ (k.board.cores.get d).state = .notStarted)
    (ready : ∀ d, (k.board.cores.get d).state = .running ∨
      (k'.board.cores.get d).pending = .firstTask ∨ d = c →
      ∀ task ∈ (k.scheduler.queues.get d).tasks, k.Has (C.suspended b) task)
    (has : ∀ task, k'.Has (C.suspended b') task ↔ k.Has (C.suspended b) task) :
    C.Held k' b' := by
  refine ⟨sole, holds, known, plain, fun d waits' => ?_, fun d begun other owned => ?_⟩
  · obtain ⟨elsewhere, stopped⟩ := waits d waits'
    rw [goesOn.states d elsewhere]
    exact stopped
  · rw [goesOn.tasks] at owned
    refine (has other).mpr (ready d ?_ other owned)
    by_cases mine : d = c
    · exact Or.inr (Or.inr mine)
    · rw [goesOn.states d mine] at begun
      exact begun.imp_right Or.inl

/-- The task that a running core goes on with is suspended once the core has suspended its own. -/
theorem incoming_suspended {c : Fin n} {r : Resumption} (held : C.Held k b)
    (running : (k.board.cores.get c).state = .running) (free : k.Free c (k.incoming c))
    (now : C.suspended b' = update (C.suspended b) (k.scheduler.current c) (some r)) :
    ∃ new, C.suspended b' (k.incoming c) = some new := by
  have owned : k.incoming c ∈ (k.scheduler.queues.get c).tasks := by
    rw [Kernel.incoming, ← k.scheduler.choice.tasks_pick]
    exact TaskQueue.current_mem _
  refine Option.ne_none_iff_exists'.mp ?_
  rw [now, Function.update_apply]
  split
  · simp
  · rename_i other
    rcases held.ready c (Or.inl running) _ owned with waits | ⟨d, runs⟩
    · exact waits
    · have here := free d runs
      subst here
      exact absurd runs.2.symm other

/-- A call that switches completes on a running core. It saves the task of the core and resumes the
one that is chosen, as that was suspended. -/
theorem switches {c : Fin n} {depth : TrapDepth} {r : Resumption} (held : C.Held k b)
    (mine : k.board.machine.executing = c) (running : (k.board.cores.get c).state = .running)
    (switches : call.Switches k depth) (nesting : r.nesting = (k.board.cores.get c).nesting)
    (suspends : C.Suspends k.storage b c (k.scheduler.current c) depth r b')
    (free : k.Free c (k.incoming c)) :
    ∃ new k', call.perform k = .ok (some new) k' ∧ C.suspended b' (k.incoming c) = some new ∧
      k.TakesUp k' c (k.incoming c) new ∧ C.Held k' (C.resume b' c (k.incoming c)) ∧
      ∀ d, (k'.board.cores.get d).pending = .firstTask ↔
        (k.board.cores.get d).pending = .firstTask := by
  have now := C.suspended_suspends suspends
  have notWaiting : (k.board.cores.get c).pending ≠ .firstTask := fun waits => by
    simp [held.waiting c waits] at running
  obtain ⟨new, chosen⟩ := held.incoming_suspended running free now
  obtain ⟨s₁, s₂, saved, restored, holds⟩ :=
    C.handsOver held.holds (held.own ⟨running, rfl⟩) suspends chosen
  rw [nesting] at saved
  obtain ⟨k', ran, takesUp, pending, rfl⟩ := PortCall.switches_done switches held.known held.plain
    mine running notWaiting saved restored
  have others (other : TaskId) (apart : other ≠ k.scheduler.current c) :
      C.suspended b' other = C.suspended b other := by rw [now, Function.update_of_ne apart]
  have parked : C.suspended b' (k.scheduler.current c) ≠ none := by simp [now]
  have left : C.suspended b' (k.incoming c) ≠ none := by simp [chosen]
  have resumed (other : TaskId) : C.suspended (C.resume b' c (k.incoming c)) other =
      if other = k.incoming c then none else C.suspended b' other := by
    rw [C.suspended_resume, Function.update_apply]
  refine ⟨new, k', ran, chosen, takesUp, ?_, pending⟩
  refine .of_goesOn takesUp.toGoesOn
    (held.toSole.switched running others left takesUp.toGoesOn resumed) holds takesUp.known
    (takesUp.reenters.trans held.plain) (fun d waits => ?_) (fun d begun => held.ready d ?_)
    (takesUp.toGoesOn.has_switched running others parked left resumed)
  · have waited := (pending d).mp waits
    refine ⟨?_, held.waiting d waited⟩
    rintro rfl
    exact notWaiting waited
  · rcases begun with started | waits | rfl
    · exact Or.inl started
    · exact Or.inr ((pending d).mp waits)
    · exact Or.inl running

/-- A core that is to enter its first task was not started before, and the task is suspended. -/
theorem first_suspended {c : Fin n} (held : C.Held k b) (mine : k.board.machine.executing = c)
    (entry : call.Enters k) (start : call = .start → C.MayStart k b)
    (free : k.Free c (k.scheduler.current c)) :
    (k.board.cores.get c).state = .notStarted ∧
    (∀ task ∈ (k.scheduler.queues.get c).tasks, k.Has (C.suspended b) task) ∧
    ∃ new, C.suspended b (k.scheduler.current c) = some new := by
  have called : call = .start ∨ (k.board.cores.get c).pending = .firstTask := mine ▸ entry.told
  have stopped : (k.board.cores.get c).state = .notStarted :=
    called.elim (fun first => (start first c).1) (held.waiting c)
  have ready : ∀ task ∈ (k.scheduler.queues.get c).tasks, k.Has (C.suspended b) task :=
    called.elim (fun first task owned => Or.inl ((start first c).2 task owned))
      fun waits => held.ready c (Or.inr waits)
  have current : k.scheduler.current c ∈ (k.scheduler.queues.get c).tasks :=
    TaskQueue.current_mem _
  refine ⟨stopped, ready, ?_⟩
  rcases ready _ current with waits | ⟨d, runs⟩
  · exact Option.ne_none_iff_exists'.mp waits
  · have here := free d runs
    subst here
    simp [runs.1] at stopped

/-- A call that enters a first task completes. It saves nothing and resumes the current task of the
core, as that was suspended. -/
theorem enters {c : Fin n} (held : C.Held k b) (mine : k.board.machine.executing = c)
    (entry : call.Enters k) (start : call = .start → C.MayStart k b)
    (free : k.Free c (k.scheduler.current c)) :
    ∃ new k', call.perform k = .ok (some new) k' ∧
      C.suspended b (k.scheduler.current c) = some new ∧
      SwitchPrimitives.restore c (k.scheduler.current c) 0 k.storage = .ok new k'.storage ∧
      k.TakesUp k' c (k.scheduler.current c) new ∧
      C.Held k' (C.enter b c (k.scheduler.current c)) ∧
      (k'.board.cores.get c).pending = .idle ∧
      ∀ d, d ≠ c → ((k'.board.cores.get d).pending = .firstTask ↔
        call = .start ∨ (k.board.cores.get d).pending = .firstTask) := by
  obtain ⟨stopped, ready, new, left⟩ := held.first_suspended mine entry start free
  obtain ⟨s', restored, holds⟩ := C.enters c held.holds left
  obtain ⟨k', ran, takesUp, taken, pending, rfl⟩ :=
    PortCall.enters_done entry held.known mine restored
  have idle (task : TaskId) : ¬k.Runs c task := fun runs => by
    simp [runs.1] at stopped
  have suspended : C.suspended b (k.scheduler.current c) ≠ none := by simp [left]
  have resumed (other : TaskId) : C.suspended (C.enter b c (k.scheduler.current c)) other =
      if other = k.scheduler.current c then none else C.suspended b other := by
    rw [C.suspended_enter, Function.update_apply]
  refine ⟨new, k', ran, left, restored, takesUp, ?_, taken, pending⟩
  refine .of_goesOn takesUp.toGoesOn (held.toSole.entered suspended takesUp.toGoesOn resumed)
    holds takesUp.known (takesUp.reenters.trans held.plain) (fun d waits => ?_)
    (fun d begun => ?_) (takesUp.toGoesOn.has_entered idle suspended resumed)
  · have apart : d ≠ c := by
      rintro rfl
      rw [taken] at waits
      cases waits
    refine ⟨apart, ?_⟩
    exact ((pending d apart).mp waits).elim (fun first => (start first d).1) (held.waiting d)
  · by_cases here : d = c
    · rw [here]
      exact ready
    · rcases begun with running | waits | mine'
      · exact held.ready d (Or.inl running)
      · exact ((pending d here).mp waits).elim
          (fun first task owned => Or.inl ((start first d).2 task owned))
          fun waited => held.ready d (Or.inr waited)
      · exact absurd mine' here

end Held

end Contexts

end Preempt
