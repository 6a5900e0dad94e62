import Preempt.Proofs.Architectures

/-!
The halts that saving and restoring a context can end in, on any architecture: a stack access that
goes astray, a core that the machine lacks, or a context whose segments were given back. None of
them is about the state of the engine.
-/

namespace Preempt

namespace Action

variable {ε σ α β : Type} {P : ε → Prop}

/-- The action halts only in ways that `P` allows. -/
def HaltsIn (P : ε → Prop) (action : EStateM ε σ α) : Prop :=
  ∀ s e s', action s = .error e s' → P e

theorem haltsIn_of_run {action : EStateM ε σ α} {answer : σ → α} {after : σ → σ}
    (run : ∀ s, action s = .ok (answer s) (after s)) : HaltsIn P action := by
  intro s e s' halted
  rw [run] at halted
  cases halted

theorem haltsIn_pure (a : α) : HaltsIn P (pure a : EStateM ε σ α) := haltsIn_of_run (pure_run a)

theorem haltsIn_get : HaltsIn P (get : EStateM ε σ σ) := haltsIn_of_run get_run

theorem haltsIn_throw {e : ε} (allowed : P e) : HaltsIn P (throw e : EStateM ε σ α) := by
  intro s e' s' halted
  cases halted
  exact allowed

theorem HaltsIn.bind {action : EStateM ε σ α} {next : α → EStateM ε σ β}
    (first : HaltsIn P action) (rest : ∀ a, HaltsIn P (next a)) : HaltsIn P (action >>= next) := by
  intro s e u halted
  rw [bind_run] at halted
  cases acted : action s with
  | error e' t =>
    rw [acted] at halted
    cases halted
    exact first s e u acted
  | ok a t =>
    rw [acted] at halted
    exact rest a t e u halted

theorem halted_of_return {action : EStateM ε σ α} {f : α → β} {s u : σ} {e : ε}
    (halted : (do return f (← action)) s = .error e u) : action s = .error e u := by
  rw [bind_run] at halted
  cases acted : action s with
  | ok a t =>
    rw [acted] at halted
    cases halted
  | error e' t =>
    rw [acted] at halted
    cases halted
    rfl

theorem haltsIn_ite {c : Prop} [Decidable c] {yes no : EStateM ε σ α} (first : HaltsIn P yes)
    (second : HaltsIn P no) : HaltsIn P (if c then yes else no) := by
  split
  · exact first
  · exact second

end Action

open Preempt.Action

namespace Halt

/-- What moving a context can end in. -/
def OfContext : Halt → Prop
  | wildAccess | outOfRange _ _ | violation .releasedContextRestored => True
  | _ => False

end Halt

open Halt (OfContext)

namespace Storage

variable {κ α : Type} {P : Halt → Prop}

theorem haltsIn_onContext {action : EStateM Halt κ α} (halts : HaltsIn P action) :
    HaltsIn P (onContext action) := by
  intro s e s' halted
  unfold onContext at halted
  cases acted : action s.context with
  | ok a context =>
    rw [acted] at halted
    cases halted
  | error e' context =>
    rw [acted] at halted
    cases halted
    exact halts _ _ _ acted

theorem haltsIn_onTasks {action : TasksM α} (halts : HaltsIn P action) :
    HaltsIn P (onTasks action : StorageM κ α) := by
  intro s e s' halted
  unfold onTasks at halted
  cases acted : action s.tasks with
  | ok a tasks =>
    rw [acted] at halted
    cases halted
  | error e' tasks =>
    rw [acted] at halted
    cases halted
    exact halts _ _ _ acted

theorem haltsIn_setTop (task : TaskId) (top : Word) :
    HaltsIn P (setTop task top : StorageM κ Unit) := haltsIn_of_run fun _ => rfl

theorem haltsIn_topOf (task : TaskId) : HaltsIn P (topOf task : StorageM κ Word) :=
  haltsIn_of_run fun _ => rfl

end Storage

namespace Tasks

theorem haltsIn_load (address : Word) : HaltsIn OfContext (load address) := by
  intro ts e ts' halted
  unfold load at halted
  split at halted <;> cases halted
  trivial

theorem haltsIn_store (address value : Word) : HaltsIn OfContext (store address value) := by
  intro ts e ts' halted
  unfold store at halted
  split at halted <;> cases halted
  trivial

theorem haltsIn_loadBlock (address : Word) (count : Nat) :
    HaltsIn OfContext (loadBlock address count) := by
  induction count generalizing address with
  | zero => exact haltsIn_pure _
  | succ count ih =>
    exact (haltsIn_load address).bind fun _ => (ih _).bind fun _ => haltsIn_pure _

theorem haltsIn_storeBlock (address : Word) (values : List Word) :
    HaltsIn OfContext (storeBlock address values) := by
  induction values generalizing address with
  | nil => exact haltsIn_pure _
  | cons value rest ih => exact (haltsIn_store address value).bind fun _ => ih _

theorem haltsIn_pushHead (sp : Word) (head : Link) (nesting : UInt32) :
    HaltsIn OfContext (pushHead sp head nesting) :=
  (haltsIn_store _ _).bind fun _ => (haltsIn_store _ _).bind fun _ => haltsIn_pure _

theorem haltsIn_savedHead (task : TaskId) : HaltsIn OfContext (savedHead task) :=
  haltsIn_get.bind fun _ => (haltsIn_load _).bind fun _ => haltsIn_pure _

end Tasks

/-- An access to a core that the machine lacks. -/
theorem haltsIn_dite {σ α : Type} {n : Nat} {core : CoreId} {answer : core < n → σ → α}
    {after : core < n → σ → σ} : HaltsIn OfContext (fun s =>
      if h : core < n then .ok (answer h s) (after h s) else .error (.outOfRange n core) s :
        EStateM Halt σ α) := by
  intro s e s' halted
  split at halted <;> cases halted
  trivial

namespace RegisterFile

variable {layout : Layout} {n : Nat}

theorem haltsIn_save (sound : layout.Sound) (core : CoreId) (task : TaskId) (nesting : UInt32) :
    HaltsIn OfContext (save core task nesting : StorageM (RegisterFile layout n) Unit) := by
  refine (Storage.haltsIn_onContext haltsIn_dite).bind fun registers =>
    (Storage.haltsIn_onContext haltsIn_dite).bind fun sp =>
      (Storage.haltsIn_onTasks ?_).bind fun top => Storage.haltsIn_setTop task top
  have length : (registers.toList.take layout.words).length = layout.words := by
    simp [sound.small]
  rw [Layout.push, Layout.image_eq length]
  exact (Tasks.haltsIn_storeBlock _ _).bind fun _ => haltsIn_pure _

theorem haltsIn_restore (core : CoreId) (task : TaskId) :
    HaltsIn OfContext (restore core task : StorageM (RegisterFile layout n) Resumption) := by
  refine (Storage.haltsIn_topOf task).bind fun top =>
    (Storage.haltsIn_onTasks ?_).bind fun popped =>
      (Storage.haltsIn_onContext haltsIn_dite).bind fun old =>
        (Storage.haltsIn_onContext haltsIn_dite).bind fun _ =>
          (Storage.haltsIn_onContext haltsIn_dite).bind fun _ => haltsIn_pure _
  exact (Tasks.haltsIn_loadBlock _ _).bind fun _ => haltsIn_pure _

end RegisterFile

namespace Pool

variable {size n : Nat}

theorem haltsIn_place (l : Link) : HaltsIn OfContext (place l : PoolM size n (Fin size)) := by
  intro p e p' halted
  unfold place at halted
  split at halted <;> cases halted
  trivial

theorem haltsIn_segment (l : Link) : HaltsIn OfContext (segment l : PoolM size n Segment) :=
  (haltsIn_place l).bind fun _ => haltsIn_get.bind fun _ => haltsIn_pure _

theorem haltsIn_next (l : Link) : HaltsIn OfContext (next l : PoolM size n Link) :=
  (haltsIn_segment l).bind fun _ => haltsIn_pure _

theorem haltsIn_follow (count : Nat) (l : Link) :
    HaltsIn OfContext (follow count l : PoolM size n Link) := by
  induction count generalizing l with
  | zero => exact haltsIn_pure l
  | succ count ih => exact (haltsIn_next l).bind fun _ => ih _

theorem haltsIn_chain (core : CoreId) : HaltsIn OfContext (chain core : PoolM size n Link) :=
  haltsIn_dite

theorem haltsIn_callerAt (core : CoreId) (depth : TrapDepth) :
    HaltsIn OfContext (callerAt core depth : PoolM size n Link) :=
  (haltsIn_chain core).bind fun _ => haltsIn_follow _ _

theorem haltsIn_interruptedTask (core : CoreId) (depth : TrapDepth) :
    HaltsIn OfContext (interruptedTask core depth : PoolM size n Link) :=
  haltsIn_ite (haltsIn_chain core) ((haltsIn_callerAt core depth).bind fun _ => haltsIn_next _)

theorem haltsIn_writeLink (l link : Link) :
    HaltsIn OfContext (writeLink l link : PoolM size n Unit) :=
  (haltsIn_place l).bind fun _ => haltsIn_of_run (modify_run _)

theorem haltsIn_resumeAt (core : CoreId) (depth : TrapDepth) (head : Link) :
    HaltsIn OfContext (resumeAt core depth head : PoolM size n Unit) :=
  haltsIn_ite haltsIn_dite ((haltsIn_callerAt core depth).bind fun _ => haltsIn_writeLink _ _)

theorem haltsIn_suspendedPointer (lower : Link) :
    HaltsIn OfContext (suspendedPointer lower : PoolM size n Word) :=
  (haltsIn_next lower).bind fun _ => (haltsIn_segment _).bind fun _ => haltsIn_pure _

theorem haltsIn_resumesEnabled (head : Link) :
    HaltsIn OfContext (resumesEnabled head : PoolM size n Bool) :=
  (haltsIn_next head).bind fun _ => haltsIn_pure _

end Pool

namespace Banks

variable {size n : Nat} {α : Type}

theorem haltsIn_onPool {P : Halt → Prop} {action : PoolM size n α} (halts : HaltsIn P action) :
    HaltsIn P (Storage.onContext (onPool action) : StorageM (Banks size n) α) := by
  refine Storage.haltsIn_onContext fun b e b' halted => ?_
  unfold onPool at halted
  cases acted : action b.pool with
  | ok a pool =>
    rw [acted] at halted
    cases halted
  | error e' pool =>
    rw [acted] at halted
    cases halted
    exact halts _ _ _ acted

theorem haltsIn_save (core : CoreId) (task : TaskId) (nesting : UInt32) (depth : TrapDepth) :
    HaltsIn OfContext (save core task nesting depth : StorageM (Banks size n) Unit) :=
  (haltsIn_onPool (Pool.haltsIn_interruptedTask core depth)).bind fun lower =>
    (haltsIn_onPool (Pool.haltsIn_suspendedPointer lower)).bind fun sp =>
      (Storage.haltsIn_onTasks (Tasks.haltsIn_pushHead sp lower nesting)).bind fun top =>
        Storage.haltsIn_setTop task top

theorem haltsIn_restore (core : CoreId) (task : TaskId) (depth : TrapDepth) :
    HaltsIn OfContext (restore core task depth : StorageM (Banks size n) Resumption) :=
  (Storage.haltsIn_topOf task).bind fun _ =>
    (Storage.haltsIn_onTasks (Tasks.haltsIn_savedHead task)).bind fun head =>
      (Storage.haltsIn_onTasks (Tasks.haltsIn_load _)).bind fun _ =>
        haltsIn_get.bind fun _ => haltsIn_ite
          ((Storage.haltsIn_setTop task _).bind fun _ =>
            (haltsIn_onPool (Pool.haltsIn_resumeAt core depth head)).bind fun _ =>
              (haltsIn_onPool (Pool.haltsIn_resumesEnabled head)).bind fun _ => haltsIn_pure _)
          (haltsIn_throw trivial)

end Banks

namespace Architecture

variable {n : Nat}

theorem haltsIn_save (a : Architecture) (core : CoreId) (task : TaskId) (nesting : UInt32)
    (depth : TrapDepth) : HaltsIn OfContext
      (SwitchPrimitives.save core task nesting depth : StorageM (a.State n) Unit) := by
  cases a with
  | linear layout builtIn =>
    exact RegisterFile.haltsIn_save (Layout.sound_of_builtIn builtIn) core task nesting
  | segmented size small => exact Banks.haltsIn_save core task nesting depth

theorem haltsIn_pend (a : Architecture) (core : CoreId) :
    HaltsIn OfContext (SwitchPrimitives.pend core : StorageM (a.State n) Unit) := by
  cases a with
  | linear layout builtIn => exact Storage.haltsIn_onContext haltsIn_dite
  | segmented size small => exact Storage.haltsIn_onContext haltsIn_dite

theorem haltsIn_restore (a : Architecture) (core : CoreId) (task : TaskId) (depth : TrapDepth) :
    HaltsIn OfContext
      (SwitchPrimitives.restore core task depth : StorageM (a.State n) Resumption) := by
  cases a with
  | linear layout builtIn => exact RegisterFile.haltsIn_restore core task
  | segmented size small => exact Banks.haltsIn_restore core task depth

end Architecture

namespace Kernel

variable {κ α : Type} {n : Nat} {P : Halt → Prop}

theorem haltsIn_onBoard {action : BoardM n α} (halts : HaltsIn P action) :
    HaltsIn P (onBoard action : KernelM κ n α) := by
  intro k e k' halted
  unfold onBoard at halted
  cases acted : action k.board with
  | ok a board =>
    rw [acted] at halted
    cases halted
  | error e' board =>
    rw [acted] at halted
    cases halted
    exact halts _ _ _ acted

theorem haltsIn_onStorage {action : StorageM κ α} (halts : HaltsIn P action) :
    HaltsIn P (onStorage action : KernelM κ n α) := by
  intro k e k' halted
  unfold onStorage at halted
  cases acted : action k.storage with
  | ok a storage =>
    rw [acted] at halted
    cases halted
  | error e' storage =>
    rw [acted] at halted
    cases halted
    exact halts _ _ _ acted

theorem haltsIn_onBoard_of_run {action : BoardM n α} {answer : Board n → α}
    {after : Board n → Board n} (run : ∀ b, action b = .ok (answer b) (after b)) :
    HaltsIn P (onBoard action : KernelM κ n α) := haltsIn_onBoard (haltsIn_of_run run)

theorem haltsIn_currentTask (c : Fin n) : HaltsIn P (currentTask c : KernelM κ n TaskId) :=
  haltsIn_get.bind fun _ => haltsIn_pure _

variable [SwitchPrimitives κ] {k k' : Kernel κ n} {c : Fin n} {depth : TrapDepth} {e : Halt}

theorem haltsIn_resume {task : TaskId}
    (restores : HaltsIn P (SwitchPrimitives.restore c task depth : StorageM κ Resumption)) :
    HaltsIn P (resume c task depth : KernelM κ n Resumption) :=
  ((haltsIn_onBoard_of_run fun _ => rfl).bind fun _ => haltsIn_onStorage restores).bind fun _ =>
    (haltsIn_onBoard_of_run fun _ => rfl).bind fun _ =>
      haltsIn_ite ((haltsIn_onBoard_of_run fun _ => rfl).bind fun _ => haltsIn_pure _)
        (haltsIn_pure _)

/-- A core enters its first task, or halts as a restore does. -/
theorem haltsIn_enterFirst (restores : ∀ task, HaltsIn P
    (SwitchPrimitives.restore c task depth : StorageM κ Resumption)) :
    HaltsIn P (enterFirst c depth : KernelM κ n Resumption) :=
  (haltsIn_onBoard_of_run fun _ => rfl).bind fun _ => (haltsIn_currentTask c).bind fun task =>
    (haltsIn_onBoard_of_run fun _ => rfl).bind fun _ => haltsIn_resume (restores task)

/-- A switch on a core that may switch halts only as a save or a restore does. -/
theorem switch_halts (running : (k.board.cores.get c).state = .running)
    (plain : k.scheduler.reenters = false)
    (saves : ∀ task nesting, HaltsIn P
      (SwitchPrimitives.save c task nesting depth : StorageM κ Unit))
    (restores : ∀ task, HaltsIn P (SwitchPrimitives.restore c task depth : StorageM κ Resumption))
    (halted : switch c depth k = .error e k') : P e := by
  rw [switch_eq k c depth plain, switchWith, Callouts.switch_engages _ running] at halted
  have chooses : HaltsIn P (choosing k.scheduler.choice c : KernelM κ n Unit) :=
    (haltsIn_onBoard_of_run fun _ => rfl).bind fun _ => haltsIn_of_run fun _ => rfl
  have saved (task : TaskId) (nesting : UInt32) :
      HaltsIn P (save c task nesting depth : KernelM κ n Unit) :=
    (haltsIn_onBoard_of_run fun _ => rfl).bind fun _ => haltsIn_onStorage (saves task nesting)
  exact ((saved _ _).bind fun _ => chooses.bind fun _ =>
    (haltsIn_currentTask c).bind fun incoming => (haltsIn_resume (restores incoming)).bind fun _ =>
      (haltsIn_onBoard_of_run fun _ => rfl).bind fun _ =>
        (haltsIn_onBoard_of_run fun _ => rfl).bind fun _ => haltsIn_pure _) _ _ _ halted

end Kernel

end Preempt
