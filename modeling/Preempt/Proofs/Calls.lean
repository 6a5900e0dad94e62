import Mathlib.Order.Fin.Basic
import Preempt.Proofs.Engine
import Preempt.Proofs.Steady

/-!
The calls of the kernel layer, for any register state of the cores. Three of them may end in the
switch engine: they change the board a little and then are a switch (`switches_run`) or the entry of
a first task (`enters_run`).
-/

namespace Preempt

open Preempt.Action

variable {n : Nat}

/-- The calls that a task, an interrupt handler or the boot code makes on the executing core. -/
inductive PortCall where
  | start
  | stop
  | enterCritical
  | exitCritical
  | lock (d : LockClass)
  | unlock (d : LockClass)
  | lockShared
  | yield
  | onTrap
  | yieldTo (target : CoreId)
  | beginInterrupt
  | onTick
  | onIpi
  | endInterrupt
  | endInterruptHandingOn
deriving DecidableEq

namespace Callouts

open Kernel (onBoard)

/-- The answer is what a task was resumed with, if one was. -/
def perform {κ : Type} [SwitchPrimitives κ] (x : Callouts κ n) :
    PortCall → KernelM κ n (Option Resumption)
  | .start => return some (← x.start)
  | .stop => do
    onBoard Kernel.stop
    return none
  | .enterCritical => do
    onBoard Kernel.enterCritical
    return none
  | .exitCritical => do
    onBoard Kernel.exitCritical
    return none
  | .lock d => do
    onBoard (Kernel.lock d)
    return none
  | .unlock d => do
    onBoard (Kernel.unlock d)
    return none
  | .lockShared => do
    let _ ← onBoard Kernel.lockShared
    return none
  | .yield => do
    Kernel.yield
    return none
  | .onTrap => return some (← x.onTrap)
  | .yieldTo target => do
    let _ ← Kernel.yieldTo target
    return none
  | .beginInterrupt => do
    let _ ← onBoard Kernel.beginInterrupt
    return none
  | .onTick => do
    let _ ← x.onTick
    return none
  | .onIpi => do
    onBoard Kernel.onIpi
    return none
  | .endInterrupt => x.endInterrupt
  | .endInterruptHandingOn => do
    let _ ← Kernel.endInterruptHandingOn
    return none

end Callouts

namespace PortCall

variable {κ : Type} [SwitchPrimitives κ]

def perform (call : PortCall) : KernelM κ n (Option Resumption) := Callouts.own.perform call

theorem perform_start :
    (start.perform : KernelM κ n (Option Resumption)) = return some (← Kernel.start) := rfl

theorem perform_onTrap :
    (onTrap.perform : KernelM κ n (Option Resumption)) = return some (← Kernel.onTrap) := rfl

theorem perform_endInterrupt :
    (endInterrupt.perform : KernelM κ n (Option Resumption)) = Kernel.endInterrupt := rfl

/-- The calls that never get as far as the switch engine. -/
def isPlain : PortCall → Bool
  | start | onTrap | endInterrupt => false
  | _ => true

/-- When a call resumes a task. -/
def Resumes (call : PortCall) (k : Kernel κ n) : Prop :=
  let core := k.board.cores.get k.board.machine.executing
  match call with
  | start => True
  | onTrap => core.state = .running
  | endInterrupt => core.interruptDepth = 1 ∧
      (core.pending = .firstTask ∨ core.pending = .switch ∧ core.state = .running)
  | _ => False

/-- When a call gets as far as a switch, and at which depth. -/
def Switches (call : PortCall) (k : Kernel κ n) (depth : TrapDepth) : Prop :=
  let core := k.board.cores.get k.board.machine.executing
  match call with
  | onTrap => depth = Settings.trapDepth
  | endInterrupt => depth = 0 ∧ core.interruptDepth = 1 ∧ core.pending = .switch
  | _ => False

/-- When a call enters a first task. -/
def Enters (call : PortCall) (k : Kernel κ n) : Prop :=
  let core := k.board.cores.get k.board.machine.executing
  match call with
  | start => True
  | endInterrupt => core.interruptDepth = 1 ∧ core.pending = .firstTask
  | _ => False

end PortCall

/-- Calling the other cores changes none of them but for their request. -/
theorem Board.releaseOthers_run (c : Fin n) (others : List (Fin n)) (b : Board n) :
    ∃ b', Kernel.releaseOthers c others b = .ok () b' ∧
      b'.machine.executing = b.machine.executing ∧ b'.machine.identity = b.machine.identity ∧
      b'.machine.enabled = b.machine.enabled ∧
      ∀ d, b'.cores.get d = if d ∈ others ∧ d ≠ c
        then { b.cores.get d with pending := .firstTask } else b.cores.get d := by
  induction others generalizing b with
  | nil => exact ⟨b, rfl, rfl, rfl, rfl, fun d => by simp⟩
  | cons other rest ih =>
    by_cases mine : other = c
    · obtain ⟨b', ran, executing, identity, enabled, cores⟩ := ih b
      refine ⟨b', ?_, executing, identity, enabled, fun d => ?_⟩
      · simp only [Kernel.releaseOthers, mine, ne_eq, not_true_eq_false, if_false, ran]
      · rw [cores]
        by_cases here : d = c
        · simp [here]
        · simp [here, show d ≠ other by rw [mine]; exact here]
    · obtain ⟨b', ran, executing, identity, enabled, cores⟩ := ih
        { b with
          trace := (b.trace.push (.log (.releasingCore c other))).push (.ipi other)
          machine := b.machine.raiseIpi other
          cores := b.cores.put other { b.cores.get other with pending := .firstTask } }
      refine ⟨b', ?_, executing, identity, enabled, fun d => ?_⟩
      · simp only [Kernel.releaseOthers, mine, ne_eq, not_false_eq_true, if_true, bind_run]
        exact ran
      · rw [cores, Vector.get_put]
        by_cases here : other = d
        · subst here
          simp [mine]
        · simp [here, Ne.symm here]

namespace Callouts

open Kernel (onBoard)

variable {κ : Type} {k : Kernel κ n} {c : Fin n}

/-- The end of the outermost interrupt takes the pending request. -/
theorem endInterrupt_run_outermost (x : Callouts κ n) (known : k.board.machine.identity = none)
    (mine : k.board.machine.executing = c) (outermost : (k.board.cores.get c).interruptDepth = 1) :
    x.endInterrupt k =
      (match (k.board.cores.get c).pending with
        | .idle => pure none
        | .switch => return some (← x.switch c 0)
        | .firstTask => do
          onBoard (Board.resetNesting c)
          return some (← x.enterFirst c 0) : KernelM κ n (Option Resumption))
      { k with board := { k.board with cores := k.board.cores.put c { k.board.cores.get c with
          interruptDepth := 0
          pending := .idle } } } := by
  have inside : (k.board.cores.get c).interruptDepth ≠ 0 := by simp [outermost]
  cases asked : (k.board.cores.get c).pending <;>
    simp only [endInterrupt, bind_run, onBoard, Board.executingCore_run known, mine,
      Board.leaveInterrupt_run inside, outermost, decide_true, if_true, Board.takePending_run,
      Vector.get_put_self, Vector.put_put, UInt32.sub_self, asked]

theorem endInterrupt_run_zero (x : Callouts κ n) (known : k.board.machine.identity = none)
    (mine : k.board.machine.executing = c) (zero : (k.board.cores.get c).interruptDepth = 0) :
    x.endInterrupt k = .error (.violation .unmatchedInterruptExit) k := by
  simp only [endInterrupt, bind_run, onBoard, Board.executingCore_run known, mine,
    Board.leaveInterrupt_run_zero zero]

/-- The end of an inner interrupt takes nothing. -/
theorem endInterrupt_run_inner (x : Callouts κ n) (known : k.board.machine.identity = none)
    (mine : k.board.machine.executing = c) (inside : (k.board.cores.get c).interruptDepth ≠ 0)
    (inner : (k.board.cores.get c).interruptDepth ≠ 1) :
    x.endInterrupt k = .ok none { k with board := { k.board with
      cores := k.board.cores.put c { k.board.cores.get c with
        interruptDepth := (k.board.cores.get c).interruptDepth - 1 } } } := by
  simp only [endInterrupt, bind_run, onBoard, Board.executingCore_run known, mine,
    Board.leaveInterrupt_run inside, inner, decide_false, Bool.false_eq_true, if_false]
  rfl

theorem onTrap_run (x : Callouts κ n) (known : k.board.machine.identity = none)
    (mine : k.board.machine.executing = c) : x.onTrap k = x.switch c Settings.trapDepth k := by
  simp only [onTrap, bind_run, onBoard, Board.executingCore_run known, mine]

/-- A start masks interrupts, starts the tick, calls the other cores and enters the first task. Up
to there it makes no call that leaves the kernel layer. -/
theorem start_run (known : k.board.machine.identity = none)
    (mine : k.board.machine.executing = c) :
    ∃ b₁ b₂, Board.tickStart { k.board with
        trace := k.board.trace.push .disable, machine := k.board.machine.setEnabled false } =
          .ok () b₁ ∧
      Kernel.releaseOthers c (List.finRange n) b₁ = .ok () b₂ ∧
      ∀ x : Callouts κ n, x.start k = x.enterFirst c 0 { k with board := { b₂ with
        cores := b₂.cores.put c { b₂.cores.get c with pending := .idle, nesting := 0 } } } := by
  set b₀ : Board n := { k.board with
    trace := k.board.trace.push .disable, machine := k.board.machine.setEnabled false } with hb₀
  have who : b₀.machine.executing = c := mine
  obtain ⟨b₁, ticking⟩ : ∃ b₁, Board.tickStart b₀ = .ok () b₁ := ⟨_, rfl⟩
  obtain ⟨b₂, released, _⟩ := Board.releaseOthers_run c (List.finRange n) b₁
  refine ⟨b₁, b₂, ticking, released, fun x => ?_⟩
  simp only [start, bind_run, onBoard, Board.disable_run, ← hb₀,
    Board.executingCore_run (b := b₀) known, who, ticking, released, Board.setPending,
    Board.resetNesting, Board.setNesting, Board.onCore, Vector.get_put_self, Vector.put_put]

end Callouts

namespace Kernel

variable {κ : Type} {c : Fin n}

/-- The board once core `c` is about to enter its first task, on a start with all other cores
called to do the same. -/
structure Readied (k : Kernel κ n) (c : Fin n) (starting : Prop) [Decidable starting]
    (board : Board n) : Prop where
  executing : board.machine.executing = c
  identity : board.machine.identity = none
  enabled : ∀ d, d ≠ c → board.machine.enabled.get d = k.board.machine.enabled.get d
  state : (board.cores.get c).state = (k.board.cores.get c).state
  pending : (board.cores.get c).pending = .idle
  others : ∀ d, d ≠ c → board.cores.get d = if starting
    then { k.board.cores.get d with pending := .firstTask } else k.board.cores.get d

theorem Readied.states {k : Kernel κ n} {starting : Prop} [Decidable starting] {board : Board n}
    (readied : k.Readied c starting board) (d : Fin n) :
    (board.cores.get d).state = (k.board.cores.get d).state := by
  by_cases mine : d = c
  · rw [mine, readied.state]
  · rw [readied.others d mine]
    split <;> rfl

/-- The task that a switch on a core goes on with. -/
def incoming (k : Kernel κ n) (c : Fin n) : TaskId :=
  (k.scheduler.choice.pick (k.scheduler.queues.get c)).current

/-- Core `c` goes on with a task as it was suspended; the other cores go on as before. -/
structure TakesUp (k k' : Kernel κ n) (c : Fin n) (task : TaskId) (r : Resumption) : Prop
    extends k.GoesOn k' c task where
  executing : k'.board.machine.executing = c
  known : k'.board.machine.identity = none
  reenters : k'.scheduler.reenters = k.scheduler.reenters
  nesting : (k'.board.cores.get c).nesting = r.nesting
  enabled : k'.board.machine.enabled.get c = decide (r.enabled ∧ r.nesting = 0)
  others : ∀ d, d ≠ c → (k'.board.cores.get d).nesting = (k.board.cores.get d).nesting ∧
    k'.board.machine.enabled.get d = k.board.machine.enabled.get d

variable [SwitchPrimitives κ]

/-- The end of the outermost interrupt takes the pending request. -/
theorem endInterrupt_run_outermost {k : Kernel κ n} (known : k.board.machine.identity = none)
    (mine : k.board.machine.executing = c) (outermost : (k.board.cores.get c).interruptDepth = 1) :
    endInterrupt k =
      (match (k.board.cores.get c).pending with
        | .idle => pure none
        | .switch => return some (← switch c 0)
        | .firstTask => do
          onBoard (Board.resetNesting c)
          return some (← enterFirst c 0) : KernelM κ n (Option Resumption))
      { k with board := { k.board with cores := k.board.cores.put c { k.board.cores.get c with
          interruptDepth := 0
          pending := .idle } } } :=
  Callouts.own.endInterrupt_run_outermost known mine outermost

theorem endInterrupt_run_zero {k : Kernel κ n} (known : k.board.machine.identity = none)
    (mine : k.board.machine.executing = c) (zero : (k.board.cores.get c).interruptDepth = 0) :
    endInterrupt k = .error (.violation .unmatchedInterruptExit) k :=
  Callouts.own.endInterrupt_run_zero known mine zero

/-- The end of an inner interrupt takes nothing. -/
theorem endInterrupt_run_inner {k : Kernel κ n} (known : k.board.machine.identity = none)
    (mine : k.board.machine.executing = c) (inside : (k.board.cores.get c).interruptDepth ≠ 0)
    (inner : (k.board.cores.get c).interruptDepth ≠ 1) :
    endInterrupt k = .ok none { k with board := { k.board with
      cores := k.board.cores.put c { k.board.cores.get c with
        interruptDepth := (k.board.cores.get c).interruptDepth - 1 } } } :=
  Callouts.own.endInterrupt_run_inner known mine inside inner

theorem onTrap_run {k : Kernel κ n} (known : k.board.machine.identity = none)
    (mine : k.board.machine.executing = c) : onTrap k = switch c Settings.trapDepth k :=
  Callouts.own.onTrap_run known mine

/-- Starting readies the board and enters the first task. -/
theorem start_run {k : Kernel κ n} (known : k.board.machine.identity = none)
    (mine : k.board.machine.executing = c) :
    ∃ board, start k = enterFirst c 0 { k with board } ∧ k.Readied c True board := by
  obtain ⟨b₁, b₂, ticking, released, runs⟩ := Callouts.start_run known mine
  cases ticking
  obtain ⟨b₂', released', executing, identity, enabled, cores⟩ :=
    Board.releaseOthers_run c (List.finRange n) _
  cases released.symm.trans released'
  refine ⟨_, runs .own, executing.trans mine, identity.trans known, fun d apart => ?_, ?_, ?_,
    fun d apart => ?_⟩
  · rw [enabled]
    exact Vector.get_put_of_ne _ (by rw [mine]; exact apart.symm) _
  · rw [Vector.get_put_self]
    simp [cores]
  · rw [Vector.get_put_self]
  · rw [Vector.get_put_of_ne _ apart.symm, cores]
    simp [apart]

end Kernel

namespace PortCall

variable {κ : Type} {call : PortCall} {k : Kernel κ n} {c : Fin n}

theorem not_resumes_of_plain (plain : call.isPlain = true) (k : Kernel κ n) :
    ¬call.Resumes k := by
  cases call with
  | start | onTrap | endInterrupt => cases plain
  | _ => exact id

/-- A core enters its first task when it starts the scheduler or was told to. -/
theorem Enters.told (entry : call.Enters k) :
    call = .start ∨ (k.board.cores.get k.board.machine.executing).pending = .firstTask := by
  cases call with
  | start => exact Or.inl rfl
  | endInterrupt => exact Or.inr entry.2
  | _ => exact absurd entry id

theorem not_enters_of_switches {depth : TrapDepth} (switches : call.Switches k depth) :
    ¬call.Enters k := by
  cases call with
  | endInterrupt =>
    rintro ⟨_, first⟩
    obtain ⟨_, _, asked⟩ := switches
    rw [first] at asked
    cases asked
  | start => exact absurd switches id
  | _ => exact id

/-- A call that resumes a task enters its first one, or switches. -/
theorem Resumes.enters_or_switches (resumes : call.Resumes k) :
    call.Enters k ∨ ∃ depth, call.Switches k depth := by
  cases call with
  | start => exact Or.inl trivial
  | onTrap => exact Or.inr ⟨_, rfl⟩
  | endInterrupt =>
    obtain ⟨outermost, first | ⟨asked, _⟩⟩ := resumes
    · exact Or.inl ⟨outermost, first⟩
    · exact Or.inr ⟨0, rfl, outermost, asked⟩
  | _ => exact absurd resumes id

/-- It switches only on a core that was started. -/
theorem Resumes.running {depth : TrapDepth} (resumes : call.Resumes k)
    (switches : call.Switches k depth) :
    (k.board.cores.get k.board.machine.executing).state = .running := by
  cases call with
  | onTrap => exact resumes
  | endInterrupt =>
    obtain ⟨_, first | ⟨_, running⟩⟩ := resumes
    · obtain ⟨_, _, asked⟩ := switches
      rw [first] at asked
      cases asked
    · exact running
  | _ => exact absurd switches id

variable [SwitchPrimitives κ]

/-- A plain call resumes nothing. -/
theorem answer_of_plain (plain : call.isPlain = true) {k' : Kernel κ n}
    {answer : Option Resumption} (ran : call.perform k = .ok answer k') : answer = none := by
  have silent {α : Type} {action : KernelM κ n α}
      (done : (do let _ ← action; return none : KernelM κ n (Option Resumption)) k =
        .ok answer k') : answer = none := by
    rw [bind_run] at done
    cases acts : action k with
    | ok a k₁ =>
      rw [acts] at done
      cases done
      rfl
    | error halt k₁ =>
      rw [acts] at done
      cases done
  cases call with
  | start | onTrap | endInterrupt => cases plain
  | _ => exact silent ran

/-- Such a call does nothing before the switch but take the pending request, if that is what it
switches for. -/
theorem switches_run {depth : TrapDepth} (switches : call.Switches k depth)
    (known : k.board.machine.identity = none) (mine : k.board.machine.executing = c) :
    ∃ core : Core, call.perform k = (do
        return some (← Kernel.switch c depth) : KernelM κ n (Option Resumption))
          { k with board := { k.board with cores := k.board.cores.put c core } } ∧
      core.state = (k.board.cores.get c).state ∧ core.nesting = (k.board.cores.get c).nesting ∧
      (core.pending = .firstTask → (k.board.cores.get c).pending = .firstTask) := by
  subst mine
  cases call with
  | onTrap =>
    cases switches
    refine ⟨k.board.cores.get k.board.machine.executing, ?_, rfl, rfl, id⟩
    rw [Vector.put_get]
    simp only [perform_onTrap, bind_run, Kernel.onTrap_run known rfl]
  | endInterrupt =>
    obtain ⟨rfl, outermost, asked⟩ := switches
    refine ⟨{ k.board.cores.get k.board.machine.executing with
      interruptDepth := 0, pending := .idle }, ?_, rfl, rfl, fun waits => ?_⟩
    · rw [perform_endInterrupt, Kernel.endInterrupt_run_outermost known rfl outermost, asked]
    · cases waits
  | _ => exact absurd switches id

/-- A core that was not started halts before it saves anything. -/
theorem switches_halts {depth : TrapDepth} (switches : call.Switches k depth)
    (known : k.board.machine.identity = none) (mine : k.board.machine.executing = c)
    (stopped : (k.board.cores.get c).state = .notStarted) :
    ∃ k', call.perform k = .error (.violation .schedulerNotStarted) k' ∧
      k'.storage = k.storage := by
  obtain ⟨core, reached, state, _⟩ := switches_run switches known mine
  set k₁ : Kernel κ n :=
    { k with board := { k.board with cores := k.board.cores.put c core } } with hk₁
  have stopped₁ : (k₁.board.cores.get c).state = .notStarted := by
    rw [hk₁, Vector.get_put_self, state, stopped]
  rw [reached, bind_run, Kernel.switch, Callouts.switch_run_notStarted _ depth stopped₁]
  exact ⟨_, rfl, rfl⟩

/-- Such a call readies the board and then enters the first task. -/
theorem enters_run (enters : call.Enters k) (known : k.board.machine.identity = none)
    (mine : k.board.machine.executing = c) :
    ∃ board, call.perform k = (do
        return some (← Kernel.enterFirst c 0) : KernelM κ n (Option Resumption))
          { k with board } ∧ k.Readied c (call = .start) board := by
  cases call with
  | start =>
    obtain ⟨board, ran, readied⟩ := Kernel.start_run known mine
    refine ⟨board, ?_, readied.executing, readied.identity, readied.enabled, readied.state,
      readied.pending, fun d apart => by simpa using readied.others d apart⟩
    simp only [perform_start, bind_run, ran]
  | endInterrupt =>
    subst mine
    obtain ⟨outermost, asked⟩ := enters
    let core : Core := { k.board.cores.get k.board.machine.executing with
      interruptDepth := 0, pending := .idle, nesting := 0 }
    refine ⟨{ k.board with cores := k.board.cores.put k.board.machine.executing core }, ?_, rfl,
      known, fun _ _ => rfl, ?_, ?_, fun d apart => ?_⟩
    · rw [perform_endInterrupt, Kernel.endInterrupt_run_outermost known rfl outermost, asked]
      simp only [bind_run, Kernel.onBoard, Board.resetNesting, Board.setNesting, Board.onCore,
        Vector.get_put_self, Vector.put_put]
      rfl
    · rw [Vector.get_put_self]
    · rw [Vector.get_put_self]
    · rw [Vector.get_put_of_ne _ apart.symm, if_neg (by simp)]
  | _ => exact absurd enters id

variable {depth : TrapDepth} {r : Resumption} {s₁ s₂ : Storage κ}

/-- What a call that switches has done, given what save and restore do. -/
theorem switches_done (switches : call.Switches k depth)
    (known : k.board.machine.identity = none) (plain : k.scheduler.reenters = false)
    (mine : k.board.machine.executing = c) (running : (k.board.cores.get c).state = .running)
    (notWaiting : (k.board.cores.get c).pending ≠ .firstTask)
    (saved : SwitchPrimitives.save c (k.scheduler.current c) (k.board.cores.get c).nesting depth
      k.storage = .ok () s₁)
    (restored : SwitchPrimitives.restore c (k.incoming c) depth s₁ = .ok r s₂) :
    ∃ k', call.perform k = .ok (some r) k' ∧ k.TakesUp k' c (k.incoming c) r ∧
      (∀ d, (k'.board.cores.get d).pending = .firstTask ↔
        (k.board.cores.get d).pending = .firstTask) ∧ k'.storage = s₂ := by
  obtain ⟨core, reached, state, nesting, waits⟩ := switches_run switches known mine
  set k₁ : Kernel κ n :=
    { k with board := { k.board with cores := k.board.cores.put c core } } with hk₁
  have started : (k₁.board.cores.get c).state = .running := by
    rw [hk₁, Vector.get_put_self, state, running]
  rw [← nesting, ← Vector.get_put_self k.board.cores c core] at saved
  obtain ⟨trace, ran⟩ := Kernel.switchWith_run (k := k₁) started saved restored
  rw [← Kernel.switch_eq k₁ c depth plain] at ran
  obtain ⟨k', ran', cores, machine, storage, scheduler⟩ :
      ∃ k', call.perform k = .ok (some r) k' ∧
        k'.board.cores = k.board.cores.put c (core.resumed r).countSwitch ∧
        k'.board.machine = k.board.machine.setEnabled (r.enabled ∧ r.nesting = 0) ∧
        k'.storage = s₂ ∧ k'.scheduler = k.scheduler.choose k.scheduler.choice c := by
    refine ⟨_, by rw [reached, bind_run, ran]; rfl, ?_, rfl, rfl, rfl⟩
    rw [hk₁, Vector.put_put, Vector.get_put_self]
  refine ⟨k', ran', ⟨.of_put _ cores rfl scheduler, ?_, ?_, ?_, ?_, ?_, fun d apart => ⟨?_, ?_⟩⟩,
    fun d => ?_, storage⟩
  · rw [machine]
    exact mine
  · rw [machine]
    exact known
  · rw [scheduler]
    rfl
  · rw [cores, Vector.get_put_self]
    rfl
  · rw [machine]
    simp [Machine.setEnabled, mine]
  · rw [cores, Vector.get_put_of_ne _ apart.symm]
  · rw [machine, Machine.setEnabled, Vector.get_put_of_ne _ (by rw [mine]; exact apart.symm)]
  · rw [cores, Vector.get_put]
    split
    · rename_i same
      subst same
      exact ⟨waits, fun waited => absurd waited notWaiting⟩
    · rfl

/-- What a call that enters a first task has done, given what restore does. -/
theorem enters_done (entry : call.Enters k) (known : k.board.machine.identity = none)
    (mine : k.board.machine.executing = c)
    (restored : SwitchPrimitives.restore c (k.scheduler.current c) 0 k.storage = .ok r s₂) :
    ∃ k', call.perform k = .ok (some r) k' ∧ k.TakesUp k' c (k.scheduler.current c) r ∧
      (k'.board.cores.get c).pending = .idle ∧
      (∀ d, d ≠ c → ((k'.board.cores.get d).pending = .firstTask ↔
        call = .start ∨ (k.board.cores.get d).pending = .firstTask)) ∧ k'.storage = s₂ := by
  obtain ⟨board, reached, readied⟩ := enters_run entry known mine
  obtain ⟨trace, ran⟩ := Kernel.enterFirst_run (k := { k with board }) restored
  obtain ⟨k', ran', cores, machine, storage, scheduler⟩ :
      ∃ k', call.perform k = .ok (some r) k' ∧
        k'.board.cores = board.cores.put c ((board.cores.get c).resumed r) ∧
        k'.board.machine = board.machine.setEnabled (r.enabled ∧ r.nesting = 0) ∧
        k'.storage = s₂ ∧ k'.scheduler = k.scheduler := by
    refine ⟨_, by rw [reached, bind_run, ran]; rfl, ?_, ?_, ?_, ?_⟩ <;> rfl
  have elsewhere (d : Fin n) (apart : d ≠ c) : k'.board.cores.get d = if call = .start
      then { k.board.cores.get d with pending := .firstTask } else k.board.cores.get d := by
    rw [cores, Vector.get_put_of_ne _ apart.symm, readied.others d apart]
  refine ⟨k', ran', ⟨⟨⟨?_, by rw [scheduler]⟩, fun d apart => ?_, fun d _ => by rw [scheduler],
    fun d => by rw [scheduler]⟩, ?_, ?_, by rw [scheduler], ?_, ?_, fun d apart => ⟨?_, ?_⟩⟩, ?_,
    fun d apart => ?_, storage⟩
  · rw [cores, Vector.get_put_self]
    rfl
  · rw [elsewhere d apart]
    split <;> rfl
  · rw [machine]
    exact readied.executing
  · rw [machine]
    exact readied.identity
  · rw [cores, Vector.get_put_self]
    rfl
  · rw [machine]
    simp [Machine.setEnabled, readied.executing]
  · rw [elsewhere d apart]
    split <;> rfl
  · rw [machine, Machine.setEnabled, readied.executing, Vector.get_put_of_ne _ apart.symm,
      readied.enabled d apart]
  · rw [cores, Vector.get_put_self]
    exact readied.pending
  · rw [elsewhere d apart]
    split <;> simp [*]

end PortCall

end Preempt
