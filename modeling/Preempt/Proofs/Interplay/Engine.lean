import Preempt.Proofs.Interplay.Advance

/-!
What a run of the engine on a core does: a switch saves, selects and restores (`Kernel.Switched`), a
first entry restores (`Kernel.Entered`), and a halt comes with a part of that (`Kernel.Broken`).
Before it the core takes what it was asked to do, or calls the others (`Kernel.Prepares`).
-/

namespace Preempt

open Preempt.Action
open Kernel (onBoard)

variable {κ : Type} {n : Nat} {c : Fin n}

namespace Board

/-- Other cores were called, and no engine did anything. -/
structure Announces (b b' : Board n) : Prop where
  steps : ∀ d, b'.engineSteps d = b.engineSteps d
  exclusive : b'.machine.exclusive = b.machine.exclusive
  called : ∀ d : Fin n, b.machine.isCalled d = true → b'.machine.isCalled d = true

instance : IsPreorder (Board n) Announces where
  refl _ := ⟨fun _ => rfl, rfl, fun _ => id⟩
  trans _ _ _ first second := ⟨fun d => (second.steps d).trans (first.steps d),
    second.exclusive.trans first.exclusive, fun d called => second.called d (first.called d called)⟩

theorem announces_log (entry : LogEntry) : Ensures (Announces (n := n)) (log entry) :=
  .of_run (fun _ => rfl) fun _ => ⟨engineSteps_push_plain (fun _ => rfl) rfl, rfl, fun _ => id⟩

theorem announces_tickStart : Ensures (Announces (n := n)) tickStart := by
  refine Ensures.bind (.of_run (fun _ => rfl) refl) fun clock => (announces_log _).bind fun _ => ?_
  exact .of_run (fun _ => rfl) fun _ =>
    ⟨engineSteps_push_plain (fun _ => rfl) rfl, rfl, fun _ => id⟩

theorem announces_releaseOthers (c : Fin n) (others : List (Fin n)) :
    Ensures Announces (Kernel.releaseOthers c others) := by
  induction others with
  | nil => exact ensures_pure _
  | cons other rest ih =>
    have pends : Ensures (Announces (n := n)) (setPending other .firstTask) :=
      .of_run (fun _ => rfl) fun _ => ⟨fun _ => rfl, rfl, fun _ => id⟩
    have sends : Ensures (Announces (n := n)) (sendIpi other) := by
      refine .of_run (fun _ => rfl) fun b =>
        ⟨engineSteps_push_plain (fun _ => rfl) rfl, rfl, fun d called => ?_⟩
      simp only [Machine.isCalled_raiseIpi, called, Bool.true_or]
    exact ensures_ite
      (pends.bind fun _ => (announces_log _).bind fun _ => sends.bind fun _ => ih) ih

end Board

/-- Core `c` has left its outermost interrupt and taken what it was asked to do there. -/
def Kernel.left (k : Kernel κ n) (c : Fin n) (nesting : UInt32) : Kernel κ n :=
  { k with board := { k.board with cores := k.board.cores.put c { k.board.cores.get c with
    nesting, interruptDepth := 0, pending := .idle } } }

namespace Callouts

/-- Up to the entry of the first task a start depends on no call that leaves the kernel layer. -/
theorem start_announces {k : Kernel κ n} (ready : k.board.Ready c) :
    ∃ board, (∀ x : Callouts κ n, x.start k = x.enterFirst c 0 { k with board }) ∧
      k.board.Announces board ∧ board.Ready c ∧
      (∀ d, d ≠ c → board.machine.enabled.get d = k.board.machine.enabled.get d) ∧
      board.cores.get c = { k.board.cores.get c with pending := .idle, nesting := 0 } ∧
      ∀ d, d ≠ c → board.cores.get d = { k.board.cores.get d with pending := .firstTask } := by
  obtain ⟨b₁, b₂, ticking, released, runs⟩ := start_run ready.known ready.executing
  have masks : k.board.Announces { k.board with
      trace := k.board.trace.push .disable, machine := k.board.machine.setEnabled false } :=
    ⟨Board.engineSteps_push_plain (fun _ => rfl) rfl, rfl, fun _ => id⟩
  have ticks := Board.announces_tickStart _ _ _ ticking
  have releases := Board.announces_releaseOthers c _ _ _ _ released
  obtain ⟨b₂', released', executing, identity, enabled, cores⟩ :=
    Board.releaseOthers_run c (List.finRange n) b₁
  cases released.symm.trans released'
  cases ticking
  refine ⟨_, runs, IsTrans.trans _ _ _ (IsTrans.trans _ _ _ masks ticks)
    ⟨releases.steps, releases.exclusive, releases.called⟩,
    ⟨executing.trans ready.executing, identity.trans ready.known⟩, fun d apart => ?_, ?_,
    fun d apart => ?_⟩
  · rw [enabled]
    exact Vector.get_put_of_ne _ (by rw [ready.executing]; exact apart.symm) _
  · rw [Vector.get_put_self]
    simp [cores]
  · rw [Vector.get_put_of_ne _ apart.symm, cores]
    simp [apart]

/-- The end of the outermost interrupt runs the switch that was asked for. -/
theorem endInterrupt_run_switch (x : Callouts κ n) {k : Kernel κ n} (ready : k.board.Ready c)
    (outermost : (k.board.cores.get c).interruptDepth = 1)
    (asked : (k.board.cores.get c).pending = .switch) :
    x.endInterrupt k = (do return some (← x.switch c 0) : KernelM κ n (Option Resumption))
      (k.left c (k.board.cores.get c).nesting) := by
  rw [x.endInterrupt_run_outermost ready.known ready.executing outermost, asked]
  rfl

theorem endInterrupt_run_firstTask (x : Callouts κ n) {k : Kernel κ n} (ready : k.board.Ready c)
    (outermost : (k.board.cores.get c).interruptDepth = 1)
    (asked : (k.board.cores.get c).pending = .firstTask) :
    x.endInterrupt k = (do return some (← x.enterFirst c 0) : KernelM κ n (Option Resumption))
      (k.left c 0) := by
  rw [x.endInterrupt_run_outermost ready.known ready.executing outermost, asked]
  simp only [bind_run, onBoard, Board.resetNesting, Board.setNesting, Board.onCore,
    Vector.get_put_self, Vector.put_put, Kernel.left]

/-- The end of any other interrupt makes no call that leaves the kernel layer. -/
theorem endInterrupt_run_rest (x y : Callouts κ n) {k : Kernel κ n} (ready : k.board.Ready c)
    (rest : (k.board.cores.get c).interruptDepth = 1 → (k.board.cores.get c).pending = .idle) :
    x.endInterrupt k = y.endInterrupt k := by
  obtain ⟨known, mine⟩ := And.intro ready.known ready.executing
  by_cases zero : (k.board.cores.get c).interruptDepth = 0
  · rw [x.endInterrupt_run_zero known mine zero, y.endInterrupt_run_zero known mine zero]
  · by_cases outermost : (k.board.cores.get c).interruptDepth = 1
    · rw [x.endInterrupt_run_outermost known mine outermost,
        y.endInterrupt_run_outermost known mine outermost, rest outermost]
    · rw [x.endInterrupt_run_inner known mine zero outermost,
        y.endInterrupt_run_inner known mine zero outermost]

end Callouts

/-- The halts that `halt` allows of save and restore. -/
structure SwitchPrimitives.HaltIn (κ : Type) [SwitchPrimitives κ] (halt : Halt → Prop) : Prop where
  saves : ∀ (core : CoreId) task nesting depth,
    HaltsIn halt (SwitchPrimitives.save core task nesting depth : StorageM κ Unit)
  restores : ∀ (core : CoreId) task depth,
    HaltsIn halt (SwitchPrimitives.restore core task depth : StorageM κ Resumption)
  pends : ∀ core : CoreId, HaltsIn halt (SwitchPrimitives.pend core : StorageM κ Unit)

namespace Board

theorem engineSteps_resumed (b : Board n) (r : Resumption) (d : Fin n) :
    (b.resumed c r).engineSteps d = b.engineSteps d := by
  by_cases unmasks : r.enabled ∧ r.nesting = 0
  · exact engineSteps_push_plain (fun _ => rfl) (if_pos unmasks) d
  · simp only [engineSteps, resumed, if_neg unmasks]

theorem engineSteps_entering (b : Board n) (task : TaskId) (d : Fin n) :
    (b.entering c task).engineSteps d = b.engineSteps d := by
  rw [engineSteps_push_plain (b := { b with trace := b.trace.push .disable }) (fun _ => rfl) rfl,
    engineSteps_push_plain (fun _ => rfl) rfl]

theorem engineSteps_engaged (b : Board n) (d : Fin n) :
    (b.engaged c).engineSteps d = b.engineSteps d :=
  engineSteps_push_plain (fun _ => rfl) rfl d

theorem engineSteps_shows (b : Board n) {e : Event} {step : EngineStep}
    (is : ∀ core, e.engineStep? core = if c.val = core then some step else none) (d : Fin n) :
    (b.shows e).engineSteps d = b.engineSteps d ++ if d = c then [step] else [] := by
  rw [engineSteps_push rfl, is]
  by_cases here : d = c
  · simp [here]
  · simp [here, Fin.val_inj, Ne.symm here]

end Board

namespace Kernel

/-- The engine ran on core `c`, which goes on with a task. -/
structure EngineRan (k k' : Kernel κ n) (c : Fin n) (shown : List EngineStep) (pending : Pending) :
    Prop where
  ready : k'.board.Ready c
  masks : ∀ d, d ≠ c → k'.board.machine.enabled.get d = k.board.machine.enabled.get d
  state : (k'.board.cores.get c).state = .running
  pending : (k'.board.cores.get c).pending = pending
  requests : (k'.board.cores.get c).requests = (k.board.cores.get c).requests
  counts : ∀ d, (k'.board.cores.get c).lockNesting d = (k.board.cores.get c).lockNesting d
  steps : ∀ d, k'.board.engineSteps d = k.board.engineSteps d ++ if d = c then shown else []
  called : ∀ d : Fin n, k.board.machine.isCalled d = true → k'.board.machine.isCalled d = true
  exclusive : k'.board.machine.exclusive = k.board.machine.exclusive
  stays : k'.scheduler.stays = k.scheduler.stays
  reenters : k'.scheduler.reenters = k.scheduler.reenters

/-- The engine's steps in a switch on core `c`. -/
def switchSteps (k : Kernel κ n) (c : Fin n) : List EngineStep :=
  [.save (k.scheduler.current c), .select, .restore ((k.scheduler.rotate c).current c)]

structure Switched (k k' : Kernel κ n) (c : Fin n) (pending : Pending) : Prop
    extends k.EngineRan k' c (k.switchSteps c) pending where
  running : (k.board.cores.get c).state = .running
  others : ∀ d, d ≠ c → k'.board.cores.get d = k.board.cores.get d
  switches : (k'.board.cores.get c).switches = (k.board.cores.get c).switches + 1
  queues : k'.scheduler.queues = (k.scheduler.rotate c).queues

/-- Core `c` has entered its first task. If it was starting the scheduler, it has called the others
to do the same. -/
structure Entered (k k' : Kernel κ n) (c : Fin n) (starting : Prop) [Decidable starting] : Prop
    extends k.EngineRan k' c [.restore (k.scheduler.current c)] .idle where
  others : ∀ d, d ≠ c → k'.board.cores.get d =
    if starting then { k.board.cores.get d with pending := .firstTask } else k.board.cores.get d
  switches : (k'.board.cores.get c).switches = (k.board.cores.get c).switches
  queues : k'.scheduler.queues = k.scheduler.queues

/-- The engine was about to show `shown` on core `c` and has shown a part of it. -/
def Broken (k k' : Kernel κ n) (c : Fin n) (shown : List EngineStep) : Prop :=
  ∃ part, part <+: shown ∧
    ∀ d, k'.board.engineSteps d = k.board.engineSteps d ++ if d = c then part else []

variable {k k' : Kernel κ n}

theorem EngineRan.of_put {core : Core} {on : Bool} {shown : List EngineStep}
    (ready : k.board.Ready c) (cores : k'.board.cores = k.board.cores.put c core)
    (machine : k'.board.machine = k.board.machine.setEnabled on) (state : core.state = .running)
    (requests : core.requests = (k.board.cores.get c).requests)
    (counts : ∀ d, core.lockNesting d = (k.board.cores.get c).lockNesting d)
    (steps : ∀ d, k'.board.engineSteps d = k.board.engineSteps d ++ if d = c then shown else [])
    (stays : k'.scheduler.stays = k.scheduler.stays)
    (reenters : k'.scheduler.reenters = k.scheduler.reenters) :
    k.EngineRan k' c shown core.pending := by
  have own : k'.board.cores.get c = core := by rw [cores, Vector.get_put_self]
  refine ⟨⟨?_, ?_⟩, fun d apart => ?_, ?_, ?_, ?_, fun d => ?_, steps, fun d called => ?_, ?_,
    stays, reenters⟩
  · rw [machine]
    exact ready.executing
  · rw [machine]
    exact ready.known
  · rw [machine]
    exact Vector.get_put_of_ne _ (by rw [ready.executing]; exact apart.symm) _
  · rw [own, state]
  · rw [own]
  · rw [own, requests]
  · rw [own, counts]
  · rw [machine]
    exact called
  · rw [machine]
    rfl

/-- The board when core `c` restores in a switch. -/
def restoring (k : Kernel κ n) (c : Fin n) (depth : TrapDepth) : Board n :=
  (((k.board.engaged c).shows (.save c (k.scheduler.current c) (k.board.cores.get c).nesting
    depth)).shows (.select c)).shows (.restore c ((k.scheduler.rotate c).current c) depth)

theorem engineSteps_restoring (k : Kernel κ n) (depth : TrapDepth) (d : Fin n) :
    (k.restoring c depth).engineSteps d =
      k.board.engineSteps d ++ if d = c then k.switchSteps c else [] := by
  rw [restoring, Board.engineSteps_shows _ (fun _ => rfl), Board.engineSteps_shows _ (fun _ => rfl),
    Board.engineSteps_shows _ (fun _ => rfl), Board.engineSteps_engaged]
  by_cases here : d = c <;> simp [here, switchSteps]

variable [SwitchPrimitives κ] {halt : Halt → Prop} {depth : TrapDepth} {r : Resumption} {e : Halt}

theorem enterFirst_ran (ready : k.board.Ready c) (idle : (k.board.cores.get c).pending = .idle)
    (ran : enterFirst c depth k = .ok r k') : k.Entered k' c False := by
  rw [enterFirst_eq, resume_eq] at ran
  cases restored : SwitchPrimitives.restore c (k.scheduler.current c) depth k.storage with
  | error e storage =>
    rw [restored] at ran
    cases ran
  | ok r' storage =>
    rw [restored] at ran
    cases ran
    set k₂ : Kernel κ n := { k with
      board := ((k.board.entering c (k.scheduler.current c)).shows
        (.restore c (k.scheduler.current c) depth)).resumed c r, storage } with hk₂
    have shown (d : Fin n) : k₂.board.engineSteps d =
        k.board.engineSteps d ++ if d = c then [.restore (k.scheduler.current c)] else [] := by
      rw [hk₂, Board.engineSteps_resumed, Board.engineSteps_shows _ (fun _ => rfl),
        Board.engineSteps_entering]
    have cores : k₂.board.cores = k.board.cores.put c ((k.board.cores.get c).resumed r) := rfl
    have engine := EngineRan.of_put ready cores
      (masked_resumed k.board.machine (r.enabled ∧ r.nesting = 0)) rfl rfl
      (fun d => by cases d <;> rfl) shown rfl rfl
    refine ⟨idle ▸ engine, fun d apart => ?_, ?_, rfl⟩
    · exact Vector.get_put_of_ne _ apart.symm _
    · exact (congrArg Core.switches (Vector.get_put_self k.board.cores c _)).trans rfl

theorem enterFirst_broken (restores : ∀ task,
      HaltsIn halt (SwitchPrimitives.restore c task depth : StorageM κ Resumption))
    (halted : enterFirst c depth k = .error e k') :
    halt e ∧ k.Broken k' c [.restore (k.scheduler.current c)] := by
  rw [enterFirst_eq, resume_eq] at halted
  cases restored : SwitchPrimitives.restore c (k.scheduler.current c) depth k.storage with
  | ok r storage =>
    rw [restored] at halted
    cases halted
  | error e' storage =>
    rw [restored] at halted
    cases halted
    refine ⟨restores _ _ _ _ restored, _, List.prefix_rfl, fun d => ?_⟩
    rw [Board.engineSteps_shows _ (fun _ => rfl), Board.engineSteps_entering]

/-- A switch saves, selects and restores. -/
theorem switch_ran (ready : k.board.Ready c) (turns : k.TakesTurns)
    (ran : switch c depth k = .ok r k') :
    k.Switched k' c (k.board.cores.get c).pending := by
  have running := Callouts.running_of_switch ran
  rw [switch_run running turns] at ran
  cases saved : SwitchPrimitives.save c (k.scheduler.current c) (k.board.cores.get c).nesting depth
      k.storage with
  | error e storage =>
    rw [saved] at ran
    cases ran
  | ok u storage₁ =>
    rw [saved] at ran
    simp only [bind_run, resume_eq] at ran
    cases restored : SwitchPrimitives.restore c ((k.scheduler.rotate c).current c) depth
        storage₁ with
    | error e storage =>
      rw [restored] at ran
      cases ran
    | ok r' storage =>
      rw [restored] at ran
      cases ran
      set b : Board n := (k.restoring c depth).resumed c r with hb
      set k₂ : Kernel κ n := { k with
        board := b.switched c (k.scheduler.current c) ((k.scheduler.rotate c).current c) depth
        storage
        scheduler := k.scheduler.rotate c } with hk₂
      have cores : k₂.board.cores =
          k.board.cores.put c ((k.board.cores.get c).resumed r).countSwitch := by
        simp only [hk₂, hb, restoring, Board.switched, Board.resumed, Board.shows, Board.engaged,
          Vector.put_put, Vector.get_put_self, Core.resumed]
      have shown (d : Fin n) : k₂.board.engineSteps d =
          k.board.engineSteps d ++ if d = c then k.switchSteps c else [] := by
        rw [hk₂, Board.switched, Board.engineSteps_push_plain (b := b) (fun _ => rfl) rfl, hb,
          Board.engineSteps_resumed, engineSteps_restoring]
      have engine := EngineRan.of_put ready cores
        (masked_resumed k.board.machine (r.enabled ∧ r.nesting = 0)) rfl rfl
        (fun d => by cases d <;> rfl) shown rfl rfl
      have switched : k.Switched k₂ c (k.board.cores.get c).pending := by
        refine ⟨engine, running, fun d apart => ?_, ?_, rfl⟩
        · rw [cores, Vector.get_put_of_ne _ apart.symm]
        · rw [cores, Vector.get_put_self]
          rfl
      exact switched

/-- A switch that halts has not got past its restore. -/
theorem switch_broken (plain : ∀ e, e ≠ .violation .switchReentered → halt e)
    (allowed : SwitchPrimitives.HaltIn κ halt) (turns : k.TakesTurns)
    (settled : (k.board.cores.get c).state ≠ .switching)
    (halted : switch c depth k = .error e k') : halt e ∧
      ((∀ d, k'.board.engineSteps d = k.board.engineSteps d) ∨
        (k.board.cores.get c).state = .running ∧ k.Broken k' c (k.switchSteps c)) := by
  cases state : (k.board.cores.get c).state with
  | switching => exact absurd state settled
  | notStarted =>
    rw [switch, Callouts.switch_run_notStarted _ depth state] at halted
    cases halted
    exact ⟨plain _ (by simp), .inl (Board.engineSteps_push_plain (fun _ => rfl) rfl)⟩
  | running =>
    rw [switch_run state turns] at halted
    cases saved : SwitchPrimitives.save c (k.scheduler.current c) (k.board.cores.get c).nesting
        depth k.storage with
    | error e' storage =>
      rw [saved] at halted
      cases halted
      refine ⟨allowed.saves _ _ _ _ _ _ _ saved, .inr ⟨rfl, [.save (k.scheduler.current c)],
        List.prefix_append _ _, fun d => ?_⟩⟩
      rw [Board.engineSteps_shows _ (fun _ => rfl), Board.engineSteps_engaged]
    | ok u storage₁ =>
      rw [saved] at halted
      simp only [bind_run, resume_eq] at halted
      cases restored : SwitchPrimitives.restore c ((k.scheduler.rotate c).current c) depth
          storage₁ with
      | ok r storage =>
        rw [restored] at halted
        cases halted
      | error e' storage =>
        rw [restored] at halted
        cases halted
        exact ⟨allowed.restores _ _ _ _ _ _ restored, .inr ⟨rfl, _, List.prefix_rfl,
          engineSteps_restoring k depth⟩⟩

omit [SwitchPrimitives κ]

/-- What comes before the engine runs on core `c`: others may be called, and what the core was asked
to do is taken. -/
structure Prepares (k k₁ : Kernel κ n) (c : Fin n) : Prop where
  announces : k.board.Announces k₁.board
  ready : k₁.board.Ready c
  masks : ∀ d, d ≠ c → k₁.board.machine.enabled.get d = k.board.machine.enabled.get d
  states : ∀ d, (k₁.board.cores.get d).state = (k.board.cores.get d).state
  requests : (k₁.board.cores.get c).requests = (k.board.cores.get c).requests
  switches : (k₁.board.cores.get c).switches = (k.board.cores.get c).switches
  counts : ∀ d, (k₁.board.cores.get c).lockNesting d = (k.board.cores.get c).lockNesting d
  scheduler : k₁.scheduler = k.scheduler

theorem prepares_refl (ready : k.board.Ready c) : k.Prepares k c :=
  ⟨refl _, ready, fun _ _ => rfl, fun _ => rfl, rfl, rfl, fun _ => rfl, rfl⟩

theorem prepares_left (ready : k.board.Ready c) (nesting : UInt32) :
    k.Prepares (k.left c nesting) c := by
  refine ⟨⟨fun _ => rfl, rfl, fun _ => id⟩, ⟨ready.executing, ready.known⟩, fun _ _ => rfl,
    fun d => ?_, ?_, ?_, fun d => ?_, rfl⟩
  · rw [left, Vector.get_put]
    split
    · subst d
      rfl
    · rfl
  · rw [left, Vector.get_put_self]
  · rw [left, Vector.get_put_self]
  · rw [left, Vector.get_put_self]
    cases d <;> rfl

section Prepares

variable {k₁ : Kernel κ n} {shown : List EngineStep} {pending : Pending}

theorem Prepares.ran (prepares : k.Prepares k₁ c) (ran : k₁.EngineRan k' c shown pending) :
    k.EngineRan k' c shown pending where
  ready := ran.ready
  masks d apart := (ran.masks d apart).trans (prepares.masks d apart)
  state := ran.state
  pending := ran.pending
  requests := ran.requests.trans prepares.requests
  counts d := (ran.counts d).trans (prepares.counts d)
  steps d := by rw [ran.steps, prepares.announces.steps]
  called d called := ran.called d (prepares.announces.called d called)
  exclusive := ran.exclusive.trans prepares.announces.exclusive
  stays := ran.stays.trans (by rw [prepares.scheduler])
  reenters := ran.reenters.trans (by rw [prepares.scheduler])

theorem Prepares.switched (prepares : k.Prepares k₁ c)
    (others : ∀ d, d ≠ c → k₁.board.cores.get d = k.board.cores.get d)
    (switched : k₁.Switched k' c pending) : k.Switched k' c pending := by
  have same : k₁.switchSteps c = k.switchSteps c := by rw [switchSteps, prepares.scheduler]; rfl
  refine ⟨prepares.ran (same ▸ switched.toEngineRan), prepares.states c ▸ switched.running,
    fun d apart => (switched.others d apart).trans (others d apart), ?_, ?_⟩
  · rw [switched.switches, prepares.switches]
  · rw [switched.queues, prepares.scheduler]

theorem Prepares.entered {starting : Prop} [Decidable starting] (prepares : k.Prepares k₁ c)
    (others : ∀ d, d ≠ c → k₁.board.cores.get d = if starting
      then { k.board.cores.get d with pending := .firstTask } else k.board.cores.get d)
    (entered : k₁.Entered k' c False) : k.Entered k' c starting := by
  have task : k₁.scheduler.current c = k.scheduler.current c := by rw [prepares.scheduler]
  refine ⟨prepares.ran (task ▸ entered.toEngineRan), fun d apart => ?_,
    entered.switches.trans prepares.switches, ?_⟩
  · rw [entered.others d apart, if_neg (by simp), others d apart]
  · rw [entered.queues, prepares.scheduler]

theorem Prepares.broken (prepares : k.Prepares k₁ c) (broken : k₁.Broken k' c shown) :
    k.Broken k' c shown := by
  obtain ⟨part, isPrefix, steps⟩ := broken
  refine ⟨part, isPrefix, fun d => ?_⟩
  rw [steps, prepares.announces.steps]

end Prepares

/-- Core `c` has left its outermost interrupt and pended the trap for the switch it was asked
for. -/
structure HandedOn (k k' : Kernel κ n) (c : Fin n) : Prop where
  cores : k'.board.cores = k.board.cores.put c { k.board.cores.get c with
    interruptDepth := 0, pending := .idle }
  machine : k'.board.machine = k.board.machine
  steps : ∀ d, k'.board.engineSteps d = k.board.engineSteps d
  scheduler : k'.scheduler = k.scheduler

section HandingOn

variable [SwitchPrimitives κ]

theorem pendTrap_ran {core : CoreId} {u : Unit} (ran : pendTrap core k = .ok u k') :
    ∃ storage, k' = { k with board := k.board.shows (.pendTrap core), storage } := by
  simp only [pendTrap, bind_run, onBoard, Board.emit, onStorage] at ran
  cases pended : SwitchPrimitives.pend core k.storage with
  | error e storage =>
    rw [pended] at ran
    cases ran
  | ok v storage =>
    rw [pended] at ran
    cases ran
    exact ⟨storage, rfl⟩

theorem handOn_run_zero (ready : k.board.Ready c)
    (zero : (k.board.cores.get c).interruptDepth = 0) :
    endInterruptHandingOn k = .error (.violation .unmatchedInterruptExit) k := by
  simp only [endInterruptHandingOn, bind_run, onBoard, Board.executingCore_run ready.known,
    ready.executing, Board.leaveInterrupt_run_zero zero]

theorem handOn_run_inner (ready : k.board.Ready c)
    (inside : (k.board.cores.get c).interruptDepth ≠ 0)
    (inner : (k.board.cores.get c).interruptDepth ≠ 1) :
    endInterruptHandingOn k = .ok false { k with board := { k.board with
      cores := k.board.cores.put c { k.board.cores.get c with
        interruptDepth := (k.board.cores.get c).interruptDepth - 1 } } } := by
  simp only [endInterruptHandingOn, bind_run, onBoard, Board.executingCore_run ready.known,
    ready.executing, Board.leaveInterrupt_run inside, inner, decide_false, Bool.false_eq_true,
    if_false]
  rfl

/-- At the outermost level a switch is handed on; an order to enter the first task stays. -/
theorem handOn_run_outermost (ready : k.board.Ready c)
    (outermost : (k.board.cores.get c).interruptDepth = 1) :
    endInterruptHandingOn k =
      (match (k.board.cores.get c).pending with
        | .idle => return false
        | .switch => do
          pendTrap c
          return true
        | .firstTask => do
          onBoard (Board.setPending c .firstTask)
          return false : KernelM κ n Bool) (k.left c (k.board.cores.get c).nesting) := by
  have inside : (k.board.cores.get c).interruptDepth ≠ 0 := by simp [outermost]
  cases asked : (k.board.cores.get c).pending <;>
    simp only [endInterruptHandingOn, bind_run, onBoard, Board.executingCore_run ready.known,
      ready.executing, Board.leaveInterrupt_run inside, outermost, decide_true, if_true,
      Board.takePending_run, Vector.get_put_self, Vector.put_put, UInt32.sub_self, asked, left]

/-- The answer tells whether there was a switch to hand on. -/
theorem handOn_answers {answer : Bool} (ready : k.board.Ready c)
    (ran : endInterruptHandingOn k = .ok answer k') : answer = true ↔
      (k.board.cores.get c).interruptDepth = 1 ∧ (k.board.cores.get c).pending = .switch := by
  by_cases zero : (k.board.cores.get c).interruptDepth = 0
  · rw [handOn_run_zero ready zero] at ran
    cases ran
  by_cases outermost : (k.board.cores.get c).interruptDepth = 1
  · rw [handOn_run_outermost ready outermost] at ran
    cases pending : (k.board.cores.get c).pending with
    | idle | firstTask =>
      rw [pending] at ran
      cases ran
      simp
    | switch =>
      rw [pending] at ran
      obtain ⟨u, _, rfl⟩ := ran_of_return (f := fun _ => true) ran
      simp [outermost]
  · rw [handOn_run_inner ready zero outermost] at ran
    cases ran
    simp [outermost]

end HandingOn

end Kernel

end Preempt
