import Preempt.Proofs.Interplay.Advance

/-!
What a core touches on its turn. Of the machine it changes its own mask and timer, and of the
per-core state its own record; a request by inter-processor interrupt is made or taken only for a
core with the same bit. `Board.KeepsTo` is shown of each operation and then of every call that makes
no request of another core.
-/

namespace Preempt

open Preempt.Action
open Kernel (onBoard)
open Relation (ReflTransGen)

variable {κ : Type} {n : Nat} {α : Type} {c : Fin n}

/-- Of the machine core `c` has changed nothing that belongs to another core. The requests by
inter-processor interrupt have one bit for every 32 cores. -/
structure Machine.Apart (c : Fin n) (m m' : Machine n) : Prop where
  executing : m'.executing = m.executing
  identity : m'.identity = m.identity
  enabled : ∀ d, d ≠ c → m'.enabled.get d = m.enabled.get d
  timers : ∀ d, d ≠ c → m'.timers.get d = m.timers.get d
  called : ∀ d : CoreId, d % 32 ≠ c.val % 32 → m'.isCalled d = m.isCalled d

namespace Machine

variable {m : Machine n}

theorem apart_setEnabled (mine : m.executing = c) (on : Bool) : m.Apart c (m.setEnabled on) := by
  refine ⟨rfl, rfl, fun d other => ?_, fun _ _ => rfl, fun _ _ => rfl⟩
  rw [setEnabled, mine, Vector.get_put_of_ne _ other.symm]

theorem apart_updateTimer (mine : m.executing = c) (f : Timer → Timer) :
    m.Apart c (m.updateTimer f) := by
  refine ⟨rfl, rfl, fun _ _ => rfl, fun d other => ?_, fun _ _ => rfl⟩
  rw [updateTimer, mine, Vector.get_put_of_ne _ other.symm]

theorem apart_setBit (bit : UInt32) : m.Apart c (m.setBit bit) :=
  ⟨rfl, rfl, fun _ _ => rfl, fun _ _ => rfl, fun _ _ => rfl⟩

theorem apart_clearBit (bit : UInt32) : m.Apart c (m.clearBit bit) :=
  ⟨rfl, rfl, fun _ _ => rfl, fun _ _ => rfl, fun _ _ => rfl⟩

/-- What the others do during a wait is to clear a bit of the exclusive word. -/
theorem apart_snooze : m.Apart c m.snooze := by
  unfold snooze
  rcases m.promise with _ | ⟨_ | k, bit⟩ <;>
    exact ⟨rfl, rfl, fun _ _ => rfl, fun _ _ => rfl, fun _ _ => rfl⟩

theorem apart_clearIpi (mine : m.executing = c) : m.Apart c m.clearIpi := by
  refine ⟨rfl, rfl, fun _ _ => rfl, fun _ _ => rfl, fun d other => ?_⟩
  rw [isCalled_clearIpi, mine, decide_eq_false other.symm, Bool.not_false, Bool.and_true]

end Machine

namespace Board

/-- It is still the turn of core `c`, which has changed nothing that belongs to another core. -/
structure Apart (c : Fin n) (b b' : Board n) : Prop where
  ready : b'.Ready c
  cores : ∀ d, d ≠ c → b'.cores.get d = b.cores.get d
  enabled : ∀ d, d ≠ c → b'.machine.enabled.get d = b.machine.enabled.get d
  timers : ∀ d, d ≠ c → b'.machine.timers.get d = b.machine.timers.get d
  called : ∀ d : CoreId, d % 32 ≠ c.val % 32 → b'.machine.isCalled d = b.machine.isCalled d

/-- On its turn core `c` keeps to what is its own. -/
def KeepsTo (c : Fin n) (b b' : Board n) : Prop := b.Ready c → b.Apart c b'

theorem Apart.trans {b₁ b₂ b₃ : Board n} (first : b₁.Apart c b₂) (second : b₂.Apart c b₃) :
    b₁.Apart c b₃ where
  ready := second.ready
  cores d other := (second.cores d other).trans (first.cores d other)
  enabled d other := (second.enabled d other).trans (first.enabled d other)
  timers d other := (second.timers d other).trans (first.timers d other)
  called d other := (second.called d other).trans (first.called d other)

instance : IsPreorder (Board n) (KeepsTo c) where
  refl _ ready := ⟨ready, fun _ _ => rfl, fun _ _ => rfl, fun _ _ => rfl, fun _ _ => rfl⟩
  trans _ _ _ first second ready := (first ready).trans (second (first ready).ready)

theorem apart_of_machine {b : Board n} {m : Machine n} {trace : Trace} {tick : TickClock}
    (ready : b.Ready c) (machine : b.machine.Apart c m) :
    b.Apart c { b with machine := m, trace, tick } :=
  ⟨⟨machine.executing.trans ready.executing, machine.identity.trans ready.known⟩, fun _ _ => rfl,
    machine.enabled, machine.timers, machine.called⟩

theorem apart_of_put {b : Board n} (ready : b.Ready c) (core : Core) :
    b.Apart c { b with cores := b.cores.put c core } :=
  ⟨⟨ready.executing, ready.known⟩, fun _ other => Vector.get_put_of_ne _ other.symm _,
    fun _ _ => rfl, fun _ _ => rfl, fun _ _ => rfl⟩

/-! The board's own operations. -/

theorem keepsTo_onMachine {f : Machine n → Machine n}
    (step : ∀ m : Machine n, m.executing = c → m.Apart c (f m)) :
    Ensures (KeepsTo c) (onMachine f) :=
  .of_run (fun _ => rfl) fun b ready => apart_of_machine ready (step b.machine ready.executing)

theorem keepsTo_emit (e : Event) : Ensures (KeepsTo c) (emit e) :=
  .of_run (fun _ => rfl) fun _ ready => ⟨⟨ready.executing, ready.known⟩, fun _ _ => rfl,
    fun _ _ => rfl, fun _ _ => rfl, fun _ _ => rfl⟩

theorem keepsTo_log (entry : LogEntry) : Ensures (KeepsTo c) (log entry) := keepsTo_emit _

theorem keepsTo_machineOf : Ensures (KeepsTo c) machineOf := .of_run (fun _ => rfl) refl

theorem keepsTo_tickClock : Ensures (KeepsTo c) tickClock := .of_run (fun _ => rfl) refl

theorem keepsTo_core (d : Fin n) : Ensures (KeepsTo c) (core d) := .of_run (fun _ => rfl) refl

theorem keepsTo_ownId : Ensures (KeepsTo c) ownId := .of_run (fun _ => rfl) refl

theorem keepsTo_onCore (f : Core → Core) : Ensures (KeepsTo c) (onCore c f) :=
  .of_run (fun _ => rfl) fun _ ready => apart_of_put ready _

/-- The executing core is the one whose turn it is. -/
theorem keepsTo_executingCore {next : Fin n → BoardM n α} (rest : Ensures (KeepsTo c) (next c)) :
    Ensures (KeepsTo c) (executingCore >>= next) := by
  intro b a b' ran ready
  rw [bind_run, executingCore_run ready.known, ready.executing] at ran
  exact rest b a b' ran ready

theorem keepsTo_access (e : Event) {f : Machine n → Machine n}
    (step : ∀ m : Machine n, m.executing = c → m.Apart c (f m)) :
    Ensures (KeepsTo c) (do
      emit e
      onMachine f) :=
  (keepsTo_emit e).bind fun _ => keepsTo_onMachine step

theorem keepsTo_disable : Ensures (KeepsTo c) disable :=
  keepsTo_access _ fun _ mine => Machine.apart_setEnabled mine false

theorem keepsTo_enable : Ensures (KeepsTo c) enable :=
  keepsTo_access _ fun _ mine => Machine.apart_setEnabled mine true

theorem keepsTo_saveMask : Ensures (KeepsTo c) saveMask :=
  (keepsTo_machineOf.bind fun _ => ensures_pure _).bind fun _ => keepsTo_disable.bind fun _ =>
    ensures_pure _

theorem keepsTo_restoreMask (wasEnabled : Bool) : Ensures (KeepsTo c) (restoreMask wasEnabled) :=
  ensures_ite (keepsTo_enable.bind fun _ => ensures_pure _) (ensures_pure _)

theorem keepsTo_timerStart (period : UInt32) : Ensures (KeepsTo c) (timerStart period) :=
  keepsTo_access _ fun _ mine => Machine.apart_updateTimer mine _

theorem keepsTo_timerStop : Ensures (KeepsTo c) timerStop :=
  keepsTo_access _ fun _ mine => Machine.apart_updateTimer mine _

theorem keepsTo_tickStart : Ensures (KeepsTo c) tickStart :=
  keepsTo_tickClock.bind fun _ => (keepsTo_log _).bind fun _ => keepsTo_timerStart _

theorem keepsTo_rearm (period : UInt32) : Ensures (KeepsTo c) (rearm period) :=
  (keepsTo_emit _).bind fun _ =>
    (keepsTo_onMachine fun _ mine => Machine.apart_updateTimer mine _).bind fun _ =>
      keepsTo_machineOf.bind fun _ => ensures_pure _

theorem keepsTo_acknowledge : Ensures (KeepsTo c) acknowledge := by
  refine Ensures.bind (keepsTo_access _ fun _ mine => Machine.apart_updateTimer mine _) fun _ =>
    keepsTo_tickClock.bind fun clock => (keepsTo_rearm _).bind fun left => ?_
  cases left with
  | none => exact ensures_pure _
  | some remaining =>
    refine ensures_ite (Ensures.bind (.of_run (fun _ => rfl) fun b ready => ?_) fun _ =>
      (keepsTo_log _).bind fun _ => ensures_ite (ensures_throw _) (ensures_pure _)) (ensures_pure _)
    exact ⟨⟨ready.executing, ready.known⟩, fun _ _ => rfl, fun _ _ => rfl, fun _ _ => rfl,
      fun _ _ => rfl⟩

theorem keepsTo_testAndSet (bit : UInt32) : Ensures (KeepsTo c) (testAndSet bit) :=
  .of_run (testAndSet_run bit) fun _ ready => apart_of_machine ready (Machine.apart_setBit bit)

theorem keepsTo_clear (bit : UInt32) : Ensures (KeepsTo c) (clear bit) :=
  keepsTo_access _ fun _ _ => Machine.apart_clearBit bit

theorem keepsTo_snooze : Ensures (KeepsTo c) snooze :=
  (keepsTo_emit _).bind fun _ => (keepsTo_onMachine fun _ _ => Machine.apart_snooze).bind fun _ =>
    keepsTo_machineOf.bind fun _ => ensures_ite (ensures_throw _) (ensures_pure _)

theorem keepsTo_clearIpi : Ensures (KeepsTo c) clearIpi :=
  keepsTo_access _ fun _ mine => Machine.apart_clearIpi mine

/-! Nesting and locks. -/

theorem keepsTo_spin {attempt : BoardM n Bool} {wait giveUp : BoardM n Unit}
    (tries : Ensures (KeepsTo c) attempt) (waits : Ensures (KeepsTo c) wait)
    (gives : Ensures (KeepsTo c) giveUp) (bound : Nat) :
    Ensures (KeepsTo c) (spin attempt wait giveUp bound) := by
  induction bound with
  | zero => exact gives
  | succ bound ih =>
    exact tries.bind fun _ => ensures_ite (ensures_pure _) (waits.bind fun _ => ih)

theorem keepsTo_lock (bit : UInt32) : Ensures (KeepsTo c) (lock bit) :=
  keepsTo_machineOf.bind fun _ =>
    keepsTo_spin (keepsTo_testAndSet bit) keepsTo_snooze (ensures_throw _) _

theorem keepsTo_acquire (d : LockClass) : Ensures (KeepsTo c) (acquire c d) := by
  have counts (wasEnabled : Bool) : Ensures (KeepsTo c) (do
      onCore c (·.raiseLock d)
      restoreMask wasEnabled) := (keepsTo_onCore _).bind fun _ => keepsTo_restoreMask _
  rw [acquire_eq]
  exact keepsTo_saveMask.bind fun wasEnabled => (keepsTo_core c).bind fun _ =>
    ensures_ite ((keepsTo_lock _).bind fun _ => counts wasEnabled) (counts wasEnabled)

theorem keepsTo_release (d : LockClass) : Ensures (KeepsTo c) (release c d) :=
  keepsTo_saveMask.bind fun wasEnabled => (keepsTo_core c).bind fun _ =>
    ensures_ite (ensures_throw _) ((keepsTo_onCore _).bind fun _ =>
      ensures_ite ((keepsTo_clear _).bind fun _ => keepsTo_restoreMask wasEnabled)
        (keepsTo_restoreMask wasEnabled))

theorem keepsTo_enterCritical : Ensures (KeepsTo c) (enterCritical c) :=
  Ensures.bind (keepsTo_disable.bind fun _ => (keepsTo_core c).bind fun _ =>
    (keepsTo_onCore _).bind fun _ => ensures_pure _) fun _ => (keepsTo_core c).bind fun _ =>
      ensures_ite (ensures_throw _) (ensures_pure _)

theorem keepsTo_exitCritical : Ensures (KeepsTo c) (exitCritical c) :=
  Ensures.bind ((keepsTo_core c).bind fun _ => ensures_ite (ensures_throw _)
    ((keepsTo_onCore _).bind fun _ =>
      ensures_ite (keepsTo_enable.bind fun _ => ensures_pure _) (ensures_pure _)))
    fun _ => ensures_pure _

theorem keepsTo_enterInterrupt : Ensures (KeepsTo c) (enterInterrupt c) :=
  (keepsTo_core c).bind fun _ => (keepsTo_onCore _).bind fun _ =>
    ensures_ite (ensures_throw _) (ensures_pure _)

theorem keepsTo_leaveInterrupt : Ensures (KeepsTo c) (leaveInterrupt c) :=
  (keepsTo_core c).bind fun _ => ensures_ite (ensures_throw _)
    ((keepsTo_onCore _).bind fun _ => ensures_pure _)

theorem keepsTo_requestSwitch : Ensures (KeepsTo c) (requestSwitch c) :=
  (keepsTo_core c).bind fun _ => (keepsTo_onCore _).bind fun _ => ensures_pure _

theorem keepsTo_takePending : Ensures (KeepsTo c) (takePending c) :=
  (keepsTo_core c).bind fun _ => (keepsTo_onCore _).bind fun _ => ensures_pure _

theorem keepsTo_resetNesting : Ensures (KeepsTo c) (resetNesting c) :=
  .of_run (fun _ => rfl) fun _ ready => apart_of_put ready _

theorem keepsTo_guarded {body : BoardM n Unit} (keeps : Ensures (KeepsTo c) body) :
    Ensures (KeepsTo c) (guarded c body) := by
  refine keepsTo_saveMask.bind fun wasEnabled => Ensures.bind ?_ fun _ =>
    (keepsTo_restoreMask wasEnabled).bind fun _ => ensures_pure _
  exact ensures_ite ((keepsTo_acquire .isr).bind fun _ => keeps.bind fun _ =>
    (keepsTo_release .isr).bind fun _ => ensures_pure _) keeps

end Board

namespace Kernel

variable [SwitchPrimitives κ]

/-- Core `c` has pended traps of its own. -/
def PendsOwn (c : Fin n) : Storage κ → Storage κ → Prop :=
  ReflTransGen fun s s' => SwitchPrimitives.pend c s = .ok () s'

/-- Core `c` has changed nothing that belongs to another core, nor the turns that the tasks take,
and of the contexts only its own trap. -/
structure Apart (c : Fin n) (k k' : Kernel κ n) : Prop where
  board : k.board.Apart c k'.board
  queues : k'.scheduler.queues = k.scheduler.queues
  storage : PendsOwn c k.storage k'.storage

def KeepsTo (c : Fin n) (k k' : Kernel κ n) : Prop := k.board.Ready c → k.Apart c k'

instance : IsPreorder (Kernel κ n) (KeepsTo c) where
  refl k ready := ⟨refl_of (Board.KeepsTo c) k.board ready, rfl, .refl⟩
  trans _ _ _ first second ready :=
    ⟨(first ready).board.trans (second (first ready).board.ready).board,
      (second (first ready).board.ready).queues.trans (first ready).queues,
      (first ready).storage.trans (second (first ready).board.ready).storage⟩

theorem keepsTo_onBoard {action : BoardM n α} (keeps : Ensures (Board.KeepsTo c) action) :
    Ensures (KeepsTo c) (onBoard action : KernelM κ n α) := by
  intro k a k' ran ready
  obtain ⟨b, acted, rfl⟩ := onBoard_ran ran
  exact ⟨keeps _ _ _ acted ready, rfl, .refl⟩

theorem keepsTo_executingCore {next : Fin n → KernelM κ n α} (rest : Ensures (KeepsTo c) (next c)) :
    Ensures (KeepsTo c) (onBoard Board.executingCore >>= next) := by
  intro k a k' ran ready
  rw [bind_run, onBoard, Board.executingCore_run ready.known, ready.executing] at ran
  exact rest k a k' ran ready

theorem keepsTo_pendTrap : Ensures (KeepsTo c) (pendTrap c : KernelM κ n Unit) := by
  refine (keepsTo_onBoard (Board.keepsTo_emit _)).bind fun _ k a k' ran ready => ?_
  unfold onStorage at ran
  cases pended : SwitchPrimitives.pend c k.storage with
  | error halt s =>
    rw [pended] at ran
    cases ran
  | ok u s =>
    rw [pended] at ran
    cases ran
    exact ⟨refl_of (Board.KeepsTo c) k.board ready, rfl, .single pended⟩

theorem keepsTo_yield : Ensures (KeepsTo c) (yield : KernelM κ n Unit) := by
  intro k a k' ran ready
  have known : onBoard Board.ownId k = .ok c.val k := by
    simp only [onBoard, Board.ownId, bind_run, Board.machineOf, pure_run, Machine.ownId,
      ready.known, ready.executing, Option.getD_none]
  rw [yield, bind_run, known] at ran
  exact keepsTo_pendTrap k a k' ran ready

theorem keepsTo_guarded {body : KernelM κ n α} (keeps : Ensures (KeepsTo c) body) :
    Ensures (KeepsTo c) (Board.guarded c body) := by
  have inner : Ensures (KeepsTo c) (if 1 < n then Board.withLock c .isr body else body) :=
    ensures_ite ((keepsTo_onBoard (Board.keepsTo_acquire .isr)).bind fun _ =>
      keeps.bind fun _ => (keepsTo_onBoard (Board.keepsTo_release .isr)).bind fun _ =>
        ensures_pure _) keeps
  exact (keepsTo_onBoard Board.keepsTo_saveMask).bind fun wasEnabled => inner.bind fun _ =>
    (keepsTo_onBoard (Board.keepsTo_restoreMask wasEnabled)).bind fun _ => ensures_pure _

theorem keepsTo_countTick : Ensures (KeepsTo c) (countTick : KernelM κ n Bool) :=
  (keepsTo_onBoard Board.keepsTo_machineOf).bind fun _ =>
    (keepsTo_onBoard (Board.keepsTo_emit _)).bind fun _ =>
      Ensures.bind (.of_run (fun _ => rfl) fun k ready =>
        ⟨refl_of (Board.KeepsTo c) k.board ready, rfl, .refl⟩) fun _ =>
          Ensures.bind (.of_run get_run refl) fun _ => ensures_pure _

theorem keepsTo_onTick :
    Ensures (KeepsTo c) (onTick : KernelM κ n Arrival) := by
  rw [onTick_eq]
  refine keepsTo_executingCore ?_
  refine (keepsTo_onBoard Board.keepsTo_acknowledge).bind fun _ =>
    (keepsTo_guarded keepsTo_countTick).bind fun due => ?_
  have logs (arrival : Arrival) : Ensures (KeepsTo c) (do
      onBoard (Board.log (.tick c due))
      return arrival : KernelM κ n Arrival) :=
    (keepsTo_onBoard (Board.keepsTo_log _)).bind fun _ => ensures_pure _
  exact ensures_ite ((keepsTo_onBoard Board.keepsTo_requestSwitch).bind fun _ => logs _) (logs _)

end Kernel

/-- The calls that neither get as far as the engine nor make a request of another core. -/
def PortCall.isOwn : PortCall → Bool
  | start | onTrap | endInterrupt | yieldTo _ => false
  | _ => true

theorem PortCall.keepsTo_of_own [SwitchPrimitives κ] {call : PortCall} (own : call.isOwn = true) :
    Ensures (Kernel.KeepsTo c) (call.perform : KernelM κ n (Option Resumption)) := by
  have board {α : Type} {action : BoardM n α} (keeps : Ensures (Board.KeepsTo c) action) :
      Ensures (Kernel.KeepsTo c) (do
        let _ ← onBoard action
        return none : KernelM κ n (Option Resumption)) :=
    (Kernel.keepsTo_onBoard keeps).bind fun _ => ensures_pure _
  cases call with
  | start | onTrap | endInterrupt | yieldTo => cases own
  | stop => exact board (Board.keepsTo_timerStop.bind fun _ => Board.keepsTo_ownId.bind fun _ =>
      Board.keepsTo_log _)
  | enterCritical => exact board (Board.keepsTo_executingCore Board.keepsTo_enterCritical)
  | exitCritical => exact board (Board.keepsTo_executingCore Board.keepsTo_exitCritical)
  | lock d =>
    refine board ?_
    rw [Kernel.lock_eq]
    exact Board.keepsTo_executingCore (Board.keepsTo_acquire d)
  | unlock d => exact board (Board.keepsTo_executingCore (Board.keepsTo_release d))
  | lockShared =>
    refine board ?_
    rw [Kernel.lockShared_eq]
    exact Board.keepsTo_executingCore ((Board.keepsTo_core c).bind fun _ =>
      (Board.keepsTo_acquire _).bind fun _ => ensures_pure _)
  | yield => exact Kernel.keepsTo_yield.bind fun _ => ensures_pure _
  | beginInterrupt => exact board (Board.keepsTo_executingCore Board.keepsTo_enterInterrupt)
  | onTick => exact Kernel.keepsTo_onTick.bind fun _ => ensures_pure _
  | onIpi =>
    refine board ?_
    rw [Kernel.onIpi_eq]
    exact Board.keepsTo_executingCore ((Board.keepsTo_guarded
      (Board.keepsTo_requestSwitch.bind fun _ => Board.keepsTo_clearIpi)).bind fun _ =>
        (Board.keepsTo_core c).bind fun _ => Board.keepsTo_log _)
  | endInterruptHandingOn =>
    refine Ensures.bind (Kernel.keepsTo_executingCore ?_) fun _ => ensures_pure _
    refine (Kernel.keepsTo_onBoard Board.keepsTo_leaveInterrupt).bind fun _ =>
      ensures_ite ((Kernel.keepsTo_onBoard Board.keepsTo_takePending).bind fun request => ?_)
        (ensures_pure _)
    cases request with
    | idle => exact ensures_pure _
    | switch => exact Kernel.keepsTo_pendTrap.bind fun _ => ensures_pure _
    | firstTask => exact (Kernel.keepsTo_onBoard (Board.keepsTo_onCore _)).bind fun _ =>
        ensures_pure _

end Preempt
