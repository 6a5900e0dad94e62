import Mathlib.Order.Defs.Unbundled
import Preempt.Kernel.Interrupts

/-!
What the kernel calls that switch nothing leave alone. However they end, the same core executes, no
core's engine changes its state and no core is told to enter its first task. This is shown for the
board's own operations first and then, operation by operation, for what is built from them.
-/

namespace Preempt

namespace Action

variable {ε σ α β : Type} {R S : σ → σ → Prop}

/-- The state that an action ends in, whether it completes or halts. -/
def ending : EStateM.Result ε σ α → σ
  | .ok _ s | .error _ s => s

/-- However the action ends, `R` relates the state before it to the state after it. -/
def Within (R : σ → σ → Prop) (action : EStateM ε σ α) : Prop := ∀ s, R s (ending (action s))

theorem within_ite {c : Prop} [Decidable c] {yes no : EStateM ε σ α} (first : Within R yes)
    (second : Within R no) : Within R (if c then yes else no) := by
  split
  · exact first
  · exact second

variable [IsPreorder σ R]

theorem within_pure (a : α) : Within R (pure a : EStateM ε σ α) := fun s => refl s

theorem within_throw (e : ε) : Within R (throw e : EStateM ε σ α) := fun s => refl s

theorem within_get : Within R (get : EStateM ε σ σ) := fun s => refl s

theorem Within.bind {action : EStateM ε σ α} {next : α → EStateM ε σ β} (first : Within R action)
    (rest : ∀ a, Within R (next a)) : Within R (action >>= next) := by
  intro s
  have start := first s
  rw [bind_run]
  cases ran : action s with
  | error e s₁ =>
    rw [ran] at start
    exact start
  | ok a s₁ =>
    rw [ran] at start
    exact IsTrans.trans _ _ _ start (rest a s₁)

end Action

open Preempt.Action

variable {n : Nat}

namespace Board

/-- The same core executes, the engines are where they were, and no core that did not wait for its
first task now does. -/
structure Steady (b b' : Board n) : Prop where
  executing : b'.machine.executing = b.machine.executing
  identity : b'.machine.identity = b.machine.identity
  states : ∀ c, (b'.cores.get c).state = (b.cores.get c).state
  waiting : ∀ c, (b'.cores.get c).pending = .firstTask → (b.cores.get c).pending = .firstTask

instance : IsPreorder (Board n) Steady where
  refl _ := ⟨rfl, rfl, fun _ => rfl, fun _ waits => waits⟩
  trans _ _ _ first second :=
    ⟨second.executing.trans first.executing, second.identity.trans first.identity,
      fun c => (second.states c).trans (first.states c),
      fun c waits => first.waiting c (second.waiting c waits)⟩

/-- An operation on the machine that leaves alone who executes. -/
theorem steady_of_machine {b : Board n} {m : Machine n} {trace : Trace} {tick : TickClock}
    (executing : m.executing = b.machine.executing) (identity : m.identity = b.machine.identity) :
    b.Steady { b with machine := m, trace, tick } :=
  ⟨executing, identity, fun _ => rfl, fun _ waits => waits⟩

theorem steady_of_put {b : Board n} {c : Fin n} {core : Core}
    (state : core.state = (b.cores.get c).state)
    (waiting : core.pending = .firstTask → (b.cores.get c).pending = .firstTask) :
    b.Steady { b with cores := b.cores.put c core } := by
  refine ⟨rfl, rfl, fun d => ?_, fun d => ?_⟩
  · rw [Vector.get_put]
    split
    · rename_i same
      rw [state, same]
    · rfl
  · rw [Vector.get_put]
    split
    · rename_i same
      rw [← same]
      exact waiting
    · exact id

theorem steady_onCore (c : Fin n) {f : Core → Core} (state : ∀ k, (f k).state = k.state)
    (waiting : ∀ k, (f k).pending = .firstTask → k.pending = .firstTask) :
    Within Steady (onCore c f) :=
  fun _ => steady_of_put (state _) (waiting _)

/-- A change of the core's counts alone. -/
theorem steady_counts (c : Fin n) {f : Core → Core}
    (counts : ∀ k, (f k).state = k.state ∧ (f k).pending = k.pending) :
    Within Steady (onCore c f) :=
  steady_onCore c (fun k => (counts k).1) fun k waits => by rwa [(counts k).2] at waits

theorem steady_emit (e : Event) : Within (Steady (n := n)) (emit e) :=
  fun _ => steady_of_machine rfl rfl

theorem steady_log (entry : LogEntry) : Within (Steady (n := n)) (log entry) :=
  fun _ => steady_of_machine rfl rfl

theorem steady_machineOf : Within (Steady (n := n)) machineOf := fun b => refl b

theorem steady_core (c : Fin n) : Within Steady (core c) := fun b => refl b

theorem steady_ownId : Within (Steady (n := n)) ownId := fun b => refl b

theorem steady_executingCore : Within (Steady (n := n)) executingCore := by
  refine steady_ownId.bind fun core => ?_
  split
  · exact within_pure _
  · exact within_throw _

theorem executingCore_run {b : Board n} (known : b.machine.identity = none) :
    executingCore b = .ok b.machine.executing b := by
  have who : b.machine.ownId = b.machine.executing := by simp [Machine.ownId, known]
  simp only [executingCore, ownId, Action.bind_run, Action.pure_run, machineOf, who, lookup,
    Fin.is_lt, dif_pos, Fin.eta]

theorem steady_disable : Within (Steady (n := n)) disable :=
  fun _ => steady_of_machine rfl rfl

theorem steady_enable : Within (Steady (n := n)) enable :=
  fun _ => steady_of_machine rfl rfl

theorem steady_saveMask : Within (Steady (n := n)) saveMask :=
  fun _ => steady_of_machine rfl rfl

theorem steady_restoreMask (wasEnabled : Bool) :
    Within (Steady (n := n)) (restoreMask wasEnabled) :=
  within_ite steady_enable (within_pure _)

theorem steady_testAndSet (bit : UInt32) : Within (Steady (n := n)) (testAndSet bit) :=
  fun _ => steady_of_machine rfl rfl

theorem steady_clear (bit : UInt32) : Within (Steady (n := n)) (clear bit) :=
  fun _ => steady_of_machine rfl rfl

theorem steady_snooze : Within (Steady (n := n)) snooze := by
  refine (steady_emit _).bind fun _ => Within.bind (fun b => ?_) fun _ =>
    steady_machineOf.bind fun m => within_ite (within_throw _) (within_pure _)
  have who : b.machine.snooze.executing = b.machine.executing ∧
      b.machine.snooze.identity = b.machine.identity := by
    unfold Machine.snooze
    rcases b.machine.promise with _ | ⟨_ | k, bit⟩ <;> exact ⟨rfl, rfl⟩
  exact steady_of_machine who.1 who.2

theorem steady_sendIpi (target : CoreId) : Within (Steady (n := n)) (sendIpi target) :=
  fun _ => steady_of_machine rfl rfl

theorem steady_clearIpi : Within (Steady (n := n)) clearIpi :=
  fun _ => steady_of_machine rfl rfl

theorem steady_timerStop : Within (Steady (n := n)) timerStop :=
  fun _ => steady_of_machine rfl rfl

theorem steady_rearm (period : UInt32) : Within (Steady (n := n)) (rearm period) :=
  fun _ => steady_of_machine rfl rfl

theorem steady_acknowledge : Within (Steady (n := n)) acknowledge := by
  refine Within.bind (fun _ => steady_of_machine rfl rfl) fun _ =>
    Within.bind (fun b => refl b) fun clock => (steady_rearm _).bind fun left => ?_
  cases left with
  | none => exact within_pure _
  | some remaining =>
    refine within_ite (Within.bind (fun _ => steady_of_machine rfl rfl) fun _ =>
      (steady_log _).bind fun _ => ?_) (within_pure _)
    exact within_ite (within_throw _) (within_pure _)

theorem steady_spin {attempt : BoardM n Bool} {wait giveUp : BoardM n Unit}
    (tries : Within Steady attempt) (waits : Within Steady wait)
    (gives : Within Steady giveUp) (bound : Nat) :
    Within Steady (spin attempt wait giveUp bound) := by
  induction bound with
  | zero => exact gives
  | succ bound ih =>
    exact tries.bind fun won => within_ite (within_pure _) (waits.bind fun _ => ih)

theorem steady_lock (bit : UInt32) : Within (Steady (n := n)) (lock bit) :=
  steady_machineOf.bind fun _ =>
    steady_spin (steady_testAndSet bit) steady_snooze (within_throw _) _

theorem steady_setLockNesting (c : Fin n) (d : LockClass) (count : Core → UInt32) :
    Within Steady (onCore c fun k => k.setLockNesting d (count k)) := by
  refine steady_counts c fun k => ?_
  cases d <;> exact ⟨rfl, rfl⟩

theorem steady_acquire (c : Fin n) (d : LockClass) : Within Steady (acquire c d) := by
  rw [acquire_eq]
  refine steady_saveMask.bind fun wasEnabled => (steady_core c).bind fun core => ?_
  have count := (steady_setLockNesting c d fun k => k.lockNesting d + 1).bind fun _ =>
    steady_restoreMask wasEnabled
  exact within_ite ((steady_lock d.bit).bind fun _ => count) count

theorem steady_release (c : Fin n) (d : LockClass) : Within Steady (release c d) := by
  refine steady_saveMask.bind fun wasEnabled => (steady_core c).bind fun core =>
    within_ite (within_throw _) ?_
  refine (steady_setLockNesting c d fun k => k.lockNesting d - 1).bind fun _ => ?_
  exact within_ite ((steady_clear _).bind fun _ => steady_restoreMask wasEnabled)
    (steady_restoreMask wasEnabled)

theorem steady_guarded (c : Fin n) {body : BoardM n Unit} (steady : Within Steady body) :
    Within Steady (guarded c body) := by
  refine steady_saveMask.bind fun wasEnabled => Within.bind ?_ fun _ =>
    (steady_restoreMask wasEnabled).bind fun _ => within_pure _
  exact within_ite ((steady_acquire c .isr).bind fun _ => steady.bind fun _ =>
    (steady_release c .isr).bind fun _ => within_pure _) steady

theorem steady_requestSwitch (c : Fin n) : Within Steady (requestSwitch c) := by
  refine (steady_core c).bind fun core => (steady_onCore c (fun k => ?_) fun k waits => ?_).bind
    fun _ => within_pure _
  · unfold Core.request
    split <;> rfl
  · rw [Core.request_pending] at waits
    cases pending : k.pending with
    | idle => simp [pending, Pending.raise] at waits
    | switch => simp [pending, Pending.raise] at waits
    | firstTask => rfl

theorem steady_enterInterrupt (c : Fin n) : Within Steady (enterInterrupt c) := by
  refine (steady_core c).bind fun core => Within.bind ?_ fun _ =>
    within_ite (within_throw _) (within_pure _)
  exact steady_counts c fun _ => ⟨rfl, rfl⟩

theorem steady_enterNesting (c : Fin n) : Within Steady (enterNesting c) := by
  refine steady_disable.bind fun _ => (steady_core c).bind fun core => Within.bind ?_ fun _ =>
    within_pure _
  exact steady_counts c fun _ => ⟨rfl, rfl⟩

theorem steady_exitNesting (c : Fin n) : Within Steady (exitNesting c) := by
  refine (steady_core c).bind fun core => within_ite (within_throw _) ?_
  refine Within.bind (steady_counts c fun _ => ⟨rfl, rfl⟩) fun _ => ?_
  exact within_ite (steady_enable.bind fun _ => within_pure _) (within_pure _)

theorem steady_enterCritical (c : Fin n) : Within Steady (enterCritical c) :=
  (steady_enterNesting c).bind fun _ => (steady_core c).bind fun _ =>
    within_ite (within_throw _) (within_pure _)

theorem steady_exitCritical (c : Fin n) : Within Steady (exitCritical c) :=
  (steady_exitNesting c).bind fun _ => within_pure _

theorem leaveInterrupt_run_zero {c : Fin n} {b : Board n}
    (zero : (b.cores.get c).interruptDepth = 0) :
    leaveInterrupt c b = .error (.violation .unmatchedInterruptExit) b := by
  simp only [leaveInterrupt, bind_run, core, zero, if_true]
  rfl

theorem leaveInterrupt_run {c : Fin n} {b : Board n} (inside : (b.cores.get c).interruptDepth ≠ 0) :
    leaveInterrupt c b = .ok ((b.cores.get c).interruptDepth = 1)
      { b with cores := b.cores.put c { b.cores.get c with
          interruptDepth := (b.cores.get c).interruptDepth - 1 } } := by
  simp only [leaveInterrupt, bind_run, core, inside, if_false, onCore, pure_run]

theorem takePending_run (c : Fin n) (b : Board n) :
    takePending c b = .ok (b.cores.get c).pending
      { b with cores := b.cores.put c { b.cores.get c with pending := .idle } } := rfl

theorem steady_leaveInterrupt (c : Fin n) : Within Steady (leaveInterrupt c) := by
  refine (steady_core c).bind fun core => within_ite (within_throw _) ?_
  exact Within.bind (steady_counts c fun _ => ⟨rfl, rfl⟩) fun _ => within_pure _

theorem steady_takePending (c : Fin n) : Within Steady (takePending c) :=
  (steady_core c).bind fun _ =>
    Within.bind (steady_onCore c (fun _ => rfl) fun _ waits => by cases waits) fun _ =>
      within_pure _

end Board

end Preempt
