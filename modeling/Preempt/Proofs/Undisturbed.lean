import Mathlib.Algebra.Group.Nat.Defs
import Mathlib.Logic.Relation
import Preempt.Proofs.Calls
import Preempt.Proofs.Nesting

/-!
What the kernel calls that switch nothing leave as it was once they have completed. They put every
interrupt mask back, change no critical nesting, and neither order a core to enter its first task
nor take such an order back. Critical sections are the exception, and are run out here.
-/

namespace Preempt

namespace Action

variable {ε σ α β : Type} {R S T : σ → σ → Prop}

theorem ran_of_bind {action : EStateM ε σ α} {next : α → EStateM ε σ β} {s u : σ} {b : β}
    (ran : (action >>= next) s = .ok b u) : ∃ a t, action s = .ok a t ∧ next a t = .ok b u := by
  rw [bind_run] at ran
  cases acted : action s with
  | ok a t =>
    rw [acted] at ran
    exact ⟨a, t, rfl, ran⟩
  | error e t =>
    rw [acted] at ran
    cases ran

theorem ran_of_return {action : EStateM ε σ α} {f : α → β} {s u : σ} {b : β}
    (ran : (do return f (← action)) s = .ok b u) : ∃ a, action s = .ok a u ∧ b = f a := by
  obtain ⟨a, t, acted, ran⟩ := ran_of_bind ran
  cases ran
  exact ⟨a, acted, rfl⟩

/-- If the action completes, `R` relates the state before it to the state after it. -/
def Ensures (R : σ → σ → Prop) (action : EStateM ε σ α) : Prop :=
  ∀ s a s', action s = .ok a s' → R s s'

theorem Ensures.of_run {action : EStateM ε σ α} {answer : σ → α} {after : σ → σ}
    (run : ∀ s, action s = .ok (answer s) (after s)) (step : ∀ s, R s (after s)) :
    Ensures R action := by
  intro s a s' ran
  rw [run] at ran
  cases ran
  exact step s

theorem Ensures.compose {action : EStateM ε σ α} {next : α → EStateM ε σ β}
    (first : Ensures R action) (rest : ∀ a, Ensures S (next a))
    (both : ∀ {s t u}, R s t → S t u → T s u) : Ensures T (action >>= next) := by
  intro s b u ran
  obtain ⟨a, t, acted, ran⟩ := ran_of_bind ran
  exact both (first s a t acted) (rest a t b u ran)

theorem Ensures.bind [IsTrans σ R] {action : EStateM ε σ α} {next : α → EStateM ε σ β}
    (first : Ensures R action) (rest : ∀ a, Ensures R (next a)) : Ensures R (action >>= next) :=
  first.compose rest fun before after => IsTrans.trans _ _ _ before after

theorem ensures_pure [Std.Refl R] (a : α) : Ensures R (pure a : EStateM ε σ α) :=
  .of_run (fun s => pure_run a s) refl

theorem ensures_throw (e : ε) : Ensures R (throw e : EStateM ε σ α) := by
  intro s a s' ran
  cases ran

theorem ensures_ite {c : Prop} [Decidable c] {yes no : EStateM ε σ α} (first : Ensures R yes)
    (second : Ensures R no) : Ensures R (if c then yes else no) := by
  split
  · exact first
  · exact second

end Action

open Preempt.Action

variable {n : Nat} {α : Type}

/-- A core keeps its engine, its nesting and its order to enter a first task, if it has one. -/
structure Core.Persists (core core' : Core) : Prop where
  state : core'.state = core.state
  nesting : core'.nesting = core.nesting
  waits : core'.pending = .firstTask ↔ core.pending = .firstTask

namespace Board

/-- The same core executes, every core persists and every mask is as it was. -/
structure Undisturbed (b b' : Board n) : Prop where
  executing : b'.machine.executing = b.machine.executing
  identity : b'.machine.identity = b.machine.identity
  enabled : b'.machine.enabled = b.machine.enabled
  cores : ∀ c, (b.cores.get c).Persists (b'.cores.get c)

instance : IsPreorder (Board n) Undisturbed where
  refl _ := ⟨rfl, rfl, rfl, fun _ => ⟨rfl, rfl, Iff.rfl⟩⟩
  trans _ _ _ first second :=
    ⟨second.executing.trans first.executing, second.identity.trans first.identity,
      second.enabled.trans first.enabled, fun c =>
        ⟨(second.cores c).state.trans (first.cores c).state,
          (second.cores c).nesting.trans (first.cores c).nesting,
          (second.cores c).waits.trans (first.cores c).waits⟩⟩

theorem undisturbed_of_machine {b : Board n} {m : Machine n} {trace : Trace} {tick : TickClock}
    (executing : m.executing = b.machine.executing) (identity : m.identity = b.machine.identity)
    (enabled : m.enabled = b.machine.enabled) :
    b.Undisturbed { b with machine := m, trace, tick } :=
  ⟨executing, identity, enabled, fun _ => ⟨rfl, rfl, Iff.rfl⟩⟩

theorem undisturbed_of_put {b : Board n} {c : Fin n} {core : Core}
    (persists : (b.cores.get c).Persists core) :
    b.Undisturbed { b with cores := b.cores.put c core } := by
  refine ⟨rfl, rfl, rfl, fun d => ?_⟩
  rw [Vector.get_put]
  split
  · rename_i same
    rw [← same]
    exact persists
  · exact ⟨rfl, rfl, Iff.rfl⟩

/-- With the mask of the executing core set to `on`, the board is undisturbed. -/
def Unmasked (on : Bool) (b b' : Board n) : Prop :=
  b.machine.isEnabled = false →
    Undisturbed { b with machine := b.machine.setEnabled on } b'

theorem Undisturbed.unmasked {on : Bool} {b₁ b₂ b₃ : Board n} (stays : b₁.Undisturbed b₂)
    (unmasked : b₂.Unmasked on b₃) : b₁.Unmasked on b₃ := by
  intro masked
  have masked' : b₂.machine.isEnabled = false := by
    rw [Machine.isEnabled, stays.enabled, stays.executing]
    exact masked
  have raised : Undisturbed { b₁ with machine := b₁.machine.setEnabled on }
      { b₂ with machine := b₂.machine.setEnabled on } := by
    refine ⟨stays.executing, stays.identity, ?_, stays.cores⟩
    simp only [Machine.setEnabled, stays.enabled, stays.executing]
  exact IsTrans.trans _ _ _ raised (unmasked masked')

theorem unmasked_restoreMask (on : Bool) : Ensures (Unmasked (n := n) on) (restoreMask on) := by
  intro b a b' ran masked
  cases on with
  | true =>
    cases ran
    exact undisturbed_of_machine rfl rfl rfl
  | false =>
    cases ran
    refine ⟨rfl, rfl, ?_, fun _ => ⟨rfl, rfl, Iff.rfl⟩⟩
    simp only [Machine.setEnabled, ← masked]
    exact (Vector.put_get _ _).symm

theorem Unmasked.after {on : Bool} {action : BoardM n α} {β : Type} {next : α → BoardM n β}
    (first : Ensures Undisturbed action) (rest : ∀ a, Ensures (Unmasked on) (next a)) :
    Ensures (Unmasked on) (action >>= next) :=
  first.compose rest fun stays unmasked => stays.unmasked unmasked

/-- The mask is put back that was found. -/
theorem Unmasked.back {b b' : Board n} {trace : Trace}
    (unmasked : Unmasked b.machine.isEnabled
      { b with trace, machine := b.machine.setEnabled false } b') : b.Undisturbed b' := by
  have after := unmasked (Machine.isEnabled_setEnabled _ _)
  refine ⟨after.executing, after.identity, ?_, after.cores⟩
  rw [after.enabled]
  simp only [Machine.setEnabled, Vector.put_put]
  exact Vector.put_get _ _

theorem undisturbed_masked {rest : Bool → BoardM n α}
    (back : ∀ on, Ensures (Unmasked on) (rest on)) : Ensures Undisturbed (saveMask >>= rest) := by
  intro b a b' ran
  rw [bind_run, saveMask_run] at ran
  exact Unmasked.back (back _ _ _ _ ran)

theorem undisturbed_onCore (c : Fin n) {f : Core → Core}
    (persists : ∀ k : Core, k.Persists (f k)) : Ensures Undisturbed (onCore c f) :=
  .of_run (fun _ => rfl) fun _ => undisturbed_of_put (persists _)

theorem undisturbed_emit (e : Event) : Ensures (Undisturbed (n := n)) (emit e) :=
  .of_run (fun _ => rfl) fun _ => undisturbed_of_machine rfl rfl rfl

theorem undisturbed_log (entry : LogEntry) : Ensures (Undisturbed (n := n)) (log entry) :=
  undisturbed_emit _

theorem undisturbed_machineOf : Ensures (Undisturbed (n := n)) machineOf :=
  .of_run (fun _ => rfl) refl

theorem undisturbed_core (c : Fin n) : Ensures Undisturbed (core c) := .of_run (fun _ => rfl) refl

theorem undisturbed_ownId : Ensures (Undisturbed (n := n)) ownId := .of_run (fun _ => rfl) refl

theorem undisturbed_executingCore : Ensures (Undisturbed (n := n)) executingCore := by
  refine undisturbed_ownId.bind fun core => ?_
  split
  · exact ensures_pure _
  · exact ensures_throw _

theorem undisturbed_testAndSet (bit : UInt32) :
    Ensures (Undisturbed (n := n)) (testAndSet bit) :=
  .of_run (testAndSet_run bit) fun _ => undisturbed_of_machine rfl rfl rfl

theorem undisturbed_clear (bit : UInt32) : Ensures (Undisturbed (n := n)) (clear bit) :=
  .of_run (clear_run bit) fun _ => undisturbed_of_machine rfl rfl rfl

theorem undisturbed_snooze : Ensures (Undisturbed (n := n)) snooze := by
  refine (undisturbed_emit _).bind fun _ => Ensures.bind (.of_run (fun _ => rfl) fun b => ?_)
    fun _ => undisturbed_machineOf.bind fun m => ensures_ite (ensures_throw _) (ensures_pure _)
  have same : b.machine.snooze.executing = b.machine.executing ∧
      b.machine.snooze.identity = b.machine.identity ∧
      b.machine.snooze.enabled = b.machine.enabled := by
    unfold Machine.snooze
    rcases b.machine.promise with _ | ⟨_ | k, bit⟩ <;> exact ⟨rfl, rfl, rfl⟩
  exact undisturbed_of_machine same.1 same.2.1 same.2.2

theorem undisturbed_sendIpi (target : CoreId) : Ensures (Undisturbed (n := n)) (sendIpi target) :=
  .of_run (fun _ => rfl) fun _ => undisturbed_of_machine rfl rfl rfl

theorem undisturbed_clearIpi : Ensures (Undisturbed (n := n)) clearIpi :=
  .of_run (fun _ => rfl) fun _ => undisturbed_of_machine rfl rfl rfl

theorem undisturbed_timerStop : Ensures (Undisturbed (n := n)) timerStop :=
  .of_run (fun _ => rfl) fun _ => undisturbed_of_machine rfl rfl rfl

theorem undisturbed_rearm (period : UInt32) : Ensures (Undisturbed (n := n)) (rearm period) :=
  .of_run (fun _ => rfl) fun _ => undisturbed_of_machine rfl rfl rfl

theorem undisturbed_acknowledge : Ensures (Undisturbed (n := n)) acknowledge := by
  refine Ensures.bind (.of_run (fun _ => rfl) fun _ => undisturbed_of_machine rfl rfl rfl) fun _ =>
    Ensures.bind (.of_run (fun _ => rfl) refl) fun clock =>
      (undisturbed_rearm _).bind fun left => ?_
  cases left with
  | none => exact ensures_pure _
  | some remaining =>
    refine ensures_ite (Ensures.bind
      (.of_run (fun _ => rfl) fun _ => undisturbed_of_machine rfl rfl rfl) fun _ =>
        (undisturbed_log _).bind fun _ => ?_) (ensures_pure _)
    exact ensures_ite (ensures_throw _) (ensures_pure _)

theorem undisturbed_spin {attempt : BoardM n Bool} {wait giveUp : BoardM n Unit}
    (tries : Ensures Undisturbed attempt) (waits : Ensures Undisturbed wait)
    (gives : Ensures Undisturbed giveUp) (bound : Nat) :
    Ensures Undisturbed (spin attempt wait giveUp bound) := by
  induction bound with
  | zero => exact gives
  | succ bound ih =>
    exact tries.bind fun won => ensures_ite (ensures_pure _) (waits.bind fun _ => ih)

theorem undisturbed_lock (bit : UInt32) : Ensures (Undisturbed (n := n)) (lock bit) :=
  undisturbed_machineOf.bind fun _ =>
    undisturbed_spin (undisturbed_testAndSet bit) undisturbed_snooze (ensures_throw _) _

theorem undisturbed_setLockNesting (c : Fin n) (d : LockClass) (count : Core → UInt32) :
    Ensures Undisturbed (onCore c fun k => k.setLockNesting d (count k)) := by
  refine undisturbed_onCore c fun k => ?_
  cases d <;> exact ⟨rfl, rfl, Iff.rfl⟩

theorem undisturbed_acquire (c : Fin n) (d : LockClass) : Ensures Undisturbed (acquire c d) := by
  rw [acquire_eq]
  refine undisturbed_masked fun on => Unmasked.after (undisturbed_core c) fun core => ?_
  have count := Unmasked.after
    (undisturbed_setLockNesting c d fun k => k.lockNesting d + 1) fun _ => unmasked_restoreMask on
  exact ensures_ite (Unmasked.after (undisturbed_lock d.bit) fun _ => count) count

theorem undisturbed_release (c : Fin n) (d : LockClass) : Ensures Undisturbed (release c d) := by
  refine undisturbed_masked fun on => Unmasked.after (undisturbed_core c) fun core =>
    ensures_ite (ensures_throw _) ?_
  refine Unmasked.after (undisturbed_setLockNesting c d fun k => k.lockNesting d - 1) fun _ => ?_
  exact ensures_ite (Unmasked.after (undisturbed_clear _) fun _ => unmasked_restoreMask on)
    (unmasked_restoreMask on)

theorem undisturbed_guarded (c : Fin n) {body : BoardM n Unit}
    (stays : Ensures Undisturbed body) : Ensures Undisturbed (guarded c body) := by
  refine undisturbed_masked fun on => Unmasked.after ?_ fun _ =>
    Ensures.compose (unmasked_restoreMask on) (fun _ => ensures_pure _) fun unmasked same masked =>
      IsTrans.trans _ _ _ (unmasked masked) same
  exact ensures_ite ((undisturbed_acquire c .isr).bind fun _ => stays.bind fun _ =>
    (undisturbed_release c .isr).bind fun _ => ensures_pure _) stays

theorem undisturbed_requestSwitch (c : Fin n) : Ensures Undisturbed (requestSwitch c) := by
  refine (undisturbed_core c).bind fun core => (undisturbed_onCore c fun k => ?_).bind fun _ =>
    ensures_pure _
  refine ⟨?_, ?_, ?_⟩
  · unfold Core.request
    split <;> rfl
  · unfold Core.request
    split <;> rfl
  · rw [Core.request_pending]
    cases k.pending <;> simp [Pending.raise]

theorem undisturbed_enterInterrupt (c : Fin n) : Ensures Undisturbed (enterInterrupt c) := by
  refine (undisturbed_core c).bind fun core => Ensures.bind ?_ fun _ =>
    ensures_ite (ensures_throw _) (ensures_pure _)
  exact undisturbed_onCore c fun _ => ⟨rfl, rfl, Iff.rfl⟩

theorem undisturbed_leaveInterrupt (c : Fin n) : Ensures Undisturbed (leaveInterrupt c) := by
  refine (undisturbed_core c).bind fun core => ensures_ite (ensures_throw _) ?_
  exact Ensures.bind (undisturbed_onCore c fun _ => ⟨rfl, rfl, Iff.rfl⟩) fun _ => ensures_pure _

end Board

namespace Kernel

variable {κ : Type}

theorem undisturbed_onIpi : Ensures (Board.Undisturbed (n := n)) onIpi := by
  rw [onIpi_eq]
  exact Board.undisturbed_executingCore.bind fun c =>
    (Board.undisturbed_guarded c ((Board.undisturbed_requestSwitch c).bind fun _ =>
      Board.undisturbed_clearIpi)).bind fun _ => (Board.undisturbed_core c).bind fun _ =>
        Board.undisturbed_log _

variable [SwitchPrimitives κ]

/-- Only traps were pended. -/
def Pended : Storage κ → Storage κ → Prop :=
  Relation.ReflTransGen fun s s' => ∃ core, SwitchPrimitives.pend core s = .ok () s'

/-- The board is undisturbed, and the contexts and queues are as they were. -/
structure Stays (k k' : Kernel κ n) : Prop where
  board : k.board.Undisturbed k'.board
  queues : k'.scheduler.queues = k.scheduler.queues
  reenters : k'.scheduler.reenters = k.scheduler.reenters
  storage : Pended k.storage k'.storage

instance : IsPreorder (Kernel κ n) Stays where
  refl _ := ⟨refl _, rfl, rfl, .refl⟩
  trans _ _ _ first second :=
    ⟨IsTrans.trans _ _ _ first.board second.board, second.queues.trans first.queues,
      second.reenters.trans first.reenters, first.storage.trans second.storage⟩

theorem stays_onBoard {action : BoardM n α} (stays : Ensures Board.Undisturbed action) :
    Ensures Stays (onBoard action : KernelM κ n α) := by
  intro k a k' ran
  unfold onBoard at ran
  cases acted : action k.board with
  | error halt b =>
    rw [acted] at ran
    cases ran
  | ok a b =>
    rw [acted] at ran
    cases ran
    exact ⟨stays _ _ _ acted, rfl, rfl, .refl⟩

theorem stays_pendTrap (core : CoreId) : Ensures Stays (pendTrap core : KernelM κ n Unit) := by
  refine (stays_onBoard (Board.undisturbed_emit _)).bind fun _ k a k' ran => ?_
  unfold onStorage at ran
  cases pended : SwitchPrimitives.pend core k.storage with
  | error halt s =>
    rw [pended] at ran
    cases ran
  | ok a s =>
    rw [pended] at ran
    cases ran
    exact ⟨refl _, rfl, rfl, .single ⟨core, pended⟩⟩

theorem stays_yield : Ensures Stays (yield : KernelM κ n Unit) :=
  (stays_onBoard Board.undisturbed_ownId).bind fun _ => stays_pendTrap _

theorem stays_yieldTo (target : CoreId) :
    Ensures Stays (yieldTo target : KernelM κ n (Except Refusal Unit)) := by
  refine ensures_ite ((stays_onBoard Board.undisturbed_ownId).bind fun me => ?_) (ensures_pure _)
  exact ensures_ite (stays_yield.bind fun _ => ensures_pure _)
    ((stays_onBoard (Board.undisturbed_log _)).bind fun _ =>
      (stays_onBoard (Board.undisturbed_sendIpi target)).bind fun _ => ensures_pure _)

omit [SwitchPrimitives κ] in
theorem withMask_ran {body : KernelM κ n α} {k k' : Kernel κ n} {a : α}
    (ran : Board.withMask n body k = .ok a k') :
    ∃ k₁ b, body { k with board := { k.board with
        trace := k.board.trace.push .disable, machine := k.board.machine.setEnabled false } } =
          .ok a k₁ ∧
      Board.restoreMask k.board.machine.isEnabled k₁.board = .ok () b ∧
      k' = { k₁ with board := b } := by
  have masked : (liftM (Board.saveMask : BoardM n Bool) : KernelM κ n Bool) k =
      .ok k.board.machine.isEnabled { k with board := { k.board with
        trace := k.board.trace.push .disable, machine := k.board.machine.setEnabled false } } := rfl
  simp only [Board.withMask, bind_run, masked] at ran
  cases acted : body { k with board := { k.board with
      trace := k.board.trace.push .disable, machine := k.board.machine.setEnabled false } } with
  | error halt k₁ =>
    rw [acted] at ran
    cases ran
  | ok r k₁ =>
    have lifted (on : Bool) : (liftM (Board.restoreMask on : BoardM n Unit) : KernelM κ n Unit) k₁ =
        onBoard (Board.restoreMask on) k₁ := rfl
    simp only [acted, lifted, onBoard] at ran
    cases back : Board.restoreMask k.board.machine.isEnabled k₁.board with
    | error halt b =>
      rw [back] at ran
      cases ran
    | ok u b =>
      rw [back] at ran
      cases ran
      exact ⟨k₁, b, rfl, back, rfl⟩

theorem stays_guarded (c : Fin n) {body : KernelM κ n α} (stays : Ensures Stays body) :
    Ensures Stays (Board.guarded c body) := by
  intro k a k' ran
  obtain ⟨k₁, b, acted, back, rfl⟩ := withMask_ran ran
  have inner : Ensures Stays (if 1 < n then Board.withLock c .isr body else body) :=
    ensures_ite ((stays_onBoard (Board.undisturbed_acquire c .isr)).bind fun _ =>
      stays.bind fun _ => (stays_onBoard (Board.undisturbed_release c .isr)).bind fun _ =>
        ensures_pure _) stays
  have same := inner _ _ _ acted
  exact ⟨Board.Unmasked.back (same.board.unmasked (Board.unmasked_restoreMask _ _ _ _ back)),
    same.queues, same.reenters, same.storage⟩

theorem stays_countTick : Ensures Stays (countTick : KernelM κ n Bool) := by
  refine (stays_onBoard Board.undisturbed_machineOf).bind fun m =>
    (stays_onBoard (Board.undisturbed_emit _)).bind fun _ =>
      Ensures.bind (Ensures.of_run (fun _ => rfl) fun k => ?_) fun _ =>
        Ensures.bind (Ensures.of_run get_run refl) fun _ => ensures_pure _
  exact ⟨refl _, rfl, rfl, .refl⟩

theorem stays_onTick : Ensures Stays (onTick : KernelM κ n Arrival) := by
  rw [onTick_eq]
  refine (stays_onBoard Board.undisturbed_executingCore).bind fun c =>
    (stays_onBoard Board.undisturbed_acknowledge).bind fun arrival =>
      (stays_guarded c stays_countTick).bind fun due => ?_
  have logs : Ensures Stays (do
      onBoard (Board.log (.tick c due))
      return arrival : KernelM κ n Arrival) :=
    (stays_onBoard (Board.undisturbed_log _)).bind fun _ => ensures_pure arrival
  exact ensures_ite ((stays_onBoard (Board.undisturbed_requestSwitch c)).bind fun _ => logs) logs

/-- An order to enter the first task is taken, and put back. -/
theorem stays_endInterruptHandingOn :
    Ensures Stays (endInterruptHandingOn : KernelM κ n Bool) := by
  refine (stays_onBoard Board.undisturbed_executingCore).bind fun c =>
    (stays_onBoard (Board.undisturbed_leaveInterrupt c)).bind fun outermost =>
      ensures_ite (fun k a k' ran => ?_) (ensures_pure _)
  simp only [bind_run, onBoard, Board.takePending_run] at ran
  have taken (idle : (k.board.cores.get c).pending ≠ .firstTask) : k.Stays { k with board := {
      k.board with cores := k.board.cores.put c { k.board.cores.get c with pending := .idle } } } :=
    ⟨Board.undisturbed_of_put ⟨rfl, rfl, by simp [idle]⟩, rfl, rfl, .refl⟩
  cases pending : (k.board.cores.get c).pending with
  | idle =>
    rw [pending] at ran
    cases ran
    exact taken (by simp [pending])
  | switch =>
    rw [pending] at ran
    refine IsTrans.trans _ _ _ (taken (by simp [pending])) ?_
    exact ((stays_pendTrap c).bind fun _ => ensures_pure _) _ _ _ ran
  | firstTask =>
    rw [pending] at ran
    cases ran
    have back : k.board.cores.get c = { k.board.cores.get c with pending := .firstTask } := by
      rw [← pending]
    refine ⟨?_, rfl, rfl, .refl⟩
    simp only [Vector.get_put_self, Vector.put_put, ← back, Vector.put_get]
    exact refl _

end Kernel

namespace PortCall

variable {κ : Type} [SwitchPrimitives κ] {call : PortCall} {k k' : Kernel κ n}
  {answer : Option Resumption}

/-- When a call enters or leaves a critical section. -/
def isCritical : PortCall → Bool
  | enterCritical | exitCritical => true
  | _ => false

theorem stays_of_plain (plain : call.isPlain = true) (noSection : call.isCritical = false) :
    Ensures Kernel.Stays (call.perform : KernelM κ n (Option Resumption)) := by
  have board {α : Type} {action : BoardM n α} (same : Ensures Board.Undisturbed action) :
      Ensures Kernel.Stays (do
        let _ ← Kernel.onBoard action
        return none : KernelM κ n (Option Resumption)) :=
    (Kernel.stays_onBoard same).bind fun _ => ensures_pure _
  cases call with
  | start | onTrap | endInterrupt => cases plain
  | enterCritical | exitCritical => cases noSection
  | stop =>
    exact board (Board.undisturbed_timerStop.bind fun _ => Board.undisturbed_ownId.bind fun _ =>
      Board.undisturbed_log _)
  | lock d =>
    refine board ?_
    rw [Kernel.lock_eq]
    exact Board.undisturbed_executingCore.bind fun c => Board.undisturbed_acquire c d
  | unlock d => exact board (Board.undisturbed_executingCore.bind fun c =>
      Board.undisturbed_release c d)
  | lockShared =>
    refine board ?_
    rw [Kernel.lockShared_eq]
    exact Board.undisturbed_executingCore.bind fun c => (Board.undisturbed_core c).bind
      fun core => (Board.undisturbed_acquire c core.lockClass).bind fun _ => ensures_pure _
  | yield => exact Kernel.stays_yield.bind fun _ => ensures_pure _
  | yieldTo target => exact (Kernel.stays_yieldTo target).bind fun _ => ensures_pure _
  | beginInterrupt =>
    exact board (Board.undisturbed_executingCore.bind fun c => Board.undisturbed_enterInterrupt c)
  | onTick => exact Kernel.stays_onTick.bind fun _ => ensures_pure _
  | onIpi => exact board Kernel.undisturbed_onIpi
  | endInterruptHandingOn => exact Kernel.stays_endInterruptHandingOn.bind fun _ => ensures_pure _

/-- The end of an interrupt that has nothing to do. -/
theorem stays_endInterrupt (known : k.board.machine.identity = none)
    (noSwitch : ∀ depth, ¬PortCall.endInterrupt.Switches k depth)
    (noEntry : ¬PortCall.endInterrupt.Enters k)
    (ran : PortCall.endInterrupt.perform k = .ok answer k') :
    answer = none ∧ k.Stays k' := by
  set c := k.board.machine.executing with mine
  have lowered (depth : UInt32) : k.Stays { k with board := { k.board with
      cores := k.board.cores.put c { k.board.cores.get c with interruptDepth := depth } } } :=
    ⟨Board.undisturbed_of_put ⟨rfl, rfl, Iff.rfl⟩, rfl, rfl, .refl⟩
  by_cases zero : (k.board.cores.get c).interruptDepth = 0
  · rw [perform_endInterrupt, Kernel.endInterrupt_run_zero known mine.symm zero] at ran
    cases ran
  · by_cases outermost : (k.board.cores.get c).interruptDepth = 1
    · have idle : (k.board.cores.get c).pending = .idle := by
        cases pending : (k.board.cores.get c).pending with
        | idle => rfl
        | switch => exact absurd ⟨rfl, outermost, pending⟩ (noSwitch 0)
        | firstTask => exact absurd ⟨outermost, pending⟩ noEntry
      rw [perform_endInterrupt, Kernel.endInterrupt_run_outermost known mine.symm outermost,
        idle] at ran
      cases ran
      refine ⟨rfl, ?_⟩
      rw [← idle]
      exact lowered 0
    · rw [perform_endInterrupt, Kernel.endInterrupt_run_inner known mine.symm zero outermost] at ran
      cases ran
      exact ⟨rfl, lowered _⟩

/-- A call that gets to no switch, to no first task and to no critical section resumes nothing and
leaves all as it was. -/
theorem stays (known : k.board.machine.identity = none) (noSection : call.isCritical = false)
    (noSwitch : ∀ depth, ¬call.Switches k depth) (noEntry : ¬call.Enters k)
    (ran : call.perform k = .ok answer k') : answer = none ∧ k.Stays k' := by
  cases plain : call.isPlain with
  | true => exact ⟨answer_of_plain plain ran, stays_of_plain plain noSection _ _ _ ran⟩
  | false =>
    cases call with
    | start => exact absurd trivial noEntry
    | onTrap => exact absurd rfl (noSwitch Settings.trapDepth)
    | endInterrupt => exact stays_endInterrupt known noSwitch noEntry ran
    | _ => cases plain

end PortCall

/-- Core `c` has changed its nesting to `depth` and its mask to `on`, and nothing else has changed
but the trace. -/
structure Kernel.Nests {κ : Type} (k k' : Kernel κ n) (c : Fin n) (depth : UInt32) (on : Bool) :
    Prop where
  executing : k'.board.machine.executing = k.board.machine.executing
  identity : k'.board.machine.identity = k.board.machine.identity
  enabled : k'.board.machine.enabled = k.board.machine.enabled.put c on
  cores : k'.board.cores = k.board.cores.put c { k.board.cores.get c with nesting := depth }
  storage : k'.storage = k.storage
  scheduler : k'.scheduler = k.scheduler

theorem Kernel.Nests.core {κ : Type} {k k' : Kernel κ n} {c : Fin n} {depth : UInt32} {on : Bool}
    (nests : k.Nests k' c depth on) (d : Fin n) :
    (k'.board.cores.get d).state = (k.board.cores.get d).state ∧
      (k'.board.cores.get d).pending = (k.board.cores.get d).pending := by
  rw [nests.cores, Vector.get_put]
  split
  · rename_i same
    rw [← same]
    exact ⟨rfl, rfl⟩
  · exact ⟨rfl, rfl⟩

namespace PortCall

variable {κ : Type} [SwitchPrimitives κ] {call : PortCall} {k k' : Kernel κ n}
  {answer : Option Resumption} {c : Fin n}

/-! Critical sections. -/

omit [SwitchPrimitives κ] in
theorem noSection_of_enters (entry : call.Enters k) : call.isCritical = false := by
  cases call with
  | start | endInterrupt => rfl
  | _ => exact absurd entry id

omit [SwitchPrimitives κ] in
theorem noSection_of_switches {depth : TrapDepth} (switches : call.Switches k depth) :
    call.isCritical = false := by
  cases call with
  | onTrap | endInterrupt => rfl
  | _ => exact absurd switches id

/-- One more level is open, and interrupts are masked. -/
theorem enterCritical_ran (known : k.board.machine.identity = none)
    (mine : k.board.machine.executing = c) (ran : enterCritical.perform k = .ok answer k') :
    answer = none ∧ k.Nests k' c ((k.board.cores.get c).nesting + 1) false := by
  subst mine
  simp only [perform, Callouts.perform, bind_run, Kernel.onBoard, Kernel.enterCritical,
    Board.executingCore_run known, Board.enterCritical, Board.enterNesting_run, Board.core,
    Vector.get_put_self] at ran
  split at ran
  · rename_i acted
    split at acted
    · rename_i opening
      split at opening
      · cases opening
      · cases opening
        cases acted
        cases ran
        exact ⟨rfl, ⟨rfl, rfl, rfl, rfl, rfl, rfl⟩⟩
    · cases acted
  · cases ran

theorem exitCritical_run_zero (known : k.board.machine.identity = none)
    (mine : k.board.machine.executing = c) (zero : (k.board.cores.get c).nesting = 0) :
    exitCritical.perform k = .error (.violation .unmatchedCriticalExit) k := by
  subst mine
  simp only [perform, Callouts.perform, bind_run, Kernel.onBoard, Kernel.exitCritical,
    Board.executingCore_run known, Board.exitCritical, Board.exitNesting_run_zero _ _ zero]

/-- One level less is open. The last one unmasks interrupts. -/
theorem exitCritical_run (known : k.board.machine.identity = none)
    (mine : k.board.machine.executing = c) (inside : (k.board.cores.get c).nesting ≠ 0) :
    ∃ k', exitCritical.perform k = .ok none k' ∧ k.Nests k' c ((k.board.cores.get c).nesting - 1)
      ((k.board.cores.get c).nesting = 1 || k.board.machine.enabled.get c) := by
  subst mine
  have lifted {b : Board n} {depth : UInt32}
      (exits : Board.exitNesting k.board.machine.executing k.board = .ok depth b) :
      exitCritical.perform k = .ok none { k with board := b } := by
    simp only [perform, Callouts.perform, bind_run, Kernel.onBoard, Kernel.exitCritical,
      Board.executingCore_run known, Board.exitCritical, exits]
    rfl
  by_cases last : (k.board.cores.get k.board.machine.executing).nesting = 1
  · refine ⟨_, lifted (Board.exitNesting_run_one _ _ last), ?_⟩
    rw [last]
    exact ⟨rfl, rfl, rfl, rfl, rfl, rfl⟩
  · refine ⟨_, lifted (Board.exitNesting_run_more _ _ inside last), ?_⟩
    rw [decide_eq_false last, Bool.false_or]
    exact ⟨rfl, rfl, (Vector.put_get _ _).symm, rfl, rfl, rfl⟩

end PortCall

end Preempt
