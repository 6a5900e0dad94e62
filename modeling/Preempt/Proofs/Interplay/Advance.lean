import Preempt.Proofs.Halting
import Preempt.Proofs.Interplay.Moves

/-!
What a core may do on its turn outside the engine: it changes no other core, and of its own record
neither the engine nor a switch that is asked for, but it may ask for one; no pending
inter-processor interrupt is lost. `Regime` is the form in which this is shown of each action, from
the board's own operations up to a whole move.
-/

namespace Preempt

namespace Action

variable {ε σ α β : Type}

/-- Where an action may start, what it may do and how it may halt. -/
structure Regime (ε σ : Type) where
  ready : σ → Prop
  step : σ → σ → Prop
  halt : ε → Prop
  stay : ∀ {s}, ready s → step s s
  join : ∀ {s t u}, step s t → step t u → step s u
  keeps : ∀ {s t}, step s t → ready t

/-- The action keeps to the regime, whether it completes or halts. -/
structure Abides (R : Regime ε σ) (action : EStateM ε σ α) : Prop where
  completes : ∀ {s a t}, R.ready s → action s = .ok a t → R.step s t
  halts : ∀ {s e t}, R.ready s → action s = .error e t → R.step s t ∧ R.halt e

variable {R : Regime ε σ}

theorem abides_of_run {action : EStateM ε σ α} {answer : σ → α} {after : σ → σ}
    (run : ∀ s, action s = .ok (answer s) (after s))
    (step : ∀ s, R.ready s → R.step s (after s)) : Abides R action := by
  constructor
  · intro s a t ready ran
    rw [run] at ran
    cases ran
    exact step s ready
  · intro s e t ready halted
    rw [run] at halted
    cases halted

theorem abides_read {action : EStateM ε σ α} {answer : σ → α}
    (run : ∀ s, action s = .ok (answer s) s) : Abides R action :=
  abides_of_run run fun _ => R.stay

theorem abides_pure (a : α) : Abides R (pure a : EStateM ε σ α) := abides_read (pure_run a)

theorem abides_get : Abides R (get : EStateM ε σ σ) := abides_read get_run

theorem abides_throw {e : ε} (allowed : R.halt e) : Abides R (throw e : EStateM ε σ α) := by
  constructor
  · intro s a t ready ran
    cases ran
  · intro s e' t ready halted
    cases halted
    exact ⟨R.stay ready, allowed⟩

theorem Abides.bind {action : EStateM ε σ α} {next : α → EStateM ε σ β} (first : Abides R action)
    (rest : ∀ a, Abides R (next a)) : Abides R (action >>= next) := by
  constructor
  · intro s b u ready ran
    obtain ⟨a, t, acted, ran⟩ := ran_of_bind ran
    have begun := first.completes ready acted
    exact R.join begun ((rest a).completes (R.keeps begun) ran)
  · intro s e u ready halted
    rw [bind_run] at halted
    cases acted : action s with
    | error e' t =>
      rw [acted] at halted
      cases halted
      exact first.halts ready acted
    | ok a t =>
      rw [acted] at halted
      have begun := first.completes ready acted
      obtain ⟨step, allowed⟩ := (rest a).halts (R.keeps begun) halted
      exact ⟨R.join begun step, allowed⟩

/-- An action that only reads answers the same wherever the regime starts. -/
theorem abides_known {action : EStateM ε σ α} {next : α → EStateM ε σ β} {a : α}
    (run : ∀ s, R.ready s → action s = .ok a s) (rest : Abides R (next a)) :
    Abides R (action >>= next) := by
  have same {s : σ} (ready : R.ready s) : (action >>= next) s = next a s := bind_ok (run s ready)
  constructor
  · intro s b u ready ran
    rw [same ready] at ran
    exact rest.completes ready ran
  · intro s e u ready halted
    rw [same ready] at halted
    exact rest.halts ready halted

/-- What begins with a step is judged by what follows it. -/
theorem abides_after {action next : EStateM ε σ α} (after : σ → σ)
    (run : ∀ s, action s = next (after s)) (step : ∀ s, R.ready s → R.step s (after s))
    (rest : Abides R next) : Abides R action := by
  constructor
  · intro s a u ready ran
    rw [run] at ran
    exact R.join (step s ready) (rest.completes (R.keeps (step s ready)) ran)
  · intro s e u ready halted
    rw [run] at halted
    obtain ⟨steps, allowed⟩ := rest.halts (R.keeps (step s ready)) halted
    exact ⟨R.join (step s ready) steps, allowed⟩

theorem abides_ite {c : Prop} [Decidable c] {yes no : EStateM ε σ α} (first : c → Abides R yes)
    (second : ¬c → Abides R no) : Abides R (if c then yes else no) := by
  split
  · exact first ‹_›
  · exact second ‹_›

end Action

open Preempt.Action

variable {κ : Type} {n : Nat} {α : Type}

/-- The core's record after it may have asked for a switch. -/
structure Core.Asks (core core' : Core) : Prop where
  state : core'.state = core.state
  switches : core'.switches = core.switches
  asked : core'.pending = core.pending ∧ core'.requests = core.requests ∨
    core.pending = .idle ∧ core'.pending = .switch ∧ core'.requests = core.requests + 1

theorem Core.Asks.of_eq {core core' : Core} (state : core'.state = core.state)
    (switches : core'.switches = core.switches) (pending : core'.pending = core.pending)
    (requests : core'.requests = core.requests) : core.Asks core' :=
  ⟨state, switches, .inl ⟨pending, requests⟩⟩

theorem Core.Asks.trans {core₁ core₂ core₃ : Core} (first : core₁.Asks core₂)
    (second : core₂.Asks core₃) : core₁.Asks core₃ := by
  refine ⟨second.state.trans first.state, second.switches.trans first.switches, ?_⟩
  rcases first.asked with ⟨pending, requests⟩ | ⟨idle, switch, requests⟩
  · rw [← pending, ← requests]
    exact second.asked
  -- A core that has asked does not ask a second time.
  · rcases second.asked with ⟨pending', requests'⟩ | ⟨idle', _⟩
    · exact .inr ⟨idle, pending'.trans switch, requests'.trans requests⟩
    · rw [switch] at idle'
      cases idle'

theorem Core.asks_request (core : Core) : core.Asks core.request := by
  unfold request
  split
  · exact ⟨rfl, rfl, .inr ⟨‹_›, rfl, rfl⟩⟩
  · exact .of_eq rfl rfl rfl rfl

/-- What core `c` may do to the machine. -/
structure Machine.Advances (c : Fin n) (locking : Bool) (m m' : Machine n) : Prop where
  executing : m'.executing = m.executing
  identity : m'.identity = m.identity
  masks : ∀ d, d ≠ c → m'.enabled.get d = m.enabled.get d
  called : ∀ d : Fin n, m.isCalled d = true → m'.isCalled d = true
  exclusive : locking = false → m'.exclusive = m.exclusive

namespace Machine

variable {c : Fin n} {locking : Bool} {m : Machine n}

theorem toNat_callWord (core : CoreId) : (bitWord (.ofNat core)).toNat = 2 ^ (core % 32) := by
  have wraps : core % 4294967296 % 32 = core % 32 := Nat.mod_mod_of_dvd _ (by decide)
  have low : 2 ^ (core % 32) < 2 ^ 32 := Nat.pow_lt_pow_right (by decide) (Nat.mod_lt _ (by decide))
  rw [bitWord, UInt32.toNat_shiftLeft]
  simp only [UInt32.reduceToNat, UInt32.toNat_ofNat', Nat.reducePow, wraps]
  rw [Nat.shiftLeft_eq, Nat.one_mul]
  exact Nat.mod_eq_of_lt low

theorem isCalled_eq_testBit (m : Machine n) (core : CoreId) :
    m.isCalled core = m.ipi.toNat.testBit (core % 32) := by
  have masked : (m.ipi &&& bitWord (.ofNat core)).toNat =
      (m.ipi.toNat.testBit (core % 32)).toNat * 2 ^ (core % 32) := by
    rw [UInt32.toNat_and, toNat_callWord, Nat.and_two_pow]
  rw [isCalled, Bool.eq_iff_iff, bne_iff_ne, ne_eq, ← UInt32.toNat_inj, masked]
  cases m.ipi.toNat.testBit (core % 32) <;> simp

theorem isCalled_raiseIpi (m : Machine n) (target core : CoreId) :
    (m.raiseIpi target).isCalled core = (m.isCalled core || decide (target % 32 = core % 32)) := by
  simp only [isCalled_eq_testBit, raiseIpi, UInt32.toNat_or, Nat.testBit_or, toNat_callWord,
    Nat.testBit_two_pow]

theorem isCalled_clearIpi (m : Machine n) (core : CoreId) :
    m.clearIpi.isCalled core =
      (m.isCalled core && !decide (m.executing.val % 32 = core % 32)) := by
  have low : core % 32 < 32 := Nat.mod_lt _ (by decide)
  have complement : (~~~bitWord (.ofNat m.executing)).toNat.testBit (core % 32) =
      !decide (m.executing.val % 32 = core % 32) := by
    rw [← UInt32.toNat_toBitVec, UInt32.toBitVec_not, BitVec.testBit_toNat, BitVec.getLsbD_not,
      ← BitVec.testBit_toNat, UInt32.toNat_toBitVec, toNat_callWord, Nat.testBit_two_pow,
      decide_eq_true low, Bool.true_and]
  simp only [isCalled_eq_testBit, clearIpi, UInt32.toNat_and, Nat.testBit_and, complement]

theorem advances_setEnabled (mine : m.executing = c) (on : Bool) :
    m.Advances c locking (m.setEnabled on) := by
  refine ⟨rfl, rfl, fun d apart => ?_, fun _ => id, fun _ => rfl⟩
  rw [setEnabled, mine, Vector.get_put_of_ne _ apart.symm]

theorem advances_updateTimer (m : Machine n) (f : Timer → Timer) :
    m.Advances c locking (m.updateTimer f) :=
  ⟨rfl, rfl, fun _ _ => rfl, fun _ => id, fun _ => rfl⟩

theorem advances_raiseIpi (m : Machine n) (target : CoreId) :
    m.Advances c locking (m.raiseIpi target) :=
  ⟨rfl, rfl, fun _ _ => rfl, fun _ called => by rw [isCalled_raiseIpi, called, Bool.true_or],
    fun _ => rfl⟩

theorem advances_setBit (m : Machine n) (bit : UInt32) : m.Advances c true (m.setBit bit) :=
  ⟨rfl, rfl, fun _ _ => rfl, fun _ => id, nofun⟩

theorem advances_clearBit (m : Machine n) (bit : UInt32) : m.Advances c true (m.clearBit bit) :=
  ⟨rfl, rfl, fun _ _ => rfl, fun _ => id, nofun⟩

theorem advances_snooze (m : Machine n) : m.Advances c true m.snooze := by
  unfold snooze
  rcases m.promise with _ | ⟨_ | k, bit⟩ <;>
    exact ⟨rfl, rfl, fun _ _ => rfl, fun _ => id, nofun⟩

end Machine

namespace Board

/-- It is the turn of core `c`. -/
structure Ready (c : Fin n) (b : Board n) : Prop where
  executing : b.machine.executing = c
  known : b.machine.identity = none

/-- Core `c` is called, or will do something at its next outermost interrupt return. -/
def Signalled (c : Fin n) (b : Board n) : Prop :=
  b.machine.isCalled c = true ∨ (b.cores.get c).pending ≠ .idle

/-- What core `c` has done outside the engine. Only if it is `locking` may it have touched a
lock. -/
structure Advances (c : Fin n) (locking : Bool) (b b' : Board n) : Prop where
  ready : b'.Ready c
  others : ∀ d, d ≠ c → b'.cores.get d = b.cores.get d
  masks : ∀ d, d ≠ c → b'.machine.enabled.get d = b.machine.enabled.get d
  asks : (b.cores.get c).Asks (b'.cores.get c)
  steps : ∀ d, b'.engineSteps d = b.engineSteps d
  called : n ≤ 32 → ∀ d : Fin n, d ≠ c → b.machine.isCalled d = true →
    b'.machine.isCalled d = true
  signalled : b.Signalled c → b'.Signalled c
  exclusive : locking = false → b'.machine.exclusive = b.machine.exclusive
  counts : locking = false → ∀ d,
    (b'.cores.get c).lockNesting d = (b.cores.get c).lockNesting d

/-- The regime of core `c` outside the engine. -/
def regime (c : Fin n) (locking : Bool) (halt : Halt → Prop) : Regime Halt (Board n) where
  ready := Ready c
  step := Advances c locking
  halt := halt
  stay ready := ⟨ready, fun _ _ => rfl, fun _ _ => rfl, .of_eq rfl rfl rfl rfl, fun _ => rfl,
    fun _ _ _ => id, id, fun _ => rfl, fun _ _ => rfl⟩
  join first second :=
    ⟨second.ready, fun d apart => (second.others d apart).trans (first.others d apart),
      fun d apart => (second.masks d apart).trans (first.masks d apart),
      first.asks.trans second.asks, fun d => (second.steps d).trans (first.steps d),
      fun few d apart called => second.called few d apart (first.called few d apart called),
      fun signalled => second.signalled (first.signalled signalled),
      fun free => (second.exclusive free).trans (first.exclusive free),
      fun free d => (second.counts free d).trans (first.counts free d)⟩
  keeps step := step.ready

variable {c : Fin n} {locking : Bool} {halt : Halt → Prop}

/-- The trace grows by one event. -/
theorem engineSteps_push {b b' : Board n} {e : Event} (grown : b'.trace = b.trace.push e)
    (d : Fin n) : b'.engineSteps d = b.engineSteps d ++ (e.engineStep? d).toList := by
  rw [engineSteps, grown, Array.toList_push, List.filterMap_append, engineSteps]
  cases step : e.engineStep? d <;> simp [step]

/-- The event is not one of the engine. -/
def Plain (e : Event) : Prop := ∀ core, e.engineStep? core = none

theorem engineSteps_push_plain {b b' : Board n} {e : Event} (plain : Plain e)
    (grown : b'.trace = b.trace.push e) (d : Fin n) : b'.engineSteps d = b.engineSteps d := by
  rw [engineSteps_push grown, plain]
  exact List.append_nil _

variable {b : Board n}

theorem advances_of_machine {m : Machine n} {trace : Trace} {tick : TickClock} (ready : b.Ready c)
    (machine : b.machine.Advances c locking m)
    (steps : ∀ d, engineSteps { b with machine := m, trace, tick } d = b.engineSteps d) :
    b.Advances c locking { b with machine := m, trace, tick } :=
  ⟨⟨machine.executing.trans ready.executing, machine.identity.trans ready.known⟩, fun _ _ => rfl,
    machine.masks, .of_eq rfl rfl rfl rfl, steps, fun _ d _ => machine.called d, fun signalled =>
      signalled.imp_left (machine.called c), machine.exclusive, fun _ _ => rfl⟩

theorem advances_of_trace {e : Event} (plain : Plain e) (ready : b.Ready c) :
    b.Advances c locking { b with trace := b.trace.push e } :=
  advances_of_machine ready ⟨rfl, rfl, fun _ _ => rfl, fun _ => id, fun _ => rfl⟩
    (engineSteps_push_plain plain rfl)

theorem advances_of_put {core : Core} (ready : b.Ready c) (asks : (b.cores.get c).Asks core)
    (counts : locking = false → ∀ d, core.lockNesting d = (b.cores.get c).lockNesting d) :
    b.Advances c locking { b with cores := b.cores.put c core } := by
  refine ⟨⟨ready.executing, ready.known⟩, fun d apart => Vector.get_put_of_ne _ apart.symm _,
    fun _ _ => rfl, ?_, fun _ => rfl, fun _ _ _ => id, fun signalled => ?_, fun _ => rfl, ?_⟩
  · rwa [Vector.get_put_self]
  · refine signalled.imp_right fun waits => ?_
    rw [Vector.get_put_self]
    rcases asks.asked with ⟨same, _⟩ | ⟨_, switch, _⟩
    · rwa [same]
    · rw [switch]
      exact Pending.noConfusion
  · rwa [Vector.get_put_self]

/-! Operations that touch no lock. -/

theorem abides_emit {e : Event} (plain : Plain e) :
    Abides (regime (n := n) c locking halt) (emit e) :=
  abides_of_run (fun _ => rfl) fun _ => advances_of_trace plain

theorem abides_log (entry : LogEntry) : Abides (regime (n := n) c locking halt) (log entry) :=
  abides_emit fun _ => rfl

theorem abides_onCore {f : Core → Core} (asks : ∀ core : Core, core.Asks (f core))
    (counts : locking = false → ∀ (core : Core) d, (f core).lockNesting d = core.lockNesting d) :
    Abides (regime c locking halt) (onCore c f) :=
  abides_of_run (fun _ => rfl) fun _ ready =>
    advances_of_put ready (asks _) fun free => counts free _

theorem abides_access {e : Event} {f : Machine n → Machine n} (plain : Plain e)
    (machine : ∀ m : Machine n, m.executing = c → m.Advances c locking (f m)) :
    Abides (regime c locking halt) (do emit e; onMachine f) :=
  abides_of_run (fun _ => rfl) fun _ ready =>
    advances_of_machine ready (machine _ ready.executing) (engineSteps_push_plain plain rfl)

theorem abides_machineOf : Abides (regime (n := n) c locking halt) machineOf :=
  abides_read fun _ => rfl

theorem abides_core (d : Fin n) : Abides (regime c locking halt) (core d) :=
  abides_read fun _ => rfl

theorem abides_ownId : Abides (regime (n := n) c locking halt) ownId := abides_read fun _ => rfl

/-- The core that executes knows itself. -/
theorem abides_executingCore {next : Fin n → BoardM n α}
    (rest : Abides (regime c locking halt) (next c)) :
    Abides (regime c locking halt) (executingCore >>= next) :=
  abides_known (fun b ready => by rw [executingCore_run ready.known, ready.executing]) rest

theorem abides_disable : Abides (regime (n := n) c locking halt) disable :=
  abides_access (fun _ => rfl) fun _ mine => Machine.advances_setEnabled mine false

theorem abides_enable : Abides (regime (n := n) c locking halt) enable :=
  abides_access (fun _ => rfl) fun _ mine => Machine.advances_setEnabled mine true

theorem abides_saveMask : Abides (regime (n := n) c locking halt) saveMask :=
  (abides_read fun _ => rfl).bind fun _ => abides_disable.bind fun _ => abides_pure _

theorem abides_restoreMask (wasEnabled : Bool) :
    Abides (regime (n := n) c locking halt) (restoreMask wasEnabled) :=
  abides_ite (fun _ => abides_enable) fun _ => abides_pure _

theorem abides_timerStop : Abides (regime (n := n) c locking halt) timerStop :=
  abides_access (fun _ => rfl) fun m _ => m.advances_updateTimer _

theorem abides_sendIpi (target : CoreId) :
    Abides (regime (n := n) c locking halt) (sendIpi target) :=
  abides_access (fun _ => rfl) fun m _ => m.advances_raiseIpi target

theorem abides_requestSwitch : Abides (regime (n := n) c locking halt) (requestSwitch c) := by
  refine (abides_core c).bind fun _ => (abides_onCore Core.asks_request fun _ core d => ?_).bind
    fun _ => abides_pure _
  unfold Core.request
  split <;> cases d <;> rfl

/-- A core that asks for a switch before it acknowledges its calls misses none. -/
theorem abides_answer {next : BoardM n α} (rest : Abides (regime c locking halt) next) :
    Abides (regime c locking halt) (do
      let _ ← requestSwitch c
      clearIpi
      next) := by
  refine abides_after (fun b => { b with
    trace := b.trace.push .clearIpi
    machine := b.machine.clearIpi
    cores := b.cores.put c (b.cores.get c).request }) (fun _ => rfl) (fun b ready => ?_) rest
  refine ⟨⟨ready.executing, ready.known⟩, fun d apart => Vector.get_put_of_ne _ apart.symm _,
    fun _ _ => rfl, ?_, engineSteps_push_plain (fun _ => rfl) rfl, fun few d apart called => ?_,
    fun _ => .inr ?_, fun _ => rfl, fun _ d => ?_⟩
  · rw [Vector.get_put_self]
    exact Core.asks_request _
  · have elsewhere : c.val % 32 ≠ d.val % 32 := by
      rw [Nat.mod_eq_of_lt (by omega), Nat.mod_eq_of_lt (by omega)]
      exact fun same => apart (Fin.ext same.symm)
    rw [Machine.isCalled_clearIpi, called, ready.executing, decide_eq_false elsewhere]
    rfl
  · rw [Vector.get_put_self, Core.request_pending]
    exact Pending.raise_ne_idle _
  · rw [Vector.get_put_self]
    unfold Core.request
    split <;> cases d <;> rfl

section Halting

/-! Operations that may halt, in ways of their own. -/

variable (plain : ∀ e, e ≠ .violation .switchReentered → halt e)

include plain

theorem abides_fatal {cause : Violation} (other : cause ≠ .switchReentered) :
    Abides (regime (n := n) c locking halt) (fatal cause : BoardM n α) :=
  abides_throw (plain _ fun same => other (Halt.violation.inj same))

theorem abides_acknowledge : Abides (regime (n := n) c locking halt) acknowledge := by
  refine (abides_access (fun _ => rfl) fun m _ => m.advances_updateTimer _).bind fun _ =>
    (abides_read fun _ => rfl).bind fun clock => Abides.bind (abides_of_run (fun _ => rfl)
      fun b ready => advances_of_machine ready (b.machine.advances_updateTimer _)
        (engineSteps_push_plain (fun _ => rfl) rfl)) fun left => ?_
  cases left with
  | none => exact abides_pure _
  | some remaining =>
    refine abides_ite (fun _ => Abides.bind (abides_of_run (fun _ => rfl) fun b ready =>
      advances_of_machine (m := b.machine) ready ⟨rfl, rfl, fun _ _ => rfl, fun _ => id,
        fun _ => rfl⟩ fun _ => rfl) fun _ => (abides_log _).bind fun _ => ?_) fun _ => abides_pure _
    exact abides_ite (fun _ => abides_throw (plain _ nofun)) fun _ => abides_pure _

theorem abides_enterCritical : Abides (regime (n := n) c locking halt) (enterCritical c) := by
  refine Abides.bind (abides_disable.bind fun _ => (abides_core c).bind fun _ => Abides.bind
    (abides_onCore (fun _ => .of_eq rfl rfl rfl rfl) fun _ _ d => ?_) fun _ => abides_pure _)
    fun _ => (abides_core c).bind fun _ => abides_ite (fun _ => abides_fatal plain (by decide))
      fun _ => abides_pure _
  cases d <;> rfl

theorem abides_exitCritical : Abides (regime (n := n) c locking halt) (exitCritical c) := by
  refine Abides.bind ((abides_core c).bind fun core => abides_ite
    (fun _ => abides_fatal plain (by decide)) fun _ => Abides.bind
      (abides_onCore (fun _ => .of_eq rfl rfl rfl rfl) fun _ _ d => ?_) fun _ =>
        abides_ite (fun _ => abides_enable.bind fun _ => abides_pure _) fun _ => abides_pure _)
    fun _ => abides_pure _
  cases d <;> rfl

theorem abides_enterInterrupt : Abides (regime (n := n) c locking halt) (enterInterrupt c) := by
  refine (abides_core c).bind fun core => Abides.bind
    (abides_onCore (fun _ => .of_eq rfl rfl rfl rfl) fun _ _ d => ?_) fun _ =>
      abides_ite (fun _ => abides_fatal plain (by decide)) fun _ => abides_pure _
  cases d <;> rfl

/-! The lock. -/

omit plain in
theorem abides_countLevel (d : LockClass) (wasEnabled : Bool) :
    Abides (regime (n := n) c true halt) (countLevel c d wasEnabled) := by
  refine Abides.bind (abides_onCore (fun _ => ?_) nofun) fun _ =>
    (abides_restoreMask wasEnabled).bind fun _ => abides_pure _
  cases d <;> exact .of_eq rfl rfl rfl rfl

omit plain in
theorem abides_beginAcquire (d : LockClass) :
    Abides (regime (n := n) c true halt) (beginCall c (.acquire d)) :=
  abides_saveMask.bind fun wasEnabled => (abides_core c).bind fun _ =>
    abides_ite (fun _ => abides_pure _) fun _ => abides_countLevel d wasEnabled

theorem abides_proceed (phase : Phase) :
    Abides (regime (n := n) c true halt) (proceed c phase) := by
  cases phase with
  | outside => exact abides_pure _
  | counting d wasEnabled => exact abides_countLevel d wasEnabled
  | trying d wasEnabled =>
    have tries : Abides (regime (n := n) c true halt) (testAndSet d.bit) :=
      abides_of_run (testAndSet_run d.bit) fun b ready =>
        advances_of_machine ready (b.machine.advances_setBit d.bit)
          (engineSteps_push_plain (fun _ => rfl) rfl)
    have waits : Abides (regime (n := n) c true halt) snooze :=
      Abides.bind (abides_emit fun _ => rfl) fun _ => Abides.bind (abides_of_run (fun _ => rfl)
        fun b ready => advances_of_machine ready b.machine.advances_snooze fun _ => rfl) fun _ =>
          abides_machineOf.bind fun m =>
            abides_ite (fun _ => abides_throw (plain _ nofun)) fun _ => abides_pure _
    exact tries.bind fun won => abides_ite (fun _ => abides_pure _) fun _ =>
      waits.bind fun _ => abides_pure _

theorem abides_release (d : LockClass) :
    Abides (regime (n := n) c true halt) (release c d) := by
  have lowers : Abides (regime (n := n) c true halt) (onCore c (·.lowerLock d)) := by
    refine abides_onCore (fun _ => ?_) nofun
    cases d <;> exact .of_eq rfl rfl rfl rfl
  have clears : Abides (regime (n := n) c true halt) (unlock d.bit) :=
    abides_access (fun _ => rfl) fun m _ => m.advances_clearBit d.bit
  exact abides_saveMask.bind fun wasEnabled => (abides_core c).bind fun _ =>
    abides_ite (fun _ => abides_fatal plain (by decide)) fun _ => lowers.bind fun _ =>
      abides_ite (fun _ => clears.bind fun _ => abides_restoreMask wasEnabled) fun _ =>
        abides_restoreMask wasEnabled

theorem abides_leaveHandler : Abides (regime (n := n) c true halt) (leaveHandler c) :=
  abides_ite (fun _ => abides_release plain .isr) fun _ => abides_pure _

end Halting

end Board

namespace Kernel

/-- What core `c` has done outside the engine. The scheduler still goes on with the same tasks. -/
structure Advances (c : Fin n) (locking : Bool) (k k' : Kernel κ n) : Prop where
  board : k.board.Advances c locking k'.board
  queues : k'.scheduler.queues = k.scheduler.queues
  stays : k'.scheduler.stays = k.scheduler.stays
  reenters : k'.scheduler.reenters = k.scheduler.reenters

def regime (c : Fin n) (locking : Bool) (halt : Halt → Prop) : Regime Halt (Kernel κ n) where
  ready k := k.board.Ready c
  step := Advances c locking
  halt := halt
  stay ready := ⟨(Board.regime c locking halt).stay ready, rfl, rfl, rfl⟩
  join first second :=
    ⟨(Board.regime c locking halt).join first.board second.board,
      second.queues.trans first.queues, second.stays.trans first.stays,
      second.reenters.trans first.reenters⟩
  keeps step := step.board.ready

variable {c : Fin n} {locking : Bool} {halt : Halt → Prop}

theorem onBoard_ran {action : BoardM n α} {k k' : Kernel κ n} {a : α}
    (ran : onBoard action k = .ok a k') :
    ∃ b, action k.board = .ok a b ∧ k' = { k with board := b } := by
  unfold onBoard at ran
  cases acted : action k.board with
  | error e b =>
    rw [acted] at ran
    cases ran
  | ok a b =>
    rw [acted] at ran
    cases ran
    exact ⟨b, rfl, rfl⟩

theorem abides_onBoard {action : BoardM n α}
    (abides : Abides (Board.regime c locking halt) action) :
    Abides (regime c locking halt) (onBoard action : KernelM κ n α) := by
  constructor
  · intro k a k' ready ran
    obtain ⟨b, acted, rfl⟩ := onBoard_ran ran
    exact ⟨abides.completes ready acted, rfl, rfl, rfl⟩
  · intro k e k' ready halted
    unfold onBoard at halted
    cases acted : action k.board with
    | ok a b =>
      rw [acted] at halted
      cases halted
    | error e b =>
      rw [acted] at halted
      cases halted
      obtain ⟨step, allowed⟩ := abides.halts ready acted
      exact ⟨⟨step, rfl, rfl, rfl⟩, allowed⟩

theorem abides_executingCore {next : Fin n → KernelM κ n α}
    (rest : Abides (regime c locking halt) (next c)) :
    Abides (regime c locking halt) (onBoard Board.executingCore >>= next) := by
  refine abides_known (fun k ready => ?_) rest
  rw [onBoard, Board.executingCore_run ready.known, ready.executing]

theorem abides_countTick : Abides (regime c locking halt) (countTick : KernelM κ n Bool) := by
  refine Abides.bind (abides_onBoard Board.abides_machineOf) fun m =>
    (abides_onBoard (Board.abides_emit fun _ => rfl)).bind fun _ =>
      Abides.bind (abides_of_run (fun _ => rfl) fun k ready => ?_) fun _ =>
        abides_get.bind fun _ => abides_pure _
  exact ⟨(Board.regime c locking halt).stay ready, rfl, rfl, rfl⟩

variable [SwitchPrimitives κ]
  (pends : ∀ core : CoreId, HaltsIn halt (SwitchPrimitives.pend core : StorageM κ Unit))

include pends

theorem abides_pendTrap (core : CoreId) :
    Abides (regime c locking halt) (pendTrap core : KernelM κ n Unit) := by
  refine (abides_onBoard (Board.abides_emit fun _ => rfl)).bind fun _ => ⟨?_, ?_⟩
  · intro k a k' ready ran
    unfold onStorage at ran
    cases pended : SwitchPrimitives.pend core k.storage with
    | error e s =>
      rw [pended] at ran
      cases ran
    | ok a s =>
      rw [pended] at ran
      cases ran
      exact ⟨(Board.regime c locking halt).stay ready, rfl, rfl, rfl⟩
  · intro k e k' ready halted
    unfold onStorage at halted
    cases pended : SwitchPrimitives.pend core k.storage with
    | ok a s =>
      rw [pended] at halted
      cases halted
    | error e s =>
      rw [pended] at halted
      cases halted
      exact ⟨⟨(Board.regime c locking halt).stay ready, rfl, rfl, rfl⟩, pends core _ _ _ pended⟩

theorem abides_yield : Abides (regime c locking halt) (yield : KernelM κ n Unit) :=
  (abides_onBoard Board.abides_ownId).bind fun _ => abides_pendTrap pends _

theorem abides_yieldTo (target : CoreId) :
    Abides (regime c locking halt) (yieldTo target : KernelM κ n (Except Refusal Unit)) :=
  abides_ite (fun _ => (abides_onBoard Board.abides_ownId).bind fun _ => abides_ite
    (fun _ => (abides_yield pends).bind fun _ => abides_pure _) fun _ =>
      (abides_onBoard (Board.abides_log _)).bind fun _ =>
        (abides_onBoard (Board.abides_sendIpi target)).bind fun _ => abides_pure _) fun _ =>
    abides_pure _

end Kernel

open Kernel (onBoard)

namespace PortCall

/-- The calls that neither ask for a lock nor have to do with switches. -/
def isQuiet : PortCall → Bool
  | stop | enterCritical | exitCritical | unlock _ | yield | yieldTo _ | beginInterrupt => true
  | _ => false

/-- The calls that may touch a lock. -/
def isLocking : PortCall → Bool
  | lock _ | unlock _ | lockShared | onTick | onIpi => true
  | _ => false

end PortCall

namespace Interplay

variable [SwitchPrimitives κ] {c : Fin n} {locking : Bool} {halt : Halt → Prop}
  (plain : ∀ e, e ≠ .violation .switchReentered → halt e)

include plain

theorem abides_quiet
    (pends : ∀ core : CoreId, HaltsIn halt (SwitchPrimitives.pend core : StorageM κ Unit))
    {call : PortCall} (quiet : call.isQuiet = true) :
    Abides (Kernel.regime c call.isLocking halt)
      (call.perform : KernelM κ n (Option Resumption)) := by
  have board {α : Type} {locking : Bool} {action : BoardM n α}
      (abides : Abides (Board.regime c locking halt) action) :
      Abides (Kernel.regime c locking halt) (do
        let _ ← onBoard action
        return none : KernelM κ n (Option Resumption)) :=
    (Kernel.abides_onBoard abides).bind fun _ => abides_pure _
  cases call with
  | stop => exact board (Board.abides_timerStop.bind fun _ => Board.abides_ownId.bind fun _ =>
      Board.abides_log _)
  | enterCritical => exact board (Board.abides_executingCore (Board.abides_enterCritical plain))
  | exitCritical => exact board (Board.abides_executingCore (Board.abides_exitCritical plain))
  | unlock d => exact board (Board.abides_executingCore (Board.abides_release plain d))
  | yield => exact (Kernel.abides_yield pends).bind fun _ => abides_pure _
  | yieldTo target => exact (Kernel.abides_yieldTo pends target).bind fun _ => abides_pure _
  | beginInterrupt => exact board (Board.abides_executingCore (Board.abides_enterInterrupt plain))
  | _ => cases quiet

theorem abides_finish (rest : Rest) : Abides (Kernel.regime c true halt)
    (Callouts.own.finish c rest : KernelM κ n Unit) := by
  cases rest with
  | taken => exact abides_pure _
  | tick wasEnabled =>
    refine Abides.bind Kernel.abides_countTick fun due =>
      (Kernel.abides_onBoard (Board.abides_leaveHandler plain)).bind fun _ =>
        (Kernel.abides_onBoard (Board.abides_restoreMask wasEnabled)).bind fun _ => ?_
    have logs : Abides (Kernel.regime c true halt)
        (onBoard (Board.log (.tick c due)) : KernelM κ n Unit) :=
      Kernel.abides_onBoard (Board.abides_log _)
    exact abides_ite (fun _ => (Kernel.abides_onBoard Board.abides_requestSwitch).bind
      fun _ => logs) fun _ => logs
  | ipi wasEnabled =>
    exact Kernel.abides_onBoard (Board.abides_answer ((Board.abides_leaveHandler plain).bind
      fun _ => (Board.abides_restoreMask wasEnabled).bind fun _ => (Board.abides_core c).bind
        fun _ => Board.abides_log _))

theorem abides_takeUp (rest : Rest) (phase : Phase) : Abides (Kernel.regime c true halt)
    (Callouts.own.takeUp c rest phase : KernelM κ n Stance) := by
  cases phase with
  | outside => exact (abides_finish plain rest).bind fun _ => abides_pure _
  | trying d wasEnabled | counting d wasEnabled => exact abides_pure _

theorem abides_proceed (stance : Stance) : Abides (Kernel.regime c true halt)
    ((Move.proceed c).act .own stance : KernelM κ n Stance) := by
  cases stance with
  | outside => exact abides_pure _
  | within rest phase =>
    exact (Kernel.abides_onBoard (Board.abides_proceed plain phase)).bind fun _ =>
      abides_takeUp plain rest _

/-- Up to its lock a call does nothing but mask interrupts and serve the timer. -/
theorem abides_asks {call : PortCall} {asks : BoardM n (Ask n)} (is : call.ask? = some asks)
    (stance : Stance) : Abides (Kernel.regime c true halt)
      ((Move.start c call).act .own stance : KernelM κ n Stance) := by
  have begins (lock : Option LockClass) (rest : Rest) : Abides (Kernel.regime c true halt) (do
      Callouts.own.takeUp c rest (← onBoard (Board.beginFor ⟨c, lock, rest⟩)) :
        KernelM κ n Stance) := by
    refine (Kernel.abides_onBoard ?_).bind fun _ => abides_takeUp plain rest _
    cases lock with
    | none => exact abides_pure _
    | some d => exact Board.abides_beginAcquire d
  have masks (rest : Bool → Rest) : Abides (Kernel.regime c true halt) (do
      let wasEnabled ← onBoard Board.saveMask
      Callouts.own.takeUp c (rest wasEnabled)
        (← onBoard (Board.beginFor ⟨c, Board.handlersLock n, rest wasEnabled⟩)) :
          KernelM κ n Stance) :=
    (Kernel.abides_onBoard Board.abides_saveMask).bind fun _ => begins _ _
  simp only [Move.act, is]
  cases call with
  | lock d =>
    cases is
    simp only [Kernel.askLock, Kernel.onBoard_bind, Kernel.onBoard_pure, bind_assoc, pure_bind]
    exact Kernel.abides_executingCore (begins (some d) .taken)
  | lockShared =>
    cases is
    simp only [Kernel.askShared, Kernel.onBoard_bind, Kernel.onBoard_pure, bind_assoc, pure_bind]
    exact Kernel.abides_executingCore ((Kernel.abides_onBoard (Board.abides_core c)).bind
      fun _ => begins _ .taken)
  | onTick =>
    cases is
    simp only [Kernel.askTick, Kernel.onBoard_bind, Kernel.onBoard_pure, bind_assoc, pure_bind]
    exact Kernel.abides_executingCore
      ((Kernel.abides_onBoard (Board.abides_acknowledge plain)).bind fun _ => masks .tick)
  | onIpi =>
    cases is
    simp only [Kernel.askIpi, Kernel.onBoard_bind, Kernel.onBoard_pure, bind_assoc, pure_bind]
    exact Kernel.abides_executingCore (masks .ipi)
  | _ => cases is

end Interplay

end Preempt
