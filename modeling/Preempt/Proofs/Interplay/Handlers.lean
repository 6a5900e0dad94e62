import Preempt.Proofs.Interplay.Checks

/-!
What an interrupt handler does to the masks and the locks, piece by piece: what it has done by the
time it waits for its lock (`Board.Begun`), what it does on a later turn (`Board.Continued`), and
how it leaves (`Board.HandlerLeft`).
-/

namespace Preempt

open Preempt.Action
open Kernel (onBoard)

variable {κ : Type} {n : Nat} {c : Fin n}

/-- The core nests its sections, its interrupts and its locks as before. -/
structure Core.Alike (core core' : Core) : Prop where
  nesting : core'.nesting = core.nesting
  interruptDepth : core'.interruptDepth = core.interruptDepth
  taskLock : core'.taskLock = core.taskLock
  isrLock : core'.isrLock = core.isrLock

instance : IsPreorder Core Core.Alike where
  refl _ := ⟨rfl, rfl, rfl, rfl⟩
  trans _ _ _ first second := ⟨second.nesting.trans first.nesting,
    second.interruptDepth.trans first.interruptDepth, second.taskLock.trans first.taskLock,
    second.isrLock.trans first.isrLock⟩

namespace Core

variable {core core' : Core}

theorem alike_request (core : Core) : core.Alike core.request := by
  unfold request
  split
  · exact ⟨rfl, rfl, rfl, rfl⟩
  · exact refl _

theorem alike_lower_raise (core : Core) (d : LockClass) :
    core.Alike ((core.raiseLock d).lowerLock d) := by
  cases d
  · exact ⟨rfl, rfl, UInt32.add_sub_cancel .., rfl⟩
  · exact ⟨rfl, rfl, rfl, UInt32.add_sub_cancel ..⟩

theorem Alike.lower (alike : core.Alike core') (d : LockClass) :
    (core.lowerLock d).Alike (core'.lowerLock d) := by
  cases d
  · exact ⟨alike.nesting, alike.interruptDepth, congrArg (· - 1) alike.taskLock, alike.isrLock⟩
  · exact ⟨alike.nesting, alike.interruptDepth, alike.taskLock, congrArg (· - 1) alike.isrLock⟩

theorem Alike.lockNesting (alike : core.Alike core') (d : LockClass) :
    core'.lockNesting d = core.lockNesting d := by
  cases d
  · exact alike.taskLock
  · exact alike.isrLock

end Core

namespace Machine

variable {n : Nat} {m : Machine n} {d : LockClass}

theorem getLsbD_bitWord (d : LockClass) (i : Nat) :
    (bitWord d.bit).toBitVec.getLsbD i = decide (d.bit.toNat = i) := by
  rw [← BitVec.testBit_toNat, UInt32.toNat_toBitVec, toNat_bitWord, Nat.testBit_two_pow]

theorem getLsbD_exclusive (m : Machine n) (d : LockClass) :
    m.exclusive.toBitVec.getLsbD d.bit.toNat = m.isHeld d.bit := by
  rw [← BitVec.testBit_toNat, UInt32.toNat_toBitVec, isHeld_eq_testBit]

/-- Setting a bit that is set already changes nothing. -/
theorem exclusive_setBit (held : m.isHeld d.bit = true) :
    (m.setBit d.bit).exclusive = m.exclusive := by
  refine UInt32.toBitVec_inj.mp (BitVec.eq_of_getLsbD_eq fun i _ => ?_)
  rw [setBit, UInt32.toBitVec_or, BitVec.getLsbD_or, getLsbD_bitWord]
  by_cases here : d.bit.toNat = i
  · rw [← here, getLsbD_exclusive, held, Bool.true_or]
  · rw [decide_eq_false here, Bool.or_false]

theorem xor_setBit (free : m.isHeld d.bit = false) :
    m.exclusive ^^^ (m.setBit d.bit).exclusive = bitWord d.bit := by
  refine UInt32.toBitVec_inj.mp (BitVec.eq_of_getLsbD_eq fun i _ => ?_)
  rw [setBit, UInt32.toBitVec_xor, BitVec.getLsbD_xor, UInt32.toBitVec_or, BitVec.getLsbD_or,
    getLsbD_bitWord]
  by_cases here : d.bit.toNat = i
  · rw [← here, getLsbD_exclusive, free]
    simp
  · simp [here]

theorem xor_clearBit (held : m.isHeld d.bit = true) :
    m.exclusive ^^^ (m.clearBit d.bit).exclusive = bitWord d.bit := by
  refine UInt32.toBitVec_inj.mp (BitVec.eq_of_getLsbD_eq fun i low => ?_)
  rw [clearBit, UInt32.toBitVec_xor, BitVec.getLsbD_xor, UInt32.toBitVec_and, BitVec.getLsbD_and,
    UInt32.toBitVec_not, BitVec.getLsbD_not, getLsbD_bitWord]
  by_cases here : d.bit.toNat = i
  · rw [← here, getLsbD_exclusive, held]
    simp
  · simp [here, low]

end Machine

namespace Board

/-- The masks and the locks are as before. -/
structure Alike (b b' : Board n) : Prop where
  executing : b'.machine.executing = b.machine.executing
  enabled : b'.machine.enabled = b.machine.enabled
  exclusive : b'.machine.exclusive = b.machine.exclusive
  cores : ∀ d, (b.cores.get d).Alike (b'.cores.get d)

instance : IsPreorder (Board n) Alike where
  refl _ := ⟨rfl, rfl, rfl, fun _ => refl _⟩
  trans _ _ _ first second := ⟨second.executing.trans first.executing,
    second.enabled.trans first.enabled, second.exclusive.trans first.exclusive,
    fun d => IsTrans.trans _ _ _ (first.cores d) (second.cores d)⟩

variable {b b' : Board n}

theorem alike_put {core : Core} (alike : (b.cores.get c).Alike core) (trace : Trace) :
    b.Alike { b with trace, cores := b.cores.put c core } := by
  refine ⟨rfl, rfl, rfl, fun d => ?_⟩
  rw [Vector.get_put]
  split
  · subst c
    exact alike
  · exact refl _

theorem alike_log (entry : LogEntry) : Ensures (Alike (n := n)) (log entry) :=
  .of_run (fun _ => rfl) fun _ => ⟨rfl, rfl, rfl, fun _ => refl _⟩

theorem alike_requestSwitch (c : Fin n) : Ensures Alike (requestSwitch c) :=
  .of_run (fun _ => rfl) fun b => alike_put (Core.alike_request _) b.trace

theorem alike_clearIpi : Ensures (Alike (n := n)) clearIpi :=
  .of_run (fun _ => rfl) fun _ => ⟨rfl, rfl, rfl, fun _ => refl _⟩

/-- Core `c` has left a handler that found interrupts enabled, or not. -/
structure HandlerLeft (c : Fin n) (wasEnabled : Bool) (b b' : Board n) : Prop where
  enabled : b'.machine.enabled =
    if wasEnabled then b.machine.enabled.put c true else b.machine.enabled
  others : ∀ d, d ≠ c → (b.cores.get d).Alike (b'.cores.get d)
  own : (if 1 < n then (b.cores.get c).lowerLock .isr else b.cores.get c).Alike (b'.cores.get c)
  exclusive : b'.machine.exclusive = if 1 < n ∧ (b.cores.get c).isrLock = 1
    then (b.machine.clearBit LockClass.isr.bit).exclusive else b.machine.exclusive

theorem HandlerLeft.between {b₁ b₂ : Board n} {wasEnabled : Bool} (before : b.Alike b₁)
    (left : HandlerLeft c wasEnabled b₁ b₂) (after : b₂.Alike b') :
    HandlerLeft c wasEnabled b b' := by
  have levels : (b₁.cores.get c).isrLock = (b.cores.get c).isrLock := (before.cores c).isrLock
  refine ⟨?_, fun d apart => ?_, ?_, ?_⟩
  · rw [after.enabled, left.enabled, before.enabled]
  · exact IsTrans.trans _ _ _ (before.cores d)
      (IsTrans.trans _ _ _ (left.others d apart) (after.cores d))
  · refine IsTrans.trans _ _ _ ?_ (IsTrans.trans _ _ _ left.own (after.cores c))
    split
    · exact (before.cores c).lower .isr
    · exact before.cores c
  · simp only [after.exclusive, left.exclusive, levels, Machine.clearBit, before.exclusive]

theorem HandlerLeft.alone {wasEnabled : Bool} (left : HandlerLeft c wasEnabled b b')
    (alone : ¬1 < n) : b'.machine.exclusive = b.machine.exclusive ∧
      ∀ d, (b.cores.get d).Alike (b'.cores.get d) := by
  refine ⟨left.exclusive.trans (if_neg fun both => alone both.1), fun d => ?_⟩
  by_cases here : d = c
  · have own := left.own
    rw [if_neg alone] at own
    rwa [here]
  · exact left.others d here

/-- The level that a handler gives up is the one that it took. -/
theorem HandlerLeft.raised {b₁ : Board n} {wasEnabled : Bool}
    (left : HandlerLeft c wasEnabled b₁ b') (several : 1 < n)
    (cores : b₁.cores = b.cores.put c ((b.cores.get c).raiseLock .isr)) :
    b'.machine.exclusive = (if (b.cores.get c).isrLock = 0
      then (b₁.machine.clearBit LockClass.isr.bit).exclusive else b₁.machine.exclusive) ∧
    ∀ d, (b.cores.get d).Alike (b'.cores.get d) := by
  have levels : (b₁.cores.get c).isrLock = (b.cores.get c).isrLock + 1 := by
    rw [cores, Vector.get_put_self]
    rfl
  have last : (b₁.cores.get c).isrLock = 1 ↔ (b.cores.get c).isrLock = 0 := by
    rw [levels]
    constructor <;> intro levels <;> grind
  refine ⟨?_, fun d => ?_⟩
  · rw [left.exclusive]
    simp only [several, last, true_and]
  · by_cases here : d = c
    · have own := left.own
      rw [if_pos several, cores, Vector.get_put_self] at own
      rw [here]
      exact IsTrans.trans _ _ _ (Core.alike_lower_raise _ .isr) own
    · have same := left.others d here
      rwa [cores, Vector.get_put_of_ne _ (Ne.symm here)] at same

/-- A level is given up only by a core that has one, and the bit with the last. -/
theorem release_ran {d : LockClass} {u : Unit} (ran : release c d b = .ok u b') :
    (b.cores.get c).lockNesting d ≠ 0 ∧ b'.machine.executing = b.machine.executing ∧
      b'.machine.enabled = b.machine.enabled ∧
      b'.machine.exclusive = (if (b.cores.get c).lockNesting d = 1
        then (b.machine.clearBit d.bit).exclusive else b.machine.exclusive) ∧
      b'.cores = b.cores.put c ((b.cores.get c).lowerLock d) := by
  have held : (b.cores.get c).lockNesting d ≠ 0 := by
    intro unheld
    rw [release_run_unheld c d b unheld] at ran
    cases ran
  by_cases last : (b.cores.get c).lockNesting d = 1
  · obtain ⟨trace, releases⟩ := release_run_last (d := d) last
    rw [releases] at ran
    cases ran
    exact ⟨held, rfl, rfl, (if_pos last).symm, rfl⟩
  · obtain ⟨trace, releases⟩ := release_run_inner (d := d) held last
    rw [releases] at ran
    cases ran
    exact ⟨held, rfl, rfl, (if_neg last).symm, rfl⟩

/-- A handler gives up one level of its lock, if it needed it. -/
theorem leaveHandler_ran {u : Unit} (ran : leaveHandler c b = .ok u b') :
    b'.machine.executing = b.machine.executing ∧ b'.machine.enabled = b.machine.enabled ∧
      b'.machine.exclusive = (if 1 < n ∧ (b.cores.get c).isrLock = 1
        then (b.machine.clearBit LockClass.isr.bit).exclusive else b.machine.exclusive) ∧
      b'.cores = if 1 < n then b.cores.put c ((b.cores.get c).lowerLock .isr) else b.cores := by
  by_cases several : 1 < n
  · rw [leaveHandler, if_pos several] at ran
    obtain ⟨_, executing, enabled, exclusive, cores⟩ := release_ran ran
    simp only [several, true_and, if_true]
    exact ⟨executing, enabled, exclusive, cores⟩
  · rw [leaveHandler, if_neg several] at ran
    cases ran
    simp [several]

theorem restoreMask_ran {wasEnabled : Bool} {u : Unit} (mine : b.machine.executing = c)
    (ran : restoreMask wasEnabled b = .ok u b') :
    b'.cores = b.cores ∧ b'.machine.exclusive = b.machine.exclusive ∧ b'.machine.enabled =
      if wasEnabled then b.machine.enabled.put c true else b.machine.enabled := by
  subst mine
  rw [restoreMask_run] at ran
  cases wasEnabled with
  | false =>
    cases ran
    exact ⟨rfl, rfl, rfl⟩
  | true =>
    cases ran
    exact ⟨rfl, rfl, rfl⟩

theorem handlerLeft {b₁ : Board n} {wasEnabled : Bool} {u v : Unit}
    (mine : b.machine.executing = c) (released : leaveHandler c b = .ok u b₁)
    (restored : restoreMask wasEnabled b₁ = .ok v b') : HandlerLeft c wasEnabled b b' := by
  obtain ⟨executing, enabled₁, exclusive₁, cores₁⟩ := leaveHandler_ran released
  obtain ⟨cores, exclusive, enabled⟩ := restoreMask_ran (executing.trans mine) restored
  refine ⟨enabled.trans (by rw [enabled₁]), fun d apart => ?_, ?_, exclusive.trans exclusive₁⟩
  · rw [cores, cores₁]
    split
    · rw [Vector.get_put_of_ne _ apart.symm]
      exact refl _
    · exact refl _
  · rw [cores, cores₁]
    split
    · rw [Vector.get_put_self]
      exact refl _
    · exact refl _

end Board

namespace Kernel

variable {k k' : Kernel κ n}

theorem alike_onBoard {α : Type} {action : BoardM n α} (alike : Ensures Board.Alike action) :
    Ensures (fun k k' : Kernel κ n => k.board.Alike k'.board) (onBoard action) := by
  intro k a k' ran
  obtain ⟨b, acted, rfl⟩ := onBoard_ran ran
  exact alike _ _ _ acted

theorem alike_countTick :
    Ensures (fun k k' : Kernel κ n => k.board.Alike k'.board) countTick :=
  .of_run (fun _ => rfl) fun _ => ⟨rfl, rfl, rfl, fun _ => refl _⟩

end Kernel

namespace Board

/-- An attempt on the lock wins it, or changes nothing. -/
theorem trying_ran {b b' : Board n} {d : LockClass} {on : Bool} {phase : Phase}
    (turned : b.machine.turnOf c = b.machine) (ran : proceed c (.trying d on) b = .ok phase b') :
    b'.cores = b.cores ∧ b'.machine.enabled = b.machine.enabled ∧
      (b.machine.isHeld d.bit = false ∧ phase = .counting d on ∧
          b'.machine.exclusive = (b.machine.setBit d.bit).exclusive ∨
        phase = .trying d on ∧ b'.machine.exclusive = b.machine.exclusive) := by
  cases held : b.machine.isHeld d.bit with
  | false =>
    obtain ⟨trace, wins⟩ := proceed_run_won (c := c) on held
    rw [wins] at ran
    cases ran
    exact ⟨rfl, rfl, .inl ⟨rfl, rfl, rfl⟩⟩
  | true =>
    have waits : ((b.machine.setBit d.bit).snooze).isStuck = false := by
      rw [← turned]
      rfl
    have same : ((b.machine.setBit d.bit).snooze).exclusive = b.machine.exclusive := by
      rw [← Machine.exclusive_setBit held, ← turned]
      rfl
    have enabled : ((b.machine.setBit d.bit).snooze).enabled = b.machine.enabled := by
      rw [← turned]
      rfl
    obtain ⟨trace, loses⟩ := proceed_run_lost (c := c) on held waits
    rw [loses] at ran
    cases ran
    exact ⟨rfl, enabled, .inr ⟨rfl, same⟩⟩

end Board

namespace Callouts

variable [SwitchPrimitives κ] {k k' : Kernel κ n} {u : Unit} {rest : Rest} {wasEnabled : Bool}

/-- How a handler ends once it has its lock. -/
theorem finish_ran (mine : k.board.machine.executing = c)
    (handler : rest.mask? = some wasEnabled) (ran : own.finish c rest k = .ok u k') :
    Board.HandlerLeft c wasEnabled k.board k'.board := by
  cases rest with
  | taken => cases handler
  | tick on =>
    cases handler
    obtain ⟨due, k₁, counted, ran⟩ := ran_of_bind ran
    obtain ⟨_, k₂, released, ran⟩ := ran_of_bind ran
    obtain ⟨_, k₃, restored, ran⟩ := ran_of_bind ran
    have before := Kernel.alike_countTick _ _ _ counted
    obtain ⟨b₂, gaveUp, rfl⟩ := Kernel.onBoard_ran released
    obtain ⟨b₃, putBack, rfl⟩ := Kernel.onBoard_ran restored
    have left := Board.handlerLeft (before.executing.trans mine) gaveUp putBack
    have logged (due : Bool) :=
      Kernel.alike_onBoard (κ := κ) (Board.alike_log (n := n) (.tick c due))
    cases due with
    | false => exact left.between before (logged _ _ _ _ ran)
    | true =>
      obtain ⟨_, k₄, requested, ran⟩ := ran_of_bind ran
      have asked := Kernel.alike_onBoard (Board.alike_requestSwitch c) _ _ _ requested
      exact left.between before (IsTrans.trans _ _ _ asked (logged _ _ _ _ ran))
  | ipi on =>
    cases handler
    obtain ⟨b', acted, rfl⟩ := Kernel.onBoard_ran ran
    obtain ⟨_, b₁, requested, ran⟩ := ran_of_bind acted
    obtain ⟨_, b₂, cleared, ran⟩ := ran_of_bind ran
    obtain ⟨_, b₃, released, ran⟩ := ran_of_bind ran
    obtain ⟨_, b₄, restored, logged⟩ := ran_of_bind ran
    have before : k.board.Alike b₂ := IsTrans.trans _ _ _
      (Board.alike_requestSwitch c _ _ _ requested) (Board.alike_clearIpi _ _ _ cleared)
    have left := Board.handlerLeft (before.executing.trans mine) released restored
    exact left.between before (Board.alike_log _ _ _ _ logged)

end Callouts

namespace Board

theorem several_of_handlersLock {d : LockClass} (needs : handlersLock n = some d) :
    1 < n ∧ d = .isr := by
  unfold handlersLock at needs
  split at needs
  · cases needs
    exact ⟨‹_›, rfl⟩
  · cases needs

theorem alone_of_handlersLock (needs : handlersLock n = none) : ¬1 < n := by
  intro several
  rw [handlersLock, if_pos several] at needs
  cases needs

/-- How far a core comes that begins a call which asks for a lock. A handler that need not wait for
its lock is through with it. -/
inductive Begun (b : Board n) (c : Fin n) (b' : Board n) (rest : Rest) : Stance → Prop
  | passes {wasEnabled : Bool} (handler : rest.mask? = some wasEnabled)
      (exclusive : b'.machine.exclusive = b.machine.exclusive)
      (cores : ∀ d, (b.cores.get d).Alike (b'.cores.get d))
      (enabled : b'.machine.enabled = b.machine.enabled) : Begun b c b' rest .outside
  | takes {d : LockClass} (taken : rest = .taken) (held : (b.cores.get c).lockNesting d ≠ 0)
      (exclusive : b'.machine.exclusive = b.machine.exclusive)
      (cores : b'.cores = b.cores.put c ((b.cores.get c).raiseLock d)) : Begun b c b' rest .outside
  | waits {d : LockClass} {on : Bool} (unheld : (b.cores.get c).lockNesting d = 0)
      (exclusive : b'.machine.exclusive = b.machine.exclusive) (cores : b'.cores = b.cores)
      (enabled : b'.machine.enabled = b.machine.enabled.put c false)
      (handler : ∀ wasEnabled, rest.mask? = some wasEnabled →
        1 < n ∧ d = .isr ∧ on = false ∧ wasEnabled = b.machine.enabled.get c) :
      Begun b c b' rest (.within rest (.trying d on))

/-- How far a core comes on its next turn. -/
inductive Continued (b : Board n) (c : Fin n) (b' : Board n) (rest : Rest) : Phase → Stance → Prop
  | loses {d : LockClass} {on : Bool} (exclusive : b'.machine.exclusive = b.machine.exclusive)
      (cores : b'.cores = b.cores) (enabled : b'.machine.enabled = b.machine.enabled) :
      Continued b c b' rest (.trying d on) (.within rest (.trying d on))
  | wins {d : LockClass} {on : Bool} (free : b.machine.isHeld d.bit = false)
      (exclusive : b'.machine.exclusive = (b.machine.setBit d.bit).exclusive)
      (cores : b'.cores = b.cores) (enabled : b'.machine.enabled = b.machine.enabled) :
      Continued b c b' rest (.trying d on) (.within rest (.counting d on))
  | takes {d : LockClass} {on : Bool} (taken : rest = .taken)
      (exclusive : b'.machine.exclusive = b.machine.exclusive)
      (cores : b'.cores = b.cores.put c ((b.cores.get c).raiseLock d)) :
      Continued b c b' rest (.counting d on) .outside
  | passes {wasEnabled : Bool} (handler : rest.mask? = some wasEnabled)
      (exclusive : b'.machine.exclusive = (b.machine.clearBit LockClass.isr.bit).exclusive)
      (cores : ∀ d, (b.cores.get d).Alike (b'.cores.get d))
      (enabled : b'.machine.enabled =
        if wasEnabled then b.machine.enabled.put c true else b.machine.enabled) :
      Continued b c b' rest (.counting .isr false) .outside

end Board

namespace Interplay

variable [SwitchPrimitives κ] {k k' : Kernel κ n} {call : PortCall} {asks : BoardM n (Ask n)}
  {stance stance' : Stance} {rest : Rest} {phase : Phase}

theorem mask_back (enabled : Vector Bool n) (c : Fin n) :
    (if enabled.get c then (enabled.put c false).put c true else enabled.put c false) =
      enabled := by
  rw [Vector.put_put]
  cases on : enabled.get c with
  | false => rw [if_neg (by decide), ← on, Vector.put_get]
  | true => rw [if_pos rfl, ← on, Vector.put_get]

section Begun

variable {ask : Ask n} {b₁ : Board n} (asked : call.Asked k.board c ask b₁)

include asked

omit [SwitchPrimitives κ] in
theorem taken_or_handles : ask.rest = .taken ∧ b₁.machine.enabled = k.board.machine.enabled ∧
    ask.lock ≠ none ∨ ∃ on, ask.rest.mask? = some on ∧ ask.lock = Board.handlersLock n ∧
      on = k.board.machine.enabled.get c ∧
      b₁.machine.enabled = k.board.machine.enabled.put c false := by
  cases rest : ask.rest with
  | taken => exact .inl ⟨rfl, asked.taken rest⟩
  | tick on | ipi on =>
    obtain ⟨masked, found, needs⟩ := asked.handler on (by rw [rest]; rfl)
    exact .inr ⟨on, rfl, needs, found, masked⟩

/-- Alone, a handler needs no lock. -/
theorem begun_alone (none : ask.lock = none)
    (finished : Callouts.own.finish c ask.rest { k with board := b₁ } = .ok () k') :
    k.board.Begun c k'.board ask.rest .outside := by
  rcases taken_or_handles asked with ⟨_, _, needs⟩ | ⟨on, handler, needs, found, masked⟩
  · exact absurd none needs
  · have left := Callouts.finish_ran asked.ready.executing handler finished
    obtain ⟨exclusive, cores⟩ := left.alone (Board.alone_of_handlersLock (needs.symm.trans none))
    rw [asked.cores] at cores
    refine .passes handler (exclusive.trans asked.exclusive) cores ?_
    rw [left.enabled, masked, found, mask_back]

theorem begun_nested {d : LockClass} {trace : Trace} (needed : ask.lock = some d)
    (held : (b₁.cores.get c).lockNesting d ≠ 0)
    (finished : Callouts.own.finish c ask.rest { k with board := { b₁ with
      trace, cores := b₁.cores.put c ((b₁.cores.get c).raiseLock d) } } = .ok () k') :
    k.board.Begun c k'.board ask.rest .outside := by
  rw [asked.cores] at held finished
  rcases taken_or_handles asked with ⟨taken, _, _⟩ | ⟨on, handler, needs, found, masked⟩
  · rw [taken] at finished
    cases finished
    exact .takes taken held asked.exclusive rfl
  · obtain ⟨several, rfl⟩ := Board.several_of_handlersLock (needs.symm.trans needed)
    have left := Callouts.finish_ran asked.ready.executing handler finished
    obtain ⟨exclusive, cores⟩ := left.raised several (b := k.board) rfl
    refine .passes handler ((exclusive.trans (if_neg held)).trans asked.exclusive) cores ?_
    rw [left.enabled, masked, found, mask_back]

omit [SwitchPrimitives κ] in
theorem begun_first {d : LockClass} {trace : Trace} (needed : ask.lock = some d)
    (unheld : (b₁.cores.get c).lockNesting d = 0) :
    k.board.Begun c { b₁ with trace, machine := b₁.machine.setEnabled false } ask.rest
      (.within ask.rest (.trying d b₁.machine.isEnabled)) := by
  have mine := asked.ready.executing
  have enabled : (b₁.machine.setEnabled false).enabled = b₁.machine.enabled.put c false := by
    rw [← mine]
    rfl
  rw [asked.cores] at unheld
  rcases taken_or_handles asked with ⟨taken, same, _⟩ | ⟨on, handler, needs, found, masked⟩
  · refine .waits unheld asked.exclusive asked.cores (by rw [enabled, same]) fun on handler => ?_
    rw [taken] at handler
    cases handler
  · obtain ⟨several, rfl⟩ := Board.several_of_handlersLock (needs.symm.trans needed)
    refine .waits unheld asked.exclusive asked.cores ?_ fun on' handler' => ?_
    · rw [enabled, masked, Vector.put_put]
    · cases handler.symm.trans handler'
      exact ⟨several, rfl, by rw [Machine.isEnabled, mine, masked, Vector.get_put_self], found⟩

end Begun

theorem begun (is : call.ask? = some asks) (ready : k.board.Ready c)
    (ran : (Move.start c call).act .own stance k = .ok stance' k') :
    ∃ rest, k.board.Begun c k'.board rest stance' ∧ call.isHandler = rest.mask?.isSome := by
  simp only [Move.act, is] at ran
  obtain ⟨ask, k₁, lifted, ran⟩ := ran_of_bind ran
  obtain ⟨phase, k₂, lifted', ran⟩ := ran_of_bind ran
  obtain ⟨b₁, asking, rfl⟩ := Kernel.onBoard_ran lifted
  obtain ⟨b₂, beginning, rfl⟩ := Kernel.onBoard_ran lifted'
  have asked := PortCall.ask_ran is ready asking
  refine ⟨ask.rest, ?_, asked.handles⟩
  obtain rfl := asked.core
  rcases Board.beginFor_ran beginning with ⟨none, rfl, rfl⟩ | ⟨d, trace, needed, held, rfl, rfl⟩ |
    ⟨d, trace, needed, unheld, rfl, rfl⟩
  · obtain ⟨_, finished, rfl⟩ := ran_of_return (f := fun _ => Stance.outside) ran
    exact begun_alone asked none finished
  · obtain ⟨_, finished, rfl⟩ := ran_of_return (f := fun _ => Stance.outside) ran
    exact begun_nested asked needed held finished
  · cases ran
    exact begun_first asked needed unheld

theorem continued (turned : k.board.machine.turnOf c = k.board.machine)
    (handler : ∀ d on wasEnabled, phase = .counting d on → rest.mask? = some wasEnabled →
      1 < n ∧ d = .isr ∧ on = false ∧ (k.board.cores.get c).isrLock = 0)
    (inside : phase ≠ .outside)
    (ran : (Move.proceed c).act .own (.within rest phase) k = .ok stance' k') :
    k.board.Continued c k'.board rest phase stance' := by
  obtain ⟨phase', k₁, lifted, ran⟩ := ran_of_bind ran
  obtain ⟨b₁, went, rfl⟩ := Kernel.onBoard_ran lifted
  cases phase with
  | outside => exact absurd rfl inside
  | trying d on =>
    obtain ⟨cores, enabled, exclusive⟩ := Board.trying_ran turned went
    rcases exclusive with ⟨free, rfl, exclusive⟩ | ⟨rfl, exclusive⟩
    · cases ran
      exact .wins free exclusive cores enabled
    · cases ran
      exact .loses exclusive cores enabled
  | counting d on =>
    obtain ⟨trace, counts⟩ := Board.proceed_run_counting (c := c) (d := d) (b := k.board) on
    rw [counts] at went
    cases went
    obtain ⟨_, finished, rfl⟩ := ran_of_return (f := fun _ => Stance.outside) ran
    cases rest with
    | taken =>
      cases finished
      refine .takes rfl ?_ rfl
      split <;> rfl
    | tick wasEnabled | ipi wasEnabled =>
      obtain ⟨several, rfl, rfl, unheld⟩ := handler d on wasEnabled rfl rfl
      have mine : k.board.machine.executing = c := by rw [← turned]; rfl
      have left := Callouts.finish_ran (by exact mine) rfl finished
      obtain ⟨exclusive, cores⟩ := left.raised several (b := k.board) rfl
      exact .passes rfl (exclusive.trans (if_pos unheld)) cores left.enabled

end Interplay

end Preempt
