import Preempt.Proofs.Interplay.Handlers

/-!
What protects the calls that leave the kernel layer. Where the engine saves, selects and restores,
its core is masked. Where a tick is counted the core is masked too, and has the handlers' lock to
itself (`Callout.Protected`). The invariant is that the bit of a class is set while a core owns the
class, that no two cores own it, and that a core in the middle of a handler is as its call found it
(`Interplay.Guarded`). It needs that nothing but the lock touches the two bits; and the count of a
core tells that it has the lock only while its levels fit in 32 bits.
-/

namespace Preempt

open Preempt.Action
open Kernel (onBoard)

variable {κ : Type} {n : Nat} {c : Fin n}

namespace PortCall

variable {call : PortCall} {k k' : Kernel κ n}

/-- A call does not mask another core, nor does it open or close a level there. -/
theorem Outcome.elsewhere (outcome : call.Outcome k k' c) {d : Fin n} (other : d ≠ c) :
    (k.board.cores.get d).Alike (k'.board.cores.get d) ∧
      k'.board.machine.enabled.get d = k.board.machine.enabled.get d := by
  cases outcome with
  | advances _ advances =>
    exact ⟨advances.board.others d other ▸ refl _, advances.board.masks d other⟩
  | handsOn _ handed =>
    refine ⟨?_, congrArg (·.enabled.get d) handed.machine⟩
    rw [handed.cores, Vector.get_put_of_ne _ (Ne.symm other)]
    exact refl _
  | switches _ _ switched => exact ⟨switched.others d other ▸ refl _, switched.masks d other⟩
  | enters _ entered =>
    refine ⟨?_, entered.masks d other⟩
    rw [entered.others d other]
    split
    · exact ⟨rfl, rfl, rfl, rfl⟩
    · exact refl _

/-- Most calls have nothing to do with the locks. -/
theorem Outcome.unlocking (outcome : call.Outcome k k' c) (free : call.isLocking = false) :
    k'.board.machine.exclusive = k.board.machine.exclusive ∧
      ∀ e, (k'.board.cores.get c).lockNesting e = (k.board.cores.get c).lockNesting e := by
  cases outcome with
  | advances _ advances => exact ⟨advances.board.exclusive free, advances.board.counts free⟩
  | handsOn _ handed =>
    refine ⟨congrArg (·.exclusive) handed.machine, fun e => ?_⟩
    rw [handed.cores, Vector.get_put_self]
    cases e <;> rfl
  | switches _ _ switched => exact ⟨switched.exclusive, switched.counts⟩
  | enters _ entered => exact ⟨entered.exclusive, entered.counts⟩

end PortCall

theorem Machine.isHeld_congr {m m' : Machine n} (same : m'.exclusive = m.exclusive) (bit : UInt32) :
    m'.isHeld bit = m.isHeld bit := by
  rw [Machine.isHeld, Machine.isHeld, same]

namespace Board

variable {b : Board n}

/-- A timer that reloads on its own is never late. -/
theorem acknowledge_run_reloads {b : Board n} (reloads : b.machine.autoReload = true) :
    ∃ b', acknowledge b = .ok .onTime b' := by
  have told (f g : Timer → Timer) : ((b.machine.updateTimer f).updateTimer g).autoReload = true :=
    reloads
  simp only [acknowledge, clearPending, tickClock, rearm, bind_run, emit, onMachine, machineOf,
    told, if_true, pure_run]
  exact ⟨_, rfl⟩

theorem askTick_run_reloads {b : Board n} (ready : b.Ready c)
    (reloads : b.machine.autoReload = true) :
    ∃ on b', (do return (← Kernel.askTick).2 : BoardM n (Ask n)) b =
      .ok ⟨c, handlersLock n, .tick on⟩ b' := by
  obtain ⟨served, acknowledged⟩ := acknowledge_run_reloads reloads
  simp only [Kernel.askTick, bind_run, executingCore_run ready.known, ready.executing,
    acknowledged, saveMask_run, pure_run]
  exact ⟨_, _, rfl⟩

end Board

namespace Callout

/-- The core is masked. To count a tick it has the handlers' lock, if there are others, and none of
them is in it. Its count shows that only while the levels that its call found, `levels`, and the one
of the handler fit in 32 bits: of 2 ^ 32 levels the last brings the count back to 0, with the bit
still set. -/
def Protected (levels : UInt32) (o : Callout n) (k : Kernel κ n) : Prop :=
  let m := k.board.machine
  match o with
  | .tick => m.isEnabled = false ∧ (1 < n → m.isHeld LockClass.isr.bit = true ∧
      (levels.toNat + 1 < 2 ^ 32 → 1 ≤ (k.board.cores.get m.executing).isrLock) ∧
      ∀ d, d ≠ m.executing → (k.board.cores.get d).isrLock = 0)
  | .save c | .select c | .restore c => m.executing = c ∧ m.isEnabled = false

instance (levels : UInt32) (k : Kernel κ n) : (o : Callout n) → Decidable (o.Protected levels k)
  | .tick => inferInstanceAs (Decidable (_ ∧ (_ → _ ∧ _ ∧ _)))
  | .save _ | .select _ | .restore _ => inferInstanceAs (Decidable (_ ∧ _))

end Callout

namespace Interplay

def isHeld (w : Interplay κ n) (d : LockClass) : Bool := w.kernel.board.machine.isHeld d.bit

/-- The core has levels of the class open, or has won the bit for the first. -/
def Owns (w : Interplay κ n) (c : Fin n) (d : LockClass) : Prop :=
  (w.core c).lockNesting d ≠ 0 ∨ ∃ rest on, w.stance c = .within rest (.counting d on)

/-- The bit of a class is set while a core owns the class, and no two cores own it. -/
def Sole (w : Interplay κ n) : Prop :=
  ∀ c d, w.Owns c d → w.isHeld d = true ∧ ∀ e, w.Owns e d → e = c

/-- A core in the middle of a handler is masked, has no level open, and is as its call found it, but
for the bit of its lock once it has won it. -/
structure Amid (w : Interplay κ n) (c : Fin n) (wasEnabled : Bool) (phase : Phase) : Prop where
  several : 1 < n
  masked : w.isEnabled c = false
  unheld : (w.core c).isrLock = 0
  enabled : wasEnabled = (w.found c).enabled
  alike : (w.found c).core.Alike (w.core c)
  phase : phase = .trying .isr false ∧ (w.found c).changed = 0 ∨
    phase = .counting .isr false ∧ (w.found c).changed = Machine.bitWord LockClass.isr.bit

/-- The move is part of an interrupt handler. -/
def Handles (w : Interplay κ n) : Move n → Prop
  | .start _ call => call.isHandler = true
  | .proceed c => ∃ rest phase, w.stance c = .within rest phase ∧ rest.mask?.isSome = true

structure Guarded (w : Interplay κ n) : Prop where
  sole : w.Sole
  inside : ∀ {c rest phase}, w.stance c = .within rest phase → phase ≠ .outside
  amid : ∀ {c rest phase wasEnabled}, w.stance c = .within rest phase →
    rest.mask? = some wasEnabled → w.Amid c wasEnabled phase

/-- What a move does about a class of the lock: its core owns the class if it did before, or wins
it, or owns it no more. -/
inductive Turns (w w' : Interplay κ n) (c : Fin n) (d : LockClass) : Prop
  | keeps (held : w'.isHeld d = w.isHeld d) (owns : w'.Owns c d → w.Owns c d)
  | wins (free : w.isHeld d = false) (held : w'.isHeld d = true)
  | leaves (owned : w.Owns c d) (left : ¬w'.Owns c d)

section Ownership

variable {w w' : Interplay κ n} {d : LockClass}

theorem Sole.turned (sole : w.Sole) (others : ∀ e, e ≠ c → ∀ d, w'.Owns e d → w.Owns e d)
    (turns : ∀ d, w.Turns w' c d) : w'.Sole := by
  intro e d owns
  cases turns d with
  | keeps held kept =>
    have before {e : Fin n} (owns : w'.Owns e d) : w.Owns e d := by
      by_cases here : e = c
      · subst here
        exact kept owns
      · exact others e here d owns
    obtain ⟨set, alone⟩ := sole e d (before owns)
    exact ⟨held.trans set, fun e' owns' => alone e' (before owns')⟩
  | wins free held =>
    have mine {e : Fin n} (owns : w'.Owns e d) : e = c := by
      by_contra apart
      rw [(sole e d (others e apart d owns)).1] at free
      cases free
    exact ⟨held, fun e' owns' => (mine owns').trans (mine owns).symm⟩
  | leaves owned left =>
    -- The class was this core's alone, so nobody owns it now.
    by_cases here : e = c
    · subst here
      exact absurd owns left
    · exact absurd ((sole c d owned).2 e (others e here d owns)) here

variable {m : Move n} {stance : Stance} {k : Kernel κ n} {call : PortCall} {rest : Rest}
  {phase : Phase}

theorem stance_after_self : (w.after m stance k).stance m.core = stance :=
  Function.update_self _ _ _

theorem Owns.after_self (owns : (w.after m stance k).Owns m.core d) :
    (k.board.cores.get m.core).lockNesting d ≠ 0 ∨
      ∃ rest on, stance = .within rest (.counting d on) :=
  owns.imp id fun ⟨rest, on, counting⟩ => ⟨rest, on, stance_after_self.symm.trans counting⟩

theorem Owns.after_outside (owns : (w.after m .outside k).Owns m.core d) :
    (k.board.cores.get m.core).lockNesting d ≠ 0 :=
  owns.after_self.resolve_right nofun

/-- To own a class a core has to count or to win. -/
theorem Owns.of_cores (owns : (w.after m stance k).Owns m.core d)
    (cores : k.board.cores = w.kernel.board.cores)
    (elsewhere : ∀ rest on, stance ≠ .within rest (.counting d on)) : w.Owns m.core d := by
  rcases owns.after_self with levels | ⟨rest, on, counting⟩
  · rw [cores] at levels
    exact .inl levels
  · exact absurd counting (elsewhere rest on)

/-- While the exclusive word stays as it is, a core cannot come to own a class. -/
theorem turns_of_exclusive
    (exclusive : k.board.machine.exclusive = w.kernel.board.machine.exclusive)
    (owns : (w.after m stance k).Owns m.core d → w.Owns m.core d) :
    w.Turns (w.after m stance k) m.core d :=
  .keeps (Machine.isHeld_congr exclusive d.bit) owns

theorem turns_of_unlocking (outcome : call.Outcome (w.turn m.core) k m.core)
    (free : call.isLocking = false) (d : LockClass) :
    w.Turns (w.after m .outside k) m.core d := by
  obtain ⟨exclusive, counts⟩ := outcome.unlocking free
  exact turns_of_exclusive exclusive fun owns => .inl ((counts d).symm.trans_ne owns.after_outside)

/-- A release ends the ownership with the last level. -/
theorem turns_of_release {e : LockClass} {u : Unit}
    (ran : Board.release m.core e (w.turn m.core).board = .ok u k.board) (d : LockClass) :
    w.Turns (w.after m .outside k) m.core d := by
  obtain ⟨held, _, _, exclusive, cores⟩ := Board.release_ran ran
  have levels : (k.board.cores.get m.core).lockNesting d =
      ((w.core m.core).lowerLock e).lockNesting d := by
    rw [cores, Vector.get_put_self]
    rfl
  by_cases last : (w.core m.core).lockNesting e = 1
  · by_cases same : d = e
    · subst same
      refine .leaves (.inl held) fun owns => owns.after_outside ?_
      rw [levels, Core.lockNesting_lowerLock_self, last]
      rfl
    · refine .keeps ?_ fun owns => .inl ?_
      · refine (Machine.isHeld_congr (exclusive.trans (if_pos last)) d.bit).trans ?_
        exact Machine.isHeld_clearBit_of_ne _ same
      · have open' := owns.after_outside
        rwa [levels, Core.lockNesting_lowerLock_of_ne _ same] at open'
  · refine turns_of_exclusive (exclusive.trans (if_neg last)) fun owns => .inl ?_
    by_cases same : d = e
    · rw [same]
      exact held
    · have open' := owns.after_outside
      rwa [levels, Core.lockNesting_lowerLock_of_ne _ same] at open'

/-- A core that begins to wait owns no more than before. -/
theorem turns_of_begun (begun : (w.turn m.core).board.Begun m.core k.board rest stance)
    (d : LockClass) : w.Turns (w.after m stance k) m.core d := by
  cases begun with
  | passes _ exclusive cores _ =>
    refine turns_of_exclusive exclusive fun owns => .inl ?_
    exact ((cores m.core).lockNesting d).symm.trans_ne owns.after_outside
  | @takes e _ held exclusive cores =>
    refine turns_of_exclusive exclusive fun owns => .inl ?_
    by_cases same : d = e
    · rw [same]
      exact held
    · have open' := owns.after_outside
      rwa [cores, Vector.get_put_self, Core.lockNesting_raiseLock_of_ne _ same] at open'
  | waits _ exclusive cores _ _ =>
    exact turns_of_exclusive exclusive fun owns => owns.of_cores cores nofun

theorem turns_of_continued (guarded : w.Guarded) (within : w.stance m.core = .within rest phase)
    (continued : (w.turn m.core).board.Continued m.core k.board rest phase stance) (d : LockClass) :
    w.Turns (w.after m stance k) m.core d := by
  cases continued with
  | loses exclusive cores _ =>
    exact turns_of_exclusive exclusive fun owns => owns.of_cores cores nofun
  | @wins e _ free exclusive cores _ =>
    by_cases same : d = e
    · subst same
      refine .wins free ((Machine.isHeld_congr exclusive d.bit).trans ?_)
      simp [Machine.isHeld_setBit]
    · refine .keeps ?_ fun owns => owns.of_cores cores ?_
      · exact (Machine.isHeld_congr exclusive d.bit).trans (Machine.isHeld_setBit_of_ne _ same)
      · rintro rest on ⟨⟩
        exact same rfl
  | @takes e on _ exclusive cores =>
    refine turns_of_exclusive exclusive fun owns => ?_
    by_cases same : d = e
    · rw [same]
      exact .inr ⟨rest, on, within⟩
    · have levels := owns.after_outside
      rw [cores, Vector.get_put_self, Core.lockNesting_raiseLock_of_ne _ same] at levels
      exact .inl levels
  | passes handler exclusive cores _ =>
    have levels := (cores m.core).lockNesting d
    by_cases same : d = .isr
    · subst same
      exact .leaves (.inr ⟨rest, false, within⟩) fun owns =>
        owns.after_outside (levels.trans (guarded.amid within handler).unheld)
    · refine .keeps ?_ fun owns => .inl (levels.symm.trans_ne owns.after_outside)
      exact (Machine.isHeld_congr exclusive d.bit).trans (Machine.isHeld_clearBit_of_ne _ same)

end Ownership

/-- A move has ended a handler. Its core is enabled as it was and has the same levels open, and all
in all it has changed no bit of the exclusive word. -/
structure Restored (w : Interplay κ n) (m : Move n) (w' : Interplay κ n) : Prop where
  enabled : w'.isEnabled m.core = (w.foundBy m).enabled
  levels : (w.foundBy m).core.Alike (w'.core m.core)
  exclusive : (w'.found m.core).changed = 0

section Handlers

variable {w : Interplay κ n} {m : Move n} {stance : Stance} {k : Kernel κ n} {rest rest' : Rest}
  {phase phase' : Phase} {wasEnabled : Bool}

theorem found_after_self : (w.after m stance k).found m.core = { w.foundBy m with
    changed := (w.foundBy m).changed ^^^
      (w.kernel.board.machine.exclusive ^^^ k.board.machine.exclusive) } :=
  Function.update_self _ _ _

theorem changed_after_self (stance : Stance) (k : Kernel κ n) {changed : UInt32}
    (before : (w.foundBy m).changed = changed) :
    ((w.after m stance k).found m.core).changed = changed ^^^
      (w.kernel.board.machine.exclusive ^^^ k.board.machine.exclusive) := by
  rw [found_after_self, ← before]

theorem amid_of_begun
    (begun : (w.turn m.core).board.Begun m.core k.board rest (.within rest' phase))
    (starts : w.foundBy m = { enabled := w.isEnabled m.core, core := w.core m.core })
    (handler : rest'.mask? = some wasEnabled) :
    (w.after m (.within rest' phase) k).Amid m.core wasEnabled phase := by
  cases begun with
  | waits unheld exclusive cores enabled handles =>
    obtain ⟨several, rfl, rfl, found⟩ := handles wasEnabled handler
    have own : k.board.cores.get m.core = w.core m.core := by rw [cores]; rfl
    have changed := changed_after_self (.within rest (.trying .isr false)) k
      (congrArg Found.changed starts)
    rw [exclusive] at changed
    refine ⟨several, ?_, ?_, ?_, ?_, .inl ⟨rfl, changed.trans ?_⟩⟩
    · rw [isEnabled, after, enabled, Vector.get_put_self]
    · exact (congrArg Core.isrLock own).trans unheld
    · rw [found_after_self, starts]
      exact found
    · rw [found_after_self, starts]
      exact own ▸ refl _
    · simp [turn, Machine.turnOf]

theorem restored_of_begun
    (begun : (w.turn m.core).board.Begun m.core k.board rest .outside)
    (starts : w.foundBy m = { enabled := w.isEnabled m.core, core := w.core m.core })
    (handler : rest.mask? = some wasEnabled) : w.Restored m (w.after m .outside k) := by
  cases begun with
  | takes taken =>
    rw [taken] at handler
    cases handler
  | passes _ exclusive cores enabled =>
    have changed := changed_after_self .outside k (congrArg Found.changed starts)
    rw [exclusive] at changed
    refine ⟨?_, ?_, changed.trans (by simp [turn, Machine.turnOf])⟩
    · rw [isEnabled, after, enabled, starts]
      rfl
    · rw [starts]
      exact cores m.core

theorem amid_of_continued (amid : w.Amid m.core wasEnabled phase)
    (proceeds : w.foundBy m = w.found m.core)
    (continued : (w.turn m.core).board.Continued m.core k.board rest phase (.within rest' phase')) :
    (w.after m (.within rest' phase') k).Amid m.core wasEnabled phase' := by
  have onward (cores : k.board.cores = w.kernel.board.cores)
      (enabled : k.board.machine.enabled = w.kernel.board.machine.enabled)
      (phase : phase' = .trying .isr false ∧
          ((w.after m (.within rest' phase') k).found m.core).changed = 0 ∨
        phase' = .counting .isr false ∧
          ((w.after m (.within rest' phase') k).found m.core).changed =
            Machine.bitWord LockClass.isr.bit) :
      (w.after m (.within rest' phase') k).Amid m.core wasEnabled phase' := by
    have own : k.board.cores.get m.core = w.core m.core := by rw [cores]; rfl
    refine ⟨amid.several, ?_, (congrArg Core.isrLock own).trans amid.unheld, ?_, ?_, phase⟩
    · exact (congrArg (Vector.get · m.core) enabled).trans amid.masked
    · rw [found_after_self, proceeds]
      exact amid.enabled
    · have alike : (w.found m.core).core.Alike (k.board.cores.get m.core) := own ▸ amid.alike
      rw [found_after_self, proceeds]
      exact alike
  rcases amid.phase with ⟨rfl, unchanged⟩ | ⟨rfl, _⟩
  · have changed := changed_after_self (.within rest' phase') k
      ((congrArg Found.changed proceeds).trans unchanged)
    cases continued with
    | loses exclusive cores enabled =>
      rw [exclusive] at changed
      exact onward cores enabled (.inl ⟨rfl, changed.trans (by simp [turn, Machine.turnOf])⟩)
    | wins free exclusive cores enabled =>
      rw [exclusive] at changed
      refine onward cores enabled (.inr ⟨rfl, changed.trans ?_⟩)
      rw [UInt32.zero_xor]
      exact Machine.xor_setBit free
  · cases continued

theorem restored_of_continued (amid : w.Amid m.core wasEnabled phase) (sole : w.Sole)
    (within : w.stance m.core = .within rest phase)
    (proceeds : w.foundBy m = w.found m.core) (handler : rest.mask? = some wasEnabled)
    (continued : (w.turn m.core).board.Continued m.core k.board rest phase .outside) :
    w.Restored m (w.after m .outside k) := by
  cases continued with
  | takes taken =>
    rw [taken] at handler
    cases handler
  | passes handler' exclusive cores enabled =>
    cases handler.symm.trans handler'
    -- The bit that the handler clears is the one that it has won, and still set.
    obtain ⟨_, won⟩ := amid.phase.resolve_left fun waits => Phase.noConfusion waits.1
    have held : w.isHeld .isr = true := (sole m.core _ (.inr ⟨rest, false, within⟩)).1
    have cleared : w.kernel.board.machine.exclusive ^^^ k.board.machine.exclusive =
        Machine.bitWord LockClass.isr.bit := by
      rw [exclusive]
      exact Machine.xor_clearBit held
    refine ⟨?_, ?_, ?_⟩
    · rw [isEnabled, after, enabled, proceeds, ← amid.enabled]
      cases wasEnabled with
      | true => rw [if_pos rfl, Vector.get_put_self]
      | false => exact amid.masked
    · rw [proceeds]
      exact IsTrans.trans _ _ _ amid.alike (cores m.core)
    · rw [changed_after_self .outside k ((congrArg Found.changed proceeds).trans won), cleared,
        UInt32.xor_self]

end Handlers

/-- What a move does to the lock, and how its core is left: in the middle of a handler, or with
everything put back. -/
structure Behaves (w : Interplay κ n) (m : Move n) (stance : Stance) (k : Kernel κ n) : Prop where
  turns : ∀ d, w.Turns (w.after m stance k) m.core d
  inside : ∀ {rest phase}, stance = .within rest phase → phase ≠ .outside
  amid : ∀ {rest phase wasEnabled}, stance = .within rest phase → rest.mask? = some wasEnabled →
    (w.after m stance k).Amid m.core wasEnabled phase
  restored : stance = .outside → w.Handles m → w.Restored m (w.after m stance k)

section Moves

variable [SwitchPrimitives κ] {w : Interplay κ n} {m : Move n} {stance : Stance} {k : Kernel κ n}
  {call : PortCall}

theorem behaves_of_asks {asks : BoardM n (Ask n)} (orderly : w.Orderly)
    (is : call.ask? = some asks)
    (ran : (Move.start c call).act .own (w.stance c) (w.turn c) = .ok stance k) :
    w.Behaves (.start c call) stance k := by
  obtain ⟨rest, begun, handles⟩ := begun is (ready_turn orderly.known c) ran
  refine ⟨turns_of_begun begun, ?_, ?_, ?_⟩
  · rintro rest' phase rfl
    cases begun
    exact Phase.noConfusion
  · rintro rest' phase wasEnabled rfl handler
    exact amid_of_begun begun rfl handler
  · rintro rfl handler
    obtain ⟨wasEnabled, handler⟩ := Option.isSome_iff_exists.mp (handles.symm.trans handler)
    exact restored_of_begun begun rfl handler

theorem behaves_of_plain (orderly : w.Orderly)
    (noAsk : (call.ask? : Option (BoardM n (Ask n))) = none)
    (ran : (Move.start c call).act .own (w.stance c) (w.turn c) = .ok stance k) :
    w.Behaves (.start c call) stance k := by
  have ready := ready_turn orderly.known c
  simp only [Move.act, noAsk] at ran
  obtain ⟨answer, performed, rfl⟩ := ran_of_return (f := fun _ => Stance.outside) ran
  refine ⟨?_, by simp, by simp, fun _ handler => ?_⟩
  · cases locking : call.isLocking with
    | false =>
      have outcome := call.outcome ready ⟨orderly.turns.1, orderly.turns.2⟩ noAsk performed
      exact turns_of_unlocking (m := .start c call) outcome locking
    | true =>
      cases call with
      | unlock d =>
        obtain ⟨_, unlocked, _⟩ := ran_of_return (f := fun _ => none) performed
        obtain ⟨b, released, rfl⟩ := Kernel.onBoard_ran unlocked
        rw [Kernel.unlock, bind_run, Board.executingCore_run ready.known] at released
        exact turns_of_release (m := .start c (.unlock d)) released
      | lock | lockShared | onTick | onIpi => cases noAsk
      | _ => cases locking
  · cases call with
    | onTick | onIpi => cases noAsk
    | _ => cases handler

theorem behaves_of_proceed (guarded : w.Guarded) (within : w.stance c ≠ .outside)
    (ran : (Move.proceed c).act .own (w.stance c) (w.turn c) = .ok stance k) :
    w.Behaves (.proceed c) stance k := by
  cases is : w.stance c with
  | outside => exact absurd is within
  | within rest phase =>
    rw [is] at ran
    have continued := continued (k := w.turn c) rfl ?_ (guarded.inside is) ran
    · refine ⟨turns_of_continued (m := .proceed c) guarded is continued, ?_, ?_, ?_⟩
      · rintro rest' phase' rfl
        cases continued <;> exact Phase.noConfusion
      · rintro rest' phase' wasEnabled rfl handler
        have same : rest' = rest := by cases continued <;> rfl
        subst same
        exact amid_of_continued (guarded.amid is handler) rfl continued
      · rintro rfl ⟨rest', phase', is', handles⟩
        cases is.symm.trans is'
        obtain ⟨wasEnabled, handler⟩ := Option.isSome_iff_exists.mp handles
        exact restored_of_continued (m := .proceed c) (guarded.amid is handler) guarded.sole is rfl
          handler continued
    · rintro d on wasEnabled rfl handler
      have amid := guarded.amid is handler
      obtain ⟨counting, _⟩ := amid.phase.resolve_left fun waits => Phase.noConfusion waits.1
      cases counting
      exact ⟨amid.several, rfl, rfl, amid.unheld⟩

theorem Guarded.behaves (guarded : w.Guarded) (orderly : w.Orderly) (allowed : w.Allows m)
    (ran : m.act .own (w.stance m.core) (w.turn m.core) = .ok stance k) : w.Behaves m stance k := by
  cases m with
  | proceed c => exact behaves_of_proceed guarded allowed ran
  | start c call =>
    cases asks : (call.ask? : Option (BoardM n (Ask n))) with
    | some action => exact behaves_of_asks orderly asks ran
    | none => exact behaves_of_plain orderly asks ran

omit [SwitchPrimitives κ] in
theorem Outcome.elsewhere (outcome : w.Outcome m k) {d : Fin n} (other : d ≠ m.core) :
    (w.core d).Alike (k.board.cores.get d) ∧ k.board.machine.enabled.get d = w.isEnabled d := by
  cases outcome with
  | start outcome => exact outcome.elsewhere other
  | proceed advances =>
    exact ⟨advances.board.others d other ▸ refl _, advances.board.masks d other⟩

omit [SwitchPrimitives κ] in
/-- A core that a step leaves alone stays in the middle of its handler. -/
theorem Amid.kept {w' : Interplay κ n} {wasEnabled : Bool} {phase : Phase}
    (amid : w.Amid c wasEnabled phase) (levels : (w.core c).Alike (w'.core c))
    (masks : w'.isEnabled c = w.isEnabled c) (found : w'.found c = w.found c) :
    w'.Amid c wasEnabled phase :=
  ⟨amid.several, masks.trans amid.masked, levels.isrLock.trans amid.unheld,
    amid.enabled.trans (by rw [found]), found ▸ IsTrans.trans _ _ _ amid.alike levels,
    found ▸ amid.phase⟩

theorem Guarded.moved (guarded : w.Guarded) (orderly : w.Orderly) (allowed : w.Allows m)
    (ran : m.act .own (w.stance m.core) (w.turn m.core) = .ok stance k) :
    (w.after m stance k).Guarded := by
  have behaves := guarded.behaves orderly allowed ran
  have elsewhere {d : Fin n} := (orderly.outcome ran).elsewhere (d := d)
  have stances {d : Fin n} (other : d ≠ m.core) : (w.after m stance k).stance d = w.stance d :=
    Function.update_of_ne other _ _
  refine ⟨guarded.sole.turned (fun d other e owns => ?_) behaves.turns,
    fun {d rest phase} within => ?_, fun {d rest phase wasEnabled} within handler => ?_⟩
  · rw [Owns, stances other] at owns
    exact owns.imp_left ((elsewhere other).1.lockNesting e).symm.trans_ne
  · by_cases here : d = m.core
    · subst here
      exact behaves.inside (stance_after_self.symm.trans within)
    · exact guarded.inside ((stances here).symm.trans within)
  · by_cases here : d = m.core
    · subst here
      exact behaves.amid (stance_after_self.symm.trans within) handler
    · obtain ⟨levels, masks⟩ := elsewhere here
      exact (guarded.amid ((stances here).symm.trans within) handler).kept levels masks
        (Function.update_of_ne here _ _)

omit [SwitchPrimitives κ] in
theorem guarded_boot {first : Fin n} {boot : Kernel.Boot n} {context : κ}
    (booted : Kernel.boot first boot context = .ok k) : Guarded { kernel := k } := by
  obtain ⟨rate, scheduler, made, rfl⟩ := Kernel.eq_of_boot booted
  refine ⟨fun c d owns => ?_, nofun, nofun⟩
  rcases owns with levels | ⟨_, _, counting⟩
  · rw [core, Core.get_reset] at levels
    exact absurd (by cases d <;> rfl) levels
  · cases counting

theorem Step.guarded {move : Option (Move n)} {w' : Interplay κ n} (step : w.Step move w')
    (orderly : w.Orderly) (guarded : w.Guarded) : w'.Guarded := by
  cases step with
  | move allowed ran => exact guarded.moved orderly allowed ran
  | @aside k spares =>
    have same (d : Fin n) : (Interplay.core { w with kernel := k } d) = w.core d :=
      congrArg (Vector.get · d) spares.cores
    have owns {c : Fin n} {d : LockClass} (owned : Owns { w with kernel := k } c d) :
        w.Owns c d := by
      rwa [Owns, same] at owned
    refine ⟨fun c d owned => ?_, guarded.inside, fun within handler => ?_⟩
    · obtain ⟨held, alone⟩ := guarded.sole c d (owns owned)
      exact ⟨(spares.held _).trans held, fun e owned' => alone e (owns owned')⟩
    · refine (guarded.amid within handler).kept (same _ ▸ refl _) (spares.masks _ ?_) rfl
      rw [within]
      exact Stance.noConfusion

theorem Reached.guarded {rule : Interplay κ n → Option (Move n) → Prop} (reached : w.Reached rule) :
    w.Guarded := by
  induction reached with
  | boot booted => exact guarded_boot booted
  | step before step _ ih => exact step.guarded before.orderly ih

end Moves

section Checks

variable {w : Interplay κ n} {m : Move n} {k : Kernel κ n} {b : Board n} {call : PortCall}

theorem Sole.apart (sole : w.Sole) (owns : w.Owns c .isr) {d : Fin n} (other : d ≠ c) :
    (w.core d).isrLock = 0 := by
  by_contra levels
  exact other ((sole c .isr owns).2 d (.inl levels))

theorem passesEngine (levels : UInt32) :
    Callouts.PassesEngine (fun o k => decide (o.Protected levels k)) call k c := by
  constructor
  · intro k₁ prepares _ o which k machine _
    have masked : k.board.machine.executing = c ∧ k.board.machine.isEnabled = false := by
      rw [machine]
      exact ⟨prepares.ready.executing, Machine.isEnabled_setEnabled _ false⟩
    rcases which with rfl | rfl | rfl <;> exact decide_eq_true masked
  · intro _ k₁ prepares task k machine _
    refine decide_eq_true ?_
    rw [Callout.Protected, machine]
    exact ⟨prepares.ready.executing, Machine.isEnabled_setEnabled _ false⟩

/-- By the time a tick is counted the core is masked. If there are others it owned the class of the
handlers before, and has counted one level more. -/
structure Locks (w : Interplay κ n) (m : Move n) (b : Board n) : Prop where
  executing : b.machine.executing = m.core
  masked : b.machine.isEnabled = false
  owned : 1 < n → w.Owns m.core .isr
  exclusive : b.machine.exclusive = w.kernel.board.machine.exclusive
  cores : 1 < n → b.cores = w.kernel.board.cores.put m.core ((w.core m.core).raiseLock .isr)
  found : 1 < n → (w.core m.core).isrLock = (w.foundBy m).core.isrLock

theorem Guarded.locks (guarded : w.Guarded) (orderly : w.Orderly)
    (ticks : m.TicksAt (w.stance m.core) (w.turn m.core).board b) : w.Locks m b := by
  cases ticks with
  | @start c call asks ask b₁ b₂ on is asking ticks begun =>
    have asked := PortCall.ask_ran is (ready_turn orderly.known c) asking
    obtain ⟨masked, _, needs⟩ := asked.handler on (by rw [ticks]; rfl)
    have disabled : b₁.machine.isEnabled = false := by
      rw [Machine.isEnabled, asked.ready.executing, masked, Vector.get_put_self]
    rcases Board.beginFor_ran begun with ⟨none, _, rfl⟩ | ⟨d, trace, needed, held, _, rfl⟩ |
      ⟨_, _, _, _, outside, _⟩
    · have alone : ¬1 < n := Board.alone_of_handlersLock (needs.symm.trans none)
      exact ⟨asked.ready.executing, disabled, (absurd · alone), asked.exclusive, (absurd · alone),
        (absurd · alone)⟩
    · obtain ⟨_, rfl⟩ := Board.several_of_handlersLock (needs.symm.trans needed)
      rw [asked.core, asked.cores] at held
      refine ⟨asked.ready.executing, disabled, fun _ => .inl held, asked.exclusive, fun _ => ?_,
        fun _ => rfl⟩
      simp only [asked.core, asked.cores]
      rfl
    · cases outside
  | @proceed c phase b₂ on within won =>
    have amid := guarded.amid within rfl
    rcases Board.proceed_ran won with ⟨outside, _⟩ | ⟨d, on, trace, rfl, rfl⟩
    · exact absurd outside (guarded.inside within)
    · obtain ⟨counting, _⟩ := amid.phase.resolve_left fun waits => Phase.noConfusion waits.1
      cases counting
      exact ⟨rfl, amid.masked, fun _ => .inr ⟨_, _, within⟩, rfl, fun _ => rfl,
        fun _ => amid.alike.isrLock⟩

theorem Locks.passesTick (locks : w.Locks m b) (sole : w.Sole) : Callouts.Passes
    (fun o (k : Kernel κ n) => decide (o.Protected (w.foundBy m).core.isrLock k)) .tick b := by
  intro k machine cores
  refine decide_eq_true ?_
  rw [Callout.Protected, machine, cores, locks.executing]
  refine ⟨locks.masked, fun several => ?_⟩
  obtain ⟨held, _⟩ := sole m.core .isr (locks.owned several)
  refine ⟨(Machine.isHeld_congr locks.exclusive _).trans held, fun few => ?_, fun d other => ?_⟩
  · have levels : (b.cores.get m.core).isrLock = (w.foundBy m).core.isrLock + 1 := by
      rw [locks.cores several, Vector.get_put_self, ← locks.found several]
      exact Core.lockNesting_raiseLock_self (w.core m.core) .isr
    rw [levels, UInt32.le_iff_toNat_le, UInt32.toNat_one, toNat_add_one few]
    exact Nat.le_add_left 1 _
  · rw [locks.cores several, Vector.get_put_of_ne _ (Ne.symm other)]
    exact sole.apart (locks.owned several) other

end Checks

/-! Levels opened one after the other. -/

section Levels

/-- The bit of a class, cleared by other means than the lock. -/
def stripped (w : Interplay κ n) (d : LockClass) : Interplay κ n :=
  { w with kernel := { w.kernel with board := { w.kernel.board with
    machine := w.kernel.board.machine.clearBit d.bit } } }

variable [SwitchPrimitives κ] {w : Interplay κ n} {d : LockClass}

/-- A core that has the lock of a class opens one more level without waiting. -/
theorem Reached.nests_once (reached : w.Reached Once) (free : w.stance c = .outside)
    (held : (w.core c).lockNesting d ≠ 0) :
    ∃ w' : Interplay κ n, w'.Reached Once ∧ w'.stance c = .outside ∧
      (w'.core c).lockNesting d = (w.core c).lockNesting d + 1 ∧
      w'.kernel.board.machine.autoReload = w.kernel.board.machine.autoReload := by
  have ready := ready_turn reached.orderly.known c
  obtain ⟨trace, raises⟩ := Board.beginCall_run_nested (b := (w.turn c).board) held
  set k : Kernel κ n := { w.turn c with board := { (w.turn c).board with
    trace, cores := (w.turn c).board.cores.put c ((w.core c).raiseLock d) } }
  have ran : (Move.start c (.lock d)).act .own (w.stance c) (w.turn c) = .ok .outside k := by
    simp only [Move.act, PortCall.ask?, Kernel.askLock, bind_run, onBoard,
      Board.executingCore_run ready.known, ready.executing, Board.beginFor, pure_run, raises]
    rfl
  have allowed : w.Allows (.start c (.lock d)) := free
  refine ⟨_, reached.step (.move allowed ran) ?_, stance_after_self, ?_, rfl⟩
  · rintro _ is
    cases is
  · have raised : k.board.cores.get c = (w.core c).raiseLock d := Vector.get_put_self _ c _
    exact (congrArg (Core.lockNesting · d) raised).trans
      (Core.lockNesting_raiseLock_self (w.core c) d)

/-- So it opens as many as its count can hold. -/
theorem Reached.nests (reached : w.Reached Once) (free : w.stance c = .outside)
    (held : (w.core c).lockNesting d ≠ 0) (more : Nat)
    (fits : ((w.core c).lockNesting d).toNat + more < 2 ^ 32) :
    ∃ w' : Interplay κ n, w'.Reached Once ∧ w'.stance c = .outside ∧
      ((w'.core c).lockNesting d).toNat = ((w.core c).lockNesting d).toNat + more ∧
      w'.kernel.board.machine.autoReload = w.kernel.board.machine.autoReload := by
  induction more with
  | zero => exact ⟨w, reached, free, rfl, rfl⟩
  | succ more ih =>
    obtain ⟨w₁, reached₁, free₁, levels₁, reloads₁⟩ := ih (by omega)
    have held₁ : (w₁.core c).lockNesting d ≠ 0 := by
      rw [ne_eq, ← UInt32.toNat_inj, UInt32.toNat_zero] at held ⊢
      omega
    obtain ⟨w₂, reached₂, free₂, levels₂, reloads₂⟩ := reached₁.nests_once free₁ held₁
    refine ⟨w₂, reached₂, free₂, ?_, reloads₂.trans reloads₁⟩
    rw [levels₂, toNat_add_one (by omega), levels₁, Nat.add_assoc]

omit [SwitchPrimitives κ] in
/-- A core that has the handlers' lock counts a tick at one level more, if any fits. -/
theorem ticksAt_nested (known : w.kernel.board.machine.identity = none) (several : 1 < n)
    (held : (w.core c).isrLock ≠ 0) (reloads : w.kernel.board.machine.autoReload = true) :
    ∃ b, (Move.start c .onTick).TicksAt (w.stance c) (w.turn c).board b ∧
      (b.cores.get c).isrLock = (w.core c).isrLock + 1 := by
  have ready := ready_turn known c
  obtain ⟨on, b₁, asked⟩ := Board.askTick_run_reloads ready reloads
  have asks : PortCall.onTick.ask? = some (do return (← Kernel.askTick).2 : BoardM n (Ask n)) := rfl
  have cores := (PortCall.ask_ran asks ready asked).cores
  have held₁ : (b₁.cores.get c).lockNesting .isr ≠ 0 := by
    rw [cores]
    exact held
  obtain ⟨trace, raises⟩ := Board.beginCall_run_nested held₁
  have begun : Board.beginFor ⟨c, Board.handlersLock n, .tick on⟩ b₁ = .ok .outside { b₁ with
      trace, cores := b₁.cores.put c ((b₁.cores.get c).raiseLock .isr) } := by
    rw [Board.handlersLock, if_pos several]
    exact raises
  refine ⟨_, .start asks asked rfl begun, ?_⟩
  rw [Vector.get_put_self, cores]
  rfl

end Levels

variable [SwitchPrimitives κ] {w : Interplay κ n}

/-- In every state that cores lead to by calls in any order, each call that leaves the kernel layer
is protected: its core is masked, and while a tick is counted the core has the handlers' lock, which
its count shows while it fits in 32 bits, and no other core has a level of it open. A handler that
is through has left its core enabled or masked as it was and with the same levels open, and has
changed no bit of the exclusive word in the end, however long it has waited for the lock. -/
theorem Reached.calls_protected {rule : Interplay κ n → Option (Move n) → Prop}
    (reached : w.Reached rule) :
    (∀ (m : Move n) halt,
      m.act (Callouts.own.checked
          (fun o k => decide (o.Protected (w.foundBy m).core.isrLock k)) halt)
        (w.stance m.core) (w.turn m.core) = m.act .own (w.stance m.core) (w.turn m.core)) ∧
    ∀ m w', w.Step (some m) w' → w.Handles m → w'.stance m.core = .outside →
      w.Restored m w' := by
  have orderly := reached.orderly
  have guarded := reached.guarded
  refine ⟨fun m halt => ?_, fun m w' step handler outside => ?_⟩
  · exact Callouts.checked_act (ready_turn orderly.known m.core) ⟨orderly.turns.1, orderly.turns.2⟩
      (fun _ _ => passesEngine _)
      fun b ticks => (guarded.locks orderly ticks).passesTick guarded.sole
  · cases step with
    | move allowed ran =>
      exact (guarded.behaves orderly allowed ran).restored (stance_after_self.symm.trans outside)
        handler

omit [SwitchPrimitives κ] in
/-- Core 0 counts a tick while core 1 waits for the lock. -/
theorem Reached.calls_protected_other_waits :
    ∃ w w' : Interplay (Banks 8 2) 2, w.Reached Once ∧
      w.stance 1 = .within (.ipi false) (.trying .isr false) ∧
      w.Step (some (.proceed 0)) w' ∧ w.Restored (.proceed 0) w' := by
  obtain ⟨w, reached, passes⟩ := Reached.of_twoCores? [.start 0 .start, .start 1 .beginInterrupt,
      .start 0 .beginInterrupt, .start 0 .onTick, .proceed 0, .start 1 .onIpi, .proceed 1]
    (fun w => (w.make? (.proceed 0)).any fun w' =>
      decide (w.stance 1 = .within (.ipi false) (.trying .isr false) ∧
        w.stance 0 = .within (.tick true) (.counting .isr false) ∧
        w'.stance 0 = Stance.outside)) (by decide +kernel)
  obtain ⟨w', moved, passes⟩ := (Option.any_eq_true ..).mp passes
  obtain ⟨waits, won, outside⟩ := of_decide_eq_true passes
  obtain ⟨_, restored⟩ := calls_protected reached
  exact ⟨w, w', reached, waits, .of_make? moved,
    restored _ w' (.of_make? moved) ⟨_, _, won, rfl⟩ outside⟩

omit [SwitchPrimitives κ] in
/-- Where the count of a core is full, or the bit of the handlers' lock was cleared by other means,
a tick is counted unprotected. After 2 ^ 32 - 1 acquires core 0 counts it with no level open, as its
count shows. With the bit cleared it counts one although core 1 has a level open. -/
theorem Reached.tick_unprotected :
    (∃ w : Interplay (Banks 8 2) 2, w.Reached Once ∧ (w.core 0).isrLock.toNat = 2 ^ 32 - 1 ∧
      ∃ b, (Move.start 0 .onTick).TicksAt (w.stance 0) (w.turn 0).board b ∧
        (b.cores.get 0).isrLock = 0) ∧
    ∃ w w₁ w₂ : Interplay (Banks 8 2) 2, w.Reached Once ∧ (w.core 1).isrLock = 1 ∧
      (w.stripped .isr).Step (some (.start 0 .onTick)) w₁ ∧ w₁.Step (some (.proceed 0)) w₂ ∧
      ∃ b, (Move.proceed 0).TicksAt (w₂.stance 0) (w₂.turn 0).board b ∧
        (b.cores.get 1).isrLock = 1 := by
  constructor
  · obtain ⟨w, reached, passes⟩ := Reached.of_twoCores? [.start 0 .start, .start 0 (.lock .isr),
        .proceed 0, .proceed 0]
      (fun w => decide (w.stance 0 = .outside ∧ (w.core 0).isrLock = 1 ∧
        w.kernel.board.machine.autoReload = true)) (by decide +kernel)
    obtain ⟨free, once, reloads⟩ := of_decide_eq_true passes
    have held : (w.core 0).lockNesting .isr = 1 := once
    obtain ⟨w', reached', free', levels, reloads'⟩ := reached.nests (d := .isr) free
      (by rw [held]; decide) (2 ^ 32 - 2) (by rw [held]; decide)
    have full : (w'.core 0).isrLock.toNat = 2 ^ 32 - 1 := by
      rw [held] at levels
      exact levels
    have most : (w'.core 0).isrLock = 0xFFFFFFFF := UInt32.toNat_inj.mp full
    obtain ⟨b, ticks, raised⟩ := ticksAt_nested reached'.orderly.known (by decide)
      (by rw [most]; decide) (reloads'.trans reloads)
    refine ⟨w', reached', full, b, ticks, ?_⟩
    rw [raised, most]
    rfl
  · obtain ⟨w, reached, passes⟩ := Reached.of_twoCores? [.start 0 .start, .start 1 (.lock .isr),
        .proceed 1, .proceed 1]
      (fun w => decide ((w.core 1).isrLock = 1) && ((w.stripped .isr).make? (.start 0 .onTick)).any
        fun w₁ => (w₁.make? (.proceed 0)).any fun w₂ => decide ((w₂.core 1).isrLock = 1 ∧
          w₂.stance 0 = .within (.tick true) (.counting .isr false))) (by decide +kernel)
    obtain ⟨held, passes⟩ := (Bool.and_eq_true ..).mp passes
    obtain ⟨w₁, asks, passes⟩ := (Option.any_eq_true ..).mp passes
    obtain ⟨w₂, wins, passes⟩ := (Option.any_eq_true ..).mp passes
    obtain ⟨still, counting⟩ := of_decide_eq_true passes
    obtain ⟨trace, counts⟩ :=
      Board.proceed_run_counting (c := 0) (d := .isr) (b := (w₂.turn 0).board) false
    refine ⟨w, w₁, w₂, reached, of_decide_eq_true held, .of_make? asks, .of_make? wins, _,
      .proceed counting counts, ?_⟩
    exact (congrArg Core.isrLock (Vector.get_put_of_ne _ (by decide) _)).trans still

end Interplay

end Preempt
