import Mathlib.Logic.Function.Basic
import Preempt.Kernel.Creation
import Preempt.Proofs.Interplay.Callouts
import Preempt.Proofs.Lock.Turns

/-!
Calls of several cores, interleaved. A call that asks for a lock goes its own way up to there
(`PortCall.ask?`). Then its core makes one attempt after the other, and the other cores move in
between. Once it has the lock the rest of the call is one move with the last attempt.
-/

namespace Preempt

open Preempt.Action
open Function (update)

variable {κ : Type} {n : Nat}

/-- What the trace shows of the engine of a core. -/
inductive EngineStep where
  | save (task : TaskId)
  | select
  | restore (task : TaskId)
deriving DecidableEq

def Event.engineStep? (core : CoreId) : Event → Option EngineStep
  | save c task _ _ => if c = core then some (.save task) else none
  | select c => if c = core then some .select else none
  | restore c task _ => if c = core then some (.restore task) else none
  | _ => none

def Board.engineSteps (b : Board n) (c : Fin n) : List EngineStep :=
  b.trace.toList.filterMap (Event.engineStep? c)

/-- An inter-processor interrupt is pending for a core. -/
def Machine.isCalled (m : Machine n) (core : CoreId) : Bool :=
  m.ipi &&& bitWord (.ofNat core) != 0

/-- The mask that a handler puts back. -/
def Rest.mask? : Rest → Option Bool
  | taken => none
  | tick wasEnabled | ipi wasEnabled => some wasEnabled

open Kernel (onBoard)

/-- A call up to where it asks for a lock, if it does. -/
def PortCall.ask? : PortCall → Option (BoardM n (Ask n))
  | lock d => some (Kernel.askLock d)
  | lockShared => some do return (← Kernel.askShared).2
  | onTick => some do return (← Kernel.askTick).2
  | onIpi => some do return (← Kernel.askIpi).2
  | _ => none

/-- Where a core is with its call. -/
inductive Stance where
  | outside
  | within (rest : Rest) (phase : Phase)
deriving DecidableEq

inductive Move (n : Nat) where
  | start (c : Fin n) (call : PortCall)
  | proceed (c : Fin n)
deriving DecidableEq

def Move.core : Move n → Fin n
  | start c _ | proceed c => c

namespace Callouts

/-- Go on with a call whose lock has come to a phase. -/
def takeUp (x : Callouts κ n) (c : Fin n) (rest : Rest) : Phase → KernelM κ n Stance
  | .outside => do
    x.finish c rest
    return .outside
  | phase => return .within rest phase

end Callouts

/-- The answer is where the core is with its call then. -/
def Move.act [SwitchPrimitives κ] (x : Callouts κ n) (stance : Stance) :
    Move n → KernelM κ n Stance
  | start _ call =>
    match call.ask? with
    | some asks => do
      let ask ← onBoard asks
      x.takeUp ask.core ask.rest (← onBoard (Board.beginFor ask))
    | none => do
      let _ ← x.perform call
      return .outside
  | proceed c =>
    match stance with
    | .outside => return .outside
    | .within rest phase => do x.takeUp c rest (← onBoard (Board.proceed c phase))

/-- What a call of a core found, and how the core has changed the exclusive word since. -/
structure Found where
  enabled : Bool := false
  core : Core := {}
  changed : UInt32 := 0

/-- Cores in the middle of calls. -/
structure Interplay (κ : Type) (n : Nat) where
  kernel : Kernel κ n
  stance : Fin n → Stance := fun _ => .outside
  found : Fin n → Found := fun _ => {}

namespace Interplay

def core (w : Interplay κ n) (c : Fin n) : Core := w.kernel.board.cores.get c

def isEnabled (w : Interplay κ n) (c : Fin n) : Bool := w.kernel.board.machine.enabled.get c

/-- The kernel when it is the turn of core `c`. -/
def turn (w : Interplay κ n) (c : Fin n) : Kernel κ n :=
  { w.kernel with board := { w.kernel.board with machine := w.kernel.board.machine.turnOf c } }

/-- What the call found that the move is part of. -/
def foundBy (w : Interplay κ n) : Move n → Found
  | .start c _ => { enabled := w.isEnabled c, core := w.core c }
  | .proceed c => w.found c

def after (w : Interplay κ n) (m : Move n) (stance : Stance) (k : Kernel κ n) :
    Interplay κ n where
  kernel := k
  stance := update w.stance m.core stance
  found := update w.found m.core { w.foundBy m with
    changed := (w.foundBy m).changed ^^^
      (w.kernel.board.machine.exclusive ^^^ k.board.machine.exclusive) }

/-- A core makes one call after the other. -/
def Allows (w : Interplay κ n) : Move n → Prop
  | .start c _ => w.stance c = .outside
  | .proceed c => w.stance c ≠ .outside

/-- The scheduler is started once. -/
def Once (w : Interplay κ n) (m : Option (Move n)) : Prop :=
  ∀ c, m = some (.start c .start) → ∀ d, (w.core d).state = .notStarted

/-- What tasks and the hardware do besides the calls: anything, but for the cores' own records, the
two locks, the queues and the masks of cores that are in a call. A pending inter-processor interrupt
stays pending. -/
structure Spares (w : Interplay κ n) (k : Kernel κ n) : Prop where
  cores : k.board.cores = w.kernel.board.cores
  identity : k.board.machine.identity = w.kernel.board.machine.identity
  held : ∀ d : LockClass, k.board.machine.isHeld d.bit = w.kernel.board.machine.isHeld d.bit
  called : ∀ c : Fin n, w.kernel.board.machine.isCalled c = true →
    k.board.machine.isCalled c = true
  masks : ∀ c, w.stance c ≠ .outside → k.board.machine.enabled.get c = w.isEnabled c
  steps : ∀ c, k.board.engineSteps c = w.kernel.board.engineSteps c
  queues : k.scheduler.queues = w.kernel.scheduler.queues
  stays : k.scheduler.stays = w.kernel.scheduler.stays
  reenters : k.scheduler.reenters = w.kernel.scheduler.reenters

/-- A move that completes, or what happens besides. -/
inductive Step [SwitchPrimitives κ] (w : Interplay κ n) : Option (Move n) → Interplay κ n → Prop
  | move {m : Move n} {stance : Stance} {k : Kernel κ n} (allowed : w.Allows m)
      (ran : m.act .own (w.stance m.core) (w.turn m.core) = .ok stance k) :
      Step w (some m) (w.after m stance k)
  | aside {k : Kernel κ n} (spares : w.Spares k) : Step w none { w with kernel := k }

/-- The states that cores lead to from reset on, by moves in any order that keeps to a rule. -/
inductive Reached [SwitchPrimitives κ] (rule : Interplay κ n → Option (Move n) → Prop) :
    Interplay κ n → Prop
  | boot {core : Fin n} {boot : Kernel.Boot n} {context : κ} {k : Kernel κ n}
      (booted : Kernel.boot core boot context = .ok k) : Reached rule { kernel := k }
  | step {w w' : Interplay κ n} {m : Option (Move n)} (before : Reached rule w)
      (step : w.Step m w') (keeps : rule w m) : Reached rule w'

instance (w : Interplay κ n) : (m : Move n) → Decidable (w.Allows m)
  | .start c _ => inferInstanceAs (Decidable (w.stance c = .outside))
  | .proceed c => inferInstanceAs (Decidable (w.stance c ≠ .outside))

instance (w : Interplay κ n) (m : Option (Move n)) : Decidable (w.Once m) :=
  inferInstanceAs (Decidable (∀ c, m = some (.start c .start) →
    ∀ d, (w.core d).state = .notStarted))

variable [SwitchPrimitives κ]

/-- Make a move, if it is allowed and completes. The scheduler is started once. -/
def make? (w : Interplay κ n) (m : Move n) : Option (Interplay κ n) :=
  if w.Allows m ∧ w.Once (some m) then
    match m.act .own (w.stance m.core) (w.turn m.core) with
    | .ok stance k => some (w.after m stance k)
    | .error _ _ => none
  else none

/-- Boot, let the tasks' storage be filled, and make moves. -/
def run? (core : Fin n) (boot : Kernel.Boot n) (context : κ) (fill : Kernel κ n → Storage κ)
    (moves : List (Move n)) : Option (Interplay κ n) :=
  match Kernel.boot core boot context with
  | .ok k => moves.foldlM make? { kernel := { k with storage := fill k } }
  | .error _ => none

theorem Step.of_make? {w w' : Interplay κ n} {m : Move n} (made : w.make? m = some w') :
    w.Step (some m) w' := by
  unfold make? at made
  split at made
  · rename_i allowed
    split at made
    · rename_i ran
      cases made
      exact .move allowed.1 ran
    · cases made
  · cases made

theorem Once.of_make? {w w' : Interplay κ n} {m : Move n} (made : w.make? m = some w') :
    w.Once (some m) := by
  unfold make? at made
  split at made
  · rename_i allowed
    exact allowed.2
  · cases made

theorem Reached.of_moves {w w' : Interplay κ n} (reached : w.Reached Once) {moves : List (Move n)}
    (made : moves.foldlM make? w = some w') : w'.Reached Once :=
  Action.foldlM_keeps (fun _ _ _ first before =>
    before.step (.of_make? first) (.of_make? first)) made reached

theorem Reached.of_run? {core : Fin n} {boot : Kernel.Boot n} {context : κ}
    {fill : Kernel κ n → Storage κ} {moves : List (Move n)} {w : Interplay κ n}
    (ran : run? core boot context fill moves = some w) : w.Reached Once := by
  unfold run? at ran
  split at ran
  · rename_i k booted
    have filled : Reached Once { kernel := { k with storage := fill k } } :=
      Reached.step (.boot booted) (.aside ⟨rfl, rfl, fun _ => rfl, fun _ => id, fun _ _ => rfl,
        fun _ => rfl, rfl, rfl, rfl⟩) nofun
    exact filled.of_moves ran
  · cases ran

/-- Two cores, of which core 0 has two tasks and core 1 has one, after some moves. -/
def twoCores? : List (Move 2) → Option (Interplay (Banks 8 2) 2) :=
  run? 0 { queues := #v[[0, 1], [2]], stackSizes := #[8, 8, 8], autoReload := true } {} fun k =>
    let creates : KernelM (Banks 8 2) 2 Unit := do
      let _ ← Kernel.createFrom 0 (.stack 0 8) (.num 4) (.num 5)
      let _ ← Kernel.createFrom 1 (.stack 1 8) (.num 6) (.num 7)
      let _ ← Kernel.createFrom 2 (.stack 2 8) (.num 8) (.num 9)
    match creates k with
    | .ok _ k | .error _ k => k.storage

theorem Reached.of_twoCores? (moves : List (Move 2)) (check : Interplay (Banks 8 2) 2 → Bool)
    (passes : (twoCores? moves).any check = true) : ∃ w, w.Reached Once ∧ check w = true := by
  obtain ⟨w, ran, checked⟩ := (Option.any_eq_true ..).mp passes
  exact ⟨w, .of_run? ran, checked⟩

end Interplay

end Preempt
