import Preempt.Proofs.Interplay.Outcomes

/-!
Moves with the calls that leave the kernel layer checked where they are made. A check that holds in
the engine, and where a tick is counted, changes no move (`Callouts.checked_act`). For the tick it
is said exactly what the core has done by then: it has asked for its lock (`Board.Asked`) and got
it.
-/

namespace Preempt

open Preempt.Action
open Kernel (onBoard)

variable {κ : Type} {n : Nat} {c : Fin n}

namespace Board

/-- The timer may have been served, and nothing else has changed that the kernel layer looks at. -/
structure Serves (b b' : Board n) : Prop where
  executing : b'.machine.executing = b.machine.executing
  identity : b'.machine.identity = b.machine.identity
  enabled : b'.machine.enabled = b.machine.enabled
  exclusive : b'.machine.exclusive = b.machine.exclusive
  cores : b'.cores = b.cores

instance : IsPreorder (Board n) Serves where
  refl _ := ⟨rfl, rfl, rfl, rfl, rfl⟩
  trans _ _ _ first second := ⟨second.executing.trans first.executing,
    second.identity.trans first.identity, second.enabled.trans first.enabled,
    second.exclusive.trans first.exclusive, second.cores.trans first.cores⟩

theorem serves_acknowledge : Ensures (Serves (n := n)) acknowledge := by
  have accesses {e : Event} {f : Timer → Timer} :
      Ensures (Serves (n := n)) (do emit e; onMachine (·.updateTimer f)) :=
    .of_run (fun _ => rfl) fun _ => ⟨rfl, rfl, rfl, rfl, rfl⟩
  refine accesses.bind fun _ => Ensures.bind (.of_run (fun _ => rfl) refl) fun clock =>
    Ensures.bind (.of_run (fun _ => rfl) fun _ => ⟨rfl, rfl, rfl, rfl, rfl⟩) fun left => ?_
  cases left with
  | none => exact ensures_pure _
  | some remaining =>
    refine ensures_ite (Ensures.bind (.of_run (fun _ => rfl) fun _ => ⟨rfl, rfl, rfl, rfl, rfl⟩)
      fun _ => Ensures.bind (.of_run (fun _ => rfl) fun _ => ⟨rfl, rfl, rfl, rfl, rfl⟩) fun _ =>
        ensures_ite (ensures_throw _) (ensures_pure _)) (ensures_pure _)

end Board

namespace PortCall

/-- The calls that handle an interrupt. -/
def isHandler : PortCall → Bool
  | onTick | onIpi => true
  | _ => false

/-- Core `c` asks for a lock. A handler has masked interrupts, and remembers whether they were
enabled. -/
structure Asked (call : PortCall) (b : Board n) (c : Fin n) (ask : Ask n) (b' : Board n) :
    Prop where
  core : ask.core = c
  ready : b'.Ready c
  cores : b'.cores = b.cores
  exclusive : b'.machine.exclusive = b.machine.exclusive
  handles : call.isHandler = ask.rest.mask?.isSome
  taken : ask.rest = .taken → b'.machine.enabled = b.machine.enabled ∧ ask.lock ≠ none
  handler : ∀ on, ask.rest.mask? = some on → b'.machine.enabled = b.machine.enabled.put c false ∧
    on = b.machine.enabled.get c ∧ ask.lock = Board.handlersLock n

theorem ask_ran {call : PortCall} {asks : BoardM n (Ask n)} {ask : Ask n}
    {b b' : Board n} (is : call.ask? = some asks) (ready : b.Ready c) (ran : asks b = .ok ask b') :
    call.Asked b c ask b' := by
  obtain ⟨known, mine⟩ := And.intro ready.known ready.executing
  cases call with
  | lock d =>
    cases is
    simp only [Kernel.askLock, bind_run, Board.executingCore_run known] at ran
    cases ran
    exact ⟨mine, ready, rfl, rfl, rfl, fun _ => ⟨rfl, Option.some_ne_none _⟩, by simp [Rest.mask?]⟩
  | lockShared =>
    cases is
    simp only [Kernel.askShared, bind_run, Board.executingCore_run known] at ran
    cases ran
    exact ⟨mine, ready, rfl, rfl, rfl, fun _ => ⟨rfl, Option.some_ne_none _⟩, by simp [Rest.mask?]⟩
  | onIpi =>
    cases is
    simp only [Kernel.askIpi, bind_run, Board.executingCore_run known] at ran
    cases ran
    subst mine
    refine ⟨rfl, ⟨rfl, known⟩, rfl, rfl, rfl, by simp, ?_⟩
    intro on masked
    cases masked
    exact ⟨rfl, rfl, rfl⟩
  | onTick =>
    cases is
    simp only [Kernel.askTick, bind_run, Board.executingCore_run known] at ran
    cases served : Board.acknowledge b with
    | error e b₁ =>
      rw [served] at ran
      cases ran
    | ok arrival b₁ =>
      rw [served] at ran
      have serves := Board.serves_acknowledge _ _ _ served
      cases ran
      subst mine
      refine ⟨rfl, ⟨serves.executing, serves.identity.trans known⟩, serves.cores,
        serves.exclusive, rfl, by simp, ?_⟩
      intro on masked
      cases masked
      refine ⟨?_, ?_, rfl⟩
      · simp only [Machine.setEnabled, serves.enabled, serves.executing]
      · rw [Machine.isEnabled, serves.enabled, serves.executing]
  | _ => cases is

end PortCall

namespace Board

variable {b b' : Board n}

/-- A core waits for its lock unless it holds it already, or needs none. -/
theorem beginFor_ran {ask : Ask n} {phase : Phase} (ran : beginFor ask b = .ok phase b') :
    (ask.lock = none ∧ phase = .outside ∧ b' = b) ∨
    (∃ d trace, ask.lock = some d ∧ (b.cores.get ask.core).lockNesting d ≠ 0 ∧ phase = .outside ∧
      b' = { b with
        trace, cores := b.cores.put ask.core ((b.cores.get ask.core).raiseLock d) }) ∨
    ∃ d trace, ask.lock = some d ∧ (b.cores.get ask.core).lockNesting d = 0 ∧
      phase = .trying d b.machine.isEnabled ∧
      b' = { b with trace, machine := b.machine.setEnabled false } := by
  unfold beginFor at ran
  cases lock : ask.lock with
  | none =>
    rw [lock] at ran
    cases ran
    exact .inl ⟨rfl, rfl, rfl⟩
  | some d =>
    simp only [lock] at ran
    by_cases unheld : (b.cores.get ask.core).lockNesting d = 0
    · obtain ⟨trace, tries⟩ := beginCall_run_first unheld
      rw [tries] at ran
      cases ran
      exact .inr (.inr ⟨d, trace, rfl, unheld, rfl, rfl⟩)
    · obtain ⟨trace, raises⟩ := beginCall_run_nested unheld
      rw [raises] at ran
      cases ran
      exact .inr (.inl ⟨d, trace, rfl, unheld, rfl, rfl⟩)

/-- A core gets its lock when it counts the level. -/
theorem proceed_ran {phase : Phase} (ran : proceed c phase b = .ok .outside b') :
    phase = .outside ∧ b' = b ∨ ∃ d on trace, phase = .counting d on ∧ b' = { b with
      trace
      machine := if on then b.machine.setEnabled true else b.machine
      cores := b.cores.put c ((b.cores.get c).raiseLock d) } := by
  cases phase with
  | outside =>
    cases ran
    exact .inl ⟨rfl, rfl⟩
  | counting d on =>
    obtain ⟨trace, counts⟩ := proceed_run_counting (c := c) (d := d) (b := b) on
    rw [counts] at ran
    cases ran
    exact .inr ⟨d, on, trace, rfl, rfl⟩
  | trying d on =>
    simp only [proceed, bind_run, testAndSet_run] at ran
    split at ran
    · cases ran
    · cases waited : snooze { b with
          trace := b.trace.push (.testAndSet d.bit (!b.machine.isHeld d.bit))
          machine := b.machine.setBit d.bit } with
      | error e b₁ =>
        rw [bind_run, waited] at ran
        cases ran
      | ok u b₁ =>
        rw [bind_run, waited] at ran
        cases ran

end Board

/-! Checked moves. -/

/-- Where a move that makes the board go on from `b` counts a tick. -/
inductive Move.TicksAt (stance : Stance) (b : Board n) : Move n → Board n → Prop
  | start {c : Fin n} {call : PortCall} {asks : BoardM n (Ask n)} {ask : Ask n} {b₁ b₂ : Board n}
      {on : Bool} (is : call.ask? = some asks) (asked : asks b = .ok ask b₁)
      (ticks : ask.rest = .tick on) (begun : Board.beginFor ask b₁ = .ok .outside b₂) :
      TicksAt stance b (.start c call) b₂
  | proceed {c : Fin n} {phase : Phase} {b₂ : Board n} {on : Bool}
      (within : stance = .within (.tick on) phase)
      (won : Board.proceed c phase b = .ok .outside b₂) : TicksAt stance b (.proceed c) b₂

/-- On its way to a tick a core does nothing to any engine. -/
theorem Move.TicksAt.states {m : Move n} {stance : Stance} {b b' : Board n}
    (ready : b.Ready m.core) (ticks : m.TicksAt stance b b') (d : Fin n) :
    (b'.cores.get d).state = (b.cores.get d).state := by
  have raised {cores : Vector Core n} {e : Fin n} {lock : LockClass} :
      ((cores.put e ((cores.get e).raiseLock lock)).get d).state = (cores.get d).state := by
    rw [Vector.get_put]
    split
    · subst e
      cases lock <;> rfl
    · rfl
  cases ticks with
  | @start c call asks ask b₁ _ on is asked ticks begun =>
    rw [← (PortCall.ask_ran is ready asked).cores]
    rcases Board.beginFor_ran begun with ⟨_, _, rfl⟩ | ⟨lock, trace, _, _, _, rfl⟩ |
      ⟨_, _, _, _, is, _⟩
    · rfl
    · exact raised
    · cases is
  | @proceed c phase _ on within won =>
    rcases Board.proceed_ran won with ⟨_, rfl⟩ | ⟨lock, on, trace, _, rfl⟩
    · rfl
    · exact raised

theorem Action.bind_congr_run {ε σ α β : Type} {action : EStateM ε σ α}
    {next next' : α → EStateM ε σ β} {s : σ}
    (same : ∀ a t, action s = .ok a t → next a t = next' a t) :
    (action >>= next) s = (action >>= next') s := by
  rw [bind_run, bind_run]
  cases acted : action s with
  | error e t => rfl
  | ok a t => exact same a t acted

namespace Callouts

variable [SwitchPrimitives κ] {check : Callout n → Kernel κ n → Bool} {halt : Halt}
  {k : Kernel κ n} {call : PortCall} {m : Move n} {stance : Stance}

theorem checked_takeUp {rest : Rest} {phase : Phase}
    (passes : phase = .outside → ∀ on, rest = .tick on → Passes check .tick k.board) :
    (own.checked check halt).takeUp c rest phase k = own.takeUp c rest phase k := by
  cases phase with
  | trying d on | counting d on => rfl
  | outside =>
    cases rest with
    | taken | ipi on => rfl
    | tick on =>
      have same : (own.checked check halt).tick k = own.tick k :=
        if_pos (passes rfl on rfl k rfl rfl)
      simp only [takeUp, finish, bind_run, same]

/-- Where a call gets to the engine, the checks have to hold in there. -/
structure PassesEngine (check : Callout n → Kernel κ n → Bool) (call : PortCall) (k : Kernel κ n)
    (c : Fin n) : Prop where
  switches : ∀ k₁, k.Prepares k₁ c → (k.board.cores.get c).state = .running →
    ∀ o, o = .save c ∨ o = .select c ∨ o = .restore c → Passes check o (k₁.board.engaged c)
  enters : call.Enters k → ∀ k₁, k.Prepares k₁ c → ∀ task,
    Passes check (.restore c) (k₁.board.entering c task)

theorem checked_perform (ready : k.board.Ready c) (turns : k.TakesTurns)
    (noAsk : (call.ask? : Option (BoardM n (Ask n))) = none)
    (passes : PassesEngine check call k c) :
    (own.checked check halt).perform call k = call.perform k := by
  rw [PortCall.perform]
  have returned {x y : KernelM κ n Resumption} {k : Kernel κ n} (same : x k = y k) :
      (do return some (← x) : KernelM κ n (Option Resumption)) k = (do return some (← y)) k := by
    rw [bind_run, bind_run, same]
  cases call with
  | start =>
    obtain ⟨board, runs, prepares, _⟩ := PortCall.start_prepares ready
    refine returned ?_
    rw [runs, runs]
    exact checked_enterFirst (passes.enters trivial _ prepares _) 0
  | onTrap =>
    refine returned ?_
    rw [onTrap_run _ ready.known ready.executing, onTrap_run _ ready.known ready.executing]
    exact checked_switch turns (passes.switches k (Kernel.prepares_refl ready)) _
  | endInterrupt =>
    by_cases idle : (k.board.cores.get c).interruptDepth = 1 →
        (k.board.cores.get c).pending = .idle
    · exact endInterrupt_run_rest _ _ ready idle
    obtain ⟨outermost, asked⟩ := Classical.not_imp.mp idle
    cases pending : (k.board.cores.get c).pending with
    | idle => exact absurd pending asked
    | switch =>
      have prepares := Kernel.prepares_left ready (k.board.cores.get c).nesting
      have turns₁ : (k.left c (k.board.cores.get c).nesting).TakesTurns := ⟨turns.1, turns.2⟩
      simp only [perform, endInterrupt_run_switch _ ready outermost pending]
      refine returned (checked_switch turns₁ (fun running => ?_) 0)
      exact passes.switches _ prepares (by rwa [prepares.states] at running)
    | firstTask =>
      have prepares := Kernel.prepares_left ready 0
      have entry : PortCall.endInterrupt.Enters k := by
        rw [← ready.executing] at outermost pending
        exact ⟨outermost, pending⟩
      simp only [perform, endInterrupt_run_firstTask _ ready outermost pending]
      exact returned (checked_enterFirst (passes.enters entry _ prepares _) 0)
  | onTick => cases noAsk
  | _ => rfl

theorem checked_act (ready : k.board.Ready m.core) (turns : k.TakesTurns)
    (engine : ∀ call, m = .start m.core call → PassesEngine check call k m.core)
    (ticks : ∀ b, m.TicksAt stance k.board b → Passes check .tick b) :
    m.act (own.checked check halt) stance k = m.act .own stance k := by
  cases m with
  | proceed c =>
    cases stance with
    | outside => rfl
    | within rest phase =>
      refine Action.bind_congr_run fun phase' k₁ ran => checked_takeUp fun outside on is => ?_
      obtain ⟨b, won, rfl⟩ := Kernel.onBoard_ran ran
      subst outside is
      exact ticks b (.proceed rfl won)
  | start c call =>
    cases asks : (call.ask? : Option (BoardM n (Ask n))) with
    | none =>
      have same : (own.checked check halt).perform call k = call.perform k :=
        checked_perform ready turns asks (engine call rfl)
      simp only [Move.act, asks, bind_run, same, PortCall.perform]
    | some action =>
      simp only [Move.act, asks]
      refine Action.bind_congr_run fun ask k₁ asked => Action.bind_congr_run fun phase k₂ begun =>
        checked_takeUp fun outside on is => ?_
      obtain ⟨b₁, asked', rfl⟩ := Kernel.onBoard_ran asked
      obtain ⟨b₂, begun', rfl⟩ := Kernel.onBoard_ran begun
      subst outside
      exact ticks b₂ (.start asks asked' is begun')

end Callouts

end Preempt
