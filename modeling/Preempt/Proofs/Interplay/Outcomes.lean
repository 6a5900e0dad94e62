import Preempt.Proofs.Interplay.Engine

/-!
What a move can have done. A call that leaves an outermost interrupt, traps or starts the scheduler
may take a pending switch: it hands it on, switches, or enters a first task. All other moves advance
their core and leave the engine alone (`PortCall.Outcome`).
-/

namespace Preempt

open Preempt.Action
open Kernel (onBoard)

variable {κ : Type} {n : Nat} {c : Fin n}

namespace PortCall

/-- When a call hands a switch on to the trap. -/
def HandsOn (call : PortCall) (k : Kernel κ n) : Prop :=
  let core := k.board.cores.get k.board.machine.executing
  call = endInterruptHandingOn ∧ core.interruptDepth = 1 ∧ core.pending = .switch

/-- When a call takes a pending switch or runs the engine. -/
def Engages (call : PortCall) (k : Kernel κ n) : Prop :=
  (∃ depth, call.Switches k depth) ∨ call.Enters k ∨ call.HandsOn k

/-- What a call on core `c` has done that has completed without asking for a lock. -/
inductive Outcome (call : PortCall) (k k' : Kernel κ n) (c : Fin n) : Prop
  | advances (calm : ¬call.Engages k) (advances : k.Advances c call.isLocking k')
  | handsOn (handsOn : call.HandsOn k) (handed : k.HandedOn k' c)
  | switches {depth : TrapDepth} {pending : Pending} (switches : call.Switches k depth)
      (left : pending = if call = .endInterrupt then .idle else (k.board.cores.get c).pending)
      (switched : k.Switched k' c pending)
  | enters (entry : call.Enters k) (entered : k.Entered k' c (call = .start))

variable [SwitchPrimitives κ] {call : PortCall} {k k' : Kernel κ n} {answer : Option Resumption}
  {e : Halt} {halt : Halt → Prop}

omit [SwitchPrimitives κ] in
theorem not_engages_of_quiet (quiet : call.isQuiet = true) : ¬call.Engages k := by
  rintro (⟨_, switches⟩ | entry | ⟨rfl, _⟩)
  · cases call <;> first | exact switches | cases quiet
  · cases call <;> first | exact entry | cases quiet
  · cases quiet

omit [SwitchPrimitives κ] in
/-- Left from within, or with nothing to do, an interrupt leaves only its level. -/
theorem advances_leave {depth : UInt32} (ready : k.board.Ready c) {pending : Pending}
    (same : pending = (k.board.cores.get c).pending) : k.Advances c false { k with board := {
      k.board with cores := k.board.cores.put c { k.board.cores.get c with
        interruptDepth := depth, pending } } } := by
  refine ⟨Board.advances_of_put ready (.of_eq rfl rfl same rfl) fun _ d => ?_, rfl, rfl, rfl⟩
  cases d <;> rfl

omit [SwitchPrimitives κ] in
/-- Up to the first task a start prepares the board, and all other cores are called. -/
theorem start_prepares (ready : k.board.Ready c) :
    ∃ board, (∀ x : Callouts κ n, x.start k = x.enterFirst c 0 { k with board }) ∧
      k.Prepares { k with board } c ∧ (board.cores.get c).pending = .idle ∧
      ∀ d, d ≠ c → board.cores.get d = { k.board.cores.get d with pending := .firstTask } := by
  obtain ⟨board, runs, announces, ready', masks, own, others⟩ := Callouts.start_announces ready
  refine ⟨board, runs, ⟨announces, ready', masks, fun d => ?_, ?_, ?_, fun d => ?_, rfl⟩, ?_,
    others⟩
  · by_cases here : d = c
    · rw [here, own]
    · rw [others d here]
  · rw [own]
  · rw [own]
  · rw [own]
    cases d <;> rfl
  · rw [own]

theorem start_outcome (ready : k.board.Ready c) (ran : start.perform k = .ok answer k') :
    start.Outcome k k' c := by
  obtain ⟨board, runs, prepares, idle, others⟩ := start_prepares ready
  obtain ⟨r, started, _⟩ := ran_of_return ran
  rw [runs] at started
  refine .enters trivial (prepares.entered (fun d apart => ?_)
    (Kernel.enterFirst_ran prepares.ready idle started))
  rw [if_pos rfl]
  exact others d apart

theorem onTrap_outcome (ready : k.board.Ready c) (turns : k.TakesTurns)
    (ran : onTrap.perform k = .ok answer k') : onTrap.Outcome k k' c := by
  obtain ⟨r, trapped, _⟩ := ran_of_return ran
  rw [Callouts.onTrap_run _ ready.known ready.executing] at trapped
  exact .switches rfl rfl (Kernel.switch_ran ready turns trapped)

omit [SwitchPrimitives κ] in
/-- The end of an interrupt gets to the engine only from the outermost level, and if it was
asked. -/
theorem Engages.ends (mine : k.board.machine.executing = c) (engages : endInterrupt.Engages k) :
    (k.board.cores.get c).interruptDepth = 1 ∧ (k.board.cores.get c).pending ≠ .idle := by
  subst mine
  rcases engages with ⟨_, _, outermost, asked⟩ | ⟨outermost, asked⟩ | ⟨is, _⟩
  · exact ⟨outermost, by rw [asked]; exact Pending.noConfusion⟩
  · exact ⟨outermost, by rw [asked]; exact Pending.noConfusion⟩
  · cases is

omit [SwitchPrimitives κ] in
theorem Engages.handsOn (mine : k.board.machine.executing = c)
    (engages : endInterruptHandingOn.Engages k) :
    (k.board.cores.get c).interruptDepth = 1 ∧ (k.board.cores.get c).pending = .switch := by
  subst mine
  rcases engages with ⟨_, switches⟩ | entry | ⟨_, outermost, asked⟩
  · exact absurd switches id
  · exact absurd entry id
  · exact ⟨outermost, asked⟩

theorem endInterrupt_outcome (ready : k.board.Ready c) (turns : k.TakesTurns)
    (ran : endInterrupt.perform k = .ok answer k') : endInterrupt.Outcome k k' c := by
  obtain ⟨known, mine⟩ := And.intro ready.known ready.executing
  rw [perform_endInterrupt] at ran
  by_cases zero : (k.board.cores.get c).interruptDepth = 0
  · rw [Kernel.endInterrupt_run_zero known mine zero] at ran
    cases ran
  by_cases outermost : (k.board.cores.get c).interruptDepth = 1
  · cases pending : (k.board.cores.get c).pending with
    | idle =>
      rw [Kernel.endInterrupt_run_outermost known mine outermost,
        pending] at ran
      cases ran
      exact .advances (fun engages => (engages.ends mine).2 pending)
        (advances_leave ready pending.symm)
    | switch =>
      rw [Kernel.endInterrupt, Callouts.endInterrupt_run_switch _ ready outermost pending] at ran
      obtain ⟨r, switched, _⟩ := ran_of_return ran
      have prepares := Kernel.prepares_left ready (k.board.cores.get c).nesting
      have engine := Kernel.switch_ran prepares.ready ⟨turns.stays, turns.reenters⟩ switched
      rw [Kernel.left, Vector.get_put_self] at engine
      subst mine
      have switches : endInterrupt.Switches k 0 := ⟨rfl, outermost, pending⟩
      exact .switches switches (if_pos rfl).symm
        (prepares.switched (fun d apart => Vector.get_put_of_ne _ apart.symm _) engine)
    | firstTask =>
      rw [Kernel.endInterrupt, Callouts.endInterrupt_run_firstTask _ ready outermost pending] at ran
      obtain ⟨r, entered, _⟩ := ran_of_return ran
      have prepares := Kernel.prepares_left ready 0
      have engine := Kernel.enterFirst_ran prepares.ready
        (by rw [Kernel.left, Vector.get_put_self]) entered
      subst mine
      refine .enters ⟨outermost, pending⟩ (prepares.entered (fun d apart => ?_) engine)
      rw [if_neg (by simp)]
      exact Vector.get_put_of_ne _ apart.symm _
  · rw [Kernel.endInterrupt_run_inner known mine zero outermost] at ran
    cases ran
    exact .advances (fun engages => outermost (engages.ends mine).1) (advances_leave ready rfl)

theorem endInterruptHandingOn_outcome (ready : k.board.Ready c)
    (ran : endInterruptHandingOn.perform k = .ok answer k') :
    endInterruptHandingOn.Outcome k k' c := by
  obtain ⟨handedOn, ran, _⟩ := ran_of_return (f := fun _ => none) ran
  have mine := ready.executing
  by_cases zero : (k.board.cores.get c).interruptDepth = 0
  · rw [Kernel.handOn_run_zero ready zero] at ran
    cases ran
  by_cases outermost : (k.board.cores.get c).interruptDepth = 1
  · rw [Kernel.handOn_run_outermost ready outermost] at ran
    have calm (other : (k.board.cores.get c).pending ≠ .switch) :
        ¬endInterruptHandingOn.Engages k := fun engages => other (engages.handsOn mine).2
    cases pending : (k.board.cores.get c).pending with
    | idle =>
      rw [pending] at ran
      cases ran
      exact .advances (calm (by simp [pending])) (advances_leave ready pending.symm)
    | firstTask =>
      rw [pending] at ran
      cases ran
      simp only [Kernel.left, Vector.get_put_self, Vector.put_put]
      exact .advances (calm (by simp [pending])) (advances_leave ready pending.symm)
    | switch =>
      rw [pending] at ran
      subst mine
      obtain ⟨u, pended, _⟩ := ran_of_return (f := fun _ => true) ran
      obtain ⟨storage, rfl⟩ := Kernel.pendTrap_ran pended
      exact .handsOn ⟨rfl, outermost, pending⟩
        ⟨rfl, rfl, Board.engineSteps_push_plain (fun _ => rfl) rfl, rfl⟩
  · rw [Kernel.handOn_run_inner ready zero outermost] at ran
    cases ran
    exact .advances (fun engages => outermost (engages.handsOn mine).1) (advances_leave ready rfl)

theorem outcome (ready : k.board.Ready c) (turns : k.TakesTurns)
    (noAsk : (call.ask? : Option (BoardM n (Ask n))) = none)
    (ran : call.perform k = .ok answer k') : call.Outcome k k' c := by
  by_cases quiet : call.isQuiet = true
  · have abides : Abides (Kernel.regime c call.isLocking fun _ => True)
        (call.perform : KernelM κ n (Option Resumption)) :=
      Interplay.abides_quiet (fun _ _ => trivial) (fun _ _ _ _ _ => trivial) quiet
    exact .advances (not_engages_of_quiet quiet) (abides.completes ready ran)
  · cases call with
    | start => exact start_outcome ready ran
    | onTrap => exact onTrap_outcome ready turns ran
    | endInterrupt => exact endInterrupt_outcome ready turns ran
    | endInterruptHandingOn => exact endInterruptHandingOn_outcome ready ran
    | lock | lockShared | onTick | onIpi => cases noAsk
    | _ => exact absurd rfl quiet

namespace Outcome

omit [SwitchPrimitives κ]

theorem ready (outcome : call.Outcome k k' c) (ready : k.board.Ready c) : k'.board.Ready c := by
  cases outcome with
  | advances _ advances => exact advances.board.ready
  | handsOn _ handed =>
    refine ⟨?_, ?_⟩
    · rw [handed.machine, ready.executing]
    · rw [handed.machine, ready.known]
  | switches _ _ switched => exact switched.ready
  | enters _ entered => exact entered.ready

theorem turns (outcome : call.Outcome k k' c) (turns : k.TakesTurns) : k'.TakesTurns := by
  cases outcome with
  | advances _ advances =>
    exact ⟨advances.stays.trans turns.stays, advances.reenters.trans turns.reenters⟩
  | handsOn _ handed =>
    refine ⟨?_, ?_⟩
    · rw [handed.scheduler, turns.stays]
    · rw [handed.scheduler, turns.reenters]
  | switches _ _ switched =>
    exact ⟨switched.stays.trans turns.stays, switched.reenters.trans turns.reenters⟩
  | enters _ entered =>
    exact ⟨entered.stays.trans turns.stays, entered.reenters.trans turns.reenters⟩

/-- A call that completes leaves no core in its engine. -/
theorem state (outcome : call.Outcome k k' c) (d : Fin n) :
    (k'.board.cores.get d).state = (k.board.cores.get d).state ∨
      (k'.board.cores.get d).state = .running := by
  by_cases here : d = c
  · subst here
    cases outcome with
    | advances _ advances => exact .inl advances.board.asks.state
    | handsOn _ handed =>
      rw [handed.cores, Vector.get_put_self]
      exact .inl rfl
    | switches _ _ switched => exact .inr switched.state
    | enters _ entered => exact .inr entered.state
  · left
    cases outcome with
    | advances _ advances => rw [advances.board.others d here]
    | handsOn _ handed => rw [handed.cores, Vector.get_put_of_ne _ (Ne.symm here)]
    | switches _ _ switched => rw [switched.others d here]
    | enters _ entered =>
      rw [entered.others d here]
      split <;> rfl

/-- Apart from a start, a call leaves the other cores alone. -/
theorem apart (outcome : call.Outcome k k' c) (going : call ≠ .start) {d : Fin n} (other : d ≠ c) :
    k'.board.cores.get d = k.board.cores.get d ∧
      k'.board.engineSteps d = k.board.engineSteps d := by
  cases outcome with
  | advances _ advances => exact ⟨advances.board.others d other, advances.board.steps d⟩
  | handsOn _ handed =>
    refine ⟨?_, handed.steps d⟩
    rw [handed.cores, Vector.get_put_of_ne _ (Ne.symm other)]
  | switches _ _ switched =>
    refine ⟨switched.others d other, ?_⟩
    rw [switched.steps, if_neg other, List.append_nil]
  | enters _ entered =>
    refine ⟨(entered.others d other).trans (if_neg going), ?_⟩
    rw [entered.steps, if_neg other, List.append_nil]

end Outcome

/-- Of what the engine was to show, a call that halts has shown a part. -/
inductive Breaks (call : PortCall) (k k' : Kernel κ n) (c : Fin n) : Prop
  | silent (steps : ∀ d, k'.board.engineSteps d = k.board.engineSteps d)
  | switching (running : (k.board.cores.get c).state = .running)
      (broken : k.Broken k' c (k.switchSteps c))
  | entering (entry : call.Enters k) (broken : k.Broken k' c [.restore (k.scheduler.current c)])

section Breaks

variable (plain : ∀ e, e ≠ .violation .switchReentered → halt e)
  (allowed : SwitchPrimitives.HaltIn κ halt)

include plain allowed

omit plain in
theorem start_breaks (ready : k.board.Ready c) (halted : start.perform k = .error e k') :
    halt e ∧ start.Breaks k k' c := by
  obtain ⟨board, runs, prepares, _⟩ := start_prepares ready
  have started := halted_of_return halted
  rw [runs] at started
  obtain ⟨allowed, broken⟩ := Kernel.enterFirst_broken (allowed.restores c · 0) started
  exact ⟨allowed, .entering trivial (prepares.broken broken)⟩

theorem onTrap_breaks (ready : k.board.Ready c) (turns : k.TakesTurns)
    (settled : (k.board.cores.get c).state ≠ .switching)
    (halted : onTrap.perform k = .error e k') : halt e ∧ onTrap.Breaks k k' c := by
  have trapped := halted_of_return halted
  rw [Callouts.onTrap_run _ ready.known ready.executing] at trapped
  obtain ⟨allowed, steps | ⟨running, broken⟩⟩ :=
    Kernel.switch_broken plain allowed turns settled trapped
  · exact ⟨allowed, .silent steps⟩
  · exact ⟨allowed, .switching running broken⟩

theorem endInterrupt_breaks (ready : k.board.Ready c) (turns : k.TakesTurns)
    (settled : (k.board.cores.get c).state ≠ .switching)
    (halted : endInterrupt.perform k = .error e k') : halt e ∧ endInterrupt.Breaks k k' c := by
  obtain ⟨known, mine⟩ := And.intro ready.known ready.executing
  rw [perform_endInterrupt] at halted
  by_cases zero : (k.board.cores.get c).interruptDepth = 0
  · rw [Kernel.endInterrupt_run_zero known mine zero] at halted
    cases halted
    exact ⟨plain _ (by simp), .silent fun _ => rfl⟩
  by_cases outermost : (k.board.cores.get c).interruptDepth = 1
  · cases pending : (k.board.cores.get c).pending with
    | idle =>
      rw [Kernel.endInterrupt_run_outermost known mine outermost,
        pending] at halted
      cases halted
    | switch =>
      rw [Kernel.endInterrupt, Callouts.endInterrupt_run_switch _ ready outermost pending] at halted
      have prepares := Kernel.prepares_left ready (k.board.cores.get c).nesting
      have settled₁ : ((k.left c (k.board.cores.get c).nesting).board.cores.get c).state ≠
          .switching := by rwa [prepares.states]
      have turns₁ : (k.left c (k.board.cores.get c).nesting).TakesTurns := ⟨turns.1, turns.2⟩
      obtain ⟨allowed, steps | ⟨running, broken⟩⟩ :=
        Kernel.switch_broken plain allowed turns₁ settled₁ (halted_of_return halted)
      · exact ⟨allowed, .silent steps⟩
      · exact ⟨allowed, .switching (prepares.states c ▸ running) (prepares.broken broken)⟩
    | firstTask =>
      rw [Kernel.endInterrupt,
        Callouts.endInterrupt_run_firstTask _ ready outermost pending] at halted
      have prepares := Kernel.prepares_left ready 0
      obtain ⟨allowed, broken⟩ :=
        Kernel.enterFirst_broken (allowed.restores c · 0) (halted_of_return halted)
      subst mine
      exact ⟨allowed, .entering ⟨outermost, pending⟩ (prepares.broken broken)⟩
  · rw [Kernel.endInterrupt_run_inner known mine zero outermost]
      at halted
    cases halted

theorem endInterruptHandingOn_breaks (ready : k.board.Ready c)
    (halted : endInterruptHandingOn.perform k = .error e k') :
    halt e ∧ endInterruptHandingOn.Breaks k k' c := by
  have halted := halted_of_return (f := fun _ => none) halted
  by_cases zero : (k.board.cores.get c).interruptDepth = 0
  · rw [Kernel.handOn_run_zero ready zero] at halted
    cases halted
    exact ⟨plain _ nofun, .silent fun _ => rfl⟩
  by_cases outermost : (k.board.cores.get c).interruptDepth = 1
  · rw [Kernel.handOn_run_outermost ready outermost] at halted
    have prepares := Kernel.prepares_left ready (k.board.cores.get c).nesting
    cases pending : (k.board.cores.get c).pending with
    | idle | firstTask =>
      rw [pending] at halted
      cases halted
    | switch =>
      rw [pending] at halted
      have abides : Abides (Kernel.regime c true halt) (Kernel.pendTrap c : KernelM κ n Unit) :=
        Kernel.abides_pendTrap allowed.pends c
      obtain ⟨pended, halts⟩ :=
        abides.halts prepares.ready (halted_of_return (f := fun _ => true) halted)
      exact ⟨halts, .silent pended.board.steps⟩
  · rw [Kernel.handOn_run_inner ready zero outermost] at halted
    cases halted

/-- A call on a core that is not in its engine halts only as it may, and never gets in there a
second time. -/
theorem breaks (ready : k.board.Ready c) (turns : k.TakesTurns)
    (settled : (k.board.cores.get c).state ≠ .switching)
    (noAsk : (call.ask? : Option (BoardM n (Ask n))) = none)
    (halted : call.perform k = .error e k') : halt e ∧ call.Breaks k k' c := by
  by_cases quiet : call.isQuiet = true
  · have abides := Interplay.abides_quiet (n := n) (c := c) plain allowed.pends quiet
    obtain ⟨advances, halts⟩ := abides.halts ready halted
    exact ⟨halts, .silent advances.board.steps⟩
  · cases call with
    | start => exact start_breaks allowed ready halted
    | onTrap => exact onTrap_breaks plain allowed ready turns settled halted
    | endInterrupt => exact endInterrupt_breaks plain allowed ready turns settled halted
    | endInterruptHandingOn => exact endInterruptHandingOn_breaks plain allowed ready halted
    | lock | lockShared | onTick | onIpi => cases noAsk
    | _ => exact absurd rfl quiet

end Breaks

end PortCall

namespace Interplay

variable [SwitchPrimitives κ] {w : Interplay κ n} {m : Move n} {stance stance' : Stance}
  {k : Kernel κ n} {e : Halt} {halt : Halt → Prop}

/-- What a move has done that has completed. -/
inductive Outcome (w : Interplay κ n) : Move n → Kernel κ n → Prop
  | start {c : Fin n} {call : PortCall} {k : Kernel κ n} (outcome : call.Outcome (w.turn c) k c) :
      Outcome w (.start c call) k
  | proceed {c : Fin n} {k : Kernel κ n} (advances : (w.turn c).Advances c true k) :
      Outcome w (.proceed c) k

omit [SwitchPrimitives κ] in
theorem ready_turn (known : w.kernel.board.machine.identity = none) (c : Fin n) :
    (w.turn c).board.Ready c := ⟨rfl, known⟩

/-- Some core runs a task, so that the scheduler has been started. -/
def Going (w : Interplay κ n) : Prop := ∃ c, (w.core c).state = .running

/-- A state between moves: every core knows itself, no core is in its engine, and the scheduler goes
on with the next task. -/
structure Orderly (w : Interplay κ n) : Prop where
  known : w.kernel.board.machine.identity = none
  turns : w.kernel.TakesTurns
  settled : ∀ c, (w.core c).state ≠ .switching

theorem Orderly.outcome (before : w.Orderly)
    (ran : m.act .own stance (w.turn m.core) = .ok stance' k) : w.Outcome m k := by
  have ready := ready_turn before.known m.core
  cases m with
  | proceed c =>
    have abides : Abides (Kernel.regime c true fun _ => True)
        ((Move.proceed c).act .own stance : KernelM κ n Stance) :=
      abides_proceed (fun _ _ => trivial) stance
    exact .proceed (abides.completes ready ran)
  | start c call =>
    refine .start ?_
    cases asks : (call.ask? : Option (BoardM n (Ask n))) with
    | some action =>
      have abides : Abides (Kernel.regime c true fun _ => True)
          ((Move.start c call).act .own stance : KernelM κ n Stance) :=
        abides_asks (fun _ _ => trivial) asks stance
      have locking : call.isLocking = true := by cases call <;> first | rfl | cases asks
      have calm : ¬call.Engages (w.turn c) := by
        rintro (⟨_, switches⟩ | entry | ⟨rfl, _⟩)
        · cases call <;> first | exact switches | cases asks
        · cases call <;> first | exact entry | cases asks
        · cases asks
      exact .advances calm (locking ▸ abides.completes ready ran)
    | none =>
      simp only [Move.act, asks] at ran
      obtain ⟨answer, ran, _⟩ := ran_of_return (f := fun _ => Stance.outside) ran
      exact call.outcome ready ⟨before.turns.1, before.turns.2⟩ asks ran

omit [SwitchPrimitives κ] in
theorem orderly_boot {core : Fin n} {boot : Kernel.Boot n} {context : κ}
    (booted : Kernel.boot core boot context = .ok k) : Orderly { kernel := k } := by
  obtain ⟨rate, scheduler, made, rfl⟩ := Kernel.eq_of_boot booted
  obtain ⟨queues, _, rfl⟩ := RoundRobin.eq_of_make made
  refine ⟨rfl, ⟨rfl, rfl⟩, fun c switching => ?_⟩
  rw [Interplay.core, Core.get_reset] at switching
  cases switching

omit [SwitchPrimitives κ] in
theorem Outcome.state (outcome : w.Outcome m k) (d : Fin n) :
    (k.board.cores.get d).state = (w.core d).state ∨ (k.board.cores.get d).state = .running := by
  cases outcome with
  | start outcome => exact outcome.state d
  | @proceed c _ advances =>
    left
    by_cases here : d = c
    · subst here
      exact advances.board.asks.state
    · exact congrArg Core.state (advances.board.others d here)

omit [SwitchPrimitives κ] in
theorem Outcome.orderly (outcome : w.Outcome m k) (before : w.Orderly) (stance : Stance) :
    (w.after m stance k).Orderly := by
  have ready := ready_turn before.known m.core
  have settled (d : Fin n) : ((w.after m stance k).core d).state ≠ .switching := by
    intro switching
    rcases outcome.state d with same | running
    · exact before.settled d (same.symm.trans switching)
    · exact EngineState.noConfusion (running.symm.trans switching)
  cases outcome with
  | start outcome =>
    exact ⟨(outcome.ready ready).known, outcome.turns ⟨before.turns.1, before.turns.2⟩, settled⟩
  | proceed advances =>
    exact ⟨advances.board.ready.known, ⟨advances.stays.trans before.turns.stays,
      advances.reenters.trans before.turns.reenters⟩, settled⟩

theorem Step.orderly {move : Option (Move n)} {w' : Interplay κ n} (step : w.Step move w')
    (before : w.Orderly) : w'.Orderly := by
  cases step with
  | move _ ran => exact (before.outcome ran).orderly before _
  | aside spares =>
    refine ⟨spares.identity.trans before.known, ⟨spares.stays.trans before.turns.stays,
      spares.reenters.trans before.turns.reenters⟩, fun c => ?_⟩
    rw [Interplay.core, spares.cores]
    exact before.settled c

theorem Reached.orderly {rule : Interplay κ n → Option (Move n) → Prop} (reached : w.Reached rule) :
    w.Orderly := by
  induction reached with
  | boot booted => exact orderly_boot booted
  | step _ step _ ih => exact step.orderly ih

theorem Step.going {move : Option (Move n)} {w' : Interplay κ n} (step : w.Step move w')
    (before : w.Orderly) (going : w.Going) : w'.Going := by
  obtain ⟨c, running⟩ := going
  refine ⟨c, ?_⟩
  cases step with
  | move _ ran =>
    rcases (before.outcome ran).state c with same | runs
    · exact same.trans running
    · exact runs
  | aside spares =>
    rw [core, spares.cores]
    exact running

/-- How a move breaks off, with what it has shown of the engine by then. -/
theorem Orderly.breaks (before : w.Orderly)
    (plain : ∀ e, e ≠ .violation .switchReentered → halt e)
    (allowed : SwitchPrimitives.HaltIn κ halt)
    (halted : m.act .own stance (w.turn m.core) = .error e k) : halt e ∧
      ((∀ d, k.board.engineSteps d = w.kernel.board.engineSteps d) ∨
        ∃ call, m = .start m.core call ∧ call.Breaks (w.turn m.core) k m.core) := by
  have ready := ready_turn before.known m.core
  cases m with
  | proceed c =>
    obtain ⟨advances, halts⟩ := (abides_proceed plain stance).halts ready halted
    exact ⟨halts, .inl advances.board.steps⟩
  | start c call =>
    cases asks : (call.ask? : Option (BoardM n (Ask n))) with
    | some action =>
      obtain ⟨advances, halts⟩ := (abides_asks plain asks stance).halts ready halted
      exact ⟨halts, .inl advances.board.steps⟩
    | none =>
      simp only [Move.act, asks] at halted
      have halted := halted_of_return (f := fun _ => Stance.outside) halted
      obtain ⟨halts, breaks⟩ := call.breaks plain allowed ready
        ⟨before.turns.1, before.turns.2⟩ (before.settled c) asks halted
      exact ⟨halts, .inr ⟨call, rfl, breaks⟩⟩

end Interplay

end Preempt
