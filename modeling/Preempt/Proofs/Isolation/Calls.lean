import Preempt.Proofs.Interplay.Engine
import Preempt.Proofs.Isolation.Footprint

/-!
What a call leaves of the other cores once it has completed (`PortCall.Confined`), and what it has
done to the contexts: nothing but pend its own trap, or the engine has saved the task of the core,
restored one, or both (`PortCall.Hands`).
-/

namespace Preempt

open Preempt.Action
open Kernel (onBoard)

variable {κ : Type} {n : Nat} {c : Fin n}

/-! Requests of other cores. -/

namespace PortCall

/-- Whether a completed call has requested core `d` by inter-processor interrupt, if that does not
have the bit of the core that called. -/
def calls (n : Nat) (call : PortCall) (d : CoreId) : Bool :=
  match call with
  | start => true
  | yieldTo target => target < n ∧ target % 32 = d % 32
  | _ => false

end PortCall

/-- Core `c` has left the other cores as they were, but for its requests. If it starts them, it has
ordered each of them to enter its first task. -/
structure Kernel.Confined (k k' : Kernel κ n) (c : Fin n) (starts : Bool)
    (calls : CoreId → Bool) : Prop where
  cores : ∀ d, d ≠ c → k'.board.cores.get d = if starts
    then { k.board.cores.get d with pending := .firstTask } else k.board.cores.get d
  enabled : ∀ d, d ≠ c → k'.board.machine.enabled.get d = k.board.machine.enabled.get d
  timers : ∀ d, d ≠ c → k'.board.machine.timers.get d = k.board.machine.timers.get d
  called : ∀ d : Fin n, d.val % 32 ≠ c.val % 32 → k'.board.machine.isCalled d =
    (k.board.machine.isCalled d || calls d)
  queues : ∀ d, d ≠ c → k'.scheduler.queues.get d = k.scheduler.queues.get d

theorem Kernel.confined_of_apart {k k' : Kernel κ n} {calls : CoreId → Bool}
    (silent : ∀ d, calls d = false) (board : k.board.Apart c k'.board)
    (queues : ∀ d, d ≠ c → k'.scheduler.queues.get d = k.scheduler.queues.get d) :
    k.Confined k' c false calls where
  cores := board.cores
  enabled := board.enabled
  timers := board.timers
  called d other := by rw [silent, Bool.or_false, board.called d other]
  queues := queues

/-- What a call of core `c` may have done to the other cores. -/
abbrev PortCall.Confined (call : PortCall) (k k' : Kernel κ n) (c : Fin n) : Prop :=
  k.Confined k' c (call = .start) (call.calls n)

theorem PortCall.confined_of_apart {call : PortCall} {k k' : Kernel κ n} (notStart : call ≠ .start)
    (silent : ∀ d, call.calls n d = false) (board : k.board.Apart c k'.board)
    (queues : ∀ d, d ≠ c → k'.scheduler.queues.get d = k.scheduler.queues.get d) :
    call.Confined k k' c := by
  rw [Confined, decide_eq_false notStart]
  exact Kernel.confined_of_apart silent board queues

/-- The cores other than `c` have been requested, in any order. -/
theorem Board.releaseOthers_called {others : List (Fin n)} {b b' : Board n} {u : Unit}
    (ran : Kernel.releaseOthers c others b = .ok u b') :
    b'.machine.timers = b.machine.timers ∧ ∀ d : CoreId, b'.machine.isCalled d =
      (b.machine.isCalled d || others.any fun other => other ≠ c ∧ other.val % 32 = d % 32) := by
  induction others generalizing b with
  | nil =>
    cases ran
    exact ⟨rfl, fun d => by simp⟩
  | cons other rest ih =>
    by_cases mine : other = c
    · rw [Kernel.releaseOthers, if_neg (not_not.mpr mine)] at ran
      obtain ⟨timers, called⟩ := ih ran
      exact ⟨timers, fun d => by simp [called, mine]⟩
    · rw [Kernel.releaseOthers, if_pos mine] at ran
      obtain ⟨timers, called⟩ := ih (b := { b with
        trace := (b.trace.push (.log (.releasingCore c other))).push (.ipi other)
        machine := b.machine.raiseIpi other
        cores := b.cores.put other { b.cores.get other with pending := .firstTask } }) ran
      refine ⟨timers, fun d => ?_⟩
      rw [called, Machine.isCalled_raiseIpi, List.any_cons, Bool.or_assoc]
      simp [mine]

/-- A core resumes a task with its record and its mask as that needs them. -/
theorem Board.apart_resumed {b : Board n} (ready : b.Ready c) (core : Core) (on : Bool)
    (trace : Trace) : b.Apart c { b with
      trace, machine := b.machine.setEnabled on, cores := b.cores.put c core } :=
  have machine : b.Apart c { b with trace, machine := b.machine.setEnabled on } :=
    apart_of_machine ready (Machine.apart_setEnabled ready.executing on)
  machine.trans (apart_of_put machine.ready core)

namespace Kernel

variable [SwitchPrimitives κ] {k k' : Kernel κ n} {depth : TrapDepth} {r : Resumption}

/-! The engine. -/

theorem enterFirst_keeps (ready : k.board.Ready c) (ran : enterFirst c depth k = .ok r k') :
    SwitchPrimitives.restore c (k.scheduler.current c) depth k.storage = .ok r k'.storage ∧
      k.board.Apart c k'.board ∧ k'.scheduler = k.scheduler := by
  cases restored : SwitchPrimitives.restore c (k.scheduler.current c) depth k.storage with
  | error e storage =>
    rw [enterFirst_eq, resume_eq, restored] at ran
    cases ran
  | ok r' storage =>
    obtain ⟨trace, ran'⟩ := enterFirst_run (k := k) restored
    rw [ran'] at ran
    cases ran
    exact ⟨rfl, Board.apart_resumed ready _ _ trace, rfl⟩

/-- While the engine runs on a core it cannot be entered again, so a choice that completes is one
that does not try. -/
theorem select_chose {u : Unit} (engaged : (k.board.cores.get c).state = .switching)
    (ran : select c k = .ok u k') : select c k = choosing k.scheduler.choice c k := by
  cases reenters : k.scheduler.reenters with
  | false => exact select_eq k c reenters
  | true =>
    cases stays : k.scheduler.stays with
    | true =>
      simp [select, selectWithin, selectAfter, choosing, onBoard, Board.emit, bind_run, get_run,
        onScheduler, stays, RoundRobin.choice, RoundRobin.choose_stay]
      rfl
    | false =>
      have refused (x : Callouts κ n) := x.switch_run_switching (c := c)
        (k := { k with board := { k.board with trace := k.board.trace.push (.select c) } })
        0 engaged
      simp only [select, selectWithin, selectAfter, switchWith, onBoard, Board.emit, bind_run,
        get_run, stays, reenters, if_true, Bool.false_eq_true, if_false, refused] at ran
      cases ran

theorem switch_chose (ran : switch c depth k = .ok r k') :
    switchWith (choosing k.scheduler.choice) c depth k = .ok r k' ∧
      (k.board.cores.get c).state = .running := by
  have running := Callouts.running_of_switch ran
  refine ⟨?_, running⟩
  rw [switch, Callouts.switch_engages _ running] at ran
  rw [switchWith, Callouts.switch_engages _ running]
  simp only [Callouts.own, callouts_save, callouts_select, callouts_resume, bind_run, save_run]
    at ran ⊢
  cases saved : SwitchPrimitives.save c (k.scheduler.current c) (k.board.cores.get c).nesting depth
      k.storage with
  | error e storage =>
    rw [saved] at ran
    cases ran
  | ok u storage =>
    simp only [saved] at ran ⊢
    set k₂ : Kernel κ n := { k with
      board := (k.board.engaged c).shows
        (.save c (k.scheduler.current c) (k.board.cores.get c).nesting depth)
      storage } with hk₂
    cases chosen : select c k₂ with
    | error e k₃ =>
      rw [chosen] at ran
      cases ran
    | ok u k₃ =>
      have engaged : (k₂.board.cores.get c).state = .switching := by
        rw [hk₂, Board.shows, Board.engaged, Vector.get_put_self]
      have same := select_chose engaged chosen
      rw [chosen] at same
      rw [chosen] at ran
      rw [← same]
      exact ran

/-- A switch saves the task of the core and restores the one that is chosen. -/
theorem switch_keeps (ready : k.board.Ready c) (ran : switch c depth k = .ok r k') :
    (∃ storage, SwitchPrimitives.save c (k.scheduler.current c) (k.board.cores.get c).nesting depth
        k.storage = .ok () storage ∧
      SwitchPrimitives.restore c (k'.scheduler.current c) depth storage = .ok r k'.storage) ∧
      k.board.Apart c k'.board ∧
      ∀ d, d ≠ c → k'.scheduler.queues.get d = k.scheduler.queues.get d := by
  obtain ⟨ran, running⟩ := switch_chose ran
  cases saved : SwitchPrimitives.save c (k.scheduler.current c) (k.board.cores.get c).nesting depth
      k.storage with
  | error e storage =>
    rw [switchWith, Callouts.switch_engages _ running, bind_run, callouts_save, save_run, saved]
      at ran
    cases ran
  | ok u storage =>
    cases restored : SwitchPrimitives.restore c
        (k.scheduler.choice.pick (k.scheduler.queues.get c)).current depth storage with
    | error e storage =>
      rw [switchWith, Callouts.switch_engages _ running] at ran
      simp only [callouts_save, callouts_select, callouts_resume, bind_run, save_run, saved,
        choosing, onBoard, Board.emit, onScheduler, Callouts.current_run,
        RoundRobin.current_choose_self, resume_eq, restored] at ran
      cases ran
    | ok r' storage' =>
      obtain ⟨trace, ran'⟩ := switchWith_run running saved restored
      rw [ran'] at ran
      cases ran
      refine ⟨⟨storage, rfl, ?_⟩, Board.apart_resumed ready _ _ trace, fun d other => ?_⟩
      · rw [RoundRobin.current_choose_self, restored]
      · exact Vector.get_put_of_ne _ other.symm _

end Kernel

namespace PortCall

variable [SwitchPrimitives κ] {call : PortCall} {k k' : Kernel κ n}
  {answer : Option Resumption}

/-- What a completed call of core `c` has done to the contexts. -/
inductive Hands (call : PortCall) (k k' : Kernel κ n) (c : Fin n) : Option Resumption → Prop
  | rests (pends : Kernel.PendsOwn c k.storage k'.storage) : Hands call k k' c none
  | enters {r : Resumption} (stays : k'.scheduler.current c = k.scheduler.current c)
      (restored : SwitchPrimitives.restore c (k'.scheduler.current c) 0 k.storage =
        .ok r k'.storage) : Hands call k k' c (some r)
  | switches {depth : TrapDepth} {r : Resumption} {storage : Storage κ}
      (switches : call.Switches k depth)
      (saved : SwitchPrimitives.save c (k.scheduler.current c) (k.board.cores.get c).nesting depth
        k.storage = .ok () storage)
      (restored : SwitchPrimitives.restore c (k'.scheduler.current c) depth storage =
        .ok r k'.storage) : Hands call k k' c (some r)

theorem confined_of_own (own : call.isOwn = true) (ready : k.board.Ready c)
    (ran : call.perform k = .ok answer k') :
    call.Confined k k' c ∧ call.Hands k k' c answer := by
  have apart := keepsTo_of_own own _ _ _ ran ready
  have silent : answer = none := by
    refine answer_of_plain ?_ ran
    cases call with
    | start | onTrap | endInterrupt | yieldTo => cases own
    | _ => rfl
  subst silent
  refine ⟨confined_of_apart ?_ ?_ apart.board fun d _ => by rw [apart.queues], .rests apart.storage⟩
  · rintro rfl
    cases own
  · intro d
    cases call with
    | start | onTrap | endInterrupt | yieldTo => cases own
    | _ => rfl

/-- A yield to another core requests that core. -/
theorem confined_yieldTo {target : CoreId} (ready : k.board.Ready c)
    (ran : (yieldTo target).perform k = .ok answer k') :
    (yieldTo target).Confined k k' c ∧ (yieldTo target).Hands k k' c answer := by
  obtain ⟨r, acted, rfl⟩ := ran_of_return (f := fun _ => none) ran
  by_cases known : target < n
  · have here : onBoard Board.ownId k = .ok c.val k := by
      simp only [onBoard, Board.ownId, bind_run, Board.machineOf, pure_run, Machine.ownId,
        ready.known, ready.executing, Option.getD_none]
    rw [Kernel.yieldTo, if_pos known, bind_run, here] at acted
    by_cases mine : target = c.val
    · simp only [if_pos mine] at acted
      obtain ⟨u, _, yielded, done⟩ := ran_of_bind acted
      cases done
      have apart := Kernel.keepsTo_yield _ _ _ yielded ready
      refine ⟨⟨fun d other => apart.board.cores d other, apart.board.enabled, apart.board.timers,
        fun d other => ?_, fun d _ => by rw [apart.queues]⟩, .rests apart.storage⟩
      rw [apart.board.called d other]
      simp [calls, mine, other.symm]
    · simp only [if_neg mine] at acted
      cases acted
      refine ⟨⟨fun _ _ => rfl, fun _ _ => rfl, fun _ _ => rfl, fun d _ => ?_, fun _ _ => rfl⟩,
        .rests .refl⟩
      simp only [calls, known, true_and]
      exact Machine.isCalled_raiseIpi _ _ _
  · rw [Kernel.yieldTo, if_neg known] at acted
    cases acted
    refine ⟨⟨fun _ _ => rfl, fun _ _ => rfl, fun _ _ => rfl, fun d _ => ?_, fun _ _ => rfl⟩,
      .rests .refl⟩
    simp [calls, known]

/-- A start orders the other cores to enter their first tasks, and requests them. -/
theorem confined_start (ready : k.board.Ready c) (ran : start.perform k = .ok answer k') :
    start.Confined k k' c ∧ start.Hands k k' c answer := by
  obtain ⟨r, started, rfl⟩ := ran_of_return (f := some) ran
  obtain ⟨b₁, b₂, ticking, released, runs⟩ := Callouts.start_run ready.known ready.executing
  have apart₀ := Board.keepsTo_disable _ _ _ (Board.disable_run k.board) ready
  have apart₁ := apart₀.trans (Board.keepsTo_tickStart _ _ _ ticking apart₀.ready)
  obtain ⟨b₂', released', executing, identity, enabled, cores⟩ :=
    Board.releaseOthers_run c (List.finRange n) b₁
  cases released.symm.trans released'
  obtain ⟨timers, called⟩ := Board.releaseOthers_called released
  have ready₂ : b₂.Ready c :=
    ⟨executing.trans apart₁.ready.executing, identity.trans apart₁.ready.known⟩
  rw [runs] at started
  have apart₂ := Board.apart_of_put ready₂ { b₂.cores.get c with pending := .idle, nesting := 0 }
  obtain ⟨restored, entered, scheduler⟩ := Kernel.enterFirst_keeps apart₂.ready started
  have after := apart₂.trans entered
  refine ⟨⟨fun d other => ?_, fun d other => ?_, fun d other => ?_, fun d other => ?_,
    fun d _ => by rw [scheduler]⟩, .enters (by rw [scheduler]) (by rw [scheduler]; exact restored)⟩
  · rw [after.cores d other, cores, apart₁.cores d other]
    simp [other]
  · rw [after.enabled d other, enabled, apart₁.enabled d other]
  · rw [after.timers d other, timers, apart₁.timers d other]
  · have apart : d ≠ c := by
      rintro rfl
      exact other rfl
    rw [after.called d other, called, calls, Bool.or_true, Bool.or_eq_true]
    exact .inr (List.any_eq_true.mpr ⟨d, List.mem_finRange d, by simp [apart]⟩)

/-- The end of an interrupt restores a task at most, and saves one before. -/
theorem confined_endInterrupt (ready : k.board.Ready c)
    (ran : endInterrupt.perform k = .ok answer k') :
    endInterrupt.Confined k k' c ∧ endInterrupt.Hands k k' c answer := by
  have lowered (core : Core) := Board.apart_of_put ready core
  have notStart : endInterrupt ≠ .start := by simp
  have silent (d : CoreId) : endInterrupt.calls n d = false := rfl
  have mine := ready.executing
  by_cases zero : (k.board.cores.get c).interruptDepth = 0
  · rw [perform_endInterrupt, Kernel.endInterrupt_run_zero ready.known mine zero] at ran
    cases ran
  by_cases outermost : (k.board.cores.get c).interruptDepth = 1
  · rw [perform_endInterrupt, Kernel.endInterrupt_run_outermost ready.known mine outermost] at ran
    cases asked : (k.board.cores.get c).pending with
    | idle =>
      rw [asked] at ran
      cases ran
      exact ⟨confined_of_apart notStart silent (lowered _) fun _ _ => rfl, .rests .refl⟩
    | switch =>
      rw [asked] at ran
      obtain ⟨r, switched, rfl⟩ := ran_of_return (f := some) ran
      obtain ⟨⟨storage, saved, restored⟩, apart, queues⟩ :=
        Kernel.switch_keeps (lowered _).ready switched
      rw [Vector.get_put_self] at saved
      exact ⟨confined_of_apart notStart silent ((lowered _).trans apart) queues,
        .switches (by subst mine; exact ⟨rfl, outermost, asked⟩) saved restored⟩
    | firstTask =>
      rw [asked] at ran
      obtain ⟨u, k₁, resets, ran⟩ := ran_of_bind ran
      have reset := Kernel.keepsTo_onBoard Board.keepsTo_resetNesting _ _ _ resets (lowered _).ready
      cases resets
      obtain ⟨r, entered, rfl⟩ := ran_of_return (f := some) ran
      obtain ⟨restored, apart, scheduler⟩ := Kernel.enterFirst_keeps reset.board.ready entered
      have board := ((lowered _).trans reset.board).trans apart
      exact ⟨confined_of_apart notStart silent board fun d _ => by rw [scheduler],
        .enters (by rw [scheduler]) (by rw [scheduler]; exact restored)⟩
  · rw [perform_endInterrupt, Kernel.endInterrupt_run_inner ready.known mine zero outermost] at ran
    cases ran
    exact ⟨confined_of_apart notStart silent (lowered _) fun _ _ => rfl, .rests .refl⟩

theorem confined_onTrap (ready : k.board.Ready c) (ran : onTrap.perform k = .ok answer k') :
    onTrap.Confined k k' c ∧ onTrap.Hands k k' c answer := by
  obtain ⟨r, switched, rfl⟩ := ran_of_return (f := some) ran
  rw [Callouts.onTrap_run _ ready.known ready.executing] at switched
  obtain ⟨⟨storage, saved, restored⟩, apart, queues⟩ := Kernel.switch_keeps ready switched
  exact ⟨confined_of_apart nofun (fun _ => rfl) apart queues, .switches rfl saved restored⟩

/-- Every call leaves the other cores as they were, but for a request. -/
theorem confined (ready : k.board.Ready c) (ran : call.perform k = .ok answer k') :
    call.Confined k k' c ∧ call.Hands k k' c answer := by
  cases call with
  | start => exact confined_start ready ran
  | onTrap => exact confined_onTrap ready ran
  | endInterrupt => exact confined_endInterrupt ready ran
  | yieldTo target => exact confined_yieldTo ready ran
  | _ => exact confined_of_own rfl ready ran

end PortCall

end Preempt
