import Preempt.Proofs.Interplay.Outcomes

/-!
No request for a switch is lost, and none is served twice. What a core does about its requests is
counted along a run (`Deed`, `Interplay.Run`), and each step of a run is one of five changes of the
core's record (`Core.Deals`), from which the counts follow.
-/

namespace Preempt

open Preempt.Action

variable {κ : Type} {n : Nat} {c : Fin n}

/-- What a core does about switches. -/
inductive Deed where
  /-- Leave the outermost interrupt. -/
  | leave
  /-- Switch at the end of an interrupt. -/
  | switch
  /-- Hand a switch on to the trap. -/
  | handOn
  /-- Switch in the trap. -/
  | trap
  /-- Run the engine, for a switch or a first task. -/
  | engage
deriving DecidableEq

namespace Interplay

/-- The choices of the scheduler that the trace shows for a core. -/
def selections (w : Interplay κ n) (c : Fin n) : Nat :=
  (w.kernel.board.engineSteps c).count .select

variable [SwitchPrimitives κ]

/-- The end of an interrupt would answer that it has handed a switch on. -/
def handsOn (w : Interplay κ n) (c : Fin n) : Bool :=
  match Kernel.endInterruptHandingOn (w.turn c) with
  | .ok handedOn _ => handedOn
  | .error _ _ => false

/-- What core `c` does in a step from `w` to `w'`. -/
def Does (w w' : Interplay κ n) (m : Option (Move n)) (c : Fin n) : Deed → Prop
  | .leave => (m = some (.start c .endInterrupt) ∨ m = some (.start c .endInterruptHandingOn)) ∧
      (w.core c).interruptDepth = 1
  | .switch => m = some (.start c .endInterrupt) ∧ w.selections c < w'.selections c
  | .handOn => m = some (.start c .endInterruptHandingOn) ∧ w.handsOn c = true
  | .trap => m = some (.start c .onTrap)
  | .engage => w'.kernel.board.engineSteps c ≠ w.kernel.board.engineSteps c

instance (w w' : Interplay κ n) (m : Option (Move n)) (c : Fin n) :
    (deed : Deed) → Decidable (w.Does w' m c deed)
  | .leave | .switch | .handOn => inferInstanceAs (Decidable (_ ∧ _))
  | .trap => inferInstanceAs (Decidable (m = _))
  | .engage => inferInstanceAs (Decidable (¬_))

/-- A run from `w` on that keeps to a rule, with how often core `c` does what on it. -/
inductive Run (rule : Interplay κ n → Option (Move n) → Prop) (c : Fin n) (w : Interplay κ n) :
    (Deed → Nat) → Interplay κ n → Prop
  | refl : Run rule c w (fun _ => 0) w
  | step {done : Deed → Nat} {w₁ w₂ : Interplay κ n} {m : Option (Move n)}
      (before : Run rule c w done w₁) (step : w₁.Step m w₂) (keeps : rule w₁ m) :
      Run rule c w (fun deed => done deed + if w₁.Does w₂ m c deed then 1 else 0) w₂

end Interplay

namespace Core

/-- What a step does to the record of a core, with what the core does about switches. -/
inductive Deals (core core' : Core) (does : Deed → Prop) : Prop
  | calm (asks : core.Asks core')
      (only : ∀ deed, does deed → deed = .leave ∧ core.pending ≠ .switch)
  | switched (asked : core.pending = .switch) (taken : core'.pending = .idle)
      (requests : core'.requests = core.requests) (switches : core'.switches = core.switches + 1)
      (does_iff : ∀ deed, does deed ↔ deed ∈ [.leave, .switch, .engage])
  | handedOn (asked : core.pending = .switch) (taken : core'.pending = .idle)
      (requests : core'.requests = core.requests) (switches : core'.switches = core.switches)
      (does_iff : ∀ deed, does deed ↔ deed ∈ [.leave, .handOn])
  | trapped (pending : core'.pending = core.pending) (requests : core'.requests = core.requests)
      (switches : core'.switches = core.switches + 1)
      (does_iff : ∀ deed, does deed ↔ deed ∈ [.trap, .engage])
  | entered (called : core.pending = .firstTask) (taken : core'.pending = .idle)
      (requests : core'.requests = core.requests) (switches : core'.switches = core.switches)
      (does_iff : ∀ deed, does deed ↔ deed ∈ [.leave, .engage])

/-- The requests of a core that wait for the end of its outermost interrupt. -/
def waiting (core : Core) : Nat := if core.pending = .switch then 1 else 0

variable {core core' : Core} {does : Deed → Prop} [DecidablePred does]

/-- A request that comes up in a step waits, and one that waits no longer is dealt with. -/
theorem Deals.requests (deals : core.Deals core' does) :
    core'.requests + .ofNat core.waiting = core.requests + .ofNat
      ((if does .switch then 1 else 0) + (if does .handOn then 1 else 0) + core'.waiting) := by
  cases deals with
  | calm asks only =>
    have noSwitch : ¬does .switch := fun did => Deed.noConfusion (only _ did).1
    have noHandOn : ¬does .handOn := fun did => Deed.noConfusion (only _ did).1
    rcases asks.asked with ⟨pending, requests⟩ | ⟨idle, switch, requests⟩
    · simp [waiting, noSwitch, noHandOn, pending, requests]
    · simp [waiting, noSwitch, noHandOn, idle, switch, requests]
  | switched asked taken requests _ does_iff => simp [waiting, does_iff, asked, taken, requests]
  | handedOn asked taken requests _ does_iff => simp [waiting, does_iff, asked, taken, requests]
  | trapped pending requests _ does_iff => simp [waiting, does_iff, pending, requests]
  | entered called taken requests _ does_iff => simp [waiting, does_iff, called, taken, requests]

theorem Deals.switches (deals : core.Deals core' does) :
    core'.switches = core.switches + .ofNat
      ((if does .switch then 1 else 0) + (if does .trap then 1 else 0)) := by
  cases deals with
  | calm asks only =>
    have noSwitch : ¬does .switch := fun did => Deed.noConfusion (only _ did).1
    have noTrap : ¬does .trap := fun did => Deed.noConfusion (only _ did).1
    simp [noSwitch, noTrap, asks.switches]
  | switched _ _ _ switches does_iff => simp [does_iff, switches]
  | handedOn _ _ _ switches does_iff => simp [does_iff, switches]
  | trapped _ _ switches does_iff => simp [does_iff, switches]
  | entered _ _ _ switches does_iff => simp [does_iff, switches]

omit [DecidablePred does] in
/-- A request waits until the core leaves its outermost interrupt. -/
theorem Deals.waits (deals : core.Deals core' does) (asked : core.pending = .switch)
    (stays : ¬does .leave) :
    core'.pending = .switch ∧ core'.requests = core.requests ∧ ¬does .switch ∧ ¬does .handOn := by
  cases deals with
  | calm asks only =>
    have never {deed : Deed} : ¬does deed := fun did => stays ((only deed did).1 ▸ did)
    rcases asks.asked with ⟨pending, requests⟩ | ⟨idle, _⟩
    · exact ⟨pending.trans asked, requests, never, never⟩
    · rw [asked] at idle
      cases idle
  | switched _ _ _ _ does_iff | handedOn _ _ _ _ does_iff | entered _ _ _ _ does_iff =>
    exact absurd ((does_iff _).mpr (by simp)) stays
  | trapped pending requests _ does_iff =>
    exact ⟨pending.trans asked, requests, by simp [does_iff], by simp [does_iff]⟩

omit [DecidablePred does] in
/-- There the core switches or hands the switch on, and is not asked any more. -/
theorem Deals.serves (deals : core.Deals core' does) (asked : core.pending = .switch)
    (leaves : does .leave) : core'.pending = .idle ∧ (does .switch ∨ does .handOn) := by
  cases deals with
  | calm _ only => exact absurd asked (only _ leaves).2
  | switched _ taken _ _ does_iff => exact ⟨taken, .inl (by simp [does_iff])⟩
  | handedOn _ taken _ _ does_iff => exact ⟨taken, .inr (by simp [does_iff])⟩
  | trapped _ _ _ does_iff => simp [does_iff] at leaves
  | entered called =>
    rw [asked] at called
    cases called

end Core

namespace Interplay

variable [SwitchPrimitives κ] {w w' : Interplay κ n} {m : Option (Move n)} {call : PortCall}
  {k : Kernel κ n} {d : Fin n}

/-- A step that is no call of core `c` leaves it alone. -/
theorem deals_of_same (core : k.board.cores.get c = w.core c)
    (steps : k.board.engineSteps c = w.kernel.board.engineSteps c)
    (other : ∀ call, m ≠ some (.start c call)) (kernel : w'.kernel = k) :
    (w.core c).Deals (w'.core c) (w.Does w' m c) := by
  subst kernel
  refine .calm (.of_eq (congrArg _ core) (congrArg _ core) (congrArg _ core) (congrArg _ core))
    fun deed did => ?_
  cases deed with
  | leave => rcases did.1 with is | is <;> exact absurd is (other _)
  | switch | handOn => exact absurd did.1 (other _)
  | trap => exact absurd did (other _)
  | engage => exact absurd steps did

theorem handsOn_iff {handedOn : Bool} (known : w.kernel.board.machine.identity = none)
    (ran : Kernel.endInterruptHandingOn (w.turn c) = .ok handedOn k) : w.handsOn c = true ↔
      (w.core c).interruptDepth = 1 ∧ (w.core c).pending = .switch := by
  have answers := Kernel.handOn_answers (ready_turn known c) ran
  rw [handsOn, ran]
  exact answers

/-! A call of core `c`, and what the core has done with it. -/

section Calls

theorem deals_of_advances (known : w.kernel.board.machine.identity = none)
    (calm : ¬call.Engages (w.turn c)) {locking : Bool}
    (advances : (w.turn c).Advances c locking w'.kernel)
    (answered : call = .endInterruptHandingOn →
      ∃ handedOn, Kernel.endInterruptHandingOn (w.turn c) = .ok handedOn w'.kernel) :
    (w.core c).Deals (w'.core c) (w.Does w' (some (.start c call)) c) := by
  have steps : w'.kernel.board.engineSteps c = w.kernel.board.engineSteps c :=
    advances.board.steps c
  refine .calm advances.board.asks fun deed did => ?_
  cases deed with
  | leave =>
    obtain ⟨is, outermost⟩ := did
    refine ⟨rfl, fun asked => calm ?_⟩
    rcases is with is | is
    · cases is
      exact .inl ⟨0, rfl, outermost, asked⟩
    · cases is
      exact .inr (.inr ⟨rfl, outermost, asked⟩)
  | switch =>
    have more := did.2
    rw [selections, selections, steps] at more
    exact absurd more (Nat.lt_irrefl _)
  | handOn =>
    obtain ⟨is, hands⟩ := did
    cases is
    obtain ⟨handedOn, ran⟩ := answered rfl
    exact absurd (.inr (.inr ⟨rfl, (handsOn_iff known ran).mp hands⟩)) calm
  | trap =>
    cases did
    exact absurd (.inl ⟨Settings.trapDepth, rfl⟩) calm
  | engage => exact absurd steps did

theorem deals_of_handsOn {handedOn : Bool} (known : w.kernel.board.machine.identity = none)
    (hands : PortCall.endInterruptHandingOn.HandsOn (w.turn c))
    (handed : (w.turn c).HandedOn w'.kernel c)
    (ran : Kernel.endInterruptHandingOn (w.turn c) = .ok handedOn w'.kernel) :
    (w.core c).Deals (w'.core c) (w.Does w' (some (.start c .endInterruptHandingOn)) c) := by
  obtain ⟨_, outermost, asked⟩ := hands
  have own : w'.core c = { w.core c with interruptDepth := 0, pending := .idle } :=
    (congrArg (Vector.get · c) handed.cores).trans (Vector.get_put_self _ c _)
  have steps : w'.kernel.board.engineSteps c = w.kernel.board.engineSteps c := handed.steps c
  refine .handedOn asked (by rw [own]) (by rw [own]) (by rw [own]) fun deed => ?_
  have hands := (handsOn_iff known ran).mpr ⟨outermost, asked⟩
  have outermost : (w.core c).interruptDepth = 1 := outermost
  cases deed <;> simp [Does, hands, outermost, steps]

omit [SwitchPrimitives κ] in
/-- A switch is one choice of the scheduler more. -/
theorem selections_lt {pending : Pending} (switched : (w.turn c).Switched w'.kernel c pending) :
    w'.kernel.board.engineSteps c ≠ w.kernel.board.engineSteps c ∧
      w.selections c < w'.selections c := by
  have steps : w'.kernel.board.engineSteps c =
      w.kernel.board.engineSteps c ++ (w.turn c).switchSteps c :=
    (switched.steps c).trans (by rw [if_pos rfl]; rfl)
  constructor
  · simp [steps, Kernel.switchSteps]
  · rw [selections, selections, steps, List.count_append]
    simp [Kernel.switchSteps]

theorem deals_of_switches {depth : TrapDepth} {pending : Pending}
    (switches : call.Switches (w.turn c) depth)
    (left : pending = if call = .endInterrupt then .idle else (w.core c).pending)
    (switched : (w.turn c).Switched w'.kernel c pending) :
    (w.core c).Deals (w'.core c) (w.Does w' (some (.start c call)) c) := by
  obtain ⟨engaged, selected⟩ := selections_lt switched
  cases call with
  | onTrap =>
    refine .trapped (switched.pending.trans left) switched.requests switched.switches
      fun deed => ?_
    cases deed <;> simp [Does, engaged]
  | endInterrupt =>
    obtain ⟨_, outermost, asked⟩ := switches
    refine .switched asked (switched.pending.trans left) switched.requests switched.switches
      fun deed => ?_
    have outermost : (w.core c).interruptDepth = 1 := outermost
    cases deed <;> simp [Does, engaged, selected, outermost]
  | _ => exact absurd switches id

theorem deals_of_enters {starting : Prop} [Decidable starting] (entry : call.Enters (w.turn c))
    (going : call ≠ .start) (entered : (w.turn c).Entered w'.kernel c starting) :
    (w.core c).Deals (w'.core c) (w.Does w' (some (.start c call)) c) := by
  have steps : w'.kernel.board.engineSteps c =
      w.kernel.board.engineSteps c ++ [.restore (w.kernel.scheduler.current c)] :=
    (entered.steps c).trans (by rw [if_pos rfl]; rfl)
  have engaged : w'.kernel.board.engineSteps c ≠ w.kernel.board.engineSteps c := by simp [steps]
  have unselected : w'.selections c = w.selections c := by
    rw [selections, selections, steps, List.count_append]
    simp
  cases call with
  | start => exact absurd rfl going
  | endInterrupt =>
    obtain ⟨outermost, called⟩ := entry
    refine .entered called entered.pending entered.requests entered.switches fun deed => ?_
    have outermost : (w.core c).interruptDepth = 1 := outermost
    cases deed <;> simp [Does, engaged, unselected, outermost]
  | _ => exact absurd entry id

theorem deals_of_outcome (known : w.kernel.board.machine.identity = none)
    (outcome : call.Outcome (w.turn c) w'.kernel c) (going : call ≠ .start)
    (answered : call = .endInterruptHandingOn →
      ∃ handedOn, Kernel.endInterruptHandingOn (w.turn c) = .ok handedOn w'.kernel) :
    (w.core c).Deals (w'.core c) (w.Does w' (some (.start c call)) c) := by
  cases outcome with
  | advances calm advances => exact deals_of_advances known calm advances answered
  | handsOn hands handed =>
    have handing := hands.1
    subst handing
    obtain ⟨handedOn, ran⟩ := answered rfl
    exact deals_of_handsOn known hands handed ran
  | switches switches left switched => exact deals_of_switches switches left switched
  | enters entry entered => exact deals_of_enters entry going entered

end Calls

theorem Step.deals (step : w.Step m w') (once : w.Once m) (orderly : w.Orderly) (going : w.Going)
    (c : Fin n) :
    (w.core c).Deals (w'.core c) (w.Does w' m c) := by
  cases step with
  | aside spares =>
    exact deals_of_same (congrArg (Vector.get · c) spares.cores) (spares.steps c) nofun rfl
  | @move m stance k allowed ran =>
    have outcome := orderly.outcome ran
    cases outcome with
    | @proceed d _ advances =>
      refine .calm ?_ fun deed did => ?_
      · by_cases here : c = d
        · subst here
          exact advances.board.asks
        · have same := advances.board.others c here
          exact .of_eq (congrArg _ same) (congrArg _ same) (congrArg _ same) (congrArg _ same)
      · cases deed with
        | leave => rcases did.1 with is | is <;> cases is
        | switch | handOn => cases did.1
        | trap => cases did
        | engage => exact absurd (advances.board.steps c) did
    | @start d call _ outcome =>
      have started : call ≠ .start := by
        intro starts
        obtain ⟨e, running⟩ := going
        rw [once d (by rw [starts]) e] at running
        cases running
      by_cases here : c = d
      · subst here
        refine deals_of_outcome orderly.known outcome started fun is => ?_
        subst is
        obtain ⟨_, performed, _⟩ := ran_of_return (f := fun _ => Stance.outside) ran
        obtain ⟨handedOn, handed, _⟩ := ran_of_return (f := fun _ => none) performed
        exact ⟨handedOn, handed⟩
      · obtain ⟨core, steps⟩ := outcome.apart started here
        exact deals_of_same core steps
          (fun _ is => here (Move.start.inj (Option.some.inj is)).1.symm) rfl

/-- The start of the scheduler leaves no core with a request for a switch. -/
theorem Step.starts {s : Fin n} (step : w.Step (some (.start s .start)) w') (orderly : w.Orderly) :
    w'.Going ∧ ∀ c, (w'.core c).pending ≠ .switch := by
  cases step with
  | move allowed ran =>
    cases orderly.outcome ran with
    | start outcome =>
      cases outcome with
      | advances calm => exact absurd (.inr (.inl trivial)) calm
      | handsOn hands => cases hands.1
      | switches switches => exact absurd switches id
      | enters _ entered =>
        refine ⟨⟨s, entered.state⟩, fun c => ?_⟩
        by_cases here : c = s
        · subst here
          exact entered.pending.trans_ne Pending.noConfusion
        · have called := entered.others c here
          rw [if_pos rfl] at called
          exact (congrArg Core.pending called).trans_ne Pending.noConfusion

variable {rule : Interplay κ n → Option (Move n) → Prop} {w₀ w₁ w₂ : Interplay κ n}
  {done : Deed → Nat}

theorem Run.orderly (run : Run rule c w done w') (before : w.Orderly) : w'.Orderly := by
  induction run with
  | refl => exact before
  | step _ step _ ih => exact step.orderly ih

theorem Run.of_moves {moves : List (Move n)} (run : Run Once c w done w₁)
    (made : moves.foldlM make? w₁ = some w') : ∃ done', Run Once c w done' w' := by
  have keeps (w₂ : Interplay κ n) (m : Move n) (w₃ : Interplay κ n) (first : w₂.make? m = some w₃) :
      (∃ done', Run Once c w done' w₂) → ∃ done', Run Once c w done' w₃ := by
    rintro ⟨done', run⟩
    exact ⟨_, run.step (.of_make? first) (.of_make? first)⟩
  exact Action.foldlM_keeps keeps made ⟨done, run⟩

theorem Run.going (run : Run rule c w done w') (orderly : w.Orderly) (going : w.Going) :
    w'.Going := by
  induction run with
  | refl => exact going
  | step run step _ ih => exact step.going (run.orderly orderly) ih

theorem Run.counts (run : Run Once c w done w') (orderly : w.Orderly) (going : w.Going) :
    (w'.core c).requests + .ofNat (w.core c).waiting =
        (w.core c).requests + .ofNat (done .switch + done .handOn + (w'.core c).waiting) ∧
      (w'.core c).switches = (w.core c).switches + .ofNat (done .switch + done .trap) := by
  induction run with
  | refl => simp
  | @step done w₁ w₂ m run step once ih =>
    obtain ⟨requests, switches⟩ := ih
    have deals := step.deals once (run.orderly orderly) (run.going orderly going) c
    have requested := deals.requests
    have switched := deals.switches
    simp only [UInt32.ofNat_add] at requests switches requested switched ⊢
    constructor
    · grind
    · grind

theorem Run.waits (run : Run Once c w done w') (orderly : w.Orderly) (going : w.Going)
    (asked : (w.core c).pending = .switch) (stays : done .leave = 0) :
    (w'.core c).pending = .switch ∧ (w'.core c).requests = (w.core c).requests ∧
      done .switch = 0 ∧ done .handOn = 0 := by
  induction run with
  | refl => exact ⟨asked, rfl, rfl, rfl⟩
  | @step done w₁ w₂ m run step once ih =>
    obtain ⟨earlier, now⟩ := Nat.add_eq_zero_iff.mp stays
    obtain ⟨pending, requests, switch, handOn⟩ := ih earlier
    have deals := step.deals once (run.orderly orderly) (run.going orderly going) c
    have inside : ¬w₁.Does w₂ m c .leave := fun leaves => by simp [leaves] at now
    obtain ⟨pending', requests', noSwitch, noHandOn⟩ := deals.waits pending inside
    simp [pending', requests', requests, switch, handOn, noSwitch, noHandOn]

/-- Once the scheduler is started, each request of a core for a switch is dealt with once: by a
switch at the end of an interrupt or by handing it on, but for one that still waits. Switches are
counted at the end of interrupts and in traps. A fresh request waits for the end of the outermost
interrupt of its core, whatever happens until then, and is dealt with there. -/
theorem Reached.requests_conserved {s : Fin n} (reached : w₀.Reached Once)
    (starts : w₀.Step (some (.start s .start)) w₁) (run : Run Once c w₁ done w) :
    (w.core c).requests = (w₁.core c).requests +
        .ofNat (done .switch + done .handOn + (w.core c).waiting) ∧
    (w.core c).switches = (w₁.core c).switches + .ofNat (done .switch + done .trap) ∧
    ∀ m w₂, w.Step m w₂ → w.Once m → (w.core c).pending = .idle → (w₂.core c).pending = .switch →
      ∀ done' w₃, Run Once c w₂ done' w₃ → done' .leave = 0 →
        ((w₃.core c).pending = .switch ∧ (w₃.core c).requests = (w₂.core c).requests ∧
          done' .switch = 0 ∧ done' .handOn = 0) ∧
        ∀ m' w₄, w₃.Step m' w₄ → w₃.Once m' → w₃.Does w₄ m' c .leave →
          (w₄.core c).pending = .idle ∧ (w₃.Does w₄ m' c .switch ∨ w₃.Does w₄ m' c .handOn) := by
  obtain ⟨going, unasked⟩ := starts.starts reached.orderly
  have after : w₁.Orderly := starts.orderly reached.orderly
  obtain ⟨requests, switches⟩ := run.counts after going
  have none : (w₁.core c).waiting = 0 := if_neg (unasked c)
  rw [none] at requests
  refine ⟨by simpa using requests, switches, fun m w₂ step _ _ asked done' w₃ later stays => ?_⟩
  have orderly₂ : w₂.Orderly := step.orderly (run.orderly after)
  have going₂ : w₂.Going := step.going (run.orderly after) (run.going after going)
  have waits := later.waits orderly₂ going₂ asked stays
  refine ⟨waits, fun m' w₄ step once leaves => ?_⟩
  have deals := step.deals once (later.orderly orderly₂) (later.going orderly₂ going₂) c
  exact deals.serves waits.1 leaves

omit [SwitchPrimitives κ] in
/-- Core 0 is asked for a switch within an interrupt, and switches at its end. -/
theorem Reached.requests_conserved_one_request :
    ∃ (w w₂ w₄ : Interplay (Banks 8 2) 2), w.Reached Once ∧ w.Step (some (.proceed 0)) w₂ ∧
      (w.core 0).pending = .idle ∧ (w₂.core 0).pending = .switch ∧
      w₂.Step (some (.start 0 .endInterrupt)) w₄ ∧ (w₄.core 0).pending = .idle := by
  obtain ⟨w₀, reached, passes⟩ := Reached.of_twoCores? []
    (fun w₀ => (w₀.make? (.start 0 .start)).any fun w₁ =>
      (List.foldlM make? w₁ [.start 0 .beginInterrupt, .start 0 .onIpi, .proceed 0]).any fun w =>
        (w.make? (.proceed 0)).any fun w₂ => (w₂.make? (.start 0 .endInterrupt)).any fun _ =>
          decide ((w.core 0).pending = .idle ∧ (w₂.core 0).pending = .switch ∧
            (w₂.core 0).interruptDepth = 1)) (by decide +kernel)
  obtain ⟨w₁, starts, passes⟩ := (Option.any_eq_true ..).mp passes
  obtain ⟨w, moved, passes⟩ := (Option.any_eq_true ..).mp passes
  obtain ⟨w₂, asks, passes⟩ := (Option.any_eq_true ..).mp passes
  obtain ⟨w₄, leaves, passes⟩ := (Option.any_eq_true ..).mp passes
  obtain ⟨idle, asked, outermost⟩ := of_decide_eq_true passes
  obtain ⟨done, run⟩ := Run.of_moves .refl moved
  obtain ⟨_, _, served⟩ := requests_conserved reached (.of_make? starts) run
  obtain ⟨_, taken⟩ := served _ w₂ (.of_make? asks) (.of_make? asks) idle asked _ w₂ .refl rfl
  exact ⟨w, w₂, w₄, (reached.step (.of_make? starts) (.of_make? starts)).of_moves moved,
    .of_make? asks, idle, asked, .of_make? leaves,
    (taken _ w₄ (.of_make? leaves) (.of_make? leaves) ⟨.inl rfl, outermost⟩).1⟩

end Interplay

end Preempt
