import Preempt.Proofs.Halting

/-!
Bring-up. A core boots with interrupts masked and a nesting that the sections it opens and closes
never bring to zero. Once some core has started the scheduler, every core that was not started waits
for its first task, until it enters it at the end of its own outermost interrupt, and it enters one
only once.
-/

namespace Preempt

open Function (update)

variable {κ : Type} {n : Nat}

/-- How far bring-up has come: whether the scheduler was started, and for each core the sections
that it has open while it was not started, and the first tasks that it has entered. -/
structure BringUp (n : Nat) where
  started : Bool := false
  opens : Fin n → Nat := fun _ => 0
  entries : Fin n → Nat := fun _ => 0

instance PortCall.decidableEnters (call : PortCall) (k : Kernel κ n) : Decidable (call.Enters k) :=
  match call with
  | start => inferInstanceAs (Decidable True)
  | endInterrupt => inferInstanceAs (Decidable (_ ∧ _))
  | stop | enterCritical | exitCritical | lock _ | unlock _ | lockShared | yield | onTrap
  | yieldTo _ | beginInterrupt | onTick | onIpi | endInterruptHandingOn =>
    inferInstanceAs (Decidable False)

/-- The sections of core `c` after a call on it. -/
def PortCall.opens (call : PortCall) (c : Fin n) (opens : Fin n → Nat) : Fin n → Nat :=
  match call with
  | enterCritical => update opens c (opens c + 1)
  | exitCritical => update opens c (opens c - 1)
  | _ => opens

namespace BringUp

def after (p : BringUp n) (call : PortCall) (k : Kernel κ n) : BringUp n :=
  let c := k.board.machine.executing
  { started := p.started || call = .start
    opens := if (k.board.cores.get c).state = .notStarted then call.opens c p.opens else p.opens
    entries := if call.Enters k then update p.entries c (p.entries c + 1) else p.entries }

/-- A core that was not started closes only sections that it has opened, of which it has fewer than
`2 ^ 30`. -/
def tally : Contexts.Tally κ n (BringUp n) where
  initial := {}
  created _ p := p
  called call k p := p.after call k
  admits call _ k p :=
    let c := k.board.machine.executing
    (k.board.cores.get c).state = .notStarted →
      (call = .exitCritical → 0 < p.opens c) ∧ (call = .enterCritical → p.opens c + 1 < 2 ^ 30)

end BringUp

namespace Kernel

/-- Core `c` was not started, is masked and has as many sections open. -/
structure Boots (k : Kernel κ n) (c : Fin n) (opens : Nat) : Prop where
  state : (k.board.cores.get c).state = .notStarted
  mask : k.board.machine.enabled.get c = false
  depth : (k.board.cores.get c).nesting.toNat = Settings.bootNesting.toNat + opens
  few : opens < 2 ^ 30

/-- A core boots, waits for its first task, and runs. -/
inductive Stage (k : Kernel κ n) (c : Fin n) (opens : Nat) : Bool → Nat → Prop
  | boots (boots : k.Boots c opens) (calm : (k.board.cores.get c).pending ≠ .firstTask) :
      Stage k c opens false 0
  | waits (boots : k.Boots c opens) (called : (k.board.cores.get c).pending = .firstTask) :
      Stage k c opens true 0
  | runs (running : (k.board.cores.get c).state = .running) : Stage k c opens true 1

/-- Core `c` is to enter its first task, and is masked until it does. -/
structure Awaits (k : Kernel κ n) (c : Fin n) : Prop where
  state : (k.board.cores.get c).state = .notStarted
  called : (k.board.cores.get c).pending = .firstTask
  mask : k.board.machine.enabled.get c = false
  nested : (k.board.cores.get c).nesting ≠ 0

variable {k k' : Kernel κ n} {c : Fin n} {opens : Nat} {started : Bool} {entries : Nat}

theorem toNat_bootNesting : Settings.bootNesting.toNat = 2863311530 := rfl

theorem Boots.nested (boots : k.Boots c opens) : (k.board.cores.get c).nesting ≠ 0 := by
  intro zero
  have depth := boots.depth
  rw [zero, toNat_bootNesting, UInt32.toNat_zero] at depth
  omega

theorem Boots.congr (boots : k.Boots c opens)
    (state : (k'.board.cores.get c).state = (k.board.cores.get c).state)
    (nesting : (k'.board.cores.get c).nesting = (k.board.cores.get c).nesting)
    (enabled : k'.board.machine.enabled.get c = k.board.machine.enabled.get c) :
    k'.Boots c opens := by
  refine ⟨state.trans boots.state, enabled.trans boots.mask, ?_, boots.few⟩
  rw [nesting]
  exact boots.depth

theorem Stage.congr (stage : k.Stage c opens started entries)
    (state : (k'.board.cores.get c).state = (k.board.cores.get c).state)
    (nesting : (k'.board.cores.get c).nesting = (k.board.cores.get c).nesting)
    (enabled : k'.board.machine.enabled.get c = k.board.machine.enabled.get c)
    (pending : (k'.board.cores.get c).pending = .firstTask ↔
      (k.board.cores.get c).pending = .firstTask) : k'.Stage c opens started entries := by
  cases stage with
  | boots boots calm =>
    exact .boots (boots.congr state nesting enabled) fun waits => calm (pending.mp waits)
  | waits boots called => exact .waits (boots.congr state nesting enabled) (pending.mpr called)
  | runs running => exact .runs (state.trans running)

/-- A core that is told to enter its first task waits, unless it runs one. -/
theorem Stage.called (stage : k.Stage c opens started entries)
    (state : (k'.board.cores.get c).state = (k.board.cores.get c).state)
    (nesting : (k'.board.cores.get c).nesting = (k.board.cores.get c).nesting)
    (enabled : k'.board.machine.enabled.get c = k.board.machine.enabled.get c)
    (pending : (k'.board.cores.get c).pending = .firstTask) : k'.Stage c opens true entries := by
  cases stage with
  | boots boots calm => exact .waits (boots.congr state nesting enabled) pending
  | waits boots called => exact .waits (boots.congr state nesting enabled) pending
  | runs running => exact .runs (state.trans running)

/-- A core that was not started enters a task when it starts the scheduler or was told to. -/
theorem Stage.enters {opens' : Nat} {now : Bool} (stage : k.Stage c opens started entries)
    (stopped : (k.board.cores.get c).state = .notStarted)
    (told : now = true ∨ (k.board.cores.get c).pending = .firstTask)
    (running : (k'.board.cores.get c).state = .running) :
    k'.Stage c opens' (started || now) (entries + 1) := by
  cases stage with
  | boots _ calm =>
    rw [told.resolve_right calm]
    exact .runs running
  | waits => exact .runs running
  | runs started =>
    rw [started] at stopped
    cases stopped

theorem Stage.goesOn {opens' : Nat} (stage : k.Stage c opens started entries)
    (running : (k.board.cores.get c).state = .running)
    (running' : (k'.board.cores.get c).state = .running) :
    k'.Stage c opens' started entries := by
  cases stage with
  | boots boots | waits boots =>
    rw [boots.state] at running
    cases running
  | runs => exact .runs running'

/-- The sections of core `c` change, and all the rest of it stays. -/
theorem Stage.nests {depth : UInt32} {on : Bool} {opens' : Nat}
    (stage : k.Stage c opens started entries) (nests : k.Nests k' c depth on)
    (counts : k.Boots c opens →
      on = false ∧ depth.toNat = Settings.bootNesting.toNat + opens' ∧ opens' < 2 ^ 30) :
    k'.Stage c (if (k.board.cores.get c).state = .notStarted then opens' else opens) started
      entries := by
  obtain ⟨state, pending⟩ := nests.core c
  have booting (boots : k.Boots c opens) : k'.Boots c opens' := by
    obtain ⟨masked, counted, few⟩ := counts boots
    refine ⟨state.trans boots.state, ?_, ?_, few⟩
    · rw [nests.enabled, Vector.get_put_self]
      exact masked
    · rw [nests.cores, Vector.get_put_self]
      exact counted
  cases stage with
  | boots boots calm =>
    rw [if_pos boots.state]
    exact .boots (booting boots) (by rw [pending]; exact calm)
  | waits boots called =>
    rw [if_pos boots.state]
    exact .waits (booting boots) (by rw [pending]; exact called)
  | runs running => exact .runs (state.trans running)

theorem Stage.masked (stage : k.Stage c opens started entries)
    (stopped : (k.board.cores.get c).state = .notStarted) :
    k.board.machine.enabled.get c = false ∧ (k.board.cores.get c).nesting ≠ 0 := by
  cases stage with
  | boots boots | waits boots => exact ⟨boots.mask, boots.nested⟩
  | runs running =>
    rw [running] at stopped
    cases stopped

theorem Stage.stopped (stage : k.Stage c opens false entries) :
    (k.board.cores.get c).state = .notStarted := by
  cases stage with
  | boots boots => exact boots.state

theorem Stage.awaits (stage : k.Stage c opens true entries)
    (stopped : (k.board.cores.get c).state = .notStarted) : k.Awaits c := by
  cases stage with
  | waits boots called => exact ⟨stopped, called, boots.mask, boots.nested⟩
  | runs running =>
    rw [running] at stopped
    cases stopped

theorem Stage.started_of_awaits (stage : k.Stage c opens started entries) (awaits : k.Awaits c) :
    started = true := by
  cases stage with
  | boots _ calm => exact absurd awaits.called calm
  | waits | runs => rfl

theorem Stage.entries_le (stage : k.Stage c opens started entries) : entries ≤ 1 := by
  cases stage <;> decide

end Kernel

namespace PortCall

variable {call : PortCall}

theorem opens_of_noSection (noSection : call.isCritical = false) (c : Fin n)
    (opens : Fin n → Nat) : call.opens c opens = opens := by
  cases call with
  | enterCritical | exitCritical => cases noSection
  | _ => rfl

theorem opens_of_ne {c d : Fin n} (apart : d ≠ c) (call : PortCall) (opens : Fin n → Nat) :
    call.opens c opens d = opens d := by
  cases call with
  | enterCritical | exitCritical => exact Function.update_of_ne apart _ _
  | _ => rfl

end PortCall

namespace BringUp

variable {p : BringUp n} {call : PortCall} {k k' : Kernel κ n}

theorem after_of_noSection (noSection : call.isCritical = false) (p : BringUp n)
    (k : Kernel κ n) : (p.after call k).opens = p.opens := by
  simp only [after, PortCall.opens_of_noSection noSection, ite_self]

theorem after_of_noEntry (noEntry : ¬call.Enters k) (p : BringUp n) :
    (p.after call k).started = p.started ∧ (p.after call k).entries = p.entries := by
  have later : call ≠ .start := by
    rintro rfl
    exact noEntry trivial
  simp only [after, later, decide_false, Bool.or_false, noEntry, if_false, and_self]

theorem after_started (p : BringUp n) (call : PortCall) (k : Kernel κ n) :
    (p.after call k).started = (p.started || decide (call = .start)) := rfl

theorem after_opens_self {c : Fin n} (mine : k.board.machine.executing = c) (p : BringUp n)
    (call : PortCall) : (p.after call k).opens c =
      if (k.board.cores.get c).state = .notStarted then call.opens c p.opens c else p.opens c := by
  simp only [after, mine]
  split <;> rfl

theorem after_opens_of_ne {c : Fin n} (apart : c ≠ k.board.machine.executing) (p : BringUp n)
    (call : PortCall) : (p.after call k).opens c = p.opens c := by
  simp only [after]
  split
  · exact PortCall.opens_of_ne apart call p.opens
  · rfl

theorem after_entries_of_ne {c : Fin n} (apart : c ≠ k.board.machine.executing) (p : BringUp n)
    (call : PortCall) : (p.after call k).entries c = p.entries c := by
  simp only [after]
  split
  · exact Function.update_of_ne apart _ _
  · rfl

/-- All cores are as far as is counted. -/
def Holds (p : BringUp n) (k : Kernel κ n) : Prop :=
  ∀ c, k.Stage c (p.opens c) p.started (p.entries c)

theorem Holds.boot {core : Fin n} {boot : Kernel.Boot n} {context : κ}
    (booted : Kernel.boot core boot context = .ok k) : ({} : BringUp n).Holds k := by
  obtain ⟨rate, scheduler, _, rfl⟩ := Kernel.eq_of_boot booted
  intro c
  refine .boots ⟨?_, ?_, ?_, Nat.two_pow_pos 30⟩ ?_
  · simp
  · exact Vector.getElem_replicate c.isLt
  · simp
  · simp

theorem Holds.aside (holds : p.Holds k) (aside : k.Aside k') : p.Holds k' := fun c =>
  (holds c).congr (by rw [aside.cores]) (by rw [aside.cores]) (by rw [aside.enabled])
    (by rw [aside.cores])

/-- A core enters or leaves a section. -/
theorem Holds.nests {depth : UInt32} {on : Bool} (holds : p.Holds k) (noEntry : ¬call.Enters k)
    (nests : k.Nests k' k.board.machine.executing depth on) (d : Fin n)
    (counts : k.Boots k.board.machine.executing (p.opens k.board.machine.executing) →
      on = false ∧
      depth.toNat = Settings.bootNesting.toNat +
        call.opens k.board.machine.executing p.opens k.board.machine.executing ∧
      call.opens k.board.machine.executing p.opens k.board.machine.executing < 2 ^ 30) :
    k'.Stage d ((p.after call k).opens d) (p.after call k).started
      ((p.after call k).entries d) := by
  obtain ⟨started, entries⟩ := after_of_noEntry noEntry p
  rw [started, entries]
  by_cases here : d = k.board.machine.executing
  · rw [here, after_opens_self rfl]
    exact (holds k.board.machine.executing).nests nests counts
  · rw [after_opens_of_ne here]
    refine (holds d).congr (nests.core d).1 ?_ ?_ (by rw [(nests.core d).2])
    · rw [nests.cores, Vector.get_put_of_ne _ (Ne.symm here)]
    · rw [nests.enabled, Vector.get_put_of_ne _ (Ne.symm here)]

variable [SwitchPrimitives κ] {C : Contexts κ n} {b b' : C.Book}
  {saved answer : Option Resumption}

/-- Each call moves the cores on as it is counted. -/
theorem Holds.outcome (holds : p.Holds k) {c : Fin n} (mine : k.board.machine.executing = c)
    (outcome : C.Outcome k b c call saved answer k' b')
    (admitted : tally.admits call saved k p) : (p.after call k).Holds k' := by
  subst mine
  intro d
  cases outcome with
  | stays noSection noEntry stays =>
    obtain ⟨started, entries⟩ := after_of_noEntry noEntry p
    rw [started, entries, after_of_noSection noSection]
    exact (holds d).congr (stays.board.cores d).state (stays.board.cores d).nesting
      (by rw [stays.board.enabled]) (stays.board.cores d).waits
  | opens is nests =>
    subst is
    refine holds.nests id nests d fun boots => ?_
    have few := (admitted boots.state).2 rfl
    have depth := boots.depth
    have room : (k.board.cores.get k.board.machine.executing).nesting.toNat + 1 < 2 ^ 32 := by
      rw [depth, Kernel.toNat_bootNesting]
      omega
    rw [toNat_add_one room, PortCall.opens, Function.update_self]
    exact ⟨rfl, by omega, few⟩
  | closes is inside nests =>
    subst is
    refine holds.nests id nests d fun boots => ?_
    have matched := (admitted boots.state).1 rfl
    have left := toNat_sub_one inside
    have depth := boots.depth
    have few := boots.few
    have more : (k.board.cores.get k.board.machine.executing).nesting ≠ 1 := by
      intro last
      rw [last, Kernel.toNat_bootNesting, UInt32.toNat_one] at depth
      omega
    rw [decide_eq_false more, boots.mask, PortCall.opens, Function.update_self]
    exact ⟨rfl, by omega, by omega⟩
  | enters entry stopped left takesUp pending =>
    by_cases here : d = k.board.machine.executing
    · subst here
      have entered : (p.after call k).entries k.board.machine.executing =
          p.entries k.board.machine.executing + 1 := by
        rw [after, if_pos entry]
        exact Function.update_self _ _ _
      rw [after_started, entered]
      exact (holds k.board.machine.executing).enters stopped
        (entry.told.imp_left decide_eq_true) takesUp.runs.1
    · rw [after_opens_of_ne here, after_entries_of_ne here, after_started]
      obtain ⟨nesting, enabled⟩ := takesUp.others d here
      by_cases first : call = .start
      · rw [decide_eq_true first, Bool.or_true]
        exact (holds d).called (takesUp.states d here) nesting enabled
          ((pending d here).mpr (Or.inl first))
      · rw [decide_eq_false first, Bool.or_false]
        exact (holds d).congr (takesUp.states d here) nesting enabled
          ((pending d here).trans (or_iff_right first))
  | switches switches running nesting parked chosen takesUp pending =>
    obtain ⟨started, entries⟩ := after_of_noEntry (PortCall.not_enters_of_switches switches) p
    rw [started, entries, after_of_noSection (PortCall.noSection_of_switches switches)]
    by_cases here : d = k.board.machine.executing
    · subst here
      exact (holds k.board.machine.executing).goesOn running takesUp.runs.1
    · obtain ⟨nesting, enabled⟩ := takesUp.others d here
      exact (holds d).congr (takesUp.states d here) nesting enabled (pending d)

end BringUp

namespace Contexts

variable [SwitchPrimitives κ] {C : Contexts κ n} {k k' : Kernel κ n} {b b' : C.Book}
  {p : BringUp n} {c d : Fin n} {call : PortCall} {saved answer : Option Resumption}

/-- A core that was not started is not started by any call but its own entry of a first task. -/
theorem Outcome.notStarted (outcome : C.Outcome k b c call saved answer k' b')
    (stopped : (k.board.cores.get d).state = .notStarted) (other : c = d → ¬call.Enters k) :
    (k'.board.cores.get d).state = .notStarted := by
  rw [← stopped]
  cases outcome with
  | stays _ _ stays => exact (stays.board.cores d).state
  | opens _ nests => exact (nests.core d).1
  | closes _ _ nests => exact (nests.core d).1
  | enters entry _ _ takesUp _ => exact takesUp.states d fun same => other same.symm entry
  | switches _ running _ _ _ takesUp _ =>
    refine takesUp.states d fun same => ?_
    rw [same, running] at stopped
    cases stopped

/-- If no core without a task is asked to switch, the end of an interrupt halts only where none was
begun, or as a save or a restore does. -/
theorem Held.endInterrupt_halts {P : Halt → Prop} {e : Halt} (held : C.Held k b)
    (waits : (k.board.cores.get k.board.machine.executing).state = .notStarted →
      (k.board.cores.get k.board.machine.executing).pending = .firstTask)
    (saves : ∀ (core : CoreId) task nesting depth, Action.HaltsIn P
      (SwitchPrimitives.save core task nesting depth : StorageM κ Unit))
    (restores : ∀ (core : CoreId) task depth, Action.HaltsIn P
      (SwitchPrimitives.restore core task depth : StorageM κ Resumption))
    (halted : PortCall.endInterrupt.perform k = .error e k') :
    e = .violation .unmatchedInterruptExit ∨ P e := by
  set c := k.board.machine.executing with mine
  by_cases zero : (k.board.cores.get c).interruptDepth = 0
  · rw [PortCall.perform_endInterrupt,
      Kernel.endInterrupt_run_zero held.known mine.symm zero] at halted
    cases halted
    exact Or.inl rfl
  by_cases outermost : (k.board.cores.get c).interruptDepth = 1
  · cases pending : (k.board.cores.get c).pending with
    | idle =>
      rw [PortCall.perform_endInterrupt,
        Kernel.endInterrupt_run_outermost held.known mine.symm outermost, pending] at halted
      cases halted
    | switch =>
      have running : (k.board.cores.get c).state = .running := by
        cases state : (k.board.cores.get c).state with
        | running => rfl
        | switching => exact absurd state (held.settled c)
        | notStarted =>
          rw [waits state] at pending
          cases pending
      have asked : PortCall.endInterrupt.Switches k 0 := ⟨rfl, outermost, pending⟩
      obtain ⟨core, reached, state, _⟩ := PortCall.switches_run asked held.known mine.symm
      rw [reached] at halted
      refine Or.inr (Kernel.switch_halts ?_ ?_ (saves c · · 0) (restores c · 0)
        (Action.halted_of_return halted))
      · rw [Vector.get_put_self, state, running]
      · exact held.plain
    | firstTask =>
      have entry : PortCall.endInterrupt.Enters k := ⟨outermost, pending⟩
      obtain ⟨board, reached, _⟩ := PortCall.enters_run entry held.known mine.symm
      rw [reached] at halted
      exact Or.inr (Kernel.haltsIn_enterFirst (restores c · 0) _ _ _
        (Action.halted_of_return halted))
  · rw [PortCall.perform_endInterrupt,
      Kernel.endInterrupt_run_inner held.known mine.symm zero outermost] at halted
    cases halted

namespace Reaches

theorem bringUp (reached : C.Reaches BringUp.tally k b p) : p.Holds k := by
  induction reached with
  | boot _ booted => exact .boot booted
  | work _ aside _ ih => exact ih.aside aside
  | create before _ creates ih =>
    have aside := (C.creates before.held.holds creates).1
    simpa only [BringUp.tally, ite_self] using ih.aside aside
  | free before _ frees ih => exact ih.aside (C.frees before.held.holds frees).1
  | call before start follows admitted ran ih =>
    exact ih.outcome rfl (before.held.outcome rfl start follows ran).1 admitted

/-- On any architecture, a core that was not started is masked with a nesting that is not zero, and
once the scheduler was started it waits for its first task. No call ends this but its own that
enters the task. The end of its outermost interrupt does, if no other core runs the task: it
restores the task and saves nothing. Each core enters a first task once at most; after the start the
end of an interrupt never halts for a core that was not started, while a switch that such a core
traps for always does and saves nothing. -/
theorem cores_brought_up {a : Architecture} {k : Kernel (a.State n) n}
    {b : (a.contexts n).Book} {p : BringUp n}
    (reached : (a.contexts n).Reaches BringUp.tally k b p) :
    (p.started = false → ∀ c, (k.board.cores.get c).state = .notStarted) ∧
    (∀ c, (k.board.cores.get c).state = .notStarted →
      k.board.machine.enabled.get c = false ∧ (k.board.cores.get c).nesting ≠ 0 ∧
      (p.started = true → k.Awaits c)) ∧
    (∀ c, p.entries c ≤ 1) ∧
    (∀ c, k.Awaits c → ∀ call saved b' answer k', (call = .start → (a.contexts n).MayStart k b) →
      (a.contexts n).Follows k b call saved b' → BringUp.tally.admits call saved k p →
      call.perform k = .ok answer k' → (k.board.machine.executing = c → ¬call.Enters k) →
      k'.Awaits c) ∧
    (∀ c, k.Awaits c → k.board.machine.executing = c → (k.board.cores.get c).interruptDepth = 1 →
      k.Free c (k.scheduler.current c) → ∃ r k', PortCall.endInterrupt.perform k = .ok (some r) k' ∧
        SwitchPrimitives.restore c (k.scheduler.current c) 0 k.storage = .ok r k'.storage ∧
        k'.Runs c (k.scheduler.current c) ∧ (k'.board.cores.get c).nesting = r.nesting) ∧
    (p.started = true →
      ∀ k', PortCall.endInterrupt.perform k ≠ .error (.violation .schedulerNotStarted) k') ∧
    ((k.board.cores.get k.board.machine.executing).state = .notStarted →
      ∃ k', PortCall.onTrap.perform k = .error (.violation .schedulerNotStarted) k' ∧
        k'.storage = k.storage) := by
  have held := reached.held
  have holds := reached.bringUp
  refine ⟨fun early c => ?_, fun c stopped => ?_, fun c => (holds c).entries_le, ?_, ?_, ?_, ?_⟩
  · have stage := holds c
    rw [early] at stage
    exact stage.stopped
  · obtain ⟨masked, nested⟩ := (holds c).masked stopped
    refine ⟨masked, nested, fun started => ?_⟩
    have stage := holds c
    rw [started] at stage
    exact stage.awaits stopped
  · intro c awaits call saved b' answer k' start follows admitted ran other
    obtain ⟨outcome, _⟩ := held.outcome rfl start follows ran
    have stage := holds.outcome rfl outcome admitted c
    rw [BringUp.after_started, (holds c).started_of_awaits awaits, Bool.true_or] at stage
    exact stage.awaits (outcome.notStarted awaits.state other)
  · intro c awaits mine outermost free
    have entry : PortCall.endInterrupt.Enters k := by
      subst mine
      exact ⟨outermost, awaits.called⟩
    obtain ⟨r, k', ran, _, restored, takesUp, _⟩ := held.enters mine entry (by simp) free
    exact ⟨r, k', ran, restored, takesUp.runs, takesUp.nesting⟩
  · intro started k' halted
    have stage := holds k.board.machine.executing
    rw [started] at stage
    rcases held.endInterrupt_halts (fun stopped => (stage.awaits stopped).called) a.haltsIn_save
      a.haltsIn_restore halted with mismatch | moving
    · cases mismatch
    · exact moving
  · intro stopped
    have trap : PortCall.onTrap.Switches k Settings.trapDepth := rfl
    exact PortCall.switches_halts trap held.known rfl stopped

/-- Core 0 starts the scheduler, and core 1 takes the interrupt that brings it up. -/
theorem bringUp_passes : (match Kernel.boot (0 : Fin 2)
    { queues := #v[[0], [1]], stackSizes := #[8, 8] } ({} : Banks 4 2) with
  | .ok k₀ =>
    match Kernel.createFrom 0 (.stack 0 8) (.num 4) (.num 5) k₀ with
    | .ok (.ok ()) k₁ =>
      match Kernel.createFrom 1 (.stack 1 8) (.num 6) (.num 7) k₁ with
      | .ok (.ok ()) k₂ =>
        match PortCall.start.perform k₂ with
        | .ok (some _) k₃ =>
          match PortCall.beginInterrupt.perform { k₃ with board := { k₃.board with
              machine := { k₃.board.machine with executing := 1 } } } with
          | .ok none k₄ => decide ((∀ c, (k₀.board.cores.get c).state = .notStarted) ∧
              (k₀.storage.tasks.read? (.stack 0 6)).isSome ∧
              (k₀.storage.tasks.read? (.stack 0 7)).isSome ∧
              (∀ c, (k₁.board.cores.get c).state = .notStarted) ∧
              (k₁.storage.tasks.read? (.stack 1 6)).isSome ∧
              (k₁.storage.tasks.read? (.stack 1 7)).isSome ∧
              k₂.board.machine.executing = 0 ∧
              (∀ c, (k₂.board.cores.get c).state = .notStarted) ∧
              (∀ c, (k₂.scheduler.queues.get c).tasks = #[c.val]) ∧
              (k₄.board.cores.get 1).state = .notStarted ∧ k₄.board.machine.executing = 1 ∧
              (k₄.board.cores.get 1).interruptDepth = 1 ∧
              k₄.scheduler.current 0 ≠ k₄.scheduler.current 1)
          | _ => false
        | _ => false
      | _ => false
    | _ => false
  | _ => false) = true := by decide +kernel

/-- Core 0 of two starts the scheduler, and core 1 is in the interrupt that calls it. -/
theorem cores_brought_up_second_core :
    ∃ (k : Kernel (Banks 4 2) 2) (b : Ledger 2) (p : BringUp 2),
      (Banks.contexts (by decide)).Reaches BringUp.tally k b p ∧ p.started = true ∧ k.Awaits 1 ∧
      ∃ r k', PortCall.endInterrupt.perform k = .ok (some r) k' ∧
        k'.Runs 1 (k.scheduler.current 1) := by
  let shift (k : Kernel (Banks 4 2) 2) : Kernel (Banks 4 2) 2 :=
    { k with board := { k.board with machine := { k.board.machine with executing := 1 } } }
  obtain ⟨k₀, k₁, k₂, k₃, k₄, r, booted, first, second, started, begun, fresh, room, room',
      fresh', low, high, mine, stopped, owned, waits, here, inside, other⟩ :
      ∃ (k₀ k₁ k₂ k₃ k₄ : Kernel (Banks 4 2) 2) (r : Resumption),
        Kernel.boot 0 { queues := #v[[0], [1]], stackSizes := #[8, 8] } {} = .ok k₀ ∧
        Kernel.createFrom 0 (.stack 0 8) (.num 4) (.num 5) k₀ = .ok (.ok ()) k₁ ∧
        Kernel.createFrom 1 (.stack 1 8) (.num 6) (.num 7) k₁ = .ok (.ok ()) k₂ ∧
        PortCall.start.perform k₂ = .ok (some r) k₃ ∧
        PortCall.beginInterrupt.perform (shift k₃) = .ok none k₄ ∧
        (∀ c, (k₀.board.cores.get c).state = .notStarted) ∧
        (k₀.storage.tasks.read? (.stack 0 6)).isSome ∧
        (k₀.storage.tasks.read? (.stack 0 7)).isSome ∧
        (∀ c, (k₁.board.cores.get c).state = .notStarted) ∧
        (k₁.storage.tasks.read? (.stack 1 6)).isSome ∧
        (k₁.storage.tasks.read? (.stack 1 7)).isSome ∧
        k₂.board.machine.executing = 0 ∧
        (∀ c, (k₂.board.cores.get c).state = .notStarted) ∧
        (∀ c, (k₂.scheduler.queues.get c).tasks = #[c.val]) ∧
        (k₄.board.cores.get 1).state = .notStarted ∧ k₄.board.machine.executing = 1 ∧
        (k₄.board.cores.get 1).interruptDepth = 1 ∧
        k₄.scheduler.current 0 ≠ k₄.scheduler.current 1 := by
    have passes := bringUp_passes
    repeat' split at passes
    all_goals first
      | exact ⟨_, _, _, _, _, _, ‹_›, ‹_›, ‹_›, ‹_›, ‹_›, of_decide_eq_true passes⟩
      | cases passes
  let C : Contexts (Banks 4 2) 2 := Banks.contexts (by decide)
  let book₁ : Ledger 2 :=
    ({} : Ledger 2).withSaved 0 (some (.initial (.stack 0 8) (.num 4) (.num 5)))
  let book₂ : Ledger 2 := book₁.withSaved 1 (some (.initial (.stack 1 8) (.num 6) (.num 7)))
  have idle (k : Kernel (Banks 4 2) 2) (fresh : ∀ c, (k.board.cores.get c).state = .notStarted)
      (task : TaskId) (c : Fin 2) : ¬k.Runs c task := by
    intro runs
    rw [Kernel.Runs, fresh c] at runs
    cases runs.1
  have run₀ : C.Reaches BringUp.tally k₀ {} {} := .boot rfl booted
  have run₁ : C.Reaches BringUp.tally k₁ book₁ {} := run₀.create (idle k₀ fresh 0)
    ⟨.stack 0 8, .num 4, .num 5, rfl, ⟨6, rfl, room, room'⟩, first, rfl⟩
  have run₂ : C.Reaches BringUp.tally k₂ book₂ {} := run₁.create (idle k₁ fresh' 1)
    ⟨.stack 1 8, .num 6, .num 7, rfl, ⟨6, rfl, low, high⟩, second, rfl⟩
  have ready (c : Fin 2) : (k₂.board.cores.get c).state = .notStarted ∧
      ∀ task ∈ (k₂.scheduler.queues.get c).tasks, C.suspended book₂ task ≠ none := by
    rw [owned c]
    refine ⟨stopped c, fun task member => ?_⟩
    rw [List.mem_toArray, List.mem_singleton] at member
    rw [member]
    obtain rfl | rfl : c = 0 ∨ c = 1 := by omega
    · exact Option.some_ne_none _
    · exact Option.some_ne_none _
  have entry : C.Follows k₂ book₂ .start none _ :=
    .enters mine trivial fun d runs => absurd runs (idle k₂ stopped _ d)
  have run₃ := run₂.call (fun _ => ready) entry (fun _ => ⟨by simp, by simp⟩) started
  have run₄ : C.Reaches BringUp.tally (shift k₃) _ _ :=
    run₃.work ⟨rfl, rfl, rfl, rfl, rfl⟩ (.elsewhere rfl fun _ _ => rfl)
  have rests (b : Ledger 2) : C.Follows (shift k₃) b .beginInterrupt none b :=
    .rests (fun _ => id) id
  have run₅ := run₄.call (by simp) (rests _) (fun _ => ⟨by simp, by simp⟩) begun
  obtain ⟨_, masked, _, _, ends, _⟩ := cores_brought_up (a := .segmented 4 (by decide)) run₅
  have awaits := (masked 1 waits).2.2 rfl
  have free : k₄.Free 1 (k₄.scheduler.current 1) := by
    intro d runs
    obtain rfl | rfl : d = 0 ∨ d = 1 := by omega
    · exact absurd runs.2 other
    · rfl
  obtain ⟨r', k', ran, _, runs, _⟩ := ends 1 awaits here inside free
  exact ⟨k₄, _, _, run₅, rfl, awaits, r', k', ran, runs⟩

end Reaches

end Contexts

end Preempt
