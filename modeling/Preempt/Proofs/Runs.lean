import Preempt.Proofs.Contexts

/-!
Runs of the kernel layer with any contexts. `Contexts.Outcome` lists all that a call can have done
that has completed; `Contexts.Reaches` are the states that runs lead to, with ghost state that
counts along the way what is of interest (`Tally`).
-/

namespace Preempt

open Function (update)

variable {κ : Type} {n : Nat} [SwitchPrimitives κ]

namespace Contexts

/-- What a call on core `c` has done that has completed. -/
inductive Outcome (C : Contexts κ n) (k : Kernel κ n) (b : C.Book) (c : Fin n) (call : PortCall) :
    Option Resumption → Option Resumption → Kernel κ n → C.Book → Prop
  | stays {k' : Kernel κ n} (noSection : call.isCritical = false) (noEntry : ¬call.Enters k)
      (stays : k.Stays k') : Outcome C k b c call none none k' b
  | opens {k' : Kernel κ n} (is : call = .enterCritical)
      (nests : k.Nests k' c ((k.board.cores.get c).nesting + 1) false) :
      Outcome C k b c call none none k' b
  | closes {k' : Kernel κ n} (is : call = .exitCritical)
      (inside : (k.board.cores.get c).nesting ≠ 0)
      (nests : k.Nests k' c ((k.board.cores.get c).nesting - 1)
        ((k.board.cores.get c).nesting = 1 || k.board.machine.enabled.get c)) :
      Outcome C k b c call none none k' b
  | enters {new : Resumption} {k' : Kernel κ n} (entry : call.Enters k)
      (stopped : (k.board.cores.get c).state = .notStarted)
      (left : C.suspended b (k.scheduler.current c) = some new)
      (takesUp : k.TakesUp k' c (k.scheduler.current c) new)
      (pending : ∀ d, d ≠ c → ((k'.board.cores.get d).pending = .firstTask ↔
        call = .start ∨ (k.board.cores.get d).pending = .firstTask)) :
      Outcome C k b c call none (some new) k' (C.enter b c (k.scheduler.current c))
  | switches {depth : TrapDepth} {old new : Resumption} {b₁ : C.Book} {k' : Kernel κ n}
      (switches : call.Switches k depth) (running : (k.board.cores.get c).state = .running)
      (nesting : old.nesting = (k.board.cores.get c).nesting)
      (parked : C.suspended b₁ = update (C.suspended b) (k.scheduler.current c) (some old))
      (chosen : C.suspended b₁ (k.incoming c) = some new)
      (takesUp : k.TakesUp k' c (k.incoming c) new)
      (pending : ∀ d, (k'.board.cores.get d).pending = .firstTask ↔
        (k.board.cores.get d).pending = .firstTask) :
      Outcome C k b c call (some old) (some new) k' (C.resume b₁ c (k.incoming c))

variable {C : Contexts κ n} {k k' : Kernel κ n} {b b' : C.Book} {c : Fin n} {call : PortCall}
  {saved answer : Option Resumption} {depth : UInt32} {on : Bool}

namespace Held

theorem nests (held : C.Held k b) (nests : k.Nests k' c depth on) : C.Held k' b := by
  refine held.calm ⟨by rw [nests.scheduler], fun d => (nests.core d).1⟩ nests.identity
    (by rw [nests.scheduler]) (fun d => by rw [(nests.core d).2]) ?_ held.own fun _ _ _ => id
  rw [nests.storage]
  exact held.holds

/-- A call that completes keeps all contexts, and ends in one of the ways that are listed. -/
theorem outcome (held : C.Held k b) (mine : k.board.machine.executing = c)
    (start : call = .start → C.MayStart k b) (follows : C.Follows k b call saved b')
    (ran : call.perform k = .ok answer k') :
    Outcome C k b c call saved answer k' b' ∧ C.Held k' b' := by
  cases follows with
  | rests noSwitch noEntry =>
    cases critical : call.isCritical with
    | false =>
      obtain ⟨rfl, stays⟩ := PortCall.stays held.known critical noSwitch noEntry ran
      exact ⟨.stays critical noEntry stays, held.stays stays⟩
    | true =>
      cases call with
      | enterCritical =>
        obtain ⟨rfl, nests⟩ := PortCall.enterCritical_ran held.known mine ran
        exact ⟨.opens rfl nests, held.nests nests⟩
      | exitCritical =>
        by_cases zero : (k.board.cores.get c).nesting = 0
        · rw [PortCall.exitCritical_run_zero held.known mine zero] at ran
          cases ran
        · obtain ⟨k₁, ran₁, nests⟩ := PortCall.exitCritical_run held.known mine zero
          rw [ran] at ran₁
          cases ran₁
          exact ⟨.closes rfl zero nests, held.nests nests⟩
      | _ => cases critical
  | enters mine' entry free =>
    obtain rfl := mine.symm.trans mine'
    obtain ⟨stopped, _, _⟩ := held.first_suspended mine entry start free
    obtain ⟨new, k₁, ran₁, left, _, takesUp, held', _, pending⟩ :=
      held.enters mine entry start free
    rw [ran] at ran₁
    cases ran₁
    exact ⟨.enters entry stopped left takesUp pending, held'⟩
  | switches mine' switches nesting suspends free =>
    obtain rfl := mine.symm.trans mine'
    cases state : (k.board.cores.get c).state with
    | running =>
      obtain ⟨new, k₁, ran₁, chosen, takesUp, held', pending⟩ :=
        held.switches mine state switches nesting suspends free
      rw [ran] at ran₁
      cases ran₁
      exact ⟨.switches switches state nesting (C.suspended_suspends suspends) chosen takesUp
        pending, held'⟩
    | switching => exact absurd state (held.settled c)
    | notStarted =>
      obtain ⟨k₁, halted, _⟩ := PortCall.switches_halts switches held.known mine state
      rw [ran] at halted
      cases halted

/-- A call that gets as far as the engine on a core that may switch completes and resumes a task. -/
theorem resumes (held : C.Held k b) (start : call = .start → C.MayStart k b)
    (follows : C.Follows k b call saved b') (resumes : call.Resumes k) :
    ∃ r k', call.perform k = .ok (some r) k' := by
  cases follows with
  | rests noSwitch noEntry =>
    rcases resumes.enters_or_switches with entry | ⟨depth, switches⟩
    · exact absurd entry noEntry
    · exact absurd switches (noSwitch depth)
  | enters mine entry free =>
    obtain ⟨new, k', ran, _⟩ := held.enters mine entry start free
    exact ⟨new, k', ran⟩
  | switches mine switches nesting suspends free =>
    have running := resumes.running switches
    rw [mine] at running
    obtain ⟨new, k', ran, _⟩ := held.switches mine running switches nesting suspends free
    exact ⟨new, k', ran⟩

end Held

/-- A call that has resumed a task is not about a section, and the core runs the task. -/
theorem Outcome.resumed {r : Resumption} (outcome : Outcome C k b c call saved (some r) k' b') :
    call.isCritical = false ∧ ∃ task, k'.Runs c task := by
  cases outcome with
  | enters entry _ _ takesUp _ =>
    exact ⟨PortCall.noSection_of_enters entry, _, takesUp.runs⟩
  | switches switches _ _ _ _ takesUp _ =>
    exact ⟨PortCall.noSection_of_switches switches, _, takesUp.runs⟩

/-- Ghost state that is carried along a run, with the conditions it puts on calls. A call may depend
on what its task would be saved with. -/
structure Tally (κ : Type) (n : Nat) (γ : Type) where
  initial : γ
  created : TaskId → γ → γ
  called : PortCall → Kernel κ n → γ → γ
  admits : PortCall → Option Resumption → Kernel κ n → γ → Prop

/-- The states that runs lead to: from boot on, tasks work, are set up while no core runs them and
are given up once they are in no queue; the cores make calls in any order, of which a halt ends the
run. -/
inductive Reaches {γ : Type} (C : Contexts κ n) (T : Tally κ n γ) :
    Kernel κ n → C.Book → γ → Prop
  | boot {core : Fin n} {boot : Kernel.Boot n} {context : κ} {k : Kernel κ n}
      (fresh : C.Fresh context) (booted : Kernel.boot core boot context = .ok k) :
      Reaches C T k C.blank T.initial
  | work {k k' : Kernel κ n} {b b' : C.Book} {g : γ} (before : Reaches C T k b g)
      (aside : k.Aside k') (works : C.Works k.storage b k'.storage b') : Reaches C T k' b' g
  | create {k k' : Kernel κ n} {b b' : C.Book} {g : γ} {task : TaskId}
      {answer : Except Refusal Unit} (before : Reaches C T k b g) (idle : ∀ c, ¬k.Runs c task)
      (creates : C.Creates k b task answer k' b') :
      Reaches C T k' b' (if answer.toBool then T.created task g else g)
  | free {k k' : Kernel κ n} {b b' : C.Book} {g : γ} {task : TaskId} (before : Reaches C T k b g)
      (outside : ∀ c, task ∉ (k.scheduler.queues.get c).tasks)
      (frees : C.Frees k b task k' b') : Reaches C T k' b' g
  | call {k k' : Kernel κ n} {b b' : C.Book} {g : γ} {call : PortCall}
      {saved answer : Option Resumption} (before : Reaches C T k b g)
      (start : call = .start → C.MayStart k b) (follows : C.Follows k b call saved b')
      (admitted : T.admits call saved k g) (ran : call.perform k = .ok answer k') :
      Reaches C T k' b' (T.called call k g)

theorem Reaches.held {γ : Type} {T : Tally κ n γ} {g : γ} (reached : C.Reaches T k b g) :
    C.Held k b := by
  induction reached with
  | boot fresh booted => exact .boot fresh booted
  | work _ aside works ih => exact ih.works aside works
  | create _ idle creates ih => exact ih.creates idle creates
  | free _ outside frees ih => exact ih.frees outside frees
  | call _ start follows _ ran ih => exact (ih.outcome rfl start follows ran).2

end Contexts

end Preempt
