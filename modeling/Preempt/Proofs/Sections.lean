import Mathlib.Algebra.Group.Int.Defs
import Preempt.Proofs.Architectures

/-!
Critical sections belong to the tasks. Along a run every task has a balance of the sections that it
has entered and left since it was set up. The nesting of a core is the balance of the task that it
runs, a suspended task keeps its balance in its context, and a core is masked exactly while the
balance of its task is not zero.
-/

namespace Preempt

open Function (update)

variable {κ : Type} {n : Nat}

/-- A call that enters or leaves a section counts for the task that its core runs. -/
def PortCall.balanced (call : PortCall) (k : Kernel κ n) (balance : TaskId → Int) : TaskId → Int :=
  let c := k.board.machine.executing
  let task := k.scheduler.current c
  if (k.board.cores.get c).state = .running then
    match call with
    | enterCritical => update balance task (balance task + 1)
    | exitCritical => update balance task (balance task - 1)
    | _ => balance
  else balance

theorem PortCall.balanced_of_noSection {call : PortCall} (noSection : call.isCritical = false)
    (k : Kernel κ n) (balance : TaskId → Int) : call.balanced k balance = balance := by
  unfold balanced
  cases call with
  | enterCritical | exitCritical => cases noSection
  | _ => exact ite_self _

/-- The balance of each task. No task has `2 ^ 32` sections open, and a task that is suspended with
none open is to resume with interrupts enabled. -/
def sectionTally : Contexts.Tally κ n (TaskId → Int) where
  initial _ := 0
  created task balance := update balance task 0
  called := PortCall.balanced
  admits call saved k balance :=
    (call = .enterCritical → ∀ task, k.Runs k.board.machine.executing task →
      balance task + 1 < 2 ^ 32) ∧
    ∀ r, saved = some r → r.nesting = 0 → r.enabled = true

/-- A resumption with the balance of its task, and with interrupts enabled if that is zero. -/
def Resumption.Carries (r : Resumption) (balance : Int) : Prop :=
  (r.nesting.toNat : Int) = balance ∧ (r.nesting = 0 → r.enabled = true)

theorem nesting_eq_zero_iff {depth : UInt32} {balance : Int}
    (same : (depth.toNat : Int) = balance) : depth = 0 ↔ balance = 0 := by
  rw [← same, ← UInt32.toNat_inj]
  simp

theorem Resumption.Carries.enabled_iff {r : Resumption} {balance : Int}
    (carries : r.Carries balance) : r.enabled = true ∧ r.nesting = 0 ↔ balance = 0 := by
  rw [← nesting_eq_zero_iff carries.1]
  exact ⟨And.right, fun zero => ⟨carries.2 zero, zero⟩⟩

/-- Core `c` is as deep in sections as the balance says, and masked unless that is zero. -/
structure Kernel.Nested (k : Kernel κ n) (c : Fin n) (balance : Int) : Prop where
  depth : ((k.board.cores.get c).nesting.toNat : Int) = balance
  mask : k.board.machine.enabled.get c = true ↔ balance = 0

theorem Kernel.Nested.congr {k k' : Kernel κ n} {c : Fin n} {balance : Int}
    (nested : k.Nested c balance)
    (nesting : (k'.board.cores.get c).nesting = (k.board.cores.get c).nesting)
    (enabled : k'.board.machine.enabled.get c = k.board.machine.enabled.get c) :
    k'.Nested c balance :=
  ⟨by rw [nesting]; exact nested.depth, by rw [enabled]; exact nested.mask⟩

variable [SwitchPrimitives κ]

/-- The tasks that run and the suspended ones have their balances. -/
structure Balanced (C : Contexts κ n) (k : Kernel κ n) (b : C.Book) (balance : TaskId → Int) :
    Prop where
  runs : ∀ c task, k.Runs c task → k.Nested c (balance task)
  kept : ∀ task r, C.suspended b task = some r → r.Carries (balance task)

namespace Balanced

variable {C : Contexts κ n} {k k' : Kernel κ n} {b b' : C.Book} {balance : TaskId → Int}
  {c : Fin n} {call : PortCall} {saved answer : Option Resumption} {task : TaskId}

theorem boot {core : Fin n} {boot : Kernel.Boot n} {context : κ}
    (booted : Kernel.boot core boot context = .ok k) : Balanced C k C.blank fun _ => 0 := by
  obtain ⟨rate, scheduler, _, rfl⟩ := Kernel.eq_of_boot booted
  refine ⟨fun c task runs => ?_, fun task r left => ?_⟩
  · have started := runs.1
    simp at started
  · rw [C.suspended_blank] at left
    cases left

/-- With one task less suspended, the others keep their balances. -/
theorem kept_of_update (kept : ∀ task r, C.suspended b task = some r → r.Carries (balance task))
    (now : C.suspended b' = update (C.suspended b) task none) (other : TaskId) (r : Resumption)
    (left : C.suspended b' other = some r) : r.Carries (balance other) := by
  rw [now, Function.update_apply] at left
  split at left
  · cases left
  · exact kept other r left

/-- If no core changes its nesting or its mask, the balances are still those of the cores. -/
theorem calm (runs : ∀ c task, k.Runs c task → k.Nested c (balance task)) (calm : k.Calm k')
    (nesting : ∀ c, (k'.board.cores.get c).nesting = (k.board.cores.get c).nesting)
    (enabled : k'.board.machine.enabled = k.board.machine.enabled)
    (kept : ∀ task r, C.suspended b' task = some r → r.Carries (balance task)) :
    Balanced C k' b' balance := by
  refine ⟨fun c task running => ?_, kept⟩
  exact (runs c task ((calm.runs_iff c task).mp running)).congr (nesting c) (by rw [enabled])

theorem aside (runs : ∀ c task, k.Runs c task → k.Nested c (balance task)) (aside : k.Aside k')
    (kept : ∀ task r, C.suspended b' task = some r → r.Carries (balance task)) :
    Balanced C k' b' balance :=
  calm runs ⟨aside.queues, fun c => by rw [aside.cores]⟩ (fun c => by rw [aside.cores])
    aside.enabled kept

theorem works (held : C.Held k b) (balanced : Balanced C k b balance) (aside : k.Aside k')
    (works : C.Works k.storage b k'.storage b') : Balanced C k' b' balance := by
  refine .aside balanced.runs aside fun task r left => balanced.kept task r ?_
  rwa [← (C.works held.holds works).2]

/-- A task that is set up starts with a balance of zero. -/
theorem creates (held : C.Held k b) (balanced : Balanced C k b balance)
    (idle : ∀ c, ¬k.Runs c task) {made : Except Refusal Unit}
    (creates : C.Creates k b task made k' b') :
    Balanced C k' b' (if made.toBool then update balance task 0 else balance) := by
  obtain ⟨aside, _, now⟩ := C.creates held.holds creates
  cases made with
  | error cause =>
    refine .aside balanced.runs aside fun other r left => balanced.kept other r ?_
    rwa [now] at left
  | ok _ =>
    simp only [Except.toBool, if_true] at now ⊢
    refine .aside (fun c other runs => ?_) aside fun other r left => ?_
    · have apart : other ≠ task := by
        rintro rfl
        exact idle c runs
      rw [Function.update_of_ne apart]
      exact balanced.runs c other runs
    · rw [now] at left
      by_cases mine : other = task
      · subst mine
        rw [Function.update_self] at left ⊢
        cases left
        exact ⟨rfl, fun _ => rfl⟩
      · rw [Function.update_of_ne mine] at left ⊢
        exact balanced.kept other r left

theorem frees (held : C.Held k b) (balanced : Balanced C k b balance)
    (frees : C.Frees k b task k' b') : Balanced C k' b' balance := by
  obtain ⟨aside, _, now⟩ := C.frees held.holds frees
  exact .aside balanced.runs aside (kept_of_update balanced.kept now)

/-- The nesting of one core changes, and the balance of its task with it. -/
theorem nests {depth : UInt32} {on : Bool} {value : Int} (held : C.Held k b)
    (balanced : Balanced C k b balance) (nests : k.Nests k' c depth on)
    (counts : (k.board.cores.get c).state = .running →
      (depth.toNat : Int) = value ∧ (on = true ↔ value = 0)) :
    Balanced C k' b (if (k.board.cores.get c).state = .running
      then update balance (k.scheduler.current c) value else balance) := by
  have calm : k.Calm k' := ⟨by rw [nests.scheduler], fun d => (nests.core d).1⟩
  have elsewhere (d : Fin n) (apart : d ≠ c) (task : TaskId) (running : k.Runs d task) :
      k'.Nested d (balance task) := by
    refine (balanced.runs d task running).congr ?_ ?_
    · rw [nests.cores, Vector.get_put_of_ne _ apart.symm]
    · rw [nests.enabled, Vector.get_put_of_ne _ apart.symm]
  by_cases running : (k.board.cores.get c).state = .running
  · rw [if_pos running]
    obtain ⟨counted, masked⟩ := counts running
    have mine : k.Runs c (k.scheduler.current c) := ⟨running, rfl⟩
    refine ⟨fun d task runs => ?_, fun task r left => ?_⟩
    · replace runs := (calm.runs_iff d task).mp runs
      by_cases here : d = c
      · subst here
        rw [← runs.2, Function.update_self]
        refine ⟨?_, ?_⟩
        · rw [nests.cores, Vector.get_put_self]
          exact counted
        · rw [nests.enabled, Vector.get_put_self]
          exact masked
      · have apart : task ≠ k.scheduler.current c := by
          rintro rfl
          exact here (held.alone runs mine)
        rw [Function.update_of_ne apart]
        exact elsewhere d here task runs
    · have apart : task ≠ k.scheduler.current c := by
        rintro rfl
        rw [held.own mine] at left
        cases left
      rw [Function.update_of_ne apart]
      exact balanced.kept task r left
  · rw [if_neg running]
    refine ⟨fun d task runs => ?_, balanced.kept⟩
    replace runs := (calm.runs_iff d task).mp runs
    refine elsewhere d ?_ task runs
    rintro rfl
    exact running runs.1

/-- A core that takes up a task takes up its balance. -/
theorem takesUp {r : Resumption} (balanced : Balanced C k b balance)
    (takesUp : k.TakesUp k' c task r) (carries : r.Carries (balance task))
    (kept : ∀ task r, C.suspended b' task = some r → r.Carries (balance task)) :
    Balanced C k' b' balance := by
  refine ⟨fun d other runs => ?_, kept⟩
  by_cases here : d = c
  · subst here
    have same : other = task := runs.2.symm.trans takesUp.runs.2
    subst same
    refine ⟨?_, ?_⟩
    · rw [takesUp.nesting]
      exact carries.1
    · rw [takesUp.enabled, decide_eq_true_iff]
      exact carries.enabled_iff
  · obtain ⟨nesting, enabled⟩ := takesUp.others d here
    exact (balanced.runs d other ((takesUp.runs_iff here other).mp runs)).congr nesting enabled

/-- What a call has done keeps the balances, if its task's context is fit to be resumed. -/
theorem outcome (held : C.Held k b) (balanced : Balanced C k b balance)
    (outcome : C.Outcome k b k.board.machine.executing call saved answer k' b')
    (admitted : sectionTally.admits call saved k balance) :
    Balanced C k' b' (call.balanced k balance) := by
  obtain ⟨few, reports⟩ := admitted
  have own (running : (k.board.cores.get k.board.machine.executing).state = .running) :=
    balanced.runs _ _ ⟨running, rfl⟩
  cases outcome with
  | stays noSection _ stays =>
    rw [PortCall.balanced_of_noSection noSection]
    exact .calm balanced.runs ⟨stays.queues, fun c => (stays.board.cores c).state⟩
      (fun c => (stays.board.cores c).nesting) stays.board.enabled balanced.kept
  | opens is nests =>
    subst is
    refine balanced.nests held nests fun running => ?_
    have depth := (own running).depth
    have few := few rfl _ ⟨running, rfl⟩
    have room : (k.board.cores.get k.board.machine.executing).nesting.toNat + 1 < 2 ^ 32 := by
      omega
    rw [toNat_add_one room]
    refine ⟨by omega, fun masked => absurd masked (by decide), fun none => ?_⟩
    omega
  | closes is inside nests =>
    subst is
    refine balanced.nests held nests fun running => ?_
    have nested := own running
    have left := toNat_sub_one inside
    have depth := nested.depth
    refine ⟨by omega, ?_⟩
    rw [Bool.or_eq_true, decide_eq_true_iff, nested.mask, ← nesting_eq_zero_iff depth,
      or_iff_left inside, ← UInt32.toNat_inj, UInt32.toNat_one]
    omega
  | enters entry stopped left takesUp _ =>
    rw [PortCall.balanced_of_noSection (PortCall.noSection_of_enters entry)]
    exact balanced.takesUp takesUp (balanced.kept _ _ left)
      (kept_of_update balanced.kept (C.suspended_enter b _ _))
  | @switches depth old new b₁ k' switches running nesting parked chosen takesUp _ =>
    rw [PortCall.balanced_of_noSection (PortCall.noSection_of_switches switches)]
    have kept (task : TaskId) (r : Resumption) (left : C.suspended b₁ task = some r) :
        r.Carries (balance task) := by
      rw [parked, Function.update_apply] at left
      split at left
      · rename_i same
        cases left
        rw [same]
        refine ⟨?_, reports _ rfl⟩
        rw [nesting]
        exact (own running).depth
      · exact balanced.kept task r left
    exact balanced.takesUp takesUp (kept _ _ chosen)
      (kept_of_update kept (C.suspended_resume b₁ _ _))

end Balanced

namespace Contexts.Reaches

theorem balanced {C : Contexts κ n} {k : Kernel κ n} {b : C.Book} {balance : TaskId → Int}
    (reached : C.Reaches sectionTally k b balance) : Balanced C k b balance := by
  induction reached with
  | boot _ booted => exact .boot booted
  | work before aside works ih => exact ih.works before.held aside works
  | create before idle creates ih => exact ih.creates before.held idle creates
  | free before _ frees ih => exact ih.frees before.held frees
  | call before start follows admitted ran ih =>
    exact ih.outcome before.held (before.held.outcome rfl start follows ran).1 admitted

/-- On any architecture, each core is nested as deep as the balance of the task that it runs, and
masked unless that is zero; each suspended task has its balance in its context. Leaving a section
halts exactly if the task has none open. A call that resumes a task completes, and the core then is
as nested and masked as that task's balance says. -/
theorem sections_belong_to_tasks {a : Architecture} {k : Kernel (a.State n) n}
    {b : (a.contexts n).Book} {balance : TaskId → Int}
    (reached : (a.contexts n).Reaches sectionTally k b balance) :
    (∀ c task, k.Runs c task → k.Nested c (balance task)) ∧
    (∀ task r, (a.contexts n).suspended b task = some r → (r.nesting.toNat : Int) = balance task) ∧
    (∀ task, k.Runs k.board.machine.executing task →
      (PortCall.exitCritical.perform k = .error (.violation .unmatchedCriticalExit) k ↔
        balance task = 0) ∧
      (balance task ≠ 0 → ∃ k', PortCall.exitCritical.perform k = .ok none k')) ∧
    ∀ call saved b', (call = .start → (a.contexts n).MayStart k b) →
      (a.contexts n).Follows k b call saved b' → sectionTally.admits call saved k balance →
      call.Resumes k → ∃ r k' task, call.perform k = .ok (some r) k' ∧
        k'.Runs k.board.machine.executing task ∧
        k'.Nested k.board.machine.executing (balance task) := by
  have held := reached.held
  have balanced := reached.balanced
  refine ⟨balanced.runs, fun task r left => (balanced.kept task r left).1, fun task runs => ?_,
    fun call saved b' start follows admitted resumes => ?_⟩
  · have none := nesting_eq_zero_iff (balanced.runs _ task runs).depth
    by_cases zero : (k.board.cores.get k.board.machine.executing).nesting = 0
    · have halts := PortCall.exitCritical_run_zero held.known rfl zero
      exact ⟨⟨fun _ => none.mp zero, fun _ => halts⟩, fun inside => absurd (none.mp zero) inside⟩
    · obtain ⟨k', ran, _⟩ := PortCall.exitCritical_run held.known rfl zero
      refine ⟨⟨fun halts => ?_, fun zero' => absurd (none.mpr zero') zero⟩, fun _ => ⟨k', ran⟩⟩
      rw [ran] at halts
      cases halts
  · obtain ⟨r, k', ran⟩ := held.resumes start follows resumes
    obtain ⟨outcome, _⟩ := held.outcome rfl start follows ran
    obtain ⟨noSection, task, runs⟩ := outcome.resumed
    have after := (balanced.outcome held outcome admitted).runs _ task runs
    rw [PortCall.balanced_of_noSection noSection] at after
    exact ⟨r, k', task, ran, runs, after⟩

/-- A core starts its only task and enters a critical section. -/
theorem critical_passes : (match Kernel.boot (0 : Fin 1)
    { queues := #v[[0]], stackSizes := #[8] } ({} : Banks 4 1) with
  | .ok k₀ =>
    match Kernel.createFrom 0 (.stack 0 8) (.num 4) (.num 5) k₀ with
    | .ok (.ok ()) k₁ =>
      match PortCall.start.perform k₁ with
      | .ok (some _) k₂ =>
        match PortCall.enterCritical.perform k₂ with
        | .ok none k₃ => decide ((k₀.board.cores.get 0).state = .notStarted ∧
            (k₀.storage.tasks.read? (.stack 0 6)).isSome ∧
            (k₀.storage.tasks.read? (.stack 0 7)).isSome ∧
            (k₁.board.cores.get 0).state = .notStarted ∧
            (k₁.scheduler.queues.get 0).tasks = #[0] ∧
            ((k₂.board.cores.get 0).state = .running ∧ k₂.scheduler.current 0 = 0) ∧
            ((k₃.board.cores.get 0).state = .running ∧ k₃.scheduler.current 0 = 0))
        | _ => false
      | _ => false
    | _ => false
  | _ => false) = true := by decide +kernel

/-- One core enters its only task, which enters a section. -/
theorem sections_belong_to_tasks_inside :
    ∃ (k : Kernel (Banks 4 1) 1) (b : Ledger 1) (balance : TaskId → Int),
      (Banks.contexts (by decide)).Reaches sectionTally k b balance ∧ k.Runs 0 0 ∧
      balance 0 = 1 ∧ k.Nested 0 1 ∧ ∃ k', PortCall.exitCritical.perform k = .ok none k' := by
  obtain ⟨k₀, k₁, k₂, k₃, r, booted, created, started, opened, fresh, low, high, stopped, owned,
      begun, running⟩ :
      ∃ (k₀ k₁ k₂ k₃ : Kernel (Banks 4 1) 1) (r : Resumption),
        Kernel.boot 0 { queues := #v[[0]], stackSizes := #[8] } {} = .ok k₀ ∧
        Kernel.createFrom 0 (.stack 0 8) (.num 4) (.num 5) k₀ = .ok (.ok ()) k₁ ∧
        PortCall.start.perform k₁ = .ok (some r) k₂ ∧
        PortCall.enterCritical.perform k₂ = .ok none k₃ ∧
        (k₀.board.cores.get 0).state = .notStarted ∧
        (k₀.storage.tasks.read? (.stack 0 6)).isSome ∧
        (k₀.storage.tasks.read? (.stack 0 7)).isSome ∧
        (k₁.board.cores.get 0).state = .notStarted ∧
        (k₁.scheduler.queues.get 0).tasks = #[0] ∧
        ((k₂.board.cores.get 0).state = .running ∧ k₂.scheduler.current 0 = 0) ∧
        ((k₃.board.cores.get 0).state = .running ∧ k₃.scheduler.current 0 = 0) := by
    have passes := critical_passes
    repeat' split at passes
    all_goals first
      | exact ⟨_, _, _, _, _, ‹_›, ‹_›, ‹_›, ‹_›, of_decide_eq_true passes⟩
      | cases passes
  have only (c : Fin 1) : c = 0 := Subsingleton.elim c 0
  have idle (c : Fin 1) : ¬k₀.Runs c 0 := by
    intro runs
    rw [only c, Kernel.Runs, fresh] at runs
    cases runs.1
  let C : Contexts (Banks 4 1) 1 := Banks.contexts (by decide)
  let book : Ledger 1 :=
    ({} : Ledger 1).withSaved 0 (some (.initial (.stack 0 8) (.num 4) (.num 5)))
  let balance : TaskId → Int := PortCall.start.balanced k₁ (update (fun _ => 0) 0 0)
  have run₀ : C.Reaches sectionTally k₀ {} fun _ => 0 := .boot rfl booted
  have run₁ : C.Reaches sectionTally k₁ book (update (fun _ => 0) 0 0) :=
    run₀.create idle ⟨.stack 0 8, .num 4, .num 5, rfl, ⟨6, rfl, low, high⟩, created, rfl⟩
  have ready (c : Fin 1) : (k₁.board.cores.get c).state = .notStarted ∧
      ∀ task ∈ (k₁.scheduler.queues.get c).tasks, C.suspended book task ≠ none := by
    rw [only c, owned]
    refine ⟨stopped, fun task member => ?_⟩
    rw [List.mem_toArray, List.mem_singleton] at member
    rw [member]
    exact Option.some_ne_none _
  have first : C.Follows k₁ book .start none _ :=
    .enters (only _) trivial fun _ _ => Subsingleton.elim _ _
  have run₂ : C.Reaches sectionTally k₂ _ balance :=
    run₁.call (fun _ => ready) first ⟨by simp, by simp⟩ started
  have zero (task : TaskId) : balance task = 0 := by
    change PortCall.start.balanced k₁ (update (fun _ => 0) 0 0) task = 0
    rw [PortCall.balanced_of_noSection rfl, Function.update_apply]
    split <;> rfl
  have next (b : Ledger 1) : C.Follows k₂ b .enterCritical none b := .rests (fun _ => id) id
  have run₃ : C.Reaches sectionTally k₃ _ (PortCall.enterCritical.balanced k₂ balance) :=
    run₂.call (by simp) (next _) ⟨fun _ task _ => by rw [zero task]; decide, by simp⟩ opened
  have one : PortCall.enterCritical.balanced k₂ balance 0 = 1 := by
    rw [PortCall.balanced, only k₂.board.machine.executing, if_pos begun.1, begun.2]
    simp only [Function.update_self, zero]
    rfl
  obtain ⟨nested, _, exits, _⟩ := sections_belong_to_tasks (a := .segmented 4 (by decide)) run₃
  refine ⟨k₃, _, _, run₃, running, one, one ▸ nested 0 0 running, (exits 0 ?_).2 ?_⟩
  · rw [only k₃.board.machine.executing]
    exact running
  · rw [one]
    decide

end Contexts.Reaches

end Preempt
