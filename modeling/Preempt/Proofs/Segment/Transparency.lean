import Preempt.Proofs.Segment.Runs

/-!
Preemption is transparent. A watch writes down what each task had in its registers when it was
interrupted, which words its open calls spilled and how deep it was nested when it was switched
away from. A task goes on with exactly that, on whatever way it comes back. `Watch.run?` computes a
watched run from a list of operations.
-/

namespace Preempt

open Function (update)

variable {size n : Nat}

/-- What is written down of a task: the interrupt enable and the words of both banks at its last
interrupt, the words that its open calls spilled, and the nesting at its last switch. -/
structure Note where
  enabled : Bool
  upper : Vector Word dataWords
  lower : Vector Word dataWords
  frames : List (Vector Word dataWords) := []
  nesting : UInt32 := 0

namespace Note

def suspension (m : Note) : Suspension where
  enabled := m.enabled
  upper := m.upper
  lower := m.lower
  below := m.frames.map .call
  nesting := m.nesting

/-- A task that has never run. -/
def initial (sp entry argument : Word) : Note where
  enabled := true
  upper := (Pool.initialUpper sp).data
  lower := (Pool.initialLower .null entry argument).data

end Note

structure Watch (n : Nat) where
  note : TaskId → Option Note := fun _ => none
  /-- The contexts open on a core above its task, or none while the task itself executes. -/
  above : Fin n → Option (List Spill) := fun _ => some []

namespace Watch

def revise (w : Watch n) (task : TaskId) (change : Note → Note) : Watch n :=
  { w with note := update w.note task ((w.note task).map change) }

def withAbove (w : Watch n) (c : Fin n) (stack : Option (List Spill)) : Watch n :=
  { w with above := update w.above c stack }

/-- The watch after an operation that was not refused, from the registers before it. -/
def next (w : Watch n) (k : Kernel (Banks size n) n) : Operation n → Watch n
  | .create task sp entry argument =>
    { w with note := update w.note task (some (.initial sp entry argument)) }
  | .enterTrap c enabled =>
    let upper := (k.storage.context.upper.get c).spill
    let lower := (k.storage.context.lower.get c).spill
    match w.above c with
    | none =>
      (w.revise (k.scheduler.current c) ({ · with enabled, upper, lower })).withAbove c (some [])
    | some stack => w.withAbove c (some (.trap enabled upper lower :: stack))
  | .enterCall c =>
    let upper := (k.storage.context.upper.get c).spill
    match w.above c with
    | none => w.revise (k.scheduler.current c) fun m => { m with frames := upper :: m.frames }
    | some stack => w.withAbove c (some (.call upper :: stack))
  | .leaveTrap c =>
    match w.above c with
    | some (_ :: stack) => w.withAbove c (some stack)
    | _ => w.withAbove c none
  | .leaveCall c =>
    match w.above c with
    | none => w.revise (k.scheduler.current c) fun m => { m with frames := m.frames.tail }
    | some stack => w.withAbove c (some stack.tail)
  | .switch c _ _ =>
    w.revise (k.scheduler.current c) ({ · with nesting := (k.board.cores.get c).nesting })
  | .enterFirst _ => w
  | .free task => { w with note := update w.note task none }

def after (w : Watch n) (k : Kernel (Banks size n) n) (op : Operation n) : Answer → Watch n
  | .refused _ => w
  | _ => w.next k op

/-- When an operation may be issued. A core starts once, with all tasks of its queue created; a
switch is issued `depth` calls above the task; a task of a queue is never deleted. -/
def Allows (w : Watch n) (k : Kernel (Banks size n) n) : Operation n → Prop
  | .create task sp _ _ => w.note task = none ∧ k.storage.tasks.Room task sp
  | .enterTrap .. | .enterCall _ => True
  | .leaveTrap c => (w.above c = some [] ∧ (k.board.cores.get c).state = .running) ∨
      ∃ enabled upper lower stack, w.above c = some (.trap enabled upper lower :: stack)
  | .leaveCall c => (∃ words stack, w.above c = some (.call words :: stack)) ∨
      ∃ m, w.above c = none ∧ w.note (k.scheduler.current c) = some m ∧ m.frames ≠ []
  | .switch c _ depth => (k.board.cores.get c).state = .running ∧
      ∃ calls m, w.above c = some calls ∧ (∀ x ∈ calls, x.isCall = true) ∧
        calls.length = depth.toNat ∧ w.note (k.scheduler.current c) = some m ∧
        k.storage.tasks.Room (k.scheduler.current c)
          (getElem m.upper (upperStackPointer - 1) upperStackPointer_spilled)
  | .enterFirst c => (k.board.cores.get c).state = .notStarted ∧
      (k.storage.context.pool.links.get c).isNull = true ∧
      ∀ task ∈ (k.scheduler.queues.get c).tasks, w.note task ≠ none
  | .free task => w.note task ≠ none ∧ ∀ c, task ∉ (k.scheduler.queues.get c).tasks

instance (above : Option (List Spill)) : Decidable (∃ enabled upper lower stack,
    above = some (.trap enabled upper lower :: stack)) :=
  match above with
  | some (.trap enabled upper lower :: stack) => isTrue ⟨enabled, upper, lower, stack, rfl⟩
  | some (.call _ :: _) | some [] | none => isFalse (by simp)

instance (above : Option (List Spill)) : Decidable (∃ words stack,
    above = some (.call words :: stack)) :=
  match above with
  | some (.call words :: stack) => isTrue ⟨words, stack, rfl⟩
  | some (.trap .. :: _) | some [] | none => isFalse (by simp)

instance (w : Watch n) (k : Kernel (Banks size n) n) :
    (op : Operation n) → Decidable (w.Allows k op)
  | .create task sp _ _ => inferInstanceAs (Decidable (_ ∧ k.storage.tasks.Room task sp))
  | .enterTrap .. | .enterCall _ => isTrue trivial
  | .leaveTrap c => inferInstanceAs (Decidable (_ ∨ ∃ enabled upper lower stack,
      w.above c = some (.trap enabled upper lower :: stack)))
  | .leaveCall c => decidable_of_iff ((∃ words stack, w.above c = some (.call words :: stack)) ∨
      w.above c = none ∧ ∃ m ∈ w.note (k.scheduler.current c), m.frames ≠ [])
      (by simp [Allows])
  | .switch c _ depth => decidable_of_iff ((k.board.cores.get c).state = .running ∧
      ∃ calls ∈ w.above c, ((∀ x ∈ calls, x.isCall = true) ∧ calls.length = depth.toNat) ∧
        ∃ m ∈ w.note (k.scheduler.current c), k.storage.tasks.Room (k.scheduler.current c)
          (getElem m.upper (upperStackPointer - 1) upperStackPointer_spilled))
      (by simp [Allows, and_assoc])
  | .enterFirst c => inferInstanceAs (Decidable (_ ∧ _ ∧ _))
  | .free task => inferInstanceAs (Decidable (_ ∧ _))

/-- What an operation has to give back, by the watch `w'` after it. -/
def Faithful (w w' : Watch n) (k k' : Kernel (Banks size n) n) (answer : Answer) :
    Operation n → Prop
  | .switch c _ _ | .enterFirst c => ∃ m, w'.note (k'.scheduler.current c) = some m ∧
      answer = .resumed ⟨m.nesting, m.enabled⟩
  | .leaveTrap c =>
    match w.above c with
    | some (.trap _ upper lower :: _) => (k'.storage.context.upper.get c).spill = upper ∧
        (k'.storage.context.lower.get c).spill = lower
    | _ => ∃ m, w.note (k.scheduler.current c) = some m ∧
        (k'.storage.context.upper.get c).spill = m.upper ∧
        (k'.storage.context.lower.get c).spill = m.lower
  | .leaveCall c =>
    match w.above c with
    | some (.call words :: _) => (k'.storage.context.upper.get c).spill = words
    | _ => ∃ m, w.note (k.scheduler.current c) = some m ∧
        m.frames.head? = some (k'.storage.context.upper.get c).spill
  | _ => True

/-- Created, and run by no core. -/
def Waits (w : Watch n) (k : Kernel (Banks size n) n) (task : TaskId) : Prop :=
  w.note task ≠ none ∧ ∀ c, ¬k.Runs c task

end Watch

/-- The kernels that watched runs lead to, from boot on with no task in two queues. -/
inductive Watching : Kernel (Banks size n) n → Watch n → Prop
  | boot {core : Fin n} {b : Kernel.Boot n} {k : Kernel (Banks size n) n}
      (booted : Kernel.boot core b {} = .ok k)
      (apart : ∀ c d task, task ∈ (k.scheduler.queues.get c).tasks →
        task ∈ (k.scheduler.queues.get d).tasks → c = d) : Watching k {}
  | perform {k k' : Kernel (Banks size n) n} {w : Watch n} {answer : Answer}
      (before : Watching k w) (op : Operation n) (allowed : w.Allows k op)
      (ran : op.perform k = .ok answer k')
      (whole : ∀ c enabled, op = .enterTrap c enabled → answer = .done) :
      Watching k' (w.after k op answer)
  | elsewhere {k k' : Kernel (Banks size n) n} {w : Watch n} (before : Watching k w)
      (quiet : Elsewhere (w.Waits k) k k') : Watching k' w

/-- The contexts of a core, as the watch has them. -/
def Watch.stack (w : Watch n) (k : Kernel (Banks size n) n) (c : Fin n) : List Spill :=
  match w.above c with
  | none => (w.note (k.scheduler.current c)).elim [] (·.frames.map .call)
  | some stack => stack ++ if (k.board.cores.get c).state = .running
      then (w.note (k.scheduler.current c)).elim [] (·.suspension.spills) else []

/-- The ledger of a kernel is what the watch says. -/
structure Tracks (k : Kernel (Banks size n) n) (L : Ledger n) (w : Watch n) : Prop where
  custody : Custody k L
  apart : ∀ c d task, task ∈ (k.scheduler.queues.get c).tasks →
    task ∈ (k.scheduler.queues.get d).tasks → c = d
  inside : ∀ c, w.above c = none → (k.board.cores.get c).state = .running
  created : ∀ c, (k.board.cores.get c).state = .running →
    ∀ task ∈ (k.scheduler.queues.get c).tasks, w.note task ≠ none
  live : ∀ c, L.live c = w.stack k c
  saved : ∀ task, (∀ c, ¬k.Runs c task) → L.saved task = (w.note task).map Note.suspension

namespace Tracks

variable {k k' : Kernel (Banks size n) n} {L L' : Ledger n} {w w' : Watch n} {c d : Fin n}
  {task : TaskId}

theorem own (tracks : Tracks k L w) (running : (k.board.cores.get c).state = .running) :
    ∃ m, w.note (k.scheduler.current c) = some m :=
  Option.ne_none_iff_exists'.mp
    (tracks.created c running _ (TaskQueue.current_mem _))

/-- With disjoint queues no two cores have one current task. -/
theorem current_inj (tracks : Tracks k L w)
    (same : k.scheduler.current c = k.scheduler.current d) : c = d := by
  refine tracks.apart c d (k.scheduler.current c) (TaskQueue.current_mem _) ?_
  rw [same]
  exact TaskQueue.current_mem _

theorem stack_congr (above : w'.above c = w.above c)
    (state : (k'.board.cores.get c).state = (k.board.cores.get c).state)
    (current : k'.scheduler.current c = k.scheduler.current c)
    (note : w'.note (k.scheduler.current c) = w.note (k.scheduler.current c)) :
    w'.stack k' c = w.stack k c := by
  simp only [Watch.stack, above, state, current, note]

theorem calm (tracks : Tracks k L w) (calm : k.Calm k') (custody : Custody k' L) :
    Tracks k' L w := by
  constructor
  · exact custody
  · rw [calm.queues]
    exact tracks.apart
  · intro c none
    rw [calm.states]
    exact tracks.inside c none
  · intro c running task owned
    rw [calm.states] at running
    rw [calm.queues] at owned
    exact tracks.created c running task owned
  · intro c
    rw [tracks.live c]
    exact (stack_congr rfl (calm.states c) (calm.current c) rfl).symm
  · intro task idle
    exact tracks.saved task fun c runs => idle c ((calm.runs_iff c task).mpr runs)

/-- What happens on one core's stack, with a note about the task that it runs. -/
theorem onStack (tracks : Tracks k L w) {stack : List Spill} (calm : k.Calm k')
    (custody : Custody k' (L.withLive c stack)) (above : ∀ d, d ≠ c → w'.above d = w.above d)
    (inside : w'.above c = none → (k.board.cores.get c).state = .running)
    (notes : ∀ task, ¬k.Runs c task → w'.note task = w.note task)
    (stays : ∀ task, w.note task ≠ none → w'.note task ≠ none)
    (now : w'.stack k' c = stack) : Tracks k' (L.withLive c stack) w' := by
  constructor
  · exact custody
  · rw [calm.queues]
    exact tracks.apart
  · intro d none
    rw [calm.states]
    by_cases mine : d = c
    · subst mine
      exact inside none
    · rw [above d mine] at none
      exact tracks.inside d none
  · intro d running task owned
    rw [calm.states] at running
    rw [calm.queues] at owned
    exact stays task (tracks.created d running task owned)
  · intro d
    by_cases mine : d = c
    · subst mine
      rw [now, Ledger.live_withLive]
    · have unmoved : (L.withLive c stack).live d = L.live d := by simp [Ledger.withLive, mine]
      rw [unmoved, tracks.live d]
      refine (stack_congr (above d mine) (calm.states d) (calm.current d) (notes _ ?_)).symm
      intro runs
      exact mine (tracks.current_inj runs.2).symm
  · intro task idle
    have idleBefore (d : Fin n) : ¬k.Runs d task := fun runs =>
      idle d ((calm.runs_iff d task).mpr runs)
    rw [Ledger.saved_withLive, tracks.saved task idleBefore, notes task (idleBefore c)]

/-- The contexts above the task of a core change. -/
theorem onKernel (tracks : Tracks k L w) {stack stack' below : List Spill} (calm : k.Calm k')
    (above : w.above c = some stack) (live : L.live c = stack ++ below)
    (custody : Custody k' (L.withLive c (stack' ++ below))) :
    Tracks k' (L.withLive c (stack' ++ below)) (w.withAbove c (some stack')) := by
  refine tracks.onStack calm custody ?_ ?_ (fun _ _ => rfl) (fun _ noted => noted) ?_
  · intro d apart
    simp [Watch.withAbove, apart]
  · intro none
    simp [Watch.withAbove] at none
  · have before := tracks.live c
    simp only [Watch.stack, above, live, List.append_cancel_left_eq] at before
    simp only [Watch.stack, Watch.withAbove, Function.update_self, calm.states, calm.current,
      ← before]

/-- The task of a core changes, and with it what is written down of it. -/
theorem onTask (tracks : Tracks k L w) {a : Option (List Spill)} {m : Note} {stack : List Spill}
    (calm : k.Calm k') (running : (k.board.cores.get c).state = .running)
    (above : w'.above = update w.above c a)
    (note : w'.note = update w.note (k.scheduler.current c) (some m))
    (custody : Custody k' (L.withLive c stack))
    (now : stack = match a with
      | none => m.frames.map .call
      | some s => s ++ m.suspension.spills) : Tracks k' (L.withLive c stack) w' := by
  refine tracks.onStack calm custody ?_ (fun _ => running) ?_ ?_ ?_
  · intro d apart
    simp [above, apart]
  · intro task idle
    have apart : task ≠ k.scheduler.current c := by
      rintro rfl
      exact idle ⟨running, rfl⟩
    simp [note, apart]
  · intro task noted
    by_cases mine : task = k.scheduler.current c
    · simp [note, mine]
    · simpa [note, mine] using noted
  · rw [now]
    cases a <;> simp [Watch.stack, above, note, calm.current, calm.states, running]

theorem revise_note {m : Note} (noted : w.note task = some m) (change : Note → Note) :
    (w.revise task change).note = update w.note task (some (change m)) := by
  simp [Watch.revise, noted]

theorem revise_above (above : w.above c = none) (change : Note → Note) :
    (w.revise task change).above = update w.above c none := by
  rw [← above, Function.update_eq_self]
  rfl

/-- An operation completes, gives back what it has to, and keeps track unless it ends the run. -/
def Goes (k : Kernel (Banks size n) n) (w : Watch n) (op : Operation n) : Prop :=
  ∃ answer k', op.perform k = .ok answer k' ∧
    w.Faithful (w.after k op answer) k k' answer op ∧
    ((∀ c enabled, op = .enterTrap c enabled → answer = .done) →
      ∃ L', Tracks k' L' (w.after k op answer))

theorem enterTrap (tracks : Tracks k L w) (c : Fin n) (enabled : Bool) :
    Goes k w (.enterTrap c enabled) := by
  have live := tracks.live c
  rcases tracks.custody.enterTrap c enabled with
    ⟨b, ran, custody⟩ | ⟨b, _, ran, _⟩ | ⟨_, ran⟩
  · refine ⟨_, _, ran, trivial, fun _ => ?_⟩
    simp only [Watch.after, Watch.next]
    cases above : w.above c with
    | none =>
      have running := tracks.inside c above
      obtain ⟨m, noted⟩ := tracks.own running
      refine ⟨_, tracks.onTask ⟨rfl, fun _ => rfl⟩ running rfl (revise_note noted _) custody ?_⟩
      rw [live]
      simp [Watch.stack, above, noted, Note.suspension, Suspension.spills]
    | some stack =>
      simp only [Watch.stack, above] at live
      rw [live] at custody
      exact ⟨_, tracks.onKernel ⟨rfl, fun _ => rfl⟩ above live custody⟩
  · exact ⟨_, _, ran, trivial, fun whole => absurd (whole c enabled rfl) (by simp)⟩
  · exact ⟨_, _, ran, trivial, fun whole => absurd (whole c enabled rfl) (by simp)⟩

theorem enterCall (tracks : Tracks k L w) (c : Fin n) : Goes k w (.enterCall c) := by
  have live := tracks.live c
  rcases tracks.custody.enterCall c with ⟨b, ran, custody⟩ | ran
  · refine ⟨_, _, ran, trivial, fun _ => ?_⟩
    simp only [Watch.after, Watch.next]
    cases above : w.above c with
    | none =>
      have running := tracks.inside c above
      obtain ⟨m, noted⟩ := tracks.own running
      refine ⟨_, tracks.onTask ⟨rfl, fun _ => rfl⟩ running (revise_above above _)
        (revise_note noted _) custody ?_⟩
      rw [live]
      simp [Watch.stack, above, noted]
    | some stack =>
      simp only [Watch.stack, above] at live
      rw [live] at custody
      exact ⟨_, tracks.onKernel ⟨rfl, fun _ => rfl⟩ above live custody⟩
  · exact ⟨_, _, ran, trivial, fun _ => ⟨L, tracks⟩⟩

theorem leaveTrap (tracks : Tracks k L w) (allowed : w.Allows k (.leaveTrap c)) :
    Goes k w (.leaveTrap c) := by
  have live := tracks.live c
  rcases allowed with ⟨above, running⟩ | ⟨enabled, upper, lower, stack, above⟩
  · obtain ⟨m, noted⟩ := tracks.own running
    have top : L.live c = .trap m.enabled m.upper m.lower :: m.frames.map .call := by
      rw [live]
      simp [Watch.stack, above, running, noted, Note.suspension, Suspension.spills]
    obtain ⟨b, ran, custody, upper, lower⟩ := tracks.custody.leaveTrap top
    refine ⟨_, _, ran, ?_, fun _ => ?_⟩
    · simp only [Watch.Faithful, above]
      exact ⟨m, noted, upper, lower⟩
    · simp only [Watch.after, Watch.next, above]
      refine ⟨_, tracks.onTask ⟨rfl, fun _ => rfl⟩ running rfl ?_ custody rfl⟩
      rw [← noted, Function.update_eq_self]
      rfl
  · simp only [Watch.stack, above, List.cons_append] at live
    obtain ⟨b, ran, custody, kept⟩ := tracks.custody.leaveTrap live
    refine ⟨_, _, ran, ?_, fun _ => ?_⟩
    · simp only [Watch.Faithful, above]
      exact kept
    · simp only [Watch.after, Watch.next, above]
      exact ⟨_, tracks.onKernel ⟨rfl, fun _ => rfl⟩ above live custody⟩

theorem leaveCall (tracks : Tracks k L w) (allowed : w.Allows k (.leaveCall c)) :
    Goes k w (.leaveCall c) := by
  have live := tracks.live c
  rcases allowed with ⟨words, stack, above⟩ | ⟨m, above, noted, open'⟩
  · simp only [Watch.stack, above, List.cons_append] at live
    obtain ⟨b, ran, custody, kept, _⟩ := tracks.custody.leaveCall live
    refine ⟨_, _, ran, ?_, fun _ => ?_⟩
    · simp only [Watch.Faithful, above]
      exact kept
    · simp only [Watch.after, Watch.next, above, List.tail_cons]
      exact ⟨_, tracks.onKernel ⟨rfl, fun _ => rfl⟩ above live custody⟩
  · obtain ⟨words, rest, frames⟩ := List.exists_cons_of_ne_nil open'
    have top : L.live c = .call words :: rest.map .call := by
      rw [live]
      simp [Watch.stack, above, noted, frames]
    obtain ⟨b, ran, custody, kept, _⟩ := tracks.custody.leaveCall top
    refine ⟨_, _, ran, ?_, fun _ => ?_⟩
    · simp only [Watch.Faithful, above]
      refine ⟨m, noted, ?_⟩
      rw [frames, List.head?_cons, ← kept]
      rfl
    · simp only [Watch.after, Watch.next, above]
      refine ⟨_, tracks.onTask ⟨rfl, fun _ => rfl⟩ (tracks.inside c above) (revise_above above _)
        (revise_note noted _) custody ?_⟩
      simp [frames]

/-- A task that no core runs is created or deleted. -/
theorem onTasks (tracks : Tracks k L w) (calm : k.Calm k') (idle : ∀ c, ¬k.Runs c task)
    {m : Option Note} (custody : Custody k' (L.withSaved task (m.map Note.suspension)))
    (needed : m = none → ∀ c, task ∉ (k.scheduler.queues.get c).tasks) :
    Tracks k' (L.withSaved task (m.map Note.suspension))
      { w with note := update w.note task m } := by
  constructor
  · exact custody
  · rw [calm.queues]
    exact tracks.apart
  · intro d none
    rw [calm.states]
    exact tracks.inside d none
  · intro d running other owned
    rw [calm.states] at running
    rw [calm.queues] at owned
    by_cases mine : other = task
    · subst mine
      simp only [Function.update_self]
      intro gone
      exact needed gone d owned
    · simpa [mine] using tracks.created d running other owned
  · intro d
    rw [Ledger.live_withSaved, tracks.live d]
    by_cases running : (k.board.cores.get d).state = .running
    · have apart : k.scheduler.current d ≠ task := by
        rintro rfl
        exact idle d ⟨running, rfl⟩
      refine (stack_congr ?_ (calm.states d) (calm.current d) ?_).symm
      · rfl
      · simp [apart]
    · cases above : w.above d with
      | none => exact absurd (tracks.inside d above) running
      | some stack => simp [Watch.stack, above, calm.states, running]
  · intro other resting
    have restingBefore (d : Fin n) : ¬k.Runs d other := fun runs =>
      resting d ((calm.runs_iff d other).mpr runs)
    rw [Ledger.saved_withSaved]
    by_cases mine : other = task
    · simp [mine]
    · simpa [mine] using tracks.saved other restingBefore

theorem create (tracks : Tracks k L w) {sp entry argument : Word}
    (allowed : w.Allows k (.create task sp entry argument)) :
    Goes k w (.create task sp entry argument) := by
  obtain ⟨unknown, room⟩ := allowed
  have idle (c : Fin n) : ¬k.Runs c task := by
    intro runs
    obtain ⟨m, noted⟩ := tracks.own runs.1
    rw [runs.2, unknown] at noted
    cases noted
  have absent : L.saved task = none := by
    rw [tracks.saved task idle, unknown]
    rfl
  rcases tracks.custody.create absent idle room entry argument with
    ⟨k', ran, custody, calm⟩ | ⟨k', ran, custody, calm⟩
  · have noted := tracks.onTasks (m := some (.initial sp entry argument)) calm idle custody
      (by simp)
    exact ⟨_, k', ran, trivial, fun _ => ⟨_, noted⟩⟩
  · exact ⟨_, k', ran, trivial, fun _ => ⟨L, tracks.calm calm custody⟩⟩

theorem free (tracks : Tracks k L w) (allowed : w.Allows k (.free task)) :
    Goes k w (.free task) := by
  obtain ⟨noted, unowned⟩ := allowed
  have idle (c : Fin n) : ¬k.Runs c task := by
    intro runs
    refine unowned c ?_
    rw [← runs.2]
    exact TaskQueue.current_mem _
  have suspended : L.saved task ≠ none := by
    rw [tracks.saved task idle]
    simpa using noted
  obtain ⟨k', ran, custody, calm⟩ := tracks.custody.free suspended
  exact ⟨_, k', ran, trivial, fun _ => ⟨_, tracks.onTasks (m := none) calm idle custody
    fun _ => unowned⟩⟩

/-- A core goes on with a task of its queue; `L` and `w` have its own task as suspended already. -/
theorem resumed {new : Note} {stack : List Spill}
    (goesOn : k.GoesOn k' c task)
    (custody : Custody k' (L.resume c task new.suspension))
    (apart : ∀ c d task, task ∈ (k.scheduler.queues.get c).tasks →
      task ∈ (k.scheduler.queues.get d).tasks → c = d)
    (inside : ∀ d, d ≠ c → w.above d = none → (k.board.cores.get d).state = .running)
    (created : ∀ d, (k'.board.cores.get d).state = .running →
      ∀ task ∈ (k.scheduler.queues.get d).tasks, w.note task ≠ none)
    (above : w.above c = some stack) (here : L.live c = stack)
    (elsewhere : ∀ d, d ≠ c → L.live d = w.stack k d)
    (saved : ∀ other, (∀ d, d ≠ c → ¬k.Runs d other) →
      L.saved other = (w.note other).map Note.suspension)
    (noted : w.note task = some new) : Tracks k' (L.resume c task new.suspension) w := by
  constructor
  · exact custody
  · intro d e other owned owned'
    rw [goesOn.tasks] at owned owned'
    exact apart d e other owned owned'
  · intro d none
    by_cases mine : d = c
    · rw [mine]
      exact goesOn.runs.1
    · rw [goesOn.states d mine]
      exact inside d mine none
  · intro d running other owned
    rw [goesOn.tasks] at owned
    exact created d running other owned
  · intro d
    by_cases mine : d = c
    · subst mine
      simp [Ledger.resume, Watch.stack, above, here, goesOn.runs.1, goesOn.runs.2, noted]
    · have unmoved : (L.resume c task new.suspension).live d = L.live d := by
        simp [Ledger.resume, Ledger.withLive, mine]
      rw [unmoved, elsewhere d mine]
      exact (stack_congr rfl (goesOn.states d mine) (goesOn.current d mine) rfl).symm
  · intro other idle
    have apartTask : other ≠ task := by
      rintro rfl
      exact idle c goesOn.runs
    rw [Ledger.resume, Ledger.saved_withLive, Ledger.saved_withSaved, if_neg apartTask]
    exact saved other fun d mine runs => idle d ((goesOn.runs_iff mine other).mpr runs)

theorem enterFirst (tracks : Tracks k L w) (allowed : w.Allows k (.enterFirst c)) :
    Goes k w (.enterFirst c) := by
  obtain ⟨state, null, created⟩ := allowed
  obtain ⟨m, noted⟩ := Option.ne_none_iff_exists'.mp (created _ (TaskQueue.current_mem _))
  have idle (d : Fin n) : ¬k.Runs d (k.scheduler.current c) := by
    intro runs
    obtain rfl := tracks.current_inj runs.2
    rw [runs.1] at state
    cases state
  have suspended : L.saved (k.scheduler.current c) = some m.suspension := by
    rw [tracks.saved _ idle]
    exact congrArg (Option.map Note.suspension) noted
  obtain ⟨k', ran, custody, goesOn⟩ := tracks.custody.enterFirst null suspended
  have current : k'.scheduler.current c = k.scheduler.current c := goesOn.runs.2
  have empty := tracks.custody.kept.live_eq_nil null
  have live := tracks.live c
  have above : w.above c = some [] := by
    cases above : w.above c with
    | none =>
      rw [tracks.inside c above] at state
      cases state
    | some stack =>
      rw [empty] at live
      simp [Watch.stack, above, state] at live
      rw [live]
  refine ⟨_, k', ran, ⟨m, ?_, rfl⟩, fun _ =>
    ⟨L.resume c (k.scheduler.current c) m.suspension, ?_⟩⟩
  · rw [current]
    exact noted
  · refine resumed goesOn custody tracks.apart (fun d _ => tracks.inside d) ?_ above empty
      (fun d _ => tracks.live d) ?_ noted
    · intro d running task owned
      by_cases mine : d = c
      · subst mine
        exact created task owned
      · rw [goesOn.states d mine] at running
        exact tracks.created d running task owned
    · intro other resting
      refine tracks.saved other fun d runs => ?_
      by_cases mine : d = c
      · subst mine
        have started := runs.1
        rw [state] at started
        cases started
      · exact resting d mine runs

/-- The ledger suspends what the watch notes. -/
theorem saved_suspend (tracks : Tracks k L w) (calls : List Spill) (old : Note) {task : TaskId}
    (resting : ∀ d, d ≠ c → ¬k.Runs d task) :
    (L.suspend c calls (k.scheduler.current c) old.suspension).saved task =
      (update w.note (k.scheduler.current c) (some old) task).map Note.suspension := by
  rw [Ledger.suspend, Ledger.saved_withLive, Ledger.saved_withSaved]
  by_cases mine : task = k.scheduler.current c
  · simp [mine]
  · rw [if_neg mine, Function.update_of_ne mine]
    refine tracks.saved task fun d runs => ?_
    by_cases here : d = c
    · subst here
      exact mine runs.2.symm
    · exact resting d here runs

theorem switch (tracks : Tracks k L w) {choice : Choice} {depth : TrapDepth}
    (allowed : w.Allows k (.switch c choice depth)) : Goes k w (.switch c choice depth) := by
  obtain ⟨running, calls, m, above, plain, deep, noted, room⟩ := allowed
  set outgoing := k.scheduler.current c with houtgoing
  set incoming := (choice.pick (k.scheduler.queues.get c)).current with hincoming
  set old : Note := { m with nesting := (k.board.cores.get c).nesting } with hold
  have note : (w.next k (.switch c choice depth)).note = update w.note outgoing (some old) :=
    revise_note noted _
  set w' := w.next k (.switch c choice depth) with hw'
  have top : L.live c = calls ++ old.suspension.spills := by
    rw [tracks.live c]
    simp only [Watch.stack, above, running, if_true, ← houtgoing, noted]
    rfl
  have owned : incoming ∈ (k.scheduler.queues.get c).tasks := by
    rw [← choice.tasks_pick (k.scheduler.queues.get c)]
    exact TaskQueue.current_mem _
  have saved (task : TaskId) (resting : ∀ d, d ≠ c → ¬k.Runs d task) :
      (L.suspend c calls outgoing old.suspension).saved task =
        (w'.note task).map Note.suspension := by
    rw [note]
    exact tracks.saved_suspend calls old resting
  have stays (task : TaskId) (known : w.note task ≠ none) : w'.note task ≠ none := by
    rw [note, Function.update_apply]
    split
    · simp
    · exact known
  obtain ⟨new, newNoted⟩ :=
    Option.ne_none_iff_exists'.mp (stays incoming (tracks.created c running _ owned))
  have suspended : (L.suspend c calls outgoing old.suspension).saved incoming =
      some new.suspension := by
    rw [saved incoming fun d other => Kernel.not_runs_of_mem tracks.apart owned other, newNoted]
    rfl
  obtain ⟨k', ran, custody, goesOn⟩ :=
    tracks.custody.switch running top plain deep rfl room suspended
  have current : k'.scheduler.current c = incoming := goesOn.runs.2
  refine ⟨_, k', ran, ⟨new, ?_, rfl⟩, fun _ =>
    ⟨(L.suspend c calls outgoing old.suspension).resume c incoming new.suspension, ?_⟩⟩
  · rw [current]
    exact newNoted
  · refine resumed goesOn custody tracks.apart (fun d _ => tracks.inside d) ?_ above
      (Ledger.live_withLive _ c calls) ?_ saved newNoted
    · intro d runningThen task ownedBy
      refine stays task (tracks.created d ?_ task ownedBy)
      by_cases mine : d = c
      · rw [mine, running]
      · rw [← goesOn.states d mine, runningThen]
    · intro d apart
      have unmoved : (L.suspend c calls outgoing old.suspension).live d = L.live d := by
        simp [Ledger.suspend, Ledger.withLive, apart]
      have other : k.scheduler.current d ≠ outgoing := fun same =>
        apart (tracks.current_inj same)
      rw [unmoved, tracks.live d]
      refine (stack_congr ?_ rfl rfl ?_).symm
      · rfl
      · exact (congrFun note _).trans (Function.update_of_ne other _ _)

theorem goes (tracks : Tracks k L w) {op : Operation n} (allowed : w.Allows k op) :
    Goes k w op := by
  cases op with
  | create task sp entry argument => exact tracks.create allowed
  | enterTrap c enabled => exact tracks.enterTrap c enabled
  | enterCall c => exact tracks.enterCall c
  | leaveTrap c => exact tracks.leaveTrap allowed
  | leaveCall c => exact tracks.leaveCall allowed
  | switch c choice depth => exact tracks.switch allowed
  | enterFirst c => exact tracks.enterFirst allowed
  | free task => exact tracks.free allowed

end Tracks

theorem Watching.tracks (small : size < segmentNumbers) {k : Kernel (Banks size n) n}
    {w : Watch n} (run : Watching k w) : ∃ L, Tracks k L w := by
  induction run with
  | boot booted apart =>
    have custody := Custody.boot small booted
    obtain ⟨rate, scheduler, _, rfl⟩ := Kernel.eq_of_boot booted
    refine ⟨{}, custody, apart, ?_, ?_, ?_, ?_⟩
    · intro c none
      simp at none
    · intro c running
      simp at running
    · intro c
      simp [Watch.stack]
    · intro task _
      rfl
  | perform _ op allowed ran whole ih =>
    obtain ⟨L, tracks⟩ := ih
    obtain ⟨answer, k', ran', _, keeps⟩ := tracks.goes allowed
    rw [ran] at ran'
    cases ran'
    exact keeps whole
  | @elsewhere k k' w _ quiet ih =>
    obtain ⟨L, tracks⟩ := ih
    refine ⟨L, tracks.calm quiet.calm
      (Elsewhere.custody ⟨quiet.pool, quiet.calm, ?_⟩ tracks.custody)⟩
    intro task suspended
    have idle (c : Fin n) : ¬k.Runs c task := fun runs => suspended (tracks.custody.own runs)
    refine quiet.parked task ⟨?_, idle⟩
    rw [tracks.saved task idle] at suspended
    simpa using suspended

/-- In every watched run every operation that may be issued completes, and what it gives back is
what the watch wrote down. -/
theorem Watching.transparent (small : size < segmentNumbers) {k : Kernel (Banks size n) n}
    {w : Watch n} (run : Watching k w) (op : Operation n) (allowed : w.Allows k op) :
    ∃ answer k', op.perform k = .ok answer k' ∧
      w.Faithful (w.after k op answer) k k' answer op := by
  obtain ⟨L, tracks⟩ := run.tracks small
  obtain ⟨answer, k', ran, faithful, _⟩ := tracks.goes allowed
  exact ⟨answer, k', ran, faithful⟩

namespace Watch

/-- An operation that may be issued and is not refused. -/
def perform? (s : Kernel (Banks size n) n × Watch n) (op : Operation n) :
    Option (Kernel (Banks size n) n × Watch n) :=
  if s.2.Allows s.1 op then
    match op.perform s.1 with
    | .ok .done k => some (k, s.2.next s.1 op)
    | .ok (.resumed _) k => some (k, s.2.next s.1 op)
    | .ok (.refused _) _ => none
    | .error _ _ => none
  else none

/-- Boot a single core and perform operations. -/
def run? (core : Fin 1) (b : Kernel.Boot 1) (ops : List (Operation 1)) :
    Option (Kernel (Banks size 1) 1 × Watch 1) :=
  match Kernel.boot core b {} with
  | .ok k => ops.foldlM perform? (k, {})
  | .error _ => none

end Watch

theorem Operation.enterTrap_ne_resumed (c : Fin n) (enabled : Bool) (r : Resumption)
    {k k' : Kernel (Banks size n) n} :
    (Operation.enterTrap c enabled).perform k ≠ .ok (.resumed r) k' := by
  intro ran
  simp only [Operation.perform, Action.bind_run] at ran
  split at ran
  · rename_i refused _ _
    cases refused <;> cases ran
  · cases ran

theorem Watching.of_perform? {k : Kernel (Banks size n) n} {w : Watch n}
    {s : Kernel (Banks size n) n × Watch n} (run : Watching k w) {op : Operation n}
    (made : Watch.perform? (k, w) op = some s) : Watching s.1 s.2 := by
  unfold Watch.perform? at made
  split at made
  case isTrue allowed =>
    split at made
    case h_1 ran =>
      cases made
      exact run.perform op allowed ran fun _ _ _ => rfl
    case h_2 r _ ran =>
      cases made
      refine run.perform op allowed ran ?_
      rintro c enabled rfl
      exact absurd ran (Operation.enterTrap_ne_resumed c enabled r)
    all_goals cases made
  case isFalse => cases made

theorem Watching.of_run? {core : Fin 1} {b : Kernel.Boot 1} {ops : List (Operation 1)}
    {s : Kernel (Banks size 1) 1 × Watch 1} (ran : Watch.run? core b ops = some s) :
    Watching s.1 s.2 := by
  unfold Watch.run? at ran
  split at ran
  · rename_i booted
    exact Action.foldlM_keeps (P := fun s => Watching s.1 s.2)
      (fun _ _ _ first before => before.of_perform? first) ran
      (.boot booted fun c d _ _ _ => Subsingleton.elim c d)
  · cases ran

/-- Task 0 opens a call, is interrupted and makes way for task 1, which executes until it is
interrupted and makes way for task 0. -/
def Watch.thereAndBack? (c : Fin 1) : Option (Kernel (Banks 8 1) 1 × Watch 1) :=
  run? c { queues := #v[[0, 1]], stackSizes := #[8, 8] }
    [.create 0 (.stack 0 8) (.num 4) (.num 5), .create 1 (.stack 1 8) (.num 6) (.num 7),
      .enterFirst c, .leaveTrap c, .enterCall c, .enterTrap c true, .switch c .next 0,
      .leaveTrap c, .enterTrap c false, .switch c .next 0]

/-- The upper bank still has words of task 1 when task 0 is about to go on. -/
theorem Watch.thereAndBack_passes : ∃ s ∈ thereAndBack? 0,
    s.1.scheduler.current 0 = 0 ∧ (s.1.board.cores.get 0).switches = 2 ∧
      s.2.above 0 = some [] ∧ s.2.Allows s.1 (.leaveTrap 0) ∧
      ∃ m ∈ s.2.note 0, m.frames ≠ [] ∧ (s.1.storage.context.upper.get 0).spill ≠ m.upper := by
  decide +kernel

/-- A task that made way for another goes on with the registers it was interrupted with. -/
theorem Watching.transparent_task_returns :
    ∃ (k : Kernel (Banks 8 1) 1) (w : Watch 1) (m : Note), Watching k w ∧
      k.scheduler.current 0 = 0 ∧ (k.board.cores.get 0).switches = 2 ∧ w.above 0 = some [] ∧
      w.note 0 = some m ∧ m.frames ≠ [] ∧ (k.storage.context.upper.get 0).spill ≠ m.upper ∧
      ∃ answer k', (Operation.leaveTrap 0).perform k = .ok answer k' ∧
        w.Faithful (w.after k (.leaveTrap 0) answer) k k' answer (.leaveTrap 0) := by
  obtain ⟨⟨k, w⟩, ran, current, switches, above, allowed, m, noted, called, apart⟩ :=
    Watch.thereAndBack_passes
  have run : Watching k w := .of_run? ran
  exact ⟨k, w, m, run, current, switches, above, noted, called, apart,
    run.transparent (by decide) (.leaveTrap 0) allowed⟩

end Preempt
