import Mathlib.Logic.Function.Basic
import Preempt.Proofs.Lock.Turns
import Preempt.Proofs.Nesting

/-!
Mutual exclusion. Any number of cores contend for the lock in both classes, one turn at a time in
any order, and the rest of the kernel layer works in between. The invariant is that the bit of a
class is set exactly while one core owns the class: it has levels open, or it has won the bit and is
about to count the first.
-/

namespace Preempt

open Function (update)

variable {n : Nat}

/-- Cores in the middle of calls, with the number of calls that each has completed. -/
structure Contention (n : Nat) where
  board : Board n
  phase : Fin n → Phase := fun _ => .outside
  /-- The interrupt enable that the last call of a core found. -/
  found : Fin n → Bool := fun _ => false
  acquired : Fin n → LockClass → Nat := fun _ _ => 0
  released : Fin n → LockClass → Nat := fun _ _ => 0

inductive Turn (n : Nat) where
  | start (c : Fin n) (call : LockCall)
  | proceed (c : Fin n)

/-- The call that a core is in. -/
def Phase.call? : Phase → Option LockCall
  | outside => none
  | trying d _ | counting d _ => some (.acquire d)

namespace Turn

def core : Turn n → Fin n
  | start c _ | proceed c => c

def call? (t : Turn n) (s : Contention n) : Option LockCall :=
  match t with
  | start _ call => some call
  | proceed c => (s.phase c).call?

/-- A core makes one call after the other, and has fewer than 2³² levels open. -/
def Allowed (t : Turn n) (s : Contention n) : Prop :=
  match t with
  | start c call => s.phase c = .outside ∧
      ∀ d, call = .acquire d → s.acquired c d - s.released c d + 1 < 2 ^ 32
  | proceed c => s.phase c ≠ .outside

/-- Where a turn brings its core. An attempt wins exactly when the bit of its class is free, and a
nested acquire needs none. -/
def next (t : Turn n) (s : Contention n) : Phase :=
  match t with
  | start c (.acquire d) =>
    if (s.board.cores.get c).lockNesting d = 0 then .trying d (s.board.machine.enabled.get c)
    else .outside
  | start _ (.release _) => .outside
  | proceed c =>
    match s.phase c with
    | .trying d wasEnabled =>
      if s.board.machine.isHeld d.bit then .trying d wasEnabled else .counting d wasEnabled
    | _ => .outside

def perform (t : Turn n) (s : Contention n) : BoardM n Phase := do
  Board.onMachine (·.turnOf t.core)
  match t with
  | start c call => Board.beginCall c call
  | proceed c => Board.proceed c (s.phase c)

end Turn

namespace Contention

def nesting (s : Contention n) (c : Fin n) (d : LockClass) : UInt32 :=
  (s.board.cores.get c).lockNesting d

def isHeld (s : Contention n) (d : LockClass) : Bool := s.board.machine.isHeld d.bit

def isEnabled (s : Contention n) (c : Fin n) : Bool := s.board.machine.enabled.get c

/-- After a turn that came to `phase` and left the board as `b`. A core that is outside again has
completed its call. -/
def after (s : Contention n) (t : Turn n) (phase : Phase) (b : Board n) : Contention n where
  board := b
  phase := update s.phase t.core phase
  found := match t with
    | .start c _ => update s.found c (s.isEnabled c)
    | .proceed _ => s.found
  acquired c d := s.acquired c d +
    if phase = .outside ∧ c = t.core ∧ t.call? s = some (.acquire d) then 1 else 0
  released c d := s.released c d +
    if phase = .outside ∧ c = t.core ∧ t.call? s = some (.release d) then 1 else 0

/-- What goes on outside the lock: it changes neither the two bits nor a count, nor the mask of a
core that is in a call. -/
structure Spares (s : Contention n) (b : Board n) : Prop where
  held : ∀ d : LockClass, b.machine.isHeld d.bit = s.isHeld d
  nesting : ∀ c d, (b.cores.get c).lockNesting d = s.nesting c d
  masks : ∀ c, s.phase c ≠ .outside → b.machine.enabled.get c = s.isEnabled c

end Contention

/-- The states that cores lead to by turns from a free lock on. -/
inductive Contending : Contention n → Prop
  | free {b : Board n} (held : ∀ d : LockClass, b.machine.isHeld d.bit = false)
      (nesting : ∀ c d, (b.cores.get c).lockNesting d = 0) : Contending { board := b }
  | turn {s : Contention n} {phase : Phase} {b : Board n} (before : Contending s) (t : Turn n)
      (allowed : t.Allowed s) (ran : t.perform s s.board = .ok phase b) :
      Contending (s.after t phase b)
  | elsewhere {s : Contention n} {b : Board n} (before : Contending s) (spares : s.Spares b) :
      Contending { s with board := b }

namespace Contention

/-- One core at most has levels open in a class. The bit says whether one has, or is about to; the
count says how many. -/
structure Exclusive (s : Contention n) : Prop where
  alone : ∀ d c c', s.nesting c d ≠ 0 → s.nesting c' d ≠ 0 → c = c'
  held : ∀ d, s.isHeld d = true ↔
    (∃ c, s.nesting c d ≠ 0) ∨ ∃ c wasEnabled, s.phase c = .counting d wasEnabled
  balance : ∀ c d, (s.nesting c d).toNat + s.released c d = s.acquired c d

/-- What a turn that came to `s'` has done and what not. -/
structure Orderly (s : Contention n) (t : Turn n) (s' : Contention n) : Prop where
  goes : s'.phase t.core = t.next s
  /-- The other class is not affected. -/
  classes : ∀ e, (∀ call, t.call? s = some call → call.lockClass ≠ e) →
    s'.isHeld e = s.isHeld e ∧ ∀ c, s'.nesting c e = s.nesting c e
  cores : ∀ c, c ≠ t.core → s'.board.cores.get c = s.board.cores.get c ∧
    s'.isEnabled c = s.isEnabled c
  /-- A completed call leaves the mask as it found it. -/
  restored : s'.phase t.core = .outside → s'.isEnabled t.core = s'.found t.core
  /-- A nested acquire neither tries nor waits. -/
  nested : ∀ c d, t = .start c (.acquire d) → s.nesting c d ≠ 0 →
    s'.board.machine.exclusive = s.board.machine.exclusive ∧
      s'.board.machine.snoozes = s.board.machine.snoozes

/-- The core has levels open, or will have one without a further attempt. -/
def Owns (s : Contention n) (c : Fin n) (d : LockClass) : Prop :=
  s.nesting c d ≠ 0 ∨ ∃ wasEnabled, s.phase c = .counting d wasEnabled

/-- The bit of a class is set while one core owns the class. A core waits only for its first level,
and knows the mask it found. -/
structure Guarded (s : Contention n) : Prop where
  held : ∀ d, s.isHeld d = true ↔ ∃ c, s.Owns c d
  alone : ∀ {c c' d}, s.Owns c d → s.Owns c' d → c = c'
  first : ∀ {c d}, (s.phase c).call? = some (.acquire d) → s.nesting c d = 0
  masked : ∀ {c d wasEnabled}, s.phase c = .trying d wasEnabled ∨
    s.phase c = .counting d wasEnabled → wasEnabled = s.found c ∧ s.isEnabled c = false
  balance : ∀ c d, (s.nesting c d).toNat + s.released c d = s.acquired c d

namespace Guarded

variable {s s' : Contention n} {c : Fin n} {d : LockClass}

theorem exclusive (guarded : Guarded s) : s.Exclusive where
  alone d c c' open' open'' := guarded.alone (Or.inl open') (Or.inl open'')
  held d := by
    rw [guarded.held]
    constructor
    · rintro ⟨c, opened | ⟨wasEnabled, won⟩⟩
      · exact Or.inl ⟨c, opened⟩
      · exact Or.inr ⟨c, wasEnabled, won⟩
    · rintro (⟨c, opened⟩ | ⟨c, wasEnabled, won⟩)
      · exact ⟨c, Or.inl opened⟩
      · exact ⟨c, Or.inr ⟨wasEnabled, won⟩⟩
  balance := guarded.balance

theorem free {b : Board n} (held : ∀ d : LockClass, b.machine.isHeld d.bit = false)
    (nesting : ∀ c d, (b.cores.get c).lockNesting d = 0) : Guarded { board := b } where
  held d := by simp [isHeld, held, Owns, Contention.nesting, nesting]
  alone := by simp [Owns, Contention.nesting, nesting]
  first := by simp [Phase.call?]
  masked := by simp
  balance c d := by simp [Contention.nesting, nesting]

theorem spares (guarded : Guarded s) {b : Board n} (spares : s.Spares b) :
    Guarded { s with board := b } where
  held d := by
    simp only [isHeld, Owns, Contention.nesting, spares.held, spares.nesting]
    exact guarded.held d
  alone := by
    simp only [Owns, Contention.nesting, spares.nesting]
    exact guarded.alone
  first called := by
    simp only [Contention.nesting, spares.nesting]
    exact guarded.first called
  masked {c d wasEnabled} inside := by
    obtain ⟨found, masked⟩ := guarded.masked inside
    refine ⟨found, (spares.masks c fun outside => ?_).trans masked⟩
    rcases inside with trying | counting
    · rw [trying] at outside
      cases outside
    · rw [counting] at outside
      cases outside
  balance c d := by
    simp only [Contention.nesting, spares.nesting]
    exact guarded.balance c d

end Guarded

variable {s : Contention n} {t : Turn n} {call : LockCall} {phase : Phase} {b : Board n}
  {c : Fin n} {d e : LockClass}

/-- What every turn leaves alone: the other class and the other cores. -/
structure Confined (s : Contention n) (t : Turn n) (call : LockCall) (phase : Phase)
    (b : Board n) : Prop where
  cores : ∀ c, c ≠ t.core → b.cores.get c = s.board.cores.get c ∧
    b.machine.enabled.get c = s.isEnabled c
  classes : ∀ e, e ≠ call.lockClass → b.machine.isHeld e.bit = s.isHeld e ∧
    (b.cores.get t.core).lockNesting e = s.nesting t.core e
  before : (s.phase t.core).call? = none ∨ (s.phase t.core).call? = some call
  now : phase.call? = none ∨ phase.call? = some (.acquire call.lockClass)

theorem nesting_after_of_ne (confined : s.Confined t call phase b)
    (apart : c ≠ t.core ∨ e ≠ call.lockClass) :
    (s.after t phase b).nesting c e = s.nesting c e := by
  by_cases mine : c = t.core
  · subst mine
    exact (confined.classes e (apart.resolve_left fun other => other rfl)).2
  · exact congrArg (·.lockNesting e) (confined.cores c mine).1

theorem owns_after_of_ne (confined : s.Confined t call phase b)
    (apart : c ≠ t.core ∨ e ≠ call.lockClass) :
    (s.after t phase b).Owns c e ↔ s.Owns c e := by
  have counting : (∃ wasEnabled, (s.after t phase b).phase c = .counting e wasEnabled) ↔
      ∃ wasEnabled, s.phase c = .counting e wasEnabled := by
    by_cases mine : c = t.core
    · have other : e ≠ call.lockClass := apart.resolve_left fun other => other mine
      subst mine
      simp only [after, Function.update_self]
      constructor
      · rintro ⟨wasEnabled, rfl⟩
        rcases confined.now with none | same
        · cases none
        · cases same
          exact absurd rfl other
      · rintro ⟨wasEnabled, was⟩
        have before := confined.before
        rw [was] at before
        rcases before with none | same
        · cases none
        · cases same
          exact absurd rfl other
    · simp only [after, Function.update_of_ne mine]
  rw [Owns, Owns, nesting_after_of_ne confined apart, counting]

theorem acquired_after_of_ne (phase : Phase) (b : Board n) (called : t.call? s = some call)
    (apart : c ≠ t.core ∨ e ≠ call.lockClass) :
    (s.after t phase b).acquired c e = s.acquired c e ∧
      (s.after t phase b).released c e = s.released c e := by
  have other (cause : LockCall) (same : cause.lockClass = e) :
      ¬(phase = .outside ∧ c = t.core ∧ t.call? s = some cause) := by
    rintro ⟨_, mine, calls⟩
    rw [called] at calls
    cases calls
    rcases apart with elsewhere | otherClass
    · exact elsewhere mine
    · exact otherClass same.symm
  constructor
  · simp only [after, if_neg (other (.acquire e) rfl), Nat.add_zero]
  · simp only [after, if_neg (other (.release e) rfl), Nat.add_zero]

theorem owns_after_self : (s.after t phase b).Owns t.core e ↔
    (b.cores.get t.core).lockNesting e ≠ 0 ∨ ∃ wasEnabled, phase = .counting e wasEnabled := by
  simp only [Owns, after, nesting, Function.update_self]

theorem found_after_start (call : LockCall) :
    (s.after (.start c call) phase b).found c = s.isEnabled c := Function.update_self _ _ _

theorem phase_after_self : (s.after t phase b).phase t.core = phase := Function.update_self _ _ _

theorem after_of_ne (confined : s.Confined t call phase b) (apart : c ≠ t.core) :
    (s.after t phase b).phase c = s.phase c ∧ (s.after t phase b).found c = s.found c ∧
      (s.after t phase b).isEnabled c = s.isEnabled c := by
  refine ⟨Function.update_of_ne apart _ _, ?_, (confined.cores c apart).2⟩
  cases t with
  | start c' call => exact Function.update_of_ne apart _ _
  | proceed c' => rfl

/-- Either the class stays with its owner, or nobody else owns it and the bit says whether the core
of the turn does. -/
def HandsOver (s : Contention n) (t : Turn n) (d : LockClass) (phase : Phase) (b : Board n) :
    Prop :=
  b.machine.isHeld d.bit = s.isHeld d ∧ ((s.after t phase b).Owns t.core d ↔ s.Owns t.core d) ∨
    (b.machine.isHeld d.bit = true ↔ (s.after t phase b).Owns t.core d) ∧
      ∀ c, c ≠ t.core → ¬s.Owns c d

theorem Guarded.held_after (guarded : Guarded s) (confined : s.Confined t call phase b)
    (owner : s.HandsOver t call.lockClass phase b) (e : LockClass) :
    (s.after t phase b).isHeld e = true ↔ ∃ c, (s.after t phase b).Owns c e := by
  by_cases same : e = call.lockClass
  · subst same
    rcases owner with ⟨held, owns⟩ | ⟨held, others⟩
    · have all (c : Fin n) :
          (s.after t phase b).Owns c call.lockClass ↔ s.Owns c call.lockClass := by
        by_cases mine : c = t.core
        · rw [mine, owns]
        · exact owns_after_of_ne confined (Or.inl mine)
      simp only [all]
      rw [← guarded.held call.lockClass, ← held]
      rfl
    · refine held.trans ⟨fun owns => ⟨t.core, owns⟩, ?_⟩
      rintro ⟨c, owns⟩
      by_cases mine : c = t.core
      · exact mine ▸ owns
      · exact absurd ((owns_after_of_ne confined (Or.inl mine)).mp owns) (others c mine)
  · simp only [owns_after_of_ne confined (Or.inr same)]
    rw [← guarded.held e, ← (confined.classes e same).1]
    rfl

theorem Guarded.alone_after (guarded : Guarded s) (confined : s.Confined t call phase b)
    (owner : s.HandsOver t call.lockClass phase b) {c c' : Fin n} {e : LockClass}
    (owns : (s.after t phase b).Owns c e) (owns' : (s.after t phase b).Owns c' e) : c = c' := by
  by_cases same : e = call.lockClass
  · subst same
    rcases owner with ⟨_, kept⟩ | ⟨_, others⟩
    · have all (c : Fin n) (owns : (s.after t phase b).Owns c call.lockClass) :
          s.Owns c call.lockClass := by
        by_cases mine : c = t.core
        · exact mine ▸ kept.mp (mine ▸ owns)
        · exact (owns_after_of_ne confined (Or.inl mine)).mp owns
      exact guarded.alone (all c owns) (all c' owns')
    · have mine {c : Fin n} (owns : (s.after t phase b).Owns c call.lockClass) : c = t.core := by
        by_contra apart
        exact others c apart ((owns_after_of_ne confined (Or.inl apart)).mp owns)
      rw [mine owns, mine owns']
  · exact guarded.alone ((owns_after_of_ne confined (Or.inr same)).mp owns)
      ((owns_after_of_ne confined (Or.inr same)).mp owns')

theorem Guarded.balance_after (guarded : Guarded s) (called : t.call? s = some call)
    (confined : s.Confined t call phase b)
    (balance : ((b.cores.get t.core).lockNesting call.lockClass).toNat +
        (s.released t.core call.lockClass +
          if phase = .outside ∧ call = .release call.lockClass then 1 else 0) =
      s.acquired t.core call.lockClass +
        if phase = .outside ∧ call = .acquire call.lockClass then 1 else 0)
    (c : Fin n) (e : LockClass) :
    ((s.after t phase b).nesting c e).toNat + (s.after t phase b).released c e =
      (s.after t phase b).acquired c e := by
  by_cases mine : c = t.core ∧ e = call.lockClass
  · rw [mine.1, mine.2]
    simpa [after, nesting, called] using balance
  · have apart : c ≠ t.core ∨ e ≠ call.lockClass := not_and_or.mp mine
    obtain ⟨acquired, released⟩ := acquired_after_of_ne phase b called apart
    rw [nesting_after_of_ne confined apart, acquired, released]
    exact guarded.balance c e

/-- A turn keeps the invariant if it does for its own core and class. -/
theorem Guarded.turned (guarded : Guarded s) (called : t.call? s = some call)
    (confined : s.Confined t call phase b) (owner : s.HandsOver t call.lockClass phase b)
    (first : phase ≠ .outside → (b.cores.get t.core).lockNesting call.lockClass = 0)
    (masked : ∀ wasEnabled, phase = .trying call.lockClass wasEnabled ∨
      phase = .counting call.lockClass wasEnabled →
      wasEnabled = (s.after t phase b).found t.core ∧ b.machine.enabled.get t.core = false)
    (balance : ((b.cores.get t.core).lockNesting call.lockClass).toNat +
        (s.released t.core call.lockClass +
          if phase = .outside ∧ call = .release call.lockClass then 1 else 0) =
      s.acquired t.core call.lockClass +
        if phase = .outside ∧ call = .acquire call.lockClass then 1 else 0) :
    Guarded (s.after t phase b) := by
  refine ⟨guarded.held_after confined owner, guarded.alone_after confined owner, ?_, ?_,
    guarded.balance_after called confined balance⟩
  · intro c e called'
    by_cases mine : c = t.core
    · subst mine
      rw [phase_after_self] at called'
      have inside : phase ≠ .outside := by
        rintro rfl
        cases called'
      rcases confined.now with none | same
      · rw [none] at called'
        cases called'
      · rw [same] at called'
        cases called'
        exact first inside
    · rw [nesting_after_of_ne confined (Or.inl mine)]
      rw [(after_of_ne confined mine).1] at called'
      exact guarded.first called'
  · intro c e wasEnabled inside
    by_cases mine : c = t.core
    · subst mine
      rw [phase_after_self] at inside
      have same : e = call.lockClass := by
        have now := confined.now
        rcases inside with rfl | rfl <;> simpa [Phase.call?] using now
      exact masked wasEnabled (same ▸ inside)
    · obtain ⟨phase, found, enabled⟩ := after_of_ne confined mine
      rw [phase] at inside
      rw [found, enabled]
      exact guarded.masked inside

theorem Confined.orderly (confined : s.Confined t call phase b) (called : t.call? s = some call)
    (goes : phase = t.next s)
    (restored : phase = .outside → b.machine.enabled.get t.core = (s.after t phase b).found t.core)
    (nested : ∀ c d, t = .start c (.acquire d) → s.nesting c d ≠ 0 →
      b.machine.exclusive = s.board.machine.exclusive ∧
        b.machine.snoozes = s.board.machine.snoozes) :
    s.Orderly t (s.after t phase b) := by
  constructor
  · rw [phase_after_self, goes]
  · intro e other
    have apart : e ≠ call.lockClass := (other call called).symm
    exact ⟨(confined.classes e apart).1, fun c => nesting_after_of_ne confined (Or.inr apart)⟩
  · exact confined.cores
  · rw [phase_after_self]
    exact restored
  · exact nested

section Confinement

variable {trace : Trace} {m : Machine n} {core : Core}

/-- A turn that counts: the count of its class, and nothing else of the cores, changes. -/
theorem confined_count (outside : s.phase t.core = .outside ∨ (s.phase t.core).call? = some call)
    (masks : ∀ c, c ≠ t.core → m.enabled.get c = s.isEnabled c)
    (bits : ∀ e, e ≠ call.lockClass → m.isHeld e.bit = s.isHeld e)
    (counts : ∀ e, e ≠ call.lockClass → core.lockNesting e = s.nesting t.core e) :
    s.Confined t call .outside
      { s.board with trace, machine := m, cores := s.board.cores.put t.core core } := by
  constructor
  · intro c apart
    exact ⟨Vector.get_put_of_ne _ (Ne.symm apart) _, masks c apart⟩
  · intro e apart
    refine ⟨bits e apart, ?_⟩
    rw [Vector.get_put_self]
    exact counts e apart
  · exact outside.imp_left fun outside => by rw [outside]; rfl
  · exact Or.inl rfl

/-- A turn that does not count. -/
theorem confined_try (outside : s.phase t.core = .outside ∨ (s.phase t.core).call? = some call)
    (masks : ∀ c, c ≠ t.core → m.enabled.get c = s.isEnabled c)
    (bits : ∀ e, e ≠ call.lockClass → m.isHeld e.bit = s.isHeld e)
    (now : phase.call? = some (.acquire call.lockClass)) :
    s.Confined t call phase { s.board with trace, machine := m } := by
  constructor
  · exact fun c apart => ⟨rfl, masks c apart⟩
  · exact fun e apart => ⟨bits e apart, rfl⟩
  · exact outside.imp_left fun outside => by rw [outside]; rfl
  · exact Or.inr now

end Confinement

/-- How a turn ends. Only a release of what is not held halts, and it changes no bit and no
count. -/
inductive Comes (s : Contention n) (t : Turn n) : Prop
  | halts {c : Fin n} {d : LockClass} {b : Board n} (is : t = .start c (.release d))
      (unheld : s.nesting c d = 0)
      (ran : t.perform s s.board = .error (.violation .unheldLockRelease) b)
      (bits : b.machine.exclusive = s.board.machine.exclusive) (counts : b.cores = s.board.cores)
  | completes {phase : Phase} {b : Board n} (ran : t.perform s s.board = .ok phase b)
      (guarded : Guarded (s.after t phase b)) (orderly : s.Orderly t (s.after t phase b))

/-- The halt comes with interrupts masked, before anything is changed. -/
theorem release_unheld (unheld : s.nesting c d = 0) : ∃ b,
    (Turn.start c (.release d)).perform s s.board = .error (.violation .unheldLockRelease) b ∧
      b.machine.exclusive = s.board.machine.exclusive ∧ b.cores = s.board.cores := by
  have halted := Board.release_run_unheld c d
    { s.board with machine := s.board.machine.turnOf c } unheld
  refine ⟨{ s.board with
    trace := s.board.trace.push .disable
    machine := (s.board.machine.turnOf c).setEnabled false }, ?_, rfl, rfl⟩
  simp only [Turn.perform, Turn.core, Action.bind_run, Board.onMachine, Board.beginCall, halted]

namespace Guarded

variable (guarded : Guarded s)

include guarded

theorem start_acquire_first (outside : s.phase c = .outside) (unheld : s.nesting c d = 0) :
    s.Comes (.start c (.acquire d)) := by
  obtain ⟨trace, ran⟩ := Board.beginCall_run_first
    (b := { s.board with machine := s.board.machine.turnOf c }) unheld
  have confined : s.Confined (.start c (.acquire d)) (.acquire d)
      (.trying d (s.isEnabled c)) { s.board with
        trace, machine := (s.board.machine.turnOf c).setEnabled false } :=
    confined_try (Or.inl outside) (fun c' apart => Vector.get_put_of_ne _ (Ne.symm apart) _)
      (fun _ _ => rfl) rfl
  refine .completes ran (guarded.turned rfl confined (Or.inl ⟨rfl, ?_⟩) (fun _ => unheld) ?_ ?_)
    (confined.orderly rfl (if_pos unheld).symm ?_ ?_)
  · rw [owns_after_self]
    simp [Owns, nesting, Turn.core, outside]
  · rintro wasEnabled (trying | counting)
    · cases trying
      exact ⟨(found_after_start _).symm, Vector.get_put_self _ _ _⟩
    · cases counting
  · simpa [nesting, Turn.core] using guarded.balance c d
  · intro left
    cases left
  · intro c' d' same opened
    cases same
    exact absurd unheld opened

theorem start_acquire_nested (outside : s.phase c = .outside) (held : s.nesting c d ≠ 0)
    (few : s.acquired c d - s.released c d + 1 < 2 ^ 32) : s.Comes (.start c (.acquire d)) := by
  obtain ⟨trace, ran⟩ := Board.beginCall_run_nested
    (b := { s.board with machine := s.board.machine.turnOf c }) held
  have balance := guarded.balance c d
  have raised : ((s.board.cores.get c).raiseLock d).lockNesting d = s.nesting c d + 1 :=
    Core.lockNesting_raiseLock_self _ d
  have count : (s.nesting c d + 1).toNat = (s.nesting c d).toNat + 1 := toNat_add_one (by omega)
  have opened : s.nesting c d + 1 ≠ 0 := by
    intro none
    rw [none] at count
    simp at count
  have confined : s.Confined (.start c (.acquire d)) (.acquire d) .outside { s.board with
      trace
      machine := s.board.machine.turnOf c
      cores := s.board.cores.put c ((s.board.cores.get c).raiseLock d) } :=
    confined_count (Or.inl outside) (fun _ _ => rfl) (fun _ _ => rfl)
      (fun _ apart => Core.lockNesting_raiseLock_of_ne _ apart)
  refine .completes ran
    (guarded.turned rfl confined (Or.inl ⟨rfl, ?_⟩) (fun left => absurd rfl left) (by simp) ?_)
    (confined.orderly rfl (if_neg held).symm (fun _ => (found_after_start _).symm)
      (fun _ _ _ _ => ⟨rfl, rfl⟩))
  · rw [owns_after_self]
    simp [Owns, Turn.core, raised, opened, held]
  · simp only [Turn.core, LockCall.lockClass_acquire, Vector.get_put_self, raised, count]
    simp
    omega

theorem start_release_last (outside : s.phase c = .outside) (last : s.nesting c d = 1) :
    s.Comes (.start c (.release d)) := by
  obtain ⟨trace, ran⟩ := Board.release_run_last
    (b := { s.board with machine := s.board.machine.turnOf c }) last
  have balance := guarded.balance c d
  have opened : s.nesting c d ≠ 0 := by
    rw [last]
    decide
  have lowered : ((s.board.cores.get c).lowerLock d).lockNesting d = 0 := by
    rw [nesting] at last
    rw [Core.lockNesting_lowerLock_self, last]
    rfl
  have confined : s.Confined (.start c (.release d)) (.release d) .outside { s.board with
      trace
      machine := (s.board.machine.turnOf c).clearBit d.bit
      cores := s.board.cores.put c ((s.board.cores.get c).lowerLock d) } :=
    confined_count (Or.inl outside) (fun _ _ => rfl)
      (fun _ apart => Machine.isHeld_clearBit_of_ne _ apart)
      (fun _ apart => Core.lockNesting_lowerLock_of_ne _ apart)
  refine .completes (by
      simp only [Turn.perform, Turn.core, Action.bind_run, Board.onMachine, Board.beginCall, ran]
      rfl)
    (guarded.turned rfl confined (Or.inr ⟨?_, ?_⟩) (fun left => absurd rfl left) (by simp) ?_)
    (confined.orderly rfl rfl (fun _ => (found_after_start _).symm)
      (fun _ _ => nofun))
  · rw [owns_after_self, LockCall.lockClass_release, Machine.isHeld_clearBit]
    simp [Turn.core, lowered]
  · intro c' apart owns
    exact apart (guarded.alone owns (Or.inl opened))
  · rw [last] at balance
    simp only [Turn.core, LockCall.lockClass_release, Vector.get_put_self, lowered]
    simp at balance ⊢
    omega

theorem start_release_inner (outside : s.phase c = .outside) (held : s.nesting c d ≠ 0)
    (inner : s.nesting c d ≠ 1) : s.Comes (.start c (.release d)) := by
  obtain ⟨trace, ran⟩ := Board.release_run_inner
    (b := { s.board with machine := s.board.machine.turnOf c }) held inner
  have balance := guarded.balance c d
  have lowered : ((s.board.cores.get c).lowerLock d).lockNesting d = s.nesting c d - 1 :=
    Core.lockNesting_lowerLock_self _ d
  have count : (s.nesting c d - 1).toNat + 1 = (s.nesting c d).toNat := toNat_sub_one held
  have opened : s.nesting c d - 1 ≠ 0 := by
    intro none
    rw [none] at count
    exact inner (UInt32.toNat_inj.mp count.symm)
  have confined : s.Confined (.start c (.release d)) (.release d) .outside { s.board with
      trace
      machine := s.board.machine.turnOf c
      cores := s.board.cores.put c ((s.board.cores.get c).lowerLock d) } :=
    confined_count (Or.inl outside) (fun _ _ => rfl) (fun _ _ => rfl)
      (fun _ apart => Core.lockNesting_lowerLock_of_ne _ apart)
  refine .completes (by
      simp only [Turn.perform, Turn.core, Action.bind_run, Board.onMachine, Board.beginCall, ran]
      rfl)
    (guarded.turned rfl confined (Or.inl ⟨rfl, ?_⟩) (fun left => absurd rfl left) (by simp) ?_)
    (confined.orderly rfl rfl (fun _ => (found_after_start _).symm)
      (fun _ _ => nofun))
  · rw [owns_after_self]
    simp [Owns, Turn.core, lowered, opened, held]
  · simp only [Turn.core, LockCall.lockClass_release, Vector.get_put_self, lowered]
    simp
    omega

theorem proceed_won {wasEnabled : Bool} (trying : s.phase c = .trying d wasEnabled)
    (free : s.isHeld d = false) : s.Comes (.proceed c) := by
  obtain ⟨trace, ran⟩ := Board.proceed_run_won (c := c)
    (b := { s.board with machine := s.board.machine.turnOf c }) wasEnabled free
  have called : (s.phase c).call? = some (.acquire d) := by
    rw [trying]
    rfl
  have unheld : s.nesting c d = 0 := guarded.first called
  have unowned (c' : Fin n) : ¬s.Owns c' d := by
    intro owns
    have held : s.isHeld d = true := (guarded.held d).mpr ⟨c', owns⟩
    rw [free] at held
    cases held
  have goes : Phase.counting d wasEnabled = (Turn.proceed c).next s := by
    rw [isHeld] at free
    simp [Turn.next, trying, free]
  have confined : s.Confined (.proceed c) (.acquire d) (.counting d wasEnabled) { s.board with
      trace, machine := (s.board.machine.turnOf c).setBit d.bit } :=
    confined_try (Or.inr called) (fun _ _ => rfl)
      (fun _ apart => Machine.isHeld_setBit_of_ne _ apart) rfl
  refine .completes (by
      simp only [Turn.perform, Turn.core, Action.bind_run, Board.onMachine, trying, ran])
    (guarded.turned called confined (Or.inr ⟨?_, fun c' _ => unowned c'⟩) (fun _ => unheld) ?_ ?_)
    (confined.orderly called goes (by simp) (fun _ _ => nofun))
  · rw [owns_after_self, LockCall.lockClass_acquire, Machine.isHeld_setBit]
    simp
  · rintro wasEnabled' (other | same)
    · cases other
    · cases same
      exact guarded.masked (Or.inl trying)
  · simpa [nesting, Turn.core] using guarded.balance c d

theorem proceed_lost {wasEnabled : Bool} (trying : s.phase c = .trying d wasEnabled)
    (busy : s.isHeld d = true) : s.Comes (.proceed c) := by
  obtain ⟨trace, ran⟩ := Board.proceed_run_lost (c := c)
    (b := { s.board with machine := s.board.machine.turnOf c }) wasEnabled busy rfl
  have called : (s.phase c).call? = some (.acquire d) := by
    rw [trying]
    rfl
  have unheld : s.nesting c d = 0 := guarded.first called
  have bit : ((s.board.machine.turnOf c).setBit d.bit).isHeld d.bit = s.isHeld d := by
    rw [Machine.isHeld_setBit, decide_eq_true rfl, Bool.or_true, busy]
  have goes : Phase.trying d wasEnabled = (Turn.proceed c).next s := by
    rw [isHeld] at busy
    simp [Turn.next, trying, busy]
  -- The wait changes neither bit, for there is no promise.
  have confined : s.Confined (.proceed c) (.acquire d) (.trying d wasEnabled) { s.board with
      trace, machine := ((s.board.machine.turnOf c).setBit d.bit).snooze } :=
    confined_try (Or.inr called) (fun _ _ => rfl)
      (fun _ apart => Machine.isHeld_setBit_of_ne _ apart) rfl
  refine .completes (by
      simp only [Turn.perform, Turn.core, Action.bind_run, Board.onMachine, trying, ran])
    (guarded.turned called confined (Or.inl ⟨bit, ?_⟩) (fun _ => unheld) ?_ ?_)
    (confined.orderly called goes (by simp) (fun _ _ => nofun))
  · rw [owns_after_self]
    simp [Owns, nesting, Turn.core, trying]
  · rintro wasEnabled' (same | other)
    · cases same
      exact guarded.masked (Or.inl trying)
    · cases other
  · simpa [nesting, Turn.core] using guarded.balance c d

theorem proceed_counting {wasEnabled : Bool} (counting : s.phase c = .counting d wasEnabled) :
    s.Comes (.proceed c) := by
  obtain ⟨trace, ran⟩ := Board.proceed_run_counting (c := c) (d := d)
    (b := { s.board with machine := s.board.machine.turnOf c }) wasEnabled
  have called : (s.phase c).call? = some (.acquire d) := by
    rw [counting]
    rfl
  have unheld : s.nesting c d = 0 := guarded.first called
  obtain ⟨found, masked⟩ := guarded.masked (Or.inr counting)
  have balance := guarded.balance c d
  have raised : ((s.board.cores.get c).raiseLock d).lockNesting d = 1 := by
    rw [nesting] at unheld
    rw [Core.lockNesting_raiseLock_self, unheld]
    rfl
  have goes : Phase.outside = (Turn.proceed c).next s := by simp [Turn.next, counting]
  have confined : s.Confined (.proceed c) (.acquire d) .outside { s.board with
      trace
      machine := if wasEnabled then (s.board.machine.turnOf c).setEnabled true
        else s.board.machine.turnOf c
      cores := s.board.cores.put c ((s.board.cores.get c).raiseLock d) } := by
    apply confined_count (Or.inr called)
    · intro c' apart
      cases wasEnabled with
      | true => exact Vector.get_put_of_ne _ (Ne.symm apart) _
      | false => rfl
    · intro e apart
      cases wasEnabled <;> rfl
    · exact fun e apart => Core.lockNesting_raiseLock_of_ne _ apart
  refine .completes (by
      simp only [Turn.perform, Turn.core, Action.bind_run, Board.onMachine, counting, ran])
    (guarded.turned called confined (Or.inl ⟨?_, ?_⟩) (fun left => absurd rfl left) (by simp) ?_)
    (confined.orderly called goes ?_ (fun _ _ => nofun))
  · cases wasEnabled <;> rfl
  · rw [owns_after_self]
    simp [Owns, Turn.core, raised, counting]
  · rw [unheld] at balance
    simp only [Turn.core, LockCall.lockClass_acquire, Vector.get_put_self, raised]
    simp at balance ⊢
    omega
  · intro _
    refine Eq.trans ?_ found
    cases wasEnabled with
    | true => exact Vector.get_put_self _ _ _
    | false => exact masked

theorem comes (allowed : t.Allowed s) : s.Comes t := by
  cases t with
  | start c call =>
    obtain ⟨outside, few⟩ := allowed
    cases call with
    | acquire d =>
      by_cases unheld : s.nesting c d = 0
      · exact guarded.start_acquire_first outside unheld
      · exact guarded.start_acquire_nested outside unheld (few d rfl)
    | release d =>
      by_cases unheld : s.nesting c d = 0
      · obtain ⟨b, halted, bits, counts⟩ := release_unheld unheld
        exact .halts rfl unheld halted bits counts
      · by_cases last : s.nesting c d = 1
        · exact guarded.start_release_last outside last
        · exact guarded.start_release_inner outside unheld last
  | proceed c =>
    cases at_ : s.phase c with
    | outside => exact absurd at_ allowed
    | trying d wasEnabled =>
      cases bit : s.isHeld d with
      | false => exact guarded.proceed_won at_ bit
      | true => exact guarded.proceed_lost at_ bit
    | counting d wasEnabled => exact guarded.proceed_counting at_

end Guarded

end Contention

variable {s : Contention n} {t : Turn n}

theorem Contending.guarded (run : Contending s) : s.Guarded := by
  induction run with
  | free held nesting => exact Contention.Guarded.free held nesting
  | turn before t allowed ran ih =>
    rcases ih.comes allowed with ⟨_, _, halted, _, _⟩ | ⟨ran', guarded, _⟩
    · rw [ran] at halted
      cases halted
    · rw [ran] at ran'
      cases ran'
      exact guarded
  | elsewhere before spares ih => exact ih.spares spares

/-- Mutual exclusion in whatever order the cores take their turns. A release of what is not held is
the only call that halts. -/
theorem Contending.mutual_exclusion (run : Contending s) : s.Exclusive ∧
    (∀ t, t.Allowed s → (∀ c d, t = .start c (.release d) → s.nesting c d ≠ 0) →
      ∃ phase b, t.perform s s.board = .ok phase b ∧ s.Orderly t (s.after t phase b)) ∧
    ∀ c d, s.nesting c d = 0 → ∃ b,
      (Turn.start c (.release d)).perform s s.board = .error (.violation .unheldLockRelease) b ∧
        b.machine.exclusive = s.board.machine.exclusive ∧ b.cores = s.board.cores := by
  refine ⟨run.guarded.exclusive, ?_, fun c d unheld => Contention.release_unheld unheld⟩
  intro t allowed held
  rcases run.guarded.comes allowed with ⟨is, unheld, _, _, _⟩ | ⟨ran, _, orderly⟩
  · exact absurd unheld (held _ _ is)
  · exact ⟨_, _, ran, orderly⟩

/-- Core 0 has won the lock and counted its level, core 1 has tried once for it. -/
theorem Contending.mutual_exclusion_two_cores : ∃ s : Contention 2, Contending s ∧
    s.nesting 0 .task = 1 ∧ s.phase 1 = .trying .task false ∧ s.Exclusive := by
  let reset : Contention 2 := { board := { machine := .reset 0 false } }
  have free : Contending reset := .free (by rintro ⟨⟩ <;> rfl) (by
    intro c d
    rw [show reset.board.cores.get c = {} from Core.get_reset c]
    cases d <;> rfl)
  have few {s : Contention 2} {c : Fin 2} (none : s.acquired c .task = 0) (d : LockClass)
      (first : LockCall.acquire .task = .acquire d) :
      s.acquired c d - s.released c d + 1 < 2 ^ 32 := by
    cases first
    omega
  have started := free.turn (.start 0 (.acquire .task)) ⟨rfl, few rfl⟩ (by with_unfolding_all rfl)
  have won := started.turn (.proceed 0) nofun (by with_unfolding_all rfl)
  have counted := won.turn (.proceed 0) nofun (by with_unfolding_all rfl)
  have other := counted.turn (.start 1 (.acquire .task)) ⟨rfl, few rfl⟩
    (by with_unfolding_all rfl)
  have lost := other.turn (.proceed 1) nofun (by with_unfolding_all rfl)
  exact ⟨_, lost, rfl, rfl, lost.mutual_exclusion.1⟩

end Preempt
