import Mathlib.Algebra.Group.Int.Defs
import Mathlib.Algebra.Group.Nat.Defs
import Mathlib.Data.List.Induction
import Mathlib.Data.List.Infix
import Preempt.Nesting

/-!
Levels of critical nesting that are opened and closed in any order, from any depth. As long as the
count has room for the open levels, the depth is what it was before, with one level more for each
enter and one less for each exit, and nothing halts but an exit that finds no level open (`ends`).
An enter masks interrupts, an exit that lands on zero unmasks them, and no other exit touches them
(`settles`). From a depth that is not zero, such as the one at boot, calls that close only what
they have opened never unmask interrupts.
-/

namespace Preempt

/-! A count in a word goes up by one while it has room, and down by one from above zero. -/

theorem toNat_add_one {depth : UInt32} (room : depth.toNat + 1 < 2 ^ 32) :
    (depth + 1).toNat = depth.toNat + 1 := by
  rw [UInt32.toNat_add, UInt32.toNat_one, Nat.mod_eq_of_lt room]

theorem toNat_sub_one {depth : UInt32} (inside : depth ≠ 0) :
    (depth - 1).toNat + 1 = depth.toNat := by
  have pos : depth.toNat ≠ 0 := fun zero => inside (UInt32.toNat_inj.mp zero)
  have one : (1 : UInt32) ≤ depth := by
    rw [UInt32.le_iff_toNat_le, UInt32.toNat_one]
    omega
  rw [UInt32.toNat_sub_of_le _ _ one, UInt32.toNat_one]
  omega

/-- The access that gives the interrupt enable this value. -/
def Event.setEnabled (on : Bool) : Event := if on then .enable else .disable

variable {n : Nat}

/-- The critical nesting of core `c`, as a number without a bound. -/
def Board.depth (b : Board n) (c : Fin n) : Int := (b.cores.get c).nesting.toNat

theorem Board.depth_nonneg (b : Board n) (c : Fin n) : 0 ≤ b.depth c := Int.natCast_nonneg _

theorem Board.depth_eq_iff (b : Board n) (c : Fin n) (depth : UInt32) :
    b.depth c = depth.toNat ↔ (b.cores.get c).nesting = depth := by
  rw [Board.depth, Int.ofNat_inj, UInt32.toNat_inj]

/-- A call that opens a level of critical nesting, or closes one. -/
inductive SectionCall where
  | enter
  | exit
deriving DecidableEq

namespace SectionCall

def change : SectionCall → Int
  | enter => 1
  | exit => -1

/-- The levels open after some calls, from those open before. It is negative if more were closed
than were open. -/
def levels (depth : Int) (calls : List SectionCall) : Int :=
  depth + calls.count enter - calls.count exit

@[simp] theorem levels_nil (depth : Int) : levels depth [] = depth := by
  simp [levels]

@[simp] theorem levels_singleton (depth : Int) (call : SectionCall) :
    levels depth [call] = depth + call.change := by
  cases call with
  | enter => simp [levels, change]
  | exit => simp [levels, change, Int.sub_eq_add_neg]

theorem levels_append (depth : Int) (calls more : List SectionCall) :
    levels depth (calls ++ more) = levels (levels depth calls) more := by
  simp only [levels, List.count_append]
  omega

theorem levels_cons (depth : Int) (call : SectionCall) (calls : List SectionCall) :
    levels depth (call :: calls) = levels (depth + call.change) calls := by
  rw [← levels_singleton, ← levels_append, List.singleton_append]

/-- The interrupt enable after a call that settles it, from the levels open before the call. -/
def settles (depth : Int) : SectionCall → Option Bool
  | enter => some false
  | exit => if depth = 1 then some true else none

/-- The values that some calls give the interrupt enable one after the other. -/
def settings (depth : Int) : List SectionCall → List Bool
  | [] => []
  | call :: calls => (call.settles depth).toList ++ settings (depth + call.change) calls

@[simp] theorem settings_singleton (depth : Int) (call : SectionCall) :
    settings depth [call] = (call.settles depth).toList := List.append_nil _

theorem settings_append (depth : Int) (calls more : List SectionCall) :
    settings depth (calls ++ more) =
      settings depth calls ++ settings (levels depth calls) more := by
  induction calls generalizing depth with
  | nil => simp [settings]
  | cons call calls ih =>
    rw [List.cons_append, settings, settings, ih, levels_cons, List.append_assoc]

/-- What unmasks interrupts are the exits that land on zero. -/
theorem true_mem_settings_iff (depth : Int) (calls : List SectionCall) :
    true ∈ settings depth calls ↔
      ∃ before, before ++ [exit] <+: calls ∧ levels depth (before ++ [exit]) = 0 := by
  induction calls using List.reverseRecOn with
  | nil => simp [settings]
  | append_singleton calls call ih =>
    rw [settings_append, settings_singleton, List.mem_append, ih, Option.mem_toList]
    simp only [List.prefix_concat_iff, List.append_singleton_inj, or_and_right, exists_or]
    rw [or_comm]
    refine or_congr_left ?_
    cases call with
    | enter => simp [settles]
    | exit =>
      have landing : levels depth (calls ++ [exit]) = 0 ↔ levels depth calls = 1 := by
        rw [levels_append, levels_singleton, change]
        omega
      simp [settles, landing]

/-- The enable after calls that have closed no level but open ones. Once there was an enter, it
tells whether the depth is zero; before, only an exit can have changed it. -/
theorem getLast?_settings_iff {depth : Int} {calls : List SectionCall}
    (inside : ∀ before, before <+: calls → 0 ≤ levels depth before) (on : Bool) :
    (settings depth calls).getLast?.getD on = true ↔
      calls ≠ [] ∧ levels depth calls = 0 ∨ enter ∉ calls ∧ on = true := by
  -- From the end: the last call settles the enable, or else leaves it at a depth above zero.
  induction calls using List.reverseRecOn with
  | nil => simp [settings]
  | append_singleton calls call ih =>
    have shorter := ih fun before short => inside before (short.trans (List.prefix_append _ _))
    have low := inside calls (List.prefix_append _ _)
    have landing := inside _ List.prefix_rfl
    rw [levels_append, levels_singleton] at landing
    rw [settings_append, settings_singleton, List.getLast?_append, levels_append, levels_singleton]
    cases call with
    | enter =>
      have above : levels depth calls + 1 ≠ 0 := by omega
      simp [settles, change, above]
    | exit =>
      by_cases last : levels depth calls = 1
      · simp [settles, change, last]
      · rw [change] at landing
        have zero : levels depth calls ≠ 0 := by omega
        have above : levels depth calls + -1 ≠ 0 := by omega
        simp [settles, change, last, shorter, zero, above]

/-- Each exit closes a level that one of the calls has opened. -/
def Matched (calls : List SectionCall) : Prop :=
  ∀ before, before <+: calls → before.count exit ≤ before.count enter

instance (calls : List SectionCall) : Decidable (Matched calls) :=
  decidable_of_iff (∀ before ∈ calls.inits, before.count exit ≤ before.count enter)
    (forall_congr' fun before => by rw [List.mem_inits])

section Matched

variable {calls before : List SectionCall} (matched : Matched calls)

include matched

theorem Matched.le_levels (depth : Int) (short : before <+: calls) :
    depth ≤ levels depth before := by
  have fewer := matched before short
  rw [levels]
  omega

theorem Matched.enter_mem (some : calls ≠ []) : enter ∈ calls := by
  cases calls with
  | nil => exact absurd rfl some
  | cons call calls =>
    cases call with
    | enter => exact List.mem_cons_self
    | exit =>
      have first := matched [exit] (List.prefix_append _ _)
      exact absurd first (by decide)

theorem Matched.true_not_mem_settings {depth : Int} (inside : 0 < depth) :
    true ∉ settings depth calls := by
  intro unmasked
  obtain ⟨before, short, landing⟩ := (true_mem_settings_iff depth calls).mp unmasked
  have := matched.le_levels depth short
  omega

end Matched

/-- The answer is the new depth. -/
def perform (c : Fin n) : SectionCall → BoardM n UInt32
  | enter => Board.enterNesting c
  | exit => Board.exitNesting c

def performAll (c : Fin n) (calls : List SectionCall) : BoardM n (List UInt32) :=
  calls.mapM (perform c)

/-- What some calls on core `c` leave of the board that they found. The last answer is the depth,
and nothing has changed but the depth, the interrupt enable and the trace. -/
structure Leaves (c : Fin n) (b : Board n) (calls : List SectionCall) (answers : List UInt32)
    (s : Board n) : Prop where
  depth : s.depth c = levels (b.depth c) calls
  answer : answers.getLast?.getD (b.cores.get c).nesting = (s.cores.get c).nesting
  machine : s.machine =
    b.machine.setEnabled ((settings (b.depth c) calls).getLast?.getD b.machine.isEnabled)
  trace : s.trace = b.trace ++ ((settings (b.depth c) calls).map Event.setEnabled).toArray
  cores : s.cores = b.cores.put c { b.cores.get c with nesting := (s.cores.get c).nesting }
  tick : s.tick = b.tick

variable {c : Fin n} {b s t : Board n} {call : SectionCall} {calls more : List SectionCall}
  {answer : UInt32} {answers others : List UInt32} {halt : Halt}

namespace Leaves

theorem refl (c : Fin n) (b : Board n) : Leaves c b [] [] b where
  depth := (levels_nil _).symm
  answer := rfl
  machine := (Machine.setEnabled_isEnabled _).symm
  trace := Array.append_empty.symm
  cores := (Vector.put_get _ _).symm
  tick := rfl

theorem append (first : Leaves c b calls answers s) (rest : Leaves c s more others t) :
    Leaves c b (calls ++ more) (answers ++ others) t where
  depth := by rw [rest.depth, first.depth, levels_append]
  answer := by rw [List.getLast?_append, Option.getD_or, first.answer, rest.answer]
  machine := by
    rw [rest.machine, first.depth, first.machine, Machine.setEnabled_setEnabled,
      Machine.isEnabled_setEnabled, settings_append, List.getLast?_append, Option.getD_or]
  trace := by
    rw [rest.trace, first.depth, first.trace, settings_append]
    simp
  cores := by
    rw [rest.cores, first.cores, Vector.put_put, Vector.get_put_self, Vector.get_put_self]
  tick := rest.tick.trans first.tick

/-- One call that leaves this depth, and of the mask what it settles. -/
theorem once {depth : UInt32} {m : Machine n} {trace : Trace}
    (counts : (depth.toNat : Int) = b.depth c + call.change)
    (mask : m = b.machine.setEnabled ((call.settles (b.depth c)).getD b.machine.isEnabled))
    (shown : trace = b.trace ++ ((call.settles (b.depth c)).toList.map Event.setEnabled).toArray) :
    Leaves c b [call] [depth] { b with
      trace
      machine := m
      cores := b.cores.put c { b.cores.get c with nesting := depth } } where
  depth := by rw [levels_singleton, ← counts, Board.depth, Vector.get_put_self]
  answer := by
    rw [Vector.get_put_self]
    rfl
  machine := by
    rw [settings_singleton, mask]
    cases call.settles (b.depth c) <;> rfl
  trace := by rw [settings_singleton, shown]
  cores := by rw [Vector.get_put_self]
  tick := rfl

end Leaves

/-- A call that closes no level but an open one, and opens one only where the count has room. -/
theorem perform_run (low : 0 ≤ b.depth c + call.change)
    (room : b.depth c + call.change < 2 ^ 32) :
    ∃ answer s, perform c call b = .ok answer s ∧ Leaves c b [call] [answer] s := by
  have depth : b.depth c = (b.cores.get c).nesting.toNat := rfl
  cases call with
  | enter =>
    rw [change, depth] at room
    refine ⟨_, _, Board.enterNesting_run c b, .once ?_ rfl ?_⟩
    · rw [toNat_add_one (by omega), depth]
      rfl
    · simp [settles, Event.setEnabled]
  | exit =>
    have inside : (b.cores.get c).nesting ≠ 0 := by
      intro zero
      rw [depth, zero] at low
      exact absurd low (by decide)
    have left := toNat_sub_one inside
    have counts : (((b.cores.get c).nesting - 1).toNat : Int) = b.depth c + exit.change := by
      rw [depth, change]
      omega
    by_cases last : (b.cores.get c).nesting = 1
    · have one : b.depth c = 1 := (b.depth_eq_iff c 1).mpr last
      rw [last] at counts
      refine ⟨_, _, Board.exitNesting_run_one c b last, .once counts ?_ ?_⟩
      · rw [settles, if_pos one, Option.getD_some]
      · simp [settles, one, Event.setEnabled]
    · have more : b.depth c ≠ 1 := fun one => last ((b.depth_eq_iff c 1).mp one)
      refine ⟨_, _, Board.exitNesting_run_more c b inside last, .once counts ?_ ?_⟩
      · rw [settles, if_neg more, Option.getD_none, Machine.setEnabled_isEnabled]
      · simp [settles, more]

theorem performAll_exit_run_zero (zero : b.depth c = 0) (calls : List SectionCall) :
    performAll c (exit :: calls) b = .error (.violation .unmatchedCriticalExit) b := by
  have unmatched := Board.exitNesting_run_zero c b ((b.depth_eq_iff c 0).mp zero)
  rw [performAll, List.mapM_cons, Action.bind_run, perform, unmatched]

theorem performAll_singleton_run (performed : perform c call b = .ok answer s) :
    performAll c [call] b = .ok [answer] s := by
  rw [performAll, List.mapM_cons, Action.bind_run, performed]
  rfl

theorem performAll_append_run (first : performAll c calls b = .ok answers s)
    (rest : performAll c more s = .ok others t) :
    performAll c (calls ++ more) b = .ok (answers ++ others) t := by
  rw [performAll] at first rest ⊢
  rw [List.mapM_append, Action.bind_run, first]
  simp only [Action.bind_run, rest]
  rfl

theorem performAll_append_halted (first : performAll c calls b = .ok answers s)
    (rest : performAll c more s = .error halt t) :
    performAll c (calls ++ more) b = .error halt t := by
  rw [performAll] at first rest ⊢
  rw [List.mapM_append, Action.bind_run, first]
  simp only [Action.bind_run, rest]

/-- How some calls end: all complete, or the first exit that finds no level open halts. -/
inductive Ends (c : Fin n) (b : Board n) (calls : List SectionCall) : Prop
  | completes {answers : List UInt32} {s : Board n} (ran : performAll c calls b = .ok answers s)
      (inside : ∀ before, before <+: calls → 0 ≤ levels (b.depth c) before)
      (leaves : Leaves c b calls answers s)
  | halts {before : List SectionCall} {answers : List UInt32} {s : Board n}
      (ran : performAll c calls b = .error (.violation .unmatchedCriticalExit) s)
      (cut : before ++ [exit] <+: calls) (zero : levels (b.depth c) before = 0)
      (reached : performAll c before b = .ok answers s)

theorem Ends.cons (performed : performAll c [call] b = .ok answers s)
    (first : Leaves c b [call] answers s) (rest : Ends c s calls) : Ends c b (call :: calls) := by
  have onward (before : List SectionCall) :
      levels (b.depth c) (call :: before) = levels (s.depth c) before := by
    rw [levels_cons, first.depth, levels_singleton]
  cases rest with
  | completes ran inside leaves =>
    refine .completes (performAll_append_run performed ran) (fun before short => ?_)
      (first.append leaves)
    obtain rfl | ⟨later, rfl, shorter⟩ := List.prefix_cons_iff.mp short
    · rw [levels_nil]
      exact b.depth_nonneg c
    · rw [onward]
      exact inside later shorter
  | halts ran cut zero reached =>
    refine .halts (performAll_append_halted performed ran) (List.cons_prefix_cons.mpr ⟨rfl, cut⟩)
      ?_ (performAll_append_run performed reached)
    rw [List.singleton_append, onward, zero]

/-- As long as the open levels fit their word, calls end in one of the two ways. -/
theorem ends (c : Fin n) (b : Board n) (calls : List SectionCall)
    (room : ∀ before, before <+: calls → levels (b.depth c) before < 2 ^ 32) : Ends c b calls := by
  -- From the front, as the calls are made: the rest of them starts where the first has led.
  induction calls generalizing b with
  | nil =>
    refine .completes rfl (fun before short => ?_) (.refl c b)
    rw [List.prefix_nil.mp short, levels_nil]
    exact b.depth_nonneg c
  | cons call calls ih =>
    by_cases low : 0 ≤ b.depth c + call.change
    · have few := room [call] (List.prefix_append _ _)
      rw [levels_singleton] at few
      obtain ⟨answer, s, performed, first⟩ := perform_run low few
      refine .cons (performAll_singleton_run performed) first (ih s fun before short => ?_)
      rw [first.depth, levels_singleton, ← levels_cons]
      exact room _ (List.cons_prefix_cons.mpr ⟨rfl, short⟩)
    · have nonneg := b.depth_nonneg c
      cases call with
      | enter =>
        rw [change] at low
        omega
      | exit =>
        have zero : b.depth c = 0 := by
          rw [change] at low
          omega
        have cut : [] ++ [exit] <+: exit :: calls := List.prefix_append _ _
        exact .halts (performAll_exit_run_zero zero calls) cut ((levels_nil _).trans zero) rfl

theorem Ends.completes_iff (ends : Ends c b calls) :
    (∃ answers s, performAll c calls b = .ok answers s) ↔
      ∀ before, before <+: calls → 0 ≤ levels (b.depth c) before := by
  cases ends with
  | completes ran inside => exact ⟨fun _ => inside, fun _ => ⟨_, _, ran⟩⟩
  | @halts before _ _ halted cut zero =>
    constructor
    · rintro ⟨answers, s, ran⟩
      rw [halted] at ran
      cases ran
    · intro inside
      have low := inside _ cut
      rw [levels_append, levels_singleton, zero] at low
      exact absurd low (by decide)

theorem Ends.left (ends : Ends c b calls) (ran : performAll c calls b = .ok answers s) :
    (∀ before, before <+: calls → 0 ≤ levels (b.depth c) before) ∧ Leaves c b calls answers s := by
  cases ends with
  | completes ran' inside leaves =>
    rw [ran'] at ran
    cases ran
    exact ⟨inside, leaves⟩
  | halts halted =>
    rw [halted] at ran
    cases ran

theorem Ends.halted (ends : Ends c b calls) (halted : performAll c calls b = .error halt s) :
    halt = .violation .unmatchedCriticalExit ∧
      ∃ before answers, before ++ [exit] <+: calls ∧ levels (b.depth c) before = 0 ∧
        performAll c before b = .ok answers s := by
  cases ends with
  | completes ran =>
    rw [ran] at halted
    cases halted
  | halts halted' cut zero reached =>
    rw [halted'] at halted
    cases halted
    exact ⟨rfl, _, _, cut, zero, reached⟩

/-- An exit halts where it finds no level open, whatever was to follow. -/
theorem halts_of_zero (leaves : Leaves c b calls answers s) (zero : levels (b.depth c) calls = 0)
    (ran : performAll c calls b = .ok answers s) (cut : calls ++ [exit] <+: more) :
    performAll c more b = .error (.violation .unmatchedCriticalExit) s := by
  obtain ⟨rest, rfl⟩ := cut
  rw [List.append_assoc]
  exact performAll_append_halted ran (performAll_exit_run_zero (leaves.depth.trans zero) rest)

theorem Leaves.masked_of_enter (leaves : Leaves c b (calls ++ [enter]) answers s) :
    s.machine.isEnabled = false := by
  rw [leaves.machine, Machine.isEnabled_setEnabled, settings_append, settings_singleton,
    List.getLast?_append]
  rfl

theorem Leaves.enabled_iff (leaves : Leaves c b calls answers s)
    (inside : ∀ before, before <+: calls → 0 ≤ levels (b.depth c) before) :
    s.machine.isEnabled = true ↔
      calls ≠ [] ∧ s.depth c = 0 ∨ enter ∉ calls ∧ b.machine.isEnabled = true := by
  rw [leaves.machine, Machine.isEnabled_setEnabled, leaves.depth]
  exact getLast?_settings_iff inside _

/-- From any depth and mask, as long as the open levels fit their word: all calls complete exactly
if none of them closes a level that is not open. Otherwise the first that does is an exit at depth
zero, and halts on the board that the calls before it have left. At each point that is reached the
depth is the one at the start with every enter and without every exit. Interrupts are masked after
an enter, and once there was one they are masked exactly while the depth is not zero; what unmasks
them are the exits that land on zero. So matched calls from a depth that is not zero, such as the
one at boot, complete and never unmask interrupts, and no calls change nothing. -/
theorem nests_from_any_depth (c : Fin n) (calls : List SectionCall) (b : Board n)
    (room : ∀ before, before <+: calls → levels (b.depth c) before < 2 ^ 32) :
    ((∃ answers s, performAll c calls b = .ok answers s) ↔
      ∀ before, before <+: calls → 0 ≤ levels (b.depth c) before) ∧
    (∀ halt s, performAll c calls b = .error halt s ↔ halt = .violation .unmatchedCriticalExit ∧
      ∃ before answers, before ++ [exit] <+: calls ∧ levels (b.depth c) before = 0 ∧
        performAll c before b = .ok answers s) ∧
    (∀ before, before <+: calls → ∀ answers s, performAll c before b = .ok answers s →
      Leaves c b before answers s ∧
      (∀ first, before = first ++ [enter] → s.machine.isEnabled = false) ∧
      (enter ∈ before → (s.machine.isEnabled = true ↔ s.depth c = 0)) ∧
      (enter ∉ before → (s.machine.isEnabled = true ↔
        before ≠ [] ∧ s.depth c = 0 ∨ b.machine.isEnabled = true))) ∧
    (b.depth c ≠ 0 → Matched calls → ∃ answers s, performAll c calls b = .ok answers s ∧
      true ∉ settings (b.depth c) calls ∧ (calls ≠ [] → s.machine.isEnabled = false)) ∧
    performAll c [] b = .ok [] b := by
  have ended := ends c b calls room
  have left {before : List SectionCall} {answers : List UInt32} {s : Board n}
      (short : before <+: calls) (ran : performAll c before b = .ok answers s) :
      (∀ first, first <+: before → 0 ≤ levels (b.depth c) first) ∧ Leaves c b before answers s :=
    (ends c b before fun first shorter => room first (shorter.trans short)).left ran
  refine ⟨ended.completes_iff, fun halt s => ⟨ended.halted, ?_⟩,
    fun before short answers s ran => ?_, fun inside matched => ?_, rfl⟩
  · rintro ⟨rfl, before, answers, cut, zero, ran⟩
    obtain ⟨_, leaves⟩ := left ((List.prefix_append _ _).trans cut) ran
    exact halts_of_zero leaves zero ran cut
  · obtain ⟨inside, leaves⟩ := left short ran
    have enabled := leaves.enabled_iff inside
    refine ⟨leaves, ?_, fun entered => ?_, fun unentered => ?_⟩
    · rintro first rfl
      exact leaves.masked_of_enter
    · have some : before ≠ [] := List.ne_nil_of_mem entered
      simpa [entered, some] using enabled
    · simpa [unentered] using enabled
  · obtain ⟨answers, s, ran⟩ := ended.completes_iff.mpr fun before short =>
      Int.le_trans (b.depth_nonneg c) (matched.le_levels _ short)
    obtain ⟨open', leaves⟩ := left List.prefix_rfl ran
    have start : 0 < b.depth c := by
      have low := b.depth_nonneg c
      omega
    have above : s.depth c ≠ 0 := by
      have still := matched.le_levels (b.depth c) List.prefix_rfl
      rw [leaves.depth]
      omega
    refine ⟨answers, s, ran, matched.true_not_mem_settings start, fun some => ?_⟩
    rw [← Bool.not_eq_true, leaves.enabled_iff open']
    simp [above, matched.enter_mem some]

/-- Two levels that are opened and closed again at boot. -/
theorem nests_from_any_depth_boot :
    ∃ b : Board 1, (b.cores.get 0).nesting = Settings.bootNesting ∧
      (∀ before, before <+: [enter, enter, exit, exit] → levels (b.depth 0) before < 2 ^ 32) ∧
      b.depth 0 ≠ 0 ∧ Matched [enter, enter, exit, exit] ∧
      ∃ answers s, performAll 0 [enter, enter, exit, exit] b = .ok answers s ∧
        s.depth 0 = b.depth 0 ∧ s.machine.isEnabled = false := by
  let b : Board 1 := { machine := .reset 0 false }
  have depth : b.depth 0 = 2863311530 := by decide
  have room : ∀ before, before <+: [enter, enter, exit, exit] →
      levels (b.depth 0) before < 2 ^ 32 := by
    intro before short
    have few := List.count_le_length (a := enter) (l := before)
    have length := short.length_le
    rw [levels, depth]
    simp only [List.length_cons, List.length_nil] at length
    omega
  have matched : Matched [enter, enter, exit, exit] := by decide
  have inside : b.depth 0 ≠ 0 := by
    rw [depth]
    decide
  obtain ⟨_, _, points, boots, _⟩ := nests_from_any_depth 0 [enter, enter, exit, exit] b room
  obtain ⟨answers, s, ran, _, masked⟩ := boots inside matched
  obtain ⟨leaves, _⟩ := points _ List.prefix_rfl answers s ran
  refine ⟨b, rfl, room, inside, matched, answers, s, ran, ?_, masked (List.cons_ne_nil _ _)⟩
  rw [leaves.depth, depth]
  decide

end SectionCall

end Preempt
