import Preempt.Proofs.Segment.Reentry

/-!
New tasks start. A core that resumes a new task from below open calls, returns from the calls and
leaves the trap has the two contexts in its banks that the creation wrote, whatever the segments
held before (`task_starts_at_entry`). The calls come off as they went on (`makeCalls_run`,
`returnFromCalls_run`), and the two contexts are back on the free list when the task starts.
-/

namespace Preempt

/-- The saved top is two words below the stack pointer. -/
theorem Tasks.advance_of_pushHead {ts ts' : Tasks} {task : TaskId} {sp top : Word} {head : Link}
    {nesting : UInt32} (room : ts.Room task sp)
    (pushed : pushHead sp head nesting ts = .ok top ts') : top.advance 2 = sp := by
  obtain ⟨offset, rfl, -, -⟩ := room
  simp only [pushHead, Action.bind_run] at pushed
  split at pushed
  · split at pushed
    · cases pushed
      rw [Word.advance_stack, Word.advance_stack, Int.neg_add_cancel_right]
    · cases pushed
  · cases pushed

namespace Pool

variable {size n : Nat} {p q : Pool size n} {c : Fin n} {i j : Fin size}
  {free rest : List (Fin size)}

theorem SameButFree.topped (same : p.SameButFree q) (topped : p.Topped c i j) :
    q.Topped c i j where
  lower := by rw [same.links]; exact topped.lower
  lowerUsed := by rw [same.inUse]; exact topped.lowerUsed
  upper := by rw [same.used i topped.lowerUsed]; exact topped.upper
  upperUsed := by rw [same.inUse]; exact topped.upperUsed
  apart := topped.apart

/-- Both contexts of an interrupt go back to the front of the free list. -/
theorem WellFormed.popTrap (w : p.WellFormed free) (topped : p.Topped c i j) :
    ∃ q r, Pool.pop c p = .ok (p.segments.get i) q ∧ Pool.pop c q = .ok (p.segments.get j) r ∧
      r.WellFormed (j :: i :: free) ∧ r.links.get c = (p.segments.get j).link := by
  obtain ⟨q, first, w₁, links, segments⟩ :=
    w.pop topped.lower ((w.inUse i).mp topped.lowerUsed)
  have atUpper : q.segments.get j = p.segments.get j := by
    rw [segments, Vector.get_put_of_ne _ topped.apart]
  have onward : (q.links.get c).place? size = some j := by
    rw [links, Vector.get_put_self]
    exact topped.upper
  have used : j ∉ i :: free := by
    simp only [List.mem_cons, not_or]
    exact ⟨Ne.symm topped.apart, (w.inUse j).mp topped.upperUsed⟩
  obtain ⟨r, second, w₂, links', _⟩ := w₁.pop onward used
  rw [atUpper] at second links'
  exact ⟨q, r, first, second, w₂, by rw [links', Vector.get_put_self]⟩

/-- A new task in a pool: once its head is in a core's link register, the core is where an interrupt
of the task would have left it. -/
theorem WellFormed.create_topped (w : p.WellFormed (i :: j :: rest)) (sp entry argument : Word)
    (c : Fin n) :
    ∃ head tail q r, allocatePair p = .ok (.ok (head, tail)) q ∧
      writeInitial head tail sp entry argument q = .ok () r ∧ r.WellFormed rest ∧
      head.address = head ∧ (r.relink c [] head).Topped c i j ∧
      r.segments.get i = initialLower tail entry argument ∧
      r.segments.get j = initialUpper sp := by
  obtain ⟨head, tail, q, r, allocated, wrote, w', _⟩ := w.create sp entry argument
  have apart : i ≠ j := by
    have once := w.once
    simp only [List.nodup_cons, List.mem_cons, not_or] at once
    exact once.1.1
  obtain ⟨_, _, _, _, allocated', wrote', headed, tailed, _, _, atFirst, atSecond, _, used⟩ :=
    Sharing.create_run p w.path.named w.path.onward.named apart sp entry argument
  rw [allocated] at allocated'
  cases allocated'
  rw [wrote] at wrote'
  cases wrote'
  refine ⟨head, tail, q, r, allocated, wrote, w', by rw [headed]; rfl, ⟨?_, ?_, ?_, ?_, apart⟩,
    atFirst, atSecond⟩
  · simpa [Pool.relink, headed] using w.path.named
  · simp [used]
  · simpa [Pool.relink, atFirst, initialLower, tailed] using w.path.onward.named
  · simp [used]

end Pool

namespace Banks

variable {size n : Nat} {b : Banks size n} {c : Fin n} {sp entry argument : Word}
  {p : Pool size n} {front rest : List (Fin size)} {frames : List (Vector Word dataWords)}

/-- A core is at the start of a task. Register 0 of a bank is not part of a context. -/
structure AtStart (b : Banks size n) (c : Fin n) (sp entry argument : Word) : Prop where
  programCounter : register .lower c lowerProgramCounter b = .ok entry b
  argument : register .lower c lowerArgument b = .ok argument b
  status : register .upper c upperStatus b = .ok (.num initialUpperStatus) b
  stackPointer : register .upper c upperStackPointer b = .ok sp b
  returnAddress : register .upper c upperReturnAddress b = .ok .exitTrap b
  lowerZero : ∀ i, 0 < i → i < segmentWords → i ≠ lowerProgramCounter → i ≠ lowerArgument →
    register .lower c i b = .ok (.num 0) b
  upperZero : ∀ i, 0 < i → i < segmentWords → i ≠ upperStatus → i ≠ upperStackPointer →
    i ≠ upperReturnAddress → register .upper c i b = .ok (.num 0) b

theorem register_run (kind : BankKind) (b : Banks size n) (c : Fin n) {i : Nat}
    (inside : i < dataWords) :
    register kind c (i + 1) b = .ok (b.bankOf kind c).spill[i] b := by
  have there : i + 1 < segmentWords := Nat.succ_lt_succ inside
  simp only [register, Action.bind_run, bank_run, there, dif_pos, Action.pure_run,
    Bank.getElem_spill]

theorem AtStart.of_spills {tail : Link}
    (lower : (b.lower.get c).spill = (Pool.initialLower tail entry argument).data)
    (upper : (b.upper.get c).spill = (Pool.initialUpper sp).data) :
    b.AtStart c sp entry argument := by
  have atLower (i : Nat) (positive : 0 < i) (inside : i < segmentWords) :
      register .lower c i b = .ok (if i = lowerProgramCounter then entry
        else if i = lowerArgument then argument else .num 0) b := by
    obtain ⟨i, rfl⟩ := Nat.exists_eq_succ_of_ne_zero positive.ne'
    rw [register_run .lower b c (Nat.lt_of_succ_lt_succ inside)]
    simp only [bankOf, lower, Pool.initialLower, Vector.getElem_ofFn]
  have atUpper (i : Nat) (positive : 0 < i) (inside : i < segmentWords) :
      register .upper c i b = .ok (if i = upperStatus then .num initialUpperStatus
        else if i = upperStackPointer then sp
        else if i = upperReturnAddress then .exitTrap else .num 0) b := by
    obtain ⟨i, rfl⟩ := Nat.exists_eq_succ_of_ne_zero positive.ne'
    rw [register_run .upper b c (Nat.lt_of_succ_lt_succ inside)]
    simp only [bankOf, upper, Pool.initialUpper, Vector.getElem_ofFn]
  constructor
  · exact atLower lowerProgramCounter (by decide) (by decide)
  · exact atLower lowerArgument (by decide) (by decide)
  · exact atUpper upperStatus (by decide) (by decide)
  · exact atUpper upperStackPointer (by decide) (by decide)
  · exact atUpper upperReturnAddress (by decide) (by decide)
  · intro i positive inside notCounter notArgument
    rw [atLower i positive inside, if_neg notCounter, if_neg notArgument]
  · intro i positive inside notStatus notPointer notReturn
    rw [atUpper i positive inside, if_neg notStatus, if_neg notPointer, if_neg notReturn]

/-- Calls of a core, with what its upper bank holds at each. -/
def makeCalls (core : CoreId) : List Bank → BanksM size n (Except Refusal Unit)
  | [] => return .ok ()
  | upper :: more => do
    setBank .upper core upper
    match ← enterCall core with
    | .error e => return .error e
    | .ok () => makeCalls core more

def returnFromCalls (core : CoreId) : Nat → BanksM size n Unit
  | 0 => return ()
  | count + 1 => do
    leaveCall core
    returnFromCalls core count

theorem makeCalls_run (d : p.Deepened b.pool c front frames rest) (uppers : List Bank)
    (enough : uppers.length ≤ rest.length) :
    ∃ b' front' frames', makeCalls c uppers b = .ok (.ok ()) b' ∧
      p.Deepened b'.pool c front' frames' (rest.drop uppers.length) ∧
      frames'.length = uppers.length + frames.length := by
  induction uppers generalizing b front frames rest with
  | nil => exact ⟨b, front, frames, rfl, d, (Nat.zero_add _).symm⟩
  | cons upper more ih =>
    cases rest with
    | nil => simp at enough
    | cons i rest =>
      obtain ⟨q, pushed, d'⟩ := d.push upper.spill true false
      rw [← bankOf_withBank_self b .upper c upper, ← pool_withBank b .upper c upper] at pushed
      have entered := spillBank_run .upper pushed
      obtain ⟨b', front', frames', ran, deep, count⟩ :=
        ih (b := { b.withBank .upper c upper with pool := q }) d' (by simpa using enough)
      refine ⟨b', front', frames', ?_, by simpa using deep, ?_⟩
      · simp only [makeCalls, enterCall, Action.bind_run, setBank_run, entered, Except.map, ran]
      · rw [count, List.length_cons, List.length_cons]
        omega

theorem returnFromCalls_run (d : p.Deepened b.pool c front frames rest) :
    ∃ b', returnFromCalls c frames.length b = .ok () b' ∧
      p.Deepened b'.pool c [] [] (front.reverse ++ rest) := by
  induction front generalizing b frames rest with
  | nil =>
    obtain rfl : frames = [] := d.spilled.symm
    exact ⟨b, rfl, d⟩
  | cons i front ih =>
    cases frames with
    | nil => exact absurd d.spilled (by simp)
    | cons data frames =>
      obtain ⟨s, q, popped, _, d'⟩ := d.pop
      have left := reloadBank_run .upper popped
      obtain ⟨b', ran, flat⟩ := ih (b := ({ b with pool := q }).withBank .upper c
        ((b.bankOf .upper c).reload s.data)) (by rw [pool_withBank]; exact d')
      refine ⟨b', ?_, by simpa using flat⟩
      simp only [List.length_cons, returnFromCalls, leaveCall, Action.bind_run, left, ran]

end Banks

namespace Kernel

variable {size n : Nat} {k : Kernel (Banks size n) n} {c : Fin n} {task : TaskId}
  {sp entry argument : Word} {head : Link} {nesting : UInt32} {i j : Fin size}
  {p : Pool size n} {front rest : List (Fin size)} {frames : List (Vector Word dataWords)}
  {depth : TrapDepth} {uppers : List Bank}

/-- A core resumes a task from below open calls, and returns from the calls and the trap. -/
def resumeBelow (core : CoreId) (task : TaskId) (depth : TrapDepth) :
    SegmentedM size n Resumption := do
  let resumed ← restore core task depth
  onBanks (Banks.returnFromCalls core depth.toNat)
  onBanks (Banks.leaveTrap core)
  return resumed

/-- The banks get the two contexts of the task, whatever calls were open. -/
theorem resumeBelow_run (d : p.Deepened k.storage.context.pool c front frames rest)
    (deep : frames.length = depth.toNat) (parks : k.storage.tasks.Parks task head nesting)
    (plain : head.address = head) (topped : (p.relink c [] head).Topped c i j) :
    ∃ k', resumeBelow c task depth k = .ok ⟨nesting, (p.segments.get i).link.enabled⟩ k' ∧
      (k'.storage.context.lower.get c).spill = (p.segments.get i).data ∧
      (k'.storage.context.upper.get c).spill = (p.segments.get j).data ∧
      k'.storage.context.pool.links.get c = (p.segments.get j).link ∧
      k'.storage.context.pool.WellFormed (j :: i :: (front.reverse ++ rest)) ∧
      k'.storage.tasks = k.storage.tasks.setTop task ((k.storage.tasks.top task).advance 2) := by
  have headed : (p.relink c [] head).links.get c = head := by simp [Pool.relink]
  have named : head.place? size = some i := by
    rw [← headed]
    exact topped.lower
  have used : p.inUse.get i = true := by simpa using topped.lowerUsed
  have length : front.length = depth.toNat := by
    rw [← deep, ← d.spilled, List.length_map]
  have restored := Banks.restore_run_words parks d.leads length named (d.marked used)
    (d.not_mem_front used)
  rw [plain, d.used i used] at restored
  set b : Banks size n := { k.storage.context with
    pool := k.storage.context.pool.relink c front head } with hb
  -- The calls return into the contexts of the task, which the restore has put below them.
  obtain ⟨b₁, returned, flat⟩ := Banks.returnFromCalls_run (b := b) (d.relink head)
  rw [deep] at returned
  have same := flat.flattened
  obtain ⟨q₁, q₂, first, second, whole, register⟩ := flat.deep.popTrap (same.topped topped)
  have atLower : b₁.pool.segments.get i = p.segments.get i := same.used i topped.lowerUsed
  have atUpper : b₁.pool.segments.get j = p.segments.get j := same.used j topped.upperUsed
  rw [atLower] at first
  rw [atUpper] at second register
  have left := Banks.leaveTrap_run first second
  set back := b₁.reloaded c (p.segments.get j).data (p.segments.get i).data q₂ with hback
  set ts := k.storage.tasks.setTop task ((k.storage.tasks.top task).advance 2)
  refine ⟨{ k with
    board := { k.board with trace := k.board.trace.push (.restore c task depth) }
    storage := { context := back, tasks := ts } }, ?_, ?_, ?_, register, whole, rfl⟩
  · have resumed : SwitchPrimitives.restore c task depth k.storage =
        .ok ⟨nesting, (p.segments.get i).link.enabled⟩ { context := b, tasks := ts } := restored
    simp only [resumeBelow, restore, Action.bind_run, onBoard, Board.emit, onBanks, onStorage,
      Storage.onContext, resumed, returned, left, Action.pure_run]
  · simp [hback, Banks.reloaded]
  · simp [hback, Banks.reloaded]

/-- A task is created, and a core with some calls open starts it. -/
def createAndStart (core : CoreId) (task : TaskId) (sp entry argument : Word) (uppers : List Bank)
    (depth : TrapDepth) : SegmentedM size n (Except Refusal Resumption) := do
  match ← createFrom task sp entry argument with
  | .error e => return .error e
  | .ok () =>
    match ← onBanks (Banks.makeCalls core uppers) with
    | .error e => return .error e
    | .ok () => return .ok (← resumeBelow core task depth)

/-- A new task starts at its entry, with interrupts enabled and outside critical sections, from any
depth and in whatever segments it got. It has given back its segments by then. -/
theorem task_starts_at_entry (w : k.storage.context.pool.WellFormed (i :: j :: rest))
    (room : k.storage.tasks.Room task sp) (deep : uppers.length = depth.toNat)
    (enough : depth.toNat ≤ rest.length) (c : Fin n) (entry argument : Word) :
    ∃ k', createAndStart c task sp entry argument uppers depth k = .ok (.ok ⟨0, true⟩) k' ∧
      k'.storage.context.AtStart c sp entry argument ∧ k'.storage.tasks.top task = sp ∧
      k'.storage.context.pool.WellFormed (j :: i :: rest) ∧
      (k'.storage.context.pool.links.get c).isNull = true := by
  obtain ⟨head, tail, q, r, taken, written, w₁, plain, topped, atFirst, atSecond⟩ :=
    w.create_topped sp entry argument c
  obtain ⟨top, ts, pushed, parks, _, kept⟩ := Tasks.pushHead_run room head 0
  obtain ⟨trace, created⟩ := createFrom_run_words task taken written pushed
  have flat : r.Deepened r c [] [] rest := .refl w₁ c
  obtain ⟨b, front, frames, called, d, count⟩ := Banks.makeCalls_run
    (b := { k.storage.context with pool := r }) flat uppers (by omega)
  obtain ⟨k', resumed, lower, upper, register, whole, tasks⟩ := resumeBelow_run
    (k := { k with
      board := { k.board with trace }
      storage := { context := b, tasks := ts.setTop task top } })
    d (by simpa [deep] using count) parks plain topped
  rw [atFirst] at resumed lower
  rw [atSecond] at upper register
  rw [← w₁.path.unique d.flat.path] at whole
  refine ⟨k', ?_, .of_spills lower upper, ?_, whole, ?_⟩
  · simp only [createAndStart, Action.bind_run, created, onBanks, onStorage, Storage.onContext,
      Banks.withPool, called, resumed, Action.pure_run]
    rfl
  · have inside : task < ts.list.size := by
      obtain ⟨offset, -, low, -⟩ := room
      rw [kept]
      exact Tasks.lt_size_of_read? low
    rw [tasks, Tasks.top_setTop, if_pos ⟨rfl, by simpa using inside⟩, Tasks.top_setTop,
      if_pos ⟨rfl, inside⟩, Tasks.advance_of_pushHead room pushed]
  · rw [register]
    rfl

/-- On a core with one call open a task starts with 4 as its entry and 5 as its argument. -/
theorem task_starts_at_entry_below_call : ∃ k k' : Kernel (Banks 4 1) 1,
    boot 0 { queues := #v[[0]], stackSizes := #[8] } {} = .ok k ∧
    createAndStart 0 0 (.stack 0 8) (.num 4) (.num 5) [.replicate 16 (.num 7)] 1 k =
      .ok (.ok ⟨0, true⟩) k' ∧
    k'.storage.context.AtStart 0 (.stack 0 8) (.num 4) (.num 5) ∧
    k'.storage.tasks.top 0 = .stack 0 8 ∧
    k'.storage.context.pool.WellFormed [1, 0, 2, 3] ∧
    (k'.storage.context.pool.links.get 0).isNull = true := by
  obtain ⟨k, booted, fresh, room⟩ : ∃ k : Kernel (Banks 4 1) 1,
      boot 0 { queues := #v[[0]], stackSizes := #[8] } {} = .ok k ∧
      k.storage.context.pool = .fresh 4 1 ∧ k.storage.tasks.Room 0 (.stack 0 8) :=
    ⟨_, by with_unfolding_all rfl, rfl, 6, rfl, by with_unfolding_all rfl,
      by with_unfolding_all rfl⟩
  have w : k.storage.context.pool.WellFormed [0, 1, 2, 3] := by
    rw [fresh]
    exact Pool.WellFormed.fresh (n := 1) (show 4 < segmentNumbers by decide)
  obtain ⟨k', started⟩ := task_starts_at_entry w room
    (show [Vector.replicate 16 (Word.num 7)].length = (1 : TrapDepth).toNat from rfl) (by decide) 0
    (.num 4) (.num 5)
  exact ⟨k, k', booted, started⟩

end Kernel

end Preempt
