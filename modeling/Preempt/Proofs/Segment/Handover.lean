import Preempt.Proofs.Segment.Sharing
import Preempt.Tasks.Blocks

/-!
Handing a core over from one suspended chain to another. `Parks` says what a suspended task has on
its stack: the head of its chain and its nesting, at the saved top. A save parks the task that a
core interrupted (`save_run`), a restore makes the core return into a parked one (`restore_run`).
-/

namespace Preempt

namespace Tasks

variable {ts ts' : Tasks} {task : TaskId} {head : Link} {nesting : UInt32}

/-- The task's own stack has two free words below the stack pointer `sp`. -/
def Room (ts : Tasks) (task : TaskId) (sp : Word) : Prop :=
  ∃ offset : Int, sp = .stack task (offset + 2) ∧ (ts.read? (.stack task offset)).isSome ∧
    (ts.read? (.stack task (offset + 1))).isSome

theorem room_stack_iff (ts : Tasks) (task other : TaskId) (offset : Int) :
    ts.Room task (.stack other offset) ↔ other = task ∧
      (ts.read? (.stack task (offset - 2))).isSome ∧
      (ts.read? (.stack task (offset - 1))).isSome := by
  constructor
  · rintro ⟨free, is, low, high⟩
    cases is
    refine ⟨rfl, ?_, ?_⟩
    · rwa [Int.add_sub_cancel]
    · rwa [show free + 2 - 1 = free + 1 by omega]
  · rintro ⟨rfl, low, high⟩
    refine ⟨offset - 2, by rw [Int.sub_add_cancel], low, ?_⟩
    rwa [show offset - 2 + 1 = offset - 1 by omega]

instance (ts : Tasks) (task : TaskId) : (sp : Word) → Decidable (ts.Room task sp)
  | .stack other offset => decidable_of_iff _ (ts.room_stack_iff task other offset).symm
  | .num _ | .exitTrap => isFalse (by rintro ⟨_, is, _⟩; cases is)

/-- The saved top of a task is a place in its own stack where the head of a chain and the critical
nesting are. -/
def Parks (ts : Tasks) (task : TaskId) (head : Link) (nesting : UInt32) : Prop :=
  ∃ offset : Int, ts.top task = .stack task offset ∧
    ts.read? (.stack task offset) = some (.ofUInt32 head.address.raw) ∧
    ts.read? (.stack task (offset + 1)) = some (.ofUInt32 nesting)

theorem Parks.congr (parks : ts.Parks task head nesting)
    (same : ts'.list[task]? = ts.list[task]?) : ts'.Parks task head nesting := by
  obtain ⟨offset, top, low, high⟩ := parks
  refine ⟨offset, ?_, ?_, ?_⟩
  · rw [top_congr same, top]
  · rw [read?_congr same, low]
  · rw [read?_congr same, high]

theorem Parks.savedHead_run (parks : ts.Parks task head nesting) :
    savedHead task ts = .ok head.address ts := by
  obtain ⟨offset, top, low, _⟩ := parks
  simp only [savedHead, Action.bind_run, Action.get_run, top, load_run ts low, Action.pure_run,
    Word.low_ofUInt32, Link.ofRaw_raw, Link.address_address]

/-- Below a stack pointer with room the head and the nesting of a task are stored. -/
theorem pushHead_run {sp : Word} (room : ts.Room task sp) (head : Link) (nesting : UInt32) :
    ∃ top ts', pushHead sp head nesting ts = .ok top ts' ∧
      (ts'.setTop task top).Parks task head nesting ∧
      (∀ other, other ≠ task → ts'.list[other]? = ts.list[other]?) ∧
      ts'.list.size = ts.list.size := by
  obtain ⟨offset, rfl, low, high⟩ := room
  set first := ts.write (.stack task offset) (.ofUInt32 head.address.raw) with hfirst
  have readFirst (other : Word) := read?_write ts (.stack task offset)
    (.ofUInt32 head.address.raw) other low
  have high' : (first.read? (.stack task (offset + 1))).isSome := by
    rw [hfirst, readFirst]
    split
    · rfl
    · exact high
  set second := first.write (.stack task (offset + 1)) (.ofUInt32 nesting) with hsecond
  have readSecond (other : Word) := read?_write first (.stack task (offset + 1))
    (.ofUInt32 nesting) other high'
  have moved : (Word.stack task (offset + 2)).advance (-2) = .stack task offset := by
    rw [Word.advance_stack, Int.add_neg_cancel_right]
  have apart : Word.stack task offset ≠ .stack task (offset + 1) := by
    intro same
    injection same with _ same
    omega
  refine ⟨.stack task offset, second, ?_, ⟨offset, ?_, ?_, ?_⟩, ?_, ?_⟩
  · have stored := store_run (.ofUInt32 nesting) first high'
    simp only [pushHead, Action.bind_run, moved, store_run _ _ low, Word.advance_stack,
      ← hfirst, stored, Action.pure_run, hsecond]
  · have inRange := lt_size_of_read? low
    simp [hsecond, hfirst, inRange]
  · rw [read?_setTop, hsecond, readSecond, if_neg apart, hfirst, readFirst, if_pos rfl]
  · rw [read?_setTop, hsecond, readSecond, if_pos rfl]
  · intro other apart
    rw [hsecond, record_write _ apart, hfirst, record_write _ apart]
  · simp [hsecond, hfirst]

end Tasks

namespace Pool

variable {size n : Nat} {p : Pool size n} {c : Fin n} {depth : TrapDepth}
  {front : List (Fin size)} {i j : Fin size} {l m : Link}

theorem nil_of_depth_zero (deep : front.length = depth.toNat) (zero : depth = 0) : front = [] := by
  rw [zero] at deep
  exact List.length_eq_zero_iff.mp deep

theorem concat_of_depth_ne_zero (deep : front.length = depth.toNat) (zero : depth ≠ 0) :
    ∃ init last, front = init ++ [last] ∧ init.length = depth.toNat - 1 := by
  rcases List.eq_nil_or_concat front with rfl | ⟨init, last, rfl⟩
  · exact absurd (UInt8.toNat_inj.mp (by simpa using deep.symm)) zero
  · refine ⟨init, last, List.concat_eq_append, ?_⟩
    rw [List.length_concat] at deep
    omega

theorem callerAt_run {init : List (Fin size)} (leads : Leads p (p.links.get c) init l)
    (deep : init.length = depth.toNat - 1) : callerAt c depth p = .ok l p := by
  simp only [callerAt, Action.bind_run, chain_run, ← deep]
  exact leads.follow_run

/-- At a depth the chain of the interrupted task starts behind that many segments. -/
theorem interruptedTask_run (leads : Leads p (p.links.get c) front m)
    (deep : front.length = depth.toNat) : interruptedTask c depth p = .ok m p := by
  by_cases zero : depth = 0
  · obtain rfl := nil_of_depth_zero deep zero
    cases leads
    simp only [interruptedTask, zero, if_true, chain_run]
  · obtain ⟨init, last, rfl, above⟩ := concat_of_depth_ne_zero deep zero
    obtain ⟨k, first, final⟩ := leads.of_append
    cases final with
    | step named onward =>
      cases onward
      simp only [interruptedTask, zero, if_false, Action.bind_run, callerAt_run first above,
        next_run_named p named]

theorem resumeAt_run (leads : Leads p (p.links.get c) front m)
    (deep : front.length = depth.toNat) (head : Link) :
    resumeAt c depth head p = .ok () (p.relink c front head) := by
  by_cases zero : depth = 0
  · obtain rfl := nil_of_depth_zero deep zero
    simp only [resumeAt, zero, if_true, setChain_run]
    rfl
  · obtain ⟨init, last, rfl, above⟩ := concat_of_depth_ne_zero deep zero
    obtain ⟨k, first, final⟩ := leads.of_append
    cases final with
    | step named _ =>
      simp only [resumeAt, zero, if_false, Action.bind_run, callerAt_run first above,
        writeLink_run head p named]
      simp [relink]

theorem suspendedPointer_run (lower : l.place? size = some i)
    (upper : (p.segments.get i).link.place? size = some j) :
    suspendedPointer l p = .ok (p.segments.get j).data[upperStackPointer - 1] p := by
  simp only [suspendedPointer, Action.bind_run, next_run_named p lower, segment_run, segment?,
    upper, Option.map_some, Action.pure_run]

theorem resumesEnabled_run (named : l.place? size = some i) :
    resumesEnabled l p = .ok (p.segments.get i).link.enabled p := by
  simp only [resumesEnabled, Action.bind_run, next_run_named p named, Action.pure_run]

end Pool

namespace Banks

open Storage Tasks

variable {size n : Nat} {α : Type} {s : Storage (Banks size n)} {c : Fin n} {depth : TrapDepth}
  {front : List (Fin size)} {i j : Fin size} {m head : Link} {task : TaskId} {nesting : UInt32}

/-- The storage with another pool. -/
def withPool (s : Storage (Banks size n)) (p : Pool size n) : Storage (Banks size n) :=
  { s with context := { s.context with pool := p } }

@[simp] theorem tasks_withPool (s : Storage (Banks size n)) (p : Pool size n) :
    (withPool s p).tasks = s.tasks := rfl

@[simp] theorem pool_withPool (s : Storage (Banks size n)) (p : Pool size n) :
    (withPool s p).context.pool = p := rfl

theorem onPool_run {action : PoolM size n α} {a : α} {q : Pool size n}
    (ran : action s.context.pool = .ok a q) :
    (onContext (onPool action) : StorageM (Banks size n) α) s = .ok a (withPool s q) := by
  simp only [onContext, onPool, ran]
  rfl

/-- The chain behind `front` is the task's; its stack pointer is in the second segment of it. -/
theorem save_run_words {top : Word} {ts : Tasks}
    (leads : Pool.Leads s.context.pool (s.context.pool.links.get c) front m)
    (deep : front.length = depth.toNat) (lower : m.place? size = some i)
    (upper : (s.context.pool.segments.get i).link.place? size = some j)
    (pushed : pushHead (s.context.pool.segments.get j).data[upperStackPointer - 1] m nesting
      s.tasks = .ok top ts) :
    save c task nesting depth s = .ok () { s with tasks := ts.setTop task top } := by
  have found := onPool_run (Pool.interruptedTask_run leads deep)
  have pointed := onPool_run (Pool.suspendedPointer_run lower upper)
  simp only [save, Action.bind_run, found, withPool, pointed, onTasks, pushed, Storage.setTop]

/-- On a stack with room a save parks the task. -/
theorem save_run (nesting : UInt32)
    (leads : Pool.Leads s.context.pool (s.context.pool.links.get c) front m)
    (deep : front.length = depth.toNat) (lower : m.place? size = some i)
    (upper : (s.context.pool.segments.get i).link.place? size = some j)
    (room : s.tasks.Room task (s.context.pool.segments.get j).data[upperStackPointer - 1]) :
    ∃ ts, save c task nesting depth s = .ok () { s with tasks := ts } ∧
      ts.Parks task m nesting ∧
      (∀ other, other ≠ task → ts.list[other]? = s.tasks.list[other]?) := by
  obtain ⟨top, ts, pushed, parks, others, _⟩ := pushHead_run room m nesting
  refine ⟨ts.setTop task top, save_run_words leads deep lower upper pushed, parks, ?_⟩
  intro other apart
  rw [record_setTop _ apart, others other apart]

theorem restore_run_words (parks : s.tasks.Parks task head nesting)
    (leads : Pool.Leads s.context.pool (s.context.pool.links.get c) front m)
    (deep : front.length = depth.toNat) (named : head.place? size = some i)
    (used : s.context.pool.inUse.get i = true) (apart : i ∉ front) :
    restore c task depth s = .ok ⟨nesting, (s.context.pool.segments.get i).link.enabled⟩
      { withPool s (s.context.pool.relink c front head.address) with
        tasks := s.tasks.setTop task ((s.tasks.top task).advance 2) } := by
  obtain ⟨offset, atTop, low, high⟩ := parks
  have headed := Parks.savedHead_run ⟨offset, atTop, low, high⟩
  have loaded : load ((s.tasks.top task).advance 1) s.tasks = .ok (.ofUInt32 nesting) s.tasks := by
    rw [atTop, Word.advance_stack]
    exact load_run _ high
  have inUse : s.context.pool.isInUse head.address = true :=
    (Pool.isInUse_eq_true_iff _ _).mpr ⟨i, named, used⟩
  set moved : Storage (Banks size n) :=
    { s with tasks := s.tasks.setTop task ((s.tasks.top task).advance 2) } with hmoved
  have resumed : (onContext (onPool (Pool.resumeAt c depth head.address)) :
      StorageM (Banks size n) Unit) moved =
        .ok () (withPool moved (s.context.pool.relink c front head.address)) :=
    onPool_run (Pool.resumeAt_run leads deep head.address)
  have enabled : (onContext (onPool (Pool.resumesEnabled head.address)) :
      StorageM (Banks size n) Bool) (withPool moved (s.context.pool.relink c front head.address)) =
        .ok (s.context.pool.segments.get i).link.enabled
          (withPool moved (s.context.pool.relink c front head.address)) := by
    rw [← Pool.segments_relink_of_not_mem s.context.pool c front head.address apart]
    exact onPool_run (Pool.resumesEnabled_run named)
  simp only [restore, Action.bind_run, topOf, onTasks, headed, loaded, Action.get_run, inUse,
    if_true, Storage.setTop]
  rw [← hmoved, resumed]
  simp only [enabled, Action.pure_run, Word.low_ofUInt32]
  rfl

theorem restore_run (parks : s.tasks.Parks task head nesting)
    (leads : Pool.Leads s.context.pool (s.context.pool.links.get c) front m)
    (deep : front.length = depth.toNat) (named : head.place? size = some i)
    (used : s.context.pool.inUse.get i = true) (apart : i ∉ front) :
    ∃ top, restore c task depth s =
      .ok ⟨nesting, (s.context.pool.segments.get i).link.enabled⟩
        { withPool s (s.context.pool.relink c front head.address) with
          tasks := s.tasks.setTop task top } :=
  ⟨_, restore_run_words parks leads deep named used apart⟩

end Banks

end Preempt
