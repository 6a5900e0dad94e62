import Preempt.Proofs.Segment.Depth
import Preempt.Proofs.Segment.Joining

/-!
Leaving an interrupt and coming back. The two contexts of a joined pair come off the live chain and
go back into the same segments, so that a trap taken right after an interrupt leaves the pool as it
was but for the flags of the link register (`Topped.reenter`). A switch in the handler of the trap
then does what the switch in the interrupt would have done (`exchange_below`).
-/

namespace Preempt

theorem Bank.reload_reload (b : Bank) (data data' : Vector Word dataWords) :
    (b.reload data).reload data' = b.reload data' := by
  ext i inside
  cases i with
  | zero => rw [getElem_reload_zero, getElem_reload_zero, getElem_reload_zero]
  | succ i =>
    have inside := Nat.lt_of_succ_lt_succ inside
    rw [getElem_reload_succ _ _ i inside, getElem_reload_succ _ _ i inside]

namespace Pool

variable {size n : Nat} {p q : Pool size n} {c : Fin n} {i j : Fin size}

/-- The live chain of a core starts with the two contexts of an interrupt. -/
structure Topped (p : Pool size n) (c : Fin n) (i j : Fin size) : Prop where
  lower : (p.links.get c).place? size = some i
  lowerUsed : p.inUse.get i = true
  upper : (p.segments.get i).link.place? size = some j
  upperUsed : p.inUse.get j = true
  apart : i ≠ j

/-- The contexts of an interrupt go back where they were. -/
theorem Topped.reenter (topped : p.Topped c i j) (joins : (p.segments.get i).link.Joins)
    {enabled : Bool} (flag : (p.segments.get i).link.enabled = enabled) :
    ∃ q₁ q₂ q₃ l₁ l₂, Pool.pop c p = .ok (p.segments.get i) q₁ ∧
      Pool.pop c q₁ = .ok (p.segments.get j) q₂ ∧
      Pool.push c (p.segments.get j).data true enabled q₂ = .ok (.ok l₁) q₃ ∧
      Pool.push c (p.segments.get i).data false enabled q₃ =
        .ok (.ok l₂) (p.relink c [] ((p.links.get c).withFlags false enabled)) := by
  obtain ⟨lower, lowerUsed, upper, upperUsed, apart⟩ := topped
  have first := pop_run c p lower lowerUsed
  set q₁ : Pool size n :=
    { segments := p.segments.put i { p.segments.get i with link := p.freeHead }
      inUse := p.inUse.put i false
      freeHead := (p.links.get c).address
      links := p.links.put c (p.segments.get i).link } with hq₁
  have atUpper : q₁.segments.get j = p.segments.get j := by simp [hq₁, Vector.get_put, apart]
  have second := pop_run (i := j) c q₁ (by simpa [hq₁] using upper)
    (by simpa [hq₁, Vector.get_put, apart] using upperUsed)
  rw [atUpper] at second
  set q₂ : Pool size n :=
    { segments := q₁.segments.put j { p.segments.get j with link := q₁.freeHead }
      inUse := q₁.inUse.put j false
      freeHead := (q₁.links.get c).address
      links := q₁.links.put c (p.segments.get j).link } with hq₂
  have third := push_run (i := j) c (p.segments.get j).data true enabled q₂
    (by simpa [hq₂, hq₁] using upper)
  set q₃ : Pool size n :=
    { segments := q₂.segments.put j { link := q₂.links.get c, data := (p.segments.get j).data }
      inUse := q₂.inUse.put j true
      freeHead := (q₂.segments.get j).link
      links := q₂.links.put c (q₂.freeHead.withFlags true enabled) } with hq₃
  have fourth := push_run (i := i) c (p.segments.get i).data false enabled q₃
    (by simpa [hq₃, hq₂, hq₁] using lower)
  -- The pops lay the two segments on the free list in the order in which the pushes take them. The
  -- flags that a push makes up are the ones that the link had, since the link joins.
  have joined :
      (p.segments.get i).link.address.withFlags true enabled = (p.segments.get i).link := by
    rw [← flag]
    exact joins.withFlags_eq
  have again : ({ segments := q₃.segments.put i
                    { link := q₃.links.get c, data := (p.segments.get i).data }
                  inUse := q₃.inUse.put i true
                  freeHead := (q₃.segments.get i).link
                  links := q₃.links.put c (q₃.freeHead.withFlags false enabled) } : Pool size n) =
      p.relink c [] ((p.links.get c).withFlags false enabled) := by
    simp only [relink, List.getLast?_nil, Pool.mk.injEq]
    refine ⟨Vector.eq_of_get fun k => ?_, Vector.eq_of_get fun k => ?_, ?_, ?_⟩
    · by_cases isLower : i = k
      · subst isLower
        simp [hq₃, hq₂, hq₁, joined]
      · by_cases isUpper : j = k
        · subst isUpper
          simp [hq₃, hq₂, hq₁, Vector.get_put, isLower]
        · simp [hq₃, hq₂, hq₁, Vector.get_put, isLower, isUpper]
    · by_cases isLower : i = k
      · subst isLower
        simp [lowerUsed]
      · by_cases isUpper : j = k
        · subst isUpper
          simp [hq₃, Vector.get_put, isLower, upperUsed]
        · simp [hq₃, hq₂, hq₁, Vector.get_put, isLower, isUpper]
    · simp [hq₃, hq₂, hq₁, Vector.get_put, Ne.symm apart]
    · simp [hq₃, hq₂, hq₁, Vector.put_put, Link.withFlags, Link.address]
  rw [again] at fourth
  exact ⟨q₁, q₂, q₃, _, _, first, second, third, fourth⟩

/-- A pop takes the same segment off a chain, whatever free segments hold. -/
theorem SameButFree.pop (same : p.SameButFree q) (named : (p.links.get c).place? size = some i)
    (used : p.inUse.get i = true) :
    ∃ p' q', Pool.pop c p = .ok (p.segments.get i) p' ∧
      Pool.pop c q = .ok (p.segments.get i) q' ∧ p'.SameButFree q' ∧
      p'.links.get c = (p.segments.get i).link ∧
      ∀ k, i ≠ k → p'.segments.get k = p.segments.get k ∧ p'.inUse.get k = p.inUse.get k := by
  have atTop := same.used i used
  have first := pop_run c p named used
  have second := pop_run (i := i) c q (by rw [same.links]; exact named)
    (by rw [same.inUse]; exact used)
  rw [atTop] at second
  refine ⟨_, _, first, second, ⟨?_, ?_, ?_, fun k => ?_, fun k usedThere => ?_⟩, by simp,
    fun k apart => ⟨Vector.get_put_of_ne _ apart _, Vector.get_put_of_ne _ apart _⟩⟩
  · rw [same.links]
  · rw [same.links]
  · rw [same.inUse]
  · by_cases here : i = k
    · subst here
      simp [same.freeHead]
    · simp [Vector.get_put, here, same.linked]
  · by_cases here : i = k
    · subst here
      simp at usedThere
    · simp only [Vector.get_put, here, if_false] at usedThere ⊢
      exact same.used k usedThere

theorem SameButFree.popTrap (same : p.SameButFree q) (topped : p.Topped c i j) :
    ∃ p₁ p₂ q₁ q₂, Pool.pop c p = .ok (p.segments.get i) p₁ ∧
      Pool.pop c p₁ = .ok (p.segments.get j) p₂ ∧ Pool.pop c q = .ok (p.segments.get i) q₁ ∧
      Pool.pop c q₁ = .ok (p.segments.get j) q₂ ∧ p₂.SameButFree q₂ := by
  obtain ⟨p₁, q₁, first, first', same₁, onward, others⟩ := same.pop topped.lower topped.lowerUsed
  obtain ⟨segment, mark⟩ := others j topped.apart
  obtain ⟨p₂, q₂, second, second', same₂, _⟩ := same₁.pop (c := c) (i := j)
    (by rw [onward]; exact topped.upper) (by rw [mark]; exact topped.upperUsed)
  rw [segment] at second second'
  exact ⟨p₁, p₂, q₁, q₂, first, second, first', second', same₂⟩

end Pool

namespace Banks

variable {size n : Nat} {b : Banks size n} {c : Fin n}

/-- The handler of the software interrupt calls the dispatcher, and that calls the switch. -/
def enterHandler (core : CoreId) (enabled : Bool) : BanksM size n (Except Refusal Unit) := do
  match ← enterTrap core enabled with
  | .error e => return .error e
  | .ok () =>
    match ← enterCall core with
    | .error e => return .error e
    | .ok () => enterCall core

def leaveHandler (core : CoreId) : BanksM size n Unit := do
  leaveCall core
  leaveCall core
  leaveTrap core

/-- Both banks of a core reloaded from two segments that have left the pool. -/
def reloaded (b : Banks size n) (c : Fin n) (upper lower : Vector Word dataWords)
    (pool : Pool size n) : Banks size n :=
  { b with
    pool
    upper := b.upper.put c ((b.upper.get c).reload upper)
    lower := b.lower.put c ((b.lower.get c).reload lower) }

theorem reloaded_reloaded (b : Banks size n) (c : Fin n)
    (upper lower upper' lower' : Vector Word dataWords) (pool pool' : Pool size n) :
    (b.reloaded c upper lower pool).reloaded c upper' lower' pool' =
      b.reloaded c upper' lower' pool' := by
  simp [reloaded, Vector.put_put, Bank.reload_reload]

theorem leaveTrap_run {p q : Pool size n} {lower upper : Segment}
    (first : Pool.pop c b.pool = .ok lower p) (second : Pool.pop c p = .ok upper q) :
    leaveTrap c b = .ok () (b.reloaded c upper.data lower.data q) := by
  have lowerRan := reloadBank_run .lower first
  have upperRan := reloadBank_run (s := upper) (q := q) .upper
    (b := ({ b with pool := p }).withBank .lower c ((b.bankOf .lower c).reload lower.data)) second
  simp only [leaveTrap, Action.bind_run, lowerRan, upperRan]
  rfl

theorem enterHandler_run {enabled : Bool} {p₁ p₂ p₃ p₄ : Pool size n} {l₁ l₂ l₃ l₄ : Link}
    (first : Pool.push c (b.upper.get c).spill true enabled b.pool = .ok (.ok l₁) p₁)
    (second : Pool.push c (b.lower.get c).spill false enabled p₁ = .ok (.ok l₂) p₂)
    (third : Pool.push c (b.upper.get c).spill true false p₂ = .ok (.ok l₃) p₃)
    (fourth : Pool.push c (b.upper.get c).spill true false p₃ = .ok (.ok l₄) p₄) :
    enterHandler c enabled b = .ok (.ok ()) { b with pool := p₄ } := by
  have upper := spillBank_run .upper first
  have lower := spillBank_run .lower (b := { b with pool := p₁ }) second
  have handler := spillBank_run .upper (b := { b with pool := p₂ }) third
  have dispatcher := spillBank_run .upper (b := { b with pool := p₃ }) fourth
  simp only [enterHandler, enterTrap, enterCall, Action.bind_run, upper, Except.map, lower, handler,
    dispatcher]

theorem leaveHandler_run {p₁ p₂ p₃ p₄ : Pool size n} {s₁ s₂ lower upper : Segment}
    (first : Pool.pop c b.pool = .ok s₁ p₁) (second : Pool.pop c p₁ = .ok s₂ p₂)
    (third : Pool.pop c p₂ = .ok lower p₃) (fourth : Pool.pop c p₃ = .ok upper p₄) :
    leaveHandler c b = .ok () (b.reloaded c upper.data lower.data p₄) := by
  have dispatcher := reloadBank_run .upper first
  set b₁ := ({ b with pool := p₁ }).withBank .upper c ((b.bankOf .upper c).reload s₁.data) with hb₁
  have handler := reloadBank_run .upper (b := b₁) second
  set b₂ := ({ b₁ with pool := p₂ }).withBank .upper c ((b₁.bankOf .upper c).reload s₂.data)
    with hb₂
  have back := leaveTrap_run (b := b₂) third fourth
  have same : b₂.reloaded c upper.data lower.data p₄ = b.reloaded c upper.data lower.data p₄ := by
    simp [hb₂, hb₁, reloaded, withBank, bankOf, Vector.put_put, Bank.reload_reload]
  rw [same] at back
  simp only [leaveHandler, leaveCall, Action.bind_run, dispatcher, handler, back]

end Banks

/-- What a switch does to the storage: it saves a task and restores one, maybe the same. -/
def SwitchPrimitives.exchange {κ : Type} [SwitchPrimitives κ] (core : CoreId)
    (outgoing incoming : TaskId) (nesting : UInt32) (depth : TrapDepth) :
    StorageM κ Resumption := do
  save core outgoing nesting depth
  restore core incoming depth

theorem SwitchPrimitives.exchange_run {κ : Type} [SwitchPrimitives κ] {core : CoreId}
    {outgoing incoming : TaskId} {nesting : UInt32} {depth : TrapDepth} {r : Resumption}
    {s s₁ s₂ : Storage κ} (saved : save core outgoing nesting depth s = .ok () s₁)
    (restored : restore core incoming depth s₁ = .ok r s₂) :
    exchange core outgoing incoming nesting depth s = .ok r s₂ := by
  simp only [exchange, Action.bind_run, saved, restored]

theorem SwitchPrimitives.exchange_run_halted {κ : Type} [SwitchPrimitives κ] {core : CoreId}
    {outgoing incoming : TaskId} {nesting : UInt32} {depth : TrapDepth} {halt : Halt}
    {s s₁ : Storage κ} (saved : save core outgoing nesting depth s = .error halt s₁) :
    exchange core outgoing incoming nesting depth s = .error halt s₁ := by
  simp only [exchange, Action.bind_run, saved]

namespace Tasks

/-- Only the segment number of the head is stored. -/
theorem pushHead_congr {head head' : Link} (same : head.address = head'.address) {sp : Word}
    {nesting : UInt32} : pushHead sp head nesting = pushHead sp head' nesting := by
  simp only [pushHead, same]

/-- A stack pointer that is in no other task's stack is of use only with room below it. -/
theorem pushHead_run_halted {ts : Tasks} {task : TaskId} {sp : Word}
    (own : ∀ other offset, sp = .stack other offset → other = task) (noRoom : ¬ts.Room task sp)
    (head : Link) (nesting : UInt32) :
    ∃ halt ts', pushHead sp head nesting ts = .error halt ts' := by
  cases sp with
  | num value => exact ⟨.wildAccess, ts, rfl⟩
  | exitTrap => exact ⟨.wildAccess, ts, rfl⟩
  | stack other offset =>
    obtain rfl := (own other offset rfl).symm
    simp only [pushHead, Action.bind_run, Word.advance_stack]
    cases low : ts.read? (.stack task (offset + -2)) with
    | none => exact ⟨.wildAccess, ts, by simp only [store, low]⟩
    | some old =>
      simp only [store_run _ ts (by rw [low]; rfl)]
      set first := ts.write (.stack task (offset + -2)) (.ofUInt32 head.address.raw) with hfirst
      have readFirst := read?_write ts (.stack task (offset + -2)) (.ofUInt32 head.address.raw)
        (.stack task (offset + -2 + 1)) (by rw [low]; rfl)
      rw [if_neg (by simp only [Word.stack.injEq, true_and]; omega), ← hfirst] at readFirst
      cases high : ts.read? (.stack task (offset + -2 + 1)) with
      | none =>
        rw [high] at readFirst
        exact ⟨.wildAccess, first, by simp only [store, readFirst]⟩
      | some old' =>
        refine absurd ⟨offset + -2, ?_, by rw [low]; rfl, by rw [high]; rfl⟩ noRoom
        rw [Int.neg_add_cancel_right]

end Tasks

namespace Banks

open SwitchPrimitives (exchange exchange_run exchange_run_halted)

variable {size n : Nat} {b : Banks size n} {q : Pool size n} {c : Fin n}
  {s t : Storage (Banks size n)}

theorem save_run_halted {front : List (Fin size)} {i j : Fin size} {m : Link} {task : TaskId}
    {nesting : UInt32} {depth : TrapDepth} {halt : Halt} {ts : Tasks}
    (leads : Pool.Leads s.context.pool (s.context.pool.links.get c) front m)
    (deep : front.length = depth.toNat) (lower : m.place? size = some i)
    (upper : (s.context.pool.segments.get i).link.place? size = some j)
    (halted : Tasks.pushHead (s.context.pool.segments.get j).data[upperStackPointer - 1] m nesting
      s.tasks = .error halt ts) :
    ∃ s', save c task nesting depth s = .error halt s' := by
  have found := onPool_run (Pool.interruptedTask_run leads deep)
  have pointed := onPool_run (Pool.suspendedPointer_run lower upper)
  refine ⟨{ s with tasks := ts }, ?_⟩
  simp only [save, Action.bind_run, found, withPool, pointed, Storage.onTasks, halted]

/-- The exchange in an interrupt and the one below calls that were made from the trap taken after
it. Only the flags of the link register have changed in between. -/
theorem exchange_below {link : Link} {front rest : List (Fin size)}
    {frames : List (Vector Word dataWords)} {outgoing incoming : TaskId} {depth : TrapDepth}
    (tasks : t.tasks = s.tasks) (same : link.address = (s.context.pool.links.get c).address)
    (d : (s.context.pool.relink c [] link).Deepened t.context.pool c front frames rest)
    (deep : front.length = depth.toNat) (interrupted : Interrupted s c outgoing)
    (suspended : incoming ≠ outgoing → Resumable s incoming) (nesting : UInt32) :
    ∃ resumed ts head,
      exchange c outgoing incoming nesting 0 s =
        .ok resumed { withPool s (s.context.pool.relink c [] head) with tasks := ts } ∧
      exchange c outgoing incoming nesting depth t =
        .ok resumed { withPool t (t.context.pool.relink c front head) with tasks := ts } := by
  obtain ⟨i, j, lower, lowerUsed, upper, upperUsed, room⟩ := interrupted
  obtain ⟨top, ts, pushed, parks, others, _⟩ :=
    Tasks.pushHead_run room (s.context.pool.links.get c) nesting
  have leads := d.leads
  rw [show (s.context.pool.relink c [] link).links.get c = link by simp [Pool.relink]] at leads
  have saved : save c outgoing nesting 0 s = .ok () { s with tasks := ts.setTop outgoing top } :=
    save_run_words .here rfl lower upper pushed
  have savedBelow : save c outgoing nesting depth t =
      .ok () { t with tasks := ts.setTop outgoing top } := by
    have atLower := d.used i lowerUsed
    have atUpper := d.used j upperUsed
    refine save_run_words leads deep (i := i) (j := j) ?_ ?_ ?_
    · rw [← Link.place?_address, same]
      exact lower
    · rw [atLower]
      exact upper
    · rw [atUpper, tasks, Tasks.pushHead_congr same]
      exact pushed
  have ready : Resumable { s with tasks := ts.setTop outgoing top } incoming := by
    refine Resumable.of_saved ⟨_, nesting, i, parks, lower, lowerUsed⟩ (fun other apart => ?_)
      suspended
    rw [Tasks.record_setTop _ apart, others other apart]
  obtain ⟨head, nesting', i', parks', named, used⟩ := ready
  have restored := restore_run_words (s := { s with tasks := ts.setTop outgoing top }) parks'
    .here (show _ = (0 : TrapDepth).toNat from rfl) named used (c := c) (by simp)
  have restoredBelow := restore_run_words (s := { t with tasks := ts.setTop outgoing top }) parks'
    leads deep named (d.marked used) (d.not_mem_front used)
  rw [show t.context.pool.segments.get i' = s.context.pool.segments.get i' from d.used i' used]
    at restoredBelow
  exact ⟨_, _, _, exchange_run saved restored, exchange_run savedBelow restoredBelow⟩

/-- Without room on the stack of the task both exchanges halt in the save. -/
theorem exchange_halts {link : Link} {front rest : List (Fin size)} {i j : Fin size}
    {frames : List (Vector Word dataWords)} {outgoing : TaskId} {depth : TrapDepth}
    (tasks : t.tasks = s.tasks) (same : link.address = (s.context.pool.links.get c).address)
    (d : (s.context.pool.relink c [] link).Deepened t.context.pool c front frames rest)
    (deep : front.length = depth.toNat) (topped : s.context.pool.Topped c i j) {sp : Word}
    (pointer : (s.context.pool.segments.get j).data[upperStackPointer - 1] = sp)
    (own : ∀ other offset, sp = .stack other offset → other = outgoing)
    (noRoom : ¬s.tasks.Room outgoing sp) (incoming : TaskId) (nesting : UInt32) :
    ∃ halt s' t', exchange c outgoing incoming nesting 0 s = .error halt s' ∧
      exchange c outgoing incoming nesting depth t = .error halt t' := by
  obtain ⟨halt, ts, halted⟩ :=
    Tasks.pushHead_run_halted own noRoom (s.context.pool.links.get c) nesting
  have leads := d.leads
  rw [show (s.context.pool.relink c [] link).links.get c = link by simp [Pool.relink]] at leads
  have atLower : t.context.pool.segments.get i = s.context.pool.segments.get i :=
    d.used i topped.lowerUsed
  have atUpper : t.context.pool.segments.get j = s.context.pool.segments.get j :=
    d.used j topped.upperUsed
  rw [← pointer] at halted
  have halted' := halted
  rw [← atUpper, ← tasks, ← Tasks.pushHead_congr same] at halted'
  obtain ⟨s', saved⟩ : ∃ s', save c outgoing nesting 0 s = .error halt s' :=
    save_run_halted .here rfl topped.lower topped.upper halted
  obtain ⟨t', savedBelow⟩ : ∃ t', save c outgoing nesting depth t = .error halt t' := by
    refine save_run_halted (i := i) leads deep ?_ ?_ halted'
    · rw [← Link.place?_address, same]
      exact topped.lower
    · rw [atLower]
      exact topped.upper
  exact ⟨halt, s', t', exchange_run_halted saved, exchange_run_halted savedBelow⟩

/-- Back in the task, from an interrupt and from the handler of a trap. -/
theorem leave_agree {front rest : List (Fin size)} {frames : List (Vector Word dataWords)}
    {upper lower : Vector Word dataWords} {i j : Fin size}
    (d : b.pool.Deepened q c front frames rest) (two : front.length = 2)
    (topped : b.pool.Topped c i j) :
    ∃ b' q', leaveTrap c b = .ok () b' ∧
      leaveHandler c (b.reloaded c upper lower q) = .ok () { b' with pool := q' } ∧
      b'.pool.SameButFree q' := by
  obtain ⟨x, y, rfl⟩ := List.length_eq_two.mp two
  obtain ⟨data, data', rfl⟩ : ∃ data data', frames = [data, data'] := by
    rw [← d.spilled]
    exact ⟨_, _, rfl⟩
  -- The two calls come off above; what is left is the chain that the interrupt has left too.
  obtain ⟨s₁, q₁, first, _, d₁⟩ := d.pop
  obtain ⟨s₂, q₂, second, _, d₂⟩ := d₁.pop
  obtain ⟨p₁, p₂, q₃, q₄, third, fourth, third', fourth', same⟩ := d₂.flattened.popTrap topped
  refine ⟨_, q₄, leaveTrap_run third fourth, ?_, same⟩
  rw [leaveHandler_run first second third' fourth', reloaded_reloaded]
  rfl

end Banks

namespace Kept.Wired

variable {size n : Nat} {b : Banks size n} {ts : Tasks} {L : Ledger n} {c : Fin n}
  {lost : List (Fin size)} {heads : TaskId → Link} {share : Owner n → List (Fin size)}
  {upper lower : Vector Word dataWords} {below : List Spill} {enabled : Bool}

theorem topped {p : Pool size n} (held : Wired p ts L lost heads share)
    (top : L.live c = .trap enabled upper lower :: below) :
    ∃ i j, p.Topped c i j ∧ (p.segments.get i).link.Joins ∧
      (p.segments.get i).link.enabled = enabled ∧ (p.segments.get i).data = lower ∧
      (p.segments.get j).data = upper := by
  have path := held.shared.path (.live c)
  have once := held.shared.parts.nodup (.live c)
  have used (k : Fin size) (inside : k ∈ share (.live c)) : p.inUse.get k = true :=
    held.shared.inUse_of_mem (by simp) inside
  have fits := held.shared.fits (.live c) (by simp)
  have joined := held.wired.joined (.live c) (by simp)
  rw [show L.spills (.live c) = L.live c from rfl, top] at fits joined
  generalize share (.live c) = chain at *
  cases fits with
  | @trap i j is _ _ _ _ lowerData flag upperData _ =>
    cases joined with
    | trap joins _ =>
      refine ⟨i, j, ⟨path.named, used i (by simp), path.onward.named, used j (by simp), ?_⟩, joins,
        flag, lowerData, upperData⟩
      rintro rfl
      simp at once

/-- A core returns from an interrupt and takes a trap right away. With two free segments the
handler gets as far as the switch. -/
theorem reenter (held : Wired b.pool ts L lost heads share)
    (top : L.live c = .trap enabled upper lower :: below) (enough : 2 ≤ (share .free).length) :
    ∃ q q' front frames rest, Banks.leaveTrap c b = .ok () (b.reloaded c upper lower q) ∧
      Banks.enterHandler c enabled (b.reloaded c upper lower q) =
        .ok (.ok ()) (b.reloaded c upper lower q') ∧
      (b.pool.relink c [] ((b.pool.links.get c).withFlags false enabled)).Deepened q' c front frames
        rest ∧ front.length = 2 := by
  obtain ⟨i, j, topped, joins, flag, rfl, rfl⟩ := held.topped top
  obtain ⟨q₁, q₂, q₃, l₁, l₂, first, second, third, fourth⟩ := topped.reenter joins flag
  obtain ⟨x, y, rest, free⟩ : ∃ x y rest, share .free = x :: y :: rest := by
    match share .free, enough with
    | x :: y :: rest, _ => exact ⟨x, y, rest, rfl⟩
  have wellFormed := held.wired.free.relink c (fun _ inside => absurd inside List.not_mem_nil)
    ((b.pool.links.get c).withFlags false enabled)
  rw [free] at wellFormed
  have flat := Pool.Deepened.refl wellFormed c
  obtain ⟨q₄, fifth, d⟩ := flat.push (b.pool.segments.get j).data true false
  obtain ⟨q₅, sixth, d'⟩ := d.push (b.pool.segments.get j).data true false
  have spilled : ((b.reloaded c (b.pool.segments.get j).data (b.pool.segments.get i).data
      q₂).upper.get c).spill = (b.pool.segments.get j).data := by simp [Banks.reloaded]
  have spilled' : ((b.reloaded c (b.pool.segments.get j).data (b.pool.segments.get i).data
      q₂).lower.get c).spill = (b.pool.segments.get i).data := by simp [Banks.reloaded]
  refine ⟨q₂, q₅, _, _, _, Banks.leaveTrap_run first second, ?_, d', rfl⟩
  exact Banks.enterHandler_run (by rw [spilled]; exact third) (by rw [spilled']; exact fourth)
    (by rw [spilled]; exact fifth) (by rw [spilled]; exact sixth)

end Kept.Wired

end Preempt
