import Preempt.Proofs.Segment.GivingBack
import Preempt.Proofs.Segment.Handover

/-!
The contexts of a run as plain stacks: one for each core, and one for each suspended task. `Kept`
says that a pool and the task stacks hold exactly the contexts of a ledger, on chains that share
out the segments. Every operation on the pool is a change of the ledger, and none of them reaches
into a stack that it is not about.
-/

namespace Preempt

open Function (update)

/-- What a suspended task resumes with. -/
structure Suspension where
  enabled : Bool
  upper : Vector Word dataWords
  lower : Vector Word dataWords
  /-- The contexts that the task returns into later. -/
  below : List Spill := []
  nesting : UInt32 := 0

namespace Suspension

def spills (s : Suspension) : List Spill := .trap s.enabled s.upper s.lower :: s.below

/-- A task that has never run. -/
def initial (sp entry argument : Word) : Suspension where
  enabled := true
  upper := (Pool.initialUpper sp).data
  lower := (Pool.initialLower .null entry argument).data

end Suspension

structure Ledger (n : Nat) where
  live : Fin n → List Spill := fun _ => []
  saved : TaskId → Option Suspension := fun _ => none

namespace Ledger

variable {n : Nat}

def spills (L : Ledger n) : Owner n → List Spill
  | .free => []
  | .live c => L.live c
  | .saved task => (L.saved task).elim [] Suspension.spills

def withLive (L : Ledger n) (c : Fin n) (stack : List Spill) : Ledger n :=
  { L with live := update L.live c stack }

def withSaved (L : Ledger n) (task : TaskId) (s : Option Suspension) : Ledger n :=
  { L with saved := update L.saved task s }

/-- The task that a core runs is suspended, except for the calls that are open above it. -/
def suspend (L : Ledger n) (c : Fin n) (calls : List Spill) (task : TaskId) (old : Suspension) :
    Ledger n :=
  (L.withSaved task (some old)).withLive c calls

/-- A suspended task goes on below the calls that are open on a core. -/
def resume (L : Ledger n) (c : Fin n) (task : TaskId) (new : Suspension) : Ledger n :=
  (L.withSaved task none).withLive c (L.live c ++ new.spills)

theorem spills_withLive (L : Ledger n) (c : Fin n) (stack : List Spill) :
    (L.withLive c stack).spills = update L.spills (.live c) stack := by
  funext o
  cases o with
  | free => simp [spills]
  | live d => by_cases same : d = c <;> simp [spills, withLive, same]
  | saved task => simp [spills, withLive]

theorem spills_withSaved (L : Ledger n) (task : TaskId) (s : Option Suspension) :
    (L.withSaved task s).spills = update L.spills (.saved task) (s.elim [] Suspension.spills) := by
  funext o
  cases o with
  | free => simp [spills]
  | live c => simp [spills, withSaved]
  | saved other => by_cases same : other = task <;> simp [spills, withSaved, same]

theorem spills_suspend (L : Ledger n) (c : Fin n) (calls : List Spill) (task : TaskId)
    (old : Suspension) : (L.suspend c calls task old).spills =
      update (update L.spills (.live c) calls) (.saved task) old.spills := by
  rw [suspend, spills_withLive, spills_withSaved]
  exact Function.update_comm (by simp) _ _ _

theorem spills_resume {L : Ledger n} {task : TaskId} {new : Suspension}
    (is : L.saved task = some new) (c : Fin n) : (L.resume c task new).spills =
      update (update L.spills (.live c) (L.spills (.live c) ++ L.spills (.saved task)))
        (.saved task) [] := by
  rw [resume, spills_withLive, spills_withSaved, show new.spills = L.spills (.saved task) by
    simp [spills, is]]
  exact Function.update_comm (by simp) _ _ _

@[simp] theorem live_withLive (L : Ledger n) (c : Fin n) (stack : List Spill) :
    (L.withLive c stack).live c = stack := by
  simp [withLive]

@[simp] theorem withLive_withLive (L : Ledger n) (c : Fin n) (stack stack' : List Spill) :
    (L.withLive c stack).withLive c stack' = L.withLive c stack' := by
  simp [withLive]

theorem withLive_nil {L : Ledger n} {c : Fin n} (idle : L.live c = []) : L.withLive c [] = L := by
  rw [← idle, withLive, Function.update_eq_self]

@[simp] theorem live_withSaved (L : Ledger n) (task : TaskId) (s : Option Suspension) :
    (L.withSaved task s).live = L.live := rfl

@[simp] theorem saved_withLive (L : Ledger n) (c : Fin n) (stack : List Spill) :
    (L.withLive c stack).saved = L.saved := rfl

theorem saved_withSaved (L : Ledger n) (task other : TaskId) (s : Option Suspension) :
    (L.withSaved task s).saved other = if other = task then s else L.saved other := by
  simp [withSaved, Function.update_apply]

end Ledger

/-- The pool and the stacks of the suspended tasks hold the contexts of the ledger, in all segments
but the free and the lost ones. -/
def Kept {size n : Nat} (p : Pool size n) (ts : Tasks) (L : Ledger n)
    (lost : List (Fin size) := []) : Prop :=
  ∃ heads share, Pool.Sharing p heads share L.spills lost ∧
    ∀ task s, L.saved task = some s → ts.Parks task (heads task) s.nesting

/-- The same, with the heads of the suspended chains and the segments of every owner. -/
structure Kept.By {size n : Nat} (p : Pool size n) (ts : Tasks) (L : Ledger n)
    (lost : List (Fin size)) (heads : TaskId → Link) (share : Owner n → List (Fin size)) :
    Prop where
  shared : Pool.Sharing p heads share L.spills lost
  parked : ∀ task s, L.saved task = some s → ts.Parks task (heads task) s.nesting

namespace Kept

variable {size n : Nat} {p q : Pool size n} {ts ts' : Tasks} {L : Ledger n} {c : Fin n}
  {lost : List (Fin size)} {task : TaskId} {below : List Spill}
  {upper lower : Vector Word dataWords} {enabled : Bool}

theorem of_sharing {heads : TaskId → Link} {share : Owner n → List (Fin size)}
    {spills : Owner n → List Spill} (shared : p.Sharing heads share spills lost)
    (same : spills = L.spills)
    (parked : ∀ task s, L.saved task = some s → ts.Parks task (heads task) s.nesting) :
    Kept p ts L lost := by
  subst same
  exact ⟨heads, share, shared, parked⟩

/-- The stacks of tasks that are not suspended do not count. -/
theorem congr (kept : Kept p ts L lost)
    (same : ∀ task, L.saved task ≠ none → ts'.list[task]? = ts.list[task]?) :
    Kept p ts' L lost := by
  obtain ⟨heads, share, shared, parked⟩ := kept
  refine ⟨heads, share, shared, fun task s is => (parked task s is).congr (same task ?_)⟩
  rw [is]
  exact Option.some_ne_none s

/-- At first all segments are free, if there are fewer of them than numbers. -/
theorem fresh (small : size < segmentNumbers) : Kept (.fresh size n) ts {} := by
  suffices shared : (Pool.fresh size n).Sharing (fun _ => .null)
      (fun o => if o = .free then List.finRange size else []) (Ledger.spills {}) [] from
    of_sharing shared rfl (by simp)
  constructor
  · constructor
    · intro o
      by_cases free : o = .free
      · simpa [free] using List.nodup_finRange size
      · simp [free]
    · intro i _
      exact ⟨.free, by simp, fun o owns => by simpa using owns⟩
    · intro i gone
      cases gone
    · exact List.nodup_nil
  · intro o
    cases o with
    | free =>
      have head : (Pool.fresh size n).freeHead = if 0 < size then .ofIndex 0 else .null := rfl
      simpa [head] using Pool.Path.fresh (n := n) small size 0 (by omega)
    | live c =>
      have null : (Pool.fresh size n).links.get c = .null := by simp [Pool.fresh, Vector.get]
      simpa [null] using Pool.Path.nil rfl
    | saved task => simpa using Pool.Path.nil rfl
  · intro o real
    cases o with
    | free => exact absurd rfl real
    | live c => exact .nil
    | saved task => exact .nil
  · intro i
    simp [Pool.fresh, Vector.get]

/-! Contexts on top of a core's stack. -/

theorem push (kept : Kept p ts L lost) (c : Fin n) (data : Vector Word dataWords)
    (isUpper enabled : Bool) :
    (∃ l q, Pool.push c data isUpper enabled p = .ok (.ok l) q ∧
      Kept q ts (L.withLive c (.call data :: L.live c)) lost) ∨
    Pool.push c data isUpper enabled p = .ok (.error .segmentsExhausted) p := by
  obtain ⟨heads, share, shared, parked⟩ := kept
  cases free : share .free with
  | nil => exact Or.inr (shared.push_refused free c data isUpper enabled)
  | cons i rest =>
    obtain ⟨q, pushed, shared', _⟩ := shared.push free c data isUpper enabled
    exact Or.inl ⟨_, q, pushed, of_sharing shared' (L.spills_withLive c _).symm parked⟩

/-- Both banks go onto the stack, or only the upper one, or none. -/
theorem pushTrap (kept : Kept p ts L lost) (c : Fin n) (enabled : Bool)
    (upper lower : Vector Word dataWords) :
    (∃ l l' q r, Pool.push c upper true enabled p = .ok (.ok l) q ∧
      Pool.push c lower false enabled q = .ok (.ok l') r ∧
      Kept r ts (L.withLive c (.trap enabled upper lower :: L.live c)) lost) ∨
    (∃ l q, p.freeHead.isNull = false ∧ Pool.push c upper true enabled p = .ok (.ok l) q ∧
      Pool.push c lower false enabled q = .ok (.error .segmentsExhausted) q ∧
      Kept q ts (L.withLive c (.call upper :: L.live c)) lost) ∨
    p.freeHead.isNull = true ∧
      Pool.push c upper true enabled p = .ok (.error .segmentsExhausted) p := by
  obtain ⟨heads, share, shared, parked⟩ := kept
  have head : p.Path p.freeHead (share .free) := shared.path .free
  cases free : share .free with
  | nil =>
    rw [free] at head
    exact Or.inr (Or.inr ⟨head.isNull, shared.push_refused free c upper true enabled⟩)
  | cons i rest =>
    rw [free] at head
    obtain ⟨q, pushed, shared₁, headed, _⟩ := shared.push free c upper true enabled
    cases rest with
    | nil =>
      have refused := shared₁.push_refused (by simp) c lower false enabled
      exact Or.inr (Or.inl ⟨_, q, Link.isNull_of_place? head.named, pushed, refused,
        of_sharing shared₁ (L.spills_withLive c _).symm parked⟩)
    | cons j rest =>
      have freeNow :
          update (update share .free (j :: rest)) (.live c) (i :: share (.live c)) .free =
            j :: rest := by simp
      obtain ⟨r, pushed', shared₂, _, linked⟩ := shared₁.push freeNow c lower false enabled
      have fits := shared₂.fits (.live c) (by simp)
      simp only [Function.update_self] at fits
      have flag : (r.segments.get j).link.enabled = enabled := by
        rw [linked, headed]
        rfl
      have trap := shared₂.reread (o := .live c)
        (Pool.Fits.trap_iff.mpr ⟨by simpa using fits, by simpa using flag⟩)
      refine Or.inl ⟨_, _, q, r, pushed, pushed', of_sharing trap ?_ parked⟩
      rw [Ledger.spills_withLive]
      simp [Ledger.spills]

theorem pop (kept : Kept p ts L lost) (top : L.live c = .call upper :: below) :
    ∃ s q, Pool.pop c p = .ok s q ∧ s.data = upper ∧ Kept q ts (L.withLive c below) lost := by
  obtain ⟨heads, share, shared, parked⟩ := kept
  obtain ⟨i, rest, q, _, popped, data, shared', _⟩ := shared.pop (c := c) top
  exact ⟨_, q, popped, data, of_sharing shared' (L.spills_withLive c _).symm parked⟩

/-- The contexts of a trap come off one by one. -/
theorem popTrap (kept : Kept p ts L lost) (top : L.live c = .trap enabled upper lower :: below) :
    ∃ s s' q r, Pool.pop c p = .ok s q ∧ Pool.pop c q = .ok s' r ∧ s.data = lower ∧
      s'.data = upper ∧ Kept r ts (L.withLive c below) lost := by
  obtain ⟨heads, share, shared, parked⟩ := kept
  have fits := shared.fits (.live c) (by simp)
  rw [show L.spills (.live c) = L.live c from rfl, top] at fits
  have apart : Kept p ts (L.withLive c (.call lower :: .call upper :: below)) lost :=
    of_sharing (shared.reread (Pool.Fits.trap_iff.mp fits).1) (L.spills_withLive c _).symm parked
  obtain ⟨s, q, first, data, kept₁⟩ := apart.pop (L.live_withLive c _)
  obtain ⟨s', r, second, data', kept₂⟩ := kept₁.pop (Ledger.live_withLive _ c _)
  refine ⟨s, s', q, r, first, second, data, data', ?_⟩
  simpa [Ledger.withLive] using kept₂

/-! Whole stacks that change hands. -/

theorem share_eq_nil {heads : TaskId → Link} {share : Owner n → List (Fin size)}
    {spills : Owner n → List Spill} (shared : p.Sharing heads share spills lost) {o : Owner n}
    (real : o ≠ .free) (empty : spills o = []) : share o = [] := by
  have fits := shared.fits o real
  rw [empty] at fits
  generalize share o = chain at fits
  cases fits
  rfl

/-- A core whose link register ends a chain has no contexts. -/
theorem live_eq_nil (kept : Kept p ts L lost) (null : (p.links.get c).isNull = true) :
    L.live c = [] := by
  obtain ⟨heads, share, shared, _⟩ := kept
  have path := shared.path (.live c)
  have fits := shared.fits (.live c) (by simp)
  rw [show L.spills (.live c) = L.live c from rfl] at fits
  generalize share (.live c) = chain at path fits
  generalize L.live c = stack at fits
  cases chain with
  | nil =>
    cases fits
    rfl
  | cons i rest =>
    have named := path.named
    rw [Owner.root_live, Link.place?_of_isNull null] at named
    cases named

section By

variable {heads : TaskId → Link} {share : Owner n → List (Fin size)}

theorem By.kept (by' : By p ts L lost heads share) : Kept p ts L lost :=
  ⟨heads, share, by'.shared, by'.parked⟩

theorem By.create {i j : Fin size} {rest : List (Fin size)} (held : By p ts L lost heads share)
    (free : share .free = i :: j :: rest) (absent : L.saved task = none)
    (sp entry argument : Word) :
    ∃ head tail q r, Pool.allocatePair p = .ok (.ok (head, tail)) q ∧
      Pool.writeInitial head tail sp entry argument q = .ok () r ∧
      ∀ ts', ts'.Parks task head 0 → (∀ other, other ≠ task → ts'.list[other]? = ts.list[other]?) →
        By r ts' (L.withSaved task (some (.initial sp entry argument))) lost
          (update heads task head) (update (update share .free rest) (.saved task) [i, j]) := by
  have empty :=
    share_eq_nil held.shared (o := .saved task) (by simp) (by simp [Ledger.spills, absent])
  obtain ⟨head, tail, q, r, taken, written, _, shared'⟩ :=
    held.shared.create free empty sp entry argument
  refine ⟨head, tail, q, r, taken, written, fun ts' parks others => ⟨?_, ?_⟩⟩
  · rw [Ledger.spills_withSaved]
    exact shared'
  · intro other s is
    rw [Ledger.saved_withSaved] at is
    by_cases mine : other = task
    · subst mine
      rw [if_pos rfl] at is
      cases is
      simpa [Suspension.initial] using parks
    · rw [if_neg mine] at is
      simpa [mine] using (held.parked other s is).congr (others other mine)

/-- The chain of a task has gone to the front of the free list. -/
theorem By.givenBack {head : Link} (held : By p ts L lost heads share)
    (given : p.GivenBack q head (share (.saved task))) :
    By q ts (L.withSaved task none) lost (update heads task .null)
      (update (update share (.saved task) []) .free (share (.saved task) ++ share .free)) := by
  refine ⟨?_, fun other s is => ?_⟩
  · rw [Ledger.spills_withSaved]
    exact held.shared.givenBack given
  · rw [Ledger.saved_withSaved] at is
    by_cases mine : other = task
    · simp [mine] at is
    · rw [if_neg mine] at is
      simpa [mine] using held.parked other s is

/-- A suspended task has a lower context, whose link has the interrupt enable. -/
theorem By.first (held : By p ts L lost heads share) {s : Suspension}
    (is : L.saved task = some s) : ∃ i rest, share (.saved task) = i :: rest ∧
      (p.segments.get i).link.enabled = s.enabled := by
  have fits := held.shared.fits (.saved task) (by simp)
  have spilled : L.spills (.saved task) = s.spills := by simp [Ledger.spills, is]
  rw [spilled] at fits
  generalize share (.saved task) = chain at fits
  cases fits with
  | trap _ flag _ _ => exact ⟨_, _, rfl, flag⟩

end By

theorem create (kept : Kept p ts L lost) (absent : L.saved task = none) (sp entry argument : Word) :
    (∃ head tail q r, Pool.allocatePair p = .ok (.ok (head, tail)) q ∧
      Pool.writeInitial head tail sp entry argument q = .ok () r ∧
      ∀ ts', ts'.Parks task head 0 → (∀ other, other ≠ task → ts'.list[other]? = ts.list[other]?) →
        Kept r ts' (L.withSaved task (some (.initial sp entry argument))) lost) ∨
    Pool.allocatePair p = .ok (.error .segmentsExhausted) p := by
  obtain ⟨heads, share, shared, parked⟩ := kept
  have freePath := shared.path .free
  cases free : share .free with
  | nil =>
    rw [free] at freePath
    exact Or.inr (Pool.allocatePair_run_null p freePath.isNull)
  | cons i rest =>
    rw [free] at freePath
    cases rest with
    | nil => exact Or.inr (Pool.allocatePair_run_one p freePath.named freePath.onward.isNull)
    | cons j rest =>
      obtain ⟨head, tail, q, r, taken, written, held⟩ :=
        By.create ⟨shared, parked⟩ free absent sp entry argument
      exact Or.inl ⟨head, tail, q, r, taken, written,
        fun ts' parks others => (held ts' parks others).kept⟩

theorem giveBack (kept : Kept p ts L lost) {s : Suspension} (is : L.saved task = some s) :
    ∃ head tail count q r, Tasks.savedHead task ts = .ok head ts ∧ head.address = head ∧
      head.isNull = false ∧ Pool.requireInUse size head p = .ok () p ∧
      Pool.unmarkFrom (size - 1) head 1 p = .ok (tail, count) q ∧
      Pool.splice head tail q = .ok () r ∧ Kept r ts (L.withSaved task none) lost ∧
      p.Frees r head := by
  obtain ⟨heads, share, shared, parked⟩ := kept
  have held : By p ts L lost heads share := ⟨shared, parked⟩
  have path := shared.path (.saved task)
  obtain ⟨i, is', chain, _⟩ := held.first is
  rw [chain] at path
  obtain ⟨tail, q, r, passes, unmarked, spliced, shared', given⟩ :=
    shared.giveBack chain (heads task).address rfl
  have frees : p.Frees r (heads task).address :=
    shared.frees shared' (fun i free => by simp [free]) path.named (by simp [chain])
  exact ⟨_, tail, _, q, r, (parked task s is).savedHead_run, rfl, Link.isNull_of_place? path.named,
    passes, unmarked, spliced, (held.givenBack given).kept, frees⟩

section By

variable {heads : TaskId → Link} {share : Owner n → List (Fin size)}

/-- A core whose chain has nothing but calls on it resumes a suspended task behind them. The pool
may still lead from the calls into a chain that is already another task's. -/
theorem By.resume {s : Storage (Banks size n)} {front : List (Fin size)} {first m : Link}
    {depth : TrapDepth} (held : By (s.context.pool.relink c front first) s.tasks L lost heads share)
    (here : share (.live c) = front)
    (leads : Pool.Leads s.context.pool (s.context.pool.links.get c) front m)
    (plain : ∀ x ∈ L.live c, x.isCall = true) (deep : (L.live c).length = depth.toNat)
    {new : Suspension} (is : L.saved task = some new) :
    ∃ top, Banks.restore c task depth s = .ok ⟨new.nesting, new.enabled⟩
        { Banks.withPool s (s.context.pool.relink c front (heads task).address) with
          tasks := s.tasks.setTop task top } ∧
      By (s.context.pool.relink c front (heads task).address) (s.tasks.setTop task top)
        (L.resume c task new) lost (update heads task .null)
        (update (update share (.live c) (front ++ share (.saved task))) (.saved task) []) := by
  obtain ⟨shared, parked⟩ := held
  have path := shared.path (.saved task)
  have liveFits := shared.fits (.live c) (by simp)
  rw [here] at liveFits
  obtain ⟨i, rest, chain, flag⟩ := By.first ⟨shared, parked⟩ is
  have owned : i ∈ share (.saved task) := by simp [chain]
  have apart : i ∉ front := by
    rw [← here]
    exact shared.parts.not_mem owned (by simp)
  have used := shared.inUse_of_mem (by simp) owned
  rw [chain] at path
  rw [Pool.inUse_relink] at used
  rw [Pool.segments_relink_of_not_mem _ c front first apart] at flag
  obtain ⟨top, restored⟩ := Banks.restore_run (parked task new is) leads
    ((liveFits.length_calls plain).trans deep) path.named used apart
  rw [flag] at restored
  refine ⟨top, restored, ?_, fun other s' is' => ?_⟩
  · have grafted := shared.graft (c := c) plain task (heads task).address rfl
    rw [here, Pool.relink_relink] at grafted
    rw [Ledger.spills_resume is]
    exact grafted
  · rw [Ledger.resume, Ledger.saved_withLive, Ledger.saved_withSaved] at is'
    by_cases mine : other = task
    · simp [mine] at is'
    · rw [if_neg mine] at is'
      simpa [mine] using (parked other s' is').congr (Tasks.record_setTop _ mine top)

/-- The task that a core runs is suspended, up to the calls above it. -/
theorem By.suspend {s : Storage (Banks size n)} {depth : TrapDepth}
    (held : By s.context.pool s.tasks L lost heads share) {calls : List Spill} {old : Suspension}
    (top : L.live c = calls ++ old.spills) (plain : ∀ x ∈ calls, x.isCall = true)
    (deep : calls.length = depth.toNat) (absent : L.saved task = none)
    (room : s.tasks.Room task old.upper[upperStackPointer - 1]) :
    ∃ front back m ts, share (.live c) = front ++ back ∧ front.length = calls.length ∧
      Pool.Leads s.context.pool (s.context.pool.links.get c) front m ∧
      Banks.save c task old.nesting depth s = .ok () { s with tasks := ts } ∧
      By (s.context.pool.relink c front .null) ts (L.suspend c calls task old) lost
        (update heads task m.address)
        (update (update share (.live c) front) (.saved task) back) ∧
      ∀ other, other ≠ task → ts.list[other]? = s.tasks.list[other]? := by
  obtain ⟨shared, parked⟩ := held
  have empty :=
    share_eq_nil shared (o := .saved task) (by simp) (by simp [Ledger.spills, absent])
  obtain ⟨front, back, m, chain, long, leads, fits, path, cut⟩ :=
    shared.cut (c := c) top plain empty
  obtain ⟨i, j, rest, rfl, data⟩ : ∃ i j rest, back = i :: j :: rest ∧
      (s.context.pool.segments.get j).data = old.upper := by
    cases fits with
    | trap _ _ data _ => exact ⟨_, _, _, rfl, data⟩
  rw [← data] at room
  obtain ⟨ts, saved, parks, others⟩ :=
    Banks.save_run old.nesting leads (long.trans deep) path.named path.onward.named room
  refine ⟨front, _, m, ts, chain, long, leads, saved, ⟨?_, fun other s' is' => ?_⟩, others⟩
  · rw [Ledger.spills_suspend]
    exact cut
  · rw [Ledger.suspend, Ledger.saved_withLive, Ledger.saved_withSaved] at is'
    by_cases mine : other = task
    · subst mine
      rw [if_pos rfl] at is'
      cases is'
      simpa [Tasks.Parks] using parks
    · rw [if_neg mine] at is'
      simpa [mine] using (parked other s' is').congr (others other mine)

end By

/-- A save and a restore with any suspended task in between, the one just saved included. -/
theorem handOver {s : Storage (Banks size n)} {depth : TrapDepth}
    (kept : Kept s.context.pool s.tasks L lost) {calls : List Spill} {old new : Suspension}
    (top : L.live c = calls ++ old.spills) (plain : ∀ x ∈ calls, x.isCall = true)
    (deep : calls.length = depth.toNat) {outgoing incoming : TaskId}
    (absent : L.saved outgoing = none)
    (room : s.tasks.Room outgoing old.upper[upperStackPointer - 1])
    (is : (L.suspend c calls outgoing old).saved incoming = some new) :
    ∃ s₁ q ts, Banks.save c outgoing old.nesting depth s = .ok () s₁ ∧
      Banks.restore c incoming depth s₁ = .ok ⟨new.nesting, new.enabled⟩
        { Banks.withPool s q with tasks := ts } ∧
      Kept q ts ((L.suspend c calls outgoing old).resume c incoming new) lost ∧
      ∀ other, other ≠ outgoing → other ≠ incoming → ts.list[other]? = s.tasks.list[other]? := by
  obtain ⟨heads, share, shared, parked⟩ := kept
  obtain ⟨front, back, m, ts₁, _, _, leads, saved, held, others⟩ :=
    By.suspend ⟨shared, parked⟩ top plain deep absent room
  obtain ⟨top', restored, held'⟩ := By.resume (s := { s with tasks := ts₁ }) (c := c) held
    (by simp) leads (by simpa [Ledger.suspend] using plain) (by simpa [Ledger.suspend] using deep)
    is
  refine ⟨_, _, _, saved, restored, held'.kept, fun other apart apart' => ?_⟩
  rw [Tasks.record_setTop _ apart', others other apart]

section By

variable {heads : TaskId → Link} {share : Owner n → List (Fin size)}

/-- A core resumes a suspended task, and the chain that it had is lost. -/
theorem By.enter {s : Storage (Banks size n)} (held : By s.context.pool s.tasks L lost heads share)
    (c : Fin n) {new : Suspension} (is : L.saved task = some new) :
    ∃ top, Banks.restore c task 0 s = .ok ⟨new.nesting, new.enabled⟩
        { Banks.withPool s (s.context.pool.relink c [] (heads task).address) with
          tasks := s.tasks.setTop task top } ∧
      By (s.context.pool.relink c [] (heads task).address) (s.tasks.setTop task top)
        ((L.withLive c []).resume c task new) (share (.live c) ++ lost) (update heads task .null)
        (update (update share (.live c) (share (.saved task))) (.saved task) []) := by
  have dropped := held.shared.drop c
  rw [← Ledger.spills_withLive] at dropped
  obtain ⟨top, restored, held'⟩ := By.resume (L := L.withLive c []) ⟨dropped, held.parked⟩
    (by simp) .here (by simp) (show _ = (0 : TrapDepth).toNat by simp) is
  refine ⟨top, restored, ?_⟩
  simpa using held'

end By

theorem enter {s : Storage (Banks size n)} (kept : Kept s.context.pool s.tasks L lost)
    (c : Fin n) {new : Suspension} (is : L.saved task = some new) :
    ∃ dropped q ts, Banks.restore c task 0 s = .ok ⟨new.nesting, new.enabled⟩
        { Banks.withPool s q with tasks := ts } ∧
      dropped.length = ((L.live c).map Spill.segments).sum ∧
      Kept q ts ((L.withLive c []).resume c task new) (dropped ++ lost) ∧
      ∀ other, other ≠ task → ts.list[other]? = s.tasks.list[other]? := by
  obtain ⟨heads, share, shared, parked⟩ := kept
  obtain ⟨top, restored, held⟩ := By.enter ⟨shared, parked⟩ c is
  exact ⟨_, _, _, restored, (shared.fits (.live c) (by simp)).length_eq, held.kept,
    fun other apart => Tasks.record_setTop _ apart top⟩

end Kept

end Preempt
