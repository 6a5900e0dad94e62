import Preempt.Proofs.Runs
import Preempt.Proofs.Segment.Contexts
import Preempt.Proofs.Segment.Splicing

/-!
The links of a run. The free list is well-formed all along, and the lower context of an interrupt
leads on by a link that is flagged for an upper context and has no spare bits. `Pool.Wired` says
so of a pool that is shared out; every change of the ledger keeps it (`Kept.Wired`), and so does
every step of a run (`Contexts.Reaches.wired`).
-/

namespace Preempt

open Function (update)

/-- A link from a lower context to the upper one of the same interrupt. -/
def Link.Joins (l : Link) : Prop := l.upper = true ∧ l.spare.val = 0

theorem Link.joins_withFlags (l : Link) (enabled : Bool) : (l.withFlags true enabled).Joins :=
  ⟨rfl, rfl⟩

theorem Link.Joins.withFlags_eq {l : Link} (joins : l.Joins) :
    l.address.withFlags true l.enabled = l := by
  obtain ⟨upper, spare⟩ := joins
  rw [withFlags, ← upper, ← show l.spare = 0 from Fin.ext spare]
  rfl

namespace Pool

variable {size n : Nat} {p q : Pool size n} {c : Fin n} {i j : Fin size} {task : TaskId}
  {is js rest : List (Fin size)} {spills more : List Spill}

/-- On a chain that holds the listed contexts, the lower context of each interrupt leads to the
upper one by a link that joins them. -/
inductive Joined (p : Pool size n) : List (Fin size) → List Spill → Prop
  | nil : Joined p [] []
  | call {i : Fin size} {is : List (Fin size)} {upper : Vector Word dataWords}
      {spills : List Spill} (below : Joined p is spills) :
      Joined p (i :: is) (.call upper :: spills)
  | trap {i j : Fin size} {is : List (Fin size)} {enabled : Bool}
      {upper lower : Vector Word dataWords} {spills : List Spill}
      (joins : (p.segments.get i).link.Joins) (below : Joined p is spills) :
      Joined p (i :: j :: is) (.trap enabled upper lower :: spills)

namespace Joined

theorem congr (joined : Joined p is spills)
    (same : ∀ i ∈ is, q.segments.get i = p.segments.get i) : Joined q is spills := by
  induction joined with
  | nil => exact .nil
  | call _ ih => exact .call (ih fun k inside => same k (by simp [inside]))
  | @trap i j is enabled upper lower spills joins _ ih =>
    refine .trap ?_ (ih fun k inside => same k (by simp [inside]))
    rw [same i (by simp)]
    exact joins

/-- Calls are joined in any pool. -/
theorem of_calls (plain : ∀ x ∈ spills, x.isCall = true) (long : is.length = spills.length) :
    Joined p is spills := by
  induction spills generalizing is with
  | nil =>
    obtain rfl := List.length_eq_zero_iff.mp long
    exact .nil
  | cons spill spills ih =>
    cases is with
    | nil => simp at long
    | cons i is =>
      have isCall := plain spill (by simp)
      cases spill with
      | call upper =>
        exact .call (ih (fun x inside => plain x (by simp [inside])) (by simpa using long))
      | trap => simp [Spill.isCall] at isCall

theorem append (first : Joined p is spills) (second : Joined p js more) :
    Joined p (is ++ js) (spills ++ more) := by
  induction first with
  | nil => exact second
  | call _ ih => exact .call ih
  | trap joins _ ih => exact .trap joins ih

theorem tail {upper : Vector Word dataWords} (joined : Joined p (i :: is) (.call upper :: spills)) :
    Joined p is spills := by
  cases joined with
  | call below => exact below

/-- The contexts of an interrupt may be read as calls. -/
theorem calls {enabled : Bool} {upper lower : Vector Word dataWords}
    (joined : Joined p is (.trap enabled upper lower :: spills)) :
    Joined p is (.call lower :: .call upper :: spills) := by
  cases joined with
  | trap _ below => exact .call (.call below)

/-- What lies behind calls is joined. -/
theorem behind (whole : Joined p (is ++ js) (spills ++ more))
    (plain : ∀ x ∈ spills, x.isCall = true) (long : is.length = spills.length) :
    Joined p js more := by
  induction spills generalizing is with
  | nil =>
    obtain rfl := List.length_eq_zero_iff.mp long
    exact whole
  | cons spill spills ih =>
    cases is with
    | nil => simp at long
    | cons i is =>
      have isCall := plain spill (by simp)
      cases spill with
      | call upper =>
        exact ih whole.tail (fun x inside => plain x (by simp [inside])) (by simpa using long)
      | trap => simp [Spill.isCall] at isCall

end Joined

/-- The free list is well-formed, and all interrupts are joined. -/
structure Wired (p : Pool size n) (share : Owner n → List (Fin size))
    (spills : Owner n → List Spill) : Prop where
  free : p.WellFormed (share .free)
  joined : ∀ o, o ≠ .free → Joined p (share o) (spills o)

namespace Wired

variable {heads : TaskId → Link} {share : Owner n → List (Fin size)}
  {spills : Owner n → List Spill} {lost : List (Fin size)}
  {upper : Vector Word dataWords} {below : List Spill}

theorem reread (w : p.Wired share spills) {o : Owner n} {new : List Spill}
    (joined : Joined p (share o) new) : p.Wired share (update spills o new) := by
  refine ⟨w.free, fun o' real => ?_⟩
  by_cases same : o' = o
  · subst same
    simpa using joined
  · simpa [same] using w.joined o' real

theorem push (w : p.Wired share spills) (s : p.Sharing heads share spills lost)
    (free : share .free = i :: rest) {data : Vector Word dataWords} {isUpper enabled : Bool}
    {answer : Except Refusal Link} (ran : Pool.push c data isUpper enabled p = .ok answer q) :
    q.Wired (update (update share .free rest) (.live c) (i :: share (.live c)))
      (update spills (.live c) (.call data :: spills (.live c))) := by
  have wellFormed := w.free
  rw [free] at wellFormed
  obtain ⟨q', ran', wellFormed', _, segments⟩ := wellFormed.push c data isUpper enabled
  rw [ran] at ran'
  cases ran'
  have here : i ∈ share .free := by simp [free]
  have elsewhere (o : Owner n) (real : o ≠ .free) : Joined q (share o) (spills o) := by
    refine (w.joined o real).congr fun k inside => ?_
    rw [segments]
    exact get_put_of_not_mem p.segments (s.parts.not_mem here real) _ k inside
  refine ⟨by simpa using wellFormed', fun o real => ?_⟩
  by_cases mine : o = .live c
  · subst mine
    simpa using Joined.call (elsewhere _ real)
  · simpa [mine, real] using elsewhere o real

theorem pop (w : p.Wired share spills) (s : p.Sharing heads share spills lost)
    (chain : share (.live c) = i :: rest) (top : spills (.live c) = .call upper :: below)
    {segment : Segment} (ran : Pool.pop c p = .ok segment q) :
    q.Wired (update (update share (.live c) rest) .free (i :: share .free))
      (update spills (.live c) below) := by
  have path := s.path (.live c)
  have once := s.parts.nodup (.live c)
  have joined := w.joined (.live c) (by simp)
  rw [chain] at path once joined
  rw [top] at joined
  have here : i ∈ share (.live c) := by simp [chain]
  obtain ⟨q', ran', wellFormed, _, segments⟩ :=
    w.free.pop path.named (s.parts.not_mem here (by simp))
  rw [ran] at ran'
  cases ran'
  have same (js : List (Fin size)) (without : i ∉ js) :=
    get_put_of_not_mem p.segments without { p.segments.get i with link := p.freeHead }
  rw [← segments] at same
  refine ⟨by simpa using wellFormed, fun o real => ?_⟩
  by_cases mine : o = .live c
  · subst mine
    simpa using joined.tail.congr (same rest (List.nodup_cons.mp once).1)
  · simpa [mine, real] using (w.joined o real).congr (same _ (s.parts.not_mem here mine))

theorem create (w : p.Wired share spills) (s : p.Sharing heads share spills lost)
    (free : share .free = i :: j :: rest) {head tail : Link} {sp entry argument : Word}
    {r : Pool size n} (taken : allocatePair p = .ok (.ok (head, tail)) q)
    (written : writeInitial head tail sp entry argument q = .ok () r) :
    r.Wired (update (update share .free rest) (.saved task) [i, j])
      (update spills (.saved task) [.initial sp entry argument]) := by
  have wellFormed := w.free
  rw [free] at wellFormed
  have apart : i ≠ j := by
    have once := wellFormed.once
    rintro rfl
    simp at once
  obtain ⟨_, _, _, _, taken', written', wellFormed', old⟩ :=
    wellFormed.create sp entry argument
  obtain ⟨_, _, _, _, taken'', written'', _, _, _, _, atFirst, _⟩ :=
    Sharing.create_run p wellFormed.path.named wellFormed.path.onward.named apart sp entry argument
  rw [taken] at taken' taken''
  cases taken'
  cases taken''
  rw [written] at written' written''
  cases written'
  cases written''
  have here : i ∈ share .free ∧ j ∈ share .free := by simp [free]
  refine ⟨by simpa using wellFormed', fun o real => ?_⟩
  by_cases mine : o = .saved task
  · subst mine
    have joins : (r.segments.get i).link.Joins := by
      rw [atFirst]
      exact Link.joins_withFlags _ _
    simpa [Spill.initial] using Joined.trap joins .nil
  · have same := (w.joined o real).congr (q := r) fun k inside => by
      refine old k ?_ ?_ <;> rintro rfl
      · exact s.parts.not_mem here.1 real inside
      · exact s.parts.not_mem here.2 real inside
    simpa [mine, real] using same

theorem givenBack (w : p.Wired share spills) (s : p.Sharing heads share spills lost) {head : Link}
    (given : p.GivenBack q head (share (.saved task)))
    (wellFormed : q.WellFormed (share (.saved task) ++ share .free)) :
    q.Wired (update (update share (.saved task) []) .free (share (.saved task) ++ share .free))
      (update spills (.saved task) []) := by
  refine ⟨by simpa using wellFormed, fun o real => ?_⟩
  by_cases mine : o = .saved task
  · subst mine
    simpa using Joined.nil
  · have same := (w.joined o real).congr fun k inside =>
      given.elsewhere k (s.parts.not_mem inside (Ne.symm mine))
    simpa [mine, real] using same

/-- A change in a core's live chain leaves the other owners alone. -/
theorem relink (w : p.Wired share spills) (s : p.Sharing heads share spills lost)
    {front : List (Fin size)} (inside : ∀ k ∈ front, k ∈ share (.live c)) (head : Link) :
    (p.relink c front head).WellFormed (share .free) ∧ ∀ o, o ≠ .free → o ≠ .live c →
      Joined (p.relink c front head) (share o) (spills o) := by
  refine ⟨w.free.relink c (fun k there => s.parts.not_mem (inside k there) (by simp)) head,
    fun o real apart => (w.joined o real).congr fun k there => ?_⟩
  exact segments_relink_of_not_mem p c front head fun again =>
    s.parts.not_mem (inside k again) apart there

theorem cut (w : p.Wired share spills) (s : p.Sharing heads share spills lost)
    {front back : List (Fin size)} {calls tail : List Spill}
    (chain : share (.live c) = front ++ back) (top : spills (.live c) = calls ++ tail)
    (plain : ∀ x ∈ calls, x.isCall = true) (long : front.length = calls.length) :
    (p.relink c front .null).Wired (update (update share (.live c) front) (.saved task) back)
      (update (update spills (.live c) calls) (.saved task) tail) := by
  have inside : ∀ k ∈ front, k ∈ share (.live c) := fun k there => by simp [chain, there]
  obtain ⟨free, others⟩ := w.relink s inside .null
  have joined := w.joined (.live c) (by simp)
  have once := s.parts.nodup (.live c)
  rw [chain] at joined once
  rw [top] at joined
  refine ⟨by simpa using free, fun o real => ?_⟩
  by_cases mine : o = .saved task
  · subst mine
    have same := (joined.behind plain long).congr (q := p.relink c front .null) fun k there =>
      segments_relink_of_not_mem p c front .null fun again =>
        (List.nodup_append'.mp once).2.2 again there
    simpa using same
  · by_cases live : o = .live c
    · subst live
      simpa using Joined.of_calls plain long
    · simpa [mine, live] using others o real live

theorem graft (w : p.Wired share spills) (s : p.Sharing heads share spills lost)
    (plain : ∀ x ∈ spills (.live c), x.isCall = true) (task : TaskId) (head : Link) :
    (p.relink c (share (.live c)) head).Wired
      (update (update share (.live c) (share (.live c) ++ share (.saved task))) (.saved task) [])
      (update (update spills (.live c) (spills (.live c) ++ spills (.saved task)))
        (.saved task) []) := by
  obtain ⟨free, others⟩ := w.relink s (c := c) (fun _ => id) head
  have long := (s.fits (.live c) (by simp)).length_calls plain
  refine ⟨by simpa using free, fun o real => ?_⟩
  by_cases mine : o = .saved task
  · subst mine
    simpa using Joined.nil
  · by_cases live : o = .live c
    · subst live
      have front := Joined.of_calls (p := p.relink c (share (.live c)) head) plain long
      simpa using front.append (others (.saved task) (by simp) (by simp))
    · simpa [mine, live] using others o real live

theorem drop (w : p.Wired share spills) (s : p.Sharing heads share spills lost) (c : Fin n) :
    (p.relink c [] .null).Wired (update share (.live c) []) (update spills (.live c) []) := by
  obtain ⟨free, others⟩ := w.relink s (c := c) (fun _ there => absurd there List.not_mem_nil) .null
  refine ⟨by simpa using free, fun o real => ?_⟩
  by_cases live : o = .live c
  · subst live
    simpa using Joined.nil
  · simpa [live] using others o real live

end Wired

end Pool

namespace Kept

/-- A pool holds the contexts of a ledger on chains that are linked as in a run. -/
structure Wired {size n : Nat} (p : Pool size n) (ts : Tasks) (L : Ledger n)
    (lost : List (Fin size)) (heads : TaskId → Link) (share : Owner n → List (Fin size)) : Prop
    extends By p ts L lost heads share where
  wired : p.Wired share L.spills

namespace Wired

variable {size n : Nat} {p : Pool size n} {ts : Tasks} {b b' : Banks size n} {L : Ledger n}
  {c : Fin n} {lost : List (Fin size)} {task : TaskId} {heads : TaskId → Link}
  {share : Owner n → List (Fin size)} {kind : BankKind} {enabled : Bool}
  {upper lower : Vector Word dataWords} {below : List Spill} {q : Pool size n}
  {share' : Owner n → List (Fin size)}

theorem fresh (small : size < segmentNumbers) : ∃ lost heads share,
    Wired (Pool.fresh size n) ts {} lost heads share := by
  obtain ⟨heads, share, shared, parked⟩ : Kept (.fresh size n) ts {} := Kept.fresh small
  have free := Pool.WellFormed.fresh (n := n) small
  refine ⟨_, heads, share, ⟨shared, parked⟩, ?_, fun o real => ?_⟩
  · rw [(shared.path .free).unique free.path]
    exact free
  · have none : Ledger.spills ({} : Ledger n) o = [] := by cases o <;> rfl
    rw [none, share_eq_nil shared real none]
    exact .nil

theorem congr {ts' : Tasks} (held : Wired p ts L lost heads share)
    (same : ∀ task, L.saved task ≠ none → ts'.list[task]? = ts.list[task]?) :
    Wired p ts' L lost heads share := by
  refine ⟨⟨held.shared, fun task s is => (held.parked task s is).congr (same task ?_)⟩, held.wired⟩
  rw [is]
  exact Option.some_ne_none s

/-- Only the stack of a core has changed. -/
theorem onStack {stack : List Spill} (held : Wired p ts L lost heads share)
    (shared : q.Sharing heads share' (update L.spills (.live c) stack) lost)
    (wired : q.Wired share' (update L.spills (.live c) stack)) :
    Wired q ts (L.withLive c stack) lost heads share' := by
  rw [← L.spills_withLive] at shared wired
  exact ⟨⟨shared, held.parked⟩, wired⟩

/-- A bank that found a free segment is on the live chain as a call. -/
theorem spill (held : Wired b.pool ts L lost heads share)
    (ran : Banks.spillBank kind c enabled b = .ok (.ok ()) b') :
    ∃ i, b' = { b with pool := b'.pool } ∧
      Wired b'.pool ts (L.withLive c (.call (b.bankOf kind c).spill :: L.live c)) lost heads
        (update (update share .free (share .free).tail) (.live c) (i :: share (.live c))) ∧
      b'.pool.links.get c = b.pool.freeHead.withFlags (kind = .upper) enabled ∧
      (b'.pool.segments.get i).link = b.pool.links.get c := by
  cases free : share .free with
  | nil =>
    have refused := held.shared.push_refused free c (b.bankOf kind c).spill (kind = .upper) enabled
    rw [Banks.spillBank_run kind refused] at ran
    cases ran
  | cons i rest =>
    obtain ⟨q, pushed, shared, headed, linked⟩ :=
      held.shared.push free c (b.bankOf kind c).spill (kind = .upper) enabled
    rw [Banks.spillBank_run kind pushed] at ran
    cases ran
    exact ⟨i, rfl, held.onStack shared (held.wired.push held.shared free pushed), headed, linked⟩

theorem reload (held : Wired b.pool ts L lost heads share) (top : L.live c = .call upper :: below)
    (ran : Banks.reloadBank kind c b = .ok () b') :
    ∃ share', Wired b'.pool ts (L.withLive c below) lost heads share' := by
  obtain ⟨i, rest, q, chain, popped, _, shared, _⟩ := held.shared.pop (c := c) top
  rw [Banks.reloadBank_run kind popped] at ran
  have pools : b'.pool = q := by
    cases ran
    cases kind <;> rfl
  rw [pools]
  exact ⟨_, held.onStack shared (held.wired.pop held.shared chain top popped)⟩

/-- The lower bank goes onto the stack above a link to the upper one. -/
theorem enterTrap (held : Wired b.pool ts L lost heads share)
    (ran : Banks.enterTrap c enabled b = .ok (.ok ()) b') :
    ∃ share', Wired b'.pool ts (L.withLive c (.trap enabled (b.upper.get c).spill
      (b.lower.get c).spill :: L.live c)) lost heads share' := by
  simp only [Banks.enterTrap, Action.bind_run] at ran
  split at ran
  · rename_i answer b₁ first
    cases answer with
    | error refusal => cases ran
    | ok u =>
      obtain ⟨i, same, held₁, headed, _⟩ := held.spill first
      obtain ⟨j, _, held₂, _, linked⟩ := held₁.spill ran
      rw [headed] at linked
      have flag : (b'.pool.segments.get j).link.enabled = enabled := by rw [linked]; rfl
      have joins : (b'.pool.segments.get j).link.Joins := by
        rw [linked]
        exact Link.joins_withFlags _ _
      -- The two spills are on the chain as calls; with their links known they are read as a trap.
      have fits := held₂.shared.fits (.live c) (by simp)
      have joined := held₂.wired.joined (.live c) (by simp)
      simp only [Ledger.spills, Ledger.live_withLive, Function.update_self] at fits joined
      have lower : (b₁.bankOf .lower c).spill = (b.lower.get c).spill := by rw [same]; rfl
      rw [lower] at fits joined
      have trap := held₂.onStack (c := c)
        (held₂.shared.reread (o := .live c) (by
          simpa using Pool.Fits.trap_iff.mpr ⟨fits, by simpa using flag⟩))
        (held₂.wired.reread (o := .live c) (by
          simpa using Pool.Joined.trap joins joined.tail.tail))
      rw [Ledger.withLive_withLive, Ledger.withLive_withLive] at trap
      exact ⟨_, trap⟩
  · cases ran

/-- The contexts of a trap come off one by one. -/
theorem leaveTrap (held : Wired b.pool ts L lost heads share)
    (top : L.live c = .trap enabled upper lower :: below)
    (ran : Banks.leaveTrap c b = .ok () b') :
    ∃ share', Wired b'.pool ts (L.withLive c below) lost heads share' := by
  have fits := held.shared.fits (.live c) (by simp)
  have joined := held.wired.joined (.live c) (by simp)
  rw [show L.spills (.live c) = L.live c from rfl, top] at fits joined
  have apart := held.onStack (held.shared.reread (Pool.Fits.trap_iff.mp fits).1)
    (held.wired.reread joined.calls)
  simp only [Banks.leaveTrap, Action.bind_run] at ran
  split at ran
  · rename_i u b₁ first
    obtain ⟨_, held₁⟩ := apart.reload (L.live_withLive c _) first
    obtain ⟨_, held₂⟩ := held₁.reload (Ledger.live_withLive _ c _) ran
    rw [Ledger.withLive_withLive, Ledger.withLive_withLive] at held₂
    exact ⟨_, held₂⟩
  · cases ran

theorem create (held : Wired p ts L lost heads share) (absent : L.saved task = none)
    (sp entry argument : Word) :
    (∃ head tail q r, Pool.allocatePair p = .ok (.ok (head, tail)) q ∧
      Pool.writeInitial head tail sp entry argument q = .ok () r ∧
      ∀ ts', ts'.Parks task head 0 → (∀ other, other ≠ task → ts'.list[other]? = ts.list[other]?) →
        ∃ heads share, Wired r ts' (L.withSaved task (some (.initial sp entry argument))) lost heads
          share) ∨
    Pool.allocatePair p = .ok (.error .segmentsExhausted) p := by
  rcases free : share .free with _ | ⟨i, _ | ⟨j, rest⟩⟩
  · exact Or.inr (held.wired.free.create_refused (by simp [free]))
  · exact Or.inr (held.wired.free.create_refused (by simp [free]))
  · obtain ⟨head, tail, q, r, taken, written, by'⟩ :=
      held.toBy.create free absent sp entry argument
    have wired : r.Wired (update (update share .free rest) (.saved task) [i, j])
        (update L.spills (.saved task) [.initial sp entry argument]) :=
      held.wired.create held.shared free taken written
    rw [show [Spill.initial sp entry argument] =
      (some (Suspension.initial sp entry argument)).elim [] Suspension.spills from rfl,
      ← L.spills_withSaved] at wired
    exact Or.inl ⟨head, tail, q, r, taken, written, fun ts' parks others =>
      ⟨_, _, by' ts' parks others, wired⟩⟩

theorem giveBack (held : Wired p ts L lost heads share) {s : Suspension}
    (is : L.saved task = some s) :
    ∃ head tail count q r, Tasks.savedHead task ts = .ok head ts ∧ head.address = head ∧
      head.isNull = false ∧ Pool.requireInUse size head p = .ok () p ∧
      Pool.unmarkFrom (size - 1) head 1 p = .ok (tail, count) q ∧
      Pool.splice head tail q = .ok () r ∧
      ∃ heads share, Wired r ts (L.withSaved task none) lost heads share := by
  obtain ⟨i, is', chain, _⟩ := held.first is
  have path := (held.shared.path (.saved task)).relabel (k := (heads task).address) rfl
  obtain ⟨tail, q, r, passes, unmarked, spliced, _, given⟩ :=
    held.shared.giveBack chain (heads task).address rfl
  have used : ∀ k ∈ share (.saved task), p.inUse.get k = true :=
    fun k inside => held.shared.inUse_of_mem (by simp) inside
  have back : r.WellFormed (share (.saved task) ++ share .free) := by
    obtain ⟨init, last, split⟩ : ∃ init last, share (.saved task) = init ++ [last] :=
      ⟨_, _, (List.dropLast_append_getLast (by simp [chain])).symm⟩
    rw [split] at path used unmarked ⊢
    obtain ⟨tail', q', r', _, unmarked', spliced', back, _⟩ :=
      held.wired.free.giveBack path rfl used
    rw [unmarked] at unmarked'
    cases unmarked'
    rw [spliced] at spliced'
    cases spliced'
    exact back
  have wired := held.wired.givenBack held.shared given back
  rw [show ([] : List Spill) = Option.elim none [] Suspension.spills from rfl,
    ← L.spills_withSaved] at wired
  rw [chain] at path
  exact ⟨_, tail, _, q, r, (held.parked task s is).savedHead_run, rfl,
    Link.isNull_of_place? path.named, passes, unmarked, spliced, _, _, held.givenBack given, wired⟩

theorem resume {s : Storage (Banks size n)} {front : List (Fin size)} {first m : Link}
    {depth : TrapDepth}
    (held : Wired (s.context.pool.relink c front first) s.tasks L lost heads share)
    (here : share (.live c) = front)
    (leads : Pool.Leads s.context.pool (s.context.pool.links.get c) front m)
    (plain : ∀ x ∈ L.live c, x.isCall = true) (deep : (L.live c).length = depth.toNat)
    {new : Suspension} (is : L.saved task = some new) :
    ∃ s', Banks.restore c task depth s = .ok ⟨new.nesting, new.enabled⟩ s' ∧
      ∃ heads share, Wired s'.context.pool s'.tasks (L.resume c task new) lost heads share := by
  obtain ⟨top, restored, by'⟩ := held.toBy.resume here leads plain deep is
  have wired := held.wired.graft held.shared plain task (heads task).address
  rw [here, Pool.relink_relink] at wired
  rw [← Ledger.spills_resume is] at wired
  exact ⟨_, restored, _, _, by', wired⟩

theorem handOver {s : Storage (Banks size n)} {depth : TrapDepth}
    (held : Wired s.context.pool s.tasks L lost heads share) {calls : List Spill}
    {old new : Suspension} (top : L.live c = calls ++ old.spills)
    (plain : ∀ x ∈ calls, x.isCall = true) (deep : calls.length = depth.toNat)
    {outgoing incoming : TaskId} (absent : L.saved outgoing = none)
    (room : s.tasks.Room outgoing old.upper[upperStackPointer - 1])
    (is : (L.suspend c calls outgoing old).saved incoming = some new) :
    ∃ s₁ s₂, Banks.save c outgoing old.nesting depth s = .ok () s₁ ∧
      Banks.restore c incoming depth s₁ = .ok ⟨new.nesting, new.enabled⟩ s₂ ∧
      ∃ heads share, Wired s₂.context.pool s₂.tasks
        ((L.suspend c calls outgoing old).resume c incoming new) lost heads share := by
  obtain ⟨front, back, m, ts, chain, long, leads, saved, by', _⟩ :=
    held.toBy.suspend top plain deep absent room
  have wired : (s.context.pool.relink c front .null).Wired
      (update (update share (.live c) front) (.saved outgoing) back)
      (update (update L.spills (.live c) calls) (.saved outgoing) old.spills) :=
    held.wired.cut held.shared chain top plain long
  have cut : Wired (s.context.pool.relink c front .null) ts (L.suspend c calls outgoing old) lost
      (update heads outgoing m.address)
      (update (update share (.live c) front) (.saved outgoing) back) := by
    rw [← Ledger.spills_suspend] at wired
    exact ⟨by', wired⟩
  obtain ⟨s₂, restored, held'⟩ := cut.resume (s := { s with tasks := ts }) (by simp) leads
    (by simpa [Ledger.suspend] using plain) (by simpa [Ledger.suspend] using deep) is
  exact ⟨_, s₂, saved, restored, held'⟩

theorem enter {s : Storage (Banks size n)} (held : Wired s.context.pool s.tasks L lost heads share)
    (c : Fin n) {new : Suspension} (is : L.saved task = some new) :
    ∃ s', Banks.restore c task 0 s = .ok ⟨new.nesting, new.enabled⟩ s' ∧
      ∃ lost heads share, Wired s'.context.pool s'.tasks ((L.withLive c []).resume c task new) lost
        heads share := by
  have dropped := held.shared.drop c
  have wired := held.wired.drop held.shared c
  rw [← Ledger.spills_withLive] at dropped wired
  have empty : Wired (s.context.pool.relink c [] .null) s.tasks (L.withLive c [])
      (share (.live c) ++ lost) heads (update share (.live c) []) := ⟨⟨dropped, held.parked⟩, wired⟩
  obtain ⟨s', restored, held'⟩ := empty.resume (by simp) .here (by simp)
    (show _ = (0 : TrapDepth).toNat by simp) is
  exact ⟨s', restored, _, held'⟩

end Wired

end Kept

/-- The contexts over a pool, with all that is known of its links. -/
def Banks.wiredContexts {size n : Nat} (small : size < segmentNumbers) :
    Contexts (Banks size n) n :=
  { Banks.contexts small with
    Holds := fun s L => ∃ lost heads share,
      Kept.Wired s.context.pool s.tasks L lost heads share
    boots := by
      rintro _ sizes rfl
      exact Kept.Wired.fresh small
    pends := by
      rintro s L s' core held pended
      simp only [SwitchPrimitives.pend, Storage.onContext, pend] at pended
      split at pended <;> cases pended
      rename_i ran
      split at ran <;> cases ran
      exact held
    works := by
      rintro s L s' L' ⟨lost, heads, share, held⟩ works
      cases works with
      | trapped ran => exact ⟨⟨_, _, held.enterTrap ran⟩, rfl⟩
      | called ran =>
        obtain ⟨i, _, held', _⟩ := held.spill ran
        exact ⟨⟨_, _, _, held'⟩, rfl⟩
      | notCalled ran =>
        rcases held.kept.enterCall _ with ⟨b', ran', _⟩ | ran' <;> rw [ran] at ran' <;> cases ran'
        exact ⟨⟨_, _, _, held⟩, rfl⟩
      | leftTrap top ran => exact ⟨⟨_, _, held.leaveTrap top ran⟩, rfl⟩
      | leftCall top ran => exact ⟨⟨_, _, held.reload top ran⟩, rfl⟩
      | elsewhere pool parked =>
        refine ⟨⟨lost, heads, share, ?_⟩, rfl⟩
        rw [pool]
        exact held.congr parked
    creates := by
      rintro k L task answer k' L' ⟨lost, heads, share, held⟩
        ⟨sp, entry, argument, absent, room, ran, rfl⟩
      rcases held.create absent sp entry argument with
        ⟨head, tail, q, r, taken, written, held'⟩ | refused
      · obtain ⟨trace, ts, ran', parks, others⟩ := Kernel.createFrom_run taken written room
        rw [ran] at ran'
        cases ran'
        refine ⟨⟨rfl, rfl, rfl, rfl, rfl⟩, ⟨lost, held' ts parks others⟩, ?_⟩
        exact Ledger.resumption_withSaved L task _
      · obtain ⟨trace, ran'⟩ := Kernel.createFrom_run_refused entry argument refused
        rw [ran] at ran'
        cases ran'
        exact ⟨⟨rfl, rfl, rfl, rfl, rfl⟩, ⟨lost, heads, share, held⟩, rfl⟩
    frees := by
      rintro k L task k' L' ⟨lost, heads, share, held⟩ ⟨suspended, ran, rfl⟩
      obtain ⟨s, is⟩ := Option.ne_none_iff_exists'.mp suspended
      obtain ⟨head, tail, count, q, r, saved, plain, notNull, passes, unmarked, spliced, held'⟩ :=
        held.giveBack is
      obtain ⟨trace, ran'⟩ := Kernel.freeTask_run saved plain notNull passes unmarked spliced
      rw [ran] at ran'
      cases ran'
      exact ⟨⟨rfl, rfl, rfl, rfl, rfl⟩, ⟨lost, held'⟩, Ledger.resumption_withSaved L task none⟩
    handsOver := by
      rintro s L c task depth r L' incoming new ⟨lost, heads, share, held⟩ awake
        ⟨top, plain, deep, room⟩ chosen
      obtain ⟨m, is, rfl⟩ := Ledger.resumption_eq_some chosen
      have absent : L.saved task = none := Option.map_eq_none_iff.mp awake
      obtain ⟨s₁, s₂, saved, restored, held'⟩ := held.handOver top plain deep absent room is
      refine ⟨s₁, s₂, saved, restored, lost, ?_⟩
      rw [show (Banks.contexts small).resume = Ledger.takeUp from rfl, Ledger.takeUp_eq is]
      exact held'
    enters := by
      rintro s L task new c ⟨lost, heads, share, held⟩ left
      obtain ⟨m, is, rfl⟩ := Ledger.resumption_eq_some left
      obtain ⟨s', restored, held'⟩ := held.enter c is
      refine ⟨s', restored, ?_⟩
      rw [show (Banks.contexts small).enter L c task = (L.withLive c []).takeUp c task from rfl,
        Ledger.takeUp_eq (L := L.withLive c []) is]
      exact held' }

namespace Contexts

variable {size n : Nat} {small : size < segmentNumbers} {k : Kernel (Banks size n) n}
  {L L' : (Banks.contexts (n := n) small).Book}

theorem Follows.wired {call : PortCall} {saved : Option Resumption}
    (follows : (Banks.contexts small).Follows k L call saved L') :
    (Banks.wiredContexts small).Follows k L call saved L' := by
  cases follows with
  | rests noSwitch noEntry => exact .rests noSwitch noEntry
  | enters mine entry free => exact .enters mine entry free
  | switches mine switches nesting suspends free =>
    exact .switches mine switches nesting suspends free

/-- What is known of the links holds along every run. -/
theorem Reaches.wired {γ : Type} {T : Tally (Banks size n) n γ} {g : γ}
    (reached : (Banks.contexts small).Reaches T k L g) :
    (Banks.wiredContexts small).Reaches T k L g := by
  induction reached with
  | boot fresh booted => exact .boot fresh booted
  | work _ aside works ih => exact .work ih aside works
  | create _ idle creates ih => exact .create ih idle creates
  | free _ outside frees ih => exact .free ih outside frees
  | call _ start follows admitted ran ih => exact .call ih start follows.wired admitted ran

end Contexts

end Preempt
