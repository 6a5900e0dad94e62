import Preempt.Proofs.Segment.Sharing
import Preempt.Segment.Chain

/-!
Giving a whole chain back. The check passes on a chain that is in use, the walk that unmarks it
stops at its last segment, and the splice puts it in front of the free list in its own order. Along
the way the walk strips the flags off every link but the last, which the splice overwrites.
-/

namespace Preempt.Pool

open Function (update)

variable {size n : Nat} {p q : Pool size n} {l k m : Link} {i : Fin size} {is : List (Fin size)}

/-- Where a walk arrives depends on the numbers of the links only. -/
theorem Leads.renumber (path : Leads p l is m) (same : k.number = l.number)
    (numbers : ∀ i ∈ is, (q.segments.get i).link.number = (p.segments.get i).link.number) :
    ∃ m', Leads q k is m' ∧ m'.number = m.number := by
  induction path generalizing k with
  | here => exact ⟨k, .here, same⟩
  | @step l m i is named _ ih =>
    obtain ⟨m', onward, ends⟩ :=
      ih (numbers i (by simp)) fun j inside => numbers j (by simp [inside])
    refine ⟨m', .step ?_ onward, ends⟩
    rw [← named]
    simp only [Link.place?, Link.index?, same]

theorem requireInUse_run_path (bound : Nat) (path : Path p l is)
    (used : ∀ i ∈ is, p.inUse.get i = true) : requireInUse bound l p = .ok () p := by
  induction bound generalizing l is with
  | zero => rfl
  | succ bound ih =>
    cases is with
    | nil =>
      simp only [requireInUse, path.isNull, if_true]
      rfl
    | cons i is =>
      have inUse : p.isInUse l = true :=
        (isInUse_eq_true_iff p l).mpr ⟨i, path.named, used i (by simp)⟩
      have onward := path.onward.relabel (k := (p.segments.get i).link.address) rfl
      simp only [requireInUse, Link.isNull_of_place? path.named, Bool.false_eq_true, if_false,
        Action.bind_run, Action.get_run, inUse, if_true, next_run_named p path.named]
      exact ih onward fun j inside => used j (by simp [inside])

/-- A pool with some segments unmarked and the flags stripped off the links of some of them. -/
structure Unmarked (p q : Pool size n) (freed stripped : List (Fin size)) : Prop where
  freeHead : q.freeHead = p.freeHead
  links : q.links = p.links
  inUse : ∀ j, q.inUse.get j = if j ∈ freed then false else p.inUse.get j
  segments : ∀ j, q.segments.get j =
    if j ∈ stripped then { p.segments.get j with link := (p.segments.get j).link.address }
    else p.segments.get j

/-- The walk names the last segment of the chain and counts the segments after the first. -/
theorem unmarkFrom_run (bound count : Nat) (path : Path p l (i :: is))
    (once : (i :: is).Nodup) (short : is.length ≤ bound) :
    ∃ tail q, unmarkFrom bound l count p = .ok (tail, count + is.length) q ∧
      tail.place? size = (i :: is).getLast? ∧ Unmarked p q (i :: is) (i :: is).dropLast := by
  induction is generalizing bound l i count p with
  | nil =>
    have null := path.onward.isNull
    have marked := writeMark_run (n := n) false p path.named
    have next : next l (p.mark i false) = .ok (p.segments.get i).link (p.mark i false) :=
      next_run_named _ path.named
    refine ⟨l, p.mark i false, ?_, path.named, rfl, rfl, ?_, ?_⟩
    · unfold unmarkFrom
      simp only [Action.bind_run, marked, next]
      cases bound with
      | zero => rfl
      | succ bound =>
        simp only [null, if_true]
        rfl
    · intro j
      simp [eq_comm]
    · intro j
      simp
  | cons j is ih =>
    cases bound with
    | zero => simp at short
    | succ bound =>
      set p₁ := (p.mark i false).setLink i (p.segments.get i).link.address with hp₁
      have notNull := Link.isNull_of_place? path.onward.named
      have apart : i ∉ j :: is := (List.nodup_cons.mp once).1
      have onward : Path p₁ (p.segments.get i).link.address (j :: is) := by
        refine (path.onward.congr ?_).relabel rfl
        intro k inside
        rw [hp₁, segments_setLink, if_neg, segments_mark]
        rintro rfl
        exact apart inside
      obtain ⟨tail, q, ran, ends, freeHead, links, inUse, segments⟩ :=
        ih bound (count + 1) onward (List.nodup_cons.mp once).2 (by simpa using short)
      refine ⟨tail, q, ?_, by simpa using ends, freeHead, links, ?_, ?_⟩
      · have marked := writeMark_run (n := n) false p path.named
        have next : next l (p.mark i false) = .ok (p.segments.get i).link (p.mark i false) :=
          next_run_named _ path.named
        have written : writeLink l (p.segments.get i).link.address (p.mark i false) = .ok () p₁ :=
          writeLink_run _ _ path.named
        rw [unmarkFrom]
        simp only [Action.bind_run, marked, next, notNull, Bool.false_eq_true, if_false, written,
          ran]
        rw [List.length_cons, Nat.add_assoc, Nat.add_comm 1]
      · intro k
        rw [inUse, hp₁]
        by_cases here : k = i
        · subst here
          simp [apart, setLink, setSegment]
        · simp [here, Ne.symm here, setLink, setSegment, mark, Vector.get_put]
      · intro k
        rw [segments, List.dropLast_cons_cons, hp₁]
        by_cases here : k = i
        · subst here
          have behind : k ∉ (j :: is).dropLast :=
            fun inside => apart (List.mem_of_mem_dropLast inside)
          simp [behind]
        · simp [here, Ne.symm here]

theorem splice_run {head tail : Link} (q : Pool size n) (named : tail.place? size = some i) :
    splice head tail q = .ok () { q.setLink i q.freeHead with freeHead := head } := by
  simp only [splice, Action.bind_run, Action.get_run, writeLink_run q.freeHead q named]
  rfl

/-- A chain of which only the last link is set anew leads to where that link leads. -/
theorem Path.redirect {q : Pool size n} {l t : Link} {init : List (Fin size)} {last : Fin size}
    (path : Path p l (init ++ [last]))
    (numbers : ∀ k ∈ init, (q.segments.get k).link.number = (p.segments.get k).link.number)
    (closed : (q.segments.get last).link = t) : Leads q l (init ++ [last]) t := by
  obtain ⟨m, first, final⟩ := path.of_append
  obtain ⟨k, first, sameEnd⟩ := first.renumber rfl numbers
  refine first.append (.step ?_ ?_)
  · have named := final.named
    simpa only [Link.place?, Link.index?, sameEnd] using named
  · rw [closed]
    exact .here

/-- A chain has gone to the front of the free list, and nothing else has changed. -/
structure GivenBack (p r : Pool size n) (head : Link) (chain : List (Fin size)) : Prop where
  links : r.links = p.links
  freeHead : r.freeHead = head
  inUse : ∀ j, r.inUse.get j = if j ∈ chain then false else p.inUse.get j
  elsewhere : ∀ j, j ∉ chain → r.segments.get j = p.segments.get j
  leads : Leads r head chain p.freeHead

/-- The three steps that give back a chain in use: the links of the chain lose their flags, and
the last one leads on to the old free list. -/
theorem giveBack_run_words {init : List (Fin size)} {last : Fin size}
    (path : Path p l (init ++ [last])) (once : (init ++ [last]).Nodup)
    (used : ∀ k ∈ init ++ [last], p.inUse.get k = true) :
    ∃ tail q r, requireInUse size l p = .ok () p ∧
      unmarkFrom (size - 1) l 1 p = .ok (tail, (init ++ [last]).length) q ∧
      splice l tail q = .ok () r ∧ r.links = p.links ∧ r.freeHead = l ∧
      (∀ j, r.inUse.get j = if j ∈ init ++ [last] then false else p.inUse.get j) ∧
      ∀ j, r.segments.get j =
        if j = last then { p.segments.get j with link := p.freeHead }
        else if j ∈ init then { p.segments.get j with link := (p.segments.get j).link.address }
        else p.segments.get j := by
  have long : (init ++ [last]).length ≤ size := by simpa using once.length_le_card
  have passes := requireInUse_run_path size path used
  obtain ⟨i, is, split⟩ : ∃ i is, init ++ [last] = i :: is :=
    List.exists_cons_of_ne_nil (by simp)
  rw [split] at long path once
  obtain ⟨tail, q, ran, ends, freeHead, links, inUse, segments⟩ :=
    unmarkFrom_run (size - 1) 1 path once (by simp only [List.length_cons] at long; omega)
  rw [← split] at ends inUse segments
  simp only [List.getLast?_append, List.getLast?_singleton, Option.some_or,
    List.dropLast_concat] at ends segments
  refine ⟨tail, q, _, passes, ?_, splice_run q ends, links, rfl, inUse, fun j => ?_⟩
  · rw [ran, split, List.length_cons, Nat.add_comm]
  · rw [← freeHead]
    by_cases isLast : j = last
    · subst isLast
      by_cases inside : j ∈ init <;> simp [segments, inside]
    · simp [segments, isLast, Ne.symm isLast]

/-- A chain in use goes to the front of the free list. -/
theorem giveBack_run (path : Path p l (i :: is)) (once : (i :: is).Nodup)
    (used : ∀ k ∈ i :: is, p.inUse.get k = true) :
    ∃ tail q r, requireInUse size l p = .ok () p ∧
      unmarkFrom (size - 1) l 1 p = .ok (tail, (i :: is).length) q ∧
      splice l tail q = .ok () r ∧ p.GivenBack r l (i :: is) := by
  obtain ⟨init, last, split⟩ : ∃ init last, i :: is = init ++ [last] :=
    ⟨_, _, (List.dropLast_append_getLast (List.cons_ne_nil i is)).symm⟩
  rw [split] at path once used ⊢
  obtain ⟨tail, q, r, passes, unmarked, spliced, links, headed, inUse, segments⟩ :=
    giveBack_run_words path once used
  refine ⟨tail, q, r, passes, unmarked, spliced, ⟨links, headed, inUse, ?_, ?_⟩⟩
  · intro k outside
    simp only [List.mem_append, List.mem_singleton, not_or] at outside
    rw [segments, if_neg outside.2, if_neg outside.1]
  · refine path.redirect ?_ (by simp [segments])
    intro k inside
    have notLast : k ≠ last := by
      rintro rfl
      simp only [List.nodup_append, List.mem_singleton, ne_eq, forall_eq] at once
      exact once.2.2 _ inside rfl
    rw [segments, if_neg notLast, if_pos inside]
    rfl

/-- The chain of a task goes to the front of the free list. -/
theorem Sharing.givenBack {heads : TaskId → Link} {share : Owner n → List (Fin size)}
    {spills : Owner n → List Spill} {lost : List (Fin size)}
    (s : Sharing p heads share spills lost) {task : TaskId} {head : Link}
    (given : p.GivenBack q head (share (.saved task))) :
    Sharing q (update heads task .null)
      (update (update share (.saved task) []) .free (share (.saved task) ++ share .free))
      (update spills (.saved task) []) lost := by
  have elsewhere (o : Owner n) (apart : o ≠ .saved task) : ∀ k ∈ share o,
      q.segments.get k = p.segments.get k := fun k inside =>
    given.elsewhere k (s.parts.not_mem inside apart.symm)
  constructor
  · refine s.parts.transfer (.saved task) .free (share (.saved task)) (by simp) ?_ ?_ ?_
    · simp
    · simp
    · intro o notSaved notFree
      simp [notSaved, notFree]
  · intro o
    cases o with
    | free =>
      have spliced := Path.append given.leads ((s.path .free).congr (elsewhere _ (by simp)))
      simpa [given.freeHead] using spliced
    | live c =>
      simpa [given.links] using (s.path (.live c)).congr (elsewhere _ (by simp))
    | saved other =>
      by_cases mine : other = task
      · subst mine
        simpa using Path.nil (p := q) (l := .null) rfl
      · simpa [mine] using (s.path (.saved other)).congr (elsewhere _ (by simp [mine]))
  · intro o real
    by_cases mine : o = .saved task
    · subst mine
      simpa using Fits.nil
    · simpa [mine, real] using (s.fits o real).congr (elsewhere o mine)
  · intro k
    have before := s.inUse k
    rw [given.inUse]
    by_cases freed : k ∈ share (.saved task)
    · simp [freed]
    · simpa [freed] using before

theorem Sharing.giveBack {heads : TaskId → Link} {share : Owner n → List (Fin size)}
    {spills : Owner n → List Spill} {lost : List (Fin size)}
    (s : Sharing p heads share spills lost) {task : TaskId}
    (chain : share (.saved task) = i :: is) (head : Link)
    (same : head.number = (heads task).number) :
    ∃ tail q r, requireInUse size head p = .ok () p ∧
      unmarkFrom (size - 1) head 1 p = .ok (tail, (share (.saved task)).length) q ∧
      splice head tail q = .ok () r ∧
      Sharing r (update heads task .null)
        (update (update share (.saved task) []) .free (share (.saved task) ++ share .free))
        (update spills (.saved task) []) lost ∧ p.GivenBack r head (share (.saved task)) := by
  have path := (s.path (.saved task)).relabel same
  have once := s.parts.nodup (.saved task)
  have used : ∀ k ∈ share (.saved task), p.inUse.get k = true :=
    fun k inside => s.inUse_of_mem (by simp) inside
  rw [chain] at path once used
  obtain ⟨tail, q, r, passes, unmarked, spliced, given⟩ := giveBack_run path once used
  rw [← chain] at unmarked given
  exact ⟨tail, q, r, passes, unmarked, spliced, s.givenBack given, given⟩

/-- Segments become free, that of `head` among them, and none is taken. -/
structure Frees (p q : Pool size n) (head : Link) : Prop where
  head : ∃ i, head.place? size = some i ∧ q.inUse.get i = false
  others : ∀ i, p.inUse.get i = false → q.inUse.get i = false

theorem Sharing.frees {heads heads' : TaskId → Link} {share share' : Owner n → List (Fin size)}
    {spills spills' : Owner n → List Spill} {lost : List (Fin size)}
    (before : Sharing p heads share spills lost) (after : Sharing q heads' share' spills' lost)
    (grows : ∀ i ∈ share .free, i ∈ share' .free) (named : l.place? size = some i)
    (freed : i ∈ share' .free) : p.Frees q l := by
  have free (j : Fin size) (inside : j ∈ share' .free) : q.inUse.get j = false := by
    rw [← Bool.not_eq_true, after.inUse, not_not]
    exact inside
  refine ⟨⟨i, named, free i freed⟩, fun j unused => free j (grows j ?_)⟩
  rwa [← Bool.not_eq_true, before.inUse, not_not] at unused

end Preempt.Pool
