import Mathlib.Data.Fintype.Card
import Preempt.Proofs.Segment.Chains
import Preempt.Segment.Suspension

/-!
How a pool is shared out. `Sharing` gives every segment that is not lost to the free list, to a
core's live chain or to the chain of a suspended task, and says which contexts the chains hold; the
`inUse` marks tell the free segments. Each pool operation is run from a shared pool: it completes,
and the segments it moves change hands.
-/

namespace Preempt

open Function (update)

/-- Where the chain of an owner starts. -/
def Owner.root {size n : Nat} (p : Pool size n) (heads : TaskId → Link) : Owner n → Link
  | free => p.freeHead
  | live c => p.links.get c
  | saved task => heads task

@[simp] theorem Owner.root_free {size n : Nat} (p : Pool size n) (heads : TaskId → Link) :
    Owner.free.root p heads = p.freeHead := rfl

@[simp] theorem Owner.root_live {size n : Nat} (p : Pool size n) (heads : TaskId → Link)
    (c : Fin n) : (Owner.live c).root p heads = p.links.get c := rfl

@[simp] theorem Owner.root_saved {size n : Nat} (p : Pool size n) (heads : TaskId → Link)
    (task : TaskId) : (Owner.saved task).root p heads = heads task := rfl

theorem get_put_of_not_mem {α : Type} {size : Nat} {i : Fin size} {js : List (Fin size)}
    (xs : Vector α size) (without : i ∉ js) (a : α) :
    ∀ j ∈ js, (xs.put i a).get j = xs.get j := by
  intro j inside
  apply Vector.get_put_of_ne
  rintro rfl
  exact without inside

/-- The context of a task that has never run. -/
def Spill.initial (sp entry argument : Word) : Spill :=
  .trap true (Pool.initialUpper sp).data (Pool.initialLower .null entry argument).data

namespace Pool

variable {size n : Nat}

/-- The link at the end of a stretch of a core's live chain replaced: the core's link register if
the stretch is empty. -/
def relink (p : Pool size n) (c : Fin n) (front : List (Fin size)) (head : Link) : Pool size n :=
  match front.getLast? with
  | none => { p with links := p.links.put c head }
  | some i => p.setLink i head

section Relink

variable (p : Pool size n) (c : Fin n) (front : List (Fin size)) (head : Link)

@[simp] theorem inUse_relink : (p.relink c front head).inUse = p.inUse := by
  unfold relink
  split <;> rfl

@[simp] theorem freeHead_relink : (p.relink c front head).freeHead = p.freeHead := by
  unfold relink
  split <;> rfl

theorem links_relink_of_ne {d : Fin n} (apart : c ≠ d) :
    (p.relink c front head).links.get d = p.links.get d := by
  unfold relink
  split
  · simp [Vector.get_put, apart]
  · rfl

theorem data_relink (i : Fin size) :
    ((p.relink c front head).segments.get i).data = (p.segments.get i).data := by
  unfold relink
  split
  · rfl
  · rw [segments_setLink]
    split <;> rfl

theorem segments_relink_of_not_mem {i : Fin size} (without : i ∉ front) :
    (p.relink c front head).segments.get i = p.segments.get i := by
  unfold relink
  split
  · rfl
  · rename_i last found
    rw [segments_setLink, if_neg]
    rintro rfl
    exact without (List.mem_of_getLast? found)

theorem relink_relink (first : Link) :
    (p.relink c front first).relink c front head = p.relink c front head := by
  unfold relink
  split
  · simp
  · simp [setLink, setSegment]

end Relink

/-- After a change at its end a stretch of the live chain leads to the new link. -/
theorem Leads.relink {p : Pool size n} {c : Fin n} {front : List (Fin size)} {m : Link}
    (path : Leads p (p.links.get c) front m) (once : front.Nodup) (head : Link) :
    Leads (p.relink c front head) ((p.relink c front head).links.get c) front head := by
  rcases List.eq_nil_or_concat front with rfl | ⟨init, last, rfl⟩
  · simpa [Pool.relink] using Leads.here
  · rw [List.concat_eq_append] at path once ⊢
    have changed : p.relink c (init ++ [last]) head = p.setLink last head := by
      simp [Pool.relink]
    obtain ⟨k, first, final⟩ := path.of_append
    rw [changed]
    refine (first.congr ?_).append ?_
    · intro j inside
      rw [segments_setLink, if_neg]
      rintro rfl
      simp only [List.nodup_append, List.mem_singleton, ne_eq, forall_eq] at once
      exact once.2.2 _ inside rfl
    · cases final with
      | step named _ =>
        refine .step named ?_
        simpa using Leads.here

structure Sharing (p : Pool size n) (heads : TaskId → Link) (share : Owner n → List (Fin size))
    (spills : Owner n → List Spill) (lost : List (Fin size)) : Prop where
  parts : Division share lost
  path : ∀ o, Path p (o.root p heads) (share o)
  fits : ∀ o, o ≠ .free → Fits p (share o) (spills o)
  inUse : ∀ i, p.inUse.get i = true ↔ i ∉ share .free

namespace Sharing

variable {p : Pool size n} {heads : TaskId → Link} {share : Owner n → List (Fin size)}
  {spills : Owner n → List Spill} {lost : List (Fin size)} {i j : Fin size}
  {rest : List (Fin size)}
  {lower upper : Vector Word dataWords} {below : List Spill}

/-- Chains may be read as other contexts that they fit as well. -/
theorem reread (s : Sharing p heads share spills lost) {o : Owner n} {new : List Spill}
    (fits : Fits p (share o) new) : Sharing p heads share (update spills o new) lost := by
  refine ⟨s.parts, s.path, fun o' real => ?_, s.inUse⟩
  by_cases same : o' = o
  · subst same
    simpa using fits
  · simpa [same] using s.fits o' real

theorem inUse_of_mem (s : Sharing p heads share spills lost) {o : Owner n} (real : o ≠ .free)
    (here : i ∈ share o) : p.inUse.get i = true :=
  (s.inUse i).mpr (s.parts.not_mem here real.symm)

/-- The first free segment goes to the head of a core's chain. -/
theorem push (s : Sharing p heads share spills lost) (free : share .free = i :: rest) (c : Fin n)
    (data : Vector Word dataWords) (isUpper enabled : Bool) :
    ∃ q, Pool.push c data isUpper enabled p = .ok (.ok p.freeHead.address) q ∧
      Sharing q heads (update (update share .free rest) (.live c) (i :: share (.live c)))
        (update spills (.live c) (.call data :: spills (.live c))) lost ∧
      q.links.get c = p.freeHead.withFlags isUpper enabled ∧
      (q.segments.get i).link = p.links.get c := by
  have freePath := s.path .free
  have freeOnce := s.parts.nodup .free
  rw [free] at freePath freeOnce
  have here : i ∈ share .free := by simp [free]
  refine ⟨_, push_run c data isUpper enabled p freePath.named, ?_, by simp, by simp⟩
  have same (js : List (Fin size)) (without : i ∉ js) :=
    get_put_of_not_mem p.segments without { link := p.links.get c, data }
  have elsewhere (o : Owner n) (real : o ≠ .free) : i ∉ share o := s.parts.not_mem here real
  constructor
  · refine s.parts.transfer .free (.live c) [i] (by simp) ?_ ?_ ?_
    · simp [free]
    · simp
    · intro o notFree notLive
      simp [notFree, notLive]
  · intro o
    cases o with
    | free => simpa using freePath.onward.congr (same rest (List.nodup_cons.mp freeOnce).1)
    | live d =>
      by_cases mine : d = c
      · subst mine
        simp only [Function.update_self, Owner.root_live, Vector.get_put_self]
        refine .cons (by simpa using freePath.named) ?_
        simpa using (s.path (.live d)).congr (same _ (elsewhere _ (by simp)))
      · have apart : c ≠ d := Ne.symm mine
        simpa [mine, Vector.get_put, apart] using
          (s.path (.live d)).congr (same _ (elsewhere _ (by simp)))
    | saved task =>
      simpa using (s.path (.saved task)).congr (same _ (elsewhere _ (by simp)))
  · intro o real
    by_cases mine : o = .live c
    · subst mine
      simp only [Function.update_self]
      exact .call (by simp) ((s.fits _ real).congr (same _ (elsewhere _ real)))
    · simpa [mine, real] using (s.fits o real).congr (same _ (elsewhere o real))
  · intro k
    by_cases taken : i = k
    · subst taken
      simpa using (List.nodup_cons.mp freeOnce).1
    · have old := s.inUse k
      rw [free] at old
      simpa [Vector.get_put, taken, Ne.symm taken] using old

/-- With no free segment a push is refused and changes nothing. -/
theorem push_refused (s : Sharing p heads share spills lost) (free : share .free = []) (c : Fin n)
    (data : Vector Word dataWords) (isUpper enabled : Bool) :
    Pool.push c data isUpper enabled p = .ok (.error .segmentsExhausted) p := by
  have path := s.path .free
  rw [free] at path
  exact push_run_null c data isUpper enabled p path.isNull

/-- The head of a core's chain goes to the front of the free list. -/
theorem pop (s : Sharing p heads share spills lost) {c : Fin n}
    (top : spills (.live c) = .call upper :: below) :
    ∃ i rest q, share (.live c) = i :: rest ∧
      Pool.pop c p = .ok (p.segments.get i) q ∧ (p.segments.get i).data = upper ∧
      Sharing q heads (update (update share (.live c) rest) .free (i :: share .free))
        (update spills (.live c) below) lost ∧
      q.links.get c = (p.segments.get i).link := by
  have fits := s.fits (.live c) (by simp)
  rw [top] at fits
  obtain ⟨i, rest, chain, data, fitsBelow⟩ : ∃ i rest, share (.live c) = i :: rest ∧
      (p.segments.get i).data = upper ∧ Fits p rest below := by
    generalize share (.live c) = chain at fits
    cases fits with
    | call data fitsBelow => exact ⟨_, _, rfl, data, fitsBelow⟩
  have livePath := s.path (.live c)
  have liveOnce := s.parts.nodup (.live c)
  rw [chain] at livePath liveOnce
  have here : i ∈ share (.live c) := by simp [chain]
  have used := s.inUse_of_mem (by simp) here
  refine ⟨i, rest, _, chain, pop_run c p livePath.named used, data, ?_, by simp⟩
  have same (js : List (Fin size)) (without : i ∉ js) :=
    get_put_of_not_mem p.segments without { p.segments.get i with link := p.freeHead }
  have elsewhere (o : Owner n) (apart : o ≠ .live c) : i ∉ share o := s.parts.not_mem here apart
  have notBelow := (List.nodup_cons.mp liveOnce).1
  constructor
  · refine s.parts.transfer (.live c) .free [i] (by simp) ?_ ?_ ?_
    · simp [chain]
    · simp
    · intro o notLive notFree
      simp [notFree, notLive]
  · intro o
    cases o with
    | free =>
      simp only [Function.update_self, Owner.root_free]
      refine .cons (by simpa using livePath.named) ?_
      simpa using (s.path .free).congr (same _ (elsewhere _ (by simp)))
    | live d =>
      by_cases mine : d = c
      · subst mine
        simpa using livePath.onward.congr (same rest notBelow)
      · have apart : c ≠ d := Ne.symm mine
        simpa [mine, Vector.get_put, apart] using
          (s.path (.live d)).congr (same _ (elsewhere _ (by simp [mine])))
    | saved task =>
      simpa using (s.path (.saved task)).congr (same _ (elsewhere _ (by simp)))
  · intro o real
    by_cases mine : o = .live c
    · subst mine
      simpa using fitsBelow.congr (same rest notBelow)
    · simpa [mine, real] using (s.fits o real).congr (same _ (elsewhere o mine))
  · intro k
    by_cases taken : i = k
    · subst taken
      simp
    · simpa [Vector.get_put, taken, Ne.symm taken] using s.inUse k

/-- Two segments leave the free list and are written. -/
theorem create_run (p : Pool size n) (first : p.freeHead.place? size = some i)
    (second : (p.segments.get i).link.place? size = some j) (apart : i ≠ j)
    (sp entry argument : Word) :
    ∃ head tail q r, allocatePair p = .ok (.ok (head, tail)) q ∧
      writeInitial head tail sp entry argument q = .ok () r ∧
      head = p.freeHead.address ∧ tail = (p.segments.get i).link.address ∧
      r.freeHead = (p.segments.get j).link ∧ r.links = p.links ∧
      r.segments.get i = initialLower tail entry argument ∧
      r.segments.get j = initialUpper sp ∧
      (∀ k, k ≠ i → k ≠ j → r.segments.get k = p.segments.get k) ∧
      ∀ k, r.inUse.get k = if j = k then true else if i = k then true else p.inUse.get k := by
  set head := p.freeHead.address
  set tail := (p.segments.get i).link.address
  set q := ({ p with freeHead := (p.segments.get j).link }.mark i true).mark j true with hq
  set r := (q.setSegment j (initialUpper sp)).setSegment i (initialLower tail entry argument)
    with hr
  have wrote : writeInitial head tail sp entry argument q = .ok () r := by
    simp only [writeInitial, Action.bind_run,
      writeSegment_run (l := tail) _ _ (by simpa [tail] using second),
      writeSegment_run (l := head) _ _ (by simpa [head] using first)]
    rfl
  refine ⟨head, tail, q, r, allocatePair_run p first second, wrote, rfl, rfl, rfl, rfl, ?_, ?_, ?_,
    ?_⟩
  · simp [hr]
  · simp [hr, apart]
  · intro k notFirst notSecond
    simp [hr, hq, notFirst.symm, notSecond.symm]
  · intro k
    simp [hr, hq]

/-- Two segments are taken off the free list and hold the context of a new task. -/
theorem create (s : Sharing p heads share spills lost) (free : share .free = i :: j :: rest)
    {task : TaskId} (absent : share (.saved task) = []) (sp entry argument : Word) :
    ∃ head tail q r, allocatePair p = .ok (.ok (head, tail)) q ∧
      writeInitial head tail sp entry argument q = .ok () r ∧ head.address = head ∧
      Sharing r (update heads task head)
        (update (update share .free rest) (.saved task) [i, j])
        (update spills (.saved task) [.initial sp entry argument]) lost := by
  have freePath := s.path .free
  have freeOnce := s.parts.nodup .free
  rw [free] at freePath freeOnce
  simp only [List.nodup_cons, List.mem_cons, not_or] at freeOnce
  have first : p.freeHead.place? size = some i := freePath.named
  have second : (p.segments.get i).link.place? size = some j := freePath.onward.named
  have here : i ∈ share .free ∧ j ∈ share .free := by simp [free]
  obtain ⟨head, tail, q, r, allocated, wrote, isHead, isTail, headed, unmoved, atFirst, atSecond,
    old, used⟩ := create_run p first second freeOnce.1.1 sp entry argument
  refine ⟨head, tail, q, r, allocated, wrote, by rw [isHead]; rfl, ?_⟩
  have elsewhere (o : Owner n) (real : o ≠ .free) : ∀ k ∈ share o,
      r.segments.get k = p.segments.get k := by
    intro k inside
    apply old
    · rintro rfl
      exact s.parts.not_mem here.1 real inside
    · rintro rfl
      exact s.parts.not_mem here.2 real inside
  have inRest : ∀ k ∈ rest, r.segments.get k = p.segments.get k := by
    intro k inside
    apply old
    · rintro rfl
      exact freeOnce.1.2 inside
    · rintro rfl
      exact freeOnce.2.1 inside
  constructor
  · refine s.parts.transfer .free (.saved task) [i, j] (by simp) ?_ ?_ ?_
    · simp [free]
    · simp [absent]
    · intro o notFree notSaved
      simp [notFree, notSaved]
  · intro o
    cases o with
    | free => simpa [headed] using freePath.onward.onward.congr inRest
    | live c => simpa [unmoved] using (s.path (.live c)).congr (elsewhere _ (by simp))
    | saved other =>
      by_cases mine : other = task
      · subst mine
        simp only [Function.update_self, Owner.root_saved]
        refine .cons (by simpa [isHead] using first) (.cons ?_ (.nil ?_))
        · simpa [atFirst, initialLower, isTail] using second
        · simp [atSecond, initialUpper, Link.isNull, Link.withFlags, Link.null]
      · simpa [mine] using (s.path (.saved other)).congr (elsewhere _ (by simp))
  · intro o real
    by_cases mine : o = .saved task
    · subst mine
      simp only [Function.update_self, Spill.initial]
      refine .trap ?_ ?_ ?_ .nil
      · simp [atFirst, initialLower, isTail]
      · simp [atFirst, initialLower, Link.withFlags]
      · rw [atSecond]
    · simpa [mine, real] using (s.fits o real).congr (elsewhere o real)
  · intro k
    have before := s.inUse k
    rw [used]
    by_cases isSecond : j = k
    · subst isSecond
      simpa using freeOnce.2.1
    · by_cases isFirst : i = k
      · subst isFirst
        simpa using freeOnce.1.2
      · simpa [isFirst, isSecond, free, Ne.symm isFirst, Ne.symm isSecond] using before

/-- What lies behind the calls on top of a core's live chain becomes the chain of a task. -/
theorem cut (s : Sharing p heads share spills lost) {c : Fin n} {calls tail : List Spill}
    (top : spills (.live c) = calls ++ tail) (plain : ∀ x ∈ calls, x.isCall = true)
    {task : TaskId} (absent : share (.saved task) = []) :
    ∃ front back m, share (.live c) = front ++ back ∧ front.length = calls.length ∧
      Leads p (p.links.get c) front m ∧ Fits p back tail ∧ Path p m back ∧
      Sharing (p.relink c front .null) (update heads task m.address)
        (update (update share (.live c) front) (.saved task) back)
        (update (update spills (.live c) calls) (.saved task) tail) lost := by
  have fits := s.fits (.live c) (by simp)
  rw [top] at fits
  obtain ⟨front, back, chain, fitsFront, fitsBack⟩ := fits.of_append
  have livePath := s.path (.live c)
  have liveOnce := s.parts.nodup (.live c)
  rw [chain] at livePath liveOnce
  obtain ⟨m, leads, pathBack⟩ := livePath.of_append
  have frontOnce := (List.nodup_append'.mp liveOnce).1
  have apartLists := (List.nodup_append'.mp liveOnce).2.2
  refine ⟨front, back, m, chain, fitsFront.length_calls plain, leads, fitsBack, pathBack, ?_⟩
  have same (js : List (Fin size)) (apart : ∀ j ∈ js, j ∉ front) : ∀ j ∈ js,
      (p.relink c front .null).segments.get j = p.segments.get j :=
    fun j inside => segments_relink_of_not_mem p c front .null (apart j inside)
  have backSame := same back fun j inside there => apartLists there inside
  have elsewhere (o : Owner n) (apart : o ≠ .live c) : ∀ j ∈ share o,
      (p.relink c front .null).segments.get j = p.segments.get j := by
    refine same _ fun j inside there => s.parts.not_mem (o := .live c) ?_ apart inside
    simp [chain, there]
  constructor
  · refine s.parts.transfer (.live c) (.saved task) back
      (by simp) ?_ ?_ ?_
    · simpa [chain] using List.perm_append_comm
    · simp [absent]
    · intro o notLive notSaved
      simp [notLive, notSaved]
  · intro o
    cases o with
    | free => simpa using (s.path .free).congr (elsewhere _ (by simp))
    | live d =>
      by_cases mine : d = c
      · subst mine
        simpa using Path.append (leads.relink frontOnce .null) (Path.nil rfl)
      · simpa [mine, links_relink_of_ne p c front .null (Ne.symm mine)] using
          (s.path (.live d)).congr (elsewhere _ (by simp [mine]))
    | saved other =>
      by_cases mine : other = task
      · subst mine
        simpa using (pathBack.congr backSame).relabel (k := m.address) rfl
      · simpa [mine] using (s.path (.saved other)).congr (elsewhere _ (by simp))
  · intro o real
    by_cases isLive : o = .live c
    · subst isLive
      simpa using fitsFront.congr_calls plain fun j _ => data_relink p c front .null j
    · by_cases mine : o = .saved task
      · subst mine
        simpa using fitsBack.congr backSame
      · simpa [mine, isLive] using (s.fits o real).congr (elsewhere o isLive)
  · intro k
    simpa using s.inUse k

/-- The chain of a task goes behind the calls on a core's live chain. -/
theorem graft (s : Sharing p heads share spills lost) {c : Fin n}
    (plain : ∀ x ∈ spills (.live c), x.isCall = true) (task : TaskId) (head : Link)
    (named : head.number = (heads task).number) :
    Sharing (p.relink c (share (.live c)) head) (update heads task .null)
      (update (update share (.live c) (share (.live c) ++ share (.saved task))) (.saved task) [])
      (update (update spills (.live c) (spills (.live c) ++ spills (.saved task)))
        (.saved task) []) lost := by
  set front := share (.live c) with hfront
  obtain ⟨m, leads, _⟩ := s.path (.live c)
  rw [Owner.root_live, ← hfront] at leads
  have once := s.parts.nodup (.live c)
  have elsewhere (o : Owner n) (apart : o ≠ .live c) : ∀ j ∈ share o,
      (p.relink c front head).segments.get j = p.segments.get j := by
    intro j inside
    apply segments_relink_of_not_mem
    exact s.parts.not_mem inside apart.symm
  have taskPath : Path (p.relink c front head) head (share (.saved task)) :=
    ((s.path (.saved task)).congr (elsewhere _ (by simp))).relabel named
  have taskFits := (s.fits (.saved task) (by simp)).congr (elsewhere _ (by simp))
  constructor
  · refine s.parts.transfer (.saved task) (.live c) (share (.saved task)) (by simp) ?_ ?_ ?_
    · simp
    · simpa using List.perm_append_comm
    · intro o notSaved notLive
      simp [notLive, notSaved]
  · intro o
    cases o with
    | free => simpa using (s.path .free).congr (elsewhere _ (by simp))
    | live d =>
      by_cases mine : d = c
      · subst mine
        simpa using Path.append (leads.relink once head) taskPath
      · simpa [mine, links_relink_of_ne p c front head (Ne.symm mine)] using
          (s.path (.live d)).congr (elsewhere _ (by simp [mine]))
    | saved other =>
      by_cases mine : other = task
      · subst mine
        simpa using Path.nil (p := p.relink c front head) (l := .null) rfl
      · simpa [mine] using (s.path (.saved other)).congr (elsewhere _ (by simp))
  · intro o real
    by_cases mine : o = .saved task
    · subst mine
      simpa using Fits.nil
    · by_cases isLive : o = .live c
      · subst isLive
        have frontFits := (s.fits (.live c) (by simp)).congr_calls plain
          fun j _ => data_relink p c front head j
        simpa using frontFits.append taskFits
      · simpa [mine, isLive] using (s.fits o real).congr (elsewhere o isLive)
  · intro k
    simpa using s.inUse k

/-- A core's live chain is lost when its link register is overwritten. -/
theorem drop (s : Sharing p heads share spills lost) (c : Fin n) :
    Sharing (p.relink c [] .null) heads (update share (.live c) []) (update spills (.live c) [])
      (share (.live c) ++ lost) := by
  have others (o : Owner n) (apart : o ≠ .live c) : update share (.live c) [] o = share o := by
    simp [apart]
  constructor
  · exact s.parts.drop (.live c) (by simp) others
  · intro o
    cases o with
    | free => simpa [relink] using (s.path .free).congr (q := p.relink c [] .null) fun _ _ => rfl
    | live d =>
      by_cases mine : d = c
      · subst mine
        simpa [relink] using Path.nil (p := p.relink d [] .null) (l := .null) rfl
      · have path := (s.path (.live d)).congr (q := p.relink c [] .null) fun _ _ => rfl
        simpa [mine, links_relink_of_ne p c [] .null (Ne.symm mine)] using path
    | saved task =>
      simpa using (s.path (.saved task)).congr (q := p.relink c [] .null) fun _ _ => rfl
  · intro o real
    by_cases mine : o = .live c
    · subst mine
      simpa using Fits.nil
    · simpa [mine] using (s.fits o real).congr (q := p.relink c [] .null) fun _ _ => rfl
  · intro i
    simpa using s.inUse i

end Sharing

end Pool

end Preempt
