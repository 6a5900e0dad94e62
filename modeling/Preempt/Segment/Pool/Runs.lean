import Preempt.Action
import Preempt.Segment.Pool.Basic

/-!
Runs of the pool actions. Where the links name segments, a push takes the first free segment to the
head of a core's chain and a pop gives it back (`push_run`, `pop_run`); each says all that the pool
holds afterwards.
-/

namespace Preempt.Pool

variable {size n : Nat}

theorem segment_run (l : Link) (p : Pool size n) : segment l p =
    match p.segment? l with
    | some s => .ok s p
    | none => .error (.violation .releasedContextRestored) p := by
  simp only [segment, Action.bind_run, place, segment?]
  cases l.place? size <;> rfl

theorem next_run (l : Link) (p : Pool size n) : next l p =
    match p.next? l with
    | some link => .ok link p
    | none => .error (.violation .releasedContextRestored) p := by
  simp only [next, Action.bind_run, segment_run, next?]
  cases p.segment? l <;> rfl

theorem next_run_named {l : Link} {i : Fin size} (p : Pool size n)
    (named : l.place? size = some i) : next l p = .ok (p.segments.get i).link p := by
  simp [next_run, next?, segment?, named]

theorem writeLink_run {l : Link} {i : Fin size} (link : Link) (p : Pool size n)
    (named : l.place? size = some i) : writeLink l link p = .ok () (p.setLink i link) := by
  simp only [writeLink, Action.bind_run, place, named]
  rfl

theorem writeSegment_run {l : Link} {i : Fin size} (s : Segment) (p : Pool size n)
    (named : l.place? size = some i) : writeSegment l s p = .ok () (p.setSegment i s) := by
  simp only [writeSegment, Action.bind_run, place, named]
  rfl

theorem writeMark_run {l : Link} {i : Fin size} (used : Bool) (p : Pool size n)
    (named : l.place? size = some i) : writeMark l used p = .ok () (p.mark i used) := by
  simp only [writeMark, Link.index?_of_place? named, i.isLt, dite_true]
  rfl

theorem chain_run (c : Fin n) (p : Pool size n) : chain c p = .ok (p.links.get c) p := by
  simp [chain]

theorem setChain_run (c : Fin n) (head : Link) (p : Pool size n) :
    setChain c head p = .ok () { p with links := p.links.put c head } := by
  simp [setChain]

theorem allocate_run_null (p : Pool size n) (null : p.freeHead.isNull = true) :
    allocate p = .ok (.error .segmentsExhausted) p := by
  simp only [allocate, takeAt, Action.bind_run, Action.get_run,
    null, if_true]
  rfl

theorem allocate_run {i : Fin size} (p : Pool size n)
    (named : p.freeHead.place? size = some i) :
    allocate p = .ok (.ok p.freeHead.address)
      ({ p with freeHead := (p.segments.get i).link }.mark i true) := by
  have marked := writeMark_run (n := n) (l := p.freeHead.address) true
    { p with freeHead := (p.segments.get i).link } (by simpa using named)
  simp only [allocate, takeAt, Action.bind_run, Action.get_run,
    Link.isNull_of_place? named, next_run_named p named, Action.pure_run, Action.modify_run,
    marked, Bool.false_eq_true, if_false]

theorem allocatePair_run_one {i : Fin size} (p : Pool size n)
    (named : p.freeHead.place? size = some i) (null : (p.segments.get i).link.isNull = true) :
    allocatePair p = .ok (.error .segmentsExhausted) p := by
  simp only [allocatePair, takeAt, Action.bind_run, Action.get_run, Link.isNull_of_place? named,
    next_run_named p named, Action.pure_run, null, Bool.false_eq_true, if_false, if_true]

theorem allocatePair_run_null (p : Pool size n) (null : p.freeHead.isNull = true) :
    allocatePair p = .ok (.error .segmentsExhausted) p := by
  simp only [allocatePair, takeAt, Action.bind_run, Action.get_run, null, if_true]
  rfl

theorem allocatePair_run {i j : Fin size} (p : Pool size n)
    (first : p.freeHead.place? size = some i)
    (second : (p.segments.get i).link.place? size = some j) :
    allocatePair p = .ok (.ok (p.freeHead.address, (p.segments.get i).link.address))
      (({ p with freeHead := (p.segments.get j).link }.mark i true).mark j true) := by
  have marked (q : Pool size n) :=
    writeMark_run (l := p.freeHead.address) true q (by simpa using first)
  have marked' (q : Pool size n) :=
    writeMark_run (l := (p.segments.get i).link.address) true q (by simpa using second)
  simp only [allocatePair, takeAt, Action.bind_run, Action.get_run, Link.isNull_of_place? first,
    Link.isNull_of_place? second, next_run_named p first, next_run_named p second,
    Action.pure_run, Action.modify_run, marked, marked', Bool.false_eq_true, if_false]

theorem release_run {l : Link} {i : Fin size} (p : Pool size n)
    (named : l.place? size = some i) :
    release l p = .ok () ({ p.setLink i p.freeHead with freeHead := l.address }.mark i false) := by
  have written := writeLink_run (l := l.address) p.freeHead p (by simpa using named)
  have marked := writeMark_run (n := n) (l := l.address) false
    { p.setLink i p.freeHead with freeHead := l.address } (by simpa using named)
  simp only [release, Action.bind_run, Action.get_run, written,
    Action.modify_run, marked]

theorem push_run_null (c : Fin n) (data : Vector Word dataWords) (upper enabled : Bool)
    (p : Pool size n) (null : p.freeHead.isNull = true) :
    push c data upper enabled p = .ok (.error .segmentsExhausted) p := by
  simp only [push, Action.bind_run, allocate_run_null p null]
  rfl

/-- The first free segment becomes the head of the core's chain. -/
theorem push_run {i : Fin size} (c : Fin n) (data : Vector Word dataWords)
    (upper enabled : Bool) (p : Pool size n) (named : p.freeHead.place? size = some i) :
    push c data upper enabled p = .ok (.ok p.freeHead.address)
      { segments := p.segments.put i { link := p.links.get c, data }
        inUse := p.inUse.put i true
        freeHead := (p.segments.get i).link
        links := p.links.put c (p.freeHead.withFlags upper enabled) } := by
  have written (q : Pool size n) (s : Segment) :=
    writeSegment_run (l := p.freeHead.address) s q (by simpa using named)
  simp only [push, Action.bind_run, allocate_run p named, chain_run, written,
    setChain_run, Action.pure_run]
  rfl

/-- The head of the core's chain becomes the first free segment. -/
theorem pop_run {i : Fin size} (c : Fin n) (p : Pool size n)
    (named : (p.links.get c).place? size = some i) (used : p.inUse.get i = true) :
    pop c p = .ok (p.segments.get i)
      { segments := p.segments.put i { p.segments.get i with link := p.freeHead }
        inUse := p.inUse.put i false
        freeHead := (p.links.get c).address
        links := p.links.put c (p.segments.get i).link } := by
  have found : p.segment? (p.links.get c) = some (p.segments.get i) := by simp [segment?, named]
  have released (q : Pool size n) := release_run (l := p.links.get c) q named
  have inUse : p.isInUse (p.links.get c) = true :=
    (isInUse_eq_true_iff p _).mpr ⟨i, named, used⟩
  simp only [pop, Action.bind_run, chain_run, Action.get_run, inUse, if_true, segment_run, found,
    setChain_run, released, Action.pure_run]
  rfl

theorem pop_run_free (c : Fin n) (p : Pool size n)
    (free : p.isInUse (p.links.get c) = false) :
    pop c p = .error (.violation .releasedContextRestored) p := by
  simp only [pop, Action.bind_run, chain_run, Action.get_run, free, Bool.false_eq_true, if_false]
  rfl

end Preempt.Pool
