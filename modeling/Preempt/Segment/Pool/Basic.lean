import Preempt.Fault
import Preempt.Indexed
import Preempt.Segment.Link

/-!
The pool of context segments that all cores share. A segment is a link and fifteen data words.
Free segments are threaded through their links from the free head; each core's link register
names the head of its live chain. A link that leads out of the pool halts the walk that follows
it. The lemmas say what every segment holds after each elementary change.
-/

namespace Preempt

/-- Words of a segment besides its link. -/
abbrev dataWords : Nat := 15

abbrev segmentWords : Nat := dataWords + 1

structure Segment where
  link : Link := .null
  data : Vector Word dataWords := .replicate _ (.num 0)
deriving DecidableEq

/-- All words of a segment; the link comes first. -/
def Segment.words (s : Segment) : List Word := .ofUInt32 s.link.raw :: s.data.toList

namespace Link

/-- The place in a pool of `size` segments that the link names, if there is one. -/
def place? (l : Link) (size : Nat) : Option (Fin size) :=
  match l.index? with
  | some i => if inside : i < size then some ⟨i, inside⟩ else none
  | none => none

@[simp] theorem place?_address (l : Link) (size : Nat) :
    l.address.place? size = l.place? size := rfl

@[simp] theorem place?_withFlags (l : Link) (upper enabled : Bool) (size : Nat) :
    (l.withFlags upper enabled).place? size = l.place? size := rfl

theorem place?_of_isNull {l : Link} (null : l.isNull = true) (size : Nat) :
    l.place? size = none := by
  simp [place?, (isNull_iff_index?_eq_none l).mp null]

theorem index?_of_place? {l : Link} {size : Nat} {i : Fin size}
    (named : l.place? size = some i) : l.index? = some i.val := by
  unfold place? at named
  split at named
  · rename_i j found
    split at named
    · cases named; exact found
    · cases named
  · cases named

theorem isNull_of_place? {l : Link} {size : Nat} {i : Fin size}
    (named : l.place? size = some i) : l.isNull = false := by
  cases null : l.isNull with
  | false => rfl
  | true => rw [place?_of_isNull null] at named; cases named

end Link

/-- A pool of `size` segments for `n` cores. -/
structure Pool (size n : Nat) where
  segments : Vector Segment size
  inUse : Vector Bool size
  freeHead : Link
  links : Vector Link n

abbrev PoolM (size n : Nat) := EStateM Halt (Pool size n)

namespace Pool

variable {size n : Nat}

/-- All segments free, in index order; no core has a chain. -/
def fresh (size n : Nat) : Pool size n where
  segments := .ofFn fun i => { link := if i + 1 < size then .ofIndex (i + 1) else .null }
  inUse := .replicate size false
  freeHead := if 0 < size then .ofIndex 0 else .null
  links := .replicate n .null

def segment? (p : Pool size n) (l : Link) : Option Segment :=
  (l.place? size).map p.segments.get

def next? (p : Pool size n) (l : Link) : Option Link := (p.segment? l).map (·.link)

/-- Whether a link names a segment that is allocated. -/
def isInUse (p : Pool size n) (l : Link) : Bool :=
  match l.place? size with
  | some i => p.inUse.get i
  | none => false

def setSegment (p : Pool size n) (i : Fin size) (s : Segment) : Pool size n :=
  { p with segments := p.segments.put i s }

def setLink (p : Pool size n) (i : Fin size) (link : Link) : Pool size n :=
  p.setSegment i { p.segments.get i with link }

def mark (p : Pool size n) (i : Fin size) (used : Bool) : Pool size n :=
  { p with inUse := p.inUse.put i used }

/-- The place that a link names. A link that names none halts. -/
def place (l : Link) : PoolM size n (Fin size) := fun p =>
  match l.place? size with
  | some i => .ok i p
  | none => .error (.violation .releasedContextRestored) p

def segment (l : Link) : PoolM size n Segment := do
  let i ← place l
  return (← get).segments.get i

def next (l : Link) : PoolM size n Link := return (← segment l).link

def follow : Nat → Link → PoolM size n Link
  | 0, l => return l
  | count + 1, l => do follow count (← next l)

def writeLink (l link : Link) : PoolM size n Unit := do
  let i ← place l
  modify (·.setLink i link)

def writeSegment (l : Link) (s : Segment) : PoolM size n Unit := do
  let i ← place l
  modify (·.setSegment i s)

/-- Mark the segment that a link names. A null link marks nothing. -/
def writeMark (l : Link) (used : Bool) : PoolM size n Unit := do
  match l.index? with
  | none => return ()
  | some i =>
    if inside : i < size then modify (·.mark ⟨i, inside⟩ used)
    else throw (.outOfRange size i)

def chain (core : CoreId) : PoolM size n Link := fun p =>
  if h : core < n then .ok (p.links.get ⟨core, h⟩) p else .error (.outOfRange n core) p

def setChain (core : CoreId) (head : Link) : PoolM size n Unit := fun p =>
  if h : core < n then .ok () { p with links := p.links.put ⟨core, h⟩ head }
  else .error (.outOfRange n core) p

/-- The segment that a link of the free list names, and the link behind it. -/
def takeAt (cursor : Link) : PoolM size n (Except Refusal (Link × Link)) := do
  if cursor.isNull then return .error .segmentsExhausted
  else return .ok (cursor.address, ← next cursor)

def allocate : PoolM size n (Except Refusal Link) := do
  match ← takeAt (← get).freeHead with
  | .error e => return .error e
  | .ok (l, rest) =>
    modify ({ · with freeHead := rest })
    writeMark l true
    return .ok l

/-- Take two segments off the free list, or none. -/
def allocatePair : PoolM size n (Except Refusal (Link × Link)) := do
  match ← takeAt (← get).freeHead with
  | .error e => return .error e
  | .ok (first, rest) =>
    match ← takeAt rest with
    | .error e => return .error e
    | .ok (second, rest) =>
      modify ({ · with freeHead := rest })
      writeMark first true
      writeMark second true
      return .ok (first, second)

def release (l : Link) : PoolM size n Unit := do
  writeLink l.address (← get).freeHead
  modify ({ · with freeHead := l.address })
  writeMark l.address false

/-- Spill one context onto a core's live chain, as a call or an interrupt does. The link register
then names the new segment, with flags that tell its kind and the interrupt enable. -/
def push (core : CoreId) (data : Vector Word dataWords) (upper enabled : Bool) :
    PoolM size n (Except Refusal Link) := do
  match ← allocate with
  | .error e => return .error e
  | .ok l =>
    let link ← chain core
    writeSegment l { link, data }
    setChain core (l.withFlags upper enabled)
    return .ok l

/-- Reload the head of a core's live chain, as a return does. The segment becomes free. -/
def pop (core : CoreId) : PoolM size n Segment := do
  let head ← chain core
  if (← get).isInUse head then
    let s ← segment head
    setChain core s.link
    release head
    return s
  else throw (.violation .releasedContextRestored)

/-! What the elementary changes do. -/

@[simp] theorem segments_setSegment (p : Pool size n) (i j : Fin size) (s : Segment) :
    (p.setSegment i s).segments.get j = if i = j then s else p.segments.get j := by
  simp [setSegment, Vector.get_put]

@[simp] theorem segments_setLink (p : Pool size n) (i j : Fin size) (link : Link) :
    (p.setLink i link).segments.get j =
      if i = j then { p.segments.get j with link } else p.segments.get j := by
  by_cases same : i = j
  · subst same; simp [setLink]
  · simp [setLink, same]

@[simp] theorem segments_mark (p : Pool size n) (i : Fin size) (used : Bool) :
    (p.mark i used).segments = p.segments := rfl

@[simp] theorem inUse_mark (p : Pool size n) (i j : Fin size) (used : Bool) :
    (p.mark i used).inUse.get j = if i = j then used else p.inUse.get j := by
  simp [mark, Vector.get_put]

@[simp] theorem inUse_setSegment (p : Pool size n) (i : Fin size) (s : Segment) :
    (p.setSegment i s).inUse = p.inUse := rfl

@[simp] theorem freeHead_setSegment (p : Pool size n) (i : Fin size) (s : Segment) :
    (p.setSegment i s).freeHead = p.freeHead := rfl

@[simp] theorem links_setSegment (p : Pool size n) (i : Fin size) (s : Segment) :
    (p.setSegment i s).links = p.links := rfl

theorem isInUse_eq_true_iff (p : Pool size n) (l : Link) :
    p.isInUse l = true ↔ ∃ i, l.place? size = some i ∧ p.inUse.get i = true := by
  unfold isInUse
  cases l.place? size <;> simp

end Pool

end Preempt
