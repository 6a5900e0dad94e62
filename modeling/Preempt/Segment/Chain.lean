import Preempt.Segment.Pool.Runs

/-!
Walks along chains of segments: counting the free list, giving a whole chain back, and the audit
that every segment is reachable exactly once. Links may be anything, so each walk takes at most as
many steps as the pool has segments.
-/

namespace Preempt.Pool

variable {size n : Nat}

/-- The number of segments on the chain from a link, counting at most `bound`. -/
def countFrom : Nat → Link → PoolM size n Nat
  | 0, _ => return 0
  | bound + 1, l => do
    if l.isNull then return 0
    else return (← countFrom bound (← next l)) + 1

def freeCount : PoolM size n Nat := do countFrom size (← get).freeHead

/-- Halt if one of the first `bound` segments on the chain from a link is free. -/
def requireInUse : Nat → Link → PoolM size n Unit
  | 0, _ => return ()
  | bound + 1, l => do
    if l.isNull then return ()
    else if (← get).isInUse l then requireInUse bound (← next l).address
    else throw (.violation .releasedContextReclaimed)

/-- Mark the chain from `tail` on as free and strip the flags off its links, for at most `bound`
segments after it. The answer is the last segment and `count` increased by the segments after
`tail`. -/
def unmarkFrom : Nat → Link → Nat → PoolM size n (Link × Nat)
  | bound, tail, count => do
    writeMark tail false
    let link ← next tail
    match bound with
    | 0 => return (tail, count)
    | bound + 1 =>
      if link.isNull then return (tail, count)
      else
        writeLink tail link.address
        unmarkFrom bound link.address (count + 1)

/-- Put a chain with known ends in front of the free list. -/
def splice (head tail : Link) : PoolM size n Unit := do
  writeLink tail (← get).freeHead
  modify ({ · with freeHead := head })

/-- Walk along a chain and mark its segments in `seen`. A segment seen before, a link out of the
pool or more than `bound` segments make the walk fail. -/
def visit (p : Pool size n) : Nat → Link → Vector Bool size → Option (Vector Bool size)
  | 0, l, seen => if l.isNull then some seen else none
  | bound + 1, l, seen =>
    if l.isNull then some seen
    else
      match l.place? size with
      | none => none
      | some i =>
        if seen.get i then none
        else p.visit bound (p.segments.get i).link (seen.put i true)

/-- Whether every segment is reachable exactly once from the free list, a core's live chain or one
of the heads of suspended tasks. -/
def audit (p : Pool size n) (suspended : List Link) : Bool :=
  let starts := p.freeHead :: (p.links.toList ++ suspended)
  match starts.foldlM (fun seen l => p.visit size l seen) (Vector.replicate size false) with
  | some seen => seen.all id
  | none => false

theorem visit_of_isNull (p : Pool size n) (bound : Nat) {l : Link} (null : l.isNull = true)
    (seen : Vector Bool size) : p.visit bound l seen = some seen := by
  cases bound <;> simp [visit, null]

end Preempt.Pool
