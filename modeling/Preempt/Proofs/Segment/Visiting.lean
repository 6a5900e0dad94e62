import Mathlib.Data.Fintype.Card
import Mathlib.Data.List.Forall2
import Preempt.Proofs.Segment.Chains
import Preempt.Segment.Chain

/-!
What an audit decides, over any links whatever. A visit that ends has walked along a chain and
marked its segments; a visit that fails has met a segment twice, or a link out of the pool. An audit
therefore passes exactly if the chains from all of its starts end and hold every segment once
(`audit_iff_walks`). The bound on the steps of a walk never decides: no walk comes back to a segment
that it has marked, so a larger bound gives the same answer (`visit_bound`).
-/

namespace Preempt.Pool

variable {size n : Nat} {p : Pool size n} {l : Link} {is : List (Fin size)}
  {seen after : Vector Bool size} {bound : Nat}

/-- The marks `after` are those of `seen` and some more. -/
def Marks (seen after : Vector Bool size) (is : List (Fin size)) : Prop :=
  ∀ i, after.get i = true ↔ i ∈ is ∨ seen.get i = true

theorem Marks.unique {other : Vector Bool size} (first : Marks seen after is)
    (second : Marks seen other is) : after = other := by
  apply Vector.ext
  intro i bound
  exact Bool.eq_iff_iff.mpr ((first ⟨i, bound⟩).trans (second ⟨i, bound⟩).symm)

theorem Marks.cons {i : Fin size} (marks : Marks (seen.put i true) after is) :
    Marks seen after (i :: is) := by
  intro j
  rw [marks, Vector.get_put]
  by_cases here : i = j
  · simp [here]
  · simp [here, Ne.symm here]

theorem Marks.append {mid : Vector Bool size} {js : List (Fin size)} (first : Marks seen mid is)
    (second : Marks mid after js) : Marks seen after (is ++ js) := by
  intro i
  rw [second, first, List.mem_append]
  tauto

/-- A visit along a chain that no visit has met marks its segments. -/
theorem visit_run (path : Path p l is) (fresh : ∀ i ∈ is, seen.get i = false)
    (long : is.length ≤ bound) :
    ∃ after, p.visit bound l seen = some after ∧ Marks seen after is := by
  induction is generalizing l seen bound with
  | nil => exact ⟨seen, visit_of_isNull p bound path.isNull seen, by simp [Marks]⟩
  | cons i is ih =>
    obtain ⟨bound, rfl⟩ : ∃ m, bound = m + 1 := ⟨bound - 1, by simp at long; omega⟩
    have outside := (List.nodup_cons.mp path.nodup).1
    have unmet : ∀ j ∈ is, (seen.put i true).get j = false := by
      intro j inside
      rw [Vector.get_put_of_ne]
      · exact fresh j (by simp [inside])
      · rintro rfl
        exact outside inside
    obtain ⟨after, walked, marks⟩ := ih path.onward unmet (by simpa using long)
    refine ⟨after, ?_, marks.cons⟩
    simpa only [visit, Link.isNull_of_place? path.named, Bool.false_eq_true, if_false, path.named,
      fresh i (by simp)] using walked

/-- What a visit that ends has done at a link that is not null. -/
theorem visit_ran_step (present : l.isNull = false) (walked : p.visit bound l seen = some after) :
    ∃ less i, bound = less + 1 ∧ l.place? size = some i ∧ seen.get i = false ∧
      p.visit less (p.segments.get i).link (seen.put i true) = some after := by
  cases bound with
  | zero => simp [visit, present] at walked
  | succ less =>
    cases named : l.place? size with
    | none => simp [visit, present, named] at walked
    | some i =>
      cases met : seen.get i with
      | true => simp [visit, present, named, met] at walked
      | false =>
        simp only [visit, present, Bool.false_eq_true, if_false, named, met] at walked
        exact ⟨less, i, rfl, rfl, met, walked⟩

/-- A visit that ends has walked along a chain that no visit had met. -/
theorem visit_ran (walked : p.visit bound l seen = some after) :
    ∃ is, Path p l is ∧ (∀ i ∈ is, seen.get i = false) ∧ Marks seen after is := by
  induction bound using Nat.strong_induction_on generalizing l seen with
  | _ bound ih =>
    cases null : l.isNull with
    | true =>
      rw [visit_of_isNull p bound null] at walked
      cases walked
      exact ⟨[], .nil null, by simp, by simp [Marks]⟩
    | false =>
      obtain ⟨less, i, rfl, named, unmet, onward⟩ := visit_ran_step null walked
      obtain ⟨is, path, fresh, marks⟩ := ih less (Nat.lt_succ_self less) onward
      refine ⟨i :: is, .cons named path, fun j inside => ?_, marks.cons⟩
      rcases List.mem_cons.mp inside with rfl | behind
      · exact unmet
      · have later := fresh j behind
        rw [Vector.get_put] at later
        split at later
        · cases later
        · exact later

theorem visit_eq_some_iff (extra : Nat) : p.visit (size + extra) l seen = some after ↔
    ∃ is, Path p l is ∧ (∀ i ∈ is, seen.get i = false) ∧ Marks seen after is := by
  refine ⟨visit_ran, fun ⟨is, path, fresh, marks⟩ => ?_⟩
  have few : is.length ≤ size := by simpa using path.nodup.length_le_card
  obtain ⟨other, walked, marks'⟩ :=
    visit_run path fresh (Nat.le_trans few (Nat.le_add_right size extra))
  rw [walked, marks'.unique marks]

/-- No walk is as long as the bound lets it be. -/
theorem visit_bound (p : Pool size n) (extra : Nat) (l : Link) (seen : Vector Bool size) :
    p.visit (size + extra) l seen = p.visit size l seen := by
  refine Option.ext fun after => ?_
  rw [visit_eq_some_iff, ← visit_eq_some_iff 0, Nat.add_zero]

/-- The visits of chains that share no segment mark all of their segments. -/
theorem visits_run {starts : List Link} {walks : List (List (Fin size))}
    (paths : List.Forall₂ (Path p) starts walks) (once : walks.flatten.Nodup)
    (fresh : ∀ i ∈ walks.flatten, seen.get i = false) :
    ∃ after, starts.foldlM (fun seen l => p.visit size l seen) seen = some after ∧
      Marks seen after walks.flatten := by
  induction paths generalizing seen with
  | nil => exact ⟨seen, rfl, by simp [Marks]⟩
  | @cons l is starts walks path _ ih =>
    rw [List.flatten_cons] at once fresh
    obtain ⟨here, rest, apart⟩ := List.nodup_append'.mp once
    obtain ⟨mid, walked, marks⟩ :=
      visit_run path (fun i inside => fresh i (by simp [inside]))
        (show is.length ≤ size by simpa using here.length_le_card)
    have unmet : ∀ i ∈ walks.flatten, mid.get i = false := by
      intro i inside
      have unmarked := fresh i (List.mem_append.mpr (.inr inside))
      rw [Bool.eq_false_iff, Ne, marks, not_or, unmarked]
      exact ⟨fun visited => apart visited inside, by simp⟩
    obtain ⟨after, walked', marks'⟩ := ih rest unmet
    refine ⟨after, ?_, marks.append marks'⟩
    simp only [List.foldlM_cons, walked]
    exact walked'

/-- Visits that all end have walked along chains that share no segment. -/
theorem visits_ran {starts : List Link}
    (walked : starts.foldlM (fun seen l => p.visit size l seen) seen = some after) :
    ∃ walks, List.Forall₂ (Path p) starts walks ∧ walks.flatten.Nodup ∧
      (∀ i ∈ walks.flatten, seen.get i = false) ∧ Marks seen after walks.flatten := by
  induction starts generalizing seen with
  | nil =>
    cases walked
    exact ⟨[], .nil, by simp, by simp, by simp [Marks]⟩
  | cons l starts ih =>
    rw [List.foldlM_cons] at walked
    obtain ⟨mid, first, onward⟩ := Option.bind_eq_some_iff.mp walked
    obtain ⟨is, path, unmet, marks⟩ := visit_ran first
    obtain ⟨walks, paths, once, fresh, marks'⟩ := ih onward
    refine ⟨is :: walks, .cons path paths, ?_, fun i inside => ?_, marks.append marks'⟩
    · refine List.nodup_append'.mpr ⟨path.nodup, once, fun i here there => ?_⟩
      have marked := (marks i).mpr (.inl here)
      rw [fresh i there] at marked
      cases marked
    · rcases List.mem_append.mp inside with here | there
      · exact unmet i here
      · have unmarked := fresh i there
        rw [Bool.eq_false_iff, Ne, marks, not_or] at unmarked
        exact Bool.eq_false_iff.mpr unmarked.2

theorem count_flatten_eq_one_iff {α : Type} [DecidableEq α] (walks : List (List α)) :
    (∀ a, walks.flatten.count a = 1) ↔ walks.flatten.Nodup ∧ ∀ a, a ∈ walks.flatten := by
  rw [List.nodup_iff_count_eq_one]
  refine ⟨fun each => ⟨fun a _ => each a, fun a => ?_⟩, fun ⟨once, all⟩ a => once a (all a)⟩
  rw [← List.count_pos_iff, each a]
  exact Nat.one_pos

theorem audit_iff_walks (p : Pool size n) (suspended : List Link) :
    p.audit suspended = true ↔
      ∃ walks, List.Forall₂ (Path p) (p.freeHead :: (p.links.toList ++ suspended)) walks ∧
        ∀ i, walks.flatten.count i = 1 := by
  have unseen (i : Fin size) : (Vector.replicate size false).get i = false :=
    Vector.getElem_replicate i.isLt
  have marked {after : Vector Bool size} {is : List (Fin size)}
      (marks : Marks (.replicate size false) after is) : after.all id = true ↔ ∀ i, i ∈ is := by
    simp only [Marks, unseen, Bool.false_eq_true, or_false] at marks
    simp only [Vector.all_eq_true, ← marks]
    exact ⟨fun all i => all i i.isLt, fun all i bound => all ⟨i, bound⟩⟩
  simp only [count_flatten_eq_one_iff, audit]
  constructor
  · intro passes
    split at passes
    · rename_i after walked
      obtain ⟨walks, paths, once, -, marks⟩ := visits_ran walked
      exact ⟨walks, paths, once, (marked marks).mp passes⟩
    · cases passes
  · rintro ⟨walks, paths, once, all⟩
    obtain ⟨after, walked, marks⟩ := visits_run paths once fun i _ => unseen i
    simp only [walked]
    exact (marked marks).mpr all

/-- A visit as an action, which reads each link where it stands. -/
def inspectFrom : Nat → Link → Vector Bool size → PoolM size n (Option (Vector Bool size))
  | 0, l, seen => return if l.isNull then some seen else none
  | bound + 1, l, seen => do
    if l.isNull then return some seen
    else
      match l.place? size with
      | none => return none
      | some i =>
        if seen.get i then return none
        else inspectFrom bound (← next l) (seen.put i true)

def inspectAll (bound : Nat) :
    List Link → Vector Bool size → PoolM size n (Option (Vector Bool size))
  | [], seen => return some seen
  | l :: rest, seen => do
    match ← inspectFrom bound l seen with
    | none => return none
    | some seen => inspectAll bound rest seen

/-- An audit as an action that would halt at a link out of the pool, if it followed one, and that
gives up a walk after `bound` steps. -/
def inspect (bound : Nat) (suspended : List Link) : PoolM size n Bool := do
  let p ← get
  match ← inspectAll bound (p.freeHead :: (p.links.toList ++ suspended))
      (.replicate size false) with
  | some seen => return seen.all id
  | none => return false

theorem inspectFrom_run (bound : Nat) (l : Link) (seen : Vector Bool size) (p : Pool size n) :
    inspectFrom bound l seen p = .ok (p.visit bound l seen) p := by
  induction bound generalizing l seen with
  | zero => rfl
  | succ bound ih =>
    cases null : l.isNull with
    | true =>
      simp only [inspectFrom, visit, null, if_true]
      rfl
    | false =>
      cases named : l.place? size with
      | none =>
        simp only [inspectFrom, visit, null, named, Bool.false_eq_true, if_false]
        rfl
      | some i =>
        cases met : seen.get i with
        | true =>
          simp only [inspectFrom, visit, null, named, met, Bool.false_eq_true, if_false, if_true]
          rfl
        | false =>
          simp only [inspectFrom, visit, null, named, met, Bool.false_eq_true, if_false,
            Action.bind_run, next_run_named p named, ih]

theorem inspectAll_run (extra : Nat) (starts : List Link) (seen : Vector Bool size)
    (p : Pool size n) : inspectAll (size + extra) starts seen p =
      .ok (starts.foldlM (fun seen l => p.visit size l seen) seen) p := by
  induction starts generalizing seen with
  | nil => rfl
  | cons l starts ih =>
    simp only [inspectAll, Action.bind_run, inspectFrom_run, visit_bound, List.foldlM_cons]
    cases p.visit size l seen with
    | none => rfl
    | some seen => exact ih seen

/-- Whatever the links are, an audit passes exactly if the walks from the free head, the cores and
the given heads all end and meet every segment once. It never halts, and no walk goes on for ever:
with any bound on their steps from the size of the pool on the answer is the same. -/
theorem audit_decides_partition (p : Pool size n) (suspended : List Link) :
    (p.audit suspended = true ↔
      ∃ walks, List.Forall₂ (Path p) (p.freeHead :: (p.links.toList ++ suspended)) walks ∧
        ∀ i, walks.flatten.count i = 1) ∧
    ∀ extra, inspect (size + extra) suspended p = .ok (p.audit suspended) p := by
  refine ⟨audit_iff_walks p suspended, fun extra => ?_⟩
  simp only [inspect, audit, Action.bind_run, Action.get_run, inspectAll_run]
  cases (p.freeHead :: (p.links.toList ++ suspended)).foldlM
    (fun seen l => p.visit size l seen) (Vector.replicate size false) <;> rfl

/-- The only segment leads on to itself. -/
example : ({
    segments := #v[{ link := .ofIndex 0 }]
    inUse := #v[true]
    freeHead := .null
    links := #v[.ofIndex 0] } : Pool 1 1).audit [] = false := by decide

end Preempt.Pool
