import Mathlib.Algebra.GroupWithZero.Nat
import Mathlib.Data.List.FinRange
import Mathlib.Data.List.Nodup
import Mathlib.Logic.Function.Basic
import Preempt.Segment.Pool.Runs

/-!
Chains of segments as lists. `Leads` follows links, `Path` follows them to a null link, and
`Fits` reads the spilled contexts off the segments that were met. Both only look at the listed
segments. `Partition` says that every segment is on exactly one list, once, and `Division` that all
are but the lost ones; segments that move from one list to another keep it (`Division.transfer`).
-/

namespace Preempt

/-- Who a segment of the pool belongs to. -/
inductive Owner (n : Nat) where
  | free
  | live (c : Fin n)
  | saved (task : TaskId)
deriving DecidableEq

/-- A context on a chain: the upper bank of a call, or both banks at an interrupt or a trap. -/
inductive Spill where
  | call (upper : Vector Word dataWords)
  | trap (enabled : Bool) (upper lower : Vector Word dataWords)
deriving DecidableEq

def Spill.isCall : Spill → Bool
  | call _ => true
  | trap .. => false

/-- Segments that the context takes. -/
def Spill.segments : Spill → Nat
  | call _ => 1
  | trap .. => 2

/-- Every thing is on exactly one owner's list, once. -/
structure Partition {ω α : Type} (share : ω → List α) : Prop where
  nodup : ∀ o, (share o).Nodup
  unique : ∀ a, ∃! o, a ∈ share o

/-- Every thing is on exactly one owner's list, once, but for the lost ones, which are on none. -/
structure Division {ω α : Type} (share : ω → List α) (lost : List α) : Prop where
  nodup : ∀ o, (share o).Nodup
  unique : ∀ a, a ∉ lost → ∃! o, a ∈ share o
  absent : ∀ a ∈ lost, ∀ o, a ∉ share o
  once : lost.Nodup

namespace Division

variable {ω α : Type} {share share' : ω → List α} {lost : List α}

theorem not_lost (parts : Division share lost) {a : α} {o : ω} (here : a ∈ share o) : a ∉ lost :=
  fun gone => parts.absent a gone o here

theorem owner_eq (parts : Division share lost) {a : α} {o o' : ω} (here : a ∈ share o)
    (there : a ∈ share o') : o = o' := (parts.unique a (parts.not_lost here)).unique here there

theorem not_mem (parts : Division share lost) {a : α} {o o' : ω} (here : a ∈ share o)
    (apart : o' ≠ o) : a ∉ share o' := fun there => apart (parts.owner_eq there here)

theorem partition (parts : Division share []) : Partition share :=
  ⟨parts.nodup, fun a => parts.unique a List.not_mem_nil⟩

/-- What moves from one list to another leaves a division, in whatever order it is put. -/
theorem transfer (parts : Division share lost) (source target : ω) (moved : List α)
    (apart : target ≠ source) (taken : (share source).Perm (moved ++ share' source))
    (given : (share' target).Perm (moved ++ share target))
    (others : ∀ o, o ≠ source → o ≠ target → share' o = share o) : Division share' lost := by
  have fromSource (a : α) : a ∈ share source ↔ a ∈ moved ∨ a ∈ share' source := by
    rw [taken.mem_iff, List.mem_append]
  have toTarget (a : α) : a ∈ share' target ↔ a ∈ moved ∨ a ∈ share target := by
    rw [given.mem_iff, List.mem_append]
  have split := List.nodup_append'.mp (taken.nodup_iff.mp (parts.nodup source))
  have movedOnce (a : α) (h : a ∈ moved) : a ∉ share target :=
    parts.not_mem ((fromSource a).mpr (Or.inl h)) apart
  have same (a : α) (stays : a ∉ moved) (o' : ω) : a ∈ share' o' ↔ a ∈ share o' := by
    by_cases atSource : o' = source
    · subst atSource
      rw [fromSource]
      exact ⟨Or.inr, fun h => h.resolve_left stays⟩
    · by_cases atTarget : o' = target
      · subst atTarget
        rw [toTarget]
        exact ⟨fun h => h.resolve_left stays, Or.inr⟩
      · rw [others o' atSource atTarget]
  constructor
  · intro o
    by_cases atSource : o = source
    · subst atSource
      exact split.2.1
    · by_cases atTarget : o = target
      · subst atTarget
        rw [given.nodup_iff, List.nodup_append']
        exact ⟨split.1, parts.nodup o, fun a h => movedOnce a h⟩
      · rw [others o atSource atTarget]
        exact parts.nodup o
  · intro a here
    obtain ⟨o, owns, only⟩ := parts.unique a here
    by_cases moves : a ∈ moved
    · refine ⟨target, (toTarget a).mpr (Or.inl moves), fun o' owns' => ?_⟩
      by_contra elsewhere
      by_cases atSource : o' = source
      · subst atSource
        exact split.2.2 moves owns'
      · replace owns' : a ∈ share' o' := owns'
        rw [others o' atSource elsewhere] at owns'
        exact atSource (parts.owner_eq owns' ((fromSource a).mpr (Or.inl moves)))
    · exact ⟨o, (same a moves o).mpr owns, fun o' owns' => only o' ((same a moves o').mp owns')⟩
  · intro a gone o here
    have stays : a ∉ moved := fun moves =>
      parts.absent a gone source ((fromSource a).mpr (Or.inl moves))
    exact parts.absent a gone o ((same a stays o).mp here)
  · exact parts.once

/-- What one owner drops is lost. -/
theorem drop (parts : Division share lost) (source : ω) (dropped : share' source = [])
    (others : ∀ o, o ≠ source → share' o = share o) :
    Division share' (share source ++ lost) := by
  have same (a : α) (stays : a ∉ share source) (o : ω) : a ∈ share' o ↔ a ∈ share o := by
    by_cases atSource : o = source
    · subst atSource
      simp [dropped, stays]
    · rw [others o atSource]
  constructor
  · intro o
    by_cases atSource : o = source
    · rw [atSource, dropped]
      exact List.nodup_nil
    · rw [others o atSource]
      exact parts.nodup o
  · intro a here
    rw [List.mem_append, not_or] at here
    obtain ⟨o, owns, only⟩ := parts.unique a here.2
    exact ⟨o, (same a here.1 o).mpr owns, fun o' owns' => only o' ((same a here.1 o').mp owns')⟩
  · intro a gone o here
    by_cases atSource : o = source
    · simp [atSource, dropped] at here
    · rw [others o atSource] at here
      rcases List.mem_append.mp gone with owned | before
      · exact parts.not_mem owned atSource here
      · exact parts.absent a before o here
  · refine List.nodup_append'.mpr ⟨parts.nodup source, parts.once, fun a owned gone => ?_⟩
    exact parts.absent a gone source owned

end Division

namespace Pool

variable {size n : Nat} {p q : Pool size n} {l m k : Link} {i : Fin size}
  {is js : List (Fin size)}

/-- Following the links of the segments `is` from `l` arrives at the link `m`. -/
inductive Leads (p : Pool size n) : Link → List (Fin size) → Link → Prop
  | here {l : Link} : Leads p l [] l
  | step {l m : Link} {i : Fin size} {is : List (Fin size)} (named : l.place? size = some i)
      (onward : Leads p (p.segments.get i).link is m) : Leads p l (i :: is) m

namespace Leads

theorem append (first : Leads p l is m) (second : Leads p m js k) : Leads p l (is ++ js) k := by
  induction first with
  | here => exact second
  | step named _ ih => exact .step named (ih second)

theorem of_append (whole : Leads p l (is ++ js) k) : ∃ m, Leads p l is m ∧ Leads p m js k := by
  induction is generalizing l with
  | nil => exact ⟨l, .here, whole⟩
  | cons i is ih =>
    cases whole with
    | step named onward =>
      obtain ⟨m, first, second⟩ := ih onward
      exact ⟨m, .step named first, second⟩

theorem congr (path : Leads p l is m) (same : ∀ i ∈ is, q.segments.get i = p.segments.get i) :
    Leads q l is m := by
  induction path with
  | here => exact .here
  | @step l m i is named _ ih =>
    refine .step named ?_
    rw [same i (by simp)]
    exact ih fun j inside => same j (by simp [inside])

/-- Only the number of the first link counts. -/
theorem relabel (path : Leads p l (i :: is) m) (same : k.number = l.number) :
    Leads p k (i :: is) m := by
  cases path with
  | step named onward =>
    refine .step ?_ onward
    rw [← named]
    simp only [Link.place?, Link.index?, same]

theorem follow_run (path : Leads p l is m) : follow is.length l p = .ok m p := by
  induction path with
  | here => rfl
  | @step l m i is named _ ih =>
    simp only [List.length_cons, follow, Action.bind_run, next_run_named p named]
    exact ih

end Leads

/-- The links of the segments `is` from `l` end in a null link. -/
def Path (p : Pool size n) (l : Link) (is : List (Fin size)) : Prop :=
  ∃ m, Leads p l is m ∧ m.isNull = true

namespace Path

theorem nil (null : l.isNull = true) : Path p l [] := ⟨l, .here, null⟩

theorem cons (named : l.place? size = some i) (onward : Path p (p.segments.get i).link is) :
    Path p l (i :: is) := by
  obtain ⟨m, path, null⟩ := onward
  exact ⟨m, .step named path, null⟩

theorem congr (path : Path p l is) (same : ∀ i ∈ is, q.segments.get i = p.segments.get i) :
    Path q l is := by
  obtain ⟨m, path, null⟩ := path
  exact ⟨m, path.congr same, null⟩

theorem isNull (path : Path p l []) : l.isNull = true := by
  obtain ⟨m, path, null⟩ := path
  cases path
  exact null

theorem named (path : Path p l (i :: is)) : l.place? size = some i := by
  obtain ⟨m, path, _⟩ := path
  cases path with
  | step named _ => exact named

theorem onward (path : Path p l (i :: is)) : Path p (p.segments.get i).link is := by
  obtain ⟨m, path, null⟩ := path
  cases path with
  | step _ onward => exact ⟨m, onward, null⟩

/-- Flags and spare bits of the first link do not count. -/
theorem relabel (path : Path p l is) (same : k.number = l.number) : Path p k is := by
  obtain ⟨m, path, null⟩ := path
  cases is with
  | nil =>
    cases path
    refine nil ?_
    simpa only [Link.isNull, same] using null
  | cons i is => exact ⟨m, path.relabel same, null⟩

theorem append (first : Leads p l is m) (second : Path p m js) : Path p l (is ++ js) := by
  obtain ⟨k, second, null⟩ := second
  exact ⟨k, first.append second, null⟩

theorem of_append (whole : Path p l (is ++ js)) : ∃ m, Leads p l is m ∧ Path p m js := by
  obtain ⟨k, whole, null⟩ := whole
  obtain ⟨m, first, second⟩ := whole.of_append
  exact ⟨m, first, k, second, null⟩

/-- The chain from a link is determined by the link. -/
theorem unique (first : Path p l is) (second : Path p l js) : is = js := by
  induction is generalizing l js with
  | nil =>
    cases js with
    | nil => rfl
    | cons j js =>
      have named := second.named
      rw [Link.place?_of_isNull first.isNull] at named
      cases named
  | cons i is ih =>
    cases js with
    | nil =>
      have named := first.named
      rw [Link.place?_of_isNull second.isNull] at named
      cases named
    | cons j js =>
      obtain rfl : i = j := Option.some.inj (first.named.symm.trans second.named)
      rw [ih first.onward second.onward]

/-- A chain that ends meets no segment twice. -/
theorem nodup (path : Path p l is) : is.Nodup := by
  induction is generalizing l with
  | nil => exact List.nodup_nil
  | cons i is ih =>
    refine List.nodup_cons.mpr ⟨fun again => ?_, ih path.onward⟩
    obtain ⟨front, back, rfl⟩ := List.append_of_mem again
    obtain ⟨k, _, rest⟩ := path.onward.of_append
    have same := path.onward.unique rest.onward
    have longer := congrArg List.length same
    simp at longer
    omega

end Path

theorem path_nil_iff : Path p l [] ↔ l.isNull = true := ⟨Path.isNull, .nil⟩

theorem path_cons_iff {i : Fin size} :
    Path p l (i :: is) ↔ l.place? size = some i ∧ Path p (p.segments.get i).link is :=
  ⟨fun path => ⟨path.named, path.onward⟩, fun ⟨named, onward⟩ => .cons named onward⟩

instance decidablePath (p : Pool size n) : (l : Link) → (is : List (Fin size)) →
    Decidable (Path p l is)
  | _, [] => decidable_of_iff _ path_nil_iff.symm
  | _, i :: is =>
    have := decidablePath p (p.segments.get i).link is
    decidable_of_iff _ path_cons_iff.symm

/-- The free list of a fresh pool names its segments in order. -/
theorem Path.fresh (small : size < segmentNumbers) (rest first : Nat) (all : first + rest = size) :
    Path (.fresh size n) (if first < size then .ofIndex first else .null)
      ((List.finRange size).drop first) := by
  induction rest generalizing first with
  | zero =>
    rw [if_neg (by omega), List.drop_eq_nil_of_le (by simp; omega)]
    exact nil rfl
  | succ rest ih =>
    have inside : first < size := by omega
    have onward := ih (first + 1) (by omega)
    rw [if_pos inside, List.drop_eq_getElem_cons (by simpa using inside)]
    refine cons ?_ ?_
    · simp [Link.place?, Link.index?_ofIndex (show first + 1 < segmentNumbers by omega), inside]
    · have linked (i : Fin size) : ((Pool.fresh size n).segments.get i).link =
          if i + 1 < size then Link.ofIndex (i + 1) else .null := by
        simp [Pool.fresh, Vector.get]
        rfl
      simpa [linked] using onward

/-- The segments `is`, in order, hold the contexts of a list. -/
inductive Fits (p : Pool size n) : List (Fin size) → List Spill → Prop
  | nil : Fits p [] []
  | call {i : Fin size} {is : List (Fin size)} {upper : Vector Word dataWords}
      {spills : List Spill} (data : (p.segments.get i).data = upper) (below : Fits p is spills) :
      Fits p (i :: is) (.call upper :: spills)
  | trap {i j : Fin size} {is : List (Fin size)} {enabled : Bool}
      {upper lower : Vector Word dataWords} {spills : List Spill}
      (lowerData : (p.segments.get i).data = lower)
      (flag : (p.segments.get i).link.enabled = enabled)
      (upperData : (p.segments.get j).data = upper) (below : Fits p is spills) :
      Fits p (i :: j :: is) (.trap enabled upper lower :: spills)

namespace Fits

variable {spills more : List Spill} {enabled : Bool} {upper lower : Vector Word dataWords}

theorem congr (fits : Fits p is spills) (same : ∀ i ∈ is, q.segments.get i = p.segments.get i) :
    Fits q is spills := by
  induction fits with
  | nil => exact .nil
  | @call i is upper spills data _ ih =>
    refine .call ?_ (ih fun j inside => same j (by simp [inside]))
    rw [same i (by simp), data]
  | @trap i j is enabled upper lower spills lowerData flag upperData _ ih =>
    refine .trap ?_ ?_ ?_ (ih fun k inside => same k (by simp [inside]))
    · rw [same i (by simp), lowerData]
    · rw [same i (by simp), flag]
    · rw [same j (by simp), upperData]

theorem append (first : Fits p is spills) (second : Fits p js more) :
    Fits p (is ++ js) (spills ++ more) := by
  induction first with
  | nil => exact second
  | call data _ ih => exact .call data ih
  | trap lowerData flag upperData _ ih => exact .trap lowerData flag upperData ih

theorem of_append (whole : Fits p is (spills ++ more)) :
    ∃ front back, is = front ++ back ∧ Fits p front spills ∧ Fits p back more := by
  induction spills generalizing is with
  | nil => exact ⟨[], is, rfl, .nil, whole⟩
  | cons spill spills ih =>
    cases whole with
    | call data below =>
      obtain ⟨front, back, rfl, first, second⟩ := ih below
      exact ⟨_ :: front, back, rfl, .call data first, second⟩
    | trap lowerData flag upperData below =>
      obtain ⟨front, back, rfl, first, second⟩ := ih below
      exact ⟨_ :: _ :: front, back, rfl, .trap lowerData flag upperData first, second⟩

theorem length_eq (fits : Fits p is spills) : is.length = (spills.map Spill.segments).sum := by
  induction fits with
  | nil => rfl
  | call _ _ ih =>
    simp only [List.length_cons, List.map_cons, List.sum_cons, Spill.segments, ih]
    omega
  | trap _ _ _ _ ih =>
    simp only [List.length_cons, List.map_cons, List.sum_cons, Spill.segments, ih]
    omega

/-- A call takes one segment. -/
theorem length_calls (fits : Fits p is spills) (calls : ∀ s ∈ spills, s.isCall = true) :
    is.length = spills.length := by
  induction fits with
  | nil => rfl
  | call _ _ ih =>
    simp only [List.length_cons, ih fun s inside => calls s (by simp [inside])]
  | trap _ _ _ _ _ =>
    have isCall := calls _ (List.mem_cons_self)
    simp [Spill.isCall] at isCall

/-- Calls read nothing but data, so their links may change. -/
theorem congr_calls (fits : Fits p is spills) (calls : ∀ s ∈ spills, s.isCall = true)
    (same : ∀ i ∈ is, (q.segments.get i).data = (p.segments.get i).data) : Fits q is spills := by
  induction fits with
  | nil => exact .nil
  | @call i is upper spills data _ ih =>
    refine .call ?_ (ih (fun s inside => calls s (by simp [inside]))
      fun j inside => same j (by simp [inside]))
    rw [same i (by simp), data]
  | trap _ _ _ _ _ =>
    have isCall := calls _ (List.mem_cons_self)
    simp [Spill.isCall] at isCall

/-- The two segments of a trap are a call's segment each, but for the flag between them. -/
theorem trap_iff : Fits p is (.trap enabled upper lower :: spills) ↔
    Fits p is (.call lower :: .call upper :: spills) ∧
      ∀ i ∈ is.head?, (p.segments.get i).link.enabled = enabled := by
  constructor
  · intro fits
    cases fits with
    | trap lowerData flag upperData below =>
      exact ⟨.call lowerData (.call upperData below), by simpa using flag⟩
  · rintro ⟨fits, flag⟩
    cases fits with
    | call lowerData below =>
      cases below with
      | call upperData below => exact .trap lowerData (by simpa using flag) upperData below

end Fits

end Pool

end Preempt
