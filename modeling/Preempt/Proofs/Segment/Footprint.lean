import Preempt.Proofs.Segment.Handover
import Preempt.Proofs.Undisturbed

/-!
What a core touches of the pool. Spilling a bank takes a segment off the free list, reloading one
gives the head of the core's own chain back, and a restore writes one link: the link register of the
core, or the link of a segment on its own chain. `Pool.Apart` names the segments that may have
changed.
-/

namespace Preempt

open Preempt.Action

variable {size n : Nat} {c : Fin n}

namespace Pool

variable {p q r : Pool size n} {touched : List (Fin size)}

/-- Core `c` has changed no segments but the ones that are named, and of the link registers only its
own. -/
structure Apart (c : Fin n) (touched : List (Fin size)) (p q : Pool size n) : Prop where
  links : ∀ d, d ≠ c → q.links.get d = p.links.get d
  segments : ∀ i, i ∉ touched → q.segments.get i = p.segments.get i
  inUse : ∀ i, i ∉ touched → q.inUse.get i = p.inUse.get i

namespace Apart

theorem refl (p : Pool size n) : p.Apart c touched p :=
  ⟨fun _ _ => rfl, fun _ _ => rfl, fun _ _ => rfl⟩

theorem trans (first : p.Apart c touched q) (second : q.Apart c touched r) :
    p.Apart c touched r where
  links d other := (second.links d other).trans (first.links d other)
  segments i outside := (second.segments i outside).trans (first.segments i outside)
  inUse i outside := (second.inUse i outside).trans (first.inUse i outside)

theorem mono {more : List (Fin size)} (apart : p.Apart c touched q) (sub : touched ⊆ more) :
    p.Apart c more q where
  links := apart.links
  segments i outside := apart.segments i fun inside => outside (sub inside)
  inUse i outside := apart.inUse i fun inside => outside (sub inside)

end Apart

variable {l m : Link} {is free live : List (Fin size)}

theorem reads_next (l : Link) : Ensures Eq (next l : PoolM size n Link) := by
  intro p a q ran
  rw [next_run] at ran
  split at ran <;> cases ran
  rfl

theorem reads_segment (l : Link) : Ensures Eq (segment l : PoolM size n Segment) := by
  intro p a q ran
  rw [segment_run] at ran
  split at ran <;> cases ran
  rfl

theorem reads_follow (count : Nat) (l : Link) :
    Ensures Eq (follow count l : PoolM size n Link) := by
  induction count generalizing l with
  | zero => exact ensures_pure _
  | succ count ih => exact (reads_next l).bind fun _ => ih _

theorem reads_chain (core : CoreId) : Ensures Eq (chain core : PoolM size n Link) := by
  intro p a q ran
  unfold chain at ran
  split at ran <;> cases ran
  rfl

theorem reads_interruptedTask (core : CoreId) (depth : TrapDepth) :
    Ensures Eq (interruptedTask core depth : PoolM size n Link) :=
  ensures_ite (reads_chain core)
    (((reads_chain core).bind fun _ => reads_follow _ _).bind fun _ => reads_next _)

theorem reads_suspendedPointer (lower : Link) :
    Ensures Eq (suspendedPointer lower : PoolM size n Word) :=
  (reads_next lower).bind fun _ => (reads_segment _).bind fun _ => ensures_pure _

theorem reads_resumesEnabled (head : Link) : Ensures Eq (resumesEnabled head : PoolM size n Bool) :=
  (reads_next head).bind fun _ => ensures_pure _

/-- A walk that completes along a chain has not left it. -/
theorem follow_ran {count : Nat} (path : Path p l is) (ran : follow count l p = .ok m q) :
    q = p ∧ ∃ js, Path p m js ∧ js ⊆ is := by
  induction count generalizing l is with
  | zero =>
    cases ran
    exact ⟨rfl, is, path, List.Subset.refl _⟩
  | succ count ih =>
    obtain ⟨link, p₁, stepped, ran⟩ := ran_of_bind ran
    cases is with
    | nil =>
      simp only [next_run, next?, segment?, Link.place?_of_isNull path.isNull, Option.map_none]
        at stepped
      cases stepped
    | cons i is =>
      rw [next_run_named p path.named] at stepped
      cases stepped
      obtain ⟨same, js, onward, sub⟩ := ih path.onward ran
      exact ⟨same, js, onward, fun j inside => List.mem_cons_of_mem i (sub inside)⟩

/-- A core that is made to return into another chain writes one link on its own chain, if not its
link register. -/
theorem resumeAt_ran {depth : TrapDepth} {head : Link} {u : Unit}
    (path : Path p (p.links.get c) live) (ran : resumeAt c depth head p = .ok u q) :
    p.Apart c live q := by
  unfold resumeAt at ran
  split at ran
  · rw [setChain_run] at ran
    cases ran
    exact ⟨fun d other => Vector.get_put_of_ne _ other.symm _, fun _ _ => rfl, fun _ _ => rfl⟩
  · obtain ⟨m, p₁, found, written⟩ := ran_of_bind ran
    obtain ⟨start, p₂, started, walked⟩ := ran_of_bind found
    rw [chain_run] at started
    cases started
    obtain ⟨rfl, js, onward, sub⟩ := follow_ran path walked
    cases js with
    | nil =>
      simp only [writeLink, bind_run, place, Link.place?_of_isNull onward.isNull] at written
      cases written
    | cons j js =>
      rw [writeLink_run head _ onward.named] at written
      cases written
      refine ⟨fun _ _ => rfl, fun i outside => ?_, fun _ _ => rfl⟩
      rw [segments_setLink, if_neg]
      rintro rfl
      exact outside (sub List.mem_cons_self)

/-- A push takes the first free segment, if there is one. -/
theorem push_ran {data : Vector Word dataWords} {upper enabled : Bool}
    {answer : Except Refusal Link}
    (path : Path p p.freeHead free) (once : free.Nodup)
    (ran : push c data upper enabled p = .ok answer q) :
    p.Apart c free q ∧ ∃ rest, rest ⊆ free ∧ rest.Nodup ∧ Path q q.freeHead rest := by
  cases free with
  | nil =>
    rw [push_run_null c data upper enabled p path.isNull] at ran
    cases ran
    exact ⟨.refl p, [], List.Subset.refl _, once, path⟩
  | cons i rest =>
    rw [push_run c data upper enabled p path.named] at ran
    cases ran
    refine ⟨⟨fun d other => Vector.get_put_of_ne _ other.symm _, fun j outside => ?_,
      fun j outside => ?_⟩, rest, List.subset_cons_self i rest, once.of_cons, ?_⟩
    · exact Vector.get_put_of_ne _ (fun same => outside (by simp [same])) _
    · exact Vector.get_put_of_ne _ (fun same => outside (by simp [same])) _
    · refine path.onward.congr fun j inside => Vector.get_put_of_ne _ ?_ _
      rintro rfl
      exact (List.nodup_cons.mp once).1 inside

/-- A pop gives back the head of the core's own chain. -/
theorem pop_ran {s : Segment} (path : Path p (p.links.get c) live) (once : live.Nodup)
    (ran : pop c p = .ok s q) :
    p.Apart c live q ∧ ∃ rest, rest ⊆ live ∧ rest.Nodup ∧ Path q (q.links.get c) rest := by
  cases used : p.isInUse (p.links.get c) with
  | false =>
    rw [pop_run_free c p used] at ran
    cases ran
  | true =>
    obtain ⟨i, named, marked⟩ := (isInUse_eq_true_iff p _).mp used
    cases live with
    | nil =>
      rw [Link.place?_of_isNull path.isNull] at named
      cases named
    | cons j rest =>
      obtain rfl : j = i := Option.some.inj (path.named.symm.trans named)
      rw [pop_run c p named marked] at ran
      cases ran
      refine ⟨⟨fun d other => Vector.get_put_of_ne _ other.symm _, fun k outside => ?_,
        fun k outside => ?_⟩, rest, List.subset_cons_self j rest, once.of_cons, ?_⟩
      · exact Vector.get_put_of_ne _ (fun same => outside (by simp [same])) _
      · exact Vector.get_put_of_ne _ (fun same => outside (by simp [same])) _
      · rw [Vector.get_put_self]
        refine path.onward.congr fun k inside => Vector.get_put_of_ne _ ?_ _
        rintro rfl
        exact (List.nodup_cons.mp once).1 inside

end Pool

namespace Banks

variable {b b' b₁ b₂ : Banks size n} {touched free live : List (Fin size)}

/-- The banks of the cores other than `c` are as they were, and the pool but for some segments. -/
structure Apart (c : Fin n) (touched : List (Fin size)) (b b' : Banks size n) : Prop where
  upper : ∀ d, d ≠ c → b'.upper.get d = b.upper.get d
  lower : ∀ d, d ≠ c → b'.lower.get d = b.lower.get d
  trapPending : ∀ d, d ≠ c → b'.trapPending.get d = b.trapPending.get d
  pool : b.pool.Apart c touched b'.pool

theorem Apart.trans (first : b.Apart c touched b₁) (second : b₁.Apart c touched b₂) :
    b.Apart c touched b₂ where
  upper d other := (second.upper d other).trans (first.upper d other)
  lower d other := (second.lower d other).trans (first.lower d other)
  trapPending d other := (second.trapPending d other).trans (first.trapPending d other)
  pool := first.pool.trans second.pool

theorem apart_of_pool {q : Pool size n} (pool : b.pool.Apart c touched q) :
    b.Apart c touched { b with pool := q } :=
  ⟨fun _ _ => rfl, fun _ _ => rfl, fun _ _ => rfl, pool⟩

theorem apart_withBank (kind : BankKind) (new : Bank) :
    b.Apart c touched (b.withBank kind c new) := by
  cases kind <;>
    refine ⟨fun d other => ?_, fun d other => ?_, fun _ _ => rfl, .refl _⟩ <;>
    first
      | rfl
      | exact Vector.get_put_of_ne _ other.symm _

theorem onPool_ran {α : Type} {action : PoolM size n α} {a : α}
    (ran : onPool action b = .ok a b') :
    ∃ q, action b.pool = .ok a q ∧ b' = { b with pool := q } := by
  unfold onPool at ran
  split at ran <;> cases ran
  exact ⟨_, ‹_›, rfl⟩

theorem spillBank_ran {kind : BankKind} {enabled : Bool} {answer : Except Refusal Unit}
    (path : Pool.Path b.pool b.pool.freeHead free) (once : free.Nodup)
    (ran : spillBank kind c enabled b = .ok answer b') :
    b.Apart c free b' ∧
      ∃ rest, rest ⊆ free ∧ rest.Nodup ∧ Pool.Path b'.pool b'.pool.freeHead rest := by
  obtain ⟨old, _, read, acted⟩ := ran_of_bind ran
  rw [bank_run] at read
  cases read
  obtain ⟨pushed, _, spilled, ends⟩ := ran_of_bind acted
  obtain ⟨q, taken, rfl⟩ := onPool_ran spilled
  obtain ⟨apart, rest⟩ := Pool.push_ran path once taken
  cases pushed <;> cases ends <;> exact ⟨apart_of_pool apart, rest⟩

theorem reloadBank_ran {kind : BankKind} {u : Unit}
    (path : Pool.Path b.pool (b.pool.links.get c) live) (once : live.Nodup)
    (ran : reloadBank kind c b = .ok u b') :
    b.Apart c live b' ∧
      ∃ rest, rest ⊆ live ∧ rest.Nodup ∧ Pool.Path b'.pool (b'.pool.links.get c) rest := by
  obtain ⟨old, _, read, acted⟩ := ran_of_bind ran
  rw [bank_run] at read
  cases read
  obtain ⟨segment, _, popped, loads⟩ := ran_of_bind acted
  obtain ⟨q, given, rfl⟩ := onPool_ran popped
  obtain ⟨apart, rest⟩ := Pool.pop_ran path once given
  rw [setBank_run] at loads
  cases loads
  refine ⟨(apart_of_pool apart).trans (apart_withBank kind _), ?_⟩
  cases kind <;> exact rest

/-- A trap takes its segments off the free list. -/
theorem enterTrap_ran {enabled : Bool} {answer : Except Refusal Unit}
    (path : Pool.Path b.pool b.pool.freeHead free) (once : free.Nodup)
    (ran : enterTrap c enabled b = .ok answer b') : b.Apart c free b' := by
  obtain ⟨first, b₁, spilled, ran⟩ := ran_of_bind ran
  obtain ⟨apart, rest, sub, once', path'⟩ := spillBank_ran path once spilled
  cases first with
  | error refusal =>
    cases ran
    exact apart
  | ok u =>
    obtain ⟨apart', _⟩ := spillBank_ran path' once' ran
    exact apart.trans ⟨apart'.upper, apart'.lower, apart'.trapPending, apart'.pool.mono sub⟩

/-- A return from a trap gives back segments of the core's own chain. -/
theorem leaveTrap_ran {u : Unit} (path : Pool.Path b.pool (b.pool.links.get c) live)
    (once : live.Nodup) (ran : leaveTrap c b = .ok u b') : b.Apart c live b' := by
  obtain ⟨_, b₁, reloaded, ran⟩ := ran_of_bind ran
  obtain ⟨apart, rest, sub, once', path'⟩ := reloadBank_ran path once reloaded
  obtain ⟨apart', _⟩ := reloadBank_ran path' once' ran
  exact apart.trans ⟨apart'.upper, apart'.lower, apart'.trapPending, apart'.pool.mono sub⟩

end Banks

end Preempt
