import Preempt.Proofs.Segment.FreeList
import Preempt.Proofs.Segment.Reclaiming

/-!
Giving back the chain from any link, in any well-formed pool. The check walks along the chain
before anything changes. It halts at a free segment and at a link that leaves the pool, unless the
walk has then passed as many segments as there are (`requireInUse_run_halts`). A chain in use that
ends in a null link goes in front of the free list as it is (`freeChain_exact`).
-/

namespace Preempt

namespace Pool

variable {size n : Nat} {p : Pool size n} {l m k : Link} {i j : Fin size}
  {is free : List (Fin size)}

theorem isInUse_congr (p : Pool size n) (same : l.number = k.number) :
    p.isInUse l = p.isInUse k := by
  simp only [isInUse, Link.place?, Link.index?, same]

/-- A walk to a segment can be cut short so that it meets each segment once. -/
theorem Leads.shorten (path : Leads p l is m) (named : m.place? size = some j) :
    ∃ js k, Leads p l js k ∧ k.place? size = some j ∧ (j :: js).Nodup := by
  -- By induction on the walk. If the shorter walk from the next segment comes back to this one,
  -- what it does before that is left out.
  induction path with
  | @here l => exact ⟨[], l, .here, named, by simp⟩
  | @step l m i is here _ ih =>
    by_cases arrived : i = j
    · exact ⟨[], l, .here, by rw [here, arrived], by simp⟩
    · obtain ⟨js, k, onward, ends, once⟩ := ih named
      by_cases again : i ∈ js
      · obtain ⟨front, back, rfl⟩ := List.append_of_mem again
        obtain ⟨r, _, rest⟩ := onward.of_append
        cases rest with
        | step _ rest =>
          refine ⟨i :: back, k, .step here rest, ends, once.sublist ?_⟩
          exact List.Sublist.cons_cons j (List.sublist_append_right front (i :: back))
      · refine ⟨i :: js, k, .step here onward, ends, ?_⟩
        simp only [List.nodup_cons, List.mem_cons, not_or] at once ⊢
        exact ⟨⟨Ne.symm arrived, once.1⟩, again, once.2⟩

/-- A link to no segment in use stops the check within its bound. -/
theorem requireInUse_run_halts {bound : Nat} (path : Leads p l is m) (short : is.length < bound)
    (present : m.isNull = false) (unused : p.isInUse m = false) :
    requireInUse bound l p = .error (.violation .releasedContextReclaimed) p := by
  induction is generalizing bound l m with
  | nil =>
    obtain ⟨bound, rfl⟩ := Nat.exists_eq_succ_of_ne_zero (Nat.ne_of_gt short)
    cases path
    simp only [requireInUse, present, Bool.false_eq_true, if_false, Action.bind_run,
      Action.get_run, unused]
    rfl
  | cons i is ih =>
    obtain ⟨bound, rfl⟩ := Nat.exists_eq_succ_of_ne_zero (Nat.ne_of_gt (Nat.zero_lt_of_lt short))
    cases path with
    | step named onward =>
      simp only [requireInUse, Link.isNull_of_place? named, Bool.false_eq_true, if_false,
        Action.bind_run, Action.get_run]
      cases used : p.isInUse l with
      | false => rfl
      | true =>
        obtain ⟨m', onward, same⟩ :=
          onward.renumber (k := (p.segments.get i).link.address) rfl fun _ _ => rfl
        simp only [if_true, Action.bind_run, next_run_named p named]
        refine ih onward (by simpa using short) ?_ ?_
        · simpa only [Link.isNull, same] using present
        · rw [isInUse_congr p same, unused]

/-- The same for a free segment, which a walk reaches in time. -/
theorem requireInUse_run_free (path : Leads p l is m) (named : m.place? size = some j)
    (unused : p.inUse.get j = false) :
    requireInUse size l p = .error (.violation .releasedContextReclaimed) p := by
  obtain ⟨js, k, path, ends, once⟩ := path.shorten named
  have short := once.length_le_card
  simp only [List.length_cons, Fintype.card_fin] at short
  refine requireInUse_run_halts path (by omega) (Link.isNull_of_place? ends) ?_
  simp only [isInUse, ends, unused]

namespace WellFormed

/-- The pool after a chain has been given back. -/
theorem giveBack (w : p.WellFormed free) {init : List (Fin size)} {last : Fin size}
    (path : Path p l (init ++ [last])) (plain : l.Plain)
    (used : ∀ j ∈ init ++ [last], p.inUse.get j = true) :
    ∃ tail q r, requireInUse size l p = .ok () p ∧
      unmarkFrom (size - 1) l 1 p = .ok (tail, (init ++ [last]).length) q ∧
      splice l tail q = .ok () r ∧ r.WellFormed (init ++ [last] ++ free) ∧ r.links = p.links ∧
      (∀ j, r.inUse.get j = if j ∈ init ++ [last] then false else p.inUse.get j) ∧
      (∀ j, (r.segments.get j).data = (p.segments.get j).data) ∧
      ∀ j, j ∉ init ++ [last] → r.segments.get j = p.segments.get j := by
  obtain ⟨tail, q, r, passes, unmarked, spliced, links, headed, inUse, segments⟩ :=
    giveBack_run_words path path.nodup used
  have apart : (init ++ [last]).Disjoint free := fun j inside there =>
    (w.inUse j).mp (used j inside) there
  have elsewhere (j : Fin size) (outside : j ∉ init ++ [last]) :
      r.segments.get j = p.segments.get j := by
    simp only [List.mem_append, List.mem_singleton, not_or] at outside
    rw [segments, if_neg outside.2, if_neg outside.1]
  have inFront (j : Fin size) (inside : j ∈ init) : (r.segments.get j).link =
      (p.segments.get j).link.address := by
    have notLast : j ≠ last := by
      rintro rfl
      have once := path.nodup
      simp only [List.nodup_append, List.mem_singleton, ne_eq, forall_eq] at once
      exact once.2.2 _ inside rfl
    rw [segments, if_neg notLast, if_pos inside]
  have atLast : (r.segments.get last).link = p.freeHead := by simp [segments]
  refine ⟨tail, q, r, passes, unmarked, spliced, ⟨?_, ?_, fun j => ?_, ?_, fun j inside => ?_⟩,
    links, inUse, fun j => ?_, elsewhere⟩
  · rw [headed]
    refine Path.append (path.redirect (fun j inside => ?_) atLast) (w.path.congr fun j inside => ?_)
    · rw [inFront j inside]
      rfl
    · exact elsewhere j fun there => apart there inside
  · exact List.nodup_append'.mpr ⟨path.nodup, w.once, apart⟩
  · rw [inUse]
    by_cases freed : j ∈ init ++ [last]
    · simp only [freed, if_true, List.mem_append (t := free), true_or, not_true_eq_false,
        Bool.false_eq_true]
    · simp only [freed, if_false, List.mem_append (t := free), false_or, w.inUse]
  · rw [headed]
    exact plain
  · rcases List.mem_append.mp inside with chained | there
    · rcases List.mem_append.mp chained with early | final
      · rw [inFront j early]
        rfl
      · rw [List.mem_singleton.mp final, atLast]
        exact w.plainHead
    · rw [elsewhere j fun chained => apart chained there]
      exact w.plain j there
  · rw [segments]
    split
    · rfl
    · split <;> rfl

end WellFormed

end Pool

namespace Kernel

variable {size n : Nat} {k : Kernel (Banks size n) n} {head : Link}

theorem freeChain_run_halted (present : head.isNull = false)
    (halted : Pool.requireInUse size head.address k.storage.context.pool =
      .error (.violation .releasedContextReclaimed) k.storage.context.pool) :
    freeChain head k = .error (.violation .releasedContextReclaimed) k := by
  simp only [freeChain, Link.isNull_address, present, Bool.false_eq_true, if_false,
    Action.bind_run, onPool, onStorage, Storage.onContext, Banks.onPool, halted]

/-- A chain goes back as it is, an empty one without a trace. A free segment on the walk, or a link
that leaves the pool before the walk has passed as many segments as there are, halts it before
anything has changed. -/
theorem freeChain_exact {free : List (Fin size)} (w : k.storage.context.pool.WellFormed free)
    (head : Link) :
    (head.isNull = true → freeChain head k = .ok () k) ∧
    (∀ is m, k.storage.context.pool.Leads head is m → m.isNull = false →
      k.storage.context.pool.isInUse m = false → m.place? size ≠ none ∨ is.length < size →
      freeChain head k = .error (.violation .releasedContextReclaimed) k) ∧
    ∀ chain, chain ≠ [] → k.storage.context.pool.Path head chain →
      (∀ i ∈ chain, k.storage.context.pool.inUse.get i = true) →
      ∃ (trace : Trace) (q : Pool size n), freeChain head k = .ok () { k with
          board := { k.board with
            trace := trace.push (.log (.reclaimed chain.length head.address)) }
          storage := Banks.withPool k.storage q } ∧
        q.WellFormed (chain ++ free) ∧ q.links = k.storage.context.pool.links ∧
        (∀ i, q.inUse.get i = if i ∈ chain then false else k.storage.context.pool.inUse.get i) ∧
        (∀ i, (q.segments.get i).data = (k.storage.context.pool.segments.get i).data) ∧
        ∀ i, i ∉ chain → q.segments.get i = k.storage.context.pool.segments.get i := by
  refine ⟨fun null => ?_, fun is m path present unused near => ?_, fun chain some path used => ?_⟩
  · simp only [freeChain, Link.isNull_address, null, if_true]
    rfl
  · obtain ⟨m', path', same⟩ := path.renumber (k := head.address) rfl fun _ _ => rfl
    have present' : head.isNull = false := by
      cases path with
      | here => exact present
      | step named _ => exact Link.isNull_of_place? named
    refine freeChain_run_halted present' ?_
    cases there : m.place? size with
    | some j =>
      refine Pool.requireInUse_run_free path' (j := j) ?_ ?_
      · simpa only [Link.place?, Link.index?, same] using there
      · simpa only [Pool.isInUse, there] using unused
    | none =>
      have short := near.resolve_left (not_not.mpr there)
      refine Pool.requireInUse_run_halts path' short ?_ ?_
      · simpa only [Link.isNull, same] using present
      · rw [Pool.isInUse_congr _ same, unused]
  · obtain ⟨init, last, rfl⟩ : ∃ init last, chain = init ++ [last] :=
      ⟨_, _, (List.dropLast_append_getLast some).symm⟩
    have present : head.isNull = false := by
      cases init with
      | nil => exact Link.isNull_of_place? path.named
      | cons i init => exact Link.isNull_of_place? path.named
    obtain ⟨tail, q, r, passes, unmarked, spliced, exact⟩ :=
      w.giveBack (l := head.address) (path.relabel rfl) rfl used
    obtain ⟨trace, ran⟩ := freeChain_run present passes unmarked spliced
    exact ⟨trace, r, ran, exact⟩

/-- Two segments in use go back, a second time they halt. -/
theorem freeChain_exact_twice : ∃ k k₁ : Kernel (Banks 3 1) 1,
    freeChain (.ofIndex 1) k = .ok () k₁ ∧
    k₁.storage.context.pool.WellFormed [1, 0, 2] ∧
    freeChain (.ofIndex 1) k₁ = .error (.violation .releasedContextReclaimed) k₁ := by
  obtain ⟨k, _, free, path, used⟩ : ∃ k : Kernel (Banks 3 1) 1,
      Kernel.boot 0 { queues := #v[[0]], stackSizes := #[] } { pool :=
        { segments := #v[{}, { link := (Link.ofIndex 0).withFlags true true }, {}]
          inUse := #v[true, true, false]
          freeHead := .ofIndex 2
          links := #v[.null] } } = .ok k ∧
      k.storage.context.pool.WellFormed [2] ∧
      k.storage.context.pool.Path (.ofIndex 1) [1, 0] ∧
      ∀ i ∈ [1, 0], k.storage.context.pool.inUse.get i = true :=
    ⟨_, by with_unfolding_all rfl, ⟨by decide, by decide, by decide, by decide, by decide⟩,
      by decide, by decide⟩
  obtain ⟨trace, q, ran, back, _, unused, _⟩ :=
    (freeChain_exact free (.ofIndex 1)).2.2 [1, 0] (by simp) path used
  refine ⟨k, _, ran, back, (freeChain_exact back (.ofIndex 1)).2.1 [] (.ofIndex 1) .here rfl ?_
    (Or.inr (by simp))⟩
  have first := unused 1
  exact first

/-- The only segment leads out of the pool. The walk has passed all segments before it comes to
that link, and the segment goes back. -/
theorem freeChain_misses_last_link :
    ∃ (k k' : Kernel (Banks 1 1) 1) (m : Link), k.storage.context.pool.WellFormed [] ∧
      k.storage.context.pool.Leads (.ofRaw 1) [0] m ∧ m.isNull = false ∧ m.place? 1 = none ∧
      freeChain (.ofRaw 1) k = .ok () k' ∧ k'.storage.context.pool.inUse.get 0 = false := by
  obtain ⟨k, k', _, ran, free, leads, unused⟩ : ∃ k k' : Kernel (Banks 1 1) 1,
      Kernel.boot 0 { queues := #v[[0]], stackSizes := #[] } { pool :=
        { segments := #v[{ link := .ofRaw 5 }]
          inUse := #v[true]
          freeHead := .null
          links := #v[.ofRaw 1] } } = .ok k ∧
      freeChain (.ofRaw 1) k = .ok () k' ∧
      k.storage.context.pool.WellFormed [] ∧
      k.storage.context.pool.Leads (.ofRaw 1) [0] (.ofRaw 5) ∧
      k'.storage.context.pool.inUse.get 0 = false :=
    ⟨_, _, by with_unfolding_all rfl, by with_unfolding_all rfl,
      ⟨by decide, by decide, by decide, by decide, by decide⟩, .step (by decide) .here, rfl⟩
  exact ⟨k, k', .ofRaw 5, free, leads, by decide, by decide, ran, unused⟩

end Kernel

end Preempt
