import Preempt.Proofs.Segment.Operations

/-!
The free list of a pool. A pool is well-formed if the free list ends in a null link, names each
free segment once, carries no flags, and the segments not on it are the ones in use. Each pool
operation keeps that (`WellFormed.push`, `pop`, `create`, `relink`), and a well-formed pool is
determined by its free list as far as free links and marks go. An operation that needs segments is
refused exactly when the list is too short, and then leaves no trace (`exhaustion_exact`). Only a
trap entry, which takes its two segments one by one, does if it finds just one
(`trap_entry_whole_iff`).
-/

namespace Preempt

/-- A link without flags. -/
def Link.Plain (l : Link) : Prop := l.address = l

instance (l : Link) : Decidable l.Plain := inferInstanceAs (Decidable (l.address = l))

theorem Link.Plain.eq {l k : Link} (plain : l.Plain) (plain' : k.Plain)
    (same : l.number = k.number) : l = k := by
  rw [← plain, ← plain', address, address, same]

theorem Link.number_eq_of_index? {l k : Link} (same : l.index? = k.index?) :
    l.number = k.number := by
  rcases l with ⟨⟨_ | a, _⟩, _, _, _⟩ <;> rcases k with ⟨⟨_ | b, _⟩, _, _, _⟩ <;>
    simp_all [index?]

namespace Pool

variable {size n : Nat} {p q : Pool size n} {l k : Link} {i j : Fin size}
  {is free rest : List (Fin size)}

structure WellFormed (p : Pool size n) (free : List (Fin size)) : Prop where
  path : Path p p.freeHead free
  once : free.Nodup
  inUse : ∀ i, p.inUse.get i = true ↔ i ∉ free
  plainHead : p.freeHead.Plain
  plain : ∀ i ∈ free, (p.segments.get i).link.Plain

/-- A list of segments in order determines the plain link that leads to them. -/
theorem Path.plain_eq (path : Path p l is) (path' : Path q k is) (plain : l.Plain)
    (plain' : k.Plain) : l = k := by
  refine plain.eq plain' (Link.number_eq_of_index? ?_)
  cases is with
  | nil =>
    rw [(Link.isNull_iff_index?_eq_none l).mp path.isNull,
      (Link.isNull_iff_index?_eq_none k).mp path'.isNull]
  | cons i is => rw [Link.index?_of_place? path.named, Link.index?_of_place? path'.named]

theorem Path.plain_links_eq (path : Path p l is) (path' : Path q k is)
    (plain : ∀ i ∈ is, (p.segments.get i).link.Plain)
    (plain' : ∀ i ∈ is, (q.segments.get i).link.Plain) :
    ∀ i ∈ is, (p.segments.get i).link = (q.segments.get i).link := by
  induction is generalizing l k with
  | nil => simp
  | cons i is ih =>
    have first := path.onward.plain_eq path'.onward (plain i (by simp)) (plain' i (by simp))
    have others := ih path.onward path'.onward (fun j inside => plain j (by simp [inside]))
      fun j inside => plain' j (by simp [inside])
    simpa using ⟨first, others⟩

namespace WellFormed

theorem free_iff (w : p.WellFormed free) : p.inUse.get i = false ↔ i ∈ free := by
  rw [← Bool.not_eq_true, w.inUse, not_not]

theorem ne_of_used (w : p.WellFormed free) (used : p.inUse.get i = true) (inside : j ∈ free) :
    i ≠ j := by
  rintro rfl
  exact (w.inUse i).mp used inside

/-- What is not free may change. -/
theorem congr (w : p.WellFormed free) (head : q.freeHead = p.freeHead) (marks : q.inUse = p.inUse)
    (same : ∀ i ∈ free, q.segments.get i = p.segments.get i) : q.WellFormed free where
  path := by
    rw [head]
    exact w.path.congr same
  once := w.once
  inUse i := by rw [marks, w.inUse]
  plainHead := by rw [head]; exact w.plainHead
  plain i inside := by rw [same i inside]; exact w.plain i inside

theorem relink (w : p.WellFormed free) (c : Fin n) {front : List (Fin size)}
    (apart : ∀ i ∈ front, i ∉ free) (head : Link) : (p.relink c front head).WellFormed free := by
  refine w.congr (by simp) (by simp) fun i inside => ?_
  exact segments_relink_of_not_mem p c front head fun there => apart i there inside

/-- Two pools with the same free list agree on all that makes it up. -/
theorem agree (w : p.WellFormed free) (w' : q.WellFormed free) :
    p.freeHead = q.freeHead ∧ (∀ i, p.inUse.get i = q.inUse.get i) ∧
      ∀ i ∈ free, (p.segments.get i).link = (q.segments.get i).link := by
  refine ⟨w.path.plain_eq w'.path w.plainHead w'.plainHead, fun i => ?_,
    w.path.plain_links_eq w'.path w.plain w'.plain⟩
  rw [Bool.eq_iff_iff, w.inUse, w'.inUse]

theorem fresh (small : size < segmentNumbers) :
    (Pool.fresh size n).WellFormed (List.finRange size) := by
  have path := Path.fresh (n := n) small size 0 (by omega)
  have linked (i : Fin size) : ((Pool.fresh size n).segments.get i).link =
      if i + 1 < size then Link.ofIndex (i + 1) else .null := by
    simp [Pool.fresh, Vector.get]
    rfl
  refine ⟨path, List.nodup_finRange size, by simp [Pool.fresh, Vector.get], ?_, fun i _ => ?_⟩
  · simp only [Pool.fresh]
    split <;> rfl
  · rw [linked]
    split <;> rfl

/-- The first free segment goes to the head of a core's chain. -/
theorem push (w : p.WellFormed (i :: rest)) (c : Fin n) (data : Vector Word dataWords)
    (upper enabled : Bool) :
    ∃ q, Pool.push c data upper enabled p = .ok (.ok p.freeHead) q ∧ q.WellFormed rest ∧
      q.links = p.links.put c (p.freeHead.withFlags upper enabled) ∧
      q.segments = p.segments.put i { link := p.links.get c, data } := by
  have ran := push_run c data upper enabled p w.path.named
  rw [w.plainHead] at ran
  have apart := (List.nodup_cons.mp w.once).1
  have same := get_put_of_not_mem p.segments apart { link := p.links.get c, data }
  refine ⟨_, ran, ⟨w.path.onward.congr same, (List.nodup_cons.mp w.once).2, fun k => ?_,
    w.plain i (by simp), fun k inside => ?_⟩, rfl, rfl⟩
  · by_cases taken : i = k
    · subst taken
      simpa using apart
    · simpa [Vector.get_put, taken, Ne.symm taken] using w.inUse k
  · rw [same k inside]
    exact w.plain k (by simp [inside])

theorem push_refused (w : p.WellFormed []) (c : Fin n) (data : Vector Word dataWords)
    (upper enabled : Bool) :
    Pool.push c data upper enabled p = .ok (.error .segmentsExhausted) p :=
  push_run_null c data upper enabled p w.path.isNull

/-- The head of a core's chain goes to the front of the free list. -/
theorem pop (w : p.WellFormed free) {c : Fin n} (named : (p.links.get c).place? size = some i)
    (used : i ∉ free) :
    ∃ q, Pool.pop c p = .ok (p.segments.get i) q ∧ q.WellFormed (i :: free) ∧
      q.links = p.links.put c (p.segments.get i).link ∧
      q.segments = p.segments.put i { p.segments.get i with link := p.freeHead } := by
  have ran := pop_run c p named ((w.inUse i).mpr used)
  have same := get_put_of_not_mem p.segments used { p.segments.get i with link := p.freeHead }
  refine ⟨_, ran, ⟨.cons (by simpa using named) ?_, List.nodup_cons.mpr ⟨used, w.once⟩,
    fun k => ?_, rfl, fun k inside => ?_⟩, rfl, rfl⟩
  · simpa using w.path.congr same
  · by_cases freed : i = k
    · subst freed
      simp
    · simpa [Vector.get_put, freed, Ne.symm freed] using w.inUse k
  · by_cases freed : k = i
    · subst freed
      simpa using w.plainHead
    · have inside := (List.mem_cons.mp inside).resolve_left freed
      rw [same k inside]
      exact w.plain k inside

/-- Two segments leave the free list for a new task. -/
theorem create (w : p.WellFormed (i :: j :: rest)) (sp entry argument : Word) :
    ∃ head tail q r, allocatePair p = .ok (.ok (head, tail)) q ∧
      writeInitial head tail sp entry argument q = .ok () r ∧ r.WellFormed rest ∧
      ∀ k, k ≠ i → k ≠ j → r.segments.get k = p.segments.get k := by
  have once := w.once
  simp only [List.nodup_cons, List.mem_cons, not_or] at once
  obtain ⟨⟨apart, notFirst⟩, notSecond, onceRest⟩ := once
  obtain ⟨head, tail, q, r, allocated, wrote, _, _, headed, _, _, _, old, used⟩ :=
    Sharing.create_run p w.path.named w.path.onward.named apart sp entry argument
  have same : ∀ k ∈ rest, r.segments.get k = p.segments.get k := by
    intro k inside
    refine old k ?_ ?_ <;> rintro rfl
    · exact notFirst inside
    · exact notSecond inside
  refine ⟨head, tail, q, r, allocated, wrote, ⟨?_, onceRest, fun k => ?_, ?_, fun k inside => ?_⟩,
    old⟩
  · rw [headed]
    exact w.path.onward.onward.congr same
  · rw [used]
    by_cases isSecond : j = k
    · subst isSecond
      simpa using notSecond
    · by_cases isFirst : i = k
      · subst isFirst
        simpa [isSecond] using notFirst
      · simpa [isFirst, isSecond, Ne.symm isFirst, Ne.symm isSecond] using w.inUse k
  · rw [headed]
    exact w.plain j (by simp)
  · rw [same k inside]
    exact w.plain k (by simp [inside])

theorem create_refused (w : p.WellFormed free) (short : free.length < 2) :
    allocatePair p = .ok (.error .segmentsExhausted) p := by
  rcases free with _ | ⟨i, _ | ⟨j, rest⟩⟩
  · exact allocatePair_run_null p w.path.isNull
  · exact allocatePair_run_one p w.path.named w.path.onward.isNull
  · simp only [List.length_cons] at short
    omega

end WellFormed

/-- An action that takes `need` segments off the free list, or is refused. `idle` relates a state to
those that a refusal may leave, and `ready` is what the action needs besides the segments. -/
structure Draws {σ α : Type} (pool : σ → Pool size n) (idle : σ → σ → Prop) (ready : Prop)
    (action : EStateM Halt σ (Except Refusal α)) (need : Nat) (s : σ) (free : List (Fin size)) :
    Prop where
  refused : (∃ s', action s = .ok (.error .segmentsExhausted) s') ↔ free.length < need
  spared : ∀ e s', action s = .ok (.error e) s' → e = .segmentsExhausted ∧ idle s s'
  completes : need ≤ free.length → ready → ∃ a s', action s = .ok (.ok a) s'
  drawn : ∀ a s', action s = .ok (.ok a) s' → need ≤ free.length ∧
    (pool s').WellFormed (free.drop need) ∧
    ∀ i, (pool s).inUse.get i = true → (pool s').segments.get i = (pool s).segments.get i

namespace Draws

variable {σ α : Type} {pool : σ → Pool size n} {idle : σ → σ → Prop} {ready : Prop}
  {action : EStateM Halt σ (Except Refusal α)} {need : Nat} {s s' : σ}

theorem of_refused (short : free.length < need)
    (ran : action s = .ok (.error .segmentsExhausted) s') (same : idle s s') :
    Draws pool idle ready action need s free := by
  refine ⟨⟨fun _ => short, fun _ => ⟨s', ran⟩⟩, fun e t again => ?_, fun long => ?_,
    fun a t again => ?_⟩
  · rw [ran] at again
    cases again
    exact ⟨rfl, same⟩
  · omega
  · rw [ran] at again
    cases again

theorem of_run {a : α} (long : need ≤ free.length) (ran : action s = .ok (.ok a) s')
    (w : (pool s').WellFormed (free.drop need))
    (kept : ∀ i, (pool s).inUse.get i = true →
      (pool s').segments.get i = (pool s).segments.get i) :
    Draws pool idle ready action need s free := by
  refine ⟨⟨fun ⟨t, again⟩ => ?_, fun short => ?_⟩, fun e t again => ?_, fun _ _ => ⟨a, s', ran⟩,
    fun b t again => ?_⟩
  · rw [ran] at again
    cases again
  · omega
  · rw [ran] at again
    cases again
  · rw [ran] at again
    cases again
    exact ⟨long, w, kept⟩

theorem of_halt {halt : Halt} (long : need ≤ free.length) (ran : action s = .error halt s')
    (unready : ¬ready) : Draws pool idle ready action need s free := by
  refine ⟨⟨fun ⟨t, again⟩ => ?_, fun short => ?_⟩, fun e t again => ?_, fun _ is => ?_,
    fun b t again => ?_⟩
  · rw [ran] at again
    cases again
  · omega
  · rw [ran] at again
    cases again
  · exact absurd is unready
  · rw [ran] at again
    cases again

end Draws

namespace WellFormed

theorem draws_push (w : p.WellFormed free) (c : Fin n) (data : Vector Word dataWords)
    (upper enabled : Bool) :
    Draws id Eq True (Pool.push c data upper enabled) 1 p free := by
  cases free with
  | nil => exact .of_refused (by simp) (w.push_refused c data upper enabled) rfl
  | cons i rest =>
    obtain ⟨q, ran, w', _, segments⟩ := w.push c data upper enabled
    refine .of_run (by simp) ran w' fun k used => ?_
    rw [id, id, segments, Vector.get_put_of_ne _ (w.ne_of_used used (by simp)).symm]

end WellFormed

end Pool

namespace Banks

variable {size n : Nat} {b : Banks size n} {i j : Fin size} {free rest : List (Fin size)}

/-- A bank goes to the first free segment. -/
theorem spillBank_drawn (w : b.pool.WellFormed (i :: rest)) (kind : BankKind) (c : Fin n)
    (enabled : Bool) :
    ∃ q, spillBank kind c enabled b = .ok (.ok ()) { b with pool := q } ∧ q.WellFormed rest ∧
      ∀ k, k ≠ i → q.segments.get k = b.pool.segments.get k := by
  obtain ⟨q, ran, w', _, segments⟩ :=
    w.push c (b.bankOf kind c).spill (kind = .upper) enabled
  refine ⟨q, spillBank_run kind ran, w', fun k apart => ?_⟩
  rw [segments, Vector.get_put_of_ne _ (Ne.symm apart)]

theorem spillBank_refused (w : b.pool.WellFormed []) (kind : BankKind) (c : Fin n)
    (enabled : Bool) :
    spillBank kind c enabled b = .ok (.error .segmentsExhausted) b :=
  spillBank_run kind (w.push_refused c _ _ _)

theorem draws_enterCall (w : b.pool.WellFormed free) (c : Fin n) :
    Pool.Draws (·.pool) Eq True (enterCall c) 1 b free := by
  cases free with
  | nil => exact .of_refused (by simp) (spillBank_refused w .upper c false) rfl
  | cons i rest =>
    obtain ⟨q, ran, w', old⟩ := spillBank_drawn w .upper c false
    exact .of_run (by simp) ran w' fun k used => old k (w.ne_of_used used (by simp))

theorem enterTrap_refused (w : b.pool.WellFormed []) (c : Fin n) (enabled : Bool) :
    enterTrap c enabled b = .ok (.error .segmentsExhausted) b := by
  simp only [enterTrap, Action.bind_run, spillBank_refused w]
  rfl

/-- With one free segment a trap entry spills the upper bank and is refused for the lower. -/
theorem enterTrap_half (w : b.pool.WellFormed [i]) (c : Fin n) (enabled : Bool) :
    ∃ q, enterTrap c enabled b = .ok (.error .segmentsExhausted) { b with pool := q } ∧
      q.WellFormed [] := by
  obtain ⟨q, upper, w', _⟩ := spillBank_drawn w .upper c enabled
  have lower := spillBank_refused (b := { b with pool := q }) w' .lower c enabled
  refine ⟨q, ?_, w'⟩
  simp only [enterTrap, Action.bind_run, upper, lower]

theorem enterTrap_drawn (w : b.pool.WellFormed (i :: j :: rest)) (c : Fin n) (enabled : Bool) :
    ∃ q, enterTrap c enabled b = .ok (.ok ()) { b with pool := q } ∧ q.WellFormed rest ∧
      ∀ k, k ≠ i → k ≠ j → q.segments.get k = b.pool.segments.get k := by
  obtain ⟨q, upper, w₁, first⟩ := spillBank_drawn w .upper c enabled
  obtain ⟨r, lower, w₂, second⟩ :=
    spillBank_drawn (b := { b with pool := q }) w₁ .lower c enabled
  refine ⟨r, ?_, w₂, fun k notFirst notSecond => ?_⟩
  · simp only [enterTrap, Action.bind_run, upper, lower]
  · rw [second k notSecond, first k notFirst]

end Banks

namespace Kernel

variable {size n : Nat} {free : List (Fin size)}

/-- Apart from the trace nothing has changed, the interrupt mask included. -/
def SameButTrace (k k' : Kernel (Banks size n) n) : Prop :=
  ∃ trace, k' = { k with board := { k.board with trace } }

theorem draws_createAt {k : Kernel (Banks size n) n} (w : k.storage.context.pool.WellFormed free)
    (sp entry argument : Word) :
    Pool.Draws (·.storage.context.pool) SameButTrace (∃ task, k.storage.tasks.Room task sp)
      (createAt sp entry argument) 2 k free := by
  by_cases short : free.length < 2
  · obtain ⟨trace, ran⟩ := createAt_run_refused sp entry argument (w.create_refused short)
    exact .of_refused short ran ⟨trace, rfl⟩
  · obtain ⟨i, j, rest, rfl⟩ : ∃ i j rest, free = i :: j :: rest := by
      rcases free with _ | ⟨i, _ | ⟨j, rest⟩⟩
      · simp at short
      · simp at short
      · exact ⟨i, j, rest, rfl⟩
    obtain ⟨head, tail, q, r, taken, written, w', old⟩ := w.create sp entry argument
    obtain ⟨trace, ran⟩ := createAt_run taken written
    cases pushed : Tasks.pushHead sp head 0 k.storage.tasks with
    | ok top ts =>
      simp only [pushed] at ran
      exact .of_run (by simp) ran w' fun m used =>
        old m (w.ne_of_used used (by simp)) (w.ne_of_used used (by simp))
    | error halt ts =>
      simp only [pushed] at ran
      refine .of_halt (by simp) ran ?_
      rintro ⟨task, room⟩
      obtain ⟨top, ts', pushed', _⟩ := Tasks.pushHead_run room head 0
      rw [pushed] at pushed'
      cases pushed'

end Kernel

/-- Spills, calls and new tasks are refused exactly when too few segments are free, and then change
nothing; else they take the first free segments and write no other. -/
theorem Pool.WellFormed.exhaustion_exact {size n : Nat} {p : Pool size n} {free : List (Fin size)}
    (w : p.WellFormed free) :
    (∀ (c : Fin n) data upper enabled,
      Draws id Eq True (Pool.push c data upper enabled) 1 p free) ∧
    (∀ b : Banks size n, b.pool = p → ∀ c : Fin n,
      Draws (·.pool) Eq True (Banks.enterCall c) 1 b free) ∧
    ∀ k : Kernel (Banks size n) n, k.storage.context.pool = p → ∀ sp entry argument,
      Draws (·.storage.context.pool) Kernel.SameButTrace (∃ task, k.storage.tasks.Room task sp)
        (Kernel.createAt sp entry argument) 2 k free := by
  refine ⟨w.draws_push, fun b here c => ?_, fun k here sp entry argument => ?_⟩
  · subst here
    exact Banks.draws_enterCall w c
  · subst here
    exact Kernel.draws_createAt w sp entry argument

/-- Of three segments a new task takes two. There is none for another task, but one for a call. -/
theorem Pool.WellFormed.exhaustion_exact_three_segments :
    ∃ (k k₁ k₂ : Kernel (Banks 3 1) 1) (top : Word) (b : Banks 3 1),
      Kernel.createAt (.stack 0 8) .null .null k = .ok (.ok top) k₁ ∧
      Kernel.createAt (.stack 0 8) .null .null k₁ = .ok (.error .segmentsExhausted) k₂ ∧
      k₁.SameButTrace k₂ ∧ Banks.enterCall 0 k₂.storage.context = .ok (.ok ()) b ∧
      b.pool.WellFormed [] := by
  obtain ⟨k, _, fresh, room⟩ : ∃ k : Kernel (Banks 3 1) 1,
      Kernel.boot 0 { queues := #v[[0]], stackSizes := #[8] } {} = .ok k ∧
      k.storage.context.pool = .fresh 3 1 ∧ k.storage.tasks.Room 0 (.stack 0 8) :=
    ⟨_, by with_unfolding_all rfl, rfl, 6, rfl, by with_unfolding_all rfl,
      by with_unfolding_all rfl⟩
  have three := Pool.WellFormed.fresh (n := 1) (show 3 < segmentNumbers by decide)
  have first := three.exhaustion_exact.2.2 k fresh (.stack 0 8) .null .null
  obtain ⟨top, k₁, created⟩ := first.completes (by simp) ⟨0, room⟩
  have one := (first.drawn top k₁ created).2.1
  have second := one.exhaustion_exact.2.2 k₁ rfl (.stack 0 8) .null .null
  obtain ⟨k₂, refused⟩ := second.refused.mpr (by simp)
  have idle := (second.spared _ k₂ refused).2
  have same : k₂.storage.context.pool = k₁.storage.context.pool := by
    obtain ⟨trace, rfl⟩ := idle
    rfl
  have call := one.exhaustion_exact.2.1 k₂.storage.context same 0
  obtain ⟨_, b, entered⟩ := call.completes (by simp) trivial
  exact ⟨k, k₁, k₂, top, b, created, refused, idle, entered, (call.drawn _ b entered).2.1⟩

/-- A trap entry is refused exactly if fewer than two segments are free. Unless there is exactly
one, it then leaves the banks and the pool as they were, for a later attempt too. Else it takes two
segments and writes no other. -/
theorem Pool.WellFormed.trap_entry_whole_iff {size n : Nat} {b : Banks size n}
    {free : List (Fin size)} (w : b.pool.WellFormed free) (c : Fin n) (enabled : Bool) :
    ((∃ b', Banks.enterTrap c enabled b = .ok (.error .segmentsExhausted) b') ↔
      free.length < 2) ∧
    ((∀ e b', Banks.enterTrap c enabled b = .ok (.error e) b' → b' = b ∧
      ∀ (α : Type) (later : BanksM size n α),
        (do let _ ← Banks.enterTrap c enabled; later) b = later b) ↔ free.length ≠ 1) ∧
    (2 ≤ free.length → ∃ b', Banks.enterTrap c enabled b = .ok (.ok ()) b' ∧
      b'.pool.WellFormed (free.drop 2) ∧
      ∀ i, b.pool.inUse.get i = true → b'.pool.segments.get i = b.pool.segments.get i) := by
  rcases free with _ | ⟨i, _ | ⟨j, rest⟩⟩
  · have refused := Banks.enterTrap_refused w c enabled
    refine ⟨⟨fun _ => by simp, fun _ => ⟨_, refused⟩⟩, ⟨fun _ => by simp, fun _ e b' ran => ?_⟩,
      fun long => ?_⟩
    · rw [refused] at ran
      cases ran
      exact ⟨rfl, fun α later => by simp only [Action.bind_run, refused]⟩
    · simp at long
  · obtain ⟨q, half, w'⟩ := Banks.enterTrap_half w c enabled
    refine ⟨⟨fun _ => by simp, fun _ => ⟨_, half⟩⟩, ⟨fun whole => ?_, fun notOne => ?_⟩,
      fun long => ?_⟩
    · -- The only free segment is taken, so the free list has changed.
      have same := congrArg (·.pool.freeHead) (whole _ _ half).1
      have taken := w'.path.isNull
      rw [same, Link.isNull_of_place? w.path.named] at taken
      cases taken
    · simp at notOne
    · simp at long
  · obtain ⟨q, entered, w', old⟩ := Banks.enterTrap_drawn w c enabled
    refine ⟨⟨fun ⟨b', ran⟩ => ?_, fun short => ?_⟩, ⟨fun _ => by simp, fun _ e b' ran => ?_⟩,
      fun _ => ⟨_, entered, w', fun k used =>
        old k (w.ne_of_used used (by simp)) (w.ne_of_used used (by simp))⟩⟩
    · rw [entered] at ran
      cases ran
    · simp only [List.length_cons] at short
      omega
    · rw [entered] at ran
      cases ran

/-- A trap inside another is refused for want of segments, and possible once the first has ended. -/
theorem Pool.WellFormed.trap_entry_whole_iff_retried : ∃ b₁ b₂ : Banks 2 1,
    Banks.enterTrap 0 true ({} : Banks 2 1) = .ok (.ok ()) b₁ ∧
    Banks.enterTrap 0 true b₁ = .ok (.error .segmentsExhausted) b₁ ∧
    (do let _ ← Banks.enterTrap 0 true; Banks.leaveTrap 0; Banks.enterTrap 0 true) b₁ =
      .ok (.ok ()) b₂ := by
  have two := Pool.WellFormed.fresh (n := 1) (show 2 < segmentNumbers by decide)
  obtain ⟨b₁, entered, none, _⟩ :=
    (trap_entry_whole_iff (b := {}) two 0 true).2.2 (by simp)
  obtain ⟨refused, whole, _⟩ := trap_entry_whole_iff none 0 true
  obtain ⟨b₁', again⟩ := refused.mpr (by simp)
  obtain ⟨rfl, retried⟩ := whole.mpr (by simp) _ _ again
  obtain ⟨b, b₂, first, second⟩ : ∃ b b₂ : Banks 2 1,
      Banks.enterTrap 0 true ({} : Banks 2 1) = .ok (.ok ()) b ∧
      (do Banks.leaveTrap 0; Banks.enterTrap 0 true) b = .ok (.ok ()) b₂ :=
    ⟨_, _, by with_unfolding_all rfl, by with_unfolding_all rfl⟩
  obtain rfl : b₁' = b := by
    injection entered.symm.trans first
  exact ⟨b₁', b₂, entered, again, (retried _ _).trans second⟩

/-- With one segment a refused trap entry takes it off the free list for the upper bank, which is
then at the head of the live chain. -/
theorem Banks.trap_entry_leaves_half : ∃ b' : Banks 1 1,
    ({} : Banks 1 1).pool.WellFormed [0] ∧
    Banks.enterTrap 0 true ({} : Banks 1 1) = .ok (.error .segmentsExhausted) b' ∧
    b'.pool.freeHead ≠ ({} : Banks 1 1).pool.freeHead ∧
    b'.pool.inUse ≠ ({} : Banks 1 1).pool.inUse ∧
    b'.pool.links ≠ ({} : Banks 1 1).pool.links := by
  refine ⟨{ pool := {
    segments := #v[{}]
    inUse := #v[true]
    freeHead := .null
    links := #v[(Link.ofIndex 0).withFlags true true] } }, Pool.WellFormed.fresh (by decide),
    by with_unfolding_all rfl, by decide, by decide, by decide⟩

end Preempt
