import Preempt.Proofs.Segment.Joining

/-!
Calls that match. Pushes and pops of all cores come in any order. A pop matches a push of the same
core if what the core does in between is nested (`Nested`). In every pool of a run the live chains
are apart from each other and from the free list (`Kept.Wired.stacked`), so what other cores do
leaves a core's chain alone (`Access.moved`), and so does what is nested (`Nested.keeps`). A pop
therefore finds the words and the link register of the push that it matches (`pops_match`). The
chain of a core and the free list are the two halves of a tape on which the core moves
(`Access.Moves.tape`): a core that acts alone and comes back to where it was has the free list in
its order again.
-/

namespace Preempt

open Function (update update_self update_of_ne)

variable {size n : Nat}

namespace Pool

variable {p q : Pool size n} {c d : Fin n} {i : Fin size} {chains : Fin n → List (Fin size)}
  {free rest : List (Fin size)}

/-- The live chains of the cores and the free list. No segment is on two of them. -/
structure Stacked (p : Pool size n) (chains : Fin n → List (Fin size)) (free : List (Fin size)) :
    Prop where
  whole : p.WellFormed free
  path : ∀ c, p.Path (p.links.get c) (chains c)
  used : ∀ c, ∀ i ∈ chains c, i ∉ free
  apart : ∀ c d, c ≠ d → ∀ i ∈ chains c, i ∉ chains d

/-- A core finds its link register and the segments of its live chain as they were. -/
structure SameChain (p q : Pool size n) (c : Fin n) (chain : List (Fin size)) : Prop where
  register : q.links.get c = p.links.get c
  segments : ∀ i ∈ chain, q.segments.get i = p.segments.get i

theorem SameChain.trans {r : Pool size n} {chain : List (Fin size)} (first : p.SameChain q c chain)
    (second : q.SameChain r c chain) : p.SameChain r c chain :=
  ⟨second.register.trans first.register, fun i inside =>
    (second.segments i inside).trans (first.segments i inside)⟩

namespace Stacked

/-- The first free segment goes to the head of the core's chain. -/
theorem push (s : p.Stacked chains (i :: rest)) (c : Fin n) (data : Vector Word dataWords)
    (upper enabled : Bool) :
    ∃ q, Pool.push c data upper enabled p = .ok (.ok p.freeHead) q ∧
      q.Stacked (update chains c (i :: chains c)) rest ∧
      q.segments.get i = { link := p.links.get c, data } ∧
      (∀ d, ∀ k ∈ chains d, q.segments.get k = p.segments.get k) ∧
      ∀ d, d ≠ c → q.links.get d = p.links.get d := by
  obtain ⟨q, ran, w, links, segments⟩ := s.whole.push c data upper enabled
  have fresh (d : Fin n) : i ∉ chains d := fun there => s.used d i there (by simp)
  have onlyFirst : i ∉ rest := (List.nodup_cons.mp s.whole.once).1
  have member (d : Fin n) (k : Fin size) :
      k ∈ update chains c (i :: chains c) d ↔ d = c ∧ k = i ∨ k ∈ chains d := by
    by_cases mine : d = c
    · subst mine
      simp
    · simp [mine]
  have first : q.segments.get i = { link := p.links.get c, data } := by simp [segments]
  have same (d : Fin n) : ∀ k ∈ chains d, q.segments.get k = p.segments.get k := by
    rw [segments]
    exact get_put_of_not_mem _ (fresh d) _
  have others (d : Fin n) (other : d ≠ c) : q.links.get d = p.links.get d := by
    rw [links, Vector.get_put_of_ne _ (Ne.symm other)]
  refine ⟨q, ran, ⟨w, fun d => ?_, fun d k inside => ?_, fun d e other k inside => ?_⟩, first, same,
    others⟩
  · by_cases mine : d = c
    · subst mine
      rw [update_self, links, Vector.get_put_self]
      refine .cons (by simpa using s.whole.path.named) ?_
      rw [first]
      exact (s.path d).congr (same d)
    · rw [update_of_ne mine, others d mine]
      exact (s.path d).congr (same d)
  · rcases (member d k).mp inside with ⟨-, rfl⟩ | there
    · exact onlyFirst
    · exact fun later => s.used d k there (by simp [later])
  · rw [member]
    rcases (member d k).mp inside with ⟨rfl, rfl⟩ | there
    · simpa [Ne.symm other] using fresh e
    · rintro (⟨-, rfl⟩ | also)
      · exact fresh d there
      · exact s.apart d e other k there also

/-- The head of the core's chain goes to the front of the free list. -/
theorem pop (s : p.Stacked chains free) (top : chains c = i :: rest) :
    ∃ q, Pool.pop c p = .ok (p.segments.get i) q ∧ q.Stacked (update chains c rest) (i :: free) ∧
      q.links.get c = (p.segments.get i).link ∧
      (∀ d, ∀ k ∈ update chains c rest d, q.segments.get k = p.segments.get k) ∧
      ∀ d, d ≠ c → q.links.get d = p.links.get d := by
  have path := s.path c
  rw [top] at path
  have mine : i ∈ chains c := by simp [top]
  have once : i ∉ rest := (List.nodup_cons.mp path.nodup).1
  obtain ⟨q, ran, w, links, segments⟩ := s.whole.pop path.named (s.used c i mine)
  have member (d : Fin n) (k : Fin size) (inside : k ∈ update chains c rest d) :
      k ∈ chains d ∧ k ≠ i := by
    by_cases here : d = c
    · subst here
      rw [update_self] at inside
      refine ⟨by simp [top, inside], ?_⟩
      rintro rfl
      exact once inside
    · rw [update_of_ne here] at inside
      refine ⟨inside, ?_⟩
      rintro rfl
      exact s.apart c d (Ne.symm here) k mine inside
  have same (d : Fin n) : ∀ k ∈ update chains c rest d, q.segments.get k = p.segments.get k := by
    intro k inside
    rw [segments, Vector.get_put_of_ne _ (Ne.symm (member d k inside).2)]
  have others (d : Fin n) (other : d ≠ c) : q.links.get d = p.links.get d := by
    rw [links, Vector.get_put_of_ne _ (Ne.symm other)]
  have register : q.links.get c = (p.segments.get i).link := by rw [links, Vector.get_put_self]
  refine ⟨q, ran, ⟨w, fun d => ?_, fun d k inside => ?_, fun d e other k inside => ?_⟩, register,
    same, others⟩
  · by_cases here : d = c
    · subst here
      rw [register]
      simpa using path.onward.congr (by simpa using same d)
    · have kept := same d
      rw [update_of_ne here] at kept ⊢
      rw [others d here]
      exact (s.path d).congr kept
  · obtain ⟨there, notHead⟩ := member d k inside
    simpa [notHead] using s.used d k there
  · exact fun also => s.apart d e other k (member d k inside).1 (member e k also).1

theorem fresh (small : size < segmentNumbers) :
    (Pool.fresh size n).Stacked (fun _ => []) (List.finRange size) where
  whole := .fresh small
  path c := .nil (by simp [Pool.fresh, Vector.get]; rfl)
  used := by simp
  apart := by simp

theorem pop_refused (s : p.Stacked chains free) (empty : chains c = []) :
    Pool.pop c p = .error (.violation .releasedContextRestored) p := by
  have path := s.path c
  rw [empty] at path
  refine pop_run_free c p ?_
  simp only [isInUse, Link.place?_of_isNull path.isNull]

end Stacked

end Pool

/-- In the pools of a run the live chains are stacked. -/
theorem Kept.Wired.stacked {p : Pool size n} {ts : Tasks} {L : Ledger n} {lost : List (Fin size)}
    {heads : TaskId → Link} {share : Owner n → List (Fin size)}
    (held : Wired p ts L lost heads share) :
    p.Stacked (fun c => share (.live c)) (share .free) where
  whole := held.wired.free
  path c := held.shared.path (.live c)
  used _ _ inside := held.shared.parts.not_mem inside (by simp)
  apart _ _ other _ inside := held.shared.parts.not_mem inside (by simpa using Ne.symm other)

namespace Banks

variable {b b₀ b₁ b' : Banks size n} {kind : BankKind} {c d : Fin n} {enabled : Bool} {i : Fin size}
  {chains : Fin n → List (Fin size)} {free rest : List (Fin size)}

/-- What a core does with its banks: it spills one onto its live chain, reloads one from there, or
writes a register. A call is a spill of the upper bank and a trap entry one of each bank; returns
reload. -/
inductive Access (n : Nat) where
  | spill (kind : BankKind) (c : Fin n) (enabled : Bool)
  | reload (kind : BankKind) (c : Fin n)
  | write (kind : BankKind) (c : Fin n) (index : Nat) (value : Word)

namespace Access

def core : Access n → Fin n
  | spill _ c _ => c
  | reload _ c => c
  | write _ c _ _ => c

def isSpill (c : Fin n) : Access n → Bool
  | spill _ d _ => d = c
  | reload _ _ => false
  | write _ _ _ _ => false

def isReload (c : Fin n) : Access n → Bool
  | spill _ _ _ => false
  | reload _ d => d = c
  | write _ _ _ _ => false

def perform : Access n → BanksM size n (Except Refusal Unit)
  | spill kind c enabled => spillBank kind c enabled
  | reload kind c => do
    reloadBank kind c
    return .ok ()
  | write kind c index value => do
    setRegister kind c index value
    return .ok ()

end Access

/-- All accesses complete, one after the other. -/
inductive Accessing : Banks size n → List (Access n) → Banks size n → Prop
  | done {b : Banks size n} : Accessing b [] b
  | next {b b₁ b' : Banks size n} {a : Access n} {more : List (Access n)}
      (ran : a.perform b = .ok (.ok ()) b₁) (rest : Accessing b₁ more b') :
      Accessing b (a :: more) b'

/-- Each spill of a core is followed by the reload that matches it, whatever the other cores do. -/
inductive Nested (c : Fin n) : List (Access n) → Prop
  | nil : Nested c []
  | skip {a : Access n} {more : List (Access n)} (spill : a.isSpill c = false)
      (reload : a.isReload c = false) (rest : Nested c more) : Nested c (a :: more)
  | pair {kind kind' : BankKind} {enabled : Bool} {inner more : List (Access n)}
      (within : Nested c inner) (rest : Nested c more) :
      Nested c (.spill kind c enabled :: (inner ++ .reload kind' c :: more))

/-- The number of times that a core spills a bank. -/
def spills (c : Fin n) (accesses : List (Access n)) : Nat := accesses.countP (·.isSpill c)

def reloads (c : Fin n) (accesses : List (Access n)) : Nat := accesses.countP (·.isReload c)

section Counts

variable (c d : Fin n) (a : Access n) (more : List (Access n)) (kind : BankKind) (enabled : Bool)

@[simp] theorem spills_nil : spills c [] = 0 := rfl

@[simp] theorem reloads_nil : reloads c [] = 0 := rfl

theorem spills_cons : spills c (a :: more) = spills c more + if a.isSpill c then 1 else 0 :=
  List.countP_cons

theorem reloads_cons : reloads c (a :: more) = reloads c more + if a.isReload c then 1 else 0 :=
  List.countP_cons

@[simp] theorem spills_spill :
    spills d (.spill kind c enabled :: more) = spills d more + if c = d then 1 else 0 := by
  simp [spills_cons, Access.isSpill]

@[simp] theorem spills_reload : spills d (.reload kind c :: more) = spills d more := rfl

@[simp] theorem reloads_spill :
    reloads d (.spill kind c enabled :: more) = reloads d more := rfl

@[simp] theorem reloads_reload :
    reloads d (.reload kind c :: more) = reloads d more + if c = d then 1 else 0 := by
  simp [reloads_cons, Access.isReload]

@[simp] theorem spills_append (first : List (Access n)) :
    spills c (first ++ more) = spills c first + spills c more := List.countP_append

@[simp] theorem reloads_append (first : List (Access n)) :
    reloads c (first ++ more) = reloads c first + reloads c more := List.countP_append

end Counts

theorem Accessing.append {first second : List (Access n)} (run : Accessing b first b₁)
    (run' : Accessing b₁ second b') : Accessing b (first ++ second) b' := by
  induction run with
  | done => exact run'
  | next ran _ ih => exact .next ran (ih run')

theorem Accessing.of_append {first second : List (Access n)}
    (run : Accessing b (first ++ second) b') :
    ∃ b₁, Accessing b first b₁ ∧ Accessing b₁ second b' := by
  induction first generalizing b with
  | nil => exact ⟨b, .done, run⟩
  | cons a first ih =>
    cases run with
    | next ran rest =>
      obtain ⟨b₁, run, run'⟩ := ih rest
      exact ⟨b₁, .next ran run, run'⟩

/-- A spill that completes has found a free segment. -/
theorem of_spillBank (s : b.pool.Stacked chains free)
    (ran : spillBank kind c enabled b = .ok (.ok ()) b') :
    ∃ i rest, free = i :: rest ∧ b'.pool.Stacked (update chains c (i :: chains c)) rest ∧
      b'.pool.segments.get i =
        { link := b.pool.links.get c, data := (b.bankOf kind c).spill } ∧
      (∀ d, ∀ k ∈ chains d, b'.pool.segments.get k = b.pool.segments.get k) ∧
      (∀ d, d ≠ c → b'.pool.links.get d = b.pool.links.get d) ∧
      ∀ kind d, b'.bankOf kind d = b.bankOf kind d := by
  cases free with
  | nil =>
    rw [spillBank_refused s.whole] at ran
    cases ran
  | cons i rest =>
    obtain ⟨q, pushed, s', first, kept, others⟩ :=
      s.push c (b.bankOf kind c).spill (kind = .upper) enabled
    rw [spillBank_run kind pushed] at ran
    cases ran
    exact ⟨i, rest, rfl, s', first, kept, others, fun kind d => by cases kind <;> rfl⟩

/-- A reload takes the head of the live chain. -/
theorem reloadBank_top (s : b.pool.Stacked chains free) (top : chains c = i :: rest)
    (kind : BankKind) :
    ∃ b', reloadBank kind c b = .ok () b' ∧
      b'.pool.Stacked (update chains c rest) (i :: free) ∧
      (b'.bankOf kind c).spill = (b.pool.segments.get i).data ∧
      (∀ other, other ≠ kind → b'.bankOf other c = b.bankOf other c) ∧
      b'.pool.links.get c = (b.pool.segments.get i).link ∧
      (∀ d, ∀ k ∈ update chains c rest d, b'.pool.segments.get k = b.pool.segments.get k) ∧
      ∀ d, d ≠ c → b'.pool.links.get d = b.pool.links.get d := by
  obtain ⟨q, popped, s', register, kept, others⟩ := s.pop top
  refine ⟨_, reloadBank_run kind popped, by simpa using s', by simp, fun other apart => ?_,
    by simpa using register, by simpa using kept, by simpa using others⟩
  rw [bankOf_withBank_of_ne _ apart]
  rfl

theorem reloadBank_refused (s : b.pool.Stacked chains free) (empty : chains c = [])
    (kind : BankKind) :
    reloadBank kind c b = .error (.violation .releasedContextRestored) b := by
  simp only [reloadBank, Action.bind_run, bank_run, onPool, s.pop_refused empty]

/-- What an access can do to the chains and the free list. -/
inductive Access.Moves (chains : Fin n → List (Fin size)) :
    List (Fin size) → Access n → (Fin n → List (Fin size)) → List (Fin size) → Prop
  | spilled {kind : BankKind} {c : Fin n} {enabled : Bool} {i : Fin size} {rest : List (Fin size)} :
      Moves chains (i :: rest) (.spill kind c enabled) (update chains c (i :: chains c)) rest
  | reloaded {kind : BankKind} {c : Fin n} {i : Fin size} {rest free : List (Fin size)}
      (top : chains c = i :: rest) :
      Moves chains free (.reload kind c) (update chains c rest) (i :: free)
  | written {kind : BankKind} {c : Fin n} {index : Nat} {value : Word} {free : List (Fin size)} :
      Moves chains free (.write kind c index value) chains free

theorem setRegister_pool {index : Nat} {value : Word}
    (ran : setRegister kind c index value b = .ok () b') : b'.pool = b.pool := by
  simp only [setRegister, Action.bind_run, bank_run] at ran
  split at ran
  · rw [setBank_run] at ran
    cases ran
    simp
  · cases ran

/-- An access that completes moves at most one segment between a chain and the free list. A core
that has no part in it keeps its chain. -/
theorem Access.moved {a : Access n} (s : b.pool.Stacked chains free)
    (ran : a.perform b = .ok (.ok ()) b') :
    ∃ chains' free', Moves chains free a chains' free' ∧ b'.pool.Stacked chains' free' ∧
      ∀ c, a.isSpill c = false → a.isReload c = false →
        chains' c = chains c ∧ b.pool.SameChain b'.pool c (chains c) := by
  cases a with
  | spill kind d enabled =>
    obtain ⟨i, rest, rfl, s', _, kept, others, _⟩ := of_spillBank s ran
    refine ⟨_, rest, .spilled, s', fun c other _ => ?_⟩
    have apart : c ≠ d := by
      rintro rfl
      simp [isSpill] at other
    exact ⟨update_of_ne apart _ _, others c apart, kept c⟩
  | reload kind d =>
    cases top : chains d with
    | nil =>
      simp only [perform, Action.bind_run, reloadBank_refused s top] at ran
      cases ran
    | cons i rest =>
      obtain ⟨b₁, reloaded, s', _, _, _, kept, others⟩ := reloadBank_top s top kind
      simp only [perform, Action.bind_run, reloaded, Action.pure_run] at ran
      cases ran
      refine ⟨_, _, .reloaded top, s', fun c _ other => ?_⟩
      have apart : c ≠ d := by
        rintro rfl
        simp [isReload] at other
      have same := kept c
      rw [update_of_ne apart] at same
      exact ⟨update_of_ne apart _ _, others c apart, same⟩
  | write kind d index value =>
    have pool : b'.pool = b.pool := by
      simp only [perform, Action.bind_run] at ran
      split at ran
      · rename_i written
        cases ran
        exact setRegister_pool written
      · cases ran
    refine ⟨chains, free, .written, by rw [pool]; exact s, fun c _ _ => ⟨rfl, ?_⟩⟩
    rw [pool]
    exact ⟨rfl, fun _ _ => rfl⟩

theorem Access.Moves.length {a : Access n} {chains' : Fin n → List (Fin size)}
    {free' : List (Fin size)} (moves : a.Moves chains free chains' free') (c : Fin n) :
    (chains' c).length + reloads c [a] = (chains c).length + spills c [a] := by
  cases moves with
  | @spilled kind d enabled i rest =>
    by_cases mine : d = c
    · subst mine
      simp
    · simp [mine, update_of_ne (Ne.symm mine)]
  | @reloaded kind d i rest free top =>
    by_cases mine : d = c
    · subst mine
      simp [top]
    · simp [mine, update_of_ne (Ne.symm mine)]
  | written => rfl

/-- The chain of a core and the free list are the two halves of a tape on which the core moves. -/
theorem Access.Moves.tape {a : Access n} {chains' : Fin n → List (Fin size)}
    {free' : List (Fin size)} (moves : a.Moves chains free chains' free') :
    (chains' a.core).reverse ++ free' = (chains a.core).reverse ++ free := by
  cases moves with
  | spilled => simp [core]
  | reloaded top => simp [core, top]
  | written => rfl

/-- What a run of accesses leaves of the chains and the free list. -/
theorem Accessing.stacked {accesses : List (Access n)} (run : Accessing b accesses b')
    (s : b.pool.Stacked chains free) :
    ∃ chains' free', b'.pool.Stacked chains' free' ∧
      (∀ c, (chains' c).length + reloads c accesses = (chains c).length + spills c accesses) ∧
      ∀ c, (∀ a ∈ accesses, a.core = c) →
        (chains' c).reverse ++ free' = (chains c).reverse ++ free := by
  induction run generalizing chains free with
  | done => exact ⟨chains, free, s, fun _ => rfl, fun _ _ => rfl⟩
  | @next b b₁ b' a more ran rest ih =>
    obtain ⟨chains₁, free₁, moves, s₁, _⟩ := a.moved s ran
    obtain ⟨chains', free', s', lengths, tape⟩ := ih s₁
    refine ⟨chains', free', s', fun c => ?_, fun c mine => ?_⟩
    · have first := moves.length c
      have others := lengths c
      rw [spills_cons, reloads_cons] at first ⊢
      simp only [spills_nil, reloads_nil] at first
      omega
    · rw [tape c fun a inside => mine a (by simp [inside])]
      obtain rfl := mine a (by simp)
      exact moves.tape

namespace Nested

variable {accesses more : List (Access n)}

theorem append (first : Nested c accesses) (second : Nested c more) :
    Nested c (accesses ++ more) := by
  induction first with
  | nil => exact second
  | skip spill reload _ ih => exact .skip spill reload ih
  | pair within _ _ ih =>
    rw [List.cons_append, List.append_assoc, List.cons_append]
    exact .pair within ih

theorem spills_eq (nested : Nested c accesses) : spills c accesses = reloads c accesses := by
  induction nested with
  | nil => rfl
  | skip spill reload _ ih => simp [spills_cons, reloads_cons, spill, reload, ih]
  | pair _ _ within rest =>
    simp only [spills_spill, reloads_spill, spills_append, reloads_append, spills_reload,
      reloads_reload, if_true, within, rest]
    omega

/-- What is nested leaves the chain of the core as it was. -/
theorem keeps (nested : Nested c accesses) (run : Accessing b accesses b')
    (s : b.pool.Stacked chains free) :
    ∃ chains' free', b'.pool.Stacked chains' free' ∧ chains' c = chains c ∧
      b.pool.SameChain b'.pool c (chains c) := by
  induction nested generalizing b b' chains free with
  | nil =>
    cases run
    exact ⟨chains, free, s, rfl, rfl, fun _ _ => rfl⟩
  | skip spill reload _ ih =>
    cases run with
    | next ran rest =>
      obtain ⟨chains₁, free₁, _, s₁, passes⟩ := Access.moved s ran
      obtain ⟨same₁, kept₁⟩ := passes c spill reload
      obtain ⟨chains', free', s', same, kept⟩ := ih rest s₁
      rw [same₁] at same kept
      exact ⟨chains', free', s', same, kept₁.trans kept⟩
  | @pair kind kind' enabled inner more _ _ within rest =>
    cases run with
    | next spilled run =>
      obtain ⟨b₂, run₂, run⟩ := run.of_append
      cases run with
      | next reloaded run =>
        obtain ⟨i, free₁, rfl, s₁, first, kept₁, _⟩ := of_spillBank s spilled
        obtain ⟨chains₂, free₂, s₂, same₂, kept₂⟩ := within run₂ s₁
        rw [update_self] at same₂ kept₂
        obtain ⟨b₃, ran, s₃, _, _, register, kept₃, _⟩ := reloadBank_top s₂ same₂ kind'
        simp only [Access.perform, Action.bind_run, ran, Action.pure_run] at reloaded
        cases reloaded
        obtain ⟨chains', free', s', same, kept⟩ := rest run s₃
        rw [update_self] at same kept
        refine ⟨chains', free', s', same, .trans ⟨?_, fun k inside => ?_⟩ kept⟩
        · rw [register, kept₂.segments i (by simp), first]
        · rw [kept₃ c k (by simpa using inside), kept₂.segments k (by simp [inside]),
            kept₁ c k inside]

/-- A spill that no later reload has matched is the start of what is nested up to the end. -/
theorem exists_unmatched (c : Fin n) (accesses : List (Access n))
    (more : reloads c accesses < spills c accesses) :
    ∃ before kind enabled inner, accesses = before ++ .spill kind c enabled :: inner ∧
      Nested c inner := by
  -- By induction on the length, from the end: a reload there ends a nested part, and what is before
  -- that part is shorter.
  induction h : accesses.length using Nat.strong_induction_on generalizing accesses with
  | _ length ih =>
    subst h
    rcases List.eq_nil_or_concat accesses with rfl | ⟨front, last, rfl⟩
    · simp at more
    · rw [List.concat_eq_append] at more ih ⊢
      simp only [spills_append, reloads_append, spills_cons, reloads_cons, spills_nil,
        reloads_nil] at more
      cases spilled : last.isSpill c with
      | true =>
        cases last with
        | spill kind d enabled =>
          obtain rfl : d = c := by simpa [Access.isSpill] using spilled
          exact ⟨front, kind, enabled, [], rfl, .nil⟩
        | reload => cases spilled
        | write => cases spilled
      | false =>
        obtain ⟨before, kind, enabled, inner, rfl, within⟩ := ih front.length (by simp) front (by
          rw [spilled] at more
          simp only [Bool.false_eq_true, if_false] at more
          omega) rfl
        cases reloaded : last.isReload c with
        | false =>
          exact ⟨before, kind, enabled, inner ++ [last], by simp,
            within.append (.skip spilled reloaded .nil)⟩
        | true =>
          cases last with
          | spill => cases reloaded
          | write => cases reloaded
          | reload kind' d =>
            obtain rfl : d = c := by simpa [Access.isReload] using reloaded
            have balanced := within.spills_eq
            obtain ⟨before', kind₀, enabled₀, inner', rfl, within'⟩ := ih before.length
              (by simp) before (by
                simp only [spills_append, reloads_append, spills_spill, reloads_spill] at more
                simp [Access.isSpill, Access.isReload] at more
                omega) rfl
            refine ⟨before', kind₀, enabled₀, inner' ++ (.spill kind d enabled ::
              (inner ++ [.reload kind' d])), by simp, within'.append (.pair within .nil)⟩

end Nested

/-- The reload that matches a spill finds the words and the link register of that spill. -/
theorem Accessing.match_spill {inner : List (Access n)} {b₂ : Banks size n}
    (s : b.pool.Stacked chains free) (spilled : spillBank kind c enabled b = .ok (.ok ()) b₁)
    (run : Accessing b₁ inner b₂) (nested : Nested c inner) (kind' : BankKind) :
    ∃ b₃, reloadBank kind' c b₂ = .ok () b₃ ∧
      (b₃.bankOf kind' c).spill = (b.bankOf kind c).spill ∧
      (∀ other, other ≠ kind' → b₃.bankOf other c = b₂.bankOf other c) ∧
      b₃.pool.links.get c = b.pool.links.get c := by
  obtain ⟨i, rest, rfl, s₁, first, _⟩ := of_spillBank s spilled
  obtain ⟨chains₂, free₂, s₂, same, kept⟩ := nested.keeps run s₁
  rw [update_self] at same kept
  obtain ⟨b₃, ran, _, words, others, register, _, _⟩ := reloadBank_top s₂ same kind'
  refine ⟨b₃, ran, ?_, others, ?_⟩
  · rw [words, kept.segments i (by simp), first]
  · rw [register, kept.segments i (by simp), first]

/-- As long as a core has spilled more often than it has reloaded, its next reload has a spill to
match. -/
theorem Accessing.reload_matched {accesses : List (Access n)} (s : b₀.pool.Stacked chains free)
    (run : Accessing b₀ accesses b) (more : reloads c accesses < spills c accesses) :
    ∃ before kind enabled inner b₁ b₂, accesses = before ++ .spill kind c enabled :: inner ∧
      Nested c inner ∧ Accessing b₀ before b₁ ∧ spillBank kind c enabled b₁ = .ok (.ok ()) b₂ ∧
      Accessing b₂ inner b ∧ ∀ kind', ∃ b', reloadBank kind' c b = .ok () b' ∧
        (b'.bankOf kind' c).spill = (b₁.bankOf kind c).spill ∧
        b'.pool.links.get c = b₁.pool.links.get c := by
  obtain ⟨before, kind, enabled, inner, rfl, nested⟩ := Nested.exists_unmatched c accesses more
  obtain ⟨b₁, runBefore, run⟩ := run.of_append
  obtain ⟨chains₁, free₁, s₁, _⟩ := runBefore.stacked s
  cases run with
  | next spilled within =>
    refine ⟨before, kind, enabled, inner, b₁, _, rfl, nested, runBefore, spilled, within,
      fun kind' => ?_⟩
    obtain ⟨b', ran, words, _, register⟩ := match_spill s₁ spilled within nested kind'
    exact ⟨b', ran, words, register⟩

theorem enterTrap_run (ran : enterTrap c enabled b = .ok (.ok ()) b') :
    ∃ b₁, spillBank .upper c enabled b = .ok (.ok ()) b₁ ∧
      spillBank .lower c enabled b₁ = .ok (.ok ()) b' := by
  simp only [enterTrap, Action.bind_run] at ran
  cases upper : spillBank .upper c enabled b with
  | error halt b₁ => simp [upper] at ran
  | ok answer b₁ =>
    rw [upper] at ran
    cases answer with
    | error e => cases ran
    | ok _ => exact ⟨b₁, rfl, ran⟩

theorem Accessing.match_trap {inner : List (Access n)} {b₂ : Banks size n}
    (s : b.pool.Stacked chains free) (entered : enterTrap c enabled b = .ok (.ok ()) b₁)
    (run : Accessing b₁ inner b₂) (nested : Nested c inner) :
    ∃ b₃, leaveTrap c b₂ = .ok () b₃ ∧
      (∀ kind, (b₃.bankOf kind c).spill = (b.bankOf kind c).spill) ∧
      b₃.pool.links.get c = b.pool.links.get c := by
  obtain ⟨b₀, upper, lower⟩ := enterTrap_run entered
  obtain ⟨i, rest, rfl, s₀, _, _, _, banks⟩ := of_spillBank s upper
  obtain ⟨b₃, reloaded, words, _, _⟩ := match_spill s₀ lower run nested .lower
  -- What is between the spill and the reload of the upper bank is nested, too.
  have within : Accessing b₀ (.spill .lower c enabled :: (inner ++ [.reload .lower c])) b₃ :=
    .next lower (run.append (.next (by
      simp only [Access.perform, Action.bind_run, reloaded, Action.pure_run]) .done))
  obtain ⟨b₄, reloaded', words', others, register⟩ :=
    match_spill s upper within (.pair nested .nil) .upper
  refine ⟨b₄, ?_, fun kind => ?_, register⟩
  · simp only [leaveTrap, Action.bind_run, reloaded, reloaded']
  · cases kind with
    | upper => exact words'
    | lower =>
      rw [others .lower (by simp), words, banks]

/-- The live chains of the cores are stacks that do not disturb each other. Whatever the other cores
do, a reload gets the words of the spill that it matches and puts its link register back, a trap
that ends has both banks of its entry again, and a return has the upper bank of its call and the
lower one of the callee. As long as a core has spilled more often than it has reloaded, its next
reload has a spill to match; from an empty chain, one reload more halts. If one core acts alone, as
many reloads as spills restore the free list in its order. -/
theorem Accessing.pops_match {accesses : List (Access n)} (s : b₀.pool.Stacked chains free)
    (run : Accessing b₀ accesses b) (c : Fin n) :
    (∀ kind enabled b₁ inner b₂, spillBank kind c enabled b = .ok (.ok ()) b₁ →
      Accessing b₁ inner b₂ → Nested c inner → ∀ kind', ∃ b₃, reloadBank kind' c b₂ = .ok () b₃ ∧
        (b₃.bankOf kind' c).spill = (b.bankOf kind c).spill ∧
        b₃.pool.links.get c = b.pool.links.get c) ∧
    (∀ enabled b₁ inner b₂, enterTrap c enabled b = .ok (.ok ()) b₁ → Accessing b₁ inner b₂ →
      Nested c inner → ∃ b₃, leaveTrap c b₂ = .ok () b₃ ∧
        (∀ kind, (b₃.bankOf kind c).spill = (b.bankOf kind c).spill) ∧
        b₃.pool.links.get c = b.pool.links.get c) ∧
    (∀ b₁ inner b₂, enterCall c b = .ok (.ok ()) b₁ → Accessing b₁ inner b₂ → Nested c inner →
      ∃ b₃, leaveCall c b₂ = .ok () b₃ ∧ (b₃.upper.get c).spill = (b.upper.get c).spill ∧
        b₃.lower.get c = b₂.lower.get c ∧ b₃.pool.links.get c = b.pool.links.get c) ∧
    (reloads c accesses < spills c accesses → ∃ before kind enabled inner b₁ b₂,
      accesses = before ++ .spill kind c enabled :: inner ∧ Nested c inner ∧
      Accessing b₀ before b₁ ∧ spillBank kind c enabled b₁ = .ok (.ok ()) b₂ ∧
      Accessing b₂ inner b ∧ ∀ kind', ∃ b', reloadBank kind' c b = .ok () b' ∧
        (b'.bankOf kind' c).spill = (b₁.bankOf kind c).spill ∧
        b'.pool.links.get c = b₁.pool.links.get c) ∧
    ((b₀.pool.links.get c).isNull = true → spills c accesses ≤ reloads c accesses →
      ∀ kind, reloadBank kind c b = .error (.violation .releasedContextRestored) b) ∧
    ((∀ a ∈ accesses, a.core = c) → spills c accesses = reloads c accesses →
      b.pool.WellFormed free) := by
  obtain ⟨chains', free', s', lengths, tape⟩ := run.stacked s
  refine ⟨fun kind enabled b₁ inner b₂ spilled within nested kind' => ?_,
    fun enabled b₁ inner b₂ entered within nested => match_trap s' entered within nested,
    fun b₁ inner b₂ entered within nested => ?_, fun more => reload_matched s run more,
    fun null few kind => ?_, fun alone even => ?_⟩
  · obtain ⟨b₃, ran, words, _, register⟩ := match_spill s' spilled within nested kind'
    exact ⟨b₃, ran, words, register⟩
  · obtain ⟨b₃, ran, words, others, register⟩ := match_spill s' entered within nested .upper
    exact ⟨b₃, ran, words, others .lower (by simp), register⟩
  · have start : chains c = [] := (s.path c).unique (.nil null)
    have balance := lengths c
    rw [start, List.length_nil] at balance
    exact reloadBank_refused s' (List.length_eq_zero_iff.mp (by omega)) kind
  · have balance := lengths c
    have halves := tape c alone
    obtain ⟨_, same⟩ := List.append_inj halves (by simp only [List.length_reverse]; omega)
    rw [← same]
    exact s'.whole

/-- Core 0 is interrupted with 7 in its upper bank. While it serves the interrupt and makes a call,
core 1 calls and returns, too, from the segment that core 0 takes next. -/
theorem Accessing.pops_match_two_cores : ∃ b b₁ b₂ b₃ : Banks 3 2,
    Accessing {} [.write .upper 0 2 (.num 7)] b ∧ enterTrap 0 true b = .ok (.ok ()) b₁ ∧
    Accessing b₁ [.spill .upper 1 false, .reload .upper 1, .spill .upper 0 false,
      .write .upper 0 2 .null, .reload .upper 0] b₂ ∧
    leaveTrap 0 b₂ = .ok () b₃ ∧ (b₃.bankOf .upper 0).spill[1] = .num 7 ∧
    b₃.pool.links.get 0 = .null := by
  have s : ({} : Banks 3 2).pool.Stacked (fun _ => []) (List.finRange 3) := .fresh (by decide)
  obtain ⟨b, b₁, b₂, run, entered, inner, held, register⟩ : ∃ b b₁ b₂ : Banks 3 2,
      Accessing {} [.write .upper 0 2 (.num 7)] b ∧ enterTrap 0 true b = .ok (.ok ()) b₁ ∧
      Accessing b₁ [.spill .upper 1 false, .reload .upper 1, .spill .upper 0 false,
        .write .upper 0 2 .null, .reload .upper 0] b₂ ∧
      (b.bankOf .upper 0).spill[1] = .num 7 ∧ b.pool.links.get 0 = .null :=
    ⟨_, _, _, .next (by with_unfolding_all rfl) .done, by with_unfolding_all rfl,
      .next (by with_unfolding_all rfl) (.next (by with_unfolding_all rfl)
        (.next (by with_unfolding_all rfl) (.next (by with_unfolding_all rfl)
          (.next (by with_unfolding_all rfl) .done)))),
      by with_unfolding_all rfl, by with_unfolding_all rfl⟩
  have called : Nested (0 : Fin 2)
      (.spill .upper 0 false :: ([.write .upper 0 2 .null] ++ [.reload .upper 0])) :=
    .pair (.skip rfl rfl .nil) .nil
  have nested : Nested (0 : Fin 2) [.spill .upper 1 false, .reload .upper 1, .spill .upper 0 false,
      .write .upper 0 2 .null, .reload .upper 0] := .skip rfl rfl (.skip rfl rfl called)
  obtain ⟨b₃, left, words, back⟩ :=
    (Accessing.pops_match s run 0).2.1 true b₁ _ b₂ entered inner nested
  refine ⟨b, b₁, b₂, b₃, run, entered, inner, left, ?_, back.trans register⟩
  rw [words]
  exact held

end Banks

end Preempt
