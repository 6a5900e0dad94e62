import Preempt.Proofs.Contexts
import Preempt.Proofs.Segment.Custody

/-!
Chains of segments as contexts of runs. The book is the ledger; what a core had on its chain when it
entered a first task is lost.
-/

namespace Preempt

open Preempt.Action
open Function (update)

variable {size n : Nat}

namespace Ledger

def resumption (L : Ledger n) (task : TaskId) : Option Resumption :=
  (L.saved task).map fun s => ⟨s.nesting, s.enabled⟩

/-- A task goes on, on the chain of a core. -/
def takeUp (L : Ledger n) (c : Fin n) (task : TaskId) : Ledger n :=
  (L.withSaved task none).withLive c (L.live c ++ L.spills (.saved task))

theorem takeUp_eq {L : Ledger n} {task : TaskId} {new : Suspension} (is : L.saved task = some new)
    (c : Fin n) : L.takeUp c task = L.resume c task new := by
  simp [takeUp, resume, spills, is]

@[simp] theorem resumption_withLive (L : Ledger n) (c : Fin n) (stack : List Spill) :
    (L.withLive c stack).resumption = L.resumption := rfl

theorem resumption_withSaved (L : Ledger n) (task : TaskId) (s : Option Suspension) :
    (L.withSaved task s).resumption =
      update L.resumption task (s.map fun s => ⟨s.nesting, s.enabled⟩) := by
  funext other
  simp only [resumption, saved_withSaved, Function.update_apply]
  split <;> rfl

theorem resumption_takeUp (L : Ledger n) (c : Fin n) (task : TaskId) :
    (L.takeUp c task).resumption = update L.resumption task none :=
  resumption_withSaved L task none

theorem resumption_eq_some {L : Ledger n} {task : TaskId} {r : Resumption}
    (is : L.resumption task = some r) :
    ∃ s, L.saved task = some s ∧ r = ⟨s.nesting, s.enabled⟩ := by
  obtain ⟨s, saved, rfl⟩ := Option.map_eq_some_iff.mp is
  exact ⟨s, saved, rfl⟩

/-- Traps and calls are taken and left, and work is done away from the chains. A trap that finds no
free segment ends a run. -/
inductive Works (s : Storage (Banks size n)) (L : Ledger n) :
    Storage (Banks size n) → Ledger n → Prop
  | trapped {c : Fin n} {enabled : Bool} {b : Banks size n}
      (ran : Banks.enterTrap c enabled s.context = .ok (.ok ()) b) :
      Works s L { s with context := b } (L.withLive c (.trap enabled
        (s.context.upper.get c).spill (s.context.lower.get c).spill :: L.live c))
  | called {c : Fin n} {b : Banks size n} (ran : Banks.enterCall c s.context = .ok (.ok ()) b) :
      Works s L { s with context := b }
        (L.withLive c (.call (s.context.upper.get c).spill :: L.live c))
  | notCalled {c : Fin n} {b : Banks size n} {cause : Refusal}
      (ran : Banks.enterCall c s.context = .ok (.error cause) b) :
      Works s L { s with context := b } L
  | leftTrap {c : Fin n} {enabled : Bool} {upper lower : Vector Word dataWords}
      {below : List Spill} {b : Banks size n}
      (top : L.live c = .trap enabled upper lower :: below)
      (ran : Banks.leaveTrap c s.context = .ok () b) :
      Works s L { s with context := b } (L.withLive c below)
  | leftCall {c : Fin n} {upper : Vector Word dataWords} {below : List Spill}
      {b : Banks size n} (top : L.live c = .call upper :: below)
      (ran : Banks.leaveCall c s.context = .ok () b) :
      Works s L { s with context := b } (L.withLive c below)
  | elsewhere {s' : Storage (Banks size n)} (pool : s'.context.pool = s.context.pool)
      (parked : ∀ task, L.saved task ≠ none → s'.tasks.list[task]? = s.tasks.list[task]?) :
      Works s L s' L

/-- A task is suspended `depth` calls below the end of the chain of its core. -/
inductive Suspends (s : Storage (Banks size n)) (L : Ledger n) (c : Fin n) (task : TaskId)
    (depth : TrapDepth) : Resumption → Ledger n → Prop
  | intro {calls : List Spill} {old : Suspension} (top : L.live c = calls ++ old.spills)
      (plain : ∀ x ∈ calls, x.isCall = true) (deep : calls.length = depth.toNat)
      (room : s.tasks.Room task old.upper[upperStackPointer - 1]) :
      Suspends s L c task depth ⟨old.nesting, old.enabled⟩ (L.suspend c calls task old)

theorem Works.kept {s s' : Storage (Banks size n)} {L L' : Ledger n} {lost : List (Fin size)}
    (kept : Kept s.context.pool s.tasks L lost) (works : Works s L s' L') :
    Kept s'.context.pool s'.tasks L' lost ∧ L'.resumption = L.resumption := by
  cases works with
  | trapped ran =>
    rcases kept.enterTrap _ _ with ⟨b', ran', kept'⟩ | ⟨b', _, ran', _⟩ | ⟨_, ran'⟩ <;>
      rw [ran] at ran' <;> cases ran'
    exact ⟨kept', rfl⟩
  | called ran =>
    rcases kept.enterCall _ with ⟨b', ran', kept'⟩ | ran' <;> rw [ran] at ran' <;> cases ran'
    exact ⟨kept', rfl⟩
  | notCalled ran =>
    rcases kept.enterCall _ with ⟨b', ran', _⟩ | ran' <;> rw [ran] at ran' <;> cases ran'
    exact ⟨kept, rfl⟩
  | leftTrap top ran =>
    obtain ⟨b', ran', kept', _⟩ := kept.leaveTrap top
    rw [ran] at ran'
    cases ran'
    exact ⟨kept', rfl⟩
  | leftCall top ran =>
    obtain ⟨b', ran', kept', _⟩ := kept.leaveCall top
    rw [ran] at ran'
    cases ran'
    exact ⟨kept', rfl⟩
  | elsewhere pool parked =>
    refine ⟨?_, rfl⟩
    rw [pool]
    exact kept.congr parked

end Ledger

/-- The contexts over a pool. -/
def Banks.contexts (small : size < segmentNumbers) : Contexts (Banks size n) n where
  Book := Ledger n
  blank := {}
  Fresh b := b = {}
  suspended := Ledger.resumption
  Holds s L := ∃ lost, Kept s.context.pool s.tasks L lost
  Works := Ledger.Works
  Creates k L task answer k' L' := ∃ sp entry argument, L.saved task = none ∧
    k.storage.tasks.Room task sp ∧ Kernel.createFrom task sp entry argument k = .ok answer k' ∧
    L' = match answer with
      | .ok () => L.withSaved task (some (.initial sp entry argument))
      | .error _ => L
  Frees k L task k' L' := L.saved task ≠ none ∧ Kernel.freeTask task k = .ok () k' ∧
    L' = L.withSaved task none
  Suspends := Ledger.Suspends
  resume := Ledger.takeUp
  enter L c task := (L.withLive c []).takeUp c task
  suspended_blank _ := rfl
  suspended_suspends := by
    rintro s L c task depth r L' ⟨top, plain, deep, room⟩
    rw [Ledger.suspend, Ledger.resumption_withLive, Ledger.resumption_withSaved, Option.map_some]
  suspended_resume := Ledger.resumption_takeUp
  suspended_enter L c task := Ledger.resumption_takeUp (L.withLive c []) c task
  boots := by
    rintro _ sizes rfl
    exact ⟨[], Kept.fresh small⟩
  pends := by
    rintro s L s' core ⟨lost, kept⟩ pended
    simp only [SwitchPrimitives.pend, Storage.onContext, pend] at pended
    by_cases inside : core < n
    · rw [dif_pos inside] at pended
      cases pended
      exact ⟨lost, kept⟩
    · rw [dif_neg inside] at pended
      cases pended
  works := by
    rintro s L s' L' ⟨lost, kept⟩ works
    obtain ⟨kept', same⟩ := works.kept kept
    exact ⟨⟨lost, kept'⟩, same⟩
  creates := by
    rintro k L task answer k' L' ⟨lost, kept⟩ ⟨sp, entry, argument, absent, room, ran, rfl⟩
    rcases kept.create absent sp entry argument with
      ⟨head, tail, q, r, taken, written, kept'⟩ | refused
    · obtain ⟨trace, ts, ran', parks, others⟩ := Kernel.createFrom_run taken written room
      rw [ran] at ran'
      cases ran'
      refine ⟨⟨rfl, rfl, rfl, rfl, rfl⟩, ⟨lost, kept' ts parks others⟩, ?_⟩
      rw [Ledger.resumption_withSaved]
      rfl
    · obtain ⟨trace, ran'⟩ := Kernel.createFrom_run_refused entry argument refused
      rw [ran] at ran'
      cases ran'
      exact ⟨⟨rfl, rfl, rfl, rfl, rfl⟩, ⟨lost, kept⟩, rfl⟩
  frees := by
    rintro k L task k' L' ⟨lost, kept⟩ ⟨suspended, ran, rfl⟩
    obtain ⟨s, is⟩ := Option.ne_none_iff_exists'.mp suspended
    obtain ⟨head, tail, count, q, r, saved, plain, notNull, passes, unmarked, spliced, kept', _⟩ :=
      kept.giveBack is
    obtain ⟨trace, ran'⟩ := Kernel.freeTask_run saved plain notNull passes unmarked spliced
    rw [ran] at ran'
    cases ran'
    exact ⟨⟨rfl, rfl, rfl, rfl, rfl⟩, ⟨lost, kept'⟩, Ledger.resumption_withSaved L task none⟩
  handsOver := by
    rintro s L c task depth r L' incoming new ⟨lost, kept⟩ awake ⟨top, plain, deep, room⟩ chosen
    obtain ⟨m, is, rfl⟩ := Ledger.resumption_eq_some chosen
    have absent : L.saved task = none := Option.map_eq_none_iff.mp awake
    obtain ⟨s₁, q, ts, saved, restored, kept', _⟩ := kept.handOver top plain deep absent room is
    refine ⟨s₁, _, saved, restored, lost, ?_⟩
    rw [Ledger.takeUp_eq is]
    exact kept'
  enters := by
    rintro s L task new c ⟨lost, kept⟩ left
    obtain ⟨m, is, rfl⟩ := Ledger.resumption_eq_some left
    obtain ⟨dropped, q, ts, restored, _, kept', _⟩ := kept.enter c is
    refine ⟨_, restored, dropped ++ lost, ?_⟩
    rw [Ledger.takeUp_eq (L := L.withLive c []) is]
    exact kept'

end Preempt
