import Preempt.Proofs.Architectures
import Preempt.Proofs.Interplay.Engine
import Preempt.Proofs.Segment.Reentry

/-!
The two ends of an interrupt in which a switch was asked for. One runs the switch before it leaves
the interrupt, the other pends the software interrupt, whose handler runs the switch right after.
Runs are compared up to what they do on halting (`SameEnd`), and a switch comes to the same end as
another if what it does to the storage does (`switch_sameEnd`). For both kinds of register state
the two ends then agree (`epilogues_agree`).
-/

namespace Preempt

open Preempt.Action
open Kernel (onBoard onStorage onBanks endInterruptHandingOn)
open SwitchPrimitives (exchange)

namespace Kernel

variable {κ : Type} {n : Nat} {k k' : Kernel κ n} {c : Fin n} {depth depth' : TrapDepth}
  {r : Resumption} {halt : Halt} {s : Storage κ}

/-- The kernels differ at most in their traces, and in their storages as `related` says. -/
structure Alike (related : Storage κ → Storage κ → Prop) (k k' : Kernel κ n) : Prop where
  board : ∃ trace, k'.board = { k.board with trace }
  storage : related k.storage k'.storage
  scheduler : k'.scheduler = k.scheduler
  deletions : k'.deletions = k.deletions

theorem Alike.exists_eq {related : Storage κ → Storage κ → Prop} (alike : k.Alike related k') :
    ∃ trace storage, related k.storage storage ∧
      k' = { k with board := { k.board with trace }, storage } := by
  obtain ⟨⟨trace, board⟩, same, scheduler, deletions⟩ := alike
  refine ⟨trace, k'.storage, same, ?_⟩
  rw [← board, ← scheduler, ← deletions]

variable [SwitchPrimitives κ]

theorem switch_run_exchange (running : (k.board.cores.get c).state = .running)
    (plain : k.scheduler.reenters = false)
    (ran : exchange c (k.scheduler.current c) (k.incoming c) (k.board.cores.get c).nesting depth
      k.storage = .ok r s) :
    ∃ trace, switch c depth k = .ok r { k with
      board := { k.board with
        trace
        machine := k.board.machine.setEnabled (r.enabled ∧ r.nesting = 0)
        cores := k.board.cores.put c ((k.board.cores.get c).resumed r).countSwitch }
      storage := s
      scheduler := k.scheduler.choose k.scheduler.choice c } := by
  obtain ⟨_, _, saved, restored⟩ := ran_of_bind ran
  rw [switch_eq k c depth plain]
  exact switchWith_run running saved restored

theorem switch_run_halted (running : (k.board.cores.get c).state = .running)
    (plain : k.scheduler.reenters = false)
    (halted : exchange c (k.scheduler.current c) (k.incoming c) (k.board.cores.get c).nesting depth
      k.storage = .error halt s) :
    ∃ k', switch c depth k = .error halt k' := by
  rw [switch_eq k c depth plain, switchWith, Callouts.switch_engages _ running]
  simp only [exchange, incoming, bind_run] at halted
  simp only [callouts_save, callouts_select, callouts_resume, bind_run, save_run, choosing, onBoard,
    Board.emit, onScheduler, Callouts.current_run, RoundRobin.current_choose_self, resume_eq]
  split at halted
  · rename_i saved
    simp only [saved, halted]
    exact ⟨_, rfl⟩
  · rename_i saved
    cases halted
    simp only [saved]
    exact ⟨_, rfl⟩

/-- Two switches come to the same end if their exchanges do. -/
theorem switch_sameEnd {R related : Storage κ → Storage κ → Prop} (alike : k.Alike R k')
    (running : (k.board.cores.get c).state = .running) (plain : k.scheduler.reenters = false)
    (ends : SameEnd related
      (exchange c (k.scheduler.current c) (k.incoming c) (k.board.cores.get c).nesting depth
        k.storage)
      (exchange c (k.scheduler.current c) (k.incoming c) (k.board.cores.get c).nesting depth'
        k'.storage)) :
    SameEnd (Alike related) (switch c depth k) (switch c depth' k') := by
  obtain ⟨trace, storage, _, rfl⟩ := alike.exists_eq
  generalize first : exchange c (k.scheduler.current c) (k.incoming c)
    (k.board.cores.get c).nesting depth k.storage = ending at ends
  generalize second : exchange c (k.scheduler.current c) (k.incoming c)
    (k.board.cores.get c).nesting depth' storage = ending' at ends
  cases ends with
  | done same =>
    obtain ⟨_, ran⟩ := switch_run_exchange running plain first
    obtain ⟨trace', ran'⟩ := switch_run_exchange
      (k := { k with board := { k.board with trace }, storage }) running plain second
    rw [ran, ran']
    exact .done ⟨⟨trace', rfl⟩, same, rfl, rfl⟩
  | halts =>
    obtain ⟨_, ran⟩ := switch_run_halted running plain first
    obtain ⟨_, ran'⟩ := switch_run_halted
      (k := { k with board := { k.board with trace }, storage }) running plain second
    rw [ran, ran']
    exact .halts

/-- The end of the outermost interrupt with the switch in it. -/
theorem endInterrupt_bind_run {α : Type} (ready : k.board.Ready c)
    (outermost : (k.board.cores.get c).interruptDepth = 1)
    (asked : (k.board.cores.get c).pending = .switch) (next : Option Resumption → KernelM κ n α) :
    (endInterrupt >>= next) k = (switch c 0 >>= fun r => next (some r))
      (k.left c (k.board.cores.get c).nesting) := by
  have ended : endInterrupt k = (do return some (← switch c 0) : KernelM κ n (Option Resumption))
      (k.left c (k.board.cores.get c).nesting) := by
    rw [endInterrupt_run_outermost ready.known ready.executing outermost, asked]
    rfl
  simp only [bind_run, ended]
  cases switch c 0 (k.left c (k.board.cores.get c).nesting) <;> rfl

/-- The end of the outermost interrupt that pends the software interrupt. -/
theorem handOn_run_switch (ready : k.board.Ready c)
    (outermost : (k.board.cores.get c).interruptDepth = 1)
    (asked : (k.board.cores.get c).pending = .switch)
    (pended : SwitchPrimitives.pend c k.storage = .ok () s) :
    ∃ trace, endInterruptHandingOn k = .ok true { k.left c (k.board.cores.get c).nesting with
      board := { (k.left c (k.board.cores.get c).nesting).board with trace }
      storage := s } := by
  have storage : (k.left c (k.board.cores.get c).nesting).storage = k.storage := rfl
  rw [handOn_run_outermost ready outermost, asked]
  simp only [pendTrap, bind_run, onBoard, Board.emit, onStorage, storage, pended, pure_run]
  exact ⟨_, rfl⟩

/-- The handler of the software interrupt runs if that is pending. -/
def handleTrap (take : KernelM κ n Bool) : KernelM κ n (Option Resumption) := do
  if ← take then return some (← onTrap) else return none

theorem handleTrap_bind_run {α : Type} {take : KernelM κ n Bool} (ready : k'.board.Ready c)
    (taken : take k = .ok true k') (next : Option Resumption → KernelM κ n α) :
    (handleTrap take >>= next) k =
      (switch c Settings.trapDepth >>= fun r => next (some r)) k' := by
  simp only [bind_run, handleTrap, taken, if_true, onTrap_run ready.known ready.executing]
  cases switch c Settings.trapDepth k' <;> rfl

end Kernel

theorem put_pending {n : Nat} {c : Fin n} {pending : Vector Bool n}
    (quiet : pending.get c = false) : (pending.put c true).put c false = pending := by
  rw [Vector.put_put, ← quiet, Vector.put_get]

namespace RegisterFile

variable {layout : Layout} {n : Nat}

/-- The end of an interrupt, with the switch in it. -/
def endSwitching : KernelM (RegisterFile layout n) n (Except Refusal (Option Resumption)) := do
  return .ok (← Kernel.endInterrupt)

/-- The end of an interrupt, and the software interrupt that is taken after it. -/
def endTrapping (c : Fin n) :
    KernelM (RegisterFile layout n) n (Except Refusal (Option Resumption)) := do
  let _ ← Kernel.endInterruptHandingOn
  return .ok (← Kernel.handleTrap (onStorage (Storage.onContext (takeTrap c))))

theorem endSwitching_run {k k' : Kernel (RegisterFile layout n) n} {r : Option Resumption}
    (ended : Kernel.endInterrupt k = .ok r k') : endSwitching k = .ok (.ok r) k' := by
  simp only [endSwitching, bind_run, ended]
  rfl

theorem pend_run (c : Fin n) (s : Storage (RegisterFile layout n)) :
    SwitchPrimitives.pend c s = .ok () { s with context := { s.context with
      trapPending := s.context.trapPending.put c true } } := by
  simp only [SwitchPrimitives.pend, Storage.onContext, pend, c.isLt, dite_true]

/-- With frames on stacks the two ends agree whatever the state, since the depth of calls does not
count. -/
theorem ends_agree {k : Kernel (RegisterFile layout n) n} {c : Fin n} (ready : k.board.Ready c)
    (running : (k.board.cores.get c).state = .running) (plain : k.scheduler.reenters = false)
    (outermost : (k.board.cores.get c).interruptDepth = 1)
    (asked : (k.board.cores.get c).pending = .switch)
    (quiet : k.storage.context.trapPending.get c = false) :
    SameEnd (Kernel.Alike Eq) (endSwitching k) (endTrapping c k) := by
  obtain ⟨trace, handedOn⟩ := Kernel.handOn_run_switch ready outermost asked (pend_run c k.storage)
  set left := k.left c (k.board.cores.get c).nesting with hleft
  have taken : (onStorage (Storage.onContext (takeTrap c)) : KernelM (RegisterFile layout n) n Bool)
      { left with
        board := { left.board with trace }
        storage := { k.storage with context := { k.storage.context with
          trapPending := k.storage.context.trapPending.put c true } } } =
      .ok true { left with board := { left.board with trace } } := by
    simp only [onStorage, Storage.onContext, takeTrap, c.isLt, dite_true, Vector.get_put_self,
      Fin.eta, put_pending quiet]
    rfl
  have switched : endSwitching k =
      (do return .ok (some (← Kernel.switch c 0)) : KernelM _ n _) left :=
    Kernel.endInterrupt_bind_run ready outermost asked _
  have trapped : endTrapping c k =
      (do return .ok (some (← Kernel.switch c Settings.trapDepth)) : KernelM _ n _)
        { left with board := { left.board with trace } } := by
    have ready' : ({ left.board with trace } : Board n).Ready c := ⟨ready.executing, ready.known⟩
    rw [endTrapping, bind_run, handedOn]
    exact Kernel.handleTrap_bind_run ready' taken _
  rw [switched, trapped]
  have alike : left.Alike Eq { left with board := { left.board with trace } } :=
    ⟨⟨trace, rfl⟩, rfl, rfl, rfl⟩
  refine SameEnd.bind (Kernel.switch_sameEnd alike ?_ plain (SameEnd.refl _)) ?_
  · simpa [hleft, Kernel.left] using running
  · exact fun r _ _ same => .done same

end RegisterFile

namespace Banks

variable {size n : Nat}

/-- The end of an interrupt, with the switch in it, and the return to the task. -/
def endSwitching (c : Fin n) : KernelM (Banks size n) n (Except Refusal (Option Resumption)) := do
  let resumed ← Kernel.endInterrupt
  onBanks (leaveTrap c)
  return .ok resumed

/-- The end of an interrupt, the return to the task, the software interrupt that is taken right
after it, and the return from that. -/
def endTrapping (c : Fin n) (enabled : Bool) :
    KernelM (Banks size n) n (Except Refusal (Option Resumption)) := do
  let _ ← Kernel.endInterruptHandingOn
  onBanks (leaveTrap c)
  match ← onBanks (enterHandler c enabled) with
  | .error refusal => return .error refusal
  | .ok () =>
    let resumed ← Kernel.handleTrap (onBanks (takeTrap c))
    onBanks (leaveHandler c)
    return .ok resumed

/-- The storages differ in data words of free segments only. -/
def SameButFree (s t : Storage (Banks size n)) : Prop :=
  ∃ q, t = withPool s q ∧ s.context.pool.SameButFree q

/-- In the second storage a core has returned from the interrupt that it still is in in the first,
and is two calls deep in the handler of a trap. -/
structure Trapped (c : Fin n) (upper lower : Vector Word dataWords) (s t : Storage (Banks size n)) :
    Prop where
  tasks : t.tasks = s.tasks
  context : ∃ q front frames rest, t.context = s.context.reloaded c upper lower q ∧
    s.context.pool.Deepened q c front frames rest ∧ front.length = 2
  topped : ∃ i j, s.context.pool.Topped c i j

variable {k k' : Kernel (Banks size n) n} {c : Fin n} {upper lower : Vector Word dataWords}

theorem pend_run (c : Fin n) (s : Storage (Banks size n)) :
    SwitchPrimitives.pend c s = .ok () { s with context := { s.context with
      trapPending := s.context.trapPending.put c true } } := by
  simp only [SwitchPrimitives.pend, Storage.onContext, pend, c.isLt, dite_true]

/-- Both cores return to the task. -/
theorem leave_sameEnd (alike : k.Alike (Trapped c upper lower) k') (resumed : Resumption) :
    SameEnd (Kernel.Alike SameButFree)
      ((do onBanks (leaveTrap c); return .ok (some resumed) : KernelM (Banks size n) n
        (Except Refusal (Option Resumption))) k)
      ((do onBanks (leaveHandler c); return .ok (some resumed) : KernelM (Banks size n) n
        (Except Refusal (Option Resumption))) k') := by
  obtain ⟨trace, t, ⟨tasks, ⟨q, front, frames, rest, context, d, two⟩, i, j, topped⟩, rfl⟩ :=
    alike.exists_eq
  obtain ⟨b', q', left, leftHandler, same⟩ := leave_agree d two topped
  rw [← context] at leftHandler
  simp only [bind_run, Custody.onBanks_run left,
    Custody.onBanks_run (k := { k with board := { k.board with trace }, storage := t }) leftHandler]
  refine .done ⟨⟨trace, rfl⟩, ⟨q', ?_, same⟩, rfl, rfl⟩
  simp only [Custody.withBanks, withPool, tasks]

/-- From an interrupt and from the handler of the trap after it a switch does the same. -/
theorem exchange_sameEnd {s t : Storage (Banks size n)} {L : Ledger n} {lost : List (Fin size)}
    {heads : TaskId → Link} {share : Owner n → List (Fin size)} {old new : Suspension}
    {outgoing incoming : TaskId} {q : Pool size n} {front rest : List (Fin size)}
    {frames : List (Vector Word dataWords)}
    (held : Kept.Wired s.context.pool s.tasks L lost heads share) (top : L.live c = old.spills)
    (own : ∀ other offset, old.upper[upperStackPointer - 1] = .stack other offset →
      other = outgoing)
    (absent : L.saved outgoing = none)
    (is : (L.suspend c [] outgoing old).saved incoming = some new) (tasks : t.tasks = s.tasks)
    (context : t.context = s.context.reloaded c upper lower q)
    (d : (s.context.pool.relink c []
      ((s.context.pool.links.get c).withFlags false old.enabled)).Deepened q c front frames rest)
    (two : front.length = 2) :
    SameEnd (Trapped c upper lower) (exchange c outgoing incoming old.nesting 0 s)
      (exchange c outgoing incoming old.nesting Settings.trapDepth t) := by
  obtain ⟨i, j, topped, _, _, _, atUpper⟩ := held.topped top
  have pool : t.context.pool = q := by rw [context]; rfl
  rw [← pool] at d
  have deep : front.length = Settings.trapDepth.toNat := two
  have address : ((s.context.pool.links.get c).withFlags false old.enabled).address =
    (s.context.pool.links.get c).address := rfl
  -- The room below the stack pointer decides whether the save halts, and it does so at any depth.
  by_cases room : s.tasks.Room outgoing old.upper[upperStackPointer - 1]
  · have interrupted : Interrupted s c outgoing :=
      ⟨i, j, topped.lower, topped.lowerUsed, topped.upper, topped.upperUsed, by rwa [atUpper]⟩
    have suspended (other : incoming ≠ outgoing) : Resumable s incoming := by
      rw [Ledger.suspend, Ledger.saved_withLive, Ledger.saved_withSaved, if_neg other] at is
      obtain ⟨i, rest, chain, _⟩ := held.first is
      have path := held.shared.path (.saved incoming)
      rw [chain] at path
      have real : Owner.saved incoming ≠ (.free : Owner n) := by simp
      exact ⟨_, _, i, held.parked incoming new is, path.named,
        held.shared.inUse_of_mem real (by simp [chain])⟩
    obtain ⟨resumed, ts, head, flat, below⟩ :=
      exchange_below tasks address d deep interrupted suspended old.nesting
    obtain ⟨s₁, s₂, saved, restored, heads', share', held'⟩ :=
      held.handOver (c := c) top (by simp) (show [].length = (0 : TrapDepth).toNat from rfl) absent
        room is
    have ran : exchange c outgoing incoming old.nesting 0 s = .ok ⟨new.nesting, new.enabled⟩ s₂ :=
      SwitchPrimitives.exchange_run saved restored
    rw [flat] at ran
    cases ran
    have onTop : ((L.suspend c [] outgoing old).resume c incoming new).live c = new.spills := by
      simp [Ledger.resume, Ledger.suspend]
    obtain ⟨i', j', topped', _⟩ := held'.topped onTop
    have relinked := d.relink head
    rw [Pool.relink_relink] at relinked
    rw [flat, below]
    refine .done ⟨rfl, ⟨_, front, frames, rest, ?_, relinked, two⟩, i', j', topped'⟩
    simp only [withPool, context]
    rfl
  · obtain ⟨halt, s', t', halted, halted'⟩ :=
      exchange_halts tasks address d deep topped (by rw [atUpper]) own room incoming old.nesting
    rw [halted, halted']
    exact .halts

theorem endSwitching_run (ready : k.board.Ready c)
    (outermost : (k.board.cores.get c).interruptDepth = 1)
    (asked : (k.board.cores.get c).pending = .switch) :
    endSwitching c k = (do
      let resumed ← Kernel.switch c 0
      onBanks (leaveTrap c)
      return .ok (some resumed) : KernelM (Banks size n) n (Except Refusal (Option Resumption)))
        (k.left c (k.board.cores.get c).nesting) :=
  Kernel.endInterrupt_bind_run ready outermost asked _

/-- With two free segments the handler of the trap gets as far as the switch. -/
theorem endTrapping_run {L : Ledger n} {lost : List (Fin size)} {heads : TaskId → Link}
    {share : Owner n → List (Fin size)} {enabled : Bool} {below : List Spill}
    (ready : k.board.Ready c) (outermost : (k.board.cores.get c).interruptDepth = 1)
    (asked : (k.board.cores.get c).pending = .switch)
    (quiet : k.storage.context.trapPending.get c = false)
    (held : Kept.Wired k.storage.context.pool k.storage.tasks L lost heads share)
    (top : L.live c = .trap enabled upper lower :: below) (enough : 2 ≤ (share .free).length) :
    ∃ trace q front frames rest,
      endTrapping c enabled k = (do
        let resumed ← Kernel.switch c Settings.trapDepth
        onBanks (leaveHandler c)
        return .ok (some resumed) : KernelM (Banks size n) n (Except Refusal (Option Resumption)))
          (Custody.withBanks { k.left c (k.board.cores.get c).nesting with
            board := { (k.left c (k.board.cores.get c).nesting).board with trace } }
              (k.storage.context.reloaded c upper lower q)) ∧
      (k.storage.context.pool.relink c []
        ((k.storage.context.pool.links.get c).withFlags false enabled)).Deepened q c front frames
          rest ∧ front.length = 2 := by
  obtain ⟨trace, handedOn⟩ := Kernel.handOn_run_switch ready outermost asked (pend_run c k.storage)
  set left := k.left c (k.board.cores.get c).nesting with hleft
  set b : Banks size n := { k.storage.context with
    trapPending := k.storage.context.trapPending.put c true } with hb
  have held' : Kept.Wired b.pool k.storage.tasks L lost heads share := held
  obtain ⟨q₁, q₂, front, frames, rest, back, again, d, two⟩ := held'.reenter top enough
  refine ⟨trace, q₂, front, frames, rest, ?_, d, two⟩
  have taken : takeTrap c (b.reloaded c upper lower q₂) =
      .ok true (k.storage.context.reloaded c upper lower q₂) := by
    simp only [takeTrap, c.isLt, dite_true, Fin.eta, hb, reloaded, Vector.get_put_self,
      put_pending quiet]
  set k₀ : Kernel (Banks size n) n := { left with board := { left.board with trace } } with hk₀
  have backRan : onBanks (leaveTrap c) (Custody.withBanks k₀ b) =
    .ok () (Custody.withBanks k₀ (b.reloaded c upper lower q₁)) := Custody.onBanks_run back
  have againRan : onBanks (enterHandler c enabled)
      (Custody.withBanks k₀ (b.reloaded c upper lower q₁)) =
    .ok (.ok ()) (Custody.withBanks k₀ (b.reloaded c upper lower q₂)) := Custody.onBanks_run again
  have takenRan : onBanks (takeTrap c) (Custody.withBanks k₀ (b.reloaded c upper lower q₂)) =
    .ok true (Custody.withBanks k₀ (k.storage.context.reloaded c upper lower q₂)) :=
    Custody.onBanks_run taken
  have ready' :
      (Custody.withBanks k₀ (k.storage.context.reloaded c upper lower q₂)).board.Ready c :=
    ⟨ready.executing, ready.known⟩
  have pended : endInterruptHandingOn k = .ok true (Custody.withBanks k₀ b) := handedOn
  rw [endTrapping, bind_run, pended]
  simp only [bind_run _ _ (Custody.withBanks k₀ _), backRan, againRan]
  exact Kernel.handleTrap_bind_run ready' takenRan _

/-- With chains of segments the two ends agree if the contexts of the interrupted task are on top of
the live chain, its stack pointer is not in another task's stack and two segments are free. -/
theorem ends_agree {L : Ledger n} {lost : List (Fin size)} {heads : TaskId → Link}
    {share : Owner n → List (Fin size)} {old new : Suspension} (ready : k.board.Ready c)
    (running : (k.board.cores.get c).state = .running) (plain : k.scheduler.reenters = false)
    (outermost : (k.board.cores.get c).interruptDepth = 1)
    (asked : (k.board.cores.get c).pending = .switch)
    (quiet : k.storage.context.trapPending.get c = false)
    (held : Kept.Wired k.storage.context.pool k.storage.tasks L lost heads share)
    (top : L.live c = old.spills) (nesting : old.nesting = (k.board.cores.get c).nesting)
    (own : ∀ other offset, old.upper[upperStackPointer - 1] = .stack other offset →
      other = k.scheduler.current c)
    (absent : L.saved (k.scheduler.current c) = none)
    (is : (L.suspend c [] (k.scheduler.current c) old).saved (k.incoming c) = some new)
    (enough : 2 ≤ (share .free).length) :
    SameEnd (Kernel.Alike SameButFree) (endSwitching c k) (endTrapping c old.enabled k) := by
  obtain ⟨trace, q, front, frames, rest, trapped, d, two⟩ :=
    endTrapping_run ready outermost asked quiet held top enough
  rw [endSwitching_run ready outermost asked, trapped]
  set left := k.left c (k.board.cores.get c).nesting with hleft
  -- The storages before the switches are not compared: the second core has left its interrupt.
  have alike : left.Alike (fun _ _ => True)
      (Custody.withBanks { left with board := { left.board with trace } }
        (k.storage.context.reloaded c old.upper old.lower q)) := ⟨⟨trace, rfl⟩, trivial, rfl, rfl⟩
  have switching := exchange_sameEnd (s := k.storage) (t := { k.storage with
    context := k.storage.context.reloaded c old.upper old.lower q }) held top own absent is rfl rfl
      d two
  have nested : (left.board.cores.get c).nesting = old.nesting := by
    simp [hleft, Kernel.left, nesting]
  rw [← nested] at switching
  refine SameEnd.bind (Kernel.switch_sameEnd alike ?_ plain switching) fun r _ _ same =>
    leave_sameEnd same r
  simpa [hleft, Kernel.left] using running

/-- Core `c` took its interrupt in the task that it runs, whose stack pointer is not in another
task's stack, and noted `enabled` there. No other core runs the task that it is to go on with, and
two segments are free for the calls in the handler of the trap. -/
structure TrapReady (k : Kernel (Banks size n) n) (L : Ledger n) (c : Fin n) (enabled : Bool) :
    Prop where
  top : ∃ upper lower below, L.live c = .trap enabled upper lower :: below ∧
    ∀ other offset, upper[upperStackPointer - 1] = .stack other offset →
      other = k.scheduler.current c
  free : k.Free c (k.incoming c)
  enough : ∃ count q, Pool.freeCount k.storage.context.pool = .ok count q ∧ 2 ≤ count

theorem TrapReady.ends_agree (small : size < segmentNumbers) {L : Ledger n} {enabled : Bool}
    (held : (Banks.wiredContexts small).Held k L) (mine : k.board.machine.executing = c)
    (running : (k.board.cores.get c).state = .running)
    (outermost : (k.board.cores.get c).interruptDepth = 1)
    (asked : (k.board.cores.get c).pending = .switch)
    (quiet : k.storage.context.trapPending.get c = false) (trapReady : TrapReady k L c enabled) :
    SameEnd (Kernel.Alike SameButFree) (endSwitching c k) (endTrapping c enabled k) := by
  obtain ⟨⟨upper, lower, below, top, own⟩, free, count, _, counted, two⟩ := trapReady
  obtain ⟨lost, heads, share, wired⟩ := held.holds
  have enough : 2 ≤ (share .free).length := by
    rw [Pool.freeCount_run (wired.shared.path .free) (wired.shared.parts.nodup .free)] at counted
    cases counted
    exact two
  let old : Suspension := ⟨enabled, upper, lower, below, (k.board.cores.get c).nesting⟩
  have absent : L.saved (k.scheduler.current c) = none :=
    Option.map_eq_none_iff.mp (held.own ⟨running, rfl⟩)
  have now : (L.suspend c [] (k.scheduler.current c) old).resumption =
      Function.update L.resumption (k.scheduler.current c) (some ⟨old.nesting, old.enabled⟩) := by
    rw [Ledger.suspend, Ledger.resumption_withLive, Ledger.resumption_withSaved, Option.map_some]
  obtain ⟨r, chosen⟩ := held.incoming_suspended running free now
  obtain ⟨new, is, _⟩ := Ledger.resumption_eq_some chosen
  have spilled : L.live c = old.spills := top
  show SameEnd (Kernel.Alike SameButFree) (endSwitching c k) (endTrapping c old.enabled k)
  exact Banks.ends_agree ⟨mine, held.known⟩ running held.plain outermost asked quiet wired spilled
    rfl own absent is enough

/-- The end of an interrupt with a switch in it completes if the interrupted task may be suspended,
and the core is back in a task. -/
theorem endSwitching_done (small : size < segmentNumbers)
    {L L' : (Banks.contexts (n := n) small).Book} {r : Resumption}
    (held : (Banks.contexts small).Held k L) (mine : k.board.machine.executing = c)
    (running : (k.board.cores.get c).state = .running)
    (follows : (Banks.contexts small).Follows k L .endInterrupt (some r) L') :
    ∃ new k', endSwitching c k = .ok (.ok (some new)) k' := by
  cases follows with
  | switches mine' switches nesting suspends free =>
    obtain rfl := mine.symm.trans mine'
    obtain ⟨new, k', ran, chosen, _, held', _⟩ :=
      held.switches mine running switches nesting suspends free
    obtain ⟨lost, kept⟩ := held'.holds
    obtain ⟨rfl, _, _⟩ := switches
    obtain @⟨calls, old, top, plain, deep, room⟩ := suspends
    obtain ⟨s, is, _⟩ := Ledger.resumption_eq_some chosen
    obtain rfl := List.length_eq_zero_iff.mp deep
    have onTop : Ledger.live ((contexts small).resume (Ledger.suspend L c [] (k.scheduler.current c)
        old) c (k.incoming c)) c = s.spills := by
      rw [show (contexts small).resume = Ledger.takeUp from rfl, Ledger.takeUp_eq is]
      simp [Ledger.resume, Ledger.suspend]
    obtain ⟨b, left, _⟩ := kept.leaveTrap onTop
    have ended : Kernel.endInterrupt k = .ok (some new) k' := ran
    refine ⟨new, Custody.withBanks k' b, ?_⟩
    simp only [endSwitching, bind_run, ended, Custody.onBanks_run left]
    rfl

end Banks

namespace Architecture

variable {n : Nat}

/-- The software interrupt of a core is pending. -/
def trapPending : (a : Architecture) → a.State n → Fin n → Bool
  | linear _ _, (file : RegisterFile _ n), c => file.trapPending.get c
  | segmented _ _, (b : Banks _ n), c => b.trapPending.get c

/-- The end of an interrupt with the switch in it. -/
def endSwitching : (a : Architecture) → Fin n →
    KernelM (a.State n) n (Except Refusal (Option Resumption))
  | linear _ _, _ => RegisterFile.endSwitching
  | segmented _ _, c => Banks.endSwitching c

/-- The end of an interrupt, and the software interrupt that is taken after it. -/
def endTrapping : (a : Architecture) → Fin n → Bool →
    KernelM (a.State n) n (Except Refusal (Option Resumption))
  | linear _ _, c, _ => RegisterFile.endTrapping c
  | segmented _ _, c, enabled => Banks.endTrapping c enabled

/-- The storages are the same, but for what nobody reads. -/
def Agrees : (a : Architecture) → Storage (a.State n) → Storage (a.State n) → Prop
  | linear _ _ => Eq
  | segmented _ _ => Banks.SameButFree

/-- What the two ends of an interrupt need of the contexts. -/
def TrapReady : (a : Architecture) → Kernel (a.State n) n → (a.contexts n).Book → Fin n → Bool →
    Prop
  | linear _ _, _, _, _, _ => True
  | segmented _ _, (k : Kernel (Banks _ n) n), (L : Ledger n), c, enabled =>
    Banks.TrapReady k L c enabled

end Architecture

namespace Contexts.Reaches

/-- On any architecture, the two ends of an outermost interrupt in which a switch was asked for come
to the same end: the same task is resumed and all is the same but the trace and the data of free
segments, or both halt for one reason. They do complete if the interrupted task may be suspended. -/
theorem epilogues_agree {n : Nat} {γ : Type} {a : Architecture} {T : Tally (a.State n) n γ}
    {k : Kernel (a.State n) n} {b : (a.contexts n).Book} {g : γ}
    (reached : (a.contexts n).Reaches T k b g) {c : Fin n}
    (mine : k.board.machine.executing = c) (running : (k.board.cores.get c).state = .running)
    (outermost : (k.board.cores.get c).interruptDepth = 1)
    (asked : (k.board.cores.get c).pending = .switch)
    (quiet : a.trapPending k.storage.context c = false) {enabled : Bool}
    (trapReady : a.TrapReady k b c enabled) :
    SameEnd (Kernel.Alike a.Agrees) (a.endSwitching c k) (a.endTrapping c enabled k) ∧
    ∀ r b', (a.contexts n).Follows k b .endInterrupt (some r) b' →
      ∃ new k', a.endSwitching c k = .ok (.ok (some new)) k' := by
  have held := reached.held
  cases a with
  | linear layout builtIn =>
    refine ⟨RegisterFile.ends_agree ⟨mine, held.known⟩ running held.plain outermost asked quiet,
      fun r b' follows => ?_⟩
    obtain ⟨new, k', ran⟩ := held.resumes (by simp) follows
      (by rw [PortCall.Resumes, mine]; exact ⟨outermost, Or.inr ⟨asked, running⟩⟩)
    exact ⟨new, k', RegisterFile.endSwitching_run ran⟩
  | segmented size small =>
    have wired : (Banks.wiredContexts small).Reaches T k b g := Reaches.wired reached
    exact ⟨Banks.TrapReady.ends_agree small wired.held mine running outermost asked quiet
      trapReady, fun r b' follows => Banks.endSwitching_done small held mine running follows⟩

/-- A core starts the first of its two tasks, takes an interrupt in it and is asked to switch. -/
theorem request_passes : (match Kernel.boot (0 : Fin 1)
    { queues := #v[[0, 1]], stackSizes := #[8, 8] } ({} : Banks 6 1) with
  | .ok k₀ =>
    match Kernel.createFrom 0 (.stack 0 8) (.num 4) (.num 5) k₀ with
    | .ok (.ok ()) k₁ =>
      match Kernel.createFrom 1 (.stack 1 8) (.num 6) (.num 7) k₁ with
      | .ok (.ok ()) k₂ =>
        match PortCall.start.perform k₂ with
        | .ok (some _) k₃ =>
          match Banks.leaveTrap 0 k₃.storage.context with
          | .ok () b₄ =>
            match Banks.enterTrap 0 true b₄ with
            | .ok (.ok ()) b₅ =>
              match PortCall.beginInterrupt.perform (Custody.withBanks k₃ b₅) with
              | .ok none k₆ =>
                match PortCall.onIpi.perform k₆ with
                | .ok none k₇ =>
                  match Pool.freeCount k₇.storage.context.pool with
                  | .ok count _ => decide (
                    (k₀.board.cores.get 0).state = .notStarted ∧
                    ((k₀.storage.tasks.read? (.stack 0 6)).isSome ∧
                      (k₀.storage.tasks.read? (.stack 0 7)).isSome) ∧
                    (k₁.board.cores.get 0).state = .notStarted ∧
                    ((k₁.storage.tasks.read? (.stack 1 6)).isSome ∧
                      (k₁.storage.tasks.read? (.stack 1 7)).isSome) ∧
                    (k₂.board.cores.get 0).state = .notStarted ∧
                    (k₂.scheduler.queues.get 0).tasks = #[0, 1] ∧ k₂.scheduler.current 0 = 0 ∧
                    (b₄.upper.get 0).spill[upperStackPointer - 1] = .stack 0 8 ∧
                    ((k₇.board.cores.get 0).state = .running ∧
                      (k₇.board.cores.get 0).interruptDepth = 1 ∧
                      (k₇.board.cores.get 0).pending = .switch) ∧
                    k₇.scheduler.current 0 = 0 ∧
                    k₇.storage.context.trapPending.get 0 = false ∧
                    ((k₇.storage.tasks.read? (.stack 0 6)).isSome ∧
                      (k₇.storage.tasks.read? (.stack 0 7)).isSome) ∧ 2 ≤ count)
                  | _ => false
                | _ => false
              | _ => false
            | _ => false
          | _ => false
        | _ => false
      | _ => false
    | _ => false
  | _ => false) = true := by decide +kernel

/-- Both ends of the interrupt switch to the other task. -/
theorem epilogues_agree_on_request :
    ∃ (T : Tally (Banks 6 1) 1 Unit) (k : Kernel (Banks 6 1) 1) (L : Ledger 1),
      (Banks.contexts (by decide)).Reaches T k L () ∧
      (k.board.cores.get 0).state = .running ∧ (k.board.cores.get 0).interruptDepth = 1 ∧
      (k.board.cores.get 0).pending = .switch ∧ k.storage.context.trapPending.get 0 = false ∧
      Banks.TrapReady k L 0 true ∧
      SameEnd (Kernel.Alike Banks.SameButFree) (Banks.endSwitching 0 k)
        (Banks.endTrapping 0 true k) ∧
      ∃ new k', Banks.endSwitching 0 k = .ok (.ok (some new)) k' := by
  have passes := request_passes
  split at passes
  case h_2 => cases passes
  rename_i k₀ booted
  split at passes
  case h_2 => cases passes
  rename_i k₁ created
  split at passes
  case h_2 => cases passes
  rename_i k₂ created'
  split at passes
  case h_2 => cases passes
  rename_i r k₃ started
  split at passes
  case h_2 => cases passes
  rename_i u b₄ left
  split at passes
  case h_2 => cases passes
  rename_i b₅ trapped
  split at passes
  case h_2 => cases passes
  rename_i k₆ begun
  split at passes
  case h_2 => cases passes
  rename_i k₇ called
  split at passes
  case h_2 => cases passes
  rename_i count q counted
  obtain ⟨stopped₀, ⟨low, high⟩, stopped₁, ⟨low', high'⟩, stopped, owned, current, pointer,
    ⟨running, outermost, asked⟩, current', quiet, ⟨low₇, high₇⟩, enough⟩ := of_decide_eq_true passes
  have only (c : Fin 1) : c = 0 := Subsingleton.elim c 0
  let C : Contexts (Banks 6 1) 1 := Banks.contexts (by decide)
  let T : Tally (Banks 6 1) 1 Unit := ⟨(), fun _ _ => (), fun _ _ _ => (), fun _ _ _ _ => True⟩
  have idle {k : Kernel (Banks 6 1) 1} (stopped : (k.board.cores.get 0).state = .notStarted)
      (task : TaskId) (c : Fin 1) : ¬k.Runs c task := by
    intro runs
    rw [only c, Kernel.Runs, stopped] at runs
    cases runs.1
  let first₀ : Suspension := .initial (.stack 0 8) (.num 4) (.num 5)
  let first₁ : Suspension := .initial (.stack 1 8) (.num 6) (.num 7)
  let L₂ : Ledger 1 := (({} : Ledger 1).withSaved 0 (some first₀)).withSaved 1 (some first₁)
  have run₀ : C.Reaches T k₀ {} () := .boot rfl booted
  have run₁ : C.Reaches T k₁ (({} : Ledger 1).withSaved 0 (some first₀)) () :=
    run₀.create (idle stopped₀ 0) ⟨_, _, _, rfl, ⟨6, rfl, low, high⟩, created, rfl⟩
  have run₂ : C.Reaches T k₂ L₂ () :=
    run₁.create (idle stopped₁ 1) ⟨_, _, _, rfl, ⟨6, rfl, low', high'⟩, created', rfl⟩
  have ready (c : Fin 1) : (k₂.board.cores.get c).state = .notStarted ∧
      ∀ task ∈ (k₂.scheduler.queues.get c).tasks, C.suspended L₂ task ≠ none := by
    rw [only c, owned]
    refine ⟨stopped, fun task member => ?_⟩
    rcases (by simpa using member : task = 0 ∨ task = 1) with rfl | rfl <;>
      exact Option.some_ne_none _
  have enters : C.Follows k₂ L₂ .start none (C.enter L₂ 0 (k₂.scheduler.current 0)) :=
    .enters (only _) trivial fun d _ => only d
  have run₃ : C.Reaches T k₃ (C.enter L₂ 0 (k₂.scheduler.current 0)) () :=
    run₂.call (fun _ => ready) enters trivial started
  rw [current] at run₃
  have top₃ : Ledger.live (C.enter L₂ 0 0) 0 = first₀.spills := rfl
  have run₄ : C.Reaches T (Custody.withBanks k₃ b₄)
      ((C.enter L₂ 0 0 : Ledger 1).withLive 0 []) () :=
    run₃.work ⟨rfl, rfl, rfl, rfl, rfl⟩ (.leftTrap top₃ left)
  let L : Ledger 1 := ((C.enter L₂ 0 0 : Ledger 1).withLive 0 []).withLive 0
    [.trap true (b₄.upper.get 0).spill (b₄.lower.get 0).spill]
  have run₅ : C.Reaches T (Custody.withBanks k₃ b₅) L () :=
    run₄.work ⟨rfl, rfl, rfl, rfl, rfl⟩ (.trapped trapped)
  have run₆ : C.Reaches T k₆ L () :=
    run₅.call (by simp) (.rests (fun _ => id) id) trivial begun
  have run₇ : C.Reaches T k₇ L () :=
    run₆.call (by simp) (.rests (fun _ => id) id) trivial called
  have trapReady : Banks.TrapReady k₇ L 0 true := by
    refine ⟨⟨_, _, [], rfl, fun other offset points => ?_⟩, fun d _ => only d, count, q, counted,
      enough⟩
    rw [pointer] at points
    cases points
    exact current'.symm
  obtain ⟨agree, done⟩ := epilogues_agree (a := .segmented 6 (by decide)) run₇ (only _) running
    outermost asked quiet trapReady
  let old : Suspension := ⟨true, (b₄.upper.get 0).spill, (b₄.lower.get 0).spill, [],
    (k₇.board.cores.get 0).nesting⟩
  have suspends : C.Suspends k₇.storage L 0 (k₇.scheduler.current 0) 0 ⟨old.nesting, old.enabled⟩
      (L.suspend 0 [] (k₇.scheduler.current 0) old) := by
    rw [current']
    exact ⟨rfl, by simp, rfl, 6, pointer, low₇, high₇⟩
  have switches : PortCall.endInterrupt.Switches k₇ 0 := by
    rw [PortCall.Switches, only k₇.board.machine.executing]
    exact ⟨rfl, outermost, asked⟩
  have follows : C.Follows k₇ L .endInterrupt _ _ :=
    .switches (only _) switches rfl suspends fun d _ => only d
  exact ⟨T, k₇, L, run₇, running, outermost, asked, quiet, trapReady, agree, done _ _ follows⟩

end Contexts.Reaches

end Preempt
