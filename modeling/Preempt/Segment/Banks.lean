import Preempt.Action
import Preempt.Segment.Chain
import Preempt.Storage

/-!
The register state of an architecture with segmented frames: per core an upper and a lower bank
over the shared pool. Interrupt entry and calls spill banks onto the core's live chain, returns
reload them.
-/

namespace Preempt

/-! Places of some registers in an upper and in a lower context. Word 0 is the link. -/

def upperStatus : Nat := 1
def upperStackPointer : Nat := 2
def upperReturnAddress : Nat := 3
def lowerProgramCounter : Nat := 1
def lowerArgument : Nat := 8

theorem upperStackPointer_spilled : upperStackPointer - 1 < dataWords := by decide

/-- Status word of a new task: supervisor mode, first register set, no call depth counting. -/
def initialUpperStatus : UInt64 := 0x08FF

/-- Sixteen registers; the first is not spilled, since its place is taken by the link. -/
abbrev Bank := Vector Word (dataWords + 1)

namespace Bank

def spill (b : Bank) : Vector Word dataWords := .ofFn fun i => b[i.val + 1]

def reload (b : Bank) (data : Vector Word dataWords) : Bank :=
  .ofFn fun i => i.cases b[0] (fun j => data[j])

@[simp] theorem getElem_spill (b : Bank) (i : Nat) (h : i < dataWords) :
    b.spill[i] = b[i + 1] := by
  simp [spill]

@[simp] theorem getElem_reload_zero (b : Bank) (data : Vector Word dataWords) :
    (b.reload data)[0] = b[0] := by
  simp [reload]

@[simp] theorem getElem_reload_succ (b : Bank) (data : Vector Word dataWords) (i : Nat)
    (h : i < dataWords) : (b.reload data)[i + 1] = data[i] := by
  simp only [reload, Vector.getElem_ofFn]
  rfl

@[simp] theorem spill_reload (b : Bank) (data : Vector Word dataWords) :
    (b.reload data).spill = data := by
  ext i h
  rw [getElem_spill, getElem_reload_succ]

end Bank

/-- The banks of `n` cores over a pool of `size` segments. -/
structure Banks (size n : Nat) where
  pool : Pool size n := .fresh size n
  upper : Vector Bank n := .replicate n (.replicate _ (.num 0))
  lower : Vector Bank n := .replicate n (.replicate _ (.num 0))
  trapPending : Vector Bool n := .replicate n false

abbrev BanksM (size n : Nat) := EStateM Halt (Banks size n)

inductive BankKind where
  | upper
  | lower
deriving DecidableEq

namespace Banks

variable {size n : Nat} {α : Type}

def onPool (action : PoolM size n α) : BanksM size n α := fun b =>
  match action b.pool with
  | .ok a pool => .ok a { b with pool }
  | .error halt pool => .error halt { b with pool }

def bank (kind : BankKind) (core : CoreId) : BanksM size n Bank := fun b =>
  if h : core < n then
    match kind with
    | .upper => .ok (b.upper.get ⟨core, h⟩) b
    | .lower => .ok (b.lower.get ⟨core, h⟩) b
  else .error (.outOfRange n core) b

def setBank (kind : BankKind) (core : CoreId) (bank : Bank) : BanksM size n Unit := fun b =>
  if h : core < n then
    match kind with
    | .upper => .ok () { b with upper := b.upper.put ⟨core, h⟩ bank }
    | .lower => .ok () { b with lower := b.lower.put ⟨core, h⟩ bank }
  else .error (.outOfRange n core) b

def register (kind : BankKind) (core : CoreId) (index : Nat) : BanksM size n Word := do
  let bank ← bank kind core
  if h : index < segmentWords then return bank[index]
  else throw (.outOfRange segmentWords index)

def setRegister (kind : BankKind) (core : CoreId) (index : Nat) (value : Word) :
    BanksM size n Unit := do
  let old ← bank kind core
  if h : index < segmentWords then setBank kind core (old.set index value)
  else throw (.outOfRange segmentWords index)

/-- Put a bank onto the core's live chain. -/
def spillBank (kind : BankKind) (core : CoreId) (enabled : Bool) :
    BanksM size n (Except Refusal Unit) := do
  let data := (← bank kind core).spill
  match ← onPool (Pool.push core data (kind = .upper) enabled) with
  | .error e => return .error e
  | .ok _ => return .ok ()

def reloadBank (kind : BankKind) (core : CoreId) : BanksM size n Unit := do
  let old ← bank kind core
  let segment ← onPool (Pool.pop core)
  setBank kind core (old.reload segment.data)

/-- Interrupt or trap entry: the upper bank, then the lower bank, go onto the live chain. If only
the first finds a free segment, it stays there. -/
def enterTrap (core : CoreId) (enabled : Bool) : BanksM size n (Except Refusal Unit) := do
  match ← spillBank .upper core enabled with
  | .error e => return .error e
  | .ok () => spillBank .lower core enabled

def leaveTrap (core : CoreId) : BanksM size n Unit := do
  reloadBank .lower core
  reloadBank .upper core

/-- A kernel function call: spill the upper bank. -/
def enterCall (core : CoreId) : BanksM size n (Except Refusal Unit) := spillBank .upper core false

def leaveCall (core : CoreId) : BanksM size n Unit := reloadBank .upper core

def pend (core : CoreId) : BanksM size n Unit := fun b =>
  if h : core < n then
    .ok () { b with trapPending := b.trapPending.put ⟨core, h⟩ true }
  else .error (.outOfRange n core) b

/-- Take the software interrupt of a core. True if it was pending. -/
def takeTrap (core : CoreId) : BanksM size n Bool := fun b =>
  if h : core < n then
    .ok (b.trapPending.get ⟨core, h⟩)
      { b with trapPending := b.trapPending.put ⟨core, h⟩ false }
  else .error (.outOfRange n core) b

/-! Runs on a core of the machine. -/

def bankOf (b : Banks size n) : BankKind → Fin n → Bank
  | .upper, c => b.upper.get c
  | .lower, c => b.lower.get c

def withBank (b : Banks size n) (kind : BankKind) (c : Fin n) (bank : Bank) : Banks size n :=
  match kind with
  | .upper => { b with upper := b.upper.put c bank }
  | .lower => { b with lower := b.lower.put c bank }

@[simp] theorem pool_withBank (b : Banks size n) (kind : BankKind) (c : Fin n) (bank : Bank) :
    (b.withBank kind c bank).pool = b.pool := by
  cases kind <;> rfl

@[simp] theorem bankOf_withBank_self (b : Banks size n) (kind : BankKind) (c : Fin n)
    (bank : Bank) : (b.withBank kind c bank).bankOf kind c = bank := by
  cases kind <;> simp [withBank, bankOf]

theorem bankOf_withBank_of_ne {other : BankKind} (b : Banks size n) (apart : other ≠ kind)
    (c : Fin n) (bank : Bank) :
    (b.withBank kind c bank).bankOf other c = b.bankOf other c := by
  cases kind <;> cases other <;> first | rfl | exact absurd rfl apart

theorem bank_run (kind : BankKind) (c : Fin n) (b : Banks size n) :
    bank kind c b = .ok (b.bankOf kind c) b := by
  cases kind <;> simp [bank, bankOf]

theorem setBank_run (kind : BankKind) (c : Fin n) (new : Bank) (b : Banks size n) :
    setBank kind c new b = .ok () (b.withBank kind c new) := by
  cases kind <;> simp [setBank, withBank]

theorem spillBank_run (kind : BankKind) {c : Fin n} {enabled : Bool} {b : Banks size n}
    {q : Pool size n} {answer : Except Refusal Link}
    (pushed : Pool.push c (b.bankOf kind c).spill (kind = .upper) enabled b.pool = .ok answer q) :
    spillBank kind c enabled b = .ok (answer.map fun _ => ()) { b with pool := q } := by
  simp only [spillBank, Action.bind_run, bank_run, onPool, pushed]
  cases answer <;> rfl

theorem reloadBank_run (kind : BankKind) {c : Fin n} {b : Banks size n} {q : Pool size n}
    {s : Segment} (popped : Pool.pop c b.pool = .ok s q) :
    reloadBank kind c b =
      .ok () (({ b with pool := q }).withBank kind c ((b.bankOf kind c).reload s.data)) := by
  simp only [reloadBank, Action.bind_run, bank_run, onPool, popped, setBank_run]

end Banks

end Preempt
