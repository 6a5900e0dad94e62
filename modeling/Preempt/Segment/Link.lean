import Preempt.Settings

/-!
Link words of context segments. A raw link word has a segment number in its low 20 bits and two
flags above that; the ten bits above the flags have no meaning and are carried along. Number 0 ends
a chain, number `i + 1` names segment `i` of the pool. `ofRaw_raw` and `raw_ofRaw` say that the
fields and the raw word hold the same information.
-/

namespace Preempt

abbrev segmentNumbers : Nat := 0x100000

structure Link where
  number : Fin segmentNumbers := 0
  /-- The linked segment holds an upper context. -/
  upper : Bool := false
  /-- Interrupts were enabled in the context that the link returns to. -/
  enabled : Bool := false
  /-- The bits above the flags. -/
  spare : Fin 0x400 := 0
deriving DecidableEq

namespace Link

/-- Bits of a link word that hold the segment number. -/
def numberMask : UInt32 := 0x000FFFFF

def null : Link := {}

instance : Inhabited Link := ⟨null⟩

def ofRaw (raw : UInt32) : Link where
  number := ⟨raw.toNat % 0x100000, Nat.mod_lt _ (by decide)⟩
  upper := raw.toNat / 0x100000 % 2 = 1
  enabled := raw.toNat / 0x200000 % 2 = 1
  spare := ⟨raw.toNat / 0x400000 % 0x400, Nat.mod_lt _ (by decide)⟩

def flagBits (l : Link) : Nat := 0x100000 * l.upper.toNat + 0x200000 * l.enabled.toNat

def raw (l : Link) : UInt32 := .ofNat (l.number + l.flagBits + 0x400000 * l.spare)

def ofIndex (index : Nat) : Link := { number := Fin.ofNat segmentNumbers (index + 1) }

def isNull (l : Link) : Bool := l.number.val = 0

/-- The segment that the link names, if it does not end the chain. -/
def index? (l : Link) : Option Nat :=
  match l.number.val with
  | 0 => none
  | i + 1 => some i

/-- The link with its flags stripped. -/
def address (l : Link) : Link := { number := l.number }

def withFlags (l : Link) (upper enabled : Bool) : Link :=
  { number := l.number, upper, enabled }

def text (l : Link) : String := s!"SegmentHandle({l.raw})"

theorem toNat_raw (l : Link) : l.raw.toNat = l.number + l.flagBits + 0x400000 * l.spare := by
  have number := l.number.isLt
  have spare := l.spare.isLt
  have upper := Bool.toNat_lt l.upper
  have enabled := Bool.toNat_lt l.enabled
  simp only [raw, UInt32.toNat_ofNat']
  apply Nat.mod_eq_of_lt
  simp only [flagBits, segmentNumbers] at *
  omega

@[simp] theorem ofRaw_raw (l : Link) : ofRaw l.raw = l := by
  have number := l.number.isLt
  have spare := l.spare.isLt
  have value := toNat_raw l
  rcases l with ⟨⟨num, hnum⟩, upper, enabled, ⟨rest, hrest⟩⟩
  simp only [segmentNumbers, flagBits] at number spare value hnum
  simp only [ofRaw, value]
  cases upper <;> cases enabled <;> simp <;> omega

@[simp] theorem raw_ofRaw (raw : UInt32) : (ofRaw raw).raw = raw := by
  apply UInt32.toNat_inj.mp
  have bound := raw.toNat_lt
  rw [toNat_raw]
  simp only [ofRaw, flagBits]
  generalize raw.toNat = value at bound
  have upper : (decide (value / 0x100000 % 2 = 1)).toNat = value / 0x100000 % 2 := by
    rcases Nat.mod_two_eq_zero_or_one (value / 0x100000) with h | h <;> rw [h] <;> rfl
  have enabled : (decide (value / 0x200000 % 2 = 1)).toNat = value / 0x200000 % 2 := by
    rcases Nat.mod_two_eq_zero_or_one (value / 0x200000) with h | h <;> rw [h] <;> rfl
  rw [upper, enabled]
  omega

@[simp] theorem address_address (l : Link) : l.address.address = l.address := rfl

@[simp] theorem address_withFlags (l : Link) (upper enabled : Bool) :
    (l.withFlags upper enabled).address = l.address := rfl

@[simp] theorem isNull_address (l : Link) : l.address.isNull = l.isNull := rfl

@[simp] theorem index?_address (l : Link) : l.address.index? = l.index? := rfl

@[simp] theorem index?_withFlags (l : Link) (upper enabled : Bool) :
    (l.withFlags upper enabled).index? = l.index? := rfl

theorem isNull_iff_index?_eq_none (l : Link) : l.isNull = true ↔ l.index? = none := by
  rcases l with ⟨⟨_ | n, hn⟩, _, _, _⟩ <;> simp [isNull, index?]

theorem index?_ofIndex {index : Nat} (h : index + 1 < segmentNumbers) :
    (ofIndex index).index? = some index := by
  simp [ofIndex, index?, Fin.ofNat, Nat.mod_eq_of_lt h]

end Link

end Preempt
