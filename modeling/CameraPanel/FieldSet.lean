import CameraPanel.Field

/-!
# Sets of fields

A set of fields is a byte with one bit for each field.  The two highest bits belong to no field; they stay as they
are unless an operation touches them.
-/

namespace CameraPanel

structure FieldSet where
  bits : UInt8
deriving DecidableEq

namespace FieldSet

/-- The bits that belong to fields. -/
def known : UInt8 := 0x3F

def empty : FieldSet := ⟨0⟩

/-- The set of one field. -/
def single (k : Field) : FieldSet := ⟨(1 : UInt8) <<< UInt8.ofNat k.index⟩

/-- The set of some bits, without those that belong to no field. -/
def ofKnown (bits : UInt8) : FieldSet := ⟨bits &&& known⟩

/-- The set of some bits, if they all belong to fields. -/
def ofBits? (bits : UInt8) : Option FieldSet := if bits &&& known = bits then some ⟨bits⟩ else none

def union (s t : FieldSet) : FieldSet := ⟨s.bits ||| t.bits⟩

def diff (s t : FieldSet) : FieldSet := ⟨s.bits &&& ~~~t.bits⟩

def symmDiff (s t : FieldSet) : FieldSet := ⟨s.bits ^^^ t.bits⟩

def inter (s t : FieldSet) : FieldSet := ⟨s.bits &&& t.bits⟩

/-- The fields that are not in the set. -/
def compl (s : FieldSet) : FieldSet := ofKnown (~~~s.bits)

/-- Whether all bits of `t` are in `s`. -/
def includes (s t : FieldSet) : Bool := s.bits &&& t.bits == t.bits

/-- Whether some bit of `t` is in `s`. -/
def meets (s t : FieldSet) : Bool := s.bits &&& t.bits != 0

def contains (s : FieldSet) (k : Field) : Bool := s.includes (single k)

def insert (s : FieldSet) (k : Field) : FieldSet := s.union (single k)

/-- The fields of the set, in their order. -/
def toList (s : FieldSet) : List Field := Field.all.filter s.contains

def isEmpty (s : FieldSet) : Bool := s.bits == 0

/-- Whether every field is in the set. -/
def isFull (s : FieldSet) : Bool := s.includes ⟨known⟩

@[simp] theorem toList_empty : empty.toList = [] := by decide

/-! ### Membership -/

private theorem single_toBitVec (k : Field) : (single k).bits.toBitVec = BitVec.twoPow 8 k.index := by
  cases k <;> rfl

/-- A field is in the set if its bit is. -/
theorem contains_eq_getLsbD (s : FieldSet) (k : Field) : s.contains k = s.bits.toBitVec.getLsbD k.index := by
  have hne : BitVec.twoPow 8 k.index ≠ 0#8 := by cases k <;> decide
  rw [contains, includes, Bool.eq_iff_iff, beq_iff_eq, ← UInt8.toBitVec_inj, UInt8.toBitVec_and, single_toBitVec,
    BitVec.and_twoPow]
  cases s.bits.toBitVec.getLsbD k.index <;> simp [hne.symm]

@[simp] theorem contains_empty (k : Field) : empty.contains k = false := by cases k <;> rfl

@[simp] theorem contains_insert (s : FieldSet) (j k : Field) :
    (s.insert j).contains k = (s.contains k || decide (j = k)) := by
  have hj : j.index < 8 := Nat.lt_trans j.index_lt (by decide)
  have hjk : j.index = k.index ↔ j = k := ⟨Field.index_injective, fun h => h ▸ rfl⟩
  rw [contains_eq_getLsbD, contains_eq_getLsbD, insert, union, UInt8.toBitVec_or, single_toBitVec,
    BitVec.getLsbD_or, BitVec.getLsbD_twoPow]
  simp [hj, hjk]

/-! ### Text -/

/-- The name of a field's bit. -/
def bitName : Field → String
  | .posX => "CAM_POS_X"
  | .posY => "CAM_POS_Y"
  | .posZ => "CAM_POS_Z"
  | .rotX => "CAM_ROT_X"
  | .rotY => "CAM_ROT_Y"
  | .rotZ => "CAM_ROT_Z"

/-- The set by the names of its bits; bits that belong to no field come last, as a number. -/
def text (s : FieldSet) : String :=
  let rest := s.bits &&& ~~~known
  let names := s.toList.map bitName
  let hex := "0x" ++ String.ofList (Nat.toDigits 16 rest.toNat)
  let parts := if rest == 0 && !names.isEmpty then names else names ++ [hex]
  "FieldMask(" ++ " | ".intercalate parts ++ ")"

end FieldSet

end CameraPanel
