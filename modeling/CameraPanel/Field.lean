import CameraPanel.Number.Decimal

/-!
# The fields of the camera

The panel shows six settings: the offset of the camera's position along each axis and of its rotation around each
axis.  `PerField α` holds one `α` for each of them, and `Offsets` six plain numbers.
-/

namespace CameraPanel

/-! ### Fields -/

inductive Field where
  | posX
  | posY
  | posZ
  | rotX
  | rotY
  | rotZ
deriving DecidableEq

namespace Field

/-- All fields, in the order in which they are read, written and shown. -/
def all : List Field := [posX, posY, posZ, rotX, rotY, rotZ]

/-- The name under which the engine keeps the setting. -/
def name : Field → String
  | posX => "camPosX"
  | posY => "camPosY"
  | posZ => "camPosZ"
  | rotX => "camRotX"
  | rotY => "camRotY"
  | rotZ => "camRotZ"

/-- The place of a field in `all`. -/
def index : Field → Nat
  | posX => 0
  | posY => 1
  | posZ => 2
  | rotX => 3
  | rotY => 4
  | rotZ => 5

/-- The field of a name. -/
def ofName? (name : String) : Option Field := all.find? fun k => k.name = name

theorem mem_all (k : Field) : k ∈ all := by cases k <;> decide

theorem index_lt (k : Field) : k.index < 6 := by cases k <;> decide

theorem index_injective {j k : Field} (h : j.index = k.index) : j = k := by cases j <;> cases k <;> simp_all [index]

theorem all_nodup : all.Nodup := by decide

theorem ofName?_name (k : Field) : ofName? k.name = some k := by cases k <;> decide

end Field

/-- A name that is not the name of a field. -/
structure UnknownField where
  name : String
deriving DecidableEq

def UnknownField.message (e : UnknownField) : String := "Unknown camera setting: " ++ e.name

/-! ### One thing for each field -/

structure PerField (α : Type) where
  posX : α
  posY : α
  posZ : α
  rotX : α
  rotY : α
  rotZ : α
deriving DecidableEq

namespace PerField

variable {α β : Type}

/-- The thing of a field. -/
def get (t : PerField α) : Field → α
  | .posX => t.posX
  | .posY => t.posY
  | .posZ => t.posZ
  | .rotX => t.rotX
  | .rotY => t.rotY
  | .rotZ => t.rotZ

/-- Replaces the thing of one field. -/
def set (t : PerField α) (k : Field) (a : α) : PerField α :=
  match k with
  | .posX => { t with posX := a }
  | .posY => { t with posY := a }
  | .posZ => { t with posZ := a }
  | .rotX => { t with rotX := a }
  | .rotY => { t with rotY := a }
  | .rotZ => { t with rotZ := a }

/-- The table of a function on fields. -/
def ofFn (f : Field → α) : PerField α := ⟨f .posX, f .posY, f .posZ, f .rotX, f .rotY, f .rotZ⟩

/-- The same thing for every field. -/
def fill (a : α) : PerField α := ofFn fun _ => a

def map (f : α → β) (t : PerField α) : PerField β := ofFn fun k => f (t.get k)

/-- The six things in the order of the fields. -/
def toList (t : PerField α) : List α := Field.all.map t.get

/-- The six fields with their things. -/
def entries (t : PerField α) : List (Field × α) := Field.all.map fun k => (k, t.get k)

@[simp] theorem get_ofFn (f : Field → α) (k : Field) : (ofFn f).get k = f k := by cases k <;> rfl

@[simp] theorem get_fill (a : α) (k : Field) : (fill a).get k = a := get_ofFn _ k

@[simp] theorem get_map (f : α → β) (t : PerField α) (k : Field) : (t.map f).get k = f (t.get k) := get_ofFn _ k

@[simp] theorem get_set_self (t : PerField α) (k : Field) (a : α) : (t.set k a).get k = a := by cases k <;> rfl

theorem get_set_of_ne (t : PerField α) {j k : Field} (a : α) (h : j ≠ k) : (t.set k a).get j = t.get j := by
  cases k <;> cases j <;> simp_all [set, get]

theorem ext_get {t u : PerField α} (h : ∀ k, t.get k = u.get k) : t = u := by
  cases t
  cases u
  simp only [mk.injEq]
  exact ⟨h .posX, h .posY, h .posZ, h .rotX, h .rotY, h .rotZ⟩

end PerField

/-! ### Offsets -/

/-- Six plain numbers. -/
abbrev Offsets := PerField Double

namespace Offsets

/-- The offsets that a reset restores. -/
def default : Offsets where
  posX := .ofInt 0
  posY := .ofInt 0
  posZ := .ofInt 0
  rotX := Format.double.nearest (15 / 2)
  rotY := .ofInt 1
  rotZ := .ofInt 0

/-- Numeric equality of all six numbers. -/
def eq (a b : Offsets) : Bool := Field.all.all fun k => (a.get k).eq (b.get k)

end Offsets

/-- The value that a reset restores for one field. -/
def Field.default (k : Field) : Double := Offsets.default.get k

end CameraPanel
