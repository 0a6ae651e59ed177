import CameraPanel.Number.Decimal

/-!
# JSON values and their text

Whole numbers that a machine word holds are kept apart from the other numbers, because they are written without a
point.  The members of an object are kept in the order of their names, one member for each name.
-/

namespace CameraPanel

inductive Json where
  | null
  | bool (value : Bool)
  | integer (value : Int)
  | number (value : Double)
  | string (value : String)
  | array (items : List Json)
  | object (members : List (String × Json))

namespace Json

/-! ### Numbers -/

/-- Numbers are written out if their first digit stands at most five places after the point or sixteen before it,
with a point in every case; other exponents have a sign. -/
def numberLayout : Layout where
  tie := .toEven
  writtenOut := fun e => -5 ≤ e && e ≤ 15
  wholePoint := true
  plusExponent := true

/-- The text of a number; what is not finite has none and is written `null`. -/
def numberChars (x : Double) : List Char :=
  if x.isFinite then numberLayout.chars x else ['n', 'u', 'l', 'l']

/-- The text of an integer. -/
def integerChars (n : Int) : List Char := signed (decide (n < 0)) (decimalDigits n.natAbs)

/-! ### Strings -/

/-- A control character by its code, in four hexadecimal digits. -/
def controlChars (c : Char) : List Char :=
  let hex := Nat.toDigits 16 c.toNat
  '\\' :: 'u' :: (List.replicate (4 - hex.length) '0' ++ hex)

/-- A character as it stands in a string. -/
def stringChar (c : Char) : List Char :=
  if c = '"' then ['\\', '"']
  else if c = '\\' then ['\\', '\\']
  else if c = '\x08' then ['\\', 'b']
  else if c = '\x0c' then ['\\', 'f']
  else if c = '\n' then ['\\', 'n']
  else if c = '\r' then ['\\', 'r']
  else if c = '\t' then ['\\', 't']
  else if c.toNat < 0x20 then controlChars c
  else [c]

/-- The text of a string. -/
def stringChars (cs : List Char) : List Char := '"' :: (cs.flatMap stringChar ++ ['"'])

/-! ### Values -/

mutual

/-- The compact text of a value. -/
def chars : Json → List Char
  | null => ['n', 'u', 'l', 'l']
  | bool true => ['t', 'r', 'u', 'e']
  | bool false => ['f', 'a', 'l', 's', 'e']
  | integer n => integerChars n
  | number x => numberChars x
  | string s => stringChars s.toList
  | array items => '[' :: (itemsChars items ++ [']'])
  | object members => '\x7b' :: (membersChars members ++ ['\x7d'])

/-- The items of an array, with the commas between them. -/
def itemsChars : List Json → List Char
  | [] => []
  | [v] => chars v
  | v :: rest => chars v ++ ',' :: itemsChars rest

/-- The members of an object, with the commas between them. -/
def membersChars : List (String × Json) → List Char
  | [] => []
  | [(name, v)] => stringChars name.toList ++ ':' :: chars v
  | (name, v) :: rest => stringChars name.toList ++ ':' :: (chars v ++ ',' :: membersChars rest)

end

/-- The compact text of a value. -/
def text (v : Json) : String := String.ofList v.chars

/-- Adds a member in its place; a member of the same name gives way. -/
def insertMember (name : String) (v : Json) : List (String × Json) → List (String × Json)
  | [] => [(name, v)]
  | (other, w) :: rest =>
    if name < other then (name, v) :: (other, w) :: rest
    else if name = other then (name, v) :: rest
    else (other, w) :: insertMember name v rest

end Json

end CameraPanel
