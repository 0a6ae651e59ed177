import CameraPanel.Field
import CameraPanel.Json.Reader
import CameraPanel.Text.Quoted

/-!
# Offsets in JSON

Offsets are read from an object with a member for each field, or from an array of numbers in the order of the fields.
What is missing takes its default.  Members with other names are passed over; a field may not come twice.  A value of
the wrong kind is a fault that tells what was found.
-/

namespace CameraPanel.Json

/-- The kind of a value that was read in full. -/
def kindText : Json → String
  | .null => "null"
  | .bool b => "boolean `" ++ (if b then "true" else "false") ++ "`"
  | .integer n => "integer `" ++ String.ofList (integerChars n) ++ "`"
  | .number x => "floating point `" ++ String.ofList (numberChars x) ++ "`"
  | .string s => "string " ++ String.ofList (Text.quoted s.toList)
  | .array _ => "sequence"
  | .object _ => "map"

/-- The fault of a value at the cursor that is not what was expected.  Arrays and objects are not read. -/
def wrongKind {α : Type} (expected : String) (c : Cursor) : Except Fault α :=
  match c.rest with
  | '[' :: _ => c.fault (.wrongType "sequence" expected)
  | '\x7b' :: _ => c.fault (.wrongType "map" expected)
  | _ => do
    let (v, c) ← readValue 1 0 c
    c.fault (.wrongType (kindText v) expected)

/-- The number after the cursor. -/
def readDouble (c : Cursor) : Except Fault (Double × Cursor) := do
  let c := c.skipGap
  match c.rest with
  | [] => c.peekFault .endInValue
  | ch :: _ =>
    if ch = '-' ∨ ch.isDigit then
      match ← readNumber c with
      | (.integer n, c) => return (.ofInt n, c)
      | (.number x, c) => return (x, c)
      | (_, c) => c.peekFault .noValue
    else wrongKind "f64" c

/-- Numbers for some fields in order, up to the end of an array. -/
def readFields (o : Offsets) (first : Bool) : List Field → Cursor → Except Fault (Offsets × Cursor)
  | [], c =>
    let c := c.skipGap
    match c.rest with
    | [] => c.peekFault .endInList
    | ']' :: rest => .ok (o, c.advance 1 rest)
    | ',' :: rest =>
      let c := (c.advance 1 rest).skipGap
      match c.rest with
      | ']' :: _ => c.peekFault .trailingComma
      | _ => c.peekFault .trailingCharacters
    | _ => c.peekFault .trailingCharacters
  | k :: fields, c => do
    let (more, c) ← nextItem first c
    if more then
      let (x, c) ← readDouble c
      readFields (o.set k x) false fields c
    else return (o, c)

/-- The fault of a field that comes again, placed after the gap behind its name, or after the brace that ends the object
there. -/
def repeatedFault {α : Type} (k : Field) (c : Cursor) : Except Fault α :=
  let c := c.skipGap
  match c.rest with
  | '\x7d' :: rest => (c.advance 1 rest).fault (.repeatedField k.name)
  | _ => c.fault (.repeatedField k.name)

/-- The members of an object; `seen` are the fields that came already.  The first argument bounds the number of
members. -/
def readOffsetMembers : Nat → (o : Offsets) → (seen : List Field) → (first : Bool) → Cursor →
    Except Fault (Offsets × Cursor)
  | 0, _, _, _, c => c.fault .endInObject
  | n + 1, o, seen, first, c => do
    let (more, c) ← nextMember first c
    if more then
      let (name, c) ← readString c
      match Field.ofName? (String.ofList name) with
      | some k =>
        if k ∈ seen then repeatedFault k c
        else
          let (x, c) ← readDouble (← readColon c)
          readOffsetMembers n (o.set k x) (k :: seen) false c
      | none =>
        let c ← readColon c
        readOffsetMembers n o seen false (← skipValue (2 * c.rest.length + 2) c)
    else return (o, c)

/-- Reads a text as offsets. -/
def readOffsets? (cs : List Char) : Except Fault Offsets := do
  let c := (Cursor.start cs).skipGap
  let (o, c) ← match c.rest with
    | [] => c.peekFault .endInValue
    | '[' :: rest => readFields .default true Field.all (c.advance 1 rest)
    | '\x7b' :: rest => readOffsetMembers (cs.length + 1) .default [] true (c.advance 1 rest)
    | _ => wrongKind "struct CameraOffsets" c
  readEnd c
  return o

end CameraPanel.Json
