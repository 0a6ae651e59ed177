import CameraPanel.Json.Strings

/-!
# Reading JSON

`Json.read?` reads a whole text as one value.  Arrays and objects may be nested up to `nestingLimit`.
`skipValue` passes over a value of which nothing is kept; it has no limit on nesting or on numbers, and after a comma
it finds a missing item where `readValue` finds a trailing comma.
-/

namespace CameraPanel.Json

/-- Whether a character may stand between the parts of a text. -/
def isGap (c : Char) : Bool := c == ' ' || c == '\t' || c == '\n' || c == '\r'

/-- The place after the gap in front of the cursor. -/
def Cursor.skipGap (c : Cursor) : Cursor :=
  c.advance (c.rest.takeWhile isGap).length (c.rest.dropWhile isGap)

/-- The letters of a word, one by one. -/
def readWord : List Char → Cursor → Except Fault Cursor
  | [], c => .ok c
  | l :: ls, c =>
    match c.rest with
    | [] => c.fault .endInValue
    | ch :: rest => if ch = l then readWord ls (c.advance 1 rest) else c.nextFault .badWord

/-- The colon between the name and the value of a member. -/
def readColon (c : Cursor) : Except Fault Cursor :=
  let c := c.skipGap
  match c.rest with
  | [] => c.peekFault .endInObject
  | ':' :: rest => .ok (c.advance 1 rest)
  | _ => c.peekFault .noColon

/-- Goes to the next item of an array: whether there is one, and its place or the one after the bracket. -/
def nextItem (first : Bool) (c : Cursor) : Except Fault (Bool × Cursor) :=
  let c := c.skipGap
  match c.rest with
  | [] => c.peekFault .endInList
  | ']' :: rest => .ok (false, c.advance 1 rest)
  | ch :: rest =>
    if first then .ok (true, c)
    else if ch = ',' then
      let c := (c.advance 1 rest).skipGap
      match c.rest with
      | [] => c.peekFault .endInValue
      | ']' :: _ => c.peekFault .trailingComma
      | _ => .ok (true, c)
    else c.peekFault .listComma

/-- Goes to the next member of an object: whether there is one, and the place after the quote of its name or after the
brace. -/
def nextMember (first : Bool) (c : Cursor) : Except Fault (Bool × Cursor) :=
  let c := c.skipGap
  match c.rest with
  | [] => c.peekFault .endInObject
  | '\x7d' :: rest => .ok (false, c.advance 1 rest)
  | ch :: rest =>
    if first then
      if ch = '"' then .ok (true, c.advance 1 rest) else c.peekFault .keyNotString
    else if ch = ',' then
      let c := (c.advance 1 rest).skipGap
      match c.rest with
      | [] => c.peekFault .endInValue
      | '"' :: rest => .ok (true, c.advance 1 rest)
      | '\x7d' :: _ => c.peekFault .trailingComma
      | _ => c.peekFault .keyNotString
    else c.peekFault .objectComma

/-- The number of arrays and objects, one inside the other, at which a text is too deep. -/
def nestingLimit : Nat := 128

mutual

/-- The value after the cursor; `depth` is one more than the nesting that is left.  The first argument bounds the
depth of the recursion. -/
def readValue : Nat → (depth : Nat) → Cursor → Except Fault (Json × Cursor)
  | 0, _, c => c.fault .endInValue
  | n + 1, depth, c =>
    let c := c.skipGap
    match c.rest with
    | [] => c.peekFault .endInValue
    | 'n' :: rest => do return (.null, ← readWord ['u', 'l', 'l'] (c.advance 1 rest))
    | 't' :: rest => do return (.bool true, ← readWord ['r', 'u', 'e'] (c.advance 1 rest))
    | 'f' :: rest => do return (.bool false, ← readWord ['a', 'l', 's', 'e'] (c.advance 1 rest))
    | '"' :: rest => do
      let (s, c) ← readString (c.advance 1 rest)
      return (.string (String.ofList s), c)
    | '[' :: rest =>
      if depth ≤ 1 then c.peekFault .tooDeep
      else do
        let (items, c) ← readItems n (depth - 1) true (c.advance 1 rest)
        return (.array items, c)
    | '\x7b' :: rest =>
      if depth ≤ 1 then c.peekFault .tooDeep
      else do
        let (members, c) ← readMembers n (depth - 1) true [] (c.advance 1 rest)
        return (.object members, c)
    | ch :: _ => if ch = '-' ∨ ch.isDigit then readNumber c else c.peekFault .noValue

/-- The items of an array up to its bracket. -/
def readItems : Nat → (depth : Nat) → (first : Bool) → Cursor → Except Fault (List Json × Cursor)
  | 0, _, _, c => c.fault .endInList
  | n + 1, depth, first, c => do
    let (more, c) ← nextItem first c
    if more then
      let (item, c) ← readValue n depth c
      let (items, c) ← readItems n depth false c
      return (item :: items, c)
    else return ([], c)

/-- The members of an object up to its brace, added to those already read. -/
def readMembers : Nat → (depth : Nat) → (first : Bool) → List (String × Json) → Cursor →
    Except Fault (List (String × Json) × Cursor)
  | 0, _, _, _, c => c.fault .endInObject
  | n + 1, depth, first, members, c => do
    let (more, c) ← nextMember first c
    if more then
      let (name, c) ← readString c
      let (v, c) ← readValue n depth (← readColon c)
      readMembers n depth false (insertMember (String.ofList name) v members) c
    else return (members, c)

end

/-- Nothing but a gap may follow a value. -/
def readEnd (c : Cursor) : Except Fault Unit :=
  let c := c.skipGap
  if c.rest.isEmpty then .ok () else c.peekFault .trailingCharacters

/-- Bounds the recursion on a text: each call but the first follows a character of its own or the call for an item. -/
def recursionBound (cs : List Char) : Nat := 2 * cs.length + 2

/-- Reads a text as one value. -/
def read? (cs : List Char) : Except Fault Json := do
  let (v, c) ← readValue (recursionBound cs) nestingLimit (Cursor.start cs)
  readEnd c
  return v

/-! ### Values that are not kept -/

mutual

/-- The place after a value of which nothing is kept. -/
def skipValue : Nat → Cursor → Except Fault Cursor
  | 0, c => c.fault .endInValue
  | n + 1, c =>
    let c := c.skipGap
    match c.rest with
    | [] => c.peekFault .endInValue
    | 'n' :: rest => readWord ['u', 'l', 'l'] (c.advance 1 rest)
    | 't' :: rest => readWord ['r', 'u', 'e'] (c.advance 1 rest)
    | 'f' :: rest => readWord ['a', 'l', 's', 'e'] (c.advance 1 rest)
    | '"' :: rest => skipString (c.advance 1 rest)
    | '[' :: rest => skipItems n false (c.advance 1 rest)
    | '\x7b' :: rest => skipMembers n false (c.advance 1 rest)
    | '-' :: rest => (Numeral.lex .badNumber (c.advance 1 rest)).map (·.2)
    | ch :: _ => if ch.isDigit then (Numeral.lex .badNumber c).map (·.2) else c.peekFault .noValue

/-- The place after the bracket of an array; `comma` tells whether a comma may come. -/
def skipItems : Nat → (comma : Bool) → Cursor → Except Fault Cursor
  | 0, _, c => c.fault .endInList
  | n + 1, comma, c =>
    let c := c.skipGap
    match c.rest with
    | [] => c.peekFault .endInList
    | ']' :: rest => .ok (c.advance 1 rest)
    | ch :: rest =>
      if !comma then do skipItems n true (← skipValue n c)
      else if ch = ',' then do skipItems n true (← skipValue n (c.advance 1 rest))
      else c.peekFault .listComma

/-- The place after the brace of an object; `comma` tells whether a comma may come. -/
def skipMembers : Nat → (comma : Bool) → Cursor → Except Fault Cursor
  | 0, _, c => c.fault .endInObject
  | n + 1, comma, c =>
    let c := c.skipGap
    match c.rest with
    | [] => c.peekFault .endInObject
    | '\x7d' :: rest => .ok (c.advance 1 rest)
    | ch :: rest =>
      if comma && ch != ',' then c.peekFault .objectComma
      else
        let c := (if comma then c.advance 1 rest else c).skipGap
        match c.rest with
        | [] => c.peekFault .endInObject
        | '"' :: rest => do
          let c ← readColon (← skipString (c.advance 1 rest))
          skipMembers n true (← skipValue n c)
        | _ => c.peekFault .keyNotString

end

end CameraPanel.Json
