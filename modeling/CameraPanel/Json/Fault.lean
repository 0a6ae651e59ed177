/-!
# Faults of JSON texts

A fault has a cause and a place: the number of bytes read before it was found.  Some faults are found by looking at
the next byte without reading it; their place counts that byte too, if there is one.  The message names the place by
line and column, the column in bytes.
-/

namespace CameraPanel.Json

/-- What is wrong with a text. -/
inductive Cause where
  | endInValue
  | endInString
  | endInList
  | endInObject
  | noValue
  | badWord
  | badNumber
  | outOfRange
  | badEscape
  | controlInString
  | loneSurrogate
  | endOfHexEscape
  | listComma
  | objectComma
  | noColon
  | keyNotString
  | trailingComma
  | trailingCharacters
  | tooDeep
  | repeatedField (name : String)
  | wrongType (found expected : String)
deriving DecidableEq

/-- The wording of a cause. -/
def Cause.message : Cause → String
  | endInValue => "EOF while parsing a value"
  | endInString => "EOF while parsing a string"
  | endInList => "EOF while parsing a list"
  | endInObject => "EOF while parsing an object"
  | noValue => "expected value"
  | badWord => "expected ident"
  | badNumber => "invalid number"
  | outOfRange => "number out of range"
  | badEscape => "invalid escape"
  | controlInString => "control character (\\u0000-\\u001F) found while parsing a string"
  | loneSurrogate => "lone leading surrogate in hex escape"
  | endOfHexEscape => "unexpected end of hex escape"
  | listComma => "expected `,` or `]`"
  | objectComma => "expected `,` or `\x7d`"
  | noColon => "expected `:`"
  | keyNotString => "key must be a string"
  | trailingComma => "trailing comma"
  | trailingCharacters => "trailing characters"
  | tooDeep => "recursion limit exceeded"
  | repeatedField name => "duplicate field `" ++ name ++ "`"
  | wrongType found expected => "invalid type: " ++ found ++ ", expected " ++ expected

/-- A cause with its place. -/
structure Fault where
  cause : Cause
  offset : Nat
  /-- Whether the byte after `offset` was looked at. -/
  peeked : Bool
deriving DecidableEq

/-- The number of bytes of a text. -/
def byteCount (cs : List Char) : Nat := cs.foldl (fun n c => n + c.utf8Size) 0

/-- The line of a byte offset in a text, and the offset at which that line starts.  The text starts at offset `pos`,
in the line `line` that starts at `start`. -/
def lineOf (offset : Nat) : List Char → (pos line start : Nat) → Nat × Nat
  | [], _, line, start => (line, start)
  | c :: rest, pos, line, start =>
    if offset ≤ pos then (line, start)
    else if c = '\n' then lineOf offset rest (pos + 1) (line + 1) (pos + 1)
    else lineOf offset rest (pos + c.utf8Size) line start

/-- The full wording of a fault in a text. -/
def Fault.message (text : List Char) (f : Fault) : String :=
  let offset := if f.peeked then min (f.offset + 1) (byteCount text) else f.offset
  let (line, start) := lineOf offset text 0 1 0
  f.cause.message ++ " at line " ++ toString line ++ " column " ++ toString (offset - start)

end CameraPanel.Json
