import CameraPanel.Json.Numeral
import CameraPanel.Text.Hex

/-!
# JSON strings

`readString` reads a string up to its closing quote and undoes the escapes; a character beyond the basic plane is
written as two escapes, a high and a low surrogate.  `skipString` only looks for the closing quote: it wants every
escape to be complete but does not ask what the escapes denote.
-/

namespace CameraPanel.Json

/-- The four hexadecimal digits of an escape.  Four bytes are read before they are looked at. -/
def readHex (c : Cursor) : Except Fault (Nat × Cursor) :=
  if byteCount (c.rest.take 4) < 4 then .error ⟨.endInString, c.offset + byteCount c.rest, false⟩
  else match Text.hexValue? (c.rest.take 4) with
    | some n => .ok (n, c.advance 4 (c.rest.drop 4))
    | none => .error ⟨.badEscape, c.offset + 4, false⟩

/-- The character that a letter after a backslash stands for. -/
def escapeLetter? : Char → Option Char
  | '"' => some '"'
  | '\\' => some '\\'
  | '/' => some '/'
  | 'b' => some '\x08'
  | 'f' => some '\x0c'
  | 'n' => some '\n'
  | 'r' => some '\r'
  | 't' => some '\t'
  | _ => none

/-- The low surrogate that has to follow a high one, and the character of the two. -/
def readLowSurrogate (high : Nat) (c : Cursor) : Except Fault (Char × Cursor) :=
  match c.rest with
  | [] => c.fault .endInString
  | '\\' :: rest =>
    let c := c.advance 1 rest
    match c.rest with
    | [] => c.fault .endInString
    | 'u' :: rest => do
      let (low, c) ← readHex (c.advance 1 rest)
      if 0xDC00 ≤ low ∧ low ≤ 0xDFFF then
        return (Char.ofNat (0x10000 + 0x400 * (high - 0xD800) + (low - 0xDC00)), c)
      else c.fault .loneSurrogate
    | _ => c.nextFault .endOfHexEscape
  | _ => c.nextFault .endOfHexEscape

/-- The character of an escape, read after its backslash. -/
def readEscape (c : Cursor) : Except Fault (Char × Cursor) :=
  match c.rest with
  | [] => c.fault .endInString
  | 'u' :: rest => do
    let (n, c) ← readHex (c.advance 1 rest)
    if 0xDC00 ≤ n ∧ n ≤ 0xDFFF then c.fault .loneSurrogate
    else if 0xD800 ≤ n ∧ n ≤ 0xDBFF then readLowSurrogate n c
    else return (Char.ofNat n, c)
  | letter :: rest =>
    match escapeLetter? letter with
    | some ch => .ok (ch, c.advance 1 rest)
    | none => c.nextFault .badEscape

/-- The characters up to the closing quote, after those already read, which are in reverse.  The first argument bounds
the number of characters. -/
def readStringBody : Nat → List Char → Cursor → Except Fault (List Char × Cursor)
  | 0, _, c => c.fault .endInString
  | n + 1, done, c =>
    match c.rest with
    | [] => c.fault .endInString
    | '"' :: rest => .ok (done.reverse, c.advance 1 rest)
    | '\\' :: rest => do
      let (ch, c) ← readEscape (c.advance 1 rest)
      readStringBody n (ch :: done) c
    | ch :: rest =>
      if ch.toNat < 0x20 then c.nextFault .controlInString
      else readStringBody n (ch :: done) (c.advance ch.utf8Size rest)

/-- The text of a string, read after its opening quote. -/
def readString (c : Cursor) : Except Fault (List Char × Cursor) := readStringBody (c.rest.length + 1) [] c

/-- The place after an escape, which is complete but otherwise not looked at. -/
def skipEscape (c : Cursor) : Except Fault Cursor :=
  match c.rest with
  | [] => c.fault .endInString
  | 'u' :: rest => (readHex (c.advance 1 rest)).map (·.2)
  | letter :: rest =>
    if (escapeLetter? letter).isSome then .ok (c.advance 1 rest) else c.nextFault .badEscape

/-- The place after the closing quote.  The first argument bounds the number of characters. -/
def skipStringBody : Nat → Cursor → Except Fault Cursor
  | 0, c => c.fault .endInString
  | n + 1, c =>
    match c.rest with
    | [] => c.fault .endInString
    | '"' :: rest => .ok (c.advance 1 rest)
    | '\\' :: rest => do skipStringBody n (← skipEscape (c.advance 1 rest))
    | ch :: rest =>
      if ch.toNat < 0x20 then c.fault .controlInString
      else skipStringBody n (c.advance ch.utf8Size rest)

/-- The place after a string, from the one after its opening quote. -/
def skipString (c : Cursor) : Except Fault Cursor := skipStringBody (c.rest.length + 1) c

end CameraPanel.Json
