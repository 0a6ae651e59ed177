import CameraPanel.Text.Hex

/-!
# Escapes

In a text between double quotes a backslash starts an escape: a letter for one of the common control characters, the
quote or the backslash itself, or the code point of a character in four or eight hexadecimal digits.  Control
characters stand in such a text only as escapes, but for the tab.
-/

namespace CameraPanel.Text

/-- The character of a code point in a given number of digits, and what follows it. -/
def codeEscape? (digits : Nat) (cs : List Char) : Option (Char × List Char) := do
  if cs.length < digits then none
  let n ← hexValue? (cs.take digits)
  if n.isValidChar then some (Char.ofNat n, cs.drop digits) else none

/-- The character of an escape, read after its backslash, and what follows it. -/
def escape? : List Char → Option (Char × List Char)
  | '"' :: rest => some ('"', rest)
  | '\\' :: rest => some ('\\', rest)
  | 'b' :: rest => some ('\x08', rest)
  | 'f' :: rest => some ('\x0c', rest)
  | 'n' :: rest => some ('\n', rest)
  | 'r' :: rest => some ('\r', rest)
  | 't' :: rest => some ('\t', rest)
  | 'u' :: rest => codeEscape? 4 rest
  | 'U' :: rest => codeEscape? 8 rest
  | _ => none

/-- Whether a character may stand for itself in a text: everything but control characters, and the tab. -/
def isPlain (c : Char) : Bool := c == '\t' || (0x20 ≤ c.toNat && c.toNat != 0x7F)

/-- The text that escapes and plain characters stand for.  The first argument bounds their number. -/
def unescapeWithin? : Nat → List Char → Option (List Char)
  | _, [] => some []
  | 0, _ :: _ => none
  | n + 1, c :: rest =>
    if c = '\\' then do
      let (c, rest) ← escape? rest
      return c :: (← unescapeWithin? n rest)
    else if isPlain c then do
      return c :: (← unescapeWithin? n rest)
    else none

/-- The text that escapes and plain characters stand for. -/
def unescape? (cs : List Char) : Option (List Char) := unescapeWithin? cs.length cs

/-- What stands in front of the first quote that is not escaped, and what follows the quote. -/
def quotedPart? : List Char → Option (List Char × List Char)
  | [] => none
  | '"' :: rest => some ([], rest)
  | '\\' :: c :: rest => do
    let (part, rest) ← quotedPart? rest
    return ('\\' :: c :: part, rest)
  | c :: rest => do
    let (part, rest) ← quotedPart? rest
    return (c :: part, rest)

/-- The text up to a closing quote, read after the opening one, and what follows the quote. -/
def unquote? (cs : List Char) : Option (List Char × List Char) := do
  let (part, rest) ← quotedPart? cs
  return (← unescape? part, rest)

end CameraPanel.Text
