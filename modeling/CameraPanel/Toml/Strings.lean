import CameraPanel.Toml.Gap

/-!
# Strings and keys

A string stands between double quotes, with escapes, or between single quotes, as it is.  Three quotes open a string of
several lines: a line break right after them does not count, and line breaks inside are line feeds.  It ends with
three quotes, before which up to two more belong to the text.
-/

namespace CameraPanel.Toml

open Text (isPlain)

/-- A text read from the front, and what follows it. -/
abbrev Taken := Option (List Char × List Char)

/-- A character in front of a taken text. -/
def Taken.cons (c : Char) : Taken → Taken
  | some (text, rest) => some (c :: text, rest)
  | none => none

/-! ### Strings on one line -/

/-- A string between double quotes, read after the first. -/
def basicString (cs : List Char) : Taken := Text.unquote? cs

/-- A string between single quotes, read after the first. -/
def literalString : List Char → Taken
  | [] => none
  | '\x27' :: rest => some ([], rest)
  | c :: rest => if isPlain c then (literalString rest).cons c else none

/-! ### Strings on several lines -/

/-- The number of times that a text starts with a quote. -/
def quoteCount (quote : Char) (cs : List Char) : Nat := (cs.takeWhile (· == quote)).length

/-- The text of a string of several lines, if a quote ends it here: three quotes end it, after up to two that belong
to it. -/
def closing? (quote : Char) (cs : List Char) : Taken :=
  let n := quoteCount quote cs
  if 3 ≤ n ∧ n ≤ 5 then some (List.replicate (n - 3) quote, cs.drop n) else none

/-- Whether only blanks stand in front of a line break. -/
def endsLine (cs : List Char) : Bool := (lineBreak? (skipPad cs)).isSome

/-- The text after blanks and line breaks. -/
def skipBlankLines : List Char → List Char
  | '\n' :: rest => skipBlankLines rest
  | '\r' :: '\n' :: rest => skipBlankLines rest
  | c :: rest => if isPad c then skipBlankLines rest else c :: rest
  | [] => []

/-- The characters of a string of several lines.  If `escapes`, a backslash starts an escape, or at the end of a line
swallows the blanks and line breaks up to the next character.  The first argument bounds the number of characters. -/
def longBody (quote : Char) (escapes : Bool) : Nat → List Char → Taken
  | 0, _ => none
  | n + 1, cs =>
    match cs with
    | [] => none
    | '\n' :: rest => (longBody quote escapes n rest).cons '\n'
    | '\r' :: rest =>
      match rest with
      | '\n' :: rest => (longBody quote escapes n rest).cons '\n'
      | _ => none
    | c :: rest =>
      if c = quote then
        if quoteCount quote cs ≤ 2 then (longBody quote escapes n rest).cons c else closing? quote cs
      else if escapes ∧ c = '\\' then
        if endsLine rest then longBody quote escapes n (skipBlankLines rest)
        else do
          let (c, rest) ← Text.escape? rest
          (longBody quote escapes n rest).cons c
      else if isPlain c then (longBody quote escapes n rest).cons c
      else none

/-- A string of several lines, read after its three quotes. -/
def longString (quote : Char) (escapes : Bool) (cs : List Char) : Taken :=
  let cs := (lineBreak? cs).getD cs
  longBody quote escapes (cs.length + 1) cs

/-- A string of any form. -/
def string? : List Char → Taken
  | '"' :: '"' :: '"' :: rest => longString '"' true rest
  | '"' :: rest => basicString rest
  | '\x27' :: '\x27' :: '\x27' :: rest => longString '\x27' false rest
  | '\x27' :: rest => literalString rest
  | _ => none

/-! ### Keys -/

/-- Whether a character may stand in a key without quotes. -/
def isBare (c : Char) : Bool := c.isAlphanum || c == '_' || c == '-'

/-- One key, bare or between quotes. -/
def key? : List Char → Taken
  | '"' :: rest => basicString rest
  | '\x27' :: rest => literalString rest
  | cs => if (cs.takeWhile isBare).isEmpty then none else some (cs.span isBare)

/-- Keys with points between them.  The first argument bounds their number. -/
def keys? : Nat → List Char → Option (List String × List Char)
  | 0, _ => none
  | n + 1, cs => do
    let (key, rest) ← key? (skipPad cs)
    match skipPad rest with
    | '.' :: rest => do
      let (keys, rest) ← keys? n rest
      return (String.ofList key :: keys, rest)
    | rest => return ([String.ofList key], rest)

/-- The depth at which keys and values are nested too deep. -/
def nestingLimit : Nat := 80

/-- The path of keys to a value or table. -/
def keyPath? (cs : List Char) : Option (List String × List Char) := do
  let (keys, rest) ← keys? (cs.length + 1) cs
  if keys.length < nestingLimit then return (keys, rest) else none

end CameraPanel.Toml
