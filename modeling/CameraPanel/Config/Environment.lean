import CameraPanel.Config.Layers
import CameraPanel.Number.Literal
import CameraPanel.Text.Blank
import CameraPanel.Text.Escape

/-!
# Settings in the environment

A variable whose name starts with `CAMSYNC_`, in any case, names a setting by the rest of its name: two underscores or
a point divide the keys, and the keys are in lower case.  The value is a truth value, a number, a text, or tables and
lists of them in braces and brackets; whatever cannot be read that way is a text as a whole.

The variables are merged into one table.
-/

namespace CameraPanel.Config

/-- Variables by name, in the order in which they were first set. -/
abbrev Environment := List (String × String)

namespace Environment

/-- The environment in which variables were set one after the other; the last text of a name counts. -/
def ofList (settings : List (String × String)) : Environment :=
  settings.foldl (fun env (name, text) => put name text env) []

/-! ### Names -/

/-- The start of the names that count, in lower case. -/
def marker : List Char := "camsync_".toList

/-- A name divided at its points and at two underscores. -/
def parts : List Char → List (List Char)
  | [] => [[]]
  | '_' :: '_' :: rest => [] :: parts rest
  | c :: rest =>
    if c = '.' then [] :: parts rest
    else match parts rest with
      | part :: others => (c :: part) :: others
      | [] => [[c]]

/-- The keys that a name stands for; `none` if it names no setting. -/
def keys? (name : String) : Option (List String) :=
  let name := Text.trim name.toList
  if (name.take marker.length).map Char.toLower = marker then
    let keys := parts (Text.trim (name.drop marker.length))
    if keys.any List.isEmpty then none else some (keys.map fun key => String.ofList (key.map Char.toLower))
  else none

/-! ### Values -/

/-- Whether a character may stand around the parts of a value. -/
def isSpace (c : Char) : Bool := c == ' ' || c == '\t' || c == '\n' || c == '\x0c' || c == '\r'

/-- Whether a character ends a word. -/
def isSeparator (c : Char) : Bool := c == ',' || c == '\x7b' || c == '\x7d' || c == '[' || c == ']'

/-- Whether a character may stand in a key without quotes. -/
def isBare (c : Char) : Bool := c.isAlphanum || c == '_' || c == '-'

/-- A whole number with an optional sign. -/
def integer? (cs : List Char) : Option (Bool × Nat) :=
  let (negative, ds) := Literal.sign cs
  if ds.isEmpty || !ds.all Char.isDigit then none else some (negative, digitsValue ds)

/-- The value of a word: a number if it has the form of one and a word of 64 bits holds it, otherwise a text.  Only a
word with a point can be a floating number. -/
def wordValue (word : List Char) : Value :=
  let whole : Value :=
    match integer? word with
    | some (false, n) => if n < 0x10000000000000000 then .unsigned n else .string (String.ofList word)
    | some (true, n) => if n ≤ 0x8000000000000000 then .signed (-n) else .string (String.ofList word)
    | none => .string (String.ofList word)
  if word.contains '.' then
    match Format.double.ofLiteral? word with
    | some x => .float x
    | none => whole
  else whole

/-- Why a text is not read as a value. -/
inductive Flaw where
  /-- It has not the form of a value. -/
  | form
  /-- It would be cut inside a character. -/
  | cut
deriving DecidableEq

/-- The characters at the start of a text that take a number of bytes; `none` if the last would be cut. -/
def firstBytes? : Nat → List Char → Option (List Char)
  | 0, _ => some []
  | _ + 1, [] => none
  | n + 1, c :: cs => if c.utf8Size ≤ n + 1 then (firstBytes? (n + 1 - c.utf8Size) cs).map (c :: ·) else none

/-- What the characters between two quotes stand for.  If there is an escape, then of the characters before the first
one only as many bytes are kept as there are characters. -/
def unquoted (part : List Char) : Except Flaw (List Char) :=
  let (start, rest) := part.span (· ≠ '\\')
  if !start.all Text.isPlain then .error .form
  else if rest.isEmpty then .ok start
  else
    match firstBytes? start.length start with
    | none => .error .cut
    | some kept =>
      match Text.unescape? rest with
      | none => .error .form
      | some text => .ok (kept ++ text)

/-- A text between quotes, read after the first. -/
def quotedText (cs : List Char) : Except Flaw (List Char × List Char) :=
  match Text.quotedPart? cs with
  | none => .error .form
  | some (part, rest) => (unquoted part).map fun text => (text, rest)

/-- A key in braces with the blanks around it, bare or between quotes. -/
def readKey (cs : List Char) : Except Flaw (List Char × List Char) := do
  let (key, rest) ← match cs.dropWhile isSpace with
    | '"' :: rest => quotedText rest
    | cs => if (cs.takeWhile isBare).isEmpty then .error .form else .ok (cs.span isBare)
  return (key, rest.dropWhile isSpace)

mutual

/-- A value with the blanks around it.  The first argument bounds the depth of the recursion. -/
def readValue : Nat → List Char → Except Flaw (Value × List Char)
  | 0, _ => .error .form
  | n + 1, cs => do
    let cs := cs.dropWhile isSpace
    let (v, rest) ← match cs with
      | 't' :: 'r' :: 'u' :: 'e' :: rest => .ok (Value.bool true, rest)
      | 'f' :: 'a' :: 'l' :: 's' :: 'e' :: rest => .ok (.bool false, rest)
      | '\x7b' :: rest => (readMembers n [] rest).map fun (entries, rest) => (.table entries, rest)
      | '[' :: rest => (readItems n rest).map fun (items, rest) => (.list items, rest)
      | '"' :: rest => (quotedText rest).map fun (text, rest) => (.string (String.ofList text), rest)
      | '\x27' :: c :: '\x27' :: rest => .ok (.string (String.ofList [c]), rest)
      | '\x27' :: _ => .error .form
      | cs =>
        let (word, rest) := cs.span fun c => !isSeparator c
        .ok (wordValue (Text.trim word), rest)
    return (v, rest.dropWhile isSpace)

/-- The items of a list up to its bracket.  A comma may follow the last. -/
def readItems : Nat → List Char → Except Flaw (List Value × List Char)
  | 0, _ => .error .form
  | n + 1, cs =>
    match cs with
    | ']' :: rest => .ok ([], rest)
    | cs => do
      let (item, rest) ← readValue n cs
      match rest with
      | ',' :: rest => do
        let (items, rest) ← readItems n rest
        return (item :: items, rest)
      | ']' :: rest => return ([item], rest)
      | _ => .error .form

/-- The entries of a table up to its brace, added to those already read.  A comma may follow the last. -/
def readMembers : Nat → List (String × Value) → List Char → Except Flaw (List (String × Value) × List Char)
  | 0, _, _ => .error .form
  | n + 1, entries, cs =>
    match cs with
    | '\x7d' :: rest => .ok (entries, rest)
    | cs => do
      let (key, rest) ← readKey cs
      match rest with
      | '=' :: rest => do
        let (v, rest) ← readValue n rest
        let entries := put (String.ofList key) v entries
        match rest with
        | ',' :: rest => readMembers n entries rest
        | '\x7d' :: rest => return (entries, rest)
        | _ => .error .form
      | _ => .error .form

end

/-- The value of a variable; `none` if a text in it would be cut inside a character. -/
def value? (text : String) : Option Value :=
  match readValue (2 * text.length + 2) text.toList with
  | .ok (v, []) => some v
  | .error .cut => none
  | _ => some (.string text)

/-! ### All variables -/

/-- What a variable adds to what the variables before it say. -/
def add? (said : Value) (name text : String) : Option Value :=
  match keys? name with
  | some keys => (value? text).map fun v => said.merge (.nest keys v)
  | none => some said

/-- What the variables say, as one table; a later one counts more than an earlier one.  It is `none` if the text of a
variable would be cut inside a character. -/
def table? (env : Environment) : Option Value :=
  env.foldlM (fun said (name, text) => add? said name text) (.table [])

end Environment

end CameraPanel.Config
