import CameraPanel.Toml.Scalar
import CameraPanel.Toml.Strings
import CameraPanel.Toml.Tables

/-!
# Reading TOML

`Toml.read?` reads a text as the table that it describes.  Only whether a text is well formed is told, not what is
wrong with it.
-/

namespace CameraPanel.Toml

open Config (Value)

/-- A path without its last key, and that key. -/
def splitPath? (path : List String) : Option (List String × String) :=
  path.getLast?.map fun key => (path.dropLast, key)

/-! ### Values -/

mutual

/-- A value; `depth` is one more than the nesting that is left.  The first argument bounds the depth of the
recursion. -/
def value? : Nat → (depth : Nat) → List Char → Option (Value × List Char)
  | 0, _, _ => none
  | n + 1, depth, cs =>
    match cs with
    | '[' :: rest =>
      if depth ≤ 1 then none
      else do
        let (items, rest) ← items? n (depth - 1) rest
        return (.list items, rest)
    | '\x7b' :: rest =>
      if depth ≤ 1 then none
      else do
        let (entries, rest) ← members? n (depth - 1) true [] (skipPad rest)
        return (.table entries.toValues, rest)
    | 't' :: 'r' :: 'u' :: 'e' :: rest => some (.bool true, rest)
    | 'f' :: 'a' :: 'l' :: 's' :: 'e' :: rest => some (.bool false, rest)
    | c :: _ =>
      if c = '"' ∨ c = '\x27' then do
        let (text, rest) ← string? cs
        return (.string (String.ofList text), rest)
      else scalar? cs
    | [] => none

/-- The items of an array up to its bracket.  A comma may follow the last. -/
def items? : Nat → (depth : Nat) → List Char → Option (List Value × List Char)
  | 0, _, _ => none
  | n + 1, depth, cs => do
    match ← skipLines false cs with
    | ']' :: rest => return ([], rest)
    | cs => do
      let (item, rest) ← value? n depth cs
      match ← skipLines false rest with
      | ',' :: rest => do
        let (items, rest) ← items? n depth rest
        return (item :: items, rest)
      | ']' :: rest => return ([item], rest)
      | _ => none

/-- The members of a table on one line up to its brace, added to those already read. -/
def members? : Nat → (depth : Nat) → (first : Bool) → Entries → List Char → Option (Entries × List Char)
  | 0, _, _, _, _ => none
  | n + 1, depth, first, entries, cs =>
    match first, cs with
    | true, '\x7d' :: rest => some (entries, rest)
    | _, cs => do
      let (path, rest) ← keyPath? cs
      let (path, key) ← splitPath? path
      let (v, rest) ← value? n depth (skipPad (← after? '=' rest))
      let entries ← entries.define path key v
      match skipPad rest with
      | ',' :: rest => members? n depth false entries rest
      | '\x7d' :: rest => return (entries, rest)
      | _ => none

end

/-- Bounds the recursion on a text: every call but the first follows a character of its own or the call for an item. -/
def recursionBound (cs : List Char) : Nat := 2 * cs.length + 2

/-! ### Lines -/

/-- What has been read of a text: its tables, and the path of the last header. -/
structure Draft where
  root : Entries
  header : List String

/-- A line that gives a value to a key. -/
def Draft.assignment? (d : Draft) (cs : List Char) : Option (Draft × List Char) := do
  let (path, rest) ← keyPath? cs
  let (path, key) ← splitPath? path
  let (v, rest) ← value? (recursionBound cs) nestingLimit (skipPad (← after? '=' rest))
  return ({ d with root := ← d.root.defineIn d.header path key v }, ← lineEnd? rest)

/-- A header of a table, read after its bracket. -/
def Draft.table? (d : Draft) (cs : List Char) : Option (Draft × List Char) := do
  let (header, rest) ← keyPath? cs
  let (path, key) ← splitPath? header
  return (⟨← d.root.openTable path key, header⟩, ← lineEnd? (← after? ']' rest))

/-- A header of an array of tables, read after its brackets. -/
def Draft.element? (d : Draft) (cs : List Char) : Option (Draft × List Char) := do
  let (header, rest) ← keyPath? cs
  let (path, key) ← splitPath? header
  return (⟨← d.root.openElement path key, header⟩, ← lineEnd? (← after? ']' (← after? ']' rest)))

/-- One line. -/
def Draft.line? (d : Draft) (cs : List Char) : Option (Draft × List Char) :=
  match skipPad cs with
  | '[' :: '[' :: rest => d.element? rest
  | '[' :: rest => d.table? rest
  | c :: rest =>
    if c = '#' ∨ c = '\n' ∨ c = '\r' then (lineEnd? (c :: rest)).map fun rest => (d, rest)
    else d.assignment? (c :: rest)
  | [] => some (d, [])

/-- All lines.  The first argument bounds their number. -/
def Draft.lines? : Nat → Draft → List Char → Option Draft
  | 0, _, _ => none
  | n + 1, d, cs =>
    if cs.isEmpty then some d
    else do
      let (d, rest) ← d.line? cs
      lines? n d rest

/-- The text without a byte order mark. -/
def skipMark : List Char → List Char
  | '\ufeff' :: rest => rest
  | cs => cs

/-- The entries of the table that a text describes. -/
def read? (cs : List Char) : Option (List (String × Value)) := do
  let cs := skipMark cs
  let d ← Draft.lines? (cs.length + 1) ⟨[], []⟩ cs
  return d.root.toValues

end CameraPanel.Toml
