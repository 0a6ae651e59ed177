import CameraPanel.Config.Value

/-!
# Tables under construction

While a text is read it is known of every table how it came to be, because that decides whether it may still grow.  A
table that was only passed on the way to another may be opened by a header of its own; a table made by a key with
points grows by such keys only; a table that has its header is complete for keys with points.
-/

namespace CameraPanel.Toml

open Config (Value put)

/-- How a table came to be. -/
inductive Origin where
  /-- By a header of its own. -/
  | header
  /-- On the way to a table with a header. -/
  | passage
  /-- By a key with points. -/
  | dotted
deriving DecidableEq

/-- What stands at a key: a value, a table, or an array of tables, of which only the last may still grow. -/
inductive Node where
  | value (v : Value)
  | table (origin : Origin) (entries : List (String × Node))
  | tables (earlier : List Value) (last : List (String × Node))

abbrev Entries := List (String × Node)

mutual

def Node.toValue : Node → Value
  | .value v => v
  | .table _ entries => .table (Entries.toValues entries)
  | .tables earlier last => .list (earlier ++ [.table (Entries.toValues last)])

def Entries.toValues : Entries → List (String × Value)
  | [] => []
  | (key, node) :: rest => (key, node.toValue) :: Entries.toValues rest

end

namespace Entries

/-- Changes the table at the end of a path.  Missing tables on the way are made with the origin `made`.  A path leads
into the last table of an array, never into a value, and a key with points never into a table with a header. -/
def change (made : Origin) (f : Origin → Entries → Option Entries) : List String → Origin → Entries → Option Entries
  | [], origin, entries => f origin entries
  | key :: path, _, entries => do
    let node ← match entries.lookup key with
      | none => (change made f path made []).map (Node.table made)
      | some (.value _) => none
      | some (.table origin inner) =>
        if made = .dotted ∧ origin = .header then none
        else (change made f path origin inner).map (Node.table origin)
      | some (.tables earlier last) => (change made f path .header last).map (Node.tables earlier)
    return put key node entries

/-- Gives a value to a new key.  The path in front of it is a key with points, so that it has to end in a table made by
such keys, if it is not empty. -/
def define (path : List String) (key : String) (v : Value) : Entries → Option Entries :=
  change .dotted
    (fun origin entries =>
      if (origin = .dotted ↔ path.isEmpty) ∨ (entries.lookup key).isSome then none
      else some (put key (.value v) entries))
    path .header

/-- Opens a table by its header. -/
def openTable (path : List String) (key : String) : Entries → Option Entries :=
  change .passage
    (fun _ entries =>
      match entries.lookup key with
      | none => some (put key (.table .header []) entries)
      | some (.table .passage inner) => some (put key (.table .header inner) entries)
      | some _ => none)
    path .header

/-- Opens a new last table of an array by its header. -/
def openElement (path : List String) (key : String) : Entries → Option Entries :=
  change .passage
    (fun _ entries =>
      match entries.lookup key with
      | none => some (put key (.tables [] []) entries)
      | some (.tables earlier last) => some (put key (.tables (earlier ++ [.table (toValues last)]) []) entries)
      | some _ => none)
    path .header

/-- Gives a value to a new key of the table that a header opened. -/
def defineIn (header path : List String) (key : String) (v : Value) : Entries → Option Entries :=
  change .passage (fun _ entries => entries.define path key v) header .header

end Entries

end CameraPanel.Toml
