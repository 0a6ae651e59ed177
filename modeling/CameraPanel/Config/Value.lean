import CameraPanel.Number.Decimal
import CameraPanel.Text.Quoted

/-!
# Values of settings

A source of settings gives values without knowing what they are for.  A whole number is signed or unsigned as its
source has it; nothing is converted before a value is asked for.

Two values of one setting are merged so that the one that counts more is kept, and of two tables the entries of both.
-/

namespace CameraPanel.Config

/-- Sets the thing of a key in a list of entries, in its place if there is one. -/
def put {α : Type} (key : String) (a : α) : List (String × α) → List (String × α)
  | [] => [(key, a)]
  | (other, b) :: rest => if other = key then (key, a) :: rest else (other, b) :: put key a rest

theorem lookup_put_self {α : Type} (key : String) (a : α) (entries : List (String × α)) :
    (put key a entries).lookup key = some a := by
  induction entries with
  | nil => simp [put]
  | cons e rest ih =>
    obtain ⟨other, b⟩ := e
    by_cases h : other = key
    · simp [put, h]
    · have hkey : (key == other) = false := by simpa using fun k => h k.symm
      simp [put, h, List.lookup_cons, hkey, ih]

theorem lookup_put_of_ne {α : Type} {key other : String} (a : α) (entries : List (String × α)) (h : other ≠ key) :
    (put key a entries).lookup other = entries.lookup other := by
  have hkey : (other == key) = false := by simpa using h
  induction entries with
  | nil => simp [put, h]
  | cons e rest ih =>
    obtain ⟨k, b⟩ := e
    by_cases hk : k = key
    · simp [put, hk, List.lookup_cons, hkey]
    · simp [put, hk, List.lookup_cons, ih]

inductive Value where
  | bool (value : Bool)
  | signed (value : Int)
  | unsigned (value : Nat)
  | float (value : Double)
  | string (value : String)
  | list (items : List Value)
  | table (entries : List (String × Value))

namespace Value

/-- What a table has for a key. -/
def entry? (key : String) : Value → Option Value
  | table entries => entries.lookup key
  | _ => none

def isTable : Value → Bool
  | table _ => true
  | _ => false

/-- The table that has a value at the end of a path, and nothing else. -/
def nest : List String → Value → Value
  | [], v => v
  | key :: path, v => table [(key, nest path v)]

mutual

/-- What is left of two values, of which the second counts more. -/
def merge (below : Value) : Value → Value
  | table entries =>
    match below with
    | table others => table (mergeEntries others entries)
    | _ => table entries
  | above => above

/-- The entries of two tables, of which the second counts more. -/
def mergeEntries (below : List (String × Value)) : List (String × Value) → List (String × Value)
  | [] => below
  | (key, v) :: rest =>
    let merged := match below.lookup key with
      | some other => merge other v
      | none => v
    put key merged (mergeEntries below rest)

end

/-- A key that is in both tables has what its two values merge to; any other has its only value. -/
theorem lookup_mergeEntries (key : String) (below above : List (String × Value)) :
    (mergeEntries below above).lookup key =
      match below.lookup key, above.lookup key with
      | some other, some v => some (merge other v)
      | none, some v => some v
      | other, none => other := by
  induction above with
  | nil => cases h : below.lookup key <;> simp [mergeEntries, h]
  | cons e rest ih =>
    obtain ⟨k, v⟩ := e
    by_cases hk : key = k
    · subst hk
      cases h : below.lookup key <;> simp [mergeEntries, lookup_put_self, h]
    · have hkey : (key == k) = false := by simpa using hk
      simp only [mergeEntries, lookup_put_of_ne _ _ hk, ih, List.lookup_cons, hkey]

/-- The key by which a table stands for the value that it has there. -/
def standIn : String := "___figment_value_value"

/-- The key that no table may have beside or instead of `standIn`. -/
def reserved : String := "___figment_value_id"

mutual

/-- A value in which every table with the key `standIn` is replaced by what it stands for; `none` if a table in it has
the key `reserved`. -/
def resolve? : Value → Option Value
  | table entries => do
    let entries ← resolveEntries? entries
    if (entries.lookup reserved).isSome then none else some ((entries.lookup standIn).getD (table entries))
  | list items => return list (← resolveItems? items)
  | v => some v

def resolveItems? : List Value → Option (List Value)
  | [] => some []
  | v :: rest => return (← resolve? v) :: (← resolveItems? rest)

/-- The entries of a table with what their values stand for.  The keys of the table itself may be any. -/
def resolveEntries? : List (String × Value) → Option (List (String × Value))
  | [] => some []
  | (key, v) :: rest => return (key, ← resolve? v) :: (← resolveEntries? rest)

end

/-- A value as a message names it. -/
def description : Value → String
  | bool b => "bool " ++ if b then "true" else "false"
  | signed n => "signed int `" ++ toString n ++ "`"
  | unsigned n => "unsigned int `" ++ toString n ++ "`"
  | float x => "float `" ++ x.text ++ "`"
  | string s => "string " ++ String.ofList (Text.quoted s.toList)
  | list _ => "sequence"
  | table _ => "map"

end Value

end CameraPanel.Config
