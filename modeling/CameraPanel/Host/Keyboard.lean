import CameraPanel.Field

/-!
# The keyboard

The panel is worked with the keyboard.  Only presses count.  A hidden panel hears no key but the one that shows it
again and the one that ends the program.
-/

namespace CameraPanel

/-- What the user asks for. -/
inductive Action where
  /-- Makes a field the one that edits go to. -/
  | select (field : Field)
  /-- Moves the selected field by a number of steps. -/
  | nudge (steps : Int)
  /-- Empties the selected field. -/
  | clear
  /-- Restores the default of every field. -/
  | reset
  /-- Shows or hides the panel. -/
  | toggle
  | exit
deriving DecidableEq

/-- The keys that the panel knows. -/
inductive Key where
  /-- The key with the number of a field, counted from one. -/
  | digit (field : Field)
  | arrowUp
  | arrowRight
  | arrowDown
  | arrowLeft
  | delete
  | backspace
  | r
  | h
  | escape
  | other
deriving DecidableEq

namespace Key

/-- The name of the key with the number of a field. -/
def digitName (k : Field) : String := "Digit" ++ toString (k.index + 1)

/-- The key of a name. -/
def ofName (name : String) : Key :=
  match Field.all.find? fun k => digitName k = name with
  | some k => digit k
  | none =>
    match name with
    | "ArrowUp" => arrowUp
    | "ArrowRight" => arrowRight
    | "ArrowDown" => arrowDown
    | "ArrowLeft" => arrowLeft
    | "Delete" => delete
    | "Backspace" => backspace
    | "KeyR" => r
    | "KeyH" => h
    | "Escape" => escape
    | _ => other

/-- What the press of a key asks of a panel that is shown. -/
def edit? : Key → Option Action
  | digit k => some (.select k)
  | arrowUp | arrowRight => some (.nudge 1)
  | arrowDown | arrowLeft => some (.nudge (-1))
  | delete | backspace => some .clear
  | r => some .reset
  | _ => none

/-- What a key event asks for. -/
def action? (key : Key) (pressed visible : Bool) : Option Action :=
  if !pressed then none
  else match key with
    | escape => some .exit
    | h => some .toggle
    | _ => if visible then key.edit? else none

end Key

end CameraPanel
