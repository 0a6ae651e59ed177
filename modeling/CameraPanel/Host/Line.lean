import CameraPanel.Field

/-!
# The line of the panel

The panel is shown as one line: the fields with their values, two spaces between them.  Values have two decimals, and
a field without a value has dashes.  The selected field stands in brackets.
-/

namespace CameraPanel

namespace Line

/-- The value of a field. -/
def valueChars : Option Double → List Char
  | some v => v.fixed 2
  | none => ['-', '-']

/-- A field with its value. -/
def fieldChars (k : Field) (value : Option Double) (selected : Bool) : List Char :=
  let chars := k.name.toList ++ ':' :: ' ' :: valueChars value
  if selected then '[' :: (chars ++ [']']) else chars

/-- What stands between two fields. -/
def gap : List Char := [' ', ' ']

/-- The line. -/
def chars (values : PerField (Option Double)) (selected : Field) : List Char :=
  gap.intercalate (Field.all.map fun k => fieldChars k (values.get k) (k = selected))

/-- The line. -/
def text (values : PerField (Option Double)) (selected : Field) : String := String.ofList (chars values selected)

end Line

/-- The window could not be opened. -/
structure WindowError where
  detail : String

def WindowError.message (e : WindowError) : String := "Window creation failed: " ++ e.detail

end CameraPanel
