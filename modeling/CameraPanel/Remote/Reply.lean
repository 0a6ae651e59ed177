import CameraPanel.Json.Reader
import CameraPanel.Notice
import CameraPanel.Text.Blank
import CameraPanel.Text.Quoted

/-!
# Replies of the engine

The engine replies in JSON.  A reply holds a value if it is a number, or a string with a number literal in it; `null`
says that there is no value.
-/

namespace CameraPanel

namespace Reply

/-- The value of a JSON number or of a string with a literal. -/
def ofJson : Json → Answer
  | .null => .ok none
  | .integer n => .ok (some (.ofInt n))
  | .number x => .ok (some x)
  | .string s =>
    match Format.double.ofLiteral? (Text.trim s.toList) with
    | some x => .ok (some x)
    | none => .error (.decode ("not a number: " ++ String.ofList (Text.quoted s.toList)))
  | v => .error (.decode ("unexpected value: " ++ v.text))

/-- The answer that a reply holds. -/
def decode (reply : String) : Answer :=
  match Json.read? reply.toList with
  | .ok v => ofJson v
  | .error fault => .error (.decode (fault.message reply.toList ++ ": " ++ reply))

/-- The reply that tells of a number. -/
def encode (x : Double) : String := String.ofList (Json.numberChars x)

/-- The reply that tells of nothing. -/
def nothing : String := "null"

end Reply

end CameraPanel
