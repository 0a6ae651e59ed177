import CameraPanel.Text.Escape

/-!
# Blanks, comments and line breaks

A line break is a line feed, with or without a carriage return in front.  A comment runs to the end of its line and has
no control characters but tabs.
-/

namespace CameraPanel.Toml

open Text (isPlain)

/-- Whether a character may stand between the parts of a line. -/
def isPad (c : Char) : Bool := c == ' ' || c == '\t'

/-- The text after the blanks at its start. -/
def skipPad (cs : List Char) : List Char := cs.dropWhile isPad

/-- What follows a line break. -/
def lineBreak? : List Char → Option (List Char)
  | '\n' :: rest => some rest
  | '\r' :: '\n' :: rest => some rest
  | _ => none

/-- The text after a comment, if there is one. -/
def skipComment : List Char → List Char
  | '#' :: rest => rest.dropWhile isPlain
  | cs => cs

/-- What follows the rest of a line on which only blanks and a comment are left. -/
def lineEnd? (cs : List Char) : Option (List Char) :=
  match skipComment (skipPad cs) with
  | [] => some []
  | cs => lineBreak? cs

/-- What follows blanks, comments and line breaks; a comment has to end with a line break. -/
def skipLines : (inComment : Bool) → List Char → Option (List Char)
  | _, '\n' :: rest => skipLines false rest
  | _, '\r' :: '\n' :: rest => skipLines false rest
  | true, c :: rest => if isPlain c then skipLines true rest else none
  | true, [] => none
  | false, '#' :: rest => skipLines true rest
  | false, c :: rest => if isPad c then skipLines false rest else some (c :: rest)
  | false, [] => some []

end CameraPanel.Toml
