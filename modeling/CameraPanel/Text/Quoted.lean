import CameraPanel.Text.Hidden

/-!
# Quoted texts

A quoted text stands between double quotes.  Inside, the double quote and the backslash follow a backslash, tab,
line feed, carriage return and the null character have a letter of their own, and every other hidden character is
written by its code point.
-/

namespace CameraPanel.Text

/-- A character by its code point, in hexadecimal between braces. -/
def codePoint (c : Char) : List Char := ['\\', 'u', '\x7b'] ++ Nat.toDigits 16 c.toNat ++ ['\x7d']

/-- A character as it stands between the quotes. -/
def escapeChar (c : Char) : List Char :=
  if c = '"' then ['\\', '"']
  else if c = '\\' then ['\\', '\\']
  else if c = '\t' then ['\\', 't']
  else if c = '\n' then ['\\', 'n']
  else if c = '\r' then ['\\', 'r']
  else if c = '\x00' then ['\\', '0']
  else if isHidden c then codePoint c
  else [c]

/-- A text as it stands between the quotes. -/
def escape (cs : List Char) : List Char := cs.flatMap escapeChar

/-- A text with its quotes. -/
def quoted (cs : List Char) : List Char := '"' :: (escape cs ++ ['"'])

end CameraPanel.Text
