import CameraPanel.Number.Decimal

/-!
# Number literals

A literal is an optional sign, then a word for an infinity or not-a-number in any case, or decimal digits with an
optional point and an optional exponent.  Digits may be missing on one side of the point.  Nothing else may stand in
a literal: no blanks, no separators between digits, and no digits but the ASCII ones.
-/

namespace CameraPanel

/-- The value of a list of decimal digits. -/
def digitsValue (ds : List Char) : Nat := ds.foldl (fun n c => 10 * n + (c.toNat - '0'.toNat)) 0

namespace Literal

/-- An optional sign, and what follows it. -/
def sign : List Char → Bool × List Char
  | '-' :: rest => (true, rest)
  | '+' :: rest => (false, rest)
  | rest => (false, rest)

/-- The exponent that ends a literal; nothing is an exponent of zero. -/
def exponent? : List Char → Option Int
  | [] => some 0
  | c :: rest =>
    if c = 'e' ∨ c = 'E' then
      let (negative, ds) := sign rest
      if ds.isEmpty || !ds.all Char.isDigit then none
      else some (if negative then -(digitsValue ds : Int) else digitsValue ds)
    else none

/-- The fraction digits after an optional point, and what follows them. -/
def fraction : List Char → List Char × List Char
  | '.' :: rest => rest.span Char.isDigit
  | rest => ([], rest)

/-- An unsigned literal of digits. -/
def decimal? (cs : List Char) : Option Decimal :=
  let (whole, rest) := cs.span Char.isDigit
  let (frac, rest) := fraction rest
  if whole.isEmpty && frac.isEmpty then none
  else (exponent? rest).map fun e => ⟨digitsValue (whole ++ frac), e - frac.length⟩

/-- The words for infinity. -/
def infinityWords : List (List Char) := ["inf".toList, "infinity".toList]

/-- The word for not-a-number. -/
def nanWord : List Char := "nan".toList

end Literal

/-- The number that a literal denotes, correctly rounded; `none` if the text is no literal. -/
def Format.ofLiteral? (F : Format) (cs : List Char) : Option (Binary F) :=
  let (negative, body) := Literal.sign cs
  let word := body.map Char.toLower
  if word ∈ Literal.infinityWords then some (.infinity negative)
  else if word = Literal.nanWord then some .nan
  else (Literal.decimal? body).map (F.ofDecimal negative)

end CameraPanel
