import CameraPanel.Config.Value
import CameraPanel.Number.Literal
import CameraPanel.Text.Hex

/-!
# Numbers, dates and times

Single underscores may stand between digits.  A whole number has no leading zeros and fits a signed word of 64 bits;
without a sign it may be hexadecimal, octal or binary.  A number with a fraction or an exponent is rounded, and must not
be too large for it.  A date has to be one of the calendar.
-/

namespace CameraPanel.Toml

open Config (Value)

/-! ### Digits -/

/-- The digits that follow a first one, without the underscores between them. -/
def moreDigits? (isDigit : Char → Bool) : List Char → Option (List Char × List Char)
  | [] => some ([], [])
  | '_' :: c :: rest =>
    if isDigit c then do
      let (ds, rest) ← moreDigits? isDigit rest
      return (c :: ds, rest)
    else none
  | c :: rest =>
    if isDigit c then do
      let (ds, rest) ← moreDigits? isDigit rest
      return (c :: ds, rest)
    else if c = '_' then none
    else some ([], c :: rest)

/-- One or more digits. -/
def digits? (isDigit : Char → Bool) : List Char → Option (List Char × List Char)
  | c :: rest =>
    if isDigit c then do
      let (ds, rest) ← moreDigits? isDigit rest
      return (c :: ds, rest)
    else none
  | [] => none

/-- The digits in front of a point: a zero stands alone. -/
def wholeDigits? : List Char → Option (List Char × List Char)
  | '0' :: rest => some (['0'], rest)
  | cs => digits? Char.isDigit cs

/-! ### Numbers -/

/-- A whole number that fits a signed word of 64 bits. -/
def wholeNumber? (n : Int) : Option Value :=
  if -0x8000000000000000 ≤ n ∧ n < 0x8000000000000000 then some (.signed n) else none

/-- The digits of a base up to sixteen. -/
def isDigitOf (base : Nat) (c : Char) : Bool :=
  match Text.hexDigit? c with
  | some d => d < base
  | none => false

/-- A whole number in a base, read after the letter for it. -/
def based? (base : Nat) (cs : List Char) : Option (Value × List Char) := do
  let (ds, rest) ← digits? (isDigitOf base) cs
  let n := ds.foldl (fun n d => base * n + (Text.hexDigit? d).getD 0) 0
  return (← wholeNumber? n, rest)

/-- An exponent, if there is one. -/
def exponent? : List Char → Option (Option Int × List Char)
  | c :: rest =>
    if c = 'e' ∨ c = 'E' then do
      let (negative, rest) := Literal.sign rest
      let (ds, rest) ← digits? Char.isDigit rest
      let n : Int := digitsValue ds
      return (some (if negative then -n else n), rest)
    else some (none, c :: rest)
  | [] => some (none, [])

/-- A number with a fraction or an exponent.  One that is too large is refused, unless it is negative. -/
def rounded? (negative : Bool) (whole fraction : List Char) (exponent : Int) : Option Value :=
  match Format.double.ofDecimal negative ⟨digitsValue (whole ++ fraction), exponent - fraction.length⟩ with
  | .infinity false => none
  | x => some (.float x)

/-- A decimal number, read after its sign. -/
def decimal? (negative : Bool) (cs : List Char) : Option (Value × List Char) := do
  let (whole, rest) ← wholeDigits? cs
  match rest with
  | '.' :: rest => do
    let (fraction, rest) ← digits? Char.isDigit rest
    let (exponent, rest) ← exponent? rest
    return (← rounded? negative whole fraction (exponent.getD 0), rest)
  | rest => do
    let (exponent, rest) ← exponent? rest
    match exponent with
    | some e => return (← rounded? negative whole [] e, rest)
    | none =>
      let n : Int := digitsValue whole
      return (← wholeNumber? (if negative then -n else n), rest)

/-- A number or one of the words for an infinity and for not-a-number. -/
def number? : List Char → Option (Value × List Char)
  | '0' :: 'x' :: rest => based? 16 rest
  | '0' :: 'o' :: rest => based? 8 rest
  | '0' :: 'b' :: rest => based? 2 rest
  | cs =>
    let (negative, rest) := Literal.sign cs
    match rest with
    | 'i' :: 'n' :: 'f' :: rest => some (.float (.infinity negative), rest)
    | 'n' :: 'a' :: 'n' :: rest => some (.float .nan, rest)
    | rest => decimal? negative rest

/-! ### Dates and times -/

/-- A number of two digits in a range, and what follows it. -/
def twoDigits? (low high : Nat) : List Char → Option (Nat × List Char)
  | a :: b :: rest =>
    let n := digitsValue [a, b]
    if a.isDigit ∧ b.isDigit ∧ low ≤ n ∧ n ≤ high then some (n, rest) else none
  | _ => none

/-- What follows a given character. -/
def after? (c : Char) : List Char → Option (List Char)
  | d :: rest => if d = c then some rest else none
  | [] => none

def isLeapYear (year : Nat) : Bool := year % 4 == 0 && (year % 100 != 0 || year % 400 == 0)

/-- The number of days of a month. -/
def daysIn (year month : Nat) : Nat :=
  if month = 2 then if isLeapYear year then 29 else 28
  else if month ∈ [4, 6, 9, 11] then 30
  else 31

/-- What follows a date. -/
def date? (cs : List Char) : Option (List Char) := do
  let (century, rest) ← twoDigits? 0 99 cs
  let (year, rest) ← twoDigits? 0 99 rest
  let (month, rest) ← twoDigits? 1 12 (← after? '-' rest)
  let (_, rest) ← twoDigits? 1 (daysIn (100 * century + year) month) (← after? '-' rest)
  return rest

/-- What follows the fraction of a second, if there is one. -/
def secondFraction : List Char → List Char
  | '.' :: c :: rest => if c.isDigit then rest.dropWhile Char.isDigit else '.' :: c :: rest
  | cs => cs

/-- What follows a time of day. -/
def time? (cs : List Char) : Option (List Char) := do
  let (_, rest) ← twoDigits? 0 23 cs
  let (_, rest) ← twoDigits? 0 59 (← after? ':' rest)
  let (_, rest) ← twoDigits? 0 60 (← after? ':' rest)
  return secondFraction rest

/-- What follows the distance from universal time. -/
def offset? : List Char → Option (List Char)
  | c :: rest =>
    if c = 'Z' ∨ c = 'z' then some rest
    else if c = '+' ∨ c = '-' then do
      let (_, rest) ← twoDigits? 0 23 rest
      let (_, rest) ← twoDigits? 0 59 (← after? ':' rest)
      return rest
    else none
  | [] => none

/-- What follows the time that belongs to a date, if there is one. -/
def dayTime : List Char → List Char
  | c :: rest =>
    if c = 'T' ∨ c = 't' ∨ c = ' ' then
      match time? rest with
      | some rest => (offset? rest).getD rest
      | none => c :: rest
    else c :: rest
  | [] => []

/-- What follows a date, a time, or both. -/
def moment? (cs : List Char) : Option (List Char) :=
  match date? cs with
  | some rest => some (dayTime rest)
  | none => time? cs

/-- A date, a time or a number.  No setting is a date or a time, so that nothing of them is kept: they are tables
without entries. -/
def scalar? (cs : List Char) : Option (Value × List Char) :=
  match moment? cs with
  | some rest => some (.table [], rest)
  | none => number? cs

end CameraPanel.Toml
