import CameraPanel.Json.Fault
import CameraPanel.Json.Value
import CameraPanel.Number.Literal

/-!
# JSON numerals

A numeral is read in two steps.  `Numeral.lex` takes its parts off the front of a text, and `Numeral.value` computes
the number.  The digits are gathered in a machine word of 64 bits: whole digits that no longer fit only raise the
exponent, fraction digits that no longer fit are dropped.  The word is then turned into a number and multiplied or
divided by a power of ten, each with a rounding of its own, so the result need not be the number nearest to the
numeral.
-/

namespace CameraPanel.Json

/-- A place in a text: what is left of it, and the number of bytes before that. -/
structure Cursor where
  rest : List Char
  offset : Nat

namespace Cursor

/-- The start of a text. -/
def start (cs : List Char) : Cursor := ⟨cs, 0⟩

/-- The same place after `n` bytes, in front of `rest`. -/
def advance (c : Cursor) (n : Nat) (rest : List Char) : Cursor := ⟨rest, c.offset + n⟩

/-- A fault found at this place. -/
def fault {α : Type} (c : Cursor) (cause : Cause) : Except Fault α := .error ⟨cause, c.offset, false⟩

/-- A fault found by looking at the next byte. -/
def peekFault {α : Type} (c : Cursor) (cause : Cause) : Except Fault α := .error ⟨cause, c.offset, true⟩

/-- A fault found after reading one more byte. -/
def nextFault {α : Type} (c : Cursor) (cause : Cause) : Except Fault α := .error ⟨cause, c.offset + 1, false⟩

/-- The digits in front of the cursor, and the place after them. -/
def digits (c : Cursor) : List Char × Cursor :=
  let (ds, rest) := c.rest.span Char.isDigit
  (ds, c.advance ds.length rest)

end Cursor

/-- The parts of a numeral without its minus sign.  A numeral with a fraction has at least one fraction digit. -/
structure Numeral where
  whole : List Char
  fraction : List Char
  /-- Whether the exponent is negative, and its digits. -/
  exponent : Option (Bool × List Char)

namespace Numeral

/-! ### Reading the parts -/

/-- The whole digits.  The first of several is not zero.  `atEnd` is the fault of a text that ends here. -/
def lexWhole (atEnd : Cause) (c : Cursor) : Except Fault (List Char × Cursor) :=
  match c.rest with
  | [] => c.fault atEnd
  | d :: rest =>
    if d = '0' then
      let c' := c.advance 1 rest
      if (rest.head?.map Char.isDigit).getD false then c'.peekFault .badNumber else .ok (['0'], c')
    else if d.isDigit then .ok c.digits
    else c.nextFault .badNumber

/-- An optional point with fraction digits. -/
def lexFraction (atEnd : Cause) (c : Cursor) : Except Fault (List Char × Cursor) :=
  match c.rest with
  | '.' :: rest =>
    let (ds, c') := (c.advance 1 rest).digits
    if ds.isEmpty then c'.peekFault (if c'.rest.isEmpty then atEnd else .badNumber) else .ok (ds, c')
  | _ => .ok ([], c)

/-- An optional exponent. -/
def lexExponent (atEnd : Cause) (c : Cursor) : Except Fault (Option (Bool × List Char) × Cursor) :=
  match c.rest with
  | [] => .ok (none, c)
  | e :: rest =>
    if e = 'e' ∨ e = 'E' then
      let c := c.advance 1 rest
      let (negative, c) := match c.rest with
        | '-' :: rest => (true, c.advance 1 rest)
        | '+' :: rest => (false, c.advance 1 rest)
        | _ => (false, c)
      let (ds, c') := c.digits
      if ds.isEmpty then (if c.rest.isEmpty then c.fault atEnd else c.nextFault .badNumber)
      else .ok (some (negative, ds), c')
    else .ok (none, c)

/-- The parts of the numeral in front of the cursor. -/
def lex (atEnd : Cause) (c : Cursor) : Except Fault (Numeral × Cursor) := do
  let (whole, c) ← lexWhole atEnd c
  let (fraction, c) ← lexFraction atEnd c
  let (exponent, c) ← lexExponent atEnd c
  return (⟨whole, fraction, exponent⟩, c)

/-! ### The value -/

/-- Appends digits to a word as long as it fits in 64 bits; the digits that no longer fit are left. -/
def gather (word : Nat) : List Char → Nat × List Char
  | [] => (word, [])
  | d :: ds =>
    let next := 10 * word + (d.toNat - '0'.toNat)
    if next < 0x10000000000000000 then gather next ds else (word, d :: ds)

/-- A power of ten as a number. -/
def powerOfTen (n : Nat) : Double := Format.double.nearest (Nat.pow 10 n : Rat)

/-- The greatest power of ten that is a finite number has this exponent. -/
def greatestPower : Nat := 308

/-- Divides by the greatest power of ten until the negative exponent is within its range or the number is zero.
The first argument bounds the number of divisions. -/
def lower : Nat → Double → Int → Double × Int
  | 0, f, e => (f, e)
  | n + 1, f, e =>
    if e < -greatestPower ∧ f.isZero = false then lower n (f / powerOfTen greatestPower) (e + greatestPower) else (f, e)

/-- The number `word * 10 ^ e`; `none` if it is out of range. -/
def scale (word : Nat) (e : Int) : Option Double :=
  let f : Double := .ofInt word
  if 0 ≤ e then
    if greatestPower < e then (if f.isZero then some f else none)
    else
      let g := f * powerOfTen e.toNat
      if g.isInfinite then none else some g
  else
    let (f, e) := lower (e.natAbs / greatestPower + 1) f e
    if e < -greatestPower then some f else some (f / powerOfTen (-e).toNat)

/-- The exponent that a list of digits denotes.  If it does not fit in 31 bits, the digits after the first one that
is too many. -/
def boundedExponent (e : Nat) : List Char → Except (List Char) Nat
  | [] => .ok e
  | d :: ds =>
    let next := 10 * e + (d.toNat - '0'.toNat)
    if next < 0x80000000 then boundedExponent next ds else .error ds

/-- The value of a numeral that has a sign and ends at the cursor. -/
def value (negative : Bool) (n : Numeral) (c : Cursor) : Except Fault Json :=
  let (word, wholeLeft) := gather 0 n.whole
  let (word', fractionLeft) := gather word n.fraction
  let shift : Int := (wholeLeft.length : Int) - (n.fraction.length - fractionLeft.length : Nat)
  let finish (e : Int) : Except Fault Json :=
    match scale word' e with
    | some f => .ok (.number (if negative then -f else f))
    | none => c.fault .outOfRange
  match n.exponent with
  | some (negativeExponent, ds) =>
    match boundedExponent 0 ds with
    | .ok e => finish (if negativeExponent then shift - e else shift + e)
    | .error left =>
      if word' ≠ 0 ∧ negativeExponent = false then .error ⟨.outOfRange, c.offset - left.length, false⟩
      else .ok (.number (.zero negative))
  | none =>
    if n.fraction.isEmpty && wholeLeft.isEmpty then
      if !negative then .ok (.integer word)
      else if word = 0 ∨ 0x8000000000000000 < word then .ok (.number (-(.ofInt word)))
      else .ok (.integer (-(word : Int)))
    else finish shift

end Numeral

/-- The number that starts at the cursor, which stands at a minus sign or a digit. -/
def readNumber (c : Cursor) : Except Fault (Json × Cursor) := do
  let (negative, c) := match c.rest with
    | '-' :: rest => (true, c.advance 1 rest)
    | _ => (false, c)
  let (n, c) ← Numeral.lex .endInValue c
  return (← n.value negative c, c)

end CameraPanel.Json
