import CameraPanel.Number.Binary

/-!
# Decimal texts of numbers

A finite number is written with the fewest decimal digits that read back as the same number; of two such decimals
of the same length the nearer one is taken.  `Format.shortest` finds it by trying ever finer decimal grids, on each
of which only the two neighbours of the number have to be looked at.  Should no grid of `gridLimit` digits do, the
exact decimal value is taken, so that in every case the decimal reads back.

A `Layout` holds what is left to decide about a text: which exponents are written out, what a whole number looks
like, how an exponent is signed, and where an exact tie between two decimals goes.
-/

namespace CameraPanel

/-! ### Decimals -/

/-- The decimal `digits * 10 ^ exp`. -/
structure Decimal where
  digits : Nat
  exp : Int
deriving DecidableEq

/-- The decimal digits of a natural number, most significant first. -/
def decimalDigits (n : Nat) : List Char := Nat.toDigits 10 n

namespace Decimal

/-- The exact value. -/
def toRat (d : Decimal) : Rat :=
  ((d.digits * Nat.pow 10 d.exp.toNat : Nat) : Rat) / (Nat.pow 10 (-d.exp).toNat : Rat)

/-- Where the decimal point stands, counted from before the first digit: a nonzero value is at least
`10 ^ (point - 1)` and less than `10 ^ point`. -/
def point (d : Decimal) : Int := d.exp + (decimalDigits d.digits).length

/-- The digits without the zeros at their end. -/
def leadingDigits (d : Decimal) : List Char :=
  ((decimalDigits d.digits).reverse.dropWhile (· == '0')).reverse

end Decimal

namespace Format

variable (F : Format)

/-- Decimals whose point lies this far out are beyond the range of every format in use. -/
def farPoint : Int := 400

/-- The number nearest to a decimal. -/
def ofDecimal (negative : Bool) (d : Decimal) : Binary F :=
  if d.digits = 0 ∨ d.point < -farPoint then .zero negative
  else if farPoint < d.point then .infinity negative
  else F.nearestMagnitude negative d.toRat

/-! ### The shortest decimal -/

end Format

/-- Which of two equally near decimals is taken. -/
inductive Tie where
  | toEven
  | up
deriving DecidableEq

/-- The point of the decimals of a positive rational, as in `Decimal.point`. -/
def decimalPoint (x : Rat) : Int :=
  if 1 ≤ x then (decimalDigits x.floor.toNat).length
  else 1 - (decimalDigits ((1 / x).ceil.toNat - 1)).length

namespace Format

variable (F : Format)

/-- Whether a decimal reads back as the magnitude of the given rank. -/
def readsBack (rank : Nat) (d : Decimal) : Bool := F.ofDecimal false d = F.ofRank false rank

/-- The decimal of exponent `exp` that reads back as the given rank, if one of the two neighbours of its magnitude
does; the nearer one if both do. -/
def onGrid (tie : Tie) (rank : Nat) (exp : Int) : Option Decimal :=
  let y := F.magnitude rank / Decimal.toRat ⟨1, exp⟩
  let n := y.floor.toNat
  let below : Decimal := ⟨n, exp⟩
  let above : Decimal := ⟨n + 1, exp⟩
  match F.readsBack rank below, F.readsBack rank above with
  | false, false => none
  | true, false => some below
  | false, true => some above
  | true, true =>
    let twice := 2 * (y - y.floor)
    if twice < 1 then some below
    else if 1 < twice then some above
    else match tie with
      | .up => some above
      | .toEven => if n % 2 = 0 then some below else some above

/-- The exact decimal value of a rank. -/
def exactDecimal (rank : Nat) : Decimal :=
  let m := F.significand rank
  let q := F.exponent rank
  if 0 ≤ q then ⟨m * Nat.pow 2 q.toNat, 0⟩ else ⟨m * Nat.pow 5 (-q).toNat, q⟩

/-- The number of digits up to which grids are tried. -/
def gridLimit : Nat := 17

/-- The decimal with the fewest digits that reads back as the given rank. -/
def shortest (tie : Tie) (rank : Nat) : Decimal :=
  let point := decimalPoint (F.magnitude rank)
  ((List.range gridLimit).findSome? fun i => F.onGrid tie rank (point - (i + 1 : Nat))).getD (F.exactDecimal rank)

end Format

/-! ### Layouts -/

/-- What a text of a number looks like beyond its digits. -/
structure Layout where
  tie : Tie
  /-- Whether a number is written without an exponent, by the exponent of its first digit. -/
  writtenOut : Int → Bool
  /-- Whether a whole number that is written out ends in `.0`. -/
  wholePoint : Bool
  /-- Whether a positive exponent has a plus sign. -/
  plusExponent : Bool

/-- Plain notation: never an exponent, and a point only before a fraction. -/
def Layout.plain : Layout where
  tie := .up
  writtenOut := fun _ => true
  wholePoint := false
  plusExponent := false

/-- Digits without an exponent. -/
def Layout.positional (L : Layout) (digits : List Char) (point : Int) : List Char :=
  if point ≤ 0 then '0' :: '.' :: (List.replicate (-point).toNat '0' ++ digits)
  else if digits.length ≤ point.toNat then
    digits ++ List.replicate (point.toNat - digits.length) '0' ++ (if L.wholePoint then ['.', '0'] else [])
  else digits.take point.toNat ++ '.' :: digits.drop point.toNat

/-- Digits with an exponent: a point after the first digit, if more follow. -/
def Layout.scientific (L : Layout) (digits : List Char) (point : Int) : List Char :=
  let exp := point - 1
  let sign := if exp < 0 then ['-'] else if L.plusExponent then ['+'] else []
  let fraction := if digits.tail.isEmpty then [] else '.' :: digits.tail
  digits.take 1 ++ fraction ++ 'e' :: (sign ++ decimalDigits exp.natAbs)

/-- Lays out the magnitude of a rank. -/
def Layout.magnitude (L : Layout) (F : Format) (rank : Nat) : List Char :=
  if rank = 0 then L.positional ['0'] 1
  else
    let d := F.shortest L.tie rank
    if L.writtenOut (d.point - 1) then L.positional d.leadingDigits d.point
    else L.scientific d.leadingDigits d.point

/-- A sign before a text. -/
def signed (negative : Bool) (text : List Char) : List Char := if negative then '-' :: text else text

/-- The text of a number in a layout. -/
def Layout.chars (L : Layout) {F : Format} : Binary F → List Char
  | .nan => ['N', 'a', 'N']
  | .infinity negative => signed negative ['i', 'n', 'f']
  | .finite negative rank _ => signed negative (L.magnitude F rank)

/-- The text of a number in a layout. -/
def Layout.text (L : Layout) {F : Format} (x : Binary F) : String := String.ofList (L.chars x)

/-- The plain text of a number. -/
def Binary.text {F : Format} (x : Binary F) : String := Layout.plain.text x

/-! ### Fixed places -/

/-- A nonnegative rational rounded to `places` decimals, ties to even. -/
def fixedPlaces (places : Nat) (x : Rat) : List Char :=
  let digits := decimalDigits (roundDiv (x.num.natAbs * Nat.pow 10 places) x.den)
  let padded := List.replicate (places + 1 - digits.length) '0' ++ digits
  padded.take (padded.length - places) ++ '.' :: padded.drop (padded.length - places)

/-- The text of a number with a fixed count of decimals, which only a finite number has. -/
def Binary.fixed {F : Format} (places : Nat) : Binary F → List Char
  | .finite negative rank _ => signed negative (fixedPlaces places (F.magnitude rank))
  | x => Layout.plain.chars x

end CameraPanel
