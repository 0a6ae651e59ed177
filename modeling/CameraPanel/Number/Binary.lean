/-!
# Binary floating-point numbers

A number of a format is not-a-number, a signed infinity, or a sign with a *rank*: the place of its magnitude in
the increasing list of the finite magnitudes of the format.  The magnitudes come in blocks of `2 ^ fractionBits`;
inside a block they are evenly spaced, the first two blocks have the same spacing, and from there on the spacing
doubles with every block.  So neighbours have neighbouring ranks, every rank below `Format.ranks` names exactly one
magnitude, and a rank that rounding pushes past the end is an overflow.

Arithmetic is exact arithmetic on rationals followed by one rounding (`Format.nearest`), to the nearest magnitude
and to the even rank when two are equally near.
-/

namespace CameraPanel

/-! ### Formats -/

/-- A binary floating-point format.  The least positive magnitude is `2 ^ lowest`. -/
structure Format where
  fractionBits : Nat
  blocks : Nat
  lowest : Int
deriving DecidableEq

namespace Format

/-- Eight bytes: 53 significant bits. -/
def double : Format := ⟨52, 2047, -1074⟩

/-- Four bytes: 24 significant bits. -/
def single : Format := ⟨23, 255, -149⟩

/-- The number of finite magnitudes. -/
def ranks (F : Format) : Nat := F.blocks * Nat.pow 2 F.fractionBits

/-- The integer significand of a rank: the magnitude in units of its spacing. -/
def significand (F : Format) (rank : Nat) : Nat :=
  if rank < Nat.pow 2 F.fractionBits then rank
  else Nat.pow 2 F.fractionBits + rank % Nat.pow 2 F.fractionBits

/-- The power of two of the spacing at a rank. -/
def exponent (F : Format) (rank : Nat) : Int :=
  F.lowest + (rank / Nat.pow 2 F.fractionBits - 1 : Nat)

end Format

/-! ### Rounding -/

/-- The quotient `n / d` rounded to the nearest natural number, and to the even one when two are equally near. -/
def roundDiv (n d : Nat) : Nat :=
  if 2 * (n % d) < d then n / d
  else if d < 2 * (n % d) then n / d + 1
  else if n / d % 2 = 0 then n / d else n / d + 1

/-- The exponent of the greatest power of two that is at most `n / d`, for positive `n` and `d`. -/
def floorLog2 (n d : Nat) : Int :=
  let k : Int := (n.log2 : Int) - d.log2
  if n * Nat.pow 2 (-k).toNat < d * Nat.pow 2 k.toNat then k - 1 else k

/-- The rational `m * 2 ^ q`. -/
def scaled (m : Nat) (q : Int) : Rat := ((m * Nat.pow 2 q.toNat : Nat) : Rat) / (Nat.pow 2 (-q).toNat : Rat)

namespace Format

/-- The magnitude of a rank. -/
def magnitude (F : Format) (rank : Nat) : Rat := scaled (F.significand rank) (F.exponent rank)

/-- The rank whose magnitude is nearest to `n / d`, as if there were no last rank. -/
def nearestRank (F : Format) (n d : Nat) : Nat :=
  if n = 0 then 0 else
    let q := max F.lowest (floorLog2 n d - F.fractionBits)
    (q - F.lowest).toNat * Nat.pow 2 F.fractionBits + roundDiv (n * Nat.pow 2 (-q).toNat) (d * Nat.pow 2 q.toNat)

end Format

/-- A floating-point number of the format `F`.  There is one not-a-number. -/
inductive Binary (F : Format) where
  | nan
  | infinity (negative : Bool)
  | finite (negative : Bool) (rank : Nat) (lt : rank < F.ranks)
deriving DecidableEq

/-- Numbers of eight bytes, in which all settings are held. -/
abbrev Double := Binary .double

/-- Numbers of four bytes. -/
abbrev Single := Binary .single

namespace Format

/-- A sign and a rank as a number; past the last rank it is infinite. -/
def ofRank (F : Format) (negative : Bool) (rank : Nat) : Binary F :=
  if h : rank < F.ranks then .finite negative rank h else .infinity negative

/-- The number with the given sign whose magnitude is nearest to that of `x`. -/
def nearestMagnitude (F : Format) (negative : Bool) (x : Rat) : Binary F :=
  F.ofRank negative (F.nearestRank x.num.natAbs x.den)

/-- The number nearest to `x`; an `x` that is zero or too small for the format keeps its sign. -/
def nearest (F : Format) (x : Rat) : Binary F := F.nearestMagnitude (decide (x < 0)) x

end Format

namespace Binary

variable {F : Format}

/-! ### Views -/

/-- The zero with the given sign. -/
def zero (negative : Bool) : Binary F := F.ofRank negative 0

instance : Inhabited (Binary F) := ⟨zero false⟩

/-- The exact value of a finite number, and zero for the others. -/
def toRat : Binary F → Rat
  | finite true rank _ => -F.magnitude rank
  | finite false rank _ => F.magnitude rank
  | _ => 0

/-- Whether the sign is negative; not-a-number has none. -/
def isNegative : Binary F → Bool
  | nan => false
  | infinity negative => negative
  | finite negative _ _ => negative

def isNaN : Binary F → Bool
  | nan => true
  | _ => false

def isInfinite : Binary F → Bool
  | infinity _ => true
  | _ => false

def isFinite : Binary F → Bool
  | finite _ _ _ => true
  | _ => false

/-- Whether the number is one of the two zeros. -/
def isZero : Binary F → Bool
  | finite _ rank _ => rank = 0
  | _ => false

/-! ### Comparison -/

/-- Numeric equality: the two zeros are equal, and not-a-number equals nothing. -/
def eq : Binary F → Binary F → Bool
  | infinity a, infinity b => a == b
  | finite a r _, finite b s _ => r == s && (a == b || r == 0)
  | _, _ => false

/-- Numeric equality, under which not-a-number is also the same as itself. -/
def same (x y : Binary F) : Bool := x.eq y || (x.isNaN && y.isNaN)

/-! ### Arithmetic -/

def neg : Binary F → Binary F
  | nan => nan
  | infinity negative => infinity !negative
  | finite negative rank h => finite (!negative) rank h

/-- The sum.  A sum of exactly zero is negative only if both terms are. -/
def add : Binary F → Binary F → Binary F
  | nan, _ => nan
  | _, nan => nan
  | infinity a, infinity b => if a = b then infinity a else nan
  | infinity a, _ => infinity a
  | _, infinity b => infinity b
  | x@(finite a _ _), y@(finite b _ _) =>
    let sum := x.toRat + y.toRat
    if sum = 0 then zero (a && b) else F.nearest sum

/-- The product, negative if exactly one factor is. -/
def mul (x y : Binary F) : Binary F :=
  let negative := x.isNegative != y.isNegative
  if x.isNaN || y.isNaN then nan
  else if x.isInfinite || y.isInfinite then
    if x.isZero || y.isZero then nan else infinity negative
  else F.nearestMagnitude negative (x.toRat * y.toRat)

/-- The quotient, negative if exactly one operand is. -/
def div (x y : Binary F) : Binary F :=
  let negative := x.isNegative != y.isNegative
  if x.isNaN || y.isNaN then nan
  else if x.isInfinite then if y.isInfinite then nan else infinity negative
  else if y.isInfinite then zero negative
  else if y.isZero then if x.isZero then nan else infinity negative
  else F.nearestMagnitude negative (x.toRat / y.toRat)

instance : Neg (Binary F) := ⟨neg⟩
instance : Add (Binary F) := ⟨add⟩
instance : Mul (Binary F) := ⟨mul⟩
instance : Div (Binary F) := ⟨div⟩

/-- The nearest whole number, halves away from zero; the sign is kept. -/
def roundWhole : Binary F → Binary F
  | finite negative rank _ => F.nearestMagnitude negative (F.magnitude rank + 1 / 2).floor
  | x => x

/-- The number nearest to an integer. -/
def ofInt (n : Int) : Binary F := F.nearest n

end Binary

end CameraPanel
