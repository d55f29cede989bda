/-!
# The shortest decimal of a binary fraction

A 64-bit float stands for every real number that is nearer to it than to another float.
Of the decimals in that range the ones with the fewest digits are the shortest, and of
those the one nearest to the float is chosen.

All arithmetic is on natural numbers: a float is `m * 2 ^ q`, a decimal `d * 10 ^ e`, and
two of them are compared after both are multiplied by the missing powers.

## Main definitions

* `Binary64` — the parts of a float; `Binary64.ofBits` takes them from its word.
* `Decimal` — a decimal; `shortest` is the shortest one of a positive float.
* `Decimal.significand` — its digits without trailing zeros.
-/

namespace ShaderVariants

/-! ### Floats -/

/-- What the word of a 64-bit float stands for. -/
inductive Binary64 where
  | notANumber
  | infinite (negative : Bool)
  /-- The number `mantissa * 2 ^ exponent`.  `tightBelow` says that the next smaller
  float is only half as far away as the next larger one. -/
  | finite (negative : Bool) (mantissa : Nat) (exponent : Int) (tightBelow : Bool)
  deriving DecidableEq, Repr

/-- Takes a word apart into sign, exponent and fraction. -/
def Binary64.ofBits (bits : UInt64) : Binary64 :=
  let w := bits.toNat
  let negative := decide (1 <<< 63 ≤ w)
  let exponent : Nat := (w >>> 52) % 2048
  let fraction := w % (1 <<< 52)
  if exponent = 2047 then
    if fraction = 0 then .infinite negative else .notANumber
  else if exponent = 0 then
    .finite negative fraction (-1074) false
  else
    .finite negative (1 <<< 52 + fraction) (exponent - 1075) (fraction = 0 && 1 < exponent)

/-! ### Decimals -/

/-- The number `coefficient * 10 ^ exponent`. -/
structure Decimal where
  coefficient : Nat
  exponent : Int
  deriving DecidableEq, Repr

/-- `base ^ e` for a positive exponent, and one otherwise. -/
def powPos (base : Nat) (e : Int) : Nat := base.pow e.toNat

/-- The factor that `10 ^ e` gets when it is compared with `2 ^ p`. -/
def decimalScale (p e : Int) : Nat := powPos 10 e * powPos 2 (-p)

/-- The factor that `2 ^ p` gets when it is compared with `10 ^ e`. -/
def binaryScale (p e : Int) : Nat := powPos 2 p * powPos 10 (-e)

/-- The number of decimal digits of `n`. -/
def digitCount (n : Nat) : Nat := (Nat.toDigits 10 n).length

/-- The exponent of the leading decimal digit of `x * 2 ^ p`, for positive `x` and no
exponent below that of the smallest float. -/
def leadingExponent (x : Nat) (p : Int) : Int :=
  (digitCount (x * powPos 2 p * Nat.pow 10 400 / powPos 2 (-p)) : Int) - 401

/-- A range of reals around `middle * 2 ^ p`, with or without its ends. -/
structure RoundingRange where
  low : Nat
  middle : Nat
  high : Nat
  power : Int
  closed : Bool
  deriving DecidableEq, Repr

namespace RoundingRange

/-- The reals that round to a float.  The ends round to it if its mantissa is even. -/
def ofFloat (mantissa : Nat) (exponent : Int) (tightBelow : Bool) : RoundingRange where
  low := 4 * mantissa - (if tightBelow then 1 else 2)
  middle := 4 * mantissa
  high := 4 * mantissa + 2
  power := exponent - 2
  closed := mantissa % 2 == 0

/-- Whether `d * 10 ^ e` is in the range. -/
def contains (r : RoundingRange) (d : Nat) (e : Int) : Bool :=
  let x := d * decimalScale r.power e
  let low := r.low * binaryScale r.power e
  let high := r.high * binaryScale r.power e
  if r.closed then low ≤ x && x ≤ high else low < x && x < high

/-- The decimal with exponent `e` that is in the range and nearest to its middle.  Of
two that are equally near, the larger one is taken. -/
def nearest? (r : RoundingRange) (e : Int) : Option Decimal :=
  let scale := decimalScale r.power e
  let middle := r.middle * binaryScale r.power e
  let below := middle / scale
  let above := below + 1
  let belowIsNearer := 2 * (middle - below * scale) < scale
  match r.contains below e, r.contains above e with
  | true, true => some ⟨if belowIsNearer then below else above, e⟩
  | true, false => some ⟨below, e⟩
  | false, true => some ⟨above, e⟩
  | false, false => none

/-- The nearest decimal on the first of the given grids that has one. -/
def firstNearest (r : RoundingRange) : List Int → Decimal
  | [] => ⟨0, 0⟩
  | e :: es => (r.nearest? e).getD (r.firstNearest es)

end RoundingRange

/-- The shortest decimal of the float `mantissa * 2 ^ exponent`, which is not zero.  At
most seventeen digits are needed. -/
def shortest (mantissa : Nat) (exponent : Int) (tightBelow : Bool) : Decimal :=
  let range := RoundingRange.ofFloat mantissa exponent tightBelow
  let leading := leadingExponent range.middle range.power
  range.firstNearest ((List.range 17).map fun (n : Nat) => leading - n)

namespace Decimal

/-- The digits of the coefficient without trailing zeros. -/
def significand (d : Decimal) : List Char :=
  ((Nat.toDigits 10 d.coefficient).reverse.dropWhile (· == '0')).reverse

/-- The number of digits in front of the point, if the number is written without an
exponent; negative if zeros follow the point. -/
def pointPosition (d : Decimal) : Int := digitCount d.coefficient + d.exponent

end Decimal

end ShaderVariants
