import ShaderVariants.Decimal.Shortest

/-!
# Literals in generated code

A literal with a fraction is written with the fewest digits that read back as the same
number.  It always has a point or an exponent, so that it is not taken for an integer.

## Main definitions

* `realLiteral` — the text of a 64-bit float.
-/

namespace ShaderVariants.Glsl

/-- Numbers with a point position outside of these bounds are written with an exponent:
those below `10 ^ (-4)` and those from `10 ^ 16` on. -/
def plainFrom : Int := -3

/-- See `plainFrom`. -/
def plainTo : Int := 16

/-- Digits with a point after the first `position` of them, filled up with zeros. -/
def plainText (digits : List Char) (position : Int) : List Char :=
  if position ≤ 0 then
    '0' :: '.' :: (List.replicate (-position).toNat '0' ++ digits)
  else
    let n := position.toNat
    let fraction := digits.drop n
    digits.take n ++ List.replicate (n - digits.length) '0' ++ '.' ::
      (if fraction.isEmpty then ['0'] else fraction)

/-- The first digit, the others after a point if there are any, and the exponent. -/
def scientificText (digits : List Char) (position : Int) : List Char :=
  let exponent := (toString (position - 1)).toList
  match digits with
  | [] => []
  | [d] => d :: 'e' :: exponent
  | d :: rest => d :: '.' :: (rest ++ 'e' :: exponent)

/-- The text of a decimal. -/
def decimalText (d : Decimal) : List Char :=
  let position := d.pointPosition
  if plainFrom ≤ position ∧ position ≤ plainTo then plainText d.significand position
  else scientificText d.significand position

/-- A sign in front of negative numbers, zero included. -/
def signText (negative : Bool) : String := if negative then "-" else ""

/-- The text of the float with the given word. -/
def realLiteral (bits : UInt64) : String :=
  match Binary64.ofBits bits with
  | .notANumber => "NaN"
  | .infinite negative => signText negative ++ "inf"
  | .finite negative 0 _ _ => signText negative ++ "0.0"
  | .finite negative mantissa exponent tightBelow =>
    signText negative ++ String.ofList (decimalText (shortest mantissa exponent tightBelow))

end ShaderVariants.Glsl
