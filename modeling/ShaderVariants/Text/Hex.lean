/-!
# Hexadecimal text

Identifiers are shown with all eight digits of a word, masks with no more digits than
they need but a least number of them.

## Main definitions

* `hexWord` — eight upper-case digits.
* `hexMask` — lower-case digits behind `0x`, at least four of them.
-/

namespace ShaderVariants

/-- A lower-case digit below sixteen. -/
def hexDigit (n : Nat) : Char :=
  if n < 10 then Char.ofNat (48 + n) else Char.ofNat (87 + n)

/-- The last `count` hexadecimal digits of `n`. -/
def hexDigits (count n : Nat) : List Char :=
  (List.range count).reverse.map fun i => hexDigit ((n >>> (4 * i)) % 16)

/-- The number of hexadecimal digits of `n`; zero has one. -/
def hexLength (n : Nat) : Nat := n.log2 / 4 + 1

/-- A word as eight upper-case digits. -/
def hexWord (n : Nat) : String := String.ofList ((hexDigits 8 n).map Char.toUpper)

/-- A mask as at least four lower-case digits behind `0x`. -/
def hexMask (n : Nat) : String := "0x" ++ String.ofList (hexDigits (max 4 (hexLength n)) n)

end ShaderVariants
