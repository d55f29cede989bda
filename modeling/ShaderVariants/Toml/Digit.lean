/-!
# Digits in TOML

## Main definitions

* `digitValue?`, `isDigit` — the value of a digit, and the digits of a base.
* `valueOf` — the number that digits give.
-/

namespace ShaderVariants

namespace Toml

/-- The value of a digit, of which there are sixteen. -/
def digitValue? (c : Char) : Option Nat :=
  if '0' ≤ c ∧ c ≤ '9' then some (c.toNat - '0'.toNat)
  else if 'a' ≤ c ∧ c ≤ 'f' then some (c.toNat - 'a'.toNat + 10)
  else if 'A' ≤ c ∧ c ≤ 'F' then some (c.toNat - 'A'.toNat + 10)
  else none

/-- Whether a character is a digit in base `base`. -/
def isDigit (base : Nat) (c : Char) : Bool := (digitValue? c).any (· < base)

/-- The number that digits in base `base` give; what is not a digit only separates. -/
def valueOf (base : Nat) (digits : List Char) : Nat :=
  (digits.filterMap digitValue?).foldl (fun n d => base * n + d) 0

end Toml

end ShaderVariants
