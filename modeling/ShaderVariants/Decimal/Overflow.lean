import ShaderVariants.Decimal.Shortest

/-!
# Decimals that no float can hold

A decimal is rounded to the nearest float.  The largest float is `2 ^ 1024 - 2 ^ 971`, and
the next one would be `2 ^ 1024`.  Decimals that are at least as near to the latter
overflow: they have no finite float.

The place of the leading digit settles nearly all decimals, so that a power of ten is
taken only where the exponent is as large as the coefficient is long.

## Main definitions

* `overflowLimit` — the least number that overflows.
* `Decimal.overflows` — whether a decimal does.
-/

namespace ShaderVariants

/-- The number in the middle between the largest float and the power of two above it. -/
def overflowLimit : Nat := 1 <<< 1024 - 1 <<< 970

namespace Decimal

/-- Whether the nearest float of a decimal is infinite.  The limit has 309 digits. -/
def overflows (d : Decimal) : Bool :=
  if d.coefficient = 0 ∨ d.pointPosition < 309 then false
  else if 309 < d.pointPosition then true
  else overflowLimit * powPos 10 (-d.exponent) ≤ d.coefficient * powPos 10 d.exponent

@[simp] theorem overflows_zero (e : Int) : overflows ⟨0, e⟩ = false := by simp [overflows]

end Decimal

end ShaderVariants
