/-!
# Places in a source text

## Main definitions

* `Span` — the line and column where something begins, and its text.
-/

namespace ShaderVariants

/-- Where something begins, counted from zero. -/
structure Span where
  line : Nat := 0
  column : Nat := 0
  deriving DecidableEq, Repr

/-- Lines and columns are shown counted from one. -/
def Span.text (s : Span) : String := toString (s.line + 1) ++ ":" ++ toString (s.column + 1)

end ShaderVariants
