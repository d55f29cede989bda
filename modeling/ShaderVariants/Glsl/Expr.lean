import ShaderVariants.Glsl.Number
import ShaderVariants.Syntax.Expr

/-!
# Expressions in generated code

Parentheses are written only where the operand would otherwise be taken apart: around an
operand that binds more loosely than the operator, and around one that binds just as
loosely where the operator groups the other way.

## Main definitions

* `Expr.text` — the text of an expression.
* `operandText` — the text of an operand, in parentheses if it needs them.
-/

namespace ShaderVariants

/-- How a text stands as an operand: in parentheses or not. -/
def enclose (needed : Bool) (text : String) : String :=
  if needed then "(" ++ text ++ ")" else text

namespace Expr

/-- On which side of an operator an operand stands. -/
inductive Grouping where
  /-- An operand that binds just as loosely as the operator needs parentheses. -/
  | tight
  /-- Only an operand that binds more loosely than the operator needs parentheses. -/
  | loose
  deriving DecidableEq, Repr

/-- Whether `e` needs parentheses next to an operator with the given precedence. -/
def needsParens (e : Expr) (operator : Int) : Grouping → Bool
  | .tight => operator ≤ e.precedence
  | .loose => operator < e.precedence

mutual

/-- The text of an expression. -/
def text : Expr → String
  | .int value => toString value
  | .real bits => Glsl.realLiteral bits
  | .var name => name
  | .call function arguments =>
    enclose (function.needsParens (-2) .loose) function.text ++
      "(" ++ ", ".intercalate (argumentTexts arguments) ++ ")"
  | .index array position =>
    enclose (array.needsParens (-2) .loose) array.text ++ "[" ++ position.text ++ "]"
  | .member parent name => enclose (parent.needsParens (-2) .loose) parent.text ++ "." ++ name
  | .postfixed op operand => enclose (operand.needsParens (-2) .loose) operand.text ++ op.symbol
  | .unary op operand => op.symbol ++ enclose (operand.needsParens (-1) .loose) operand.text
  | .binary op left right =>
    enclose (left.needsParens op.precedence .loose) left.text ++
      (if op = .comma then ", " else " " ++ op.symbol ++ " ") ++
      enclose (right.needsParens op.precedence .tight) right.text
  | .conditional condition consequent alternative =>
    enclose (condition.needsParens 20 .tight) condition.text ++ " ? " ++
      enclose (consequent.needsParens 20 .loose) consequent.text ++ " : " ++
      enclose (alternative.needsParens 20 .loose) alternative.text

/-- The texts of arguments; one that contains a comma operator is in parentheses. -/
def argumentTexts : List Expr → List String
  | [] => []
  | e :: es =>
    enclose (e.needsParens BinaryOp.comma.precedence .tight) e.text :: argumentTexts es

end

/-- The text of an expression between commas. -/
def itemText (e : Expr) : String :=
  enclose (e.needsParens BinaryOp.comma.precedence .tight) e.text

end Expr

end ShaderVariants
