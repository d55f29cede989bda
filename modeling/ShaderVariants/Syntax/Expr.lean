import ShaderVariants.Named
import ShaderVariants.Syntax.Span

/-!
# Expressions

Expressions of the shading language, and their evaluation at compile time.  Evaluation
answers only what conditions are made of: literals, names, logical operators and
comparisons.  Arithmetic is left alone on purpose.

## Main definitions

* `UnaryOp`, `PostfixOp`, `BinaryOp`, `Expr` — the expressions.
* `Expr.precedence` — how loosely the outermost operator binds.
* `Valuation`, `Expr.eval` — values of names and of expressions.
* `Expr.nodes` — an expression and everything in it; `Expr.label` tells them apart.
-/

namespace ShaderVariants

/-! ### Operators -/

/-- An operator in front of its operand. -/
inductive UnaryOp where
  | not
  | negate
  | plus
  | bitNot
  | increment
  | decrement
  deriving DecidableEq, Repr

/-- An operator behind its operand. -/
inductive PostfixOp where
  | increment
  | decrement
  deriving DecidableEq, Repr

/-- An operator between two operands. -/
inductive BinaryOp where
  | mul
  | div
  | mod
  | add
  | sub
  | shiftLeft
  | shiftRight
  | less
  | greater
  | lessEq
  | greaterEq
  | eq
  | notEq
  | bitAnd
  | bitXor
  | bitOr
  | and
  | xor
  | or
  | assign
  | addAssign
  | subAssign
  | mulAssign
  | divAssign
  | comma
  deriving DecidableEq, Repr

instance : Named UnaryOp where
  all := [.not, .negate, .plus, .bitNot, .increment, .decrement]
  name
    | .not => "Not"
    | .negate => "Negate"
    | .plus => "Plus"
    | .bitNot => "BitNot"
    | .increment => "PreIncrement"
    | .decrement => "PreDecrement"
  mem_all a := by cases a <;> decide

instance : Named PostfixOp where
  all := [.increment, .decrement]
  name
    | .increment => "Increment"
    | .decrement => "Decrement"
  mem_all a := by cases a <;> decide

instance : Named BinaryOp where
  all := [.mul, .div, .mod, .add, .sub, .shiftLeft, .shiftRight, .less, .greater, .lessEq,
    .greaterEq, .eq, .notEq, .bitAnd, .bitXor, .bitOr, .and, .xor, .or, .assign, .addAssign,
    .subAssign, .mulAssign, .divAssign, .comma]
  name
    | .mul => "Mul"
    | .div => "Div"
    | .mod => "Mod"
    | .add => "Add"
    | .sub => "Sub"
    | .shiftLeft => "Shl"
    | .shiftRight => "Shr"
    | .less => "Less"
    | .greater => "Greater"
    | .lessEq => "LessEq"
    | .greaterEq => "GreaterEq"
    | .eq => "Eq"
    | .notEq => "NotEq"
    | .bitAnd => "BitAnd"
    | .bitXor => "BitXor"
    | .bitOr => "BitOr"
    | .and => "LogicalAnd"
    | .xor => "LogicalXor"
    | .or => "LogicalOr"
    | .assign => "Assign"
    | .addAssign => "AddAssign"
    | .subAssign => "SubAssign"
    | .mulAssign => "MulAssign"
    | .divAssign => "DivAssign"
    | .comma => "Comma"
  mem_all a := by cases a <;> decide

/-- The spelling of the operator. -/
def UnaryOp.symbol : UnaryOp → String
  | .not => "!"
  | .negate => "-"
  | .plus => "+"
  | .bitNot => "~"
  | .increment => "++"
  | .decrement => "--"

/-- The spelling of the operator. -/
def PostfixOp.symbol : PostfixOp → String
  | .increment => "++"
  | .decrement => "--"

namespace BinaryOp

/-- The spelling of the operator. -/
def symbol : BinaryOp → String
  | .mul => "*"
  | .div => "/"
  | .mod => "%"
  | .add => "+"
  | .sub => "-"
  | .shiftLeft => "<<"
  | .shiftRight => ">>"
  | .less => "<"
  | .greater => ">"
  | .lessEq => "<="
  | .greaterEq => ">="
  | .eq => "=="
  | .notEq => "!="
  | .bitAnd => "&"
  | .bitXor => "^"
  | .bitOr => "|"
  | .and => "&&"
  | .xor => "^^"
  | .or => "||"
  | .assign => "="
  | .addAssign => "+="
  | .subAssign => "-="
  | .mulAssign => "*="
  | .divAssign => "/="
  | .comma => ","

/-- How loosely the operator binds. -/
def precedence : BinaryOp → Int
  | .mul | .div | .mod => 0
  | .add | .sub => 1
  | .shiftLeft | .shiftRight => 2
  | .less | .greater | .lessEq | .greaterEq => 3
  | .eq | .notEq => 4
  | .bitAnd => 5
  | .bitXor => 6
  | .bitOr => 7
  | .and => 8
  | .xor => 9
  | .or => 10
  | .assign | .addAssign | .subAssign | .mulAssign | .divAssign => 11
  | .comma => 1000

/-- The truth value of a comparison or logical operator; other operators have none. -/
def holds? (op : BinaryOp) (a b : Int) : Option Bool :=
  match op with
  | .less => some (decide (a < b))
  | .greater => some (decide (a > b))
  | .lessEq => some (decide (a ≤ b))
  | .greaterEq => some (decide (a ≥ b))
  | .eq => some (a == b)
  | .notEq => some (a != b)
  | .and => some (a != 0 && b != 0)
  | .or => some (a != 0 || b != 0)
  | .xor => some ((a != 0) ^^ (b != 0))
  | _ => none

end BinaryOp

/-! ### Expressions -/

/-- An expression. -/
inductive Expr where
  | int (value : Int)
  /-- A number with a fraction, as the word of a 64-bit float. -/
  | real (bits : UInt64)
  | var (name : String)
  | call (function : Expr) (arguments : List Expr)
  | index (array position : Expr)
  | member (parent : Expr) (name : String)
  | postfixed (op : PostfixOp) (operand : Expr)
  | unary (op : UnaryOp) (operand : Expr)
  | binary (op : BinaryOp) (left right : Expr)
  | conditional (condition consequent alternative : Expr)
  deriving Repr, Inhabited

/-- The values of names; a name without a value is not known at compile time. -/
abbrev Valuation := String → Option Nat

namespace Expr

/-- How loosely the outermost operator binds. -/
def precedence : Expr → Int
  | .int _ | .real _ | .var _ => -3
  | .call _ _ | .index _ _ | .member _ _ | .postfixed _ _ => -2
  | .unary _ _ => -1
  | .binary op _ _ => op.precedence
  | .conditional _ _ _ => 20

/-- The name, if the expression is nothing but a name. -/
def name? : Expr → Option String
  | .var name => some name
  | _ => none

/-- The number that stands for a truth value. -/
def ofBool (b : Bool) : Int := if b then 1 else 0

/-- The value of an expression, if it is known at compile time. -/
def eval (v : Valuation) : Expr → Option Int
  | .int value => some value
  | .var name => (v name).map Int.ofNat
  | .unary .not operand => (operand.eval v).map fun n => ofBool (n == 0)
  | .binary op left right => do
    let a ← left.eval v
    let b ← right.eval v
    (op.holds? a b).map ofBool
  | _ => none

/-- Whether an expression holds, if that is known at compile time. -/
def holds? (v : Valuation) (e : Expr) : Option Bool := (e.eval v).map (· != 0)

/-- What an expression is at its root. -/
def label : Expr → String
  | .int value => "int " ++ toString value
  | .real _ => "real"
  | .var name => "var " ++ name
  | .call _ arguments => "call " ++ toString arguments.length
  | .index _ _ => "index"
  | .member _ name => "member " ++ name
  | .postfixed op _ => "post " ++ Named.name op
  | .unary op _ => "unary " ++ Named.name op
  | .binary op _ _ => "bin " ++ Named.name op
  | .conditional _ _ _ => "cond"

mutual

/-- The expression and all expressions in it, each before its parts. -/
def nodes : Expr → List Expr
  | .int value => [.int value]
  | .real bits => [.real bits]
  | .var name => [.var name]
  | .call function arguments =>
    .call function arguments :: (function.nodes ++ allNodes arguments)
  | .index array position => .index array position :: (array.nodes ++ position.nodes)
  | .member parent name => .member parent name :: parent.nodes
  | .postfixed op operand => .postfixed op operand :: operand.nodes
  | .unary op operand => .unary op operand :: operand.nodes
  | .binary op left right => .binary op left right :: (left.nodes ++ right.nodes)
  | .conditional condition consequent alternative =>
    .conditional condition consequent alternative ::
      (condition.nodes ++ consequent.nodes ++ alternative.nodes)

/-- The nodes of several expressions. -/
def allNodes : List Expr → List Expr
  | [] => []
  | e :: es => e.nodes ++ allNodes es

end

end Expr

/-! ### Conditions -/

/-- A condition of a block, and where it begins. -/
structure Condition where
  expr : Expr
  span : Span := {}
  deriving Repr

/-- Whether an optional condition holds, if that is known at compile time.  What has no
condition always holds. -/
def conditionHolds? (v : Valuation) : Option Condition → Option Bool
  | none => some true
  | some c => c.expr.holds? v

end ShaderVariants
