import ShaderVariants.Syntax.Expr
import ShaderVariants.Image

/-!
# Types, declarations and statements

## Main definitions

* `DataType` — types of variables; `isResource`, `numeric?` and `bufferElement?` sort them.
* `Declaration`, `Statement`, `Function` — the code of a shader.
* `DataType.nodes`, `Declaration.nodes`, `Statement.nodes`, `Function.nodes` — all
  expressions in it, each before its parts.
-/

namespace ShaderVariants

/-! ### Types -/

/-- The type of a variable. -/
inductive DataType where
  | numeric (type : NumericType)
  | image (type : ImageType)
  | sampler
  /-- A storage buffer; only one of an array of numbers can be bound. -/
  | buffer (content : DataType)
  | array (element : DataType) (size : Option Expr)
  /-- A type that is known by its name only. -/
  | named (name : String)
  deriving Repr, Inhabited

namespace DataType

/-- Whether a variable of this type takes a binding of its own. -/
def isResource : DataType → Bool
  | .image _ | .sampler | .buffer _ => true
  | _ => false

/-- The numeric type, if it is one. -/
def numeric? : DataType → Option NumericType
  | .numeric type => some type
  | _ => none

/-- The numeric type of the elements of a buffer that can be bound. -/
def bufferElement? : DataType → Option NumericType
  | .buffer (.array element _) => element.numeric?
  | _ => none

/-- All expressions in a type: the sizes of its arrays, the innermost array first. -/
def nodes : DataType → List Expr
  | .buffer content => content.nodes
  | .array element (some size) => element.nodes ++ size.nodes
  | .array element none => element.nodes
  | _ => []

end DataType

/-! ### Declarations -/

/-- A local variable, a parameter of a function or a member of a storage block. -/
structure Declaration where
  name : String
  type : DataType
  initializer : Option Expr := none
  span : Span := {}
  deriving Repr, Inhabited

/-- All expressions in a declaration. -/
def Declaration.nodes (d : Declaration) : List Expr :=
  d.type.nodes ++ (d.initializer.map Expr.nodes).getD []

/-! ### Statements -/

/-- A statement that leaves the normal order of execution. -/
inductive Jump where
  | exitLoop
  | nextRound
  | discard
  deriving DecidableEq, Repr

/-- A statement. -/
inductive Statement where
  | empty
  /-- Variables that share the type of the first one. -/
  | declare (declarations : List Declaration)
  | expression (expr : Expr)
  | selection (condition : Expr) (consequent : Statement) (alternative : Option Statement)
  | switch (value : Expr) (body : List Statement)
  | caseLabel (value : Expr)
  | defaultLabel
  | forLoop (start : Statement) (condition : Expr) (update : Option Expr) (body : Statement)
  | whileLoop (condition : Expr) (body : Statement)
  | doWhile (body : Statement) (condition : Expr)
  | giveBack (value : Option Expr)
  | jump (kind : Jump)
  | scope (body : List Statement)
  deriving Repr, Inhabited

namespace Statement

mutual

/-- All expressions in a statement; a loop's condition comes before its body. -/
def nodes : Statement → List Expr
  | .empty | .defaultLabel | .jump _ | .giveBack none => []
  | .declare declarations => declarations.flatMap Declaration.nodes
  | .expression expr => expr.nodes
  | .caseLabel value => value.nodes
  | .selection condition consequent none => condition.nodes ++ consequent.nodes
  | .selection condition consequent (some alternative) =>
    condition.nodes ++ consequent.nodes ++ alternative.nodes
  | .switch value body => value.nodes ++ allNodes body
  | .forLoop start condition update body =>
    start.nodes ++ condition.nodes ++ (update.map Expr.nodes).getD [] ++ body.nodes
  | .whileLoop condition body => condition.nodes ++ body.nodes
  | .doWhile body condition => condition.nodes ++ body.nodes
  | .giveBack (some value) => value.nodes
  | .scope body => allNodes body

/-- All expressions in several statements. -/
def allNodes : List Statement → List Expr
  | [] => []
  | s :: rest => s.nodes ++ allNodes rest

end

end Statement

/-! ### Functions -/

/-- A function; one without a result type gives nothing back. -/
structure Function where
  name : String
  result : Option DataType := none
  parameters : List Declaration := []
  body : Option Statement := none
  deriving Repr, Inhabited

/-- All expressions in a function. -/
def Function.nodes (f : Function) : List Expr :=
  (f.result.map DataType.nodes).getD [] ++ f.parameters.flatMap Declaration.nodes ++
    (f.body.map Statement.nodes).getD []

end ShaderVariants
