import ShaderVariants.Diagnostic
import ShaderVariants.Glsl.Expr
import ShaderVariants.Numeric.Name
import ShaderVariants.Syntax.Statement

/-!
# Types and declarators in generated code

The type stands in front of the name of a variable and the sizes of its arrays behind
it.  A numeric type that no program can hold has no name; a name is written in its place
and the fault is reported.

## Main definitions

* `DataType.typeText`, `DataType.arraySuffix` — what stands in front and behind.
* `Declaration.declarator` — a variable with its type.
* `DataType.typeFaults` — what is wrong with the type of a variable.
-/

namespace ShaderVariants

/-- The name of a numeric type. -/
def NumericType.codeName (t : NumericType) : String := t.glslName?.getD "float"

/-- A numeric type that no program can hold. -/
def NumericType.faults (t : NumericType) : List Diagnostic :=
  if t.isValid then []
  else [.fault ("numeric type " ++ t.fieldsText ++ " has no GLSL equivalent")]

namespace DataType

/-- The name of a type without the sizes of its arrays. -/
def typeText : DataType → String
  | .numeric type => type.codeName
  | .image type => type.name
  | .sampler => samplerName
  | .buffer content => content.typeText
  | .array element _ => element.typeText
  | .named name => name

/-- What is wrong with the name of a type. -/
def typeFaults : DataType → List Diagnostic
  | .numeric type => type.faults
  | .buffer content => content.typeFaults
  | .array element _ => element.typeFaults
  | .image _ | .sampler | .named _ => []

/-- The sizes of an array, the outermost first. -/
def arraySuffix : DataType → String
  | .array element size => "[" ++ (size.map Expr.text).getD "" ++ "]" ++ element.arraySuffix
  | _ => ""

/-- A variable of this type. -/
def declarator (t : DataType) (name : String) : String :=
  t.typeText ++ " " ++ name ++ t.arraySuffix

end DataType

namespace Declaration

/-- The variable with its type. -/
def declarator (d : Declaration) : String := d.type.declarator d.name

/-- The variable with the sizes of its arrays and its first value. -/
def initialized (d : Declaration) : String :=
  d.name ++ d.type.arraySuffix ++
    match d.initializer with
    | some e => " = " ++ e.itemText
    | none => ""

end Declaration

end ShaderVariants
