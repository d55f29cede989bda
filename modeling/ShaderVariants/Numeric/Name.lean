import ShaderVariants.Numeric.Basic

/-!
# Names of numeric types

A numeric type has two names.  Its own name says how it is stored (`ushort2_norm`,
`float4x4`); its GLSL name is the name of the type it is widened to (`vec2`, `mat4`).
A reader accepts both.

## Main definitions

* `NumericType.name` — the own name.
* `NumericType.glslName?` — the name of the widened type.
* `NumericType.ofName?` — the type of either name.
-/

namespace ShaderVariants

namespace NumericType

/-! ### Writing names -/

/-- The name of a single stored component. -/
def scalarName : Scalar → ScalarWidth → String
  | .float, _ => "float"
  | .int, .byte => "sbyte"
  | .uint, .byte => "byte"
  | .int, .word => "short"
  | .uint, .word => "ushort"
  | .int, .dword => "int"
  | .uint, .dword => "uint"

/-- The own name of a type. -/
def name (t : NumericType) : String :=
  if t.isValid then
    scalarName t.scalar t.width ++
      (if t.isVector then toString t.rows.toNat
       else if t.isMatrix then toString t.columns.toNat ++ "x" ++ toString t.rows.toNat
       else "") ++
      (if t.normalized then "_norm" else "")
  else
    "<invalid-numeric-type>"

/-- The GLSL name of a type whose components have 32 bits. -/
def wideName (t : NumericType) : String :=
  if t.isScalar then scalarName t.scalar .dword
  else if t.isVector then t.scalar.sigil ++ "vec" ++ toString t.rows.toNat
  else if t.rows == t.columns then "mat" ++ toString t.columns.toNat
  else "mat" ++ toString t.columns.toNat ++ "x" ++ toString t.rows.toNat

/-- The GLSL name of the type that `t` is widened to. -/
def glslName? (t : NumericType) : Option String := t.widened?.map wideName

/-! ### Reading names -/

/-- A dimension is a digit from one to four. -/
def dimension? : List Char → Option UInt8
  | ['1'] => some 1
  | ['2'] => some 2
  | ['3'] => some 3
  | ['4'] => some 4
  | _ => none

/-- The text before and after the first `x`, if there is one. -/
def splitAtCross (cs : List Char) : Option (List Char × List Char) :=
  match cs.dropWhile (· != 'x') with
  | [] => none
  | _ :: rest => some (cs.takeWhile (· != 'x'), rest)

/-- Both dimensions of a text such as `4x3`. -/
def dimensions? (cs : List Char) : Option (UInt8 × UInt8) := do
  let (columns, rows) ← splitAtCross cs
  return (← dimension? columns, ← dimension? rows)

/-- The GLSL vector names, up to the number of components. -/
def vectorStems : List (List Char × Scalar) :=
  [("ivec".toList, .int), ("uvec".toList, .uint), ("vec".toList, .float)]

/-- The scalar names; a name that begins with another one stands before it. -/
def scalarStems : List (List Char × Scalar × ScalarWidth) :=
  [("sbyte".toList, .int, .byte), ("byte".toList, .uint, .byte),
   ("ushort".toList, .uint, .word), ("short".toList, .int, .word),
   ("uint".toList, .uint, .dword), ("int".toList, .int, .dword),
   ("float".toList, .float, .dword)]

/-- What follows the first stem that `cs` begins with, and that stem's meaning. -/
def matchStem? {α : Type} (stems : List (List Char × α)) (cs : List Char) :
    Option (α × List Char) :=
  stems.findSome? fun (stem, meaning) => (stem.isPrefixOf? cs).map (meaning, ·)

/-- Reads what follows the stem of a GLSL vector name: two, three or four. -/
def ofVectorTail? (scalar : Scalar) (tail : List Char) : Option NumericType := do
  let rows ← dimension? tail
  if 1 < rows then some (vector scalar rows) else none

/-- Reads what follows `mat`: one dimension for a square matrix, or both. -/
def ofMatrixTail? (tail : List Char) : Option NumericType := do
  let (columns, rows) ←
    match splitAtCross tail with
    | some _ => dimensions? tail
    | none => (dimension? tail).map fun n => (n, n)
  if 1 < columns && 1 < rows then some (matrix columns rows) else none

/-- Reads what follows a scalar name: nothing, a row count, or for floats both dimensions. -/
def ofScalarTail? (scalar : Scalar) (width : ScalarWidth) (tail : List Char) :
    Option NumericType := do
  let type ←
    match splitAtCross tail with
    | some _ =>
      if scalar == .float then (dimensions? tail).map fun (c, r) => matrix c r else none
    | none =>
      if tail.isEmpty then some (single scalar) else (dimension? tail).map (vector scalar)
  return { type with width }

/-- Reads a name without the normalization suffix. -/
def ofBaseName? (cs : List Char) : Option NumericType :=
  match matchStem? vectorStems cs with
  | some (scalar, tail) => ofVectorTail? scalar tail
  | none =>
    match "mat".toList.isPrefixOf? cs with
    | some tail => ofMatrixTail? tail
    | none =>
      match matchStem? scalarStems cs with
      | some ((scalar, width), tail) => ofScalarTail? scalar width tail
      | none => none

/-- Only vectors of two or four integers can be normalized. -/
def normalize? (t : NumericType) : Option NumericType :=
  if t.scalar != .float && t.isVector && (t.rows == 2 || t.rows == 4) then
    some { t with normalized := true }
  else
    none

/-- Reads the own name or the GLSL name of a type. -/
def ofName? (s : String) : Option NumericType :=
  match "_norm".toList.isSuffixOf? s.toList with
  | some base => (ofBaseName? base).bind normalize?
  | none => ofBaseName? s.toList

end NumericType

end ShaderVariants
