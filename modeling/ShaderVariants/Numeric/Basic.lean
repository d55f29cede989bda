import ShaderVariants.Coded

/-!
# Scalar, vector and matrix types

A numeric type is a scalar kind with a number of columns and rows.  Vertex data may
be stored narrow or normalized; a shader program only knows 32-bit scalars, so every
type is widened before it is bound to one.

## Main definitions

* `Scalar`, `ScalarWidth`, `NumericType` — the types.
* `NumericType.IsValid` — the types that a vertex stream or a program can hold.
* `NumericType.widened?` — the 32-bit type a program sees.
* `NumericType.size`, `NumericType.alignment` — the room a member takes in a structure.
-/

namespace ShaderVariants

/-- The kind of a single component. -/
inductive Scalar where
  | int
  | uint
  | float
  deriving DecidableEq, Repr, Inhabited

/-- The number of bits a component takes in memory: 32, 16 or 8. -/
inductive ScalarWidth where
  | dword
  | word
  | byte
  deriving DecidableEq, Repr, Inhabited

instance : Coded Scalar where
  kind := "ScalarType"
  all := [.int, .uint, .float]
  name
    | .int => "Int"
    | .uint => "UInt"
    | .float => "Float"
  mem_all a := by cases a <;> decide
  nodup_all := by decide
  length_all_le := by decide

instance : Coded ScalarWidth where
  kind := "ScalarWidth"
  all := [.dword, .word, .byte]
  name
    | .dword => "DWord"
    | .word => "Word"
    | .byte => "Byte"
  mem_all a := by cases a <;> decide
  nodup_all := by decide
  length_all_le := by decide

/-- The letter in front of the name of a vector or image of this kind. -/
def Scalar.sigil : Scalar → String
  | .int => "i"
  | .uint => "u"
  | .float => ""

/-- A scalar, a vector (one column) or a matrix. -/
structure NumericType where
  scalar : Scalar
  columns : UInt8
  rows : UInt8
  width : ScalarWidth := .dword
  normalized : Bool := false
  deriving DecidableEq, Repr, Inhabited

namespace NumericType

/-- A single component. -/
def single (scalar : Scalar) : NumericType := { scalar, columns := 1, rows := 1 }

/-- A vector of `rows` components. -/
def vector (scalar : Scalar) (rows : UInt8) : NumericType := { scalar, columns := 1, rows }

/-- A matrix of floats. -/
def matrix (columns rows : UInt8) : NumericType := { scalar := .float, columns, rows }

/-- One row and one column. -/
def isScalar (t : NumericType) : Bool := t.rows == 1 && t.columns == 1

/-- One column of several rows. -/
def isVector (t : NumericType) : Bool := 1 < t.rows && t.columns == 1

/-- Anything but one column. -/
def isMatrix (t : NumericType) : Bool := t.columns != 1

/-- Between one and four rows and columns, floats at full width, matrices of floats. -/
def isValid (t : NumericType) : Bool :=
  (1 ≤ t.rows && t.rows ≤ 4) && (1 ≤ t.columns && t.columns ≤ 4) &&
    !(t.scalar == .float && t.width != .dword) && !(t.isMatrix && t.scalar != .float)

/-- The type that a program sees: components of 32 bits, normalized integers as floats. -/
def widened? (t : NumericType) : Option NumericType :=
  if t.isValid then
    some {
      scalar := if t.scalar == .float || t.normalized then .float else t.scalar
      columns := t.columns
      rows := t.rows }
  else
    none

/-- The bytes between two columns: four for each row, three rows taking the room of four. -/
def columnSize (t : NumericType) : Nat := (if t.rows = 3 then 4 else t.rows.toNat) * 4

/-- The bytes a member of this type takes in a structure. -/
def size (t : NumericType) : Nat := t.columns.toNat * t.columnSize

/-- The offset of a member of this type in a structure is a multiple of its alignment. -/
def alignment (t : NumericType) : Nat := t.columnSize

/-- All the fields of a type, for messages about types that no program can hold. -/
def fieldsText (t : NumericType) : String :=
  "NumericType \x7b scalar: " ++ Named.name t.scalar ++
    ", columns: " ++ toString t.columns.toNat ++
    ", rows: " ++ toString t.rows.toNat ++
    ", width: " ++ Named.name t.width ++
    ", normalized: " ++ (if t.normalized then "true" else "false") ++ " \x7d"

end NumericType

end ShaderVariants
