import ShaderVariants.Numeric.Basic

/-!
# Image and sampler types

An image has a scalar kind, a shape, and either carries its sampler (`sampler2D`) or
does not (`texture2D`).  A sampler of its own has a single type.

## Main definitions

* `ImageShape`, `ImageType` — the types.
* `ImageType.name`, `ImageType.ofName?` — the GLSL name of an image type and back.
* `samplerName` — the GLSL name of the sampler type.
-/

namespace ShaderVariants

/-- The dimensions of an image. -/
inductive ImageShape where
  | d1
  | d2
  | d3
  | cube
  | d1Array
  | d2Array
  | cubeArray
  | d2Multisample
  | d2MultisampleArray
  deriving DecidableEq, Repr, Inhabited

instance : Coded ImageShape where
  kind := "ImageShape"
  all := [.d1, .d2, .d3, .cube, .d1Array, .d2Array, .cubeArray, .d2Multisample,
    .d2MultisampleArray]
  name
    | .d1 => "D1"
    | .d2 => "D2"
    | .d3 => "D3"
    | .cube => "Cube"
    | .d1Array => "D1Array"
    | .d2Array => "D2Array"
    | .cubeArray => "CubeArray"
    | .d2Multisample => "D2Ms"
    | .d2MultisampleArray => "D2MsArray"
  mem_all a := by cases a <;> decide
  nodup_all := by decide
  length_all_le := by decide

/-- The end of the GLSL name of an image of this shape. -/
def ImageShape.suffix : ImageShape → String
  | .d1 => "1D"
  | .d2 => "2D"
  | .d3 => "3D"
  | .cube => "Cube"
  | .d1Array => "1DArray"
  | .d2Array => "2DArray"
  | .cubeArray => "CubeArray"
  | .d2Multisample => "2DMS"
  | .d2MultisampleArray => "2DMSArray"

/-- The GLSL name of the sampler type. -/
def samplerName : String := "sampler"

/-- An image, together with its sampler or without one. -/
structure ImageType where
  scalar : Scalar
  shape : ImageShape
  sampled : Bool
  deriving DecidableEq, Repr

namespace ImageType

/-- The GLSL name of an image type. -/
def name (t : ImageType) : String :=
  t.scalar.sigil ++ (if t.sampled then "sampler" else "texture") ++ t.shape.suffix

/-- Splits the letter of the scalar kind off a name. -/
def splitSigil : List Char → Scalar × List Char
  | 'i' :: rest => (.int, rest)
  | 'u' :: rest => (.uint, rest)
  | cs => (.float, cs)

/-- Splits `sampler` or `texture` off a name. -/
def splitSampled? (cs : List Char) : Option (Bool × List Char) :=
  match "sampler".toList.isPrefixOf? cs with
  | some rest => some (true, rest)
  | none => ("texture".toList.isPrefixOf? cs).map (false, ·)

/-- Reads a GLSL name. -/
def ofName? (s : String) : Option ImageType := do
  let (scalar, rest) := splitSigil s.toList
  let (sampled, suffix) ← splitSampled? rest
  let shape ← (Named.all : List ImageShape).find? fun shape => shape.suffix.toList == suffix
  return { scalar, shape, sampled }

end ImageType

end ShaderVariants
