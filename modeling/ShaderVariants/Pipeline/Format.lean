import ShaderVariants.Numeric.Basic

/-!
# Pixel formats

The formats of color and depth outputs, with the numeric type a fragment shader
writes for each of them.

## Main definitions

* `PixelFormat` — the formats.
* `PixelFormat.components`, `PixelFormat.scalar`, `PixelFormat.numericType` — what a
  shader reads or writes for a format.
-/

namespace ShaderVariants

/-- The layout of one pixel; the digits are the bits of each channel. -/
inductive PixelFormat where
  | b8g8r8a8UNorm
  | b8g8r8a8UNormSRgb
  | r10g10b10a2UInt
  | r10g10b10a2UNorm
  | r11g11b10Float
  | r16Float
  | r16g16b16a16Float
  | r16g16b16a16SInt
  | r16g16b16a16SNorm
  | r16g16b16a16UInt
  | r16g16b16a16UNorm
  | r16g16Float
  | r16g16SInt
  | r16g16SNorm
  | r16g16UInt
  | r16g16UNorm
  | r16SInt
  | r16SNorm
  | r16UInt
  | r16UNorm
  | r32Float
  | r32g32b32a32Float
  | r32g32b32a32SInt
  | r32g32b32a32UInt
  | r32g32Float
  | r32g32SInt
  | r32g32UInt
  | r32SInt
  | r32UInt
  | r8g8b8a8SInt
  | r8g8b8a8SNorm
  | r8g8b8a8UInt
  | r8g8b8a8UNorm
  | r8g8b8a8UNormSRgb
  | r8g8SInt
  | r8g8SNorm
  | r8g8UInt
  | r8g8UNorm
  | r8SInt
  | r8SNorm
  | r8UInt
  | r8UNorm
  | d24UNormS8UInt
  | d32FloatS8UInt
  deriving DecidableEq, Repr

instance : Coded PixelFormat where
  kind := "PixelFormat"
  all := [.b8g8r8a8UNorm, .b8g8r8a8UNormSRgb, .r10g10b10a2UInt, .r10g10b10a2UNorm,
    .r11g11b10Float, .r16Float, .r16g16b16a16Float, .r16g16b16a16SInt, .r16g16b16a16SNorm,
    .r16g16b16a16UInt, .r16g16b16a16UNorm, .r16g16Float, .r16g16SInt, .r16g16SNorm,
    .r16g16UInt, .r16g16UNorm, .r16SInt, .r16SNorm, .r16UInt, .r16UNorm, .r32Float,
    .r32g32b32a32Float, .r32g32b32a32SInt, .r32g32b32a32UInt, .r32g32Float, .r32g32SInt,
    .r32g32UInt, .r32SInt, .r32UInt, .r8g8b8a8SInt, .r8g8b8a8SNorm, .r8g8b8a8UInt,
    .r8g8b8a8UNorm, .r8g8b8a8UNormSRgb, .r8g8SInt, .r8g8SNorm, .r8g8UInt, .r8g8UNorm,
    .r8SInt, .r8SNorm, .r8UInt, .r8UNorm, .d24UNormS8UInt, .d32FloatS8UInt]
  name
    | .b8g8r8a8UNorm => "B8G8R8A8UNorm"
    | .b8g8r8a8UNormSRgb => "B8G8R8A8UNormSRgb"
    | .r10g10b10a2UInt => "R10G10B10A2UInt"
    | .r10g10b10a2UNorm => "R10G10B10A2UNorm"
    | .r11g11b10Float => "R11G11B10Float"
    | .r16Float => "R16Float"
    | .r16g16b16a16Float => "R16G16B16A16Float"
    | .r16g16b16a16SInt => "R16G16B16A16SInt"
    | .r16g16b16a16SNorm => "R16G16B16A16SNorm"
    | .r16g16b16a16UInt => "R16G16B16A16UInt"
    | .r16g16b16a16UNorm => "R16G16B16A16UNorm"
    | .r16g16Float => "R16G16Float"
    | .r16g16SInt => "R16G16SInt"
    | .r16g16SNorm => "R16G16SNorm"
    | .r16g16UInt => "R16G16UInt"
    | .r16g16UNorm => "R16G16UNorm"
    | .r16SInt => "R16SInt"
    | .r16SNorm => "R16SNorm"
    | .r16UInt => "R16UInt"
    | .r16UNorm => "R16UNorm"
    | .r32Float => "R32Float"
    | .r32g32b32a32Float => "R32G32B32A32Float"
    | .r32g32b32a32SInt => "R32G32B32A32SInt"
    | .r32g32b32a32UInt => "R32G32B32A32UInt"
    | .r32g32Float => "R32G32Float"
    | .r32g32SInt => "R32G32SInt"
    | .r32g32UInt => "R32G32UInt"
    | .r32SInt => "R32SInt"
    | .r32UInt => "R32UInt"
    | .r8g8b8a8SInt => "R8G8B8A8SInt"
    | .r8g8b8a8SNorm => "R8G8B8A8SNorm"
    | .r8g8b8a8UInt => "R8G8B8A8UInt"
    | .r8g8b8a8UNorm => "R8G8B8A8UNorm"
    | .r8g8b8a8UNormSRgb => "R8G8B8A8UNormSRgb"
    | .r8g8SInt => "R8G8SInt"
    | .r8g8SNorm => "R8G8SNorm"
    | .r8g8UInt => "R8G8UInt"
    | .r8g8UNorm => "R8G8UNorm"
    | .r8SInt => "R8SInt"
    | .r8SNorm => "R8SNorm"
    | .r8UInt => "R8UInt"
    | .r8UNorm => "R8UNorm"
    | .d24UNormS8UInt => "D24UNormS8UInt"
    | .d32FloatS8UInt => "D32FloatS8UInt"
  mem_all a := by cases a <;> decide
  nodup_all := by decide
  length_all_le := by decide

namespace PixelFormat

/-- A format of depth and stencil values, which a color output cannot use. -/
def isDepthOnly : PixelFormat → Bool
  | .d24UNormS8UInt | .d32FloatS8UInt => true
  | _ => false

/-- The number of channels; depth and stencil are two. -/
def components : PixelFormat → UInt8
  | .r16Float | .r16SInt | .r16SNorm | .r16UInt | .r16UNorm
  | .r32Float | .r32SInt | .r32UInt
  | .r8SInt | .r8SNorm | .r8UInt | .r8UNorm => 1
  | .r16g16Float | .r16g16SInt | .r16g16SNorm | .r16g16UInt | .r16g16UNorm
  | .r32g32Float | .r32g32SInt | .r32g32UInt
  | .r8g8SInt | .r8g8SNorm | .r8g8UInt | .r8g8UNorm
  | .d24UNormS8UInt | .d32FloatS8UInt => 2
  | .r11g11b10Float => 3
  | _ => 4

/-- The scalar kind a shader reads or writes; normalized channels are floats. -/
def scalar : PixelFormat → Scalar
  | .r16g16b16a16SInt | .r16g16SInt | .r16SInt
  | .r32g32b32a32SInt | .r32g32SInt | .r32SInt
  | .r8g8b8a8SInt | .r8g8SInt | .r8SInt => .int
  | .r10g10b10a2UInt | .r16g16b16a16UInt | .r16g16UInt | .r16UInt
  | .r32g32b32a32UInt | .r32g32UInt | .r32UInt
  | .r8g8b8a8UInt | .r8g8UInt | .r8UInt | .d24UNormS8UInt => .uint
  | _ => .float

/-- The vector that holds one pixel. -/
def numericType (f : PixelFormat) : NumericType := .vector f.scalar f.components

end PixelFormat

end ShaderVariants
