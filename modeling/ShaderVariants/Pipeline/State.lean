import ShaderVariants.Pipeline.Format

/-!
# Fixed-function pipeline state

Everything about drawing that is not programmed: blending, depth and stencil tests,
culling, rasterization and the outputs.

## Main definitions

* `BlendFormula`, `BlendAttachment`, `StencilState` — the parts.
* `PipelineState` — the whole; `PipelineState.withAttachments` is where it starts from.
-/

namespace ShaderVariants

/-! ### Blending -/

/-- What a color is multiplied by before blending. -/
inductive BlendFactor where
  | blendFactor
  | dstAlpha
  | dstColor
  | invBlendFactor
  | invDstAlpha
  | invDstColor
  | invSrcAlpha
  | invSrcColor
  | one
  | srcAlpha
  | srcColor
  | zero
  deriving DecidableEq, Repr

instance : Coded BlendFactor where
  kind := "BlendFactor"
  all := [.blendFactor, .dstAlpha, .dstColor, .invBlendFactor, .invDstAlpha, .invDstColor,
    .invSrcAlpha, .invSrcColor, .one, .srcAlpha, .srcColor, .zero]
  name
    | .blendFactor => "BlendFactor"
    | .dstAlpha => "DstAlpha"
    | .dstColor => "DstColor"
    | .invBlendFactor => "InvBlendFactor"
    | .invDstAlpha => "InvDstAlpha"
    | .invDstColor => "InvDstColor"
    | .invSrcAlpha => "InvSrcAlpha"
    | .invSrcColor => "InvSrcColor"
    | .one => "One"
    | .srcAlpha => "SrcAlpha"
    | .srcColor => "SrcColor"
    | .zero => "Zero"
  mem_all a := by cases a <;> decide
  nodup_all := by decide
  length_all_le := by decide

/-- How the two multiplied colors are combined. -/
inductive BlendFunction where
  | add
  | maximum
  | minimum
  | reverseSubtract
  | subtract
  deriving DecidableEq, Repr

instance : Coded BlendFunction where
  kind := "BlendFunction"
  all := [.add, .maximum, .minimum, .reverseSubtract, .subtract]
  name
    | .add => "Add"
    | .maximum => "Maximum"
    | .minimum => "Minimum"
    | .reverseSubtract => "ReverseSubtract"
    | .subtract => "Subtract"
  mem_all a := by cases a <;> decide
  nodup_all := by decide
  length_all_le := by decide

/-- How a written color and the one already there become one. -/
structure BlendFormula where
  source : BlendFactor
  destination : BlendFactor
  function : BlendFunction
  deriving DecidableEq, Repr

/-- The written color replaces the one already there. -/
def BlendFormula.replacing : BlendFormula :=
  { source := .one, destination := .zero, function := .add }

/-- Blending of one color output; without an alpha formula the color formula is used
for alpha as well. -/
structure BlendAttachment where
  color : BlendFormula := .replacing
  alpha : Option BlendFormula := none
  deriving DecidableEq, Repr

/-- The constant blend color, each component as the word of a 32-bit float. -/
structure BlendConstant where
  red : UInt32
  green : UInt32
  blue : UInt32
  alpha : UInt32
  deriving DecidableEq, Repr

/-- All components are zero. -/
def BlendConstant.zero : BlendConstant := { red := 0, green := 0, blue := 0, alpha := 0 }

/-! ### Stencil test -/

/-- When a test passes. -/
inductive Comparison where
  | always
  | equal
  | greater
  | greaterEqual
  | less
  | lessEqual
  | never
  | notEqual
  deriving DecidableEq, Repr

instance : Coded Comparison where
  kind := "ComparisonKind"
  all := [.always, .equal, .greater, .greaterEqual, .less, .lessEqual, .never, .notEqual]
  name
    | .always => "Always"
    | .equal => "Equal"
    | .greater => "Greater"
    | .greaterEqual => "GreaterEqual"
    | .less => "Less"
    | .lessEqual => "LessEqual"
    | .never => "Never"
    | .notEqual => "NotEqual"
  mem_all a := by cases a <;> decide
  nodup_all := by decide
  length_all_le := by decide

/-- What happens to the stored stencil value. -/
inductive StencilOperation where
  | decrementAndClamp
  | decrementAndWrap
  | incrementAndClamp
  | incrementAndWrap
  | invert
  | keep
  | replace
  | zero
  deriving DecidableEq, Repr

instance : Coded StencilOperation where
  kind := "StencilOperation"
  all := [.decrementAndClamp, .decrementAndWrap, .incrementAndClamp, .incrementAndWrap,
    .invert, .keep, .replace, .zero]
  name
    | .decrementAndClamp => "DecrementAndClamp"
    | .decrementAndWrap => "DecrementAndWrap"
    | .incrementAndClamp => "IncrementAndClamp"
    | .incrementAndWrap => "IncrementAndWrap"
    | .invert => "Invert"
    | .keep => "Keep"
    | .replace => "Replace"
    | .zero => "Zero"
  mem_all a := by cases a <;> decide
  nodup_all := by decide
  length_all_le := by decide

/-- The stencil test of one face. -/
structure StencilState where
  comparison : Comparison := .always
  pass : StencilOperation := .keep
  fail : StencilOperation := .keep
  depthFail : StencilOperation := .keep
  deriving DecidableEq, Repr

/-! ### Rasterization -/

/-- Which faces are not drawn. -/
inductive CullMode where
  | back
  | front
  | none
  deriving DecidableEq, Repr

instance : Coded CullMode where
  kind := "FaceCullMode"
  all := [.back, .front, .none]
  name
    | .back => "Back"
    | .front => "Front"
    | .none => "None"
  mem_all a := by cases a <;> decide
  nodup_all := by decide
  length_all_le := by decide

/-- Whether faces are filled. -/
inductive FillMode where
  | solid
  | wireframe
  deriving DecidableEq, Repr

instance : Coded FillMode where
  kind := "FaceFillMode"
  all := [.solid, .wireframe]
  name
    | .solid => "Solid"
    | .wireframe => "Wireframe"
  mem_all a := by cases a <;> decide
  nodup_all := by decide
  length_all_le := by decide

/-- The winding of a face seen from the front. -/
inductive FrontFace where
  | clockwise
  | counterClockwise
  deriving DecidableEq, Repr

instance : Coded FrontFace where
  kind := "FrontFace"
  all := [.clockwise, .counterClockwise]
  name
    | .clockwise => "Clockwise"
    | .counterClockwise => "CounterClockwise"
  mem_all a := by cases a <;> decide
  nodup_all := by decide
  length_all_le := by decide

/-- How vertices form primitives. -/
inductive PrimitiveTopology where
  | lineList
  | lineStrip
  | pointList
  | triangleList
  | triangleStrip
  deriving DecidableEq, Repr

instance : Coded PrimitiveTopology where
  kind := "PrimitiveTopology"
  all := [.lineList, .lineStrip, .pointList, .triangleList, .triangleStrip]
  name
    | .lineList => "LineList"
    | .lineStrip => "LineStrip"
    | .pointList => "PointList"
    | .triangleList => "TriangleList"
    | .triangleStrip => "TriangleStrip"
  mem_all a := by cases a <;> decide
  nodup_all := by decide
  length_all_le := by decide

/-! ### The whole state -/

/-- A color output of the fragment stage. -/
structure ColorOutput where
  name : String
  format : PixelFormat
  deriving DecidableEq, Repr

/-- The output that takes place `index` where none is declared. -/
def ColorOutput.ofIndex (index : Nat) : ColorOutput :=
  { name := "color" ++ toString index, format := .r8g8b8a8UNorm }

/-- The state of a draw call apart from its programs and resources. -/
structure PipelineState where
  coverageToAlpha : Bool
  blendFactor : BlendConstant
  blendAttachments : List BlendAttachment
  depthTest : Bool
  depthWrite : Bool
  stencilTest : Bool
  stencilReadMask : UInt8
  stencilWriteMask : UInt8
  stencilReference : UInt32
  stencilFront : StencilState
  stencilBack : StencilState
  cullMode : CullMode
  fillMode : FillMode
  frontFace : FrontFace
  depthClip : Bool
  scissorTest : Bool
  primitiveTopology : PrimitiveTopology
  depthOutput : Option PixelFormat
  colorOutputs : List ColorOutput
  outputSamples : UInt8
  deriving DecidableEq, Repr

/-- Depth is tested and written, back faces of counter-clockwise triangles are culled,
and `count` color outputs are replaced without blending. -/
def PipelineState.withAttachments (count : Nat) : PipelineState where
  coverageToAlpha := false
  blendFactor := .zero
  blendAttachments := List.replicate count {}
  depthTest := true
  depthWrite := true
  stencilTest := false
  stencilReadMask := 0
  stencilWriteMask := 0
  stencilReference := 0
  stencilFront := {}
  stencilBack := {}
  cullMode := .back
  fillMode := .solid
  frontFace := .counterClockwise
  depthClip := true
  scissorTest := false
  primitiveTopology := .triangleList
  depthOutput := none
  colorOutputs := (List.range count).map .ofIndex
  outputSamples := 1

/-- The state before any override: one color output. -/
def PipelineState.initial : PipelineState := .withAttachments 1

end ShaderVariants
