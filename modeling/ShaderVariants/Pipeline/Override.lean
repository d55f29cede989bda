import ShaderVariants.Pipeline.State

/-!
# Overrides of pipeline state

A pipeline block of a shader sets some fields of the pipeline state and leaves the
others alone.  A state is composed by applying the overrides of all blocks in order.

## Main definitions

* `StencilOverride`, `PipelineOverride` — fields that may be set.
* `PipelineOverride.merge` — a later declaration on top of an earlier one.
* `PipelineState.override` — a state with an override applied; `overrideAll` takes a list.
* `PipelineState.toOverride` — a whole state as an override.
-/

namespace ShaderVariants

/-! ### Stencil -/

/-- The components of a stencil test that are set. -/
structure StencilOverride where
  comparison : Option Comparison := none
  pass : Option StencilOperation := none
  fail : Option StencilOperation := none
  depthFail : Option StencilOperation := none
  deriving DecidableEq, Repr

/-- Components of `later` win. -/
def StencilOverride.merge (earlier later : StencilOverride) : StencilOverride where
  comparison := later.comparison <|> earlier.comparison
  pass := later.pass <|> earlier.pass
  fail := later.fail <|> earlier.fail
  depthFail := later.depthFail <|> earlier.depthFail

/-- The override that sets every component of a test to what it is. -/
def StencilState.toOverride (s : StencilState) : StencilOverride where
  comparison := s.comparison
  pass := s.pass
  fail := s.fail
  depthFail := s.depthFail

/-- Components set for this face win over those set for both faces, which win over the
present ones. -/
def StencilState.override (s : StencilState) (face both : StencilOverride) : StencilState where
  comparison := (face.comparison <|> both.comparison).getD s.comparison
  pass := (face.pass <|> both.pass).getD s.pass
  fail := (face.fail <|> both.fail).getD s.fail
  depthFail := (face.depthFail <|> both.depthFail).getD s.depthFail

/-! ### The whole state -/

/-- The fields that one pipeline block sets. -/
structure PipelineOverride where
  coverageToAlpha : Option Bool := none
  blendFactor : Option BlendConstant := none
  blendAttachments : List BlendAttachment := []
  depthTest : Option Bool := none
  depthWrite : Option Bool := none
  stencilTest : Option Bool := none
  stencilReadMask : Option UInt8 := none
  stencilWriteMask : Option UInt8 := none
  stencilReference : Option UInt32 := none
  /-- Applies to both faces, except where the face has a component of its own. -/
  stencil : StencilOverride := {}
  stencilFront : StencilOverride := {}
  stencilBack : StencilOverride := {}
  cullMode : Option CullMode := none
  fillMode : Option FillMode := none
  frontFace : Option FrontFace := none
  depthClip : Option Bool := none
  scissorTest : Option Bool := none
  primitiveTopology : Option PrimitiveTopology := none
  depthOutput : Option PixelFormat := none
  colorOutputs : List ColorOutput := []
  outputSamples : Option UInt8 := none
  deriving DecidableEq, Repr

/-- Fields of `later` win; its lists are appended. -/
def PipelineOverride.merge (earlier later : PipelineOverride) : PipelineOverride where
  coverageToAlpha := later.coverageToAlpha <|> earlier.coverageToAlpha
  blendFactor := later.blendFactor <|> earlier.blendFactor
  blendAttachments := earlier.blendAttachments ++ later.blendAttachments
  depthTest := later.depthTest <|> earlier.depthTest
  depthWrite := later.depthWrite <|> earlier.depthWrite
  stencilTest := later.stencilTest <|> earlier.stencilTest
  stencilReadMask := later.stencilReadMask <|> earlier.stencilReadMask
  stencilWriteMask := later.stencilWriteMask <|> earlier.stencilWriteMask
  stencilReference := later.stencilReference <|> earlier.stencilReference
  stencil := earlier.stencil.merge later.stencil
  stencilFront := earlier.stencilFront.merge later.stencilFront
  stencilBack := earlier.stencilBack.merge later.stencilBack
  cullMode := later.cullMode <|> earlier.cullMode
  fillMode := later.fillMode <|> earlier.fillMode
  frontFace := later.frontFace <|> earlier.frontFace
  depthClip := later.depthClip <|> earlier.depthClip
  scissorTest := later.scissorTest <|> earlier.scissorTest
  primitiveTopology := later.primitiveTopology <|> earlier.primitiveTopology
  depthOutput := later.depthOutput <|> earlier.depthOutput
  colorOutputs := earlier.colorOutputs ++ later.colorOutputs
  outputSamples := later.outputSamples <|> earlier.outputSamples

/-- The override that sets every field of a state to what it is. -/
def PipelineState.toOverride (s : PipelineState) : PipelineOverride where
  coverageToAlpha := s.coverageToAlpha
  blendFactor := s.blendFactor
  blendAttachments := s.blendAttachments
  depthTest := s.depthTest
  depthWrite := s.depthWrite
  stencilTest := s.stencilTest
  stencilReadMask := s.stencilReadMask
  stencilWriteMask := s.stencilWriteMask
  stencilReference := s.stencilReference
  stencilFront := s.stencilFront.toOverride
  stencilBack := s.stencilBack.toOverride
  cullMode := s.cullMode
  fillMode := s.fillMode
  frontFace := s.frontFace
  depthClip := s.depthClip
  scissorTest := s.scissorTest
  primitiveTopology := s.primitiveTopology
  depthOutput := s.depthOutput
  colorOutputs := s.colorOutputs
  outputSamples := s.outputSamples

/-- The elements of `top`, then those of `base` at the places beyond. -/
def overlay {α : Type} : List α → List α → List α
  | base, [] => base
  | base, x :: top => x :: overlay base.tail top

namespace PipelineState

/-- The state `s` with the fields of `o` in place of its own; lists are overwritten
element by element. -/
def override (s : PipelineState) (o : PipelineOverride) : PipelineState where
  coverageToAlpha := o.coverageToAlpha.getD s.coverageToAlpha
  blendFactor := o.blendFactor.getD s.blendFactor
  blendAttachments := overlay s.blendAttachments o.blendAttachments
  depthTest := o.depthTest.getD s.depthTest
  depthWrite := o.depthWrite.getD s.depthWrite
  stencilTest := o.stencilTest.getD s.stencilTest
  stencilReadMask := o.stencilReadMask.getD s.stencilReadMask
  stencilWriteMask := o.stencilWriteMask.getD s.stencilWriteMask
  stencilReference := o.stencilReference.getD s.stencilReference
  stencilFront := s.stencilFront.override o.stencilFront o.stencil
  stencilBack := s.stencilBack.override o.stencilBack o.stencil
  cullMode := o.cullMode.getD s.cullMode
  fillMode := o.fillMode.getD s.fillMode
  frontFace := o.frontFace.getD s.frontFace
  depthClip := o.depthClip.getD s.depthClip
  scissorTest := o.scissorTest.getD s.scissorTest
  primitiveTopology := o.primitiveTopology.getD s.primitiveTopology
  depthOutput := o.depthOutput <|> s.depthOutput
  colorOutputs := overlay s.colorOutputs o.colorOutputs
  outputSamples := o.outputSamples.getD s.outputSamples

/-- The overrides applied one after the other. -/
def overrideAll (s : PipelineState) (overrides : List PipelineOverride) : PipelineState :=
  overrides.foldl override s

end PipelineState

end ShaderVariants
