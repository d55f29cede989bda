import ShaderVariants.Binary.Stored
import ShaderVariants.Pipeline.Override
import ShaderVariants.Variant

/-!
# Stored forms of the model

The fields of each record are stored one after the other, in the order given here.

## Main definitions

* Stored forms of numeric, image and binding types, of attributes, pipeline state and
  shader descriptions.
* `VariantBody` — what is stored of a variant besides its programs.
-/

namespace ShaderVariants

/-! ### Types -/

instance : Stored NumericType where
  encode t := encode t.scalar ++ encode t.columns ++ encode t.rows ++ encode t.width ++
    encode t.normalized
  decode := do
    let scalar ← decode
    let columns ← decode
    let rows ← decode
    let width ← decode
    let normalized ← decode
    return { scalar, columns, rows, width, normalized }

instance : Stored ImageType where
  encode t := encode t.scalar ++ encode t.shape ++ encode t.sampled
  decode := do
    let scalar ← decode
    let shape ← decode
    let sampled ← decode
    return { scalar, shape, sampled }

instance : Stored StructureMember where
  encode m := encode m.name ++ encode m.offset ++ encode m.size ++ encode m.type
  decode := do
    let name ← decode
    let offset ← decode
    let size ← decode
    let type ← decode
    return { name, offset, size, type }

instance : Stored StructureType where
  encode t := encode t.members ++ encode t.totalSize
  decode := do
    let members ← decode
    let totalSize ← decode
    return { members, totalSize }

/-- The category, then the type itself.  The category of plain numbers is a valid byte,
but not that of a binding. -/
instance : Stored BindingType where
  encode t := encode t.category ++
    match t with
    | .struct type => encode type
    | .image type => encode type
    | .sampler => .nil
    | .buffer element => encode element
  decode := do
    match (← decode : DataCategory) with
    | .struct => .struct <$> decode
    | .image => .image <$> decode
    | .sampler => pure .sampler
    | .buffer => .buffer <$> decode
    | .numeric => Decoder.fail (.unknownCode "BindingType" (Coded.code DataCategory.numeric))

instance : Stored Binding where
  encode b := encode b.set ++ encode b.slot ++ encode b.name ++ encode b.perInstance ++
    encode b.type
  decode := do
    let set ← decode
    let slot ← decode
    let name ← decode
    let perInstance ← decode
    let type ← decode
    return { set, slot, name, perInstance, type }

instance : Stored VertexAttribute where
  encode a := encode a.location ++ encode a.name ++ encode a.perInstance ++ encode a.type
  decode := do
    let location ← decode
    let name ← decode
    let perInstance ← decode
    let type ← decode
    return { location, name, type, perInstance }

/-! ### Pipeline state -/

instance : Stored BlendFormula where
  encode f := encode f.source ++ encode f.destination ++ encode f.function
  decode := do
    let source ← decode
    let destination ← decode
    let function ← decode
    return { source, destination, function }

instance : Stored BlendAttachment where
  encode a := encode a.color ++ encode a.alpha
  decode := do
    let color ← decode
    let alpha ← decode
    return { color, alpha }

instance : Stored BlendConstant where
  encode c := encode c.red ++ encode c.green ++ encode c.blue ++ encode c.alpha
  decode := do
    let red ← decode
    let green ← decode
    let blue ← decode
    let alpha ← decode
    return { red, green, blue, alpha }

instance : Stored StencilState where
  encode s := encode s.comparison ++ encode s.pass ++ encode s.fail ++ encode s.depthFail
  decode := do
    let comparison ← decode
    let pass ← decode
    let fail ← decode
    let depthFail ← decode
    return { comparison, pass, fail, depthFail }

instance : Stored ColorOutput where
  encode o := encode o.name ++ encode o.format
  decode := do
    let name ← decode
    let format ← decode
    return { name, format }

instance : Stored PipelineState where
  encode s :=
    encode s.coverageToAlpha ++ encode s.blendFactor ++ encode s.blendAttachments ++
    encode s.depthTest ++ encode s.depthWrite ++ encode s.stencilTest ++
    encode s.stencilReadMask ++ encode s.stencilWriteMask ++ encode s.stencilReference ++
    encode s.stencilFront ++ encode s.stencilBack ++
    encode s.cullMode ++ encode s.fillMode ++ encode s.frontFace ++
    encode s.depthClip ++ encode s.scissorTest ++ encode s.primitiveTopology ++
    encode s.depthOutput ++ encode s.colorOutputs ++ encode s.outputSamples
  decode := do
    let coverageToAlpha ← decode
    let blendFactor ← decode
    let blendAttachments ← decode
    let depthTest ← decode
    let depthWrite ← decode
    let stencilTest ← decode
    let stencilReadMask ← decode
    let stencilWriteMask ← decode
    let stencilReference ← decode
    let stencilFront ← decode
    let stencilBack ← decode
    let cullMode ← decode
    let fillMode ← decode
    let frontFace ← decode
    let depthClip ← decode
    let scissorTest ← decode
    let primitiveTopology ← decode
    let depthOutput ← decode
    let colorOutputs ← decode
    let outputSamples ← decode
    return {
      coverageToAlpha, blendFactor, blendAttachments, depthTest, depthWrite, stencilTest,
      stencilReadMask, stencilWriteMask, stencilReference, stencilFront, stencilBack,
      cullMode, fillMode, frontFace, depthClip, scissorTest, primitiveTopology,
      depthOutput, colorOutputs, outputSamples }

/-! ### Shaders and variants -/

instance : Stored OptionInfo where
  encode o := encode o.name ++ encode o.namedValues
  decode := do
    let name ← decode
    let namedValues ← decode
    return { name, namedValues }

instance : Stored ShaderInfo where
  encode i := encode i.sourceHash ++ encode i.invarianceMask ++ encode i.options ++
    encode i.vertexAttributes ++ encode i.instanceAttributes ++ encode i.bindings
  decode := do
    let sourceHash ← decode
    let invarianceMask ← decode
    let options ← decode
    let vertexAttributes ← decode
    let instanceAttributes ← decode
    let bindings ← decode
    return { sourceHash, invarianceMask, options, vertexAttributes, instanceAttributes, bindings }

/-- What is stored of a variant besides its programs. -/
structure VariantBody where
  pipeline : PipelineState
  attributes : List VertexAttribute
  setSizes : List Nat
  bindings : List Binding
  deriving DecidableEq, Repr

/-- Everything of a variant but its key and its programs. -/
def Variant.body (v : Variant) : VariantBody where
  pipeline := v.pipeline
  attributes := v.attributes
  setSizes := v.setSizes
  bindings := v.bindings

/-- The variant with this body. -/
def VariantBody.variant (b : VariantBody) (key : VariantKey)
    (vertexProgram fragmentProgram : List UInt8) : Variant where
  key := key
  pipeline := b.pipeline
  attributes := b.attributes
  setSizes := b.setSizes
  bindings := b.bindings
  vertexProgram := vertexProgram
  fragmentProgram := fragmentProgram

/-- The sizes of descriptor sets are stored as signed words. -/
instance : Stored VariantBody where
  encode b := encode b.pipeline ++ encode b.attributes ++
    (Encoded.word b.setSizes.length ++ Encoded.concat Encoded.count b.setSizes) ++
    encode b.bindings
  decode := do
    let pipeline ← decode
    let attributes ← decode
    let setSizes ← Decoder.times Decoder.count (← Decoder.word)
    let bindings ← decode
    return { pipeline, attributes, setSizes, bindings }

end ShaderVariants
