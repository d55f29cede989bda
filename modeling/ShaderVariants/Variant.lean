import ShaderVariants.Binary.Word
import ShaderVariants.Binding
import ShaderVariants.Options.Info
import ShaderVariants.Pipeline.State
import ShaderVariants.Text.Hex

/-!
# Shaders and their variants

A variant is one shader compiled for one choice of all its options.  Variants are
identified by the checksum of the shader's source and the option word.

## Main definitions

* `VariantKey` — the identity of a variant; `VariantKey.programKey` is that of its
  programs.
* `ShaderInfo` — what is known of a shader without its variants, with `ShaderInfo.keyFor`,
  `ShaderInfo.variantName` and `ShaderInfo.variantNameInWords`.
* `Variant` — pipeline state, interface and programs of one variant.
-/

namespace ShaderVariants

/-! ### Keys -/

/-- The identity of a variant of a shader. -/
structure VariantKey where
  /-- The checksum of the source text. -/
  sourceHash : UInt32
  optionWord : OptionWord
  deriving DecidableEq, Repr, Hashable

/-- The shader's checksum as eight hexadecimal digits. -/
def hashText (hash : UInt32) : String := hexWord hash.toNat

namespace VariantKey

/-- Both halves of a key in hexadecimal. -/
def text (k : VariantKey) : String := hashText k.sourceHash ++ "_" ++ hexWord k.optionWord

/-- The key without the bits of options that never change a program.  Variants share
their programs exactly if they have the same program key. -/
def programKey (k : VariantKey) (invarianceMask : OptionWord) : VariantKey :=
  { k with optionWord := k.optionWord.clear invarianceMask }

end VariantKey

/-! ### Shaders -/

/-- What a container says about a shader apart from its variants. -/
structure ShaderInfo where
  sourceHash : UInt32
  /-- The bits of options that never change a program. -/
  invarianceMask : OptionWord
  options : List OptionInfo
  vertexAttributes : List String
  instanceAttributes : List String
  bindings : List String
  deriving DecidableEq, Repr

namespace ShaderInfo

/-- The options with the lowest bit of each field. -/
def fields (info : ShaderInfo) : List (OptionInfo × Nat) :=
  OptionInfo.fieldsFrom 0 info.options

/-- Packs values given by name; a missing value or one out of range counts as zero. -/
def keyFor (info : ShaderInfo) (values : String → Option Nat) : VariantKey where
  sourceHash := info.sourceHash
  optionWord := info.fields.foldl (fun w (o, offset) =>
    w ||| .place (((values o.name).filter (· < o.valueCount)).getD 0) offset) 0

/-- The key that all variants with the programs of the word `w` have in common. -/
def programKey (info : ShaderInfo) (w : OptionWord) : VariantKey :=
  VariantKey.programKey { sourceHash := info.sourceHash, optionWord := w } info.invarianceMask

/-- The name of one value of an option. -/
def valueText (o : OptionInfo) (value : Nat) : String :=
  if o.isFlag then o.name
  else o.name ++ "=" ++ (o.namedValues[value]?).getD ("unknown" ++ toString value)

/-- A text with another one behind it; a comma parts them unless the first is empty. -/
def enumerate (s t : String) : String := if s.isEmpty then t else s ++ ", " ++ t

/-- The options that are not at their first value, with their values.  An empty name at
the front, which only a flag without a name has, gets no comma. -/
def variantName (info : ShaderInfo) (w : OptionWord) : String :=
  (info.fields.filterMap fun (o, offset) =>
    match w.field offset o.bitCount with
    | 0 => none
    | value => some (valueText o value)).foldl enumerate ""

/-- The name as it is computed from shifted words.  It is `variantName` if the fields of all
options lie within the word. -/
def variantNameInWords (overflow : Overflow) (info : ShaderInfo) (w : OptionWord) :
    Except WordError String := do
  let parts ← info.fields.mapM fun (o, offset) => do
    let bits ← overflow.below OptionWord.width .leftShiftTooFar o.bitCount
    let offset ← overflow.below OptionWord.width .rightShiftTooFar offset
    return match w.field offset bits with
      | 0 => none
      | value => some (valueText o value)
  return (parts.filterMap id).foldl enumerate ""

end ShaderInfo

/-! ### Variants -/

/-- A compiled variant. -/
structure Variant where
  key : VariantKey
  pipeline : PipelineState
  /-- In order of their locations. -/
  attributes : List VertexAttribute
  /-- The number of slots of each descriptor set. -/
  setSizes : List Nat
  /-- In order of set and slot. -/
  bindings : List Binding
  vertexProgram : List UInt8
  fragmentProgram : List UInt8
  deriving DecidableEq, Repr

/-- The same programs and interface under another key, drawn with another state. -/
def Variant.withPipeline (v : Variant) (key : VariantKey) (pipeline : PipelineState) : Variant :=
  { v with key, pipeline }

end ShaderVariants
