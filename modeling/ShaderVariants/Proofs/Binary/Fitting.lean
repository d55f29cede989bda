import Mathlib
import ShaderVariants.Proofs.Binary.Truncation

/-!
# Records that can be stored

A record can be written exactly if all of its numbers and lengths fit the places that are
reserved for them.  It is then read back from its bytes, whatever follows them, and no
shorter part of its bytes reads as anything.

## Main definitions

* `TextFits`, `ListFits` and `Fits` of each record — what fits its place.
* `ExactlyStored α Fits` — the stored form of `α` is exact for the values that fit.

## Main results

* `fits_text_iff`, `fits_list_iff` and `fits_iff` of each record — what can be written.
* `records_exactlyStored` — **every record is stored exactly.**
-/

namespace ShaderVariants

/-! ### Texts and lists -/

/-- The number of bytes of a text is a word. -/
def TextFits (s : String) : Prop := (Utf8.encode s).length < Word.limit

/-- The number of items is a word, and all items fit. -/
def ListFits {α : Type} (itemFits : α → Prop) (xs : List α) : Prop :=
  xs.length < Word.limit ∧ ∀ x ∈ xs, itemFits x

@[simp] theorem fits_encode_byte (b : UInt8) : (encode b).fits = true := rfl

@[simp] theorem fits_encode_bool (b : Bool) : (encode b).fits = true := rfl

@[simp] theorem fits_encode_coded {α : Type} [DecidableEq α] [Coded α] (a : α) :
    (encode a).fits = true := rfl

@[simp] theorem fits_encode_nat_iff (n : ℕ) : (encode n).fits = true ↔ n < Word.limit :=
  fits_word_iff

@[simp] theorem fits_encode_word (w : UInt32) : (encode w).fits = true :=
  fits_word_iff.mpr w.toNat_lt

@[simp] theorem fits_text_iff (s : String) : (encode s).fits = true ↔ TextFits s := by
  change (Encoded.word _ ++ Encoded.ofBytes _).fits = true ↔ _
  rw [Encoded.fits_append, Bool.and_eq_true, fits_word_iff]
  exact and_iff_left rfl

@[simp] theorem fits_list_iff {α : Type} [Stored α] (xs : List α) :
    (encode xs).fits = true ↔ ListFits (fun x => (encode x).fits = true) xs := by
  change (Encoded.word _ ++ Encoded.concat encode xs).fits = true ↔ _
  rw [Encoded.fits_append, Bool.and_eq_true, fits_word_iff, fits_concat_iff, ListFits]

@[simp] theorem fits_option_iff {α : Type} [Stored α] (o : Option α) :
    (encode o).fits = true ↔ ∀ x, o = some x → (encode x).fits = true := by
  cases o with
  | none => exact iff_of_true rfl fun x hx => nomatch hx
  | some x =>
    change (encode true ++ encode x).fits = true ↔ _
    simp

/-! ### Types -/

/-- A numeric type always fits. -/
@[simp] theorem NumericType.fits (t : NumericType) : (encode t).fits = true := rfl

/-- An image type always fits. -/
@[simp] theorem ImageType.fits (t : ImageType) : (encode t).fits = true := rfl

/-- The name, place and size of a member fit. -/
structure StructureMember.Fits (m : StructureMember) : Prop where
  name : TextFits m.name
  offset : m.offset < Word.limit
  size : m.size < Word.limit

theorem StructureMember.fits_iff (m : StructureMember) : (encode m).fits = true ↔ m.Fits := by
  change (encode m.name ++ encode m.offset ++ encode m.size ++ encode m.type).fits = true ↔ _
  simp only [Encoded.fits_append, Bool.and_eq_true, fits_text_iff, fits_encode_nat_iff,
    NumericType.fits, and_true]
  exact ⟨fun ⟨⟨hname, hoffset⟩, hsize⟩ => ⟨hname, hoffset, hsize⟩,
    fun h => ⟨⟨h.name, h.offset⟩, h.size⟩⟩

/-- Only a structure has something that may not fit. -/
def BindingType.Fits : BindingType → Prop
  | .struct type => ListFits StructureMember.Fits type.members ∧ type.totalSize < Word.limit
  | .image _ | .sampler | .buffer _ => True

theorem BindingType.fits_iff (t : BindingType) : (encode t).fits = true ↔ t.Fits := by
  cases t with
  | struct type =>
    change (encode DataCategory.struct ++ (encode type.members ++ encode type.totalSize)).fits
      = true ↔ _
    simp only [Encoded.fits_append, Bool.and_eq_true, fits_encode_coded, fits_list_iff,
      fits_encode_nat_iff, StructureMember.fits_iff, true_and, Fits]
  | image type => exact iff_of_true rfl trivial
  | sampler => exact iff_of_true rfl trivial
  | buffer element => exact iff_of_true rfl trivial

/-- The place, name and type of a binding fit. -/
structure Binding.Fits (b : Binding) : Prop where
  set : b.set < Word.limit
  slot : b.slot < Word.limit
  name : TextFits b.name
  type : b.type.Fits

theorem Binding.fits_iff (b : Binding) : (encode b).fits = true ↔ b.Fits := by
  change (encode b.set ++ encode b.slot ++ encode b.name ++ encode b.perInstance ++
    encode b.type).fits = true ↔ _
  simp only [Encoded.fits_append, Bool.and_eq_true, fits_encode_nat_iff, fits_text_iff,
    fits_encode_bool, BindingType.fits_iff, and_true]
  exact ⟨fun ⟨⟨⟨hset, hslot⟩, hname⟩, htype⟩ => ⟨hset, hslot, hname, htype⟩,
    fun h => ⟨⟨⟨h.set, h.slot⟩, h.name⟩, h.type⟩⟩

/-- The location and name of an attribute fit. -/
structure VertexAttribute.Fits (a : VertexAttribute) : Prop where
  location : a.location < Word.limit
  name : TextFits a.name

theorem VertexAttribute.fits_iff (a : VertexAttribute) : (encode a).fits = true ↔ a.Fits := by
  change (encode a.location ++ encode a.name ++ encode a.perInstance ++ encode a.type).fits
    = true ↔ _
  simp only [Encoded.fits_append, Bool.and_eq_true, fits_encode_nat_iff, fits_text_iff,
    fits_encode_bool, NumericType.fits, and_true]
  exact ⟨fun ⟨hlocation, hname⟩ => ⟨hlocation, hname⟩, fun h => ⟨h.location, h.name⟩⟩

/-! ### Pipeline state -/

/-- The state of a stencil always fits. -/
@[simp] theorem StencilState.fits (s : StencilState) : (encode s).fits = true := rfl

@[simp] theorem BlendAttachment.fits (a : BlendAttachment) : (encode a).fits = true := by
  change (encode a.color ++ encode a.alpha).fits = true
  rw [Encoded.fits_append, Bool.and_eq_true, fits_option_iff]
  exact ⟨rfl, fun _ _ => rfl⟩

@[simp] theorem BlendConstant.fits (c : BlendConstant) : (encode c).fits = true := by
  change (encode c.red ++ encode c.green ++ encode c.blue ++ encode c.alpha).fits = true
  simp

theorem ColorOutput.fits_iff (o : ColorOutput) : (encode o).fits = true ↔ TextFits o.name := by
  change (encode o.name ++ encode o.format).fits = true ↔ _
  simp

/-- The numbers of attachments and outputs fit, and so do the names of the outputs. -/
structure PipelineState.Fits (s : PipelineState) : Prop where
  blendAttachments : s.blendAttachments.length < Word.limit
  colorOutputs : ListFits (fun o => TextFits o.name) s.colorOutputs

theorem PipelineState.fits_iff (s : PipelineState) : (encode s).fits = true ↔ s.Fits := by
  change (encode s.coverageToAlpha ++ encode s.blendFactor ++ encode s.blendAttachments ++
    encode s.depthTest ++ encode s.depthWrite ++ encode s.stencilTest ++
    encode s.stencilReadMask ++ encode s.stencilWriteMask ++ encode s.stencilReference ++
    encode s.stencilFront ++ encode s.stencilBack ++ encode s.cullMode ++ encode s.fillMode ++
    encode s.frontFace ++ encode s.depthClip ++ encode s.scissorTest ++
    encode s.primitiveTopology ++ encode s.depthOutput ++ encode s.colorOutputs ++
    encode s.outputSamples).fits = true ↔ _
  simp only [Encoded.fits_append, Bool.and_eq_true, fits_encode_bool, fits_encode_byte,
    fits_encode_word, fits_encode_coded, fits_option_iff, fits_list_iff, StencilState.fits,
    BlendAttachment.fits, BlendConstant.fits, ColorOutput.fits_iff, ListFits, implies_true,
    and_true, true_and]
  exact ⟨fun ⟨hattachments, houtputs⟩ => ⟨hattachments, houtputs⟩,
    fun h => ⟨h.blendAttachments, h.colorOutputs⟩⟩

/-! ### Shaders and variants -/

/-- The name of an option and its named values fit. -/
structure OptionInfo.Fits (o : OptionInfo) : Prop where
  name : TextFits o.name
  namedValues : ListFits TextFits o.namedValues

theorem OptionInfo.fits_iff (o : OptionInfo) : (encode o).fits = true ↔ o.Fits := by
  change (encode o.name ++ encode o.namedValues).fits = true ↔ _
  simp only [Encoded.fits_append, Bool.and_eq_true, fits_text_iff, fits_list_iff]
  exact ⟨fun ⟨hname, hvalues⟩ => ⟨hname, hvalues⟩, fun h => ⟨h.name, h.namedValues⟩⟩

/-- The mask of a shader, its options and the names in its interface fit. -/
structure ShaderInfo.Fits (i : ShaderInfo) : Prop where
  invarianceMask : i.invarianceMask < Word.limit
  options : ListFits OptionInfo.Fits i.options
  vertexAttributes : ListFits TextFits i.vertexAttributes
  instanceAttributes : ListFits TextFits i.instanceAttributes
  bindings : ListFits TextFits i.bindings

theorem ShaderInfo.fits_iff (i : ShaderInfo) : (encode i).fits = true ↔ i.Fits := by
  change (encode i.sourceHash ++ encode i.invarianceMask ++ encode i.options ++
    encode i.vertexAttributes ++ encode i.instanceAttributes ++ encode i.bindings).fits
    = true ↔ _
  simp only [Encoded.fits_append, Bool.and_eq_true, fits_encode_word, fits_encode_nat_iff,
    fits_list_iff, fits_text_iff, OptionInfo.fits_iff, true_and]
  exact ⟨fun ⟨⟨⟨⟨hmask, hoptions⟩, hvertex⟩, hinstance⟩, hbindings⟩ =>
      ⟨hmask, hoptions, hvertex, hinstance, hbindings⟩,
    fun h => ⟨⟨⟨⟨h.invarianceMask, h.options⟩, h.vertexAttributes⟩, h.instanceAttributes⟩,
      h.bindings⟩⟩

/-- The state of a variant, its interface and the sizes of its descriptor sets fit. -/
structure VariantBody.Fits (b : VariantBody) : Prop where
  pipeline : b.pipeline.Fits
  attributes : ListFits VertexAttribute.Fits b.attributes
  setSizes : ListFits (· < Word.signedLimit) b.setSizes
  bindings : ListFits Binding.Fits b.bindings

theorem VariantBody.fits_iff (b : VariantBody) : (encode b).fits = true ↔ b.Fits := by
  change (encode b.pipeline ++ encode b.attributes ++
    (Encoded.word b.setSizes.length ++ Encoded.concat Encoded.count b.setSizes) ++
    encode b.bindings).fits = true ↔ _
  simp only [Encoded.fits_append, Bool.and_eq_true, PipelineState.fits_iff, fits_list_iff,
    VertexAttribute.fits_iff, fits_word_iff, fits_concat_iff, fits_count_iff, Binding.fits_iff]
  exact ⟨fun ⟨⟨⟨hpipeline, hattributes⟩, hsizes⟩, hbindings⟩ =>
      ⟨hpipeline, hattributes, hsizes, hbindings⟩,
    fun h => ⟨⟨⟨h.pipeline, h.attributes⟩, h.setSizes⟩, h.bindings⟩⟩

/-! ### Exactness -/

/-- Exactly the values that fit can be written.  Such a value is read back from its bytes
and leaves whatever follows them, and to read any smaller part of its bytes fails at the
end of the input. -/
structure ExactlyStored (α : Type) [Stored α] (Fits : α → Prop) : Prop where
  written : ∀ v : α, (encode v).fits = true ↔ Fits v
  read : ∀ v : α, Fits v → ∀ rest,
    (decode : Decoder α) ((encode v).bytes ++ rest) = .ok (v, rest)
  truncated : ∀ v : α, Fits v → ∀ part, part <+: (encode v).bytes → part ≠ (encode v).bytes →
    ∃ e, (decode : Decoder α) part = .error e ∧ e.AtEnd

theorem ExactlyStored.of_fits_iff {α : Type} [Stored α] [LawfulStored α] [StreamingStored α]
    {Fits : α → Prop} (h : ∀ v : α, (encode v).fits = true ↔ Fits v) : ExactlyStored α Fits where
  written := h
  read v hv := reads_encode v ((h v).mpr hv)
  truncated v hv _ hpart hne :=
    (reads_encode v).truncated streams_decode ((h v).mpr hv) hpart hne

/-- **Every record is stored exactly**: types, attributes, bindings, pipeline state, the
description of a shader and the body of a variant. -/
theorem records_exactlyStored :
    ExactlyStored NumericType (fun _ => True) ∧ ExactlyStored ImageType (fun _ => True) ∧
    ExactlyStored VertexAttribute VertexAttribute.Fits ∧ ExactlyStored Binding Binding.Fits ∧
    ExactlyStored StencilState (fun _ => True) ∧
    ExactlyStored PipelineState PipelineState.Fits ∧
    ExactlyStored ShaderInfo ShaderInfo.Fits ∧ ExactlyStored VariantBody VariantBody.Fits := by
  refine ⟨?_, ?_, ?_, ?_, ?_, ?_, ?_, ?_⟩
  · exact .of_fits_iff fun t => iff_true_intro t.fits
  · exact .of_fits_iff fun t => iff_true_intro t.fits
  · exact .of_fits_iff VertexAttribute.fits_iff
  · exact .of_fits_iff Binding.fits_iff
  · exact .of_fits_iff fun s => iff_true_intro s.fits
  · exact .of_fits_iff PipelineState.fits_iff
  · exact .of_fits_iff ShaderInfo.fits_iff
  · exact .of_fits_iff VariantBody.fits_iff

end ShaderVariants
