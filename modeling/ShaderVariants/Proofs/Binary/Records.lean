import Mathlib
import ShaderVariants.Container.Format
import ShaderVariants.Proofs.Binary.Codec

/-!
# Reading records

Every record of the model is read back from its stored form, field by field in the order
in which the fields were written.  Only the source text of a shader changes: an empty one
reads as a missing one.

## Main definitions

* `ShaderEntry.stored` — what a shader reads as.

## Main results

* Lawful stored forms of the records of bindings, pipeline state, shaders and variants.
* `ShaderEntry.reads_encode` — a shader is read back up to an empty source text.
-/

namespace ShaderVariants

open Decoder (Reads)

/-! ### Types -/

instance : LawfulStored NumericType where
  reads t := by
    change Reads _ (encode t.scalar ++ encode t.columns ++ encode t.rows ++ encode t.width ++
      encode t.normalized) _
    simp only [Encoded.append_assoc]
    iterate 4 refine (reads_encode _).bind ?_
    exact (reads_encode _).bind_pure

instance : LawfulStored ImageType where
  reads t := by
    change Reads _ (encode t.scalar ++ encode t.shape ++ encode t.sampled) _
    simp only [Encoded.append_assoc]
    iterate 2 refine (reads_encode _).bind ?_
    exact (reads_encode _).bind_pure

instance : LawfulStored StructureMember where
  reads m := by
    change Reads _ (encode m.name ++ encode m.offset ++ encode m.size ++ encode m.type) _
    simp only [Encoded.append_assoc]
    iterate 3 refine (reads_encode _).bind ?_
    exact (reads_encode _).bind_pure

instance : LawfulStored StructureType where
  reads t := (reads_encode t.members).bind (reads_encode t.totalSize).bind_pure

/-- The category says which of the types follows it. -/
instance : LawfulStored BindingType where
  reads t := by
    cases t with
    | struct type => exact (reads_encode DataCategory.struct).bind (reads_encode type).map
    | image type => exact (reads_encode DataCategory.image).bind (reads_encode type).map
    | sampler => exact (reads_encode DataCategory.sampler).bind (Reads.pure _)
    | buffer element => exact (reads_encode DataCategory.buffer).bind (reads_encode element).map

instance : LawfulStored Binding where
  reads b := by
    change Reads _ (encode b.set ++ encode b.slot ++ encode b.name ++ encode b.perInstance ++
      encode b.type) _
    simp only [Encoded.append_assoc]
    iterate 4 refine (reads_encode _).bind ?_
    exact (reads_encode _).bind_pure

instance : LawfulStored VertexAttribute where
  reads a := by
    change Reads _ (encode a.location ++ encode a.name ++ encode a.perInstance ++
      encode a.type) _
    simp only [Encoded.append_assoc]
    iterate 3 refine (reads_encode _).bind ?_
    exact (reads_encode _).bind_pure

/-! ### Pipeline state -/

instance : LawfulStored BlendFormula where
  reads f := by
    change Reads _ (encode f.source ++ encode f.destination ++ encode f.function) _
    simp only [Encoded.append_assoc]
    iterate 2 refine (reads_encode _).bind ?_
    exact (reads_encode _).bind_pure

instance : LawfulStored BlendAttachment where
  reads a := (reads_encode a.color).bind (reads_encode a.alpha).bind_pure

instance : LawfulStored BlendConstant where
  reads c := by
    change Reads _ (encode c.red ++ encode c.green ++ encode c.blue ++ encode c.alpha) _
    simp only [Encoded.append_assoc]
    iterate 3 refine (reads_encode _).bind ?_
    exact (reads_encode _).bind_pure

instance : LawfulStored StencilState where
  reads s := by
    change Reads _ (encode s.comparison ++ encode s.pass ++ encode s.fail ++
      encode s.depthFail) _
    simp only [Encoded.append_assoc]
    iterate 3 refine (reads_encode _).bind ?_
    exact (reads_encode _).bind_pure

instance : LawfulStored ColorOutput where
  reads o := (reads_encode o.name).bind (reads_encode o.format).bind_pure

instance : LawfulStored PipelineState where
  reads s := by
    change Reads _ (encode s.coverageToAlpha ++ encode s.blendFactor ++
      encode s.blendAttachments ++ encode s.depthTest ++ encode s.depthWrite ++
      encode s.stencilTest ++ encode s.stencilReadMask ++ encode s.stencilWriteMask ++
      encode s.stencilReference ++ encode s.stencilFront ++ encode s.stencilBack ++
      encode s.cullMode ++ encode s.fillMode ++ encode s.frontFace ++ encode s.depthClip ++
      encode s.scissorTest ++ encode s.primitiveTopology ++ encode s.depthOutput ++
      encode s.colorOutputs ++ encode s.outputSamples) _
    simp only [Encoded.append_assoc]
    iterate 19 refine (reads_encode _).bind ?_
    exact (reads_encode _).bind_pure

/-! ### Shaders and variants -/

instance : LawfulStored OptionInfo where
  reads o := (reads_encode o.name).bind (reads_encode o.namedValues).bind_pure

instance : LawfulStored ShaderInfo where
  reads i := by
    change Reads _ (encode i.sourceHash ++ encode i.invarianceMask ++ encode i.options ++
      encode i.vertexAttributes ++ encode i.instanceAttributes ++ encode i.bindings) _
    simp only [Encoded.append_assoc]
    iterate 5 refine (reads_encode _).bind ?_
    exact (reads_encode _).bind_pure

/-- The set sizes are signed words behind their number, which is not. -/
instance : LawfulStored VariantBody where
  reads b := by
    change Reads _ (encode b.pipeline ++ encode b.attributes ++
      (Encoded.word b.setSizes.length ++ Encoded.concat Encoded.count b.setSizes) ++
      encode b.bindings) _
    have hsizes := Reads.times (f := id) b.setSizes fun n _ => Reads.count n
    rw [List.map_id] at hsizes
    simp only [Encoded.append_assoc]
    iterate 2 refine (reads_encode _).bind ?_
    exact (Reads.word _).bind (hsizes.bind (reads_encode b.bindings).bind_pure)

instance : LawfulStored IndexEntry where
  reads e := (reads_encode e.optionWord).bind (reads_encode e.offset).bind_pure

/-- The shader as it is read from a file: an empty source text is a missing one. -/
def ShaderEntry.stored (s : ShaderEntry) : ShaderEntry :=
  { s with source := s.source.filter (!·.isEmpty) }

/-- A shader is read back, but for an empty source text. -/
theorem ShaderEntry.reads_encode (s : ShaderEntry) : Reads decode (encode s) s.stored := by
  change Reads _ (encode s.info ++ encode s.variantCount ++ encode s.name ++
    encode (s.source.getD "")) _
  have hsource : s.stored.source =
      if (s.source.getD "").isEmpty then none else some (s.source.getD "") := by
    unfold ShaderEntry.stored
    cases hs : s.source with
    | none => rfl
    | some text => cases ht : text.isEmpty <;> simp [Option.filter, ht]
  have hstored : s.stored = ⟨s.info, s.name, s.stored.source, s.variantCount⟩ := rfl
  rw [hstored, hsource]
  simp only [Encoded.append_assoc]
  iterate 3 refine (ShaderVariants.reads_encode _).bind ?_
  exact (ShaderVariants.reads_encode _).bind_pure

end ShaderVariants
