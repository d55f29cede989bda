import Mathlib
import ShaderVariants.Proofs.Binary.Canonical
import ShaderVariants.Proofs.Binary.Fitting

/-!
# Records that are written again

A record can be read from bytes that nobody wrote.  Writing it again succeeds, and gives the
bytes it was read from, except that every truth value is written as zero or one.  The truth
values are the fields of that type, and the bytes in front of optional values.

## Main definitions

* The truth values among the bytes of each record, as instances of `Marked`.
* `CanonicalStored α` — what is read as a value of `α` was written up to truth values.
* `ReadCanonically α` — what holds of the values that are read from any bytes.

## Main results

* `readCanonically` — a canonical stored form that is lawful has these properties.
* `records_readCanonically` — **every record is read canonically.**
-/

namespace ShaderVariants

open Decoder (Normalizes)

/-- A stored form whose values can only have been read from their bytes, up to truth values. -/
class CanonicalStored (α : Type) [Stored α] [Marked α] : Prop where
  normalizes : Normalizes .nil (decode : Decoder α) fun a m => m = marked a

theorem normalizes_decode {α : Type} [Stored α] [Marked α] [CanonicalStored α] :
    Normalizes .nil (decode : Decoder α) fun a m => m = marked a := CanonicalStored.normalizes

/-! ### Parts of records -/

/-- No byte is a truth value. -/
def plainRoles {α : Type} [Stored α] (a : α) : List ByteRole :=
  (MarkedEncoding.plain (encode a)).roles

instance : Marked UInt8 := ⟨plainRoles⟩

instance : Marked ℕ := ⟨plainRoles⟩

instance : Marked UInt32 := ⟨plainRoles⟩

instance : Marked String := ⟨plainRoles⟩

instance {α : Type} [DecidableEq α] [Coded α] : Marked α := ⟨plainRoles⟩

instance : Marked Bool := ⟨fun _ => [.flag]⟩

/-- The number of items, then the items. -/
instance {α : Type} [Marked α] : Marked (List α) where
  roles xs := roles xs.length ++ xs.flatMap roles

/-- Whether there is a value, then the value. -/
instance {α : Type} [Marked α] : Marked (Option α) where
  roles
    | none => [.flag]
    | some x => .flag :: roles x

instance : CanonicalStored UInt8 := ⟨.of_canonical Decoder.Canonical.byte⟩

instance : CanonicalStored ℕ := ⟨.of_canonical Decoder.Canonical.word⟩

instance : CanonicalStored UInt32 := ⟨.of_canonical Decoder.Canonical.word32⟩

instance : CanonicalStored String := ⟨.of_canonical Decoder.Canonical.text⟩

instance {α : Type} [DecidableEq α] [Coded α] : CanonicalStored α :=
  ⟨.of_canonical Decoder.Canonical.coded⟩

instance : CanonicalStored Bool where
  normalizes := by
    intro input rest a h
    obtain ⟨b, hb, rfl⟩ := Decoder.exists_of_run_map h
    obtain ⟨-, rfl⟩ := Decoder.Canonical.byte hb
    refine ⟨[b], marked (b != 0), rfl, ⟨rfl, rfl, ?_⟩, rfl⟩
    by_cases hzero : b = 0
    · subst hzero
      rfl
    · have hne : (b != 0) = true := bne_iff_ne.mpr hzero
      change [if (b != 0) = true then (1 : UInt8) else 0] = [if b = 0 then 0 else 1]
      rw [if_pos hne, if_neg hzero]

instance {α : Type} [Stored α] [Marked α] [CanonicalStored α] : CanonicalStored (List α) where
  normalizes := by
    refine (normalizes_decode (α := ℕ)).bind ?_
    rintro n _ rfl
    refine (normalizes_decode.times n).behind ?_
    rintro xs _ ⟨rfl, rfl⟩
    exact congrArg (marked xs.length ++ ·) (MarkedEncoding.concat_mk encode roles xs)

instance {α : Type} [Stored α] [Marked α] [CanonicalStored α] : CanonicalStored (Option α) where
  normalizes := by
    refine (normalizes_decode (α := Bool)).bind ?_
    rintro present _ rfl
    cases present with
    | true =>
      refine .map (normalizes_decode.behind ?_)
      rintro x _ rfl
      rfl
    | false => exact .pure rfl

/-! ### Types -/

instance : Marked NumericType where
  roles t := roles t.scalar ++ roles t.columns ++ roles t.rows ++ roles t.width ++
    roles t.normalized

instance : CanonicalStored NumericType where
  normalizes := by
    iterate 5
      refine normalizes_decode.bind ?_
      rintro _ _ rfl
    exact .pure rfl

instance : Marked ImageType where
  roles t := roles t.scalar ++ roles t.shape ++ roles t.sampled

instance : CanonicalStored ImageType where
  normalizes := by
    iterate 3
      refine normalizes_decode.bind ?_
      rintro _ _ rfl
    exact .pure rfl

instance : Marked StructureMember where
  roles m := roles m.name ++ roles m.offset ++ roles m.size ++ roles m.type

instance : CanonicalStored StructureMember where
  normalizes := by
    iterate 4
      refine normalizes_decode.bind ?_
      rintro _ _ rfl
    exact .pure rfl

instance : Marked StructureType where
  roles t := roles t.members ++ roles t.totalSize

instance : CanonicalStored StructureType where
  normalizes := by
    iterate 2
      refine normalizes_decode.bind ?_
      rintro _ _ rfl
    exact .pure rfl

instance : Marked BindingType where
  roles t := roles t.category ++
    match t with
    | .struct type => roles type
    | .image type => roles type
    | .sampler => []
    | .buffer element => roles element

/-- The category says which of the types was read. -/
instance : CanonicalStored BindingType where
  normalizes := by
    refine (normalizes_decode (α := DataCategory)).bind ?_
    rintro category _ rfl
    cases category with
    | struct =>
      refine .map (normalizes_decode.behind ?_)
      rintro type _ rfl
      rfl
    | image =>
      refine .map (normalizes_decode.behind ?_)
      rintro type _ rfl
      rfl
    | sampler => exact .pure rfl
    | buffer =>
      refine .map (normalizes_decode.behind ?_)
      rintro element _ rfl
      rfl
    | numeric => exact .fail _

instance : Marked Binding where
  roles b := roles b.set ++ roles b.slot ++ roles b.name ++ roles b.perInstance ++ roles b.type

instance : CanonicalStored Binding where
  normalizes := by
    iterate 5
      refine normalizes_decode.bind ?_
      rintro _ _ rfl
    exact .pure rfl

instance : Marked VertexAttribute where
  roles a := roles a.location ++ roles a.name ++ roles a.perInstance ++ roles a.type

instance : CanonicalStored VertexAttribute where
  normalizes := by
    iterate 4
      refine normalizes_decode.bind ?_
      rintro _ _ rfl
    exact .pure rfl

/-! ### Pipeline state -/

instance : Marked BlendFormula where
  roles f := roles f.source ++ roles f.destination ++ roles f.function

instance : CanonicalStored BlendFormula where
  normalizes := by
    iterate 3
      refine normalizes_decode.bind ?_
      rintro _ _ rfl
    exact .pure rfl

instance : Marked BlendAttachment where
  roles a := roles a.color ++ roles a.alpha

instance : CanonicalStored BlendAttachment where
  normalizes := by
    iterate 2
      refine normalizes_decode.bind ?_
      rintro _ _ rfl
    exact .pure rfl

instance : Marked BlendConstant where
  roles c := roles c.red ++ roles c.green ++ roles c.blue ++ roles c.alpha

instance : CanonicalStored BlendConstant where
  normalizes := by
    iterate 4
      refine normalizes_decode.bind ?_
      rintro _ _ rfl
    exact .pure rfl

instance : Marked StencilState where
  roles s := roles s.comparison ++ roles s.pass ++ roles s.fail ++ roles s.depthFail

instance : CanonicalStored StencilState where
  normalizes := by
    iterate 4
      refine normalizes_decode.bind ?_
      rintro _ _ rfl
    exact .pure rfl

instance : Marked ColorOutput where
  roles o := roles o.name ++ roles o.format

instance : CanonicalStored ColorOutput where
  normalizes := by
    iterate 2
      refine normalizes_decode.bind ?_
      rintro _ _ rfl
    exact .pure rfl

instance : Marked PipelineState where
  roles s :=
    roles s.coverageToAlpha ++ roles s.blendFactor ++ roles s.blendAttachments ++
    roles s.depthTest ++ roles s.depthWrite ++ roles s.stencilTest ++
    roles s.stencilReadMask ++ roles s.stencilWriteMask ++ roles s.stencilReference ++
    roles s.stencilFront ++ roles s.stencilBack ++
    roles s.cullMode ++ roles s.fillMode ++ roles s.frontFace ++
    roles s.depthClip ++ roles s.scissorTest ++ roles s.primitiveTopology ++
    roles s.depthOutput ++ roles s.colorOutputs ++ roles s.outputSamples

instance : CanonicalStored PipelineState where
  normalizes := by
    iterate 20
      refine normalizes_decode.bind ?_
      rintro _ _ rfl
    exact .pure rfl

/-! ### Shaders and variants -/

instance : Marked OptionInfo where
  roles o := roles o.name ++ roles o.namedValues

instance : CanonicalStored OptionInfo where
  normalizes := by
    iterate 2
      refine normalizes_decode.bind ?_
      rintro _ _ rfl
    exact .pure rfl

instance : Marked ShaderInfo where
  roles i := roles i.sourceHash ++ roles i.invarianceMask ++ roles i.options ++
    roles i.vertexAttributes ++ roles i.instanceAttributes ++ roles i.bindings

instance : CanonicalStored ShaderInfo where
  normalizes := by
    iterate 6
      refine normalizes_decode.bind ?_
      rintro _ _ rfl
    exact .pure rfl

/-- The set sizes are words behind their number, without a truth value. -/
instance : Marked VariantBody where
  roles b := roles b.pipeline ++ roles b.attributes ++ roles b.setSizes ++ roles b.bindings

/-- What is read as a signed word is written like any word. -/
theorem normalizes_count :
    Normalizes .nil Decoder.count fun n m => m = ⟨Encoded.count n, roles n⟩ := by
  intro input rest n h
  obtain ⟨hfits, hinput⟩ := Decoder.Canonical.count h
  refine ⟨_, _, hinput, .plain hfits, ?_⟩
  have hsigned := fits_count_iff.mp hfits
  have hword : Encoded.count n = encode n := by
    change _ = Encoded.word n
    rw [Encoded.count, Encoded.word, if_pos hsigned, if_pos (hsigned.trans (by decide))]
  change MarkedEncoding.plain (Encoded.count n) = ⟨Encoded.count n, roles n⟩
  rw [hword]
  rfl

instance : CanonicalStored VariantBody where
  normalizes := by
    iterate 2
      refine normalizes_decode.bind ?_
      rintro _ _ rfl
    refine (normalizes_decode (α := ℕ)).bind ?_
    rintro count _ rfl
    refine (normalizes_count.times count).bind ?_
    rintro sizes _ ⟨rfl, rfl⟩
    refine normalizes_decode.bind ?_
    rintro bindings _ rfl
    refine .pure ?_
    rw [MarkedEncoding.nil_append, MarkedEncoding.concat_mk,
      MarkedEncoding.append_assoc _ (marked sizes.length)]
    rfl

/-! ### Canonical reading -/

/-- What holds of a value that is read, from whatever bytes. -/
structure ReadCanonically (α : Type) [Stored α] [Marked α] : Prop where
  /-- It can be written, as many bytes as were taken, each of them as it was read unless it
  is a truth value, which is written as zero or one. -/
  written : ∀ {input rest : List UInt8} {v : α}, decode input = .ok (v, rest) →
    (encode v).fits = true ∧ ∃ taken, input = taken ++ rest ∧
      (encode v).bytes.length = taken.length ∧ (roles v).length = taken.length ∧
      ∀ (i : ℕ) (role : ByteRole) (b : UInt8), (roles v)[i]? = some role → taken[i]? = some b →
        (encode v).bytes[i]? = some (role.rewritten b)
  /-- What is written then is read as the same value. -/
  reread : ∀ {input rest : List UInt8} {v : α}, decode input = .ok (v, rest) →
    ∀ more, decode ((encode v).bytes ++ more) = .ok (v, more)
  /-- Other bytes that are read as the same value differ in truth values only, both of which
  are not zero. -/
  unique : ∀ {taken rest taken' rest' : List UInt8} {v : α},
    decode (taken ++ rest) = .ok (v, rest) → decode (taken' ++ rest') = .ok (v, rest') →
    taken.length = taken'.length ∧ ∀ (i : ℕ) (b b' : UInt8), taken[i]? = some b →
      taken'[i]? = some b' → b = b' ∨ ((roles v)[i]? = some .flag ∧ b ≠ 0 ∧ b' ≠ 0)

/-- Bytes that are written alike are the same, or are truth values that are not zero. -/
theorem ByteRole.eq_or_of_rewritten_eq {role : ByteRole} {b b' : UInt8}
    (h : role.rewritten b = role.rewritten b') : b = b' ∨ (role = .flag ∧ b ≠ 0 ∧ b' ≠ 0) := by
  cases role with
  | plain => exact .inl h
  | flag =>
    change (if b = 0 then (0 : UInt8) else 1) = if b' = 0 then 0 else 1 at h
    split_ifs at h with hb hb' hb'
    · exact .inl (hb.trans hb'.symm)
    · cases h
    · cases h
    · exact .inr ⟨rfl, hb, hb'⟩

section ReadCanonically

variable {α : Type} [Stored α] [Marked α] [CanonicalStored α]

/-- The bytes that were taken are those that are written, but for truth values. -/
theorem exists_rewrites {input rest : List UInt8} {v : α} (h : decode input = .ok (v, rest)) :
    ∃ taken, input = taken ++ rest ∧ (marked v).Rewrites taken := by
  obtain ⟨taken, m, hinput, hm, hv⟩ := normalizes_decode _ _ _ h
  rw [MarkedEncoding.nil_append] at hv
  subst hv
  exact ⟨taken, hinput, hm⟩

theorem rewrites_of_decode {taken rest : List UInt8} {v : α}
    (h : decode (taken ++ rest) = .ok (v, rest)) : (marked v).Rewrites taken := by
  obtain ⟨taken', hinput, hm⟩ := exists_rewrites h
  rwa [List.append_cancel_right hinput]

theorem readCanonically [LawfulStored α] : ReadCanonically α where
  written {input rest v} h := by
    obtain ⟨taken, hinput, hm⟩ := exists_rewrites h
    exact ⟨hm.fits, taken, hinput, hm.length_bytes, hm.length, fun i role b =>
      hm.getElem?_bytes⟩
  reread {input rest v} h more := by
    obtain ⟨taken, -, hm⟩ := exists_rewrites h
    exact reads_encode v hm.fits more
  unique {taken rest taken' rest' v} h h' := by
    have hm := rewrites_of_decode h
    have hm' := rewrites_of_decode h'
    refine ⟨hm.length.symm.trans hm'.length, fun i b b' hb hb' => ?_⟩
    obtain ⟨hi, -⟩ := List.getElem?_eq_some_iff.mp hb
    have hrole := List.getElem?_eq_getElem (l := roles v) (hm.length.symm ▸ hi)
    have hwritten := (hm.getElem?_bytes hrole hb).symm.trans (hm'.getElem?_bytes hrole hb')
    rcases ByteRole.eq_or_of_rewritten_eq (Option.some.inj hwritten) with heq | ⟨hflag, hne⟩
    · exact .inl heq
    · exact .inr ⟨hrole.trans (congrArg some hflag), hne⟩

end ReadCanonically

/-- **Every record is read canonically**: types, attributes, bindings, pipeline state, the
description of a shader and the body of a variant. -/
theorem records_readCanonically :
    ReadCanonically NumericType ∧ ReadCanonically ImageType ∧
    ReadCanonically VertexAttribute ∧ ReadCanonically Binding ∧ ReadCanonically StencilState ∧
    ReadCanonically PipelineState ∧ ReadCanonically ShaderInfo ∧ ReadCanonically VariantBody :=
  ⟨readCanonically, readCanonically, readCanonically, readCanonically, readCanonically,
    readCanonically, readCanonically, readCanonically⟩

/-- A type whose normalization was stored as seven is written with a one, is read again, and
any other bytes that are read as this type end with a byte that is not zero. -/
theorem normalizedVector_readCanonically :
    let t : NumericType := ⟨.float, 1, 3, .dword, true⟩
    (decode : Decoder NumericType) [2, 1, 3, 0, 7] = .ok (t, []) ∧ (encode t).fits = true ∧
      (encode t).bytes.length = 5 ∧ (encode t).bytes[4]? = some 1 ∧
      (decode : Decoder NumericType) ((encode t).bytes ++ [9]) = .ok (t, [9]) ∧
      ∀ taken rest, (decode : Decoder NumericType) (taken ++ rest) = .ok (t, rest) →
        taken.length = 5 ∧ ∀ b, taken[4]? = some b → b ≠ 0 := by
  intro t
  have hread : (decode : Decoder NumericType) ([2, 1, 3, 0, 7] ++ []) = .ok (t, []) := by rfl
  have hcanonical := records_readCanonically.1
  obtain ⟨hfits, taken, htaken, hlength, -, hwritten⟩ := hcanonical.written hread
  obtain rfl := List.append_cancel_right htaken
  refine ⟨hread, hfits, hlength, hwritten 4 .flag 7 rfl rfl, hcanonical.reread hread [9], ?_⟩
  intro taken rest hother
  obtain ⟨hsame, hdiffer⟩ := hcanonical.unique hread hother
  refine ⟨hsame.symm, fun b hb => ?_⟩
  rcases hdiffer 4 7 b rfl hb with rfl | ⟨-, -, hne⟩
  · decide
  · exact hne

end ShaderVariants
