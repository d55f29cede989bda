import Mathlib
import ShaderVariants.Proofs.Binary.Records

/-!
# Reading part of what was written

A decoder looks at no more bytes than it takes.  What it makes of an input is therefore
the same if more bytes follow, unless it came to the end of the input.  Hence a decoder
that reads a value from its encoding comes to the end of every shorter part of it.

## Main definitions

* `DecodeError.AtEnd` — the input ended too early.
* `Decoder.Streams` — more input changes nothing but a failure at the end.
* `StreamingStored α` — the stored form of `α` is read by such a decoder.

## Main results

* `Decoder.Streams.bind`, `Decoder.Streams.times` — the property follows the decoder.
* `Decoder.Reads.truncated` — **a part of an encoding** ends too early.
-/

namespace ShaderVariants

/-- The input ended, within a number or within text or program bytes. -/
def DecodeError.AtEnd (e : DecodeError) : Prop := e = .endInNumber ∨ e = .endInBytes

namespace Decoder

/-- What the decoder makes of an input is the same if more input follows, unless it came
to the end. -/
structure Streams {α : Type} (d : Decoder α) : Prop where
  ok : ∀ {input rest : List UInt8} {a : α}, d input = .ok (a, rest) →
    ∀ more, d (input ++ more) = .ok (a, rest ++ more)
  error : ∀ {input : List UInt8} {e : DecodeError}, d input = .error e →
    e.AtEnd ∨ ∀ more, d (input ++ more) = .error e

variable {α β : Type} {d : Decoder α}

/-- The second decoder goes on where the first one stops. -/
theorem run_bind {f : α → Decoder β} {input rest : List UInt8} {a : α}
    (h : d input = .ok (a, rest)) : (d >>= f) input = f a rest := by
  change (d input >>= fun p => f p.1 p.2) = _
  rw [h]
  rfl

theorem run_bind_error {f : α → Decoder β} {input : List UInt8} {e : DecodeError}
    (h : d input = .error e) : (d >>= f) input = .error e := by
  change (d input >>= fun p => f p.1 p.2) = _
  rw [h]
  rfl

namespace Streams

/-! ### Following the monad -/

theorem pure (a : α) : Streams (Pure.pure a : Decoder α) where
  ok := by
    intro input rest a' h more
    cases h
    rfl
  error := by
    intro input e h
    cases h

theorem fail (e : DecodeError) : Streams (Decoder.fail e : Decoder α) where
  ok := by
    intro input rest a h
    cases h
  error h := .inr fun _ => h

theorem bind {f : α → Decoder β} (h : Streams d) (hf : ∀ a, Streams (f a)) :
    Streams (d >>= f) where
  ok := by
    intro input rest b hrun more
    cases hd : d input with
    | error e =>
      rw [run_bind_error hd] at hrun
      cases hrun
    | ok p =>
      rw [run_bind hd] at hrun
      rw [run_bind (h.ok hd more)]
      exact (hf p.1).ok hrun more
  error := by
    intro input e hrun
    cases hd : d input with
    | error e' =>
      rw [run_bind_error hd] at hrun
      cases hrun
      exact (h.error hd).imp_right fun hmore more => run_bind_error (hmore more)
    | ok p =>
      rw [run_bind hd] at hrun
      refine ((hf p.1).error hrun).imp_right fun hmore more => ?_
      rw [run_bind (h.ok hd more)]
      exact hmore more

theorem map (h : Streams d) (f : α → β) : Streams (f <$> d) := by
  have hbind : f <$> d = d >>= fun a => Pure.pure (f a) := by
    rw [bind_pure_comp]
  exact hbind ▸ h.bind fun a => .pure (f a)

/-! ### Primitive readers -/

theorem byte : Streams Decoder.byte where
  ok := by
    intro input rest b h more
    cases input with
    | nil => cases h
    | cons b' bytes =>
      cases h
      rfl
  error := by
    intro input e h
    cases input with
    | nil =>
      cases h
      exact .inl (.inl rfl)
    | cons b bytes => cases h

theorem word : Streams Decoder.word where
  ok := by
    intro input rest n h more
    match input, h with
    | a :: b :: c :: d :: bytes, h =>
      cases h
      rfl
    | [], h | [_], h | [_, _], h | [_, _, _], h => cases h
  error := by
    intro input e h
    match input, h with
    | [], h | [_], h | [_, _], h | [_, _, _], h =>
      cases h
      exact .inl (.inl rfl)
    | _ :: _ :: _ :: _ :: _, h => cases h

theorem count : Streams Decoder.count := by
  refine word.bind fun n => ?_
  split_ifs
  · exact .pure n
  · exact .fail _

theorem take (n : ℕ) : Streams (Decoder.take n) where
  ok := by
    intro input rest bytes h more
    simp only [Decoder.take] at h ⊢
    split_ifs at h with hlength
    cases h
    have hle : n ≤ input.length := by
      rw [List.length_take] at hlength
      omega
    rw [List.take_append_of_le_length hle, List.drop_append_of_le_length hle, if_pos hlength]
  error := by
    intro input e h
    simp only [Decoder.take] at h
    split_ifs at h
    cases h
    exact .inl (.inr rfl)

theorem times (h : Streams d) : ∀ n, Streams (Decoder.times d n) := by
  intro n
  induction n with
  | zero => exact .pure []
  | succ n ih => exact h.bind fun a => ih.bind fun as => .pure (a :: as)

end Streams

/-- **A part of an encoding** is too short: whoever reads the whole of it comes to the end
of the part. -/
theorem Reads.truncated {e : Encoded} {a : α} (h : Reads d e a)
    (hstreams : Streams d) (hfits : e.fits = true) {part : List UInt8} (hpart : part <+: e.bytes)
    (hne : part ≠ e.bytes) : ∃ err, d part = .error err ∧ err.AtEnd := by
  obtain ⟨more, hmore⟩ := hpart
  have hwhole : d (part ++ more) = .ok (a, []) := by
    rw [hmore, ← List.append_nil e.bytes]
    exact h hfits []
  cases hrun : d part with
  | error err =>
    refine ⟨err, rfl, (hstreams.error hrun).resolve_right fun hsame => ?_⟩
    rw [hsame more] at hwhole
    cases hwhole
  | ok p =>
    -- the rest of the part would be followed by nothing, so the part would be everything
    have hrest := hwhole.symm.trans (hstreams.ok hrun more)
    have happend : [] = p.2 ++ more := (Prod.mk.inj (Except.ok.inj hrest)).2
    have hnil : more = [] := (List.append_eq_nil_iff.mp happend.symm).2
    rw [hnil, List.append_nil] at hmore
    exact absurd hmore hne

end Decoder

open Decoder (Streams)

/-! ### Stored forms -/

/-- A stored form whose decoder looks at no more bytes than it takes. -/
class StreamingStored (α : Type) [Stored α] : Prop where
  streams : Streams (decode : Decoder α)

theorem streams_decode {α : Type} [Stored α] [StreamingStored α] : Streams (decode : Decoder α) :=
  StreamingStored.streams

instance : StreamingStored UInt8 := ⟨.byte⟩

instance : StreamingStored ℕ := ⟨.word⟩

instance : StreamingStored UInt32 := ⟨Streams.word.map UInt32.ofNat⟩

instance : StreamingStored Bool := ⟨Streams.byte.map (· != 0)⟩

instance : StreamingStored String where
  streams := by
    refine Streams.word.bind fun n => (Streams.take n).bind fun bytes => ?_
    cases Utf8.decode bytes with
    | ok s => exact .pure s
    | error fault => exact .fail _

instance {α : Type} [Stored α] [StreamingStored α] : StreamingStored (List α) :=
  ⟨Streams.word.bind fun n => streams_decode.times n⟩

instance {α : Type} [Stored α] [StreamingStored α] : StreamingStored (Option α) where
  streams := by
    refine streams_decode.bind fun present : Bool => ?_
    cases present with
    | true => exact streams_decode.map some
    | false => exact .pure none

instance {α : Type} [DecidableEq α] [Coded α] : StreamingStored α where
  streams := by
    refine Streams.byte.bind fun b => ?_
    cases (Coded.ofCode? b : Option α) with
    | some a => exact .pure a
    | none => exact .fail _

/-! ### Records -/

instance : StreamingStored NumericType where
  streams := by
    iterate 5 refine streams_decode.bind fun _ => ?_
    exact .pure _

instance : StreamingStored ImageType where
  streams := by
    iterate 3 refine streams_decode.bind fun _ => ?_
    exact .pure _

instance : StreamingStored StructureMember where
  streams := by
    iterate 4 refine streams_decode.bind fun _ => ?_
    exact .pure _

instance : StreamingStored StructureType where
  streams := by
    iterate 2 refine streams_decode.bind fun _ => ?_
    exact .pure _

/-- What follows the category depends on it. -/
instance : StreamingStored BindingType where
  streams := by
    refine streams_decode.bind fun category : DataCategory => ?_
    cases category with
    | numeric => exact .fail _
    | struct => exact streams_decode.map BindingType.struct
    | image => exact streams_decode.map BindingType.image
    | sampler => exact .pure BindingType.sampler
    | buffer => exact streams_decode.map BindingType.buffer

instance : StreamingStored Binding where
  streams := by
    iterate 5 refine streams_decode.bind fun _ => ?_
    exact .pure _

instance : StreamingStored VertexAttribute where
  streams := by
    iterate 4 refine streams_decode.bind fun _ => ?_
    exact .pure _

instance : StreamingStored BlendFormula where
  streams := by
    iterate 3 refine streams_decode.bind fun _ => ?_
    exact .pure _

instance : StreamingStored BlendAttachment where
  streams := by
    iterate 2 refine streams_decode.bind fun _ => ?_
    exact .pure _

instance : StreamingStored BlendConstant where
  streams := by
    iterate 4 refine streams_decode.bind fun _ => ?_
    exact .pure _

instance : StreamingStored StencilState where
  streams := by
    iterate 4 refine streams_decode.bind fun _ => ?_
    exact .pure _

instance : StreamingStored ColorOutput where
  streams := by
    iterate 2 refine streams_decode.bind fun _ => ?_
    exact .pure _

instance : StreamingStored PipelineState where
  streams := by
    iterate 20 refine streams_decode.bind fun _ => ?_
    exact .pure _

instance : StreamingStored OptionInfo where
  streams := by
    iterate 2 refine streams_decode.bind fun _ => ?_
    exact .pure _

instance : StreamingStored ShaderInfo where
  streams := by
    iterate 6 refine streams_decode.bind fun _ => ?_
    exact .pure _

/-- The set sizes are signed words behind their number, which is not. -/
instance : StreamingStored VariantBody where
  streams := by
    iterate 2 refine streams_decode.bind fun _ => ?_
    refine Streams.word.bind fun n => (Streams.count.times n).bind fun _ => ?_
    exact streams_decode.bind fun _ => .pure _

end ShaderVariants
