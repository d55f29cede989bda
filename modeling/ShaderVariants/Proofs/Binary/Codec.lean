import Mathlib
import ShaderVariants.Binary.Stored

/-!
# Reading what was written

A decoder reads an encoded value if it takes exactly the bytes of that value off the
front of any input.  The relation follows the monad: what reads one value and then the
next reads the one encoding behind the other.

## Main definitions

* `Decoder.Reads d e a` — the decoder `d` reads the value `a` from the encoding `e`,
  whatever comes after it.
* `LawfulStored α` — the stored form of `α` is read back.

## Main results

* `fits_word_iff`, `fits_count_iff`, `fits_concat_iff` — what fits its place.
* `Decoder.Reads.bind`, `Decoder.Reads.times` — the relation follows the decoder.
* Lawful stored forms of bytes, words, truth values, texts, optional values, lists and of
  every type whose members are one byte.
-/

namespace ShaderVariants

/-! ### Values that fit -/

theorem fits_word_iff {n : ℕ} : (Encoded.word n).fits = true ↔ n < Word.limit := by
  unfold Encoded.word
  split_ifs with h
  · exact iff_of_true rfl h
  · exact iff_of_false Bool.false_ne_true h

theorem fits_count_iff {n : ℕ} : (Encoded.count n).fits = true ↔ n < Word.signedLimit := by
  unfold Encoded.count
  split_ifs with h
  · exact iff_of_true rfl h
  · exact iff_of_false Bool.false_ne_true h

theorem fits_concat_iff {α : Type} {item : α → Encoded} (xs : List α) :
    (Encoded.concat item xs).fits = true ↔ ∀ x ∈ xs, (item x).fits = true := by
  induction xs with
  | nil => exact iff_of_true rfl fun x hx => absurd hx List.not_mem_nil
  | cons x rest ih =>
    rw [Encoded.concat, Encoded.fits_append, Bool.and_eq_true, ih, List.forall_mem_cons]

namespace Decoder

/-- The decoder reads the value from the encoding, and leaves whatever comes after it. -/
def Reads {α : Type} (d : Decoder α) (e : Encoded) (a : α) : Prop :=
  e.fits = true → ∀ rest, d (e.bytes ++ rest) = .ok (a, rest)

namespace Reads

variable {α β : Type} {d : Decoder α} {e e' : Encoded} {a : α} {b : β}

/-! ### Following the monad -/

theorem pure (a : α) : Reads (Pure.pure a : Decoder α) .nil a := fun _ _ => rfl

/-- One encoding behind the other is read by one decoder after the other. -/
theorem bind {f : α → Decoder β} (h : Reads d e a) (h' : Reads (f a) e' b) :
    Reads (d >>= f) (e ++ e') b := by
  intro hfits rest
  obtain ⟨he, he'⟩ : e.fits = true ∧ e'.fits = true := by simpa using hfits
  have hrun : (d >>= f) (e.bytes ++ (e'.bytes ++ rest)) = f a (e'.bytes ++ rest) := by
    change (d (e.bytes ++ (e'.bytes ++ rest)) >>= fun p => f p.1 p.2) = _
    rw [h he]
    rfl
  rw [Encoded.bytes_append_of_fits he, List.append_assoc, hrun, h' he']

theorem bind_pure {f : α → β} (h : Reads d e a) :
    Reads (d >>= fun x => Pure.pure (f x)) e (f a) := by
  have := h.bind (f := fun x => Pure.pure (f x)) (Reads.pure (f a))
  rwa [Encoded.append_nil] at this

theorem map {f : α → β} (h : Reads d e a) : Reads (f <$> d) e (f a) := by
  intro hfits rest
  change (Except.map _ (d (e.bytes ++ rest))) = _
  rw [h hfits]
  rfl

/-- A value that is checked after it was read. -/
theorem bind_nil {f : α → Decoder β} (h : Reads d e a) (h' : Reads (f a) .nil b) :
    Reads (d >>= f) e b := by
  have := h.bind h'
  rwa [Encoded.append_nil] at this

/-! ### Primitive readers -/

theorem byte (b : UInt8) : Reads Decoder.byte (.byte b) b := fun _ _ => rfl

theorem word (n : ℕ) : Reads Decoder.word (.word n) n := by
  intro hfits rest
  unfold Encoded.word at hfits ⊢
  split_ifs at hfits ⊢ with hn
  · simp only [Encoded.ofBytes, Word.bytes, List.cons_append, List.nil_append, Decoder.word,
      Word.ofBytes_bytes hn]
  · exact absurd hfits Bool.false_ne_true

theorem count (n : ℕ) : Reads Decoder.count (.count n) n := by
  intro hfits rest
  unfold Encoded.count at hfits ⊢
  split_ifs at hfits ⊢ with hn
  · -- a signed word is written like any other word
    have hword : Encoded.word n = .ofBytes (Word.bytes n) :=
      if_pos (hn.trans (by decide))
    have hread : Reads Decoder.count (.word n) n := by
      refine (Reads.word n).bind_nil ?_
      rw [if_pos hn]
      exact Reads.pure n
    exact hword ▸ hread (hword ▸ rfl) rest
  · exact absurd hfits Bool.false_ne_true

theorem take (bytes : List UInt8) : Reads (Decoder.take bytes.length) (.ofBytes bytes) bytes := by
  intro _ rest
  simp [Decoder.take, Encoded.ofBytes]

theorem blob (bytes : List UInt8) : Reads Decoder.blob (.blob bytes) bytes :=
  (Reads.count bytes.length).bind (Reads.take bytes)

/-- Items that are read one by one are read in a row. -/
theorem times {item : Decoder β} {encodeItem : α → Encoded} {f : α → β} :
    ∀ xs : List α, (∀ x ∈ xs, Reads item (encodeItem x) (f x)) →
    Reads (Decoder.times item xs.length) (.concat encodeItem xs) (xs.map f) := by
  intro xs
  induction xs with
  | nil => exact fun _ => Reads.pure []
  | cons x rest ih =>
    intro h
    refine (h x List.mem_cons_self).bind ?_
    exact (ih fun y hy => h y (List.mem_cons_of_mem x hy)).bind_pure

end Reads

end Decoder

open Decoder (Reads)

/-! ### Stored forms -/

/-- A stored form that is read back. -/
class LawfulStored (α : Type) [Stored α] : Prop where
  reads : ∀ a : α, Reads decode (encode a) a

theorem reads_encode {α : Type} [Stored α] [LawfulStored α] (a : α) :
    Reads decode (encode a) a := LawfulStored.reads a

instance : LawfulStored UInt8 := ⟨Reads.byte⟩

instance : LawfulStored ℕ := ⟨Reads.word⟩

instance : LawfulStored UInt32 where
  reads w := by
    have h := (Reads.word w.toNat).map (f := UInt32.ofNat)
    rwa [UInt32.ofNat_toNat] at h

instance : LawfulStored Bool where
  reads b := by
    have h := (Reads.byte (if b then 1 else 0)).map (f := (· != 0))
    cases b <;> exact h

/-- The bytes of a text stand for the text. -/
theorem Utf8.decode_encode (s : String) : Utf8.decode (Utf8.encode s) = .ok s := by
  have hvalid : s.toByteArray.IsValidUTF8 := s.isValidUTF8
  unfold Utf8.decode Utf8.encode String.fromUTF8?
  simp only [String.toUTF8_eq_toByteArray, Array.toArray_toList]
  rw [dif_pos hvalid]
  rfl

instance : LawfulStored String where
  reads s := by
    refine (Reads.word _).bind ((Reads.take (Utf8.encode s)).bind_nil ?_)
    rw [Utf8.decode_encode]
    exact Reads.pure s

instance {α : Type} [Stored α] [LawfulStored α] : LawfulStored (List α) where
  reads xs := by
    have h := Reads.times (f := id) xs fun x _ => reads_encode x
    rw [List.map_id] at h
    exact (Reads.word xs.length).bind h

instance {α : Type} [Stored α] [LawfulStored α] : LawfulStored (Option α) where
  reads o := by
    cases o with
    | none => exact (reads_encode false).bind_nil (Reads.pure none)
    | some x => exact (reads_encode true).bind (reads_encode x).map

instance {α : Type} [DecidableEq α] [Coded α] : LawfulStored α where
  reads a := by
    refine (Reads.byte (Coded.code a)).bind_nil ?_
    rw [Coded.ofCode?_code]
    exact Reads.pure a

end ShaderVariants
