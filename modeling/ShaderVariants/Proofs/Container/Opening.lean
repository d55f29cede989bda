import Mathlib
import ShaderVariants.Container.File
import ShaderVariants.Proofs.Container.Writing

/-!
# Opening a finished file

What a writer has finished can be opened.  The index comes back as it was written, since
it is in ascending order already, and the entries of every shader are found again from the
numbers of entries in the header.

## Main definitions

* `HeaderFits` — everything in front of the index fits its place.
* `Writer.file` — what a finished writer is opened as.

## Main results

* `Writer.entriesOf_file` — the entries of a shader are those that were reserved for it.
* `Writer.ofBytes_finish_of_fits`, `Writer.ofBytes_finish` — finishing and opening both
  succeed.
-/

namespace ShaderVariants

open Decoder (Reads)

/-! ### Entries in ascending order -/

namespace IndexEntry

theorem sorted_eq {entries : List IndexEntry}
    (h : entries.Pairwise (·.optionWord ≤ ·.optionWord)) : sorted entries = entries :=
  List.mergeSort_of_pairwise (h.imp fun hab => decide_eq_true hab)

theorem sorted_sorted (entries : List IndexEntry) : sorted (sorted entries) = sorted entries :=
  sorted_eq (pairwise_sorted entries)

end IndexEntry

namespace OpenShader

variable {s : OpenShader}

theorem length_entries (h : s.used.length ≤ s.variantCount) :
    s.entries.length = s.variantCount := by
  unfold entries
  rw [(IndexEntry.perm_sorted _).length_eq, List.length_append, List.length_replicate]
  omega

theorem mem_entries {e : IndexEntry} (h : e ∈ s.entries) : e ∈ s.used ∨ e = .unused := by
  unfold entries at h
  rcases List.mem_append.mp ((IndexEntry.perm_sorted _).mem_iff.mp h) with h | h
  · exact .inl h
  · exact .inr (List.eq_of_mem_replicate h)

theorem mem_entries_of_mem_used {e : IndexEntry} (h : e ∈ s.used) : e ∈ s.entries :=
  (IndexEntry.perm_sorted _).mem_iff.mpr (List.mem_append_left _ h)

end OpenShader

/-! ### Entries shader by shader -/

@[simp] theorem ShaderEntry.entryCount_map_stored : ∀ shaders : List ShaderEntry,
    entryCount (shaders.map stored) = entryCount shaders := by
  intro shaders
  induction shaders with
  | nil => rfl
  | cons s rest ih => rw [List.map_cons, entryCount, entryCount, ih]; rfl

theorem length_flatMap_entries : ∀ shaders : List OpenShader,
    (∀ s ∈ shaders, s.used.length ≤ s.variantCount) →
    (shaders.flatMap (·.entries)).length =
      ShaderEntry.entryCount (shaders.map (·.toShaderEntry)) := by
  intro shaders
  induction shaders with
  | nil => exact fun _ => rfl
  | cons s rest ih =>
    intro h
    rw [List.flatMap_cons, List.length_append, ih fun t ht => h t (List.mem_cons_of_mem _ ht),
      OpenShader.length_entries (h s List.mem_cons_self)]
    rfl

namespace SetFile

/-- Entries that are in order already stay as they are. -/
theorem sortEntries_flatMap : ∀ shaders : List OpenShader,
    (∀ s ∈ shaders, s.used.length ≤ s.variantCount) →
    sortEntries (shaders.map fun s => s.toShaderEntry.stored) (shaders.flatMap (·.entries)) =
      shaders.flatMap (·.entries) := by
  intro shaders
  induction shaders with
  | nil => exact fun _ => rfl
  | cons s rest ih =>
    intro h
    have hlength : s.toShaderEntry.stored.variantCount = s.entries.length :=
      (OpenShader.length_entries (h s List.mem_cons_self)).symm
    have hsorted : IndexEntry.sorted s.entries = s.entries := IndexEntry.sorted_sorted _
    rw [List.map_cons, List.flatMap_cons, sortEntries, hlength, List.take_left, List.drop_left,
      hsorted, ih fun t ht => h t (List.mem_cons_of_mem _ ht)]

theorem map_listShaders : ∀ (shaders : List ShaderEntry) (start : ℕ),
    (listShaders start shaders).map (·.toShaderEntry) = shaders := by
  intro shaders
  induction shaders with
  | nil => exact fun _ => rfl
  | cons s rest ih => intro start; rw [listShaders, List.map_cons, ih]

/-- The part of the index that a shader is given is where its entries are. -/
theorem slice_listShaders : ∀ (shaders : List OpenShader) (front : List IndexEntry) (i : ℕ),
    (∀ s ∈ shaders, s.used.length ≤ s.variantCount) →
    ((listShaders front.length (shaders.map fun s => s.toShaderEntry.stored))[i]?.map fun s =>
      ((front ++ shaders.flatMap (·.entries)).drop s.variantStart).take s.variantCount) =
      shaders[i]?.map (·.entries) := by
  intro shaders
  induction shaders with
  | nil => exact fun _ _ _ => rfl
  | cons s rest ih =>
    intro front i h
    have hlength : s.toShaderEntry.stored.variantCount = s.entries.length :=
      (OpenShader.length_entries (h s List.mem_cons_self)).symm
    cases i with
    | zero =>
      simp only [List.map_cons, listShaders, List.getElem?_cons_zero, Option.map_some,
        List.flatMap_cons, hlength, List.drop_left, List.take_left]
    | succ i =>
      -- the entries of the first shader lie in front of those of all others
      have hrest := ih (front ++ s.entries) i fun t ht => h t (List.mem_cons_of_mem _ ht)
      rw [List.length_append, List.append_assoc] at hrest
      simpa only [List.map_cons, listShaders, List.getElem?_cons_succ, List.flatMap_cons,
        hlength] using hrest

end SetFile

/-! ### The header -/

/-- The numbers and lengths in front of the index fit their places, as they do in every
file below 4 GiB. -/
structure HeaderFits (shaders : List ShaderEntry) : Prop where
  length_lt : shaders.length < Word.limit
  entryCount_lt : ShaderEntry.entryCount shaders < Word.limit
  fits : ∀ s ∈ shaders, (encode s).fits = true

namespace Writer

variable {shaders : List ShaderEntry} {written : List Variant} {w : Writer}

theorem fits_header (h : HeaderFits (w.shaders.map (·.toShaderEntry))) :
    w.header.fits = true := by
  have hlength : w.shaders.length < Word.limit := by simpa using h.length_lt
  unfold header
  simp only [Encoded.fits_append, fits_word_iff.mpr hlength, fits_word_iff.mpr h.entryCount_lt,
    (fits_concat_iff _).mpr h.fits, entryCount]
  rfl

theorem settle_eq (h : HeaderFits (w.shaders.map (·.toShaderEntry))) :
    w.settle = .ok { w with settled := true } := by
  have hlength : w.shaders.length < Word.limit := by simpa using h.length_lt
  unfold settle
  by_cases hsettled : w.settled = true
  · rw [if_pos hsettled, ← hsettled]
  · have hcounts : ¬ (Word.limit ≤ w.entryCount ∨ Word.limit ≤ w.shaders.length) :=
      not_or.mpr ⟨not_le.mpr h.entryCount_lt, not_le.mpr hlength⟩
    rw [if_neg hsettled, if_neg hcounts, if_pos (fits_header h)]

/-! ### Opening -/

/-- What the file of a finished writer is opened as. -/
def file (w : Writer) : SetFile :=
  .ofParts (w.shaders.map fun s => s.toShaderEntry.stored) (w.shaders.flatMap (·.entries)) w.body

/-- The index is that of the writer, whose entries are in order already. -/
theorem index_file (hreserved : ∀ s ∈ w.shaders, s.used.length ≤ s.variantCount) :
    w.file.index = w.shaders.flatMap (·.entries) :=
  SetFile.sortEntries_flatMap w.shaders hreserved

/-- The entries of a shader are those that were reserved for it. -/
theorem entriesOf_file (hreserved : ∀ s ∈ w.shaders, s.used.length ≤ s.variantCount) (i : ℕ) :
    w.file.entriesOf i = w.shaders[i]?.map (·.entries) := by
  rw [SetFile.entriesOf, index_file hreserved]
  exact SetFile.slice_listShaders w.shaders [] i hreserved

theorem shaders_file : w.file.shaders.map (·.toShaderEntry) =
    w.shaders.map fun s => s.toShaderEntry.stored :=
  SetFile.map_listShaders _ 0

theorem hashes_file :
    w.file.shaders.map (·.info.sourceHash) = w.shaders.map (·.info.sourceHash) := by
  have hmap := congrArg (List.map (·.info.sourceHash)) (shaders_file (w := w))
  rwa [List.map_map, List.map_map] at hmap

/-- Header and index are read back as they were written. -/
theorem reads_decoder (hreserved : ∀ s ∈ w.shaders, s.used.length ≤ s.variantCount) :
    Reads SetFile.decoder (w.header ++ Encoded.concat encode (w.shaders.flatMap (·.entries)))
      (w.shaders.map fun s => s.toShaderEntry.stored, w.shaders.flatMap (·.entries)) := by
  have hdeclared : ShaderEntry.entryCount (w.shaders.map fun s => s.toShaderEntry.stored) =
      w.entryCount := by
    have hmap := ShaderEntry.entryCount_map_stored (w.shaders.map (·.toShaderEntry))
    rwa [List.map_map] at hmap
  have hcount : (w.shaders.flatMap (·.entries)).length = w.entryCount :=
    length_flatMap_entries w.shaders hreserved
  have hshaders := Reads.times (w.shaders.map (·.toShaderEntry)) fun s _ => s.reads_encode
  rw [List.length_map, List.map_map] at hshaders
  change Reads _ _ (w.shaders.map fun s => s.toShaderEntry.stored) at hshaders
  have hindex := Reads.times (f := id) (w.shaders.flatMap (·.entries))
    fun e _ => reads_encode e
  rw [List.map_id, hcount] at hindex
  refine Reads.bind (a := w.shaders.map fun s => s.toShaderEntry.stored) ?_ ?_
  · -- the checks of the magic number, the version and the count pass one by one
    unfold header SetFile.header
    simp only [Encoded.append_assoc]
    refine (Reads.word magicNumber).bind ?_
    rw [if_neg (not_not.mpr rfl)]
    refine (Reads.word formatVersion).bind ?_
    rw [if_neg (not_not.mpr rfl)]
    refine (Reads.word _).bind ((Reads.word _).bind (hshaders.bind_nil ?_))
    rw [if_neg (not_not.mpr hdeclared)]
    exact Reads.pure _
  · rw [hdeclared]
    exact hindex.bind_pure

/-- **Finishing and opening both succeed**, if header and index fit, and the file is what the
writer has written. -/
theorem ofBytes_finish_of_fits (hheader : HeaderFits (w.shaders.map (·.toShaderEntry)))
    (hreserved : ∀ s ∈ w.shaders, s.used.length ≤ s.variantCount)
    (hused : ∀ s ∈ w.shaders, ∀ e ∈ s.used,
      e.optionWord < Word.limit ∧ e.offset < Word.limit) :
    ∃ bytes, w.finish = .ok bytes ∧ SetFile.ofBytes bytes = .ok w.file := by
  have hindex : (Encoded.concat encode (w.shaders.flatMap (·.entries))).fits = true := by
    refine (fits_concat_iff _).mpr fun e he => ?_
    obtain ⟨s, hs, he⟩ := List.mem_flatMap.mp he
    rcases OpenShader.mem_entries he with he | rfl
    · obtain ⟨hword, hoffset⟩ := hused s hs e he
      change (Encoded.word e.optionWord ++ Encoded.word e.offset).fits = true
      rw [Encoded.fits_append, fits_word_iff.mpr hword, fits_word_iff.mpr hoffset,
        Bool.and_self]
    · rfl
  have hfits : (w.header ++ Encoded.concat encode (w.shaders.flatMap (·.entries))).fits = true := by
    rw [Encoded.fits_append, fits_header hheader, hindex, Bool.and_self]
  refine ⟨w.header.bytes ++ (Encoded.concat encode (w.shaders.flatMap (·.entries))).bytes ++
    w.body, ?_, ?_⟩
  · unfold finish
    rw [settle_eq hheader]
    rfl
  · have hread := reads_decoder hreserved hfits w.body
    rw [Encoded.bytes_append_of_fits (fits_header hheader)] at hread
    unfold SetFile.ofBytes StateT.run
    rw [hread]
    rfl

theorem ofBytes_finish (h : Wrote shaders written w) (hheader : HeaderFits shaders)
    (hwords : ∀ v ∈ written, v.key.optionWord < Word.limit) :
    ∃ bytes, w.finish = .ok bytes ∧ SetFile.ofBytes bytes = .ok w.file := by
  rw [← h.announced] at hheader
  refine ofBytes_finish_of_fits hheader h.reserved fun s hs e he => ?_
  -- an entry in use has the word of its variant, and a place that was a word
  obtain ⟨v, hv, -, hstands⟩ := h.exists_variant hs he
  exact ⟨hstands.word ▸ hwords v hv, hstands.place⟩

end Writer

end ShaderVariants
