import ShaderVariants.Container.Format

/-!
# Reading a shader set

Opening a file reads its header and index.  A file need not come from a writer that sorts,
so the entries of each shader are sorted when it is opened; a search halves them.  Variants
are read one at a time, from the place that the index gives.  Every read says where it
begins, so none depends on where the one before has ended.

## Main definitions

* `SetFile` — an opened file; `SetFile.ofBytes` opens it.
* `SetFile.entriesOf`, `SetFile.findEntry?` — the index entries of a shader.
* `IndexEntry.search` — the entry of an option word.
* `SetFile.bodyAt`, `SetFile.programsAt` — the two parts of a variant.
* `SetFile.readVariant` — the variant of an index entry.
-/

namespace ShaderVariants

/-- A shader of an opened file. -/
structure ListedShader extends ShaderEntry where
  /-- The number of index entries in front of those of the shader. -/
  variantStart : Nat
  deriving DecidableEq, Repr

/-- The part of the index that belongs to a shader. -/
def ListedShader.entriesIn (s : ListedShader) (index : List IndexEntry) : List IndexEntry :=
  (index.drop s.variantStart).take s.variantCount

/-- A shader set whose header and index have been read. -/
structure SetFile where
  shaders : List ListedShader
  /-- The entries of all shaders. -/
  index : List IndexEntry
  body : List UInt8
  /-- The entries of each shader are in ascending order. -/
  ascending : ∀ s ∈ shaders, (s.entriesIn index).Pairwise (·.optionWord ≤ ·.optionWord)
  deriving DecidableEq, Repr

/-- A variant of a file and the place of its programs. -/
structure ReadVariant where
  variant : Variant
  programPlace : Nat
  deriving DecidableEq, Repr

namespace IndexEntry

theorem perm_sorted (entries : List IndexEntry) : (sorted entries).Perm entries :=
  List.mergeSort_perm entries _

theorem pairwise_sorted (entries : List IndexEntry) :
    (sorted entries).Pairwise (·.optionWord ≤ ·.optionWord) := by
  have h : (sorted entries).Pairwise fun a b => decide (a.optionWord ≤ b.optionWord) = true := by
    refine List.pairwise_mergeSort (fun a b c hab hbc => ?_) (fun a b => ?_) entries
    · exact decide_eq_true (Nat.le_trans (of_decide_eq_true hab) (of_decide_eq_true hbc))
    · simpa using Nat.le_total a.optionWord b.optionWord
  exact h.imp fun hab => of_decide_eq_true hab

/-- The entry of an option word among entries in ascending order.  They are halved until one
is left: what lies behind the middle is kept with it, unless the middle is beyond the word. -/
def search (word : OptionWord) (entries : List IndexEntry) : Option IndexEntry :=
  if h : 1 < entries.length then
    if word < entries[entries.length / 2].optionWord then
      search word (entries.take (entries.length - entries.length / 2))
    else
      search word (entries.drop (entries.length / 2))
  else
    entries.head?.filter (·.optionWord = word)
termination_by entries.length
decreasing_by all_goals simp only [List.length_take, List.length_drop]; omega

end IndexEntry

namespace SetFile

/-- Gives each shader its place in the index, from `start` on. -/
def listShaders : Nat → List ShaderEntry → List ListedShader
  | _, [] => []
  | start, s :: rest =>
    { toShaderEntry := s, variantStart := start } :: listShaders (start + s.variantCount) rest

/-- Sorts the entries of each shader among themselves. -/
def sortEntries : List ShaderEntry → List IndexEntry → List IndexEntry
  | [], _ => []
  | s :: rest, entries =>
    IndexEntry.sorted (entries.take s.variantCount) ++
      sortEntries rest (entries.drop s.variantCount)

theorem le_variantStart {s : ListedShader} (shaders : List ShaderEntry) : ∀ start : Nat,
    s ∈ listShaders start shaders → start ≤ s.variantStart := by
  induction shaders with
  | nil => exact fun _ hs => absurd hs List.not_mem_nil
  | cons t rest ih =>
    intro start hs
    rcases List.mem_cons.mp hs with rfl | hs
    · exact Nat.le_refl _
    · exact Nat.le_trans (Nat.le_add_right _ _) (ih _ hs)

theorem sortEntries_nil (shaders : List ShaderEntry) : sortEntries shaders [] = [] := by
  induction shaders with
  | nil => rfl
  | cons s rest ih => simp [sortEntries, IndexEntry.sorted, ih]

/-- The entries that each shader finds in the sorted index are in ascending order, also if
there are too few of them. -/
theorem ascending_sortEntries (shaders : List ShaderEntry) : ∀ front entries : List IndexEntry,
    ∀ s ∈ listShaders front.length shaders,
      (s.entriesIn (front ++ sortEntries shaders entries)).Pairwise
        (·.optionWord ≤ ·.optionWord) := by
  induction shaders with
  | nil => exact fun _ _ _ hs => absurd hs List.not_mem_nil
  | cons t rest ih =>
    intro front entries s hs
    have hsorted := IndexEntry.pairwise_sorted (entries.take t.variantCount)
    have hlength : (IndexEntry.sorted (entries.take t.variantCount)).length =
        min t.variantCount entries.length := by
      rw [(IndexEntry.perm_sorted _).length_eq, List.length_take]
    rcases Nat.lt_or_ge entries.length t.variantCount with hfew | henough
    · -- nothing is left for the shaders behind this one
      rw [sortEntries, List.drop_eq_nil_of_le (Nat.le_of_lt hfew), sortEntries_nil,
        List.append_nil]
      rcases List.mem_cons.mp hs with rfl | hs
      · simp only [ListedShader.entriesIn, List.drop_left]
        exact hsorted.sublist (List.take_sublist _ _)
      · have hstart := le_variantStart rest _ hs
        rw [ListedShader.entriesIn, List.drop_eq_nil_of_le, List.take_nil]
        · exact List.Pairwise.nil
        · rw [List.length_append]
          omega
    · rw [Nat.min_eq_left henough] at hlength
      rcases List.mem_cons.mp hs with rfl | hs
      · simp only [ListedShader.entriesIn, sortEntries, List.drop_left]
        rwa [List.take_append_of_le_length (Nat.le_of_eq hlength.symm),
          List.take_of_length_le (Nat.le_of_eq hlength)]
      · have hrest := ih (front ++ IndexEntry.sorted (entries.take t.variantCount))
          (entries.drop t.variantCount) s
        rw [List.length_append, hlength, List.append_assoc] at hrest
        exact hrest hs

/-- A file with the given shaders, whose index was stored as `entries`. -/
def ofParts (shaders : List ShaderEntry) (entries : List IndexEntry) (body : List UInt8) :
    SetFile where
  shaders := listShaders 0 shaders
  index := sortEntries shaders entries
  body := body
  ascending := ascending_sortEntries shaders [] entries

/-- Reads the header. -/
def header : Decoder (List ShaderEntry) := do
  let magic ← Decoder.word
  if magic ≠ magicNumber then Decoder.fail (.badMagic magic)
  let version ← Decoder.word
  if version ≠ formatVersion then Decoder.fail (.unsupportedVersion version)
  let shaderCount ← Decoder.word
  let total ← Decoder.word
  let shaders : List ShaderEntry ← Decoder.times decode shaderCount
  let declared := ShaderEntry.entryCount shaders
  if declared ≠ total then Decoder.fail (.variantCountMismatch declared total)
  return shaders

/-- Reads header and index, the index as it is stored. -/
def decoder : Decoder (List ShaderEntry × List IndexEntry) := do
  let shaders ← header
  let entries ← Decoder.times decode (ShaderEntry.entryCount shaders)
  return (shaders, entries)

/-- Opens a file. -/
def ofBytes (bytes : List UInt8) : Except DecodeError SetFile := do
  let ((shaders, entries), body) ← decoder.run bytes
  return ofParts shaders entries body

/-- The number of index entries in use. -/
def variantCount (f : SetFile) : Nat := (f.index.filter fun e => !e.isUnused).length

/-- The index entries of the shader at a position, in ascending order. -/
def entriesOf (f : SetFile) (position : Nat) : Option (List IndexEntry) :=
  f.shaders[position]?.map fun s => s.entriesIn f.index

/-- The index entries of the shader at a position that are in use. -/
def usedEntriesOf (f : SetFile) (position : Nat) : List IndexEntry :=
  ((f.entriesOf position).getD []).filter fun e => !e.isUnused

/-- The index entry of an option word, if it is in use. -/
def findEntry? (f : SetFile) (position : Nat) (word : OptionWord) : Option IndexEntry := do
  let entries ← f.entriesOf position
  let entry ← IndexEntry.search word entries
  if entry.isUnused then none else some entry

/-- The programs at a place of the body. -/
def programsAt (f : SetFile) (place : Nat) : Except DecodeError (List UInt8 × List UInt8) :=
  let programs : Decoder (List UInt8 × List UInt8) := do
    let vertex ← Decoder.blob
    let fragment ← Decoder.blob
    return (vertex, fragment)
  (programs.run (f.body.drop place)).map (·.1)

/-- What an index entry leads to: a variant without its programs, and the place of these. -/
def bodyAt (f : SetFile) (entry : IndexEntry) : Except DecodeError (VariantBody × Nat) :=
  let head : Decoder (VariantBody × Nat) := do
    let body ← decode
    let place ← Decoder.word
    return (body, place)
  (head.run (f.body.drop entry.offset)).map (·.1)

/-- The variant of an index entry of the shader with the given checksum. -/
def readVariant (f : SetFile) (hash : UInt32) (entry : IndexEntry) :
    Except DecodeError ReadVariant := do
  let (body, place) ← f.bodyAt entry
  let (vertexProgram, fragmentProgram) ← f.programsAt place
  return {
    variant := body.variant { sourceHash := hash, optionWord := entry.optionWord }
      vertexProgram fragmentProgram
    programPlace := place }

end SetFile

end ShaderVariants
