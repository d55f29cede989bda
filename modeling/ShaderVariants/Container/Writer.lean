import ShaderVariants.Container.Format

/-!
# Writing a shader set

Shaders are announced first, each with a number of index entries to reserve.  Writing
the first variant ends that; from then on the header cannot change.  The body grows with
every variant.  A variant whose programs are already stored only refers to them.

A variant that cannot be stored completely has still used its index entry, and the bytes
before the length in question stay in the body.

Places are words.  Where a variant begins is checked, but programs begin four bytes behind a
checked place, and the sum need not be a word.

## Main definitions

* `WriteError` — why something cannot be written.
* `Writer` — a shader set in the making; `Writer.addShader`, `Writer.writeVariant`.
* `Writer.finish` — the bytes of the file.
-/

namespace ShaderVariants

/-- Why something cannot be added to a shader set. -/
inductive WriteError where
  /-- A variant was written, so the header is settled. -/
  | headerSettled
  | unknownShader (hash : UInt32)
  /-- All index entries of the shader are in use. -/
  | noEntryLeft (hash : UInt32) (count : Nat)
  /-- A place or count does not fit into 32 bits. -/
  | offsetOverflow
  /-- A length or set size does not fit its place. -/
  | tooLong
  /-- The place of programs is no word, in a build with overflow checks. -/
  | word (reason : WordError)
  deriving DecidableEq, Repr

/-- The reason in words. -/
def WriteError.message : WriteError → String
  | .headerSettled => "first variant was written, cannot add shaders anymore"
  | .unknownShader hash => "shader " ++ hashText hash ++ " was not added to writer"
  | .noEntryLeft hash count =>
    "all " ++ toString count ++ " allocated variants for shader " ++ hashText hash ++
      " were already written"
  | .offsetOverflow => "shader set exceeds 4 GiB offset range"
  | .tooLong => "out of range integral type conversion attempted"
  | .word reason => reason.message

/-- A shader of a set in the making, with the index entries in use. -/
structure OpenShader extends ShaderEntry where
  used : List IndexEntry := []
  deriving DecidableEq, Repr

/-- All index entries of the shader in their final order. -/
def OpenShader.entries (s : OpenShader) : List IndexEntry :=
  IndexEntry.sorted (s.used ++ List.replicate (s.variantCount - s.used.length) .unused)

/-- A shader set in the making. -/
structure Writer where
  shaders : List OpenShader := []
  /-- Whether the header is settled. -/
  settled : Bool := false
  body : List UInt8 := []
  /-- The place of the programs of each program key. -/
  programs : List (VariantKey × Nat) := []
  /-- Whether the build has overflow checks. -/
  overflow : Overflow := .refused
  deriving DecidableEq, Repr

namespace Writer

/-- The number of index entries of all shaders. -/
def entryCount (w : Writer) : Nat := ShaderEntry.entryCount (w.shaders.map (·.toShaderEntry))

/-- Announces a shader and reserves its index entries. -/
def addShader (w : Writer) (shader : ShaderEntry) : Except WriteError Writer :=
  if w.settled then
    .error .headerSettled
  else
    .ok { w with shaders := w.shaders ++ [{ toShaderEntry := shader }] }

/-- The bytes in front of the index. -/
def header (w : Writer) : Encoded :=
  Encoded.word magicNumber ++ Encoded.word formatVersion ++ Encoded.word w.shaders.length ++
    Encoded.word w.entryCount ++ Encoded.concat encode (w.shaders.map (·.toShaderEntry))

/-- Settles the header. -/
def settle (w : Writer) : Except WriteError Writer :=
  if w.settled then .ok w
  else if Word.limit ≤ w.entryCount ∨ Word.limit ≤ w.shaders.length then .error .offsetOverflow
  else if w.header.fits then .ok { w with settled := true }
  else .error .tooLong

/-- Takes an index entry of the first shader with the checksum into use. -/
def useEntry (hash : UInt32) (entry : IndexEntry) : List OpenShader → List OpenShader
  | [] => []
  | s :: rest =>
    if s.info.sourceHash = hash then { s with used := s.used ++ [entry] } :: rest
    else s :: useEntry hash entry rest

/-- Appends encoded bytes to the body. -/
def append (w : Writer) (e : Encoded) : Writer × Except WriteError Unit :=
  ({ w with body := w.body ++ e.bytes }, if e.fits then .ok () else .error .tooLong)

/-- Appends a reference to the programs of a variant, and the programs if they are not
stored yet.  They follow the reference. -/
def appendPrograms (w : Writer) (v : Variant) (key : VariantKey) :
    Writer × Except WriteError Unit :=
  match w.programs.lookup key with
  | some place => w.append (Encoded.word place)
  | none =>
    if Word.limit ≤ w.body.length then
      (w, .error .offsetOverflow)
    else
      match w.overflow.below Word.limit .sumTooLarge (w.body.length + 4) with
      | .error e => (w, .error (.word e))
      | .ok place =>
        { w with programs := w.programs ++ [(key, place)] }.append
          (Encoded.word place ++ Encoded.blob v.vertexProgram ++ Encoded.blob v.fragmentProgram)

/-- Appends a variant whose index entry has been taken into use. -/
def appendVariant (w : Writer) (v : Variant) (key : VariantKey) :
    Writer × Except WriteError Unit :=
  match w.append (encode v.body) with
  | (w, .ok ()) => w.appendPrograms v key
  | (w, .error e) => (w, .error e)

/-- Writes a variant to the shader that was announced first under its checksum. -/
def writeVariant (w : Writer) (v : Variant) : Writer × Except WriteError Unit :=
  match w.settle with
  | .error e => (w, .error e)
  | .ok w =>
    let hash := v.key.sourceHash
    match w.shaders.find? (·.info.sourceHash = hash) with
    | none => (w, .error (.unknownShader hash))
    | some s =>
      if s.variantCount ≤ s.used.length then
        (w, .error (.noEntryLeft hash s.variantCount))
      else if Word.limit ≤ w.body.length then
        ({ w with shaders := useEntry hash .unused w.shaders }, .error .offsetOverflow)
      else
        let entry := { optionWord := v.key.optionWord, offset := w.body.length }
        { w with shaders := useEntry hash entry w.shaders }.appendVariant v
          (s.info.programKey v.key.optionWord)

/-- The bytes of the finished file. -/
def finish (w : Writer) : Except WriteError (List UInt8) := do
  let w ← w.settle
  let index := w.shaders.flatMap (·.entries)
  return w.header.bytes ++ (Encoded.concat encode index).bytes ++ w.body

end Writer

end ShaderVariants
