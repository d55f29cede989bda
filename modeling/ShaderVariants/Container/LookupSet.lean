import ShaderVariants.Container.File
import ShaderVariants.Text.Quoted

/-!
# Looking up variants

An opened file keeps the variants it has read, and the programs at every place it has read
them from.  Files can be stacked: what the first one does not have is looked for in the
next, so that a small file can override parts of a large one.

Whether two variants share their programs is a matter of where the programs were read,
not of their bytes: a file reads the programs of one place once until it is cleared.

## Main definitions

* `OpenFile` — a file with the variants read so far; `OpenFile.load` reads one.
* `LookupSet` — a stack of files; `LookupSet.tryGet` looks a variant up.
* `LookupError` — why something is not found.
* `Loaded.same`, `Loaded.sharesPrograms` — identity of variants and of their programs.
-/

namespace ShaderVariants

/-! ### Loaded variants -/

/-- A variant that was read from a file. -/
structure Loaded where
  variant : Variant
  /-- The number of the file among all that were opened. -/
  file : Nat
  /-- How many times the file had been cleared. -/
  generation : Nat
  programPlace : Nat
  deriving DecidableEq, Repr

namespace Loaded

/-- The two come from one read of the programs. -/
def sharesPrograms (a b : Loaded) : Bool :=
  a.file == b.file && a.generation == b.generation && a.programPlace == b.programPlace

/-- The two come from one read of the variant. -/
def same (a b : Loaded) : Bool :=
  a.file == b.file && a.generation == b.generation && a.variant.key == b.variant.key

end Loaded

/-! ### One file -/

/-- A file with what has been read since it was last cleared. -/
structure OpenFile where
  file : SetFile
  /-- The number of the file among all that were opened. -/
  number : Nat
  generation : Nat := 0
  /-- The variants that have been read. -/
  loaded : List (VariantKey × Loaded) := []
  /-- The programs that have been read, by their places. -/
  programs : List (Nat × (List UInt8 × List UInt8)) := []
  deriving DecidableEq, Repr

namespace OpenFile

/-- The position of the shader with a checksum; of several, the last one counts. -/
def position? (f : OpenFile) (hash : UInt32) : Option Nat :=
  f.file.shaders.zipIdx.foldl
    (fun found (s, i) => if s.info.sourceHash = hash then some i else found) none

/-- The shader with a checksum; of several, the last one counts. -/
def shader? (f : OpenFile) (hash : UInt32) : Option ListedShader :=
  (f.position? hash).bind (f.file.shaders[·]?)

/-- Reads the programs at a place, unless they have been read before. -/
def loadPrograms (f : OpenFile) (place : Nat) :
    Except DecodeError ((List UInt8 × List UInt8) × OpenFile) :=
  match f.programs.lookup place with
  | some found => .ok (found, f)
  | none => do
    let new ← f.file.programsAt place
    return (new, { f with programs := f.programs ++ [(place, new)] })

/-- Reads the variant of an index entry, unless it has been read before. -/
def loadEntry (f : OpenFile) (hash : UInt32) (entry : IndexEntry) :
    Except DecodeError (Loaded × OpenFile) :=
  let key : VariantKey := { sourceHash := hash, optionWord := entry.optionWord }
  match f.loaded.lookup key with
  | some found => .ok (found, f)
  | none => do
    let (body, place) ← f.file.bodyAt entry
    let ((vertexProgram, fragmentProgram), f) ← f.loadPrograms place
    let new : Loaded := {
      variant := body.variant key vertexProgram fragmentProgram
      file := f.number, generation := f.generation, programPlace := place }
    return (new, { f with loaded := f.loaded ++ [(key, new)] })

/-- The variant of a key, read if it has not been, or nothing if the file does not have
it. -/
def load (f : OpenFile) (key : VariantKey) : Except DecodeError (Option Loaded × OpenFile) :=
  match f.loaded.lookup key with
  | some found => .ok (some found, f)
  | none =>
    match (f.position? key.sourceHash).bind (f.file.findEntry? · key.optionWord) with
    | none => .ok (none, f)
    | some entry => (f.loadEntry key.sourceHash entry).map fun (v, f) => (some v, f)

/-- All index entries in use, with the checksums of their shaders, in file order. -/
def usedEntries (f : OpenFile) : List (UInt32 × IndexEntry) :=
  f.file.shaders.zipIdx.flatMap fun (s, i) =>
    (f.file.usedEntriesOf i).map (s.info.sourceHash, ·)

/-- Reads the variants of the entries, up to the first that cannot be read. -/
def loadEntries (f : OpenFile) :
    List (UInt32 × IndexEntry) → OpenFile × Except DecodeError Unit
  | [] => (f, .ok ())
  | (hash, entry) :: rest =>
    match f.loadEntry hash entry with
    | .ok (_, f) => f.loadEntries rest
    | .error e => (f, .error e)

/-- Reads all variants, up to the first that cannot be read. -/
def loadAll (f : OpenFile) : OpenFile × Except DecodeError Unit := f.loadEntries f.usedEntries

/-- Forgets what has been read. -/
def clear (f : OpenFile) : OpenFile :=
  { f with generation := f.generation + 1, loaded := [], programs := [] }

/-- The keys of all variants of a shader, in ascending order. -/
def keysOf (f : OpenFile) (hash : UInt32) : List VariantKey :=
  match f.position? hash with
  | none => []
  | some i => (f.file.usedEntriesOf i).map fun e => ⟨hash, e.optionWord⟩

end OpenFile

/-! ### A stack of files -/

/-- A file and the files to fall back on, in order. -/
structure LookupSet where
  own : OpenFile
  fallbacks : List OpenFile := []
  deriving DecidableEq, Repr

/-- Why a lookup does not succeed. -/
inductive LookupError where
  | noShaderNamed (name : String)
  | noSource (hash : UInt32)
  | noVariant (key : VariantKey)
  /-- The variant is there but cannot be read. -/
  | unreadable (reason : DecodeError)
  deriving DecidableEq, Repr

/-- The reason in words. -/
def LookupError.message : LookupError → String
  | .noShaderNamed name => "shader set does not contain shader named " ++ quoted name
  | .noSource hash => "shader set does not contain source for shader " ++ hashText hash
  | .noVariant key => "shader set does not contain variant " ++ key.text
  | .unreadable reason => reason.causes.headD ""

namespace LookupSet

/-- All files, the own one first. -/
def files (s : LookupSet) : List OpenFile := s.own :: s.fallbacks

/-- The set with other files to fall back on. -/
def withFallback (s other : LookupSet) : LookupSet := { s with fallbacks := other.files }

/-- The set of the files to fall back on. -/
def fallback? (s : LookupSet) : Option LookupSet :=
  match s.fallbacks with
  | [] => none
  | own :: fallbacks => some { own, fallbacks }

/-- The set without files to fall back on. -/
def withoutFallback (s : LookupSet) : LookupSet := { s with fallbacks := [] }

/-- The description of the shader with a checksum. -/
def info? (s : LookupSet) (hash : UInt32) : Option ShaderInfo :=
  s.files.findSome? fun f => (f.shader? hash).map (·.info)

/-- The description of the shader with a name. -/
def infoNamed? (s : LookupSet) (name : String) : Option ShaderInfo :=
  s.files.findSome? fun f => (f.file.shaders.find? (·.name = name)).map (·.info)

/-- The source text of the shader with a checksum, from the first file that has it. -/
def source? (s : LookupSet) (hash : UInt32) : Option String :=
  s.files.findSome? fun f => (f.shader? hash).bind (·.source)

/-- The source text of the shader with a name. -/
def sourceNamed? (s : LookupSet) (name : String) : Option String :=
  (s.infoNamed? name).bind fun info => s.source? info.sourceHash

/-- The description of the shader with a name, which has to be there. -/
def getInfo (s : LookupSet) (name : String) : Except LookupError ShaderInfo :=
  match s.infoNamed? name with
  | some info => .ok info
  | none => .error (.noShaderNamed name)

/-- The source text of the shader with a checksum, which has to be there. -/
def getSource (s : LookupSet) (hash : UInt32) : Except LookupError String :=
  match s.source? hash with
  | some source => .ok source
  | none => .error (.noSource hash)

/-- The variant of a key in the first of the files that has it, and the files after the
lookup. -/
def tryFiles (key : VariantKey) :
    List OpenFile → List OpenFile × Except DecodeError (Option Loaded)
  | [] => ([], .ok none)
  | f :: rest =>
    match f.load key with
    | .error e => (f :: rest, .error e)
    | .ok (some v, f) => (f :: rest, .ok (some v))
    | .ok (none, f) =>
      let (rest, result) := tryFiles key rest
      (f :: rest, result)

/-- The variant of a key, if one of the files has it. -/
def tryGet (s : LookupSet) (key : VariantKey) :
    LookupSet × Except DecodeError (Option Loaded) :=
  match tryFiles key s.files with
  | (own :: fallbacks, result) => ({ own, fallbacks }, result)
  | ([], result) => (s, result)

/-- The variant of a key, which has to be there. -/
def get (s : LookupSet) (key : VariantKey) : LookupSet × Except LookupError Loaded :=
  match s.tryGet key with
  | (s, .ok (some v)) => (s, .ok v)
  | (s, .ok none) => (s, .error (.noVariant key))
  | (s, .error e) => (s, .error (.unreadable e))

end LookupSet

end ShaderVariants
