import ShaderVariants.Binary.Records

/-!
# The shader set file

A shader set file holds the compiled variants of many shaders.

* The *header* holds a magic number, a version, the number of shaders and of all index
  entries, and then each shader: its description, its number of index entries, its name
  and its source text, which is empty if the file was built without sources.
* The *index* holds the entries of each shader in ascending order of their option words.
  An entry says where the variant is found; entries that were reserved but never used
  come last.
* The *body* holds the variants, each followed by the place of its programs, and the
  programs, stored once for all variants that share them.  Places are counted from the
  beginning of the body.

## Main definitions

* `IndexEntry`, `ShaderEntry` — the records of index and header.
* `magicNumber`, `formatVersion` — the first two words of a file.
-/

namespace ShaderVariants

/-- The text `SSET` as a number. -/
def magicNumber : Nat := 0x54455353

/-- The only version there is. -/
def formatVersion : Nat := 1

/-- Where a variant is found. -/
structure IndexEntry where
  optionWord : OptionWord
  /-- The place of the variant in the body. -/
  offset : Nat
  deriving DecidableEq, Repr

namespace IndexEntry

/-- An entry that was reserved but never used. -/
def unused : IndexEntry := { optionWord := 0xFFFFFFFF, offset := 0xFFFFFFFF }

/-- Whether the entry was reserved but never used. -/
def isUnused (e : IndexEntry) : Bool := e == unused

/-- The entries in ascending order of their option words. -/
def sorted (entries : List IndexEntry) : List IndexEntry :=
  entries.mergeSort fun a b => a.optionWord ≤ b.optionWord

end IndexEntry

instance : Stored IndexEntry where
  encode e := encode e.optionWord ++ encode e.offset
  decode := do
    let optionWord ← decode
    let offset ← decode
    return { optionWord, offset }

/-- A shader of a file. -/
structure ShaderEntry where
  info : ShaderInfo
  name : String
  /-- The source text, unless the file was built without it. -/
  source : Option String
  /-- The number of its index entries, used or not. -/
  variantCount : Nat
  deriving DecidableEq, Repr

/-- The number of index entries of all shaders. -/
def ShaderEntry.entryCount : List ShaderEntry → Nat
  | [] => 0
  | s :: rest => s.variantCount + entryCount rest

/-- A missing source text is stored as an empty one. -/
instance : Stored ShaderEntry where
  encode s := encode s.info ++ encode s.variantCount ++ encode s.name ++
    encode (s.source.getD "")
  decode := do
    let info ← decode
    let variantCount ← decode
    let name ← decode
    let source : String ← decode
    return { info, name, variantCount, source := if source.isEmpty then none else some source }

end ShaderVariants
