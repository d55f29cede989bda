import ShaderVariants.Container.LookupSet

/-!
# Listings of a shader set

What the inspection commands print about a file.

## Main definitions

* `Failure` — an error with the reasons behind it; `Failure.text` is how it is shown.
* `ListingError` — why variants cannot be listed.
* `LookupSet.infoText` — the shaders of a set, with their options.
* `LookupSet.variantsText` — the stored variants, and which of them share programs.
* `LookupSet.sourceText` — the embedded source of a shader.
-/

namespace ShaderVariants

/-! ### Failures -/

/-- Why variants cannot be listed. -/
inductive ListingError where
  /-- A variant cannot be read. -/
  | lookup (reason : LookupError)
  /-- The name of a variant cannot be computed, in a build with overflow checks. -/
  | word (reason : WordError)
  deriving DecidableEq, Repr

/-- An error, and the reasons behind it, the nearest first. -/
structure Failure where
  message : String
  causes : List String := []
  deriving DecidableEq, Repr

namespace Failure

/-- An error that something went wrong with the failure as the reason. -/
def because (f : Failure) (message : String) : Failure :=
  { message, causes := f.message :: f.causes }

/-- The failure of a file that cannot be read. -/
def ofDecodeError (e : DecodeError) : Failure :=
  match e.causes with
  | [] => { message := "" }
  | message :: causes => { message, causes }

/-- The failure of a lookup. -/
def ofLookupError : LookupError → Failure
  | .unreadable e => ofDecodeError e
  | e => { message := e.message }

/-- The failure of a listing.  A program that stops gives no reason behind its message. -/
def ofListingError (file : String) : ListingError → Failure
  | .lookup e => (ofLookupError e).because ("Failed to read variants from " ++ file)
  | .word e => { message := e.message }

/-- The lines of the reasons; several of them are numbered. -/
def causeLines : List String → List String
  | [] => []
  | [cause] => ["    " ++ cause ++ "\n"]
  | causes => causes.zipIdx.map fun (cause, i) =>
    "    " ++ toString i ++ ": " ++ cause ++ "\n"

/-- The failure as it is shown. -/
def text (f : Failure) : String :=
  "Error: " ++ f.message ++ "\n" ++
    (if f.causes.isEmpty then "" else "\nCaused by:\n" ++ String.join (causeLines f.causes))

end Failure

namespace LookupSet

/-! ### Shaders -/

/-- The names of the shaders of the own file. -/
def shaderNames (s : LookupSet) : List String := s.own.file.shaders.map (·.name)

/-- The line of an option whose field begins at `offset`. -/
def optionLine (invarianceMask : OptionWord) (o : OptionInfo) (offset : Nat) : String :=
  let invariant := 0 < o.bitCount && invarianceMask.testBit offset
  "  option " ++ o.name ++ " @ bit " ++ toString offset ++
    (if o.isFlag then "" else " = \x7b " ++ ", ".intercalate o.namedValues ++ " \x7d") ++
    (if invariant then " (pipeline only)" else "") ++ "\n"

/-- The line of a list of names, unless it is empty. -/
def namesLine (title : String) (names : List String) : String :=
  if names.isEmpty then "" else title ++ ", ".intercalate names ++ "\n"

/-- The lines of a shader. -/
def shaderText (s : LookupSet) (name : String) (info : ShaderInfo) : String :=
  "\n" ++ name ++ "\n" ++
    "  hash:       " ++ hashText info.sourceHash ++ "\n" ++
    "  variants:   " ++ toString (s.own.keysOf info.sourceHash).length ++ "\n" ++
    "  invariance: " ++ hexMask info.invarianceMask ++ "\n" ++
    "  source:     " ++ (if (s.source? info.sourceHash).isSome then "embedded" else "none") ++
    "\n" ++
    String.join (info.fields.map fun (o, offset) => optionLine info.invarianceMask o offset) ++
    namesLine "  attributes: " info.vertexAttributes ++
    namesLine "  instances:  " info.instanceAttributes ++
    namesLine "  bindings:   " info.bindings

/-- The shaders of a set. -/
def infoText (s : LookupSet) : String :=
  toString s.shaderNames.length ++ " shader(s), " ++ toString s.own.file.variantCount ++
    " variant slot(s)\n" ++
    String.join (s.shaderNames.map fun name =>
      match s.infoNamed? name with
      | some info => s.shaderText name info
      | none => "")

/-! ### Variants -/

/-- The lines of variants with their names.  `seen` holds the variants listed so far whose
programs are their own. -/
def variantLines (seen : List Loaded) : List (Loaded × String) → List String × List Loaded
  | [] => ([], seen)
  | (v, name) :: rest =>
    let head := "  " ++ v.variant.key.text ++ "  " ++
      (if name.isEmpty then "<default>" else name) ++ "  "
    match seen.find? (·.sharesPrograms v) with
    | some first =>
      let (lines, seen) := variantLines seen rest
      ((head ++ "(programs of " ++ first.variant.key.text ++ ")\n") :: lines, seen)
    | none =>
      let (lines, seen) := variantLines (seen ++ [v]) rest
      ((head ++ "[vertex " ++ toString v.variant.vertexProgram.length ++ " B, fragment " ++
        toString v.variant.fragmentProgram.length ++ " B]\n") :: lines, seen)

/-- Looks up keys of a shader one after the other, and names what was found. -/
def getNamed (s : LookupSet) (o : Overflow) (info : ShaderInfo) :
    List VariantKey → LookupSet × Except ListingError (List (Loaded × String))
  | [] => (s, .ok [])
  | key :: rest =>
    match s.get key with
    | (s, .error e) => (s, .error (.lookup e))
    | (s, .ok v) =>
      match info.variantNameInWords o key.optionWord with
      | .error e => (s, .error (.word e))
      | .ok name =>
        match s.getNamed o info rest with
        | (s, .error e) => (s, .error e)
        | (s, .ok vs) => (s, .ok ((v, name) :: vs))

/-- The lines of some shaders. -/
def variantsOf (s : LookupSet) (o : Overflow) :
    List String → LookupSet × Except ListingError String
  | [] => (s, .ok "")
  | name :: rest =>
    match s.infoNamed? name with
    | none => s.variantsOf o rest
    | some info =>
      let keys := s.own.keysOf info.sourceHash
      match s.getNamed o info keys with
      | (s, .error e) => (s, .error e)
      | (s, .ok variants) =>
        let (lines, seen) := variantLines [] variants
        let text := name ++ " (" ++ toString keys.length ++ " variants)\n" ++
          String.join lines ++
          "  " ++ toString seen.length ++ " distinct program pair(s)\n"
        match s.variantsOf o rest with
        | (s, .error e) => (s, .error e)
        | (s, .ok later) => (s, .ok (text ++ later))

/-- The stored variants of one shader or of all. -/
def variantsText (s : LookupSet) (o : Overflow) (only : Option String) :
    Except ListingError String :=
  match only with
  | none => (s.variantsOf o s.shaderNames).2
  | some name =>
    match s.getInfo name with
    | .error e => .error (.lookup e)
    | .ok _ => (s.variantsOf o [name]).2

/-! ### Sources -/

/-- The embedded source of a shader, which ends with a line break.  `file` is the name of
the file for messages. -/
def sourceText (s : LookupSet) (file name : String) : Except Failure String :=
  match s.getInfo name with
  | .error e => .error (.ofLookupError e)
  | .ok info =>
    match s.getSource info.sourceHash with
    | .error e =>
      .error ((Failure.ofLookupError e).because (file ++ " was built without embedded sources"))
    | .ok source =>
      .ok (if source.toList.getLast? = some '\n' then source else source ++ "\n")

end LookupSet

end ShaderVariants
