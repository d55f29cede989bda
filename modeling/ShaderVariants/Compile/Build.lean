import ShaderVariants.Compile.Variant
import ShaderVariants.Container.Writer

/-!
# Building a shader set

A build analyzes all sources, reserves an index entry for every variant of every sound
source, and goes through the program variants of one source after the other.  For each it
compiles the programs once and stores all variants that share them.

A failing variant does not stop the others, but any failure fails the build, and a failed
build leaves no file behind.  If something cannot be written, the build stops at once, and
of all diagnostics only those of the analysis are kept.

## Main definitions

* `BuildSettings`, `ShaderSource` — what goes into a build.
* `Summary`, `BuildError`, `BuildResult` — what comes out.
* `Progress`, `Progress.runJob` — the steps of a build.
* `build` — the whole.
-/

namespace ShaderVariants

/-- How to build. -/
structure BuildSettings where
  /-- Whether the file holds the source texts. -/
  embedSource : Bool := false
  /-- Whether generated code is shown if the downstream compiler fails on it. -/
  showSource : Bool := false
  deriving DecidableEq, Repr

/-- A source that goes into a shader set. -/
structure ShaderSource where
  name : String
  source : String
  unit : ShaderUnit
  deriving Repr

/-- What was done. -/
structure Summary where
  /-- The sources whose variants were compiled. -/
  shaders : Nat
  /-- The program variants that were compiled, with success or without. -/
  compiled : Nat
  /-- The variants that were stored. -/
  assembled : Nat
  deriving DecidableEq, Repr

/-- Why there is no shader set. -/
inductive BuildError where
  /-- The file cannot be created. -/
  | cannotCreate
  | cannotWrite (reason : WriteError)
  | compilationFailed (errors : Nat) (summary : Summary)
  deriving DecidableEq, Repr

/-- The error in words. -/
def BuildError.message : BuildError → String
  | .cannotCreate => "failed to create shader set"
  | .cannotWrite _ => "failed to write shader set"
  | .compilationFailed errors _ =>
    "compilation failed with " ++ toString errors ++ " error(s)"

/-- What comes of a build. -/
structure BuildResult where
  outcome : Except BuildError Summary
  diagnostics : List Diagnostic
  /-- The file, if the build succeeded. -/
  file : Option (List UInt8)

/-! ### Steps -/

/-- How far a build has come. -/
structure Progress where
  writer : Writer
  diagnostics : List Diagnostic := []
  compiled : Nat := 0
  assembled : Nat := 0
  deriving DecidableEq, Repr

namespace Progress

/-- Stores a variant. -/
def store (p : Progress) (v : Variant) : Except WriteError Progress :=
  match p.writer.writeVariant v with
  | (writer, .ok ()) => .ok { p with writer, assembled := p.assembled + 1 }
  | (_, .error e) => .error e

/-- Compiles a variant and stores it, if there is one. -/
def attempt (c : VariantCompiler) (base : Option Variant) (p : Progress) (w : OptionWord) :
    Except WriteError (Progress × Option Variant) :=
  let result := c.compile (.ofWord c.unit.options w) base
  let p := { p with diagnostics := p.diagnostics ++ result.diagnostics }
  match result.variant with
  | none => .ok (p, none)
  | some v => (p.store v).map fun p => (p, some v)

/-- Compiles and stores variants on the programs of `base`. -/
def assemble (c : VariantCompiler) (base : Variant) (p : Progress) :
    List OptionWord → Except WriteError Progress
  | [] => .ok p
  | w :: rest => do
    let (p, _) ← attempt c (some base) p w
    assemble c base p rest

/-- Compiles the programs of an option word and stores all variants that share them. -/
def runJob (settings : BuildSettings) (downstream : Downstream) (p : Progress)
    (job : AnalyzedShader × OptionWord) : Except WriteError Progress :=
  let (shader, w) := job
  match shader.variantCompiler? downstream settings.showSource with
  | none => .ok p
  | some c => do
    match ← attempt c none { p with compiled := p.compiled + 1 } w with
    | (p, none) => return p
    | (p, some base) => assemble c base p ((shader.invariantsFor w).words.filter (· != w))

end Progress

/-! ### The whole build -/

/-- The entry of a source in the file. -/
def AnalyzedShader.entry (s : AnalyzedShader) (embedSource : Bool) : ShaderEntry where
  info := s.info
  name := s.name
  source := if embedSource then some s.source else none
  variantCount := s.allVariants.size

/-- The program variants of all sources. -/
def buildJobs (shaders : List AnalyzedShader) : List (AnalyzedShader × OptionWord) :=
  shaders.flatMap fun s => s.programVariants.words.map (s, ·)

/-- Runs all jobs and finishes the file. -/
def runBuild (settings : BuildSettings) (downstream : Downstream)
    (shaders : List AnalyzedShader) : Except WriteError (Progress × List UInt8) := do
  let writer ← shaders.foldlM (fun (w : Writer) s => w.addShader (s.entry settings.embedSource)) {}
  let p ← (buildJobs shaders).foldlM (Progress.runJob settings downstream) { writer }
  let file ← p.writer.finish
  return (p, file)

/-- Builds a shader set.  `creatable` says whether the file can be created. -/
def build (settings : BuildSettings) (downstream : Downstream) (creatable : Bool)
    (sources : List ShaderSource) : BuildResult :=
  let analyzed := sources.map fun s => analyze s.name s.source s.unit
  let analysis := analyzed.flatMap (·.diagnostics)
  let shaders := analyzed.filter (·.isSound)
  if creatable then
    match runBuild settings downstream shaders with
    | .error e => { outcome := .error (.cannotWrite e), diagnostics := analysis, file := none }
    | .ok (p, file) =>
      let diagnostics := analysis ++ p.diagnostics
      let summary : Summary :=
        { shaders := shaders.length, compiled := p.compiled, assembled := p.assembled }
      if hasFailure diagnostics then
        { outcome := .error (.compilationFailed (failureCount diagnostics) summary)
          diagnostics, file := none }
      else
        { outcome := .ok summary, diagnostics, file := some file }
  else
    { outcome := .error .cannotCreate, diagnostics := analysis, file := none }

end ShaderVariants
