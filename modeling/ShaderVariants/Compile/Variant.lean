import ShaderVariants.Analysis.Shader
import ShaderVariants.Binary.Records
import ShaderVariants.Compile.Downstream
import ShaderVariants.Glsl.Stage
import ShaderVariants.Layout.Assign

/-!
# Compiling a variant

A variant is compiled for an option word.  Its pipeline state is composed from the active
pipeline blocks, one block of each stage must be active, their data are laid out, and the
generated code is handed to the downstream compiler.  If a variant with the same program
key is at hand, its programs are taken over instead.

## Main definitions

* `VariantCompiler` — a source with everything needed to compile its variants.
* `VariantCompiler.composePipeline`, `VariantCompiler.findStage` — the parts that depend on
  conditions.
* `Attempt` — what comes of compiling a variant.
* `VariantCompiler.compileWord`, `VariantCompiler.compile` — compiling a variant.
-/

namespace ShaderVariants

/-- A shader source with everything needed to compile its variants. -/
structure VariantCompiler where
  unit : ShaderUnit
  info : ShaderInfo
  /-- The name of the source in diagnostics. -/
  file : String
  downstream : Downstream := keepSource
  renderer : Renderer := render
  /-- Whether generated code is shown if the downstream compiler fails on it. -/
  showSource : Bool := false

/-- What comes of compiling a variant. -/
structure Attempt where
  variant : Option Variant
  diagnostics : List Diagnostic := []
  /-- Whether the programs are those of another variant. -/
  reused : Bool := false
  deriving DecidableEq, Repr

namespace VariantCompiler

/-- Diagnostics about the source. -/
def inFile (c : VariantCompiler) (ds : List Diagnostic) : List Diagnostic :=
  ds.map fun d => { d with file := c.file }

/-- The values that conditions and code see in a variant. -/
def valuation (c : VariantCompiler) (w : OptionWord) : Valuation :=
  .filtered c.unit.options (.ofWord c.unit.options w)

/-! ### Conditions -/

/-- The initial pipeline state with the changes of all active pipeline blocks. -/
def composePipeline (c : VariantCompiler) (v : Valuation) : PipelineState :=
  PipelineState.initial.overrideAll
    ((c.unit.pipelineBlocks.filter fun b => conditionHolds? v b.condition = some true).map
      (·.changes))

/-- The conditions of pipeline blocks that have no value. -/
def undecidedPipeline (c : VariantCompiler) (v : Valuation) : List Diagnostic :=
  c.inFile (c.unit.pipelineBlocks.flatMap fun b => undecidedCondition v b.condition)

/-- The active blocks of a stage. -/
def activeStages (c : VariantCompiler) (v : Valuation) (stage : ShaderStage) :
    List StageBlock :=
  (c.unit.stageBlocks.filter (·.stage = stage)).filter fun b =>
    conditionHolds? v b.condition = some true

/-- The conditions of the blocks of a stage that have no value. -/
def undecidedStages (c : VariantCompiler) (v : Valuation) (stage : ShaderStage) :
    List Diagnostic :=
  c.inFile ((c.unit.stageBlocks.filter (·.stage = stage)).flatMap fun b =>
    undecidedCondition v b.condition)

/-- The only active block of a stage. -/
def findStage (c : VariantCompiler) (v : Valuation) (stage : ShaderStage) :
    Option StageBlock :=
  match c.activeStages v stage with
  | [b] => some b
  | _ => none

/-- Exactly one block of a stage must be active. -/
def diagnoseStage (c : VariantCompiler) (v : Valuation) (stage : ShaderStage) :
    List Diagnostic :=
  c.undecidedStages v stage ++
  match c.activeStages v stage with
  | [] =>
    c.inFile [.error .noStageBlock ("no " ++ stage.name ++ " stage block is active")]
  | [_] => []
  | first :: second :: _ =>
    c.inFile
      [{ Diagnostic.error .multipleStageBlocks
          ("more than one " ++ stage.name ++ " stage block is active") with
          span := second.span, related := first.span }]

/-! ### Programs -/

/-- What is said about a run of the downstream compiler. -/
def diagnoseOutput (c : VariantCompiler) (stage : ShaderStage) (source : String)
    (o : DownstreamOutput) : List Diagnostic :=
  (if o.failed && c.showSource then
    c.inFile
      [.info .generatedSource ("generated " ++ stage.name ++ " source:\n" ++ source)]
  else []) ++
  (if o.failed && !hasFailure o.diagnostics then
    c.inFile
      [.error .downstream (stage.name ++ " stage failed without a diagnostic")]
  else []) ++
  o.diagnostics

/-- Compilation broke down after the given diagnostics. -/
def crash (c : VariantCompiler) (ds : List Diagnostic) (message : Option String) : Attempt where
  variant := none
  diagnostics := ds ++ c.inFile
    [.fault ("variant compilation panicked: " ++ message.getD "unknown panic")]

/-- Hands the code of both stages to the downstream compiler. -/
def compilePrograms (c : VariantCompiler) (v : Valuation) (ds : List Diagnostic)
    (vertexSource fragmentSource : String)
    (assemble : List UInt8 → List UInt8 → Variant) : Attempt :=
  let definitions := c.unit.definitions v
  match c.downstream vertexSource .vertex definitions with
  | .crashed message => c.crash ds message
  | .finished vertex =>
    let ds := ds ++ c.diagnoseOutput .vertex vertexSource vertex
    match c.downstream fragmentSource .fragment definitions with
    | .crashed message => c.crash ds message
    | .finished fragment =>
      let ds := ds ++ c.diagnoseOutput .fragment fragmentSource fragment
      { variant := if hasFailure ds then none else
          vertex.bytes.bind fun a => fragment.bytes.map fun b => assemble a b
        diagnostics := ds }

/-- Lays out and generates the code of both stages, then compiles it. -/
def compileStages (c : VariantCompiler) (w : OptionWord) (pipeline : PipelineState)
    (ds : List Diagnostic) (vertex fragment : StageBlock) : Attempt :=
  let v := c.valuation w
  let result := c.unit.assignLayout v fragment
  let ds := ds ++ c.inFile result.diagnostics
  match result.layout with
  | none => c.crash ds "attempt to divide by zero"
  | some layout =>
    let code (stage : StageBlock) : Rendered :=
      c.renderer { unit := c.unit, stage, layout, pipeline, values := v }
    let vertexCode := code vertex
    let fragmentCode := code fragment
    let ds := ds ++ vertexCode.diagnostics ++ fragmentCode.diagnostics
    match vertexCode.source, fragmentCode.source with
    | some vertexSource, some fragmentSource =>
      if hasFailure ds then { variant := none, diagnostics := ds }
      else
        c.compilePrograms v ds vertexSource fragmentSource fun vertexProgram fragmentProgram =>
          { key := { sourceHash := c.info.sourceHash, optionWord := w }
            pipeline
            attributes := layout.attributes.map (·.2)
            setSizes := layout.setSizes
            bindings := layout.bindings
            vertexProgram, fragmentProgram }
    | _, _ => { variant := none, diagnostics := ds }

/-! ### Variants -/

/-- Compiles the variant of an option word, on the programs of `base` if one is given. -/
def compileWord (c : VariantCompiler) (w : OptionWord) (base : Option Variant) : Attempt :=
  let v := c.valuation w
  let key : VariantKey := { sourceHash := c.info.sourceHash, optionWord := w }
  let pipeline := c.composePipeline v
  let ds := c.undecidedPipeline v
  match base with
  | some b =>
    if c.info.programKey b.key.optionWord = c.info.programKey w then
      { variant := some (b.withPipeline key pipeline), diagnostics := ds, reused := true }
    else
      { variant := none
        diagnostics := ds ++ c.inFile
          [.fault ("variant " ++ key.text ++ " cannot reuse the programs of variant " ++
            b.key.text)] }
  | none =>
    let ds := ds ++ c.diagnoseStage v .vertex ++ c.diagnoseStage v .fragment
    match c.findStage v .vertex, c.findStage v .fragment with
    | some vertex, some fragment => c.compileStages w pipeline ds vertex fragment
    | _, _ => { variant := none, diagnostics := ds }

/-- The option word of given values; unknown names do not matter. -/
def wordOf (c : VariantCompiler) (values : Valuation) : OptionWord :=
  packValues (.filtered c.unit.options values) c.unit.options

/-- Announces which variant diagnostics are about. -/
def announce (c : VariantCompiler) (w : OptionWord) : List Diagnostic :=
  let name := c.info.variantName w
  c.inFile
    [.info .variantStart ("start of variant " ++ if name.isEmpty then "<default>" else name)]

/-- Compiles the variant of given values.  If there is anything to say about it, that is
announced; a variant with failures is dropped. -/
def compile (c : VariantCompiler) (values : Valuation) (base : Option Variant) : Attempt :=
  let w := c.wordOf values
  let attempt := c.compileWord w base
  { attempt with
    variant := if hasFailure attempt.diagnostics then none else attempt.variant
    diagnostics := if attempt.diagnostics.isEmpty then []
      else c.announce w ++ attempt.diagnostics }

end VariantCompiler

/-- The compiler for the variants of a source, unless its analysis found errors. -/
def AnalyzedShader.variantCompiler? (s : AnalyzedShader) (downstream : Downstream)
    (showSource : Bool) : Option VariantCompiler :=
  if s.isSound then
    some { unit := s.unit, info := s.info, file := s.name, downstream, showSource }
  else
    none

end ShaderVariants
