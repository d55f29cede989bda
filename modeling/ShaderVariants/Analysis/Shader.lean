import ShaderVariants.Analysis.Invariance
import ShaderVariants.Diagnostic
import ShaderVariants.Options.Space
import ShaderVariants.Text.Checksum
import ShaderVariants.Variant

/-!
# Analysis of a shader source

Before any variant is compiled, a source is checked once for all of them: its options
must fit into an option word and be told apart by name, and its conditions must depend on
options alone.

## Main definitions

* `ShaderUnit.diagnose` — the checks.
* `ShaderUnit.describe` — what a container says about the shader.
* `AnalyzedShader`, `analyze` — a source with the results.
* `AnalyzedShader.allVariants`, `programVariants`, `invariantsFor` — its option words.
-/

namespace ShaderVariants

namespace ShaderUnit

/-! ### Options -/

/-- The fields of all options must fit into a word with room to spare. -/
def diagnoseSpace (u : ShaderUnit) : List Diagnostic :=
  if optionBitLimit ≤ u.optionBits then
    [.error .variantSpaceTooLarge
      ("options need " ++ toString u.optionBits ++ " bits, at most " ++
        toString (optionBitLimit - 1) ++ " are supported")]
  else
    []

/-- An option has no named values or several, and a name that no option in `earlier`
has. -/
def diagnoseOption (earlier : List OptionDeclaration) (o : OptionDeclaration) :
    List Diagnostic :=
  (if o.namedValues.length = 1 then
    [{ Diagnostic.error .tooFewOptionValues
        ("option `" ++ o.name ++ "` needs at least two values") with span := o.span }]
  else []) ++
  match earlier.find? (·.name = o.name) with
  | some first =>
    [{ Diagnostic.error .duplicateOptionName
        ("option `" ++ o.name ++ "` is declared more than once") with
        span := o.span, related := first.span }]
  | none => []

/-- Checks options one after the other. -/
def diagnoseOptions (earlier : List OptionDeclaration) :
    List OptionDeclaration → List Diagnostic
  | [] => []
  | o :: rest => diagnoseOption earlier o ++ diagnoseOptions (earlier ++ [o]) rest

/-- A named value with its position in its option. -/
structure NamedValue where
  value : String
  index : Nat
  owner : OptionDeclaration
  deriving DecidableEq, Repr

/-- The named values of all options. -/
def namedValues (options : List OptionDeclaration) : List NamedValue :=
  options.flatMap fun o => o.namedValues.zipIdx.map fun (value, index) =>
    { value, index, owner := o }

/-- A named value is not the name of an option and has the same position wherever it
occurs. -/
def diagnoseValue (options : List OptionDeclaration) (earlier : List NamedValue)
    (v : NamedValue) : List Diagnostic :=
  (match options.find? (·.name = v.value) with
  | some other =>
    [{ Diagnostic.error .optionNameIsValue
        ("value `" ++ v.value ++ "` of option `" ++ v.owner.name ++
          "` is also the name of an option") with
        span := v.owner.span, related := other.span }]
  | none => []) ++
  match earlier.find? (·.value = v.value) with
  | some first =>
    if first.index = v.index then []
    else
      [{ Diagnostic.error .duplicateNamedValue
          ("value `" ++ v.value ++ "` is " ++ toString first.index ++ " in option `" ++
            first.owner.name ++ "` but " ++ toString v.index ++ " in option `" ++
            v.owner.name ++ "`") with
          span := v.owner.span, related := first.owner.span }]
  | none => []

/-- Checks named values one after the other. -/
def diagnoseValues (options : List OptionDeclaration) (earlier : List NamedValue) :
    List NamedValue → List Diagnostic
  | [] => []
  | v :: rest => diagnoseValue options earlier v ++ diagnoseValues options (earlier ++ [v]) rest

/-! ### Conditions -/

/-- Whether the value of an expression depends on an option.  Every part of an expression
with a value has a value itself, so it is enough to look at the names. -/
def dependsOnOption (options : List ShaderOption) (e : Expr) : Bool :=
  (e.nodes.filterMap Expr.name?).any (isOptionName options)

/-- A condition has a value that is known from options alone, and should depend on one. -/
def diagnoseCondition (options : List ShaderOption) (c : Condition) : List Diagnostic :=
  match c.expr.holds? (Valuation.filtered options Valuation.none) with
  | none =>
    [{ Diagnostic.error .conditionNotEvaluable
        "condition can only use options, their values and logical operators" with
        span := c.span }]
  | some value =>
    if dependsOnOption options c.expr then []
    else
      [{ severity := .warning, code := .conditionIsConstant
         message := "condition does not depend on any option and is always " ++
          (if value then "true" else "false")
         span := c.span }]

/-! ### Instancing -/

/-- Instances blocks need the instancing option, which must be a flag. -/
def diagnoseInstancing (u : ShaderUnit) : List Diagnostic :=
  match u.option? instancingOption with
  | some o =>
    if o.isFlag then []
    else
      [{ Diagnostic.error .specialOptionWithValues
          ("option `" ++ instancingOption ++ "` must be boolean") with span := o.span }]
  | none =>
    match u.storageBlocks.find? fun (_, b) => b.kind = .instances with
    | some (_, b) =>
      [{ Diagnostic.error .instancesBlockWithoutOption
          ("instances blocks need a boolean `" ++ instancingOption ++ "` option") with
          span := b.span }]
    | none => []

/-! ### The whole source -/

/-- All checks of a source. -/
def diagnose (u : ShaderUnit) : List Diagnostic :=
  let options := u.options
  u.diagnoseSpace ++ diagnoseOptions [] u.declaredOptions ++
    diagnoseValues u.declaredOptions [] (namedValues u.declaredOptions) ++
    u.conditions.flatMap (diagnoseCondition options) ++ u.diagnoseInstancing

/-- The names that the blocks of some kinds give, each once. -/
def namesOf (u : ShaderUnit) (names : StorageBlock → List String) : List String :=
  (u.storageBlocks.flatMap fun (_, b) => names b).eraseDups

/-- The names of the declarations of a block, if it is of a kind. -/
def declaredNames (kind : StorageKind) (b : StorageBlock) : List String :=
  if b.kind = kind then b.declarations.map (·.name) else []

/-- The names by which the resources of a block can be bound. -/
def bindingNames (b : StorageBlock) : List String :=
  declaredNames .uniform b ++ if b.kind = .instances then [b.publicName] else []

/-- What a container says about the shader, given the checksum of its source. -/
def describe (u : ShaderUnit) (sourceHash : UInt32) : ShaderInfo where
  sourceHash := sourceHash
  invarianceMask := ShaderVariants.invarianceMask u.options
  options := u.declaredOptions.map (·.toOptionInfo)
  vertexAttributes := u.namesOf (declaredNames .attributes)
  instanceAttributes := u.namesOf (declaredNames .instances)
  bindings := u.namesOf bindingNames

end ShaderUnit

/-! ### Analyzed sources -/

/-- A shader source with the results of its analysis. -/
structure AnalyzedShader where
  name : String
  source : String
  /-- The source with the options marked that never change a program. -/
  unit : ShaderUnit
  info : ShaderInfo
  diagnostics : List Diagnostic
  deriving Repr

/-- Analyzes a source that was read from the text `source`. -/
def analyze (name source : String) (unit : ShaderUnit) : AnalyzedShader :=
  let marked := unit.markInvariant
  { name, source, unit := marked
    info := marked.describe (sourceChecksum source)
    diagnostics := unit.diagnose.map fun d => { d with file := name } }

namespace AnalyzedShader

/-- Whether variants can be compiled. -/
def isSound (s : AnalyzedShader) : Bool := !hasFailure s.diagnostics

/-- The option words of all variants. -/
def allVariants (s : AnalyzedShader) : VariantSpace := .ofOptions s.unit.options .all 0

/-- One option word for each pair of programs. -/
def programVariants (s : AnalyzedShader) : VariantSpace := .ofOptions s.unit.options .program 0

/-- The option words of all variants with the same programs as `w`. -/
def invariantsFor (s : AnalyzedShader) (w : OptionWord) : VariantSpace :=
  .ofOptions s.unit.options .invariant (w.clear s.info.invarianceMask)

end AnalyzedShader

end ShaderVariants
