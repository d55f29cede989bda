import ShaderVariants.Glsl.Statement
import ShaderVariants.Layout.Basic

/-!
# Generated code of a stage

The code of a stage consists of its interface, as far as it is active, the functions of
the source and of the stage, and the entry function.  The vertex stage begins by handing
on the instance variables that the fragment stage reads.

## Main definitions

* `StageInput` — all that the code of a stage depends on.
* `StageInput.text` — the code.
* `StageInput.faults` — why there cannot be any.
* `Rendered`, `render` — the code, unless there are faults.
-/

namespace ShaderVariants

/-- All that the code of a stage depends on. -/
structure StageInput where
  unit : ShaderUnit
  stage : StageBlock
  layout : Layout
  pipeline : PipelineState
  values : Valuation

namespace StageInput

/-! ### Interface variables -/

/-- A variable with a location. -/
def locatedText (location : Nat) (qualifier : String) (d : Declaration) : String :=
  "layout(location = " ++ toString location ++ ") " ++ qualifier ++ " " ++ d.declarator ++ ";\n"

/-- The declarations of a block that have a location. -/
def locatedMembers (i : StageInput) (block : Nat) (b : StorageBlock) :
    List (Nat × Declaration) :=
  (b.members block).filterMap fun (id, d) => (i.layout.placement id).inLocation.map (·, d)

/-- The variables of a block that have a location. -/
def locatedBlock (i : StageInput) (block : Nat) (b : StorageBlock) (qualifier : String) :
    String :=
  String.join ((i.locatedMembers block b).map fun (l, d) => locatedText l qualifier d) ++ "\n"

/-- The instance variables of a block that are handed on. -/
def transferredMembers (i : StageInput) (block : Nat) (b : StorageBlock) :
    List (Nat × Declaration) :=
  (b.members block).filterMap fun (id, d) =>
    if i.layout.isTransferred id then (i.layout.placement id).outLocation.map (·, d) else none

/-- The instance variables of a block that are handed on, with something in front of
their names. -/
def transferredBlock (i : StageInput) (block : Nat) (b : StorageBlock)
    (qualifier stem : String) : String :=
  String.join ((i.transferredMembers block b).map fun (l, d) =>
    locatedText l qualifier { d with name := stem ++ d.name }) ++ "\n"

/-! ### Resources -/

/-- The beginning of a resource with the given slot; `packing` comes first. -/
def slotText (packing : String) (s : ResourceSlot) : String :=
  "layout(" ++ packing ++ "set = " ++ toString s.set ++ ", binding = " ++ toString s.slot ++ ") "

/-- The declarations of a block that have a slot. -/
def slottedMembers (i : StageInput) (block : Nat) (b : StorageBlock) :
    List (ResourceSlot × Declaration) :=
  (b.members block).filterMap fun (id, d) => (i.layout.placement id).slot.map (·, d)

/-- A resource with a slot of its own. -/
def resourceText (s : ResourceSlot) (d : Declaration) : String :=
  match d.type with
  | .buffer content =>
    slotText "std430, " s ++ "buffer buffer_" ++ toString (d.span.line + 1) ++ "_" ++
      toString (d.span.column + 1) ++ " \x7b " ++ content.declarator d.name ++ "; \x7d;\n"
  | _ => slotText "" s ++ "uniform " ++ d.declarator ++ ";\n"

/-- The structure of the numbers of a block. -/
def structureText (b : StorageBlock) (members : List (ResourceSlot × Declaration)) : String :=
  match members with
  | [] => ""
  | (s, _) :: _ =>
    slotText "std430, " s ++ "uniform " ++ b.codeName ++ " \x7b\n" ++
      String.join (members.map fun (_, d) => indentation 1 ++ d.declarator ++ ";\n") ++ "\x7d;\n"

/-- The resources of a block: those with a slot of their own, then the structure. -/
def resourceBlock (i : StageInput) (block : Nat) (b : StorageBlock) : String :=
  let members := i.slottedMembers block b
  String.join ((members.filter (·.2.type.isResource)).map fun (s, d) => resourceText s d) ++
    structureText b (members.filter (!·.2.type.isResource)) ++ "\n"

/-- What is wrong with the types of resources. -/
def resourceFaults (members : List (ResourceSlot × Declaration)) : List Diagnostic :=
  (members.filter (·.2.type.isResource)).flatMap (·.2.type.typeFaults) ++
    (members.filter (!·.2.type.isResource)).flatMap (·.2.type.typeFaults)

/-! ### Storage blocks -/

/-- The active storage blocks. -/
def activeStorage (i : StageInput) : List (Nat × StorageBlock) :=
  i.unit.storageBlocks.filter fun (_, b) => conditionHolds? i.values b.condition = some true

/-- What a storage block contributes to the code. -/
def storageText (i : StageInput) (block : Nat) (b : StorageBlock) : String :=
  match b.kind, i.stage.stage with
  | .attributes, .vertex => i.locatedBlock block b "in"
  | .attributes, .fragment => ""
  | .varying, .vertex => i.locatedBlock block b "out"
  | .varying, .fragment => i.locatedBlock block b "in"
  | .uniform, _ => i.resourceBlock block b
  | .instances, stage =>
    if isInstanced i.values then
      match stage with
      | .vertex =>
        i.locatedBlock block b "in" ++ i.transferredBlock block b "flat out" instanceOutputStem
      | .fragment => i.transferredBlock block b "flat in" ""
    else
      i.resourceBlock block b

/-- What is wrong with the types of a storage block, in the order of its text. -/
def storageFaults (i : StageInput) (block : Nat) (b : StorageBlock) : List Diagnostic :=
  let located := (i.locatedMembers block b).flatMap (·.2.type.typeFaults)
  let transferred := (i.transferredMembers block b).flatMap (·.2.type.typeFaults)
  let resources := resourceFaults (i.slottedMembers block b)
  match b.kind, i.stage.stage with
  | .attributes, .vertex => located
  | .attributes, .fragment => []
  | .varying, _ => located
  | .uniform, _ => resources
  | .instances, stage =>
    if isInstanced i.values then
      match stage with
      | .vertex => located ++ transferred
      | .fragment => transferred
    else
      resources

/-! ### Color outputs -/

/-- A color output at a location. -/
def colorText (output : ColorOutput) (location : Nat) : String :=
  if output.format.isDepthOnly then ""
  else
    "layout(location = " ++ toString location ++ ") out " ++
      output.format.numericType.codeName ++ " " ++ output.name ++ ";\n"

/-- All color outputs. -/
def colorTexts (i : StageInput) : String :=
  match i.stage.stage with
  | .vertex => ""
  | .fragment =>
    String.join (i.pipeline.colorOutputs.zipIdx.map fun (o, l) => colorText o l) ++ "\n"

/-- A color output cannot have a depth format. -/
def colorFaults (i : StageInput) : List Diagnostic :=
  match i.stage.stage with
  | .vertex => []
  | .fragment =>
    (i.pipeline.colorOutputs.filter (·.format.isDepthOnly)).map fun o =>
      .error .invalidColorOutput
        ("color output `" ++ o.name ++ "` cannot use the depth format " ++ Named.name o.format)

/-! ### Code -/

/-- The functions of the source and those of the stage. -/
def functions (i : StageInput) : List Function := i.unit.functions ++ i.stage.functions

/-- Hands an instance variable on. -/
def transferText (i : StageInput) (id : DeclarationId) : String :=
  match i.unit.declaration? id with
  | some d => indentation 1 ++ instanceOutputStem ++ d.name ++ " = " ++ d.name ++ ";\n"
  | none => ""

/-- Hands all instance variables on that the fragment stage reads. -/
def transferTexts (i : StageInput) : String :=
  match i.stage.stage, i.layout.transferred with
  | .vertex, [] => ""
  | .vertex, ids => String.join (ids.map fun (id, _) => i.transferText id) ++ "\n"
  | .fragment, _ => ""

/-- The entry function. -/
def mainText (i : StageInput) : String :=
  "void main() \x7b\n" ++ i.transferTexts ++ Statement.allText i.values 1 i.stage.body ++ "\x7d\n"

/-- The language version and the extension that allows the packing of structures. -/
def prologue : String :=
  "#version 450\n#extension GL_EXT_scalar_block_layout : require\n\n"

/-- The code of the stage. -/
def text (i : StageInput) : String :=
  prologue ++ String.join (i.activeStorage.map fun (n, b) => i.storageText n b) ++
    i.colorTexts ++ String.join (i.functions.map (Function.text i.values)) ++ i.mainText

/-- Why the stage has no code. -/
def faults (i : StageInput) : List Diagnostic :=
  i.activeStorage.flatMap (fun (n, b) => i.storageFaults n b) ++ i.colorFaults ++
    i.functions.flatMap (Function.faults i.values) ++ Statement.allFaults i.values i.stage.body

end StageInput

/-- The code of a stage, or the reasons why there is none. -/
structure Rendered where
  source : Option String
  diagnostics : List Diagnostic := []
  deriving DecidableEq, Repr

/-- A way to generate code. -/
abbrev Renderer := StageInput → Rendered

/-- The code of a stage, unless something is wrong with it. -/
def render : Renderer := fun i =>
  let faults := i.faults
  { source := if hasFailure faults then none else some i.text, diagnostics := faults }

end ShaderVariants
