import ShaderVariants.Options.Declared
import ShaderVariants.Pipeline.Override
import ShaderVariants.Syntax.Statement

/-!
# Shader sources

A shader source declares options and is made of blocks: storage for data that enter and
leave its stages, the stages themselves, pipeline state, and functions that all stages
share.  A block with a condition takes part only in the variants where it holds.

## Main definitions

* `StorageBlock`, `StageBlock`, `PipelineBlock`, `Block` — the blocks.
* `ShaderUnit` — a whole source, and its blocks of each kind.
* `DeclarationId` — the place of a declaration among all storage blocks.
* `StorageBlock.nodes`, `StageBlock.nodes` — all expressions in a block.
-/

namespace ShaderVariants

/-! ### Blocks -/

/-- A programmable stage. -/
inductive ShaderStage where
  | vertex
  | fragment
  deriving DecidableEq, Repr

/-- The name of a stage. -/
def ShaderStage.name : ShaderStage → String
  | .vertex => "vertex"
  | .fragment => "fragment"

instance : Named ShaderStage where
  all := [.vertex, .fragment]
  name := ShaderStage.name
  mem_all a := by cases a <;> decide

/-- What the data of a storage block are. -/
inductive StorageKind where
  /-- One value for each vertex. -/
  | attributes
  /-- One value for each instance. -/
  | instances
  /-- The same value for a whole draw call. -/
  | uniform
  /-- Values that the vertex stage hands on to the fragment stage. -/
  | varying
  deriving DecidableEq, Repr

/-- The word that begins a block of this kind. -/
def StorageKind.keyword : StorageKind → String
  | .attributes => "attributes"
  | .instances => "instances"
  | .uniform => "uniform"
  | .varying => "varying"

instance : Named StorageKind where
  all := [.attributes, .instances, .uniform, .varying]
  name := StorageKind.keyword
  mem_all a := by cases a <;> decide

/-- The place of a declaration: the number of its block and its number there. -/
structure DeclarationId where
  block : Nat
  index : Nat
  deriving DecidableEq, Repr

/-- Data that enter or leave the stages. -/
structure StorageBlock where
  kind : StorageKind
  name : Option String := none
  condition : Option Condition := none
  declarations : List Declaration := []
  span : Span := {}
  deriving Repr

namespace StorageBlock

/-- The name of a block that has no other. -/
def placeName (b : StorageBlock) : String :=
  "block_" ++ toString (b.span.line + 1) ++ "_" ++ toString (b.span.column + 1)

/-- The name of the block in generated code. -/
def codeName (b : StorageBlock) : String := b.name.getD b.placeName

/-- The name of the block for a caller.  A single declaration lends its name to a block
without one. -/
def publicName (b : StorageBlock) : String :=
  match b.name, b.declarations with
  | some name, _ => name
  | none, [d] => d.name
  | none, _ => b.placeName

/-- The declarations with their places; the block has number `block`. -/
def members (b : StorageBlock) (block : Nat) : List (DeclarationId × Declaration) :=
  b.declarations.zipIdx.map fun (d, index) => ({ block, index }, d)

/-- All expressions in the block, the condition first. -/
def nodes (b : StorageBlock) : List Expr :=
  (b.condition.map (·.expr.nodes)).getD [] ++ b.declarations.flatMap Declaration.nodes

end StorageBlock

/-- The code of one stage. -/
structure StageBlock where
  stage : ShaderStage
  condition : Option Condition := none
  functions : List Function := []
  /-- The body of the entry function. -/
  body : List Statement := []
  span : Span := {}
  deriving Repr

/-- All expressions in the block, the condition first. -/
def StageBlock.nodes (b : StageBlock) : List Expr :=
  (b.condition.map (·.expr.nodes)).getD [] ++ b.functions.flatMap Function.nodes ++
    Statement.allNodes b.body

/-- Changes to the pipeline state. -/
structure PipelineBlock where
  condition : Option Condition := none
  changes : PipelineOverride
  deriving Repr

/-- A part of a shader source. -/
inductive Block where
  | storage (block : StorageBlock)
  | stage (block : StageBlock)
  | pipeline (block : PipelineBlock)
  /-- A function that all stages share. -/
  | function (function : Function)
  deriving Repr

namespace Block

/-- The storage block, if it is one. -/
def storage? : Block → Option StorageBlock
  | .storage b => some b
  | _ => none

/-- The stage block, if it is one. -/
def stage? : Block → Option StageBlock
  | .stage b => some b
  | _ => none

/-- The pipeline block, if it is one. -/
def pipeline? : Block → Option PipelineBlock
  | .pipeline b => some b
  | _ => none

/-- The function, if it is one. -/
def function? : Block → Option Function
  | .function f => some f
  | _ => none

/-- The condition of the block, if it has one. -/
def condition? : Block → Option Condition
  | .storage b => b.condition
  | .stage b => b.condition
  | .pipeline b => b.condition
  | .function _ => none

end Block

/-! ### Whole sources -/

/-- A shader source. -/
structure ShaderUnit where
  declaredOptions : List OptionDeclaration := []
  blocks : List Block := []
  deriving Repr

namespace ShaderUnit

/-- The options with their fields. -/
def options (u : ShaderUnit) : List ShaderOption := OptionDeclaration.pack u.declaredOptions

/-- The bits of the fields of all options. -/
def optionBits (u : ShaderUnit) : Nat := OptionDeclaration.totalBits u.declaredOptions

/-- The option with a name; of several, the first. -/
def option? (u : ShaderUnit) (name : String) : Option ShaderOption :=
  u.options.find? (·.name = name)

/-- The storage blocks with their numbers among all blocks. -/
def storageBlocks (u : ShaderUnit) : List (Nat × StorageBlock) :=
  u.blocks.zipIdx.filterMap fun (b, i) => b.storage?.map (i, ·)

/-- The stage blocks. -/
def stageBlocks (u : ShaderUnit) : List StageBlock := u.blocks.filterMap Block.stage?

/-- The pipeline blocks. -/
def pipelineBlocks (u : ShaderUnit) : List PipelineBlock := u.blocks.filterMap Block.pipeline?

/-- The functions that all stages share. -/
def functions (u : ShaderUnit) : List Function := u.blocks.filterMap Block.function?

/-- The conditions of all blocks. -/
def conditions (u : ShaderUnit) : List Condition := u.blocks.filterMap Block.condition?

/-- The declarations of the block with a number; none if it is not a storage block. -/
def membersOf (u : ShaderUnit) (block : Nat) : List (DeclarationId × Declaration) :=
  match u.blocks[block]?.bind Block.storage? with
  | some b => b.members block
  | none => []

/-- The declaration at a place. -/
def declaration? (u : ShaderUnit) (id : DeclarationId) : Option Declaration :=
  (u.blocks[id.block]?.bind Block.storage?).bind (·.declarations[id.index]?)

/-- Whether there is a storage block of a kind. -/
def hasStorage (u : ShaderUnit) (kind : StorageKind) : Bool :=
  u.storageBlocks.any fun (_, b) => b.kind = kind

end ShaderUnit

end ShaderVariants
