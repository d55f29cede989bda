import ShaderVariants.Diagnostic
import ShaderVariants.Layout.Basic

/-!
# Assigning places

Places are assigned in the order of the source, to the blocks that are active for given
values of the options.

* Vertex attributes take one location for each column.  Instance data follow the other
  attributes if the variant is instanced; otherwise they are uniforms.
* Every image, sampler and buffer takes a slot of its own; all numbers of a block share
  one, which is claimed by the first of them.
* Values for the fragment stage take one location each.  The instance variables that the
  fragment stage reads follow them.

## Main definitions

* `ShaderUnit.activeBlocks` — the blocks that take part.
* `ShaderUnit.transferredDeclarations` — the instance variables the fragment stage reads.
* `ShaderUnit.placeAttributes`, `ShaderUnit.placeResources`, `ShaderUnit.placeVaryings` —
  the three passes.
* `ShaderUnit.assignLayout` — the whole layout.
-/

namespace ShaderVariants

namespace ShaderUnit

/-! ### Active blocks -/

/-- The storage blocks of some kinds: all of the first kind, then all of the next. -/
def blocksOf (u : ShaderUnit) (kinds : List StorageKind) : List (Nat × StorageBlock) :=
  kinds.flatMap fun kind => u.storageBlocks.filter fun (_, b) => b.kind = kind

theorem mem_blocksOf {u : ShaderUnit} {kinds : List StorageKind} {p : Nat × StorageBlock} :
    p ∈ u.blocksOf kinds ↔ p ∈ u.storageBlocks ∧ p.2.kind ∈ kinds := by
  simp only [blocksOf, List.mem_flatMap, List.mem_filter, decide_eq_true_eq]
  constructor
  · rintro ⟨kind, hkind, hp, rfl⟩
    exact ⟨hp, hkind⟩
  · rintro ⟨hp, hkind⟩
    exact ⟨p.2.kind, hkind, hp, rfl⟩

/-- The blocks of some kinds whose conditions hold. -/
def activeBlocks (u : ShaderUnit) (v : Valuation) (kinds : List StorageKind) :
    List (Nat × StorageBlock) :=
  (u.blocksOf kinds).filter fun (_, b) => conditionHolds? v b.condition = some true

/-- The declarations of the active blocks of some kinds. -/
def activeMembers (u : ShaderUnit) (v : Valuation) (kinds : List StorageKind) :
    List (DeclarationId × Declaration) :=
  (u.activeBlocks v kinds).flatMap fun (i, b) => b.members i

end ShaderUnit

/-- A condition that has no value for the present variant. -/
def undecidedCondition (v : Valuation) (condition : Option Condition) : List Diagnostic :=
  match condition, conditionHolds? v condition with
  | some c, none =>
    [{ Diagnostic.fault "block condition is not evaluable for this variant" with span := c.span }]
  | _, _ => []

namespace ShaderUnit

/-- The conditions of blocks of some kinds that have no value. -/
def undecidedBlocks (u : ShaderUnit) (v : Valuation) (kinds : List StorageKind) :
    List Diagnostic :=
  (u.blocksOf kinds).flatMap fun (_, b) => undecidedCondition v b.condition

/-! ### Instance variables for the fragment stage -/

/-- The first declaration of each name. -/
def firstOfName (seen : List (DeclarationId × Declaration)) :
    List (DeclarationId × Declaration) → List (DeclarationId × Declaration)
  | [] => seen
  | d :: rest =>
    if seen.any (·.2.name == d.2.name) then firstOfName seen rest
    else firstOfName (seen ++ [d]) rest

/-- Instance variables are told apart by name. -/
def diagnoseInstanceNames (seen : List (DeclarationId × Declaration)) :
    List (DeclarationId × Declaration) → List Diagnostic
  | [] => []
  | d :: rest =>
    match seen.find? (·.2.name = d.2.name) with
    | some first =>
      { Diagnostic.error .duplicateInstanceVariable
          ("instance variable `" ++ d.2.name ++ "` is declared more than once") with
          span := d.2.span, related := first.2.span } :: diagnoseInstanceNames seen rest
    | none => diagnoseInstanceNames (seen ++ [d]) rest

/-- The names that occur in the code of the fragment stage. -/
def fragmentNames (u : ShaderUnit) (fragment : StageBlock) : List String :=
  (u.functions.flatMap Function.nodes ++ fragment.nodes).filterMap Expr.name?

/-- The instance variables that the fragment stage reads, in order of their
declarations. -/
def transferredDeclarations (u : ShaderUnit) (v : Valuation) (fragment : StageBlock) :
    List DeclarationId :=
  if isInstanced v then
    let names := u.fragmentNames fragment
    ((firstOfName [] (u.activeMembers v [.instances])).filter fun d =>
      names.contains d.2.name).map (·.1)
  else
    []

/-- What is wrong with the instance variables. -/
def diagnoseTransferred (u : ShaderUnit) (v : Valuation) : List Diagnostic :=
  if isInstanced v then
    u.undecidedBlocks v [.instances] ++
      diagnoseInstanceNames [] (u.activeMembers v [.instances])
  else
    []

/-! ### Vertex attributes -/

/-- The kinds of blocks that hold vertex attributes. -/
def attributeKinds (v : Valuation) : List StorageKind :=
  if isInstanced v then [.attributes, .instances] else [.attributes]

/-- The numeric declarations of the active attribute blocks, with a flag for instance
data. -/
def attributeMembers (u : ShaderUnit) (v : Valuation) :
    List (DeclarationId × Declaration × Bool) :=
  (u.activeBlocks v (attributeKinds v)).flatMap fun (i, b) =>
    (b.members i).map fun (id, d) => (id, d, b.kind == .instances)

/-- Gives numeric declarations their locations, from `location` on; others have none. -/
def locate : (location : Nat) → List (DeclarationId × Declaration × Bool) →
    List (DeclarationId × VertexAttribute)
  | _, [] => []
  | location, (id, d, perInstance) :: rest =>
    match d.type.numeric? with
    | some type =>
      (id, { location, name := d.name, type, perInstance }) ::
        locate (location + type.columns.toNat) rest
    | none => locate location rest

/-- The vertex attributes. -/
def placeAttributes (u : ShaderUnit) (v : Valuation) :
    List (DeclarationId × VertexAttribute) :=
  locate 0 (u.attributeMembers v)

/-- A vertex attribute must be a number, vector or matrix. -/
def diagnoseAttribute (d : Declaration) : List Diagnostic :=
  match d.type.numeric? with
  | some _ => []
  | none =>
    [{ Diagnostic.error .nonNumericVertexAttribute
        ("vertex attribute `" ++ d.name ++ "` must have a numeric type") with span := d.span }]

/-- What is wrong with the vertex attributes. -/
def diagnoseAttributes (u : ShaderUnit) (v : Valuation) : List Diagnostic :=
  u.undecidedBlocks v (attributeKinds v) ++
    (u.attributeMembers v).flatMap fun (_, d, _) => diagnoseAttribute d

/-! ### Resources -/

/-- The kinds of blocks that hold resources. -/
def resourceKinds (v : Valuation) : List StorageKind :=
  if isInstanced v then [.uniform] else [.uniform, .instances]

end ShaderUnit

/-- The slots taken by a block, while its declarations are gone through. -/
structure BlockSlots where
  /-- The next free slot. -/
  next : Nat
  /-- The slot that the numbers of the block share, once one has claimed it. -/
  shared : Option Nat := none
  slots : List (DeclarationId × Nat) := []
  deriving DecidableEq, Repr

namespace BlockSlots

/-- Takes a slot for a declaration, if it needs one. -/
def add (s : BlockSlots) (member : DeclarationId × Declaration) : BlockSlots :=
  let (id, d) := member
  if d.type.isResource then
    { s with next := s.next + 1, slots := s.slots ++ [(id, s.next)] }
  else if d.type.numeric?.isSome then
    match s.shared with
    | some slot => { s with slots := s.slots ++ [(id, slot)] }
    | none => { next := s.next + 1, shared := some s.next, slots := s.slots ++ [(id, s.next)] }
  else
    s

/-- Takes slots for the declarations of a block, from `next` on. -/
def ofMembers (next : Nat) (members : List (DeclarationId × Declaration)) : BlockSlots :=
  members.foldl add { next }

end BlockSlots

/-- What a variable that takes a slot of its own binds. -/
def DataType.binding? : DataType → Option BindingType
  | .image type => some (.image type)
  | .sampler => some .sampler
  | .buffer content => (DataType.buffer content).bufferElement?.map .buffer
  | _ => none

namespace StorageBlock

/-- The numbers of a block, which form a structure. -/
def numericMembers (b : StorageBlock) : List (String × NumericType) :=
  b.declarations.filterMap fun d => d.type.numeric?.map (d.name, ·)

/-- The bindings of the images, samplers and buffers of block number `i`. -/
def ownBindings (b : StorageBlock) (i : Nat) (slots : BlockSlots) : List Binding :=
  (b.members i).filterMap fun (id, d) => do
    let type ← d.type.binding?
    let slot ← slots.slots.lookup id
    return { set := 0, slot, name := d.name, perInstance := false, type }

/-- The binding of the structure of the block, if it has one. -/
def structureBinding (b : StorageBlock) (slot : Nat) (type : StructureType) : Binding :=
  { set := 0, slot, name := b.publicName, perInstance := b.kind == .instances
    type := .struct type }

/-- All bindings of block number `i`, or nothing if a member of its structure has no
alignment. -/
def bindings? (b : StorageBlock) (i : Nat) (slots : BlockSlots) : Option (List Binding) :=
  match slots.shared with
  | none => some (b.ownBindings i slots)
  | some slot =>
    (StructureType.ofMembers? b.numericMembers).map fun s =>
      b.ownBindings i slots ++ [b.structureBinding slot s]

/-- What is wrong with a declaration of a resource block. -/
def diagnoseResource (d : Declaration) : List Diagnostic :=
  if d.type.isResource then
    if d.type.binding?.isSome then []
    else
      [{ Diagnostic.error .unsupportedBufferType
          ("buffer `" ++ d.name ++ "` must hold an array of a numeric type") with
          span := d.span }]
  else if d.type.numeric?.isSome then []
  else
    [{ Diagnostic.error .nonNumericNorBindingUniform
        ("uniform `" ++ d.name ++ "` must have a numeric, image, sampler or buffer type") with
        span := d.span }]

end StorageBlock

/-- The resources of a variant. -/
structure Resources where
  slots : List (DeclarationId × ResourceSlot) := []
  /-- In the order in which they were found. -/
  bindings : List Binding := []
  /-- The next free slot. -/
  next : Nat := 0
  diagnostics : List Diagnostic := []
  /-- Whether a structure has a member without alignment, which ends the search. -/
  broken : Bool := false
  deriving DecidableEq, Repr

namespace Resources

/-- Goes through the blocks one after the other, from slot `next` on. -/
def ofBlocks : (next : Nat) → List (Nat × StorageBlock) → Resources
  | next, [] => { next }
  | next, (i, b) :: rest =>
    let taken := BlockSlots.ofMembers next (b.members i)
    let diagnostics := b.declarations.flatMap StorageBlock.diagnoseResource
    match b.bindings? i taken with
    | none => { diagnostics, broken := true }
    | some bindings =>
      let later := ofBlocks taken.next rest
      { later with
        slots := taken.slots.map (fun (id, slot) => (id, { set := 0, slot })) ++ later.slots
        bindings := bindings ++ later.bindings
        diagnostics := diagnostics ++ later.diagnostics }

end Resources

namespace ShaderUnit

/-- The resources of a variant. -/
def placeResources (u : ShaderUnit) (v : Valuation) : Resources :=
  .ofBlocks 0 (u.activeBlocks v (resourceKinds v))

/-! ### Values handed on -/

/-- Numbers declarations from `location` on. -/
def number (location : Nat) (ids : List DeclarationId) : List (DeclarationId × Nat) :=
  ids.zipIdx location

/-- The values that the vertex stage hands on. -/
def placeVaryings (u : ShaderUnit) (v : Valuation) : List (DeclarationId × Nat) :=
  number 0 ((u.activeMembers v [.varying]).map (·.1))

/-! ### The whole layout -/

/-- The diagnostics of a layout and, unless a structure is broken, the layout itself. -/
structure LayoutResult where
  layout : Option Layout
  diagnostics : List Diagnostic
  deriving DecidableEq, Repr

/-- The layout of a variant with the given fragment stage. -/
def assignLayout (u : ShaderUnit) (v : Valuation) (fragment : StageBlock) : LayoutResult :=
  let resources := u.placeResources v
  let varyings := u.placeVaryings v
  let early := u.diagnoseTransferred v ++ u.diagnoseAttributes v ++
    u.undecidedBlocks v (resourceKinds v) ++ resources.diagnostics
  if resources.broken then
    { layout := none, diagnostics := early }
  else
    { layout := some {
        attributes := u.placeAttributes v
        slots := resources.slots
        bindings := resources.bindings.mergeSort fun a b =>
          a.set < b.set || (a.set == b.set && a.slot ≤ b.slot)
        setSizes := [resources.next]
        varyings
        transferred := number varyings.length (u.transferredDeclarations v fragment) }
      diagnostics := early ++ u.undecidedBlocks v [.varying] }

end ShaderUnit

end ShaderVariants
