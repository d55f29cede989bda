import ShaderVariants.Binary.Word
import ShaderVariants.Image

/-!
# Resources and vertex data of a shader program

A program reads its resources through bindings, each in a slot of a descriptor set,
and its vertex data through attributes at numbered locations.

## Main definitions

* `StructureType` — a uniform structure; `StructureType.ofMembers?` places its members, and
  `StructureType.inWords` does so with words of 32 bits.
* `BindingType`, `Binding` — what is bound, and in which slot.
* `VertexAttribute` — an input of the vertex stage.
-/

namespace ShaderVariants

/-! ### Structures -/

/-- A member of a uniform structure, with its place in bytes. -/
structure StructureMember where
  name : String
  offset : Nat
  size : Nat
  type : NumericType
  deriving DecidableEq, Repr

/-- The numeric fields of a storage block, collected in one structure. -/
structure StructureType where
  members : List StructureMember
  totalSize : Nat
  deriving DecidableEq, Repr

/-- The least multiple of `alignment` that is not below `value`. -/
def alignUp (value alignment : Nat) : Nat :=
  (value + alignment - 1) / alignment * alignment

namespace StructureType

/-- Members in order from the byte `start` on, each at the next multiple of its
alignment. -/
def place : Nat → List (String × NumericType) → List StructureMember
  | _, [] => []
  | start, (name, type) :: rest =>
    let offset := alignUp start type.alignment
    { name, offset, size := type.size, type } :: place (offset + type.size) rest

/-- The byte after the last member, or `start` if there is none. -/
def endOfPlaced (start : Nat) (members : List StructureMember) : Nat :=
  match members.getLast? with
  | some m => m.offset + m.size
  | none => start

/-- The largest alignment of a member, at least one. -/
def maxAlignment (members : List (String × NumericType)) : Nat :=
  members.foldl (fun a m => max a m.2.alignment) 1

/-- Places the members one after the other and rounds the size up to the largest
alignment.  A member without rows has no alignment, so it has no place. -/
def ofMembers? (members : List (String × NumericType)) : Option StructureType :=
  if members.any fun m => m.2.alignment == 0 then
    none
  else
    let placed := place 0 members
    some { members := placed, totalSize := alignUp (endOfPlaced 0 placed) (maxAlignment members) }

/-- Members in order from the byte `start` on, with all places in words, and the byte behind
the last one. -/
def placeInWords (o : Overflow) : Nat → List (String × NumericType) →
    Except WordError (List StructureMember × Nat)
  | start, [] => .ok ([], start)
  | start, (name, type) :: rest =>
    if type.alignment = 0 then
      .error .divisionByZero
    else do
      let offset ← o.below Word.limit .productTooLarge (alignUp start type.alignment)
      let next ← o.below Word.limit .sumTooLarge (offset + type.size)
      let (placed, stop) ← placeInWords o next rest
      return ({ name, offset, size := type.size, type } :: placed, stop)

/-- The structure of the members, with all places and sizes in words.  Below 4 GiB it is the
one of `ofMembers?`, which has no limit. -/
def inWords (o : Overflow) (members : List (String × NumericType)) :
    Except WordError StructureType := do
  let (placed, stop) ← placeInWords o 0 members
  let totalSize ← o.below Word.limit .productTooLarge (alignUp stop (maxAlignment members))
  return { members := placed, totalSize }

end StructureType

/-! ### Bindings -/

/-- What is bound to a slot. -/
inductive BindingType where
  | struct (type : StructureType)
  | image (type : ImageType)
  | sampler
  /-- An array of elements without a fixed length. -/
  | buffer (element : NumericType)
  deriving DecidableEq, Repr

/-- The kinds of data that a stored shader refers to. -/
inductive DataCategory where
  | numeric
  | struct
  | image
  | sampler
  | buffer
  deriving DecidableEq, Repr

instance : Coded DataCategory where
  kind := "DataTypeCategory"
  all := [.numeric, .struct, .image, .sampler, .buffer]
  name
    | .numeric => "Numeric"
    | .struct => "Structure"
    | .image => "Image"
    | .sampler => "Sampler"
    | .buffer => "Buffer"
  mem_all a := by cases a <;> decide
  nodup_all := by decide
  length_all_le := by decide

/-- The category of a binding; plain numbers cannot be bound. -/
def BindingType.category : BindingType → DataCategory
  | .struct _ => .struct
  | .image _ => .image
  | .sampler => .sampler
  | .buffer _ => .buffer

/-- A resource in the slot `slot` of the descriptor set `set`. -/
structure Binding where
  set : Nat
  slot : Nat
  name : String
  perInstance : Bool
  type : BindingType
  deriving DecidableEq, Repr

/-- An input of the vertex stage; a matrix takes one location for each column. -/
structure VertexAttribute where
  location : Nat
  name : String
  type : NumericType
  perInstance : Bool
  deriving DecidableEq, Repr

end ShaderVariants
