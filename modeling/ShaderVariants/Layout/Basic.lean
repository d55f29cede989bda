import ShaderVariants.Binding
import ShaderVariants.Syntax.Unit

/-!
# Layouts

A layout says where the data of one variant are: the locations of vertex attributes and
of the values handed on from stage to stage, and the slots of resources.

## Main definitions

* `Layout` — the places of all declarations that have one.
* `Placement`, `Layout.placement` — all that a layout says of one declaration.
* `isInstanced` — whether instance data are vertex attributes.
-/

namespace ShaderVariants

/-- What stands in front of the name of an instance variable where the vertex stage hands
it on. -/
def instanceOutputStem : String := "instance_"

/-- Whether the instancing option is set. -/
def isInstanced (v : Valuation) : Bool := (v instancingOption).any (· != 0)

/-- The place of a resource. -/
structure ResourceSlot where
  set : Nat
  slot : Nat
  deriving DecidableEq, Repr

/-- What a layout says of a declaration. -/
structure Placement where
  inLocation : Option Nat := none
  outLocation : Option Nat := none
  slot : Option ResourceSlot := none
  deriving DecidableEq, Repr

/-- The places of all declarations that have one. -/
structure Layout where
  /-- Inputs of the vertex stage, in order of their locations. -/
  attributes : List (DeclarationId × VertexAttribute) := []
  /-- Resources; the numbers of one block share a slot. -/
  slots : List (DeclarationId × ResourceSlot) := []
  /-- What is bound to each slot, in order of the slots. -/
  bindings : List Binding := []
  /-- The number of slots of each set. -/
  setSizes : List Nat := []
  /-- Locations of the values that the vertex stage hands on. -/
  varyings : List (DeclarationId × Nat) := []
  /-- Locations of the instance variables that the vertex stage hands on. -/
  transferred : List (DeclarationId × Nat) := []
  deriving DecidableEq, Repr

namespace Layout

/-- All that the layout says of a declaration. -/
def placement (l : Layout) (id : DeclarationId) : Placement where
  inLocation := ((l.attributes.lookup id).map (·.location)) <|> l.varyings.lookup id
  outLocation := l.varyings.lookup id <|> l.transferred.lookup id
  slot := l.slots.lookup id

/-- Whether the vertex stage hands an instance variable on. -/
def isTransferred (l : Layout) (id : DeclarationId) : Bool := (l.transferred.lookup id).isSome

/-- The declarations that have a place. -/
def placed (l : Layout) : List DeclarationId :=
  (l.attributes.map (·.1) ++ l.slots.map (·.1) ++ l.varyings.map (·.1) ++
    l.transferred.map (·.1)).eraseDups

end Layout

end ShaderVariants
