import Mathlib
import ShaderVariants.Analysis.Invariance
import ShaderVariants.Layout.Assign
import ShaderVariants.Proofs.Options.Valuation

/-!
# Layouts of indistinguishable variants

A layout sees the values of options in two ways: through the conditions of storage
blocks, and through the instancing option, which it never names.  Where no instances
block is declared the instancing option decides nothing, since every group of blocks it
moves around is empty.

## Main definitions

* `ShaderUnit.Indistinguishable` — two valuations look alike to all code that ends up in a
  program.

## Main results

* `ShaderUnit.Indistinguishable.blocksOf_attributeKinds`, `blocksOf_resourceKinds` — the
  groups of blocks do not depend on the variant.
* `ShaderUnit.Indistinguishable.assignLayout_eq` — **the layouts are equal**, diagnostics
  included.
-/

namespace ShaderVariants

namespace ShaderUnit

/-- The two valuations look alike to all code that ends up in a program: they agree on
the names in it and, if there are instances blocks, on whether the variant is
instanced. -/
structure Indistinguishable (u : ShaderUnit) (v v' : Valuation) : Prop where
  names : Valuation.AgreeOn (u.blocks.flatMap Block.programNodes) v v'
  instancing : u.hasStorage .instances = true → isInstanced v = isInstanced v'

/-! ### Blocks of a source -/

theorem storage_mem_blocks {u : ShaderUnit} {i : ℕ} {b : StorageBlock}
    (h : (i, b) ∈ u.storageBlocks) : Block.storage b ∈ u.blocks := by
  obtain ⟨⟨block, j⟩, hmem, hb⟩ := List.mem_filterMap.mp h
  cases block with
  | storage b' =>
    obtain ⟨-, rfl⟩ : j = i ∧ b' = b := by simpa [Block.storage?] using hb
    exact (List.mem_zipIdx hmem).2.2 ▸ List.getElem_mem _
  | stage b' => simp [Block.storage?] at hb
  | pipeline b' => simp [Block.storage?] at hb
  | function f => simp [Block.storage?] at hb

/-- Without instances blocks, nothing is lost by leaving out their kind. -/
theorem filter_instances_eq_nil {u : ShaderUnit} (h : u.hasStorage .instances = false) :
    (u.storageBlocks.filter fun (_, b) => b.kind = .instances) = [] := by
  rw [List.filter_eq_nil_iff]
  intro p hp
  simpa using List.any_eq_false.mp h p hp

namespace Indistinguishable

variable {u : ShaderUnit} {v v' : Valuation} (h : u.Indistinguishable v v')

include h

/-! ### Conditions -/

theorem agreeOn_storage {i : ℕ} {b : StorageBlock} (hb : (i, b) ∈ u.storageBlocks) :
    Valuation.AgreeOn b.nodes v v' :=
  h.names.of_mem_flatMap (storage_mem_blocks hb)

theorem condition_eq {i : ℕ} {b : StorageBlock} (hb : (i, b) ∈ u.storageBlocks) :
    conditionHolds? v b.condition = conditionHolds? v' b.condition :=
  conditionHolds?_congr (Valuation.agreeOn_append.mp (h.agreeOn_storage hb)).1

/-- Only instances blocks can tell instanced variants from others. -/
theorem isInstanced_eq {i : ℕ} {b : StorageBlock} (hb : (i, b) ∈ u.storageBlocks)
    (hkind : b.kind = .instances) : isInstanced v = isInstanced v' := by
  refine h.instancing (List.any_eq_true.mpr ⟨(i, b), hb, ?_⟩)
  simpa using hkind

/-! ### Groups of blocks -/

theorem blocksOf_attributeKinds :
    u.blocksOf (attributeKinds v) = u.blocksOf (attributeKinds v') := by
  cases hinst : u.hasStorage .instances with
  | true => rw [attributeKinds, attributeKinds, h.instancing hinst]
  | false =>
    unfold attributeKinds
    cases isInstanced v <;> cases isInstanced v' <;>
      simp [blocksOf, filter_instances_eq_nil hinst]

theorem blocksOf_resourceKinds :
    u.blocksOf (resourceKinds v) = u.blocksOf (resourceKinds v') := by
  cases hinst : u.hasStorage .instances with
  | true => rw [resourceKinds, resourceKinds, h.instancing hinst]
  | false =>
    unfold resourceKinds
    cases isInstanced v <;> cases isInstanced v' <;>
      simp [blocksOf, filter_instances_eq_nil hinst]

theorem activeBlocks_eq {kinds kinds' : List StorageKind}
    (hk : u.blocksOf kinds = u.blocksOf kinds') :
    u.activeBlocks v kinds = u.activeBlocks v' kinds' := by
  rw [activeBlocks, activeBlocks, ← hk]
  apply List.filter_congr
  rintro ⟨i, b⟩ hb
  simp only [h.condition_eq (mem_blocksOf.mp hb).1]

theorem activeMembers_eq {kinds kinds' : List StorageKind}
    (hk : u.blocksOf kinds = u.blocksOf kinds') :
    u.activeMembers v kinds = u.activeMembers v' kinds' := by
  rw [activeMembers, activeMembers, h.activeBlocks_eq hk]

theorem undecidedBlocks_eq {kinds kinds' : List StorageKind}
    (hk : u.blocksOf kinds = u.blocksOf kinds') :
    u.undecidedBlocks v kinds = u.undecidedBlocks v' kinds' := by
  rw [undecidedBlocks, undecidedBlocks, ← hk]
  apply List.flatMap_congr
  rintro ⟨i, b⟩ hb
  simp only [undecidedCondition, h.condition_eq (mem_blocksOf.mp hb).1]

/-! ### Instance variables -/

/-- Anything that is made of instances blocks in instanced variants only. -/
theorem ite_isInstanced_eq {α : Type*} {f : Valuation → List α}
    (hf : f v = f v') (hnil : u.hasStorage .instances = false → f v = []) :
    (if isInstanced v then f v else []) = if isInstanced v' then f v' else [] := by
  -- either instancing is seen alike, or there is nothing to be left out
  cases hinst : u.hasStorage .instances with
  | true => rw [h.instancing hinst, hf]
  | false => rw [← hf, hnil hinst, ite_self, ite_self]

omit h in
theorem blocksOf_instances_eq_nil (hinst : u.hasStorage .instances = false) :
    u.blocksOf [.instances] = [] := by
  simp [blocksOf, filter_instances_eq_nil hinst]

theorem transferredDeclarations_eq (fragment : StageBlock) :
    u.transferredDeclarations v fragment = u.transferredDeclarations v' fragment := by
  refine h.ite_isInstanced_eq (f := fun v =>
    ((firstOfName [] (u.activeMembers v [.instances])).filter fun d =>
      (u.fragmentNames fragment).contains d.2.name).map (·.1)) ?_ ?_
  · simp only [h.activeMembers_eq (rfl : u.blocksOf [.instances] = _)]
  · intro hinst
    simp [activeMembers, activeBlocks, blocksOf_instances_eq_nil hinst, firstOfName]

theorem diagnoseTransferred_eq : u.diagnoseTransferred v = u.diagnoseTransferred v' := by
  refine h.ite_isInstanced_eq (f := fun v =>
    u.undecidedBlocks v [.instances] ++
      diagnoseInstanceNames [] (u.activeMembers v [.instances])) ?_ ?_
  · simp only [h.activeMembers_eq (rfl : u.blocksOf [.instances] = _),
      h.undecidedBlocks_eq (rfl : u.blocksOf [.instances] = _)]
  · intro hinst
    simp [undecidedBlocks, activeMembers, activeBlocks, blocksOf_instances_eq_nil hinst,
      diagnoseInstanceNames]

/-! ### The three passes -/

theorem attributeMembers_eq : u.attributeMembers v = u.attributeMembers v' := by
  rw [attributeMembers, attributeMembers, h.activeBlocks_eq h.blocksOf_attributeKinds]

theorem placeAttributes_eq : u.placeAttributes v = u.placeAttributes v' := by
  rw [placeAttributes, placeAttributes, h.attributeMembers_eq]

theorem diagnoseAttributes_eq : u.diagnoseAttributes v = u.diagnoseAttributes v' := by
  rw [diagnoseAttributes, diagnoseAttributes, h.attributeMembers_eq,
    h.undecidedBlocks_eq h.blocksOf_attributeKinds]

theorem placeResources_eq : u.placeResources v = u.placeResources v' := by
  rw [placeResources, placeResources, h.activeBlocks_eq h.blocksOf_resourceKinds]

theorem placeVaryings_eq : u.placeVaryings v = u.placeVaryings v' := by
  rw [placeVaryings, placeVaryings, h.activeMembers_eq rfl]

/-- **Indistinguishable variants have one layout**, and the same is said about it. -/
theorem assignLayout_eq (fragment : StageBlock) :
    u.assignLayout v fragment = u.assignLayout v' fragment := by
  simp only [assignLayout, h.diagnoseTransferred_eq, h.diagnoseAttributes_eq,
    h.placeResources_eq, h.placeVaryings_eq, h.placeAttributes_eq,
    h.transferredDeclarations_eq fragment, h.undecidedBlocks_eq h.blocksOf_resourceKinds,
    h.undecidedBlocks_eq (rfl : u.blocksOf [.varying] = _)]

end Indistinguishable

end ShaderUnit

end ShaderVariants
