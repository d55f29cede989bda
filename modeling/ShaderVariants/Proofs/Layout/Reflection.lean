import Mathlib
import ShaderVariants.Glsl.Stage
import ShaderVariants.Proofs.Layout.Offsets
import ShaderVariants.Proofs.Layout.Slots

/-!
# Reflected and generated structures

The numbers of a resource block are published twice: reflection lists a structure with
the offset of every member, and the code of both stages declares a structure with the
packing `std430`.  Both are at one slot, with the same members in the same order; they
need not mean the same bytes.

## Main definitions

* `StorageBlock.numbers` — the declarations that form the structure of a block.
* `StageInput.DeclaresPacked` — the code of a stage declares a structure at a slot.

## Main results

* `ShaderUnit.reflected_offsets_iff` — **the published offsets are the ones the code
  uses** exactly if no member of one row directly follows a vector of three rows.
-/

namespace ShaderVariants

namespace StorageBlock

/-- The declarations that form the structure of a block. -/
def numbers (b : StorageBlock) : List Declaration :=
  b.declarations.filter fun d => d.type.numeric?.isSome

theorem exists_number {b : StorageBlock} (h : b.numericMembers ≠ []) (n : ℕ) :
    ∃ m ∈ b.members n, m.2.type.numeric?.isSome = true := by
  obtain ⟨p, hp⟩ := List.exists_mem_of_ne_nil _ h
  obtain ⟨d, hd, heq⟩ := List.mem_filterMap.mp hp
  rw [← b.map_snd_members n] at hd
  obtain ⟨m, hm, rfl⟩ := List.mem_map.mp hd
  obtain ⟨t, ht, -⟩ := Option.map_eq_some_iff.mp heq
  exact ⟨m, hm, Option.isSome_of_eq_some ht⟩

/-- Members with rows have a place. -/
theorem ofMembers?_numericMembers {b : StorageBlock} {s : StructureType}
    (h : StructureType.ofMembers? b.numericMembers = some s) :
    s.members = StructureType.place 0 b.numericMembers := by
  unfold StructureType.ofMembers? at h
  split at h
  · cases h
  · exact Option.some.inj h ▸ rfl

end StorageBlock

/-! ### The generated structure -/

namespace StageInput

/-- The code of block number `n` ends with a structure of the declarations `ds`, at a slot
of the first set, with the packing rule `std430`. -/
def DeclaresPacked (i : StageInput) (n : ℕ) (b : StorageBlock) (slot : ℕ)
    (ds : List Declaration) : Prop :=
  ∃ resources, i.storageText n b = resources ++
    (slotText "std430, " { set := 0, slot } ++ "uniform " ++ b.codeName ++ " \x7b\n" ++
      String.join (ds.map fun d => indentation 1 ++ d.declarator ++ ";\n") ++
      "\x7d;\n") ++ "\n"

/-- Blocks that may hold resources contribute just these. -/
theorem storageText_eq_resourceBlock {i : StageInput} {n : ℕ} {b : StorageBlock}
    (h : b.kind ∈ ShaderUnit.resourceKinds i.values) :
    i.storageText n b = i.resourceBlock n b := by
  cases hinst : isInstanced i.values with
  | true =>
    have hkind : b.kind = .uniform := by simpa [ShaderUnit.resourceKinds, hinst] using h
    simp only [storageText, hkind]
  | false =>
    have hkind : b.kind = .uniform ∨ b.kind = .instances := by
      simpa [ShaderUnit.resourceKinds, hinst] using h
    rcases hkind with hkind | hkind <;> simp [storageText, hkind, hinst]

/-- The members of the generated structure are the numbers of the block, in the order of
their declarations. -/
theorem slottedMembers_numbers {i : StageInput} {first n slot : ℕ} {b : StorageBlock}
    (hlookup : ∀ m ∈ b.members n, i.layout.slots.lookup m.1 =
      ((BlockSlots.ofBlock first b n).slots.lookup m.1).map fun slot => { set := 0, slot })
    (hshared : (BlockSlots.ofBlock first b n).shared = some slot) :
    (i.slottedMembers n b).filter (fun m => !m.2.type.isResource) =
      b.numbers.map fun d => ({ set := 0, slot }, d) := by
  have hmember : ∀ m ∈ b.members n,
      ((i.layout.placement m.1).slot.map (·, m.2)).filter (fun m => !m.2.type.isResource) =
        if m.2.type.numeric?.isSome = true then some ({ set := 0, slot }, m.2) else none := by
    intro m hm
    rw [Layout.placement, hlookup m hm]
    -- numbers have the shared slot, resources are left out, and nothing else has a slot
    split_ifs with hnum
    · obtain ⟨slot', hslot', hfound⟩ := BlockSlots.lookup_number first hm hnum
      obtain rfl : slot' = slot := Option.some.inj (hslot'.symm.trans hshared)
      simp [hfound, DataType.isResource_eq_false hnum, Option.filter]
    · by_cases hres : m.2.type.isResource = true
      · cases (BlockSlots.ofBlock first b n).slots.lookup m.1 <;> simp [hres, Option.filter]
      · rw [BlockSlots.lookup_other first hm (not_or.mpr ⟨hres, hnum⟩)]
        rfl
  calc (i.slottedMembers n b).filter (fun m => !m.2.type.isResource)
      = (b.members n).filterMap (fun m => if m.2.type.numeric?.isSome = true then
          some ({ set := 0, slot }, m.2) else none) := by
        rw [slottedMembers, List.filter_filterMap]
        exact List.filterMap_congr hmember
    _ = b.numbers.map fun d => ({ set := 0, slot }, d) := by
        rw [StorageBlock.numbers, ← b.map_snd_members n, ← List.filterMap_eq_map',
          List.filterMap_filter, List.filterMap_map]
        rfl

theorem declaresPacked_of_slottedMembers {i : StageInput} {n slot : ℕ} {b : StorageBlock}
    (hkind : b.kind ∈ ShaderUnit.resourceKinds i.values) (hne : b.numbers ≠ [])
    (hmembers : (i.slottedMembers n b).filter (fun m => !m.2.type.isResource) =
      b.numbers.map fun d => ({ set := 0, slot }, d)) :
    i.DeclaresPacked n b slot b.numbers := by
  refine ⟨String.join (((i.slottedMembers n b).filter (·.2.type.isResource)).map
    fun m => resourceText m.1 m.2), ?_⟩
  rw [storageText_eq_resourceBlock hkind, resourceBlock, hmembers]
  obtain ⟨d, ds, hds⟩ := List.exists_cons_of_ne_nil hne
  rw [hds]
  simp only [List.map_cons, structureText, List.map_map]
  rfl

end StageInput

/-! ### Published and used offsets -/

namespace ShaderUnit

variable {u : ShaderUnit} {v : Valuation} {n : ℕ} {b : StorageBlock}

theorem kind_of_mem_activeBlocks {kinds : List StorageKind}
    (h : (n, b) ∈ u.activeBlocks v kinds) : b.kind ∈ kinds :=
  (mem_blocksOf.mp (List.mem_of_mem_filter h)).2

theorem mem_activeStorage {kinds : List StorageKind} (h : (n, b) ∈ u.activeBlocks v kinds)
    {i : StageInput} (hu : i.unit = u) (hv : i.values = v) : (n, b) ∈ i.activeStorage := by
  obtain ⟨hblock, hcond⟩ := List.mem_filter.mp h
  refine List.mem_filter.mpr ⟨?_, ?_⟩
  · exact hu ▸ (mem_blocksOf.mp hblock).1
  · exact hv ▸ hcond

/-- What is published about a layout is what the search for resources found. -/
theorem placeResources_of_layout {fragment : StageBlock} {l : Layout}
    (h : (u.assignLayout v fragment).layout = some l) :
    (u.placeResources v).broken = false ∧ l.slots = (u.placeResources v).slots ∧
      ∀ x, x ∈ l.bindings ↔ x ∈ (u.placeResources v).bindings := by
  cases hbroken : (u.placeResources v).broken with
  | true => simp [assignLayout, hbroken] at h
  | false =>
    simp only [assignLayout, hbroken, Bool.false_eq_true, if_false] at h
    obtain rfl := Option.some.inj h
    exact ⟨rfl, rfl, fun x => List.mem_mergeSort⟩

/-- The bindings of a layout are those that were found, in the order of their slots. -/
theorem bindings_perm_of_layout {fragment : StageBlock} {l : Layout}
    (h : (u.assignLayout v fragment).layout = some l) :
    l.bindings.Perm (u.placeResources v).bindings := by
  obtain ⟨hbroken, -, -⟩ := placeResources_of_layout h
  simp only [assignLayout, hbroken, Bool.false_eq_true, if_false] at h
  obtain rfl := Option.some.inj h
  exact List.mergeSort_perm _ _

/-- **The published offsets are the ones that the code uses** exactly if no member of one
row directly follows a vector of three rows.

The numbers of an active resource block are published as a single structure, at a slot
that nothing else has, and the code of every stage declares a structure of the same
members at that slot.  The last part compares the published offsets with the packing
rule of the declaration. -/
theorem reflected_offsets_iff {fragment : StageBlock} {l : Layout}
    (hl : (u.assignLayout v fragment).layout = some l)
    (hb : (n, b) ∈ u.activeBlocks v (resourceKinds v))
    (hvalid : ∀ m ∈ b.numericMembers, m.2.isValid = true) (hne : b.numericMembers ≠ []) :
    ∃ slot s, b.structureBinding slot s ∈ l.bindings ∧
      (∀ x ∈ l.bindings, x.slot = slot → x = b.structureBinding slot s) ∧
      s.members.map (fun m => (m.name, m.type)) = b.numericMembers ∧
      (∀ i : StageInput, i.unit = u → i.values = v → i.layout = l →
        (n, b) ∈ i.activeStorage ∧ i.DeclaresPacked n b slot b.numbers) ∧
      (PackedAt 0 (b.numericMembers.map (·.2)) (s.members.map (·.offset)) ↔
        (b.numericMembers.map (·.2)).IsChain fun before t => ¬ t.FillsGapAfter before) := by
  obtain ⟨hbroken, hslots, hbindings⟩ := placeResources_of_layout hl
  obtain ⟨first, bs, -, h⟩ := Resources.hosts_ofBlocks _ 0
    (nodup_activeBlocks (nodup_resourceKinds v) v) hbroken hb
  obtain ⟨m, hm, hnum⟩ := StorageBlock.exists_number hne n
  obtain ⟨slot, hshared, -⟩ := BlockSlots.lookup_number first hm hnum
  obtain ⟨s, hs, hmem, hunique⟩ := StorageBlock.structureBinding_of_bindings? h.bindings hshared
  have hplace := StorageBlock.ofMembers?_numericMembers hs
  refine ⟨slot, s, ?_, ?_, ?_, ?_, ?_⟩
  · exact (hbindings _).mpr (h.mem_bindings _ hmem)
  · intro x hx hslot
    -- the shared slot lies in the range of the block, so the binding is one of its own
    have hrange := (BlockSlots.claims_ofBlock first b n).shared_bounds slot hshared
    refine hunique x (h.of_slot x ((hbindings x).mp hx) ?_ ?_) hslot
    · exact hslot ▸ hrange.1
    · exact hslot ▸ hrange.2
  · rw [hplace, StructureType.place_types]
  · rintro i hu hv rfl
    refine ⟨mem_activeStorage hb hu hv, ?_⟩
    have hnumbers : b.numbers ≠ [] := by
      refine List.ne_nil_of_mem (a := m.2) (List.mem_filter.mpr ⟨?_, hnum⟩)
      exact b.map_snd_members n ▸ List.mem_map_of_mem hm
    refine StageInput.declaresPacked_of_slottedMembers
      (hv ▸ kind_of_mem_activeBlocks hb) hnumbers ?_
    exact StageInput.slottedMembers_numbers (fun m hm => hslots ▸ h.lookup m hm) hshared
  · rw [hplace]
    exact StructureType.packedAt_place_iff b.numericMembers 0 hvalid

/-- A block with a direction of three rows and an intensity, in either order. -/
def lightBlock (intensityFirst : Bool) : StorageBlock :=
  let direction : Declaration := { name := "direction", type := .numeric (.vector .float 3) }
  let intensity : Declaration := { name := "intensity", type := .numeric (.single .float) }
  { kind := .uniform
    name := some "Light"
    declarations := if intensityFirst then [intensity, direction] else [direction, intensity] }

/-- A source with nothing but the block of the light. -/
def lightShader (intensityFirst : Bool) : ShaderUnit :=
  { blocks := [.storage (lightBlock intensityFirst)] }

/-- With the intensity in front, host and code agree. -/
theorem lightShader_intensity_first :
    ∃ l slot s, ((lightShader true).assignLayout (fun _ => none) { stage := .fragment }).layout
        = some l ∧
      (lightBlock true).structureBinding slot s ∈ l.bindings ∧
      PackedAt 0 [.single .float, .vector .float 3] (s.members.map (·.offset)) := by
  obtain ⟨l, hl⟩ := Option.isSome_iff_exists.mp (by decide :
    ((lightShader true).assignLayout (fun _ => none) { stage := .fragment }).layout.isSome = true)
  have hb : (0, lightBlock true) ∈
      (lightShader true).activeBlocks (fun _ => none) (resourceKinds fun _ => none) :=
    List.mem_singleton_self _
  obtain ⟨slot, s, hbinding, -, -, -, hiff⟩ :=
    reflected_offsets_iff hl hb (by decide) (by decide)
  exact ⟨l, slot, s, hl, hbinding, hiff.mpr (by decide)⟩

/-- **Host and code disagree**: with the direction in front, the intensity is published at
the byte 16, while the packing rule puts it at the byte 12, right behind the direction. -/
theorem lightShader_direction_first :
    ∃ l s, ((lightShader false).assignLayout (fun _ => none) { stage := .fragment }).layout
        = some l ∧
      (0, lightBlock false) ∈
        (lightShader false).activeBlocks (fun _ => none) (resourceKinds fun _ => none) ∧
      (∀ m ∈ (lightBlock false).numericMembers, m.2.isValid = true) ∧
      (∀ x, x ∈ l.bindings ↔ x = (lightBlock false).structureBinding 0 s) ∧
      s.members.map (·.offset) = [0, 16] ∧
      PackedAt 0 ((lightBlock false).numericMembers.map (·.2)) [0, 12] ∧
      ¬ PackedAt 0 ((lightBlock false).numericMembers.map (·.2)) (s.members.map (·.offset)) := by
  obtain ⟨l, hl⟩ := Option.isSome_iff_exists.mp (by decide :
    ((lightShader false).assignLayout (fun _ => none) { stage := .fragment }).layout.isSome = true)
  have hpacked : PackedAt 0 ((lightBlock false).numericMembers.map (·.2)) [0, 12] :=
    .cons (isLeast_alignUp (by decide : 0 < 16) 0)
      (.cons (isLeast_alignUp (by decide : 0 < 4) 12) (.nil _))
  let s : StructureType :=
    { members := StructureType.place 0 (lightBlock false).numericMembers, totalSize := 32 }
  refine ⟨l, s, hl, List.mem_singleton_self _, by decide, fun x => ?_, rfl, hpacked, fun h => ?_⟩
  · rw [(placeResources_of_layout hl).2.2 x]
    exact List.mem_singleton
  · exact absurd (h.unique hpacked) (by decide)

end ShaderUnit

end ShaderVariants
