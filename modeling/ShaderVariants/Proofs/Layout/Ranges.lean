import Mathlib
import ShaderVariants.Proofs.Layout.Bindings
import ShaderVariants.Proofs.Layout.Reflection

/-!
# Ranges of slots

A block takes all slots from the first free one up to the next free one, and the next block
goes on from there.  So slots go with declarations both ways: each slot is that of a resource,
which has it to itself, or that of the numbers of one block.  A slot is bound to nothing only
if it was given to a buffer that cannot be bound, which the layout reports.

## Main definitions

* `BlockSlots.Fills` — every slot that a block takes is that of a declaration.
* `Layout.OwnSlot`, `Layout.SharedSlot` — what is at the slot of a resource, and at the one of
  the numbers of a block.
* `Layout.KeepsApart` — the bindings of a layout do not collide.

## Main results

* `BlockSlots.fills_ofBlock` — a block leaves no slot out.
* `Resources.same_block_of_slot` — declarations at one slot are of one block.
* `Resources.exists_binding_of_slot` — **no slot is left unbound**, if everything can be bound.
* `ShaderUnit.keepsApart_layout` — **bindings do not collide**, and without a failure they are
  numbered from zero without gaps.
-/

namespace ShaderVariants

variable {first next n slot : ℕ} {b : StorageBlock} {bs : List Binding}

/-! ### Slots of a block -/

namespace BlockSlots

/-- Every slot from `first` up to the next free one is that of a declaration. -/
def Fills (first : ℕ) (s : BlockSlots) : Prop :=
  ∀ slot, first ≤ slot → slot < s.next → ∃ id, (id, slot) ∈ s.slots

/-- **One step**: only the next free slot is claimed, by a declaration that gets it. -/
theorem Fills.add {s : BlockSlots} (h : Fills first s) (m : DeclarationId × Declaration) :
    Fills first (s.add m) := by
  have hclaim : ∀ shared, Fills first ⟨s.next + 1, shared, s.slots ++ [(m.1, s.next)]⟩ := by
    intro shared slot hfirst hlt
    rcases Nat.lt_succ_iff_lt_or_eq.mp hlt with hlt | rfl
    · obtain ⟨id, hid⟩ := h slot hfirst hlt
      exact ⟨id, List.mem_append_left _ hid⟩
    · exact ⟨m.1, List.mem_append_right _ (List.mem_singleton_self _)⟩
  by_cases hres : m.2.type.isResource = true
  · rw [s.add_of_resource hres]
    exact hclaim s.shared
  · by_cases hnum : m.2.type.numeric?.isSome = true
    · cases hshared : s.shared with
      | some slot =>
        rw [s.add_of_shared hnum hshared]
        intro slot hfirst hlt
        obtain ⟨id, hid⟩ := h slot hfirst hlt
        exact ⟨id, List.mem_append_left _ hid⟩
      | none =>
        rw [s.add_of_unshared hnum hshared]
        exact hclaim (some s.next)
    · rwa [s.add_of_other (not_or.mpr ⟨hres, hnum⟩)]

/-- **A block leaves no slot out.** -/
theorem fills_ofBlock (first : ℕ) (b : StorageBlock) (n : ℕ) : (ofBlock first b n).Fills first := by
  have hfold : ∀ (members : List (DeclarationId × Declaration)) (s : BlockSlots),
      Fills first s → Fills first (members.foldl add s) := by
    intro members
    induction members with
    | nil => exact fun _ h => h
    | cons m rest ih => exact fun s h => ih _ (h.add m)
  refine hfold (b.members n) _ fun slot hfirst hlt => ?_
  exact absurd hfirst (not_le.mpr hlt)

/-- Only declarations of the block have one of its slots. -/
theorem exists_member_of_slot {p : DeclarationId × ℕ} (hp : p ∈ (ofBlock first b n).slots) :
    ∃ m ∈ b.members n, m.1 = p.1 ∧ m.2.type.TakesSlot := by
  have hid : p.1 ∈ (ofBlock first b n).slots.map (·.1) := List.mem_map_of_mem hp
  rw [(claims_ofBlock first b n).ids] at hid
  obtain ⟨m, hm, heq⟩ := List.mem_map.mp hid
  obtain ⟨hmember, htakes⟩ := List.mem_filter.mp hm
  exact ⟨m, hmember, heq, of_decide_eq_true htakes⟩

/-- The shared slot is that of the numbers alone. -/
theorem numeric_of_lookup_shared {m : DeclarationId × Declaration} (hm : m ∈ b.members n)
    (hshared : (ofBlock first b n).shared = some slot)
    (hslot : (ofBlock first b n).slots.lookup m.1 = some slot) :
    m.2.type.numeric?.isSome = true := by
  by_contra hnum
  by_cases hres : m.2.type.isResource = true
  · obtain ⟨slot', hslot', hne⟩ := lookup_resource first hm hres
    exact hne (hshared.trans (hslot.symm.trans hslot'))
  · rw [lookup_other first hm (not_or.mpr ⟨hres, hnum⟩)] at hslot
    cases hslot

end BlockSlots

/-! ### Bindings of a block -/

namespace StorageBlock

/-- The binding of an image, sampler or buffer is the one of its declaration. -/
theorem mem_ownBindings {x : Binding} : x ∈ b.ownBindings n (.ofBlock first b n) ↔
    ∃ m ∈ b.members n, ∃ type ∈ m.2.type.binding?, ∃ slot,
      (BlockSlots.ofBlock first b n).slots.lookup m.1 = some slot ∧
        x = { set := 0, slot, name := m.2.name, perInstance := false, type } := by
  simp only [ownBindings, List.mem_filterMap, Option.bind_eq_bind, Option.bind_eq_some_iff,
    Option.mem_def]
  constructor
  · rintro ⟨m, hm, type, htype, slot, hslot, hx⟩
    exact ⟨m, hm, type, htype, slot, hslot, (Option.some.inj hx).symm⟩
  · rintro ⟨m, hm, type, htype, slot, hslot, rfl⟩
    exact ⟨m, hm, type, htype, slot, hslot, rfl⟩

/-- What is bound at the slot of a resource is the resource. -/
theorem mem_bindings?_resource (h : b.bindings? n (.ofBlock first b n) = some bs)
    {m : DeclarationId × Declaration} (hm : m ∈ b.members n) (hres : m.2.type.isResource = true)
    (hslot : (BlockSlots.ofBlock first b n).slots.lookup m.1 = some slot) {x : Binding} :
    x ∈ bs ∧ x.slot = slot ↔ ∃ type ∈ m.2.type.binding?,
      x = { set := 0, slot, name := m.2.name, perInstance := false, type } := by
  obtain ⟨slot', hslot', hne⟩ := BlockSlots.lookup_resource first hm hres
  obtain rfl : slot' = slot := Option.some.inj (hslot'.symm.trans hslot)
  have hown : x ∈ bs ∧ x.slot = slot' ↔
      x ∈ b.ownBindings n (.ofBlock first b n) ∧ x.slot = slot' := by
    refine and_congr_left fun hx => ?_
    unfold bindings? at h
    split at h
    · rw [Option.some.inj h]
    · next shared hshared =>
      obtain ⟨s, -, rfl⟩ := Option.map_eq_some_iff.mp h
      refine List.mem_append.trans (or_iff_left fun hstruct => ?_)
      -- the structure is at the shared slot
      obtain rfl := List.mem_singleton.mp hstruct
      exact hne (hshared.trans (congrArg some hx))
  rw [hown, mem_ownBindings]
  constructor
  · rintro ⟨⟨m', hm', type, htype, slot, hlookup, rfl⟩, rfl⟩
    have hid := BlockSlots.id_of_lookup_resource hm hres hslot hlookup
    obtain rfl := List.inj_on_of_nodup_map (b.nodup_ids n) hm hm' hid
    exact ⟨type, htype, rfl⟩
  · rintro ⟨type, htype, rfl⟩
    exact ⟨⟨m, hm, type, htype, slot', hslot, rfl⟩, rfl⟩

theorem set_of_mem_bindings? (h : b.bindings? n (.ofBlock first b n) = some bs) {x : Binding}
    (hx : x ∈ bs) : x.set = 0 := by
  have hown : ∀ y ∈ b.ownBindings n (.ofBlock first b n), y.set = 0 := by
    intro y hy
    obtain ⟨m, -, type, -, slot, -, rfl⟩ := mem_ownBindings.mp hy
    rfl
  unfold bindings? at h
  split at h
  · exact hown x (Option.some.inj h ▸ hx)
  · obtain ⟨s, -, rfl⟩ := Option.map_eq_some_iff.mp h
    rcases List.mem_append.mp hx with hx | hx
    · exact hown x hx
    · exact List.mem_singleton.mp hx ▸ rfl

/-- A block binds something at each of its slots, if everything in it can be bound. -/
theorem exists_mem_bindings? (h : b.bindings? n (.ofBlock first b n) = some bs)
    (hbound : ∀ m ∈ b.members n, m.2.type.isResource = true → m.2.type.binding?.isSome = true)
    (hfirst : first ≤ slot) (hlt : slot < (BlockSlots.ofBlock first b n).next) :
    ∃ x ∈ bs, x.slot = slot := by
  obtain ⟨id, hid⟩ := BlockSlots.fills_ofBlock first b n slot hfirst hlt
  obtain ⟨m, hm, rfl, htakes⟩ := BlockSlots.exists_member_of_slot hid
  have hslot := lookup_of_mem (BlockSlots.nodup_ids_ofBlock first b n) hid
  rcases htakes with hres | hnum
  · obtain ⟨type, htype⟩ := Option.isSome_iff_exists.mp (hbound m hm hres)
    have hx := (mem_bindings?_resource h hm hres hslot).mpr ⟨type, htype, rfl⟩
    exact ⟨_, hx.1, rfl⟩
  · obtain ⟨slot', hshared, hslot'⟩ := BlockSlots.lookup_number first hm hnum
    obtain rfl : slot' = slot := Option.some.inj (hslot'.symm.trans hslot)
    obtain ⟨s, -, hmem, -⟩ := structureBinding_of_bindings? h hshared
    exact ⟨_, hmem, rfl⟩

end StorageBlock

/-! ### All blocks -/

namespace Resources

/-- Behind a block, the search goes on from the next free slot. -/
theorem next_ofBlocks_cons {p : ℕ × StorageBlock} {rest : List (ℕ × StorageBlock)}
    (h : (ofBlocks next (p :: rest)).broken = false) :
    (ofBlocks next (p :: rest)).next =
      (ofBlocks (BlockSlots.ofBlock next p.2 p.1).next rest).next := by
  simp only [ofBlocks] at h ⊢
  split at h
  · cases h
  · rfl

theorem le_next : ∀ (blocks : List (ℕ × StorageBlock)) (next : ℕ),
    (ofBlocks next blocks).broken = false → next ≤ (ofBlocks next blocks).next := by
  intro blocks
  induction blocks with
  | nil => exact fun _ _ => le_rfl
  | cons p rest ih =>
    intro next hbroken
    obtain ⟨bs, -, hrest, -, -⟩ := ofBlocks_cons hbroken
    rw [next_ofBlocks_cons hbroken]
    exact (BlockSlots.claims_ofBlock next p.2 p.1).le_next.trans (ih _ hrest)

/-- Bindings are in the first set, below the next free slot. -/
theorem bounds_of_mem_bindings {x : Binding} : ∀ (blocks : List (ℕ × StorageBlock)) (next : ℕ),
    (ofBlocks next blocks).broken = false → x ∈ (ofBlocks next blocks).bindings →
    x.set = 0 ∧ x.slot < (ofBlocks next blocks).next := by
  intro blocks
  induction blocks with
  | nil => exact fun _ _ hx => absurd hx List.not_mem_nil
  | cons p rest ih =>
    intro next hbroken hx
    obtain ⟨bs, hbs, hrest, hbindings, -⟩ := ofBlocks_cons hbroken
    rw [hbindings] at hx
    rw [next_ofBlocks_cons hbroken]
    rcases List.mem_append.mp hx with hx | hx
    · have hlt := (StorageBlock.bounds_of_mem_bindings? hbs hx).2
      exact ⟨StorageBlock.set_of_mem_bindings? hbs hx, hlt.trans_le (le_next rest _ hrest)⟩
    · exact ih _ hrest hx

/-- **No slot is left unbound**, if everything can be bound. -/
theorem exists_binding_of_slot : ∀ (blocks : List (ℕ × StorageBlock)) (next : ℕ),
    (ofBlocks next blocks).broken = false →
    (∀ p ∈ blocks, ∀ m ∈ p.2.members p.1, m.2.type.isResource = true →
      m.2.type.binding?.isSome = true) →
    next ≤ slot → slot < (ofBlocks next blocks).next →
    ∃ x ∈ (ofBlocks next blocks).bindings, x.slot = slot := by
  intro blocks
  induction blocks with
  | nil => exact fun _ _ _ hle hlt => absurd hle (not_le.mpr hlt)
  | cons p rest ih =>
    intro next hbroken hbound hle hlt
    obtain ⟨bs, hbs, hrest, hbindings, -⟩ := ofBlocks_cons hbroken
    rw [next_ofBlocks_cons hbroken] at hlt
    rw [hbindings]
    obtain ⟨hhead, htail⟩ := List.forall_mem_cons.mp hbound
    rcases lt_or_ge slot (BlockSlots.ofBlock next p.2 p.1).next with hin | hout
    · obtain ⟨x, hx, hslot⟩ := StorageBlock.exists_mem_bindings? hbs hhead hle hin
      exact ⟨x, List.mem_append_left _ hx, hslot⟩
    · obtain ⟨x, hx, hslot⟩ := ih _ hrest htail hout hlt
      exact ⟨x, List.mem_append_right _ hx, hslot⟩

/-- At the slots of a block there is what the block binds. -/
theorem Hosts.mem_bindings_iff {r : Resources} (h : r.Hosts first n b bs) (hfirst : first ≤ slot)
    (hlt : slot < (BlockSlots.ofBlock first b n).next) {x : Binding} :
    x ∈ r.bindings ∧ x.slot = slot ↔ x ∈ bs ∧ x.slot = slot := by
  refine and_congr_left fun hx => ⟨fun hmem => h.of_slot x hmem ?_ ?_, h.mem_bindings x⟩
  · exact hx ▸ hfirst
  · exact hx ▸ hlt

/-- What has a slot is a declaration of one of the blocks, and later blocks have later slots. -/
theorem member_of_mem_slots {p : DeclarationId × ResourceSlot} :
    ∀ (blocks : List (ℕ × StorageBlock)) (next : ℕ),
    (ofBlocks next blocks).broken = false → p ∈ (ofBlocks next blocks).slots →
    next ≤ p.2.slot ∧ ∃ q ∈ blocks, ∃ m ∈ q.2.members q.1, m.1 = p.1 := by
  intro blocks
  induction blocks with
  | nil => exact fun _ _ hp => absurd hp List.not_mem_nil
  | cons e rest ih =>
    intro next hbroken hp
    obtain ⟨bs, -, hrest, -, hslots⟩ := ofBlocks_cons hbroken
    rw [hslots] at hp
    rcases List.mem_append.mp hp with hp | hp
    · obtain ⟨q, hq, rfl⟩ := List.mem_map.mp hp
      obtain ⟨m, hm, heq, -⟩ := BlockSlots.exists_member_of_slot hq
      exact ⟨((BlockSlots.claims_ofBlock next e.2 e.1).bounds q hq).1, e, .head _, m, hm, heq⟩
    · obtain ⟨hle, q, hq, hmember⟩ := ih _ hrest hp
      have hnext := (BlockSlots.claims_ofBlock next e.2 e.1).le_next
      exact ⟨hnext.trans hle, q, .tail _ hq, hmember⟩

/-- **Declarations at one slot are of one block.** -/
theorem same_block_of_slot {p q : DeclarationId × ResourceSlot} :
    ∀ (blocks : List (ℕ × StorageBlock)) (next : ℕ),
    (ofBlocks next blocks).broken = false → p ∈ (ofBlocks next blocks).slots →
    q ∈ (ofBlocks next blocks).slots → p.2.slot = q.2.slot → p.1.block = q.1.block := by
  intro blocks
  induction blocks with
  | nil => exact fun _ _ hp => absurd hp List.not_mem_nil
  | cons e rest ih =>
    intro next hbroken hp hq heq
    obtain ⟨bs, -, hrest, -, hslots⟩ := ofBlocks_cons hbroken
    have hhead : ∀ y ∈ (BlockSlots.ofBlock next e.2 e.1).slots,
        y.1.block = e.1 ∧ y.2 < (BlockSlots.ofBlock next e.2 e.1).next := fun y hy =>
      ⟨BlockSlots.block_of_mem_slots next e.2 e.1 hy,
        ((BlockSlots.claims_ofBlock next e.2 e.1).bounds y hy).2⟩
    -- a slot of the first block is below those of all others
    rw [hslots] at hp hq
    rcases List.mem_append.mp hp with hp | hp <;> rcases List.mem_append.mp hq with hq | hq
    · obtain ⟨y, hy, rfl⟩ := List.mem_map.mp hp
      obtain ⟨z, hz, rfl⟩ := List.mem_map.mp hq
      exact (hhead y hy).1.trans (hhead z hz).1.symm
    · obtain ⟨y, hy, rfl⟩ := List.mem_map.mp hp
      have hle := (member_of_mem_slots rest _ hrest hq).1
      exact absurd heq ((hhead y hy).2.trans_le hle).ne
    · obtain ⟨z, hz, rfl⟩ := List.mem_map.mp hq
      have hle := (member_of_mem_slots rest _ hrest hp).1
      exact absurd heq ((hhead z hz).2.trans_le hle).ne'
    · exact ih _ hrest hp hq heq

/-- A declaration at the slot of another one is of the same block. -/
theorem member_of_slot {blocks : List (ℕ × StorageBlock)} (hnodup : (blocks.map (·.1)).Nodup)
    (hbroken : (ofBlocks next blocks).broken = false) (hb : (n, b) ∈ blocks)
    {m : DeclarationId × Declaration} (hm : m ∈ b.members n) {id : DeclarationId}
    {place : ResourceSlot} (hplace : (ofBlocks next blocks).slots.lookup m.1 = some place)
    (hid : (ofBlocks next blocks).slots.lookup id = some place) :
    ∃ m' ∈ b.members n, m'.1 = id := by
  have hmem := mem_of_lookup hid
  have hblock := same_block_of_slot blocks next hbroken (mem_of_lookup hplace) hmem rfl
  obtain ⟨-, q, hq, m', hm', heq⟩ := member_of_mem_slots blocks next hbroken hmem
  -- a block has one number
  have hnumber : q.1 = n := by
    rw [← q.2.block_of_mem_members q.1 hm', heq, ← hblock, b.block_of_mem_members n hm]
  obtain rfl : q = (n, b) := List.inj_on_of_nodup_map hnodup hq hb hnumber
  exact ⟨m', hm', heq⟩

end Resources

/-! ### Bindings of a layout -/

namespace Layout

/-- The declaration has a slot to itself, and what is bound there is the declaration. -/
def OwnSlot (l : Layout) (m : DeclarationId × Declaration) : Prop :=
  ∃ slot, (l.placement m.1).slot = some { set := 0, slot } ∧
    (∀ id, (l.placement id).slot = some { set := 0, slot } → id = m.1) ∧
    ∀ x : Binding, x ∈ l.bindings ∧ x.slot = slot ↔ ∃ type ∈ m.2.type.binding?,
      x = { set := 0, slot, name := m.2.name, perInstance := false, type }

/-- The numbers of block number `n`, and nothing else, are at one slot, and what is bound there
is their structure, which lists them in their order. -/
def SharedSlot (l : Layout) (n : ℕ) (b : StorageBlock) : Prop :=
  ∃ slot s, (∀ id, (l.placement id).slot = some { set := 0, slot } ↔
      ∃ m ∈ b.members n, m.1 = id ∧ m.2.type.numeric?.isSome = true) ∧
    (∀ x : Binding, x ∈ l.bindings ∧ x.slot = slot ↔ x = b.structureBinding slot s) ∧
    s.members.map (fun m => (m.name, m.type)) = b.numericMembers

/-- The bindings of a layout for the given values do not collide. -/
structure KeepsApart (l : Layout) (u : ShaderUnit) (v : Valuation) (size : ℕ) : Prop where
  setSizes : l.setSizes = [size]
  /-- Bindings are in the order of their sets and slots, and no two are at the same. -/
  ascending : l.bindings.Pairwise fun x y => x.set < y.set ∨ x.set = y.set ∧ x.slot < y.slot
  below : ∀ x ∈ l.bindings, x.set = 0 ∧ x.slot < size
  own : ∀ p ∈ u.activeBlocks v (ShaderUnit.resourceKinds v), ∀ m ∈ p.2.members p.1,
    m.2.type.isResource = true → l.OwnSlot m
  shared : ∀ p ∈ u.activeBlocks v (ShaderUnit.resourceKinds v), p.2.numericMembers ≠ [] →
    l.SharedSlot p.1 p.2

end Layout

namespace ShaderUnit

variable {u : ShaderUnit} {v : Valuation} {fragment : StageBlock} {l : Layout}

/-- Bindings come in the order of their slots. -/
theorem ascending_bindings (hl : (u.assignLayout v fragment).layout = some l) :
    l.bindings.Pairwise fun x y => x.set < y.set ∨ x.set = y.set ∧ x.slot < y.slot := by
  obtain ⟨hbroken, -, -⟩ := placeResources_of_layout hl
  have hperm := bindings_perm_of_layout hl
  have hnodup : (l.bindings.map (·.slot)).Nodup :=
    (hperm.map _).nodup_iff.mpr (Resources.nodup_bindings _ 0 hbroken)
  have hsorted : l.bindings.Pairwise fun x y =>
      (x.set < y.set || (x.set == y.set && x.slot ≤ y.slot)) = true := by
    simp only [assignLayout, hbroken, Bool.false_eq_true, if_false] at hl
    obtain rfl := Option.some.inj hl
    refine List.pairwise_mergeSort (fun x y z hxy hyz => ?_) (fun x y => ?_) _
    · simp only [Bool.or_eq_true, Bool.and_eq_true, decide_eq_true_eq, beq_iff_eq] at hxy hyz ⊢
      omega
    · simp only [Bool.or_eq_true, Bool.and_eq_true, decide_eq_true_eq, beq_iff_eq]
      omega
  refine (hsorted.and (List.pairwise_map.mp hnodup)).imp fun {x y} hxy => ?_
  obtain ⟨hle, hne⟩ := hxy
  simp only [Bool.or_eq_true, Bool.and_eq_true, decide_eq_true_eq, beq_iff_eq] at hle
  omega

/-- A resource has a slot to itself. -/
theorem ownSlot_of_layout (hl : (u.assignLayout v fragment).layout = some l)
    (hb : (n, b) ∈ u.activeBlocks v (resourceKinds v)) {m : DeclarationId × Declaration}
    (hm : m ∈ b.members n) (hres : m.2.type.isResource = true) : l.OwnSlot m := by
  obtain ⟨hbroken, hslots, hbindings⟩ := placeResources_of_layout hl
  have hnodup := nodup_activeBlocks (u := u) (nodup_resourceKinds v) v
  obtain ⟨first, bs, -, h⟩ := Resources.hosts_ofBlocks _ 0 hnodup hbroken hb
  obtain ⟨slot, hslot, -⟩ := BlockSlots.lookup_resource first hm hres
  have hplace : (u.placeResources v).slots.lookup m.1 = some { set := 0, slot } := by
    rw [placeResources, h.lookup m hm, hslot, Option.map_some]
  obtain ⟨hfirst, hlt⟩ := (BlockSlots.claims_ofBlock first b n).bounds _ (mem_of_lookup hslot)
  refine ⟨slot, ?_, fun id hid => ?_, fun x => ?_⟩
  · exact (congrArg (·.lookup m.1) hslots).trans hplace
  · rw [Layout.placement, hslots] at hid
    obtain ⟨m', hm', rfl⟩ := Resources.member_of_slot hnodup hbroken hb hm hplace hid
    -- within a block, nothing else has the slot of a resource
    rw [placeResources, h.lookup m' hm', Option.map_eq_some_iff] at hid
    obtain ⟨slot', hslot', heq⟩ := hid
    obtain rfl : slot' = slot := (ResourceSlot.mk.inj heq).2
    exact (BlockSlots.id_of_lookup_resource hm hres hslot hslot').symm
  · rw [hbindings x, placeResources, h.mem_bindings_iff hfirst hlt]
    exact StorageBlock.mem_bindings?_resource h.bindings hm hres hslot

/-- The numbers of a block share a slot. -/
theorem sharedSlot_of_layout (hl : (u.assignLayout v fragment).layout = some l)
    (hb : (n, b) ∈ u.activeBlocks v (resourceKinds v)) (hne : b.numericMembers ≠ []) :
    l.SharedSlot n b := by
  obtain ⟨hbroken, hslots, hbindings⟩ := placeResources_of_layout hl
  have hnodup := nodup_activeBlocks (u := u) (nodup_resourceKinds v) v
  obtain ⟨first, bs, -, h⟩ := Resources.hosts_ofBlocks _ 0 hnodup hbroken hb
  obtain ⟨m, hm, hnum⟩ := StorageBlock.exists_number hne n
  obtain ⟨slot, hshared, -⟩ := BlockSlots.lookup_number first hm hnum
  obtain ⟨s, hs, hmem, hunique⟩ := StorageBlock.structureBinding_of_bindings? h.bindings hshared
  obtain ⟨hfirst, hlt⟩ := (BlockSlots.claims_ofBlock first b n).shared_bounds slot hshared
  have hnumber : ∀ m ∈ b.members n, m.2.type.numeric?.isSome = true →
      (u.placeResources v).slots.lookup m.1 = some { set := 0, slot } := by
    intro m hm hnum
    obtain ⟨slot', hshared', hslot⟩ := BlockSlots.lookup_number first hm hnum
    obtain rfl : slot' = slot := Option.some.inj (hshared'.symm.trans hshared)
    rw [placeResources, h.lookup m hm, hslot, Option.map_some]
  refine ⟨slot, s, fun id => ⟨fun hid => ?_, ?_⟩, fun x => ?_, ?_⟩
  · rw [Layout.placement, hslots] at hid
    obtain ⟨m', hm', rfl⟩ := Resources.member_of_slot hnodup hbroken hb hm (hnumber m hm hnum) hid
    rw [placeResources, h.lookup m' hm', Option.map_eq_some_iff] at hid
    obtain ⟨slot', hslot', heq⟩ := hid
    obtain rfl : slot' = slot := (ResourceSlot.mk.inj heq).2
    exact ⟨m', hm', rfl, BlockSlots.numeric_of_lookup_shared hm' hshared hslot'⟩
  · rintro ⟨m', hm', rfl, hnum'⟩
    exact (congrArg (·.lookup m'.1) hslots).trans (hnumber m' hm' hnum')
  · rw [hbindings x, placeResources, h.mem_bindings_iff hfirst hlt]
    constructor
    · exact fun hx => hunique x hx.1 hx.2
    · rintro rfl
      exact ⟨hmem, rfl⟩
  · rw [StorageBlock.ofMembers?_numericMembers hs, StructureType.place_types]

theorem keepsApart_of_layout (hl : (u.assignLayout v fragment).layout = some l) :
    l.KeepsApart u v (u.placeResources v).next := by
  obtain ⟨hbroken, -, hbindings⟩ := placeResources_of_layout hl
  have hsizes : l.setSizes = [(u.placeResources v).next] := by
    simp only [assignLayout, hbroken, Bool.false_eq_true, if_false] at hl
    exact Option.some.inj hl ▸ rfl
  exact {
    setSizes := hsizes
    ascending := ascending_bindings hl
    below := fun x hx => Resources.bounds_of_mem_bindings _ 0 hbroken ((hbindings x).mp hx)
    own := fun _ hp _ hm hres => ownSlot_of_layout hl hp hm hres
    shared := fun _ hp hne => sharedSlot_of_layout hl hp hne }

/-- Without a failure, every slot is bound. -/
theorem slots_eq_range (hl : (u.assignLayout v fragment).layout = some l)
    (hfailure : hasFailure (u.assignLayout v fragment).diagnostics = false) :
    l.bindings.map (·.slot) = List.range (u.placeResources v).next := by
  obtain ⟨hbroken, -, hbindings⟩ := placeResources_of_layout hl
  have hresources : hasFailure (u.placeResources v).diagnostics = false := by
    simp only [assignLayout, hbroken, Bool.false_eq_true, if_false, hasFailure_append,
      Bool.or_eq_false_iff] at hfailure
    exact hfailure.1.2
  have hbound : ∀ p ∈ u.activeBlocks v (resourceKinds v), ∀ m ∈ p.2.members p.1,
      m.2.type.isResource = true → m.2.type.binding?.isSome = true := by
    intro p hp m hm hres
    have hmem : m.2 ∈ p.2.declarations := p.2.map_snd_members p.1 ▸ List.mem_map_of_mem hm
    refine ((Resources.hasFailure_ofBlocks _ 0 hbroken).mp hresources p hp m.2 hmem).resolve_right
      fun hnum => ?_
    exact Bool.false_ne_true ((DataType.isResource_eq_false hnum).symm.trans hres)
  -- an ascending list is the range if it has the same elements
  have hkeeps := keepsApart_of_layout hl
  have hascending : (l.bindings.map (·.slot)).Pairwise (· < ·) := by
    refine List.pairwise_map.mpr (hkeeps.ascending.imp_of_mem fun {x y} hx hy hxy => ?_)
    have hset := (hkeeps.below x hx).1
    have hset' := (hkeeps.below y hy).1
    omega
  refine List.Perm.eq_of_pairwise (fun _ _ _ _ h h' => absurd h h'.asymm)
    hascending List.pairwise_lt_range ?_
  refine (List.perm_ext_iff_of_nodup (hascending.imp Nat.ne_of_lt) List.nodup_range).mpr
    fun slot => ?_
  rw [List.mem_map, List.mem_range]
  constructor
  · rintro ⟨x, hx, rfl⟩
    exact (hkeeps.below x hx).2
  · intro hlt
    obtain ⟨x, hx, hslot⟩ := Resources.exists_binding_of_slot _ 0 hbroken hbound slot.zero_le hlt
    exact ⟨x, (hbindings x).mpr hx, hslot⟩

/-- **Bindings do not collide.**  If all numbers of the active resource blocks have rows, there
is a layout; its bindings ascend, every resource has a slot to itself, and the numbers of a block
share one.  Without a failure, the slots are numbered from zero without gaps. -/
theorem keepsApart_layout (fragment : StageBlock)
    (hrows : ∀ p ∈ u.activeBlocks v (resourceKinds v), ∀ m ∈ p.2.numericMembers, m.2.rows ≠ 0) :
    ∃ l size, (u.assignLayout v fragment).layout = some l ∧ l.KeepsApart u v size ∧
      (hasFailure (u.assignLayout v fragment).diagnostics = false →
        l.bindings.map (·.slot) = List.range size) := by
  have hbroken : (u.placeResources v).broken = false := Resources.broken_ofBlocks _ 0 hrows
  obtain ⟨l, hl⟩ : ∃ l, (u.assignLayout v fragment).layout = some l := by
    simp only [assignLayout, hbroken, Bool.false_eq_true, if_false]
    exact ⟨_, rfl⟩
  exact ⟨l, _, hl, keepsApart_of_layout hl, slots_eq_range hl⟩

/-- Numbers between an image and a sampler, and a block of instance data in front. -/
def meadowShader : ShaderUnit where
  blocks := [
    .storage {
      kind := .instances
      declarations := [
        { name := "sway", type := .numeric (.single .float) },
        { name := "leaf", type := .image { scalar := .float, shape := .d2, sampled := true } }] },
    .storage {
      kind := .uniform
      name := some "Meadow"
      declarations := [
        { name := "grass", type := .image { scalar := .float, shape := .d2, sampled := false } },
        { name := "wind", type := .numeric (.vector .float 3) },
        { name := "linear", type := .sampler },
        { name := "time", type := .numeric (.single .float) }] }]

/-- The numbers of the meadow share the slot behind the grass, and the instance data come last:
five slots, and none of them is left out. -/
theorem meadowShader_keepsApart : ∃ l size,
    (meadowShader.assignLayout (fun _ => none) { stage := .fragment }).layout = some l ∧
      l.KeepsApart meadowShader (fun _ => none) size ∧
      l.slots.map (·.2.slot) = [0, 1, 2, 1, 3, 4] ∧ l.bindings.map (·.slot) = List.range 5 := by
  obtain ⟨l, size, hl, hkeeps, hrange⟩ :=
    keepsApart_layout (u := meadowShader) (v := fun _ => none) { stage := .fragment } (by decide)
  have hslots : l.slots.map (·.2.slot) = [0, 1, 2, 1, 3, 4] := by
    rw [(placeResources_of_layout hl).2.1]
    decide
  have hsize : size = 5 := by
    have hsizes := hkeeps.setSizes
    simp only [assignLayout] at hl
    obtain rfl := Option.some.inj hl
    exact (List.singleton_inj.mp hsizes).symm
  exact ⟨l, size, hl, hkeeps, hslots, hsize ▸ hrange (by decide)⟩

end ShaderUnit

end ShaderVariants
