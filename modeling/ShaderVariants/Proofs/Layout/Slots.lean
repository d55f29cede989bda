import Mathlib
import ShaderVariants.Layout.Assign
import ShaderVariants.Proofs.Keyed

/-!
# Slots of resources

Slots are handed out in one pass over the declarations of the active resource blocks.
What one step preserves is stated once, in `BlockSlots.Claims`; the places of a whole
block, and then of all blocks, follow by induction.

## Main definitions

* `DataType.TakesSlot` — the types that get a place.
* `BlockSlots.Claims first seen s` — the slots `s` after the declarations `seen` of a block
  that began at the slot `first`.
* `Resources.Hosts` — the part of all resources that belongs to one block.

## Main results

* `BlockSlots.claims_ofBlock` — what the slots of a block look like.
* `Resources.hosts_ofBlocks` — **every block keeps a range of slots to itself**.
-/

namespace ShaderVariants

/-- Resources and numbers get a slot. -/
def DataType.TakesSlot (t : DataType) : Prop := t.isResource = true ∨ t.numeric?.isSome = true

instance (t : DataType) : Decidable t.TakesSlot := inferInstanceAs (Decidable (_ ∨ _))

theorem DataType.isResource_eq_false {t : DataType} (h : t.numeric?.isSome = true) :
    t.isResource = false := by
  cases t <;> first | rfl | cases h

theorem DataType.isResource_of_binding? {t : DataType} (h : t.binding?.isSome = true) :
    t.isResource = true := by
  cases t <;> first | rfl | cases h

/-! ### Declarations of a block -/

namespace StorageBlock

variable (b : StorageBlock) (n : ℕ)

theorem map_snd_members : (b.members n).map (·.2) = b.declarations := by
  rw [members, List.map_map]
  exact List.zipIdx_map_fst 0 b.declarations

theorem block_of_mem_members {m : DeclarationId × Declaration} (h : m ∈ b.members n) :
    m.1.block = n := by
  obtain ⟨p, -, rfl⟩ := List.mem_map.mp h
  rfl

theorem nodup_ids : ((b.members n).map (·.1)).Nodup := by
  have hids : (b.members n).map (·.1) =
      (b.declarations.zipIdx.map Prod.snd).map (DeclarationId.mk n) := by
    rw [members, List.map_map, List.map_map]
    rfl
  rw [hids, List.zipIdx_map_snd]
  refine List.Nodup.map (fun i j hij => ?_) List.nodup_range'
  exact (DeclarationId.mk.inj hij).2

end StorageBlock

/-! ### One block -/

namespace BlockSlots

section Steps

variable (s : BlockSlots) {m : DeclarationId × Declaration}

theorem add_of_resource (hres : m.2.type.isResource = true) :
    s.add m = { s with next := s.next + 1, slots := s.slots ++ [(m.1, s.next)] } := if_pos hres

theorem add_of_shared (hnum : m.2.type.numeric?.isSome = true) {slot : ℕ}
    (hshared : s.shared = some slot) :
    s.add m = { s with slots := s.slots ++ [(m.1, slot)] } := by
  simp [add, DataType.isResource_eq_false hnum, hnum, hshared]

theorem add_of_unshared (hnum : m.2.type.numeric?.isSome = true) (hshared : s.shared = none) :
    s.add m = ⟨s.next + 1, some s.next, s.slots ++ [(m.1, s.next)]⟩ := by
  simp [add, DataType.isResource_eq_false hnum, hnum, hshared]

theorem add_of_other (h : ¬ m.2.type.TakesSlot) : s.add m = s := by
  obtain ⟨hres, hnum⟩ := not_or.mp h
  simp [add, hres, hnum]

end Steps

/-- The slots of a block that began at the slot `first`, after some of its declarations.
Every declaration that needs a slot has one between `first` and the next free slot; the
numbers have the shared slot, and no resource has it. -/
structure Claims (first : ℕ) (seen : List (DeclarationId × Declaration)) (s : BlockSlots) :
    Prop where
  le_next : first ≤ s.next
  ids : s.slots.map (·.1) = (seen.filter fun m => m.2.type.TakesSlot).map (·.1)
  bounds : ∀ p ∈ s.slots, first ≤ p.2 ∧ p.2 < s.next
  shared_bounds : ∀ slot, s.shared = some slot → first ≤ slot ∧ slot < s.next
  shared_isSome : s.shared.isSome = true ↔ ∃ m ∈ seen, m.2.type.numeric?.isSome = true
  number : ∀ m ∈ seen, m.2.type.numeric?.isSome = true →
    ∃ slot, s.shared = some slot ∧ (m.1, slot) ∈ s.slots
  resource : ∀ m ∈ seen, m.2.type.isResource = true →
    ∃ slot, (m.1, slot) ∈ s.slots ∧ s.shared ≠ some slot

namespace Claims

variable {first : ℕ} {seen : List (DeclarationId × Declaration)} {s : BlockSlots}

theorem start (first : ℕ) : Claims first [] { next := first } where
  le_next := le_rfl
  ids := rfl
  bounds := by simp
  shared_bounds := by simp
  shared_isSome := by simp
  number := by simp
  resource := by simp

/-- A resource takes the next free slot. -/
theorem add_resource (h : Claims first seen s) {m : DeclarationId × Declaration}
    (hm : m.2.type.isResource = true) : Claims first (seen ++ [m]) (s.add m) := by
  have hnum : m.2.type.numeric?.isSome = false := by
    by_contra hne
    rw [DataType.isResource_eq_false (Bool.not_eq_false _ ▸ hne)] at hm
    exact Bool.false_ne_true hm
  rw [s.add_of_resource hm]
  refine ⟨?_, ?_, ?_, ?_, ?_, ?_, ?_⟩
  · exact Nat.le_succ_of_le h.le_next
  · simp [h.ids, DataType.TakesSlot, hm]
  · intro p hp
    rcases List.mem_append.mp hp with hp | hp
    · have := h.bounds p hp
      exact ⟨this.1, Nat.lt_succ_of_lt this.2⟩
    · obtain rfl := List.mem_singleton.mp hp
      exact ⟨h.le_next, Nat.lt_succ_self _⟩
  · intro slot hslot
    have := h.shared_bounds slot hslot
    exact ⟨this.1, Nat.lt_succ_of_lt this.2⟩
  · simp [h.shared_isSome, hnum]
  · intro n hn hnn
    rcases List.mem_append.mp hn with hn | hn
    · obtain ⟨slot, hslot, hmem⟩ := h.number n hn hnn
      exact ⟨slot, hslot, List.mem_append_left _ hmem⟩
    · obtain rfl := List.mem_singleton.mp hn
      exact absurd hnn (by simp [hnum])
  · intro n hn hnr
    rcases List.mem_append.mp hn with hn | hn
    · obtain ⟨slot, hmem, hne⟩ := h.resource n hn hnr
      exact ⟨slot, List.mem_append_left _ hmem, hne⟩
    · obtain rfl := List.mem_singleton.mp hn
      -- the shared slot was taken earlier, so it is not the next free one
      refine ⟨s.next, List.mem_append_right _ (List.mem_singleton_self _), fun hshared => ?_⟩
      exact absurd (h.shared_bounds _ hshared).2 (lt_irrefl _)

/-- A number takes the shared slot `slot`, which is the next free one if none has been
claimed yet. -/
theorem add_number (h : Claims first seen s) {m : DeclarationId × Declaration}
    (hm : m.2.type.numeric?.isSome = true) {next slot : ℕ} (hnext : s.next ≤ next)
    (hlt : slot < next) (hslot : s.shared = some slot ∨ s.shared = none ∧ slot = s.next) :
    Claims first (seen ++ [m])
      { next, shared := some slot, slots := s.slots ++ [(m.1, slot)] } := by
  have hfirst : first ≤ slot := by
    rcases hslot with hslot | ⟨-, rfl⟩
    · exact (h.shared_bounds slot hslot).1
    · exact h.le_next
  refine ⟨?_, ?_, ?_, ?_, ?_, ?_, ?_⟩
  · exact h.le_next.trans hnext
  · simp [h.ids, DataType.TakesSlot, hm]
  · intro p hp
    rcases List.mem_append.mp hp with hp | hp
    · have := h.bounds p hp
      exact ⟨this.1, this.2.trans_le hnext⟩
    · obtain rfl := List.mem_singleton.mp hp
      exact ⟨hfirst, hlt⟩
  · rintro _ ⟨⟩
    exact ⟨hfirst, hlt⟩
  · simp [hm]
  · intro n hn hnn
    refine ⟨slot, rfl, ?_⟩
    rcases List.mem_append.mp hn with hn | hn
    · -- earlier numbers have the shared slot, so it was claimed before
      obtain ⟨slot', hshared, hmem⟩ := h.number n hn hnn
      rcases hslot with hslot | ⟨hnone, -⟩
      · obtain rfl : slot' = slot := Option.some.inj (hshared.symm.trans hslot)
        exact List.mem_append_left _ hmem
      · exact absurd (hnone.symm.trans hshared) (by simp)
    · obtain rfl := List.mem_singleton.mp hn
      exact List.mem_append_right _ (List.mem_singleton_self _)
  · intro n hn hnr
    rcases List.mem_append.mp hn with hn | hn
    · obtain ⟨slot', hmem, hne⟩ := h.resource n hn hnr
      refine ⟨slot', List.mem_append_left _ hmem, fun heq => ?_⟩
      obtain rfl : slot = slot' := Option.some.inj heq
      -- a slot that is claimed for numbers only now was not given to a resource
      rcases hslot with hslot | ⟨-, rfl⟩
      · exact hne hslot
      · exact absurd (h.bounds _ hmem).2 (lt_irrefl _)
    · obtain rfl := List.mem_singleton.mp hn
      exact absurd hnr (by simp [DataType.isResource_eq_false hm])

/-- A declaration of another type changes nothing. -/
theorem add_other (h : Claims first seen s) {m : DeclarationId × Declaration}
    (hm : ¬ m.2.type.TakesSlot) : Claims first (seen ++ [m]) s := by
  obtain ⟨hres, hnum⟩ := not_or.mp hm
  refine ⟨h.le_next, ?_, h.bounds, h.shared_bounds, ?_, ?_, ?_⟩
  · simp [h.ids, hm]
  · simp [h.shared_isSome, hnum]
  · intro n hn hnn
    rcases List.mem_append.mp hn with hn | hn
    · exact h.number n hn hnn
    · exact absurd (List.mem_singleton.mp hn ▸ hnn) hnum
  · intro n hn hnr
    rcases List.mem_append.mp hn with hn | hn
    · exact h.resource n hn hnr
    · exact absurd (List.mem_singleton.mp hn ▸ hnr) hres

/-- **One step**: taking a slot for the next declaration. -/
theorem add (h : Claims first seen s) (m : DeclarationId × Declaration) :
    Claims first (seen ++ [m]) (s.add m) := by
  by_cases hres : m.2.type.isResource = true
  · exact h.add_resource hres
  · by_cases hnum : m.2.type.numeric?.isSome = true
    · cases hshared : s.shared with
      | some slot =>
        have hlt := (h.shared_bounds slot hshared).2
        rw [s.add_of_shared hnum hshared, hshared]
        exact h.add_number hnum le_rfl hlt (.inl hshared)
      | none =>
        rw [s.add_of_unshared hnum hshared]
        exact h.add_number hnum (Nat.le_succ _) (Nat.lt_succ_self _) (.inr ⟨hshared, rfl⟩)
    · have hother : ¬ m.2.type.TakesSlot := not_or.mpr ⟨hres, hnum⟩
      rw [s.add_of_other hother]
      exact h.add_other hother

/-- **The whole pass** over the declarations of a block. -/
theorem foldl_add : ∀ (members seen : List (DeclarationId × Declaration)) (s : BlockSlots),
    Claims first seen s → Claims first (seen ++ members) (members.foldl BlockSlots.add s) := by
  intro members
  induction members with
  | nil => exact fun seen s h => by rwa [List.append_nil]
  | cons m rest ih =>
    intro seen s h
    have := ih (seen ++ [m]) (s.add m) (h.add m)
    rwa [List.append_assoc, List.singleton_append] at this

end Claims

/-! ### Places of a block's declarations -/

section Places

variable (first : ℕ) (b : StorageBlock) (n : ℕ)

/-- The places of the declarations of block number `n`. -/
def ofBlock : BlockSlots := ofMembers first (b.members n)

/-- The slots of a block are what its declarations claim. -/
theorem claims_ofBlock : Claims first (b.members n) (ofBlock first b n) :=
  Claims.foldl_add (b.members n) [] _ (.start first)

theorem nodup_ids_ofBlock : ((ofBlock first b n).slots.map (·.1)).Nodup := by
  rw [(claims_ofBlock first b n).ids]
  exact (List.filter_sublist.map _).nodup (b.nodup_ids n)

theorem block_of_mem_slots {p : DeclarationId × ℕ} (hp : p ∈ (ofBlock first b n).slots) :
    p.1.block = n := by
  have hid : p.1 ∈ (ofBlock first b n).slots.map (·.1) := List.mem_map_of_mem hp
  rw [(claims_ofBlock first b n).ids] at hid
  obtain ⟨m, hm, heq⟩ := List.mem_map.mp hid
  exact heq ▸ b.block_of_mem_members n (List.mem_of_mem_filter hm)

variable {b n} {m : DeclarationId × Declaration} (hm : m ∈ b.members n)

include hm

theorem lookup_number (hnum : m.2.type.numeric?.isSome = true) :
    ∃ slot, (ofBlock first b n).shared = some slot ∧
      (ofBlock first b n).slots.lookup m.1 = some slot := by
  obtain ⟨slot, hshared, hmem⟩ := (claims_ofBlock first b n).number m hm hnum
  exact ⟨slot, hshared, lookup_of_mem (nodup_ids_ofBlock first b n) hmem⟩

theorem lookup_resource (hres : m.2.type.isResource = true) :
    ∃ slot, (ofBlock first b n).slots.lookup m.1 = some slot ∧
      (ofBlock first b n).shared ≠ some slot := by
  obtain ⟨slot, hmem, hne⟩ := (claims_ofBlock first b n).resource m hm hres
  exact ⟨slot, lookup_of_mem (nodup_ids_ofBlock first b n) hmem, hne⟩

theorem lookup_other (hother : ¬ m.2.type.TakesSlot) :
    (ofBlock first b n).slots.lookup m.1 = none := by
  refine lookup_eq_none fun hid => hother ?_
  rw [(claims_ofBlock first b n).ids] at hid
  obtain ⟨m', hm', heq⟩ := List.mem_map.mp hid
  obtain rfl : m' = m :=
    List.inj_on_of_nodup_map (b.nodup_ids n) (List.mem_of_mem_filter hm') hm heq
  simpa using (List.mem_filter.mp hm').2

end Places

end BlockSlots

/-! ### Bindings of a block -/

namespace StorageBlock

variable {first : ℕ} {b : StorageBlock} {n : ℕ} {bs : List Binding}

/-- The images, samplers and buffers keep away from the shared slot. -/
theorem slot_of_mem_ownBindings {x : Binding}
    (hx : x ∈ b.ownBindings n (.ofBlock first b n)) :
    first ≤ x.slot ∧ x.slot < (BlockSlots.ofBlock first b n).next ∧
      (BlockSlots.ofBlock first b n).shared ≠ some x.slot := by
  obtain ⟨⟨id, d⟩, hm, hx⟩ := List.mem_filterMap.mp hx
  obtain ⟨type, htype, hx⟩ := Option.bind_eq_some_iff.mp hx
  obtain ⟨slot, hslot, hx⟩ := Option.bind_eq_some_iff.mp hx
  obtain rfl := Option.some.inj hx
  have hres : d.type.isResource = true :=
    DataType.isResource_of_binding? (Option.isSome_of_eq_some htype)
  obtain ⟨slot', hslot', hne⟩ := BlockSlots.lookup_resource first hm hres
  obtain rfl : slot' = slot := Option.some.inj (hslot'.symm.trans hslot)
  have hbounds := (BlockSlots.claims_ofBlock first b n).bounds _ (mem_of_lookup hslot)
  exact ⟨hbounds.1, hbounds.2, hne⟩

theorem bounds_of_mem_bindings? (h : b.bindings? n (.ofBlock first b n) = some bs)
    {x : Binding} (hx : x ∈ bs) :
    first ≤ x.slot ∧ x.slot < (BlockSlots.ofBlock first b n).next := by
  unfold bindings? at h
  split at h
  · obtain rfl := Option.some.inj h
    have := slot_of_mem_ownBindings hx
    exact ⟨this.1, this.2.1⟩
  · rename_i slot hshared
    obtain ⟨s, -, rfl⟩ := Option.map_eq_some_iff.mp h
    rcases List.mem_append.mp hx with hx | hx
    · have := slot_of_mem_ownBindings hx
      exact ⟨this.1, this.2.1⟩
    · obtain rfl := List.mem_singleton.mp hx
      exact (BlockSlots.claims_ofBlock first b n).shared_bounds slot hshared

/-- The numbers of a block form the only structure at their slot. -/
theorem structureBinding_of_bindings? (h : b.bindings? n (.ofBlock first b n) = some bs)
    {slot : ℕ} (hshared : (BlockSlots.ofBlock first b n).shared = some slot) :
    ∃ s, StructureType.ofMembers? b.numericMembers = some s ∧
      b.structureBinding slot s ∈ bs ∧
      ∀ x ∈ bs, x.slot = slot → x = b.structureBinding slot s := by
  unfold bindings? at h
  rw [hshared] at h
  obtain ⟨s, hs, rfl⟩ := Option.map_eq_some_iff.mp h
  refine ⟨s, hs, List.mem_append_right _ (List.mem_singleton_self _), fun x hx hslot => ?_⟩
  rcases List.mem_append.mp hx with hx | hx
  · exact absurd (hslot ▸ hshared) (slot_of_mem_ownBindings hx).2.2
  · exact List.mem_singleton.mp hx

end StorageBlock

/-! ### All blocks -/

namespace Resources

/-- Of the resources `r`, block number `n` has the bindings `bs`, the slots from `first`
up to its next free one, and the places of its own declarations. -/
structure Hosts (r : Resources) (first n : ℕ) (b : StorageBlock) (bs : List Binding) :
    Prop where
  bindings : b.bindings? n (.ofBlock first b n) = some bs
  mem_bindings : ∀ x ∈ bs, x ∈ r.bindings
  of_slot : ∀ x ∈ r.bindings, first ≤ x.slot → x.slot < (BlockSlots.ofBlock first b n).next →
    x ∈ bs
  lookup : ∀ m ∈ b.members n, r.slots.lookup m.1 =
    ((BlockSlots.ofBlock first b n).slots.lookup m.1).map fun slot => { set := 0, slot }

/-- The search only ends early at a broken block. -/
theorem ofBlocks_cons {next n : ℕ} {b : StorageBlock} {rest : List (ℕ × StorageBlock)}
    (h : (ofBlocks next ((n, b) :: rest)).broken = false) :
    ∃ bs, b.bindings? n (.ofBlock next b n) = some bs ∧
      (ofBlocks (BlockSlots.ofBlock next b n).next rest).broken = false ∧
      (ofBlocks next ((n, b) :: rest)).bindings =
        bs ++ (ofBlocks (BlockSlots.ofBlock next b n).next rest).bindings ∧
      (ofBlocks next ((n, b) :: rest)).slots =
        (BlockSlots.ofBlock next b n).slots.map
            (fun (id, slot) => (id, ({ set := 0, slot } : ResourceSlot))) ++
          (ofBlocks (BlockSlots.ofBlock next b n).next rest).slots := by
  simp only [ofBlocks] at h ⊢
  split at h
  · cases h
  · rename_i bs hbs
    exact ⟨bs, hbs, h, rfl, rfl⟩

/-- Later blocks take later slots. -/
theorem le_slot_of_mem_bindings {x : Binding} : ∀ (blocks : List (ℕ × StorageBlock)) (next : ℕ),
    (ofBlocks next blocks).broken = false → x ∈ (ofBlocks next blocks).bindings →
    next ≤ x.slot := by
  intro blocks
  induction blocks with
  | nil => exact fun _ _ hx => absurd hx List.not_mem_nil
  | cons e rest ih =>
    intro next hbroken hx
    obtain ⟨bs, hbs, hrest, hbindings, -⟩ := ofBlocks_cons hbroken
    rw [hbindings] at hx
    rcases List.mem_append.mp hx with hx | hx
    · exact (StorageBlock.bounds_of_mem_bindings? hbs hx).1
    · exact (BlockSlots.claims_ofBlock next e.2 e.1).le_next.trans (ih _ hrest hx)

/-- Only declarations of the given blocks get a place. -/
theorem block_of_mem_slots {p : DeclarationId × ResourceSlot} :
    ∀ (blocks : List (ℕ × StorageBlock)) (next : ℕ),
    (ofBlocks next blocks).broken = false → p ∈ (ofBlocks next blocks).slots →
    p.1.block ∈ blocks.map (·.1) := by
  intro blocks
  induction blocks with
  | nil => exact fun _ _ hp => absurd hp List.not_mem_nil
  | cons e rest ih =>
    intro next hbroken hp
    obtain ⟨bs, hbs, hrest, -, hslots⟩ := ofBlocks_cons hbroken
    rw [hslots] at hp
    rcases List.mem_append.mp hp with hp | hp
    · obtain ⟨q, hq, rfl⟩ := List.mem_map.mp hp
      have hblock : q.1.block = e.1 := BlockSlots.block_of_mem_slots next e.2 e.1 hq
      exact hblock ▸ List.mem_cons_self
    · exact List.mem_cons_of_mem _ (ih _ hrest hp)

/-- The declarations of the first block are found where that block put them. -/
theorem lookup_ofBlocks_head {next n : ℕ} {b : StorageBlock} {rest : List (ℕ × StorageBlock)}
    (hbroken : (ofBlocks next ((n, b) :: rest)).broken = false) (hn : n ∉ rest.map (·.1))
    {m : DeclarationId × Declaration} (hm : m ∈ b.members n) :
    (ofBlocks next ((n, b) :: rest)).slots.lookup m.1 =
      ((BlockSlots.ofBlock next b n).slots.lookup m.1).map fun slot => { set := 0, slot } := by
  obtain ⟨bs, -, hrest, -, hslots⟩ := ofBlocks_cons hbroken
  have hlater : (ofBlocks (BlockSlots.ofBlock next b n).next rest).slots.lookup m.1 = none := by
    refine lookup_eq_none fun hid => hn ?_
    obtain ⟨p, hp, heq⟩ := List.mem_map.mp hid
    have := block_of_mem_slots rest _ hrest hp
    rwa [heq, b.block_of_mem_members n hm] at this
  rw [hslots, List.lookup_append, hlater, Option.or_none, lookup_map_value]

/-- The first block has no place for the declarations of others. -/
theorem lookup_ofBlocks_tail {next n n' : ℕ} {b b' : StorageBlock}
    {rest : List (ℕ × StorageBlock)}
    (hbroken : (ofBlocks next ((n, b) :: rest)).broken = false) (hne : n' ≠ n)
    {m : DeclarationId × Declaration} (hm : m ∈ b'.members n') :
    (ofBlocks next ((n, b) :: rest)).slots.lookup m.1 =
      (ofBlocks (BlockSlots.ofBlock next b n).next rest).slots.lookup m.1 := by
  obtain ⟨bs, -, -, -, hslots⟩ := ofBlocks_cons hbroken
  have hearlier : (BlockSlots.ofBlock next b n).slots.lookup m.1 = none := by
    refine lookup_eq_none fun hid => hne ?_
    obtain ⟨p, hp, heq⟩ := List.mem_map.mp hid
    have := BlockSlots.block_of_mem_slots next b n hp
    rwa [heq, b'.block_of_mem_members n' hm] at this
  rw [hslots, List.lookup_append, lookup_map_value, hearlier, Option.map_none, Option.none_or]

/-- **Every block keeps a range of slots to itself**, and its declarations are found where
the block put them. -/
theorem hosts_ofBlocks : ∀ (blocks : List (ℕ × StorageBlock)) (next : ℕ),
    (blocks.map (·.1)).Nodup → (ofBlocks next blocks).broken = false →
    ∀ {n : ℕ} {b : StorageBlock}, (n, b) ∈ blocks →
    ∃ first bs, next ≤ first ∧ Hosts (ofBlocks next blocks) first n b bs := by
  intro blocks
  induction blocks with
  | nil => exact fun _ _ _ _ _ hb => absurd hb List.not_mem_nil
  | cons e rest ih =>
    intro next hnodup hbroken n b hb
    obtain ⟨hhead, htail⟩ := List.nodup_cons.mp hnodup
    obtain ⟨bs, hbs, hrest, hbindings, -⟩ := ofBlocks_cons hbroken
    rcases List.mem_cons.mp hb with rfl | hb
    · refine ⟨next, bs, le_rfl, hbs, ?_, ?_, ?_⟩
      · intro x hx
        exact hbindings ▸ List.mem_append_left _ hx
      · intro x hx hfirst hlt
        rcases List.mem_append.mp (hbindings ▸ hx) with hx | hx
        · exact hx
        · exact absurd (le_slot_of_mem_bindings rest _ hrest hx) (not_le.mpr hlt)
      · exact fun m hm => lookup_ofBlocks_head hbroken hhead hm
    · have hne : n ≠ e.1 := by
        rintro rfl
        exact hhead (List.mem_map_of_mem (f := (·.1)) hb)
      obtain ⟨first, bs', hfirst, h⟩ := ih _ htail hrest hb
      have hnext := (BlockSlots.claims_ofBlock next e.2 e.1).le_next
      refine ⟨first, bs', hnext.trans hfirst, h.bindings, ?_, ?_, ?_⟩
      · intro x hx
        exact hbindings ▸ List.mem_append_right _ (h.mem_bindings x hx)
      · intro x hx hle hlt
        rcases List.mem_append.mp (hbindings ▸ hx) with hx | hx
        · have := (StorageBlock.bounds_of_mem_bindings? hbs hx).2
          exact absurd (this.trans_le hfirst) (not_lt.mpr hle)
        · exact h.of_slot x hx hle hlt
      · intro m hm
        rw [lookup_ofBlocks_tail hbroken hne hm]
        exact h.lookup m hm

end Resources

/-! ### Active blocks -/

namespace ShaderUnit

variable {u : ShaderUnit}

/-- Storage blocks are told apart by their numbers. -/
theorem nodup_numbers (u : ShaderUnit) : (u.storageBlocks.map (·.1)).Nodup := by
  have hzip : u.blocks.zipIdx.Pairwise fun x y => x.2 ≠ y.2 :=
    List.pairwise_map.mp (List.zipIdx_map_snd 0 u.blocks ▸ List.nodup_range')
  refine List.pairwise_map.mpr (hzip.filterMap _ fun x y hne p hp q hq => ?_)
  obtain ⟨b, -, rfl⟩ := Option.map_eq_some_iff.mp hp
  obtain ⟨b', -, rfl⟩ := Option.map_eq_some_iff.mp hq
  exact hne

theorem nodup_blocksOf {kinds : List StorageKind} (h : kinds.Nodup) :
    ((u.blocksOf kinds).map (·.1)).Nodup := by
  have hnodup : (u.blocksOf kinds).Nodup := by
    refine List.nodup_flatMap.mpr ⟨fun kind _ => u.nodup_numbers.of_map.filter _, ?_⟩
    refine h.imp fun {kind kind'} hne p hp hp' => hne ?_
    have hkind := (List.mem_filter.mp hp).2
    have hkind' := (List.mem_filter.mp hp').2
    rw [decide_eq_true_eq] at hkind hkind'
    exact hkind.symm.trans hkind'
  -- blocks that occur once have one number each
  refine List.Nodup.map_on (fun p hp q hq heq => ?_) hnodup
  exact List.inj_on_of_nodup_map u.nodup_numbers (mem_blocksOf.mp hp).1
    (mem_blocksOf.mp hq).1 heq

theorem nodup_activeBlocks {kinds : List StorageKind} (h : kinds.Nodup) (v : Valuation) :
    ((u.activeBlocks v kinds).map (·.1)).Nodup :=
  (List.filter_sublist.map _).nodup (nodup_blocksOf h)

theorem nodup_resourceKinds (v : Valuation) : (resourceKinds v).Nodup := by
  unfold resourceKinds
  split <;> decide

end ShaderUnit

end ShaderVariants
