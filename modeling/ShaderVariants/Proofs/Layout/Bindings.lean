import Mathlib
import ShaderVariants.Proofs.Analysis.Acceptance
import ShaderVariants.Proofs.Layout.Offsets
import ShaderVariants.Proofs.Layout.Slots

/-!
# Bindings of a layout

The bindings of a layout are told apart by their slots, since no slot is handed out twice
but for the one that the numbers of a block share.  The search for resources gets to its
end if all numbers have rows, and without a failure only if every declaration it comes across
is a number or can be bound.

## Main definitions

* `BlockSlots.Apart` — only numbers share a slot.

## Main results

* `BlockSlots.apart_ofBlock` — slots are handed out once.
* `Resources.nodup_bindings` — **no slot is bound twice**.
* `Resources.broken_ofBlocks`, `Resources.hasFailure_ofBlocks` — when the search gets to its
  end, and when without a failure.
-/

namespace ShaderVariants

/-! ### Slots of a block -/

namespace BlockSlots

/-- Declarations with the same slot have the shared one. -/
def Apart (s : BlockSlots) : Prop :=
  s.slots.Pairwise fun p q => p.2 = q.2 → s.shared = some p.2

variable {first : ℕ} {seen : List (DeclarationId × Declaration)} {s : BlockSlots}

/-- **One step**: a resource takes a slot that nothing has, and so does the first number. -/
theorem Apart.add (ha : s.Apart) (h : Claims first seen s) (m : DeclarationId × Declaration) :
    (s.add m).Apart := by
  -- the next free slot is above all that are taken
  have hfresh : ∀ p ∈ s.slots, p.2 ≠ s.next := fun p hp => ((h.bounds p hp).2).ne
  by_cases hres : m.2.type.isResource = true
  · rw [s.add_of_resource hres]
    refine List.pairwise_append.mpr ⟨ha, List.pairwise_singleton _ _, ?_⟩
    intro p hp q hq heq
    obtain rfl := List.mem_singleton.mp hq
    exact absurd heq (hfresh p hp)
  · by_cases hnum : m.2.type.numeric?.isSome = true
    · cases hshared : s.shared with
      | some slot =>
        rw [s.add_of_shared hnum hshared]
        refine List.pairwise_append.mpr ⟨ha, List.pairwise_singleton _ _, ?_⟩
        intro p hp q hq heq
        obtain rfl := List.mem_singleton.mp hq
        exact hshared.trans (congrArg some heq.symm)
      | none =>
        rw [s.add_of_unshared hnum hshared]
        refine List.pairwise_append.mpr ⟨?_, List.pairwise_singleton _ _, ?_⟩
        · refine ha.imp fun {p q} hpq heq => ?_
          rw [hshared] at hpq
          cases hpq heq
        · intro p hp q hq heq
          obtain rfl := List.mem_singleton.mp hq
          exact absurd heq (hfresh p hp)
    · rwa [s.add_of_other (not_or.mpr ⟨hres, hnum⟩)]

/-- **The whole pass** over the declarations of a block. -/
theorem Apart.foldl_add : ∀ (members seen : List (DeclarationId × Declaration)) (s : BlockSlots),
    s.Apart → Claims first seen s → (members.foldl BlockSlots.add s).Apart := by
  intro members
  induction members with
  | nil => exact fun _ _ ha _ => ha
  | cons m rest ih => exact fun seen s ha h => ih (seen ++ [m]) (s.add m) (ha.add h m) (h.add m)

/-- **Slots are handed out once**, but for the one that numbers share. -/
theorem apart_ofBlock (first : ℕ) (b : StorageBlock) (n : ℕ) : (ofBlock first b n).Apart :=
  Apart.foldl_add (b.members n) [] _ .nil (.start first)

/-- No other declaration has the slot of a resource. -/
theorem id_of_lookup_resource {b : StorageBlock} {n slot : ℕ} {id : DeclarationId}
    {m : DeclarationId × Declaration} (hm : m ∈ b.members n)
    (hres : m.2.type.isResource = true)
    (hslot : (ofBlock first b n).slots.lookup m.1 = some slot)
    (hslot' : (ofBlock first b n).slots.lookup id = some slot) : m.1 = id := by
  by_contra hne
  have hsymm : Std.Symm fun p q : DeclarationId × ℕ =>
      p.2 = q.2 → (ofBlock first b n).shared = some p.2 := ⟨fun p q h heq => heq ▸ h heq.symm⟩
  have hshared : (ofBlock first b n).shared = some slot :=
    (apart_ofBlock first b n).forall (mem_of_lookup hslot) (mem_of_lookup hslot')
      (fun heq => hne (Prod.mk.inj heq).1) rfl
  obtain ⟨slot', hfound, hapart⟩ := lookup_resource first hm hres
  obtain rfl : slot' = slot := Option.some.inj (hfound.symm.trans hslot)
  exact hapart hshared

end BlockSlots

/-! ### Bindings of a block -/

namespace StorageBlock

variable {first n : ℕ} {b : StorageBlock} {bs : List Binding}

theorem nodup_slots_ownBindings :
    ((b.ownBindings n (.ofBlock first b n)).map (·.slot)).Nodup := by
  have hids : (b.members n).Pairwise fun m m' => m ∈ b.members n ∧ m.1 ≠ m'.1 :=
    (List.pairwise_map.mp (b.nodup_ids n)).imp_of_mem fun hm _ hne => ⟨hm, hne⟩
  refine List.pairwise_map.mpr (hids.filterMap _ fun m m' h x hx x' hx' heq => ?_)
  obtain ⟨type, htype, hx⟩ := Option.bind_eq_some_iff.mp hx
  obtain ⟨slot, hslot, hx⟩ := Option.bind_eq_some_iff.mp hx
  obtain ⟨type', -, hx'⟩ := Option.bind_eq_some_iff.mp hx'
  obtain ⟨slot', hslot', hx'⟩ := Option.bind_eq_some_iff.mp hx'
  obtain rfl := Option.some.inj hx
  obtain rfl := Option.some.inj hx'
  obtain rfl : slot = slot' := heq
  have hres := DataType.isResource_of_binding? (Option.isSome_of_eq_some htype)
  exact h.2 (BlockSlots.id_of_lookup_resource h.1 hres hslot hslot')

theorem nodup_slots_bindings? (h : b.bindings? n (.ofBlock first b n) = some bs) :
    (bs.map (·.slot)).Nodup := by
  unfold bindings? at h
  split at h
  · obtain rfl := Option.some.inj h
    exact nodup_slots_ownBindings
  · next slot hshared =>
    obtain ⟨s, -, rfl⟩ := Option.map_eq_some_iff.mp h
    rw [List.map_append, List.map_singleton]
    refine nodup_slots_ownBindings.append (List.nodup_singleton _) ?_
    intro slot' hslot' hmem
    obtain rfl : slot' = slot := List.mem_singleton.mp hmem
    obtain ⟨x, hx, rfl⟩ := List.mem_map.mp hslot'
    exact (slot_of_mem_ownBindings hx).2.2 hshared

end StorageBlock

/-! ### Types with rows -/

theorem NumericType.alignment_ne_zero {t : NumericType} (h : t.rows ≠ 0) : t.alignment ≠ 0 := by
  have hrows : t.rows.toNat ≠ 0 := fun hzero => h (UInt8.toNat_inj.mp hzero)
  unfold alignment columnSize
  split_ifs <;> omega

/-- Members with rows have a place. -/
theorem StorageBlock.isSome_bindings? {b : StorageBlock}
    (h : ∀ m ∈ b.numericMembers, m.2.rows ≠ 0) (n : ℕ) (slots : BlockSlots) :
    (b.bindings? n slots).isSome = true := by
  have hany : (b.numericMembers.any fun m => m.2.alignment == 0) = false := by
    refine List.any_eq_false.mpr fun m hm => ?_
    simpa using NumericType.alignment_ne_zero (h m hm)
  unfold bindings? StructureType.ofMembers?
  rw [hany]
  cases slots.shared <;> rfl

/-- A declaration is a number or can be bound, or else the search for resources complains. -/
theorem StorageBlock.hasFailure_diagnoseResource (d : Declaration) :
    hasFailure (diagnoseResource d) = false ↔
      d.type.binding?.isSome = true ∨ d.type.numeric?.isSome = true := by
  unfold diagnoseResource
  split_ifs with hres hbinding hnum
  · exact iff_of_true rfl (.inl hbinding)
  · refine iff_of_false (hasFailure_singleton rfl) (not_or.mpr ⟨hbinding, fun hnum => ?_⟩)
    exact Bool.false_ne_true ((DataType.isResource_eq_false hnum).symm.trans hres)
  · exact iff_of_true rfl (.inr hnum)
  · refine iff_of_false (hasFailure_singleton rfl) (not_or.mpr ⟨fun hbinding => ?_, hnum⟩)
    exact hres (DataType.isResource_of_binding? hbinding)

/-! ### All blocks -/

namespace Resources

/-- **No slot is bound twice.** -/
theorem nodup_bindings : ∀ (blocks : List (ℕ × StorageBlock)) (next : ℕ),
    (ofBlocks next blocks).broken = false →
    ((ofBlocks next blocks).bindings.map (·.slot)).Nodup := by
  intro blocks
  induction blocks with
  | nil => exact fun _ _ => List.nodup_nil
  | cons p rest ih =>
    intro next hbroken
    obtain ⟨bs, hbs, hrest, hbindings, -⟩ := ofBlocks_cons hbroken
    rw [hbindings, List.map_append]
    refine (StorageBlock.nodup_slots_bindings? hbs).append (ih _ hrest) ?_
    -- a block takes lower slots than all after it
    intro slot hslot hslot'
    obtain ⟨x, hx, rfl⟩ := List.mem_map.mp hslot
    obtain ⟨x', hx', heq⟩ := List.mem_map.mp hslot'
    have hlt := (StorageBlock.bounds_of_mem_bindings? hbs hx).2
    have hle := le_slot_of_mem_bindings rest _ hrest hx'
    omega

/-- If all numbers have rows, the search for resources gets to its end. -/
theorem broken_ofBlocks : ∀ (blocks : List (ℕ × StorageBlock)) (next : ℕ),
    (∀ p ∈ blocks, ∀ m ∈ p.2.numericMembers, m.2.rows ≠ 0) →
    (ofBlocks next blocks).broken = false := by
  intro blocks
  induction blocks with
  | nil => exact fun _ _ => rfl
  | cons p rest ih =>
    intro next h
    obtain ⟨hhead, htail⟩ := List.forall_mem_cons.mp h
    obtain ⟨bs, hbs⟩ := Option.isSome_iff_exists.mp
      (StorageBlock.isSome_bindings? hhead p.1 (.ofMembers next (p.2.members p.1)))
    rw [ofBlocks]
    simp only [hbs]
    exact ih _ htail

/-- Without a failure, every declaration is a number or can be bound. -/
theorem hasFailure_ofBlocks : ∀ (blocks : List (ℕ × StorageBlock)) (next : ℕ),
    (ofBlocks next blocks).broken = false →
    (hasFailure (ofBlocks next blocks).diagnostics = false ↔
      ∀ p ∈ blocks, ∀ d ∈ p.2.declarations,
        d.type.binding?.isSome = true ∨ d.type.numeric?.isSome = true) := by
  intro blocks
  induction blocks with
  | nil => exact fun _ _ => iff_of_true rfl (by simp)
  | cons p rest ih =>
    intro next hbroken
    obtain ⟨bs, hbs, hrest, -, -⟩ := ofBlocks_cons hbroken
    have hdiagnostics : (ofBlocks next (p :: rest)).diagnostics =
        p.2.declarations.flatMap StorageBlock.diagnoseResource ++
          (ofBlocks (BlockSlots.ofBlock next p.2 p.1).next rest).diagnostics := by
      have hbs' : p.2.bindings? p.1 (.ofMembers next (p.2.members p.1)) = some bs := hbs
      rw [ofBlocks]
      simp only [hbs']
      rfl
    rw [hdiagnostics, hasFailure_append, Bool.or_eq_false_iff, ih _ hrest, List.forall_mem_cons,
      hasFailure_flatMap, List.any_eq_false]
    simp only [Bool.not_eq_true, StorageBlock.hasFailure_diagnoseResource]

end Resources

end ShaderVariants
