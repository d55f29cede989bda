import Mathlib
import ShaderVariants.Proofs.Layout.Slots

/-!
# Locations between the stages

What the vertex stage hands on is numbered: first the varyings, then the instance variables
that the fragment stage reads.  A declaration is numbered by its place in the source, so a
layout never takes one for another.

## Main definitions

* `Layout.Assigned` — a layout that was assigned for a fragment stage.

## Main results

* `ShaderUnit.filterMap_lookup_number` — declarations are found in the order of their
  numbers.
* `ShaderUnit.exists_transferred` — the numbered instance variables.
* `Layout.Assigned.outLocation_eq_some_iff` — what is handed on is found by its location.
* `Layout.Assigned.outLocation_injective` — **no two declarations are handed on at one
  location.**
-/

namespace ShaderVariants

namespace ShaderUnit

variable {u : ShaderUnit} {v : Valuation}

/-! ### Declarations and their places -/

/-- Declarations are told apart by their places. -/
theorem nodup_members {blocks : List (ℕ × StorageBlock)} (h : (blocks.map (·.1)).Nodup) :
    ((blocks.flatMap fun p => p.2.members p.1).map (·.1)).Nodup := by
  rw [List.map_flatMap]
  refine List.nodup_flatMap.mpr ⟨fun p _ => p.2.nodup_ids p.1, ?_⟩
  refine (List.pairwise_map.mp h).imp fun {p q} hne id hp hq => hne ?_
  -- a place says which block it is in
  obtain ⟨m, hm, rfl⟩ := List.mem_map.mp hp
  obtain ⟨m', hm', heq⟩ := List.mem_map.mp hq
  rw [← p.2.block_of_mem_members p.1 hm, ← q.2.block_of_mem_members q.1 hm', heq]

theorem declaration_of_mem {n : ℕ} {b : StorageBlock} (hb : (n, b) ∈ u.storageBlocks)
    {m : DeclarationId × Declaration} (hm : m ∈ b.members n) : u.declaration? m.1 = some m.2 := by
  obtain ⟨⟨block, i⟩, hblock, heq⟩ := List.mem_filterMap.mp hb
  obtain ⟨b', hstorage, hpair⟩ := Option.map_eq_some_iff.mp heq
  obtain ⟨rfl, rfl⟩ := Prod.mk.inj hpair
  obtain ⟨⟨d, index⟩, hd, rfl⟩ := List.mem_map.mp hm
  rw [List.mem_zipIdx_iff_getElem?] at hblock hd
  unfold declaration?
  dsimp only at hblock hd hstorage ⊢
  rw [hblock, Option.bind_some, hstorage, Option.bind_some, hd]

/-- Kind by kind, the active blocks come one after the other. -/
theorem activeBlocks_cons (kind : StorageKind) (kinds : List StorageKind) :
    u.activeBlocks v (kind :: kinds) = u.activeBlocks v [kind] ++ u.activeBlocks v kinds := by
  simp [activeBlocks, blocksOf]

theorem activeMembers_cons (kind : StorageKind) (kinds : List StorageKind) :
    u.activeMembers v (kind :: kinds) = u.activeMembers v [kind] ++ u.activeMembers v kinds := by
  rw [activeMembers, activeBlocks_cons, List.flatMap_append, activeMembers, activeMembers]

/-- A declaration of a block of another kind is not among those of active blocks. -/
theorem not_mem_ids {kinds : List StorageKind} {n : ℕ} {b : StorageBlock}
    (hb : (n, b) ∈ u.storageBlocks) (hkind : b.kind ∉ kinds) {m : DeclarationId × Declaration}
    (hm : m ∈ b.members n) : m.1 ∉ (u.activeMembers v kinds).map (·.1) := by
  intro hmem
  obtain ⟨m', hm', heq⟩ := List.mem_map.mp hmem
  obtain ⟨⟨n', b'⟩, hb', hm'⟩ := List.mem_flatMap.mp hm'
  obtain ⟨hb', hkind'⟩ := mem_blocksOf.mp (List.mem_of_mem_filter hb')
  -- a block has one number
  have hn : n' = n := by
    rw [← b.block_of_mem_members n hm, ← b'.block_of_mem_members n' hm', heq]
  have hsame := List.inj_on_of_nodup_map u.nodup_numbers hb' hb hn
  exact hkind ((Prod.mk.inj hsame).2 ▸ hkind')

/-! ### Numbered declarations -/

theorem number_of_lookup {start k : ℕ} {ids : List DeclarationId} {id : DeclarationId}
    (h : (number start ids).lookup id = some k) : start ≤ k ∧ ids[k - start]? = some id :=
  List.mk_mem_zipIdx_iff_le_and_getElem?_sub.mp (mem_of_lookup h)

theorem lookup_number_of_not_mem {start : ℕ} {ids : List DeclarationId} {id : DeclarationId}
    (h : id ∉ ids) : (number start ids).lookup id = none := by
  refine lookup_eq_none fun hmem => h ?_
  unfold number at hmem
  rwa [List.zipIdx_map_fst] at hmem

/-- **Declarations are found in the order of their numbers**, if these were given to some of
them in order. -/
theorem filterMap_lookup_number {members chosen : List (DeclarationId × Declaration)}
    (h : chosen.Sublist members) : ∀ start, (members.map (·.1)).Nodup →
    (members.filterMap fun m => ((number start (chosen.map (·.1))).lookup m.1).map (·, m.2)) =
      (chosen.zipIdx start).map fun p => (p.2, p.1.2) := by
  induction h with
  | slnil => exact fun _ _ => rfl
  | @cons l₁ l₂ a hsub ih =>
    intro start hnodup
    obtain ⟨hhead, htail⟩ := List.nodup_cons.mp hnodup
    -- the first declaration has no number
    have hnone : (number start (l₁.map (·.1))).lookup a.1 = none :=
      lookup_number_of_not_mem fun hmem => hhead ((hsub.map _).subset hmem)
    rw [List.filterMap_cons, hnone]
    exact ih start htail
  | @cons_cons l₁ l₂ a hsub ih =>
    intro start hnodup
    obtain ⟨hhead, htail⟩ := List.nodup_cons.mp hnodup
    have hfirst : (number start ((a :: l₁).map (·.1))).lookup a.1 = some start :=
      List.lookup_cons_self
    have hrest : (l₂.filterMap fun m =>
        ((number start ((a :: l₁).map (·.1))).lookup m.1).map (·, m.2)) =
        l₂.filterMap fun m => ((number (start + 1) (l₁.map (·.1))).lookup m.1).map (·, m.2) := by
      refine List.filterMap_congr fun m hm => ?_
      have hne : (m.1 == a.1) = false :=
        beq_eq_false_iff_ne.mpr fun heq => hhead (List.mem_map.mpr ⟨m, hm, heq⟩)
      unfold number
      rw [List.map_cons, List.zipIdx_cons, List.lookup_cons, hne]
    rw [List.filterMap_cons, hfirst, hrest, ih (start + 1) htail]
    rfl

/-! ### Instance variables that are handed on -/

theorem firstOfName_eq : ∀ (members seen : List (DeclarationId × Declaration)),
    ∃ first, first.Sublist members ∧ firstOfName seen members = seen ++ first := by
  intro members
  induction members with
  | nil => exact fun seen => ⟨[], List.Sublist.slnil, (List.append_nil seen).symm⟩
  | cons d rest ih =>
    intro seen
    unfold firstOfName
    split_ifs
    · obtain ⟨first, hsub, heq⟩ := ih seen
      exact ⟨first, hsub.cons d, heq⟩
    · obtain ⟨first, hsub, heq⟩ := ih (seen ++ [d])
      exact ⟨d :: first, hsub.cons_cons d, by rw [heq, List.append_assoc]; rfl⟩

/-- The instance variables that are handed on are some of those that are active, in order. -/
theorem exists_transferred (u : ShaderUnit) (v : Valuation) (fragment : StageBlock) :
    ∃ handed, handed.Sublist (u.activeMembers v [.instances]) ∧
      u.transferredDeclarations v fragment = handed.map (·.1) ∧
      (isInstanced v = false → handed = []) := by
  unfold transferredDeclarations
  cases hinst : isInstanced v with
  | false => exact ⟨[], List.nil_sublist _, rfl, fun _ => rfl⟩
  | true =>
    obtain ⟨first, hsub, heq⟩ := firstOfName_eq (u.activeMembers v [.instances]) []
    rw [heq]
    exact ⟨_, List.filter_sublist.trans hsub, rfl, fun h => nomatch h⟩

/-! ### Vertex attributes -/

/-- A vertex attribute has the name of its declaration, and says whether that is one of
instance data. -/
theorem exists_of_mem_locate {p : DeclarationId × VertexAttribute} :
    ∀ (members : List (DeclarationId × Declaration × Bool)) (location : ℕ),
    p ∈ locate location members → ∃ m ∈ members, m.1 = p.1 ∧ m.2.1.name = p.2.name ∧
      m.2.2 = p.2.perInstance := by
  intro members
  induction members with
  | nil => exact fun _ hp => absurd hp List.not_mem_nil
  | cons m rest ih =>
    intro location hp
    unfold locate at hp
    split at hp
    · rcases List.mem_cons.mp hp with rfl | hp
      · exact ⟨m, List.mem_cons_self, rfl, rfl, rfl⟩
      · obtain ⟨m', hm', heq⟩ := ih _ hp
        exact ⟨m', List.mem_cons_of_mem m hm', heq⟩
    · obtain ⟨m', hm', heq⟩ := ih _ hp
      exact ⟨m', List.mem_cons_of_mem m hm', heq⟩

/-- Only declarations of attribute blocks are vertex attributes. -/
theorem lookup_placeAttributes {id : DeclarationId}
    (h : id ∉ (u.activeMembers v (attributeKinds v)).map (·.1)) :
    (u.placeAttributes v).lookup id = none := by
  refine lookup_eq_none fun hmem => h ?_
  obtain ⟨p, hp, rfl⟩ := List.mem_map.mp hmem
  obtain ⟨m, hm, heq, -⟩ := exists_of_mem_locate _ _ hp
  obtain ⟨q, hq, hm⟩ := List.mem_flatMap.mp hm
  obtain ⟨m', hm', rfl⟩ := List.mem_map.mp hm
  exact List.mem_map.mpr ⟨m', List.mem_flatMap.mpr ⟨q, hq, hm'⟩, heq⟩

end ShaderUnit

/-! ### Locations of a layout -/

/-- The layout was assigned to the source for the values and a fragment stage, which reads
the instance variables `handed`. -/
structure Layout.Assigned (l : Layout) (u : ShaderUnit) (v : Valuation)
    (handed : List (DeclarationId × Declaration)) : Prop where
  attributes : l.attributes = u.placeAttributes v
  varyings : l.varyings = ShaderUnit.number 0 ((u.activeMembers v [.varying]).map (·.1))
  transferred : l.transferred = ShaderUnit.number l.varyings.length (handed.map (·.1))
  sublist : handed.Sublist (u.activeMembers v [.instances])
  plain : isInstanced v = false → handed = []

/-- The instance variables that are handed on are those that the fragment stage reads. -/
theorem ShaderUnit.exists_assigned_transferred {u : ShaderUnit} {v : Valuation}
    {fragment : StageBlock} {l : Layout} (h : (u.assignLayout v fragment).layout = some l) :
    ∃ handed, l.Assigned u v handed ∧ u.transferredDeclarations v fragment = handed.map (·.1) := by
  obtain ⟨handed, hsub, hids, hinst⟩ := u.exists_transferred v fragment
  unfold assignLayout at h
  dsimp only at h
  split_ifs at h
  obtain rfl := Option.some.inj h
  exact ⟨handed, ⟨rfl, rfl, by rw [hids], hsub, hinst⟩, hids⟩

theorem ShaderUnit.exists_assigned {u : ShaderUnit} {v : Valuation} {fragment : StageBlock}
    {l : Layout} (h : (u.assignLayout v fragment).layout = some l) :
    ∃ handed, l.Assigned u v handed := by
  obtain ⟨handed, hassigned, -⟩ := exists_assigned_transferred h
  exact ⟨handed, hassigned⟩

namespace Layout.Assigned

variable {l : Layout} {u : ShaderUnit} {v : Valuation}
  {handed : List (DeclarationId × Declaration)} (h : l.Assigned u v handed)
  {n : ℕ} {b : StorageBlock} {m : DeclarationId × Declaration}

include h

theorem lookup_varyings (hb : (n, b) ∈ u.storageBlocks) (hm : m ∈ b.members n)
    (hkind : b.kind ≠ .varying) : l.varyings.lookup m.1 = none := by
  rw [h.varyings]
  exact ShaderUnit.lookup_number_of_not_mem
    (ShaderUnit.not_mem_ids hb (fun hmem => hkind (List.mem_singleton.mp hmem)) hm)

theorem lookup_transferred (hb : (n, b) ∈ u.storageBlocks) (hm : m ∈ b.members n)
    (hkind : b.kind ≠ .instances) : l.transferred.lookup m.1 = none := by
  rw [h.transferred]
  refine ShaderUnit.lookup_number_of_not_mem fun hmem => ?_
  exact ShaderUnit.not_mem_ids (v := v) hb (fun hk => hkind (List.mem_singleton.mp hk)) hm
    ((h.sublist.map _).subset hmem)

/-- A varying is at one location on both sides. -/
theorem inLocation_of_varying (hb : (n, b) ∈ u.storageBlocks) (hm : m ∈ b.members n)
    (hkind : b.kind = .varying) :
    (l.placement m.1).inLocation = (l.placement m.1).outLocation := by
  have hattributes : l.attributes.lookup m.1 = none := by
    rw [h.attributes]
    refine ShaderUnit.lookup_placeAttributes (ShaderUnit.not_mem_ids hb ?_ hm)
    rw [hkind]
    unfold ShaderUnit.attributeKinds
    split <;> decide
  have htransferred := h.lookup_transferred hb hm (by rw [hkind]; decide)
  unfold placement
  simp [hattributes, htransferred]

/-- An instance variable is handed on if the fragment stage reads it. -/
theorem outLocation_of_instances (hb : (n, b) ∈ u.storageBlocks) (hm : m ∈ b.members n)
    (hkind : b.kind = .instances) :
    (l.placement m.1).outLocation = l.transferred.lookup m.1 := by
  have hvaryings := h.lookup_varyings hb hm (by rw [hkind]; decide)
  unfold placement
  simp [hvaryings]

/-- Nothing else is handed on. -/
theorem outLocation_of_other (hb : (n, b) ∈ u.storageBlocks) (hm : m ∈ b.members n)
    (hvarying : b.kind ≠ .varying) (hinstances : b.kind ≠ .instances) :
    (l.placement m.1).outLocation = none := by
  have hvaryings := h.lookup_varyings hb hm hvarying
  have htransferred := h.lookup_transferred hb hm hinstances
  unfold placement
  simp [hvaryings, htransferred]

/-- What is handed on is found by its location: first the varyings, then the instance variables. -/
theorem outLocation_eq_some_iff {id : DeclarationId} {location : ℕ} :
    (l.placement id).outLocation = some location ↔
      ((u.activeMembers v [.varying]).map (·.1) ++ handed.map (·.1))[location]? = some id := by
  have hnodup : ((u.activeMembers v [.varying]).map (·.1) ++ handed.map (·.1)).Nodup := by
    rw [← List.map_append]
    refine ((h.sublist.append_left _).map _).nodup ?_
    rw [← ShaderUnit.activeMembers_cons]
    exact ShaderUnit.nodup_members (ShaderUnit.nodup_activeBlocks (by decide) v)
  have hlookup : (l.placement id).outLocation = (ShaderUnit.number 0
      ((u.activeMembers v [.varying]).map (·.1) ++ handed.map (·.1))).lookup id := by
    have hlength : l.varyings.length = 0 + ((u.activeMembers v [.varying]).map (·.1)).length := by
      rw [h.varyings, ShaderUnit.number, List.length_zipIdx, Nat.zero_add]
    have horder : (l.placement id).outLocation =
        (l.varyings.lookup id).or (l.transferred.lookup id) := by
      unfold placement
      cases l.varyings.lookup id <;> rfl
    rw [ShaderUnit.number, List.zipIdx_append, List.lookup_append, ← hlength, horder,
      h.transferred, h.varyings]
    rfl
  rw [hlookup]
  constructor
  · intro hfound
    have hget := (ShaderUnit.number_of_lookup hfound).2
    rwa [Nat.sub_zero] at hget
  · intro hget
    refine lookup_of_mem ?_ (List.mk_mem_zipIdx_iff_getElem?.mpr hget)
    unfold ShaderUnit.number
    rwa [List.zipIdx_map_fst]

/-- **No two declarations are handed on at one location.** -/
theorem outLocation_injective {id id' : DeclarationId} {location : ℕ}
    (hid : (l.placement id).outLocation = some location)
    (hid' : (l.placement id').outLocation = some location) : id = id' := by
  rw [h.outLocation_eq_some_iff] at hid hid'
  exact Option.some.inj (hid.symm.trans hid')

end Layout.Assigned

end ShaderVariants
