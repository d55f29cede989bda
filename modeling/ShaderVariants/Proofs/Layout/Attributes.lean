import Mathlib
import ShaderVariants.Proofs.Invariance.Layout
import ShaderVariants.Proofs.Layout.Ranges
import ShaderVariants.Proofs.Layout.Locations
import ShaderVariants.Proofs.Syntax.Occurrence

/-!
# Vertex attributes and instancing

Vertex attributes are numbered in one pass, each behind the columns of the one in front of it.
Instance data are attributes if the variant is instanced and resources if not; in either case
they come last.  So instancing moves nothing but them: all other declarations keep their places.

## Main definitions

* `Layout.AttributesInOrder` — the attributes are numbered in the order of the source, without
  gaps.
* `Valuation.DifferInInstancing` — two valuations give all other names the same values.
* `ShaderUnit.IgnoresInstancing` — no storage block depends on the instancing option.

## Main results

* `ShaderUnit.attributesInOrder_of_layout` — what the attributes of a layout look like.
* `Resources.slots_append` — the slots of later blocks come behind those of earlier ones.
* `ShaderUnit.placement_eq_of_instancing` — instancing moves instance data only.
* `ShaderUnit.attributes_in_order_and_stable` — **both together**.
-/

namespace ShaderVariants

/-! ### Numbering attributes -/

namespace ShaderUnit

variable {u : ShaderUnit} {v v' : Valuation}

/-- What a vertex attribute says besides its location: its declaration, with its name, its type
and whether it is one of instance data.  What is no number is no attribute. -/
def attribute? (perInstance : Bool) (m : DeclarationId × Declaration) :
    Option (DeclarationId × String × NumericType × Bool) :=
  m.2.type.numeric?.map fun type => (m.1, m.2.name, type, perInstance)

/-- The attributes are the numbers, in order. -/
theorem map_locate : ∀ (members : List (DeclarationId × Declaration × Bool)) (location : ℕ),
    (locate location members).map (fun a => (a.1, a.2.name, a.2.type, a.2.perInstance)) =
      members.filterMap fun m => attribute? m.2.2 (m.1, m.2.1) := by
  intro members
  induction members with
  | nil => exact fun _ => rfl
  | cons m rest ih =>
    intro location
    rw [locate, List.filterMap_cons]
    cases htype : m.2.1.type.numeric? with
    | none => simpa only [attribute?, htype, Option.map_none] using ih location
    | some type =>
      rw [attribute?, htype]
      exact congrArg (_ :: ·) (ih _)

/-- The first attribute is at the location that the numbering begins with. -/
theorem location_of_head_locate {a : DeclarationId × VertexAttribute} :
    ∀ (members : List (DeclarationId × Declaration × Bool)) (location : ℕ),
    a ∈ (locate location members).head? → a.2.location = location := by
  intro members
  induction members with
  | nil => exact fun _ h => nomatch h
  | cons m rest ih =>
    intro location h
    unfold locate at h
    split at h
    · obtain rfl := Option.some.inj h
      rfl
    · exact ih location h

/-- Each attribute is behind the columns of the one in front of it. -/
theorem isChain_locate : ∀ (members : List (DeclarationId × Declaration × Bool)) (location : ℕ),
    (locate location members).IsChain fun a b =>
      b.2.location = a.2.location + a.2.type.columns.toNat := by
  intro members
  induction members with
  | nil => exact fun _ => .nil
  | cons m rest ih =>
    intro location
    unfold locate
    split
    · exact List.isChain_cons.mpr ⟨fun b hb => location_of_head_locate rest _ hb, ih _⟩
    · exact ih location

theorem exists_locate_append (later : List (DeclarationId × Declaration × Bool)) :
    ∀ (members : List (DeclarationId × Declaration × Bool)) (location : ℕ), ∃ location',
    locate location (members ++ later) = locate location members ++ locate location' later := by
  intro members
  induction members with
  | nil => exact fun location => ⟨location, rfl⟩
  | cons m rest ih =>
    intro location
    rw [List.cons_append, locate, locate]
    split
    · obtain ⟨location', h⟩ := ih _
      exact ⟨location', by rw [h, List.cons_append]⟩
    · exact ih location

/-- The declarations of the active blocks of one kind, with a flag for instance data. -/
theorem flatMap_flagged (kind : StorageKind) :
    ((u.activeBlocks v [kind]).flatMap fun p =>
        (p.2.members p.1).map fun m => (m.1, m.2, p.2.kind == .instances)) =
      (u.activeMembers v [kind]).map fun m => (m.1, m.2, kind == .instances) := by
  rw [activeMembers, List.map_flatMap]
  refine List.flatMap_congr fun p hp => ?_
  rw [List.mem_singleton.mp (kind_of_mem_activeBlocks hp)]

/-- Instance data come behind the other attributes. -/
theorem attributeMembers_eq (u : ShaderUnit) (v : Valuation) : u.attributeMembers v =
    (u.activeMembers v [.attributes]).map (fun m => (m.1, m.2, false)) ++
      if isInstanced v then (u.activeMembers v [.instances]).map fun m => (m.1, m.2, true)
      else [] := by
  have hflagged := flatMap_flagged (u := u) (v := v)
  unfold attributeMembers attributeKinds
  split_ifs
  · rw [activeBlocks_cons, List.flatMap_append]
    exact congrArg₂ (· ++ ·) (hflagged .attributes) (hflagged .instances)
  · rw [List.append_nil]
    exact hflagged .attributes

end ShaderUnit

/-- The attributes of the layout are numbered from zero, each behind the columns of the one in
front of it.  They are the numbers of the active attributes blocks and, if the variant is
instanced, of the active instances blocks, in the order of the source. -/
structure Layout.AttributesInOrder (l : Layout) (u : ShaderUnit) (v : Valuation) : Prop where
  first : ∀ a ∈ l.attributes.head?, a.2.location = 0
  next : l.attributes.IsChain fun a b => b.2.location = a.2.location + a.2.type.columns.toNat
  order : l.attributes.map (fun a => (a.1, a.2.name, a.2.type, a.2.perInstance)) =
    (u.activeMembers v [.attributes]).filterMap (ShaderUnit.attribute? false) ++
      if isInstanced v then
        (u.activeMembers v [.instances]).filterMap (ShaderUnit.attribute? true)
      else []
  /-- Each attribute is found at its location. -/
  placed : ∀ a ∈ l.attributes, (l.placement a.1).inLocation = some a.2.location

namespace ShaderUnit

variable {u : ShaderUnit} {v v' : Valuation} {fragment fragment' : StageBlock} {l l' : Layout}

/-- A declaration is one attribute at most. -/
theorem nodup_placeAttributes (u : ShaderUnit) (v : Valuation) :
    ((u.placeAttributes v).map (·.1)).Nodup := by
  have hids : (u.placeAttributes v).map (·.1) = (u.attributeMembers v).filterMap fun m =>
      m.2.1.type.numeric?.map fun _ => m.1 := by
    have hlocated := congrArg (List.map (·.1)) (map_locate (u.attributeMembers v) 0)
    rw [List.map_map, List.map_filterMap] at hlocated
    refine hlocated.trans (List.filterMap_congr fun m _ => ?_)
    rw [attribute?, Option.map_map]
    rfl
  have hmembers : (u.attributeMembers v).map (·.1) =
      ((u.activeBlocks v (attributeKinds v)).flatMap fun p => p.2.members p.1).map (·.1) := by
    rw [attributeMembers, List.map_flatMap, List.map_flatMap]
    exact List.flatMap_congr fun p _ => List.map_map
  have hkinds : (attributeKinds v).Nodup := by
    unfold attributeKinds
    split <;> decide
  have hnodup : ((u.attributeMembers v).map (·.1)).Nodup :=
    hmembers ▸ nodup_members (nodup_activeBlocks hkinds v)
  rw [hids]
  refine (List.pairwise_map.mp hnodup).filterMap _ fun m m' hne id hid id' hid' => ?_
  obtain ⟨_, -, rfl⟩ := Option.map_eq_some_iff.mp hid
  obtain ⟨_, -, rfl⟩ := Option.map_eq_some_iff.mp hid'
  exact hne

theorem attributesInOrder_of_layout (hl : (u.assignLayout v fragment).layout = some l) :
    l.AttributesInOrder u v := by
  obtain ⟨handed, h⟩ := exists_assigned hl
  have hlocate : l.attributes = locate 0 (u.attributeMembers v) := h.attributes
  refine ⟨?_, ?_, ?_, fun a ha => ?_⟩
  · rw [hlocate]
    exact fun a ha => location_of_head_locate _ 0 ha
  · rw [hlocate]
    exact isChain_locate _ 0
  · rw [hlocate, map_locate, attributeMembers_eq, List.filterMap_append, List.filterMap_map]
    split_ifs
    · rw [List.filterMap_map]
      rfl
    · rfl
  · have hlookup : l.attributes.lookup a.1 = some a.2 :=
      lookup_of_mem (h.attributes ▸ u.nodup_placeAttributes v) ha
    unfold Layout.placement
    rw [hlookup]
    rfl

end ShaderUnit

/-! ### Slots of several groups of blocks -/

namespace Resources

/-- **The slots of later blocks** come behind those of earlier ones, which they do not change. -/
theorem slots_append (later : List (ℕ × StorageBlock)) :
    ∀ (blocks : List (ℕ × StorageBlock)) (next : ℕ),
    (ofBlocks next (blocks ++ later)).broken = false → ∃ next',
      (ofBlocks next blocks).broken = false ∧ (ofBlocks next' later).broken = false ∧
      (ofBlocks next (blocks ++ later)).slots =
        (ofBlocks next blocks).slots ++ (ofBlocks next' later).slots := by
  intro blocks
  induction blocks with
  | nil => exact fun next h => ⟨next, rfl, h, rfl⟩
  | cons p rest ih =>
    intro next h
    rw [List.cons_append] at h ⊢
    obtain ⟨bs, hbs, hrest, -, hslots⟩ := ofBlocks_cons h
    obtain ⟨next', hearlier, hlater, hmore⟩ := ih _ hrest
    have hfirst : (ofBlocks next (p :: rest)).broken = false := by
      have hbs' : p.2.bindings? p.1 (.ofMembers next (p.2.members p.1)) = some bs := hbs
      rw [ofBlocks]
      simp only [hbs']
      exact hearlier
    obtain ⟨-, -, -, -, hslots'⟩ := ofBlocks_cons hfirst
    refine ⟨next', hfirst, hlater, hslots.trans ?_⟩
    rw [hmore, hslots', List.append_assoc]

end Resources

/-! ### What instancing moves -/

/-- The two valuations give every name but that of the instancing option the same value. -/
def Valuation.DifferInInstancing (v v' : Valuation) : Prop :=
  ∀ name, name ≠ instancingOption → v name = v' name

/-- No condition of a storage block mentions the instancing option. -/
def ShaderUnit.IgnoresInstancing (u : ShaderUnit) : Prop :=
  ∀ p ∈ u.storageBlocks, ∀ c ∈ p.2.condition, ¬ (Expr.var instancingOption).Within c.expr

namespace ShaderUnit

variable {u : ShaderUnit} {v v' : Valuation} {fragment fragment' : StageBlock} {l l' : Layout}
  {n : ℕ} {b : StorageBlock} {m : DeclarationId × Declaration}

/-- The same blocks are active. -/
theorem activeBlocks_eq_of_instancing (hu : u.IgnoresInstancing)
    (hv : v.DifferInInstancing v') (kinds : List StorageKind) :
    u.activeBlocks v kinds = u.activeBlocks v' kinds := by
  refine List.filter_congr fun p hp => ?_
  have hholds : conditionHolds? v p.2.condition = conditionHolds? v' p.2.condition := by
    refine conditionHolds?_congr fun name hname => hv name ?_
    rintro rfl
    obtain ⟨e, he, hname⟩ := List.mem_filterMap.mp hname
    cases hcondition : p.2.condition with
    | none => simp [hcondition] at he
    | some c =>
      rw [hcondition, Option.map_some, Option.getD_some, Expr.mem_nodes] at he
      obtain rfl := Expr.name?_eq_some.mp hname
      exact hu p (mem_blocksOf.mp hp).1 c hcondition he
  obtain ⟨n, b⟩ := p
  exact congrArg (fun holds => decide (holds = some true)) hholds

theorem activeMembers_eq_of_instancing (hu : u.IgnoresInstancing)
    (hv : v.DifferInInstancing v') (kinds : List StorageKind) :
    u.activeMembers v kinds = u.activeMembers v' kinds := by
  rw [activeMembers, activeBlocks_eq_of_instancing hu hv, activeMembers]

/-- Attributes that are no instance data are found among the first. -/
theorem lookup_placeAttributes_of_plain (hb : (n, b) ∈ u.storageBlocks)
    (hkind : b.kind ≠ .instances) (hm : m ∈ b.members n) :
    (u.placeAttributes v).lookup m.1 =
      (locate 0 ((u.activeMembers v [.attributes]).map fun m => (m.1, m.2, false))).lookup m.1 := by
  obtain ⟨location, happend⟩ := exists_locate_append
    (if isInstanced v then (u.activeMembers v [.instances]).map fun m => (m.1, m.2, true) else [])
    ((u.activeMembers v [.attributes]).map fun m => (m.1, m.2, false)) 0
  rw [placeAttributes, attributeMembers_eq, happend, List.lookup_append]
  refine (congrArg _ (lookup_eq_none fun hid => ?_)).trans Option.or_none
  obtain ⟨a, ha, heq⟩ := List.mem_map.mp hid
  obtain ⟨m', hm', hid', -⟩ := exists_of_mem_locate _ _ ha
  -- the other attributes are those of instances blocks
  refine not_mem_ids (v := v) hb (fun hk => hkind (List.mem_singleton.mp hk)) hm ?_
  split_ifs at hm'
  · obtain ⟨m'', hm'', rfl⟩ := List.mem_map.mp hm'
    exact List.mem_map.mpr ⟨m'', hm'', hid'.trans heq⟩
  · exact absurd hm' List.not_mem_nil

/-- Resources that are no instance data are found among the first. -/
theorem lookup_slots_of_plain (hbroken : (u.placeResources v).broken = false)
    (hb : (n, b) ∈ u.storageBlocks) (hkind : b.kind ≠ .instances) (hm : m ∈ b.members n) :
    (u.placeResources v).slots.lookup m.1 =
      (Resources.ofBlocks 0 (u.activeBlocks v [.uniform])).slots.lookup m.1 := by
  unfold placeResources resourceKinds at hbroken ⊢
  split_ifs at hbroken ⊢
  · rfl
  · rw [activeBlocks_cons] at hbroken ⊢
    obtain ⟨next, -, hlater, hslots⟩ := Resources.slots_append _ _ 0 hbroken
    rw [hslots, List.lookup_append]
    refine (congrArg _ (lookup_eq_none fun hid => ?_)).trans Option.or_none
    obtain ⟨p, hp, heq⟩ := List.mem_map.mp hid
    obtain ⟨-, q, hq, m', hm', hid'⟩ := Resources.member_of_mem_slots _ next hlater hp
    -- the other resources are those of instances blocks
    refine not_mem_ids (v := v) hb (fun hk => hkind (List.mem_singleton.mp hk)) hm ?_
    exact List.mem_map.mpr ⟨m', List.mem_flatMap.mpr ⟨q, hq, hm'⟩, hid'.trans heq⟩

/-- **Instancing moves instance data only.** -/
theorem placement_eq_of_instancing (hu : u.IgnoresInstancing) (hv : v.DifferInInstancing v')
    (hl : (u.assignLayout v fragment).layout = some l)
    (hl' : (u.assignLayout v' fragment').layout = some l')
    (hb : (n, b) ∈ u.storageBlocks) (hkind : b.kind ≠ .instances) (hm : m ∈ b.members n) :
    l.placement m.1 = l'.placement m.1 := by
  obtain ⟨handed, h⟩ := exists_assigned hl
  obtain ⟨handed', h'⟩ := exists_assigned hl'
  obtain ⟨hbroken, hslots, -⟩ := placeResources_of_layout hl
  obtain ⟨hbroken', hslots', -⟩ := placeResources_of_layout hl'
  have hattributes : l.attributes.lookup m.1 = l'.attributes.lookup m.1 := by
    rw [h.attributes, h'.attributes, lookup_placeAttributes_of_plain hb hkind hm,
      lookup_placeAttributes_of_plain hb hkind hm, activeMembers_eq_of_instancing hu hv]
  have hvaryings : l.varyings = l'.varyings := by
    rw [h.varyings, h'.varyings, activeMembers_eq_of_instancing hu hv]
  have htransferred := h.lookup_transferred hb hm hkind
  have htransferred' := h'.lookup_transferred hb hm hkind
  have hresources : l.slots.lookup m.1 = l'.slots.lookup m.1 := by
    rw [hslots, hslots', lookup_slots_of_plain hbroken hb hkind hm,
      lookup_slots_of_plain hbroken' hb hkind hm, activeBlocks_eq_of_instancing hu hv]
  simp only [Layout.placement, hattributes, hvaryings, htransferred, htransferred', hresources]

/-- **Attributes are numbered in order, and instancing moves instance data only.**  Without a
mention of the instancing option in the condition of a block, all declarations but instance data
have the same places in the layouts for two valuations that differ in this option only. -/
theorem attributes_in_order_and_stable (hl : (u.assignLayout v fragment).layout = some l) :
    l.AttributesInOrder u v ∧
      (u.IgnoresInstancing → ∀ v' fragment' l', v.DifferInInstancing v' →
        (u.assignLayout v' fragment').layout = some l' →
        ∀ p ∈ u.storageBlocks, p.2.kind ≠ .instances → ∀ m ∈ p.2.members p.1,
          l.placement m.1 = l'.placement m.1) := by
  refine ⟨attributesInOrder_of_layout hl, fun hu v' fragment' l' hv hl' p hp hkind m hm => ?_⟩
  exact placement_eq_of_instancing hu hv hl hl' hp hkind hm

/-- Instance data in front of a vertex and of two numbers, each of the latter with a sampler. -/
def orchardShader : ShaderUnit where
  blocks := [
    .storage {
      kind := .instances
      declarations := [{ name := "tree", type := .numeric (.matrix 3 3) }] },
    .storage {
      kind := .attributes
      declarations := [
        { name := "frame", type := .numeric (.matrix 3 3) },
        { name := "bark", type := .sampler },
        { name := "uv", type := .numeric (.vector .float 2) }] },
    .storage {
      kind := .uniform
      declarations := [
        { name := "leaves", type := .sampler },
        { name := "wind", type := .numeric (.vector .float 3) }] }]

/-- With and without instancing, the vertex has locations zero and three, and the leaves come
first among the resources.  The tree is at location four or in the last slot. -/
theorem orchardShader_stable : ∃ l l',
    (orchardShader.assignLayout (fun _ => none) { stage := .fragment }).layout = some l ∧
      (orchardShader.assignLayout (fun name => if name = instancingOption then some 1 else none)
        { stage := .fragment }).layout = some l' ∧
      l.attributes.map (·.2.location) = [0, 3] ∧ l'.attributes.map (·.2.location) = [0, 3, 4] ∧
      l.slots.map (·.2.slot) = [0, 1, 2] ∧ l'.slots.map (·.2.slot) = [0, 1] ∧
      l.AttributesInOrder orchardShader (fun _ => none) ∧
      ∀ p ∈ orchardShader.storageBlocks, p.2.kind ≠ .instances → ∀ m ∈ p.2.members p.1,
        l.placement m.1 = l'.placement m.1 := by
  obtain ⟨l, hl⟩ := Option.isSome_iff_exists.mp (by decide :
    (orchardShader.assignLayout (fun _ => none) { stage := .fragment }).layout.isSome = true)
  obtain ⟨l', hl'⟩ := Option.isSome_iff_exists.mp (by decide :
    (orchardShader.assignLayout (fun name => if name = instancingOption then some 1 else none)
      { stage := .fragment }).layout.isSome = true)
  obtain ⟨horder, hstable⟩ := attributes_in_order_and_stable hl
  have hplain : ∀ p ∈ orchardShader.storageBlocks, p.2.condition = none := by decide
  have hmove := hstable (fun p hp c hc => nomatch (hplain p hp).symm.trans hc) _ _ l'
    (fun _ hname => (if_neg hname).symm) hl'
  refine ⟨l, l', hl, hl', ?_, ?_, ?_, ?_, horder, hmove⟩
  · rw [(exists_assigned hl).choose_spec.attributes]
    decide
  · rw [(exists_assigned hl').choose_spec.attributes]
    decide
  · rw [(placeResources_of_layout hl).2.1]
    decide
  · rw [(placeResources_of_layout hl').2.1]
    decide

end ShaderUnit

end ShaderVariants
