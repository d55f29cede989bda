import Mathlib
import ShaderVariants.Proofs.Compile.Keys
import ShaderVariants.Proofs.Compile.Outcome
import ShaderVariants.Proofs.Layout.Locations
import ShaderVariants.Proofs.Layout.Reflection

/-!
# What a description lists of the variants

A container describes a shader once: the names of its vertex attributes, of its instance
data and of its bindings are collected from all blocks, whatever their conditions.  A variant
publishes what its own active blocks need, and where instance data are not vertex attributes,
they are bound.

Every vertex attribute of a variant is listed, and so is every structure that is bound, by its
own name or by those of all its members.  Of a block of instance data the description lists
the block, not the declarations.  So an image, sampler or buffer that is declared there is
bound under a name that the description has among the instance data only.

## Main definitions

* `ShaderInfo.ListsAttribute`, `ShaderInfo.Reaches` — what a description says of attributes
  and bindings.
* `VariantCompiler.Yields` — a variant that a compiler returns, without a base or on a base
  that it has returned itself.
* `ShaderUnit.HasInstanceResource` — the binding is declared among the instance data.

## Main results

* `VariantCompiler.listed_of_yields` — **what the description lists of each variant.**
* `VariantCompiler.spriteShader_unlisted` — an image among the instance data is not reached.
-/

namespace ShaderVariants

/-! ### Descriptions -/

/-- The description lists the name of a vertex attribute, among the instance data if it is
one of them. -/
def ShaderInfo.ListsAttribute (info : ShaderInfo) (a : VertexAttribute) : Prop :=
  a.name ∈ if a.perInstance then info.instanceAttributes else info.vertexAttributes

/-- The description lists the name of a binding or, of a structure, those of all members. -/
def ShaderInfo.Reaches (info : ShaderInfo) (x : Binding) : Prop :=
  x.name ∈ info.bindings ∨ ∃ s, x.type = .struct s ∧ ∀ m ∈ s.members, m.name ∈ info.bindings

namespace ShaderUnit

variable {u : ShaderUnit} {v : Valuation} {n : ℕ} {b : StorageBlock} {hash : UInt32}

theorem mem_namesOf {names : StorageBlock → List String} (hb : (n, b) ∈ u.storageBlocks)
    {name : String} (hname : name ∈ names b) : name ∈ u.namesOf names :=
  List.mem_eraseDups.mpr (List.mem_flatMap.mpr ⟨(n, b), hb, hname⟩)

theorem mem_declaredNames {d : Declaration} (hd : d ∈ b.declarations) :
    d.name ∈ declaredNames b.kind b := by
  rw [declaredNames, if_pos rfl]
  exact List.mem_map_of_mem hd

/-- The names in a block of instance data are listed among the instance data. -/
theorem mem_instanceAttributes (hb : (n, b) ∈ u.storageBlocks) (hkind : b.kind = .instances)
    {d : Declaration} (hd : d ∈ b.declarations) :
    d.name ∈ (u.describe hash).instanceAttributes :=
  mem_namesOf hb (hkind ▸ mem_declaredNames hd)

/-- Uniform declarations are listed as bindings by their own names. -/
theorem mem_bindings_of_uniform (hb : (n, b) ∈ u.storageBlocks) (hkind : b.kind = .uniform)
    {d : Declaration} (hd : d ∈ b.declarations) : d.name ∈ (u.describe hash).bindings :=
  mem_namesOf hb (List.mem_append_left _ (hkind ▸ mem_declaredNames hd))

/-- A block of instance data is listed as a binding by its own name. -/
theorem mem_bindings_of_instances (hb : (n, b) ∈ u.storageBlocks) (hkind : b.kind = .instances) :
    b.publicName ∈ (u.describe hash).bindings := by
  refine mem_namesOf hb (List.mem_append_right _ ?_)
  rw [if_pos hkind]
  exact List.mem_cons_self

/-! ### Vertex attributes -/

theorem mem_storageBlocks {kinds : List StorageKind} (h : (n, b) ∈ u.activeBlocks v kinds) :
    (n, b) ∈ u.storageBlocks :=
  (mem_blocksOf.mp (List.mem_of_mem_filter h)).1

/-- **Every vertex attribute is listed**, whatever the condition of its block. -/
theorem listsAttribute_of_mem {p : DeclarationId × VertexAttribute}
    (hp : p ∈ u.placeAttributes v) : (u.describe hash).ListsAttribute p.2 := by
  obtain ⟨m, hm, -, hname, hinstance⟩ := exists_of_mem_locate _ _ hp
  obtain ⟨⟨n, b⟩, hb, hm⟩ := List.mem_flatMap.mp hm
  obtain ⟨⟨id, d⟩, hd, rfl⟩ := List.mem_map.mp hm
  have hdeclared : d ∈ b.declarations := b.map_snd_members n ▸ List.mem_map_of_mem hd
  have hblock := mem_storageBlocks hb
  unfold ShaderInfo.ListsAttribute
  rw [← hname, ← hinstance]
  by_cases hkind : b.kind = .instances
  · rw [if_pos (beq_iff_eq.mpr hkind)]
    exact mem_instanceAttributes hblock hkind hdeclared
  · rw [if_neg fun h => hkind (beq_iff_eq.mp h)]
    have hattributes : b.kind = .attributes := by
      have hkinds := kind_of_mem_activeBlocks hb
      unfold attributeKinds at hkinds
      split_ifs at hkinds <;> simpa [hkind] using hkinds
    exact mem_namesOf hblock (hattributes ▸ mem_declaredNames hdeclared)

/-! ### Bindings -/

/-- The binding is that of an image, sampler or buffer in a block of instance data, which has
another name. -/
def HasInstanceResource (u : ShaderUnit) (x : Binding) : Prop :=
  ∃ n b, (n, b) ∈ u.storageBlocks ∧ b.kind = .instances ∧ b.publicName ≠ x.name ∧
    ∃ d ∈ b.declarations, d.name = x.name ∧ d.type.binding? = some x.type

end ShaderUnit

/-- A binding of a block is that of one of its declarations, or the structure of its
numbers. -/
theorem StorageBlock.of_mem_bindings? {b : StorageBlock} {n : ℕ} {slots : BlockSlots}
    {bs : List Binding} (h : b.bindings? n slots = some bs) {x : Binding} (hx : x ∈ bs) :
    (∃ d ∈ b.declarations, d.name = x.name ∧ d.type.binding? = some x.type) ∨
      x.name = b.publicName ∧ ∃ s, x.type = .struct s ∧
        ∀ m ∈ s.members, ∃ d ∈ b.declarations, d.name = m.name := by
  have hown : ∀ x ∈ b.ownBindings n slots,
      ∃ d ∈ b.declarations, d.name = x.name ∧ d.type.binding? = some x.type := by
    intro x hx
    obtain ⟨⟨id, d⟩, hm, hx⟩ := List.mem_filterMap.mp hx
    obtain ⟨type, htype, hx⟩ := Option.bind_eq_some_iff.mp hx
    obtain ⟨slot, -, hx⟩ := Option.bind_eq_some_iff.mp hx
    obtain rfl := Option.some.inj hx
    exact ⟨d, b.map_snd_members n ▸ List.mem_map_of_mem hm, rfl, htype⟩
  unfold bindings? at h
  split at h
  · obtain rfl := Option.some.inj h
    exact .inl (hown x hx)
  · obtain ⟨s, hs, rfl⟩ := Option.map_eq_some_iff.mp h
    rcases List.mem_append.mp hx with hx | hx
    · exact .inl (hown x hx)
    · obtain rfl := List.mem_singleton.mp hx
      refine .inr ⟨rfl, s, rfl, fun m hm => ?_⟩
      -- the members of the structure are the numbers of the block
      rw [ofMembers?_numericMembers hs] at hm
      have hmember : (m.name, m.type) ∈ b.numericMembers := by
        rw [← StructureType.place_types b.numericMembers 0]
        exact List.mem_map.mpr ⟨m, hm, rfl⟩
      obtain ⟨d, hd, hdm⟩ := List.mem_filterMap.mp hmember
      obtain ⟨t, -, ht⟩ := Option.map_eq_some_iff.mp hdm
      exact ⟨d, hd, (Prod.mk.inj ht).1⟩

/-- Every binding is one of a block. -/
theorem Resources.exists_block_of_mem {x : Binding} :
    ∀ (blocks : List (ℕ × StorageBlock)) (next : ℕ), (ofBlocks next blocks).broken = false →
    x ∈ (ofBlocks next blocks).bindings →
    ∃ n b slots bs, (n, b) ∈ blocks ∧ b.bindings? n slots = some bs ∧ x ∈ bs := by
  intro blocks
  induction blocks with
  | nil => exact fun _ _ hx => absurd hx List.not_mem_nil
  | cons e rest ih =>
    intro next hbroken hx
    obtain ⟨bs, hbs, hrest, hbindings, -⟩ := ofBlocks_cons hbroken
    rw [hbindings] at hx
    rcases List.mem_append.mp hx with hx | hx
    · exact ⟨e.1, e.2, _, bs, List.mem_cons_self, hbs, hx⟩
    · obtain ⟨n, b, slots, bs, hb, hbs, hx⟩ := ih _ hrest hx
      exact ⟨n, b, slots, bs, List.mem_cons_of_mem _ hb, hbs, hx⟩

/-- **Every binding is reached, except for resources among the instance data**, whose names are
listed there. -/
theorem ShaderUnit.reaches_of_mem {u : ShaderUnit} {v : Valuation} {fragment : StageBlock}
    {l : Layout} {hash : UInt32} (hl : (u.assignLayout v fragment).layout = some l) {x : Binding}
    (hx : x ∈ l.bindings) : (u.describe hash).Reaches x ∨
      u.HasInstanceResource x ∧ x.name ∈ (u.describe hash).instanceAttributes := by
  obtain ⟨hbroken, -, hbindings⟩ := placeResources_of_layout hl
  obtain ⟨n, b, slots, bs, hb, hbs, hx⟩ :=
    Resources.exists_block_of_mem _ 0 hbroken ((hbindings x).mp hx)
  have hblock := mem_storageBlocks hb
  have hkind : b.kind = .uniform ∨ b.kind = .instances := by
    have hkinds := kind_of_mem_activeBlocks hb
    unfold resourceKinds at hkinds
    split_ifs at hkinds <;> simp at hkinds <;> tauto
  rcases hkind with hkind | hkind
  · rcases StorageBlock.of_mem_bindings? hbs hx with ⟨d, hd, hname, -⟩ | ⟨-, s, hs, hmembers⟩
    · exact .inl (.inl (hname ▸ mem_bindings_of_uniform hblock hkind hd))
    · refine .inl (.inr ⟨s, hs, fun m hm => ?_⟩)
      obtain ⟨d, hd, hname⟩ := hmembers m hm
      exact hname ▸ mem_bindings_of_uniform hblock hkind hd
  · have hpublic : b.publicName ∈ (u.describe hash).bindings :=
      mem_bindings_of_instances hblock hkind
    rcases StorageBlock.of_mem_bindings? hbs hx with ⟨d, hd, hname, htype⟩ | ⟨hname, -⟩
    · by_cases hsame : b.publicName = x.name
      · exact .inl (.inl (hsame ▸ hpublic))
      · exact .inr ⟨⟨n, b, hblock, hkind, hsame, d, hd, hname, htype⟩,
          hname ▸ mem_instanceAttributes hblock hkind hd⟩
    · exact .inl (.inl (hname ▸ hpublic))

namespace VariantCompiler

variable {c : VariantCompiler} {variant : Variant}

/-! ### Compiled variants -/

/-- A compiler returns the variant, without a base or on a base that it has returned
itself. -/
inductive Yields (c : VariantCompiler) : Variant → Prop where
  | fresh {values : Valuation} {variant : Variant} :
      (c.compile values none).variant = some variant → Yields c variant
  | reused {values : Valuation} {base variant : Variant} : Yields c base →
      (c.compile values (some base)).variant = some variant → Yields c variant

/-- Without a base, attributes and bindings are those of a layout. -/
theorem exists_layout_of_compileWord {w : OptionWord}
    (h : (c.compileWord w none).variant = some variant) : ∃ fragment l,
      (c.unit.assignLayout (c.valuation w) fragment).layout = some l ∧
      variant.attributes = l.attributes.map (·.2) ∧ variant.bindings = l.bindings := by
  simp only [compileWord] at h
  split at h
  · next vertex fragment _ _ =>
    simp only [compileStages] at h
    split at h
    · cases h
    · next l hl =>
      split at h
      · split_ifs at h
        obtain ⟨vertexProgram, fragmentProgram, rfl⟩ := exists_programs_of_compilePrograms h
        exact ⟨fragment, l, hl, rfl, rfl⟩
      · cases h
  · cases h

/-- On a base, they are those of the base. -/
theorem interface_of_compileWord {w : OptionWord} {base : Variant}
    (h : (c.compileWord w (some base)).variant = some variant) :
    variant.attributes = base.attributes ∧ variant.bindings = base.bindings := by
  simp only [compileWord] at h
  split_ifs at h
  obtain rfl := Option.some.inj h
  exact ⟨rfl, rfl⟩

/-- What is returned for some values was compiled for their word. -/
theorem compileWord_of_compile {values : Valuation} {base : Option Variant}
    (h : (c.compile values base).variant = some variant) :
    (c.compileWord (c.wordOf values) base).variant = some variant := by
  simp only [compile] at h
  split_ifs at h
  exact h

/-- **What the description of an accepted source lists of each variant** that its compiler
returns: every vertex attribute, and every binding except for images, samplers and buffers
that are declared among the instance data, whose names are listed there. -/
theorem listed_of_yields {name source : String} {u : ShaderUnit} {d : Downstream}
    {showSource : Bool}
    (hc : (analyze name source u).variantCompiler? d showSource = some c)
    (h : c.Yields variant) :
    (∀ a ∈ variant.attributes, c.info.ListsAttribute a) ∧
      ∀ x ∈ variant.bindings, c.info.Reaches x ∨
        c.unit.HasInstanceResource x ∧ x.name ∈ c.info.instanceAttributes := by
  unfold AnalyzedShader.variantCompiler? at hc
  split_ifs at hc
  obtain rfl := Option.some.inj hc
  induction h with
  | fresh h =>
    obtain ⟨fragment, l, hl, hattributes, hbindings⟩ :=
      exists_layout_of_compileWord (compileWord_of_compile h)
    rw [hattributes, hbindings]
    refine ⟨fun a ha => ?_, fun x hx => ShaderUnit.reaches_of_mem hl hx⟩
    obtain ⟨p, hp, rfl⟩ := List.mem_map.mp ha
    obtain ⟨handed, hassigned⟩ := ShaderUnit.exists_assigned hl
    exact ShaderUnit.listsAttribute_of_mem (hassigned.attributes ▸ hp)
  | reused _ h ih =>
    obtain ⟨hattributes, hbindings⟩ := interface_of_compileWord (compileWord_of_compile h)
    rw [hattributes, hbindings]
    exact ih

/-- Sprites with an image and a tint of their own, which are bound unless there are instances. -/
def spriteShader : ShaderUnit where
  declaredOptions := [{ name := "IsInstanced" }]
  blocks := [
    .storage {
      kind := .instances
      name := some "Sprite"
      condition := some { expr := .unary .not (.var "IsInstanced") }
      declarations := [
        { name := "albedo", type := .image { scalar := .float, shape := .d2, sampled := false } },
        { name := "tint", type := .numeric (.vector .float 4) }] },
    .storage {
      kind := .uniform
      declarations := [{ name := "time", type := .numeric (.single .float) }] },
    .stage { stage := .vertex },
    .stage { stage := .fragment }]

/-- The compiler for sprites. -/
def spriteCompiler : VariantCompiler :=
  (analyze "sprite.shader" "" spriteShader).compiler keepSource false

/-- The image of the sprites. -/
def spriteImage : Binding where
  set := 0
  slot := 1
  name := "albedo"
  perInstance := false
  type := .image { scalar := .float, shape := .d2, sampled := false }

set_option maxRecDepth 10000 in
/-- The image of the sprites is bound if there are no instances. -/
theorem spriteCompiler_binds : ∃ v, (spriteCompiler.compile (fun _ => none) none).variant = some v ∧
    spriteImage ∈ v.bindings := by
  have hsome : (spriteCompiler.compile (fun _ => none) none).variant.isSome = true := by decide
  obtain ⟨v, hv⟩ := Option.isSome_iff_exists.mp hsome
  obtain ⟨fragment, l, hl, -, hbindings⟩ :=
    exists_layout_of_compileWord (compileWord_of_compile hv)
  refine ⟨v, hv, ?_⟩
  rw [hbindings, (ShaderUnit.placeResources_of_layout hl).2.2]
  decide

set_option maxRecDepth 10000 in
/-- The structures of the sprites are reached, their image is listed with the instance data. -/
theorem spriteShader_listed : ∃ v, spriteCompiler.Yields v ∧
    (∀ a ∈ v.attributes, spriteCompiler.info.ListsAttribute a) ∧
      ∀ x ∈ v.bindings, spriteCompiler.info.Reaches x ∨
        spriteCompiler.unit.HasInstanceResource x ∧
          x.name ∈ spriteCompiler.info.instanceAttributes := by
  obtain ⟨v, hv, -⟩ := spriteCompiler_binds
  have hsound : (analyze "sprite.shader" "" spriteShader).isSound = true := by decide
  exact ⟨v, .fresh hv, listed_of_yields (if_pos hsound) (.fresh hv)⟩

set_option maxRecDepth 10000 in
/-- **Not every binding can be reached**: without instances the image `albedo` is bound, while
the description lists `Sprite` and `time` only. -/
theorem spriteShader_unlisted :
    (analyze "sprite.shader" "" spriteShader).variantCompiler? keepSource false =
      some spriteCompiler ∧ spriteCompiler.info.bindings = ["Sprite", "time"] ∧
      ∃ v, spriteCompiler.Yields v ∧ ∃ x ∈ v.bindings, ¬ spriteCompiler.info.Reaches x := by
  have hsound : (analyze "sprite.shader" "" spriteShader).isSound = true := by decide
  have hlisted : spriteCompiler.info.bindings = ["Sprite", "time"] := by decide
  obtain ⟨v, hv, hbound⟩ := spriteCompiler_binds
  refine ⟨if_pos hsound, hlisted, v, .fresh hv, spriteImage, hbound, ?_⟩
  rintro (hmem | ⟨s, hs, -⟩)
  · rw [hlisted] at hmem
    exact absurd hmem (by decide)
  · cases hs

end VariantCompiler

end ShaderVariants
