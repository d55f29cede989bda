import Mathlib
import ShaderVariants.Proofs.Glsl.Interface
import ShaderVariants.Proofs.Glsl.Variables

/-!
# Instance variables of the fragment stage

If a variant is instanced, its fragment stage receives instance variables from the vertex stage.
Which ones it receives is decided by going through the source; which ones it needs is decided by
the code that is written.  Of each name that occurs in the source, the first declaration is handed
on, and so all names that are written are declared.

## Main definitions

* `IsFirstOfName` — no declaration with the same name comes before.
* `StageInput.headItems` — the code in front of the functions.
* `StageInput.DeclaresInstances` — the instance variables in the code are declared in front of it.

## Main results

* `ShaderUnit.mem_firstOfName` — what is kept of the declarations.
* `ShaderUnit.mem_transferredDeclarations` — what is handed on.
* `StageInput.declaresInstances` — no instance variable is left out.
* `ShaderUnit.instances_transferred` — **both together**.
-/

namespace ShaderVariants

/-! ### The first of each name -/

section

variable {members : List (DeclarationId × Declaration)} {d m : DeclarationId × Declaration}

/-- No declaration with the same name comes before. -/
def IsFirstOfName (members : List (DeclarationId × Declaration))
    (m : DeclarationId × Declaration) : Prop :=
  ∃ before later, members = before ++ m :: later ∧ ∀ m' ∈ before, m'.2.name ≠ m.2.name

theorem IsFirstOfName.mem (h : IsFirstOfName members m) : m ∈ members := by
  obtain ⟨before, later, rfl, -⟩ := h
  exact List.mem_append_right before List.mem_cons_self

theorem not_isFirstOfName_nil : ¬ IsFirstOfName [] m := fun h => nomatch h.mem

theorem isFirstOfName_cons :
    IsFirstOfName (d :: members) m ↔ m = d ∨ d.2.name ≠ m.2.name ∧ IsFirstOfName members m := by
  constructor
  · rintro ⟨before, later, heq, hbefore⟩
    cases before with
    | nil => exact .inl (List.cons.inj heq).1.symm
    | cons first before =>
      obtain ⟨rfl, rfl⟩ := List.cons.inj heq
      exact .inr ⟨hbefore d List.mem_cons_self, before, later, rfl,
        fun m' hm' => hbefore m' (List.mem_cons_of_mem d hm')⟩
  · rintro (rfl | ⟨hne, before, later, rfl, hbefore⟩)
    · exact ⟨[], members, rfl, fun _ h => nomatch h⟩
    · exact ⟨d :: before, later, rfl, List.forall_mem_cons.mpr ⟨hne, hbefore⟩⟩

/-- Every name has a first declaration. -/
theorem exists_isFirstOfName : ∀ members : List (DeclarationId × Declaration), ∀ m ∈ members,
    ∃ first, IsFirstOfName members first ∧ first.2.name = m.2.name := by
  intro members
  induction members with
  | nil => exact fun _ h => nomatch h
  | cons d rest ih =>
    intro m hm
    by_cases hname : d.2.name = m.2.name
    · exact ⟨d, isFirstOfName_cons.mpr (.inl rfl), hname⟩
    · obtain ⟨first, hfirst, heq⟩ := ih m
        ((List.mem_cons.mp hm).resolve_left fun h => hname (congrArg (·.2.name) h.symm))
      exact ⟨first, isFirstOfName_cons.mpr (.inr ⟨heq ▸ hname, hfirst⟩), heq⟩

namespace ShaderUnit

/-- Behind those seen before, the first declaration of each new name is kept. -/
theorem mem_firstOfName : ∀ members seen : List (DeclarationId × Declaration),
    m ∈ firstOfName seen members ↔
      m ∈ seen ∨ IsFirstOfName members m ∧ ∀ m' ∈ seen, m'.2.name ≠ m.2.name := by
  intro members
  induction members with
  | nil => exact fun seen => ⟨.inl, fun h => h.resolve_right fun h => not_isFirstOfName_nil h.1⟩
  | cons d rest ih =>
    intro seen
    unfold firstOfName
    split_ifs with hseen
    · -- the name was seen before
      obtain ⟨d', hd', hname⟩ := List.any_eq_true.mp hseen
      have hname : d'.2.name = d.2.name := beq_iff_eq.mp hname
      rw [ih, isFirstOfName_cons]
      refine or_congr_right (and_congr_left fun hnew => ⟨fun h => .inr ⟨?_, h⟩, ?_⟩)
      · exact hname ▸ hnew d' hd'
      · rintro (rfl | ⟨-, h⟩)
        · exact absurd hname (hnew d' hd')
        · exact h
    · have hnew : ∀ m' ∈ seen, m'.2.name ≠ d.2.name := fun m' hm' hname =>
        hseen (List.any_eq_true.mpr ⟨m', hm', beq_iff_eq.mpr hname⟩)
      rw [ih, isFirstOfName_cons, List.mem_append, List.mem_singleton, List.forall_mem_append,
        List.forall_mem_singleton, or_assoc]
      refine or_congr_right ⟨?_, ?_⟩
      · rintro (rfl | ⟨h, hold, hne⟩)
        · exact ⟨.inl rfl, hnew⟩
        · exact ⟨.inr ⟨hne, h⟩, hold⟩
      · rintro ⟨rfl | ⟨hne, h⟩, hold⟩
        · exact .inl rfl
        · exact .inr ⟨h, hold, hne⟩

end ShaderUnit

end

/-! ### What is handed on -/

namespace ShaderUnit

variable {u : ShaderUnit} {v : Valuation} {fragment : StageBlock} {l : Layout}

theorem mem_fragmentNames {name : String} :
    name ∈ u.fragmentNames fragment ↔ u.Mentions fragment (.var name) := by
  simp only [fragmentNames, Mentions, List.mem_filterMap, List.mem_append, List.mem_flatMap,
    Function.mem_nodes, StageBlock.mem_nodes, Expr.name?_eq_some, exists_eq_right]

/-- **What is handed on** is the first declaration of each name that the fragment stage or a
function mentions. -/
theorem mem_transferredDeclarations (hinst : isInstanced v = true) {id : DeclarationId} :
    id ∈ u.transferredDeclarations v fragment ↔
      ∃ d, IsFirstOfName (u.activeMembers v [.instances]) (id, d) ∧
        u.Mentions fragment (.var d.name) := by
  have hkept : ∀ m, m ∈ firstOfName [] (u.activeMembers v [.instances]) ↔
      IsFirstOfName (u.activeMembers v [.instances]) m := fun m => by
    simp [mem_firstOfName]
  simp only [transferredDeclarations, hinst, if_true, List.mem_map, List.mem_filter, hkept,
    List.contains_iff_mem, mem_fragmentNames]
  constructor
  · rintro ⟨m, ⟨hfirst, hmentions⟩, rfl⟩
    exact ⟨m.2, hfirst, hmentions⟩
  · rintro ⟨d, hfirst, hmentions⟩
    exact ⟨(id, d), ⟨hfirst, hmentions⟩, rfl⟩

theorem nodup_transferredDeclarations (u : ShaderUnit) (v : Valuation) (fragment : StageBlock) :
    (u.transferredDeclarations v fragment).Nodup := by
  obtain ⟨handed, hsub, heq, -⟩ := u.exists_transferred v fragment
  rw [heq]
  exact (hsub.map _).nodup (nodup_members (nodup_activeBlocks (by decide) v))

theorem map_transferred (hl : (u.assignLayout v fragment).layout = some l) :
    l.transferred.map (·.1) = u.transferredDeclarations v fragment := by
  obtain ⟨handed, h, hids⟩ := exists_assigned_transferred hl
  rw [h.transferred, hids, number, List.zipIdx_map_fst]

end ShaderUnit

/-! ### What is declared -/

namespace StageInput

/-- The items of the code in front of the functions. -/
def headItems (i : StageInput) : List CodeItem :=
  [.prologue] ++ (i.activeStorage.flatMap fun p => i.storageItems p.1 p.2) ++ i.colorItems

/-- The instance variables in the functions and the entry function are declared as inputs in front
of them. -/
structure DeclaresInstances (i : StageInput) : Prop where
  code : ∀ code ∈ (render i).source,
    code = String.join (i.headItems.map i.itemText) ++ CodePiece.joined i.codePieces
  functions : CodePiece.joined i.codePieces =
    String.join (i.functions.map (Function.text i.values)) ++ i.mainText
  declared : ∀ m ∈ i.unit.activeMembers i.values [.instances],
    m.2.name ∈ CodePiece.names i.codePieces →
      ∃ x, .interface x ∈ i.headItems ∧ x.direction = .input ∧ x.name = m.2.name

variable {i : StageInput}

theorem items_eq (i : StageInput) :
    i.items = i.headItems ++ (i.functions.map .function ++ [.main]) := by
  rw [items, headItems, List.append_assoc]

/-- The variables of the interface are declared in front of the functions. -/
theorem mem_headItems_of_mem {direction : Direction} {x : InterfaceVariable}
    (hx : x ∈ i.interfaceVariables direction) :
    .interface x ∈ i.headItems ∧ x.direction = direction := by
  obtain ⟨hx, hdirection⟩ := List.mem_filter.mp hx
  obtain ⟨item, hitem, hinterface⟩ := List.mem_filterMap.mp hx
  obtain rfl : item = .interface x := by
    cases item <;> simp_all [CodeItem.interface?]
  rw [items_eq] at hitem
  refine ⟨(List.mem_append.mp hitem).resolve_right fun h => ?_, of_decide_eq_true hdirection⟩
  simp at h

variable {handed : List (DeclarationId × Declaration)}
  (h : i.layout.Assigned i.unit i.values handed)

include h

/-- Every instance variable that is handed on enters the fragment stage. -/
theorem exists_input_of_mem_handed (hstage : i.stage.stage = .fragment)
    {m : DeclarationId × Declaration} (hm : m ∈ handed) :
    ∃ x ∈ i.interfaceVariables .input, x.name = m.2.name := by
  have hzip : m ∈ (handed.zipIdx i.layout.varyings.length).map (·.1) := by
    rwa [List.zipIdx_map_fst]
  obtain ⟨p, hp, rfl⟩ := List.mem_map.mp hzip
  have hlink : ({ location := p.2, declaration := p.1.2, perInstance := true } : Link) ∈
      i.links.filter (·.perInstance) := by
    rw [handed_links h]
    exact List.mem_map_of_mem hp
  refine ⟨Link.input ⟨p.2, p.1.2, true⟩, ?_, String.empty_append⟩
  rw [inputs_eq_links h hstage]
  exact List.mem_map_of_mem (List.mem_of_mem_filter hlink)

omit h in
/-- **No instance variable is left out**: those in the code are declared. -/
theorem declaresInstances (hinst : isInstanced i.values = true)
    (hstage : i.stage.stage = .fragment)
    (hl : (i.unit.assignLayout i.values i.stage).layout = some i.layout) :
    i.DeclaresInstances where
  code := by
    intro code hcode
    rw [i.source_eq_items hcode, items_eq, List.map_append, String.join_append,
      joined_codePieces hstage, List.map_append, String.join_append, List.map_map,
      i.join_singleton .main]
    rfl
  functions := joined_codePieces hstage
  declared := by
    intro m hm hname
    obtain ⟨handed, h, hids⟩ := ShaderUnit.exists_assigned_transferred hl
    obtain ⟨first, hfirst, heq⟩ := exists_isFirstOfName _ m hm
    -- what is written occurs in the source, so the first declaration of the name is handed on
    have hmentions : i.unit.Mentions i.stage (.var first.2.name) :=
      heq ▸ occurs_of_mem_codePieces hname
    have htransferred : first.1 ∈ handed.map (·.1) :=
      hids ▸ (ShaderUnit.mem_transferredDeclarations hinst).mpr ⟨first.2, hfirst, hmentions⟩
    obtain ⟨q, hq, hid⟩ := List.mem_map.mp htransferred
    obtain rfl : q = first := List.inj_on_of_nodup_map
      (ShaderUnit.nodup_members (ShaderUnit.nodup_activeBlocks (by decide) i.values))
      (h.sublist.subset hq) hfirst.mem hid
    obtain ⟨x, hx, hxname⟩ := exists_input_of_mem_handed h hstage hq
    obtain ⟨hitem, hdirection⟩ := mem_headItems_of_mem hx
    exact ⟨x, hitem, hdirection, hxname.trans heq⟩

end StageInput

/-! ### Both together -/

namespace ShaderUnit

/-- **Instance variables are handed on if they are needed, and only then.**  The layout lists the
first declaration of each name that the fragment stage or a function mentions, and the code of the
fragment stage declares every instance variable that is written in it. -/
theorem instances_transferred {u : ShaderUnit} {v : Valuation} {fragment : StageBlock}
    (hinst : isInstanced v = true) (hstage : fragment.stage = .fragment) :
    (u.transferredDeclarations v fragment).Nodup ∧
      (∀ id, id ∈ u.transferredDeclarations v fragment ↔
        ∃ d, IsFirstOfName (u.activeMembers v [.instances]) (id, d) ∧
          u.Mentions fragment (.var d.name)) ∧
      ∀ l, (u.assignLayout v fragment).layout = some l →
        l.transferred.map (·.1) = u.transferredDeclarations v fragment ∧
          ∀ p, StageInput.DeclaresInstances ⟨u, fragment, l, p, v⟩ := by
  refine ⟨nodup_transferredDeclarations u v fragment, fun id => mem_transferredDeclarations hinst,
    fun l hl => ⟨map_transferred hl, fun p => ?_⟩⟩
  exact StageInput.declaresInstances hinst hstage hl

/-- Three instance variables, of which a function mentions the last one as the size of an array. -/
def swarmShader : ShaderUnit where
  blocks := [
    .storage {
      kind := .instances
      declarations := [
        { name := "tint", type := .numeric (.vector .float 4) },
        { name := "phase", type := .numeric (.single .float) },
        { name := "count", type := .numeric (.single .int) }] },
    .function {
      name := "trail"
      body := some (.declare [
        { name := "samples"
          type := .array (.numeric (.single .float)) (some (.var "count")) }]) }]

/-- A fragment stage that mentions the tint in the body of a loop. -/
def swarmFragment : StageBlock where
  stage := .fragment
  body := [.whileLoop (.var "busy") (.expression (.binary .assign (.var "color") (.var "tint")))]

/-- The tint and the count are handed on, and the phase is not; there is code, and the names of
both are written in it. -/
theorem swarmShader_transferred : ∃ l,
    (swarmShader.assignLayout instancedValues swarmFragment).layout = some l ∧
      l.transferred.map (·.1) = [{ block := 0, index := 0 }, { block := 0, index := 2 }] ∧
      CodePiece.names (StageInput.codePieces ⟨swarmShader, swarmFragment, l, .initial,
        instancedValues⟩) = ["count", "busy", "color", "tint"] ∧
      (render ⟨swarmShader, swarmFragment, l, .initial, instancedValues⟩).source.isSome = true ∧
      StageInput.DeclaresInstances ⟨swarmShader, swarmFragment, l, .initial, instancedValues⟩ := by
  obtain ⟨l, hl⟩ := Option.isSome_iff_exists.mp (by decide :
    (swarmShader.assignLayout instancedValues swarmFragment).layout.isSome = true)
  obtain ⟨-, -, hlayout⟩ := instances_transferred (u := swarmShader) (v := instancedValues)
    (by decide) (rfl : swarmFragment.stage = .fragment)
  obtain ⟨hids, hdeclares⟩ := hlayout l hl
  have hcode : ((swarmShader.assignLayout instancedValues swarmFragment).layout.map fun l =>
      (render ⟨swarmShader, swarmFragment, l, .initial, instancedValues⟩).source.isSome) =
        some true := by decide +kernel
  rw [hl] at hcode
  exact ⟨l, hl, hids.trans (by decide +kernel), rfl, Option.some.inj hcode, hdeclares .initial⟩

end ShaderUnit

end ShaderVariants
