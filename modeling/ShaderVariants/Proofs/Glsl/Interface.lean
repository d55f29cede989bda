import Mathlib
import ShaderVariants.Glsl.Stage
import ShaderVariants.Proofs.Layout.Locations

/-!
# Agreement of the stages

The code of the vertex stage declares what it hands on, and the code of the fragment stage
what it receives.  The two are written apart; what they share is the layout.

The code of a stage is taken as a sequence of items, of which some are variables of its
interface.  A `Link` is one value on its way: every link is declared once in the code of
each stage, and those of instance variables are assigned at the start of the vertex stage.

## Main definitions

* `InterfaceVariable` — a variable through which data enter or leave a stage.
* `CodeItem`, `StageInput.items` — the code of a stage by its items.
* `Link`, `StageInput.links` — the values on their way between the stages.
* `StageInput.Agrees` — the code of two stages fits together.

## Main results

* `StageInput.text_eq_items` — the items are the code.
* `StageInput.outputs_eq_links`, `StageInput.inputs_eq_links` — what the stages declare.
* `StageInput.transferTexts_eq_assignments` — what the vertex stage assigns first.
* `ShaderUnit.stages_agree` — **the stages fit together** if all names are distinct and none
  is reserved.
-/

namespace ShaderVariants

/-! ### Interface variables -/

/-- Whether data enter or leave a stage. -/
inductive Direction where
  | input
  | output
  deriving DecidableEq, Repr

/-- The words in front of the type of a variable; `flat` values are handed on unchanged. -/
def Direction.qualifier : (flat : Bool) → Direction → String
  | false, .input => "in"
  | false, .output => "out"
  | true, .input => "flat in"
  | true, .output => "flat out"

/-- A variable through which data enter or leave a stage. -/
structure InterfaceVariable where
  location : ℕ
  direction : Direction
  flat : Bool
  type : DataType
  name : String

namespace InterfaceVariable

/-- The declaration of the variable. -/
def text (x : InterfaceVariable) : String :=
  "layout(location = " ++ toString x.location ++ ") " ++ x.direction.qualifier x.flat ++ " " ++
    x.type.declarator x.name ++ ";\n"

/-- A declaration at its location, with something in front of its name. -/
def ofMember (direction : Direction) (flat : Bool) (stem : String) (m : ℕ × Declaration) :
    InterfaceVariable where
  location := m.1
  direction
  flat
  type := m.2.type
  name := stem ++ m.2.name

end InterfaceVariable

/-! ### Items of the code -/

/-- An item of the code of a stage. -/
inductive CodeItem where
  | prologue
  | interface (x : InterfaceVariable)
  /-- The resources of block number `n`. -/
  | resources (n : ℕ) (b : StorageBlock)
  | blank
  | colorOutputs
  | function (f : Function)
  | main

namespace CodeItem

/-- The interface variable, if it is one. -/
def interface? : CodeItem → Option InterfaceVariable
  | .interface x => some x
  | _ => none

/-- Declares members at their locations. -/
def declare (direction : Direction) (flat : Bool) (stem : String)
    (members : List (ℕ × Declaration)) : List CodeItem :=
  members.map (fun m => .interface (.ofMember direction flat stem m)) ++ [.blank]

/-- The variables among some items that go in a direction. -/
def interfaceOf (direction : Direction) (items : List CodeItem) : List InterfaceVariable :=
  (items.filterMap interface?).filter (·.direction = direction)

theorem interfaceOf_append (direction : Direction) (items later : List CodeItem) :
    interfaceOf direction (items ++ later) =
      interfaceOf direction items ++ interfaceOf direction later := by
  rw [interfaceOf, List.filterMap_append, List.filter_append]
  rfl

theorem interfaceOf_declare (wanted direction : Direction) (flat : Bool) (stem : String)
    (members : List (ℕ × Declaration)) :
    interfaceOf wanted (declare direction flat stem members) =
      if direction = wanted then members.map (.ofMember direction flat stem) else [] := by
  have hvariables : (declare direction flat stem members).filterMap interface? =
      members.map (.ofMember direction flat stem) := by
    rw [declare, List.filterMap_append, List.filterMap_map]
    exact (List.append_nil _).trans (congrFun List.filterMap_eq_map' members)
  rw [interfaceOf, hvariables, List.filter_map]
  split_ifs with h
  · refine congrArg (List.map _) (List.filter_eq_self.mpr fun m _ => ?_)
    exact decide_eq_true h
  · refine List.map_eq_nil_iff.mpr (List.filter_eq_nil_iff.mpr fun m _ => ?_)
    exact fun hm => h (of_decide_eq_true hm)

end CodeItem

namespace StageInput

/-- The text of an item. -/
def itemText (i : StageInput) : CodeItem → String
  | .prologue => prologue
  | .interface x => x.text
  | .resources n b => i.resourceBlock n b
  | .blank => "\n"
  | .colorOutputs => i.colorTexts
  | .function f => f.text i.values
  | .main => i.mainText

/-- The items of a storage block. -/
def storageItems (i : StageInput) (n : ℕ) (b : StorageBlock) : List CodeItem :=
  match b.kind, i.stage.stage with
  | .attributes, .vertex => CodeItem.declare .input false "" (i.locatedMembers n b)
  | .attributes, .fragment => []
  | .varying, .vertex => CodeItem.declare .output false "" (i.locatedMembers n b)
  | .varying, .fragment => CodeItem.declare .input false "" (i.locatedMembers n b)
  | .uniform, _ => [.resources n b]
  | .instances, stage =>
    if isInstanced i.values then
      match stage with
      | .vertex =>
        CodeItem.declare .input false "" (i.locatedMembers n b) ++
          CodeItem.declare .output true instanceOutputStem (i.transferredMembers n b)
      | .fragment => CodeItem.declare .input true "" (i.transferredMembers n b)
    else
      [.resources n b]

/-- The items of the color outputs, which only a fragment stage has. -/
def colorItems (i : StageInput) : List CodeItem :=
  match i.stage.stage with
  | .vertex => []
  | .fragment => [.colorOutputs]

/-- The items of the code. -/
def items (i : StageInput) : List CodeItem :=
  [.prologue] ++ (i.activeStorage.flatMap fun p => i.storageItems p.1 p.2) ++ i.colorItems ++
    i.functions.map .function ++ [.main]

/-- What enters or leaves the stage, in the order of the code. -/
def interfaceVariables (i : StageInput) (direction : Direction) : List InterfaceVariable :=
  CodeItem.interfaceOf direction i.items

/-! ### The items are the code -/

theorem join_declare (i : StageInput) (direction : Direction) (flat : Bool) (stem : String)
    (members : List (ℕ × Declaration)) :
    String.join ((CodeItem.declare direction flat stem members).map i.itemText) =
      String.join (members.map fun m => locatedText m.1 (direction.qualifier flat)
        { m.2 with name := stem ++ m.2.name }) ++ "\n" := by
  rw [CodeItem.declare, List.map_append, String.join_append, List.map_map]
  rfl

theorem join_locatedMembers (i : StageInput) (direction : Direction) (n : ℕ) (b : StorageBlock) :
    String.join ((CodeItem.declare direction false "" (i.locatedMembers n b)).map i.itemText) =
      i.locatedBlock n b (direction.qualifier false) := by
  rw [join_declare]
  simp only [String.empty_append]
  rfl

theorem join_singleton (i : StageInput) (item : CodeItem) :
    String.join ([item].map i.itemText) = i.itemText item := by
  rw [List.map_singleton, String.join_cons, String.join_nil, String.append_empty]

theorem storageText_eq_items (i : StageInput) (n : ℕ) (b : StorageBlock) :
    i.storageText n b = String.join ((i.storageItems n b).map i.itemText) := by
  unfold storageText storageItems
  cases b.kind <;> cases i.stage.stage <;> dsimp only
  case attributes.vertex => exact (i.join_locatedMembers .input n b).symm
  case attributes.fragment => rfl
  case varying.vertex => exact (i.join_locatedMembers .output n b).symm
  case varying.fragment => exact (i.join_locatedMembers .input n b).symm
  case uniform.vertex => exact (i.join_singleton (.resources n b)).symm
  case uniform.fragment => exact (i.join_singleton (.resources n b)).symm
  case instances.vertex =>
    split_ifs
    · rw [List.map_append, String.join_append, join_locatedMembers, join_declare]
      rfl
    · exact (i.join_singleton (.resources n b)).symm
  case instances.fragment =>
    split_ifs
    · exact (i.join_declare .input true "" _).symm
    · exact (i.join_singleton (.resources n b)).symm

/-- **The items are the code** of the stage. -/
theorem text_eq_items (i : StageInput) : i.text = String.join (i.items.map i.itemText) := by
  have hstorage : ∀ blocks : List (ℕ × StorageBlock),
      String.join ((blocks.flatMap fun p => i.storageItems p.1 p.2).map i.itemText) =
        String.join (blocks.map fun p => i.storageText p.1 p.2) := by
    intro blocks
    induction blocks with
    | nil => rfl
    | cons p rest ih =>
      rw [List.flatMap_cons, List.map_append, String.join_append, ih, List.map_cons,
        String.join_cons, storageText_eq_items]
  have hcolors : String.join (i.colorItems.map i.itemText) = i.colorTexts := by
    unfold colorItems
    cases hstage : i.stage.stage with
    | vertex => rw [colorTexts, hstage]; rfl
    | fragment => exact i.join_singleton .colorOutputs
  have hfunctions : (i.functions.map CodeItem.function).map i.itemText =
      i.functions.map (Function.text i.values) := List.map_map
  simp only [items, List.map_append, String.join_append, hstorage, hcolors, hfunctions]
  simp [text, itemText, String.append_assoc]

theorem interfaceVariables_eq (i : StageInput) (direction : Direction) :
    i.interfaceVariables direction =
      i.activeStorage.flatMap fun p => CodeItem.interfaceOf direction (i.storageItems p.1 p.2) := by
  have hcolors : i.colorItems.filterMap CodeItem.interface? = [] := by
    unfold colorItems
    cases i.stage.stage <;> rfl
  have hfunctions : (i.functions.map CodeItem.function).filterMap CodeItem.interface? = [] := by
    rw [List.filterMap_map]
    exact List.filterMap_eq_nil_iff.mpr fun _ _ => rfl
  have hends : [CodeItem.prologue].filterMap CodeItem.interface? = [] ∧
      [CodeItem.main].filterMap CodeItem.interface? = [] := ⟨rfl, rfl⟩
  simp only [interfaceVariables, items, CodeItem.interfaceOf, List.filterMap_append,
    hcolors, hfunctions, hends, List.nil_append, List.append_nil]
  rw [List.filterMap_flatMap, List.filter_flatMap]

end StageInput

/-! ### Links -/

/-- The name begins like those of instance variables that are handed on. -/
def IsReserved (name : String) : Prop := instanceOutputStem.toList <+: name.toList

instance : DecidablePred IsReserved := fun name =>
  inferInstanceAs (Decidable (instanceOutputStem.toList <+: name.toList))

/-- A value on its way from the vertex stage to the fragment stage. -/
structure Link where
  location : ℕ
  declaration : Declaration
  /-- Whether it is an instance variable. -/
  perInstance : Bool

namespace Link

/-- What is in front of a name where the value leaves the vertex stage. -/
def outputStem (perInstance : Bool) : String := if perInstance then instanceOutputStem else ""

/-- The variable that leaves the vertex stage. -/
def output (k : Link) : InterfaceVariable :=
  .ofMember .output k.perInstance (outputStem k.perInstance) (k.location, k.declaration)

/-- The variable that enters the fragment stage. -/
def input (k : Link) : InterfaceVariable :=
  .ofMember .input k.perInstance "" (k.location, k.declaration)

/-- Hands an instance variable on. -/
def assignment (k : Link) : String :=
  indentation 1 ++ instanceOutputStem ++ k.declaration.name ++ " = " ++ k.declaration.name ++ ";\n"

/-- Hands all instance variables on. -/
def assignments (links : List Link) : String :=
  match links.filter (·.perInstance) with
  | [] => ""
  | handed => String.join (handed.map assignment) ++ "\n"

/-- Names are not mixed up by what is put in front of some of them. -/
theorem name_of_output_name {k k' : Link} (hk : ¬ IsReserved k.declaration.name)
    (hk' : ¬ IsReserved k'.declaration.name) (h : k.output.name = k'.output.name) :
    k.declaration.name = k'.declaration.name := by
  have hname : ∀ x : Link, x.output.name =
      (if x.perInstance then instanceOutputStem else "") ++ x.declaration.name := fun _ => rfl
  rw [hname, hname] at h
  split_ifs at h
  · exact (String.append_right_inj _).mp h
  -- with the stem in front of one name only, the other one would be reserved
  · rw [String.empty_append] at h
    exact absurd ⟨k.declaration.name.toList, by rw [← h, String.toList_append]⟩ hk'
  · rw [String.empty_append] at h
    exact absurd ⟨k'.declaration.name.toList, by rw [h, String.toList_append]⟩ hk
  · exact (String.append_right_inj _).mp h

end Link

/-- The declarations of block number `n` that are handed on. -/
def StorageBlock.links (b : StorageBlock) (l : Layout) (n : ℕ) : List Link :=
  (b.members n).filterMap fun m => (l.placement m.1).outLocation.map fun location =>
    { location, declaration := m.2, perInstance := b.kind == .instances }

/-- All that is handed on. -/
def StageInput.links (i : StageInput) : List Link :=
  i.activeStorage.flatMap fun p => p.2.links i.layout p.1

namespace StorageBlock

variable {b : StorageBlock} {l : Layout} {n : ℕ}

theorem perInstance_of_mem_links {k : Link} (h : k ∈ b.links l n) :
    k.perInstance = (b.kind == .instances) := by
  obtain ⟨m, -, hm⟩ := List.mem_filterMap.mp h
  obtain ⟨location, -, rfl⟩ := Option.map_eq_some_iff.mp hm
  rfl

/-- What is handed on is declared in the order of the block. -/
theorem declarations_links_sublist (b : StorageBlock) (l : Layout) (n : ℕ) :
    ((b.links l n).map (·.declaration)).Sublist b.declarations := by
  have hlinks : (b.links l n).map (·.declaration) =
      ((b.members n).filter fun m => (l.placement m.1).outLocation.isSome).map (·.2) := by
    rw [links, List.map_filterMap, ← List.filterMap_eq_map, List.filterMap_filter]
    refine List.filterMap_congr fun m _ => ?_
    cases (l.placement m.1).outLocation <;> rfl
  rw [hlinks]
  exact b.map_snd_members n ▸ List.filter_sublist.map _

theorem links_eq_nil (h : ∀ m ∈ b.members n, (l.placement m.1).outLocation = none) :
    b.links l n = [] := by
  refine List.filterMap_eq_nil_iff.mpr fun m hm => ?_
  rw [h m hm]
  rfl

/-- What is in front of the names and whether values are handed on unchanged depends on
the kind of the block alone. -/
theorem map_links {perInstance : Bool} (h : (b.kind == .instances) = perInstance)
    (direction : Direction) (stem : Bool → String) :
    ((b.links l n).map fun k => (k.location, k.declaration)).map
        (InterfaceVariable.ofMember direction perInstance (stem perInstance)) =
      (b.links l n).map fun k => InterfaceVariable.ofMember direction k.perInstance
        (stem k.perInstance) (k.location, k.declaration) := by
  rw [List.map_map]
  refine List.map_congr_left fun k hk => ?_
  rw [perInstance_of_mem_links hk, h]
  rfl

end StorageBlock

namespace StageInput

theorem nodup_activeStorage (i : StageInput) : (i.activeStorage.map (·.1)).Nodup :=
  i.unit.nodup_numbers.sublist (List.filter_sublist.map _)

variable {i : StageInput} {handed : List (DeclarationId × Declaration)}
  (h : i.layout.Assigned i.unit i.values handed) {n : ℕ} {b : StorageBlock}

include h

/-- The varyings that have a location are handed on at it. -/
theorem locatedMembers_eq_links (hb : (n, b) ∈ i.unit.storageBlocks) (hkind : b.kind = .varying) :
    i.locatedMembers n b = (b.links i.layout n).map fun k => (k.location, k.declaration) := by
  rw [StorageBlock.links, List.map_filterMap]
  refine List.filterMap_congr fun m hm => ?_
  dsimp only
  rw [h.inLocation_of_varying hb hm hkind, Option.map_map]
  rfl

/-- The instance variables that are handed on. -/
theorem transferredMembers_eq_links (hb : (n, b) ∈ i.unit.storageBlocks)
    (hkind : b.kind = .instances) :
    i.transferredMembers n b = (b.links i.layout n).map fun k => (k.location, k.declaration) := by
  rw [StorageBlock.links, List.map_filterMap]
  refine List.filterMap_congr fun m hm => ?_
  dsimp only
  rw [h.outLocation_of_instances hb hm hkind, Layout.isTransferred, Option.map_map]
  cases i.layout.transferred.lookup m.1 with
  | none => rfl
  | some location => rfl

/-- No instance variable is handed on if instance data are uniform. -/
theorem links_of_plain (hb : (n, b) ∈ i.unit.storageBlocks) (hkind : b.kind = .instances)
    (hplain : isInstanced i.values = false) : b.links i.layout n = [] := by
  refine StorageBlock.links_eq_nil fun m hm => ?_
  rw [h.outLocation_of_instances hb hm hkind, h.transferred, h.plain hplain]
  rfl

theorem links_of_other (hb : (n, b) ∈ i.unit.storageBlocks) (hvarying : b.kind ≠ .varying)
    (hinstances : b.kind ≠ .instances) : b.links i.layout n = [] :=
  StorageBlock.links_eq_nil fun _ hm => h.outLocation_of_other hb hm hvarying hinstances

/-- What a block of the vertex stage hands on. -/
theorem outputs_of_storageItems (hstage : i.stage.stage = .vertex)
    (hb : (n, b) ∈ i.unit.storageBlocks) :
    CodeItem.interfaceOf .output (i.storageItems n b) = (b.links i.layout n).map Link.output := by
  unfold storageItems
  rw [hstage]
  cases hkind : b.kind <;> dsimp only
  case attributes =>
    rw [links_of_other h hb (by simp [hkind]) (by simp [hkind]), CodeItem.interfaceOf_declare]
    rfl
  case instances =>
    have hperInstance : (b.kind == .instances) = true := beq_iff_eq.mpr hkind
    cases hinst : isInstanced i.values with
    | false =>
      rw [links_of_plain h hb hkind hinst]
      rfl
    | true =>
      -- the first variables enter the stage, the second ones leave it
      rw [if_pos rfl, CodeItem.interfaceOf_append, CodeItem.interfaceOf_declare,
        CodeItem.interfaceOf_declare, transferredMembers_eq_links h hb hkind]
      exact StorageBlock.map_links hperInstance .output Link.outputStem
  case uniform =>
    rw [links_of_other h hb (by simp [hkind]) (by simp [hkind])]
    rfl
  case varying =>
    have hperInstance : (b.kind == .instances) = false := by rw [hkind]; rfl
    rw [CodeItem.interfaceOf_declare, locatedMembers_eq_links h hb hkind]
    exact StorageBlock.map_links hperInstance .output Link.outputStem

/-- What a block of the fragment stage receives. -/
theorem inputs_of_storageItems (hstage : i.stage.stage = .fragment)
    (hb : (n, b) ∈ i.unit.storageBlocks) :
    CodeItem.interfaceOf .input (i.storageItems n b) = (b.links i.layout n).map Link.input := by
  unfold storageItems
  rw [hstage]
  cases hkind : b.kind <;> dsimp only
  case attributes =>
    rw [links_of_other h hb (by simp [hkind]) (by simp [hkind])]
    rfl
  case instances =>
    have hperInstance : (b.kind == .instances) = true := beq_iff_eq.mpr hkind
    cases hinst : isInstanced i.values with
    | false =>
      rw [links_of_plain h hb hkind hinst]
      rfl
    | true =>
      rw [if_pos rfl, CodeItem.interfaceOf_declare, transferredMembers_eq_links h hb hkind]
      exact StorageBlock.map_links hperInstance .input fun _ => ""
  case uniform =>
    rw [links_of_other h hb (by simp [hkind]) (by simp [hkind])]
    rfl
  case varying =>
    have hperInstance : (b.kind == .instances) = false := by rw [hkind]; rfl
    rw [CodeItem.interfaceOf_declare, locatedMembers_eq_links h hb hkind]
    exact StorageBlock.map_links hperInstance .input fun _ => ""

/-- **What the vertex stage declares** is what is handed on. -/
theorem outputs_eq_links (hstage : i.stage.stage = .vertex) :
    i.interfaceVariables .output = i.links.map Link.output := by
  rw [interfaceVariables_eq, links, List.map_flatMap]
  refine List.flatMap_congr fun p hp => ?_
  exact outputs_of_storageItems h hstage (List.mem_of_mem_filter hp)

/-- **What the fragment stage declares** is what is handed on. -/
theorem inputs_eq_links (hstage : i.stage.stage = .fragment) :
    i.interfaceVariables .input = i.links.map Link.input := by
  rw [interfaceVariables_eq, links, List.map_flatMap]
  refine List.flatMap_congr fun p hp => ?_
  exact inputs_of_storageItems h hstage (List.mem_of_mem_filter hp)

/-! ### Locations and names -/

/-- No two values are handed on at one location. -/
theorem nodup_locations : (i.links.map (·.location)).Nodup := by
  have hlocations : i.links.map (·.location) =
      ((i.activeStorage.flatMap fun p => p.2.members p.1).map (·.1)).filterMap
        fun id => (i.layout.placement id).outLocation := by
    rw [List.filterMap_map, links, List.map_flatMap, List.filterMap_flatMap]
    refine List.flatMap_congr fun p _ => ?_
    rw [StorageBlock.links, List.map_filterMap]
    refine List.filterMap_congr fun m _ => ?_
    rw [Option.map_map]
    exact Option.map_id'
  -- declarations are told apart by their places, and locations by the declarations
  rw [hlocations]
  refine List.Nodup.filterMap (fun id id' location hid hid' => ?_)
    (ShaderUnit.nodup_members i.nodup_activeStorage)
  exact h.outLocation_injective hid hid'

/-- Only varyings and instance variables are handed on. -/
theorem origin_of_mem_links {k : Link} (hk : k ∈ i.links) :
    ∃ p ∈ i.activeStorage, k.declaration ∈ p.2.declarations ∧
      p.2.kind = if k.perInstance then .instances else .varying := by
  obtain ⟨p, hp, hk⟩ := List.mem_flatMap.mp hk
  have hdeclared := (p.2.declarations_links_sublist i.layout p.1).subset (List.mem_map_of_mem hk)
  refine ⟨p, hp, hdeclared, ?_⟩
  rw [StorageBlock.perInstance_of_mem_links hk]
  by_cases hinstances : p.2.kind = .instances
  · rw [hinstances]
    rfl
  by_cases hvarying : p.2.kind = .varying
  · rw [hvarying]
    rfl
  · rw [links_of_other h (List.mem_of_mem_filter hp) hvarying hinstances] at hk
    exact absurd hk List.not_mem_nil

end StageInput

/-- The names of all declarations in storage blocks. -/
def ShaderUnit.storageNames (u : ShaderUnit) : List String :=
  u.storageBlocks.flatMap fun p => p.2.declarations.map (·.name)

namespace StageInput

variable {i : StageInput}

/-- What is handed on is declared in the order of the source. -/
theorem names_sublist (i : StageInput) :
    (i.links.map (·.declaration.name)).Sublist i.unit.storageNames := by
  have hactive : (i.activeStorage.flatMap fun p => p.2.declarations.map (·.name)).Sublist
      i.unit.storageNames := List.filter_sublist.flatMap _
  refine List.Sublist.trans ?_ hactive
  rw [links, List.map_flatMap]
  refine List.Sublist.flatMap_right _ fun p _ => ?_
  have hnames := (p.2.declarations_links_sublist i.layout p.1).map (·.name)
  rwa [List.map_map] at hnames

theorem nodup_inputNames (h : i.unit.storageNames.Nodup) :
    (i.links.map (·.input.name)).Nodup := by
  have hnames : i.links.map (·.input.name) = i.links.map (·.declaration.name) :=
    List.map_congr_left fun k _ => String.empty_append
  exact hnames ▸ h.sublist i.names_sublist

/-- Names are not mixed up by what is put in front of some of them. -/
theorem nodup_outputNames (h : i.unit.storageNames.Nodup)
    (hreserved : ∀ name ∈ i.unit.storageNames, ¬ IsReserved name) :
    (i.links.map (·.output.name)).Nodup := by
  have hnames : i.links.Pairwise fun k k' => k.declaration.name ≠ k'.declaration.name :=
    List.pairwise_map.mp (h.sublist i.names_sublist)
  have hlinks : ∀ k ∈ i.links, ¬ IsReserved k.declaration.name := fun k hk =>
    hreserved _ (i.names_sublist.subset (List.mem_map_of_mem hk))
  refine List.pairwise_map.mpr (hnames.imp_of_mem fun hk hk' hne heq => hne ?_)
  exact Link.name_of_output_name (hlinks _ hk) (hlinks _ hk') heq

/-! ### Instance variables that are handed on -/

variable {handed : List (DeclarationId × Declaration)}
  (h : i.layout.Assigned i.unit i.values handed)

include h

/-- The active declarations hold the ones that are handed on. -/
theorem handed_sublist : handed.Sublist (i.activeStorage.flatMap fun p => p.2.members p.1) := by
  have hblocks : (i.unit.blocksOf [.instances]).Sublist i.unit.storageBlocks := by
    rw [ShaderUnit.blocksOf, List.flatMap_singleton]
    exact List.filter_sublist
  exact h.sublist.trans ((hblocks.filter _).flatMap _)

/-- Of one block, the instance variables are found in the layout. -/
theorem filter_links {n : ℕ} {b : StorageBlock} (hb : (n, b) ∈ i.unit.storageBlocks) :
    (b.links i.layout n).filter (·.perInstance) =
      (b.members n).filterMap fun m => (i.layout.transferred.lookup m.1).map fun location =>
        { location, declaration := m.2, perInstance := true } := by
  by_cases hkind : b.kind = .instances
  · rw [List.filter_eq_self.mpr, StorageBlock.links]
    · refine List.filterMap_congr fun m hm => ?_
      rw [h.outLocation_of_instances hb hm hkind, hkind]
      rfl
    · exact fun k hk => (StorageBlock.perInstance_of_mem_links hk).trans (beq_iff_eq.mpr hkind)
  -- a block of another kind has no instance variables, and the layout lists none of it
  · rw [List.filter_eq_nil_iff.mpr, List.filterMap_eq_nil_iff.mpr]
    · intro m hm
      rw [h.lookup_transferred hb hm hkind]
      rfl
    · intro k hk hper
      exact hkind (beq_iff_eq.mp ((StorageBlock.perInstance_of_mem_links hk).symm.trans hper))

/-- The instance variables are handed on behind the varyings, in order. -/
theorem handed_links : i.links.filter (·.perInstance) =
    (handed.zipIdx i.layout.varyings.length).map fun p =>
      { location := p.2, declaration := p.1.2, perInstance := true } := by
  calc i.links.filter (·.perInstance)
      = i.activeStorage.flatMap fun p => (p.2.members p.1).filterMap fun m =>
          (i.layout.transferred.lookup m.1).map fun location =>
            ({ location, declaration := m.2, perInstance := true } : Link) := by
        rw [links, List.filter_flatMap]
        exact List.flatMap_congr fun p hp => filter_links h (List.mem_of_mem_filter hp)
    _ = ((i.activeStorage.flatMap fun p => p.2.members p.1).filterMap fun m =>
          (i.layout.transferred.lookup m.1).map (·, m.2)).map fun q =>
            ({ location := q.1, declaration := q.2, perInstance := true } : Link) := by
        rw [List.map_filterMap, List.filterMap_flatMap]
        simp only [Option.map_map]
        rfl
    _ = _ := by
        rw [h.transferred, ShaderUnit.filterMap_lookup_number (handed_sublist h) _
          (ShaderUnit.nodup_members i.nodup_activeStorage), List.map_map]
        rfl

theorem declaration_of_mem_handed {m : DeclarationId × Declaration} (hm : m ∈ handed) :
    i.unit.declaration? m.1 = some m.2 := by
  obtain ⟨p, hp, hm⟩ := List.mem_flatMap.mp ((handed_sublist h).subset hm)
  exact ShaderUnit.declaration_of_mem (List.mem_of_mem_filter hp) hm

/-- The layout lists the instance variables that are handed on. -/
theorem transferred_eq_links :
    (i.layout.transferred.map fun p => (i.unit.declaration? p.1, p.2)) =
      (i.links.filter (·.perInstance)).map fun k => (some k.declaration, k.location) := by
  rw [handed_links h, h.transferred, ShaderUnit.number, List.zipIdx_map, List.map_map,
    List.map_map]
  refine List.map_congr_left fun p hp => ?_
  have hm : p.1 ∈ handed := List.fst_mem_of_mem_zipIdx hp
  exact congrArg (·, p.2) (declaration_of_mem_handed h hm)

/-- The vertex stage hands on each instance variable once. -/
theorem transferTexts_eq_assignments (hstage : i.stage.stage = .vertex) :
    i.transferTexts = Link.assignments i.links := by
  have htexts : (i.layout.transferred.map fun p => i.transferText p.1) =
      (i.links.filter (·.perInstance)).map Link.assignment := by
    -- both are maps over the declarations that the layout lists
    have htext : ∀ p ∈ i.layout.transferred, i.transferText p.1 =
        ((i.unit.declaration? p.1).map fun d => Link.assignment ⟨p.2, d, true⟩).getD "" := by
      intro p _
      unfold transferText
      cases i.unit.declaration? p.1 <;> rfl
    have htransferred := congrArg (List.map fun q : Option Declaration × ℕ =>
      (q.1.map fun d => Link.assignment ⟨q.2, d, true⟩).getD "") (transferred_eq_links h)
    rw [List.map_map, List.map_map] at htransferred
    exact (List.map_congr_left htext).trans htransferred
  unfold transferTexts Link.assignments
  rw [hstage]
  cases htransferred : i.layout.transferred with
  | nil =>
    rw [htransferred, List.map_nil] at htexts
    rw [List.map_eq_nil_iff.mp htexts.symm]
  | cons p rest =>
    rw [htransferred] at htexts
    cases hlinks : i.links.filter (·.perInstance) with
    | nil => rw [hlinks] at htexts; cases htexts
    | cons k links => exact congrArg (String.join · ++ "\n") (hlinks ▸ htexts)

end StageInput

/-! ### Agreement -/

/-- The code of a vertex stage `i` and that of a fragment stage `j` fit together: each value
that is handed on is declared once in both, and each instance variable is assigned once. -/
structure StageInput.Agrees (i j : StageInput) : Prop where
  /-- The items of a stage are its code. -/
  vertexCode : ∀ code ∈ (render i).source, code = String.join (i.items.map i.itemText)
  fragmentCode : ∀ code ∈ (render j).source, code = String.join (j.items.map j.itemText)
  /-- What leaves the vertex stage enters the fragment stage, at the same location and with
  the same type. -/
  outputs : i.interfaceVariables .output = i.links.map Link.output
  inputs : j.interfaceVariables .input = i.links.map Link.input
  locations : (i.links.map (·.location)).Nodup
  outputNames : (i.links.map (·.output.name)).Nodup
  inputNames : (i.links.map (·.input.name)).Nodup
  /-- A value is that of a varying or of an instance variable. -/
  declared : ∀ k ∈ i.links, ∃ p ∈ i.activeStorage, k.declaration ∈ p.2.declarations ∧
    p.2.kind = if k.perInstance then .instances else .varying
  /-- The instance variables are those that the layout lists. -/
  transferred : (i.layout.transferred.map fun p => (i.unit.declaration? p.1, p.2)) =
    (i.links.filter (·.perInstance)).map fun k => (some k.declaration, k.location)
  /-- The entry function of the vertex stage begins with their assignments. -/
  main : i.mainText = "void main() \x7b\n" ++ Link.assignments i.links ++
    Statement.allText i.values 1 i.stage.body ++ "\x7d\n"

theorem StageInput.source_eq_items (i : StageInput) {code : String}
    (h : code ∈ (render i).source) : code = String.join (i.items.map i.itemText) := by
  rw [← text_eq_items]
  have hsource : (if hasFailure i.faults then none else some i.text) = some code := h
  split_ifs at hsource
  exact (Option.some.inj hsource).symm

/-- **The stages fit together** if all names are distinct and none is reserved.

Only what the two stages share is fixed: the source, the values and the layout, which was
assigned for some fragment stage. -/
theorem ShaderUnit.stages_agree {u : ShaderUnit} {v : Valuation} {fragment : StageBlock}
    {l : Layout} (hl : (u.assignLayout v fragment).layout = some l) (hnames : u.storageNames.Nodup)
    (hreserved : ∀ name ∈ u.storageNames, ¬ IsReserved name) {b b' : StageBlock}
    {p p' : PipelineState} (hvertex : b.stage = .vertex) (hfragment : b'.stage = .fragment) :
    StageInput.Agrees ⟨u, b, l, p, v⟩ ⟨u, b', l, p', v⟩ := by
  obtain ⟨handed, h⟩ := exists_assigned hl
  let i : StageInput := ⟨u, b, l, p, v⟩
  let j : StageInput := ⟨u, b', l, p', v⟩
  have hi : i.layout.Assigned i.unit i.values handed := h
  have hj : j.layout.Assigned j.unit j.values handed := h
  have hmain : i.mainText = "void main() \x7b\n" ++ i.transferTexts ++
    Statement.allText i.values 1 i.stage.body ++ "\x7d\n" := rfl
  exact {
    vertexCode := fun _ => i.source_eq_items
    fragmentCode := fun _ => j.source_eq_items
    outputs := StageInput.outputs_eq_links hi hvertex
    inputs := StageInput.inputs_eq_links hj hfragment
    locations := StageInput.nodup_locations hi
    outputNames := StageInput.nodup_outputNames hnames hreserved
    inputNames := StageInput.nodup_inputNames hnames
    declared := fun _ => StageInput.origin_of_mem_links hi
    transferred := StageInput.transferred_eq_links hi
    main := StageInput.transferTexts_eq_assignments hi hvertex ▸ hmain }

/-- A source whose fragment stage reads an instance variable. -/
def tintedShader : ShaderUnit where
  blocks := [
    .storage { kind := .attributes
               declarations := [{ name := "position", type := .numeric (.vector .float 3) }] },
    .storage { kind := .instances
               declarations := [{ name := "tint", type := .numeric (.vector .float 4) }] },
    .storage { kind := .varying
               declarations := [{ name := "v_uv", type := .numeric (.vector .float 2) }] }]

/-- A fragment stage that reads the tint. -/
def tintedFragment : StageBlock :=
  { stage := .fragment, body := [.expression (.var "tint")] }

/-- Instance data are vertex attributes. -/
def instancedValues : Valuation := fun name => if name = instancingOption then some 1 else none

/-- The tint is handed on at the location behind the varying. -/
theorem tintedShader_agrees : ∃ l,
    (tintedShader.assignLayout instancedValues tintedFragment).layout = some l ∧
      l.transferred = [({ block := 1, index := 0 }, 1)] ∧
      StageInput.Agrees ⟨tintedShader, { stage := .vertex }, l, .initial, instancedValues⟩
        ⟨tintedShader, tintedFragment, l, .initial, instancedValues⟩ := by
  obtain ⟨l, hl⟩ := Option.isSome_iff_exists.mp (by decide :
    (tintedShader.assignLayout instancedValues tintedFragment).layout.isSome = true)
  have htransferred : ((tintedShader.assignLayout instancedValues tintedFragment).layout.map
      (·.transferred)) = some [({ block := 1, index := 0 }, 1)] := by decide +kernel
  rw [hl] at htransferred
  exact ⟨l, hl, Option.some.inj htransferred,
    ShaderUnit.stages_agree hl (by decide) (by decide +kernel) rfl rfl⟩

end ShaderVariants
