import Mathlib
import ShaderVariants.Compile.Variant
import ShaderVariants.Proofs.Invariance.Layout

/-!
# What a compiler has to say

All that the passes of a compilation find to say are failures.  Anything milder comes from the
downstream compiler, or shows the code that it has failed on.  Among the failures, those about
conditions without a value are special: where all conditions have one, none of them occurs.

## Main definitions

* `Diagnostic.IsUndecided` — the fault of a condition without a value.
* `Diagnostic.Failures` — diagnostics that fail a build.
* `VariantCompiler.SaidDownstream`, `VariantCompiler.Remarks` — who says what while a variant
  is compiled.

## Main results

* `StageInput.failures_faults`, `ShaderUnit.failures_assignLayout` — code and layouts.
* `VariantCompiler.remarks_compileWord` — **who says what while a variant is compiled.**
* `VariantCompiler.diagnostics_compile` — the announcement in front of it.
-/

namespace ShaderVariants

/-! ### Failures -/

namespace Diagnostic

/-- The condition of a block turned out to have no value. -/
def IsUndecided (d : Diagnostic) : Prop :=
  d.severity = .internal ∧ d.message = "block condition is not evaluable for this variant"

/-- Every one of the diagnostics fails a build.  None is about an undecided condition unless
there is one, as `undecided` says. -/
def Failures (undecided : Prop) (ds : List Diagnostic) : Prop :=
  ∀ d ∈ ds, d.severity.isFailure = true ∧ (d.IsUndecided → undecided)

variable {undecided : Prop} {ds es : List Diagnostic}

theorem failures_nil : Failures undecided [] := by
  intro d hd
  cases hd

/-- Faults of the source are not about undecided conditions. -/
theorem failures_error {d : Diagnostic} (h : d.severity = .error) : Failures undecided [d] := by
  refine List.forall_mem_singleton.mpr ⟨?_, fun hundecided => ?_⟩
  · rw [h]
    rfl
  · cases h.symm.trans hundecided.1

/-- Other faults of the compiler begin with other words. -/
theorem failures_fault {message : String} (h : message.toList.head? ≠ some 'b') :
    Failures undecided [fault message] := by
  refine List.forall_mem_singleton.mpr ⟨rfl, fun hundecided => ?_⟩
  exact absurd (congrArg (·.toList.head?) hundecided.2) h

theorem failures_append :
    Failures undecided (ds ++ es) ↔ Failures undecided ds ∧ Failures undecided es :=
  List.forall_mem_append

theorem failures_flatMap {α : Type*} {f : α → List Diagnostic} {l : List α}
    (h : ∀ a ∈ l, Failures undecided (f a)) : Failures undecided (l.flatMap f) := by
  intro d hd
  obtain ⟨a, ha, hd⟩ := List.mem_flatMap.mp hd
  exact h a ha d hd

theorem failures_map_getD {α : Type*} {f : α → List Diagnostic} {o : Option α}
    (h : ∀ a, Failures undecided (f a)) : Failures undecided ((o.map f).getD []) := by
  cases o with
  | none => exact failures_nil
  | some a => exact h a

end Diagnostic

open Diagnostic

/-! ### Code -/

variable {undecided : Prop} {v : Valuation}

theorem DataType.failures_typeFaults (t : DataType) : Failures undecided t.typeFaults := by
  induction t with
  | numeric type =>
    rw [typeFaults, NumericType.faults]
    split_ifs
    · exact failures_nil
    · exact failures_fault (by simp)
  | buffer content ih => exact ih
  | array element size ih => exact ih
  | image type => exact failures_nil
  | sampler => exact failures_nil
  | named name => exact failures_nil

namespace Statement

theorem failures_headFaults (s : Statement) : Failures undecided s.headFaults := by
  unfold headFaults
  split
  · exact failures_nil
  · exact failures_nil
  · exact failures_nil
  · next first _ => exact first.type.failures_typeFaults
  · exact failures_fault (by decide)

mutual

theorem failures_faults : ∀ s : Statement, Failures undecided (s.faults v)
  | .empty | .expression _ | .caseLabel _ | .defaultLabel | .giveBack _ | .jump _ => failures_nil
  | .declare ds => failures_headFaults (.declare ds)
  | .selection condition consequent none => by
    rw [faults]
    split
    · exact failures_nil
    · exact failures_faults consequent
  | .selection condition consequent (some alternative) => by
    rw [faults]
    split
    · exact failures_faults consequent
    · exact failures_faults alternative
    · exact failures_append.mpr ⟨failures_faults consequent, failures_faults alternative⟩
  | .switch value body => by
    rw [faults]
    exact failures_allFaults body
  | .forLoop start condition update body => by
    rw [faults]
    exact failures_append.mpr ⟨start.failures_headFaults, failures_faults body⟩
  | .whileLoop condition body => by
    rw [faults]
    exact failures_faults body
  | .doWhile body condition => by
    rw [faults]
    exact failures_faults body
  | .scope body => by
    rw [faults]
    exact failures_allFaults body

theorem failures_allFaults : ∀ body : List Statement, Failures undecided (allFaults v body)
  | [] => failures_nil
  | s :: rest => by
    rw [allFaults]
    exact failures_append.mpr ⟨failures_faults s, failures_allFaults rest⟩

end

end Statement

theorem Function.failures_faults (f : Function) : Failures undecided (f.faults v) := by
  unfold Function.faults
  refine failures_append.mpr ⟨failures_append.mpr ⟨?_, ?_⟩, ?_⟩
  · exact failures_map_getD DataType.failures_typeFaults
  · exact failures_flatMap fun d _ => d.type.failures_typeFaults
  · exact failures_map_getD Statement.failures_faults

namespace StageInput

variable (i : StageInput)

theorem failures_storageFaults (n : ℕ) (b : StorageBlock) :
    Failures undecided (i.storageFaults n b) := by
  have htypes (members : List (ℕ × Declaration)) :
      Failures undecided (members.flatMap (·.2.type.typeFaults)) :=
    failures_flatMap fun m _ => m.2.type.failures_typeFaults
  have hresources : Failures undecided (resourceFaults (i.slottedMembers n b)) := by
    refine failures_append.mpr ⟨?_, ?_⟩
    · exact failures_flatMap fun m _ => m.2.type.failures_typeFaults
    · exact failures_flatMap fun m _ => m.2.type.failures_typeFaults
  unfold storageFaults
  dsimp only
  split
  · exact htypes _
  · exact failures_nil
  · exact htypes _
  · exact hresources
  · split_ifs
    · split
      · exact failures_append.mpr ⟨htypes _, htypes _⟩
      · exact htypes _
    · exact hresources

/-- **Code is only spoken of if it cannot be generated.** -/
theorem failures_faults : Failures undecided i.faults := by
  have hcolors : Failures undecided i.colorFaults := by
    unfold colorFaults
    split
    · exact failures_nil
    · refine List.forall_mem_map.mpr fun o _ => ?_
      exact (failures_error rfl) _ List.mem_cons_self
  unfold faults
  refine failures_append.mpr ⟨failures_append.mpr ⟨failures_append.mpr ⟨?_, hcolors⟩, ?_⟩, ?_⟩
  · exact failures_flatMap fun p _ => i.failures_storageFaults p.1 p.2
  · exact failures_flatMap fun f _ => f.failures_faults
  · exact Statement.failures_allFaults _

end StageInput

/-! ### Layouts -/

/-- A condition without a value is a fault, and there is one. -/
theorem failures_undecidedCondition {condition : Option Condition}
    (h : undecidedCondition v condition ≠ [] → undecided) :
    Failures undecided (undecidedCondition v condition) := by
  refine fun d hd => ⟨?_, fun _ => h (List.ne_nil_of_mem hd)⟩
  unfold undecidedCondition at hd
  split at hd
  · rw [List.mem_singleton.mp hd]
    rfl
  · cases hd

namespace ShaderUnit

theorem failures_diagnoseInstanceNames : ∀ members seen : List (DeclarationId × Declaration),
    Failures undecided (diagnoseInstanceNames seen members) := by
  intro members
  induction members with
  | nil => exact fun _ => failures_nil
  | cons m rest ih =>
    intro seen
    rw [diagnoseInstanceNames]
    split
    · exact failures_append.mpr ⟨failures_error rfl, ih seen⟩
    · exact ih _

theorem failures_diagnoseAttribute (a : Declaration) :
    Failures undecided (diagnoseAttribute a) := by
  unfold diagnoseAttribute
  split
  · exact failures_nil
  · exact failures_error rfl

end ShaderUnit

theorem StorageBlock.failures_diagnoseResource (r : Declaration) :
    Failures undecided (diagnoseResource r) := by
  unfold diagnoseResource
  split_ifs
  · exact failures_nil
  · exact failures_error rfl
  · exact failures_nil
  · exact failures_error rfl

theorem Resources.failures_ofBlocks : ∀ (blocks : List (ℕ × StorageBlock)) (next : ℕ),
    Failures undecided (ofBlocks next blocks).diagnostics := by
  intro blocks
  induction blocks with
  | nil => exact fun _ => failures_nil
  | cons p rest ih =>
    intro next
    have hown : Failures undecided (p.2.declarations.flatMap StorageBlock.diagnoseResource) :=
      failures_flatMap fun r _ => StorageBlock.failures_diagnoseResource r
    rw [ofBlocks]
    dsimp only
    split
    · exact hown
    · exact failures_append.mpr ⟨hown, ih _⟩

namespace ShaderUnit

variable {u : ShaderUnit}
  (h : ∀ block ∈ u.blocks, undecidedCondition v block.condition? ≠ [] → undecided)

include h

theorem failures_undecidedBlocks (kinds : List StorageKind) :
    Failures undecided (u.undecidedBlocks v kinds) := by
  refine failures_flatMap fun p hp => failures_undecidedCondition ?_
  exact h _ (storage_mem_blocks (mem_blocksOf.mp hp).1)

/-- **Layouts are only spoken of if something is wrong with them.** -/
theorem failures_assignLayout (fragment : StageBlock) :
    Failures undecided (u.assignLayout v fragment).diagnostics := by
  have htransferred : Failures undecided (u.diagnoseTransferred v) := by
    unfold diagnoseTransferred
    split_ifs
    · exact failures_append.mpr
        ⟨failures_undecidedBlocks h _, failures_diagnoseInstanceNames _ _⟩
    · exact failures_nil
  have hattributes : Failures undecided (u.diagnoseAttributes v) :=
    failures_append.mpr ⟨failures_undecidedBlocks h _,
      failures_flatMap fun m _ => failures_diagnoseAttribute m.2.1⟩
  have hearly : Failures undecided (u.diagnoseTransferred v ++ u.diagnoseAttributes v ++
      u.undecidedBlocks v (resourceKinds v) ++ (u.placeResources v).diagnostics) := by
    refine failures_append.mpr ⟨failures_append.mpr ⟨?_, failures_undecidedBlocks h _⟩, ?_⟩
    · exact failures_append.mpr ⟨htransferred, hattributes⟩
    · exact Resources.failures_ofBlocks _ _
  unfold assignLayout
  dsimp only
  split_ifs
  · exact hearly
  · exact failures_append.mpr ⟨hearly, failures_undecidedBlocks h _⟩

end ShaderUnit

/-! ### Compiling -/

namespace VariantCompiler

/-- What a run of the downstream compiler of `c` says. -/
def SaidDownstream (c : VariantCompiler) (d : Diagnostic) : Prop :=
  ∃ source stage definitions output,
    c.downstream source stage definitions = .finished output ∧ d ∈ output.diagnostics

/-- Each diagnostic is a failure, or it shows generated code, or the downstream compiler of `c`
has said it. -/
def Remarks (c : VariantCompiler) (undecided : Prop) (ds : List Diagnostic) : Prop :=
  ∀ d ∈ ds, d.severity.isFailure = true ∧ (d.IsUndecided → undecided) ∨
    d.severity = .info ∧ d.code = .generatedSource ∨ c.SaidDownstream d

variable {c : VariantCompiler} {ds es : List Diagnostic}

theorem remarks_append :
    c.Remarks undecided (ds ++ es) ↔ c.Remarks undecided ds ∧ c.Remarks undecided es :=
  List.forall_mem_append

theorem remarks_of_failures (h : Failures undecided ds) : c.Remarks undecided ds :=
  fun d hd => .inl (h d hd)

theorem failures_inFile (h : Failures undecided ds) : Failures undecided (c.inFile ds) :=
  List.forall_mem_map.mpr h

theorem remarks_diagnoseOutput {source : String} {stage : ShaderStage}
    {definitions : List MacroDefinition} {output : DownstreamOutput}
    (h : c.downstream source stage definitions = .finished output) :
    c.Remarks undecided (c.diagnoseOutput stage source output) := by
  unfold diagnoseOutput
  refine remarks_append.mpr ⟨remarks_append.mpr ⟨?_, ?_⟩, ?_⟩
  · split_ifs
    · exact List.forall_mem_singleton.mpr (.inr (.inl ⟨rfl, rfl⟩))
    · exact remarks_of_failures failures_nil
  · split_ifs
    · exact remarks_of_failures (failures_inFile (failures_error rfl))
    · exact remarks_of_failures failures_nil
  · exact fun d hd => .inr (.inr ⟨source, stage, definitions, output, h, hd⟩)

theorem remarks_crash (h : c.Remarks undecided ds) (message : Option String) :
    c.Remarks undecided (c.crash ds message).diagnostics :=
  remarks_append.mpr ⟨h, remarks_of_failures (failures_inFile (failures_fault (by simp)))⟩

theorem remarks_compilePrograms (h : c.Remarks undecided ds)
    (vertexSource fragmentSource : String) (build : List UInt8 → List UInt8 → Variant) :
    c.Remarks undecided (c.compilePrograms v ds vertexSource fragmentSource build).diagnostics := by
  simp only [compilePrograms]
  split
  · exact remarks_crash h _
  · next vertex hvertex =>
    have hds := remarks_append.mpr ⟨h, remarks_diagnoseOutput hvertex⟩
    split
    · exact remarks_crash hds _
    · next fragment hfragment =>
      exact remarks_append.mpr ⟨hds, remarks_diagnoseOutput hfragment⟩

section Conditions

variable {w : OptionWord} (h : ∀ block ∈ c.unit.blocks,
  undecidedCondition (c.valuation w) block.condition? ≠ [] → undecided)

include h

theorem failures_undecidedPipeline : Failures undecided (c.undecidedPipeline (c.valuation w)) := by
  refine failures_inFile (failures_flatMap fun b hb => failures_undecidedCondition ?_)
  obtain ⟨block, hblock, heq⟩ := List.mem_filterMap.mp hb
  cases block <;> cases heq
  exact h _ hblock

theorem failures_diagnoseStage (stage : ShaderStage) :
    Failures undecided (c.diagnoseStage (c.valuation w) stage) := by
  unfold diagnoseStage
  refine failures_append.mpr ⟨?_, ?_⟩
  · refine failures_inFile (failures_flatMap fun b hb => failures_undecidedCondition ?_)
    obtain ⟨block, hblock, heq⟩ := List.mem_filterMap.mp (List.mem_of_mem_filter hb)
    cases block <;> cases heq
    exact h _ hblock
  · split
    · exact failures_inFile (failures_error rfl)
    · exact failures_nil
    · exact failures_inFile (failures_error rfl)

theorem remarks_compileStages (hds : c.Remarks undecided ds) (hr : c.renderer = render)
    (pipeline : PipelineState) (vertex fragment : StageBlock) :
    c.Remarks undecided (c.compileStages w pipeline ds vertex fragment).diagnostics := by
  have hlayout := remarks_append.mpr ⟨hds, remarks_of_failures
    (failures_inFile (c := c) (ShaderUnit.failures_assignLayout h fragment))⟩
  simp only [compileStages, hr]
  split
  · exact remarks_crash hlayout _
  · next layout _ =>
    have hfaults (stage : StageBlock) : c.Remarks undecided
        (StageInput.faults ⟨c.unit, stage, layout, pipeline, c.valuation w⟩) :=
      remarks_of_failures (StageInput.failures_faults _)
    have hcode := remarks_append.mpr
      ⟨remarks_append.mpr ⟨hlayout, hfaults vertex⟩, hfaults fragment⟩
    split
    · split_ifs
      · exact hcode
      · exact remarks_compilePrograms hcode _ _ _
    · exact hcode

/-- **Who says what while a variant is compiled**: all but failures comes from the downstream
compiler, or shows the code that it was given. -/
theorem remarks_compileWord (hr : c.renderer = render) (base : Option Variant) :
    c.Remarks undecided (c.compileWord w base).diagnostics := by
  have hpipeline := remarks_of_failures (c := c) (failures_undecidedPipeline h)
  simp only [compileWord]
  split
  · split_ifs
    · exact hpipeline
    · exact remarks_append.mpr
        ⟨hpipeline, remarks_of_failures (failures_inFile (failures_fault (by simp)))⟩
  · have hstages := remarks_append.mpr ⟨remarks_append.mpr
      ⟨hpipeline, remarks_of_failures (failures_diagnoseStage h .vertex)⟩,
      remarks_of_failures (failures_diagnoseStage h .fragment)⟩
    split
    · exact remarks_compileStages h hstages hr _ _ _
    · exact hstages

end Conditions

/-- What is said about a variant is announced, if anything is. -/
theorem diagnostics_compile (c : VariantCompiler) (values : Valuation) (base : Option Variant) :
    let ds := (c.compileWord (c.wordOf values) base).diagnostics
    ds = [] ∧ (c.compile values base).diagnostics = [] ∨
      ds ≠ [] ∧ (c.compile values base).diagnostics = c.announce (c.wordOf values) ++ ds := by
  intro ds
  simp only [compile]
  split_ifs with hempty
  · exact .inl ⟨List.isEmpty_iff.mp hempty, rfl⟩
  · exact .inr ⟨fun hnil => hempty (List.isEmpty_iff.mpr hnil), rfl⟩

end VariantCompiler

end ShaderVariants
