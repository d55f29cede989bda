import Mathlib
import ShaderVariants.Compile.Variant
import ShaderVariants.Proofs.Invariance.Code

/-!
# Invariant options do not interfere with programs

Two option words that agree outside of the invariance mask cannot be told apart by any
code that ends up in a program: an option that such code names is not invariant, and
neither is the instancing option if there are instances blocks to be moved.

## Main results

* `ShaderUnit.indistinguishable_of_agreeOutside` — the words cannot be told apart.
* `ShaderUnit.Indistinguishable.findStage_eq`, `diagnoseStage_eq` — the same stages are
  chosen, with the same diagnostics.
* `VariantCompiler.invariantOptions_noninterference` — **stages, layout and code are the
  same**, with the pipeline state held fixed.
-/

namespace ShaderVariants

/-! ### Marked options -/

namespace ShaderUnit

/-- The mark of an option says whether the analysis has seen its name. -/
theorem invariant_eq_of_mem_options {u : ShaderUnit} {o : ShaderOption}
    (ho : o ∈ u.markInvariant.options) : o.invariant = u.isInvariant o.name := by
  have hmem := OptionDeclaration.mem_of_mem_packFrom ho
  obtain ⟨d, -, hd⟩ := List.mem_map.mp hmem
  rw [← hd]

theorem isInvariant_eq_false_of_mem {u : ShaderUnit} {name : String}
    (h : name ∈ u.namesRead) : u.isInvariant name = false := by
  simp [isInvariant, h]

theorem isInvariant_instancingOption {u : ShaderUnit} (h : u.hasStorage .instances = true) :
    u.isInvariant instancingOption = false := by
  simp [isInvariant, h]

/-- **Words that differ in invariant options only cannot be told apart** by code that ends
up in a program. -/
theorem indistinguishable_of_agreeOutside (u : ShaderUnit) {w w' : OptionWord}
    (h : OptionWord.AgreeOutside (invarianceMask u.markInvariant.options) w w') :
    u.markInvariant.Indistinguishable
      (.filtered u.markInvariant.options (.ofWord u.markInvariant.options w))
      (.filtered u.markInvariant.options (.ofWord u.markInvariant.options w')) where
  names := by
    intro name hname
    apply Valuation.filtered_ofWord_congr _ h
    -- a name that code reads is not the name of an invariant option
    rintro o ho rfl
    rw [invariant_eq_of_mem_options ho]
    exact isInvariant_eq_false_of_mem hname
  instancing := by
    intro hinst
    refine congrArg (Option.any (· != 0)) (Valuation.filtered_ofWord_congr ?_ h)
    intro o ho hname
    rw [invariant_eq_of_mem_options ho, hname]
    exact isInvariant_instancingOption hinst

/-! ### Stages -/

namespace Indistinguishable

variable {c : VariantCompiler} {v v' : Valuation} (h : c.unit.Indistinguishable v v')

include h

theorem stageCondition_eq {b : StageBlock} (hb : b ∈ c.unit.stageBlocks) :
    conditionHolds? v b.condition = conditionHolds? v' b.condition := by
  have hnodes := Valuation.agreeOn_append.mp (h.agreeOn_stage hb)
  exact conditionHolds?_congr (Valuation.agreeOn_append.mp hnodes.1).1

theorem activeStages_eq (stage : ShaderStage) :
    c.activeStages v stage = c.activeStages v' stage := by
  apply List.filter_congr
  intro b hb
  simp only [h.stageCondition_eq (List.mem_of_mem_filter hb)]

theorem undecidedStages_eq (stage : ShaderStage) :
    c.undecidedStages v stage = c.undecidedStages v' stage := by
  unfold VariantCompiler.undecidedStages
  congr 1
  apply List.flatMap_congr
  intro b hb
  simp only [undecidedCondition, h.stageCondition_eq (List.mem_of_mem_filter hb)]

theorem findStage_eq (stage : ShaderStage) : c.findStage v stage = c.findStage v' stage := by
  simp only [VariantCompiler.findStage, h.activeStages_eq stage]

theorem diagnoseStage_eq (stage : ShaderStage) :
    c.diagnoseStage v stage = c.diagnoseStage v' stage := by
  simp only [VariantCompiler.diagnoseStage, h.activeStages_eq stage, h.undecidedStages_eq stage]

end Indistinguishable

end ShaderUnit

/-- The chosen stage is one of the source. -/
theorem VariantCompiler.mem_stageBlocks_of_findStage {c : VariantCompiler} {v : Valuation}
    {stage : ShaderStage} {b : StageBlock} (h : c.findStage v stage = some b) :
    b ∈ c.unit.stageBlocks := by
  have hmem : b ∈ c.activeStages v stage := by
    unfold findStage at h
    split at h
    · next b' hb => rw [hb, Option.some.inj h]; exact List.mem_singleton_self b
    · exact absurd h (by simp)
  exact List.mem_of_mem_filter (List.mem_of_mem_filter hmem)

/-! ### Noninterference -/

/-- **Noninterference of invariant options, with the pipeline state held fixed.**  Two
words that agree outside of the invariance mask of a marked source choose the same stages,
with the same diagnostics, lay the chosen fragment stage out alike, and give the same code
or the same faults for both stages. -/
theorem VariantCompiler.invariantOptions_noninterference {u : ShaderUnit} {c : VariantCompiler}
    (hc : c.unit = u.markInvariant) {w w' : OptionWord}
    (h : OptionWord.AgreeOutside (invarianceMask c.unit.options) w w') :
    (∀ stage, c.findStage (c.valuation w) stage = c.findStage (c.valuation w') stage ∧
      c.diagnoseStage (c.valuation w) stage = c.diagnoseStage (c.valuation w') stage) ∧
    (∀ fragment, c.findStage (c.valuation w) .fragment = some fragment →
      c.unit.assignLayout (c.valuation w) fragment
        = c.unit.assignLayout (c.valuation w') fragment) ∧
    ∀ kind stage, c.findStage (c.valuation w) kind = some stage →
      ∀ (layout : Layout) (pipeline : PipelineState),
        render { unit := c.unit, stage, layout, pipeline, values := c.valuation w }
          = render { unit := c.unit, stage, layout, pipeline, values := c.valuation w' } := by
  have hind : c.unit.Indistinguishable (c.valuation w) (c.valuation w') := by
    unfold valuation
    rw [hc] at h ⊢
    exact u.indistinguishable_of_agreeOutside h
  refine ⟨fun stage => ⟨hind.findStage_eq stage, hind.diagnoseStage_eq stage⟩, ?_, ?_⟩
  · intro fragment _
    exact hind.assignLayout_eq fragment
  · intro kind stage hstage layout pipeline
    exact hind.render_eq layout pipeline (mem_stageBlocks_of_findStage hstage)

/-- A source whose code depends on fog, and whose pipeline state depends on blending: with
it, the color output has another name and format. -/
def foggyShader : ShaderUnit where
  declaredOptions := [{ name := "Blend" }, { name := "Fog" }]
  blocks := [
    .pipeline {
      condition := some { expr := .var "Blend" }
      changes := { colorOutputs := [{ name := "tint", format := .r32Float }] } },
    .storage {
      kind := .uniform
      condition := some { expr := .var "Fog" }
      declarations := [{ name := "fogColor", type := .numeric (.vector .float 4) }] },
    .stage { stage := .vertex },
    .stage { stage := .fragment, body := [.selection (.var "Fog") (.jump .discard) none] }]

/-- The compiler for the variants of `foggyShader`. -/
def foggyCompiler : VariantCompiler where
  unit := foggyShader.markInvariant
  info := foggyShader.markInvariant.describe 0
  file := "foggy.shader"

/-- Blending is invariant, so the foggy variants with and without it have the same stages,
layout and code. -/
theorem foggyCompiler_noninterference :
    OptionWord.AgreeOutside (invarianceMask foggyCompiler.unit.options) 0b10 0b11 ∧
    ∃ fragment, foggyCompiler.findStage (foggyCompiler.valuation 0b10) .fragment = some fragment ∧
      foggyCompiler.findStage (foggyCompiler.valuation 0b11) .fragment = some fragment ∧
      foggyCompiler.unit.assignLayout (foggyCompiler.valuation 0b10) fragment
        = foggyCompiler.unit.assignLayout (foggyCompiler.valuation 0b11) fragment ∧
      ∀ layout pipeline,
        render ⟨foggyCompiler.unit, fragment, layout, pipeline, foggyCompiler.valuation 0b10⟩
          = render ⟨foggyCompiler.unit, fragment, layout, pipeline,
              foggyCompiler.valuation 0b11⟩ := by
  have hagree : OptionWord.AgreeOutside (invarianceMask foggyCompiler.unit.options) 0b10 0b11 := by
    unfold OptionWord.AgreeOutside
    decide
  obtain ⟨hstage, hlayout, hcode⟩ :=
    VariantCompiler.invariantOptions_noninterference (c := foggyCompiler) rfl hagree
  obtain ⟨fragment, hfragment⟩ := Option.isSome_iff_exists.mp
    (by decide : (foggyCompiler.findStage (foggyCompiler.valuation 0b10) .fragment).isSome = true)
  refine ⟨hagree, fragment, hfragment, ?_, hlayout fragment hfragment,
    hcode .fragment fragment hfragment⟩
  rw [← (hstage .fragment).1, hfragment]

end ShaderVariants
