import Mathlib
import ShaderVariants.Proofs.Compile.Code
import ShaderVariants.Proofs.Compile.Decided
import ShaderVariants.Proofs.Invariance.Noninterference

/-!
# Reusing the programs of a variant

The programs of a variant are taken over by every variant whose word differs in invariant
options only.  That is exact if compiling such a variant by itself would hand the same
code to the downstream compiler.  Invariant options occur in the conditions of pipeline
blocks only; but the code of the fragment stage declares the color outputs of the
pipeline state, and pipeline blocks can change those.

## Main definitions

* `Downstream.Ignores` — a downstream compiler accepts code whatever the values of some
  definitions.
* `VariantCompiler.ReuseExact` — taking over the programs of one word for another is the
  same as compiling it.

## Main results

* `VariantCompiler.reuseExact_iff` — **reuse is exact** if and only if the variants declare
  the same color outputs, or cannot be compiled in any pipeline state.
-/

namespace ShaderVariants

/-! ### Downstream compilers -/

/-- The definitions have the same name and, unless the name is ignored, the same value. -/
def MacroDefinition.AgreeUpTo (ignored : String → Bool) (d d' : MacroDefinition) : Prop :=
  d.name = d'.name ∧ (ignored d.name = false → d.value = d'.value)

namespace Downstream

/-- Whether code is accepted does not depend on the values of ignored names. -/
def Ignores (d : Downstream) (ignored : String → Bool) : Prop :=
  ∀ source stage definitions definitions',
    List.Forall₂ (MacroDefinition.AgreeUpTo ignored) definitions definitions' →
    (d source stage definitions).program?.isSome = (d source stage definitions').program?.isSome

/-- The downstream compiler with definitions of its own, whatever it is given. -/
def pinned (d : Downstream) (definitions : List MacroDefinition) : Downstream :=
  fun source stage _ => d source stage definitions

end Downstream

/-- What a variant says about the interface of its programs. -/
def Variant.interface (v : Variant) : List VertexAttribute × List ℕ × List Binding :=
  (v.attributes, v.setSizes, v.bindings)

namespace VariantCompiler

/-! ### Exact reuse -/

/-- Compiles the variant of an option word. -/
def compileAt (c : VariantCompiler) (w : OptionWord) (base : Option Variant) : Attempt :=
  c.compile (.ofWord c.unit.options w) base

/-- The code of an option word compiled by itself. -/
def code (c : VariantCompiler) (w : OptionWord) : Option GeneratedCode :=
  c.generate (c.valuation w) (c.composePipeline (c.valuation w))

/-- The compiler whose downstream compiler always gets the definitions of the word `w`. -/
def withDefinitionsOf (c : VariantCompiler) (w : OptionWord) : VariantCompiler :=
  { c with downstream := c.downstream.pinned (c.unit.definitions (c.valuation w)) }

/-- Taking over the programs of `w` for `w'` is the same as compiling `w'`. -/
structure ReuseExact (c : VariantCompiler) (ignored : String → Bool) (w w' : OptionWord) :
    Prop where
  /-- By themselves, both words fail before the downstream compiler is reached, or both
  hand it the same code, with the same interface. -/
  code : c.code w = c.code w'
  /-- By themselves, both words are compiled or neither is, and the interface is the same,
  if the downstream compiler does not look at ignored values. -/
  outcome : c.downstream.Ignores ignored →
    (c.compileAt w none).variant.map Variant.interface
      = (c.compileAt w' none).variant.map Variant.interface
  /-- On the programs of `w`, the variant of `w'` is the one compiled by itself, up to the
  definitions. -/
  reuse : ∀ base, (c.compileAt w none).variant = some base →
    (c.compileAt w' (some base)).variant = ((c.withDefinitionsOf w).compileAt w' none).variant

/-! ### Definitions -/

section Definitions

variable {u : ShaderUnit} {w w' : OptionWord}

/-- The definitions of two words differ in the values of invariant options only. -/
theorem forall₂_definitions
    (h : OptionWord.AgreeOutside (invarianceMask u.markInvariant.options) w w') :
    List.Forall₂ (MacroDefinition.AgreeUpTo u.isInvariant)
      (u.markInvariant.definitions (.filtered u.markInvariant.options
        (.ofWord u.markInvariant.options w)))
      (u.markInvariant.definitions (.filtered u.markInvariant.options
        (.ofWord u.markInvariant.options w'))) := by
  refine List.rel_append ?_ ?_
  · rw [List.forall₂_map_left_iff, List.forall₂_map_right_iff, List.forall₂_same]
    intro o _
    refine ⟨rfl, fun hvar => ?_⟩
    refine congrArg (fun v : Option ℕ => toString (v.getD 0))
      (Valuation.filtered_ofWord_congr (fun o' ho' hname => ?_) h)
    rw [ShaderUnit.invariant_eq_of_mem_options ho', hname]
    exact hvar
  · exact List.forall₂_same.mpr fun d _ => ⟨rfl, fun _ => rfl⟩

variable {c : VariantCompiler} {ignored : String → Bool}
  {definitions definitions' : List MacroDefinition}

theorem isSome_link (code : GeneratedCode) :
    (c.link definitions code).isSome =
      ((c.downstream code.vertexSource .vertex definitions).program?.isSome &&
        (c.downstream code.fragmentSource .fragment definitions).program?.isSome) := by
  unfold link
  cases (c.downstream code.vertexSource .vertex definitions).program? with
  | none => rfl
  | some a => cases (c.downstream code.fragmentSource .fragment definitions).program? <;> rfl

theorem isSome_link_congr (hd : c.downstream.Ignores ignored)
    (h : List.Forall₂ (MacroDefinition.AgreeUpTo ignored) definitions definitions')
    (code : GeneratedCode) :
    (c.link definitions code).isSome = (c.link definitions' code).isSome := by
  rw [isSome_link, isSome_link, hd _ _ _ _ h, hd _ _ _ _ h]

end Definitions

/-! ### Indistinguishable variants -/

/-- Variants that look alike have the same code in the same pipeline state. -/
theorem generate_congr {c : VariantCompiler} {v v' : Valuation}
    (h : c.unit.Indistinguishable v v') (hr : c.renderer = render) (pipeline : PipelineState) :
    c.generate v pipeline = c.generate v' pipeline := by
  unfold generate
  rw [← h.findStage_eq .vertex, ← h.findStage_eq .fragment]
  cases hvertex : c.findStage v .vertex with
  | none => rfl
  | some vertex =>
    cases hfragment : c.findStage v .fragment with
    | none => rfl
    | some fragment =>
      have hstages : ∀ ds layout, c.generateStages v pipeline ds layout vertex fragment =
          c.generateStages v' pipeline ds layout vertex fragment := by
        intro ds layout
        simp only [generateStages, hr,
          h.render_eq layout pipeline (mem_stageBlocks_of_findStage hvertex),
          h.render_eq layout pipeline (mem_stageBlocks_of_findStage hfragment)]
      simp only [Option.bind_eq_bind, Option.bind_some, hstages, h.diagnoseStage_eq,
        h.assignLayout_eq]

/-! ### Compilers of accepted sources -/

section Accepted

variable {u : ShaderUnit} {c : VariantCompiler} {w w' : OptionWord} {base : Variant}

theorem undecidedPipeline_eq_nil (h : u.Accepted) (hunit : c.unit = u.markInvariant)
    (w : OptionWord) : c.undecidedPipeline (c.valuation w) = [] := by
  refine undecidedPipeline_of_decides fun condition hmem => ?_
  rw [hunit] at hmem
  rw [valuation, hunit]
  have hcondition : ∀ condition', some condition = some condition' → condition' ∈ u.conditions :=
    fun condition' heq => Option.some.inj heq ▸ hmem
  exact h.isSome_conditionHolds? hcondition _

theorem wordOf_ofWord (h : u.Accepted) (hunit : c.unit = u.markInvariant)
    (hw : OptionWord.InRange c.unit.options w) : c.wordOf (.ofWord c.unit.options w) = w :=
  packValues_ofWord (hunit ▸ h.packed_options) (hunit ▸ h.namesApart) hw

theorem compileAt_none_variant (h : u.Accepted) (hunit : c.unit = u.markInvariant)
    (hw : OptionWord.InRange c.unit.options w) :
    (c.compileAt w none).variant = (c.code w).bind fun code =>
      (c.link (c.unit.definitions (c.valuation w)) code).map
        (c.assemble w (c.composePipeline (c.valuation w)) code) := by
  rw [compileAt, compile_none_variant (undecidedPipeline_eq_nil h hunit _),
    wordOf_ofWord h hunit hw]
  rfl

/-- A base with the same program key lends its programs. -/
theorem compileAt_some_variant (h : u.Accepted) (hunit : c.unit = u.markInvariant)
    (hw : OptionWord.InRange c.unit.options w')
    (hkey : c.info.programKey base.key.optionWord = c.info.programKey w') :
    (c.compileAt w' (some base)).variant = some (base.withPipeline
      { sourceHash := c.info.sourceHash, optionWord := w' }
      (c.composePipeline (c.valuation w'))) := by
  simp only [compileAt, compile, compileWord, wordOf_ofWord h hunit hw, if_pos hkey,
    undecidedPipeline_eq_nil h hunit, hasFailure_nil]
  rfl

/-- **Equal code makes reuse exact.** -/
theorem reuseExact_of_code_eq (h : u.Accepted) (hunit : c.unit = u.markInvariant)
    (hmask : c.info.invarianceMask = invarianceMask c.unit.options)
    (hw : OptionWord.InRange c.unit.options w) (hw' : OptionWord.InRange c.unit.options w')
    (hagree : OptionWord.AgreeOutside (invarianceMask c.unit.options) w w')
    (hcode : c.code w = c.code w') : c.ReuseExact u.isInvariant w w' where
  code := hcode
  outcome := by
    intro hd
    have hdefinitions : List.Forall₂ (MacroDefinition.AgreeUpTo u.isInvariant)
        (c.unit.definitions (c.valuation w)) (c.unit.definitions (c.valuation w')) := by
      unfold valuation
      rw [hunit] at hagree ⊢
      exact forall₂_definitions hagree
    rw [compileAt_none_variant h hunit hw, compileAt_none_variant h hunit hw', ← hcode]
    cases c.code w with
    | none => rfl
    | some code =>
      -- with one code, the definitions are all that differs
      have hlink := isSome_link_congr hd hdefinitions code
      simp only [Option.bind_some]
      cases hl : c.link (c.unit.definitions (c.valuation w)) code with
      | none =>
        rw [hl, Option.isSome_none] at hlink
        rw [Option.not_isSome_iff_eq_none.mp (Bool.eq_false_iff.mp hlink.symm)]
        rfl
      | some programs =>
        rw [hl, Option.isSome_some] at hlink
        obtain ⟨programs', hl'⟩ := Option.isSome_iff_exists.mp hlink.symm
        rw [hl']
        rfl
  reuse := by
    intro base hbase
    have hpinned : ((c.withDefinitionsOf w).compileAt w' none).variant =
        (c.code w').bind fun code => (c.link (c.unit.definitions (c.valuation w)) code).map
          (c.assemble w' (c.composePipeline (c.valuation w')) code) :=
      compileAt_none_variant (c := c.withDefinitionsOf w) h hunit hw'
    rw [compileAt_none_variant h hunit hw, Option.bind_eq_some_iff] at hbase
    obtain ⟨code, hgenerated, hbase⟩ := hbase
    obtain ⟨programs, hlink, rfl⟩ := Option.map_eq_some_iff.mp hbase
    -- the base has the program key of `w`, which is that of `w'`
    have hkey : c.info.programKey w = c.info.programKey w' := by
      unfold ShaderInfo.programKey VariantKey.programKey
      rw [hmask]
      exact congrArg (VariantKey.mk c.info.sourceHash) hagree
    rw [hpinned, ← hcode, hgenerated, Option.bind_some, hlink, Option.map_some]
    exact compileAt_some_variant h hunit hw' hkey

end Accepted

/-- Two words that differ in invariant options only have the same code exactly if their
pipeline states agree on it. -/
theorem code_eq_iff {u : ShaderUnit} {c : VariantCompiler} (hunit : c.unit = u.markInvariant)
    (hr : c.renderer = render) {w w' : OptionWord}
    (hagree : OptionWord.AgreeOutside (invarianceMask u.markInvariant.options) w w') :
    c.code w = c.code w' ↔ (∀ p, c.generate (c.valuation w) p = none) ∨
      (c.composePipeline (c.valuation w)).outputCode
        = (c.composePipeline (c.valuation w')).outputCode := by
  have hind : c.unit.Indistinguishable (c.valuation w) (c.valuation w') := by
    unfold valuation
    rw [hunit]
    exact u.indistinguishable_of_agreeOutside hagree
  -- in one pipeline state, the two words have the same code
  have hcode : c.code w' = c.generate (c.valuation w) (c.composePipeline (c.valuation w')) :=
    (generate_congr hind hr _).symm
  rw [hcode]
  exact generate_eq_iff hr _ _ _

/-- The compiler of an accepted source. -/
theorem of_variantCompiler? {name source : String} {u : ShaderUnit} {d : Downstream}
    {showSource : Bool} {c : VariantCompiler}
    (hc : (analyze name source u).variantCompiler? d showSource = some c) :
    u.Accepted ∧ c.unit = u.markInvariant ∧ c.renderer = render ∧
      c.info.invarianceMask = invarianceMask c.unit.options := by
  unfold AnalyzedShader.variantCompiler? at hc
  split_ifs at hc with hsound
  obtain rfl := Option.some.inj hc
  exact ⟨ShaderUnit.Accepted.of_isSound hsound, rfl, rfl, rfl⟩

/-- **When reuse is exact.**  For every accepted source, every word of a variant and every
word with the same programs: taking over the programs is the same as compiling, if and
only if both variants declare the same color outputs or the variant cannot be compiled in
any pipeline state. -/
theorem reuseExact_iff {name source : String} {u : ShaderUnit} {d : Downstream}
    {showSource : Bool} {c : VariantCompiler}
    (hc : (analyze name source u).variantCompiler? d showSource = some c) {w w' : OptionWord}
    (hw : w ∈ (analyze name source u).allVariants.words)
    (hw' : w' ∈ ((analyze name source u).invariantsFor w).words) :
    c.ReuseExact u.isInvariant w w' ↔
      (∀ p, c.generate (c.valuation w) p = none) ∨
        (c.composePipeline (c.valuation w)).outputCode
          = (c.composePipeline (c.valuation w')).outputCode := by
  obtain ⟨h, hunit, hr, hmask⟩ := of_variantCompiler? hc
  have hrange := inRange_of_mem_all h.packed_options hw
  obtain ⟨hagree, hrange'⟩ := agreeOutside_of_mem_invariant h.packed_options hrange hw'
  rw [← code_eq_iff hunit hr hagree]
  constructor
  · exact ReuseExact.code
  · rw [← hunit] at hagree hrange hrange'
    exact reuseExact_of_code_eq h hunit hmask hrange hrange' hagree

/-- A source with blended variants, which do not write depths. -/
def glassShader : ShaderUnit where
  declaredOptions := [{ name := "Blend" }]
  blocks := [
    .pipeline { condition := some { expr := .var "Blend" }, changes := { depthWrite := false } },
    .stage { stage := .vertex },
    .stage { stage := .fragment }]

set_option maxRecDepth 10000 in
/-- The blended variant of `glassShader` reuses the programs of the other one. -/
theorem glassShader_reuseExact :
    ∃ c, (analyze "glass.shader" "" glassShader).variantCompiler? keepSource false = some c ∧
      c.ReuseExact glassShader.isInvariant 0b0 0b1 := by
  have hsound : (analyze "glass.shader" "" glassShader).isSound = true := by decide
  refine ⟨_, if_pos hsound, (reuseExact_iff (if_pos hsound) ?_ ?_).mpr (.inr ?_)⟩
  · decide
  · decide
  · decide

set_option maxRecDepth 10000 in
/-- **Reuse is not exact in general.**  With and without blending, `foggyShader` has the
same program key, but its color outputs differ, and so does the code of its fragment
stage. -/
theorem foggyShader_not_reuseExact :
    ∃ c, (analyze "foggy.shader" "" foggyShader).variantCompiler? keepSource false = some c ∧
      0b10 ∈ (analyze "foggy.shader" "" foggyShader).allVariants.words ∧
      0b11 ∈ ((analyze "foggy.shader" "" foggyShader).invariantsFor 0b10).words ∧
      c.code 0b10 ≠ c.code 0b11 ∧ ¬ c.ReuseExact foggyShader.isInvariant 0b10 0b11 := by
  have hsound : (analyze "foggy.shader" "" foggyShader).isSound = true := by decide
  have hcode : ∀ c, (analyze "foggy.shader" "" foggyShader).variantCompiler? keepSource false
      = some c → c.code 0b10 ≠ c.code 0b11 := by
    intro c hc heq
    have hagree : OptionWord.AgreeOutside
        (invarianceMask foggyShader.markInvariant.options) 0b10 0b11 := by
      unfold OptionWord.AgreeOutside
      decide
    obtain ⟨-, hunit, hr, -⟩ := of_variantCompiler? hc
    obtain rfl := Option.some.inj ((if_pos hsound).symm.trans hc)
    rcases (code_eq_iff hunit hr hagree).mp heq with hnone | houtputs
    · exact absurd (hnone .initial) (by decide)
    · exact absurd houtputs (by decide)
  refine ⟨_, if_pos hsound, by decide, by decide, hcode _ (if_pos hsound), fun h => ?_⟩
  exact hcode _ (if_pos hsound) h.code

end VariantCompiler

end ShaderVariants
