import Mathlib
import ShaderVariants.Proofs.Compile.Outcome

/-!
# Which variants lend their programs

A variant that is to be compiled on the programs of another one is refused if the two do not
have the same program key.  Of the other variant the comparison takes the option word only:
both keys are made with the checksum of the shader at hand.  So a variant of another shader
lends its programs as well, if its option word agrees outside of the invariance mask.

## Main definitions

* `VariantCompiler.Matches` — a base has the program key of the requested variant.
* `VariantCompiler.Guards` — matching bases lend their programs, and no others.

## Main results

* `VariantCompiler.compile_some_of_agree`, `VariantCompiler.compile_some_of_not_agree` — what
  comes of compiling on the programs of a base.
* `VariantCompiler.guards_iff` — **when the guard holds**.
-/

namespace ShaderVariants

/-- Conditions without a value are faults of the compiler. -/
theorem severity_of_mem_undecidedCondition {v : Valuation} {condition : Option Condition}
    {d : Diagnostic} (h : d ∈ undecidedCondition v condition) : d.severity = .internal := by
  unfold undecidedCondition at h
  split at h
  · rw [List.mem_singleton.mp h]
    rfl
  · cases h

namespace VariantCompiler

variable (c : VariantCompiler) (values : Valuation) (base : Variant)

/-- The key of the variant that the values stand for. -/
def requestedKey : VariantKey := { sourceHash := c.info.sourceHash, optionWord := c.wordOf values }

/-- The base has the program key of the requested variant. -/
def Matches : Prop :=
  base.key.programKey c.info.invarianceMask =
    (c.requestedKey values).programKey c.info.invarianceMask

/-- Only a base with the program key of the requested variant lends its programs.  Any other
one is refused and reported as a fault. -/
structure Guards : Prop where
  accepted : ∀ v, (c.compile values (some base)).variant = some v → c.Matches values base
  refused : ¬ c.Matches values base → (c.compile values (some base)).variant = none ∧
    ∃ d ∈ (c.compile values (some base)).diagnostics, d.severity = .internal

variable {c values base}

/-! ### What is compared -/

/-- A base matches if it belongs to the shader and its word agrees outside of the mask. -/
theorem matches_iff : c.Matches values base ↔ base.key.sourceHash = c.info.sourceHash ∧
    OptionWord.AgreeOutside c.info.invarianceMask base.key.optionWord (c.wordOf values) := by
  unfold Matches requestedKey VariantKey.programKey OptionWord.AgreeOutside
  rw [VariantKey.mk.injEq]

theorem severity_of_mem_undecidedPipeline {v : Valuation} {d : Diagnostic}
    (h : d ∈ c.undecidedPipeline v) : d.severity = .internal := by
  obtain ⟨d', hd', rfl⟩ := List.mem_map.mp h
  obtain ⟨b, -, hb⟩ := List.mem_flatMap.mp hd'
  have hseverity : d'.severity = .internal := severity_of_mem_undecidedCondition hb
  exact hseverity

theorem hasFailure_undecidedPipeline {v : Valuation} :
    hasFailure (c.undecidedPipeline v) = true ↔ c.undecidedPipeline v ≠ [] := by
  constructor
  · rintro hfailure heq
    rw [heq] at hfailure
    cases hfailure
  · intro hne
    obtain ⟨d, hd⟩ := List.exists_mem_of_ne_nil _ hne
    refine List.any_eq_true.mpr ⟨d, hd, ?_⟩
    rw [severity_of_mem_undecidedPipeline hd]
    rfl

/-! ### Compiling on the programs of a base -/

/-- What is said about a variant contains what was said while it was compiled. -/
theorem mem_diagnostics_compile {base : Option Variant} {d : Diagnostic}
    (h : d ∈ (c.compileWord (c.wordOf values) base).diagnostics) :
    d ∈ (c.compile values base).diagnostics := by
  unfold compile
  dsimp only
  rw [if_neg fun hempty => List.ne_nil_of_mem h (List.isEmpty_iff.mp hempty)]
  exact List.mem_append_right _ h

/-- **A base whose word agrees lends its programs**, whatever shader it belongs to. -/
theorem compile_some_of_agree (h : OptionWord.AgreeOutside c.info.invarianceMask
    base.key.optionWord (c.wordOf values))
    (hdecided : c.undecidedPipeline (c.valuation (c.wordOf values)) = []) :
    (c.compile values (some base)).variant = some (base.withPipeline (c.requestedKey values)
      (c.composePipeline (c.valuation (c.wordOf values)))) := by
  have hkey : c.info.programKey base.key.optionWord = c.info.programKey (c.wordOf values) :=
    (c.info.programKey_eq_iff _ _).mpr h
  simp only [compile, compileWord, if_pos hkey, hdecided, hasFailure_nil]
  rfl

/-- **Any other base is refused**, and that is reported as a fault. -/
theorem compile_some_of_not_agree (h : ¬ OptionWord.AgreeOutside c.info.invarianceMask
    base.key.optionWord (c.wordOf values)) :
    (c.compile values (some base)).variant = none ∧
      ∃ d ∈ (c.compile values (some base)).diagnostics, d.severity = .internal := by
  have hkey : c.info.programKey base.key.optionWord ≠ c.info.programKey (c.wordOf values) :=
    mt (c.info.programKey_eq_iff _ _).mp h
  have hfault : ∃ d ∈ (c.compileWord (c.wordOf values) (some base)).diagnostics,
      d.severity = .internal := by
    simp only [compileWord, if_neg hkey]
    exact ⟨_, List.mem_append_right _ (List.mem_map_of_mem List.mem_cons_self), rfl⟩
  obtain ⟨d, hd, hseverity⟩ := hfault
  refine ⟨?_, d, mem_diagnostics_compile hd, hseverity⟩
  simp only [compile, compileWord, if_neg hkey, ite_self]

/-- A pipeline block without a decided condition fails every variant. -/
theorem compile_some_of_undecided
    (h : c.undecidedPipeline (c.valuation (c.wordOf values)) ≠ []) :
    (c.compile values (some base)).variant = none ∧
      ∃ d ∈ (c.compile values (some base)).diagnostics, d.severity = .internal := by
  have hfailure := hasFailure_undecidedPipeline.mpr h
  obtain ⟨d, hd⟩ := List.exists_mem_of_ne_nil _ h
  constructor
  · simp only [compile, compileWord]
    split_ifs <;> simp_all
  · refine ⟨d, mem_diagnostics_compile ?_, severity_of_mem_undecidedPipeline hd⟩
    simp only [compileWord]
    split_ifs
    · exact hd
    · exact List.mem_append_left _ hd

/-! ### The guard -/

/-- The guard holds of a base that is refused for whatever reason. -/
theorem guards_of_refused (h : (c.compile values (some base)).variant = none ∧
    ∃ d ∈ (c.compile values (some base)).diagnostics, d.severity = .internal) :
    c.Guards values base where
  accepted := fun _ hv => absurd (h.1.symm.trans hv) (Option.some_ne_none _).symm
  refused := fun _ => h

/-- **When the guard holds.**  For every compiler, all values and every base: only matching
bases lend their programs, if and only if the base belongs to the shader, or its word does not
agree outside of the mask, or nothing can be compiled for the values because a pipeline block
is undecided.  What a base lends to is a variant with the requested key. -/
theorem guards_iff (c : VariantCompiler) (values : Valuation) (base : Variant) :
    (c.Guards values base ↔ base.key.sourceHash = c.info.sourceHash ∨
      ¬ OptionWord.AgreeOutside c.info.invarianceMask base.key.optionWord (c.wordOf values) ∨
      c.undecidedPipeline (c.valuation (c.wordOf values)) ≠ []) ∧
    ∀ v, (c.compile values (some base)).variant = some v →
      OptionWord.AgreeOutside c.info.invarianceMask base.key.optionWord (c.wordOf values) ∧
      v = base.withPipeline (c.requestedKey values) v.pipeline := by
  by_cases hlends : OptionWord.AgreeOutside c.info.invarianceMask base.key.optionWord
    (c.wordOf values) ∧ c.undecidedPipeline (c.valuation (c.wordOf values)) = []
  · -- the base lends its programs, so the checksum decides
    obtain ⟨hagree, hdecided⟩ := hlends
    have hcompile := compile_some_of_agree hagree hdecided
    refine ⟨⟨fun h => .inl ?_, fun h => ?_⟩, fun v hv => ⟨hagree, ?_⟩⟩
    · exact (matches_iff.mp (h.accepted _ hcompile)).1
    · have hhash : base.key.sourceHash = c.info.sourceHash := by
        simpa [hagree, hdecided] using h
      have hmatches : c.Matches values base := matches_iff.mpr ⟨hhash, hagree⟩
      exact ⟨fun _ _ => hmatches, fun hnot => absurd hmatches hnot⟩
    · obtain rfl := Option.some.inj (hcompile.symm.trans hv)
      rfl
  · -- the base is refused, whatever shader it belongs to
    have hreason := not_and_or.mp hlends
    have hrefused : (c.compile values (some base)).variant = none ∧
        ∃ d ∈ (c.compile values (some base)).diagnostics, d.severity = .internal :=
      hreason.elim compile_some_of_not_agree compile_some_of_undecided
    refine ⟨iff_of_true (guards_of_refused hrefused) (.inr hreason), fun v hv => ?_⟩
    exact absurd (hrefused.1.symm.trans hv) (Option.some_ne_none v).symm

set_option maxRecDepth 10000 in
/-- **The guard does not hold in general.**  A variant of `glassShader` is compiled on the
programs of `patternShader`, which is another shader. -/
theorem glassShader_not_guarded :
    let glass := analyze "glass.shader" "glass" glassShader
    let pattern := analyze "pattern.shader" "pattern" AnalyzedShader.patternShader
    let c := glass.compiler keepSource false
    glass.isSound = true ∧ pattern.isSound = true ∧ ∃ base v,
      ((pattern.compiler keepSource false).compile Valuation.none none).variant = some base ∧
      base.key.sourceHash ≠ c.info.sourceHash ∧
      (c.compile Valuation.none (some base)).variant = some v ∧
      v.vertexProgram = base.vertexProgram ∧ v.fragmentProgram = base.fragmentProgram ∧
      ¬ c.Guards Valuation.none base := by
  intro glass pattern c
  have hsome : ((pattern.compiler keepSource false).compile Valuation.none none).variant.isSome
      = true := by decide
  obtain ⟨base, hbase⟩ := Option.isSome_iff_exists.mp hsome
  have hkey := key_of_compile hbase
  have hhash : base.key.sourceHash ≠ c.info.sourceHash := by
    rw [hkey]
    decide
  have hagree : OptionWord.AgreeOutside c.info.invarianceMask base.key.optionWord
      (c.wordOf Valuation.none) := by
    rw [hkey]
    unfold OptionWord.AgreeOutside
    decide
  have hdecided : c.undecidedPipeline (c.valuation (c.wordOf Valuation.none)) = [] := by decide
  have hcompile := compile_some_of_agree hagree hdecided
  refine ⟨by decide, by decide, base, _, hbase, hhash, hcompile, rfl, rfl, fun h => ?_⟩
  exact hhash (matches_iff.mp (h.accepted _ hcompile)).1

end VariantCompiler

end ShaderVariants
