import Mathlib
import ShaderVariants.Proofs.Analysis.Acceptance
import ShaderVariants.Proofs.Compile.Remarks
import ShaderVariants.Proofs.Invariance.Noninterference

/-!
# Conditions are checked once

The analysis evaluates every condition a single time, with all options at their first
value, and compiling a variant relies on that: it treats a condition without a value as a
fault of the compiler.  One evaluation is enough because nothing is skipped while a
condition is evaluated, and because a name has a value or not whatever the option word is.

## Main definitions

* `Diagnostic.Decided` — where such faults do not occur.
* `ShaderUnit.Decides` — values for which every condition is decided.
* `Condition.constantWarning` — the warning about a condition that does not depend on
  options.

## Main results

* `ShaderUnit.decided_assignLayout`, `VariantCompiler.decided_compile` — where conditions
  are decided, none of the later passes finds one that is not.
* `ShaderUnit.holds?_of_constantWarning` — what a warning says holds for every variant.
* `AnalyzedShader.conditions_checked_once` — **one check of the conditions is enough.**
-/

namespace ShaderVariants

/-! ### Undecided conditions -/

/-- No diagnostic is about an undecided condition, except for those in `known`. -/
def Diagnostic.Decided (known : Diagnostic → Prop) (ds : List Diagnostic) : Prop :=
  ∀ d ∈ ds, d.IsUndecided → known d

open Diagnostic

variable {known : Diagnostic → Prop} {v : Valuation}

namespace ShaderUnit

variable {u : ShaderUnit}

/-- Every condition of the source has a value. -/
def Decides (u : ShaderUnit) (v : Valuation) : Prop :=
  ∀ c ∈ u.conditions, (c.expr.holds? v).isSome = true

theorem Decides.undecidedCondition_eq_nil (h : u.Decides v) {block : Block}
    (hblock : block ∈ u.blocks) : undecidedCondition v block.condition? = [] := by
  cases hc : block.condition? with
  | none => rfl
  | some c =>
    have hmem : c ∈ u.conditions := List.mem_filterMap.mpr ⟨block, hblock, hc⟩
    obtain ⟨value, hvalue⟩ := Option.isSome_iff_exists.mp (h c hmem)
    simp [undecidedCondition, conditionHolds?, hvalue]

/-- **Layouts do not come across undecided conditions** where conditions are decided. -/
theorem decided_assignLayout (h : u.Decides v) (fragment : StageBlock) :
    Decided known (u.assignLayout v fragment).diagnostics := by
  have hnone : ∀ block ∈ u.blocks, undecidedCondition v block.condition? ≠ [] → False :=
    fun block hblock hne => hne (h.undecidedCondition_eq_nil hblock)
  exact fun d hd hundecided => ((failures_assignLayout hnone fragment d hd).2 hundecided).elim

end ShaderUnit

namespace VariantCompiler

variable {c : VariantCompiler}

theorem undecidedPipeline_of_decides (h : c.unit.Decides v) : c.undecidedPipeline v = [] := by
  have hnone : c.unit.pipelineBlocks.flatMap
      (fun b => undecidedCondition v b.condition) = [] := by
    refine List.flatMap_eq_nil_iff.mpr fun b hb => ?_
    obtain ⟨block, hblock, heq⟩ := List.mem_filterMap.mp hb
    cases block <;> cases heq
    exact h.undecidedCondition_eq_nil hblock
  rw [undecidedPipeline, hnone]
  rfl

/-- **Compiling does not come across undecided conditions** where conditions are decided;
only the downstream compiler could say so. -/
theorem decided_compile (hr : c.renderer = render) (values : Valuation)
    (h : c.unit.Decides (c.valuation (c.wordOf values))) (base : Option Variant) :
    Decided c.SaidDownstream (c.compile values base).diagnostics := by
  have hnone : ∀ block ∈ c.unit.blocks,
      undecidedCondition (c.valuation (c.wordOf values)) block.condition? ≠ [] → False :=
    fun block hblock hne => hne (h.undecidedCondition_eq_nil hblock)
  obtain ⟨-, heq⟩ | ⟨-, heq⟩ := diagnostics_compile c values base
  · rw [heq]
    exact fun d hd => nomatch hd
  · rw [heq]
    intro d hd hundecided
    rcases List.mem_append.mp hd with hstart | hd
    · -- announcements are no faults
      obtain rfl := List.mem_singleton.mp hstart
      cases hundecided.1
    · rcases remarks_compileWord hnone hr base d hd with hfailure | hshown | hdownstream
      · exact (hfailure.2 hundecided).elim
      · cases hshown.1.symm.trans hundecided.1
      · exact hdownstream

end VariantCompiler

/-! ### The check of conditions -/

/-- The warning that a condition does not depend on options and always has the given value. -/
def Condition.constantWarning (c : Condition) (value : Bool) : Diagnostic where
  severity := .warning
  code := .conditionIsConstant
  message := "condition does not depend on any option and is always " ++
    (if value then "true" else "false")
  span := c.span

theorem Condition.constantWarning_injective (c : Condition) :
    Function.Injective c.constantWarning := by
  intro value value' heq
  have hmessage := congrArg Diagnostic.message heq
  cases value <;> cases value' <;> simp [constantWarning] at hmessage ⊢

namespace ShaderUnit

variable {u : ShaderUnit} {options : List ShaderOption} {c : Condition} {value : Bool}

/-- The warning is given if the condition has the value with all options at 0, and no option
occurs in it. -/
theorem mem_diagnoseCondition_iff {d : Diagnostic} (hcode : d.code = .conditionIsConstant) :
    d ∈ diagnoseCondition options c ↔ ∃ value, d = c.constantWarning value ∧
      c.expr.holds? (.filtered options .none) = some value ∧
        dependsOnOption options c.expr = false := by
  unfold diagnoseCondition
  cases hvalue : c.expr.holds? (.filtered options .none) with
  | none =>
    constructor
    · intro hd
      obtain rfl := List.mem_singleton.mp hd
      cases hcode
    · rintro ⟨value, -, hnone, -⟩
      cases hnone
  | some value =>
    cases hdepends : dependsOnOption options c.expr with
    | true => simp
    | false => simp [Condition.constantWarning]

/-- What is no option has the same value in all variants. -/
theorem filtered_eq_of_isOptionName {name : String} (h : isOptionName options name = false)
    (v v' : Valuation) :
    Valuation.filtered options v name = Valuation.filtered options v' name := by
  unfold Valuation.filtered
  unfold isOptionName at h
  cases hvalue : namedValue? options name with
  | some index => rfl
  | none =>
    rw [hvalue, Option.isNone_none, Bool.true_and] at h
    have hnone : options.any (fun o => o.name = name) = false := by simpa using h
    simp only [hnone]
    rfl

/-- A condition without options has the same value in all variants. -/
theorem holds?_eq_of_dependsOnOption {e : Expr} (h : dependsOnOption options e = false)
    (v v' : Valuation) :
    e.holds? (.filtered options v) = e.holds? (.filtered options v') := by
  refine Expr.holds?_congr fun name hname => filtered_eq_of_isOptionName ?_ v v'
  exact Bool.eq_false_iff.mpr (List.any_eq_false.mp h name hname)

/-- **A constant condition is constant**: it has the value of the warning in all variants. -/
theorem holds?_of_constantWarning (h : c.constantWarning value ∈ diagnoseCondition options c)
    (v : Valuation) : c.expr.holds? (.filtered options v) = some value := by
  obtain ⟨value', heq, hvalue, hdepends⟩ := (mem_diagnoseCondition_iff rfl).mp h
  rw [holds?_eq_of_dependsOnOption hdepends v .none, hvalue, c.constantWarning_injective heq]

/-! ### The whole analysis -/

theorem code_diagnoseSpace : ∀ d ∈ u.diagnoseSpace, d.code ≠ .conditionIsConstant := by
  unfold diagnoseSpace
  split_ifs <;> simp [Diagnostic.error]

theorem code_diagnoseOption (earlier : List OptionDeclaration) (o : OptionDeclaration) :
    ∀ d ∈ diagnoseOption earlier o, d.code ≠ .conditionIsConstant := by
  unfold diagnoseOption
  refine List.forall_mem_append.mpr ⟨?_, ?_⟩
  · split_ifs <;> simp [Diagnostic.error]
  · split <;> simp [Diagnostic.error]

theorem code_diagnoseOptions : ∀ ds earlier : List OptionDeclaration,
    ∀ d ∈ diagnoseOptions earlier ds, d.code ≠ .conditionIsConstant := by
  intro ds
  induction ds with
  | nil =>
    intro earlier d hd
    cases hd
  | cons o rest ih =>
    intro earlier
    exact List.forall_mem_append.mpr ⟨code_diagnoseOption earlier o, ih _⟩

theorem code_diagnoseValue (ds : List OptionDeclaration) (earlier : List NamedValue)
    (x : NamedValue) : ∀ d ∈ diagnoseValue ds earlier x, d.code ≠ .conditionIsConstant := by
  unfold diagnoseValue
  refine List.forall_mem_append.mpr ⟨?_, ?_⟩
  · split <;> simp [Diagnostic.error]
  · split
    · split_ifs <;> simp [Diagnostic.error]
    · simp

theorem code_diagnoseValues (ds : List OptionDeclaration) : ∀ xs earlier : List NamedValue,
    ∀ d ∈ diagnoseValues ds earlier xs, d.code ≠ .conditionIsConstant := by
  intro xs
  induction xs with
  | nil =>
    intro earlier d hd
    cases hd
  | cons x rest ih =>
    intro earlier
    exact List.forall_mem_append.mpr ⟨code_diagnoseValue ds earlier x, ih _⟩

theorem code_diagnoseInstancing : ∀ d ∈ u.diagnoseInstancing, d.code ≠ .conditionIsConstant := by
  unfold diagnoseInstancing
  split
  · split_ifs <;> simp [Diagnostic.error]
  · split <;> simp [Diagnostic.error]

/-- Only the check of conditions warns of constant ones. -/
theorem exists_condition_of_mem_diagnose {d : Diagnostic} (hd : d ∈ u.diagnose)
    (hcode : d.code = .conditionIsConstant) :
    ∃ c ∈ u.conditions, d ∈ diagnoseCondition u.options c := by
  simp only [diagnose, List.mem_append] at hd
  rcases hd with (((hd | hd) | hd) | hd) | hd
  · exact absurd hcode (code_diagnoseSpace d hd)
  · exact absurd hcode (code_diagnoseOptions _ _ d hd)
  · exact absurd hcode (code_diagnoseValues _ _ _ d hd)
  · exact List.mem_flatMap.mp hd
  · exact absurd hcode (code_diagnoseInstancing d hd)

/-- Without a complaint about conditions, all of them are decided with all options at 0. -/
theorem decides_of_diagnose (h : ∀ d ∈ u.diagnose, d.code ≠ .conditionNotEvaluable) :
    u.Decides (.filtered u.options .none) := by
  intro c hc
  by_contra hnone
  rw [Option.not_isSome_iff_eq_none] at hnone
  have hmem : { Diagnostic.error .conditionNotEvaluable
      "condition can only use options, their values and logical operators" with
      span := c.span } ∈ u.conditions.flatMap (diagnoseCondition u.options) := by
    refine List.mem_flatMap.mpr ⟨c, hc, ?_⟩
    simp [diagnoseCondition, hnone]
  exact h _ (List.mem_append_left _ (List.mem_append_right _ hmem)) rfl

/-- What is decided with all options at 0 is decided in every variant. -/
theorem Decides.filtered {v : Valuation} (h : u.Decides (.filtered u.options v))
    (v' : Valuation) : u.Decides (.filtered u.options v') := by
  intro c hc
  rw [← h c hc]
  exact isSome_conditionHolds?_filtered u.options v' v (some c)

end ShaderUnit

/-- **One check of the conditions is enough.**  If the analysis of a source does not complain
about a condition, then every condition has a value in every variant, no layout comes across
one without a value, and neither does the compilation of any variant.  If it warns that a
condition is constant, the condition has that value in every variant. -/
theorem AnalyzedShader.conditions_checked_once (name source : String) (u : ShaderUnit) :
    let s := analyze name source u
    let seen (w : OptionWord) := Valuation.filtered s.unit.options (.ofWord s.unit.options w)
    ((∀ d ∈ s.diagnostics, d.code ≠ .conditionNotEvaluable) →
      (∀ w, ∀ c ∈ u.conditions, ∃ value, c.expr.holds? (seen w) = some value) ∧
      (∀ w fragment, ∀ d ∈ (s.unit.assignLayout (seen w) fragment).diagnostics,
        ¬ d.IsUndecided) ∧
      ∀ c : VariantCompiler, c.unit = s.unit → c.renderer = render →
        ∀ values base, ∀ d ∈ (c.compile values base).diagnostics,
          d.IsUndecided → c.SaidDownstream d) ∧
    (∀ d ∈ s.diagnostics, d.code = .conditionIsConstant →
      ∃ c ∈ u.conditions, ∃ value, d = { c.constantWarning value with file := name } ∧
        ∀ w, c.expr.holds? (seen w) = some value) ∧
    ∀ c ∈ u.conditions, ∀ value,
      c.constantWarning value ∈ ShaderUnit.diagnoseCondition u.options c →
        ∀ w, c.expr.holds? (seen w) = some value := by
  intro s seen
  have hseen : ∀ w, seen w = .filtered u.options (.ofWord s.unit.options w) :=
    fun w => u.filtered_options_markInvariant _
  refine ⟨fun h => ?_, fun d hd hcode => ?_, fun c _ value hwarning w => ?_⟩
  · have hzero : u.Decides (.filtered u.options .none) := by
      refine ShaderUnit.decides_of_diagnose fun d hd => ?_
      exact h { d with file := name } (List.mem_map.mpr ⟨d, hd, rfl⟩)
    have hdecides : ∀ v, s.unit.Decides (.filtered s.unit.options v) := by
      intro v
      rw [show Valuation.filtered s.unit.options v = .filtered u.options v from
        u.filtered_options_markInvariant v]
      exact hzero.filtered v
    refine ⟨fun w c hc => ?_, fun w fragment => ?_, fun c hunit hr values base => ?_⟩
    · exact Option.isSome_iff_exists.mp (hdecides _ c hc)
    · exact ShaderUnit.decided_assignLayout (hdecides _) fragment
    · refine VariantCompiler.decided_compile hr values ?_ base
      unfold VariantCompiler.valuation
      rw [hunit]
      exact hdecides _
  · obtain ⟨d', hd', rfl⟩ := List.mem_map.mp hd
    obtain ⟨c, hc, hmem⟩ := ShaderUnit.exists_condition_of_mem_diagnose hd' hcode
    obtain ⟨value, rfl, -⟩ := (ShaderUnit.mem_diagnoseCondition_iff (d := d') hcode).mp hmem
    refine ⟨c, hc, value, rfl, fun w => ?_⟩
    rw [hseen]
    exact ShaderUnit.holds?_of_constantWarning hmem _
  · rw [hseen]
    exact ShaderUnit.holds?_of_constantWarning hwarning _

/-- A source with a condition that depends on an option and one that compares named values. -/
def shadowShader : ShaderUnit where
  declaredOptions := [{ name := "Shadows", namedValues := ["Off", "Soft", "Hard"] }]
  blocks := [
    .pipeline { condition := some { expr := .var "Shadows" }, changes := { depthWrite := false } },
    .stage {
      stage := .fragment
      condition := some { expr := .binary .less (.var "Soft") (.var "Hard") } }]

set_option maxRecDepth 10000 in
/-- The analysis of `shadowShader` does not complain about its conditions and warns of the
second one, so the first always has a value and the second always holds. -/
theorem shadowShader_checked_once :
    (∀ d ∈ (analyze "shadow.shader" "" shadowShader).diagnostics,
      d.code ≠ .conditionNotEvaluable) ∧
    (∃ d ∈ (analyze "shadow.shader" "" shadowShader).diagnostics,
      d.code = .conditionIsConstant) ∧
    let options := shadowShader.markInvariant.options
    let seen (w : OptionWord) := Valuation.filtered options (.ofWord options w)
    ∀ w, (∃ value, (Expr.var "Shadows").holds? (seen w) = some value) ∧
      (Expr.binary .less (.var "Soft") (.var "Hard")).holds? (seen w) = some true := by
  have hdecided : ∀ d ∈ (analyze "shadow.shader" "" shadowShader).diagnostics,
      d.code ≠ .conditionNotEvaluable := by decide
  have hchecked := AnalyzedShader.conditions_checked_once "shadow.shader" "" shadowShader
  refine ⟨hdecided, by decide, fun w => ⟨?_, ?_⟩⟩
  · exact (hchecked.1 hdecided).1 w { expr := .var "Shadows" } (.head _)
  · refine hchecked.2.2 { expr := .binary .less (.var "Soft") (.var "Hard") } ?_ true ?_ w
    · exact .tail _ (.head _)
    · decide

end ShaderVariants
