import Mathlib
import ShaderVariants.Compile.Variant
import ShaderVariants.Proofs.Analysis.Groups

/-!
# Keys at compile time and at run time

A compiler packs the values it is given into the option word of a variant.  Whoever looks
the variant up knows only what a container says of the shader, and finds the fields again
by adding up the sizes of the options.  Both come to the same word, unless a value is out
of range: the compiler takes the last value instead, and the lookup the first one.

## Main results

* `ShaderUnit.keyFor_describe` — the key that is looked up, in terms of the packed options.
* `VariantCompiler.key_of_compile` — the key of a compiled variant.
* `VariantCompiler.packing_agrees` — **compile-time and run-time packing agree.**
-/

namespace ShaderVariants

open ShaderOption

/-- Adding up the sizes of options gives the places at which they were packed. -/
theorem OptionInfo.fieldsFrom_map : ∀ (ds : List OptionDeclaration) (index offset : ℕ),
    OptionInfo.fieldsFrom offset (ds.map (·.toOptionInfo)) =
      (OptionDeclaration.packFrom index offset ds).map fun o => (o.toOptionInfo, o.offset) := by
  intro ds
  induction ds with
  | nil => exact fun _ _ => rfl
  | cons d rest ih =>
    intro index offset
    rw [List.map_cons, OptionInfo.fieldsFrom, OptionDeclaration.packFrom, List.map_cons,
      ih (index + 1)]

namespace ShaderUnit

/-- The key of given values places them in the fields of the options; what is missing or
out of range counts as the first value. -/
theorem keyFor_describe (u : ShaderUnit) (hash : UInt32) (values : Valuation) :
    (u.describe hash).keyFor values =
      { sourceHash := hash
        optionWord := u.options.foldl (fun w o =>
          w ||| .place (((values o.name).filter (· < o.valueCount)).getD 0) o.offset) 0 } := by
  rw [ShaderInfo.keyFor, ShaderInfo.fields, describe, OptionInfo.fieldsFrom_map _ 0, List.foldl_map]
  rfl

/-- Values in range are placed as they are packed. -/
theorem keyFor_describe_of_lt (u : ShaderUnit) (hash : UInt32) {values : Valuation}
    (hvalues : ∀ o ∈ u.options, ∀ value, values o.name = some value → value < o.valueCount) :
    (u.describe hash).keyFor values =
      { sourceHash := hash, optionWord := packValues values u.options } := by
  rw [keyFor_describe, packValues]
  refine congrArg (VariantKey.mk hash) (List.foldl_ext _ _ _ fun w o ho => ?_)
  cases hvalue : values o.name with
  | none => rw [Option.filter_none, Option.getD_none, OptionInfo.clamp_of_lt o.valueCount_pos]
  | some value =>
    have hlt := hvalues o ho value hvalue
    rw [Option.filter_some_pos (by simpa using hlt), Option.getD_some, OptionInfo.clamp_of_lt hlt]

end ShaderUnit

namespace VariantCompiler

open AnalyzedShader (patternShader)

/-! ### The key of a compiled variant -/

section Compiled

variable {c : VariantCompiler} {w : OptionWord} {variant : Variant}

theorem exists_programs_of_compilePrograms {v : Valuation} {ds : List Diagnostic}
    {vertexSource fragmentSource : String} {build : List UInt8 → List UInt8 → Variant}
    (h : (c.compilePrograms v ds vertexSource fragmentSource build).variant = some variant) :
    ∃ vertexProgram fragmentProgram, variant = build vertexProgram fragmentProgram := by
  simp only [compilePrograms] at h
  split at h
  · cases h
  · split at h
    · cases h
    · simp only at h
      split_ifs at h
      obtain ⟨a, -, h⟩ := Option.bind_eq_some_iff.mp h
      obtain ⟨b, -, rfl⟩ := Option.map_eq_some_iff.mp h
      exact ⟨a, b, rfl⟩

theorem key_of_compileStages {pipeline : PipelineState} {ds : List Diagnostic}
    {vertex fragment : StageBlock}
    (h : (c.compileStages w pipeline ds vertex fragment).variant = some variant) :
    variant.key = { sourceHash := c.info.sourceHash, optionWord := w } := by
  simp only [compileStages] at h
  split at h
  · cases h
  · split at h
    · split_ifs at h
      obtain ⟨a, b, rfl⟩ := exists_programs_of_compilePrograms h
      rfl
    · cases h

theorem key_of_compileWord {base : Option Variant}
    (h : (c.compileWord w base).variant = some variant) :
    variant.key = { sourceHash := c.info.sourceHash, optionWord := w } := by
  cases base with
  | none =>
    simp only [compileWord] at h
    split at h
    · exact key_of_compileStages h
    · cases h
  | some b =>
    simp only [compileWord] at h
    split_ifs at h
    obtain rfl := Option.some.inj h
    rfl

/-- A compiled variant has the key of the word that its values were packed into. -/
theorem key_of_compile {values : Valuation} {base : Option Variant}
    (h : (c.compile values base).variant = some variant) :
    variant.key = { sourceHash := c.info.sourceHash, optionWord := c.wordOf values } := by
  simp only [compile] at h
  split_ifs at h
  exact key_of_compileWord h

end Compiled

/-! ### Agreement -/

/-- **Compile-time and run-time packing agree.**  For every accepted source and all values:
the word that is compiled, which a compiled variant has in its key, is one of all variants;
it stands for the nearest values of all options; packing these gives the word again; and if
all values are in range, it is the word that the variant is looked up by. -/
theorem packing_agrees {name source : String} {u : ShaderUnit} {d : Downstream}
    {showSource : Bool} {c : VariantCompiler}
    (hc : (analyze name source u).variantCompiler? d showSource = some c) (values : Valuation) :
    let w := c.wordOf values
    let decoded := Valuation.ofWord c.unit.options w
    (∀ base variant, (c.compile values base).variant = some variant →
      variant.key = { sourceHash := c.info.sourceHash, optionWord := w }) ∧
    w ∈ (analyze name source u).allVariants.words ∧
    (∀ o ∈ c.unit.options,
      decoded o.name = some (min ((values o.name).getD 0) (o.valueCount - 1))) ∧
    packValues decoded c.unit.options = w ∧ c.wordOf decoded = w ∧
    ((∀ o ∈ c.unit.options, ∀ value, values o.name = some value → value < o.valueCount) →
      c.info.keyFor values = { sourceHash := c.info.sourceHash, optionWord := w }) := by
  refine ⟨fun base variant hvariant => key_of_compile hvariant, ?_⟩
  unfold AnalyzedShader.variantCompiler? at hc
  split_ifs at hc with hsound
  obtain rfl := Option.some.inj hc
  have h := ShaderUnit.Accepted.of_isSound hsound
  have hpacked : Packed u.markInvariant.options := h.packed_options
  have hnames : NamesApart u.markInvariant.options := h.namesApart
  -- named values do not shadow options, so the values are packed as they were given
  have hword : packValues (.filtered u.markInvariant.options values) u.markInvariant.options =
      packValues values u.markInvariant.options := packValues_filtered hpacked hnames values
  have hrange : OptionWord.InRange u.markInvariant.options
      (packValues (.filtered u.markInvariant.options values) u.markInvariant.options) :=
    inRange_packValues hpacked _
  have hrepack := packValues_ofWord hpacked hnames hrange
  refine ⟨(mem_all_iff hpacked).mpr hrange, fun o ho => ?_, ?_, hrepack, fun hvalues => ?_⟩
  · rw [wordOf]
    refine (ofWord_name hnames hrange ho).trans ?_
    rw [hword, field_packValues hpacked values ho, OptionInfo.clamp]
  · exact (packValues_filtered hpacked hnames _).symm.trans hrepack
  · exact (ShaderUnit.keyFor_describe_of_lt _ _ hvalues).trans (congrArg _ hword.symm)

/-- Striped and blended, and sepia, which `patternShader` knows nothing of. -/
def stripedValues : Valuation := fun name =>
  if name = "Pattern" then some 2 else if name = "Blend" then some 1
  else if name = "Sepia" then some 9 else none

set_option maxRecDepth 10000 in
/-- The compiler and a lookup agree on the word of `stripedValues`. -/
theorem patternShader_packing :
    ∃ c, (analyze "pattern.shader" "" patternShader).variantCompiler? keepSource false = some c ∧
      (∀ o ∈ c.unit.options, ∀ value, stripedValues o.name = some value → value < o.valueCount) ∧
      c.info.keyFor stripedValues = { sourceHash := c.info.sourceHash, optionWord := 0b101 } := by
  have hsound : (analyze "pattern.shader" "" patternShader).isSound = true := by decide
  have hall : ∀ o ∈ (analyze "pattern.shader" "" patternShader).unit.options,
      (stripedValues o.name).all (· < o.valueCount) = true := by decide
  have hvalues : ∀ o ∈ (analyze "pattern.shader" "" patternShader).unit.options,
      ∀ value, stripedValues o.name = some value → value < o.valueCount := by
    intro o ho value hvalue
    have hlt := hall o ho
    rw [hvalue] at hlt
    simpa using hlt
  refine ⟨_, if_pos hsound, hvalues, ?_⟩
  exact (packing_agrees (if_pos hsound) stripedValues).2.2.2.2.2 hvalues

end VariantCompiler

end ShaderVariants
