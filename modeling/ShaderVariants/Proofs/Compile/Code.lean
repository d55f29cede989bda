import Mathlib
import ShaderVariants.Compile.Variant
import ShaderVariants.Proofs.Analysis.Acceptance

/-!
# What is handed to the downstream compiler

Compiling a variant without a base first generates the code of both stages, together with
the interface of the programs, and then hands the code to the downstream compiler.  The
first part is `VariantCompiler.generate`.  Of the pipeline state it sees the color
outputs only.

## Main definitions

* `GeneratedCode`, `VariantCompiler.generate` — code and interface of a variant.
* `VariantCompiler.link` — the programs that the downstream compiler makes of the code.
* `PipelineState.outputCode` — the part of the code that depends on the pipeline state.

## Main results

* `VariantCompiler.compile_none_variant` — **compiling generates code and links it**.
* `VariantCompiler.generate_eq_iff` — two pipeline states give the same code exactly if
  their color outputs do.
-/

namespace ShaderVariants

/-- The code of both stages, and the interface of the programs made of it. -/
structure GeneratedCode where
  vertexSource : String
  fragmentSource : String
  attributes : List VertexAttribute
  setSizes : List ℕ
  bindings : List Binding
  deriving DecidableEq, Repr

/-- The program that a run of the downstream compiler gives. -/
def DownstreamRun.program? : DownstreamRun → Option (List UInt8)
  | .finished o => if o.failed then none else o.bytes
  | .crashed _ => none

namespace VariantCompiler

variable (c : VariantCompiler)

/-- The code of two stages and the interface of their programs, if nothing fails before
the downstream compiler is reached; `ds` was reported earlier. -/
def generateStages (v : Valuation) (pipeline : PipelineState) (ds : List Diagnostic)
    (layout : Layout) (vertex fragment : StageBlock) : Option GeneratedCode := do
  let code (stage : StageBlock) : Rendered :=
    c.renderer { unit := c.unit, stage, layout, pipeline, values := v }
  let vertexSource ← (code vertex).source
  let fragmentSource ← (code fragment).source
  if hasFailure (ds ++ (code vertex).diagnostics ++ (code fragment).diagnostics) then none
  else
    some {
      vertexSource, fragmentSource
      attributes := layout.attributes.map (·.2)
      setSizes := layout.setSizes
      bindings := layout.bindings }

/-- The code and interface of a variant in the given pipeline state. -/
def generate (v : Valuation) (pipeline : PipelineState) : Option GeneratedCode := do
  let vertex ← c.findStage v .vertex
  let fragment ← c.findStage v .fragment
  let result := c.unit.assignLayout v fragment
  let layout ← result.layout
  c.generateStages v pipeline (c.diagnoseStage v .vertex ++ c.diagnoseStage v .fragment ++
    result.diagnostics) layout vertex fragment

/-- The programs that the downstream compiler makes of generated code. -/
def link (definitions : List MacroDefinition) (code : GeneratedCode) :
    Option (List UInt8 × List UInt8) := do
  let vertex ← (c.downstream code.vertexSource .vertex definitions).program?
  let fragment ← (c.downstream code.fragmentSource .fragment definitions).program?
  return (vertex, fragment)

/-- The variant of a word with the given code and programs. -/
def assemble (w : OptionWord) (pipeline : PipelineState) (code : GeneratedCode)
    (programs : List UInt8 × List UInt8) : Variant where
  key := { sourceHash := c.info.sourceHash, optionWord := w }
  pipeline
  attributes := code.attributes
  setSizes := code.setSizes
  bindings := code.bindings
  vertexProgram := programs.1
  fragmentProgram := programs.2

end VariantCompiler

/-- An attempt with failures has no variant. -/
def Attempt.DropsFailures (a : Attempt) : Prop :=
  hasFailure a.diagnostics = true → a.variant = none

namespace VariantCompiler

variable {c : VariantCompiler}

/-! ### Compiling without a base -/

@[simp] theorem hasFailure_inFile (ds : List Diagnostic) :
    hasFailure (c.inFile ds) = hasFailure ds := hasFailure_map_file (some c.file) ds

/-- The downstream compiler is reported to fail exactly if there is no program. -/
theorem hasFailure_diagnoseOutput (stage : ShaderStage) (source : String)
    (o : DownstreamOutput) : hasFailure (c.diagnoseOutput stage source o) = o.failed := by
  -- showing the source is no failure
  have hinfo : hasFailure (if o.failed && c.showSource then c.inFile
      [.info .generatedSource ("generated " ++ stage.name ++ " source:\n" ++ source)]
      else []) = false := by
    split_ifs <;> rfl
  rw [diagnoseOutput, hasFailure_append, hasFailure_append, hinfo, Bool.false_or]
  cases hfailed : o.failed with
  | true => cases hdiag : hasFailure o.diagnostics <;> rfl
  | false =>
    have hdiag : hasFailure o.diagnostics = false := by
      rw [DownstreamOutput.failed, Bool.or_eq_false_iff] at hfailed
      exact hfailed.2
    simp [hdiag]

theorem compilePrograms_variant {v : Valuation} {ds : List Diagnostic}
    (hds : hasFailure ds = false) (vertexSource fragmentSource : String)
    (build : List UInt8 → List UInt8 → Variant) :
    (c.compilePrograms v ds vertexSource fragmentSource build).variant =
      (c.downstream vertexSource .vertex (c.unit.definitions v)).program?.bind fun a =>
        (c.downstream fragmentSource .fragment (c.unit.definitions v)).program?.map (build a) := by
  simp only [compilePrograms]
  cases c.downstream vertexSource .vertex (c.unit.definitions v) with
  | crashed message => rfl
  | finished vertex =>
    cases c.downstream fragmentSource .fragment (c.unit.definitions v) with
    | crashed message => simp [crash, DownstreamRun.program?]
    | finished fragment =>
      simp only [hasFailure_append, hds, hasFailure_diagnoseOutput, Bool.false_or,
        DownstreamRun.program?]
      cases vertex.failed <;> cases fragment.failed <;> simp

/-- The code of both stages is what the stages are compiled from. -/
theorem compileStages_variant (w : OptionWord) (pipeline : PipelineState)
    {vertex fragment : StageBlock} (hv : c.findStage (c.valuation w) .vertex = some vertex)
    (hf : c.findStage (c.valuation w) .fragment = some fragment) :
    (c.compileStages w pipeline (c.diagnoseStage (c.valuation w) .vertex ++
        c.diagnoseStage (c.valuation w) .fragment) vertex fragment).variant =
      (c.generate (c.valuation w) pipeline).bind fun code =>
        (c.link (c.unit.definitions (c.valuation w)) code).map (c.assemble w pipeline code) := by
  simp only [compileStages, generate, generateStages, hv, hf, Option.bind_eq_bind,
    Option.bind_some]
  cases (c.unit.assignLayout (c.valuation w) fragment).layout with
  | none => rfl
  | some layout =>
    simp only [Option.bind_some]
    cases (c.renderer ⟨c.unit, vertex, layout, pipeline, c.valuation w⟩).source with
    | none => rfl
    | some vertexSource =>
      cases (c.renderer ⟨c.unit, fragment, layout, pipeline, c.valuation w⟩).source with
      | none => rfl
      | some fragmentSource =>
        simp only [Option.bind_some, hasFailure_append, hasFailure_inFile]
        split_ifs with hfailure
        · rfl
        · rw [compilePrograms_variant
            (by
              simpa only [hasFailure_append, hasFailure_inFile]
                using Bool.eq_false_iff.mpr hfailure)]
          simp only [Option.bind_some, link]
          cases (c.downstream vertexSource .vertex
            (c.unit.definitions (c.valuation w))).program? with
          | none => rfl
          | some a =>
            cases (c.downstream fragmentSource .fragment
              (c.unit.definitions (c.valuation w))).program? with
            | none => rfl
            | some b => rfl

/-! ### Failures -/

theorem dropsFailures_compilePrograms (v : Valuation) (ds : List Diagnostic)
    (vertexSource fragmentSource : String) (build : List UInt8 → List UInt8 → Variant) :
    (c.compilePrograms v ds vertexSource fragmentSource build).DropsFailures := by
  simp only [compilePrograms]
  split
  · exact fun _ => rfl
  · split
    · exact fun _ => rfl
    · exact fun hfailure => if_pos hfailure

theorem dropsFailures_compileStages (w : OptionWord) (pipeline : PipelineState)
    (ds : List Diagnostic) (vertex fragment : StageBlock) :
    (c.compileStages w pipeline ds vertex fragment).DropsFailures := by
  simp only [compileStages]
  split
  · exact fun _ => rfl
  · split
    · split_ifs
      · exact fun _ => rfl
      · exact dropsFailures_compilePrograms _ _ _ _ _
    · exact fun _ => rfl

/-- Without a base, a variant with failures is dropped before the last check. -/
theorem dropsFailures_compileWord (w : OptionWord) :
    (c.compileWord w none).DropsFailures := by
  simp only [compileWord]
  split
  · exact dropsFailures_compileStages _ _ _ _ _
  · exact fun _ => rfl

theorem generate_eq_none_of_findStage {v : Valuation} {pipeline : PipelineState}
    (h : c.findStage v .vertex = none ∨ c.findStage v .fragment = none) :
    c.generate v pipeline = none := by
  unfold generate
  rcases h with h | h
  · rw [h]
    rfl
  · rw [h]
    cases c.findStage v .vertex <;> rfl

/-- **Compiling generates code and links it**, if every condition of a pipeline block is
decided. -/
theorem compile_none_variant {values : Valuation}
    (hdecided : c.undecidedPipeline (c.valuation (c.wordOf values)) = []) :
    (c.compile values none).variant =
      let w := c.wordOf values
      let pipeline := c.composePipeline (c.valuation w)
      (c.generate (c.valuation w) pipeline).bind fun code =>
        (c.link (c.unit.definitions (c.valuation w)) code).map (c.assemble w pipeline code) := by
  have hcompile : (c.compile values none).variant
      = (c.compileWord (c.wordOf values) none).variant := by
    simp only [compile]
    -- the last check drops nothing that was not dropped before
    split_ifs with hfailure
    · exact (dropsFailures_compileWord _ hfailure).symm
    · rfl
  rw [hcompile]
  simp only [compileWord, hdecided, List.nil_append]
  split
  · next vertex fragment hvertex hfragment => exact compileStages_variant _ _ hvertex hfragment
  · next hnone =>
    have hstage : c.findStage (c.valuation (c.wordOf values)) .vertex = none ∨
        c.findStage (c.valuation (c.wordOf values)) .fragment = none := by
      by_contra hsome
      obtain ⟨hvertex, hfragment⟩ := not_or.mp hsome
      obtain ⟨vertex, hvertex⟩ := Option.ne_none_iff_exists'.mp hvertex
      obtain ⟨fragment, hfragment⟩ := Option.ne_none_iff_exists'.mp hfragment
      exact hnone vertex fragment hvertex hfragment
    rw [generate_eq_none_of_findStage hstage]
    rfl

end VariantCompiler

/-! ### The part of the pipeline state -/

/-- The declarations of the color outputs; there are none if an output has a depth
format. -/
def PipelineState.outputCode (p : PipelineState) : Option String :=
  if p.colorOutputs.any (·.format.isDepthOnly) then none
  else
    some (String.join (p.colorOutputs.zipIdx.map fun (o, l) => StageInput.colorText o l))

namespace StageInput

variable (i : StageInput)

/-- The code of a fragment stage around the declarations of its color outputs. -/
def aroundOutputs (outputs : String) : String :=
  prologue ++ String.join (i.activeStorage.map fun (n, b) => i.storageText n b) ++
    (outputs ++ "\n") ++ String.join (i.functions.map (Function.text i.values)) ++ i.mainText

/-- What is wrong with a stage apart from its color outputs. -/
def faultsApartFromOutputs : List Diagnostic :=
  i.activeStorage.flatMap (fun (n, b) => i.storageFaults n b) ++
    i.functions.flatMap (Function.faults i.values) ++ Statement.allFaults i.values i.stage.body

theorem aroundOutputs_injective : Function.Injective i.aroundOutputs := by
  intro outputs outputs' h
  simp only [aroundOutputs, String.append_left_inj, String.append_right_inj] at h
  exact h

/-- The vertex stage does not see the pipeline state. -/
theorem render_vertex (h : i.stage.stage = .vertex) (p : PipelineState) :
    render { i with pipeline := p } = render i := by
  have htext : ({ i with pipeline := p } : StageInput).text = i.text := by
    simp only [text, colorTexts, h]
    rfl
  have hfaults : ({ i with pipeline := p } : StageInput).faults = i.faults := by
    simp only [faults, colorFaults, h]
    rfl
  simp only [render, htext, hfaults]

theorem hasFailure_colorFaults (h : i.stage.stage = .fragment) :
    hasFailure i.colorFaults = i.pipeline.colorOutputs.any (·.format.isDepthOnly) := by
  simp only [colorFaults, h, hasFailure, List.any_map, List.any_filter]
  refine congrArg (List.any _) (funext fun o => ?_)
  exact Bool.and_true _

/-- **The fragment stage sees the color outputs only.** -/
theorem render_fragment (h : i.stage.stage = .fragment) (p : PipelineState) :
    (render { i with pipeline := p }).source =
      if hasFailure i.faultsApartFromOutputs then none else p.outputCode.map i.aroundOutputs := by
  have hfaults : hasFailure ({ i with pipeline := p } : StageInput).faults =
      (hasFailure i.faultsApartFromOutputs || p.colorOutputs.any (·.format.isDepthOnly)) := by
    have hcolor := hasFailure_colorFaults { i with pipeline := p } h
    simp only [faults, hasFailure_append, hcolor, faultsApartFromOutputs]
    rw [Bool.or_right_comm _ (p.colorOutputs.any _), Bool.or_right_comm _ (p.colorOutputs.any _)]
    rfl
  have htext : ({ i with pipeline := p } : StageInput).text = i.aroundOutputs
      (String.join (p.colorOutputs.zipIdx.map fun (o, l) => colorText o l)) := by
    simp only [text, colorTexts, h]
    rfl
  simp only [render, hfaults, htext, PipelineState.outputCode]
  cases hasFailure i.faultsApartFromOutputs <;>
    cases p.colorOutputs.any (·.format.isDepthOnly) <;> rfl

/-- Code that is generated has no faults. -/
theorem hasFailure_render {source : String} (h : (render i).source = some source) :
    hasFailure (render i).diagnostics = false := by
  simp only [render] at h ⊢
  split_ifs at h with hfailure
  exact Bool.eq_false_iff.mpr hfailure

end StageInput

namespace VariantCompiler

variable {c : VariantCompiler} {v : Valuation} {stage : ShaderStage} {b : StageBlock}

theorem stage_of_findStage (h : c.findStage v stage = some b) : b.stage = stage := by
  unfold findStage at h
  split at h
  · next b' hb =>
    have hmem : b' ∈ c.activeStages v stage := hb ▸ List.mem_singleton_self b'
    have hstage := (List.mem_filter.mp (List.mem_of_mem_filter hmem)).2
    exact Option.some.inj h ▸ of_decide_eq_true hstage
  · cases h

/-- With fixed stages, either there is no code at all, or the code is made of the
declarations of the color outputs, each text in its own way. -/
theorem generateStages_eq_map (hr : c.renderer = render) (ds : List Diagnostic)
    (layout : Layout) {vertex fragment : StageBlock} (hvertex : vertex.stage = .vertex)
    (hfragment : fragment.stage = .fragment) :
    (∀ p, c.generateStages v p ds layout vertex fragment = none) ∨
      ∃ fill : String → GeneratedCode, Function.Injective fill ∧
        ∀ p, c.generateStages v p ds layout vertex fragment = p.outputCode.map fill := by
  -- the stages in some pipeline state, which matters to the color outputs only
  let vi : StageInput := ⟨c.unit, vertex, layout, .initial, v⟩
  let fi : StageInput := ⟨c.unit, fragment, layout, .initial, v⟩
  have hvi : ∀ p, render ⟨c.unit, vertex, layout, p, v⟩ = render vi := vi.render_vertex hvertex
  have hfi : ∀ p, (render ⟨c.unit, fragment, layout, p, v⟩).source =
      if hasFailure fi.faultsApartFromOutputs then none
      else p.outputCode.map fi.aroundOutputs := fi.render_fragment hfragment
  simp only [generateStages, hr, hvi, Option.bind_eq_bind]
  cases hvs : (render vi).source with
  | none => exact .inl fun p => rfl
  | some vertexSource =>
    have hv := vi.hasFailure_render hvs
    cases hfaults : hasFailure fi.faultsApartFromOutputs with
    | true => exact .inl fun p => by simp [hfi, hfaults]
    | false =>
      cases hds : hasFailure ds with
      | true => exact .inl fun p => by simp [hds]
      | false =>
        refine .inr ⟨fun outputs => ⟨vertexSource, fi.aroundOutputs outputs,
          layout.attributes.map (·.2), layout.setSizes, layout.bindings⟩, ?_, fun p => ?_⟩
        · intro outputs outputs' h
          exact fi.aroundOutputs_injective (GeneratedCode.mk.inj h).2.1
        · cases houtputs : p.outputCode with
          | none => simp [hfi, hfaults, houtputs]
          | some outputs =>
            have hsource : (render ⟨c.unit, fragment, layout, p, v⟩).source
                = some (fi.aroundOutputs outputs) := by
              simp [hfi, hfaults, houtputs]
            have hf := StageInput.hasFailure_render _ hsource
            simp [hsource, hf, hv, hds]

/-- For fixed values of the options, the code sees the color outputs only. -/
theorem generate_eq_map (hr : c.renderer = render) (v : Valuation) :
    (∀ p, c.generate v p = none) ∨
      ∃ fill : String → GeneratedCode, Function.Injective fill ∧
        ∀ p, c.generate v p = p.outputCode.map fill := by
  cases hvertex : c.findStage v .vertex with
  | none => exact .inl fun _ => generate_eq_none_of_findStage (.inl hvertex)
  | some vertex =>
    cases hfragment : c.findStage v .fragment with
    | none => exact .inl fun _ => generate_eq_none_of_findStage (.inr hfragment)
    | some fragment =>
      simp only [generate, hvertex, hfragment, Option.bind_eq_bind, Option.bind_some]
      cases (c.unit.assignLayout v fragment).layout with
      | none => exact .inl fun _ => rfl
      | some layout =>
        exact generateStages_eq_map hr _ layout (stage_of_findStage hvertex)
          (stage_of_findStage hfragment)

/-- **Two pipeline states give the same code** exactly if their color outputs have the
same declarations, or no pipeline state gives any. -/
theorem generate_eq_iff (hr : c.renderer = render) (v : Valuation) (p p' : PipelineState) :
    c.generate v p = c.generate v p' ↔
      (∀ q, c.generate v q = none) ∨ p.outputCode = p'.outputCode := by
  rcases generate_eq_map hr v with hnone | ⟨fill, hfill, hmap⟩
  · exact iff_of_true ((hnone p).trans (hnone p').symm) (.inl hnone)
  · rw [hmap p, hmap p', (Option.map_injective hfill).eq_iff]
    refine (or_iff_right fun hnone => ?_).symm
    -- a state without color outputs has code
    have := hnone { p with colorOutputs := [] }
    rw [hmap] at this
    exact absurd this (by simp [PipelineState.outputCode])

end VariantCompiler

end ShaderVariants
