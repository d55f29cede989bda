import Mathlib
import ShaderVariants.Proofs.Compile.Keys
import ShaderVariants.Proofs.Compile.Reuse

/-!
# What comes of compiling a variant

A build counts on the diagnostics to say whether anything is missing.  It may: whoever
compiles a variant gets either the variant or a failure, and never both.  On the programs of
a base with the same program key, the variants of an accepted source are compiled without
any remark.

## Main definitions

* `AnalyzedShader.compiler` — the compiler of an accepted source.
* `Attempt.Settled` — a variant or a failure, but not both.

## Main results

* `VariantCompiler.settled_compile` — **compiling gives a variant or reports a failure.**
* `VariantCompiler.diagnostics_compileAt_some` — nothing is said about variants that take
  their programs over.
-/

namespace ShaderVariants

/-- The compiler for the variants of an accepted source. -/
def AnalyzedShader.compiler (s : AnalyzedShader) (downstream : Downstream) (showSource : Bool) :
    VariantCompiler :=
  { unit := s.unit, info := s.info, file := s.name, downstream, showSource }

theorem AnalyzedShader.variantCompiler?_of_isSound {s : AnalyzedShader} (h : s.isSound = true)
    (downstream : Downstream) (showSource : Bool) :
    s.variantCompiler? downstream showSource = some (s.compiler downstream showSource) :=
  if_pos h

/-- There is a variant exactly if no failure is reported. -/
def Attempt.Settled (a : Attempt) : Prop := a.variant.isSome = !hasFailure a.diagnostics

namespace Attempt

/-- An attempt without a variant reports a failure. -/
def Explained (a : Attempt) : Prop := a.variant = none → hasFailure a.diagnostics = true

end Attempt

namespace VariantCompiler

variable {c : VariantCompiler}

/-! ### Missing variants -/

theorem explained_crash (ds : List Diagnostic) (message : Option String) :
    (c.crash ds message).Explained := by
  intro _
  rw [crash, hasFailure_append, Bool.or_eq_true]
  exact .inr rfl

theorem explained_compilePrograms (v : Valuation) (ds : List Diagnostic)
    (vertexSource fragmentSource : String) (build : List UInt8 → List UInt8 → Variant) :
    (c.compilePrograms v ds vertexSource fragmentSource build).Explained := by
  simp only [compilePrograms]
  split
  · exact explained_crash _ _
  · next vertex _ =>
    split
    · exact explained_crash _ _
    · next fragment _ =>
      -- a program is only missing if its stage has failed
      intro hnone
      by_contra hfailure
      dsimp only at hnone hfailure
      rw [if_neg hfailure] at hnone
      simp only [hasFailure_append, hasFailure_diagnoseOutput, DownstreamOutput.failed] at hfailure
      cases hvertex : vertex.bytes <;> cases hfragment : fragment.bytes <;> simp_all

theorem explained_compileStages (hr : c.renderer = render) (w : OptionWord)
    (pipeline : PipelineState) (ds : List Diagnostic) (vertex fragment : StageBlock) :
    (c.compileStages w pipeline ds vertex fragment).Explained := by
  simp only [compileStages, hr]
  split
  · exact explained_crash _ _
  · split
    · split_ifs with hfailure
      · exact fun _ => hfailure
      · exact explained_compilePrograms _ _ _ _ _
    · next hmissing =>
      -- code is only missing if it has faults
      intro _
      by_contra hfailure
      simp only [hasFailure_append, Bool.or_eq_true, not_or, render] at hfailure
      exact hmissing _ _ (if_neg hfailure.1.2) (if_neg hfailure.2)

theorem hasFailure_diagnoseStage {v : Valuation} {stage : ShaderStage}
    (h : c.findStage v stage = none) : hasFailure (c.diagnoseStage v stage) = true := by
  unfold findStage at h
  unfold diagnoseStage
  rw [hasFailure_append, Bool.or_eq_true]
  split at h
  · cases h
  · next hactive =>
    right
    split
    · rfl
    · next b hb => exact absurd hb (hactive b)
    · rfl

theorem explained_compileWord (hr : c.renderer = render) (w : OptionWord)
    (base : Option Variant) : (c.compileWord w base).Explained := by
  simp only [compileWord]
  split
  · split_ifs
    · exact fun hnone => absurd hnone (Option.some_ne_none _)
    · -- a base that is refused is reported as a fault
      intro _
      rw [hasFailure_append, Bool.or_eq_true]
      exact .inr rfl
  · split
    · exact explained_compileStages hr _ _ _ _ _
    · next hmissing =>
      intro _
      rw [hasFailure_append, hasFailure_append, Bool.or_eq_true, Bool.or_eq_true]
      cases hvertex : c.findStage (c.valuation w) .vertex with
      | none => exact .inl (.inr (hasFailure_diagnoseStage hvertex))
      | some vertex =>
        cases hfragment : c.findStage (c.valuation w) .fragment with
        | none => exact .inr (hasFailure_diagnoseStage hfragment)
        | some fragment => exact absurd hfragment (hmissing _ _ hvertex)

/-! ### Compiling -/

/-- Announcing a variant is no failure. -/
theorem hasFailure_compile (c : VariantCompiler) (values : Valuation) (base : Option Variant) :
    hasFailure (c.compile values base).diagnostics =
      hasFailure (c.compileWord (c.wordOf values) base).diagnostics := by
  simp only [compile]
  split_ifs with hempty
  · rw [List.isEmpty_iff.mp hempty]
  · rw [hasFailure_append]
    exact Bool.false_or _

/-- **Compiling gives a variant or reports a failure**, and never both. -/
theorem settled_compile (hr : c.renderer = render) (values : Valuation)
    {base : Option Variant} : (c.compile values base).Settled := by
  unfold Attempt.Settled
  rw [hasFailure_compile]
  simp only [compile]
  cases hfailure : hasFailure (c.compileWord (c.wordOf values) base).diagnostics with
  | true => rfl
  | false =>
    have hsome : (c.compileWord (c.wordOf values) base).variant ≠ none := fun hnone =>
      Bool.false_ne_true (hfailure.symm.trans (explained_compileWord hr _ _ hnone))
    exact Option.isSome_iff_ne_none.mpr hsome

/-- On the programs of a base with the same program key, a variant of an accepted source is
compiled without any remark. -/
theorem diagnostics_compileAt_some {u : ShaderUnit} (h : u.Accepted)
    (hunit : c.unit = u.markInvariant) {w : OptionWord} {base : Variant}
    (hw : OptionWord.InRange c.unit.options w)
    (hkey : c.info.programKey base.key.optionWord = c.info.programKey w) :
    (c.compileAt w (some base)).diagnostics = [] := by
  simp only [compileAt, compile, compileWord, wordOf_ofWord h hunit hw, if_pos hkey,
    undecidedPipeline_eq_nil h hunit, List.isEmpty_nil, if_true]

end VariantCompiler

end ShaderVariants
