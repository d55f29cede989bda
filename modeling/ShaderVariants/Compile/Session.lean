import ShaderVariants.Compile.Variant

/-!
# Compiling one variant after the other

A compiler is asked for any number of variants.  It keeps what it has to say about them until
someone takes the diagnostics away or clears them.

## Main definitions

* `CompileCall` — what is asked for.
* `CompilerSession` — a compiler with the diagnostics it has kept.
* `CompilerSession.compile`, `CompilerSession.run` — one call, and one call after the other.
-/

namespace ShaderVariants

/-- A call for the variant of given values, on the programs of `base` if one is given. -/
structure CompileCall where
  values : Valuation
  base : Option Variant := none

/-- A compiler in use. -/
structure CompilerSession where
  compiler : VariantCompiler
  /-- What was said so far, in order of the calls. -/
  diagnostics : List Diagnostic := []

namespace CompilerSession

/-- Compiles a variant and keeps what is said about it. -/
def compile (s : CompilerSession) (call : CompileCall) : Attempt × CompilerSession :=
  let attempt := s.compiler.compile call.values call.base
  (attempt, { s with diagnostics := s.diagnostics ++ attempt.diagnostics })

/-- Answers one call after the other. -/
def run (s : CompilerSession) : List CompileCall → List Attempt × CompilerSession
  | [] => ([], s)
  | call :: rest =>
    let (attempt, s) := s.compile call
    let (attempts, s) := s.run rest
    (attempt :: attempts, s)

/-- Whether one of the calls has failed, as far as the diagnostics say. -/
def hasFailed (s : CompilerSession) : Bool := hasFailure s.diagnostics

/-- Drops the diagnostics. -/
def clear (s : CompilerSession) : CompilerSession := { s with diagnostics := [] }

/-- Takes the diagnostics away. -/
def take (s : CompilerSession) : List Diagnostic × CompilerSession := (s.diagnostics, s.clear)

end CompilerSession

end ShaderVariants
