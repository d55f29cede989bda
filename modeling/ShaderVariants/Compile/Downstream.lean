import ShaderVariants.Diagnostic
import ShaderVariants.Syntax.Unit
import ShaderVariants.Text.Utf8

/-!
# From generated code to programs

The code of a stage is handed to a downstream compiler together with definitions for all
options and named values.  The simplest such compiler keeps the code itself, with the
definitions in front.

## Main definitions

* `MacroDefinition`, `ShaderUnit.definitions` — the definitions.
* `DownstreamOutput`, `DownstreamRun`, `Downstream` — downstream compilers.
* `withDefinitions`, `keepSource` — the compiler that keeps the code.
-/

namespace ShaderVariants

/-- A name and the text that stands for it. -/
structure MacroDefinition where
  name : String
  value : String
  deriving DecidableEq, Repr

/-- A definition for every option, by its value, and for every named value, by its
position. -/
def ShaderUnit.definitions (u : ShaderUnit) (v : Valuation) : List MacroDefinition :=
  (u.options.map fun o => { name := o.name, value := toString ((v o.name).getD 0) }) ++
    u.options.flatMap fun o =>
      o.namedValues.zipIdx.map fun (name, index) => { name, value := toString index }

/-- What a downstream compiler makes of the code of a stage. -/
structure DownstreamOutput where
  /-- The program, unless there is none. -/
  bytes : Option (List UInt8)
  diagnostics : List Diagnostic := []
  deriving DecidableEq, Repr

/-- Whether there is no program that could be used. -/
def DownstreamOutput.failed (o : DownstreamOutput) : Bool :=
  o.bytes.isNone || hasFailure o.diagnostics

/-- A run of a downstream compiler. -/
inductive DownstreamRun where
  | finished (output : DownstreamOutput)
  /-- It broke down, with a message if it left one. -/
  | crashed (message : Option String)
  deriving DecidableEq, Repr

/-- A compiler of the code of a stage. -/
abbrev Downstream := String → ShaderStage → List MacroDefinition → DownstreamRun

/-! ### Keeping the code -/

/-- Splits a text behind its first line break; without one, the first part is empty. -/
def splitFirstLine (source : List Char) : List Char × List Char :=
  match source.dropWhile (· != '\n') with
  | [] => ([], source)
  | lineBreak :: rest => (source.takeWhile (· != '\n') ++ [lineBreak], rest)

/-- The line of a definition. -/
def MacroDefinition.line (d : MacroDefinition) : String :=
  "#define " ++ d.name ++ " " ++ d.value ++ "\n"

/-- The code with definitions in front of it, but behind a line that states the language
version. -/
def withDefinitions (source : String) (definitions : List MacroDefinition) : String :=
  let defined := String.join (definitions.map MacroDefinition.line)
  match splitFirstLine source.toList with
  | (first, rest) =>
    if "#version".toList.isPrefixOf first then
      String.ofList first ++ defined ++ String.ofList rest
    else
      defined ++ source

/-- The downstream compiler that keeps the code. -/
def keepSource : Downstream := fun source _ definitions =>
  .finished { bytes := some (Utf8.encode (withDefinitions source definitions)) }

end ShaderVariants
