import ShaderVariants.Named
import ShaderVariants.Syntax.Span

/-!
# Diagnostics

What a build has to say about a shader source.  Errors, and faults of the compiler
itself, make a build fail.

## Main definitions

* `Severity`, `DiagnosticCode`, `Diagnostic` — a diagnostic; `Diagnostic.text` is its line.
* `hasFailure`, `failureCount` — whether and how often a list of diagnostics fails a build.
-/

namespace ShaderVariants

/-- How bad it is. -/
inductive Severity where
  | info
  | warning
  | error
  /-- A fault of the compiler rather than of the source. -/
  | internal
  deriving DecidableEq, Repr

instance : Named Severity where
  all := [.info, .warning, .error, .internal]
  name
    | .info => "Info"
    | .warning => "Warning"
    | .error => "Error"
    | .internal => "Internal"
  mem_all a := by cases a <;> decide

namespace Severity

/-- Whether it makes a build fail. -/
def isFailure : Severity → Bool
  | .error | .internal => true
  | .info | .warning => false

/-- The severity in words. -/
def text : Severity → String
  | .info => "info"
  | .warning => "warning"
  | .error => "error"
  | .internal => "internal error"

end Severity

/-- What it is about. -/
inductive DiagnosticCode where
  | variantSpaceTooLarge
  | tooFewOptionValues
  | duplicateOptionName
  | optionNameIsValue
  | duplicateNamedValue
  | specialOptionWithValues
  | instancesBlockWithoutOption
  | conditionNotEvaluable
  | conditionIsConstant
  | nonNumericVertexAttribute
  | nonNumericNorBindingUniform
  | unsupportedBufferType
  | duplicateInstanceVariable
  | invalidColorOutput
  | noStageBlock
  | multipleStageBlocks
  | variantStart
  | generatedSource
  | downstream
  | internal
  deriving DecidableEq, Repr

instance : Named DiagnosticCode where
  all := [.variantSpaceTooLarge, .tooFewOptionValues, .duplicateOptionName, .optionNameIsValue,
    .duplicateNamedValue, .specialOptionWithValues, .instancesBlockWithoutOption,
    .conditionNotEvaluable, .conditionIsConstant, .nonNumericVertexAttribute,
    .nonNumericNorBindingUniform, .unsupportedBufferType, .duplicateInstanceVariable,
    .invalidColorOutput, .noStageBlock, .multipleStageBlocks, .variantStart, .generatedSource,
    .downstream, .internal]
  name
    | .variantSpaceTooLarge => "VariantSpaceTooLarge"
    | .tooFewOptionValues => "TooFewOptionValues"
    | .duplicateOptionName => "DuplicateOptionName"
    | .optionNameIsValue => "OptionNameIsValue"
    | .duplicateNamedValue => "DuplicateNamedValue"
    | .specialOptionWithValues => "SpecialOptionWithValues"
    | .instancesBlockWithoutOption => "InstancesBlockWithoutOption"
    | .conditionNotEvaluable => "ConditionNotEvaluable"
    | .conditionIsConstant => "ConditionIsConstant"
    | .nonNumericVertexAttribute => "NonNumericVertexAttribute"
    | .nonNumericNorBindingUniform => "NonNumericNorBindingUniform"
    | .unsupportedBufferType => "UnsupportedBufferType"
    | .duplicateInstanceVariable => "DuplicateInstanceVariable"
    | .invalidColorOutput => "InvalidColorOutput"
    | .noStageBlock => "NoStageBlock"
    | .multipleStageBlocks => "MultipleStageBlocks"
    | .variantStart => "VariantStart"
    | .generatedSource => "GeneratedSource"
    | .downstream => "Downstream"
    | .internal => "Internal"
  mem_all a := by cases a <;> decide

/-- The short name of a code, which never changes. -/
def DiagnosticCode.id : DiagnosticCode → String
  | .variantSpaceTooLarge => "OPT001"
  | .tooFewOptionValues => "OPT002"
  | .duplicateOptionName => "OPT003"
  | .optionNameIsValue => "OPT004"
  | .duplicateNamedValue => "OPT005"
  | .specialOptionWithValues => "OPT006"
  | .instancesBlockWithoutOption => "OPT007"
  | .conditionNotEvaluable => "CND001"
  | .conditionIsConstant => "CND002"
  | .nonNumericVertexAttribute => "LAY001"
  | .nonNumericNorBindingUniform => "LAY002"
  | .unsupportedBufferType => "LAY003"
  | .duplicateInstanceVariable => "LAY004"
  | .invalidColorOutput => "LAY005"
  | .noStageBlock => "VAR001"
  | .multipleStageBlocks => "VAR002"
  | .variantStart => "VAR003"
  | .generatedSource => "VAR004"
  | .downstream => "DSC001"
  | .internal => "INT001"

/-- A remark about a shader source. -/
structure Diagnostic where
  severity : Severity
  code : DiagnosticCode
  message : String
  file : Option String := none
  span : Option Span := none
  /-- A second place, such as the earlier of two declarations. -/
  related : Option Span := none
  deriving DecidableEq, Repr

namespace Diagnostic

/-- A fault of the compiler itself. -/
def fault (message : String) : Diagnostic :=
  { severity := .internal, code := .internal, message }

/-- A fault of the source. -/
def error (code : DiagnosticCode) (message : String) : Diagnostic :=
  { severity := .error, code, message }

/-- A remark that is neither an error nor a warning. -/
def info (code : DiagnosticCode) (message : String) : Diagnostic :=
  { severity := .info, code, message }

/-- The place in front of the message. -/
def place (d : Diagnostic) : String :=
  match d.file, d.span with
  | some file, some span => file ++ ":" ++ span.text ++ ": "
  | some file, none => file ++ ": "
  | none, some span => span.text ++ ": "
  | none, none => ""

/-- The diagnostic as a line. -/
def text (d : Diagnostic) : String :=
  d.place ++ d.severity.text ++ " " ++ d.code.id ++ ": " ++ d.message ++
    match d.related with
    | some span => " (see also " ++ span.text ++ ")"
    | none => ""

end Diagnostic

/-- Whether one of the diagnostics makes a build fail. -/
def hasFailure (ds : List Diagnostic) : Bool := ds.any (·.severity.isFailure)

/-- The number of diagnostics that make a build fail. -/
def failureCount (ds : List Diagnostic) : Nat := ds.countP (·.severity.isFailure)

end ShaderVariants
