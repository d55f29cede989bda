import ShaderVariants.Compile.Build
import ShaderVariants.Toml.Document

/-!
# Build configuration

Settings are read from a TOML document.  Each has a default, and keys that are not
settings mean nothing.

## Main definitions

* `BuildConfig` — the settings.
* `BuildConfig.ofText?` — reads them.
-/

namespace ShaderVariants

/-- The settings of a build and where its file goes. -/
structure BuildConfig extends BuildSettings where
  output : String := "output.shadercache"
  /-- Whether variants may be compiled at the same time. -/
  parallel : Bool := true
  deriving DecidableEq, Repr

namespace BuildConfig

/-- The truth value of a setting, or its default. -/
def truth? (t : Toml.Table) (key : String) (default : Bool) : Option Bool :=
  match t.get? key with
  | none => some default
  | some (.truth b) => some b
  | some _ => none

/-- The text of a setting, or its default. -/
def text? (t : Toml.Table) (key default : String) : Option String :=
  match t.get? key with
  | none => some default
  | some (.text s) => some s
  | some _ => none

/-- The settings in a document. -/
def ofTable? (t : Toml.Table) : Option BuildConfig := do
  let initial : BuildConfig := {}
  let output ← text? t "output" initial.output
  let embedSource ← truth? t "embed_source" initial.embedSource
  let parallel ← truth? t "parallel" initial.parallel
  let showSource ← truth? t "output_generated_source_on_error" initial.showSource
  return { output, embedSource, parallel, showSource }

/-- Reads the settings; `none` if the text is not a document or a setting is of another
kind. -/
def ofText? (s : String) : Option BuildConfig := (Toml.Table.ofText? s).bind ofTable?

end BuildConfig

end ShaderVariants
