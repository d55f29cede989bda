import ShaderVariants.Listing

/-!
# The inspection commands

`info FILE` lists shaders, `variants FILE [--shader NAME]` lists variants, and
`source FILE SHADER` prints the source of a shader.

## Main definitions

* `Arguments.read?` — sorts arguments into operands and options.
* `Command`, `Command.ofArguments?` — a command and how it is given.
* `Command.run` — what a command prints, given the bytes of its file.
-/

namespace ShaderVariants

/-! ### Arguments -/

/-- The arguments behind the name of a command. -/
structure Arguments where
  /-- Those that are not options. -/
  operands : List String := []
  /-- The value of the option `--shader`. -/
  shader : Option String := none
  deriving DecidableEq, Repr

namespace Arguments

/-- Whether an argument looks like an option.  A single hyphen does not. -/
def isOption (a : String) : Bool := a.toList.head? = some '-' && a != "-"

/-- Adds the option `--shader`, which may come once. -/
def withShader? (a : Arguments) (name : String) : Option Arguments :=
  if a.shader.isNone then some { a with shader := some name } else none

/-- Sorts arguments into operands and options.  Behind two hyphens there are only operands.
The value of an option looks like none itself, unless it stands behind an equals sign. -/
def read? : List String → Option Arguments
  | [] => some {}
  | "--" :: rest => some { operands := rest }
  | "--shader" :: name :: rest =>
    if isOption name then none else (read? rest).bind (·.withShader? name)
  | a :: rest => do
    let others ← read? rest
    match "--shader=".toList.isPrefixOf? a.toList with
    | some name => others.withShader? (String.ofList name)
    | none =>
      if isOption a then none else some { others with operands := a :: others.operands }

end Arguments

/-! ### Commands -/

/-- An inspection command. -/
inductive Command where
  | info (file : String)
  | variants (file : String) (shader : Option String)
  | source (file shader : String)
  deriving DecidableEq, Repr

namespace Command

/-- The file that a command inspects. -/
def file : Command → String
  | .info file => file
  | .variants file _ => file
  | .source file _ => file

/-- Reads a command from its arguments.  Its file must have a name. -/
def ofArguments? : List String → Option Command
  | [] => none
  | name :: rest => do
    let arguments ← Arguments.read? rest
    let command ←
      match name, arguments.operands, arguments.shader with
      | "info", [file], none => some (.info file)
      | "source", [file, shader], none => some (.source file shader)
      | "variants", [file], shader => some (.variants file shader)
      | _, _, _ => none
    if command.file = "" then none else some command

/-- What a command prints about an opened set. -/
def print (c : Command) (s : LookupSet) : Except Failure String :=
  match c with
  | .info _ => .ok s.infoText
  | .variants file shader =>
    match s.variantsText .refused shader with
    | .ok text => .ok text
    | .error e => .error (.ofListingError file e)
  | .source file shader => s.sourceText file shader

/-- What a command prints, given the bytes of its file or the reason why there are
none. -/
def run (c : Command) (bytes : Except String (List UInt8)) : Except Failure String :=
  let opened : Except Failure SetFile :=
    match bytes with
    | .error reason => .error { message := reason }
    | .ok bytes =>
      match SetFile.ofBytes bytes with
      | .ok file => .ok file
      | .error e => .error (.ofDecodeError e)
  match opened with
  | .error f => .error (f.because ("Failed to open shader set: " ++ c.file))
  | .ok file => c.print { own := { file, number := 0 } }

end Command

end ShaderVariants
