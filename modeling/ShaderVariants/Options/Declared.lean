import ShaderVariants.Options.Info
import ShaderVariants.Syntax.Expr

/-!
# Declared options

The options of a shader source, packed in the order of their declaration.

## Main definitions

* `OptionDeclaration` — an option as it is declared.
* `ShaderOption`, `OptionDeclaration.pack` — an option with its field in the option word.
* `invarianceMask` — the fields of all options that never change a program.
* `Valuation.ofWord`, `packValues` — from option words to values and back.
* `Valuation.filtered` — how conditions see the values of options.
-/

namespace ShaderVariants

/-- The number of bits at which the option words of a shader become too long. -/
def optionBitLimit : Nat := 16

/-- The flag that decides whether instance data are vertex attributes or uniforms. -/
def instancingOption : String := "IsInstanced"

/-- An option as it is declared. -/
structure OptionDeclaration extends OptionInfo where
  /-- Whether the option never changes a program. -/
  invariant : Bool := false
  span : Span := {}
  deriving DecidableEq, Repr

/-- A declared option with its field in the option word. -/
structure ShaderOption extends OptionDeclaration where
  /-- The number of options declared before. -/
  index : Nat
  /-- The lowest bit of the field. -/
  offset : Nat
  deriving DecidableEq, Repr

namespace OptionDeclaration

/-- Packs options one after the other, the first as number `index` from the bit `offset`
on. -/
def packFrom : (index offset : Nat) → List OptionDeclaration → List ShaderOption
  | _, _, [] => []
  | index, offset, o :: rest =>
    { toOptionDeclaration := o, index, offset } ::
      packFrom (index + 1) (offset + o.bitCount) rest

/-- Packs options from the lowest bit up. -/
def pack (declarations : List OptionDeclaration) : List ShaderOption := packFrom 0 0 declarations

/-- The bits of all fields. -/
def totalBits : List OptionDeclaration → Nat
  | [] => 0
  | o :: rest => o.bitCount + totalBits rest

end OptionDeclaration

namespace ShaderOption

/-- The bits of the option in an option word. -/
def mask (o : ShaderOption) : OptionWord := .mask o.offset o.bitCount

/-- The number of values that a word can tell apart; it may end within the last field. -/
def distinctCount (o : ShaderOption) : Nat :=
  min o.valueCount (1 <<< (OptionWord.width - o.offset))

/-- The field of the option in a word; it may hold more than the last value. -/
def field (o : ShaderOption) (w : OptionWord) : Nat := w.field o.offset o.bitCount

end ShaderOption

/-- The fields of all options that never change a program. -/
def invarianceMask (options : List ShaderOption) : OptionWord :=
  (options.filter (·.invariant)).foldl (fun m o => m ||| o.mask) 0

/-! ### Values of options -/

/-- The position of a named value in its option.  Should several options name the same
value, the last one counts. -/
def namedValue? (options : List ShaderOption) (name : String) : Option Nat :=
  (options.flatMap fun o => o.namedValues.zipIdx).reverse.findSome? fun (value, index) =>
    if value = name then some index else none

/-- Whether `name` is an option rather than one of the named values. -/
def isOptionName (options : List ShaderOption) (name : String) : Bool :=
  (namedValue? options name).isNone && options.any (·.name == name)

namespace Valuation

/-- No name has a value. -/
def none : Valuation := fun _ => .none

/-- The values that an option word stands for.  A field beyond the last value of its
option counts as that value. -/
def ofWord (options : List ShaderOption) (w : OptionWord) : Valuation := fun name =>
  (options.find? (·.name = name)).map fun o => o.clamp (o.field w)

/-- How conditions see values: a named value is its position, an option has the value
that `values` gives it or else its first, and nothing else has a value. -/
def filtered (options : List ShaderOption) (values : Valuation) : Valuation := fun name =>
  match namedValue? options name with
  | some index => some index
  | .none => if options.any (·.name = name) then some ((values name).getD 0) else .none

end Valuation

/-- Packs the values of all options.  A missing value counts as the first one, a value
out of range as the last one. -/
def packValues (values : Valuation) (options : List ShaderOption) : OptionWord :=
  options.foldl (fun w o => w ||| .place (o.clamp ((values o.name).getD 0)) o.offset) 0

end ShaderVariants
