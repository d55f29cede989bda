import ShaderVariants.Syntax.Unit

/-!
# Options that never change a program

An option that occurs in no storage block, stage or function can only change the
pipeline state, through the conditions of pipeline blocks.  Variants that differ only in
such options have the same programs.

## Main definitions

* `ShaderUnit.namesRead` — the names that occur in code which ends up in a program.
* `ShaderUnit.isInvariant`, `ShaderUnit.invariantOptions` — the options that do not.
* `ShaderUnit.markInvariant` — the source with every option marked.
-/

namespace ShaderVariants

/-- The expressions of a block that can end up in a program. -/
def Block.programNodes : Block → List Expr
  | .storage b => b.nodes
  | .stage b => b.nodes
  | .function f => f.nodes
  | .pipeline _ => []

namespace ShaderUnit

/-- The names that occur in code which can end up in a program. -/
def namesRead (u : ShaderUnit) : List String :=
  (u.blocks.flatMap Block.programNodes).filterMap Expr.name?

/-- Whether an option never changes a program.  Instances blocks are vertex attributes or
uniforms depending on the instancing option, without naming it. -/
def isInvariant (u : ShaderUnit) (name : String) : Bool :=
  !u.namesRead.contains name && !(name == instancingOption && u.hasStorage .instances)

/-- The names of all options that never change a program, each once. -/
def invariantOptions (u : ShaderUnit) : List String :=
  ((u.declaredOptions.map (·.name)).filter u.isInvariant).eraseDups

/-- The source with the options marked that never change a program. -/
def markInvariant (u : ShaderUnit) : ShaderUnit :=
  { u with declaredOptions := u.declaredOptions.map fun o =>
      { o with invariant := u.isInvariant o.name } }

end ShaderUnit

end ShaderVariants
