/-!
# Types with named members

A closed list of members, each with a name.

## Main definitions

* `Named α` — the members of `α` and their names.
* `Named.ofName?` — the member with a name.
-/

namespace ShaderVariants

/-- A finite type whose members have names. -/
class Named (α : Type) where
  /-- Every member. -/
  all : List α
  /-- The name of a member. -/
  name : α → String
  mem_all : ∀ a, a ∈ all

namespace Named

variable {α : Type} [Named α]

/-- The member called `s`, if there is one. -/
def ofName? (s : String) : Option α := (all : List α).find? fun a => name a == s

end Named

end ShaderVariants
