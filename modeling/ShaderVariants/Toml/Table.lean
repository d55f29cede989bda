/-!
# TOML tables

A document is a table.  Headers and dotted keys add to it, and how a table came to be
decides whether one may still add to it.

## Main definitions

* `Value`, `Table` — what a document holds.
* `Table.under?` — changes a table below another one.
* `Table.add?` — adds a value under a dotted key.
* `Table.ofSections?` — a document from its parts.
-/

namespace ShaderVariants

namespace Toml

/-- How a table came to be. -/
inductive Origin where
  /-- It stands between braces and is complete. -/
  | inline
  /-- It has a header of its own. -/
  | header
  /-- It has none, but a table inside it has. -/
  | implied
  /-- A dotted key made it. -/
  | dotted
  deriving DecidableEq, Repr

/-- A value in a document.  Numbers and moments are kept as they are written. -/
inductive Value where
  | text (s : String)
  | truth (b : Bool)
  | number (word : String)
  | moment (word : String)
  | array (items : List Value)
  | table (origin : Origin) (entries : List (String × Value))
  /-- An array whose tables have headers. -/
  | tables (items : List (List (String × Value)))

/-- A path of keys. -/
abbrev Path : Type := List String

/-- A table. -/
structure Table where
  origin : Origin
  entries : List (String × Value) := []

namespace Table

/-- The table as a value. -/
def value (t : Table) : Value := .table t.origin t.entries

/-- The value of a key. -/
def get? (t : Table) (key : String) : Option Value := t.entries.lookup key

/-- The table without `key`. -/
def erase (t : Table) (key : String) : Table :=
  { t with entries := t.entries.filter (·.1 != key) }

/-- The table with a value for `key`. -/
def set (t : Table) (key : String) (v : Value) : Table :=
  { t with entries := (t.erase key).entries ++ [(key, v)] }

/-- Changes the table at `path` below `t` and makes tables on the way.  The way may lead
through tables that are open to it: those between braces are complete, and a dotted key
does not reach into a table that has a header of its own.  Of an array whose tables have
headers, it leads through the last one. -/
def under? (made : Origin) (change : Table → Option Table) : Path → Table → Option Table
  | [], t => change t
  | key :: path, t =>
    match t.get? key with
    | none => do
      let inner ← under? made change path { origin := made }
      return t.set key inner.value
    | some (.table origin entries) =>
      if origin = .inline ∨ (made = .dotted ∧ origin = .header) then none
      else do
        let inner ← under? made change path { origin, entries }
        return t.set key inner.value
    | some (.tables items) => do
      let last ← items.getLast?
      let inner ← under? made change path { origin := .header, entries := last }
      return t.set key (.tables (items.dropLast ++ [inner.entries]))
    | some _ => none

/-- Adds a value under a key that must be new.  The key may be dotted; then the last table
on its path is one that dotted keys made. -/
def add? (t : Table) (path : Path) (key : String) (v : Value) : Option Table :=
  under? .dotted
    (fun inner =>
      if (inner.get? key).isSome ∨ (path ≠ [] ∧ inner.origin ≠ .dotted) then none
      else some (inner.set key v))
    path t

/-- The table with all of `pairs`. -/
def addAll? (t : Table) (pairs : List (Path × String × Value)) : Option Table :=
  pairs.foldlM (fun t (path, key, v) => t.add? path key v) t

end Table

/-- A header and what stands below it. -/
structure Section where
  path : Path
  key : String
  /-- Whether the header is for one more table of an array. -/
  repeated : Bool
  pairs : List (Path × String × Value)

/-- Adds what stands below a header.  A header may come once, unless it is for an array,
and the table may be there already only because a table inside it is. -/
def Table.addSection? (t : Table) (s : Section) : Option Table :=
  under? .implied
    (fun outer => do
      match s.repeated, outer.get? s.key with
      | false, none =>
        return outer.set s.key (← addAll? { origin := .header } s.pairs).value
      | false, some (.table .implied entries) =>
        return outer.set s.key (← addAll? { origin := .header, entries } s.pairs).value
      | true, none =>
        return outer.set s.key (.tables [(← addAll? { origin := .header } s.pairs).entries])
      | true, some (.tables items) =>
        let item ← addAll? { origin := .header } s.pairs
        return outer.set s.key (.tables (items ++ [item.entries]))
      | _, some _ => none)
    s.path t

/-- The document with `pairs` at its start and then `sections`. -/
def Table.ofSections? (pairs : List (Path × String × Value)) (sections : List Section) :
    Option Table := do
  let t ← addAll? { origin := .header } pairs
  sections.foldlM Table.addSection? t

end Toml

end ShaderVariants
