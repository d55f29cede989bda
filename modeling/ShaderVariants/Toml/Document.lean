import ShaderVariants.Toml.Quoted
import ShaderVariants.Toml.Scalar
import ShaderVariants.Toml.Table

/-!
# TOML documents

A document is a list of lines.  A line is a header or a pair of a key and a value; what
stands between brackets and braces may go on over several lines.

## Main definitions

* `dropTrivia` — skips blanks, line breaks and comments.
* `value?` — reads a value.
* `Line.read?` — reads a line.
* `Table.ofText?` — reads a document.
-/

namespace ShaderVariants

namespace Toml

/-- Skips blanks, line breaks and comments.  It stops at a character that may not stand in
a comment. -/
def dropTrivia (comment : Bool) : List Char → List Char
  | [] => []
  | '\n' :: s => dropTrivia false s
  | '\r' :: '\n' :: s => dropTrivia false s
  | c :: s =>
    if comment then (if isPlain c then dropTrivia true s else c :: s)
    else if isBlank c then dropTrivia false s
    else if c = '#' then dropTrivia true s
    else c :: s

/-- The rest after the end of a line, with a comment or without, if nothing else comes
first. -/
def afterLine? (s : List Char) : Option (List Char) :=
  let s := s.dropWhile isBlank
  let s := match s with
    | '#' :: s => s.dropWhile isPlain
    | s => s
  match s with
  | [] => some []
  | '\n' :: s => some s
  | '\r' :: '\n' :: s => some s
  | _ => none

/-- The items up to `close`, with commas between them and possibly after the last. -/
def items? {α : Type} (close : Char) (item? : List Char → Option (α × List Char))
    (s : List Char) : Option (List α × List Char) :=
  match dropTrivia false s with
  | [] => none
  | c :: rest =>
    if c = close then some ([], rest)
    else do
      let (a, after) ← item? (c :: rest)
      match dropTrivia false after with
      | [] => none
      | d :: more =>
        if d = close then some ([a], more)
        else if d = ',' ∧ more.length < s.length then do
          let (as, last) ← items? close item? more
          return (a :: as, last)
        else none
termination_by s.length

/-! ### Keys -/

/-- A character of a key without quotes. -/
def isBare (c : Char) : Bool := c.isAlphanum || c = '-' || c = '_'

/-- A key without dots. -/
def simpleKey? (s : List Char) : Option (String × List Char) :=
  match s.span isBare with
  | ([], _) => quotedText? false s
  | (word, rest) => some (String.ofList word, rest)

/-- The parts of a key, with dots between them.  Blanks may stand around each. -/
def parts? (s : List Char) : Option (List String × List Char) := do
  let (first, rest) ← simpleKey? (s.dropWhile isBlank)
  match rest.dropWhile isBlank with
  | '.' :: more =>
    if more.length < s.length then do
      let (others, rest) ← parts? more
      return (first :: others, rest)
    else none
  | rest => return ([first], rest)
termination_by s.length

/-- How deep values nest at most, and how many parts a key has at most. -/
def maxDepth : Nat := 80

/-- A key with dots or without: the path before its last part, and that part. -/
def key? (s : List Char) : Option ((Path × String) × List Char) := do
  let (parts, rest) ← parts? s
  let last ← parts.getLast?
  if parts.length ≤ maxDepth then some ((parts.dropLast, last), rest) else none

/-! ### Values -/

/-- A character of a number, a moment or a word. -/
def isWordPart (c : Char) : Bool := isBare c || c = '+' || c = '.' || c = ':'

/-- A word and the rest.  A date and a time may have a blank between them. -/
def word (s : List Char) : List Char × List Char :=
  let (date, rest) := s.span isWordPart
  match afterDate? date, rest with
  | some [], ' ' :: c :: more =>
    if c.isDigit then
      let (time, rest) := (c :: more).span isWordPart
      (date ++ ' ' :: time, rest)
    else (date, rest)
  | _, _ => (date, rest)

/-- A value that is written as one word. -/
def wordValue? (w : List Char) : Option Value :=
  if w = ['t', 'r', 'u', 'e'] then some (.truth true)
  else if w = ['f', 'a', 'l', 's', 'e'] then some (.truth false)
  else if isNumber w then some (.number (String.ofList w))
  else if isMoment w then some (.moment (String.ofList w))
  else none

/-- A pair of a key and a value.  What `skip` skips may stand around the equals sign. -/
def pair? (skip : List Char → List Char) (value? : List Char → Option (Value × List Char))
    (s : List Char) : Option ((Path × String × Value) × List Char) := do
  let ((path, key), rest) ← key? s
  match skip rest with
  | '=' :: rest =>
    let (v, rest) ← value? (skip rest)
    return ((path, key, v), rest)
  | _ => none

/-- A value with at most `depth` arrays and inline tables around any part of it. -/
def value? : (depth : Nat) → List Char → Option (Value × List Char)
  | depth + 1, '[' :: s => do
    let (items, rest) ← items? ']' (value? depth) s
    return (.array items, rest)
  | depth + 1, '\x7b' :: s => do
    let (pairs, rest) ← items? '\x7d' (pair? (dropTrivia false) (value? depth)) s
    let t ← Table.addAll? { origin := .inline } pairs
    return (t.value, rest)
  | _, s =>
    match quotedText? true s with
    | some (text, rest) => some (.text text, rest)
    | none =>
      let (w, rest) := word s
      (wordValue? w).map (·, rest)

/-! ### Lines -/

/-- A line of a document. -/
inductive Line where
  | pair (path : Path) (key : String) (v : Value)
  | header (path : Path) (key : String) (repeated : Bool)

/-- Reads a line that is not empty. -/
def Line.read? (s : List Char) : Option (Line × List Char) :=
  match s with
  | '[' :: '[' :: s => do
    let ((path, key), rest) ← key? s
    match rest with
    | ']' :: ']' :: rest => return (.header path key true, ← afterLine? rest)
    | _ => none
  | '[' :: s => do
    let ((path, key), rest) ← key? s
    match rest with
    | ']' :: rest => return (.header path key false, ← afterLine? rest)
    | _ => none
  | s => do
    let ((path, key, v), rest) ← pair? (List.dropWhile isBlank) (value? maxDepth) s
    return (.pair path key v, ← afterLine? rest)

/-- Reads all lines. -/
def readLines? (s : List Char) : Option (List Line) :=
  match dropTrivia false s with
  | [] => some []
  | c :: rest => do
    let (line, more) ← Line.read? (c :: rest)
    if more.length < s.length then return line :: (← readLines? more) else none
termination_by s.length

/-- The pairs at the start of a document and its sections. -/
def sections (lines : List Line) : List (Path × String × Value) × List Section :=
  lines.foldr
    (fun line (pairs, sections) =>
      match line with
      | .pair path key v => ((path, key, v) :: pairs, sections)
      | .header path key repeated => ([], ⟨path, key, repeated, pairs⟩ :: sections))
    ([], [])

/-- The document without a byte order mark. -/
def dropMark : List Char → List Char
  | '\ufeff' :: s => s
  | s => s

/-- Reads a document. -/
def Table.ofText? (s : String) : Option Table := do
  let lines ← readLines? (dropMark s.toList)
  let (pairs, sections) := sections lines
  Table.ofSections? pairs sections

end Toml

end ShaderVariants
