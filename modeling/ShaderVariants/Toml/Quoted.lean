import ShaderVariants.Toml.Digit

/-!
# Quoted text in TOML

A text stands between quotes, or between three of them if it may hold line breaks.
Between double quotes a backslash begins an escape, between single quotes it is a
character like any other.

## Main definitions

* `unescape` — resolves escapes.
* `quotedText?` — reads a text in quotes of any kind.
-/

namespace ShaderVariants

namespace Toml

/-- A text and what follows it. -/
abbrev TextAndRest : Type := List Char × List Char

/-- Whether a character may stand in a text or in a comment as it is: a tab, and
everything that is not a control character. -/
def isPlain (c : Char) : Bool := c = '\t' || (0x20 ≤ c.val && c.val != 0x7F)

/-- A blank within a line. -/
def isBlank (c : Char) : Bool := c = ' ' || c = '\t'

/-- A blank or a line break. -/
def isSpace (c : Char) : Bool := isBlank c || c = '\n' || c = '\r'

/-! ### Escapes -/

/-- The character with the number that digits in base 16 give. -/
def numbered? (digits : List Char) : Option Char :=
  let n := valueOf 16 digits
  if digits.all (isDigit 16) ∧ n.isValidChar then some (Char.ofNat n) else none

/-- The character that a backslash and a letter stand for. -/
def lettered? (c : Char) : Option Char :=
  if c = 'b' then some '\x08'
  else if c = 't' then some '\t'
  else if c = 'n' then some '\n'
  else if c = 'f' then some '\x0c'
  else if c = 'r' then some '\r'
  else if c = 'e' then some '\x1b'
  else if c = '"' ∨ c = '\\' then some c
  else none

/-- Whether the line ends after `s` has only blanks. -/
def endsLine (s : List Char) : Bool :=
  match s.dropWhile (fun c => isBlank c || c = '\r') with
  | '\n' :: _ => true
  | _ => false

/-- The text with its escapes resolved.  If it may have several lines, a backslash at the
end of a line removes the break and all blanks after it. -/
def unescape (lines : Bool) : List Char → Option (List Char)
  | [] => some []
  | '\\' :: 'x' :: a :: b :: s => return (← numbered? [a, b]) :: (← unescape lines s)
  | '\\' :: 'u' :: a :: b :: c :: d :: s =>
    return (← numbered? [a, b, c, d]) :: (← unescape lines s)
  | '\\' :: 'U' :: a :: b :: c :: d :: e :: f :: g :: h :: s =>
    return (← numbered? [a, b, c, d, e, f, g, h]) :: (← unescape lines s)
  | '\\' :: c :: s =>
    if lines && endsLine (c :: s) then
      unescape lines (s.dropWhile isSpace)
    else
      return (← lettered? c) :: (← unescape lines s)
  | ['\\'] => none
  | c :: s => return c :: (← unescape lines s)
termination_by s => s.length
decreasing_by
  all_goals
    have := (List.dropWhile_suffix isSpace (l := s)).length_le
    simp only [List.length_cons]
    omega

/-! ### Bodies -/

/-- The characters up to the quote `q`.  If there are escapes, the character after a
backslash is never the last quote. -/
def body (q : Char) (escapes : Bool) : List Char → Option TextAndRest
  | [] => none
  | [c] => if c = q then some ([], []) else none
  | c :: d :: s =>
    if c = q then some ([], d :: s)
    else if escapes ∧ c = '\\' then (body q escapes s).map fun (t, rest) => (c :: d :: t, rest)
    else (body q escapes (d :: s)).map fun (t, rest) => (c :: t, rest)

/-- The characters up to three quotes, after `run` quotes have been seen.  One or two
quotes right before the last three belong to the text. -/
def tripleBody (q : Char) (escapes : Bool) : (run : Nat) → List Char → Option TextAndRest
  | run, [] => if 3 ≤ run then some (List.replicate (run - 3) q, []) else none
  | run, c :: s =>
    if c = q then
      if run = 4 then some ([q, q], s) else tripleBody q escapes (run + 1) s
    else if 3 ≤ run then some (List.replicate (run - 3) q, c :: s)
    else if escapes ∧ c = '\\' then
      match s with
      | [] => none
      | d :: s =>
        (tripleBody q escapes 0 s).map fun (t, rest) =>
          (List.replicate run q ++ c :: d :: t, rest)
    else
      (tripleBody q escapes 0 s).map fun (t, rest) => (List.replicate run q ++ c :: t, rest)

/-- Whether a text consists of characters that may stand in it as they are, and of line
breaks if it may have several lines. -/
def isProper (lines : Bool) : List Char → Bool
  | [] => true
  | '\r' :: '\n' :: s => lines && isProper lines s
  | '\n' :: s => lines && isProper lines s
  | c :: s => isPlain c && isProper lines s

/-- The text without a line break at its start. -/
def dropBreak : List Char → List Char
  | '\r' :: '\n' :: s => s
  | '\n' :: s => s
  | s => s

/-- The text that a body stands for. -/
def resolve (lines escapes : Bool) (b : List Char) : Option (List Char) :=
  if isProper lines b then
    let b := if lines then dropBreak b else b
    if escapes then unescape lines b else some b
  else none

/-- A text in quotes of any kind; `lines` says whether three quotes may begin one. -/
def quotedText? (lines : Bool) : List Char → Option (String × List Char)
  | [] => none
  | q :: s =>
    let escapes := q = '"'
    if escapes ∨ q = '\x27' then do
      let several := lines && [q, q].isPrefixOf s
      let (b, rest) ← if several then tripleBody q escapes 0 (s.drop 2) else body q escapes s
      return (String.ofList (← resolve several escapes b), rest)
    else none

end Toml

end ShaderVariants
