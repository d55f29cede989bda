import Mathlib
import ShaderVariants.Syntax.Expr

/-!
# The tokens of an expression

A text is taken apart from the front, each time by the longest token that fits.  So a name
goes on as long as there are letters and digits, and two operators that stand side by side may
be read as another one.  Blanks only keep tokens apart.

## Main definitions

* `Token` — names, numbers, and the spellings of operators and punctuation marks.
* `next?` — the longest token at the front of a text; `lex` — all of them.
* `isIdentifier` — which texts are names.

## Main results

* `lex_name`, `lex_symbol` — what is read as one token, whatever comes after it.
-/

namespace ShaderVariants.Glsl

/-- A token of an expression. -/
inductive Token where
  | name (name : String)
  /-- A decimal number. -/
  | number (value : ℕ)
  /-- An operator or a punctuation mark. -/
  | symbol (spelling : String)
  deriving DecidableEq, Repr

/-! ### Characters -/

/-- Whether a name may begin with the character. -/
def startsName (c : Char) : Bool := c.isAlpha || c == '_'

/-- Whether a name may go on with the character. -/
def isNameChar (c : Char) : Bool := startsName c || c.isDigit

/-- A name begins with a letter or an underscore and goes on with these and digits. -/
def isIdentifier (s : String) : Bool :=
  match s.toList with
  | [] => false
  | c :: cs => startsName c && cs.all isNameChar

/-- Whether a number begins here: with a digit, or with a point in front of one. -/
def startsNumber : List Char → Bool
  | c :: d :: _ => c.isDigit || (c == '.' && d.isDigit)
  | [c] => c.isDigit
  | [] => false

/-- Whether a number may go on with the character. -/
def isNumberChar (c : Char) : Bool := isNameChar c || c == '.'

/-- The number that a run of letters, digits and points stands for.  Only decimal numbers
without needless zeros are read. -/
def numberOf? (run : List Char) : Option ℕ :=
  (String.ofList run).toNat?.filter fun n => toString n == String.ofList run

/-! ### Reading tokens -/

/-- The operators and punctuation marks of expressions, the longer ones first.  The two that
begin a comment are among them, although no expression contains them. -/
def symbols : List String :=
  ["<<=", ">>=", "++", "--", "<<", ">>", "<=", ">=", "==", "!=", "&&", "||", "^^", "+=", "-=",
    "*=", "/=", "%=", "&=", "|=", "^=", "//", "/*", "(", ")", "[", "]", ".", ",", "?", ":", "=",
    "<", ">", "+", "-", "*", "/", "%", "!", "~", "&", "|", "^"]

/-- The longest symbol at the front of a text. -/
def symbolAt? (cs : List Char) : Option String := symbols.find? (·.toList.isPrefixOf cs)

/-- The longest token at the front of a text, and what is left. -/
def next? (cs : List Char) : Option (Token × List Char) :=
  if cs.head?.any startsName then
    some (.name (.ofList (cs.takeWhile isNameChar)), cs.dropWhile isNameChar)
  else if startsNumber cs then
    (numberOf? (cs.takeWhile isNumberChar)).map fun n => (.number n, cs.dropWhile isNumberChar)
  else
    (symbolAt? cs).map fun s => (.symbol s, cs.drop s.length)

theorem length_dropWhile_lt {p : Char → Bool} {c : Char} (h : p c = true) (cs : List Char) :
    ((c :: cs).dropWhile p).length < (c :: cs).length := by
  rw [List.dropWhile_cons_of_pos h, List.length_cons]
  exact Nat.lt_succ_of_le (List.dropWhile_sublist p).length_le

/-- A token takes at least one character. -/
theorem length_lt_of_next? {cs rest : List Char} {t : Token} (h : next? cs = some (t, rest)) :
    rest.length < cs.length := by
  unfold next? at h
  split_ifs at h with hname hnumber
  · obtain ⟨-, rfl⟩ := Prod.mk.inj (Option.some.inj h)
    match cs, hname with
    | c :: cs, hname => exact length_dropWhile_lt (by simpa [isNameChar] using .inl hname) cs
  · obtain ⟨n, -, h⟩ := Option.map_eq_some_iff.mp h
    obtain ⟨-, rfl⟩ := Prod.mk.inj h
    have hstart : ∃ c rest, cs = c :: rest ∧ isNumberChar c = true := by
      match cs, hnumber with
      | [c], hnumber => exact ⟨c, [], rfl, by simp_all [startsNumber, isNumberChar, isNameChar]⟩
      | c :: d :: cs, hnumber =>
        refine ⟨c, d :: cs, rfl, ?_⟩
        simp only [startsNumber, Bool.or_eq_true, Bool.and_eq_true] at hnumber
        rcases hnumber with hdigit | ⟨hpoint, -⟩
        · simp [isNumberChar, isNameChar, hdigit]
        · simp [isNumberChar, hpoint]
    obtain ⟨c, rest, rfl, hc⟩ := hstart
    exact length_dropWhile_lt hc rest
  · obtain ⟨s, hs, h⟩ := Option.map_eq_some_iff.mp h
    obtain ⟨-, rfl⟩ := Prod.mk.inj h
    have hpos : 0 < s.length := by
      have hall : ∀ s ∈ symbols, 0 < s.length := by decide
      exact hall s (List.mem_of_find?_eq_some hs)
    have hle : s.length ≤ cs.length := by
      have hfits : s.toList.isPrefixOf cs = true := by simpa using List.find?_some hs
      exact String.length_toList ▸ (List.isPrefixOf_iff_prefix.mp hfits).length_le
    rw [List.length_drop]
    omega

/-- All tokens of a text, unless there is a character that no token begins with. -/
def lex (cs : List Char) : Option (List Token) :=
  match cs with
  | [] => some []
  | c :: cs =>
    if c.isWhitespace then lex cs
    else
      match _h : next? (c :: cs) with
      | none => none
      | some (t, rest) => (lex rest).map (t :: ·)
termination_by cs.length
decreasing_by
  · exact Nat.lt_succ_self _
  · exact length_lt_of_next? _h

/-! ### What is read as one token -/

variable {c : Char} {cs rest : List Char} {s : String} {t : Token}

@[simp] theorem lex_nil : lex [] = some [] := by rw [lex]

theorem lex_blank (h : c.isWhitespace = true) : lex (c :: cs) = lex cs := by
  rw [lex, if_pos h]

theorem lex_of_next? (hblank : c.isWhitespace = false)
    (h : next? (c :: cs) = some (t, rest)) : lex (c :: cs) = (lex rest).map (t :: ·) := by
  rw [lex, if_neg (by simp [hblank])]
  split
  · next hnone => rw [h] at hnone; cases hnone
  · next t' rest' hsome =>
    rw [h] at hsome
    cases hsome
    rfl

/-- No token begins with a blank. -/
theorem isWhitespace_eq_false_of_startsName (h : startsName c = true) :
    c.isWhitespace = false := by
  by_contra hblank
  simp only [Char.isWhitespace, Bool.not_eq_false, Bool.or_eq_true, decide_eq_true_eq] at hblank
  rcases hblank with ((rfl | rfl) | rfl) | rfl <;> exact absurd h (by decide)

theorem exists_of_isIdentifier (h : isIdentifier s = true) :
    ∃ c cs, s.toList = c :: cs ∧ startsName c = true ∧ ∀ d ∈ c :: cs, isNameChar d = true := by
  unfold isIdentifier at h
  split at h
  · cases h
  · next c cs hlist =>
    obtain ⟨hc, hcs⟩ := Bool.and_eq_true_iff.mp h
    exact ⟨c, cs, hlist, hc, List.forall_mem_cons.mpr
      ⟨by rw [isNameChar, hc, Bool.true_or], List.all_eq_true.mp hcs⟩⟩

/-- A name is read as a whole, unless it goes on. -/
theorem lex_name (hs : isIdentifier s = true) (hrest : rest.head?.any isNameChar = false) :
    lex (s.toList ++ rest) = (lex rest).map (.name s :: ·) := by
  obtain ⟨c, cs, hlist, hc, hall⟩ := exists_of_isIdentifier hs
  have hstop : rest.takeWhile isNameChar = [] ∧ rest.dropWhile isNameChar = rest := by
    cases rest with
    | nil => exact ⟨rfl, rfl⟩
    | cons d rest =>
      have hd : ¬ isNameChar d = true := Bool.not_eq_true _ ▸ hrest
      exact ⟨List.takeWhile_cons_of_neg hd, List.dropWhile_cons_of_neg hd⟩
  have hnext : next? (c :: cs ++ rest) = some (.name s, rest) := by
    rw [next?, if_pos (by simpa using hc), List.takeWhile_append_of_pos hall,
      List.dropWhile_append_of_pos hall, hstop.1, hstop.2, List.append_nil, ← hlist,
      String.ofList_toList]
  rw [hlist]
  exact lex_of_next? (isWhitespace_eq_false_of_startsName hc) hnext

theorem isDigit_eq_false_of_startsName (h : startsName c = true) : c.isDigit = false := by
  by_contra hdigit
  simp only [startsName, Char.isAlpha, Char.isUpper, Char.isLower, Char.isDigit, Bool.not_eq_false,
    Bool.or_eq_true, Bool.and_eq_true, decide_eq_true_eq, beq_iff_eq] at h hdigit
  rcases h with (h | h) | rfl
  · exact absurd (UInt32.le_trans h.1 hdigit.2) (by decide)
  · exact absurd (UInt32.le_trans h.1 hdigit.2) (by decide)
  · exact absurd hdigit (by decide)

theorem startsNumber_cons (hdigit : c.isDigit = false) (hpoint : c ≠ '.') :
    startsNumber (c :: cs) = false := by
  cases cs <;> simp [startsNumber, hdigit, hpoint]

/-- A symbol is read as a whole, unless a longer one or a number begins with it. -/
theorem lex_symbol (hs : symbolAt? (s.toList ++ rest) = some s)
    (hnumber : startsNumber (s.toList ++ rest) = false) :
    lex (s.toList ++ rest) = (lex rest).map (.symbol s :: ·) := by
  have hall : ∀ s ∈ symbols,
      s.toList.head?.any (fun c => !startsName c && !c.isWhitespace) = true := by decide
  obtain ⟨c, cs, hlist, hname, hblank⟩ : ∃ c cs, s.toList = c :: cs ∧ startsName c = false ∧
      c.isWhitespace = false := by
    have hhead := hall s (List.mem_of_find?_eq_some hs)
    cases hlist : s.toList with
    | nil => simp [hlist] at hhead
    | cons c cs => exact ⟨c, cs, rfl, by simpa [hlist] using hhead⟩
  have hnext : next? (s.toList ++ rest) = some (.symbol s, rest) := by
    have hdrop : (s.toList ++ rest).drop s.length = rest := by
      rw [← String.length_toList, List.drop_left]
    rw [next?, if_neg, hnumber, if_neg Bool.false_ne_true, hs, Option.map_some, hdrop]
    simp [hlist, hname]
  rw [hlist] at hnext ⊢
  exact lex_of_next? hblank hnext

end ShaderVariants.Glsl
