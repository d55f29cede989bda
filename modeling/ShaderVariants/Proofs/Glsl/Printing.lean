import Mathlib
import ShaderVariants.Glsl.Expr
import ShaderVariants.Proofs.Glsl.Grammar

/-!
# Printed expressions are read as they were

The text of an expression is followed through the two steps in which it is read.  Every
operator stays a token of its own: a binary one has blanks around it, and of the others only
a negation is the beginning of a longer symbol, but no operand begins with an equals sign.
And with the parentheses that are written, every operand binds tightly enough for the place
where it stands.

Negative numbers and the signs in front of an operand are another matter: a sign in front of
an operand that begins with the same sign is read as one symbol with it.

## Main definitions

* `Printable` — expressions made of names, by all operators but assignments and signs.
* `Spells` — a text is read as the tokens, whatever comes after it.
* `StartsApart` — a text does not begin with an equals sign.
* `Stands` — a text is an expression that may stand at the level.

## Main results

* `Printable.stands` — the text of an expression is the expression, at its precedence.
* `reads_text_iff` — **the text of an expression is read as the expression, and as nothing
  else.**
-/

namespace ShaderVariants

open Glsl

/-- Expressions whose leaves are names, without assignments, and with nothing but negations in
front of an operand. -/
inductive Expr.Printable : Expr → Prop where
  | var {name : String} : isIdentifier name = true → Printable (.var name)
  | call {function : Expr} {arguments : List Expr} : Printable function →
      (∀ e ∈ arguments, Printable e) → Printable (.call function arguments)
  | index {array position : Expr} : Printable array → Printable position →
      Printable (.index array position)
  | member {parent : Expr} {name : String} : Printable parent → isIdentifier name = true →
      Printable (.member parent name)
  | postfixed {operand : Expr} (op : PostfixOp) : Printable operand →
      Printable (.postfixed op operand)
  | not {operand : Expr} : Printable operand → Printable (.unary .not operand)
  | bitNot {operand : Expr} : Printable operand → Printable (.unary .bitNot operand)
  | binary {op : BinaryOp} {left right : Expr} : op.isAssignment = false → Printable left →
      Printable right → Printable (.binary op left right)
  | conditional {condition consequent alternative : Expr} : Printable condition →
      Printable consequent → Printable alternative →
      Printable (.conditional condition consequent alternative)

namespace Glsl

variable {text : String} {a b s sep : String} {ts us : List Token}

/-! ### Texts and their tokens -/

/-- Whatever comes after it, unless a name could go on with that, the text is read as the
tokens. -/
def Spells (text : String) (ts : List Token) : Prop :=
  ∀ rest, rest.head?.any isNameChar = false →
    lex (text.toList ++ rest) = (lex rest).map (ts ++ ·)

/-- The text is read as the symbol, whatever is around it. -/
structure Separates (sep s : String) : Prop where
  lex_append (rest : List Char) : lex (sep.toList ++ rest) = (lex rest).map (.symbol s :: ·)
  stops (rest : List Char) : (sep.toList ++ rest).head?.any isNameChar = false

theorem Spells.lex_eq (h : Spells text ts) : lex text.toList = some ts := by
  simpa using h [] rfl

theorem spells_empty : Spells "" [] := fun rest _ => by simp

theorem spells_name (h : isIdentifier s = true) : Spells s [.name s] := fun _ hrest =>
  lex_name h hrest

theorem Spells.join (ha : Spells a ts) (hsep : Separates sep s) (hb : Spells b us) :
    Spells (a ++ sep ++ b) (ts ++ .symbol s :: us) := by
  intro rest hrest
  rw [String.toList_append, String.toList_append, List.append_assoc, List.append_assoc,
    ha _ (hsep.stops _), hsep.lex_append, hb rest hrest, Option.map_map, Option.map_map]
  simp [Function.comp_def]

/-! ### Symbols -/

/-- What no other symbol begins with is read as a whole. -/
theorem separates_symbol (h : s ∈ ["(", ")", "[", "]", "++", "--", "~"]) : Separates s s := by
  simp only [List.mem_cons, List.not_mem_nil, or_false] at h
  rcases h with rfl | rfl | rfl | rfl | rfl | rfl | rfl <;>
    exact ⟨fun _ => lex_symbol rfl (startsNumber_cons rfl (by decide)), fun _ => rfl⟩

/-- A symbol between blanks is read as a whole. -/
theorem separates_spaced
    (h : ∀ rest, symbolAt? (s.toList ++ ' ' :: rest) = some s ∧
      startsNumber (s.toList ++ ' ' :: rest) = false) :
    Separates (" " ++ s ++ " ") s where
  lex_append rest := by
    have hlist : (" " ++ s ++ " ").toList ++ rest = ' ' :: (s.toList ++ ' ' :: rest) := by
      simp
    rw [hlist, lex_blank rfl, lex_symbol (h rest).1 (h rest).2, lex_blank rfl]
  stops rest := by
    rw [String.toList_append, String.toList_append]
    rfl

theorem separates_comma : Separates ", " "," where
  lex_append rest := by
    change lex (",".toList ++ ' ' :: rest) = _
    rw [lex_symbol rfl rfl, lex_blank rfl]
  stops _ := rfl

theorem separates_binary (op : BinaryOp) :
    Separates (if op = .comma then ", " else " " ++ op.symbol ++ " ") op.symbol := by
  cases op
  case comma => exact separates_comma
  all_goals exact separates_spaced fun rest => ⟨rfl, rfl⟩

theorem separates_branches : Separates " ? " "?" ∧ Separates " : " ":" :=
  ⟨by simpa using separates_spaced (s := "?") fun _ => ⟨rfl, rfl⟩,
    by simpa using separates_spaced (s := ":") fun _ => ⟨rfl, rfl⟩⟩

theorem separates_brackets :
    Separates "(" "(" ∧ Separates ")" ")" ∧ Separates "[" "[" ∧ Separates "]" "]" :=
  ⟨separates_symbol (by decide), separates_symbol (by decide), separates_symbol (by decide),
    separates_symbol (by decide)⟩

/-- A text in brackets behind another one. -/
theorem Spells.bracket {o c s' : String} (ha : Spells a ts) (hopen : Separates o s)
    (hb : Spells b us) (hclose : Separates c s') :
    Spells (a ++ o ++ b ++ c) (ts ++ .symbol s :: (us ++ [.symbol s'])) := by
  simpa using (ha.join hopen hb).join hclose spells_empty

theorem Spells.group (h : Spells a ts) :
    Spells ("(" ++ a ++ ")") (.symbol "(" :: (ts ++ [.symbol ")"])) := by
  simpa using spells_empty.bracket separates_brackets.1 h separates_brackets.2.1

/-- A point in front of a name does not begin a number. -/
theorem Spells.member (h : Spells a ts) (hs : isIdentifier s = true) :
    Spells (a ++ "." ++ s) (ts ++ [.symbol ".", .name s]) := by
  intro rest hrest
  have hnumber : startsNumber (".".toList ++ (s.toList ++ rest)) = false := by
    obtain ⟨c, cs, hlist, hc, -⟩ := exists_of_isIdentifier hs
    rw [hlist]
    exact isDigit_eq_false_of_startsName hc
  have hpoint : lex (".".toList ++ (s.toList ++ rest)) =
      (lex (s.toList ++ rest)).map (.symbol "." :: ·) := lex_symbol rfl hnumber
  rw [String.toList_append, String.toList_append, List.append_assoc, List.append_assoc, h _ rfl,
    hpoint, lex_name hs hrest, Option.map_map, Option.map_map]
  simp [Function.comp_def]

/-- The text begins with something else than an equals sign. -/
def StartsApart (text : String) : Prop := ∃ c, text.toList.head? = some c ∧ c ≠ '='

theorem StartsApart.append (h : StartsApart a) (b : String) : StartsApart (a ++ b) := by
  obtain ⟨c, hc, hne⟩ := h
  exact ⟨c, by simp [hc], hne⟩

theorem startsApart_enclose (h : StartsApart a) (needed : Bool) :
    StartsApart (enclose needed a) := by
  cases needed with
  | false => exact h
  | true => exact ⟨'(', by simp [enclose], by decide⟩

/-- A negation does not become an inequality. -/
theorem Spells.not (h : Spells a ts) (hapart : StartsApart a) :
    Spells ("!" ++ a) (.symbol "!" :: ts) := by
  intro rest hrest
  have hnot : lex ("!".toList ++ (a.toList ++ rest)) =
      (lex (a.toList ++ rest)).map (.symbol "!" :: ·) := by
    obtain ⟨c, hhead, hc⟩ := hapart
    obtain ⟨cs, hlist⟩ := List.head?_eq_some_iff.mp hhead
    have heq : ('=' == c) = false := beq_false_of_ne hc.symm
    refine lex_symbol ?_ (startsNumber_cons rfl (by decide))
    rw [hlist]
    simp [symbolAt?, symbols, List.isPrefixOf, heq]
  rw [String.toList_append, List.append_assoc, hnot, h rest hrest, Option.map_map]
  rfl

/-- Texts between commas. -/
theorem spells_intercalate {text : Expr → String} {tokens : Expr → List Token} (es : List Expr)
    (h : ∀ e ∈ es, Spells (text e) (tokens e)) :
    Spells (", ".intercalate (es.map text)) ([.symbol ","].intercalate (es.map tokens)) := by
  induction es with
  | nil => simpa using spells_empty
  | cons e es ih =>
    obtain ⟨he, hes⟩ := List.forall_mem_cons.mp h
    cases es with
    | nil => simpa using he
    | cons e' es =>
      rw [List.map_cons, List.map_cons, List.map_cons, List.map_cons,
        String.intercalate_cons_cons, List.intercalate_cons_cons, List.append_assoc]
      exact he.join separates_comma (ih hes)

/-! ### Operands -/

/-- The text is the expression, and may stand at the level. -/
def Stands (text : String) (level : Int) (e : Expr) : Prop :=
  ∃ ts, Spells text ts ∧ Derives level ts e

/-- The tokens of an operand: in parentheses or not. -/
def encloseTokens (needed : Bool) (ts : List Token) : List Token :=
  if needed then .symbol "(" :: (ts ++ [.symbol ")"]) else ts

theorem Spells.enclose (h : Spells a ts) (needed : Bool) :
    Spells (enclose needed a) (encloseTokens needed ts) := by
  cases needed with
  | false => exact h
  | true => exact h.group

end Glsl

namespace Expr

open Glsl

variable {e : Expr} {text : String} {ts : List Token} {level q : Int} {side : Grouping}

/-- The names, numbers and operators of a tree in the order of its text, with the parentheses
that are written around operands.  Calls, indices, members and numbers with a fraction are left
out. -/
def tokens : Expr → List Token
  | .int value =>
    if value < 0 then [.symbol "-", .number value.natAbs] else [.number value.natAbs]
  | .var name => [.name name]
  | .postfixed op operand =>
    encloseTokens (operand.needsParens (-2) .loose) operand.tokens ++ [.symbol op.symbol]
  | .unary op operand =>
    .symbol op.symbol :: encloseTokens (operand.needsParens (-1) .loose) operand.tokens
  | .binary op left right =>
    encloseTokens (left.needsParens op.precedence .loose) left.tokens ++ .symbol op.symbol ::
      encloseTokens (right.needsParens op.precedence .tight) right.tokens
  | .conditional condition consequent alternative =>
    encloseTokens (condition.needsParens 20 .tight) condition.tokens ++ .symbol "?" ::
      (encloseTokens (consequent.needsParens 20 .loose) consequent.tokens ++ .symbol ":" ::
        encloseTokens (alternative.needsParens 20 .loose) alternative.tokens)
  | .real _ | .call _ _ | .index _ _ | .member _ _ => []

theorem precedence_bounds (e : Expr) :
    -3 ≤ e.precedence ∧ (e.precedence ≤ 20 ∨ e.precedence = 1000) := by
  cases e with
  | binary op left right =>
    have hcases := op.precedence_cases
    simp only [precedence]
    omega
  | _ => simp [precedence]

theorem precedence_le (e : Expr) : e.precedence ≤ 1000 := by
  have hbounds := e.precedence_bounds
  omega

/-- An operand may stand wherever it binds tightly enough if it has no parentheses. -/
theorem derives_operand (h : Derives e.precedence ts e) (hlevel : -3 ≤ level)
    (hfits : e.needsParens q side = false → e.precedence ≤ level) :
    Derives level (encloseTokens (e.needsParens q side) ts) e := by
  cases hneeded : e.needsParens q side with
  | false => exact h.loosen (hfits hneeded)
  | true => exact (h.loosen e.precedence_le).group.loosen hlevel

theorem stands_operand (h : Stands text e.precedence e) (hlevel : -3 ≤ level)
    (hfits : e.needsParens q side = false → e.precedence ≤ level) :
    Stands (enclose (e.needsParens q side) text) level e := by
  obtain ⟨ts, hspells, hderives⟩ := h
  exact ⟨_, hspells.enclose _, derives_operand hderives hlevel hfits⟩

theorem needsParens_loose : e.needsParens q .loose = false ↔ e.precedence ≤ q := by
  simp [needsParens]

theorem needsParens_tight : e.needsParens q .tight = false ↔ e.precedence < q := by
  simp [needsParens]

/-- An operand that binds just as loosely may stand on the left. -/
theorem stands_loose (h : Stands text e.precedence e) (hq : -3 ≤ q) :
    Stands (enclose (e.needsParens q .loose) text) q e :=
  stands_operand h hq needsParens_loose.mp

/-- An operand that binds more tightly may stand on the right. -/
theorem stands_tight (h : Stands text e.precedence e) (hq : -2 ≤ q) :
    Stands (enclose (e.needsParens q .tight) text) (q - 1) e :=
  stands_operand h (by omega) fun hneeded => Int.le_sub_one_of_lt (needsParens_tight.mp hneeded)

/-- What binds more tightly than a comma binds as tightly as an argument has to. -/
theorem stands_argument (h : Stands e.text e.precedence e) : Stands e.itemText 20 e := by
  rw [itemText]
  refine stands_operand h (by decide) fun hneeded => ?_
  have hbounds := e.precedence_bounds
  have htight : e.precedence < 1000 := needsParens_tight.mp hneeded
  omega

theorem argumentTexts_eq (es : List Expr) : argumentTexts es = es.map itemText := by
  induction es with
  | nil => rfl
  | cons e es ih => rw [argumentTexts, ih]; rfl

/-! ### Expressions -/

/-- No text begins with an equals sign: most begin with that of an operand. -/
theorem Printable.startsApart_text (h : Printable e) : StartsApart e.text := by
  induction h with
  | var hname =>
    obtain ⟨c, cs, hlist, hc, -⟩ := exists_of_isIdentifier hname
    refine ⟨c, by rw [text, hlist]; rfl, ?_⟩
    rintro rfl
    exact absurd hc (by decide)
  | not => exact ⟨'!', by simp [text, UnaryOp.symbol], by decide⟩
  | bitNot => exact ⟨'~', by simp [text, UnaryOp.symbol], by decide⟩
  | call _ _ ih | index _ _ ih | member _ _ ih | postfixed _ _ ih | binary _ _ _ ih
  | conditional _ _ _ ih =>
    simpa only [text, String.append_assoc] using (startsApart_enclose ih _).append _

/-- **The text of an expression is the expression**, at its precedence. -/
theorem Printable.stands (h : Printable e) : Stands e.text e.precedence e := by
  induction h with
  | var hname => exact ⟨_, spells_name hname, .name _⟩
  | @call f es _ _ ih ihs =>
    obtain ⟨ts, hspells, hderives⟩ := stands_loose (q := -2) ih (by decide)
    choose! tokens htokens using fun e he => stands_argument (ihs e he)
    have harguments := spells_intercalate es fun e he => (htokens e he).1
    have hcall := hderives.call (es.map fun e => (tokens e, e))
      (List.forall_mem_map.mpr fun e he => (htokens e he).2)
    have hsnd : (es.map fun e => (tokens e, e)).map Prod.snd = es := by simp [Function.comp_def]
    rw [hsnd, List.map_map] at hcall
    refine ⟨_, ?_, hcall⟩
    rw [text, argumentTexts_eq]
    exact hspells.bracket separates_brackets.1 harguments separates_brackets.2.1
  | index _ _ ih ih' =>
    obtain ⟨ts, hspells, hderives⟩ := stands_loose (q := -2) ih (by decide)
    obtain ⟨us, hspells', hderives'⟩ := ih'
    refine ⟨_, ?_, hderives.index (hderives'.loosen (precedence_le _))⟩
    rw [text]
    exact hspells.bracket separates_brackets.2.2.1 hspells' separates_brackets.2.2.2
  | member _ hname ih =>
    obtain ⟨ts, hspells, hderives⟩ := stands_loose (q := -2) ih (by decide)
    exact ⟨_, hspells.member hname, hderives.member _⟩
  | postfixed op _ ih =>
    obtain ⟨ts, hspells, hderives⟩ := stands_loose (q := -2) ih (by decide)
    have hsymbol : Separates op.symbol op.symbol := separates_symbol (by cases op <;> decide)
    exact ⟨_, by simpa [text] using hspells.join hsymbol spells_empty, hderives.postfixed op⟩
  | not hoperand ih =>
    obtain ⟨ts, hspells, hderives⟩ := stands_loose (q := -1) ih (by decide)
    have hapart := startsApart_enclose hoperand.startsApart_text
    exact ⟨_, hspells.not (hapart _), hderives.unary .not⟩
  | bitNot _ ih =>
    obtain ⟨ts, hspells, hderives⟩ := stands_loose (q := -1) ih (by decide)
    have hsymbol : Separates "~" "~" := separates_symbol (by decide)
    have hjoin := spells_empty.join hsymbol hspells
    rw [String.empty_append] at hjoin
    exact ⟨_, hjoin, hderives.unary .bitNot⟩
  | @binary op l r hop _ _ ihl ihr =>
    have hcases := op.precedence_cases
    obtain ⟨ts, hspells, hderives⟩ := stands_loose (q := op.precedence) ihl (by omega)
    obtain ⟨us, hspells', hderives'⟩ := stands_tight (q := op.precedence) ihr (by omega)
    exact ⟨_, by simpa only [text] using hspells.join (separates_binary op) hspells',
      hderives.binary op hop (by omega) hderives'⟩
  | conditional _ _ _ ihc iha ihb =>
    obtain ⟨ts, hspells, hderives⟩ := stands_tight (q := 20) ihc (by decide)
    obtain ⟨us, hspells', hderives'⟩ := stands_loose (q := 20) iha (by decide)
    obtain ⟨vs, hspells'', hderives''⟩ := stands_loose (q := 20) ihb (by decide)
    refine ⟨_, ?_, .conditional (by decide) hderives (hderives'.loosen (by decide)) hderives''⟩
    simpa [text] using (hspells.join separates_branches.1 hspells').join separates_branches.2
      hspells''

/-- **The text of an expression is read as the expression, and as nothing else.** -/
theorem reads_text_iff (h : Printable e) (e' : Expr) : Reads e.text e' ↔ e' = e := by
  obtain ⟨ts, hspells, hderives⟩ := h.stands
  constructor
  · rintro ⟨us, hlex, hderives'⟩
    cases hspells.lex_eq.symm.trans hlex
    exact hderives'.unique hderives
  · rintro rfl
    exact ⟨ts, hspells.lex_eq, hderives.loosen (precedence_le _)⟩

/-- A choice with operands that need parentheses and operands that do without. -/
def choice : Expr :=
  .conditional
    (.unary .not (.member (.index (.var "x") (.binary .comma (.var "i") (.var "j"))) "y"))
    (.call (.var "f") [.binary .comma (.var "a") (.var "b"),
      .binary .add (.postfixed .increment (.var "p")) (.var "q")])
    (.binary .sub (.var "a") (.binary .sub (.var "b") (.var "c")))

theorem choice_reads :
    choice.text = "!x[i, j].y ? f((a, b), p++ + q) : a - (b - c)" ∧ choice.Printable ∧
      ∀ e', Reads choice.text e' ↔ e' = choice := by
  have hcondition : Printable
      (.member (.index (.var "x") (.binary .comma (.var "i") (.var "j"))) "y") :=
    .member (.index (.var rfl) (.binary rfl (.var rfl) (.var rfl))) rfl
  have harguments : ∀ e ∈ [.binary .comma (.var "a") (.var "b"),
      .binary .add (.postfixed .increment (.var "p")) (.var "q")], Printable e :=
    List.forall_mem_cons.mpr ⟨.binary rfl (.var rfl) (.var rfl),
      List.forall_mem_singleton.mpr (.binary rfl (.postfixed _ (.var rfl)) (.var rfl))⟩
  have hchoice : choice.Printable :=
    .conditional (.not hcondition) (.call (.var rfl) harguments)
      (.binary rfl (.var rfl) (.binary rfl (.var rfl) (.var rfl)))
  exact ⟨by decide +kernel, hchoice, reads_text_iff hchoice⟩

end Expr

end ShaderVariants
