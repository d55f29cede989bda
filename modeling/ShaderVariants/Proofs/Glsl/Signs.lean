import Mathlib
import ShaderVariants.Proofs.Glsl.Printing

/-!
# Signs in printed expressions

An operator in front of an operand is written without a blank.  If the operand begins with an
operator of its own, the two may be read as one: `-(-x)` and `--x` are the same text, and so are
`-(--x)` and `--(-x)`.  Nothing else is read differently from what it is: behind the other
operators no longer symbol can begin, and around a binary operator there are blanks.

## Main definitions

* `OfOperators` — expressions made of names, numbers and operators, but without assignments.
* `Separate` — no sign stands directly in front of an operator that begins with the same sign.
* `reglued` — the expression that a text is read as.

## Main results

* `OfOperators.lexes` — in a separate expression every operator is a token of its own.
* `OfOperators.read_as_reglued` — **a text is read as the reglued expression and as nothing
  else; two expressions have one text exactly if they are the same when reglued.**
-/

namespace ShaderVariants

open Glsl

/-- Expressions whose leaves are names and numbers, by all operators but assignments. -/
inductive Expr.OfOperators : Expr → Prop where
  | var {name : String} : isIdentifier name = true → OfOperators (.var name)
  | int (value : ℕ) : OfOperators (.int value)
  | unary {operand : Expr} (op : UnaryOp) : OfOperators operand → OfOperators (.unary op operand)
  | postfixed {operand : Expr} (op : PostfixOp) : OfOperators operand →
      OfOperators (.postfixed op operand)
  | binary {op : BinaryOp} {left right : Expr} : op.isAssignment = false → OfOperators left →
      OfOperators right → OfOperators (.binary op left right)

namespace Glsl

variable {a b s sep : String} {c : Char} {cs rest : List Char} {ts us : List Token}

/-! ### Numbers and signs as tokens -/

/-- Whatever comes after it, unless a name or a number could go on with that, the text is read
as the tokens. -/
def Lexes (text : String) (ts : List Token) : Prop :=
  ∀ rest, rest.head?.any isNumberChar = false →
    lex (text.toList ++ rest) = (lex rest).map (ts ++ ·)

/-- What a number cannot go on with, a name cannot go on with. -/
theorem any_isNameChar_of_isNumberChar (h : rest.head?.any isNumberChar = false) :
    rest.head?.any isNameChar = false := by
  cases rest with
  | nil => rfl
  | cons c cs => exact (Bool.or_eq_false_iff.mp h).1

theorem Spells.lexes (h : Spells a ts) : Lexes a ts := fun rest hrest =>
  h rest (any_isNameChar_of_isNumberChar hrest)

theorem Lexes.lex_eq (h : Lexes a ts) : lex a.toList = some ts := by
  simpa using h [] rfl

/-- Digits begin no name and no blank. -/
theorem startsName_eq_false_of_isDigit (h : c.isDigit = true) : startsName c = false := by
  by_contra hname
  rw [Bool.not_eq_false] at hname
  exact absurd h (by rw [isDigit_eq_false_of_startsName hname]; decide)

theorem isWhitespace_eq_false_of_isDigit (h : c.isDigit = true) : c.isWhitespace = false := by
  by_contra hblank
  simp only [Char.isWhitespace, Bool.not_eq_false, Bool.or_eq_true, decide_eq_true_eq] at hblank
  rcases hblank with ((rfl | rfl) | rfl) | rfl <;> exact absurd h (by decide)

theorem isDigit_of_mem_toString {n : ℕ} (h : c ∈ (toString n).toList) : c.isDigit = true :=
  Nat.isDigit_of_mem_toDigits (by decide) (by decide) (Nat.toList_repr ▸ h)

/-- The text of a number begins with a digit. -/
theorem exists_head_toString (n : ℕ) :
    ∃ c cs, (toString n).toList = c :: cs ∧ c.isDigit = true := by
  obtain ⟨c, cs, hlist⟩ := List.exists_cons_of_ne_nil
    (Nat.toList_repr (n := n) ▸ Nat.toDigits_ne_nil : (toString n).toList ≠ [])
  exact ⟨c, cs, hlist, isDigit_of_mem_toString (hlist ▸ List.mem_cons_self)⟩

/-- A number is read as a whole, unless it goes on. -/
theorem lexes_number (n : ℕ) : Lexes (toString n) [.number n] := by
  intro rest hrest
  have hall : ∀ d ∈ (toString n).toList, isNumberChar d = true := fun d hd => by
    simp [isNumberChar, isNameChar, isDigit_of_mem_toString hd]
  obtain ⟨c, cs, hlist, hc⟩ := exists_head_toString n
  have hstop : rest.takeWhile isNumberChar = [] ∧ rest.dropWhile isNumberChar = rest := by
    cases rest with
    | nil => exact ⟨rfl, rfl⟩
    | cons d rest =>
      have hd : ¬ isNumberChar d = true := Bool.not_eq_true _ ▸ hrest
      exact ⟨List.takeWhile_cons_of_neg hd, List.dropWhile_cons_of_neg hd⟩
  have hread : numberOf? (toString n).toList = some n := by
    have hvalue : (toString n).toNat? = some n := Nat.toNat?_repr n
    rw [numberOf?, String.ofList_toList, hvalue, Option.filter_some, beq_self_eq_true, if_pos rfl]
  have hnext : next? (c :: cs ++ rest) = some (.number n, rest) := by
    have hname : ¬ (c :: cs ++ rest).head?.any startsName = true := by
      simp [startsName_eq_false_of_isDigit hc]
    have hnumber : startsNumber (c :: cs ++ rest) = true := by
      cases hrest' : cs ++ rest <;> simp [startsNumber, hc, hrest']
    rw [next?, if_neg hname, if_pos hnumber, ← hlist, List.takeWhile_append_of_pos hall,
      List.dropWhile_append_of_pos hall, hstop.1, hstop.2, List.append_nil, hread,
      Option.map_some]
  rw [hlist]
  exact lex_of_next? (isWhitespace_eq_false_of_isDigit hc) hnext

/-- An operator in front of an operand is read as a whole, unless the operand begins with the
same sign or with an equals sign. -/
theorem lex_prefix (op : UnaryOp) (hequals : c ≠ '=') (hminus : op = .negate → c ≠ '-')
    (hplus : op = .plus → c ≠ '+') :
    lex (op.symbol.toList ++ c :: cs) = (lex (c :: cs)).map (.symbol op.symbol :: ·) := by
  have hequals' : ('=' == c) = false := beq_false_of_ne hequals.symm
  refine lex_symbol ?_ ?_
  · cases op with
    | negate =>
      have hminus' : ('-' == c) = false := beq_false_of_ne (hminus rfl).symm
      simp [UnaryOp.symbol, symbolAt?, symbols, List.isPrefixOf, hequals', hminus']
    | plus =>
      have hplus' : ('+' == c) = false := beq_false_of_ne (hplus rfl).symm
      simp [UnaryOp.symbol, symbolAt?, symbols, List.isPrefixOf, hequals', hplus']
    | _ => simp [UnaryOp.symbol, symbolAt?, symbols, List.isPrefixOf, hequals']
  · cases op <;> exact startsNumber_cons rfl (by decide)

/-- A symbol between texts stays a token of its own if it does not begin with a point. -/
theorem Lexes.join (ha : Lexes a ts) (hsep : Separates sep s)
    (hstops : ∀ rest, (sep.toList ++ rest).head?.any isNumberChar = false) (hb : Lexes b us) :
    Lexes (a ++ sep ++ b) (ts ++ .symbol s :: us) := by
  intro rest hrest
  rw [String.toList_append, String.toList_append, List.append_assoc, List.append_assoc,
    ha _ (hstops _), hsep.lex_append, hb rest hrest, Option.map_map, Option.map_map]
  simp [Function.comp_def]

theorem Lexes.enclose (h : Lexes a ts) (needed : Bool) :
    Lexes (enclose needed a) (encloseTokens needed ts) := by
  cases needed with
  | false => exact h
  | true =>
    have hopen := (spells_empty.lexes.join separates_brackets.1 (fun _ => rfl) h).join
      separates_brackets.2.1 (fun _ => rfl) spells_empty.lexes
    simpa [ShaderVariants.enclose, encloseTokens] using hopen

end Glsl

/-! ### Operators that are read as one -/

/-- A sign in front of an operator that begins with the same sign. -/
def UnaryOp.glues : UnaryOp → Expr → Bool
  | .negate, .unary .negate _ | .negate, .unary .decrement _ => true
  | .plus, .unary .plus _ | .plus, .unary .increment _ => true
  | _, _ => false

/-- Only the operators made of a sign begin with it. -/
theorem UnaryOp.exists_head_symbol (op : UnaryOp) :
    ∃ c cs, op.symbol.toList = c :: cs ∧ c ≠ '=' ∧ (c = '-' → op = .negate ∨ op = .decrement) ∧
      (c = '+' → op = .plus ∨ op = .increment) := by
  cases op <;> exact ⟨_, _, rfl, by decide, by decide, by decide⟩

/-- What an operator in front of a text is read as: two signs are one operator, and a sign in
front of a longer operator ends up behind it. -/
def UnaryOp.gluedTo : UnaryOp → Expr → Expr
  | .negate, .unary .negate e => .unary .decrement e
  | .negate, .unary .decrement e => .unary .decrement (gluedTo .negate e)
  | .plus, .unary .plus e => .unary .increment e
  | .plus, .unary .increment e => .unary .increment (gluedTo .plus e)
  | op, e => .unary op e

namespace Expr

variable {e l r : Expr} {op : UnaryOp}

/-- No sign stands directly in front of an operator that begins with the same sign. -/
def Separate (e : Expr) : Prop :=
  ∀ op operand, Expr.unary op operand ∈ e.nodes → op.glues operand = false

/-- The expression that the text of an expression of operators is read as. -/
def reglued : Expr → Expr
  | .unary op operand => op.gluedTo operand.reglued
  | .postfixed op operand => .postfixed op operand.reglued
  | .binary op left right => .binary op left.reglued right.reglued
  | e => e

/-- What binds as tightly as an operator in front of an operand needs no parentheses there. -/
theorem text_unary (op : UnaryOp) (h : e.precedence ≤ -1) :
    (Expr.unary op e).text = op.symbol ++ e.text := by
  rw [text, needsParens_loose.mpr h, enclose, if_neg Bool.false_ne_true]

theorem separate_var (name : String) : Separate (.var name) := by
  simp [Separate, nodes]

theorem separate_int (value : Int) : Separate (.int value) := by
  simp [Separate, nodes]

theorem separate_unary :
    Separate (.unary op e) ↔ op.glues e = false ∧ e.Separate := by
  simp only [Separate, nodes, List.mem_cons, Expr.unary.injEq]
  constructor
  · intro h
    exact ⟨h op e (.inl ⟨rfl, rfl⟩), fun op' e' he' => h op' e' (.inr he')⟩
  · rintro ⟨hglues, he⟩ op' e' (⟨rfl, rfl⟩ | he')
    · exact hglues
    · exact he op' e' he'

theorem separate_postfixed {op : PostfixOp} : Separate (.postfixed op e) ↔ e.Separate := by
  simp [Separate, nodes]

theorem separate_binary {op : BinaryOp} :
    Separate (.binary op l r) ↔ l.Separate ∧ r.Separate := by
  simp [Separate, nodes, or_imp, forall_and]

end Expr

namespace UnaryOp

variable {e : Expr}

theorem gluedTo_of_glues_eq_false {op : UnaryOp} (h : op.glues e = false) :
    op.gluedTo e = .unary op e := by
  fun_cases gluedTo op e <;> simp_all [glues]

theorem precedence_gluedTo (op : UnaryOp) (e : Expr) : (op.gluedTo e).precedence = -1 := by
  fun_cases gluedTo op e <;> rfl

/-- Reading signs as one operator does not change the text. -/
theorem text_gluedTo (op : UnaryOp) (e : Expr) : (op.gluedTo e).text = (Expr.unary op e).text := by
  fun_induction gluedTo op e with
  | case1 e | case3 e =>
    rw [Expr.text_unary _ (e := .unary _ e) le_rfl, Expr.text, Expr.text, ← String.append_assoc]
    rfl
  | case2 e ih | case4 e ih =>
    rw [Expr.text_unary _ (precedence_gluedTo _ e).le, ih,
      Expr.text_unary _ (e := .unary _ e) le_rfl, Expr.text, Expr.text, ← String.append_assoc,
      ← String.append_assoc]
    rfl
  | case5 op e => rfl

theorem ofOperators_gluedTo (op : UnaryOp) (h : e.OfOperators) :
    (op.gluedTo e).OfOperators := by
  fun_induction gluedTo op e with
  | case1 e | case3 e => cases h with | unary _ he => exact .unary _ he
  | case2 e ih | case4 e ih => cases h with | unary _ he => exact .unary _ (ih he)
  | case5 op e => exact .unary _ h

theorem separate_gluedTo (op : UnaryOp) (h : e.Separate) : (op.gluedTo e).Separate := by
  fun_induction gluedTo op e with
  | case1 e | case3 e => exact Expr.separate_unary.mpr ⟨rfl, (Expr.separate_unary.mp h).2⟩
  | case2 e ih | case4 e ih =>
    exact Expr.separate_unary.mpr ⟨rfl, ih (Expr.separate_unary.mp h).2⟩
  | case5 op e =>
    refine Expr.separate_unary.mpr ⟨?_, h⟩
    unfold glues
    split <;> simp_all

end UnaryOp

namespace Expr

variable {e : Expr}

theorem precedence_reglued (e : Expr) : e.reglued.precedence = e.precedence := by
  cases e with
  | unary op operand => exact UnaryOp.precedence_gluedTo _ _
  | _ => rfl

theorem needsParens_reglued (e : Expr) (q : Int) (side : Grouping) :
    e.reglued.needsParens q side = e.needsParens q side := by
  cases side <;> simp only [needsParens, precedence_reglued]

namespace OfOperators

theorem text_reglued (h : OfOperators e) : e.reglued.text = e.text := by
  induction h with
  | var | int => rfl
  | unary op _ ih => rw [reglued, UnaryOp.text_gluedTo, text, text, ih, needsParens_reglued]
  | postfixed op _ ih => rw [reglued, text, text, ih, needsParens_reglued]
  | binary _ _ _ ihl ihr =>
    rw [reglued, text, text, ihl, ihr, needsParens_reglued, needsParens_reglued]

protected theorem reglued (h : OfOperators e) : OfOperators e.reglued := by
  induction h with
  | var hname => exact .var hname
  | int value => exact .int value
  | unary op _ ih => exact UnaryOp.ofOperators_gluedTo op ih
  | postfixed op _ ih => exact .postfixed op ih
  | binary hop _ _ ihl ihr => exact .binary hop ihl ihr

theorem separate_reglued (h : OfOperators e) : e.reglued.Separate := by
  induction h with
  | var => exact separate_var _
  | int => exact separate_int _
  | unary op _ ih => exact UnaryOp.separate_gluedTo op ih
  | postfixed op _ ih => exact separate_postfixed.mpr ih
  | binary _ _ _ ihl ihr => exact separate_binary.mpr ⟨ihl, ihr⟩

theorem reglued_eq_of_separate (h : OfOperators e) (hs : e.Separate) : e.reglued = e := by
  induction h with
  | var | int => rfl
  | unary op _ ih =>
    obtain ⟨hglues, hoperand⟩ := separate_unary.mp hs
    rw [reglued, ih hoperand, UnaryOp.gluedTo_of_glues_eq_false hglues]
  | postfixed op _ ih => rw [reglued, ih (separate_postfixed.mp hs)]
  | binary _ _ _ ihl ihr =>
    obtain ⟨hl, hr⟩ := separate_binary.mp hs
    rw [reglued, ihl hl, ihr hr]

theorem reglued_eq_iff (h : OfOperators e) : e.reglued = e ↔ e.Separate :=
  ⟨fun heq => heq ▸ h.separate_reglued, h.reglued_eq_of_separate⟩

/-! ### The tokens of an expression of operators -/

/-- The tokens are derived by the grammar, whether or not the text is read as these tokens. -/
theorem derives (h : OfOperators e) : Derives e.precedence e.tokens e := by
  induction h with
  | var => exact .name _
  | int value =>
    have hvalue : ¬ (value : Int) < 0 := by omega
    rw [tokens, if_neg hvalue]
    exact .number value
  | unary op _ ih =>
    exact .unary op (derives_operand ih (by decide) needsParens_loose.mp)
  | postfixed op _ ih =>
    exact .postfixed op (derives_operand ih (by decide) needsParens_loose.mp)
  | @binary op l r hop _ _ ihl ihr =>
    have hcases := op.precedence_cases
    refine .binary op hop (derives_operand ihl (by omega) needsParens_loose.mp)
      (show op.precedence - 1 < _ by omega) (derives_operand ihr (by omega) fun hneeded => ?_)
    exact Int.le_sub_one_of_lt (needsParens_tight.mp hneeded)

/-- What binds more tightly than an operator in front of it begins with a letter, a digit or a
parenthesis. -/
theorem exists_head (h : OfOperators e) (htight : e.precedence ≤ -2) :
    ∃ c cs, e.text.toList = c :: cs ∧ c ≠ '=' ∧ c ≠ '-' ∧ c ≠ '+' := by
  induction h with
  | var hname =>
    obtain ⟨c, cs, hlist, hc, -⟩ := exists_of_isIdentifier hname
    refine ⟨c, cs, hlist, ?_, ?_, ?_⟩ <;> rintro rfl <;> exact absurd hc (by decide)
  | int value =>
    obtain ⟨c, cs, hlist, hc⟩ := exists_head_toString value
    refine ⟨c, cs, hlist, ?_, ?_, ?_⟩ <;> rintro rfl <;> exact absurd hc (by decide)
  | unary => exact absurd htight (by simp [precedence])
  | @postfixed operand op _ ih =>
    have hlist : (Expr.postfixed op operand).text.toList =
        (enclose (operand.needsParens (-2) .loose) operand.text).toList ++ op.symbol.toList :=
      String.toList_append
    rw [hlist]
    cases hneeded : operand.needsParens (-2) .loose with
    | true =>
      simp only [enclose, if_pos, String.toList_append]
      exact ⟨'(', _, rfl, by decide⟩
    | false =>
      obtain ⟨c, cs, hoperand, hc⟩ := ih (needsParens_loose.mp hneeded)
      exact ⟨c, cs ++ op.symbol.toList, congrArg (· ++ op.symbol.toList) hoperand, hc⟩
  | @binary op =>
    have hcases := op.precedence_cases
    simp only [precedence] at htight
    omega

/-- What stands behind an operator that it is not glued to does not prolong the operator. -/
theorem exists_head_operand {op : UnaryOp} (h : OfOperators e) (hglues : op.glues e = false) :
    ∃ c cs, (enclose (e.needsParens (-1) .loose) e.text).toList = c :: cs ∧ c ≠ '=' ∧
      (op = .negate → c ≠ '-') ∧ (op = .plus → c ≠ '+') := by
  cases hneeded : e.needsParens (-1) .loose with
  | true =>
    simp only [enclose, if_pos, String.toList_append]
    exact ⟨'(', _, rfl, by decide, fun _ => by decide, fun _ => by decide⟩
  | false =>
    have hprecedence := needsParens_loose.mp hneeded
    rw [enclose, if_neg Bool.false_ne_true]
    by_cases htight : e.precedence ≤ -2
    · obtain ⟨c, cs, hlist, hequals, hminus, hplus⟩ := h.exists_head htight
      exact ⟨c, cs, hlist, hequals, fun _ => hminus, fun _ => hplus⟩
    · cases h with
      | @unary operand op' _ =>
        obtain ⟨c, cs, hlist, hequals, hminus, hplus⟩ := op'.exists_head_symbol
        rw [text, String.toList_append, hlist]
        refine ⟨c, _, rfl, hequals, ?_, ?_⟩
        · rintro rfl hc
          rcases hminus hc with rfl | rfl <;> cases hglues
        · rintro rfl hc
          rcases hplus hc with rfl | rfl <;> cases hglues
      | @binary op' =>
        have hcases := op'.precedence_cases
        simp only [precedence] at hprecedence
        omega
      | _ => simp only [precedence] at htight; omega

/-- **In a separate expression every operator is a token of its own.** -/
theorem lexes (h : OfOperators e) (hs : e.Separate) : Lexes e.text e.tokens := by
  induction h with
  | var hname => exact (spells_name hname).lexes
  | int value =>
    have hvalue : ¬ (value : Int) < 0 := by omega
    rw [tokens, if_neg hvalue]
    exact lexes_number value
  | @unary operand op hoperand ih =>
    obtain ⟨hglues, hs⟩ := separate_unary.mp hs
    obtain ⟨c, cs, hlist, hequals, hminus, hplus⟩ := hoperand.exists_head_operand hglues
    have hlexes := (ih hs).enclose (operand.needsParens (-1) .loose)
    intro rest hrest
    have hread := hlexes rest hrest
    rw [text, String.toList_append, List.append_assoc, hlist, List.cons_append,
      lex_prefix op hequals hminus hplus, ← List.cons_append, ← hlist, hread, Option.map_map]
    rfl
  | @postfixed operand op _ ih =>
    have hsymbol : Separates op.symbol op.symbol := separates_symbol (by cases op <;> decide)
    have hjoin := ((ih (separate_postfixed.mp hs)).enclose
      (operand.needsParens (-2) .loose)).join hsymbol (fun _ => by cases op <;> rfl)
      spells_empty.lexes
    simpa only [text, tokens, String.append_empty] using hjoin
  | @binary op l r _ _ _ ihl ihr =>
    obtain ⟨hl, hr⟩ := separate_binary.mp hs
    rw [text, tokens]
    refine ((ihl hl).enclose _).join (separates_binary op) (fun rest => ?_) ((ihr hr).enclose _)
    cases op <;> rfl

/-! ### What a text is read as -/

theorem lex_text (h : OfOperators e) : lex e.text.toList = some e.reglued.tokens := by
  rw [← h.text_reglued]
  exact (h.reglued.lexes h.separate_reglued).lex_eq

theorem reads_iff_eq_reglued (h : OfOperators e) (e' : Expr) :
    Reads e.text e' ↔ e' = e.reglued := by
  constructor
  · rintro ⟨ts, hlex, hderives⟩
    cases h.lex_text.symm.trans hlex
    exact hderives.unique h.reglued.derives
  · rintro rfl
    exact ⟨_, h.lex_text, h.reglued.derives.loosen (precedence_le _)⟩

/-- **A text is read as the expression with its signs put together, and as nothing else.**  The
tokens of the text are those of the expression exactly if no sign stands directly in front of
an operator that begins with the same sign, and two expressions have one text exactly if they
are the same with their signs put together. -/
theorem read_as_reglued (h : OfOperators e) :
    (∀ e', Reads e.text e' ↔ e' = e.reglued) ∧
      (lex e.text.toList = some e.tokens ↔ e.Separate) ∧ (e.reglued = e ↔ e.Separate) ∧
      ∀ e', OfOperators e' → (e.text = e'.text ↔ e.reglued = e'.reglued) := by
  refine ⟨h.reads_iff_eq_reglued, ⟨fun hlex => ?_, fun hs => (h.lexes hs).lex_eq⟩,
    h.reglued_eq_iff, fun e' h' => ⟨fun htext => ?_, fun hreglued => ?_⟩⟩
  · have htokens : e.reglued.tokens = e.tokens := Option.some.inj (h.lex_text.symm.trans hlex)
    have hderives := h.reglued.derives
    rw [htokens] at hderives
    exact h.reglued_eq_iff.mp (hderives.unique h.derives)
  · have hreads := (h.reads_iff_eq_reglued e.reglued).mpr rfl
    rw [htext] at hreads
    exact (h'.reads_iff_eq_reglued _).mp hreads
  · rw [← h.text_reglued, hreglued, h'.text_reglued]

end OfOperators

/-- A product of a negated negation and a decremented negative number. -/
def signed : Expr :=
  .binary .mul (.unary .negate (.unary .negate (.postfixed .increment (.var "x"))))
    (.unary .decrement (.unary .negate (.int 5)))

/-- The same with the signs put together. -/
def resigned : Expr :=
  .binary .mul (.unary .decrement (.postfixed .increment (.var "x")))
    (.unary .decrement (.unary .negate (.int 5)))

theorem signed_read :
    signed.OfOperators ∧ resigned.OfOperators ∧ signed.text = "--x++ * ---5" ∧
      signed.reglued = resigned ∧ (∀ e', Reads signed.text e' ↔ e' = signed.reglued) ∧
      (lex signed.text.toList = some signed.tokens ↔ signed.Separate) ∧
      (signed.reglued = signed ↔ signed.Separate) ∧
      (signed.text = resigned.text ↔ signed.reglued = resigned.reglued) := by
  have hsigned : signed.OfOperators :=
    .binary rfl (.unary _ (.unary _ (.postfixed _ (.var rfl)))) (.unary _ (.unary _ (.int 5)))
  have hresigned : resigned.OfOperators :=
    .binary rfl (.unary _ (.postfixed _ (.var rfl))) (.unary _ (.unary _ (.int 5)))
  obtain ⟨hreads, htokens, hreglued, hsame⟩ := hsigned.read_as_reglued
  exact ⟨hsigned, hresigned, by decide +kernel, rfl, hreads, htokens, hreglued,
    hsame resigned hresigned⟩

/-- The negation of a negation has the text of a decrement, and is read as one. -/
theorem doubleNegation_glued :
    OfOperators (.unary .negate (.unary .negate (.var "x"))) ∧
      OfOperators (.unary .decrement (.var "x")) ∧
      Expr.unary .negate (.unary .negate (.var "x")) ≠ .unary .decrement (.var "x") ∧
      (Expr.unary .negate (.unary .negate (.var "x"))).text =
        (Expr.unary .decrement (.var "x")).text ∧
      lex (Expr.unary .negate (.unary .negate (.var "x"))).text.toList =
        some [.symbol "--", .name "x"] := by
  have hvar : OfOperators (.var "x") := .var rfl
  have hdouble : OfOperators (.unary .negate (.unary .negate (.var "x"))) :=
    .unary .negate (.unary .negate hvar)
  exact ⟨hdouble, .unary .decrement hvar, by simp, by decide +kernel, hdouble.lex_text⟩

end Expr

end ShaderVariants
