import Mathlib
import ShaderVariants.Proofs.Glsl.Printing

/-!
# Assignments in printed expressions

In the language an assignment stands where a whole expression or an argument may, at the end of
a choice, or on the right of another assignment; what it assigns to is no looser than an operator
in front of an operand.  The text of an expression has it otherwise: there an assignment binds
more tightly than a choice, and groups to the left.  So a choice whose condition is an assignment
is read as an assignment of a choice, and an assignment to what another operator yields is
not read, or read as an assignment of an assignment.

That the grammar with assignments is unambiguous follows from the grammar without: an assignment
stands and groups as a choice does, so each is replaced by a choice whose first branch names the
operator.

## Main definitions

* `Parses` — the grammar with assignments; `ReadsAs` — a text is read as an expression.
* `Expr.asChoices`, `Token.asChoices` — choices in the place of assignments.
* `OfAssignments` — expressions made of names, choices, and operators between two operands.
* `KeepsPlaces` — no operand is given away by the text.

## Main results

* `Parses.unique` — the grammar is unambiguous.
* `OfAssignments.reads_iff_keepsPlaces` — **the text of an expression is read as the expression
  exactly if no choice has an assignment as its condition, and no assignment another operator
  than a comma on its left.**
-/

namespace ShaderVariants

namespace BinaryOp

variable {op : BinaryOp}

theorem precedence_of_isAssignment (h : op.isAssignment = true) : op.precedence = 11 := by
  revert h
  cases op <;> decide

theorem precedence_of_not_isAssignment (h : op.isAssignment = false) :
    op.precedence ≤ 10 ∨ op.precedence = 1000 := by
  revert h
  cases op <;> decide

theorem precedence_le_of_ne_comma (h : op ≠ .comma) : op.precedence ≤ 11 := by
  revert h
  cases op <;> decide

end BinaryOp

namespace Glsl

/-! ### Rules -/

/-- The tokens are an expression that stands at the level: 20 is that of a choice, 30 that of an
assignment. -/
inductive Parses : Int → List Token → Expr → Prop where
  | name (name : String) : Parses (-3) [.name name] (.var name)
  | number (value : ℕ) : Parses (-3) [.number value] (.int value)
  | group {ts : List Token} {e : Expr} : Parses 1000 ts e →
      Parses (-3) (.symbol "(" :: (ts ++ [.symbol ")"])) e
  | call {ts : List Token} {f : Expr} (arguments : List (List Token × Expr)) : Parses (-2) ts f →
      (∀ a ∈ arguments, Parses 30 a.1 a.2) →
      Parses (-2) (ts ++ .symbol "(" ::
          ([.symbol ","].intercalate (arguments.map (·.1)) ++ [.symbol ")"]))
        (.call f (arguments.map (·.2)))
  | index {ts us : List Token} {a e : Expr} : Parses (-2) ts a → Parses 1000 us e →
      Parses (-2) (ts ++ .symbol "[" :: (us ++ [.symbol "]"])) (.index a e)
  | member {ts : List Token} {e : Expr} (name : String) : Parses (-2) ts e →
      Parses (-2) (ts ++ [.symbol ".", .name name]) (.member e name)
  | postfixed {ts : List Token} {e : Expr} (op : PostfixOp) : Parses (-2) ts e →
      Parses (-2) (ts ++ [.symbol op.symbol]) (.postfixed op e)
  | unary {ts : List Token} {e : Expr} (op : UnaryOp) : Parses (-1) ts e →
      Parses (-1) (.symbol op.symbol :: ts) (.unary op e)
  | binary {p : Int} {ts us : List Token} {l r : Expr} (op : BinaryOp) :
      op.isAssignment = false → Parses op.precedence ts l → p < op.precedence →
      Parses p us r → Parses op.precedence (ts ++ .symbol op.symbol :: us) (.binary op l r)
  | conditional {p : Int} {ts us vs : List Token} {c a b : Expr} : p < 20 → Parses p ts c →
      Parses 1000 us a → Parses 30 vs b →
      Parses 20 (ts ++ .symbol "?" :: (us ++ .symbol ":" :: vs)) (.conditional c a b)
  /-- An assignment groups to the right. -/
  | assignment {ts us : List Token} {l r : Expr} (op : BinaryOp) : op.isAssignment = true →
      Parses (-1) ts l → Parses 30 us r →
      Parses 30 (ts ++ .symbol op.symbol :: us) (.binary op l r)
  /-- An expression may stand where a looser one could. -/
  | loosen {p q : Int} {ts : List Token} {e : Expr} : p ≤ q → Parses p ts e → Parses q ts e

/-- The text is read as the expression. -/
def ReadsAs (text : String) (e : Expr) : Prop :=
  ∃ ts, lex text.toList = some ts ∧ Parses 1000 ts e

/-! ### Choices in the place of assignments -/

/-- A name that is the spelling of no operator. -/
def plainName (name : String) : String := "x" ++ name

theorem plainName_injective : Function.Injective plainName := fun _ _ h =>
  String.append_right_inj _ |>.mp h

theorem BinaryOp.symbol_injective : Function.Injective BinaryOp.symbol := by
  intro op op' h
  have hfind : ∀ op : BinaryOp,
      (Named.all : List BinaryOp).find? (fun o => o.symbol = op.symbol) = some op := by
    intro op
    cases op <;> rfl
  exact Option.some.inj ((hfind op).symm.trans (h ▸ hfind op'))

theorem plainName_ne_symbol (name : String) (op : BinaryOp) : plainName name ≠ op.symbol := by
  intro h
  have hhead : some 'x' = op.symbol.toList.head? := by
    rw [← h, plainName, String.toList_append]
    rfl
  cases op <;> exact absurd hhead (by decide)

/-- An assignment operator becomes the middle of a choice that names the operator. -/
def Token.asChoices : Token → List Token
  | .name n => [.name (plainName n)]
  | .number n => [.number n]
  | .symbol s =>
    match (Named.all : List BinaryOp).find? fun op => op.isAssignment && op.symbol = s with
    | some op => [.symbol "?", .name op.symbol, .symbol ":"]
    | none => [.symbol s]

end Glsl

open Glsl

namespace Expr

mutual

/-- The expression with a choice in the place of every assignment. -/
def asChoices : Expr → Expr
  | .int value => .int value
  | .real bits => .real bits
  | .var name => .var (plainName name)
  | .call function arguments => .call function.asChoices (allAsChoices arguments)
  | .index array position => .index array.asChoices position.asChoices
  | .member parent name => .member parent.asChoices (plainName name)
  | .postfixed op operand => .postfixed op operand.asChoices
  | .unary op operand => .unary op operand.asChoices
  | .binary op left right =>
    if op.isAssignment then .conditional left.asChoices (.var op.symbol) right.asChoices
    else .binary op left.asChoices right.asChoices
  | .conditional condition consequent alternative =>
    .conditional condition.asChoices consequent.asChoices alternative.asChoices

/-- Several expressions with choices in the place of assignments. -/
def allAsChoices : List Expr → List Expr
  | [] => []
  | e :: es => e.asChoices :: allAsChoices es

end

theorem allAsChoices_eq_map (es : List Expr) : allAsChoices es = es.map asChoices := by
  induction es with
  | nil => rfl
  | cons e es ih => rw [allAsChoices, ih, List.map_cons]

/-- No expression turns into the name of an operator. -/
theorem asChoices_ne_symbol (e : Expr) (op : BinaryOp) : e.asChoices ≠ .var op.symbol := by
  cases e with
  | var name => simpa [asChoices] using plainName_ne_symbol name op
  | binary op' l r => cases hop : op'.isAssignment <;> simp [asChoices, hop]
  | _ => simp [asChoices]

end Expr

/-- Expressions whose leaves are names, by choices and operators between two operands. -/
inductive Expr.OfAssignments : Expr → Prop where
  | var {name : String} : isIdentifier name = true → OfAssignments (.var name)
  | binary {left right : Expr} (op : BinaryOp) : OfAssignments left → OfAssignments right →
      OfAssignments (.binary op left right)
  | conditional {condition consequent alternative : Expr} : OfAssignments condition →
      OfAssignments consequent → OfAssignments alternative →
      OfAssignments (.conditional condition consequent alternative)

namespace Expr

variable {e : Expr}

/-- No other expression turns into the same. -/
theorem OfAssignments.eq_of_asChoices (h : OfAssignments e) :
    ∀ e' : Expr, e'.asChoices = e.asChoices → e' = e := by
  induction h with
  | @var name _ =>
    intro e' heq
    cases e' with
    | var name' => simpa [asChoices, plainName_injective.eq_iff] using heq
    | binary op l r => cases hop : op.isAssignment <;> simp [asChoices, hop] at heq
    | _ => simp [asChoices] at heq
  | @binary l r op _ _ ihl ihr =>
    intro e' heq
    cases hop : op.isAssignment with
    | true =>
      rw [asChoices, if_pos hop] at heq
      cases e' with
      | binary op' l' r' =>
        cases hop' : op'.isAssignment with
        | true =>
          rw [asChoices, if_pos hop'] at heq
          injection heq with hl hsymbol hr
          have hsame : op' = op := BinaryOp.symbol_injective (Expr.var.inj hsymbol)
          rw [hsame, ihl l' hl, ihr r' hr]
        | false => simp [asChoices, hop'] at heq
      | conditional c a b =>
        injection heq with _ ha _
        exact absurd ha (asChoices_ne_symbol a op)
      | _ => simp [asChoices] at heq
    | false =>
      rw [asChoices, if_neg (Bool.eq_false_iff.mp hop)] at heq
      cases e' with
      | binary op' l' r' =>
        cases hop' : op'.isAssignment with
        | true => simp [asChoices, hop'] at heq
        | false =>
          rw [asChoices, if_neg (Bool.eq_false_iff.mp hop')] at heq
          injection heq with hsame hl hr
          rw [hsame, ihl l' hl, ihr r' hr]
      | _ => simp [asChoices] at heq
  | @conditional c a b _ _ _ ihc iha ihb =>
    intro e' heq
    cases e' with
    | conditional c' a' b' =>
      injection heq with hc ha hb
      rw [ihc c' hc, iha a' ha, ihb b' hb]
    | binary op l r =>
      cases hop : op.isAssignment with
      | true =>
        rw [asChoices, if_pos hop] at heq
        injection heq with _ ha _
        exact absurd ha.symm (asChoices_ne_symbol a op)
      | false => simp [asChoices, hop] at heq
    | _ => simp [asChoices] at heq

end Expr

namespace Glsl

/-! ### Uniqueness -/

/-- The level at which an expression stands without assignments: they are at that of choices. -/
def choiceLevel (p : Int) : Int := if 20 ≤ p ∧ p ≤ 30 then 20 else p

theorem choiceLevel_le (p : Int) : choiceLevel p ≤ p := by
  simp only [choiceLevel]
  split_ifs <;> omega

theorem choiceLevel_mono {p q : Int} (h : p ≤ q) : choiceLevel p ≤ choiceLevel q := by
  simp only [choiceLevel]
  split_ifs <;> omega

/-- No operator but an assignment stands at the level of a choice. -/
theorem choiceLevel_precedence (op : BinaryOp) : choiceLevel op.precedence = op.precedence := by
  have hcases := op.precedence_cases
  exact if_neg (by omega)

theorem asChoices_symbol (op : BinaryOp) :
    Token.asChoices (.symbol op.symbol) =
      if op.isAssignment then [.symbol "?", .name op.symbol, .symbol ":"]
      else [.symbol op.symbol] := by
  cases op <;> rfl

theorem flatMap_intercalate_comma (tss : List (List Token)) :
    ([.symbol ","].intercalate tss).flatMap Token.asChoices =
      [.symbol ","].intercalate (tss.map (·.flatMap Token.asChoices)) := by
  induction tss with
  | nil => rfl
  | cons ts tss ih =>
    cases tss with
    | nil => simp
    | cons us tss =>
      rw [List.intercalate_cons_cons, List.map_cons, List.map_cons, List.intercalate_cons_cons,
        List.flatMap_append, List.flatMap_append, ih, List.map_cons]
      rfl

/-- With choices in the place of assignments, the grammar without assignments derives what the
grammar with assignments does. -/
theorem Parses.derives {m : Int} {ts : List Token} {e : Expr} (h : Parses m ts e) :
    Derives (choiceLevel m) (ts.flatMap Token.asChoices) e.asChoices := by
  induction h with
  | name n => exact .name _
  | number value => exact .number _
  | group _ ih =>
    rw [List.flatMap_cons, List.flatMap_append]
    exact .group ih
  | @call ts f arguments _ _ ih ihs =>
    have hcall := Derives.call (arguments.map fun a => (a.1.flatMap Token.asChoices, a.2.asChoices))
      ih <| by
        intro b hb
        obtain ⟨a, ha, rfl⟩ := List.mem_map.mp hb
        exact ihs a ha
    rw [List.map_map, List.map_map] at hcall
    rw [List.flatMap_append, List.flatMap_cons, List.flatMap_append, flatMap_intercalate_comma,
      List.map_map, Expr.asChoices, Expr.allAsChoices_eq_map, List.map_map]
    exact hcall
  | @index ts us a e _ _ ih ih' =>
    rw [List.flatMap_append, List.flatMap_cons, List.flatMap_append]
    exact .index ih ih'
  | member n _ ih =>
    rw [List.flatMap_append]
    exact .member _ ih
  | postfixed op _ ih =>
    have hop : Token.asChoices (.symbol op.symbol) = [.symbol op.symbol] := by cases op <;> rfl
    rw [List.flatMap_append, List.flatMap_singleton, hop]
    exact .postfixed op ih
  | unary op _ ih =>
    have hop : Token.asChoices (.symbol op.symbol) = [.symbol op.symbol] := by cases op <;> rfl
    rw [List.flatMap_cons, hop]
    exact .unary op ih
  | @binary p ts us l r op hop _ hp _ ihl ihr =>
    have hop' := Bool.eq_false_iff.mp hop
    rw [choiceLevel_precedence] at ihl ⊢
    rw [List.flatMap_append, List.flatMap_cons, asChoices_symbol, if_neg hop', Expr.asChoices,
      if_neg hop']
    exact .binary op hop ihl ((choiceLevel_le p).trans_lt hp) ihr
  | @conditional p ts us vs c a b hp _ _ _ ihc iha ihb =>
    rw [List.flatMap_append, List.flatMap_cons, List.flatMap_append, List.flatMap_cons]
    exact .conditional ((choiceLevel_le p).trans_lt hp) ihc iha ihb
  | @assignment ts us l r op hop _ _ ihl ihr =>
    rw [List.flatMap_append, List.flatMap_cons, asChoices_symbol, if_pos hop, Expr.asChoices,
      if_pos hop]
    exact .conditional (by decide) ihl ((Derives.name op.symbol).loosen (by decide)) ihr
  | loosen hle _ ih => exact ih.loosen (choiceLevel_mono hle)

/-- Tokens that are an expression without calls and the like are no other expression. -/
theorem Parses.unique {p q : Int} {ts : List Token} {e e' : Expr} (h : Parses p ts e)
    (he : e.OfAssignments) (h' : Parses q ts e') : e' = e :=
  he.eq_of_asChoices e' (h'.derives.unique h.derives)

/-! ### Operators and parentheses by number -/

/-- Whether a token is an operator or part of one, and no parenthesis. -/
def Token.isOperator : Token → Bool
  | .symbol s => s ≠ "(" && s ≠ ")"
  | _ => false

/-- The tokens inside of a number of parentheses. -/
def wrapped (k : ℕ) (ts : List Token) : List Token :=
  List.replicate k (.symbol "(") ++ ts ++ List.replicate k (.symbol ")")

/-- As many parentheses open as close. -/
def Balanced (ts : List Token) : Prop := ts.count (.symbol "(") = ts.count (.symbol ")")

theorem wrapped_succ (k : ℕ) (ts : List Token) :
    wrapped (k + 1) ts = .symbol "(" :: (wrapped k ts ++ [.symbol ")"]) := by
  rw [wrapped, wrapped, List.replicate_succ, List.replicate_succ' (a := Token.symbol ")")]
  simp

theorem encloseTokens_eq_wrapped (needed : Bool) (ts : List Token) :
    encloseTokens needed ts = wrapped needed.toNat ts := by
  cases needed <;> simp [encloseTokens, wrapped]

theorem isOperator_symbol (op : BinaryOp) : Token.isOperator (.symbol op.symbol) = true := by
  cases op <;> rfl

theorem Balanced.append {ts us : List Token} (h : Balanced ts) (h' : Balanced us) :
    Balanced (ts ++ us) := by
  rw [Balanced, List.count_append, List.count_append, h, h']

theorem Balanced.cons {t : Token} {ts : List Token} (ht : t.isOperator = true)
    (h : Balanced ts) : Balanced (t :: ts) := by
  have hopen : t ≠ .symbol "(" := by rintro rfl; cases ht
  have hclose : t ≠ .symbol ")" := by rintro rfl; cases ht
  rw [Balanced, List.count_cons_of_ne hopen, List.count_cons_of_ne hclose, h]

theorem count_wrapped (k : ℕ) (ts : List Token) :
    (wrapped k ts).count (.symbol "(") = k + ts.count (.symbol "(") ∧
      (wrapped k ts).count (.symbol ")") = k + ts.count (.symbol ")") := by
  simp [wrapped, List.count_replicate, Nat.add_comm]

theorem countP_wrapped (k : ℕ) (ts : List Token) :
    (wrapped k ts).countP Token.isOperator = ts.countP Token.isOperator := by
  simp [wrapped, List.countP_replicate, Token.isOperator]

theorem balanced_wrapped {k : ℕ} {ts : List Token} : Balanced (wrapped k ts) ↔ Balanced ts := by
  rw [Balanced, Balanced, (count_wrapped k ts).1, (count_wrapped k ts).2, Nat.add_left_cancel_iff]

theorem countP_enclose (needed : Bool) (ts : List Token) :
    (encloseTokens needed ts).countP Token.isOperator = ts.countP Token.isOperator := by
  rw [encloseTokens_eq_wrapped, countP_wrapped]

theorem Balanced.enclose {ts : List Token} (h : Balanced ts) (needed : Bool) :
    Balanced (encloseTokens needed ts) := by
  rw [encloseTokens_eq_wrapped, balanced_wrapped]
  exact h

/-- An operator is found by the number of operators in front of it. -/
theorem append_cons_inj_of_countP {α : Type*} {p : α → Bool} {x x' : α} (hx : p x = true)
    (hx' : p x' = true) : ∀ {us us' vs vs' : List α}, us ++ x :: vs = us' ++ x' :: vs' →
      us.countP p = us'.countP p → us = us' ∧ x = x' ∧ vs = vs' := by
  intro us
  induction us with
  | nil =>
    intro us' vs vs' heq hcount
    cases us' with
    | nil => simpa using heq
    | cons y us' =>
      obtain ⟨rfl, -⟩ := List.cons.inj heq
      rw [List.countP_cons_of_pos hx, List.countP_nil] at hcount
      omega
  | cons y us ih =>
    intro us' vs vs' heq hcount
    cases us' with
    | nil =>
      obtain ⟨rfl, -⟩ := List.cons.inj heq
      rw [List.countP_cons_of_pos hx', List.countP_nil] at hcount
      omega
    | cons y' us' =>
      obtain ⟨rfl, htail⟩ := List.cons.inj heq
      rw [List.countP_cons, List.countP_cons, Nat.add_right_cancel_iff] at hcount
      obtain ⟨rfl, hsame⟩ := ih htail hcount
      exact ⟨rfl, hsame⟩

/-- Inside of parentheses around the whole, an operator is found by the number of operators in
front of it. -/
theorem wrapped_append_cons_inj {j k : ℕ} {t t' : Token} {us us' vs vs' : List Token}
    (ht : t.isOperator = true) (ht' : t'.isOperator = true) (h : Balanced us) (h' : Balanced us')
    (hcount : us.countP Token.isOperator = us'.countP Token.isOperator)
    (heq : wrapped j (us ++ t :: vs) = wrapped k (us' ++ t' :: vs')) :
    j = k ∧ us = us' ∧ vs = vs' := by
  have hsplit : ∀ (i : ℕ) (t : Token) (us vs : List Token), wrapped i (us ++ t :: vs) =
      (List.replicate i (.symbol "(") ++ us) ++ t :: (vs ++ List.replicate i (.symbol ")")) := by
    intro i t us vs
    simp [wrapped]
  have hcount' : ∀ (i : ℕ) (us : List Token),
      (List.replicate i (Token.symbol "(") ++ us).countP Token.isOperator =
        us.countP Token.isOperator := by
    intro i us
    simp [List.countP_replicate, Token.isOperator]
  rw [hsplit, hsplit] at heq
  obtain ⟨hfront, -, hback⟩ :=
    append_cons_inj_of_countP ht ht' heq (by rw [hcount', hcount', hcount])
  have hopen : j + us.count (.symbol "(") = k + us'.count (.symbol "(") := by
    simpa [List.count_replicate] using congrArg (List.count (.symbol "(")) hfront
  have hclose : us.count (.symbol ")") = us'.count (.symbol ")") := by
    simpa [List.count_replicate] using congrArg (List.count (.symbol ")")) hfront
  have hjk : j = k := by
    rw [Balanced] at h h'
    omega
  subst hjk
  exact ⟨rfl, List.append_cancel_left hfront, List.append_cancel_right hback⟩

end Glsl

namespace Expr

open Glsl

variable {e : Expr} {m : Int} {ts : List Token}

/-- How loosely an expression binds in the language. -/
def level : Expr → Int
  | .binary op _ _ => if op.isAssignment then 30 else op.precedence
  | e => e.precedence

theorem level_binary_nonneg (op : BinaryOp) (l r : Expr) : 0 ≤ (Expr.binary op l r).level := by
  have hcases := op.precedence_cases
  rw [level]
  split_ifs <;> omega

theorem OfAssignments.balanced_tokens (h : OfAssignments e) : Balanced e.tokens := by
  induction h with
  | var => rfl
  | binary op _ _ ihl ihr =>
    exact (ihl.enclose _).append ((ihr.enclose _).cons (isOperator_symbol op))
  | conditional _ _ _ ihc iha ihb =>
    exact (ihc.enclose _).append (((iha.enclose _).append ((ihb.enclose _).cons rfl)).cons rfl)

/-- All derivations have the operators of the tree and as many parentheses open as close. -/
theorem OfAssignments.countP_eq (he : OfAssignments e) (h : Parses m ts e) :
    ts.countP Token.isOperator = e.tokens.countP Token.isOperator ∧ Balanced ts := by
  induction h with
  | name n => exact ⟨rfl, rfl⟩
  | @group ts e _ ih =>
    obtain ⟨hcount, hbalanced⟩ := ih he
    have hone : Token.symbol "(" :: (ts ++ [.symbol ")"]) = wrapped 1 ts := rfl
    rw [hone, countP_wrapped, balanced_wrapped]
    exact ⟨hcount, hbalanced⟩
  | @binary p ts us l r op hop _ hp _ ihl ihr | @assignment ts us l r op hop _ _ ihl ihr =>
    cases he with
    | binary _ hl hr =>
      obtain ⟨hcount, hbalanced⟩ := ihl hl
      obtain ⟨hcount', hbalanced'⟩ := ihr hr
      refine ⟨?_, hbalanced.append (hbalanced'.cons (isOperator_symbol op))⟩
      rw [tokens, List.countP_append, List.countP_append, List.countP_cons, List.countP_cons,
        countP_enclose, countP_enclose, hcount, hcount']
  | @conditional p ts us vs c a b hp _ _ _ ihc iha ihb =>
    cases he with
    | conditional hc ha hb =>
      obtain ⟨hcount, hbalanced⟩ := ihc hc
      obtain ⟨hcount', hbalanced'⟩ := iha ha
      obtain ⟨hcount'', hbalanced''⟩ := ihb hb
      refine ⟨?_, hbalanced.append ((hbalanced'.append (hbalanced''.cons rfl)).cons rfl)⟩
      simp only [tokens, List.countP_append, List.countP_cons, countP_enclose, hcount, hcount',
        hcount'']
  | loosen hle _ ih => exact ih he
  | _ => cases he

/-! ### Operands that are given away -/

/-- An operand without parentheses that binds too loosely for its place: an operator on the left
of an assignment, or an assignment as the condition of a choice. -/
def givesAway : Expr → Bool
  | .binary op (.binary op' _ _) _ => op.isAssignment && op' != .comma
  | .conditional (.binary op _ _) _ _ => op.isAssignment
  | _ => false

/-- No operand is given away. -/
def KeepsPlaces (e : Expr) : Prop := ∀ n ∈ e.nodes, n.givesAway = false

theorem keepsPlaces_var (name : String) : KeepsPlaces (.var name) := by
  simp [KeepsPlaces, nodes, givesAway]

theorem keepsPlaces_binary {op : BinaryOp} {l r : Expr} :
    KeepsPlaces (.binary op l r) ↔
      givesAway (.binary op l r) = false ∧ l.KeepsPlaces ∧ r.KeepsPlaces := by
  simp [KeepsPlaces, nodes, or_imp, forall_and]

theorem keepsPlaces_conditional {c a b : Expr} :
    KeepsPlaces (.conditional c a b) ↔
      givesAway (.conditional c a b) = false ∧ c.KeepsPlaces ∧ a.KeepsPlaces ∧ b.KeepsPlaces := by
  simp [KeepsPlaces, nodes, or_imp, forall_and]

end Expr

namespace Glsl

variable {m : Int} {ts : List Token}

/-- What is derived as an operation is one, possibly in parentheses. -/
theorem Parses.binary_cases {op : BinaryOp} {l r : Expr} (h : Parses m ts (.binary op l r)) :
    ∃ k us vs p q, ts = wrapped k (us ++ .symbol op.symbol :: vs) ∧ Parses p us l ∧ Parses q vs r ∧
      (op.isAssignment = true → p = -1) ∧ (k = 0 → (Expr.binary op l r).level ≤ m) := by
  generalize he : Expr.binary op l r = e at h ⊢
  induction h with
  | @group ts e _ ih =>
    obtain ⟨k, us, vs, p, q, rfl, hl, hr, hp, -⟩ := ih he
    exact ⟨k + 1, us, vs, p, q, (wrapped_succ k _).symm, hl, hr, hp, fun hk => by omega⟩
  | @binary p ts us l r op hop hl hp hr =>
    cases he
    refine ⟨0, ts, us, _, p, by simp [wrapped], hl, hr, fun h => by simp [hop] at h, fun _ => ?_⟩
    rw [Expr.level, if_neg (Bool.eq_false_iff.mp hop)]
  | @assignment ts us l r op hop hl hr =>
    cases he
    refine ⟨0, ts, us, _, _, by simp [wrapped], hl, hr, fun _ => rfl, fun _ => ?_⟩
    rw [Expr.level, if_pos hop]
  | loosen hle _ ih =>
    obtain ⟨k, us, vs, p, q, hts, hl, hr, hp, hlevel⟩ := ih he
    exact ⟨k, us, vs, p, q, hts, hl, hr, hp, fun hk => (hlevel hk).trans hle⟩
  | _ => cases he

/-- What is derived as a choice is one, possibly in parentheses. -/
theorem Parses.conditional_cases {c a b : Expr} (h : Parses m ts (.conditional c a b)) :
    ∃ k us vs ws p q q', ts = wrapped k (us ++ .symbol "?" :: (vs ++ .symbol ":" :: ws)) ∧
      Parses p us c ∧ Parses q vs a ∧ Parses q' ws b ∧ p < 20 ∧ (k = 0 → 20 ≤ m) := by
  generalize he : Expr.conditional c a b = e at h
  induction h with
  | @group ts e _ ih =>
    obtain ⟨k, us, vs, ws, p, q, q', rfl, hc, ha, hb, hp, -⟩ := ih he
    exact ⟨k + 1, us, vs, ws, p, q, q', (wrapped_succ k _).symm, hc, ha, hb, hp,
      fun hk => by omega⟩
  | @conditional p ts us vs c a b hp hc ha hb =>
    cases he
    exact ⟨0, ts, us, vs, p, _, _, by simp [wrapped], hc, ha, hb, hp, fun _ => le_rfl⟩
  | loosen hle _ ih =>
    obtain ⟨k, us, vs, ws, p, q, q', hts, hc, ha, hb, hp, hm⟩ := ih he
    exact ⟨k, us, vs, ws, p, q, q', hts, hc, ha, hb, hp, fun hk => (hm hk).trans hle⟩
  | _ => cases he

/-- What is derived as a name is the name, possibly in parentheses. -/
theorem Parses.level_of_name {name : String} (h : Parses m ts (.var name)) : -3 ≤ m := by
  generalize he : Expr.var name = e at h
  induction h with
  | name | group => exact le_rfl
  | loosen hle _ ih => exact (ih he).trans hle
  | _ => cases he

end Glsl

namespace Expr

variable {e : Expr} {m : Int}

/-- If the tokens of an expression are derived as the expression, in whatever parentheses, no
operand of it was given away. -/
theorem OfAssignments.keepsPlaces_of_parses (h : OfAssignments e) :
    ∀ k m, Parses m (wrapped k e.tokens) e → e.KeepsPlaces ∧ (k = 0 → e.level ≤ m) := by
  induction h with
  | var => exact fun k m h => ⟨keepsPlaces_var _, fun _ => h.level_of_name⟩
  | @binary l r op hl hr ihl ihr =>
    intro j m h
    obtain ⟨k, us, vs, p, q, hts, hpl, hpr, hp, hlevel⟩ := h.binary_cases
    -- the operator of the tree is where the derivation has it
    obtain ⟨hcount, hbalanced⟩ := hl.countP_eq hpl
    obtain ⟨rfl, hus, hvs⟩ := wrapped_append_cons_inj (isOperator_symbol op) (isOperator_symbol op)
      (hl.balanced_tokens.enclose _) hbalanced (by rw [countP_enclose, hcount]) hts
    rw [← hus, encloseTokens_eq_wrapped] at hpl
    rw [← hvs, encloseTokens_eq_wrapped] at hpr
    obtain ⟨hkeeps, hleft⟩ := ihl _ _ hpl
    refine ⟨keepsPlaces_binary.mpr ⟨?_, hkeeps, (ihr _ _ hpr).1⟩, hlevel⟩
    cases l with
    | binary op' a b =>
      by_contra hgives
      simp only [givesAway, Bool.not_eq_false, Bool.and_eq_true, bne_iff_ne, ne_eq] at hgives
      have hneeded : (Expr.binary op' a b).needsParens op.precedence .loose = false :=
        needsParens_loose.mpr <| by
          rw [BinaryOp.precedence_of_isAssignment hgives.1]
          exact BinaryOp.precedence_le_of_ne_comma hgives.2
      have hlevel := hleft (by rw [hneeded]; rfl)
      have hnonneg := level_binary_nonneg op' a b
      have hunary := hp hgives.1
      omega
    | _ => rfl
  | @conditional c a b hc ha hb ihc iha ihb =>
    intro j m h
    obtain ⟨k, us, vs, ws, p, q, q', hts, hpc, hpa, hpb, hp, hlevel⟩ := h.conditional_cases
    obtain ⟨hcount, hbalanced⟩ := hc.countP_eq hpc
    obtain ⟨rfl, hus, hrest⟩ := wrapped_append_cons_inj rfl rfl
      (hc.balanced_tokens.enclose _) hbalanced (by rw [countP_enclose, hcount]) hts
    obtain ⟨hvs, -, hws⟩ := append_cons_inj_of_countP (p := Token.isOperator) rfl rfl hrest
      (by rw [countP_enclose, (ha.countP_eq hpa).1])
    rw [← hus, encloseTokens_eq_wrapped] at hpc
    rw [← hvs, encloseTokens_eq_wrapped] at hpa
    rw [← hws, encloseTokens_eq_wrapped] at hpb
    obtain ⟨hkeeps, hcondition⟩ := ihc _ _ hpc
    refine ⟨keepsPlaces_conditional.mpr ⟨?_, hkeeps, (iha _ _ hpa).1, (ihb _ _ hpb).1⟩, hlevel⟩
    cases c with
    | binary op a b =>
      by_contra hgives
      rw [givesAway, Bool.not_eq_false] at hgives
      have hneeded : (Expr.binary op a b).needsParens 20 .tight = false :=
        needsParens_tight.mpr <| by
          rw [precedence, BinaryOp.precedence_of_isAssignment hgives]
          decide
      have hlevel := hcondition (by rw [hneeded]; rfl)
      rw [level, if_pos hgives] at hlevel
      omega
    | _ => rfl

/-! ### Operands that keep their places -/

theorem level_le (e : Expr) : e.level ≤ 1000 := by
  cases e with
  | binary op l r =>
    have hcases := op.precedence_cases
    rw [level]
    split_ifs <;> omega
  | _ => simp [level, precedence]

/-- But for assignments, the text and the language agree on how loosely an expression binds. -/
theorem level_le_of_precedence_le {q : Int} (h : e.precedence ≤ q) (hq : q ≤ 10 ∨ 30 ≤ q) :
    e.level ≤ q := by
  cases e with
  | binary op l r =>
    rw [level]
    split_ifs with hop
    · rw [precedence, BinaryOp.precedence_of_isAssignment hop] at h
      omega
    · exact h
  | _ => exact h

/-- An operand may stand wherever it binds tightly enough if it has no parentheses. -/
theorem parses_operand {ts : List Token} {q p : Int} {side : Grouping}
    (h : Parses e.level ts e) (hp : -3 ≤ p)
    (hfits : e.needsParens q side = false → e.level ≤ p) :
    Parses p (encloseTokens (e.needsParens q side) ts) e := by
  cases hneeded : e.needsParens q side with
  | false => exact h.loosen (hfits hneeded)
  | true => exact (h.loosen e.level_le).group.loosen hp

/-- What no operand of an assignment gives away binds as tightly as it has to. -/
theorem level_le_of_givesAway {op : BinaryOp} {l r : Expr} (hl : OfAssignments l)
    (hop : op.isAssignment = true) (hgives : givesAway (.binary op l r) = false)
    (hneeded : l.needsParens op.precedence .loose = false) : l.level ≤ -1 := by
  have hle : l.precedence ≤ 11 :=
    BinaryOp.precedence_of_isAssignment hop ▸ needsParens_loose.mp hneeded
  cases hl with
  | var => exact (by decide : (-3 : Int) ≤ -1)
  | binary op' =>
    simp only [givesAway, hop, Bool.true_and, bne_eq_false_iff_eq] at hgives
    subst hgives
    exact absurd hle (by decide : ¬ (1000 : Int) ≤ 11)
  | conditional => exact absurd hle (by decide : ¬ (20 : Int) ≤ 11)

/-- **The tokens of an expression that gives no operand away are the expression.** -/
theorem OfAssignments.parses (h : OfAssignments e) (hkeeps : e.KeepsPlaces) :
    Parses e.level e.tokens e := by
  induction h with
  | var => exact .name _
  | @binary l r op hl hr ihl ihr =>
    obtain ⟨hgives, hkl, hkr⟩ := keepsPlaces_binary.mp hkeeps
    have hcases := op.precedence_cases
    cases hop : op.isAssignment with
    | true =>
      have hprecedence := BinaryOp.precedence_of_isAssignment hop
      rw [level, if_pos hop]
      refine .assignment op hop
        (parses_operand (ihl hkl) (by decide) (level_le_of_givesAway hl hop hgives))
        (parses_operand (ihr hkr) (by decide) fun hneeded => ?_)
      have htight := needsParens_tight.mp hneeded
      exact level_le_of_precedence_le (by omega) (.inr le_rfl)
    | false =>
      have hne : op.precedence ≤ 10 ∨ op.precedence = 1000 :=
        BinaryOp.precedence_of_not_isAssignment hop
      rw [level, if_neg (Bool.eq_false_iff.mp hop)]
      refine .binary op hop
        (parses_operand (ihl hkl) (by omega) fun hneeded =>
          level_le_of_precedence_le (needsParens_loose.mp hneeded) (by omega))
        (show op.precedence - 1 < _ by omega)
        (parses_operand (ihr hkr) (by omega) fun hneeded => ?_)
      have htight := needsParens_tight.mp hneeded
      exact level_le_of_precedence_le (by omega) (by omega)
  | @conditional c a b hc _ _ ihc iha ihb =>
    obtain ⟨hgives, hkc, hka, hkb⟩ := keepsPlaces_conditional.mp hkeeps
    refine .conditional (show (19 : Int) < 20 by decide)
      (parses_operand (ihc hkc) (by decide) fun hneeded => ?_)
      (parses_operand (iha hka) (by decide) fun _ => level_le a)
      (parses_operand (ihb hkb) (by decide) fun hneeded => ?_)
    · have htight := needsParens_tight.mp hneeded
      cases c with
      | binary op =>
        have hop : ¬ op.isAssignment = true := Bool.eq_false_iff.mp hgives
        rw [level, if_neg hop]
        exact Int.le_sub_one_of_lt htight
      | _ => exact Int.le_sub_one_of_lt htight
    · have hloose := needsParens_loose.mp hneeded
      exact level_le_of_precedence_le (by omega) (.inr le_rfl)

/-! ### The text -/

theorem OfAssignments.spells (h : OfAssignments e) : Spells e.text e.tokens := by
  induction h with
  | var hname => exact spells_name hname
  | binary op _ _ ihl ihr =>
    rw [text, tokens]
    exact (ihl.enclose _).join (separates_binary op) (ihr.enclose _)
  | @conditional c a b _ _ _ ihc iha ihb =>
    have hjoin := ((ihc.enclose (c.needsParens 20 .tight)).join separates_branches.1
      (iha.enclose (a.needsParens 20 .loose))).join separates_branches.2
      (ihb.enclose (b.needsParens 20 .loose))
    simpa only [text, tokens, List.append_assoc, List.cons_append] using hjoin

theorem OfAssignments.readsAs_text_iff (h : OfAssignments e) :
    ReadsAs e.text e ↔ e.KeepsPlaces := by
  constructor
  · rintro ⟨ts, hlex, hparses⟩
    cases h.spells.lex_eq.symm.trans hlex
    exact (h.keepsPlaces_of_parses 0 1000 (by simpa [wrapped] using hparses)).1
  · exact fun hkeeps => ⟨_, h.spells.lex_eq, (h.parses hkeeps).loosen e.level_le⟩

/-- **The text of an expression is read as the expression exactly if no operand is given away**:
no choice has an assignment as its condition, and no assignment another operator than a comma on
its left.  Then it is read as nothing else. -/
theorem OfAssignments.reads_iff_keepsPlaces (h : OfAssignments e) :
    (ReadsAs e.text e ↔ e.KeepsPlaces) ∧
      (e.KeepsPlaces → ∀ e', ReadsAs e.text e' ↔ e' = e) := by
  refine ⟨h.readsAs_text_iff, fun hkeeps e' => ⟨?_, fun heq => heq ▸ h.readsAs_text_iff.mpr hkeeps⟩⟩
  rintro ⟨ts, hlex, hparses⟩
  cases h.spells.lex_eq.symm.trans hlex
  exact (h.parses hkeeps).unique h hparses

/-- A choice with assignments in an operand of its condition and in both branches. -/
def steering : Expr :=
  .conditional (.binary .and (.var "a") (.binary .assign (.var "b") (.var "c")))
    (.binary .addAssign (.var "d") (.binary .mulAssign (.var "e") (.var "f")))
    (.binary .assign (.var "g") (.conditional (.var "h") (.var "i") (.var "j")))

theorem steering_reads :
    steering.text = "a && (b = c) ? d += (e *= f) : g = (h ? i : j)" ∧ steering.OfAssignments ∧
      steering.KeepsPlaces ∧ (ReadsAs steering.text steering ↔ steering.KeepsPlaces) ∧
      ∀ e', ReadsAs steering.text e' ↔ e' = steering := by
  have hsteering : steering.OfAssignments :=
    .conditional (.binary .and (.var rfl) (.binary .assign (.var rfl) (.var rfl)))
      (.binary .addAssign (.var rfl) (.binary .mulAssign (.var rfl) (.var rfl)))
      (.binary .assign (.var rfl) (.conditional (.var rfl) (.var rfl) (.var rfl)))
  have hkeeps : steering.KeepsPlaces := by
    unfold KeepsPlaces
    decide
  obtain ⟨hreads, hunique⟩ := hsteering.reads_iff_keepsPlaces
  exact ⟨by decide +kernel, hsteering, hkeeps, hreads, hunique hkeeps⟩

/-- A choice by the value of an assignment. -/
def assignedCondition : Expr :=
  .conditional (.binary .assign (.var "a") (.var "b")) (.var "c") (.var "d")

/-- Its text assigns a choice. -/
theorem assignedCondition_misread :
    assignedCondition.OfAssignments ∧ assignedCondition.text = "a = b ? c : d" ∧
      ¬ ReadsAs assignedCondition.text assignedCondition ∧
      ReadsAs assignedCondition.text
        (.binary .assign (.var "a") (.conditional (.var "b") (.var "c") (.var "d"))) := by
  have hassigned : assignedCondition.OfAssignments :=
    .conditional (.binary .assign (.var rfl) (.var rfl)) (.var rfl) (.var rfl)
  have hgives : ¬ assignedCondition.KeepsPlaces := by
    unfold KeepsPlaces
    decide
  have hname : ∀ {p : Int} (name : String), -3 ≤ p → Parses p [.name name] (.var name) :=
    fun name hp => (Parses.name name).loosen hp
  have hchoice := Parses.conditional (p := 19) (by decide) (hname "b" (by decide))
    (hname "c" (by decide)) (hname "d" (by decide))
  have hassign := Parses.assignment .assign rfl (hname "a" (by decide))
    (hchoice.loosen (by decide))
  exact ⟨hassigned, by decide +kernel, hgives ∘ hassigned.readsAs_text_iff.mp, _,
    hassigned.spells.lex_eq, hassign.loosen (by decide)⟩

end Expr

end ShaderVariants
