import Mathlib
import ShaderVariants.Glsl.Stage
import ShaderVariants.Proofs.Glsl.Line
import ShaderVariants.Proofs.Syntax.Occurrence

/-!
# Variables in generated code

Generated code is a text, in which a variable cannot be told from the name of a type or of a
member.  Here the code is a sequence of pieces, so that the variables stand apart from what is
between them.  Joined, the pieces are the text; and a variable among them occurs in the source.

## Main definitions

* `CodePiece` — a bare variable, or something else.
* `Expr.pieces`, `Statement.pieces`, `Function.pieces` — the pieces of code.
* `StageInput.codePieces` — those of the functions and the entry function of a stage.

## Main results

* `Expr.names_pieces` — an expression is written with its variables, in their order.
* `Statement.joined_pieces`, `Function.joined_pieces`, `StageInput.joined_codePieces` — the pieces
  are the text.
* `Statement.holds_of_mem_pieces`, `StageInput.occurs_of_mem_codePieces` — **only variables of the
  source are written.**
-/

namespace ShaderVariants

open Glsl

/-! ### Pieces -/

/-- A piece of generated code. -/
inductive CodePiece where
  /-- A bare variable in an expression. -/
  | bare (name : String)
  | other (text : String)
  deriving DecidableEq, Repr

namespace CodePiece

/-- The text of a piece. -/
def text : CodePiece → String
  | .bare name => name
  | .other text => text

/-- The name of a variable. -/
def name? : CodePiece → Option String
  | .bare name => some name
  | .other _ => none

/-- The pieces, one after the other. -/
def joined (pieces : List CodePiece) : String := String.join (pieces.map text)

/-- The variables among the pieces. -/
def names (pieces : List CodePiece) : List String := pieces.filterMap name?

/-- Pieces in parentheses or not. -/
def enclosed (needed : Bool) (pieces : List CodePiece) : List CodePiece :=
  if needed then .other "(" :: (pieces ++ [.other ")"]) else pieces

/-- Pieces with commas between them. -/
def listed (groups : List (List CodePiece)) : List CodePiece := [.other ", "].intercalate groups

/-- Lines with a line break at their end, if there are any. -/
def ended : Option (List CodePiece) → List CodePiece
  | some pieces => pieces ++ [.other "\n"]
  | none => []

variable {pieces later : List CodePiece} {groups : List (List CodePiece)} {needed : Bool}

@[simp] theorem joined_nil : joined [] = "" := rfl

@[simp] theorem joined_bare {name : String} :
    joined (.bare name :: pieces) = name ++ joined pieces := String.join_cons

@[simp] theorem joined_other {text : String} :
    joined (.other text :: pieces) = text ++ joined pieces := String.join_cons

@[simp] theorem joined_append : joined (pieces ++ later) = joined pieces ++ joined later := by
  rw [joined, List.map_append, String.join_append, joined, joined]

@[simp] theorem joined_enclosed :
    joined (enclosed needed pieces) = enclose needed (joined pieces) := by
  cases needed <;> simp [enclosed, enclose, String.append_assoc]

@[simp] theorem joined_listed : joined (listed groups) = ", ".intercalate (groups.map joined) := by
  unfold listed
  induction groups with
  | nil => rfl
  | cons group rest ih =>
    cases rest with
    | nil => simp
    | cons next rest =>
      rw [List.intercalate_cons_cons, joined_append, joined_append, ih]
      simp

theorem joined_flatMap {α : Type} (f : α → List CodePiece) (as : List α) :
    joined (as.flatMap f) = String.join (as.map fun a => joined (f a)) := by
  induction as with
  | nil => rfl
  | cons a rest ih => rw [List.flatMap_cons, joined_append, ih, List.map_cons, String.join_cons]

@[simp] theorem names_nil : names [] = [] := rfl

@[simp] theorem names_other {text : String} : names (.other text :: pieces) = names pieces := rfl

@[simp] theorem names_append : names (pieces ++ later) = names pieces ++ names later :=
  List.filterMap_append

theorem names_flatMap {α : Type} (f : α → List CodePiece) (as : List α) :
    names (as.flatMap f) = as.flatMap fun a => names (f a) :=
  List.filterMap_flatMap

@[simp] theorem names_enclosed : names (enclosed needed pieces) = names pieces := by
  cases needed <;> simp [enclosed]

@[simp] theorem names_listed : names (listed groups) = groups.flatMap names := by
  unfold listed
  induction groups with
  | nil => rfl
  | cons group rest ih =>
    cases rest with
    | nil => simp
    | cons next rest =>
      rw [List.intercalate_cons_cons, names_append, names_append, ih]
      simp

@[simp] theorem joined_ended_some : joined (ended (some pieces)) = joined pieces ++ "\n" := by
  simp [ended]

@[simp] theorem names_ended {lines : Option (List CodePiece)} :
    names (ended lines) = names (lines.getD []) := by
  cases lines <;> simp [ended]

end CodePiece

open CodePiece

/-! ### Expressions -/

namespace Expr

mutual

/-- The pieces of an expression. -/
def pieces : Expr → List CodePiece
  | .int value => [.other (toString value)]
  | .real bits => [.other (Glsl.realLiteral bits)]
  | .var name => [.bare name]
  | .call function arguments =>
    enclosed (function.needsParens (-2) .loose) function.pieces ++ [.other "("] ++
      listed (argumentPieces arguments) ++ [.other ")"]
  | .index array position =>
    enclosed (array.needsParens (-2) .loose) array.pieces ++ [.other "["] ++ position.pieces ++
      [.other "]"]
  | .member parent name =>
    enclosed (parent.needsParens (-2) .loose) parent.pieces ++ [.other ("." ++ name)]
  | .postfixed op operand =>
    enclosed (operand.needsParens (-2) .loose) operand.pieces ++ [.other op.symbol]
  | .unary op operand =>
    .other op.symbol :: enclosed (operand.needsParens (-1) .loose) operand.pieces
  | .binary op left right =>
    enclosed (left.needsParens op.precedence .loose) left.pieces ++
      [.other (if op = .comma then ", " else " " ++ op.symbol ++ " ")] ++
      enclosed (right.needsParens op.precedence .tight) right.pieces
  | .conditional condition consequent alternative =>
    enclosed (condition.needsParens 20 .tight) condition.pieces ++ [.other " ? "] ++
      enclosed (consequent.needsParens 20 .loose) consequent.pieces ++ [.other " : "] ++
      enclosed (alternative.needsParens 20 .loose) alternative.pieces

/-- The pieces of each argument. -/
def argumentPieces : List Expr → List (List CodePiece)
  | [] => []
  | e :: es =>
    enclosed (e.needsParens BinaryOp.comma.precedence .tight) e.pieces :: argumentPieces es

end

/-- The pieces of an expression between commas. -/
def itemPieces (e : Expr) : List CodePiece :=
  enclosed (e.needsParens BinaryOp.comma.precedence .tight) e.pieces

mutual

/-- The pieces are the text. -/
@[simp] theorem joined_pieces : ∀ e : Expr, joined e.pieces = e.text
  | .int _ | .real _ | .var _ => by simp [pieces, text]
  | .call function arguments => by
    simp [pieces, text, joined_pieces function, joined_argumentPieces arguments,
      String.append_assoc]
  | .index array position => by
    simp [pieces, text, joined_pieces array, joined_pieces position, String.append_assoc]
  | .member parent _ => by
    simp [pieces, text, joined_pieces parent, String.append_assoc]
  | .postfixed _ operand | .unary _ operand => by simp [pieces, text, joined_pieces operand]
  | .binary _ left right => by
    simp [pieces, text, joined_pieces left, joined_pieces right, String.append_assoc]
  | .conditional condition consequent alternative => by
    simp [pieces, text, joined_pieces condition, joined_pieces consequent,
      joined_pieces alternative, String.append_assoc]

theorem joined_argumentPieces : ∀ es : List Expr,
    (argumentPieces es).map joined = argumentTexts es
  | [] => rfl
  | e :: es => by
    rw [argumentPieces, argumentTexts, List.map_cons, joined_enclosed, joined_pieces e,
      joined_argumentPieces es]

end

mutual

/-- **The variables are written in the order in which they are gone through.** -/
theorem names_pieces : ∀ e : Expr, names e.pieces = e.nodes.filterMap name?
  | .int _ | .real _ | .var _ => rfl
  | .call function arguments => by
    simp [pieces, nodes, List.filterMap_cons, name?, names_pieces function,
      names_argumentPieces arguments]
  | .index array position => by
    simp [pieces, nodes, List.filterMap_cons, name?, names_pieces array, names_pieces position]
  | .member parent _ => by
    simp [pieces, nodes, List.filterMap_cons, name?, names_pieces parent]
  | .postfixed _ operand | .unary _ operand => by
    simp [pieces, nodes, List.filterMap_cons, name?, names_pieces operand]
  | .binary _ left right => by
    simp [pieces, nodes, List.filterMap_cons, name?, names_pieces left, names_pieces right]
  | .conditional condition consequent alternative => by
    simp [pieces, nodes, List.filterMap_cons, name?, names_pieces condition,
      names_pieces consequent, names_pieces alternative]

theorem names_argumentPieces : ∀ es : List Expr,
    (argumentPieces es).flatMap names = (allNodes es).filterMap name?
  | [] => rfl
  | e :: es => by
    rw [argumentPieces, allNodes, List.flatMap_cons, names_enclosed, List.filterMap_append,
      names_pieces e, names_argumentPieces es]

end

/-- The variables of an expression are written. -/
theorem mem_names_pieces {e : Expr} {name : String} :
    name ∈ names e.pieces ↔ (Expr.var name).Within e := by
  rw [names_pieces, List.mem_filterMap]
  constructor
  · rintro ⟨x, hx, hname⟩
    obtain rfl := Expr.name?_eq_some.mp hname
    exact mem_nodes.mp hx
  · exact fun h => ⟨_, mem_nodes.mpr h, rfl⟩

@[simp] theorem joined_itemPieces (e : Expr) : joined e.itemPieces = e.itemText := by
  rw [itemPieces, joined_enclosed, joined_pieces, itemText]

theorem joined_map_getD (e : Option Expr) :
    joined ((e.map pieces).getD []) = (e.map text).getD "" := by
  cases e <;> simp

theorem mem_names_itemPieces {e : Expr} {name : String} :
    name ∈ names e.itemPieces ↔ (Expr.var name).Within e := by
  rw [itemPieces, names_enclosed, mem_names_pieces]

end Expr

/-! ### Declarations -/

/-- The pieces of the sizes of an array. -/
def DataType.suffixPieces : DataType → List CodePiece
  | .array element size =>
    [.other "["] ++ (size.map Expr.pieces).getD [] ++ [.other "]"] ++ element.suffixPieces
  | _ => []

namespace DataType

@[simp] theorem joined_suffixPieces : ∀ t : DataType, joined t.suffixPieces = t.arraySuffix
  | .array element size => by
    simp only [suffixPieces, arraySuffix, joined_append, joined_other, joined_nil,
      String.append_empty, Expr.joined_map_getD, joined_suffixPieces element]
  | .numeric _ | .image _ | .sampler | .buffer _ | .named _ => rfl

theorem holds_of_mem_suffixPieces : ∀ t : DataType, ∀ name ∈ names t.suffixPieces,
    t.Holds (.var name)
  | .array element none, name, h => .element (holds_of_mem_suffixPieces element name h)
  | .array element (some size), name, h => by
    simp only [suffixPieces, names_append, List.mem_append] at h
    rcases h with ((h | h) | h) | h
    · cases h
    · exact .size (Expr.mem_names_pieces.mp h)
    · cases h
    · exact .element (holds_of_mem_suffixPieces element name h)

end DataType

namespace Declaration

/-- The pieces of a variable with its type. -/
def declaratorPieces (d : Declaration) : List CodePiece :=
  .other (d.type.typeText ++ " " ++ d.name) :: d.type.suffixPieces

/-- The pieces of a variable with its first value. -/
def initializedPieces (d : Declaration) : List CodePiece :=
  .other d.name :: (d.type.suffixPieces ++
    match d.initializer with
    | some e => .other " = " :: e.itemPieces
    | none => [])

theorem joined_declaratorPieces (d : Declaration) : joined d.declaratorPieces = d.declarator := by
  simp [declaratorPieces, declarator, DataType.declarator]

theorem joined_initializedPieces (d : Declaration) :
    joined d.initializedPieces = d.initialized := by
  unfold initializedPieces initialized
  cases d.initializer <;> simp [String.append_assoc]

theorem holds_of_mem_declaratorPieces {d : Declaration} {name : String}
    (h : name ∈ names d.declaratorPieces) : d.Holds (.var name) :=
  .inl (DataType.holds_of_mem_suffixPieces d.type name h)

theorem holds_of_mem_initializedPieces {d : Declaration} {name : String}
    (h : name ∈ names d.initializedPieces) : d.Holds (.var name) := by
  rw [initializedPieces, names_other, names_append, List.mem_append] at h
  rcases h with h | h
  · exact .inl (DataType.holds_of_mem_suffixPieces d.type name h)
  · cases hinit : d.initializer with
    | none => rw [hinit] at h; cases h
    | some e =>
      rw [hinit, names_other, Expr.mem_names_itemPieces] at h
      exact .inr ⟨e, hinit, h⟩

end Declaration

/-! ### Statements -/

namespace Statement

/-- The pieces of a statement at the head of a loop. -/
def headPieces : Statement → List CodePiece
  | .expression e => e.pieces
  | .declare (first :: rest) =>
    .other (first.type.typeText ++ " ") ::
      listed ((first :: rest).map Declaration.initializedPieces)
  | _ => []

/-- The pieces of a body behind the head of a statement: what is inside its braces, if it has
them, or else the lines of a single statement. -/
def bodyPieces (depth : ℕ) (inside single : Option (List CodePiece)) : List CodePiece :=
  match inside with
  | some pieces => .other " \x7b\n" :: (pieces ++ [.other (indentation depth ++ "\x7d")])
  | none => .other "\n" :: single.getD [.other (indentation (depth + 1) ++ ";")]

mutual

/-- The pieces of a statement without the line break at its end; none if nothing is written. -/
def pieces (v : Valuation) (depth : ℕ) : Statement → Option (List CodePiece)
  | .empty => some [.other (indentation depth ++ ";")]
  | .declare ds => some (.other (indentation depth) :: (headPieces (.declare ds) ++ [.other ";"]))
  | .expression e => some (.other (indentation depth) :: (e.pieces ++ [.other ";"]))
  | .selection condition consequent none =>
    match condition.holds? v with
    | some true => consequent.pieces v depth
    | some false => none
    | none =>
      some (.other (indentation depth ++ "if (") :: (condition.pieces ++ [.other ")"] ++
        bodyPieces depth (consequent.insidePieces v (depth + 1)) (consequent.pieces v (depth + 1))))
  | .selection condition consequent (some alternative) =>
    match condition.holds? v with
    | some true => consequent.pieces v depth
    | some false => alternative.pieces v depth
    | none =>
      some (.other (indentation depth ++ "if (") :: (condition.pieces ++ [.other ")"] ++
        bodyPieces depth (consequent.insidePieces v (depth + 1))
          (consequent.pieces v (depth + 1)) ++ [.other " else"] ++
        bodyPieces depth (alternative.insidePieces v (depth + 1))
          (alternative.pieces v (depth + 1))))
  | .switch value body =>
    some (.other (indentation depth ++ "switch (") :: (value.pieces ++ [.other ") \x7b\n"] ++
      allPieces v (depth + 1) body ++ [.other (indentation depth ++ "\x7d")]))
  | .caseLabel value =>
    some (.other (indentation (depth - 1) ++ "case ") :: (value.pieces ++ [.other ":"]))
  | .defaultLabel => some [.other (indentation (depth - 1) ++ "default:")]
  | .forLoop start condition update body =>
    some (.other (indentation depth ++ "for (") :: (start.headPieces ++ [.other "; "] ++
      condition.pieces ++ [.other "; "] ++ (update.map Expr.pieces).getD [] ++ [.other ")"] ++
      bodyPieces depth (body.insidePieces v (depth + 1)) (body.pieces v (depth + 1))))
  | .whileLoop condition body =>
    some (.other (indentation depth ++ "while (") :: (condition.pieces ++ [.other ")"] ++
      bodyPieces depth (body.insidePieces v (depth + 1)) (body.pieces v (depth + 1))))
  | .doWhile body condition =>
    some (.other (indentation depth ++ "do") ::
      (bodyPieces depth (body.insidePieces v (depth + 1)) (body.pieces v (depth + 1)) ++
        [.other " while ("] ++ condition.pieces ++ [.other ");"]))
  | .giveBack none => some [.other (indentation depth ++ "return;")]
  | .giveBack (some value) =>
    some (.other (indentation depth ++ "return ") :: (value.pieces ++ [.other ";"]))
  | .jump kind => some [.other (indentation depth ++ kind.keyword ++ ";")]
  | .scope body =>
    some (.other (indentation depth ++ "\x7b\n") :: (allPieces v (depth + 1) body ++
      [.other (indentation depth ++ "\x7d")]))

/-- The pieces inside the braces of a statement, if it has them. -/
def insidePieces (v : Valuation) (depth : ℕ) : Statement → Option (List CodePiece)
  | .scope body => some (allPieces v depth body)
  | _ => none

/-- The pieces of statements, one below the other. -/
def allPieces (v : Valuation) (depth : ℕ) : List Statement → List CodePiece
  | [] => []
  | s :: rest => ended (s.pieces v depth) ++ allPieces v depth rest

end

/-! #### The text -/

@[simp] theorem joined_headPieces : ∀ s : Statement, joined s.headPieces = s.headText
  | .expression e => e.joined_pieces
  | .declare (first :: rest) => by
    have hdeclarations : (joined ∘ Declaration.initializedPieces) = Declaration.initialized :=
      funext Declaration.joined_initializedPieces
    rw [headPieces, headText, joined_other, joined_listed, List.map_map, hdeclarations]
  | .empty | .declare [] | .selection _ _ _ | .switch _ _ | .caseLabel _ | .defaultLabel
  | .forLoop _ _ _ _ | .whileLoop _ _ | .doWhile _ _ | .giveBack _ | .jump _ | .scope _ => rfl

@[simp] theorem joined_bodyPieces (depth : ℕ) (inside single : Option (List CodePiece)) :
    joined (bodyPieces depth inside single) =
      bodyText depth (inside.map joined) fun _ => joined (ended single) := by
  cases inside with
  | some pieces => simp [bodyPieces, bodyText, String.append_assoc]
  | none =>
    cases single with
    | none => simp [bodyPieces, bodyText, singleBody, ended]
    | some lines =>
      have hne : (joined lines ++ "\n").isEmpty = false := by simp
      rw [bodyPieces, joined_other, Option.getD_some, Option.map_none, bodyText,
        joined_ended_some, singleBody, hne, if_neg Bool.false_ne_true, dropLineBreak_append]

variable {v : Valuation}

mutual

/-- **The pieces are the text** of a statement. -/
theorem joined_pieces : ∀ (s : Statement) (depth : ℕ),
    joined (ended (s.pieces v depth)) = s.text v depth
  | .empty, _ | .declare _, _ | .expression _, _ | .caseLabel _, _ | .defaultLabel, _
  | .giveBack none, _ | .giveBack (some _), _ | .jump _, _ => by
    simp [pieces, text, String.append_assoc]
  | .selection condition consequent none, depth => by
    rw [pieces, text]
    match condition.holds? v with
    | some true => exact joined_pieces consequent depth
    | some false => rfl
    | none =>
      simp [joined_insidePieces consequent, joined_pieces consequent, String.append_assoc]
  | .selection condition consequent (some alternative), depth => by
    rw [pieces, text]
    match condition.holds? v with
    | some true => exact joined_pieces consequent depth
    | some false => exact joined_pieces alternative depth
    | none =>
      simp [joined_insidePieces consequent, joined_pieces consequent,
        joined_insidePieces alternative, joined_pieces alternative, String.append_assoc]
  | .switch value body, depth => by
    simp [pieces, text, joined_allPieces body, String.append_assoc]
  | .forLoop start condition update body, depth => by
    simp [pieces, text, Expr.joined_map_getD, joined_insidePieces body, joined_pieces body,
      String.append_assoc]
  | .whileLoop condition body, depth | .doWhile body condition, depth => by
    simp [pieces, text, joined_insidePieces body, joined_pieces body, String.append_assoc]
  | .scope body, depth => by
    simp [pieces, text, joined_allPieces body, String.append_assoc]

theorem joined_insidePieces : ∀ (s : Statement) (depth : ℕ),
    (s.insidePieces v depth).map joined = s.inside v depth
  | .scope body, depth => by
    rw [insidePieces, inside, Option.map_some, joined_allPieces body depth]
  | .empty, _ | .declare _, _ | .expression _, _ | .selection _ _ _, _ | .switch _ _, _
  | .caseLabel _, _ | .defaultLabel, _ | .forLoop _ _ _ _, _ | .whileLoop _ _, _
  | .doWhile _ _, _ | .giveBack _, _ | .jump _, _ => rfl

theorem joined_allPieces : ∀ (body : List Statement) (depth : ℕ),
    joined (allPieces v depth body) = allText v depth body
  | [], _ => rfl
  | s :: rest, depth => by
    rw [allPieces, allText, joined_append, joined_pieces s, joined_allPieces rest]

end

/-! #### The variables -/

theorem holds_of_mem_headPieces : ∀ s : Statement, ∀ name ∈ names s.headPieces, s.Holds (.var name)
  | .expression _, _, h => .expression (Expr.mem_names_pieces.mp h)
  | .declare (first :: rest), name, h => by
    rw [headPieces, names_other, names_listed, List.flatMap_map, List.mem_flatMap] at h
    obtain ⟨d, hd, h⟩ := h
    exact .declare hd (Declaration.holds_of_mem_initializedPieces h)

/-- The variables of a body are those inside its braces, or those of its lines. -/
theorem forall_names_bodyPieces {P : String → Prop} {inside single : Option (List CodePiece)}
    (hinside : ∀ pieces ∈ inside, ∀ name ∈ names pieces, P name)
    (hsingle : ∀ name ∈ names (single.getD []), P name) (depth : ℕ) :
    ∀ name ∈ names (bodyPieces depth inside single), P name := by
  cases inside with
  | some pieces =>
    intro name h
    simp only [bodyPieces, names_other, names_append, names_nil, List.append_nil] at h
    exact hinside pieces rfl name h
  | none =>
    cases single with
    | none => exact fun _ h => nomatch h
    | some lines => exact hsingle

mutual

/-- **Only variables of the source are written**, wherever they stand in the statement. -/
theorem holds_of_mem_pieces : ∀ (s : Statement) (depth : ℕ),
    ∀ name ∈ names ((s.pieces v depth).getD []), s.Holds (.var name)
  | .declare ds, _, name, h => by
    simp only [pieces, Option.getD_some, names_other, names_append, names_nil,
      List.append_nil] at h
    exact holds_of_mem_headPieces (.declare ds) name h
  | .expression e, _, name, h => by
    simp only [pieces, Option.getD_some, names_other, names_append, names_nil,
      List.append_nil] at h
    exact .expression (Expr.mem_names_pieces.mp h)
  | .caseLabel e, _, name, h => by
    simp only [pieces, Option.getD_some, names_other, names_append, names_nil,
      List.append_nil] at h
    exact .caseLabel (Expr.mem_names_pieces.mp h)
  | .giveBack (some e), _, name, h => by
    simp only [pieces, Option.getD_some, names_other, names_append, names_nil,
      List.append_nil] at h
    exact .giveBack (Expr.mem_names_pieces.mp h)
  | .selection condition consequent none, depth, name, h => by
    rw [pieces] at h
    match hcondition : condition.holds? v with
    | some true =>
      rw [hcondition] at h
      exact .consequent (holds_of_mem_pieces consequent depth name h)
    | some false =>
      rw [hcondition] at h
      cases h
    | none =>
      rw [hcondition] at h
      simp only [Option.getD_some, names_other, names_append, names_nil, List.append_nil,
        List.mem_append] at h
      rcases h with h | h
      · exact .condition (Expr.mem_names_pieces.mp h)
      · exact .consequent (forall_names_bodyPieces (holds_of_mem_insidePieces consequent _)
          (holds_of_mem_pieces consequent _) depth name h)
  | .selection condition consequent (some alternative), depth, name, h => by
    rw [pieces] at h
    match hcondition : condition.holds? v with
    | some true =>
      rw [hcondition] at h
      exact .consequent (holds_of_mem_pieces consequent depth name h)
    | some false =>
      rw [hcondition] at h
      exact .alternative (holds_of_mem_pieces alternative depth name h)
    | none =>
      rw [hcondition] at h
      simp only [Option.getD_some, names_other, names_append, names_nil, List.append_nil,
        List.mem_append] at h
      rcases h with (h | h) | h
      · exact .condition (Expr.mem_names_pieces.mp h)
      · exact .consequent (forall_names_bodyPieces (holds_of_mem_insidePieces consequent _)
          (holds_of_mem_pieces consequent _) depth name h)
      · exact .alternative (forall_names_bodyPieces (holds_of_mem_insidePieces alternative _)
          (holds_of_mem_pieces alternative _) depth name h)
  | .switch value body, depth, name, h => by
    simp only [pieces, Option.getD_some, names_other, names_append, names_nil, List.append_nil,
      List.mem_append] at h
    rcases h with h | h
    · exact .switchValue (Expr.mem_names_pieces.mp h)
    · obtain ⟨s, hs, h⟩ := holds_of_mem_allPieces body _ name h
      exact .switchBody hs h
  | .forLoop start condition update body, depth, name, h => by
    simp only [pieces, Option.getD_some, names_other, names_append, names_nil, List.append_nil,
      List.mem_append] at h
    rcases h with ((h | h) | h) | h
    · exact .forStart (holds_of_mem_headPieces start name h)
    · exact .forCondition (Expr.mem_names_pieces.mp h)
    · cases update with
      | none => cases h
      | some e => exact .forUpdate (Expr.mem_names_pieces.mp h)
    · exact .forBody (forall_names_bodyPieces (holds_of_mem_insidePieces body _)
        (holds_of_mem_pieces body _) depth name h)
  | .whileLoop condition body, depth, name, h => by
    simp only [pieces, Option.getD_some, names_other, names_append, names_nil, List.append_nil,
      List.mem_append] at h
    rcases h with h | h
    · exact .whileCondition (Expr.mem_names_pieces.mp h)
    · exact .whileBody (forall_names_bodyPieces (holds_of_mem_insidePieces body _)
        (holds_of_mem_pieces body _) depth name h)
  | .doWhile body condition, depth, name, h => by
    simp only [pieces, Option.getD_some, names_other, names_append, names_nil, List.append_nil,
      List.mem_append] at h
    rcases h with h | h
    · exact .doBody (forall_names_bodyPieces (holds_of_mem_insidePieces body _)
        (holds_of_mem_pieces body _) depth name h)
    · exact .doCondition (Expr.mem_names_pieces.mp h)
  | .scope body, depth, name, h => by
    simp only [pieces, Option.getD_some, names_other, names_append, names_nil, List.append_nil] at h
    obtain ⟨s, hs, h⟩ := holds_of_mem_allPieces body _ name h
    exact .scope hs h

theorem holds_of_mem_insidePieces : ∀ (s : Statement) (depth : ℕ),
    ∀ pieces ∈ s.insidePieces v depth, ∀ name ∈ names pieces, s.Holds (.var name)
  | .scope body, depth, _, rfl, name, h => by
    obtain ⟨s, hs, h⟩ := holds_of_mem_allPieces body depth name h
    exact .scope hs h

theorem holds_of_mem_allPieces : ∀ (body : List Statement) (depth : ℕ),
    ∀ name ∈ names (allPieces v depth body), ∃ s ∈ body, s.Holds (.var name)
  | s :: rest, depth, name, h => by
    rw [allPieces, names_append, names_ended, List.mem_append] at h
    rcases h with h | h
    · exact ⟨s, .head _, holds_of_mem_pieces s depth name h⟩
    · obtain ⟨s', hs', h⟩ := holds_of_mem_allPieces rest depth name h
      exact ⟨s', .tail _ hs', h⟩

end

end Statement

/-! ### Functions and stages -/

namespace Function

/-- The pieces of a function. -/
def pieces (v : Valuation) (f : Function) : List CodePiece :=
  .other (f.resultText ++ " " ++ f.name ++ "(") ::
    (listed (f.parameters.map Declaration.declaratorPieces) ++ [.other ")"] ++
      (match f.body with
      | some body => Statement.bodyPieces 0 (body.insidePieces v 1) (body.pieces v 1)
      | none => [.other ";"]) ++
      [.other "\n\n"])

variable {v : Valuation}

theorem joined_pieces (f : Function) : joined (f.pieces v) = f.text v := by
  have hparameters : (joined ∘ Declaration.declaratorPieces) = Declaration.declarator :=
    funext Declaration.joined_declaratorPieces
  unfold pieces text
  cases f.body with
  | none => simp [hparameters, String.append_assoc]
  | some body =>
    simp [hparameters, Statement.joined_insidePieces, Statement.joined_pieces, String.append_assoc]

theorem holds_of_mem_pieces {f : Function} {name : String} (h : name ∈ names (f.pieces v)) :
    f.Holds (.var name) := by
  simp only [pieces, names_other, names_append, names_nil, List.append_nil, names_listed,
    List.flatMap_map, List.mem_append, List.mem_flatMap] at h
  rcases h with ⟨d, hd, h⟩ | h
  · exact .inr (.inl ⟨d, hd, Declaration.holds_of_mem_declaratorPieces h⟩)
  · cases hbody : f.body with
    | none => rw [hbody] at h; cases h
    | some body =>
      rw [hbody] at h
      have hholds : body.Holds (.var name) := Statement.forall_names_bodyPieces
        (Statement.holds_of_mem_insidePieces body 1) (Statement.holds_of_mem_pieces body 1) 0 name h
      exact .inr (.inr ⟨body, hbody, hholds⟩)

end Function

/-- The expression occurs in a function that all stages share, or in the stage. -/
def ShaderUnit.Mentions (u : ShaderUnit) (b : StageBlock) (x : Expr) : Prop :=
  (∃ f ∈ u.functions, f.Holds x) ∨ b.Holds x

namespace StageInput

/-- The pieces of the functions and of an entry function that hands nothing on. -/
def codePieces (i : StageInput) : List CodePiece :=
  i.functions.flatMap (Function.pieces i.values) ++ .other "void main() \x7b\n" ::
    (Statement.allPieces i.values 1 i.stage.body ++ [.other "\x7d\n"])

/-- **The pieces are the text** of the functions and of the entry function of a fragment stage. -/
theorem joined_codePieces {i : StageInput} (hstage : i.stage.stage = .fragment) :
    joined i.codePieces = String.join (i.functions.map (Function.text i.values)) ++ i.mainText := by
  have hmain : i.transferTexts = "" := by
    rw [transferTexts, hstage]
  simp [codePieces, mainText, joined_flatMap, Function.joined_pieces, hmain,
    Statement.joined_allPieces, String.append_assoc]

/-- **Only variables of the source are written.** -/
theorem occurs_of_mem_codePieces {i : StageInput} {name : String}
    (h : name ∈ names i.codePieces) : i.unit.Mentions i.stage (.var name) := by
  simp only [codePieces, names_append, names_flatMap, names_other, names_nil, List.append_nil,
    List.mem_append, List.mem_flatMap] at h
  rcases h with ⟨f, hf, h⟩ | h
  · have hholds := Function.holds_of_mem_pieces h
    rcases List.mem_append.mp hf with hf | hf
    · exact .inl ⟨f, hf, hholds⟩
    · exact .inr (.inr (.inl ⟨f, hf, hholds⟩))
  · exact .inr (.inr (.inr (Statement.holds_of_mem_allPieces _ 1 name h)))

end StageInput

end ShaderVariants
