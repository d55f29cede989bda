import ShaderVariants.Glsl.Declarator

/-!
# Statements in generated code

A selection whose condition is known at compile time is not written; in its place stands
the branch that is taken, or nothing.

## Main definitions

* `Statement.text` — the text of a statement at a depth of indentation.
* `Statement.faults` — what is wrong with the types in it.
* `Function.text`, `Function.faults` — the same for a whole function.
-/

namespace ShaderVariants

/-- The blanks in front of a line. -/
def indentation (depth : Nat) : String := String.ofList (List.replicate (4 * depth) ' ')

/-- The text without a line break at its end. -/
def dropLineBreak (text : String) : String :=
  if text.toList.getLast? = some '\n' then String.ofList text.toList.dropLast else text

/-- A single statement as a body; a body cannot be empty. -/
def singleBody (depth : Nat) (text : String) : String :=
  if text.isEmpty then indentation depth ++ ";" else dropLineBreak text

/-- A body behind the head of a statement: the text inside its braces, if it has them,
or else that of a single statement on a line of its own. -/
def bodyText (depth : Nat) (inside : Option String) (single : Unit → String) : String :=
  match inside with
  | some text => " \x7b\n" ++ text ++ indentation depth ++ "\x7d"
  | none => "\n" ++ singleBody (depth + 1) (single ())

/-- The word for a jump. -/
def Jump.keyword : Jump → String
  | .exitLoop => "break"
  | .nextRound => "continue"
  | .discard => "discard"

namespace Statement

/-- The text of a statement at the head of a loop, without the semicolon. -/
def headText : Statement → String
  | .expression e => e.text
  | .declare (first :: rest) =>
    first.type.typeText ++ " " ++ ", ".intercalate ((first :: rest).map Declaration.initialized)
  | _ => ""

/-- What is wrong with a statement at the head of a loop. -/
def headFaults : Statement → List Diagnostic
  | .empty | .expression _ | .declare [] => []
  | .declare (first :: _) => first.type.typeFaults
  | _ => [.fault "only declarations and expressions can initialize a loop"]

mutual

/-- The text of a statement, with a line break at the end unless it is empty. -/
def text (v : Valuation) (depth : Nat) : Statement → String
  | .empty => indentation depth ++ ";\n"
  | .declare ds => indentation depth ++ headText (.declare ds) ++ ";\n"
  | .expression e => indentation depth ++ e.text ++ ";\n"
  | .selection condition consequent none =>
    match condition.holds? v with
    | some true => consequent.text v depth
    | some false => ""
    | none =>
      indentation depth ++ "if (" ++ condition.text ++ ")" ++
        bodyText depth (consequent.inside v (depth + 1)) (fun _ => consequent.text v (depth + 1)) ++
        "\n"
  | .selection condition consequent (some alternative) =>
    match condition.holds? v with
    | some true => consequent.text v depth
    | some false => alternative.text v depth
    | none =>
      indentation depth ++ "if (" ++ condition.text ++ ")" ++
        bodyText depth (consequent.inside v (depth + 1)) (fun _ => consequent.text v (depth + 1)) ++
        " else" ++
        bodyText depth (alternative.inside v (depth + 1))
          (fun _ => alternative.text v (depth + 1)) ++
        "\n"
  | .switch value body =>
    indentation depth ++ "switch (" ++ value.text ++ ") \x7b\n" ++ allText v (depth + 1) body ++
      indentation depth ++ "\x7d\n"
  | .caseLabel value => indentation (depth - 1) ++ "case " ++ value.text ++ ":\n"
  | .defaultLabel => indentation (depth - 1) ++ "default:\n"
  | .forLoop start condition update body =>
    indentation depth ++ "for (" ++ start.headText ++ "; " ++ condition.text ++ "; " ++
      (update.map Expr.text).getD "" ++ ")" ++
      bodyText depth (body.inside v (depth + 1)) (fun _ => body.text v (depth + 1)) ++ "\n"
  | .whileLoop condition body =>
    indentation depth ++ "while (" ++ condition.text ++ ")" ++
      bodyText depth (body.inside v (depth + 1)) (fun _ => body.text v (depth + 1)) ++ "\n"
  | .doWhile body condition =>
    indentation depth ++ "do" ++
      bodyText depth (body.inside v (depth + 1)) (fun _ => body.text v (depth + 1)) ++
      " while (" ++ condition.text ++ ");\n"
  | .giveBack none => indentation depth ++ "return;\n"
  | .giveBack (some value) => indentation depth ++ "return " ++ value.text ++ ";\n"
  | .jump kind => indentation depth ++ kind.keyword ++ ";\n"
  | .scope body =>
    indentation depth ++ "\x7b\n" ++ allText v (depth + 1) body ++ indentation depth ++ "\x7d\n"

/-- The text inside the braces of a statement, if it has them. -/
def inside (v : Valuation) (depth : Nat) : Statement → Option String
  | .scope body => some (allText v depth body)
  | _ => none

/-- The text of statements, one below the other. -/
def allText (v : Valuation) (depth : Nat) : List Statement → String
  | [] => ""
  | s :: rest => s.text v depth ++ allText v depth rest

end

mutual

/-- What is wrong with the types in a statement, in the order of its text. -/
def faults (v : Valuation) : Statement → List Diagnostic
  | .declare ds => headFaults (.declare ds)
  | .selection condition consequent none =>
    match condition.holds? v with
    | some false => []
    | _ => consequent.faults v
  | .selection condition consequent (some alternative) =>
    match condition.holds? v with
    | some true => consequent.faults v
    | some false => alternative.faults v
    | none => consequent.faults v ++ alternative.faults v
  | .switch _ body => allFaults v body
  | .forLoop start _ _ body => start.headFaults ++ body.faults v
  | .whileLoop _ body => body.faults v
  | .doWhile body _ => body.faults v
  | .scope body => allFaults v body
  | .empty | .expression _ | .caseLabel _ | .defaultLabel | .giveBack _ | .jump _ => []

/-- What is wrong with the types in several statements. -/
def allFaults (v : Valuation) : List Statement → List Diagnostic
  | [] => []
  | s :: rest => s.faults v ++ allFaults v rest

end

end Statement

namespace Function

/-- The name of the result type. -/
def resultText (f : Function) : String := (f.result.map DataType.typeText).getD "void"

/-- The text of a function, followed by an empty line. -/
def text (v : Valuation) (f : Function) : String :=
  f.resultText ++ " " ++ f.name ++ "(" ++
    ", ".intercalate (f.parameters.map Declaration.declarator) ++ ")" ++
    (match f.body with
    | some body => bodyText 0 (body.inside v 1) (fun _ => body.text v 1)
    | none => ";") ++
    "\n\n"

/-- What is wrong with the types in a function. -/
def faults (v : Valuation) (f : Function) : List Diagnostic :=
  (f.result.map DataType.typeFaults).getD [] ++
    f.parameters.flatMap (·.type.typeFaults) ++ (f.body.map (Statement.faults v)).getD []

end Function

end ShaderVariants
