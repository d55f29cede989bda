import Mathlib
import ShaderVariants.Proofs.Glsl.Resources
import ShaderVariants.Proofs.Glsl.Variables

/-!
# Sizes of arrays in the code

The type of a variable is written in two parts: the type of the elements in front of its name,
and the sizes of arrays behind it.  This is how all variables are declared, whether they are
members of a storage block, parameters or local variables.  Of the type that a function returns
only the first part is written, so a function that returns an array loses its sizes.

## Main definitions

* `DataType.arrayOf`, `brackets` — nested arrays and their sizes in the code.
* `DataType.Declares` — a text declares a variable with all sizes of its type.
* `Statement.Writes` — a declaration in a statement is written.
* `StageInput.KeepsVariableSizes`, `StageInput.KeepsSizes` — the code holds all sizes.

## Main results

* `DataType.declares_declarator` — a variable is declared with all sizes.
* `Statement.Writes.infix_pieces` — local variables are declared in the text of a statement.
* `StageInput.keepsVariableSizes` — no variable loses its sizes.
* `StageInput.keepsSizes_iff` — **the code holds all sizes if no function returns an array.**
-/

namespace ShaderVariants

/-! ### Types -/

namespace DataType

/-- A type that stands in arrays. -/
def IsElement : DataType → Prop
  | .numeric _ | .image _ | .sampler | .named _ => True
  | .buffer _ | .array _ _ => False

/-- Nested arrays with their sizes, the outermost first. -/
def arrayOf (element : DataType) : List (Option Expr) → DataType
  | [] => element
  | size :: sizes => .array (element.arrayOf sizes) size

/-- The type consists of nested arrays of some elements; without sizes, it is that of an
element. -/
def Nests (t element : DataType) (sizes : List (Option Expr)) : Prop :=
  element.IsElement ∧ t = element.arrayOf sizes

end DataType

/-- A pair of brackets for each array, empty if it has no size. -/
def brackets (sizes : List (Option Expr)) : String :=
  String.join (sizes.map fun size => "[" ++ (size.map Expr.text).getD "" ++ "]")

theorem brackets_cons (size : Option Expr) (sizes : List (Option Expr)) :
    brackets (size :: sizes) = "[" ++ (size.map Expr.text).getD "" ++ "]" ++ brackets sizes :=
  String.join_cons

namespace DataType

/-- The text declares a variable of the given type and name.  The sizes of arrays stand behind
the name, or behind the type of the elements. -/
def Declares (t : DataType) (name text : String) : Prop :=
  ∀ element sizes, t.Nests element sizes →
    text = element.typeText ++ " " ++ name ++ brackets sizes ∨
      text = element.typeText ++ brackets sizes ++ " " ++ name

variable {t element : DataType} {sizes : List (Option Expr)}

theorem Nests.typeText_eq (h : t.Nests element sizes) : t.typeText = element.typeText := by
  obtain ⟨-, rfl⟩ := h
  induction sizes with
  | nil => rfl
  | cons size sizes ih => exact ih

theorem Nests.arraySuffix_eq (h : t.Nests element sizes) : t.arraySuffix = brackets sizes := by
  obtain ⟨helement, rfl⟩ := h
  induction sizes with
  | nil => cases element <;> first | rfl | cases helement
  | cons size sizes ih => rw [arrayOf, arraySuffix, ih, brackets_cons]

/-- **A variable is declared with all sizes.** -/
theorem declares_declarator (t : DataType) (name : String) :
    t.Declares name (t.declarator name) := by
  intro element sizes h
  left
  rw [declarator, h.typeText_eq, h.arraySuffix_eq]

end DataType

/-- The text declares several variables.  The type of the elements is said by the first one;
behind its sizes, a variable may have a value. -/
def DeclaresAll (ds : List Declaration) (text : String) : Prop :=
  ∃ type entries, text = type ++ " " ++ ", ".intercalate entries ∧
    (∀ first ∈ ds.head?, ∀ element sizes, first.type.Nests element sizes →
      type = element.typeText) ∧
    List.Forall₂ (fun (d : Declaration) entry => ∀ element sizes, d.type.Nests element sizes →
      entry = d.name ++ brackets sizes ++
        ((d.initializer.map fun e => " = " ++ e.itemText).getD "")) ds entries

theorem declaresAll_headText {ds : List Declaration} (h : ds ≠ []) :
    DeclaresAll ds (Statement.headText (.declare ds)) := by
  cases ds with
  | nil => exact absurd rfl h
  | cons first rest =>
    refine ⟨_, _, rfl, ?_, ?_⟩
    · intro first' hfirst element sizes hnests
      obtain rfl := Option.some.inj hfirst
      exact hnests.typeText_eq
    · rw [List.forall₂_map_right_iff, List.forall₂_same]
      intro d _ element sizes hnests
      rw [Declaration.initialized, hnests.arraySuffix_eq]
      cases d.initializer <;> rfl

/-! ### Local variables -/

namespace Statement

/-- The statement writes a declaration that stands somewhere in it; branches that are not taken
write nothing. -/
inductive Writes (v : Valuation) (ds : List Declaration) : Statement → Prop where
  | declare : Writes v ds (.declare ds)
  | start {condition : Expr} {update : Option Expr} {body : Statement} :
    Writes v ds (.forLoop (.declare ds) condition update body)
  | consequent {condition : Expr} {s : Statement} {alternative : Option Statement} :
    condition.holds? v ≠ some false → Writes v ds s →
      Writes v ds (.selection condition s alternative)
  | alternative {condition : Expr} {consequent s : Statement} :
    condition.holds? v ≠ some true → Writes v ds s →
      Writes v ds (.selection condition consequent (some s))
  | switch {value : Expr} {body : List Statement} {s : Statement} :
    s ∈ body → Writes v ds s → Writes v ds (.switch value body)
  | forBody {start body : Statement} {condition : Expr} {update : Option Expr} :
    Writes v ds body → Writes v ds (.forLoop start condition update body)
  | whileBody {condition : Expr} {body : Statement} :
    Writes v ds body → Writes v ds (.whileLoop condition body)
  | doBody {condition : Expr} {body : Statement} :
    Writes v ds body → Writes v ds (.doWhile body condition)
  | scope {body : List Statement} {s : Statement} :
    s ∈ body → Writes v ds s → Writes v ds (.scope body)

open CodePiece

variable {v : Valuation} {ds : List Declaration} {target : List CodePiece}

theorem infix_left {front back : List CodePiece} (h : target <:+: front) :
    target <:+: front ++ back :=
  h.trans (List.prefix_append front back).isInfix

theorem infix_right {front back : List CodePiece} (h : target <:+: back) :
    target <:+: front ++ back :=
  h.trans (List.suffix_append front back).isInfix

theorem infix_allPieces {body : List Statement} {s : Statement} {pieces : List CodePiece}
    {depth : ℕ} (hs : s ∈ body) (hpieces : s.pieces v depth = some pieces)
    (h : target <:+: pieces) : target <:+: allPieces v depth body := by
  induction body with
  | nil => cases hs
  | cons first rest ih =>
    rw [allPieces]
    rcases List.mem_cons.mp hs with rfl | hs
    · rw [hpieces, ended]
      exact infix_left (infix_left h)
    · exact infix_right (ih hs)

/-- What is found in the pieces of a statement and inside its braces is found in a body. -/
theorem infix_bodyPieces {s : Statement} {depth : ℕ}
    (h : (∃ pieces, s.pieces v depth = some pieces ∧ target <:+: pieces) ∧
      ∀ pieces ∈ s.insidePieces v depth, target <:+: pieces) (outer : ℕ) :
    target <:+: bodyPieces outer (s.insidePieces v depth) (s.pieces v depth) := by
  cases hs : s.insidePieces v depth with
  | some pieces => exact List.infix_cons (infix_left (h.2 pieces hs))
  | none =>
    obtain ⟨pieces, heq, h⟩ := h.1
    rw [heq]
    exact List.infix_cons h

/-- **A declaration that is written is found in the text**, and inside the braces around it. -/
theorem Writes.infix_pieces {s : Statement} (h : s.Writes v ds) : ∀ depth,
    (∃ pieces, s.pieces v depth = some pieces ∧ headPieces (.declare ds) <:+: pieces) ∧
      ∀ pieces ∈ s.insidePieces v depth, headPieces (.declare ds) <:+: pieces := by
  induction h with
  | declare =>
    intro depth
    refine ⟨⟨_, rfl, ?_⟩, fun _ h => absurd h (Option.not_mem_none _)⟩
    exact List.infix_cons (infix_left List.infix_rfl)
  | start =>
    intro depth
    refine ⟨⟨_, rfl, List.infix_cons ?_⟩, fun _ h => absurd h (Option.not_mem_none _)⟩
    simp only [List.append_assoc]
    exact infix_left List.infix_rfl
  | @consequent condition s alternative hcondition _ ih =>
    intro depth
    refine ⟨?_, fun _ h => absurd h (Option.not_mem_none _)⟩
    cases alternative with
    | none =>
      rw [pieces]
      split
      · exact (ih depth).1
      · next hfalse => exact absurd hfalse hcondition
      · exact ⟨_, rfl, List.infix_cons (infix_right (infix_bodyPieces (ih _) depth))⟩
    | some alternative =>
      rw [pieces]
      split
      · exact (ih depth).1
      · next hfalse => exact absurd hfalse hcondition
      · refine ⟨_, rfl, List.infix_cons ?_⟩
        exact infix_left (infix_left (infix_right (infix_bodyPieces (ih _) depth)))
  | @alternative condition consequent s hcondition _ ih =>
    intro depth
    refine ⟨?_, fun _ h => absurd h (Option.not_mem_none _)⟩
    rw [pieces]
    split
    · next htrue => exact absurd htrue hcondition
    · exact (ih depth).1
    · exact ⟨_, rfl, List.infix_cons (infix_right (infix_bodyPieces (ih _) depth))⟩
  | switch hs _ ih =>
    intro depth
    obtain ⟨pieces, heq, h⟩ := (ih (depth + 1)).1
    refine ⟨⟨_, rfl, List.infix_cons ?_⟩, fun _ h => absurd h (Option.not_mem_none _)⟩
    exact infix_left (infix_right (infix_allPieces hs heq h))
  | forBody _ ih =>
    intro depth
    refine ⟨⟨_, rfl, List.infix_cons ?_⟩, fun _ h => absurd h (Option.not_mem_none _)⟩
    exact infix_right (infix_bodyPieces (ih _) depth)
  | whileBody _ ih =>
    intro depth
    refine ⟨⟨_, rfl, List.infix_cons ?_⟩, fun _ h => absurd h (Option.not_mem_none _)⟩
    exact infix_right (infix_bodyPieces (ih _) depth)
  | doBody _ ih =>
    intro depth
    refine ⟨⟨_, rfl, List.infix_cons ?_⟩, fun _ h => absurd h (Option.not_mem_none _)⟩
    simp only [List.append_assoc]
    exact infix_left (infix_bodyPieces (ih _) depth)
  | scope hs _ ih =>
    intro depth
    obtain ⟨pieces, heq, h⟩ := (ih (depth + 1)).1
    refine ⟨⟨_, rfl, List.infix_cons (infix_left (infix_allPieces hs heq h))⟩, ?_⟩
    obtain ⟨pieces', heq', h'⟩ := (ih depth).1
    intro inner hinner
    obtain rfl := Option.some.inj hinner
    exact infix_allPieces hs heq' h'

end Statement

/-- What is found among the pieces is found in the text. -/
theorem CodePiece.joined_of_infix {target pieces : List CodePiece} (h : target <:+: pieces) :
    ∃ before after, joined pieces = before ++ joined target ++ after := by
  obtain ⟨before, after, rfl⟩ := h
  exact ⟨joined before, joined after, by rw [joined_append, joined_append]⟩

/-- The text declares local variables somewhere. -/
def DeclaresWithin (ds : List Declaration) (text : String) : Prop :=
  ∃ before declared after, text = before ++ declared ++ after ∧ DeclaresAll ds declared

theorem declaresWithin_of_infix {ds : List Declaration} {pieces : List CodePiece} (hne : ds ≠ [])
    (h : Statement.headPieces (.declare ds) <:+: pieces) :
    DeclaresWithin ds (CodePiece.joined pieces) := by
  obtain ⟨before, after, heq⟩ := CodePiece.joined_of_infix h
  rw [Statement.joined_headPieces] at heq
  exact ⟨before, _, after, heq, declaresAll_headText hne⟩

/-! ### Functions -/

namespace Function

variable {v : Valuation} {ds : List Declaration}

/-- The function begins with its result type and its name, which declare the result. -/
def KeepsResultSizes (v : Valuation) (f : Function) : Prop :=
  ∀ t ∈ f.result, ∃ declared rest, f.text v = declared ++ "(" ++ rest ∧ t.Declares f.name declared

/-- Its parameters are declared between parentheses. -/
def KeepsParameterSizes (v : Valuation) (f : Function) : Prop :=
  ∃ texts rest, f.text v =
      f.resultText ++ " " ++ f.name ++ "(" ++ ", ".intercalate texts ++ ")" ++ rest ∧
    List.Forall₂ (fun (d : Declaration) text => d.type.Declares d.name text) f.parameters texts

theorem exists_text_eq (v : Valuation) (f : Function) : ∃ rest, f.text v =
    f.resultText ++ " " ++ f.name ++ "(" ++
      ", ".intercalate (f.parameters.map Declaration.declarator) ++ ")" ++ rest := by
  unfold text
  exact ⟨_, String.append_assoc⟩

theorem exists_text_eq_head (v : Valuation) (f : Function) :
    ∃ rest, f.text v = f.resultText ++ " " ++ f.name ++ "(" ++ rest := by
  obtain ⟨rest, heq⟩ := f.exists_text_eq v
  refine ⟨", ".intercalate (f.parameters.map Declaration.declarator) ++ ")" ++ rest, ?_⟩
  rw [heq]
  simp only [String.append_assoc]

theorem keepsParameterSizes (f : Function) : f.KeepsParameterSizes v := by
  obtain ⟨rest, heq⟩ := f.exists_text_eq v
  refine ⟨_, _, heq, ?_⟩
  rw [List.forall₂_map_right_iff, List.forall₂_same]
  exact fun d _ => d.type.declares_declarator d.name

theorem declaresWithin_text {f : Function} {body : Statement} (hbody : f.body = some body)
    (h : body.Writes v ds) (hne : ds ≠ []) : DeclaresWithin ds (f.text v) := by
  rw [← joined_pieces]
  refine declaresWithin_of_infix hne ?_
  simp only [pieces, hbody]
  refine List.infix_cons (Statement.infix_left (Statement.infix_right ?_))
  exact Statement.infix_bodyPieces (h.infix_pieces 1) 0

/-- The result is written like one of its elements. -/
theorem resultText_of_nests {f : Function} {t element : DataType} {sizes : List (Option Expr)}
    (ht : t ∈ f.result) (h : t.Nests element sizes) : f.resultText = element.typeText := by
  rw [resultText, Option.mem_def.mp ht, Option.map_some, Option.getD_some, h.typeText_eq]

/-- **A function keeps the sizes of its result if there are none.** -/
theorem keepsResultSizes_iff {f : Function} : f.KeepsResultSizes v ↔
    ∀ t ∈ f.result, ∀ element sizes, t.Nests element sizes → sizes = [] := by
  obtain ⟨rest', htext'⟩ := f.exists_text_eq_head v
  constructor
  · intro h t ht element sizes hnests
    obtain ⟨declared, rest, htext, hdeclared⟩ := h t ht
    rw [htext, resultText_of_nests ht hnests] at htext'
    cases sizes with
    | nil => rfl
    | cons size sizes =>
      -- a bracket stands where the text goes on with the name or with a parenthesis
      have hlist := congrArg String.toList htext'
      rcases hdeclared element _ hnests with rfl | rfl
      · simp [brackets_cons, String.append_assoc] at hlist
      · simp [brackets_cons, String.append_assoc] at hlist
  · intro h t ht
    refine ⟨_, rest', htext', fun element sizes hnests => .inl ?_⟩
    obtain rfl := h t ht element sizes hnests
    rw [resultText_of_nests ht hnests, brackets, List.map_nil, String.join_nil, String.append_empty]

end Function

/-! ### Stages -/

/-- The variables of a resource are declared in its body. -/
def DeclaredResource.KeepsSizes (r : DeclaredResource) : Prop :=
  match r with
  | .single _ type name =>
    ∃ declared, r.body = "uniform " ++ declared ++ ";\n" ∧ type.Declares name declared
  | .buffer _ block content name =>
    ∃ declared, r.body = "buffer " ++ block ++ " \x7b " ++ declared ++ "; \x7d;\n" ∧
      content.Declares name declared
  | .packed _ block members =>
    ∃ texts, r.body = "uniform " ++ block ++ " \x7b\n" ++
        String.join (texts.map fun text => indentation 1 ++ text ++ ";\n") ++ "\x7d;\n" ∧
      List.Forall₂ (fun (m : DataType × String) text => m.1.Declares m.2 text) members texts

theorem DeclaredResource.keepsSizes (r : DeclaredResource) : r.KeepsSizes := by
  cases r with
  | single place type name => exact ⟨_, rfl, type.declares_declarator name⟩
  | buffer place block content name => exact ⟨_, rfl, content.declares_declarator name⟩
  | packed place block members =>
    refine ⟨members.map fun m => m.1.declarator m.2, ?_, ?_⟩
    · rw [body, List.map_map]
      rfl
    · rw [List.forall₂_map_right_iff, List.forall₂_same]
      exact fun m _ => m.1.declares_declarator m.2

namespace StageInput

/-- The code of a stage holds the sizes of all variables: of its interface, of its resources, of
the parameters of its functions, and of local variables. -/
structure KeepsVariableSizes (i : StageInput) : Prop where
  /-- The items of the stage are its code. -/
  code : ∀ code ∈ (render i).source, code = String.join (i.items.map i.itemText)
  interface : ∀ x, .interface x ∈ i.items → ∃ declared,
    i.itemText (.interface x) = "layout(location = " ++ toString x.location ++ ") " ++
      x.direction.qualifier x.flat ++ " " ++ declared ++ ";\n" ∧ x.type.Declares x.name declared
  resources : ∀ n b, .resources n b ∈ i.items →
    i.itemText (.resources n b) =
      String.join ((i.blockResources n b).map DeclaredResource.text) ++ "\n" ∧
    ∀ r ∈ i.blockResources n b, r.KeepsSizes
  /-- A function of the source is one of the items. -/
  functions : ∀ f ∈ i.functions, .function f ∈ i.items ∧ i.itemText (.function f) = f.text i.values
  parameters : ∀ f ∈ i.functions, f.KeepsParameterSizes i.values
  locals : ∀ f ∈ i.functions, ∀ body ∈ f.body, ∀ ds ≠ [], body.Writes i.values ds →
    DeclaresWithin ds (f.text i.values)
  entryLocals : ∀ s ∈ i.stage.body, ∀ ds ≠ [], s.Writes i.values ds →
    DeclaresWithin ds (i.itemText .main)

/-- The code of a stage holds the sizes of all variables and of the results of all functions. -/
structure KeepsSizes (i : StageInput) : Prop extends i.KeepsVariableSizes where
  results : ∀ f ∈ i.functions, f.KeepsResultSizes i.values

variable (i : StageInput)

theorem declaresWithin_mainText {s : Statement} {ds : List Declaration} (hs : s ∈ i.stage.body)
    (h : s.Writes i.values ds) (hne : ds ≠ []) : DeclaresWithin ds i.mainText := by
  obtain ⟨pieces, heq, hinfix⟩ := (h.infix_pieces 1).1
  obtain ⟨before, declared, after, htext, hdeclares⟩ :=
    declaresWithin_of_infix hne (Statement.infix_allPieces hs heq hinfix)
  rw [Statement.joined_allPieces] at htext
  refine ⟨"void main() \x7b\n" ++ i.transferTexts ++ before, declared, after ++ "\x7d\n", ?_,
    hdeclares⟩
  rw [mainText, htext]
  simp only [String.append_assoc]

/-- **No variable loses its sizes.** -/
theorem keepsVariableSizes : i.KeepsVariableSizes where
  code := by
    intro code hcode
    obtain ⟨-, hcode⟩ := Option.ite_none_left_eq_some.mp hcode
    rw [← Option.some.inj hcode, i.text_eq_items]
  interface := fun x _ => ⟨_, rfl, x.type.declares_declarator x.name⟩
  resources := fun n b _ => ⟨i.resourceBlock_eq n b, fun r _ => r.keepsSizes⟩
  functions := by
    intro f hf
    refine ⟨List.mem_append_left _ (List.mem_append_right _ ?_), rfl⟩
    exact List.mem_map_of_mem hf
  parameters := fun f _ => f.keepsParameterSizes
  locals := fun _ _ _ hbody _ hne h => Function.declaresWithin_text hbody h hne
  entryLocals := fun _ hs _ hne h => i.declaresWithin_mainText hs h hne

/-- **The code holds all sizes if no function returns an array.**  No variable loses its sizes,
whatever else there is; the sizes of results are lost. -/
theorem keepsSizes_iff : i.KeepsVariableSizes ∧ (i.KeepsSizes ↔
    ∀ f ∈ i.functions, ∀ t ∈ f.result, ∀ element sizes, t.Nests element sizes → sizes = []) := by
  refine ⟨i.keepsVariableSizes, fun h f hf => ?_, fun h => ⟨i.keepsVariableSizes, fun f hf => ?_⟩⟩
  · exact Function.keepsResultSizes_iff.mp (h.results f hf)
  · exact Function.keepsResultSizes_iff.mpr (h f hf)

/-- A function that returns its parameter, an array of two numbers. -/
def rampShader : ShaderUnit where
  blocks := [
    .function {
      name := "clamped"
      result := some (.array (.numeric (.single .float)) (some (.int 2)))
      parameters := [
        { name := "ramp", type := .array (.numeric (.single .float)) (some (.int 2)) }]
      body := some (.scope [.giveBack (some (.var "ramp"))]) }]

set_option maxRecDepth 10000 in
/-- **The code does not hold all sizes in general.**  The function of `rampShader` is written as
if it returned a single number, while its parameter keeps the size. -/
theorem rampShader_loses_sizes :
    let i : StageInput :=
      { unit := rampShader, stage := { stage := .fragment }, layout := {}, pipeline := .initial
        values := fun _ => none }
    (render i).source = some
      ("#version 450\n#extension GL_EXT_scalar_block_layout : require\n\n" ++
        "layout(location = 0) out vec4 color0;\n\n" ++
        "float clamped(float ramp[2]) \x7b\n    return ramp;\n\x7d\n\n" ++
        "void main() \x7b\n\x7d\n") ∧
    ¬ i.KeepsSizes := by
  intro i
  refine ⟨by decide, fun h => ?_⟩
  have hsizes := Function.keepsResultSizes_iff.mp (h.results _ (.head _)) _ rfl
    (.numeric (.single .float)) [some (.int 2)] ⟨trivial, rfl⟩
  exact absurd hsizes (List.cons_ne_nil _ _)

end StageInput

end ShaderVariants
