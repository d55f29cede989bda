import Mathlib
import ShaderVariants.Syntax.Unit

/-!
# Where expressions occur

An expression occurs in another one if it is that or occurs in one of its operands, and in a
type, a declaration, a statement, a function or a stage if it occurs in an expression there.
This is said here without listing anything, one rule for each place.  The lists of nodes hold
just what occurs.

## Main definitions

* `Expr.Within` — an expression occurs in another one.
* `DataType.Holds`, `Declaration.Holds`, `Statement.Holds`, `Function.Holds`,
  `StageBlock.Holds` — it occurs in code.

## Main results

* `Expr.mem_nodes`, `Statement.mem_nodes` — **the nodes are what occurs**.
* `StageBlock.mem_nodes`, `Function.mem_nodes` — so they are for a whole stage or function.
-/

namespace ShaderVariants

variable {x : Expr}

/-! ### Expressions -/

/-- The expression `x` is the other one, or it occurs in one of its operands. -/
inductive Expr.Within (x : Expr) : Expr → Prop where
  | self : Within x x
  | function {function : Expr} {arguments : List Expr} :
    Within x function → Within x (.call function arguments)
  | argument {function e : Expr} {arguments : List Expr} :
    e ∈ arguments → Within x e → Within x (.call function arguments)
  | array {array position : Expr} : Within x array → Within x (.index array position)
  | position {array position : Expr} : Within x position → Within x (.index array position)
  | parent {parent : Expr} {name : String} : Within x parent → Within x (.member parent name)
  | postfixed {op : PostfixOp} {operand : Expr} :
    Within x operand → Within x (.postfixed op operand)
  | unary {op : UnaryOp} {operand : Expr} : Within x operand → Within x (.unary op operand)
  | left {op : BinaryOp} {left right : Expr} : Within x left → Within x (.binary op left right)
  | right {op : BinaryOp} {left right : Expr} : Within x right → Within x (.binary op left right)
  | condition {condition consequent alternative : Expr} :
    Within x condition → Within x (.conditional condition consequent alternative)
  | consequent {condition consequent alternative : Expr} :
    Within x consequent → Within x (.conditional condition consequent alternative)
  | alternative {condition consequent alternative : Expr} :
    Within x alternative → Within x (.conditional condition consequent alternative)

namespace Expr

theorem mem_nodes_self (e : Expr) : e ∈ e.nodes := by
  cases e <;> simp [nodes]

theorem mem_allNodes {es : List Expr} : x ∈ allNodes es ↔ ∃ e ∈ es, x ∈ e.nodes := by
  induction es with
  | nil => simp [allNodes]
  | cons e es ih => simp [allNodes, ih]

theorem Within.mem_nodes {e : Expr} (h : x.Within e) : x ∈ e.nodes := by
  induction h with
  | self => exact mem_nodes_self x
  | argument he _ ih => simp only [nodes, List.mem_cons, List.mem_append, mem_allNodes]; grind
  | _ => simp [nodes, *]

mutual

theorem within_of_mem_nodes : ∀ e : Expr, x ∈ e.nodes → x.Within e
  | .int _, h | .real _, h | .var _, h => List.mem_singleton.mp h ▸ .self
  | .call function arguments, h => by
    rcases List.mem_cons.mp h with rfl | h
    · exact .self
    rcases List.mem_append.mp h with h | h
    · exact .function (within_of_mem_nodes function h)
    · obtain ⟨e, he, hwithin⟩ := exists_within_of_mem_allNodes arguments h
      exact .argument he hwithin
  | .index array position, h => by
    rcases List.mem_cons.mp h with rfl | h
    · exact .self
    rcases List.mem_append.mp h with h | h
    · exact .array (within_of_mem_nodes array h)
    · exact .position (within_of_mem_nodes position h)
  | .member parent _, h => by
    rcases List.mem_cons.mp h with rfl | h
    · exact .self
    · exact .parent (within_of_mem_nodes parent h)
  | .postfixed _ operand, h => by
    rcases List.mem_cons.mp h with rfl | h
    · exact .self
    · exact .postfixed (within_of_mem_nodes operand h)
  | .unary _ operand, h => by
    rcases List.mem_cons.mp h with rfl | h
    · exact .self
    · exact .unary (within_of_mem_nodes operand h)
  | .binary _ left right, h => by
    rcases List.mem_cons.mp h with rfl | h
    · exact .self
    rcases List.mem_append.mp h with h | h
    · exact .left (within_of_mem_nodes left h)
    · exact .right (within_of_mem_nodes right h)
  | .conditional condition consequent alternative, h => by
    rcases List.mem_cons.mp h with rfl | h
    · exact .self
    rcases List.mem_append.mp h with h | h
    · rcases List.mem_append.mp h with h | h
      · exact .condition (within_of_mem_nodes condition h)
      · exact .consequent (within_of_mem_nodes consequent h)
    · exact .alternative (within_of_mem_nodes alternative h)

theorem exists_within_of_mem_allNodes : ∀ es : List Expr, x ∈ allNodes es →
    ∃ e ∈ es, x.Within e
  | [], h => absurd h List.not_mem_nil
  | e :: es, h => by
    rcases List.mem_append.mp h with h | h
    · exact ⟨e, .head _, within_of_mem_nodes e h⟩
    · obtain ⟨e', he', hwithin⟩ := exists_within_of_mem_allNodes es h
      exact ⟨e', .tail _ he', hwithin⟩

end

/-- **The nodes of an expression are what occurs in it.** -/
theorem mem_nodes {e : Expr} : x ∈ e.nodes ↔ x.Within e :=
  ⟨within_of_mem_nodes e, Within.mem_nodes⟩

theorem name?_eq_some {e : Expr} {name : String} : e.name? = some name ↔ e = .var name := by
  cases e <;> simp [name?]

/-- The nodes of an optional expression. -/
theorem mem_nodes_getD {e : Option Expr} :
    x ∈ (e.map nodes).getD [] ↔ ∃ e' ∈ e, x.Within e' := by
  cases e <;> simp [mem_nodes]

end Expr

/-! ### Types and declarations -/

/-- The expression occurs in the size of an array within the type. -/
inductive DataType.Holds (x : Expr) : DataType → Prop where
  | content {content : DataType} : Holds x content → Holds x (.buffer content)
  | element {element : DataType} {size : Option Expr} :
    Holds x element → Holds x (.array element size)
  | size {element : DataType} {size : Expr} : x.Within size → Holds x (.array element (some size))

theorem DataType.mem_nodes : ∀ {t : DataType}, x ∈ t.nodes ↔ t.Holds x
  | .numeric _ | .image _ | .sampler | .named _ =>
    ⟨fun h => absurd h List.not_mem_nil, fun h => nomatch h⟩
  | .buffer content => by
    rw [nodes, mem_nodes]
    exact ⟨.content, fun | .content h => h⟩
  | .array element none => by
    rw [nodes, mem_nodes]
    exact ⟨.element, fun | .element h => h⟩
  | .array element (some size) => by
    rw [nodes, List.mem_append, mem_nodes, Expr.mem_nodes]
    exact ⟨fun h => h.elim .element .size, fun | .element h => .inl h | .size h => .inr h⟩

/-- The expression occurs in the type of the declaration or in its first value. -/
def Declaration.Holds (x : Expr) (d : Declaration) : Prop :=
  d.type.Holds x ∨ ∃ e ∈ d.initializer, x.Within e

theorem Declaration.mem_nodes {d : Declaration} : x ∈ d.nodes ↔ d.Holds x := by
  rw [nodes, List.mem_append, DataType.mem_nodes, Expr.mem_nodes_getD]
  rfl

/-! ### Statements -/

/-- The expression occurs in the statement. -/
inductive Statement.Holds (x : Expr) : Statement → Prop where
  | declare {ds : List Declaration} {d : Declaration} :
    d ∈ ds → d.Holds x → Holds x (.declare ds)
  | expression {e : Expr} : x.Within e → Holds x (.expression e)
  | condition {condition : Expr} {consequent : Statement} {alternative : Option Statement} :
    x.Within condition → Holds x (.selection condition consequent alternative)
  | consequent {condition : Expr} {consequent : Statement} {alternative : Option Statement} :
    Holds x consequent → Holds x (.selection condition consequent alternative)
  | alternative {condition : Expr} {consequent alternative : Statement} :
    Holds x alternative → Holds x (.selection condition consequent (some alternative))
  | switchValue {value : Expr} {body : List Statement} :
    x.Within value → Holds x (.switch value body)
  | switchBody {value : Expr} {body : List Statement} {s : Statement} :
    s ∈ body → Holds x s → Holds x (.switch value body)
  | caseLabel {value : Expr} : x.Within value → Holds x (.caseLabel value)
  | forStart {start body : Statement} {condition : Expr} {update : Option Expr} :
    Holds x start → Holds x (.forLoop start condition update body)
  | forCondition {start body : Statement} {condition : Expr} {update : Option Expr} :
    x.Within condition → Holds x (.forLoop start condition update body)
  | forUpdate {start body : Statement} {condition update : Expr} :
    x.Within update → Holds x (.forLoop start condition (some update) body)
  | forBody {start body : Statement} {condition : Expr} {update : Option Expr} :
    Holds x body → Holds x (.forLoop start condition update body)
  | whileCondition {condition : Expr} {body : Statement} :
    x.Within condition → Holds x (.whileLoop condition body)
  | whileBody {condition : Expr} {body : Statement} :
    Holds x body → Holds x (.whileLoop condition body)
  | doBody {condition : Expr} {body : Statement} :
    Holds x body → Holds x (.doWhile body condition)
  | doCondition {condition : Expr} {body : Statement} :
    x.Within condition → Holds x (.doWhile body condition)
  | giveBack {value : Expr} : x.Within value → Holds x (.giveBack (some value))
  | scope {body : List Statement} {s : Statement} : s ∈ body → Holds x s → Holds x (.scope body)

namespace Statement

theorem mem_allNodes_of_mem {body : List Statement} {s : Statement} (hs : s ∈ body)
    (h : x ∈ s.nodes) : x ∈ allNodes body := by
  induction hs with
  | head _ => exact List.mem_append_left _ h
  | tail _ _ ih => exact List.mem_append_right _ ih

theorem Holds.mem_nodes {s : Statement} (h : s.Holds x) : x ∈ s.nodes := by
  induction h with
  | declare hd h => exact List.mem_flatMap.mpr ⟨_, hd, Declaration.mem_nodes.mpr h⟩
  | @condition condition consequent alternative h =>
    cases alternative <;> simp [nodes, h.mem_nodes]
  | @consequent condition consequent alternative _ ih =>
    cases alternative <;> simp [nodes, ih]
  | switchBody hs _ ih => exact List.mem_append_right _ (mem_allNodes_of_mem hs ih)
  | scope hs _ ih => exact mem_allNodes_of_mem hs ih
  | _ => simp [nodes, Expr.mem_nodes, *]

mutual

theorem holds_of_mem_nodes : ∀ s : Statement, x ∈ s.nodes → s.Holds x
  | .empty, h | .defaultLabel, h | .jump _, h | .giveBack none, h => absurd h List.not_mem_nil
  | .declare ds, h => by
    obtain ⟨d, hd, h⟩ := List.mem_flatMap.mp h
    exact .declare hd (Declaration.mem_nodes.mp h)
  | .expression _, h => .expression (Expr.mem_nodes.mp h)
  | .caseLabel _, h => .caseLabel (Expr.mem_nodes.mp h)
  | .selection _ consequent none, h => by
    rcases List.mem_append.mp h with h | h
    · exact .condition (Expr.mem_nodes.mp h)
    · exact .consequent (holds_of_mem_nodes consequent h)
  | .selection _ consequent (some alternative), h => by
    rcases List.mem_append.mp h with h | h
    · rcases List.mem_append.mp h with h | h
      · exact .condition (Expr.mem_nodes.mp h)
      · exact .consequent (holds_of_mem_nodes consequent h)
    · exact .alternative (holds_of_mem_nodes alternative h)
  | .switch _ body, h => by
    rcases List.mem_append.mp h with h | h
    · exact .switchValue (Expr.mem_nodes.mp h)
    · obtain ⟨s, hs, h⟩ := exists_holds_of_mem_allNodes body h
      exact .switchBody hs h
  | .forLoop start _ update body, h => by
    rcases List.mem_append.mp h with h | h
    · rcases List.mem_append.mp h with h | h
      · rcases List.mem_append.mp h with h | h
        · exact .forStart (holds_of_mem_nodes start h)
        · exact .forCondition (Expr.mem_nodes.mp h)
      · obtain ⟨e, rfl, hwithin⟩ := Expr.mem_nodes_getD.mp h
        exact .forUpdate hwithin
    · exact .forBody (holds_of_mem_nodes body h)
  | .whileLoop _ body, h => by
    rcases List.mem_append.mp h with h | h
    · exact .whileCondition (Expr.mem_nodes.mp h)
    · exact .whileBody (holds_of_mem_nodes body h)
  | .doWhile body _, h => by
    rcases List.mem_append.mp h with h | h
    · exact .doCondition (Expr.mem_nodes.mp h)
    · exact .doBody (holds_of_mem_nodes body h)
  | .giveBack (some _), h => .giveBack (Expr.mem_nodes.mp h)
  | .scope body, h => by
    obtain ⟨s, hs, h⟩ := exists_holds_of_mem_allNodes body h
    exact .scope hs h

theorem exists_holds_of_mem_allNodes : ∀ body : List Statement, x ∈ allNodes body →
    ∃ s ∈ body, s.Holds x
  | [], h => absurd h List.not_mem_nil
  | s :: rest, h => by
    rcases List.mem_append.mp h with h | h
    · exact ⟨s, .head _, holds_of_mem_nodes s h⟩
    · obtain ⟨s', hs', h⟩ := exists_holds_of_mem_allNodes rest h
      exact ⟨s', .tail _ hs', h⟩

end

/-- **The nodes of a statement are what occurs in it.** -/
theorem mem_nodes {s : Statement} : x ∈ s.nodes ↔ s.Holds x :=
  ⟨holds_of_mem_nodes s, Holds.mem_nodes⟩

theorem mem_allNodes {body : List Statement} : x ∈ allNodes body ↔ ∃ s ∈ body, s.Holds x := by
  refine ⟨exists_holds_of_mem_allNodes body, ?_⟩
  rintro ⟨s, hs, h⟩
  exact mem_allNodes_of_mem hs h.mem_nodes

end Statement

/-! ### Functions and stages -/

/-- The expression occurs in the types of the function or in its body. -/
def Function.Holds (x : Expr) (f : Function) : Prop :=
  (∃ t ∈ f.result, t.Holds x) ∨ (∃ d ∈ f.parameters, d.Holds x) ∨ ∃ s ∈ f.body, s.Holds x

theorem Function.mem_nodes {f : Function} : x ∈ f.nodes ↔ f.Holds x := by
  have hresult : x ∈ (f.result.map DataType.nodes).getD [] ↔ ∃ t ∈ f.result, t.Holds x := by
    cases f.result <;> simp [DataType.mem_nodes]
  have hbody : x ∈ (f.body.map Statement.nodes).getD [] ↔ ∃ s ∈ f.body, s.Holds x := by
    cases f.body <;> simp [Statement.mem_nodes]
  simp only [nodes, Holds, List.mem_append, List.mem_flatMap, Declaration.mem_nodes, hresult, hbody,
    or_assoc]

/-- The expression occurs in the condition of the stage, in its functions or in the body of its
entry function. -/
def StageBlock.Holds (x : Expr) (b : StageBlock) : Prop :=
  (∃ c ∈ b.condition, x.Within c.expr) ∨ (∃ f ∈ b.functions, f.Holds x) ∨ ∃ s ∈ b.body, s.Holds x

theorem StageBlock.mem_nodes {b : StageBlock} : x ∈ b.nodes ↔ b.Holds x := by
  have hcondition : x ∈ (b.condition.map (·.expr.nodes)).getD [] ↔
      ∃ c ∈ b.condition, x.Within c.expr := by
    cases b.condition <;> simp [Expr.mem_nodes]
  simp only [nodes, Holds, List.mem_append, List.mem_flatMap, Function.mem_nodes,
    Statement.mem_allNodes, hcondition, or_assoc]

end ShaderVariants
