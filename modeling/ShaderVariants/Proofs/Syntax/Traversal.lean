import Mathlib
import ShaderVariants.Syntax.Unit

/-!
# Walks through the syntax

The lists of nodes are walks: they come to the expressions of a piece of syntax one after the
other.  Equal expressions can stand at several places, so what a walk comes to is told apart by
its place alone: the numbers of the parts that lead there from the root.  Every walk comes to each
place where an expression stands exactly once, and to an expression before the expressions in it.

What a piece of syntax is made of is said once for each constructor, in the order in which its parts
are written.  Walks may go through the parts in another order; nothing here depends on it.

## Main definitions

* `SyntaxTree` — whatever can be walked through; `SyntaxTree.parts` — what it is made of.
* `SyntaxTree.exprAt?` — the expression at the end of a path.
* `SyntaxTree.Tour` — a list that visits each expression once, the outer ones first.

## Main results

* `SyntaxTree.nodes_eq` — a walk comes to the expression itself and goes on through its parts.
* `SyntaxTree.parts_induction` — what the parts hand on to the whole holds of every piece.
* `SyntaxTree.Tour.of_parts` — tours of all parts join to a tour of the whole.
* `SyntaxTree.exists_tour` — **every walk is a tour**.
-/

namespace ShaderVariants

/-! ### Trees and their parts -/

/-- A piece of syntax of any kind. -/
inductive SyntaxTree where
  | expr (expr : Expr)
  | type (type : DataType)
  | declaration (declaration : Declaration)
  | statement (statement : Statement)
  | function (function : Function)
  | stage (block : StageBlock)
  | storage (block : StorageBlock)
  deriving Repr, Inhabited

/-- The parts of an expression. -/
def Expr.parts : Expr → List SyntaxTree
  | .int _ | .real _ | .var _ => []
  | .call function arguments => .expr function :: arguments.map .expr
  | .index array position => [.expr array, .expr position]
  | .member parent _ => [.expr parent]
  | .postfixed _ operand => [.expr operand]
  | .unary _ operand => [.expr operand]
  | .binary _ left right => [.expr left, .expr right]
  | .conditional condition consequent alternative =>
    [.expr condition, .expr consequent, .expr alternative]

/-- The parts of a type: what a buffer holds, and the element and the size of an array. -/
def DataType.parts : DataType → List SyntaxTree
  | .numeric _ | .image _ | .sampler | .named _ => []
  | .buffer content => [.type content]
  | .array element size => .type element :: size.toList.map .expr

/-- The parts of a statement, in the order in which they are written. -/
def Statement.parts : Statement → List SyntaxTree
  | .empty | .defaultLabel | .jump _ => []
  | .declare declarations => declarations.map .declaration
  | .expression expr => [.expr expr]
  | .selection condition consequent alternative =>
    .expr condition :: .statement consequent :: alternative.toList.map .statement
  | .switch value body => .expr value :: body.map .statement
  | .caseLabel value => [.expr value]
  | .forLoop start condition update body =>
    .statement start :: .expr condition :: (update.toList.map .expr ++ [.statement body])
  | .whileLoop condition body => [.expr condition, .statement body]
  | .doWhile body condition => [.statement body, .expr condition]
  | .giveBack value => value.toList.map .expr
  | .scope body => body.map .statement

namespace SyntaxTree

/-- What a piece of syntax is directly made of, in the order in which it is written. -/
def parts : SyntaxTree → List SyntaxTree
  | .expr e => e.parts
  | .type t => t.parts
  | .declaration d => .type d.type :: d.initializer.toList.map .expr
  | .statement s => s.parts
  | .function f =>
    f.result.toList.map .type ++ f.parameters.map .declaration ++ f.body.toList.map .statement
  | .stage b =>
    b.condition.toList.map (fun c => .expr c.expr) ++ b.functions.map .function ++
      b.body.map .statement
  | .storage b =>
    b.condition.toList.map (fun c => .expr c.expr) ++ b.declarations.map .declaration

/-- The expression, if the whole piece is one. -/
def expr? : SyntaxTree → Option Expr
  | .expr e => some e
  | _ => none

/-- The walk through a piece of syntax. -/
def nodes : SyntaxTree → List Expr
  | .expr e => e.nodes
  | .type t => t.nodes
  | .declaration d => d.nodes
  | .statement s => s.nodes
  | .function f => f.nodes
  | .stage b => b.nodes
  | .storage b => b.nodes

/-- The expression at the end of a path; the path says which part to enter at each step. -/
def exprAt? (t : SyntaxTree) : List ℕ → Option Expr
  | [] => t.expr?
  | i :: path => t.parts[i]?.bind fun part => part.exprAt? path

/-- The list `visited` comes to the expressions of `t` at the places `paths`, one after the other.
It is the places that are told apart: the expressions at two of them can be equal. -/
structure Tour (t : SyntaxTree) (visited : List Expr) (paths : List (List ℕ)) : Prop where
  /-- What is visited is the expression that stands at the place. -/
  at_path : paths.map t.exprAt? = visited.map some
  /-- No place where an expression stands is left out. -/
  complete : ∀ path, (t.exprAt? path).isSome → path ∈ paths
  /-- No place is visited again. -/
  once : paths.Nodup
  /-- No place is visited after a place in it. -/
  outer_first : paths.Pairwise fun earlier later => ¬ later <+: earlier

theorem exprAt?_cons_of_getElem? {t part : SyntaxTree} {i : ℕ} (h : t.parts[i]? = some part)
    (path : List ℕ) : t.exprAt? (i :: path) = part.exprAt? path := by
  rw [exprAt?, h, Option.bind_some]

theorem exists_part_of_exprAt? {t : SyntaxTree} {i : ℕ} {path : List ℕ}
    (h : (t.exprAt? (i :: path)).isSome) :
    ∃ part, t.parts[i]? = some part ∧ (part.exprAt? path).isSome := by
  rw [exprAt?, Option.isSome_bind, Option.any_eq_true] at h
  obtain ⟨part, hpart, hpath⟩ := h
  exact ⟨part, hpart, hpath⟩

/-! ### One step of a walk -/

/-- The parts with their numbers, in the order in which a walk goes through them.  In a loop that
is tested at its end, the condition comes before the body. -/
def route : SyntaxTree → List (SyntaxTree × ℕ)
  | .statement (.doWhile body condition) => [(.expr condition, 1), (.statement body, 0)]
  | t => t.parts.zipIdx

theorem perm_route (t : SyntaxTree) : t.route.Perm t.parts.zipIdx := by
  unfold route
  split
  · exact List.Perm.swap (SyntaxTree.statement _, 0) (SyntaxTree.expr _, 1) []
  · exact .refl _

theorem mem_route {t part : SyntaxTree} {i : ℕ} :
    (part, i) ∈ t.route ↔ t.parts[i]? = some part := by
  rw [t.perm_route.mem_iff, List.mk_mem_zipIdx_iff_getElem?]

theorem nodup_map_snd_route (t : SyntaxTree) : (t.route.map Prod.snd).Nodup := by
  rw [(t.perm_route.map Prod.snd).nodup_iff, List.zipIdx_map_snd]
  exact List.nodup_range'

@[simp] theorem nodes_expr (e : Expr) : (expr e).nodes = e.nodes := rfl

@[simp] theorem nodes_type (t : DataType) : (type t).nodes = t.nodes := rfl

@[simp] theorem nodes_declaration (d : Declaration) : (declaration d).nodes = d.nodes := rfl

@[simp] theorem nodes_statement (s : Statement) : (statement s).nodes = s.nodes := rfl

@[simp] theorem nodes_function (f : Function) : (function f).nodes = f.nodes := rfl

theorem allNodes_expr (es : List Expr) : Expr.allNodes es = es.flatMap Expr.nodes := by
  induction es with
  | nil => rfl
  | cons e es ih => rw [Expr.allNodes, ih, List.flatMap_cons]

theorem allNodes_statement (body : List Statement) :
    Statement.allNodes body = body.flatMap Statement.nodes := by
  induction body with
  | nil => rfl
  | cons s rest ih => rw [Statement.allNodes, ih, List.flatMap_cons]

/-- A walk through an expression comes to the expression first. -/
theorem nodes_expr_eq (e : Expr) : e.nodes = e :: e.parts.flatMap nodes := by
  cases e <;> simp [Expr.nodes, Expr.parts, allNodes_expr, List.flatMap_map]

theorem nodes_type_eq (t : DataType) : t.nodes = t.parts.flatMap nodes := by
  cases t with
  | array element size => cases size <;> simp [DataType.nodes, DataType.parts]
  | _ => simp [DataType.nodes, DataType.parts]

theorem nodes_statement_eq (s : Statement) :
    s.nodes = ((statement s).route.map Prod.fst).flatMap nodes := by
  cases s with
  | selection condition consequent alternative =>
    cases alternative <;> simp [Statement.nodes, route, parts, Statement.parts]
  | forLoop start condition update body =>
    cases update <;> simp [Statement.nodes, route, parts, Statement.parts]
  | giveBack value => cases value <;> simp [Statement.nodes, route, parts, Statement.parts]
  | _ =>
    simp [Statement.nodes, route, parts, Statement.parts, allNodes_statement, List.flatMap_map]

/-- A walk comes to the expression itself, if it is in one, and goes on through the parts. -/
theorem nodes_eq (t : SyntaxTree) :
    t.nodes = t.expr?.toList ++ (t.route.map Prod.fst).flatMap nodes := by
  cases t with
  | expr e => simp [nodes_expr_eq e, expr?, route, parts]
  | type t => simp [nodes_type_eq t, expr?, route, parts]
  | declaration d =>
    cases h : d.initializer <;> simp [nodes, Declaration.nodes, expr?, route, parts, h]
  | statement s => exact nodes_statement_eq s
  | function f =>
    cases hresult : f.result <;> cases hbody : f.body <;>
      simp [nodes, Function.nodes, expr?, route, parts, List.flatMap_map, hresult, hbody]
  | stage b =>
    cases h : b.condition <;>
      simp [nodes, StageBlock.nodes, expr?, route, parts, List.flatMap_map, allNodes_statement, h]
  | storage b =>
    cases h : b.condition <;>
      simp [nodes, StorageBlock.nodes, expr?, route, parts, List.flatMap_map, h]

/-! ### Induction on the parts -/

theorem sizeOf_expr_lt_condition (c : Condition) : sizeOf c.expr < sizeOf c := by
  cases c
  simp only [Condition.mk.sizeOf_spec]
  omega

/-- Every part lies inside the whole, so that a walk comes to an end. -/
theorem sizeOf_lt_of_mem_parts {t part : SyntaxTree} (h : part ∈ t.parts) :
    sizeOf part < sizeOf t := by
  cases t with
  | expr e => cases e <;> grind [parts, Expr.parts, → List.sizeOf_lt_of_mem]
  | type t => cases t <;> grind [parts, DataType.parts]
  | declaration d => cases d; grind [parts]
  | statement s => cases s <;> grind [parts, Statement.parts, → List.sizeOf_lt_of_mem]
  | function f => cases f; grind [parts, → List.sizeOf_lt_of_mem]
  | stage b => cases b; grind [parts, → List.sizeOf_lt_of_mem, sizeOf_expr_lt_condition]
  | storage b => cases b; grind [parts, → List.sizeOf_lt_of_mem, sizeOf_expr_lt_condition]

/-- What holds of a piece of syntax as soon as it holds of all its parts holds of every piece,
whatever its kind and the kinds of its parts. -/
@[elab_as_elim]
theorem parts_induction {motive : SyntaxTree → Prop}
    (step : ∀ t : SyntaxTree, (∀ part ∈ t.parts, motive part) → motive t) (t : SyntaxTree) :
    motive t :=
  step t fun part _ => parts_induction step part
termination_by sizeOf t
decreasing_by exact sizeOf_lt_of_mem_parts ‹_›

/-! ### Tours -/

/-- The root, if an expression stands there, and then the places in the parts; `paths` gives the
places in each part. -/
def placesBy (t : SyntaxTree) (paths : SyntaxTree → List (List ℕ)) : List (List ℕ) :=
  t.expr?.toList.map (fun _ => []) ++
    t.route.flatMap fun step => (paths step.1).map (step.2 :: ·)

section

variable {t : SyntaxTree} {paths : SyntaxTree → List (List ℕ)}

theorem map_exprAt?_placesBy
    (h : ∀ part ∈ t.parts, (paths part).map part.exprAt? = part.nodes.map some) :
    (t.placesBy paths).map t.exprAt? = t.nodes.map some := by
  have hroot : (t.expr?.toList.map fun _ => []).map t.exprAt? = t.expr?.toList.map some := by
    cases hexpr : t.expr? <;> simp [exprAt?, hexpr]
  have hparts : ∀ step ∈ t.route,
      ((paths step.1).map (step.2 :: ·)).map t.exprAt? = step.1.nodes.map some := by
    rintro ⟨part, i⟩ hstep
    have hpart := mem_route.mp hstep
    rw [← h part (List.mem_of_getElem? hpart), List.map_map]
    exact List.map_congr_left fun path _ => exprAt?_cons_of_getElem? hpart path
  rw [placesBy, List.map_append, List.map_flatMap, hroot, List.flatMap_congr hparts, nodes_eq,
    List.map_append, List.map_flatMap, List.flatMap_map]

theorem mem_placesBy (h : ∀ part ∈ t.parts, ∀ path, (part.exprAt? path).isSome → path ∈ paths part)
    {path : List ℕ} (hpath : (t.exprAt? path).isSome) : path ∈ t.placesBy paths := by
  cases path with
  | nil =>
    obtain ⟨e, he⟩ := Option.isSome_iff_exists.mp hpath
    refine List.mem_append_left _ (List.mem_map.mpr ⟨e, ?_, rfl⟩)
    exact Option.mem_toList.mpr he
  | cons i rest =>
    obtain ⟨part, hpart, hrest⟩ := exists_part_of_exprAt? hpath
    refine List.mem_append_right _ (List.mem_flatMap.mpr ⟨(part, i), mem_route.mpr hpart, ?_⟩)
    exact List.mem_map_of_mem (h part (List.mem_of_getElem? hpart) rest hrest)

theorem pairwise_placesBy
    (h : ∀ part ∈ t.parts, (paths part).Pairwise fun earlier later => ¬ later <+: earlier) :
    (t.placesBy paths).Pairwise fun earlier later => ¬ later <+: earlier := by
  have hroot : (t.expr?.toList.map fun _ => ([] : List ℕ)).Pairwise
      fun earlier later => ¬ later <+: earlier := by
    cases t.expr? <;> simp
  refine List.pairwise_append.mpr ⟨hroot, List.pairwise_flatMap.mpr ⟨?_, ?_⟩, ?_⟩
  · -- Within one part, the step into it is common to all places.
    rintro ⟨part, i⟩ hstep
    refine List.pairwise_map.mpr ((h part ?_).imp fun hbefore hprefix => ?_)
    · exact List.mem_of_getElem? (mem_route.mp hstep)
    · exact hbefore (List.cons_prefix_cons.mp hprefix).2
  · -- Places in different parts differ in their first step.
    refine (List.pairwise_map.mp t.nodup_map_snd_route).imp fun hne => ?_
    intro earlier hearlier later hlater hprefix
    obtain ⟨_, _, rfl⟩ := List.mem_map.mp hearlier
    obtain ⟨_, _, rfl⟩ := List.mem_map.mp hlater
    exact hne (List.cons_prefix_cons.mp hprefix).1.symm
  · intro earlier hearlier later hlater hprefix
    obtain ⟨_, _, rfl⟩ := List.mem_map.mp hearlier
    obtain ⟨step, _, hlater⟩ := List.mem_flatMap.mp hlater
    obtain ⟨_, _, rfl⟩ := List.mem_map.mp hlater
    exact absurd (List.prefix_nil.mp hprefix) (List.cons_ne_nil _ _)

/-- Tours of all parts join to a tour of the whole. -/
theorem Tour.of_parts (h : ∀ part ∈ t.parts, part.Tour part.nodes (paths part)) :
    t.Tour t.nodes (t.placesBy paths) := by
  have houter := pairwise_placesBy fun part hpart => (h part hpart).outer_first
  have hne : ∀ {p q : List ℕ}, ¬ q <+: p → p ≠ q := by
    rintro p _ hbefore rfl
    exact hbefore List.prefix_rfl
  exact
    { at_path := map_exprAt?_placesBy fun part hpart => (h part hpart).at_path
      complete := fun _ => mem_placesBy fun part hpart => (h part hpart).complete
      once := houter.imp hne
      outer_first := houter }

end

/-- **Every walk is a tour.**  It comes to each place of an expression once: in the sizes of arrays
at any depth, first values, results and parameters, what is called and with what, headers of loops,
labels, conditions and both branches.  It comes to an expression before the expressions in it. -/
theorem exists_tour (t : SyntaxTree) : ∃ paths, t.Tour t.nodes paths := by
  induction t using parts_induction with
  | step t ih =>
    choose! paths hpaths using ih
    exact ⟨t.placesBy paths, .of_parts hpaths⟩

/-- Names within calls, members and positions are found, in the order in which they are read. -/
example :
    (Statement.selection (.binary .eq (.var "Mode") (.int 1))
      (.scope [.expression (.binary .assign (.var "color")
        (.call (.var "texture") [.var "albedo", .member (.var "v") "uv"]))])
      (some (.giveBack (some (.binary .mul (.var "a")
        (.index (.var "b") (.var "i"))))))).nodes.filterMap Expr.name? =
      ["Mode", "color", "texture", "albedo", "v", "a", "b", "i"] := by
  rfl

end SyntaxTree

end ShaderVariants
