import Mathlib
import ShaderVariants.Proofs.Options.Field
import ShaderVariants.Syntax.Unit

/-!
# What conditions see

The value of an expression depends on nothing but the values of the names in it, and
whether it has a value at all depends on nothing but which of those names have one.  For
the values that conditions see, a name has a value or not whatever the option word is, so
a condition can be evaluated for one word exactly if it can be for every other.

## Main definitions

* `Valuation.AgreeOn` — two valuations give the names in some expressions the same values.

## Main results

* `Expr.eval_congr`, `conditionHolds?_congr` — the value of an expression and of a block's
  condition.
* `Expr.eval_mono` — an expression with a value keeps it if more names have one.
* `Expr.isSome_eval_congr`, `isSome_conditionHolds?_filtered` — whether they have one.
* `Valuation.filtered_ofWord_congr` — a name that no invariant option has is seen alike
  in two words that agree outside of the invariance mask.
-/

namespace ShaderVariants

namespace Valuation

/-! ### Agreement on names -/

/-- The two valuations give every name in the expressions the same value. -/
def AgreeOn (es : List Expr) (v v' : Valuation) : Prop :=
  ∀ name ∈ es.filterMap Expr.name?, v name = v' name

variable {v v' : Valuation}

@[simp] theorem agreeOn_append {es fs : List Expr} :
    AgreeOn (es ++ fs) v v' ↔ AgreeOn es v v' ∧ AgreeOn fs v v' := by
  simp only [AgreeOn, List.filterMap_append, List.mem_append, or_imp, forall_and]

theorem AgreeOn.mono {es fs : List Expr} (h : AgreeOn fs v v') (hsub : es ⊆ fs) :
    AgreeOn es v v' := by
  intro name hname
  obtain ⟨e, he, hn⟩ := List.mem_filterMap.mp hname
  exact h name (List.mem_filterMap.mpr ⟨e, hsub he, hn⟩)

theorem AgreeOn.of_cons {e : Expr} {es : List Expr} (h : AgreeOn (e :: es) v v') :
    AgreeOn es v v' := h.mono (List.subset_cons_self e es)

theorem AgreeOn.of_mem_flatMap {α : Type*} {l : List α} {f : α → List Expr}
    (h : AgreeOn (l.flatMap f) v v') {a : α} (ha : a ∈ l) : AgreeOn (f a) v v' :=
  h.mono fun _ he => List.mem_flatMap.mpr ⟨a, ha, he⟩

end Valuation

/-! ### Expressions -/

/-- **The value of an expression depends only on the names in it.** -/
theorem Expr.eval_congr {v v' : Valuation} (e : Expr) (h : Valuation.AgreeOn e.nodes v v') :
    e.eval v = e.eval v' := by
  fun_induction Expr.eval v e with
  | case1 value => rfl
  | case2 name =>
    have hname : v name = v' name := h name (by simp [nodes, name?])
    rw [hname, Expr.eval]
  | case3 operand ih =>
    rw [Expr.eval, ih (by simpa [nodes] using h.of_cons)]
  | case4 op left right ihl ihr =>
    have h' : Valuation.AgreeOn left.nodes v v' ∧ Valuation.AgreeOn right.nodes v v' := by
      simpa [nodes] using h.of_cons
    rw [Expr.eval, ihl h'.1, ihr h'.2]
  | case5 e hint hvar hnot hbin =>
    -- every other expression has no value at all
    rw [Expr.eval] <;> assumption

/-- An expression with a value keeps it if more names have a value. -/
theorem Expr.eval_mono {v v' : Valuation} (h : ∀ name n, v name = some n → v' name = some n)
    {e : Expr} {value : ℤ} (he : e.eval v = some value) : e.eval v' = some value := by
  fun_induction Expr.eval v e generalizing value with
  | case1 n => exact he
  | case2 name =>
    obtain ⟨n, hn, rfl⟩ := Option.map_eq_some_iff.mp he
    rw [Expr.eval, h name n hn, Option.map_some]
  | case3 operand ih =>
    obtain ⟨n, hn, rfl⟩ := Option.map_eq_some_iff.mp he
    rw [Expr.eval, ih hn, Option.map_some]
  | case4 op left right ihl ihr =>
    obtain ⟨a, ha, he⟩ := Option.bind_eq_some_iff.mp he
    obtain ⟨b, hb, he⟩ := Option.bind_eq_some_iff.mp he
    rw [Expr.eval, ihl ha, ihr hb]
    exact he
  | case5 e => cases he

/-- Whether an operator has a truth value does not depend on its operands. -/
theorem BinaryOp.isSome_holds? (op : BinaryOp) (a b a' b' : ℤ) :
    (op.holds? a b).isSome = (op.holds? a' b').isSome := by
  cases op <;> rfl

/-- **Whether an expression has a value depends only on which names have one.** -/
theorem Expr.isSome_eval_congr {v v' : Valuation} (h : ∀ name, (v name).isSome = (v' name).isSome)
    (e : Expr) : (e.eval v).isSome = (e.eval v').isSome := by
  fun_induction Expr.eval v e with
  | case1 value => rfl
  | case2 name => rw [Expr.eval, Option.isSome_map, Option.isSome_map, h name]
  | case3 operand ih => rw [Expr.eval, Option.isSome_map, Option.isSome_map, ih]
  | case4 op left right ihl ihr =>
    rw [Expr.eval]
    -- both sides stop at the same operand, or both come to the operator
    cases hl : left.eval v <;> cases hl' : left.eval v' <;> simp [hl, hl'] at ihl ⊢
    cases hr : right.eval v <;> cases hr' : right.eval v' <;> simp [hr, hr'] at ihr ⊢
    exact op.isSome_holds? _ _ _ _
  | case5 e hint hvar hnot hbin => rw [Expr.eval] <;> assumption

theorem Expr.holds?_congr {v v' : Valuation} {e : Expr} (h : Valuation.AgreeOn e.nodes v v') :
    e.holds? v = e.holds? v' := by
  rw [holds?, holds?, e.eval_congr h]

/-! ### Conditions of blocks -/

theorem conditionHolds?_congr {v v' : Valuation} {condition : Option Condition}
    (h : Valuation.AgreeOn ((condition.map (·.expr.nodes)).getD []) v v') :
    conditionHolds? v condition = conditionHolds? v' condition := by
  cases condition with
  | none => rfl
  | some c => exact Expr.holds?_congr h

/-- A name has a value in what conditions see whatever values are given. -/
theorem Valuation.isSome_filtered (options : List ShaderOption) (v v' : Valuation)
    (name : String) :
    (filtered options v name).isSome = (filtered options v' name).isSome := by
  unfold filtered
  cases namedValue? options name with
  | some index => rfl
  | none => cases options.any (·.name = name) <;> rfl

/-- **Conditions are decided for every variant or for none.** -/
theorem isSome_conditionHolds?_filtered (options : List ShaderOption) (v v' : Valuation)
    (condition : Option Condition) :
    (conditionHolds? (.filtered options v) condition).isSome
      = (conditionHolds? (.filtered options v') condition).isSome := by
  cases condition with
  | none => rfl
  | some c =>
    simp only [conditionHolds?, Expr.holds?, Option.isSome_map]
    exact c.expr.isSome_eval_congr (Valuation.isSome_filtered options v v')

/-! ### Words that agree outside of the invariance mask -/

/-- A name that no invariant option has is seen alike in two words that agree outside of
the invariance mask. -/
theorem Valuation.filtered_ofWord_congr {ds : List OptionDeclaration} {name : String}
    (hname : ∀ o ∈ OptionDeclaration.pack ds, o.name = name → o.invariant = false)
    {w w' : OptionWord}
    (h : OptionWord.AgreeOutside (invarianceMask (OptionDeclaration.pack ds)) w w') :
    filtered (OptionDeclaration.pack ds) (ofWord (OptionDeclaration.pack ds) w) name
      = filtered (OptionDeclaration.pack ds) (ofWord (OptionDeclaration.pack ds) w') name := by
  have hword : ofWord (OptionDeclaration.pack ds) w name
      = ofWord (OptionDeclaration.pack ds) w' name := by
    unfold ofWord
    cases ho : (OptionDeclaration.pack ds).find? (·.name = name) with
    | none => rfl
    | some o =>
      have hmem := List.mem_of_find?_eq_some ho
      have hn : o.name = name := by simpa using List.find?_some ho
      simp only [Option.map_some, ShaderOption.field_eq_of_agreeOutside hmem (hname o hmem hn) h]
  unfold filtered
  rw [hword]

end ShaderVariants
