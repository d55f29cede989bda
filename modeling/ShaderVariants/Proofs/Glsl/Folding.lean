import Mathlib
import ShaderVariants.Options.Declared
import ShaderVariants.Proofs.Glsl.Line
import ShaderVariants.Proofs.Options.Valuation

/-!
# Folding selections before code is generated

Selections whose conditions are known are folded while the text of a statement is written.
The same text is written if they are folded in the statement first, by a pass of its own, and
nothing is known about names any more when the result is written.

## Main definitions

* `Statement.fold` — a statement without the selections whose conditions have a value.

## Main results

* `Statement.line_fold` — a statement and its fold have the same line.
* `Statement.sameText_fold` — **the text of a statement is that of its fold** up to runs of
  spaces and line breaks, with no name known in the latter.
-/

namespace ShaderVariants

/-! ### Conditions -/

/-- A valuation knows all that is known where nothing is. -/
theorem Valuation.of_none (v : Valuation) : ∀ name n, none name = some n → v name = some n := by
  intro name n h
  cases h

/-- A condition without a value has none where fewer names have one. -/
theorem Expr.holds?_eq_none_of_mono {v v' : Valuation}
    (h : ∀ name n, v' name = some n → v name = some n) {e : Expr} (he : e.holds? v = none) :
    e.holds? v' = none := by
  rw [holds?, Option.map_eq_none_iff] at he ⊢
  refine Option.eq_none_iff_forall_ne_some.mpr fun value hvalue => ?_
  rw [eval_mono h hvalue] at he
  cases he

namespace Statement

open Glsl

/-! ### Folding -/

mutual

/-- The statement with every selection whose condition has a value replaced by the branch that
is taken, or nothing if there is none.  A body of which nothing is left is empty; the start of a
loop is left alone. -/
def fold (v : Valuation) : Statement → Option Statement
  | .selection condition consequent none =>
    match condition.holds? v with
    | some true => consequent.fold v
    | some false => none
    | none => some (.selection condition ((consequent.fold v).getD .empty) none)
  | .selection condition consequent (some alternative) =>
    match condition.holds? v with
    | some true => consequent.fold v
    | some false => alternative.fold v
    | none =>
      some (.selection condition ((consequent.fold v).getD .empty)
        (some ((alternative.fold v).getD .empty)))
  | .switch value body => some (.switch value (foldAll v body))
  | .forLoop start condition update body =>
    some (.forLoop start condition update ((body.fold v).getD .empty))
  | .whileLoop condition body => some (.whileLoop condition ((body.fold v).getD .empty))
  | .doWhile body condition => some (.doWhile ((body.fold v).getD .empty) condition)
  | .scope body => some (.scope (foldAll v body))
  | .empty => some .empty
  | .declare ds => some (.declare ds)
  | .expression e => some (.expression e)
  | .caseLabel value => some (.caseLabel value)
  | .defaultLabel => some .defaultLabel
  | .giveBack value => some (.giveBack value)
  | .jump kind => some (.jump kind)

/-- What is left of several statements. -/
def foldAll (v : Valuation) : List Statement → List Statement
  | [] => []
  | s :: rest => (s.fold v).toList ++ foldAll v rest

end

variable {v v' : Valuation}

/-! ### Lines -/

theorem orEmpty_line_getD (o : Option Statement) :
    orEmpty ((o.getD .empty).line v) = orEmpty (o.elim "" (line v)) := by
  cases o with
  | none => rfl
  | some s => rfl

theorem allLine_append (body rest : List Statement) :
    allLine v (body ++ rest) = allLine v body ++ allLine v rest := by
  induction body with
  | nil => rw [List.nil_append, allLine, String.empty_append]
  | cons s body ih => rw [List.cons_append, allLine, allLine, ih, String.append_assoc]

theorem allLine_toList (o : Option Statement) : allLine v o.toList = o.elim "" (line v) := by
  cases o with
  | none => rfl
  | some s => rw [Option.toList_some, allLine, allLine, String.append_empty, Option.elim_some]

mutual

/-- A statement and its fold have the same line, also if names have lost their values. -/
theorem line_fold (h : ∀ name n, v' name = some n → v name = some n) :
    ∀ s : Statement, (s.fold v).elim "" (line v') = s.line v
  | .selection condition consequent none => by
    have hconsequent := line_fold h consequent
    rw [fold, line]
    cases hholds : condition.holds? v with
    | some value =>
      cases value with
      | true => exact hconsequent
      | false => rfl
    | none =>
      have hholds' := Expr.holds?_eq_none_of_mono h hholds
      simp only [Option.elim_some, line, hholds', orEmpty_line_getD, hconsequent]
  | .selection condition consequent (some alternative) => by
    have hconsequent := line_fold h consequent
    have halternative := line_fold h alternative
    rw [fold, line]
    cases hholds : condition.holds? v with
    | some value =>
      cases value with
      | true => exact hconsequent
      | false => exact halternative
    | none =>
      have hholds' := Expr.holds?_eq_none_of_mono h hholds
      simp only [Option.elim_some, line, hholds', orEmpty_line_getD, hconsequent, halternative]
  | .switch value body => by
    rw [fold, Option.elim_some, line, line, allLine_foldAll h body]
  | .forLoop start condition update body => by
    rw [fold, Option.elim_some, line, line, orEmpty_line_getD, line_fold h body]
  | .whileLoop condition body => by
    rw [fold, Option.elim_some, line, line, orEmpty_line_getD, line_fold h body]
  | .doWhile body condition => by
    rw [fold, Option.elim_some, line, line, orEmpty_line_getD, line_fold h body]
  | .scope body => by
    rw [fold, Option.elim_some, line, line, allLine_foldAll h body]
  | .empty => rfl
  | .declare _ => rfl
  | .expression _ => rfl
  | .caseLabel _ => rfl
  | .defaultLabel => rfl
  | .giveBack none => rfl
  | .giveBack (some _) => rfl
  | .jump _ => rfl

/-- Statements and what is left of them have the same line. -/
theorem allLine_foldAll (h : ∀ name n, v' name = some n → v name = some n) :
    ∀ body : List Statement, allLine v' (foldAll v body) = allLine v body
  | [] => rfl
  | s :: rest => by
    rw [foldAll, allLine_append, allLine_toList, line_fold h s, allLine_foldAll h rest, allLine]

end

/-! ### Texts -/

/-- The text of a statement begins as that of its fold does. -/
theorem head?_text_fold (h : ∀ name n, v' name = some n → v name = some n) :
    ∀ (s : Statement) (depth : ℕ),
      (s.text v depth).toList.head? = ((s.fold v).elim "" (text v' depth)).toList.head?
  | .selection condition consequent none, depth => by
    have hconsequent := head?_text_fold h consequent depth
    rw [fold, text]
    cases hholds : condition.holds? v with
    | some value =>
      cases value with
      | true => exact hconsequent
      | false => rfl
    | none =>
      have hholds' := Expr.holds?_eq_none_of_mono h hholds
      simp [text, hholds']
  | .selection condition consequent (some alternative), depth => by
    have hconsequent := head?_text_fold h consequent depth
    have halternative := head?_text_fold h alternative depth
    rw [fold, text]
    cases hholds : condition.holds? v with
    | some value =>
      cases value with
      | true => exact hconsequent
      | false => exact halternative
    | none =>
      have hholds' := Expr.holds?_eq_none_of_mono h hholds
      simp [text, hholds']
  | .switch _ _, _ => by simp [fold, text]
  | .forLoop _ _ _ _, _ => by simp [fold, text]
  | .whileLoop _ _, _ => by simp [fold, text]
  | .doWhile _ _, _ => by simp [fold, text]
  | .scope _, _ => by simp [fold, text]
  | .empty, _ => rfl
  | .declare _, _ => rfl
  | .expression _, _ => rfl
  | .caseLabel _, _ => rfl
  | .defaultLabel, _ => rfl
  | .giveBack none, _ => rfl
  | .giveBack (some _), _ => rfl
  | .jump _, _ => rfl

/-- Names may lose their values once selections have been folded. -/
theorem sameText_fold_of_mono (h : ∀ name n, v' name = some n → v name = some n) (s : Statement)
    (depth : ℕ) : SameText (s.text v depth) ((s.fold v).elim "" (text v' depth)) := by
  have hfold : SameText (" " ++ (s.fold v).elim "" (text v' depth))
      (" " ++ (s.fold v).elim "" (line v')) := by
    cases s.fold v with
    | none => exact .refl _
    | some s' => exact sameText_line s' depth
  rw [line_fold h] at hfold
  exact .of_behind ((sameText_line s depth).trans hfold.symm) (by rw [head?_text_fold h])

/-- **The text of a statement is that of its fold, with no name known in it.** -/
theorem sameText_fold (v : Valuation) (s : Statement) (depth : ℕ) :
    SameText (s.text v depth) ((s.fold v).elim "" (text Valuation.none depth)) :=
  sameText_fold_of_mono v.of_none s depth

end Statement

end ShaderVariants
