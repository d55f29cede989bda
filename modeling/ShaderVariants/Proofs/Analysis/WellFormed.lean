import Mathlib
import ShaderVariants.Proofs.Analysis.Acceptance

/-!
# Well-formed sources

The analysis of a source is a handful of passes, each of which remembers what it has seen
and compares the next item with the first one of its name.  What it accepts can be said
without any order: a source is accepted exactly if it is well-formed.

## Main definitions

* `Expr.IsPredicate known` — a condition on the names in `known`, as a language.
* `ShaderUnit.Knows` — the names of options and of named values.
* `ShaderUnit.WellFormed` — what a source has to be like.

## Main results

* `Expr.isSome_eval_iff` — the expressions with a value are the predicates on known names.
* `namedValue?_isSome_iff`, `ShaderUnit.isSome_filtered_iff` — the names that have a value.
* `ShaderUnit.hasFailure_diagnoseInstancing` — what the check of the instancing option
  accepts.
* `ShaderUnit.isSound_iff_wellFormed` — **acceptance is exact.**
-/

namespace ShaderVariants

/-! ### Predicates -/

/-- The six comparisons and the three connectives. -/
def BinaryOp.IsLogical (op : BinaryOp) : Prop :=
  op ∈ [BinaryOp.less, .greater, .lessEq, .greaterEq, .eq, .notEq, .and, .or, .xor]

theorem BinaryOp.isSome_holds?_iff (op : BinaryOp) (a b : ℤ) :
    (op.holds? a b).isSome = true ↔ op.IsLogical := by
  cases op <;> simp [holds?, IsLogical]

namespace Expr

/-- The expression is built from integer literals, known names, logical not, comparisons and
connectives, and from nothing else. -/
inductive IsPredicate (known : String → Prop) : Expr → Prop where
  | int (value : ℤ) : IsPredicate known (.int value)
  | var {name : String} (h : known name) : IsPredicate known (.var name)
  | not {operand : Expr} (h : IsPredicate known operand) :
    IsPredicate known (.unary .not operand)
  | logical {op : BinaryOp} {left right : Expr} (hop : op.IsLogical)
    (hleft : IsPredicate known left) (hright : IsPredicate known right) :
    IsPredicate known (.binary op left right)

theorem IsPredicate.congr {known known' : String → Prop} (h : ∀ name, known name ↔ known' name)
    {e : Expr} : e.IsPredicate known ↔ e.IsPredicate known' := by
  rw [show known = known' from funext fun name => propext (h name)]

/-- A connective has a value exactly if both operands have one: nothing is skipped. -/
theorem isSome_eval_binary (v : Valuation) (op : BinaryOp) (left right : Expr) :
    ((Expr.binary op left right).eval v).isSome = true ↔
      op.IsLogical ∧ (left.eval v).isSome = true ∧ (right.eval v).isSome = true := by
  rw [eval]
  cases left.eval v with
  | none => simp
  | some a =>
    cases right.eval v with
    | none => simp
    | some b => simp [op.isSome_holds?_iff]

/-- **The expressions with a value** are the predicates on names with a value. -/
theorem isSome_eval_iff (v : Valuation) (e : Expr) :
    (e.eval v).isSome = true ↔ e.IsPredicate fun name => (v name).isSome = true := by
  fun_induction Expr.eval v e with
  | case1 value => exact iff_of_true rfl (.int value)
  | case2 name =>
    rw [Option.isSome_map]
    constructor
    · exact fun h => .var h
    · rintro ⟨⟩
      assumption
  | case3 operand ih =>
    rw [Option.isSome_map, ih]
    constructor
    · exact .not
    · rintro ⟨⟩
      assumption
  | case4 op left right ihl ihr =>
    have hbinary := isSome_eval_binary v op left right
    rw [eval] at hbinary
    rw [hbinary, ihl, ihr]
    constructor
    · rintro ⟨hop, hleft, hright⟩
      exact .logical hop hleft hright
    · rintro ⟨⟩
      exact ⟨‹_›, ‹_›, ‹_›⟩
  | case5 e hint hvar hnot hbinary =>
    -- nothing else has a value, and nothing else is a predicate
    refine iff_of_false (by simp) ?_
    rintro (⟨value⟩ | @⟨name, h⟩ | @⟨operand, h⟩ | @⟨op, left, right, hop, hl, hr⟩)
    · exact hint value rfl
    · exact hvar name rfl
    · exact hnot operand rfl
    · exact hbinary op left right rfl

end Expr

/-! ### Names with a value -/

/-- The named values are those of the options. -/
theorem namedValue?_isSome_iff {options : List ShaderOption} {name : String} :
    (namedValue? options name).isSome = true ↔ ∃ o ∈ options, name ∈ o.namedValues := by
  unfold namedValue?
  rw [List.findSome?_isSome_iff]
  simp only [List.mem_reverse, List.mem_flatMap]
  constructor
  · rintro ⟨⟨value, index⟩, ⟨o, ho, hmem⟩, hsome⟩
    have hname : value = name := by
      by_contra hne
      simp [hne] at hsome
    exact ⟨o, ho, hname ▸ List.fst_mem_of_mem_zipIdx hmem⟩
  · rintro ⟨o, ho, hname⟩
    obtain ⟨index, hindex⟩ := List.getElem?_of_mem hname
    refine ⟨(name, index), ⟨o, ho, ?_⟩, by simp⟩
    exact List.mk_mem_zipIdx_iff_getElem?.mpr hindex

namespace ShaderUnit

variable {u : ShaderUnit}

/-- The name of an option or of a named value. -/
def Knows (u : ShaderUnit) (name : String) : Prop :=
  (∃ o ∈ u.declaredOptions, o.name = name) ∨ ∃ o ∈ u.declaredOptions, name ∈ o.namedValues

/-- Packing options keeps what was declared. -/
theorem exists_mem_options {P : OptionDeclaration → Prop} :
    (∃ o ∈ u.options, P o.toOptionDeclaration) ↔ ∃ o ∈ u.declaredOptions, P o := by
  have hmap : u.options.map (·.toOptionDeclaration) = u.declaredOptions :=
    OptionDeclaration.map_packFrom u.declaredOptions 0 0
  rw [← hmap]
  simp

/-- Conditions see a value for every known name, whatever the values of options are. -/
theorem isSome_filtered_iff (v : Valuation) (name : String) :
    (Valuation.filtered u.options v name).isSome = true ↔ u.Knows name := by
  have hoptions : u.options.any (fun o => o.name = name) = true ↔
      ∃ o ∈ u.declaredOptions, o.name = name := by
    rw [List.any_eq_true, ← exists_mem_options]
    simp
  have hvalues : (namedValue? u.options name).isSome = true ↔
      ∃ o ∈ u.declaredOptions, name ∈ o.namedValues := by
    rw [namedValue?_isSome_iff]
    exact exists_mem_options (P := fun o => name ∈ o.namedValues)
  rw [Knows, ← hoptions, ← hvalues, Valuation.filtered]
  cases namedValue? u.options name with
  | some index => simp
  | none => cases u.options.any (fun o => o.name = name) <;> simp

/-- A condition is decided from options alone exactly if it is a predicate on known names. -/
theorem isSome_holds?_iff (v : Valuation) (e : Expr) :
    (e.holds? (Valuation.filtered u.options v)).isSome = true ↔ e.IsPredicate u.Knows := by
  rw [Expr.holds?, Option.isSome_map, Expr.isSome_eval_iff]
  exact Expr.IsPredicate.congr (isSome_filtered_iff v)

/-! ### Instancing -/

/-- The instancing option is looked up by its name, so with distinct names it is the only
one. -/
theorem hasFailure_diagnoseInstancing (hnames : (u.declaredOptions.map (·.name)).Nodup) :
    hasFailure u.diagnoseInstancing = false ↔
      (∀ o ∈ u.declaredOptions, o.name = instancingOption → o.namedValues = []) ∧
        ((∃ p ∈ u.storageBlocks, p.2.kind = .instances) →
          ∃ o ∈ u.declaredOptions, o.name = instancingOption) := by
  unfold diagnoseInstancing
  cases hoption : u.option? instancingOption with
  | some o =>
    have hmem : o ∈ u.options := List.mem_of_find?_eq_some hoption
    have hname : o.name = instancingOption := by simpa using List.find?_some hoption
    have hdeclared : o.toOptionDeclaration ∈ u.declaredOptions :=
      OptionDeclaration.mem_of_mem_packFrom hmem
    have honly : ∀ o' ∈ u.declaredOptions, o'.name = instancingOption →
        o' = o.toOptionDeclaration := by
      intro o' ho' hname'
      exact List.inj_on_of_nodup_map hnames ho' hdeclared (hname'.trans hname.symm)
    dsimp only
    split_ifs with hflag
    · refine iff_of_true rfl ⟨fun o' ho' hname' => ?_, fun _ => ⟨_, hdeclared, hname⟩⟩
      rw [honly o' ho' hname']
      exact List.isEmpty_iff.mp hflag
    · refine iff_of_false (hasFailure_singleton rfl) fun hall => hflag ?_
      exact List.isEmpty_iff.mpr (hall.1 _ hdeclared hname)
  | none =>
    have hnone : ¬ ∃ o ∈ u.declaredOptions, o.name = instancingOption := by
      rw [← exists_mem_options (P := fun o => o.name = instancingOption)]
      rintro ⟨o, ho, hname⟩
      simpa [hname] using List.find?_eq_none.mp hoption o ho
    dsimp only
    cases hblock : u.storageBlocks.find? fun p => p.2.kind = .instances with
    | some p =>
      have hkind : p.2.kind = .instances := by simpa using List.find?_some hblock
      refine iff_of_false (hasFailure_singleton rfl) fun hall => hnone (hall.2 ?_)
      exact ⟨p, List.mem_of_find?_eq_some hblock, hkind⟩
    | none =>
      refine iff_of_true rfl ⟨fun o ho hname => absurd ⟨o, ho, hname⟩ hnone, ?_⟩
      rintro ⟨p, hp, hkind⟩
      simpa [hkind] using List.find?_eq_none.mp hblock p hp

/-! ### Acceptance -/

/-- What a source has to be like. -/
structure WellFormed (u : ShaderUnit) : Prop where
  /-- The fields of all options take less than 16 bits. -/
  bits : u.optionBits < 16
  /-- No option has a single named value. -/
  several : ∀ o ∈ u.declaredOptions, o.namedValues.length ≠ 1
  names : (u.declaredOptions.map (·.name)).Nodup
  /-- No named value has the name of an option. -/
  apart : ∀ o ∈ u.declaredOptions, ∀ o' ∈ u.declaredOptions, o.name ∉ o'.namedValues
  /-- A named value has one position, in one option or in several. -/
  positions : ∀ o ∈ u.declaredOptions, ∀ o' ∈ u.declaredOptions, ∀ (value : String) (i j : ℕ),
    o.namedValues[i]? = some value → o'.namedValues[j]? = some value → i = j
  /-- Conditions are predicates on options. -/
  conditions : ∀ c ∈ u.conditions, c.expr.IsPredicate u.Knows
  /-- The instancing option is a flag. -/
  flag : ∀ o ∈ u.declaredOptions, o.name = instancingOption → o.namedValues = []
  /-- Instances blocks need the instancing option. -/
  instancing : (∃ p ∈ u.storageBlocks, p.2.kind = .instances) →
    ∃ o ∈ u.declaredOptions, o.name = instancingOption

theorem positionsAgree_namedValues_iff {options : List OptionDeclaration} :
    PositionsAgree (namedValues options) ↔
      ∀ o ∈ options, ∀ o' ∈ options, ∀ (value : String) (i j : ℕ),
        o.namedValues[i]? = some value → o'.namedValues[j]? = some value → i = j := by
  constructor
  · intro h o ho o' ho' value i j hi hj
    exact h ⟨value, i, o⟩ (mem_namedValues.mpr ⟨ho, hi⟩) ⟨value, j, o'⟩
      (mem_namedValues.mpr ⟨ho', hj⟩) rfl
  · intro h v hv v' hv' hvalue
    obtain ⟨howner, hindex⟩ := mem_namedValues.mp hv
    obtain ⟨howner', hindex'⟩ := mem_namedValues.mp hv'
    exact h _ howner _ howner' _ _ _ hindex (hvalue ▸ hindex')

theorem name_ne_namedValue_iff {options : List OptionDeclaration} :
    (∀ v ∈ namedValues options, ∀ o ∈ options, o.name ≠ v.value) ↔
      ∀ o ∈ options, ∀ o' ∈ options, o.name ∉ o'.namedValues := by
  constructor
  · intro h o ho o' ho' hname
    obtain ⟨index, hindex⟩ := List.getElem?_of_mem hname
    exact h ⟨o.name, index, o'⟩ (mem_namedValues.mpr ⟨ho', hindex⟩) o ho rfl
  · intro h v hv o ho hname
    obtain ⟨howner, hindex⟩ := mem_namedValues.mp hv
    exact h o ho _ howner (hname ▸ List.mem_of_getElem? hindex)

/-- **Acceptance is exact.**  The analysis reports no failure if and only if the source is
well-formed. -/
theorem isSound_iff_wellFormed (name source : String) (u : ShaderUnit) :
    (analyze name source u).isSound = true ↔ u.WellFormed := by
  rw [isSound_analyze_iff, diagnose]
  simp only [hasFailure_append, Bool.or_eq_false_iff]
  rw [hasFailure_diagnoseSpace, hasFailure_diagnoseOptions, hasFailure_diagnoseConditions,
    hasFailure_diagnoseValues _ [] positionsAgree_nil, List.nil_append,
    name_ne_namedValue_iff, positionsAgree_namedValues_iff]
  constructor
  · rintro ⟨⟨⟨⟨hbits, hseveral, hnames, -⟩, hapart, hpositions⟩, hconditions⟩, hinstancing⟩
    obtain ⟨hflag, hblocks⟩ := (hasFailure_diagnoseInstancing hnames).mp hinstancing
    exact {
      bits := hbits
      several := hseveral
      names := hnames
      apart := hapart
      positions := hpositions
      conditions := fun c hc => (isSome_holds?_iff _ c.expr).mp (hconditions c hc)
      flag := hflag
      instancing := hblocks }
  · intro h
    refine ⟨⟨⟨⟨h.bits, h.several, h.names, by simp⟩, h.apart, h.positions⟩, ?_⟩, ?_⟩
    · intro c hc
      exact (isSome_holds?_iff _ c.expr).mpr (h.conditions c hc)
    · exact (hasFailure_diagnoseInstancing h.names).mpr ⟨h.flag, h.instancing⟩

end ShaderUnit

end ShaderVariants
