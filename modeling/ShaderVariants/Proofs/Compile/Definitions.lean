import Mathlib
import ShaderVariants.Proofs.Analysis.WellFormed
import ShaderVariants.Proofs.Compile.Reuse

/-!
# Folding and definitions

The value of an option reaches a program in two ways.  A selection whose condition has a
value is folded while the code is generated, and every other expression is left in the code,
where the preprocessor of the downstream compiler replaces names by their definitions.
Folding looks named values up before options and takes the last one of a name; the
definitions list the options first and all named values behind them.

## Main definitions

* `Expr.mapNames` — an expression with other names.
* `applied` — what the preprocessor makes of a name.
* `numerals` — the values of names, where a name may have been replaced by a numeral.
* `MacroDefinition.Describe` — definitions say the same about names as values.

## Main results

* `Expr.eval_mapNames` — names are replaced before evaluation or while names are looked up.
* `ShaderUnit.describe_definitions` — the definitions describe what conditions see, if options
  and named values are told apart.
* `VariantCompiler.definitions_agree` — **folding and definitions agree.**
-/

namespace ShaderVariants

/-! ### Replacing names -/

namespace Expr

mutual

/-- The expression with every name replaced. -/
def mapNames (f : String → String) : Expr → Expr
  | .int value => .int value
  | .real bits => .real bits
  | .var name => .var (f name)
  | .call function arguments => .call (function.mapNames f) (mapAllNames f arguments)
  | .index array position => .index (array.mapNames f) (position.mapNames f)
  | .member parent name => .member (parent.mapNames f) (f name)
  | .postfixed op operand => .postfixed op (operand.mapNames f)
  | .unary op operand => .unary op (operand.mapNames f)
  | .binary op left right => .binary op (left.mapNames f) (right.mapNames f)
  | .conditional condition consequent alternative =>
    .conditional (condition.mapNames f) (consequent.mapNames f) (alternative.mapNames f)

/-- Several expressions with every name replaced. -/
def mapAllNames (f : String → String) : List Expr → List Expr
  | [] => []
  | e :: es => e.mapNames f :: mapAllNames f es

end

/-- Replacing names and then looking them up is looking up what they are replaced by. -/
theorem eval_mapNames (f : String → String) (v : Valuation) (e : Expr) :
    (e.mapNames f).eval v = e.eval fun name => v (f name) := by
  fun_induction Expr.eval (fun name => v (f name)) e with
  | case1 value => rw [mapNames, eval]
  | case2 name => rw [mapNames, eval]
  | case3 operand ih => rw [mapNames, eval, ih]
  | case4 op left right ihl ihr => rw [mapNames, eval, ihl, ihr]
  | case5 e hint hvar hnot hbinary =>
    cases e with
    | int value => exact absurd rfl (hint value)
    | var name => exact absurd rfl (hvar name)
    | unary op operand =>
      cases op with
      | not => exact absurd rfl (hnot operand)
      | _ => rfl
    | binary op left right => exact absurd rfl (hbinary op left right)
    | _ => rfl

end Expr

/-! ### The preprocessor -/

/-- What the preprocessor makes of a name: the text of its definition, if it has one. -/
def applied (ds : List MacroDefinition) (name : String) : String :=
  ((ds.find? (·.name = name)).map (·.value)).getD name

/-- The values of names, some of which may have been replaced by numerals. -/
def numerals (running : Valuation) : Valuation := fun text => text.toNat?.or (running text)

/-- A number is read off its decimal text. -/
theorem numerals_toString (running : Valuation) (n : ℕ) :
    numerals running (toString n) = some n := by
  have hread : (toString n).toNat? = some n := Nat.toNat?_repr n
  rw [numerals, hread, Option.some_or]

/-! ### Definitions -/

/-- The definitions say the same about names as the values. -/
structure MacroDefinition.Describe (ds : List MacroDefinition) (v : Valuation) : Prop where
  /-- A definition is the decimal text of the value of its name. -/
  value : ∀ d ∈ ds, ∃ n, v d.name = some n ∧ d.value = toString n
  /-- Every name with a value is defined. -/
  defined : ∀ name n, v name = some n → ∃ d ∈ ds, d.name = name
  /-- No name is defined with two values. -/
  unique : ∀ d ∈ ds, ∀ d' ∈ ds, d.name = d'.name → d.value = d'.value

namespace MacroDefinition

variable {ds : List MacroDefinition} {v : Valuation}

/-- A definition is settled by the value of its name, so two of one name are the same. -/
theorem Describe.of_value (hvalue : ∀ d ∈ ds, ∃ n, v d.name = some n ∧ d.value = toString n)
    (hdefined : ∀ name n, v name = some n → ∃ d ∈ ds, d.name = name) : Describe ds v where
  value := hvalue
  defined := hdefined
  unique := by
    intro d hd d' hd' hname
    obtain ⟨n, hn, htext⟩ := hvalue d hd
    obtain ⟨n', hn', htext'⟩ := hvalue d' hd'
    rw [hname, hn'] at hn
    rw [htext, htext', Option.some.inj hn]

/-- What the preprocessor makes of a name is read as its value. -/
theorem Describe.numerals_applied (h : Describe ds v) (running : Valuation) (name : String) :
    numerals running (applied ds name) = (v name).or (numerals running name) := by
  unfold applied
  cases hfind : ds.find? (·.name = name) with
  | some d =>
    have hname : d.name = name := by simpa using List.find?_some hfind
    obtain ⟨n, hn, htext⟩ := h.value d (List.mem_of_find?_eq_some hfind)
    rw [← hname, hn, Option.map_some, Option.getD_some, htext, numerals_toString, Option.some_or]
  | none =>
    have hnone : v name = none := by
      refine Option.eq_none_iff_forall_ne_some.mpr fun n hn => ?_
      obtain ⟨d, hd, hname⟩ := h.defined name n hn
      simpa [hname] using List.find?_eq_none.mp hfind d hd
    rw [hnone, Option.map_none, Option.getD_none, Option.none_or]

/-- An expression behind the preprocessor has the value that it has before, if what the
definitions do not know is known when the program runs. -/
theorem Describe.eval_mapNames (h : Describe ds v) (e : Expr) (running : Valuation) :
    (e.mapNames (applied ds)).eval (numerals running) =
      e.eval fun name => (v name).or (numerals running name) := by
  rw [Expr.eval_mapNames]
  congr 1
  funext name
  exact h.numerals_applied running name

/-- What is decided from values alone is decided alike behind the preprocessor. -/
theorem Describe.holds?_mapNames (h : Describe ds v) {e : Expr} {value : Bool}
    (he : e.holds? v = some value) (running : Valuation) :
    (e.mapNames (applied ds)).holds? (numerals running) = some value := by
  obtain ⟨n, hn, rfl⟩ := Option.map_eq_some_iff.mp he
  have hmono : ∀ name m, v name = some m → (v name).or (numerals running name) = some m := by
    intro name m hm
    rw [hm, Option.some_or]
  rw [Expr.holds?, h.eval_mapNames, Expr.eval_mono hmono hn, Option.map_some]

end MacroDefinition

section Options

variable {os : List ShaderOption} {name : String} {index : ℕ}

/-- A named value that is looked up is at its position in some option. -/
theorem getElem?_of_namedValue? (h : namedValue? os name = some index) :
    ∃ o ∈ os, o.namedValues[index]? = some name := by
  obtain ⟨⟨value, position⟩, hmem, hsome⟩ := List.exists_of_findSome?_eq_some h
  dsimp only at hsome
  split_ifs at hsome with hvalue
  obtain rfl := hvalue
  obtain rfl := Option.some.inj hsome
  obtain ⟨o, ho, hindex⟩ := List.mem_flatMap.mp (List.mem_reverse.mp hmem)
  exact ⟨o, ho, List.mk_mem_zipIdx_iff_getElem?.mp hindex⟩

/-- A named value has the same position wherever it occurs. -/
def NamedValuesAgree (os : List ShaderOption) : Prop :=
  ∀ o ∈ os, ∀ o' ∈ os, ∀ (value : String) (i j : ℕ),
    o.namedValues[i]? = some value → o'.namedValues[j]? = some value → i = j

/-- A named value is looked up by its last occurrence, which is as good as any other. -/
theorem namedValue?_of_getElem? (hagree : NamedValuesAgree os) {o : ShaderOption} (ho : o ∈ os)
    (hindex : o.namedValues[index]? = some name) : namedValue? os name = some index := by
  have hsome : (namedValue? os name).isSome = true :=
    namedValue?_isSome_iff.mpr ⟨o, ho, List.mem_of_getElem? hindex⟩
  obtain ⟨found, hfound⟩ := Option.isSome_iff_exists.mp hsome
  obtain ⟨o', ho', hindex'⟩ := getElem?_of_namedValue? hfound
  rw [hfound, hagree o ho o' ho' name index found hindex hindex']

end Options

namespace ShaderUnit

variable {u : ShaderUnit} {v : Valuation}

/-- There is a definition for every option and for every named value. -/
theorem mem_definitions_iff {d : MacroDefinition} :
    d ∈ u.definitions v ↔
      (∃ o ∈ u.options, d = { name := o.name, value := toString ((v o.name).getD 0) }) ∨
        ∃ o ∈ u.options, ∃ index : ℕ, o.namedValues[index]? = some d.name ∧
          d.value = toString index := by
  unfold definitions
  rw [List.mem_append, List.mem_map, List.mem_flatMap]
  refine or_congr (exists_congr fun o => and_congr_right fun _ => eq_comm) ?_
  refine exists_congr fun o => and_congr_right fun _ => ?_
  constructor
  · intro h
    obtain ⟨⟨value, index⟩, hmem, rfl⟩ := List.mem_map.mp h
    exact ⟨index, List.mk_mem_zipIdx_iff_getElem?.mp hmem, rfl⟩
  · rintro ⟨index, hindex, hvalue⟩
    refine List.mem_map.mpr ⟨(d.name, index), List.mk_mem_zipIdx_iff_getElem?.mpr hindex, ?_⟩
    cases d
    simpa using hvalue.symm

/-- The definitions of options and named values that are told apart describe what conditions
see. -/
theorem describe_definitions (hnames : NamesApart u.options) (hagree : NamedValuesAgree u.options)
    (v : Valuation) :
    MacroDefinition.Describe (u.definitions (.filtered u.options v)) (.filtered u.options v) := by
  refine .of_value ?_ ?_
  · intro d hd
    rcases mem_definitions_iff.mp hd with ⟨o, ho, rfl⟩ | ⟨o, ho, index, hindex, htext⟩
    · have hvalue := filtered_name hnames v ho
      exact ⟨(v o.name).getD 0, hvalue, by simp [hvalue]⟩
    · have hvalue := namedValue?_of_getElem? hagree ho hindex
      exact ⟨index, by simp [Valuation.filtered, hvalue], htext⟩
  · intro name n hn
    cases hvalue : namedValue? u.options name with
    | some index =>
      obtain ⟨o, ho, hindex⟩ := getElem?_of_namedValue? hvalue
      refine ⟨⟨name, toString index⟩, mem_definitions_iff.mpr ?_, rfl⟩
      exact .inr ⟨o, ho, index, hindex, rfl⟩
    | none =>
      simp only [Valuation.filtered, hvalue] at hn
      split_ifs at hn with hany
      obtain ⟨o, ho, hname⟩ := List.any_eq_true.mp hany
      exact ⟨_, mem_definitions_iff.mpr (.inl ⟨o, ho, rfl⟩), by simpa using hname⟩

/-- In an accepted source, named values have one position each, marked or not. -/
theorem namedValuesAgree_of_isSound {name source : String}
    (h : (analyze name source u).isSound = true) : NamedValuesAgree u.markInvariant.options := by
  have hagree := positionsAgree_namedValues_iff.mp (positionsAgree_of_isSound h)
  intro o ho o' ho' value i j hi hj
  obtain ⟨d, hd, hdo⟩ := List.mem_map.mp (OptionDeclaration.mem_of_mem_packFrom ho)
  obtain ⟨d', hd', hdo'⟩ := List.mem_map.mp (OptionDeclaration.mem_of_mem_packFrom ho')
  refine hagree d hd d' hd' value i j ?_ ?_
  · rwa [← hdo] at hi
  · rwa [← hdo'] at hj

end ShaderUnit

/-! ### Variants -/

namespace VariantCompiler

/-- **Folding and definitions agree.**  For every accepted source and every option word: a
definition is the decimal text of the value that its name has in conditions, every name with
a value is defined, and none with two values.  An expression whose names are replaced by
their definitions has the value that it has with the values of the names; so what is folded
has the value that it would have had behind the preprocessor, whatever the program does. -/
theorem definitions_agree {name source : String} {u : ShaderUnit} {d : Downstream}
    {showSource : Bool} {c : VariantCompiler}
    (hc : (analyze name source u).variantCompiler? d showSource = some c) (w : OptionWord) :
    let v := c.valuation w
    let ds := c.unit.definitions v
    MacroDefinition.Describe ds v ∧
      (∀ (e : Expr) (running : Valuation),
        (e.mapNames (applied ds)).eval (numerals running) =
          e.eval fun name => (v name).or (numerals running name)) ∧
      ∀ (e : Expr) (value : Bool), e.holds? v = some value → ∀ running : Valuation,
        (e.mapNames (applied ds)).holds? (numerals running) = some value := by
  intro v ds
  have hdescribe : MacroDefinition.Describe ds v := by
    unfold AnalyzedShader.variantCompiler? at hc
    split_ifs at hc with hsound
    obtain rfl := Option.some.inj hc
    have hnames := (ShaderUnit.Accepted.of_isSound hsound).namesApart
    exact ShaderUnit.describe_definitions hnames (ShaderUnit.namedValuesAgree_of_isSound hsound) _
  exact ⟨hdescribe, hdescribe.eval_mapNames, fun e value => hdescribe.holds?_mapNames⟩

/-- Two options that have a named value in common. -/
def duskShader : ShaderUnit where
  declaredOptions := [
    { name := "Shadows", namedValues := ["Off", "Soft", "Hard"] },
    { name := "Fog", namedValues := ["Off", "Thick"] }]
  blocks := [
    .stage { stage := .vertex },
    .stage { stage := .fragment, body := [.selection
      (.binary .eq (.var "Shadows") (.var "Hard")) (.jump .discard) none] }]

set_option maxRecDepth 10000 in
/-- With hard shadows and no fog, the definitions of `duskShader` describe the values, and
the comparison of the shadows is decided alike behind the preprocessor. -/
theorem duskShader_definitions :
    ∃ c, (analyze "dusk.shader" "" duskShader).variantCompiler? keepSource false = some c ∧
      MacroDefinition.Describe (c.unit.definitions (c.valuation 0b010)) (c.valuation 0b010) ∧
      ((Expr.binary .eq (.var "Shadows") (.var "Hard")).mapNames
        (applied (c.unit.definitions (c.valuation 0b010)))).holds? (numerals .none)
          = some true := by
  have hsound : (analyze "dusk.shader" "" duskShader).isSound = true := by decide
  obtain ⟨c, hc⟩ : ∃ c, (analyze "dusk.shader" "" duskShader).variantCompiler? keepSource false
      = some c := ⟨_, if_pos hsound⟩
  have hagree := definitions_agree hc 0b010
  refine ⟨c, hc, hagree.1, hagree.2.2 _ true ?_ .none⟩
  obtain rfl := Option.some.inj ((if_pos hsound).symm.trans hc)
  decide

end VariantCompiler

end ShaderVariants
