import Mathlib
import ShaderVariants.Analysis.Shader
import ShaderVariants.Proofs.Options.Packing
import ShaderVariants.Proofs.Options.Valuation

/-!
# Accepted sources

A source is accepted if its analysis reports no failure.  What that says about options
and conditions is read off the checks one by one, each as an equivalence.

## Main results

* `ShaderUnit.hasFailure_diagnoseOptions`, `hasFailure_diagnoseValues`,
  `hasFailure_diagnoseConditions` — what the checks accept.
* `ShaderUnit.Accepted.of_isSound` — **the options of an accepted source** fit into a word,
  are told apart by name, and decide every condition.
-/

namespace ShaderVariants

/-! ### Failures -/

@[simp] theorem hasFailure_nil : hasFailure [] = false := rfl

@[simp] theorem hasFailure_append (ds es : List Diagnostic) :
    hasFailure (ds ++ es) = (hasFailure ds || hasFailure es) := List.any_append

theorem hasFailure_singleton {d : Diagnostic} (h : d.severity.isFailure = true) :
    hasFailure [d] ≠ false := by
  simp [hasFailure, h]

theorem hasFailure_flatMap {α : Type*} (f : α → List Diagnostic) (l : List α) :
    hasFailure (l.flatMap f) = l.any fun a => hasFailure (f a) := by
  rw [hasFailure, List.any_flatMap]
  rfl

/-- The place of a diagnostic does not make it a failure. -/
@[simp] theorem hasFailure_map_file (file : Option String) (ds : List Diagnostic) :
    hasFailure (ds.map fun d => { d with file }) = hasFailure ds := by
  rw [hasFailure, List.any_map]
  rfl

theorem find?_eq_none_iff_forall_ne {α β : Type*} [DecidableEq β] {l : List α} (f : α → β)
    (x : β) : l.find? (fun a => f a = x) = none ↔ ∀ a ∈ l, f a ≠ x := by
  simp

namespace ShaderUnit

/-! ### Options -/

theorem hasFailure_diagnoseSpace (u : ShaderUnit) :
    hasFailure u.diagnoseSpace = false ↔ u.optionBits < optionBitLimit := by
  unfold diagnoseSpace
  split_ifs with h
  · exact iff_of_false (hasFailure_singleton rfl) (not_lt.mpr h)
  · exact iff_of_true rfl (not_le.mp h)

theorem hasFailure_diagnoseOption (earlier : List OptionDeclaration) (o : OptionDeclaration) :
    hasFailure (diagnoseOption earlier o) = false ↔
      o.namedValues.length ≠ 1 ∧ ∀ e ∈ earlier, e.name ≠ o.name := by
  rw [diagnoseOption, hasFailure_append, Bool.or_eq_false_iff]
  refine and_congr ?_ ?_
  · split_ifs with h
    · exact iff_of_false (hasFailure_singleton rfl) (by simp [h])
    · exact iff_of_true rfl h
  · rw [← find?_eq_none_iff_forall_ne fun e : OptionDeclaration => e.name]
    split
    · next hfind => exact iff_of_false (hasFailure_singleton rfl) (by simp [hfind])
    · next hfind => exact iff_of_true rfl hfind

/-- The checks of options, one after the other, compare every option with all before it. -/
theorem hasFailure_diagnoseOptions : ∀ (ds earlier : List OptionDeclaration),
    hasFailure (diagnoseOptions earlier ds) = false ↔
      (∀ d ∈ ds, d.namedValues.length ≠ 1) ∧ (ds.map (·.name)).Nodup ∧
        ∀ e ∈ earlier, ∀ d ∈ ds, e.name ≠ d.name := by
  intro ds
  induction ds with
  | nil => exact fun earlier => iff_of_true rfl (by simp)
  | cons d rest ih =>
    intro earlier
    rw [diagnoseOptions, hasFailure_append, Bool.or_eq_false_iff, hasFailure_diagnoseOption, ih]
    simp only [List.mem_append, List.mem_singleton, List.forall_mem_cons, List.map_cons,
      List.nodup_cons, List.mem_map, not_exists, not_and]
    -- `d` is compared with what came before it, and the rest with `d` as well
    constructor
    · rintro ⟨⟨hd, hearlier⟩, hlen, hnodup, hapart⟩
      refine ⟨⟨hd, hlen⟩, ⟨fun e he hname => ?_, hnodup⟩, fun e he => ⟨hearlier e he, ?_⟩⟩
      · exact hapart d (.inr rfl) e he hname.symm
      · exact fun d' hd' => hapart e (.inl he) d' hd'
    · rintro ⟨⟨hd, hlen⟩, ⟨hnot, hnodup⟩, hapart⟩
      refine ⟨⟨hd, fun e he => (hapart e he).1⟩, hlen, hnodup, ?_⟩
      rintro e (he | rfl) d' hd'
      · exact (hapart e he).2 d' hd'
      · exact fun hname => hnot d' hd' hname.symm

/-! ### Named values -/

theorem mem_namedValues {options : List OptionDeclaration} {v : NamedValue} :
    v ∈ namedValues options ↔
      v.owner ∈ options ∧ v.owner.namedValues[v.index]? = some v.value := by
  unfold namedValues
  rw [List.mem_flatMap]
  constructor
  · rintro ⟨o, ho, hv⟩
    obtain ⟨⟨value, index⟩, hmem, rfl⟩ := List.mem_map.mp hv
    exact ⟨ho, List.mk_mem_zipIdx_iff_getElem?.mp hmem⟩
  · rintro ⟨ho, hv⟩
    refine ⟨v.owner, ho, List.mem_map.mpr ⟨(v.value, v.index), ?_, rfl⟩⟩
    exact List.mk_mem_zipIdx_iff_getElem?.mpr hv

theorem hasFailure_diagnoseValue (options : List OptionDeclaration) (earlier : List NamedValue)
    (v : NamedValue) :
    hasFailure (diagnoseValue options earlier v) = false ↔
      (∀ o ∈ options, o.name ≠ v.value) ∧
        ∀ first, earlier.find? (·.value = v.value) = some first → first.index = v.index := by
  rw [diagnoseValue, hasFailure_append, Bool.or_eq_false_iff]
  refine and_congr ?_ ?_
  · rw [← find?_eq_none_iff_forall_ne fun o : OptionDeclaration => o.name]
    split
    · next hfind => exact iff_of_false (hasFailure_singleton rfl) (by simp [hfind])
    · next hfind => exact iff_of_true rfl hfind
  · split
    · next first hfind =>
      split_ifs with hindex
      · exact iff_of_true rfl fun first' hfirst => by
          rw [← Option.some.inj (hfind.symm.trans hfirst), hindex]
      · refine iff_of_false (hasFailure_singleton rfl) ?_
        exact fun hall => hindex (hall first hfind)
    · next hfind =>
      exact iff_of_true rfl fun first hfirst => by simp [hfind] at hfirst

/-- Occurrences of one named value have one position. -/
def PositionsAgree (vs : List NamedValue) : Prop :=
  ∀ v ∈ vs, ∀ v' ∈ vs, v.value = v'.value → v.index = v'.index

theorem positionsAgree_nil : PositionsAgree [] := by
  intro v hv
  cases hv

theorem PositionsAgree.mono {vs ws : List NamedValue} (h : PositionsAgree ws) (hsub : vs ⊆ ws) :
    PositionsAgree vs :=
  fun v hv v' hv' => h v (hsub hv) v' (hsub hv')

/-- One more named value agrees with all that agree among themselves if it agrees with the
first of its name. -/
theorem positionsAgree_concat {earlier : List NamedValue} (h : PositionsAgree earlier)
    (v : NamedValue) : PositionsAgree (earlier ++ [v]) ↔
      ∀ first, earlier.find? (·.value = v.value) = some first → first.index = v.index := by
  constructor
  · intro hall first hfirst
    have hname : first.value = v.value := by simpa using List.find?_some hfirst
    have hmem := List.mem_of_find?_eq_some hfirst
    exact hall first (List.mem_append_left _ hmem) v (List.mem_append_right _ (by simp)) hname
  · intro hfirst
    -- whatever has the name of `v` has the position of the first one, and that is the one of `v`
    have hindex : ∀ e ∈ earlier, e.value = v.value → e.index = v.index := by
      intro e he hname
      cases hfind : earlier.find? (·.value = v.value) with
      | none => exact absurd hname (by simpa using List.find?_eq_none.mp hfind e he)
      | some first =>
        have hfound : first.value = v.value := by simpa using List.find?_some hfind
        rw [← hfirst first hfind]
        exact h e he first (List.mem_of_find?_eq_some hfind) (hname.trans hfound.symm)
    intro a ha b hb hname
    rw [List.mem_append, List.mem_singleton] at ha hb
    rcases ha with ha | rfl <;> rcases hb with hb | rfl
    · exact h a ha b hb hname
    · exact hindex a ha hname
    · exact (hindex b hb hname.symm).symm
    · rfl

/-- The checks of named values, one after the other, compare every value with all before it,
although they look at the first of its name only. -/
theorem hasFailure_diagnoseValues {options : List OptionDeclaration} :
    ∀ vs earlier : List NamedValue, PositionsAgree earlier →
    (hasFailure (diagnoseValues options earlier vs) = false ↔
      (∀ v ∈ vs, ∀ o ∈ options, o.name ≠ v.value) ∧ PositionsAgree (earlier ++ vs)) := by
  intro vs
  induction vs with
  | nil =>
    intro earlier h
    exact iff_of_true rfl ⟨by simp, by simpa using h⟩
  | cons v rest ih =>
    intro earlier h
    rw [diagnoseValues, hasFailure_append, Bool.or_eq_false_iff, hasFailure_diagnoseValue,
      ← positionsAgree_concat h, List.forall_mem_cons]
    have hsplit : earlier ++ v :: rest = (earlier ++ [v]) ++ rest := by simp
    constructor
    · rintro ⟨⟨hv, hagree⟩, hrest⟩
      obtain ⟨hnames, hall⟩ := (ih _ hagree).mp hrest
      exact ⟨⟨hv, hnames⟩, hsplit ▸ hall⟩
    · rintro ⟨⟨hv, hnames⟩, hall⟩
      rw [hsplit] at hall
      have hagree : PositionsAgree (earlier ++ [v]) := hall.mono (List.subset_append_left _ _)
      exact ⟨⟨hv, hagree⟩, (ih _ hagree).mpr ⟨hnames, hall⟩⟩

/-! ### Conditions -/

theorem hasFailure_diagnoseCondition (options : List ShaderOption) (c : Condition) :
    hasFailure (diagnoseCondition options c) = false ↔
      (c.expr.holds? (Valuation.filtered options Valuation.none)).isSome = true := by
  unfold diagnoseCondition
  split
  · next hnone =>
    exact iff_of_false (hasFailure_singleton rfl) (by simp [hnone])
  · next value hvalue =>
    refine iff_of_true ?_ (by simp [hvalue])
    split_ifs <;> rfl

theorem hasFailure_diagnoseConditions (options : List ShaderOption) (cs : List Condition) :
    hasFailure (cs.flatMap (diagnoseCondition options)) = false ↔
      ∀ c ∈ cs, (c.expr.holds? (Valuation.filtered options Valuation.none)).isSome = true := by
  simp only [hasFailure_flatMap, List.any_eq_false, Bool.not_eq_true,
    hasFailure_diagnoseCondition]

/-! ### The marked source -/

theorem packFrom_map_mark (f : OptionDeclaration → Bool) :
    ∀ (ds : List OptionDeclaration) (index offset : ℕ),
    OptionDeclaration.packFrom index offset (ds.map fun o => { o with invariant := f o }) =
      (OptionDeclaration.packFrom index offset ds).map fun o =>
        { o with invariant := f o.toOptionDeclaration } := by
  intro ds
  induction ds with
  | nil => exact fun _ _ => rfl
  | cons d rest ih =>
    intro index offset
    simp only [List.map_cons, OptionDeclaration.packFrom, ih]

theorem totalBits_map_mark (f : OptionDeclaration → Bool) : ∀ ds : List OptionDeclaration,
    OptionDeclaration.totalBits (ds.map fun o => { o with invariant := f o }) =
      OptionDeclaration.totalBits ds := by
  intro ds
  induction ds with
  | nil => rfl
  | cons d rest ih =>
    rw [List.map_cons, OptionDeclaration.totalBits, ih, OptionDeclaration.totalBits]

/-- Marking leaves the places of the options alone. -/
theorem options_markInvariant (u : ShaderUnit) :
    u.markInvariant.options = u.options.map fun o => { o with invariant := u.isInvariant o.name } :=
  packFrom_map_mark (fun o => u.isInvariant o.name) u.declaredOptions 0 0

/-- Marks do not change what conditions see. -/
theorem filtered_options_markInvariant (u : ShaderUnit) (v : Valuation) :
    Valuation.filtered u.markInvariant.options v = Valuation.filtered u.options v := by
  funext name
  have hvalue : namedValue? u.markInvariant.options name = namedValue? u.options name := by
    rw [options_markInvariant, namedValue?, List.flatMap_map]
    rfl
  have hany : u.markInvariant.options.any (fun o => o.name = name)
      = u.options.any (fun o => o.name = name) := by
    rw [options_markInvariant, List.any_map]
    rfl
  simp only [Valuation.filtered, hvalue, hany]

/-! ### Accepted sources -/

/-- What the analysis promises about options and conditions. -/
structure Accepted (u : ShaderUnit) : Prop where
  bits : u.optionBits < optionBitLimit
  names : (u.declaredOptions.map (·.name)).Nodup
  values : ∀ v ∈ namedValues u.declaredOptions, ∀ o ∈ u.declaredOptions, o.name ≠ v.value
  conditions : ∀ c ∈ u.conditions,
    (c.expr.holds? (Valuation.filtered u.options Valuation.none)).isSome = true

/-- A source is accepted if none of the checks fails. -/
theorem isSound_analyze_iff {name source : String} {u : ShaderUnit} :
    (analyze name source u).isSound = true ↔ hasFailure u.diagnose = false := by
  rw [AnalyzedShader.isSound, Bool.not_eq_true', analyze]
  exact (hasFailure_map_file (some name) u.diagnose).congr_left

/-- **What acceptance says** about the options and conditions of a source. -/
theorem Accepted.of_isSound {name source : String} {u : ShaderUnit}
    (h : (analyze name source u).isSound = true) : u.Accepted := by
  have hdiagnose : hasFailure u.diagnose = false := isSound_analyze_iff.mp h
  simp only [diagnose, hasFailure_append, Bool.or_eq_false_iff] at hdiagnose
  obtain ⟨⟨⟨⟨hspace, hoptions⟩, hvalues⟩, hconditions⟩, -⟩ := hdiagnose
  exact {
    bits := u.hasFailure_diagnoseSpace.mp hspace
    names := ((hasFailure_diagnoseOptions u.declaredOptions []).mp hoptions).2.1
    values := ((hasFailure_diagnoseValues _ [] positionsAgree_nil).mp hvalues).1
    conditions := (hasFailure_diagnoseConditions u.options u.conditions).mp hconditions }

/-- In an accepted source, a named value has one position wherever it occurs. -/
theorem positionsAgree_of_isSound {name source : String} {u : ShaderUnit}
    (h : (analyze name source u).isSound = true) :
    PositionsAgree (namedValues u.declaredOptions) := by
  have hdiagnose : hasFailure u.diagnose = false := isSound_analyze_iff.mp h
  simp only [diagnose, hasFailure_append, Bool.or_eq_false_iff] at hdiagnose
  obtain ⟨⟨⟨-, hvalues⟩, -⟩, -⟩ := hdiagnose
  exact ((hasFailure_diagnoseValues _ [] positionsAgree_nil).mp hvalues).2

namespace Accepted

variable {u : ShaderUnit} (h : u.Accepted)

include h

theorem packed_options : ShaderOption.Packed u.markInvariant.options := by
  refine ShaderOption.packed_pack ?_
  rw [markInvariant, totalBits_map_mark]
  exact le_of_lt (h.bits.trans (by decide))

/-- The options can be told apart from each other and from the named values. -/
theorem namesApart : NamesApart u.markInvariant.options where
  nodup := by
    have hnames : u.markInvariant.options.map (·.name) = u.declaredOptions.map (·.name) := by
      calc u.markInvariant.options.map (·.name)
          = u.options.map (·.name) := by
            rw [options_markInvariant, List.map_map]
            rfl
        _ = (u.options.map (·.toOptionDeclaration)).map (·.name) := by
            rw [List.map_map]
            rfl
        _ = u.declaredOptions.map (·.name) := by
            rw [options, OptionDeclaration.pack, OptionDeclaration.map_packFrom]
    exact hnames ▸ h.names
  namedValue := by
    intro o ho
    refine namedValue?_eq_none fun o' ho' value hvalue heq => ?_
    obtain ⟨d, hd, hdo⟩ := List.mem_map.mp (OptionDeclaration.mem_of_mem_packFrom ho)
    obtain ⟨d', hd', hdo'⟩ := List.mem_map.mp (OptionDeclaration.mem_of_mem_packFrom ho')
    have hmem : value ∈ d'.namedValues := by
      rwa [← hdo'] at hvalue
    -- a named value of an option is one of the source, so no option has its name
    obtain ⟨i, hi⟩ := List.getElem?_of_mem hmem
    have hnamed : { value, index := i, owner := d' } ∈ namedValues u.declaredOptions :=
      mem_namedValues.mpr ⟨hd', hi⟩
    refine h.values _ hnamed d hd ?_
    rw [heq, ← hdo]

/-- Every condition is decided in every variant. -/
theorem isSome_conditionHolds? {condition : Option Condition}
    (hc : ∀ c, condition = some c → c ∈ u.conditions) (v : Valuation) :
    (conditionHolds? (.filtered u.markInvariant.options v) condition).isSome = true := by
  rw [filtered_options_markInvariant,
    isSome_conditionHolds?_filtered u.options v Valuation.none condition]
  cases condition with
  | none => rfl
  | some c => exact h.conditions c (hc c rfl)

end Accepted

end ShaderUnit

end ShaderVariants
