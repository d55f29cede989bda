import Mathlib
import ShaderVariants.Proofs.Keyed
import ShaderVariants.Proofs.Options.Enumeration

/-!
# Words in range

An option word is in range if every field holds a value of its option and no bit is set
outside of the fields.  The space of all variants holds exactly these words.  Packing
values gives such a word, with every value in the field of its option, and packing the
values that such a word stands for gives the word back.

## Main definitions

* `OptionWord.InRange` — the words of variants.
* `NamesApart` — options that are told apart by name.

## Main results

* `mem_all_iff` — the space of all variants holds the words in range.
* `field_packValues`, `inRange_packValues` — what packing values gives.
* `packValues_ofWord` — **packing undoes unpacking** for words in range.
-/

namespace ShaderVariants

open OptionWord ShaderOption

/-! ### Words in range -/

/-- Every field holds a value of its option, and there is nothing but fields. -/
structure OptionWord.InRange (os : List ShaderOption) (w : OptionWord) : Prop where
  field_lt : ∀ o ∈ os, o.field w < o.valueCount
  covered : ∀ j, w.testBit j = true → ∃ o ∈ os, o.Covers j

section Spaces

variable {os : List ShaderOption} {w w' : OptionWord}

/-- All words of the space of all variants are in range. -/
theorem inRange_of_mem_all (hpacked : Packed os)
    (hw : w ∈ (VariantSpace.ofOptions os .all 0).words) : OptionWord.InRange os w := by
  obtain ⟨hfields, hother⟩ := (VariantSpace.mem_words_ofOptions hpacked.apart_fields).mp hw
  refine ⟨fun o ho => hfields o ho rfl, fun j hj => ?_⟩
  by_contra hnone
  rw [hother j fun o ho _ hcovers => hnone ⟨o, ho, hcovers⟩, Nat.zero_testBit] at hj
  exact Bool.false_ne_true hj

/-- The space of all variants holds the words in range. -/
theorem mem_all_iff (hpacked : Packed os) :
    w ∈ (VariantSpace.ofOptions os .all 0).words ↔ OptionWord.InRange os w := by
  refine ⟨inRange_of_mem_all hpacked, fun hw => ?_⟩
  refine (VariantSpace.mem_words_ofOptions hpacked.apart_fields).mpr ⟨?_, fun j hj => ?_⟩
  · exact fun o ho _ => hw.field_lt o ho
  · rw [Nat.zero_testBit]
    refine Bool.eq_false_iff.mpr fun hbit => ?_
    obtain ⟨o, ho, hcovers⟩ := hw.covered j hbit
    exact hj o ho rfl hcovers

/-- The bits of the invariance mask are those of the fields of invariant options. -/
theorem testBit_invarianceMask_iff (hpacked : Packed os) (j : ℕ) :
    (invarianceMask os).testBit j = true ↔ ∃ o ∈ os, o.invariant = true ∧ o.Covers j := by
  rw [testBit_invarianceMask]
  refine exists_congr fun o => and_congr_right fun ho => and_congr_right fun _ => ?_
  exact o.testBit_mask_iff (hpacked.fits o ho) j

/-- No bit of the mask is in the field of an option that can change a program. -/
theorem testBit_invarianceMask_of_program (hpacked : Packed os) {o : ShaderOption} (ho : o ∈ os)
    (hinv : o.invariant = false) {j : ℕ} (hj : o.Covers j) :
    (invarianceMask os).testBit j = false := by
  refine Bool.eq_false_iff.mpr fun hbit => ?_
  obtain ⟨o', ho', hinv', hj'⟩ := (testBit_invarianceMask_iff hpacked j).mp hbit
  have hne : o ≠ o' := by
    rintro rfl
    exact Bool.false_ne_true (hinv.symm.trans hinv')
  have hapart := OptionDeclaration.disjoint_of_pairwise hpacked.apart ho ho' hne
  unfold Covers at hj hj'
  omega

/-- The words with the same programs differ in invariant options only, and stay in range. -/
theorem agreeOutside_of_mem_invariant (hpacked : Packed os) (hw : OptionWord.InRange os w)
    (hw' : w' ∈ (VariantSpace.ofOptions os .invariant (w.clear (invarianceMask os))).words) :
    AgreeOutside (invarianceMask os) w w' ∧ OptionWord.InRange os w' := by
  obtain ⟨hfields, hother⟩ := (VariantSpace.mem_words_ofOptions hpacked.apart_fields).mp hw'
  -- apart from the fields of invariant options, the word is the given one
  have hsame : ∀ j, (invarianceMask os).testBit j = false → w'.testBit j = w.testBit j := by
    intro j hmask
    have hnone : ∀ o ∈ os, o.invariant = true → ¬ o.Covers j := by
      intro o ho hinv hcovers
      rw [(testBit_invarianceMask_iff hpacked j).mpr ⟨o, ho, hinv, hcovers⟩] at hmask
      exact Bool.false_ne_true hmask.symm
    rw [hother j hnone, testBit_clear, hmask, Bool.not_false, Bool.and_true]
  refine ⟨agreeOutside_iff.mpr fun j hj => (hsame j hj).symm, fun o ho => ?_, fun j hj => ?_⟩
  · cases hinv : o.invariant with
    | true => exact hfields o ho hinv
    | false =>
      have hfield : o.field w' = o.field w := field_congr fun j hlo hhi =>
        hsame j (testBit_invarianceMask_of_program hpacked ho hinv ⟨hlo, hhi⟩)
      exact hfield ▸ hw.field_lt o ho
  · cases hmask : (invarianceMask os).testBit j with
    | true =>
      obtain ⟨o, ho, -, hcovers⟩ := (testBit_invarianceMask_iff hpacked j).mp hmask
      exact ⟨o, ho, hcovers⟩
    | false => exact hw.covered j (hsame j hmask ▸ hj)

/-! ### Packing values -/

/-- A word in range is settled by its fields. -/
theorem OptionWord.InRange.ext (hw : OptionWord.InRange os w) (hw' : OptionWord.InRange os w')
    (h : ∀ o ∈ os, o.field w = o.field w') : w = w' := by
  have hbit : ∀ o ∈ os, ∀ j, o.Covers j → w.testBit j = w'.testBit j := by
    intro o ho j hj
    have hfield := congrArg (·.testBit (j - o.offset)) (h o ho)
    simpa [ShaderOption.field, testBit_field, Nat.add_sub_cancel' hj.1,
      Nat.sub_lt_left_of_lt_add hj.1 hj.2] using hfield
  apply Nat.eq_of_testBit_eq
  intro j
  rw [Bool.eq_iff_iff]
  constructor
  · intro hj
    obtain ⟨o, ho, hcovers⟩ := hw.covered j hj
    rwa [← hbit o ho j hcovers]
  · intro hj
    obtain ⟨o, ho, hcovers⟩ := hw'.covered j hj
    rwa [hbit o ho j hcovers]

theorem OptionInfo.clamp_lt (o : OptionInfo) (value : ℕ) : o.clamp value < o.valueCount :=
  (min_le_right _ _).trans_lt (Nat.sub_lt o.valueCount_pos Nat.one_pos)

theorem testBit_packValues (v : Valuation) (j : ℕ) :
    (packValues v os).testBit j = true ↔
      ∃ o ∈ os, (place (o.clamp ((v o.name).getD 0)) o.offset).testBit j = true := by
  rw [packValues, testBit_foldl_or, Nat.zero_testBit, Bool.false_or, List.any_eq_true]

/-- **Packing clamps.**  The field of every option holds the nearest of its values. -/
theorem field_packValues (hpacked : Packed os) (v : Valuation) {o : ShaderOption} (ho : o ∈ os) :
    o.field (packValues v os) = o.clamp ((v o.name).getD 0) := by
  have hvalue (o' : ShaderOption) : o'.clamp ((v o'.name).getD 0) < 2 ^ o'.bitCount :=
    (o'.clamp_lt _).trans_le o'.valueCount_le
  rw [← field_place (hvalue o) (hpacked.fits o ho)]
  refine field_congr fun j hlo hhi => ?_
  rw [Bool.eq_iff_iff, testBit_packValues]
  refine ⟨?_, fun hbit => ⟨o, ho, hbit⟩⟩
  rintro ⟨o', ho', hbit⟩
  -- no other option has a bit in this field
  by_cases hne : o = o'
  · rwa [hne]
  · have hbounds := bounds_of_testBit_place (hvalue o') hbit
    have hapart := OptionDeclaration.disjoint_of_pairwise hpacked.apart ho ho' hne
    omega

/-- Packing gives words in range. -/
theorem inRange_packValues (hpacked : Packed os) (v : Valuation) :
    OptionWord.InRange os (packValues v os) where
  field_lt o ho := by
    rw [field_packValues hpacked v ho]
    exact o.clamp_lt _
  covered j hj := by
    obtain ⟨o, ho, hbit⟩ := (testBit_packValues v j).mp hj
    exact ⟨o, ho, bounds_of_testBit_place ((o.clamp_lt _).trans_le o.valueCount_le) hbit⟩

/-! ### Packing the values of a word -/

/-- Options are told apart by name, and none of them has the name of a named value. -/
structure NamesApart (os : List ShaderOption) : Prop where
  nodup : (os.map (·.name)).Nodup
  namedValue : ∀ o ∈ os, namedValue? os o.name = none

/-- What no option names has no value as a named value. -/
theorem namedValue?_eq_none {name : String} (h : ∀ o ∈ os, ∀ value ∈ o.namedValues, value ≠ name) :
    namedValue? os name = none := by
  refine List.findSome?_eq_none_iff.mpr ?_
  rintro ⟨value, index⟩ hmem
  obtain ⟨o, ho, hvalue⟩ := List.mem_flatMap.mp (List.mem_reverse.mp hmem)
  exact if_neg (h o ho value (List.fst_mem_of_mem_zipIdx hvalue))

/-- A word in range stands for its fields. -/
theorem ofWord_name (hnames : NamesApart os) (hw : OptionWord.InRange os w) {o : ShaderOption}
    (ho : o ∈ os) : Valuation.ofWord os w o.name = some (o.field w) := by
  have hfind : os.find? (·.name = o.name) = some o :=
    (find?_key_iff hnames.nodup).mpr ⟨ho, rfl⟩
  rw [Valuation.ofWord, hfind, Option.map_some, OptionInfo.clamp_of_lt (hw.field_lt o ho)]

/-- Conditions see the value of an option, or its first one if none is given. -/
theorem filtered_name (hnames : NamesApart os) (v : Valuation) {o : ShaderOption} (ho : o ∈ os) :
    Valuation.filtered os v o.name = some ((v o.name).getD 0) := by
  have hany : os.any (fun o' => o'.name = o.name) = true :=
    List.any_eq_true.mpr ⟨o, ho, by simp⟩
  simp only [Valuation.filtered, hnames.namedValue o ho, hany, if_true]

/-- Packing what conditions see is packing what was given. -/
theorem packValues_filtered (hpacked : Packed os) (hnames : NamesApart os) (v : Valuation) :
    packValues (.filtered os v) os = packValues v os := by
  refine (inRange_packValues hpacked _).ext (inRange_packValues hpacked v) fun o ho => ?_
  rw [field_packValues hpacked _ ho, field_packValues hpacked v ho, filtered_name hnames v ho,
    Option.getD_some]

/-- **Packing undoes unpacking** for words in range. -/
theorem packValues_ofWord (hpacked : Packed os) (hnames : NamesApart os)
    (hw : OptionWord.InRange os w) :
    packValues (.filtered os (.ofWord os w)) os = w := by
  refine (inRange_packValues hpacked _).ext hw fun o ho => ?_
  rw [packValues_filtered hpacked hnames, field_packValues hpacked _ ho, ofWord_name hnames hw ho,
    Option.getD_some, OptionInfo.clamp_of_lt (hw.field_lt o ho)]

end Spaces

end ShaderVariants
