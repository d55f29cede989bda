import Mathlib
import ShaderVariants.Proofs.Analysis.Acceptance

/-!
# Variants grouped by their programs

A build compiles one word for each pair of programs and takes the programs over for all
words that differ from it in invariant options only.  The words are thereby sorted into
groups.  Clearing the invariant options of a word gives the first one of its group, and
two words have the same program key exactly if they are in the same group.

## Main results

* `mem_program_iff`, `mem_invariant_iff` — the first words of the groups, and the words of
  a group.
* `AnalyzedShader.groups_partition` — **the groups of an accepted source** are a partition
  of all its variants.
-/

namespace ShaderVariants

open OptionWord ShaderOption

section Groups

variable {os : List ShaderOption} {w w' p q : OptionWord}

/-- The fields of invariant options hold their first value once they are cleared. -/
theorem field_clear_of_invariant (hpacked : Packed os) (w : OptionWord) {o : ShaderOption}
    (ho : o ∈ os) (hinv : o.invariant = true) : o.field (w.clear (invarianceMask os)) = 0 := by
  apply Nat.eq_of_testBit_eq
  intro i
  rw [ShaderOption.field, testBit_field, Nat.zero_testBit]
  by_cases hi : i < o.bitCount
  · have hmask := (testBit_invarianceMask_iff hpacked (o.offset + i)).mpr
      ⟨o, ho, hinv, Nat.le_add_right _ _, by omega⟩
    simp [hmask]
  · simp [hi]

/-- The other fields are as before. -/
theorem field_clear_of_program (hpacked : Packed os) (w : OptionWord) {o : ShaderOption}
    (ho : o ∈ os) (hinv : o.invariant = false) :
    o.field (w.clear (invarianceMask os)) = o.field w := by
  refine field_congr fun j hlo hhi => ?_
  have hmask := testBit_invarianceMask_of_program hpacked ho hinv ⟨hlo, hhi⟩
  rw [testBit_clear, hmask, Bool.not_false, Bool.and_true]

/-- Words in range stay in range if the invariant options are cleared. -/
theorem OptionWord.InRange.clear (hpacked : Packed os) (hw : OptionWord.InRange os w) :
    OptionWord.InRange os (w.clear (invarianceMask os)) where
  field_lt o ho := by
    cases hinv : o.invariant with
    | true => exact field_clear_of_invariant hpacked w ho hinv ▸ o.valueCount_pos
    | false => exact field_clear_of_program hpacked w ho hinv ▸ hw.field_lt o ho
  covered j hj := by
    rw [testBit_clear, Bool.and_eq_true] at hj
    exact hw.covered j hj.1

@[simp] theorem clear_clear (w mask : OptionWord) : (w.clear mask).clear mask = w.clear mask := by
  apply Nat.eq_of_testBit_eq
  intro i
  rw [testBit_clear, testBit_clear, Bool.and_assoc, Bool.and_self]

/-- The words of one group differ in invariant options only. -/
theorem mem_invariant_iff (hpacked : Packed os) (hw : OptionWord.InRange os w) :
    w' ∈ (VariantSpace.ofOptions os .invariant (w.clear (invarianceMask os))).words ↔
      OptionWord.InRange os w' ∧ w'.clear (invarianceMask os) = w.clear (invarianceMask os) := by
  constructor
  · intro hw'
    obtain ⟨hagree, hrange⟩ := agreeOutside_of_mem_invariant hpacked hw hw'
    exact ⟨hrange, hagree.symm⟩
  · rintro ⟨hrange, hclear⟩
    refine (VariantSpace.mem_words_ofOptions hpacked.apart_fields).mpr ⟨?_, fun j hj => ?_⟩
    · exact fun o ho _ => hrange.field_lt o ho
    · have hmask : (invarianceMask os).testBit j = false := by
        refine Bool.eq_false_iff.mpr fun hbit => ?_
        obtain ⟨o, ho, hinv, hcovers⟩ := (testBit_invarianceMask_iff hpacked j).mp hbit
        exact hj o ho hinv hcovers
      rw [← hclear, testBit_clear, hmask, Bool.not_false, Bool.and_true]

/-- The words that programs are compiled for are those without invariant options. -/
theorem mem_program_iff (hpacked : Packed os) :
    p ∈ (VariantSpace.ofOptions os .program 0).words ↔
      OptionWord.InRange os p ∧ p.clear (invarianceMask os) = p := by
  rw [VariantSpace.mem_words_ofOptions hpacked.apart_fields]
  simp only [OptionFilter.accepts, Bool.not_eq_true', Nat.zero_testBit]
  constructor
  · rintro ⟨hfields, hother⟩
    have hcovered : ∀ j, p.testBit j = true → ∃ o ∈ os, o.invariant = false ∧ o.Covers j := by
      intro j hj
      by_contra hnone
      rw [hother j fun o ho hinv hcovers => hnone ⟨o, ho, hinv, hcovers⟩] at hj
      exact Bool.false_ne_true hj
    have hclear : p.clear (invarianceMask os) = p := by
      apply Nat.eq_of_testBit_eq
      intro j
      rw [testBit_clear, Bool.and_eq_left_iff_imp, Bool.not_eq_true']
      intro hj
      obtain ⟨o, ho, hinv, hcovers⟩ := hcovered j hj
      exact testBit_invarianceMask_of_program hpacked ho hinv hcovers
    refine ⟨⟨fun o ho => ?_, fun j hj => ?_⟩, hclear⟩
    · cases hinv : o.invariant with
      | true =>
        rw [← hclear, field_clear_of_invariant hpacked p ho hinv]
        exact o.valueCount_pos
      | false => exact hfields o ho hinv
    · obtain ⟨o, ho, -, hcovers⟩ := hcovered j hj
      exact ⟨o, ho, hcovers⟩
  · rintro ⟨hrange, hclear⟩
    refine ⟨fun o ho _ => hrange.field_lt o ho, fun j hj => ?_⟩
    refine Bool.eq_false_iff.mpr fun hbit => ?_
    obtain ⟨o, ho, hcovers⟩ := hrange.covered j hbit
    cases hinv : o.invariant with
    | true =>
      have hmask := (testBit_invarianceMask_iff hpacked j).mpr ⟨o, ho, hinv, hcovers⟩
      rw [← hclear, testBit_clear, hmask, Bool.not_true, Bool.and_false] at hbit
      exact Bool.false_ne_true hbit
    | false => exact hj o ho hinv hcovers

/-- A space begins with the word whose varying fields are all at their first value. -/
theorem VariantSpace.head?_words (s : VariantSpace) : s.words.head? = some s.base := by
  have hword : s.word 0 = s.base := by
    rw [word, fieldsOf_zero, Nat.zero_or]
  have hsize : s.size ≠ 0 := (sizeOf_pos s.digits).ne'
  rw [words, List.head?_map, List.head?_range, if_neg hsize, Option.map_some, hword]

/-- A group begins with the word that its programs are compiled for. -/
theorem head?_invariant (hpacked : Packed os)
    (hp : p ∈ (VariantSpace.ofOptions os .program 0).words) :
    (VariantSpace.ofOptions os .invariant (p.clear (invarianceMask os))).words.head? = some p := by
  obtain ⟨-, hclear⟩ := (mem_program_iff hpacked).mp hp
  rw [VariantSpace.head?_words, Option.some_inj]
  apply Nat.eq_of_testBit_eq
  intro j
  rw [Bool.eq_iff_iff, VariantSpace.testBit_base_ofOptions hpacked.apart_fields, hclear]
  refine and_iff_left_of_imp fun hbit o ho hinv hcovers => ?_
  have hmask := (testBit_invarianceMask_iff hpacked j).mpr ⟨o, ho, hinv, hcovers⟩
  rw [← hclear, testBit_clear, hmask, Bool.not_true, Bool.and_false] at hbit
  exact Bool.false_ne_true hbit

/-- Different programs have no word in common. -/
theorem disjoint_invariant (hpacked : Packed os)
    (hp : p ∈ (VariantSpace.ofOptions os .program 0).words)
    (hq : q ∈ (VariantSpace.ofOptions os .program 0).words) (hne : p ≠ q) :
    List.Disjoint (VariantSpace.ofOptions os .invariant (p.clear (invarianceMask os))).words
      (VariantSpace.ofOptions os .invariant (q.clear (invarianceMask os))).words := by
  intro w hwp hwq
  obtain ⟨hprange, hpclear⟩ := (mem_program_iff hpacked).mp hp
  obtain ⟨hqrange, hqclear⟩ := (mem_program_iff hpacked).mp hq
  refine hne ?_
  calc p = p.clear (invarianceMask os) := hpclear.symm
    _ = w.clear (invarianceMask os) := ((mem_invariant_iff hpacked hprange).mp hwp).2.symm
    _ = q.clear (invarianceMask os) := ((mem_invariant_iff hpacked hqrange).mp hwq).2
    _ = q := hqclear

/-- **The groups make up the space of all variants**, each word in one of them. -/
theorem perm_groups (hpacked : Packed os) :
    ((VariantSpace.ofOptions os .program 0).words.flatMap fun p =>
      (VariantSpace.ofOptions os .invariant (p.clear (invarianceMask os))).words).Perm
      (VariantSpace.ofOptions os .all 0).words := by
  have hclean {filter : OptionFilter} {base : OptionWord} :
      (VariantSpace.ofOptions os filter base).Clean :=
    VariantSpace.clean_ofOptions hpacked.apart_fields
  refine (List.perm_ext_iff_of_nodup ?_ (VariantSpace.nodup_words hclean)).mpr fun w => ?_
  · refine List.nodup_flatMap.mpr ⟨fun p _ => VariantSpace.nodup_words hclean, ?_⟩
    refine (VariantSpace.nodup_words hclean).imp_of_mem ?_
    exact fun hp hq hne => disjoint_invariant hpacked hp hq hne
  · rw [List.mem_flatMap, mem_all_iff hpacked]
    constructor
    · rintro ⟨p, hp, hw⟩
      exact ((mem_invariant_iff hpacked ((mem_program_iff hpacked).mp hp).1).mp hw).1
    · -- the first word of a group is any of its words with the invariant options cleared
      intro hw
      have hrange := hw.clear hpacked
      refine ⟨w.clear (invarianceMask os), (mem_program_iff hpacked).mpr ⟨hrange, ?_⟩, ?_⟩
      · exact clear_clear w _
      · exact (mem_invariant_iff hpacked hrange).mpr ⟨hw, (clear_clear w _).symm⟩

end Groups

/-- Two words of a shader have the same program key if they differ in the bits of its
invariance mask only. -/
theorem ShaderInfo.programKey_eq_iff (info : ShaderInfo) (w w' : OptionWord) :
    info.programKey w = info.programKey w' ↔
      w.clear info.invarianceMask = w'.clear info.invarianceMask := by
  simp [ShaderInfo.programKey, VariantKey.programKey]

namespace AnalyzedShader

/-- **The loops of a build partition the variants.**  For every accepted source: a variant
is in the group of another one exactly if they have the same program key; each group of a
program variant begins with that variant; groups of different program variants are
disjoint; and all groups together are the words of all variants, each of which occurs
once. -/
theorem groups_partition {name source : String} {u : ShaderUnit}
    (hsound : (analyze name source u).isSound = true) :
    let s := analyze name source u
    (∀ w ∈ s.allVariants.words, ∀ w' ∈ s.allVariants.words,
      w' ∈ (s.invariantsFor w).words ↔ s.info.programKey w' = s.info.programKey w) ∧
    (∀ p ∈ s.programVariants.words, (s.invariantsFor p).words.head? = some p) ∧
    (∀ p ∈ s.programVariants.words, ∀ q ∈ s.programVariants.words, p ≠ q →
      List.Disjoint (s.invariantsFor p).words (s.invariantsFor q).words) ∧
    (s.programVariants.words.flatMap fun p => (s.invariantsFor p).words).Perm
      s.allVariants.words ∧
    s.allVariants.words.Nodup ∧
    s.allVariants.size = (s.programVariants.words.map fun p => (s.invariantsFor p).size).sum := by
  have hpacked := (ShaderUnit.Accepted.of_isSound hsound).packed_options
  have hperm := perm_groups hpacked
  refine ⟨fun w hw w' hw' => ?_, fun p hp => head?_invariant hpacked hp,
    fun p hp q hq hne => disjoint_invariant hpacked hp hq hne, hperm, ?_, ?_⟩
  · rw [ShaderInfo.programKey_eq_iff]
    refine (mem_invariant_iff hpacked ((mem_all_iff hpacked).mp hw)).trans ?_
    exact and_iff_right ((mem_all_iff hpacked).mp hw')
  · exact VariantSpace.nodup_words (VariantSpace.clean_ofOptions hpacked.apart_fields)
  · have hlength := hperm.length_eq
    rw [List.length_flatMap, VariantSpace.length_words] at hlength
    simp only [VariantSpace.length_words] at hlength
    exact hlength.symm

/-- A shader with a blended variant of each of its three patterns. -/
def patternShader : ShaderUnit where
  declaredOptions := [
    { name := "Blend" },
    { name := "Pattern", namedValues := ["Plain", "Dotted", "Striped"] }]
  blocks := [
    .pipeline { condition := some { expr := .var "Blend" }, changes := { depthWrite := false } },
    .stage { stage := .vertex },
    .stage { stage := .fragment, body := [.selection (.var "Pattern") (.jump .discard) none] }]

set_option maxRecDepth 10000 in
/-- The six variants of `patternShader` fall into a group of two for each pattern. -/
theorem patternShader_groups :
    (analyze "pattern.shader" "" patternShader).isSound = true ∧
    (analyze "pattern.shader" "" patternShader).programVariants.words = [0b000, 0b010, 0b100] ∧
    [0b000, 0b001, 0b010, 0b011, 0b100, 0b101].Perm
      (analyze "pattern.shader" "" patternShader).allVariants.words := by
  have hsound : (analyze "pattern.shader" "" patternShader).isSound = true := by decide
  refine ⟨hsound, by decide, ?_⟩
  exact (groups_partition hsound).2.2.2.1

end AnalyzedShader

end ShaderVariants
