import Mathlib
import ShaderVariants.Proofs.Options.Digit

/-!
# Enumeration of variant spaces

The words of a space are numbered by a mixed radix whose digits are the fields of the
varying options.  A step of the counter leads from the combination of one number to that
of the next, so the counter shows the words by their numbers, in ascending order, and ends
after the last one.  A word is shown exactly if its varying fields hold values of their
options and all its other bits are those of the base.

## Main definitions

* `VariantSpace.numberOf` — the number of a combination.
* `VariantSpace.Clean` — stacked digits with no bits of the base in them.

## Main results

* `VariantSpace.advance_fieldsOf` — **a step of the counter** adds one to the number.
* `VariantSpace.firstWords_eq_take` — the counter shows the words by their numbers.
* `VariantSpace.pairwise_words`, `VariantSpace.mem_words` — the words ascend, and which
  they are.
* `VariantSpace.enumerates` — the counter of any choice of packed options is exact.
-/

namespace ShaderVariants

open OptionWord ShaderOption

namespace VariantSpace

/-! ### Combinations -/

section Combinations

variable {o : ShaderOption} {digits : List ShaderOption} {w : OptionWord} {i j : ℕ}

theorem distinctCount_eq (hfits : o.offset + o.bitCount ≤ width) :
    o.distinctCount = o.valueCount := by
  refine min_eq_left (o.valueCount_le.trans ?_)
  rw [Nat.one_shiftLeft]
  exact Nat.pow_le_pow_right Nat.two_pos (by omega)

theorem fieldsOf_cons (h : Stacked (o :: digits)) (i : ℕ) :
    fieldsOf (o :: digits) i =
      place (i % o.valueCount) o.offset ||| fieldsOf digits (i / o.valueCount) := by
  rw [fieldsOf, distinctCount_eq (h.fits o List.mem_cons_self)]

theorem fieldsOf_zero (digits : List ShaderOption) : fieldsOf digits 0 = 0 := by
  induction digits with
  | nil => rfl
  | cons o rest ih => rw [fieldsOf, Nat.zero_mod, Nat.zero_div, ih, place]; simp

theorem sizeOf_pos (digits : List ShaderOption) : 0 < sizeOf digits := by
  induction digits with
  | nil => exact Nat.one_pos
  | cons o rest ih => exact Nat.mul_pos o.valueCount_pos ih

/-- Combinations set no bits outside of the fields. -/
theorem covers_of_testBit_fieldsOf : ∀ (digits : List ShaderOption) (i : ℕ),
    (fieldsOf digits i).testBit j = true → ∃ o ∈ digits, o.Covers j := by
  intro digits
  induction digits with
  | nil => exact fun i h => absurd h (by simp [fieldsOf])
  | cons o rest ih =>
    intro i h
    rw [fieldsOf, Nat.testBit_or, Bool.or_eq_true] at h
    rcases h with h | h
    · have hvalue := (o.mod_distinctCount_lt i).trans_le o.valueCount_le
      exact ⟨o, List.mem_cons_self, bounds_of_testBit_place hvalue h⟩
    · obtain ⟨o', ho', hcovers⟩ := ih _ h
      exact ⟨o', List.mem_cons_of_mem o ho', hcovers⟩

/-- The first digit is the remainder of the number. -/
theorem field_fieldsOf_head (h : Stacked (o :: digits)) (i : ℕ) :
    o.field (fieldsOf (o :: digits) i) = i % o.valueCount := by
  have hfits := h.fits o List.mem_cons_self
  have hvalue : i % o.valueCount < 2 ^ o.bitCount :=
    (Nat.mod_lt i o.valueCount_pos).trans_le o.valueCount_le
  rw [← field_place hvalue hfits]
  refine field_congr fun j hlo hhi => ?_
  rw [fieldsOf_cons h, Nat.testBit_or, Bool.or_eq_left_iff_imp]
  intro hj
  -- the other fields lie above the first one
  obtain ⟨o', ho', hcovers⟩ := covers_of_testBit_fieldsOf digits _ hj
  exact absurd (h.le_of_covers ho' hcovers) (by omega)

/-- The other digits are those of the quotient. -/
theorem field_fieldsOf_tail (h : Stacked (o :: digits)) {o' : ShaderOption} (ho' : o' ∈ digits)
    (i : ℕ) :
    o'.field (fieldsOf (o :: digits) i) = o'.field (fieldsOf digits (i / o.valueCount)) := by
  have hvalue : i % o.valueCount < 2 ^ o.bitCount :=
    (Nat.mod_lt i o.valueCount_pos).trans_le o.valueCount_le
  refine field_congr fun j hlo hhi => ?_
  rw [fieldsOf_cons h, Nat.testBit_or, Bool.or_eq_right_iff_imp]
  intro hj
  have hbounds := bounds_of_testBit_place hvalue hj
  exact absurd (h.le_of_covers ho' ⟨hlo, hhi⟩) (by omega)

/-- Combinations hold a value of every option. -/
theorem field_fieldsOf_lt : ∀ (digits : List ShaderOption) (i : ℕ), Stacked digits →
    ∀ o ∈ digits, o.field (fieldsOf digits i) < o.valueCount := by
  intro digits
  induction digits with
  | nil => exact fun _ _ o ho => absurd ho List.not_mem_nil
  | cons d rest ih =>
    intro i h o ho
    rcases List.mem_cons.mp ho with rfl | ho
    · rw [field_fieldsOf_head h]
      exact Nat.mod_lt i o.valueCount_pos
    · rw [field_fieldsOf_tail h ho]
      exact ih _ h.of_cons o ho

/-- The number of the combination that is in the fields of a word. -/
def numberOf : List ShaderOption → OptionWord → ℕ
  | [], _ => 0
  | o :: rest, w => o.field w + o.valueCount * numberOf rest w

theorem numberOf_lt (hw : ∀ o ∈ digits, o.field w < o.valueCount) :
    numberOf digits w < sizeOf digits := by
  induction digits with
  | nil => exact Nat.one_pos
  | cons o rest ih =>
    obtain ⟨hfield, hrest⟩ := List.forall_mem_cons.mp hw
    calc o.field w + o.valueCount * numberOf rest w
        < o.valueCount * (numberOf rest w + 1) := by rw [Nat.mul_succ]; omega
      _ ≤ o.valueCount * sizeOf rest := Nat.mul_le_mul_left _ (ih hrest)

/-- The combination of that number has the bits of the word in all fields. -/
theorem testBit_fieldsOf_numberOf (h : Stacked digits)
    (hw : ∀ o ∈ digits, o.field w < o.valueCount) (j : ℕ) :
    (fieldsOf digits (numberOf digits w)).testBit j = true ↔
      (∃ o ∈ digits, o.Covers j) ∧ w.testBit j = true := by
  induction digits with
  | nil => simp [fieldsOf]
  | cons o rest ih =>
    obtain ⟨hfield, hrest⟩ := List.forall_mem_cons.mp hw
    have hmod : numberOf (o :: rest) w % o.valueCount = w.field o.offset o.bitCount := by
      rw [numberOf, Nat.add_mul_mod_self_left, Nat.mod_eq_of_lt hfield]
      rfl
    have hdiv : numberOf (o :: rest) w / o.valueCount = numberOf rest w := by
      rw [numberOf, Nat.add_mul_div_left _ _ o.valueCount_pos, Nat.div_eq_of_lt hfield,
        Nat.zero_add]
    rw [fieldsOf_cons h, hmod, hdiv, Nat.testBit_or, Bool.or_eq_true,
      testBit_place_field (h.fits o List.mem_cons_self), ih h.of_cons hrest, ← or_and_right,
      List.exists_mem_cons_iff, Covers]

end Combinations

/-! ### Spaces -/

/-- The digits are stacked, and the base has no bits in them. -/
structure Clean (s : VariantSpace) : Prop where
  stacked : Stacked s.digits
  base : ∀ o ∈ s.digits, ∀ j, o.Covers j → s.base.testBit j = false

section Spaces

variable {s : VariantSpace} {w : OptionWord} {i : ℕ}

/-- The base changes none of the digits. -/
theorem Clean.field_or_base (h : s.Clean) {o : ShaderOption} (ho : o ∈ s.digits)
    (w : OptionWord) : o.field (w ||| s.base) = o.field w := by
  refine field_congr fun j hlo hhi => ?_
  rw [Nat.testBit_or, h.base o ho j ⟨hlo, hhi⟩, Bool.or_false]

@[simp] theorem length_words (s : VariantSpace) : s.words.length = s.size := by
  rw [words, List.length_map, List.length_range]

/-- **The words of a space** hold values of the varying options, and the bits of the base
everywhere else. -/
theorem mem_words (h : s.Clean) : w ∈ s.words ↔
    (∀ o ∈ s.digits, o.field w < o.valueCount) ∧
      ∀ j, (∀ o ∈ s.digits, ¬ o.Covers j) → w.testBit j = s.base.testBit j := by
  constructor
  · intro hw
    obtain ⟨i, -, rfl⟩ := List.mem_map.mp hw
    constructor
    · intro o ho
      rw [word, h.field_or_base ho]
      exact field_fieldsOf_lt s.digits i h.stacked o ho
    · intro j hj
      rw [word, Nat.testBit_or, Bool.or_eq_right_iff_imp]
      intro hbit
      obtain ⟨o, ho, hcovers⟩ := covers_of_testBit_fieldsOf s.digits i hbit
      exact absurd hcovers (hj o ho)
  · rintro ⟨hfields, hother⟩
    refine List.mem_map.mpr ⟨numberOf s.digits w, ?_, ?_⟩
    · exact List.mem_range.mpr (numberOf_lt hfields)
    · apply Nat.eq_of_testBit_eq
      intro j
      have hfieldsOf := testBit_fieldsOf_numberOf h.stacked hfields j
      rw [word, Nat.testBit_or, Bool.eq_iff_iff, Bool.or_eq_true, hfieldsOf]
      by_cases hj : ∃ o ∈ s.digits, o.Covers j
      · obtain ⟨o, ho, hcovers⟩ := hj
        simp [h.base o ho j hcovers, show ∃ o ∈ s.digits, o.Covers j from ⟨o, ho, hcovers⟩]
      · rw [hother j fun o ho hcovers => hj ⟨o, ho, hcovers⟩]
        simp [hj]

end Spaces

/-! ### The counter -/

section Counter

variable {o : ShaderOption} {digits : List ShaderOption} {low w w' : OptionWord} {i k : ℕ}

theorem advance_cons (o : ShaderOption) (digits : List ShaderOption) (w : OptionWord) :
    advance (o :: digits) w =
      if o.field w + 1 < o.valueCount then
        some (w.clear (.mask 0 (o.offset + o.bitCount)) ||| .place (o.field w + 1) o.offset)
      else advance digits w := by
  rw [advance, List.findSome?_cons]
  split_ifs <;> rfl

/-- Clearing leaves the bits above. -/
theorem testBit_clear_below (hk : k ≤ width) (w : OptionWord) (j : ℕ) :
    (w.clear (.mask 0 k)).testBit j = (w.testBit j && decide (k ≤ j)) := by
  rw [testBit_clear, testBit_mask]
  congr 1
  rw [← decide_not, decide_eq_decide]
  omega

/-- A field with more than one value has a bit. -/
theorem covers_offset (h : 1 < o.valueCount) : o.Covers o.offset := by
  refine ⟨le_rfl, Nat.lt_add_of_pos_right (Nat.pos_of_ne_zero fun hzero => ?_)⟩
  have hcount := o.valueCount_le
  rw [hzero] at hcount
  exact absurd h (not_lt.mpr hcount)

/-- The step depends only on the bits from the lowest digit on. -/
theorem advance_or_below (hfits : ∀ o ∈ digits, o.offset + o.bitCount ≤ width)
    (habove : ∀ o ∈ digits, ∀ j, o.Covers j → k ≤ j)
    (hlow : ∀ j, low.testBit j = true → j < k) :
    advance digits (low ||| w) = advance digits w := by
  induction digits with
  | nil => rfl
  | cons o rest ih =>
    obtain ⟨hfitsO, hfitsRest⟩ := List.forall_mem_cons.mp hfits
    obtain ⟨haboveO, haboveRest⟩ := List.forall_mem_cons.mp habove
    have hbit : ∀ j, k ≤ j → (low ||| w).testBit j = w.testBit j := by
      intro j hj
      rw [Nat.testBit_or, Bool.or_eq_right_iff_imp]
      exact fun hlowj => absurd (hlow j hlowj) (not_lt.mpr hj)
    have hfield : o.field (low ||| w) = o.field w :=
      field_congr fun j hlo hhi => hbit j (haboveO j ⟨hlo, hhi⟩)
    rw [advance_cons, advance_cons, hfield, ih hfitsRest haboveRest]
    split_ifs with hgrows
    · have hk : k ≤ o.offset := haboveO _ (covers_offset (by omega))
      congr 2
      apply Nat.eq_of_testBit_eq
      intro j
      rw [testBit_clear_below hfitsO, testBit_clear_below hfitsO]
      by_cases hj : o.offset + o.bitCount ≤ j
      · rw [hbit j (by omega)]
      · simp [hj]
    · rfl

/-- Clearing the first digit and all bits below it leaves the other digits. -/
theorem clear_fieldsOf (h : Stacked (o :: digits)) (i : ℕ) :
    (fieldsOf (o :: digits) i).clear (.mask 0 (o.offset + o.bitCount)) =
      fieldsOf digits (i / o.valueCount) := by
  have hvalue : i % o.valueCount < 2 ^ o.bitCount :=
    (Nat.mod_lt i o.valueCount_pos).trans_le o.valueCount_le
  apply Nat.eq_of_testBit_eq
  intro j
  rw [testBit_clear_below (h.fits o List.mem_cons_self), fieldsOf_cons h, Nat.testBit_or]
  by_cases hj : o.offset + o.bitCount ≤ j
  · have hplace : (place (i % o.valueCount) o.offset).testBit j = false := by
      refine Bool.eq_false_iff.mpr fun hbit => ?_
      exact absurd (bounds_of_testBit_place hvalue hbit).2 (not_lt.mpr hj)
    simp [hj, hplace]
  · have hdigits : (fieldsOf digits (i / o.valueCount)).testBit j = false := by
      refine Bool.eq_false_iff.mpr fun hbit => ?_
      obtain ⟨o', ho', hcovers⟩ := covers_of_testBit_fieldsOf digits _ hbit
      exact hj (h.le_of_covers ho' hcovers)
    simp [hj, hdigits]

/-- Unless the first digit is at its last value, the next number changes nothing else. -/
theorem fieldsOf_succ_of_lt (h : Stacked (o :: digits))
    (hgrows : i % o.valueCount + 1 < o.valueCount) :
    fieldsOf (o :: digits) (i + 1) =
      fieldsOf digits (i / o.valueCount) ||| place (i % o.valueCount + 1) o.offset := by
  have hmod : (i + 1) % o.valueCount = i % o.valueCount + 1 := by
    rw [Nat.add_mod, Nat.mod_eq_of_lt (by omega : 1 < o.valueCount), Nat.mod_eq_of_lt hgrows]
  have hdiv : (i + 1) / o.valueCount = i / o.valueCount :=
    Nat.succ_div_of_mod_ne_zero (by omega)
  rw [fieldsOf_cons h, hmod, hdiv, Nat.lor_comm]

/-- If the first digit is at its last value, it begins again and the others go on. -/
theorem fieldsOf_succ_of_eq (h : Stacked (o :: digits))
    (hsucc : i + 1 = o.valueCount * (i / o.valueCount + 1)) :
    fieldsOf (o :: digits) (i + 1) = fieldsOf digits (i / o.valueCount + 1) := by
  rw [fieldsOf_cons h, hsucc, Nat.mul_mod_right, Nat.mul_div_cancel_left _ o.valueCount_pos, place]
  simp

/-- **A step of the counter** leads from each combination to the one of the next number,
and from the last one nowhere. -/
theorem advance_fieldsOf (h : Stacked digits) (hi : i < sizeOf digits) :
    advance digits (fieldsOf digits i) =
      if i + 1 < sizeOf digits then some (fieldsOf digits (i + 1)) else none := by
  induction digits generalizing i with
  | nil =>
    obtain rfl : i = 0 := Nat.lt_one_iff.mp hi
    rfl
  | cons o rest ih =>
    have hquot : i / o.valueCount < sizeOf rest := Nat.div_lt_of_lt_mul hi
    have hmod := Nat.mod_lt i o.valueCount_pos
    have hsplit := Nat.div_add_mod i o.valueCount
    rw [advance_cons, field_fieldsOf_head h]
    by_cases hgrows : i % o.valueCount + 1 < o.valueCount
    · have hnext : i + 1 < sizeOf (o :: rest) := by
        have hle := Nat.mul_le_mul_left o.valueCount (Nat.succ_le_of_lt hquot)
        rw [Nat.mul_succ] at hle
        exact (by omega : i + 1 < o.valueCount * (i / o.valueCount) + o.valueCount).trans_le hle
      rw [if_pos hgrows, if_pos hnext, clear_fieldsOf h, fieldsOf_succ_of_lt h hgrows]
    · -- the carry goes to the other digits, which do not see the first one
      have hsucc : i + 1 = o.valueCount * (i / o.valueCount + 1) := by
        rw [Nat.mul_succ]
        omega
      have hbelow : advance rest (fieldsOf (o :: rest) i) =
          advance rest (fieldsOf rest (i / o.valueCount)) := by
        rw [fieldsOf_cons h]
        exact advance_or_below h.of_cons.fits (fun o' ho' j hj => h.le_of_covers ho' hj)
          fun j hj => (bounds_of_testBit_place (hmod.trans_le o.valueCount_le) hj).2
      have hsize : i + 1 < sizeOf (o :: rest) ↔ i / o.valueCount + 1 < sizeOf rest := by
        rw [hsucc, sizeOf]
        exact Nat.mul_lt_mul_left o.valueCount_pos
      rw [if_neg hgrows, hbelow, ih h.of_cons hquot, fieldsOf_succ_of_eq h hsucc]
      simp only [hsize]

end Counter

section Spaces

variable {s : VariantSpace} {w w' : OptionWord} {i j : ℕ}

/-- Every step of the counter leads to a greater word. -/
theorem lt_of_advance (h : s.Clean) (hstep : advance s.digits w = some w') :
    w ||| s.base < w' ||| s.base := by
  obtain ⟨o, ho, hgrown⟩ := List.exists_of_findSome?_eq_some hstep
  split_ifs at hgrown with hgrows
  obtain rfl := Option.some.inj hgrown
  have hfits := h.stacked.fits o ho
  have hvalue : o.field w + 1 < 2 ^ o.bitCount := hgrows.trans_le o.valueCount_le
  -- above the field that grows nothing changes
  have habove : ∀ j, o.offset + o.bitCount ≤ j →
      (w ||| s.base).testBit j = ((w.clear (.mask 0 (o.offset + o.bitCount)) |||
        place (o.field w + 1) o.offset) ||| s.base).testBit j := by
    intro j hj
    have hplace : (place (o.field w + 1) o.offset).testBit j = false := by
      refine Bool.eq_false_iff.mpr fun hbit => ?_
      exact absurd (bounds_of_testBit_place hvalue hbit).2 (not_lt.mpr hj)
    simp [testBit_clear_below hfits, hj, hplace]
  have hcleared : o.field (w.clear (.mask 0 (o.offset + o.bitCount)) |||
      place (o.field w + 1) o.offset) = o.field w + 1 := by
    rw [← field_place hvalue hfits]
    refine field_congr fun j hlo hhi => ?_
    simp [testBit_clear_below hfits, not_le.mpr hhi, field_place hvalue hfits]
  have hfield : o.field (w ||| s.base) < o.field ((w.clear (.mask 0 (o.offset + o.bitCount)) |||
      place (o.field w + 1) o.offset) ||| s.base) := by
    rw [h.field_or_base ho, h.field_or_base ho, hcleared]
    exact Nat.lt_succ_self _
  exact lt_of_field_lt habove hfield

theorem word_lt_word (h : s.Clean) (hij : i < j) (hj : j < s.size) : s.word i < s.word j := by
  induction j, hij using Nat.le_induction with
  | base =>
    refine lt_of_advance h ?_
    rw [advance_fieldsOf h.stacked (Nat.lt_of_succ_lt hj)]
    exact if_pos hj
  | succ j hij ih =>
    refine (ih (Nat.lt_of_succ_lt hj)).trans (lt_of_advance h ?_)
    rw [advance_fieldsOf h.stacked (Nat.lt_of_succ_lt hj)]
    exact if_pos hj

/-- The words of a space ascend with their numbers. -/
theorem pairwise_words (h : s.Clean) : s.words.Pairwise (· < ·) := by
  refine List.pairwise_map.mpr (List.pairwise_lt_range.imp_of_mem ?_)
  intro i j _ hj hij
  exact word_lt_word h hij (List.mem_range.mp hj)

theorem nodup_words (h : s.Clean) : s.words.Nodup := (pairwise_words h).imp ne_of_lt

/-- From the combination of a number on, the counter shows the words from that number
on. -/
theorem walk_fieldsOf (h : s.Clean) (n : ℕ) (hi : i < s.size) :
    s.walk n (some (fieldsOf s.digits i)) = (s.words.drop i).take n := by
  induction n generalizing i with
  | zero => rfl
  | succ n ih =>
    have hlt : i < s.words.length := by rwa [length_words]
    have hword : s.words[i] = s.word i := by simp [words]
    rw [walk, advance_fieldsOf h.stacked hi, List.drop_eq_getElem_cons hlt, List.take_succ_cons,
      hword]
    refine congrArg (s.word i :: ·) ?_
    split_ifs with hnext
    · exact ih hnext
    · -- there are no words behind the last one
      rw [List.drop_eq_nil_of_le (by rw [length_words]; exact not_lt.mp hnext), List.take_nil]
      cases n <;> rfl

/-- **The counter shows the words by their numbers** and ends after the last one. -/
theorem firstWords_eq_take (h : s.Clean) (n : ℕ) : s.firstWords n = s.words.take n := by
  have hwalk := walk_fieldsOf h n (sizeOf_pos s.digits)
  rwa [fieldsOf_zero, List.drop_zero] at hwalk

end Spaces

/-! ### Spaces of options -/

section OfOptions

variable {os : List ShaderOption} {filter : OptionFilter} {base w : OptionWord}

theorem mem_digits {o : ShaderOption} :
    o ∈ (ofOptions os filter base).digits ↔ o ∈ os ∧ filter.accepts o = true :=
  (perm_sortDigits _).mem_iff.trans List.mem_filter

/-- The mask of a space has the bits of the varying fields. -/
theorem testBit_base_ofOptions (h : Apart os) (j : ℕ) :
    (ofOptions os filter base).base.testBit j = true ↔
      base.testBit j = true ∧ ∀ o ∈ os, filter.accepts o = true → ¬ o.Covers j := by
  rw [ofOptions, testBit_clear, Bool.and_eq_true, Bool.not_eq_true', testBit_foldl_or,
    Nat.zero_testBit, Bool.false_or, List.any_eq_false]
  refine and_congr_right fun _ => ⟨fun hnone o ho haccepts hcovers => ?_, fun hnone o ho hbit => ?_⟩
  · have hdigit : o ∈ (ofOptions os filter base).digits := mem_digits.mpr ⟨ho, haccepts⟩
    exact hnone o hdigit ((o.testBit_mask_iff (h.fits o ho) j).mpr hcovers)
  · have hdigit : o ∈ (ofOptions os filter base).digits := ho
    obtain ⟨hmem, haccepts⟩ := mem_digits.mp hdigit
    exact hnone o hmem haccepts ((o.testBit_mask_iff (h.fits o hmem) j).mp hbit)

theorem clean_ofOptions (h : Apart os) : (ofOptions os filter base).Clean where
  stacked := stacked_sortDigits (h.sublist List.filter_sublist)
  base := by
    intro o ho j hcovers
    obtain ⟨hmem, haccepts⟩ := mem_digits.mp ho
    refine Bool.eq_false_iff.mpr fun hbit => ?_
    exact ((testBit_base_ofOptions h j).mp hbit).2 o hmem haccepts hcovers

/-- The words of a space in terms of its options. -/
theorem mem_words_ofOptions (h : Apart os) : w ∈ (ofOptions os filter base).words ↔
    (∀ o ∈ os, filter.accepts o = true → o.field w < o.valueCount) ∧
      ∀ j, (∀ o ∈ os, filter.accepts o = true → ¬ o.Covers j) → w.testBit j = base.testBit j := by
  rw [mem_words (clean_ofOptions h)]
  simp only [mem_digits, and_imp]
  refine and_congr_right fun _ => forall_congr' fun j => forall_congr' fun hj => ?_
  have hbase : (ofOptions os filter base).base.testBit j = base.testBit j := by
    rw [Bool.eq_iff_iff, testBit_base_ofOptions h]
    exact and_iff_left hj
  rw [hbase]

/-- **Enumeration is exact.**  For any choice of options that were packed into less than a
whole word, in any order, with any of them marked as invariant: the counter shows each
word of the space once, in ascending order, and ends after as many as there are
combinations.  The words are those with a value of every varying option in its field and
the bits of the base everywhere else. -/
theorem enumerates {ds : List OptionDeclaration} (hbits : OptionDeclaration.totalBits ds < width)
    (hos : os.Subperm (OptionDeclaration.pack ds)) (filter : OptionFilter) (base : OptionWord) :
    let s := ofOptions os filter base
    (∀ n, s.firstWords n = s.words.take n) ∧ s.words.length = s.size ∧
      s.words.Pairwise (· < ·) ∧
      ∀ w, w ∈ s.words ↔
        (∀ o ∈ os, filter.accepts o = true → o.field w < o.valueCount) ∧
          ∀ j, (∀ o ∈ os, filter.accepts o = true → ¬ o.Covers j) →
            w.testBit j = base.testBit j := by
  have hapart : Apart os := (packed_pack hbits.le).apart_fields.subperm hos
  have hclean : (ofOptions os filter base).Clean := clean_ofOptions hapart
  exact ⟨firstWords_eq_take hclean, length_words _, pairwise_words hclean,
    fun w => mem_words_ofOptions hapart⟩

end OfOptions

/-- Four options, one of them with a single value and so without bits. -/
def paintOptions : List OptionDeclaration := [
  { name := "Mode", namedValues := ["Plain", "Dotted", "Striped"] },
  { name := "Gloss", namedValues := ["Matt"] },
  { name := "Blend", invariant := true },
  { name := "Skinned" }]

/-- The program variants of all options in reverse order: the digits `Skinned`, `Gloss`
and `Mode` around the fixed bit of `Blend`. -/
theorem enumerates_paintOptions :
    OptionDeclaration.totalBits paintOptions < width ∧
      (OptionDeclaration.pack paintOptions).reverse.Subperm (OptionDeclaration.pack paintOptions) ∧
      ∀ n, (ofOptions (OptionDeclaration.pack paintOptions).reverse .program 0b110).firstWords n =
        [0b0100, 0b0101, 0b0110, 0b1100, 0b1101, 0b1110].take n := by
  have hbits : OptionDeclaration.totalBits paintOptions < width := by decide
  have hos := (List.reverse_perm (OptionDeclaration.pack paintOptions)).subperm
  refine ⟨hbits, hos, fun n => ?_⟩
  rw [(enumerates hbits hos .program 0b110).1 n]
  exact congrArg (List.take n) (by decide)

end VariantSpace

end ShaderVariants
