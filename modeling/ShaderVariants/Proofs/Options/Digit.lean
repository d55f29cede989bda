import Mathlib
import ShaderVariants.Proofs.Options.Field

/-!
# Digits of option words

The fields of options are the digits of a counter.  They lie apart from each other, in
whatever order the options are listed; sorted by their lowest bits, each lies above all
before it.  An option with a single value has a field without bits, which may begin where
another field begins.

## Main definitions

* `ShaderOption.Covers` — a bit lies in the field of an option.
* `ShaderOption.Packed` — fields follow one another within the word.
* `ShaderOption.Apart`, `ShaderOption.Stacked` — fields that do not overlap, in any order
  and from the lowest one up.

## Main results

* `OptionWord.field_place`, `OptionWord.lt_of_field_lt` — a field holds what was placed in
  it, and it orders words that agree above it.
* `VariantSpace.stacked_sortDigits` — sorting stacks fields that lie apart.
-/

namespace ShaderVariants

/-! ### Sizes of fields -/

/-- A field of this many bits holds every value below the count. -/
theorem le_two_pow_bitsFor (count : ℕ) : count ≤ 2 ^ bitsFor count := by
  unfold bitsFor
  split_ifs with h
  · exact h
  · have := Nat.lt_log2_self (n := count - 1)
    omega

namespace OptionInfo

theorem valueCount_pos (o : OptionInfo) : 0 < o.valueCount := by
  unfold valueCount isFlag
  cases o.namedValues with
  | nil => exact Nat.two_pos
  | cons value rest => exact Nat.succ_pos _

theorem valueCount_le (o : OptionInfo) : o.valueCount ≤ 2 ^ o.bitCount :=
  le_two_pow_bitsFor o.valueCount

theorem clamp_of_lt {o : OptionInfo} {value : ℕ} (h : value < o.valueCount) :
    o.clamp value = value :=
  Nat.min_eq_left (Nat.le_sub_one_of_lt h)

end OptionInfo

/-! ### Placing a value -/

namespace OptionWord

theorem bounds_of_testBit_place {value offset bits i : ℕ} (hvalue : value < 2 ^ bits)
    (h : (place value offset).testBit i = true) : offset ≤ i ∧ i < offset + bits := by
  simp only [testBit_place, Bool.and_eq_true, decide_eq_true_eq] at h
  obtain ⟨-, hle, hbit⟩ := h
  refine ⟨hle, ?_⟩
  by_contra hge
  have hpow : 2 ^ bits ≤ 2 ^ (i - offset) := Nat.pow_le_pow_right Nat.two_pos (by omega)
  rw [Nat.testBit_lt_two_pow (hvalue.trans_le hpow)] at hbit
  exact Bool.false_ne_true hbit

theorem field_place {value offset bits : ℕ} (hvalue : value < 2 ^ bits)
    (hfits : offset + bits ≤ width) : (place value offset).field offset bits = value := by
  apply Nat.eq_of_testBit_eq
  intro i
  rw [testBit_field, testBit_place]
  by_cases hi : i < bits
  · simp [hi, (by omega : offset + i < width)]
  · have hpow : 2 ^ bits ≤ 2 ^ i := Nat.pow_le_pow_right Nat.two_pos (not_lt.mp hi)
    rw [Nat.testBit_lt_two_pow (hvalue.trans_le hpow)]
    simp [hi]

theorem testBit_place_field {w : OptionWord} {offset bits i : ℕ} (hfits : offset + bits ≤ width) :
    (place (w.field offset bits) offset).testBit i = true ↔
      (offset ≤ i ∧ i < offset + bits) ∧ w.testBit i = true := by
  simp only [testBit_place, testBit_field, Bool.and_eq_true, decide_eq_true_eq]
  constructor
  · rintro ⟨-, hlo, hhi, hbit⟩
    rw [Nat.add_sub_cancel' hlo] at hbit
    exact ⟨⟨hlo, by omega⟩, hbit⟩
  · rintro ⟨⟨hlo, hhi⟩, hbit⟩
    rw [Nat.add_sub_cancel' hlo]
    exact ⟨by omega, hlo, by omega, hbit⟩

/-- Of two words that agree above a field, the one with the smaller field is smaller. -/
theorem lt_of_field_lt {w w' : OptionWord} {offset bits : ℕ}
    (habove : ∀ i, offset + bits ≤ i → w.testBit i = w'.testBit i)
    (hfield : w.field offset bits < w'.field offset bits) : w < w' := by
  have hhigh : w >>> offset / 2 ^ bits = w' >>> offset / 2 ^ bits := by
    apply Nat.eq_of_testBit_eq
    intro i
    rw [Nat.testBit_div_two_pow, Nat.testBit_div_two_pow, Nat.testBit_shiftRight,
      Nat.testBit_shiftRight]
    exact habove _ (by omega)
  -- the field is the low part of what lies from its first bit on
  have hshift : w >>> offset < w' >>> offset := by
    rw [field, field, Nat.one_shiftLeft] at hfield
    rw [← Nat.div_add_mod (w >>> offset) (2 ^ bits), ← Nat.div_add_mod (w' >>> offset) (2 ^ bits),
      hhigh]
    exact Nat.add_lt_add_left hfield _
  by_contra hle
  have hmono : w' / 2 ^ offset ≤ w / 2 ^ offset := Nat.div_le_div_right (not_lt.mp hle)
  rw [Nat.shiftRight_eq_div_pow, Nat.shiftRight_eq_div_pow] at hshift
  exact absurd hshift (not_lt.mpr hmono)

end OptionWord

open OptionWord

/-! ### Packed fields -/

namespace ShaderOption

/-- The bit lies in the field of the option. -/
def Covers (o : ShaderOption) (i : ℕ) : Prop := o.offset ≤ i ∧ i < o.offset + o.bitCount

/-- The fields follow one another within the word. -/
structure Packed (os : List ShaderOption) : Prop where
  apart : os.Pairwise fun a b => a.offset + a.bitCount ≤ b.offset
  fits : ∀ o ∈ os, o.offset + o.bitCount ≤ width

theorem packed_pack {ds : List OptionDeclaration}
    (h : OptionDeclaration.totalBits ds ≤ width) : Packed (OptionDeclaration.pack ds) where
  apart := OptionDeclaration.pairwise_pack ds
  fits := by
    intro o ho
    have := OptionDeclaration.end_le_of_mem_packFrom ho
    omega

/-- The fields do not overlap and lie within the word, in whatever order the options are. -/
structure Apart (os : List ShaderOption) : Prop where
  disjoint : os.Pairwise fun a b => ∀ i, a.Covers i → ¬ b.Covers i
  fits : ∀ o ∈ os, o.offset + o.bitCount ≤ width

/-- Each field lies above all before it.  A field without bits lies above every other. -/
structure Stacked (os : List ShaderOption) : Prop where
  above : os.Pairwise fun a b => ∀ i, b.Covers i → a.offset + a.bitCount ≤ i
  fits : ∀ o ∈ os, o.offset + o.bitCount ≤ width

section Layouts

variable {o : ShaderOption} {os os' : List ShaderOption}

theorem Packed.apart_fields (h : Packed os) : Apart os where
  disjoint := h.apart.imp fun hab i ha hb => by
    unfold Covers at ha hb
    omega
  fits := h.fits

theorem Apart.perm (h : Apart os) (hperm : os.Perm os') : Apart os' where
  disjoint := h.disjoint.perm hperm fun hab i hb ha => hab i ha hb
  fits := fun o ho => h.fits o (hperm.mem_iff.mpr ho)

theorem Apart.sublist (h : Apart os) (hsub : os'.Sublist os) : Apart os' where
  disjoint := h.disjoint.sublist hsub
  fits := fun o ho => h.fits o (hsub.mem ho)

/-- Any choice of fields that lie apart, in any order, lies apart. -/
theorem Apart.subperm (h : Apart os) (hsub : os'.Subperm os) : Apart os' := by
  obtain ⟨os'', hperm, hsublist⟩ := hsub
  exact (h.sublist hsublist).perm hperm

theorem Stacked.of_cons (h : Stacked (o :: os)) : Stacked os where
  above := h.above.of_cons
  fits := fun o' ho' => h.fits o' (List.mem_cons_of_mem o ho')

theorem Stacked.le_of_covers (h : Stacked (o :: os)) {o' : ShaderOption} (ho' : o' ∈ os) {i : ℕ}
    (hi : o'.Covers i) : o.offset + o.bitCount ≤ i :=
  (List.pairwise_cons.mp h.above).1 o' ho' i hi

end Layouts

theorem distinctCount_pos (o : ShaderOption) : 0 < o.distinctCount := by
  refine lt_min o.valueCount_pos ?_
  rw [Nat.one_shiftLeft]
  exact Nat.two_pow_pos _

theorem mod_distinctCount_lt (o : ShaderOption) (i : ℕ) :
    i % o.distinctCount < o.valueCount :=
  (Nat.mod_lt i o.distinctCount_pos).trans_le (min_le_left _ _)

/-- The bits of an option's mask are those of its field. -/
theorem testBit_mask_iff {o : ShaderOption} (hfits : o.offset + o.bitCount ≤ width) (i : ℕ) :
    o.mask.testBit i = true ↔ o.Covers i := by
  rw [mask, testBit_mask, decide_eq_true_eq, Covers]
  omega

end ShaderOption

open ShaderOption

/-! ### Sorting -/

namespace VariantSpace

theorem insertDigit_eq (o : ShaderOption) (os : List ShaderOption) :
    insertDigit o os = os.orderedInsert (fun a b => a.offset ≤ b.offset) o := by
  induction os with
  | nil => rfl
  | cons d rest ih => rw [insertDigit, List.orderedInsert_cons, ih]

theorem sortDigits_eq (os : List ShaderOption) :
    sortDigits os = os.insertionSort fun a b => a.offset ≤ b.offset := by
  induction os with
  | nil => rfl
  | cons o rest ih => rw [sortDigits, List.insertionSort_cons, ih, insertDigit_eq]

theorem perm_sortDigits (os : List ShaderOption) : (sortDigits os).Perm os :=
  sortDigits_eq os ▸ List.perm_insertionSort _ os

theorem pairwise_sortDigits (os : List ShaderOption) :
    (sortDigits os).Pairwise fun a b => a.offset ≤ b.offset := by
  have htotal : Std.Total fun a b : ShaderOption => a.offset ≤ b.offset :=
    ⟨fun a b => le_total a.offset b.offset⟩
  have htrans : IsTrans ShaderOption fun a b => a.offset ≤ b.offset :=
    ⟨fun _ _ _ hab hbc => hab.trans hbc⟩
  exact sortDigits_eq os ▸ List.pairwise_insertionSort _ os

/-- Sorted by their lowest bits, fields that lie apart are stacked. -/
theorem stacked_sortDigits {os : List ShaderOption} (h : Apart os) : Stacked (sortDigits os) where
  above := by
    have hdisjoint := (h.perm (perm_sortDigits os).symm).disjoint
    refine (hdisjoint.and (pairwise_sortDigits os)).imp ?_
    rintro a b ⟨hab, hle⟩ i hi
    -- a bit of `b` below the end of `a` would be a bit of `a` too
    by_contra hlt
    exact hab i ⟨hle.trans hi.1, not_le.mp hlt⟩ hi
  fits := fun o ho => h.fits o ((perm_sortDigits os).mem_iff.mp ho)

end VariantSpace

end ShaderVariants
