import Mathlib
import ShaderVariants.Options.Space

/-!
# Fields of option words

Options are packed one after the other, so the fields of two options never overlap.  Two
words that agree outside of the fields of some options therefore agree in the field of
every other option.  All of this is decided bit by bit.

## Main definitions

* `OptionWord.AgreeOutside` — two words differ at most in the bits of a mask.

## Main results

* `OptionWord.testBit_place`, `OptionWord.testBit_mask`, `OptionWord.testBit_field` — the
  bits of the three operations.
* `OptionDeclaration.pairwise_pack` — packed fields follow one another.
* `ShaderOption.field_eq_of_agreeOutside` — the field of an option that is not in the
  invariance mask is the same in two words that agree outside of it.
-/

namespace ShaderVariants

namespace OptionWord

/-! ### Single bits -/

theorem testBit_place (value offset i : ℕ) :
    (place value offset).testBit i
      = (decide (i < width) && (decide (offset ≤ i) && value.testBit (i - offset))) := by
  rw [place, Nat.one_shiftLeft, Nat.testBit_mod_two_pow, Nat.testBit_shiftLeft]

theorem testBit_mask (offset bits i : ℕ) :
    (mask offset bits).testBit i
      = decide (i < width ∧ offset ≤ i ∧ i < offset + bits) := by
  rw [mask, testBit_place, Nat.one_shiftLeft, Nat.testBit_two_pow_sub_one,
    ← Bool.decide_and, ← Bool.decide_and, decide_eq_decide]
  omega

theorem testBit_field (w : OptionWord) (offset bits i : ℕ) :
    (w.field offset bits).testBit i = (decide (i < bits) && w.testBit (offset + i)) := by
  rw [field, Nat.one_shiftLeft, Nat.testBit_mod_two_pow, Nat.testBit_shiftRight]

/-- The bits of a field settle the field. -/
theorem field_congr {w w' : OptionWord} {offset bits : ℕ}
    (h : ∀ i, offset ≤ i → i < offset + bits → w.testBit i = w'.testBit i) :
    w.field offset bits = w'.field offset bits := by
  apply Nat.eq_of_testBit_eq
  intro i
  rw [testBit_field, testBit_field]
  by_cases hi : i < bits
  · rw [h (offset + i) (by omega) (by omega)]
  · simp [hi]

/-- The bits of several words joined together. -/
theorem testBit_foldl_or {α : Type*} (f : α → OptionWord) (i : ℕ) :
    ∀ (l : List α) (w : OptionWord),
      (l.foldl (fun m a => m ||| f a) w).testBit i
        = (w.testBit i || l.any fun a => (f a).testBit i) := by
  intro l
  induction l with
  | nil => intro w; simp
  | cons a l ih => intro w; rw [List.foldl_cons, ih, Nat.testBit_or, List.any_cons, Bool.or_assoc]

/-! ### Agreement -/

/-- The two words differ at most in the bits of `mask`. -/
def AgreeOutside (mask w w' : OptionWord) : Prop := w.clear mask = w'.clear mask

theorem agreeOutside_iff {mask w w' : OptionWord} :
    AgreeOutside mask w w' ↔ ∀ i, mask.testBit i = false → w.testBit i = w'.testBit i := by
  constructor
  · intro h i hi
    have := congrArg (·.testBit i) h
    simpa [hi] using this
  · intro h
    apply Nat.eq_of_testBit_eq
    intro i
    rw [testBit_clear, testBit_clear]
    cases hi : mask.testBit i
    · rw [h i hi]
    · simp

theorem AgreeOutside.symm {mask w w' : OptionWord} (h : AgreeOutside mask w w') :
    AgreeOutside mask w' w := Eq.symm h

end OptionWord

open OptionWord

/-! ### Packed options -/

namespace OptionDeclaration

/-- Packing keeps the declarations. -/
theorem map_packFrom : ∀ (ds : List OptionDeclaration) (k n : ℕ),
    (packFrom k n ds).map (·.toOptionDeclaration) = ds := by
  intro ds
  induction ds with
  | nil => exact fun _ _ => rfl
  | cons d rest ih =>
    intro k n
    rw [packFrom, List.map_cons, ih]

theorem mem_of_mem_packFrom {ds : List OptionDeclaration} {k n : ℕ} {o : ShaderOption}
    (h : o ∈ packFrom k n ds) : o.toOptionDeclaration ∈ ds :=
  map_packFrom ds k n ▸ List.mem_map_of_mem (f := (·.toOptionDeclaration)) h

theorem offset_le_of_mem_packFrom : ∀ {ds : List OptionDeclaration} {k n : ℕ}
    {o : ShaderOption}, o ∈ packFrom k n ds → n ≤ o.offset := by
  intro ds
  induction ds with
  | nil => intro k n o h; simp [packFrom] at h
  | cons d ds ih =>
    intro k n o h
    rw [packFrom, List.mem_cons] at h
    rcases h with rfl | h
    · exact le_rfl
    · have := ih h
      omega

theorem end_le_of_mem_packFrom : ∀ {ds : List OptionDeclaration} {k n : ℕ}
    {o : ShaderOption}, o ∈ packFrom k n ds → o.offset + o.bitCount ≤ n + totalBits ds := by
  intro ds
  induction ds with
  | nil => intro k n o h; simp [packFrom] at h
  | cons d ds ih =>
    intro k n o h
    rw [packFrom, List.mem_cons] at h
    rw [totalBits]
    rcases h with rfl | h
    · change n + d.bitCount ≤ _
      omega
    · have := ih h
      omega

theorem pairwise_packFrom (ds : List OptionDeclaration) (k n : ℕ) :
    (packFrom k n ds).Pairwise fun a b => a.offset + a.bitCount ≤ b.offset := by
  induction ds generalizing k n with
  | nil => exact List.Pairwise.nil
  | cons d ds ih =>
    rw [packFrom, List.pairwise_cons]
    exact ⟨fun b hb => offset_le_of_mem_packFrom hb, ih _ _⟩

/-- Every field of a packing ends before the next one begins. -/
theorem pairwise_pack (ds : List OptionDeclaration) :
    (pack ds).Pairwise fun a b => a.offset + a.bitCount ≤ b.offset :=
  pairwise_packFrom ds 0 0

/-- Where fields follow one another, two different options have different bits. -/
theorem disjoint_of_pairwise {os : List ShaderOption}
    (h : os.Pairwise fun a b => a.offset + a.bitCount ≤ b.offset) {a b : ShaderOption}
    (ha : a ∈ os) (hb : b ∈ os) (hab : a ≠ b) :
    a.offset + a.bitCount ≤ b.offset ∨ b.offset + b.bitCount ≤ a.offset := by
  let R : ShaderOption → ShaderOption → Prop := fun a b =>
    a.offset + a.bitCount ≤ b.offset ∨ b.offset + b.bitCount ≤ a.offset
  -- in a list, being apart in order is the same as being apart
  have hsymm : Std.Symm R := ⟨fun _ _ h => h.symm⟩
  have hR : os.Pairwise R := h.imp Or.inl
  exact hR.forall ha hb hab

end OptionDeclaration

/-! ### The invariance mask -/

theorem testBit_invarianceMask (options : List ShaderOption) (i : ℕ) :
    (invarianceMask options).testBit i = true ↔
      ∃ o ∈ options, o.invariant = true ∧ o.mask.testBit i = true := by
  rw [invarianceMask, testBit_foldl_or]
  simp

namespace ShaderOption

/-- **Fields outside of the invariance mask.**  The field of an option that can change a
program is the same in two words that agree outside of the invariance mask. -/
theorem field_eq_of_agreeOutside {ds : List OptionDeclaration} {o : ShaderOption}
    (ho : o ∈ OptionDeclaration.pack ds) (hvar : o.invariant = false) {w w' : OptionWord}
    (h : AgreeOutside (invarianceMask (OptionDeclaration.pack ds)) w w') :
    o.field w = o.field w' := by
  apply field_congr
  intro i hlo hhi
  apply agreeOutside_iff.mp h
  -- otherwise the bit lies in the field of an invariant option as well
  rw [Bool.eq_false_iff]
  intro hi
  obtain ⟨o', ho', hinv, hbit⟩ := (testBit_invarianceMask _ _).mp hi
  have hne : o ≠ o' := by
    rintro rfl
    rw [hvar] at hinv
    exact absurd hinv (by decide)
  have hbit' : i < width ∧ o'.offset ≤ i ∧ i < o'.offset + o'.bitCount := by
    simpa [ShaderOption.mask, testBit_mask] using hbit
  have hpack := OptionDeclaration.pairwise_pack ds
  rcases OptionDeclaration.disjoint_of_pairwise hpack ho ho' hne with hd | hd <;> omega

end ShaderOption

end ShaderVariants
