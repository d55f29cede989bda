import Mathlib
import ShaderVariants.Binding

/-!
# Offsets of structure members

Two descriptions of a structure leave a program.  Reflection lists the offsets that
`StructureType.place` computes; the generated code declares the structure with the
packing `std430` and says nothing about offsets.  The packing rule is stated here as a
relation, and the offsets of reflection are compared with it.

The two agree on alignments, and on sizes except for one type: a vector of three rows
ends after twelve bytes, but is given the room of sixteen.  The four bytes matter only to
a neighbour that would fit into them.

## Main definitions

* `NumericType.packedAlignment`, `NumericType.packedSize` — alignment and size of a type
  under the packing rule.
* `PackedAt start types offsets` — the packing rule puts members of these types at these
  offsets, from the byte `start` on.
* `NumericType.FillsGapAfter` — a member that fits into the last bytes of its predecessor.

## Main results

* `isLeast_alignUp` — rounding up gives the least multiple that is not below the value.
* `PackedAt.unique` — the packing rule leaves no choice.
* `StructureType.packedAt_place_iff` — **the offsets are those of the packing rule exactly
  if no member fills the gap after the one in front of it**.
-/

namespace ShaderVariants

/-! ### Rounding up -/

theorem le_alignUp {alignment : ℕ} (h : 0 < alignment) (value : ℕ) :
    value ≤ alignUp value alignment := by
  have hmod := Nat.mod_lt (value + alignment - 1) h
  have hdiv := Nat.div_add_mod (value + alignment - 1) alignment
  rw [alignUp, Nat.mul_comm]
  omega

theorem dvd_alignUp (value alignment : ℕ) : alignment ∣ alignUp value alignment :=
  Dvd.intro_left _ rfl

theorem alignUp_le {value alignment m : ℕ} (h : 0 < alignment) (hm : value ≤ m)
    (hdvd : alignment ∣ m) : alignUp value alignment ≤ m := by
  obtain ⟨k, rfl⟩ := hdvd
  rw [alignUp, Nat.mul_comm alignment k]
  refine Nat.mul_le_mul_right _ (Nat.lt_succ_iff.mp ((Nat.div_lt_iff_lt_mul h).mpr ?_))
  rw [Nat.succ_mul, Nat.mul_comm k]
  omega

/-- **Rounding up** gives the least multiple that is not below the value. -/
theorem isLeast_alignUp {alignment : ℕ} (h : 0 < alignment) (value : ℕ) :
    IsLeast {m | value ≤ m ∧ alignment ∣ m} (alignUp value alignment) :=
  ⟨⟨le_alignUp h value, dvd_alignUp value alignment⟩, fun _ hm => alignUp_le h hm.1 hm.2⟩

/-! ### The packing rule -/

namespace NumericType

/-- Under the packing rule, scalars are aligned to four bytes, columns of two rows to
eight, and longer columns to sixteen. -/
def packedAlignment (t : NumericType) : ℕ :=
  if t.rows = 1 then 4 else if t.rows = 2 then 8 else 16

/-- Under the packing rule, a vector takes four bytes for each row, and a matrix its
alignment for each column. -/
def packedSize (t : NumericType) : ℕ :=
  if t.columns = 1 then 4 * t.rows.toNat else t.columns.toNat * t.packedAlignment

/-- A vector of three rows, the only type that takes less room than reflection gives it. -/
def IsTriple (t : NumericType) : Prop := t.columns = 1 ∧ t.rows = 3

instance : DecidablePred IsTriple := fun _ => inferInstanceAs (Decidable (_ ∧ _))

/-- A member of one row fits into the four bytes that a vector of three rows leaves. -/
def FillsGapAfter (t before : NumericType) : Prop := before.IsTriple ∧ t.rows = 1

instance (t before : NumericType) : Decidable (t.FillsGapAfter before) :=
  inferInstanceAs (Decidable (_ ∧ _))

end NumericType

/-- The packing rule puts members of the given types at the given offsets: each at the
least multiple of its alignment that is not below the end of its predecessor. -/
inductive PackedAt : (start : ℕ) → List NumericType → List ℕ → Prop where
  | nil (start : ℕ) : PackedAt start [] []
  | cons {start offset : ℕ} {t : NumericType} {types : List NumericType} {offsets : List ℕ} :
    IsLeast {m | start ≤ m ∧ t.packedAlignment ∣ m} offset →
    PackedAt (offset + t.packedSize) types offsets →
    PackedAt start (t :: types) (offset :: offsets)

namespace PackedAt

theorem cons_iff {start offset : ℕ} {t : NumericType} {types : List NumericType}
    {offsets : List ℕ} :
    PackedAt start (t :: types) (offset :: offsets) ↔
      IsLeast {m | start ≤ m ∧ t.packedAlignment ∣ m} offset ∧
        PackedAt (offset + t.packedSize) types offsets := by
  constructor
  · rintro (_ | ⟨hleast, hrest⟩)
    exact ⟨hleast, hrest⟩
  · rintro ⟨hleast, hrest⟩
    exact .cons hleast hrest

/-- The packing rule leaves no choice. -/
theorem unique : ∀ {types : List NumericType} {start : ℕ} {offsets offsets' : List ℕ},
    PackedAt start types offsets → PackedAt start types offsets' → offsets = offsets' := by
  intro types
  induction types with
  | nil =>
    rintro start offsets offsets' ⟨⟩ ⟨⟩
    rfl
  | cons t types ih =>
    rintro start offsets offsets' (_ | ⟨hleast, hrest⟩) (_ | ⟨hleast', hrest'⟩)
    obtain rfl := hleast.unique hleast'
    rw [ih hrest hrest']

end PackedAt

/-! ### Comparing the two descriptions -/

namespace NumericType

variable {t : NumericType}

theorem rows_of_isValid (h : t.isValid = true) :
    t.rows = 1 ∨ t.rows = 2 ∨ t.rows = 3 ∨ t.rows = 4 := by
  simp only [isValid, Bool.and_eq_true, decide_eq_true_eq] at h
  have := h.1.1.1
  grind

theorem alignment_eq_packedAlignment (h : t.isValid = true) :
    t.alignment = t.packedAlignment := by
  rcases rows_of_isValid h with hr | hr | hr | hr <;>
    simp [alignment, columnSize, packedAlignment, hr]

theorem packedAlignment_pos (t : NumericType) : 0 < t.packedAlignment := by
  unfold packedAlignment
  split_ifs <;> decide

theorem size_eq_packedSize (h : t.isValid = true) (ht : ¬ t.IsTriple) :
    t.size = t.packedSize := by
  have halign := alignment_eq_packedAlignment h
  rw [alignment] at halign
  by_cases hc : t.columns = 1
  · have hr : t.rows ≠ 3 := fun hr => ht ⟨hc, hr⟩
    simp [size, packedSize, columnSize, hc, hr, Nat.mul_comm]
  · rw [size, packedSize, if_neg hc, halign]

theorem IsTriple.sizes {t : NumericType} (h : t.IsTriple) :
    t.packedAlignment = 16 ∧ t.packedSize = 12 ∧ t.size = 16 := by
  obtain ⟨hc, hr⟩ := h
  simp [packedAlignment, packedSize, size, columnSize, hc, hr]

/-- To a member of more than one row, the four bytes behind a vector of three rows are
lost in any case. -/
theorem isLeast_skip_gap (ht : t.isValid = true) (hrows : t.rows ≠ 1) {start offset : ℕ}
    (hstart : 16 ∣ start) :
    IsLeast {m | start + 12 ≤ m ∧ t.packedAlignment ∣ m} offset ↔
      IsLeast {m | start + 16 ≤ m ∧ t.packedAlignment ∣ m} offset := by
  have h8 : 8 ∣ t.packedAlignment := by
    rcases rows_of_isValid ht with hr | hr | hr | hr
    · exact absurd hr hrows
    all_goals simp [packedAlignment, hr]
  have hset : {m | start + 12 ≤ m ∧ t.packedAlignment ∣ m} =
      {m | start + 16 ≤ m ∧ t.packedAlignment ∣ m} := by
    ext m
    refine and_congr_left fun hm => ⟨fun hle => ?_, fun hle => by omega⟩
    -- no multiple of eight lies between `start + 12` and `start + 16`
    have hm8 : 8 ∣ m := h8.trans hm
    omega
  rw [hset]

/-- A member of one row goes where a vector of three rows ends. -/
theorem isLeast_gap (hrows : t.rows = 1) {start : ℕ} (hstart : 16 ∣ start) :
    IsLeast {m | start + 12 ≤ m ∧ t.packedAlignment ∣ m} (start + 12) := by
  refine ⟨⟨le_rfl, ?_⟩, fun m hm => hm.1⟩
  have h4 : t.packedAlignment = 4 := by simp [packedAlignment, hrows]
  rw [h4]
  omega

end NumericType

namespace StructureType

theorem place_types : ∀ (members : List (String × NumericType)) (start : ℕ),
    (place start members).map (fun m => (m.name, m.type)) = members := by
  intro members
  induction members with
  | nil => exact fun _ => rfl
  | cons m rest ih => exact fun start => by simp only [place, List.map_cons, ih]

/-- Behind a vector of three rows, the packing rule and reflection go on from different
bytes.  They meet again if the next member does not fit into the gap. -/
theorem packedAt_after_triple {start : ℕ} (hstart : 16 ∣ start) {m : String × NumericType}
    (hm : m.2.isValid = true) (rest : List (String × NumericType)) :
    PackedAt (start + 12) ((m :: rest).map (·.2))
        ((place (start + 16) (m :: rest)).map (·.offset)) ↔
      m.2.rows ≠ 1 ∧
        PackedAt (start + 16) ((m :: rest).map (·.2))
          ((place (start + 16) (m :: rest)).map (·.offset)) := by
  simp only [List.map_cons, place, PackedAt.cons_iff]
  by_cases hrows : m.2.rows = 1
  · have hpos : 0 < m.2.alignment := by
      rw [NumericType.alignment_eq_packedAlignment hm]
      exact m.2.packedAlignment_pos
    have hle := le_alignUp hpos (start + 16)
    constructor
    · rintro ⟨hleast, -⟩
      have := hleast.unique (NumericType.isLeast_gap hrows hstart)
      omega
    · rintro ⟨hne, -⟩
      exact absurd hrows hne
  · rw [NumericType.isLeast_skip_gap hm hrows hstart]
    exact (and_iff_right hrows).symm

/-- **The offsets of reflection are those of the packing rule** exactly if no member
fills the gap after the one in front of it. -/
theorem packedAt_place_iff : ∀ (members : List (String × NumericType)) (start : ℕ),
    (∀ m ∈ members, m.2.isValid = true) →
    (PackedAt start (members.map (·.2)) ((place start members).map (·.offset)) ↔
      (members.map (·.2)).IsChain fun before t => ¬ t.FillsGapAfter before) := by
  intro members
  induction members with
  | nil => exact fun start _ => iff_of_true (.nil start) .nil
  | cons m rest ih =>
    intro start hvalid
    have hm : m.2.isValid = true := hvalid m List.mem_cons_self
    have hrest : ∀ n ∈ rest, n.2.isValid = true := fun n hn =>
      hvalid n (List.mem_cons_of_mem m hn)
    have hleast := isLeast_alignUp m.2.packedAlignment_pos start
    simp only [List.map_cons, place, PackedAt.cons_iff,
      NumericType.alignment_eq_packedAlignment hm, hleast, true_and]
    by_cases ht : m.2.IsTriple
    · -- the only type with two sizes: the next member decides
      obtain ⟨h16, h12, hsize⟩ := ht.sizes
      rw [h12, hsize]
      have hstart : 16 ∣ alignUp start m.2.packedAlignment := by
        rw [h16]
        exact dvd_alignUp start 16
      cases rest with
      | nil => exact iff_of_true (.nil _) (.singleton _)
      | cons n rest' =>
        have hn : n.2.isValid = true := hrest n List.mem_cons_self
        have hgap : ¬ n.2.FillsGapAfter m.2 ↔ n.2.rows ≠ 1 :=
          not_congr (and_iff_right ht)
        rw [packedAt_after_triple hstart hn rest', ih _ hrest, List.map_cons,
          List.isChain_cons_cons, hgap]
    · -- the sizes are equal, and there is no gap to fill
      have hchain : ∀ types : List NumericType,
          (m.2 :: types).IsChain (fun before t => ¬ t.FillsGapAfter before) ↔
            types.IsChain fun before t => ¬ t.FillsGapAfter before := by
        intro types
        cases types with
        | nil => exact iff_of_true (.singleton _) .nil
        | cons n types =>
          rw [List.isChain_cons_cons]
          exact and_iff_right fun hfill => ht hfill.1
      rw [NumericType.size_eq_packedSize hm ht, ih _ hrest, hchain]

end StructureType

end ShaderVariants
