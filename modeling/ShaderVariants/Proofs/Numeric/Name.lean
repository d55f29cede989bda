import Mathlib
import ShaderVariants.Numeric.Name

/-!
# Reading the names of numeric types

A type that was read from a name has both names.  Its own name is read as the same type.  Its
GLSL name is read as the type it is widened to, unless it is a matrix of a single row: `float3x1`
is accepted as a type, but its GLSL name would be `mat3x1`, and that is not.

A name is a stem, the dimensions and maybe a suffix, and each of them is read for itself.

## Main definitions

* `NumericType.Nameable` — the types that have a name.
* `NumericType.shapeText` — the dimensions in the own name.

## Main results

* `NumericType.nameable_of_ofName?` — what is read from a name is nameable.
* `NumericType.ofName?_name` — the own name is read as the type.
* `NumericType.ofName?_wideName` — what the GLSL name of a widened type is read as.
* `NumericType.names_read_iff` — **both names of a type that was read are read as they should**,
  except for the GLSL name of a matrix of one row.
-/

namespace ShaderVariants

namespace NumericType

/-! ### Types with a name -/

/-- A type has a name if it is valid, and normalized only if it is a vector of two or four
integers. -/
structure Nameable (t : NumericType) : Prop where
  columns : 1 ≤ t.columns ∧ t.columns ≤ 4
  rows : 1 ≤ t.rows ∧ t.rows ≤ 4
  float : t.scalar = .float → t.width = .dword
  matrix : t.columns ≠ 1 → t.scalar = .float
  normalized : t.normalized = true → t.scalar ≠ .float ∧ (t.rows = 2 ∨ t.rows = 4)

theorem Nameable.isValid {t : NumericType} (h : t.Nameable) : t.isValid = true := by
  obtain ⟨hcolumns, hrows, hfloat, hmatrix, -⟩ := h
  simp only [NumericType.isValid, isMatrix, Bool.and_eq_true, Bool.not_eq_true', decide_eq_true_eq,
    Bool.and_eq_false_imp, beq_iff_eq, bne_iff_ne, bne_eq_false_iff_eq]
  exact ⟨⟨⟨hrows, hcolumns⟩, hfloat⟩, hmatrix⟩

/-- The type that a nameable type is widened to. -/
theorem Nameable.widened {t : NumericType} (h : t.Nameable) : ∃ w, t.widened? = some w ∧
    w.Nameable ∧ w.width = .dword ∧ w.normalized = false ∧ w.columns = t.columns ∧
    w.rows = t.rows := by
  refine ⟨_, if_pos h.isValid, ⟨h.columns, h.rows, fun _ => rfl, fun hc => ?_, by rintro ⟨⟩⟩,
    rfl, rfl, rfl, rfl⟩
  have hfloat : (t.scalar == .float || t.normalized) = true := by
    rw [h.matrix hc]
    rfl
  exact if_pos hfloat

/-! ### Dimensions -/

theorem dimension_cases {n : UInt8} (h : 1 ≤ n ∧ n ≤ 4) : n = 1 ∨ n = 2 ∨ n = 3 ∨ n = 4 := by
  simp only [UInt8.le_iff_toNat_le, ← UInt8.toNat_inj] at h ⊢
  simp only [UInt8.toNat_ofNat] at h ⊢
  omega

theorem one_lt_of_ne {n : UInt8} (h : 1 ≤ n ∧ n ≤ 4) (hn : n ≠ 1) : 1 < n := by
  simp only [UInt8.le_iff_toNat_le, UInt8.lt_iff_toNat_lt, ne_eq, ← UInt8.toNat_inj] at h hn ⊢
  omega

/-- A vector is one column of several rows. -/
theorem Nameable.isVector_iff {t : NumericType} (h : t.Nameable) :
    t.isVector = true ↔ t.columns = 1 ∧ t.rows ≠ 1 := by
  rw [isVector, Bool.and_eq_true, decide_eq_true_eq, beq_iff_eq, and_comm]
  refine and_congr_right fun _ => ⟨?_, one_lt_of_ne h.rows⟩
  rintro hlt hr
  rw [hr] at hlt
  exact absurd hlt (by decide)

theorem isMatrix_iff (t : NumericType) : t.isMatrix = true ↔ t.columns ≠ 1 := bne_iff_ne

theorem isScalar_iff (t : NumericType) : t.isScalar = true ↔ t.rows = 1 ∧ t.columns = 1 := by
  rw [isScalar, Bool.and_eq_true, beq_iff_eq, beq_iff_eq]

theorem one_bounds : (1 : UInt8) ≤ 1 ∧ (1 : UInt8) ≤ 4 := by decide

/-- The digit that stands for a dimension. -/
def digit (n : UInt8) : List Char := (toString n.toNat).toList

theorem bounds_of_dimension? {cs : List Char} {n : UInt8} (h : dimension? cs = some n) :
    1 ≤ n ∧ n ≤ 4 := by
  unfold dimension? at h
  split at h <;> cases h <;> decide

theorem dimension?_digit {n : UInt8} (h : 1 ≤ n ∧ n ≤ 4) : dimension? (digit n) = some n := by
  rcases dimension_cases h with rfl | rfl | rfl | rfl <;> rfl

theorem splitAtCross_digit {n : UInt8} (h : 1 ≤ n ∧ n ≤ 4) : splitAtCross (digit n) = none := by
  rcases dimension_cases h with rfl | rfl | rfl | rfl <;> rfl

theorem splitAtCross_digit_append {n : UInt8} (h : 1 ≤ n ∧ n ≤ 4) (rest : List Char) :
    splitAtCross (digit n ++ 'x' :: rest) = some (digit n, rest) := by
  rcases dimension_cases h with rfl | rfl | rfl | rfl <;> rfl

theorem dimensions?_digit {c r : UInt8} (hc : 1 ≤ c ∧ c ≤ 4) (hr : 1 ≤ r ∧ r ≤ 4) :
    dimensions? (digit c ++ 'x' :: digit r) = some (c, r) := by
  unfold dimensions?
  rw [splitAtCross_digit_append hc]
  simp only [Option.bind_eq_bind, Option.bind_some, dimension?_digit hc, dimension?_digit hr]
  rfl

theorem isEmpty_digit {n : UInt8} (h : 1 ≤ n ∧ n ≤ 4) : (digit n).isEmpty = false := by
  rcases dimension_cases h with rfl | rfl | rfl | rfl <;> rfl

theorem not_mem_digit {n : UInt8} (h : 1 ≤ n ∧ n ≤ 4) : '_' ∉ digit n := by
  rcases dimension_cases h with rfl | rfl | rfl | rfl <;> decide

/-! ### What is read -/

theorem nameable_of_ofVectorTail? {scalar : Scalar} {tail : List Char} {t : NumericType}
    (h : ofVectorTail? scalar tail = some t) : t.Nameable ∧ t.normalized = false := by
  obtain ⟨rows, hrows, h⟩ := Option.bind_eq_some_iff.mp h
  split_ifs at h
  cases h
  exact ⟨⟨one_bounds, bounds_of_dimension? hrows, fun _ => rfl, absurd rfl, by rintro ⟨⟩⟩, rfl⟩

theorem bounds_of_dimensions? {cs : List Char} {c r : UInt8} (h : dimensions? cs = some (c, r)) :
    (1 ≤ c ∧ c ≤ 4) ∧ (1 ≤ r ∧ r ≤ 4) := by
  obtain ⟨⟨columns, rows⟩, -, h⟩ := Option.bind_eq_some_iff.mp h
  obtain ⟨c', hc, h⟩ := Option.bind_eq_some_iff.mp h
  obtain ⟨r', hr, h⟩ := Option.bind_eq_some_iff.mp h
  cases h
  exact ⟨bounds_of_dimension? hc, bounds_of_dimension? hr⟩

theorem nameable_matrix {c r : UInt8} (hc : 1 ≤ c ∧ c ≤ 4) (hr : 1 ≤ r ∧ r ≤ 4) :
    (NumericType.matrix c r).Nameable :=
  ⟨hc, hr, fun _ => rfl, fun _ => rfl, by rintro ⟨⟩⟩

/-- With a cross, both dimensions of a matrix are given. -/
theorem ofMatrixTail?_of_cross {tail : List Char} {parts : List Char × List Char}
    (h : splitAtCross tail = some parts) : ofMatrixTail? tail =
      (dimensions? tail).bind fun p => if 1 < p.1 && 1 < p.2 then some (.matrix p.1 p.2)
        else none := by
  unfold ofMatrixTail?
  rw [h]
  rfl

/-- Without a cross, there is one dimension for both. -/
theorem ofMatrixTail?_of_no_cross {tail : List Char} (h : splitAtCross tail = none) :
    ofMatrixTail? tail =
      (dimension? tail).bind fun n => if 1 < n then some (.matrix n n) else none := by
  unfold ofMatrixTail?
  rw [h]
  cases dimension? tail with
  | none => rfl
  | some n => simp [Option.bind_some]

theorem nameable_of_ofMatrixTail? {tail : List Char} {t : NumericType}
    (h : ofMatrixTail? tail = some t) : t.Nameable ∧ t.normalized = false := by
  cases hcross : splitAtCross tail with
  | some parts =>
    rw [ofMatrixTail?_of_cross hcross] at h
    obtain ⟨p, hdimensions, h⟩ := Option.bind_eq_some_iff.mp h
    split_ifs at h
    cases h
    obtain ⟨hc, hr⟩ := bounds_of_dimensions? hdimensions
    exact ⟨nameable_matrix hc hr, rfl⟩
  | none =>
    rw [ofMatrixTail?_of_no_cross hcross] at h
    obtain ⟨n, hn, h⟩ := Option.bind_eq_some_iff.mp h
    split_ifs at h
    cases h
    exact ⟨nameable_matrix (bounds_of_dimension? hn) (bounds_of_dimension? hn), rfl⟩

/-- With a cross, the type is a matrix of floats. -/
theorem ofScalarTail?_of_cross {scalar : Scalar} {width : ScalarWidth} {tail : List Char}
    {parts : List Char × List Char} (h : splitAtCross tail = some parts) :
    ofScalarTail? scalar width tail =
      if scalar = .float then
        (dimensions? tail).map fun p => { NumericType.matrix p.1 p.2 with width := width }
      else none := by
  unfold ofScalarTail?
  rw [h]
  cases scalar with
  | float => cases dimensions? tail <;> rfl
  | int => rfl
  | uint => rfl

/-- Without a cross, the type is a single component or a vector. -/
theorem ofScalarTail?_of_no_cross {scalar : Scalar} {width : ScalarWidth} {tail : List Char}
    (h : splitAtCross tail = none) : ofScalarTail? scalar width tail =
      if tail.isEmpty then some { NumericType.single scalar with width := width }
      else (dimension? tail).map fun rows => { vector scalar rows with width := width } := by
  unfold ofScalarTail?
  rw [h]
  dsimp only
  split_ifs
  · rfl
  · cases dimension? tail <;> rfl

theorem nameable_of_ofScalarTail? {scalar : Scalar} {width : ScalarWidth} {tail : List Char}
    {t : NumericType} (hfloat : scalar = .float → width = .dword)
    (h : ofScalarTail? scalar width tail = some t) : t.Nameable ∧ t.normalized = false := by
  cases hcross : splitAtCross tail with
  | some parts =>
    rw [ofScalarTail?_of_cross hcross] at h
    split_ifs at h with hscalar
    obtain ⟨p, hdimensions, rfl⟩ := Option.map_eq_some_iff.mp h
    obtain ⟨hc, hr⟩ := bounds_of_dimensions? hdimensions
    exact ⟨⟨hc, hr, fun _ => hfloat hscalar, fun _ => rfl, by rintro ⟨⟩⟩, rfl⟩
  | none =>
    rw [ofScalarTail?_of_no_cross hcross] at h
    split_ifs at h
    · cases h
      exact ⟨⟨one_bounds, one_bounds, hfloat, absurd rfl, by rintro ⟨⟩⟩, rfl⟩
    · obtain ⟨rows, hrows, rfl⟩ := Option.map_eq_some_iff.mp h
      exact ⟨⟨one_bounds, bounds_of_dimension? hrows, hfloat, absurd rfl, by rintro ⟨⟩⟩, rfl⟩

/-- What a stem stands for is written beside it. -/
theorem exists_stem {α : Type} {stems : List (List Char × α)} {cs tail : List Char} {meaning : α}
    (h : matchStem? stems cs = some (meaning, tail)) : ∃ stem, (stem, meaning) ∈ stems := by
  obtain ⟨⟨stem, meaning'⟩, hmem, hprefix⟩ := List.exists_of_findSome?_eq_some h
  obtain ⟨tail', -, hpair⟩ := Option.map_eq_some_iff.mp hprefix
  cases hpair
  exact ⟨stem, hmem⟩

theorem nameable_of_ofBaseName? {cs : List Char} {t : NumericType}
    (h : ofBaseName? cs = some t) : t.Nameable ∧ t.normalized = false := by
  unfold ofBaseName? at h
  split at h
  · exact nameable_of_ofVectorTail? h
  · split at h
    · exact nameable_of_ofMatrixTail? h
    · split at h
      · next scalar width tail hstem =>
        -- the only stem of floats stands for the full width
        obtain ⟨stem, hmem⟩ := exists_stem hstem
        have hfloat : ∀ p ∈ scalarStems, p.2.1 = .float → p.2.2 = .dword := by decide
        exact nameable_of_ofScalarTail? (hfloat _ hmem) h
      · cases h

/-- **What is read from a name is a type with a name.** -/
theorem nameable_of_ofName? {s : String} {t : NumericType} (h : ofName? s = some t) :
    t.Nameable := by
  unfold ofName? at h
  split at h
  · obtain ⟨type, htype, h⟩ := Option.bind_eq_some_iff.mp h
    obtain ⟨hnameable, -⟩ := nameable_of_ofBaseName? htype
    unfold normalize? at h
    split_ifs at h with hcondition
    cases h
    simp only [Bool.and_eq_true, Bool.or_eq_true, bne_iff_ne, beq_iff_eq] at hcondition
    exact ⟨hnameable.columns, hnameable.rows, hnameable.float, hnameable.matrix,
      fun _ => ⟨hcondition.1.1, hcondition.2⟩⟩
  · exact (nameable_of_ofBaseName? h).1

/-! ### Reading own names -/

/-- The dimensions as they stand in the own name of a type. -/
def shapeText (t : NumericType) : List Char :=
  if t.columns = 1 then
    if t.rows = 1 then [] else digit t.rows
  else
    digit t.columns ++ 'x' :: digit t.rows

/-- A scalar name is found as the stem of what begins with it. -/
theorem ofBaseName?_scalarName (scalar : Scalar) (width : ScalarWidth) (tail : List Char)
    (h : scalar = .float → width = .dword) :
    ofBaseName? ((scalarName scalar width).toList ++ tail) = ofScalarTail? scalar width tail := by
  cases scalar <;> cases width
  case float.word => cases h rfl
  case float.byte => cases h rfl
  all_goals rfl

theorem ofScalarTail?_shapeText {t : NumericType} (h : t.Nameable) :
    ofScalarTail? t.scalar t.width t.shapeText = some { t with normalized := false } := by
  obtain ⟨scalar, columns, rows, width, normalized⟩ := t
  obtain ⟨hcolumns, hrows, -, hmatrix, -⟩ := h
  dsimp only at hcolumns hrows hmatrix
  by_cases hc : columns = 1
  · subst hc
    by_cases hr : rows = 1
    · subst hr
      rfl
    · rw [shapeText, if_pos rfl, if_neg hr, ofScalarTail?_of_no_cross (splitAtCross_digit hrows),
        isEmpty_digit hrows, if_neg Bool.false_ne_true, dimension?_digit hrows]
      rfl
  · obtain rfl := hmatrix hc
    rw [shapeText, if_neg hc, ofScalarTail?_of_cross (splitAtCross_digit_append hcolumns _),
      if_pos rfl, dimensions?_digit hcolumns hrows]
    rfl

/-- The own name is the stem, the dimensions and the suffix. -/
theorem toList_name {t : NumericType} (h : t.Nameable) :
    t.name.toList = (scalarName t.scalar t.width).toList ++ t.shapeText ++
      if t.normalized then "_norm".toList else [] := by
  have hshape : (if t.isVector then toString t.rows.toNat
      else if t.isMatrix then toString t.columns.toNat ++ "x" ++ toString t.rows.toNat
      else "").toList = t.shapeText := by
    unfold shapeText
    by_cases hc : t.columns = 1
    · by_cases hr : t.rows = 1
      · rw [if_neg fun hv => (h.isVector_iff.mp hv).2 hr,
          if_neg fun hm => (isMatrix_iff t).mp hm hc,
          if_pos hc, if_pos hr]
        rfl
      · rw [if_pos (h.isVector_iff.mpr ⟨hc, hr⟩), if_pos hc, if_neg hr]
        rfl
    · rw [if_neg fun hv => hc (h.isVector_iff.mp hv).1, if_pos ((isMatrix_iff t).mpr hc), if_neg hc,
        String.toList_append, String.toList_append, List.append_assoc]
      rfl
  rw [name, if_pos h.isValid, String.toList_append, String.toList_append, hshape]
  split_ifs <;> rfl

theorem not_mem_shapeText {t : NumericType} (h : t.Nameable) : '_' ∉ t.shapeText := by
  unfold shapeText
  split_ifs
  · exact List.not_mem_nil
  · exact not_mem_digit h.rows
  · simp [not_mem_digit h.rows, not_mem_digit h.columns]

theorem not_mem_scalarName (scalar : Scalar) (width : ScalarWidth) :
    '_' ∉ (scalarName scalar width).toList := by
  cases scalar <;> cases width <;> decide

/-- A text without the suffix is read as it is. -/
theorem ofName?_of_not_mem {s : String} (h : '_' ∉ s.toList) :
    ofName? s = ofBaseName? s.toList := by
  unfold ofName?
  split
  · next base hbase =>
    rw [← List.isSuffixOf?_eq_some_iff_append_eq.mp hbase] at h
    exact absurd (List.mem_append_right base (by decide)) h
  · rfl

/-- In front of the suffix, a text is read as it would be without it. -/
theorem ofName?_of_suffix {s : String} {base : List Char} (h : s.toList = base ++ "_norm".toList) :
    ofName? s = (ofBaseName? base).bind normalize? := by
  unfold ofName?
  rw [h, List.isSuffixOf?_eq_some_iff_append_eq.mpr rfl]

/-- **The own name of a type is read as the type.** -/
theorem ofName?_name {t : NumericType} (h : t.Nameable) : ofName? t.name = some t := by
  have hbase : ofBaseName? ((scalarName t.scalar t.width).toList ++ t.shapeText) =
      some { t with normalized := false } := by
    rw [ofBaseName?_scalarName _ _ _ h.float, ofScalarTail?_shapeText h]
  have hname := toList_name h
  cases hn : t.normalized with
  | false =>
    rw [hn, if_neg Bool.false_ne_true, List.append_nil] at hname
    have hmem : '_' ∉ t.name.toList := by
      rw [hname, List.mem_append, not_or]
      exact ⟨not_mem_scalarName _ _, not_mem_shapeText h⟩
    rw [ofName?_of_not_mem hmem, hname, hbase, ← hn]
  | true =>
    rw [hn, if_pos rfl] at hname
    obtain ⟨hscalar, hrows⟩ := h.normalized hn
    have hcolumns : t.columns = 1 := not_imp_comm.mp h.matrix hscalar
    have hvector : t.isVector = true :=
      h.isVector_iff.mpr ⟨hcolumns, by rcases hrows with hr | hr <;> rw [hr] <;> decide⟩
    have hcondition :
        (t.scalar != .float && t.isVector && (t.rows == 2 || t.rows == 4)) = true := by
      simp only [Bool.and_eq_true, Bool.or_eq_true, bne_iff_ne, beq_iff_eq]
      exact ⟨⟨hscalar, hvector⟩, hrows⟩
    rw [ofName?_of_suffix hname, hbase, Option.bind_some, normalize?]
    refine (if_pos hcondition).trans ?_
    rw [← hn]

/-! ### Reading GLSL names -/

theorem ofBaseName?_vec (scalar : Scalar) (tail : List Char) :
    ofBaseName? ((scalar.sigil ++ "vec").toList ++ tail) = ofVectorTail? scalar tail := by
  cases scalar <;> rfl

theorem ofBaseName?_mat (tail : List Char) :
    ofBaseName? ("mat".toList ++ tail) = ofMatrixTail? tail := by rfl

theorem ofVectorTail?_digit (scalar : Scalar) {n : UInt8} (h : 1 ≤ n ∧ n ≤ 4) (hn : n ≠ 1) :
    ofVectorTail? scalar (digit n) = some (vector scalar n) := by
  unfold ofVectorTail?
  rw [dimension?_digit h]
  exact if_pos (one_lt_of_ne h hn)

/-- The name of a square matrix has a single dimension. -/
theorem ofMatrixTail?_digit {n : UInt8} (h : 1 ≤ n ∧ n ≤ 4) (hn : n ≠ 1) :
    ofMatrixTail? (digit n) = some (.matrix n n) := by
  rw [ofMatrixTail?_of_no_cross (splitAtCross_digit h), dimension?_digit h]
  exact if_pos (one_lt_of_ne h hn)

/-- A matrix of one row is not read. -/
theorem ofMatrixTail?_digits {c r : UInt8} (hc : 1 ≤ c ∧ c ≤ 4) (hr : 1 ≤ r ∧ r ≤ 4)
    (hne : c ≠ 1) : ofMatrixTail? (digit c ++ 'x' :: digit r) =
      if r = 1 then none else some (.matrix c r) := by
  rw [ofMatrixTail?_of_cross (splitAtCross_digit_append hc _), dimensions?_digit hc hr,
    Option.bind_some]
  by_cases hone : r = 1
  · subst hone
    rw [if_pos rfl, if_neg]
    rw [Bool.and_eq_true, decide_eq_true_eq, decide_eq_true_eq]
    exact fun h => absurd h.2 (lt_irrefl 1)
  · rw [if_neg hone, if_pos]
    rw [Bool.and_eq_true, decide_eq_true_eq, decide_eq_true_eq]
    exact ⟨one_lt_of_ne hc hne, one_lt_of_ne hr hone⟩

theorem ofName?_wideName_single (scalar : Scalar) :
    ofName? (single scalar).wideName = some (single scalar) := by
  cases scalar <;> rfl

theorem ofName?_wideName_vector (scalar : Scalar) {n : UInt8} (h : 1 ≤ n ∧ n ≤ 4) (hn : n ≠ 1) :
    ofName? (vector scalar n).wideName = some (vector scalar n) := by
  have hname : (vector scalar n).wideName.toList = (scalar.sigil ++ "vec").toList ++ digit n := by
    have hvector : (vector scalar n).isVector = true := by
      rw [isVector, Bool.and_eq_true, decide_eq_true_eq]
      exact ⟨one_lt_of_ne h hn, rfl⟩
    rw [wideName, if_neg fun hs => hn ((isScalar_iff _).mp hs).1, if_pos hvector,
      String.toList_append]
    rfl
  have hmem : '_' ∉ (vector scalar n).wideName.toList := by
    rw [hname, List.mem_append, not_or]
    exact ⟨by cases scalar <;> decide, not_mem_digit h⟩
  rw [ofName?_of_not_mem hmem, hname, ofBaseName?_vec, ofVectorTail?_digit scalar h hn]

theorem ofName?_wideName_matrix {c r : UInt8} (hc : 1 ≤ c ∧ c ≤ 4) (hr : 1 ≤ r ∧ r ≤ 4)
    (hne : c ≠ 1) : ofName? (NumericType.matrix c r).wideName =
      if r = 1 then none else some (.matrix c r) := by
  have hname : (NumericType.matrix c r).wideName.toList =
      "mat".toList ++ if r = c then digit c else digit c ++ 'x' :: digit r := by
    have hvector : ¬ (NumericType.matrix c r).isVector = true := by
      rw [isVector, Bool.and_eq_true, beq_iff_eq]
      exact fun hv => hne hv.2
    rw [wideName, if_neg fun hs => hne ((isScalar_iff _).mp hs).2, if_neg hvector]
    change (if (r == c) = true then _ else _ : String).toList = _
    by_cases hsquare : r = c
    · rw [if_pos hsquare, if_pos (beq_iff_eq.mpr hsquare), String.toList_append]
      rfl
    · rw [if_neg hsquare, if_neg fun hs => hsquare (eq_of_beq hs), String.toList_append,
        String.toList_append, String.toList_append, List.append_assoc, List.append_assoc]
      rfl
  have hmem : '_' ∉ (NumericType.matrix c r).wideName.toList := by
    rw [hname, List.mem_append, not_or]
    refine ⟨by decide, ?_⟩
    split_ifs
    · exact not_mem_digit hc
    · simp [not_mem_digit hc, not_mem_digit hr]
  rw [ofName?_of_not_mem hmem, hname, ofBaseName?_mat]
  by_cases hsquare : r = c
  · subst hsquare
    rw [if_pos rfl, if_neg hne, ofMatrixTail?_digit hr hne]
  · rw [if_neg hsquare, ofMatrixTail?_digits hc hr hne]

/-- **The GLSL name of a widened type is read as the type**, unless it is a matrix of a single
row.  Then it is not read at all. -/
theorem ofName?_wideName {w : NumericType} (h : w.Nameable) (hwidth : w.width = .dword)
    (hnormalized : w.normalized = false) :
    ofName? w.wideName = if w.columns ≠ 1 ∧ w.rows = 1 then none else some w := by
  obtain ⟨scalar, columns, rows, width, normalized⟩ := w
  obtain ⟨hcolumns, hrows, -, hmatrix, -⟩ := h
  dsimp only at hcolumns hrows hmatrix hwidth hnormalized ⊢
  subst hwidth hnormalized
  by_cases hc : columns = 1
  · subst hc
    rw [if_neg fun hone => hone.1 rfl]
    by_cases hr : rows = 1
    · subst hr
      exact ofName?_wideName_single scalar
    · exact ofName?_wideName_vector scalar hrows hr
  · obtain rfl := hmatrix hc
    simp only [ne_eq, hc, not_false_eq_true, true_and]
    exact ofName?_wideName_matrix hcolumns hrows hc

/-- **Both names of a type that was read from a name are read as they should.**  The own name is
read as the type, and the GLSL name as the type it is widened to.  Only the GLSL name of a matrix
of one row is not read. -/
theorem names_read_iff {s : String} {t : NumericType} (h : ofName? s = some t) :
    t.isValid = true ∧ ofName? t.name = some t ∧
      ∃ g w, t.glslName? = some g ∧ t.widened? = some w ∧
        (ofName? g = some w ↔ ¬ (t.columns ≠ 1 ∧ t.rows = 1)) := by
  have hnameable := nameable_of_ofName? h
  obtain ⟨w, hw, hnameable', hwidth, hnormalized, hcolumns, hrows⟩ := hnameable.widened
  refine ⟨hnameable.isValid, ofName?_name hnameable, w.wideName, w, ?_, hw, ?_⟩
  · rw [glslName?, hw, Option.map_some]
  · rw [ofName?_wideName hnameable' hwidth hnormalized, hcolumns, hrows]
    split_ifs with hone
    · exact iff_of_false nofun (not_not.mpr hone)
    · exact iff_of_true rfl hone

/-- The own name of a normalized vector is read again, and its GLSL name as a vector of floats. -/
theorem ushort2_norm_read : ofName? "ushort2_norm" = some ⟨.uint, 1, 2, .word, true⟩ ∧
    (isValid ⟨.uint, 1, 2, .word, true⟩ = true ∧
      ofName? (name ⟨.uint, 1, 2, .word, true⟩) = some ⟨.uint, 1, 2, .word, true⟩ ∧
      ∃ g w, glslName? ⟨.uint, 1, 2, .word, true⟩ = some g ∧
        widened? ⟨.uint, 1, 2, .word, true⟩ = some w ∧
        (ofName? g = some w ↔ ¬ ((1 : UInt8) ≠ 1 ∧ (2 : UInt8) = 1))) := by
  have hread : ofName? "ushort2_norm" = some ⟨.uint, 1, 2, .word, true⟩ := by rfl
  exact ⟨hread, names_read_iff hread⟩

/-- Three columns of one row are accepted as `float3x1`, whose GLSL name is not. -/
theorem float3x1_not_read : ofName? "float3x1" = some (.matrix 3 1) ∧
    glslName? (.matrix 3 1) = some "mat3x1" ∧ widened? (.matrix 3 1) = some (.matrix 3 1) ∧
    ofName? "mat3x1" = none := by
  exact ⟨by rfl, by rfl, by rfl, by rfl⟩

end NumericType

end ShaderVariants
