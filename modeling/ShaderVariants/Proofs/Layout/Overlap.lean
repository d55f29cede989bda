import Mathlib
import ShaderVariants.Proofs.Layout.Locations

/-!
# Overlapping locations

A vertex attribute takes one location for each of its columns, and the next attribute comes
behind them.  What the vertex stage hands on takes as many locations, but is numbered one by
one.  So a matrix is handed on at locations of what comes behind it, unless that is no number.

## Main definitions

* `ShaderUnit.handedOn` — all that is handed on, in the order of the locations.
* `Layout.HandsOn`, `Layout.OutputsApart` — the numbers that are handed on, and that no two of
  them have a location in common.
* `Roomy` — what a matrix has to have behind it.

## Main results

* `roomy_iff` — what that means for places in the list.
* `ShaderUnit.outputsApart_iff` — **locations do not overlap** exactly if no number comes within
  the columns of a matrix.
* `ShaderUnit.bumpShader_overlaps` — a matrix in front of a vector.
-/

namespace ShaderVariants

/-! ### Room for columns -/

/-- Nothing that takes a location comes within the columns of something in front of it, where
the list says how many columns there are. -/
def Roomy : List ℕ → Prop
  | [] => True
  | columns :: rest => (∀ later ∈ rest.take (columns - 1), later = 0) ∧ Roomy rest

/-- Columns that begin at the places of a list stay apart. -/
theorem roomy_iff : ∀ counts : List ℕ, Roomy counts ↔
    ∀ i j : ℕ, i < j → ∀ columns ∈ counts[i]?, ∀ later ∈ counts[j]?,
      i + columns ≤ j ∨ later = 0 := by
  intro counts
  induction counts with
  | nil => simp [Roomy]
  | cons columns rest ih =>
    have hhead : (∀ later ∈ rest.take (columns - 1), later = 0) ↔
        ∀ j, ∀ later ∈ rest[j]?, columns ≤ j + 1 ∨ later = 0 := by
      constructor
      · intro h j later hlater
        rcases Nat.lt_or_ge j (columns - 1) with hlt | hge
        · refine .inr (h later (List.mem_of_getElem? (i := j) ?_))
          rwa [List.getElem?_take_of_lt hlt]
        · exact .inl (by omega)
      · intro h later hmem
        obtain ⟨j, hj⟩ := List.mem_iff_getElem?.mp hmem
        rw [List.getElem?_take] at hj
        split_ifs at hj with hlt
        exact (h j later hj).resolve_left (by omega)
    rw [Roomy, hhead, ih]
    constructor
    · rintro ⟨hfirst, hrest⟩ (_ | i) (_ | j) hij c hc later hlater
      · omega
      · obtain rfl : columns = c := Option.some.inj hc
        exact (hfirst j later hlater).imp_left (by omega)
      · omega
      · exact (hrest i j (by omega) c hc later hlater).imp_left (by omega)
    · refine fun h => ⟨fun j later hlater => ?_, fun i j hij c hc later hlater => ?_⟩
      · exact (h 0 (j + 1) j.succ_pos columns rfl later hlater).imp_left (by omega)
      · exact (h (i + 1) (j + 1) (by omega) c hc later hlater).imp_left (by omega)

/-- Whether a list is roomy is decided column by column. -/
def decideRoomy : (counts : List ℕ) → Decidable (Roomy counts)
  | [] => inferInstanceAs (Decidable True)
  | _ :: rest =>
    have := decideRoomy rest
    inferInstanceAs (Decidable (_ ∧ _))

instance : DecidablePred Roomy := decideRoomy

/-- Ranges that begin in order are disjoint if the first ends in front of the second, or the
second is empty. -/
theorem disjoint_ranges_iff {i j columns later : ℕ} (h : i < j) :
    Disjoint (Finset.Ico i (i + columns)) (Finset.Ico j (j + later)) ↔
      i + columns ≤ j ∨ later = 0 := by
  rw [Finset.disjoint_left]
  simp only [Finset.mem_Ico, not_and, not_lt]
  constructor
  · intro hdisjoint
    have := hdisjoint (a := j)
    omega
  · intro _ location
    omega

/-! ### What is handed on -/

/-- All that the vertex stage hands on, in the order of the locations. -/
def ShaderUnit.handedOn (u : ShaderUnit) (v : Valuation) (fragment : StageBlock) :
    List DeclarationId :=
  (u.activeMembers v [.varying]).map (·.1) ++ u.transferredDeclarations v fragment

/-- The locations that a declaration takes: one for each column of a number. -/
def ShaderUnit.columnsOf (u : ShaderUnit) (id : DeclarationId) : ℕ :=
  (((u.declaration? id).bind (·.type.numeric?)).map (·.columns.toNat)).getD 0

namespace Layout

/-- A declaration of the numeric type is handed on, from the location on. -/
def HandsOn (l : Layout) (u : ShaderUnit) (id : DeclarationId) (type : NumericType)
    (location : ℕ) : Prop :=
  (u.declaration? id).bind (·.type.numeric?) = some type ∧
    (l.placement id).outLocation = some location

/-- No two numbers that are handed on have a location in common, if each takes one for each of
its columns, as a vertex attribute does. -/
def OutputsApart (l : Layout) (u : ShaderUnit) : Prop :=
  ∀ id id' type type' location location', id ≠ id' →
    l.HandsOn u id type location → l.HandsOn u id' type' location' →
    Disjoint (Finset.Ico location (location + type.columns.toNat))
      (Finset.Ico location' (location' + type'.columns.toNat))

end Layout

namespace ShaderUnit

variable {u : ShaderUnit} {v : Valuation} {fragment : StageBlock} {l : Layout}

theorem outLocation_iff_handedOn (hl : (u.assignLayout v fragment).layout = some l)
    {id : DeclarationId} {location : ℕ} :
    (l.placement id).outLocation = some location ↔
      (u.handedOn v fragment)[location]? = some id := by
  obtain ⟨handed, hassigned, htransferred⟩ := exists_assigned_transferred hl
  rw [hassigned.outLocation_eq_some_iff, handedOn, htransferred]

/-- **Locations do not overlap** exactly if no number is handed on within the columns of a matrix
in front of it. -/
theorem outputsApart_iff (hl : (u.assignLayout v fragment).layout = some l) :
    l.OutputsApart u ↔ Roomy ((u.handedOn v fragment).map u.columnsOf) := by
  rw [roomy_iff]
  simp only [List.getElem?_map, Option.mem_def, Option.map_eq_some_iff]
  constructor
  · rintro hapart i j hij _ ⟨id, hid, rfl⟩ _ ⟨id', hid', rfl⟩
    have hout := (outLocation_iff_handedOn hl).mpr hid
    have hout' := (outLocation_iff_handedOn hl).mpr hid'
    have hne : id ≠ id' := by
      rintro rfl
      exact hij.ne (Option.some.inj (hout.symm.trans hout'))
    -- what is no number takes no location
    cases htype : (u.declaration? id).bind (·.type.numeric?) with
    | none => exact .inl (by simp [columnsOf, htype, hij.le])
    | some type =>
      cases htype' : (u.declaration? id').bind (·.type.numeric?) with
      | none => exact .inr (by simp [columnsOf, htype'])
      | some type' =>
        have hdisjoint := hapart id id' type type' i j hne ⟨htype, hout⟩ ⟨htype', hout'⟩
        simpa [columnsOf, htype, htype'] using (disjoint_ranges_iff hij).mp hdisjoint
  · -- by symmetry, the first of the two has the lower location
    intro hroomy
    have hordered : ∀ id id' type type' i j, i < j → l.HandsOn u id type i →
        l.HandsOn u id' type' j → Disjoint (Finset.Ico i (i + type.columns.toNat))
          (Finset.Ico j (j + type'.columns.toNat)) := by
      rintro id id' type type' i j hij ⟨htype, hout⟩ ⟨htype', hout'⟩
      have hcolumns := hroomy i j hij _ ⟨id, (outLocation_iff_handedOn hl).mp hout, rfl⟩ _
        ⟨id', (outLocation_iff_handedOn hl).mp hout', rfl⟩
      rw [disjoint_ranges_iff hij]
      simpa [columnsOf, htype, htype'] using hcolumns
    intro id id' type type' i j hne h h'
    rcases lt_trichotomy i j with hij | rfl | hji
    · exact hordered id id' type type' i j hij h h'
    · have hid := (outLocation_iff_handedOn hl).mp h.2
      have hid' := (outLocation_iff_handedOn hl).mp h'.2
      exact absurd (Option.some.inj (hid.symm.trans hid')) hne
    · exact (hordered id' id type' type j i hji h' h).symm

/-- A source that hands on a frame of three columns and texture coordinates, in either order. -/
def bumpShader (frameFirst : Bool) : ShaderUnit :=
  let frame : Declaration := { name := "frame", type := .numeric (.matrix 3 3) }
  let coordinates : Declaration := { name := "coordinates", type := .numeric (.vector .float 2) }
  { blocks := [.storage {
      kind := .varying
      declarations := if frameFirst then [frame, coordinates] else [coordinates, frame] }] }

/-- With the frame at the end, nothing is in its way. -/
theorem bumpShader_apart : ∃ l,
    ((bumpShader false).assignLayout (fun _ => none) { stage := .fragment }).layout = some l ∧
      l.HandsOn (bumpShader false) { block := 0, index := 1 } (.matrix 3 3) 1 ∧
      l.OutputsApart (bumpShader false) := by
  obtain ⟨l, hl⟩ := Option.isSome_iff_exists.mp (by decide :
    ((bumpShader false).assignLayout (fun _ => none) { stage := .fragment }).layout.isSome = true)
  exact ⟨l, hl, ⟨rfl, (outLocation_iff_handedOn hl).mpr rfl⟩, (outputsApart_iff hl).mpr (by decide)⟩

/-- **Locations overlap**: the coordinates are handed on at the location of the second column of
the frame in front of them. -/
theorem bumpShader_overlaps : ∃ l,
    ((bumpShader true).assignLayout (fun _ => none) { stage := .fragment }).layout = some l ∧
      l.HandsOn (bumpShader true) { block := 0, index := 0 } (.matrix 3 3) 0 ∧
      l.HandsOn (bumpShader true) { block := 0, index := 1 } (.vector .float 2) 1 ∧
      ¬ l.OutputsApart (bumpShader true) := by
  obtain ⟨l, hl⟩ := Option.isSome_iff_exists.mp (by decide :
    ((bumpShader true).assignLayout (fun _ => none) { stage := .fragment }).layout.isSome = true)
  have hframe : l.HandsOn (bumpShader true) { block := 0, index := 0 } (.matrix 3 3) 0 :=
    ⟨rfl, (outLocation_iff_handedOn hl).mpr rfl⟩
  have hcoordinates : l.HandsOn (bumpShader true) { block := 0, index := 1 }
      (.vector .float 2) 1 := ⟨rfl, (outLocation_iff_handedOn hl).mpr rfl⟩
  refine ⟨l, hl, hframe, hcoordinates, fun hapart => ?_⟩
  exact absurd (hapart _ _ _ _ _ _ (by decide) hframe hcoordinates) (by decide)

end ShaderUnit

end ShaderVariants
