import Mathlib
import ShaderVariants.Proofs.Container.Histories

/-!
# Programs behind the last word

Programs begin four bytes behind a place that was checked, and in a build without overflow
checks their own place only keeps its lowest 32 bits.  Such programs end the body: behind them
there is no place for another variant.  All other writes do the same in both kinds of builds.

## Main definitions

* `Writer.checked` — the same writer in a build with overflow checks.
* `Writer.Wraps` — a write takes an entry for programs whose place is no word.
* `PlacesFit` — the programs of all variants begin at words.

## Main results

* `Writer.writeVariant_checked` — a write does not depend on the build unless it wraps.
* `Writer.ReachedIn.checked_or_wrapped` — **overflow checks matter for the last variant only.**
* `Writer.ReachedIn.reached_checked` — if all programs begin at words, they do not matter.
-/

namespace ShaderVariants

/-- The programs of the variants begin at words, if they are written in this order. -/
def PlacesFit (shaders : List ShaderEntry) (variants : List Variant) : Prop :=
  ∀ r ∈ layOut shaders [] variants, r.programPlace < Word.limit

instance (shaders : List ShaderEntry) (variants : List Variant) :
    Decidable (PlacesFit shaders variants) :=
  inferInstanceAs (Decidable (∀ r ∈ layOut shaders [] variants, r.programPlace < Word.limit))

namespace Writer

variable {w w' : Writer} {v : Variant}

/-- The writer in a build with overflow checks. -/
def checked (w : Writer) : Writer := { w with overflow := .refused }

/-- The write takes an index entry, and the programs are to follow the variant, at a place that
is no word. -/
def Wraps (w : Writer) (v : Variant) : Prop :=
  w.Claims v ∧ (∃ s, w.shaders.find? (·.info.sourceHash = v.key.sourceHash) = some s ∧
      w.programs.lookup (s.info.programKey v.key.optionWord) = none) ∧
    Word.limit ≤ w.body.length + (encode v.body).bytes.length + 4

/-! ### Writes that do not wrap -/

@[simp] theorem shaders_checked (w : Writer) : w.checked.shaders = w.shaders := rfl

@[simp] theorem body_checked (w : Writer) : w.checked.body = w.body := rfl

@[simp] theorem programs_checked (w : Writer) : w.checked.programs = w.programs := rfl

@[simp] theorem overflow_checked (w : Writer) : w.checked.overflow = .refused := rfl

theorem settle_checked (w : Writer) : w.checked.settle = w.settle.map checked := by
  unfold settle
  rw [apply_ite (Except.map checked), apply_ite (Except.map checked),
    apply_ite (Except.map checked)]
  rfl

theorem claims_checked_iff : w.checked.Claims v ↔ w.Claims v := by
  refine and_congr_left fun _ => ?_
  rw [settle_checked]
  cases w.settle with
  | error e => simp [Except.map]
  | ok w₁ => simp [Except.map]

theorem appendPrograms_checked {key : VariantKey}
    (h : w.programs.lookup key = none → w.body.length + 4 < Word.limit) :
    w.checked.appendPrograms v key =
      ((w.appendPrograms v key).1.checked, (w.appendPrograms v key).2) := by
  unfold appendPrograms
  rw [programs_checked, body_checked, overflow_checked]
  cases hlookup : w.programs.lookup key with
  | some place => rfl
  | none =>
    -- the place is a word, so both kinds of builds compute it
    have hword := h hlookup
    dsimp only
    rw [Overflow.below_of_lt hword, Overflow.below_of_lt hword]
    split_ifs <;> rfl

theorem appendVariant_checked {key : VariantKey} (h : w.programs.lookup key = none →
      w.body.length + (encode v.body).bytes.length + 4 < Word.limit) :
    w.checked.appendVariant v key =
      ((w.appendVariant v key).1.checked, (w.appendVariant v key).2) := by
  unfold appendVariant append
  cases (encode v.body).fits with
  | false => rfl
  | true =>
    refine appendPrograms_checked (w := { w with body := w.body ++ (encode v.body).bytes }) ?_
    intro hlookup
    rw [List.length_append]
    exact h hlookup

/-- **A write that does not wrap** does the same in both kinds of builds. -/
theorem writeVariant_checked (h : ¬ w.Wraps v) :
    w.checked.writeVariant v = ((w.writeVariant v).1.checked, (w.writeVariant v).2) := by
  unfold writeVariant
  rw [settle_checked]
  cases hsettle : w.settle with
  | error e => rfl
  | ok w₁ =>
    obtain rfl := settle_ok hsettle
    dsimp only [Except.map]
    rw [shaders_checked, body_checked]
    cases hs : w.shaders.find? (·.info.sourceHash = v.key.sourceHash) with
    | none => rfl
    | some s =>
      dsimp only
      by_cases hcount : s.variantCount ≤ s.used.length
      · rw [if_pos hcount, if_pos hcount]
      rw [if_neg hcount, if_neg hcount]
      by_cases hfull : Word.limit ≤ w.body.length
      · rw [if_pos hfull, if_pos hfull]
        rfl
      rw [if_neg hfull, if_neg hfull]
      refine appendVariant_checked (w := { w with
        shaders := useEntry v.key.sourceHash ⟨v.key.optionWord, w.body.length⟩ w.shaders
        settled := true }) fun hlookup => not_le.mp fun hplace => h ?_
      exact ⟨⟨⟨_, hsettle⟩, s, hs, not_le.mp hcount⟩, ⟨s, hs, hlookup⟩, hplace⟩

/-! ### Writes that wrap -/

/-- Where a write that wraps ends, no other variant can begin. -/
theorem Wraps.limit_le (h : w.Wraps v) (hwrite : w.writeVariant v = (w', .ok ())) :
    Word.limit ≤ w'.body.length := by
  obtain ⟨-, -, hplace⟩ := h
  obtain ⟨s, -, -, -, -, p, more, table, hword, -, rfl⟩ := writeVariant_ok hwrite
  simp only [List.length_append, length_word hword]
  omega

/-- A variant with programs of its own is written if the place of these can be computed. -/
theorem writeVariant_of_own {s : OpenShader} {p : ℕ} (hclaims : w.Claims v)
    (hs : w.shaders.find? (·.info.sourceHash = v.key.sourceHash) = some s)
    (hnone : w.programs.lookup (s.info.programKey v.key.optionWord) = none)
    (hbody : (encode v.body).fits = true) (hprograms : v.programs.fits = true)
    (hplace : w.body.length + (encode v.body).bytes.length < Word.limit)
    (hp : w.overflow.below Word.limit .sumTooLarge
      (w.body.length + (encode v.body).bytes.length + 4) = .ok p) :
    w.writeVariant v = ({
      shaders := useEntry v.key.sourceHash ⟨v.key.optionWord, w.body.length⟩ w.shaders
      settled := true
      body := w.body ++ (encode v.body).bytes ++ (Encoded.word p).bytes ++ v.programs.bytes
      programs := w.programs ++ [(s.info.programKey v.key.optionWord, p)]
      overflow := w.overflow }, .ok ()) := by
  obtain ⟨⟨w₁, hsettle⟩, s', hs', hcount⟩ := hclaims
  obtain rfl := Option.some.inj (hs.symm.trans hs')
  obtain rfl := settle_ok hsettle
  have hbegin : ¬ Word.limit ≤ w.body.length := by omega
  rw [← List.length_append] at hplace hp
  unfold writeVariant
  rw [hsettle]
  dsimp only
  rw [hs]
  dsimp only
  rw [if_neg (not_le.mpr hcount), if_neg hbegin, appendVariant_iff, appendPrograms_iff_of_none]
  · exact ⟨hbody, hplace, p, hp, hprograms, rfl⟩
  · exact hnone

/-- Without overflow checks a write that wraps succeeds, as long as its variant ends at a
word. -/
theorem Wraps.exists_write (h : w.Wraps v) (hoverflow : w.overflow = .wrapped)
    (hbody : (encode v.body).fits = true) (hprograms : v.programs.fits = true)
    (hplace : w.body.length + (encode v.body).bytes.length < Word.limit) :
    ∃ w', w.writeVariant v = (w', .ok ()) := by
  obtain ⟨hclaims, ⟨s, hs, hnone⟩, hbeyond⟩ := h
  have hwrapped : w.overflow.below Word.limit .sumTooLarge
      (w.body.length + (encode v.body).bytes.length + 4) =
        .ok ((w.body.length + (encode v.body).bytes.length + 4) % Word.limit) := by
    rw [hoverflow]
    exact if_neg (not_lt.mpr hbeyond)
  exact ⟨_, writeVariant_of_own hclaims hs hnone hbody hprograms hplace hwrapped⟩

namespace ReachedIn

variable {o : Overflow} {shaders : List ShaderEntry} {written spoiled : List Variant}

/-- **Overflow checks matter for the last variant only**: either the history is one of a build
with overflow checks, or the last write has wrapped. -/
theorem checked_or_wrapped (h : ReachedIn o shaders written spoiled w) (hspoiled : spoiled = []) :
    Reached shaders written [] w.checked ∨ ∃ (init : List Variant) (v : Variant) (w₀ : Writer),
      written = init ++ [v] ∧ Reached shaders init [] w₀.checked ∧ w₀.Wraps v ∧
        w₀.writeVariant v = (w, .ok ()) := by
  induction h with
  | new => exact .inl .new
  | announced hreached hadd _ =>
    obtain ⟨rfl, rfl, rfl⟩ := hreached.fresh_of_addShader hadd
    exact .inl (ReachedIn.new.addAll (addAll_eq _ {} rfl))
  | @accepted shaders written spoiled w w' v _ hwrite ih =>
    rcases ih hspoiled with hchecked | ⟨init, u, w₀, -, -, hwraps, hlast⟩
    · by_cases hwraps : w.Wraps v
      · exact .inr ⟨written, v, w, rfl, hchecked, hwraps, hwrite⟩
      · have hsame := writeVariant_checked hwraps
        rw [hwrite] at hsame
        exact .inl (hchecked.accepted hsame)
    · -- there is no place behind the programs that wrapped
      obtain ⟨-, -, -, hplace, -⟩ := writeVariant_ok hwrite
      exact absurd hplace (not_lt.mpr (hwraps.limit_le hlast))
  | @refused shaders written spoiled w w' v e _ hwrite hclaims ih =>
    rcases ih hspoiled with hchecked | ⟨init, u, w₀, hwritten, hinit, hwraps, hlast⟩
    · have hsame := writeVariant_checked (v := v) fun hwraps => hclaims hwraps.1
      rw [hwrite] at hsame
      exact .inl (hchecked.refused hsame (mt claims_checked_iff.mp hclaims))
    · -- the header was settled before
      have hsettled : w' = w := by
        rcases writeVariant_refused hwrite hclaims with rfl | hsettle
        · rfl
        · obtain ⟨s, -, -, -, -, p, more, table, -, -, rfl⟩ := writeVariant_ok hlast
          exact settle_ok hsettle
      exact .inr ⟨init, u, w₀, hwritten, hinit, hwraps, hsettled ▸ hlast⟩
  | spoiled => exact absurd hspoiled (List.append_ne_nil_of_right_ne_nil _ (List.cons_ne_nil _ _))

/-- With overflow checks the programs of all variants begin at words. -/
theorem placesFit (h : Reached shaders written [] w) : PlacesFit shaders written :=
  fun r hr => ((h.placed rfl).fits r hr).programPlace

end ReachedIn

/-- The next variant has its record behind the others, with its programs. -/
theorem Wraps.nextRecord_eq {shaders : List ShaderEntry} {records : List Record} (h : w.Wraps v)
    (hplaced : Placed shaders records w.checked) :
    findRecord? shaders records (v.programKey shaders) = none ∧
      bodyEnd records = w.body.length ∧
      (nextRecord shaders records v).programPlace =
        w.body.length + (encode v.body).bytes.length + 4 := by
  obtain ⟨-, ⟨s, hs, hlookup⟩, -⟩ := h
  have hlength : bodyEnd records = w.body.length := hplaced.length_body.symm
  have hnone : findRecord? shaders records (v.programKey shaders) = none := by
    rw [hplaced.programKey_eq hs] at hlookup
    have hfound := lookup_programTable hplaced.sharing (v.programKey shaders)
    rw [← hplaced.table] at hfound
    exact Option.map_eq_none_iff.mp (hfound.symm.trans hlookup)
  refine ⟨hnone, hlength, ?_⟩
  rw [nextRecord, hnone, hlength]

/-- The programs of a write that wraps do not begin at a word. -/
theorem Wraps.not_placesFit {shaders : List ShaderEntry} {written : List Variant} (h : w.Wraps v)
    (hreached : Reached shaders written [] w.checked) : ¬ PlacesFit shaders (written ++ [v]) := by
  intro hfit
  obtain ⟨-, -, hplace⟩ := h.nextRecord_eq (hreached.placed rfl)
  have hword := hfit (nextRecord shaders (layOut shaders [] written) v) (by
    rw [layOut_append]
    exact List.mem_append_right _ List.mem_cons_self)
  rw [hplace] at hword
  exact absurd h.2.2 (not_le.mpr hword)

/-- **If all programs begin at words**, overflow checks do not matter. -/
theorem ReachedIn.reached_checked {o : Overflow} {shaders : List ShaderEntry}
    {written : List Variant} (h : ReachedIn o shaders written [] w)
    (hfit : PlacesFit shaders written) : Reached shaders written [] w.checked := by
  rcases h.checked_or_wrapped rfl with hchecked | ⟨init, v, w₀, rfl, hinit, hwraps, -⟩
  · exact hchecked
  · exact absurd hfit (hwraps.not_placesFit hinit)

end Writer

end ShaderVariants
