import Mathlib
import ShaderVariants.Proofs.Container.Opening
import ShaderVariants.Proofs.Options.Field

/-!
# Where variants and programs lie

The body of a file consists of one record for each variant, in the order of writing.  A
record holds the variant, the place of its programs, and, if no earlier variant has the same
program key, the programs themselves.  Where everything lies is known before anything is
written: it only depends on the variants and on their order.

## Main definitions

* `Record`, `nextRecord`, `layOut` — the records of variants.
* `Sharing` — what the records have in common.
* `Writer.Placed` — a writer whose body consists of the records, in a build with overflow
  checks.

## Main results

* `Sharing.programPlace_eq_iff` — records share programs exactly if they have the same program
  key, and `Sharing.next` — so they do with one more record.
* `Writer.Placed.writeVariant_iff` — when a write succeeds, and everything it does then.
* `Writer.placed_run` — **the body after a run.**
-/

namespace ShaderVariants

/-! ### Program keys -/

/-- The bits of options that never change a program of the shader with the checksum. -/
def maskOf (shaders : List ShaderEntry) (hash : UInt32) : OptionWord :=
  ((shaders.find? (·.info.sourceHash = hash)).map (·.info.invarianceMask)).getD 0

/-- The program key of a variant, given the shaders of its file. -/
def Variant.programKey (v : Variant) (shaders : List ShaderEntry) : VariantKey :=
  v.key.programKey (maskOf shaders v.key.sourceHash)

theorem Variant.programKey_eq_iff {shaders : List ShaderEntry} {v u : Variant} :
    v.programKey shaders = u.programKey shaders ↔ v.key.sourceHash = u.key.sourceHash ∧
      OptionWord.AgreeOutside (maskOf shaders v.key.sourceHash)
        v.key.optionWord u.key.optionWord := by
  unfold programKey VariantKey.programKey OptionWord.AgreeOutside
  rw [VariantKey.mk.injEq]
  refine and_congr_right fun hhash => ?_
  rw [hhash]

theorem maskOf_eq {shaders : List ShaderEntry} {s : ShaderEntry} {hash : UInt32}
    (h : shaders.find? (·.info.sourceHash = hash) = some s) :
    maskOf shaders hash = s.info.invarianceMask := by
  rw [maskOf, h, Option.map_some, Option.getD_some]

/-- A variant of a known shader has the program key that its shader gives it. -/
theorem Variant.hasProgramKey {shaders : List ShaderEntry} {v : Variant}
    (h : ∃ s ∈ shaders, s.info.sourceHash = v.key.sourceHash) :
    HasProgramKey shaders v (v.programKey shaders) := by
  obtain ⟨t, ht, hhash⟩ := h
  have hsome : (shaders.find? (·.info.sourceHash = v.key.sourceHash)).isSome = true :=
    List.find?_isSome.mpr ⟨t, ht, decide_eq_true hhash⟩
  obtain ⟨s, hs⟩ := Option.isSome_iff_exists.mp hsome
  have hfound : s.info.sourceHash = v.key.sourceHash := by simpa using List.find?_some hs
  refine ⟨s, List.mem_of_find?_eq_some hs, hfound, ?_⟩
  rw [Variant.programKey, maskOf_eq hs, ShaderInfo.programKey, hfound]

/-! ### Records -/

/-- A variant in the body. -/
structure Record where
  variant : Variant
  /-- Where the record begins. -/
  place : ℕ
  /-- Where the programs of the variant begin. -/
  programPlace : ℕ
  /-- Whether the record holds the programs. -/
  owner : Bool
  deriving DecidableEq, Repr

namespace Record

/-- The bytes of the record, one part behind the other. -/
def bytes (r : Record) : List UInt8 :=
  (encode r.variant.body).bytes ++ (Encoded.word r.programPlace).bytes ++
    if r.owner then r.variant.programs.bytes else []

/-- The number of its bytes, if the place of its programs is a word. -/
def size (r : Record) : ℕ :=
  (encode r.variant.body).bytes.length + 4 +
    if r.owner then r.variant.programs.bytes.length else 0

/-- The index entry that leads to the record. -/
def entry (r : Record) : IndexEntry := { optionWord := r.variant.key.optionWord, offset := r.place }

/-- Every length of the record fits its place. -/
structure Fits (r : Record) : Prop where
  body : (encode r.variant.body).fits = true
  programPlace : r.programPlace < Word.limit
  programs : r.owner = true → r.variant.programs.fits = true

theorem length_bytes {r : Record} (h : r.Fits) : r.bytes.length = r.size := by
  unfold bytes size
  rw [List.length_append, List.length_append, length_word (fits_word_iff.mpr h.programPlace)]
  split_ifs <;> rfl

end Record

/-- Where the body ends behind the records. -/
def bodyEnd (records : List Record) : ℕ := (records.map (·.size)).sum

@[simp] theorem bodyEnd_append (records records' : List Record) :
    bodyEnd (records ++ records') = bodyEnd records + bodyEnd records' := by
  unfold bodyEnd
  rw [List.map_append, List.sum_append]

@[simp] theorem bodyEnd_singleton (r : Record) : bodyEnd [r] = r.size := List.sum_singleton

theorem length_flatMap_bytes {records : List Record} (h : ∀ r ∈ records, r.Fits) :
    (records.flatMap (·.bytes)).length = bodyEnd records := by
  rw [List.length_flatMap, bodyEnd]
  exact congrArg List.sum (List.map_congr_left fun r hr => Record.length_bytes (h r hr))

section Layout

variable (shaders : List ShaderEntry)

/-- The first record with the program key. -/
def findRecord? (records : List Record) (key : VariantKey) : Option Record :=
  records.find? (·.variant.programKey shaders = key)

variable {shaders} in
theorem findRecord?_append_of_some {records records' : List Record} {key : VariantKey}
    {r : Record} (h : findRecord? shaders records key = some r) :
    findRecord? shaders (records ++ records') key = some r := by
  unfold findRecord? at h ⊢
  rw [List.find?_append, h, Option.some_or]

/-- The record of a variant behind the others.  Its programs are those of the first record
with its program key; if there is none, they follow their place. -/
def nextRecord (records : List Record) (v : Variant) : Record :=
  match findRecord? shaders records (v.programKey shaders) with
  | some r =>
    { variant := v, place := bodyEnd records, programPlace := r.programPlace, owner := false }
  | none =>
    { variant := v, place := bodyEnd records
      programPlace := bodyEnd records + (encode v.body).bytes.length + 4, owner := true }

/-- The records of variants behind other records. -/
def layOut (records : List Record) : List Variant → List Record
  | [] => records
  | v :: rest => layOut (records ++ [nextRecord shaders records v]) rest

@[simp] theorem nextRecord_variant (records : List Record) (v : Variant) :
    (nextRecord shaders records v).variant = v := by
  unfold nextRecord
  split <;> rfl

@[simp] theorem nextRecord_place (records : List Record) (v : Variant) :
    (nextRecord shaders records v).place = bodyEnd records := by
  unfold nextRecord
  split <;> rfl

theorem layOut_append (later : List Variant) : ∀ (variants : List Variant)
    (records : List Record), layOut shaders records (variants ++ later) =
      layOut shaders (layOut shaders records variants) later := by
  intro variants
  induction variants with
  | nil => exact fun _ => rfl
  | cons v rest ih => exact fun records => ih _

theorem map_variant_layOut : ∀ (variants : List Variant) (records : List Record),
    (layOut shaders records variants).map (·.variant) = records.map (·.variant) ++ variants := by
  intro variants
  induction variants with
  | nil => exact fun records => (List.append_nil _).symm
  | cons v rest ih =>
    intro records
    rw [layOut, ih, List.map_append, List.map_singleton, nextRecord_variant, List.append_assoc]
    rfl

/-- The records of a body stand for its variants, in the order of writing. -/
theorem map_variant_body (variants : List Variant) :
    (layOut shaders [] variants).map (·.variant) = variants :=
  map_variant_layOut shaders variants []

/-! ### Sharing -/

/-- What the records of a body have in common. -/
structure Sharing (records : List Record) : Prop where
  /-- Every record begins where the one before it ends. -/
  consecutive : ∀ front r back, records = front ++ r :: back → r.place = bodyEnd front
  /-- The programs of a record are in the first record with its program key. -/
  first : ∀ r ∈ records, ∃ o,
    findRecord? shaders records (r.variant.programKey shaders) = some o ∧
      o.owner = true ∧ o.programPlace = r.programPlace
  /-- Programs directly follow their place. -/
  own : ∀ r ∈ records, r.owner = true →
    r.programPlace = r.place + (encode r.variant.body).bytes.length + 4
  /-- No programs are stored twice. -/
  keys : ((records.filter (·.owner)).map (·.variant.programKey shaders)).Nodup
  /-- Different programs are at different places. -/
  places : ((records.filter (·.owner)).map (·.programPlace)).Nodup
  below : ∀ r ∈ records, r.programPlace ≤ bodyEnd records

namespace Sharing

variable {shaders} {records : List Record} (h : Sharing shaders records)

include h

/-- What is found under a key holds its own programs. -/
theorem owner_of_find {key : VariantKey} {o : Record}
    (ho : findRecord? shaders records key = some o) : o ∈ records ∧
      o.variant.programKey shaders = key ∧ o.owner = true := by
  have hmem : o ∈ records := List.mem_of_find?_eq_some ho
  have hkey : o.variant.programKey shaders = key := by simpa using List.find?_some ho
  obtain ⟨o', ho', howner, -⟩ := h.first o hmem
  rw [hkey, ho] at ho'
  obtain rfl := Option.some.inj ho'
  exact ⟨hmem, hkey, howner⟩

/-- **Records share their programs exactly if they have the same program key.** -/
theorem programPlace_eq_iff {r r' : Record} (hr : r ∈ records) (hr' : r' ∈ records) :
    r.programPlace = r'.programPlace ↔
      r.variant.programKey shaders = r'.variant.programKey shaders := by
  obtain ⟨o, ho, -, hplace⟩ := h.first r hr
  obtain ⟨o', ho', -, hplace'⟩ := h.first r' hr'
  obtain ⟨hmem, hkey, howner⟩ := h.owner_of_find ho
  obtain ⟨hmem', hkey', howner'⟩ := h.owner_of_find ho'
  constructor
  · intro heq
    have hsame : o = o' := List.inj_on_of_nodup_map h.places
      (List.mem_filter.mpr ⟨hmem, howner⟩) (List.mem_filter.mpr ⟨hmem', howner'⟩)
      (hplace.trans (heq.trans hplace'.symm))
    rw [← hkey, ← hkey', hsame]
  · intro heq
    rw [heq, ho'] at ho
    rw [← hplace, ← hplace', Option.some.inj ho]

/-- **There are as many programs as program keys.** -/
theorem length_owners : (records.filter (·.owner)).length =
    (records.map (·.variant.programKey shaders)).toFinset.card := by
  have hmem : ((records.filter (·.owner)).map (·.variant.programKey shaders)).toFinset =
      (records.map (·.variant.programKey shaders)).toFinset := by
    refine List.toFinset.ext fun key => ?_
    simp only [List.mem_map, List.mem_filter]
    constructor
    · rintro ⟨r, ⟨hr, -⟩, hkey⟩
      exact ⟨r, hr, hkey⟩
    · rintro ⟨r, hr, rfl⟩
      obtain ⟨o, ho, -⟩ := h.first r hr
      obtain ⟨hmem, hkey, howner⟩ := h.owner_of_find ho
      exact ⟨o, ⟨hmem, howner⟩, hkey⟩
  rw [← hmem, List.toFinset_card_of_nodup h.keys, List.length_map]

theorem consecutive_append {r : Record} (hplace : r.place = bodyEnd records)
    (front : List Record) (q : Record) (back : List Record)
    (hsplit : records ++ [r] = front ++ q :: back) : q.place = bodyEnd front := by
  rcases back.eq_nil_or_concat with rfl | ⟨back', b, rfl⟩
  · obtain ⟨rfl, hlast⟩ := List.append_inj' hsplit rfl
    obtain rfl := List.singleton_inj.mp hlast
    exact hplace
  · rw [List.concat_eq_append, ← List.cons_append, ← List.append_assoc] at hsplit
    obtain ⟨hrecords, -⟩ := List.append_inj' hsplit rfl
    exact h.consecutive front q back' hrecords

/-- A record on the programs of an earlier one. -/
theorem append_shared {r o : Record} (hbegin : r.place = bodyEnd records)
    (hfind : findRecord? shaders records (r.variant.programKey shaders) = some o)
    (howner : r.owner = false) (hplace : r.programPlace = o.programPlace) :
    Sharing shaders (records ++ [r]) := by
  obtain ⟨hmem, -, hown⟩ := h.owner_of_find hfind
  refine ⟨h.consecutive_append hbegin, ?_, ?_, ?_, ?_, ?_⟩
  · intro q hq
    rcases List.mem_append.mp hq with hq | hq
    · obtain ⟨o', ho', hfirst⟩ := h.first q hq
      exact ⟨o', findRecord?_append_of_some ho', hfirst⟩
    · obtain rfl := List.mem_singleton.mp hq
      exact ⟨o, findRecord?_append_of_some hfind, hown, hplace.symm⟩
  · intro q hq hq'
    rcases List.mem_append.mp hq with hq | hq
    · exact h.own q hq hq'
    · obtain rfl := List.mem_singleton.mp hq
      exact absurd hq' (by rw [howner]; decide)
  · simpa [List.filter_append, howner] using h.keys
  · simpa [List.filter_append, howner] using h.places
  · intro q hq
    rw [bodyEnd_append]
    refine le_trans ?_ (Nat.le_add_right _ _)
    rcases List.mem_append.mp hq with hq | hq
    · exact h.below q hq
    · obtain rfl := List.mem_singleton.mp hq
      exact hplace ▸ h.below o hmem

/-- A record with programs that no earlier one has. -/
theorem append_own {r : Record}
    (hfind : findRecord? shaders records (r.variant.programKey shaders) = none)
    (howner : r.owner = true) (hplace : r.place = bodyEnd records)
    (hprograms : r.programPlace = r.place + (encode r.variant.body).bytes.length + 4) :
    Sharing shaders (records ++ [r]) := by
  have hnew : ∀ q ∈ records, q.variant.programKey shaders ≠ r.variant.programKey shaders := by
    intro q hq
    simpa using List.find?_eq_none.mp hfind q hq
  have hbeyond : ∀ q ∈ records, q.programPlace < r.programPlace := by
    intro q hq
    have := h.below q hq
    omega
  refine ⟨h.consecutive_append hplace, ?_, ?_, ?_, ?_, ?_⟩
  · intro q hq
    rcases List.mem_append.mp hq with hq | hq
    · obtain ⟨o, ho, hfirst⟩ := h.first q hq
      exact ⟨o, findRecord?_append_of_some ho, hfirst⟩
    · obtain rfl := List.mem_singleton.mp hq
      refine ⟨q, ?_, howner, rfl⟩
      unfold findRecord? at hfind ⊢
      rw [List.find?_append, hfind]
      simp
  · intro q hq hq'
    rcases List.mem_append.mp hq with hq | hq
    · exact h.own q hq hq'
    · obtain rfl := List.mem_singleton.mp hq
      exact hprograms
  · rw [List.filter_append, List.filter_singleton, howner, List.map_append, cond_true]
    refine h.keys.append (List.nodup_singleton _) (List.disjoint_singleton.mpr fun hmem => ?_)
    obtain ⟨q, hq, hkey⟩ := List.mem_map.mp hmem
    exact hnew q (List.mem_filter.mp hq).1 hkey
  · rw [List.filter_append, List.filter_singleton, howner, List.map_append, cond_true]
    refine h.places.append (List.nodup_singleton _) (List.disjoint_singleton.mpr fun hmem => ?_)
    obtain ⟨q, hq, heq⟩ := List.mem_map.mp hmem
    exact absurd heq (hbeyond q (List.mem_filter.mp hq).1).ne
  · intro q hq
    rw [bodyEnd_append, bodyEnd_singleton]
    rcases List.mem_append.mp hq with hq | hq
    · exact (h.below q hq).trans (Nat.le_add_right _ _)
    · obtain rfl := List.mem_singleton.mp hq
      rw [hprograms, hplace, Record.size]
      omega

/-- **The next record keeps programs shared.** -/
theorem next (v : Variant) : Sharing shaders (records ++ [nextRecord shaders records v]) := by
  unfold nextRecord
  cases hfind : findRecord? shaders records (v.programKey shaders) with
  | some o => exact h.append_shared rfl hfind rfl rfl
  | none => exact h.append_own hfind rfl rfl rfl

end Sharing

theorem sharing_nil : Sharing shaders [] := by
  refine ⟨?_, ?_, ?_, List.nodup_nil, List.nodup_nil, ?_⟩
  · exact fun front r back hsplit => absurd hsplit.symm (by simp)
  all_goals exact fun r hr => absurd hr List.not_mem_nil

end Layout

/-! ### When a write succeeds -/

namespace Writer

variable {shaders : List ShaderEntry} {w w' : Writer} {v : Variant}

/-- The header is settled exactly if everything in it fits, now or before. -/
theorem settle_iff (hannounced : w.shaders.map (·.toShaderEntry) = shaders)
    (hsettled : w.settled = true → HeaderFits shaders) :
    w.settle = .ok w' ↔ HeaderFits shaders ∧ w' = { w with settled := true } := by
  constructor
  · intro h
    refine ⟨?_, settle_ok h⟩
    by_cases hw : w.settled = true
    · exact hsettled hw
    · unfold settle at h
      rw [if_neg hw] at h
      split_ifs at h with hcounts hfits
      obtain ⟨hentries, hlength⟩ := not_or.mp hcounts
      unfold header at hfits
      simp only [Encoded.fits_append, Bool.and_eq_true, fits_concat_iff] at hfits
      rw [← hannounced]
      refine ⟨?_, not_le.mp hentries, hfits.2⟩
      rw [List.length_map]
      exact not_le.mp hlength
  · rintro ⟨h, rfl⟩
    exact settle_eq (hannounced ▸ h)

/-- Only a file whose header fits can be finished. -/
theorem headerFits_of_finish (hannounced : w.shaders.map (·.toShaderEntry) = shaders)
    (hsettled : w.settled = true → HeaderFits shaders) {file : List UInt8}
    (hfinish : w.finish = .ok file) : HeaderFits shaders := by
  unfold finish at hfinish
  cases hsettle : w.settle with
  | error e =>
    rw [hsettle] at hfinish
    cases hfinish
  | ok w' => exact ((settle_iff hannounced hsettled).mp hsettle).1

theorem append_iff {e : Encoded} : w.append e = (w', .ok ()) ↔
    e.fits = true ∧ w' = { w with body := w.body ++ e.bytes } := by
  refine ⟨append_ok, ?_⟩
  rintro ⟨hfits, rfl⟩
  rw [append, if_pos hfits]

/-- Programs that are stored already are only referred to. -/
theorem appendPrograms_iff_of_some {key : VariantKey} {p : ℕ}
    (h : w.programs.lookup key = some p) : w.appendPrograms v key = (w', .ok ()) ↔
      p < Word.limit ∧ w' = { w with body := w.body ++ (Encoded.word p).bytes } := by
  unfold appendPrograms
  rw [h]
  exact append_iff.trans (and_congr_left fun _ => fits_word_iff)

/-- Other programs follow the reference to them. -/
theorem appendPrograms_iff_of_none {key : VariantKey} (h : w.programs.lookup key = none) :
    w.appendPrograms v key = (w', .ok ()) ↔ w.body.length < Word.limit ∧
      ∃ p, w.overflow.below Word.limit .sumTooLarge (w.body.length + 4) = .ok p ∧
        v.programs.fits = true ∧ w' = { w with
          body := w.body ++ (Encoded.word p).bytes ++ v.programs.bytes
          programs := w.programs ++ [(key, p)] } := by
  unfold appendPrograms
  rw [h]
  dsimp only
  by_cases hfull : Word.limit ≤ w.body.length
  · rw [if_pos hfull]
    exact iff_of_false (fun hok => by cases hok) fun hok => absurd hok.1 (not_lt.mpr hfull)
  rw [if_neg hfull, and_iff_right (not_le.mp hfull)]
  cases hplace : w.overflow.below Word.limit .sumTooLarge (w.body.length + 4) with
  | error e => exact iff_of_false (fun hok => by cases hok) fun ⟨p, hp, _⟩ => by cases hp
  | ok p =>
    have hfits := fits_word_iff.mpr (Overflow.lt_of_below (by decide) hplace)
    dsimp only
    rw [append_iff, Encoded.append_assoc, Encoded.fits_append, hfits, Bool.true_and,
      Encoded.bytes_append_of_fits hfits]
    constructor
    · rintro ⟨hprograms, rfl⟩
      refine ⟨p, rfl, hprograms, ?_⟩
      rw [List.append_assoc]
      rfl
    · rintro ⟨q, hq, hprograms, rfl⟩
      obtain rfl := Except.ok.inj hq
      refine ⟨hprograms, ?_⟩
      rw [List.append_assoc]
      rfl

/-- With overflow checks the place of the programs has to be a word. -/
theorem appendPrograms_iff_of_refused {key : VariantKey} (hoverflow : w.overflow = .refused)
    (h : w.programs.lookup key = none) : w.appendPrograms v key = (w', .ok ()) ↔
      w.body.length + 4 < Word.limit ∧ v.programs.fits = true ∧
      w' = { w with
        body := w.body ++ (Encoded.word (w.body.length + 4)).bytes ++ v.programs.bytes
        programs := w.programs ++ [(key, w.body.length + 4)] } := by
  rw [appendPrograms_iff_of_none h, hoverflow]
  constructor
  · rintro ⟨-, p, hp, hrest⟩
    obtain ⟨hword, rfl⟩ := Overflow.eq_of_below_refused hp
    exact ⟨hword, hrest⟩
  · rintro ⟨hword, hrest⟩
    exact ⟨by omega, _, Overflow.below_of_lt hword, hrest⟩

theorem appendVariant_iff {key : VariantKey} : w.appendVariant v key = (w', .ok ()) ↔
    (encode v.body).fits = true ∧
      { w with body := w.body ++ (encode v.body).bytes }.appendPrograms v key = (w', .ok ()) := by
  unfold appendVariant append
  cases (encode v.body).fits <;> simp

/-- When a write succeeds.  The rest of it is up to `appendVariant`. -/
theorem writeVariant_iff (hannounced : w.shaders.map (·.toShaderEntry) = shaders)
    (hsettled : w.settled = true → HeaderFits shaders) :
    w.writeVariant v = (w', .ok ()) ↔ HeaderFits shaders ∧ w.body.length < Word.limit ∧
      ∃ s, w.shaders.find? (·.info.sourceHash = v.key.sourceHash) = some s ∧
        s.used.length < s.variantCount ∧
        { w with
          shaders := useEntry v.key.sourceHash ⟨v.key.optionWord, w.body.length⟩ w.shaders
          settled := true }.appendVariant v (s.info.programKey v.key.optionWord) =
            (w', .ok ()) := by
  unfold writeVariant
  by_cases hheader : HeaderFits shaders
  · rw [(settle_iff hannounced hsettled).mpr ⟨hheader, rfl⟩, and_iff_right hheader]
    dsimp only
    cases hs : w.shaders.find? (·.info.sourceHash = v.key.sourceHash) with
    | none => simp
    | some s =>
      by_cases hcount : s.variantCount ≤ s.used.length
      · simp [hcount, not_lt.mpr hcount]
      · by_cases hfull : Word.limit ≤ w.body.length
        · simp [hcount, hfull, not_lt.mpr hfull]
        · simp [hcount, hfull, not_le.mp hcount, not_le.mp hfull]
  · refine iff_of_false (fun hok => ?_) fun hok => hheader hok.1
    split at hok
    · cases hok
    · next hsettle => exact hheader ((settle_iff hannounced hsettled).mp hsettle).1

/-- A writer gives a variant its program key. -/
theorem programKey_of_find (hannounced : w.shaders.map (·.toShaderEntry) = shaders)
    {s : OpenShader} (hs : w.shaders.find? (·.info.sourceHash = v.key.sourceHash) = some s) :
    s.info.programKey v.key.optionWord = v.programKey shaders := by
  have hhash : s.info.sourceHash = v.key.sourceHash := by simpa using List.find?_some hs
  have hfind : shaders.find? (·.info.sourceHash = v.key.sourceHash) = some s.toShaderEntry := by
    rw [← hannounced, List.find?_map]
    exact congrArg (Option.map (·.toShaderEntry)) hs
  rw [Variant.programKey, maskOf_eq hfind, ShaderInfo.programKey, hhash]

/-! ### Entries of a shader -/

theorem find?_useEntry_self {hash : UInt32} {entry : IndexEntry} {s : OpenShader} :
    ∀ open_ : List OpenShader, open_.find? (·.info.sourceHash = hash) = some s →
    (useEntry hash entry open_).find? (·.info.sourceHash = hash) =
      some { s with used := s.used ++ [entry] } := by
  intro open_
  induction open_ with
  | nil => intro h; cases h
  | cons t rest ih =>
    intro h
    by_cases ht : t.info.sourceHash = hash
    · rw [List.find?_cons_of_pos (by simpa using ht)] at h
      obtain rfl := Option.some.inj h
      rw [useEntry, if_pos ht, List.find?_cons_of_pos (by simpa using ht)]
    · rw [List.find?_cons_of_neg (by simpa using ht)] at h
      rw [useEntry, if_neg ht, List.find?_cons_of_neg (by simpa using ht), ih h]

theorem find?_useEntry_of_ne {hash hash' : UInt32} {entry : IndexEntry} (hne : hash' ≠ hash) :
    ∀ open_ : List OpenShader, (useEntry hash entry open_).find? (·.info.sourceHash = hash') =
      open_.find? (·.info.sourceHash = hash') := by
  intro open_
  induction open_ with
  | nil => rfl
  | cons t rest ih =>
    by_cases ht : t.info.sourceHash = hash
    · have hother : t.info.sourceHash ≠ hash' := fun heq => hne (heq.symm.trans ht)
      rw [useEntry, if_pos ht, List.find?_cons_of_neg (by simpa using hother),
        List.find?_cons_of_neg (by simpa using hother)]
    · rw [useEntry, if_neg ht, List.find?_cons, List.find?_cons, ih]

theorem map_useEntry (hash : UInt32) (entry : IndexEntry) : ∀ open_ : List OpenShader,
    (useEntry hash entry open_).map (·.toShaderEntry) = open_.map (·.toShaderEntry) := by
  intro open_
  induction open_ with
  | nil => rfl
  | cons t rest ih =>
    rw [useEntry]
    split_ifs
    · rfl
    · rw [List.map_cons, List.map_cons, ih]

/-! ### Writers and records -/

/-- The places of the programs, each under its key. -/
def programTable (shaders : List ShaderEntry) (records : List Record) : List (VariantKey × ℕ) :=
  (records.filter (·.owner)).map fun r => (r.variant.programKey shaders, r.programPlace)

/-- The table leads to the first record with a key. -/
theorem lookup_programTable {records : List Record} (h : Sharing shaders records)
    (key : VariantKey) : (programTable shaders records).lookup key =
      (findRecord? shaders records key).map (·.programPlace) := by
  have hkeys : ((programTable shaders records).map (·.1)).Nodup := by
    unfold programTable
    rw [List.map_map]
    exact h.keys
  cases hfind : findRecord? shaders records key with
  | none =>
    refine lookup_eq_none fun hmem => ?_
    obtain ⟨e, he, rfl⟩ := List.mem_map.mp hmem
    obtain ⟨r, hr, rfl⟩ := List.mem_map.mp he
    exact List.find?_eq_none.mp hfind r (List.mem_filter.mp hr).1 (decide_eq_true rfl)
  | some o =>
    obtain ⟨hmem, hkey, howner⟩ := h.owner_of_find hfind
    refine lookup_of_mem hkeys (List.mem_map.mpr ⟨o, List.mem_filter.mpr ⟨hmem, howner⟩, ?_⟩)
    rw [hkey]

/-- A writer whose body consists of the records. -/
structure Placed (shaders : List ShaderEntry) (records : List Record) (w : Writer) : Prop where
  overflow : w.overflow = .refused
  announced : w.shaders.map (·.toShaderEntry) = shaders
  header : w.settled = true → HeaderFits shaders
  sharing : Sharing shaders records
  body : w.body = records.flatMap (·.bytes)
  fits : ∀ r ∈ records, r.Fits
  table : w.programs = programTable shaders records
  /-- The first shader with a checksum has the entries of all records with it. -/
  used : ∀ hash s, w.shaders.find? (·.info.sourceHash = hash) = some s →
    s.used = (records.filter (·.variant.key.sourceHash = hash)).map (·.entry)
  reserved : ∀ hash s, w.shaders.find? (·.info.sourceHash = hash) = some s →
    s.used.length ≤ s.variantCount

namespace Placed

variable {records : List Record} (h : Placed shaders records w)

include h

theorem length_body : w.body.length = bodyEnd records := by
  rw [h.body, length_flatMap_bytes h.fits]

theorem programKey_eq {s : OpenShader}
    (hs : w.shaders.find? (·.info.sourceHash = v.key.sourceHash) = some s) :
    s.info.programKey v.key.optionWord = v.programKey shaders :=
  programKey_of_find h.announced hs

/-- What is appended for a variant is its record. -/
theorem appendVariant_iff (w₁ : Writer) (hoverflow : w₁.overflow = w.overflow)
    (hbody : w₁.body = w.body) (hprograms : w₁.programs = w.programs) :
    w₁.appendVariant v (v.programKey shaders) = (w', .ok ()) ↔
      (nextRecord shaders records v).Fits ∧ w' = { w₁ with
        body := (records ++ [nextRecord shaders records v]).flatMap (·.bytes)
        programs := programTable shaders (records ++ [nextRecord shaders records v]) } := by
  have hbytes : w₁.body = records.flatMap (·.bytes) := hbody.trans h.body
  have htable : w₁.programs = programTable shaders records := hprograms.trans h.table
  rw [Writer.appendVariant_iff]
  -- the writer behind the body of the variant
  obtain ⟨w₂, hw₂⟩ : ∃ w₂, w₂ = { w₁ with body := w₁.body ++ (encode v.body).bytes } := ⟨_, rfl⟩
  have hlookup : w₂.programs.lookup (v.programKey shaders) =
      (findRecord? shaders records (v.programKey shaders)).map (·.programPlace) := by
    rw [hw₂, ← lookup_programTable h.sharing, ← htable]
  have hlength : w₂.body.length = bodyEnd records + (encode v.body).bytes.length := by
    rw [hw₂, List.length_append, hbody, h.length_body]
  rw [← hw₂]
  unfold nextRecord
  cases hfind : findRecord? shaders records (v.programKey shaders) with
  | some o =>
    rw [hfind] at hlookup
    rw [appendPrograms_iff_of_some hlookup, hw₂]
    constructor
    · rintro ⟨hfits, hword, rfl⟩
      refine ⟨⟨hfits, hword, fun hown => absurd hown Bool.false_ne_true⟩, ?_⟩
      simp [programTable, List.filter_append, Record.bytes, hbytes, htable]
    · rintro ⟨hfits, rfl⟩
      refine ⟨hfits.body, hfits.programPlace, ?_⟩
      simp [programTable, List.filter_append, Record.bytes, hbytes, htable]
  | none =>
    rw [hfind] at hlookup
    have hrefused : w₂.overflow = .refused := by rw [hw₂, hoverflow, h.overflow]
    rw [appendPrograms_iff_of_refused hrefused hlookup, hlength, hw₂]
    constructor
    · rintro ⟨hfits, hword, hown, rfl⟩
      refine ⟨⟨hfits, hword, fun _ => hown⟩, ?_⟩
      simp [programTable, List.filter_append, Record.bytes, hbytes, htable]
    · rintro ⟨hfits, rfl⟩
      refine ⟨hfits.body, hfits.programPlace, hfits.programs rfl, ?_⟩
      simp [programTable, List.filter_append, Record.bytes, hbytes, htable]

/-- **When a write succeeds, and everything it does then.** -/
theorem writeVariant_iff : w.writeVariant v = (w', .ok ()) ↔
    HeaderFits shaders ∧ bodyEnd records < Word.limit ∧
    (∃ s, w.shaders.find? (·.info.sourceHash = v.key.sourceHash) = some s ∧
      s.used.length < s.variantCount) ∧
    (nextRecord shaders records v).Fits ∧
    w' = { shaders := useEntry v.key.sourceHash (nextRecord shaders records v).entry w.shaders
           settled := true
           body := (records ++ [nextRecord shaders records v]).flatMap (·.bytes)
           programs := programTable shaders (records ++ [nextRecord shaders records v])
           overflow := w.overflow } := by
  have hentry : (nextRecord shaders records v).entry = ⟨v.key.optionWord, w.body.length⟩ := by
    unfold Record.entry
    rw [nextRecord_variant, nextRecord_place, h.length_body]
  rw [Writer.writeVariant_iff h.announced h.header, hentry, h.length_body]
  refine and_congr_right fun _ => and_congr_right fun _ => ?_
  constructor
  · rintro ⟨s, hs, hcount, happend⟩
    rw [h.programKey_eq hs] at happend
    obtain ⟨hfits, rfl⟩ := (h.appendVariant_iff _ (by rfl) (by rfl) (by rfl)).mp happend
    exact ⟨⟨s, hs, hcount⟩, hfits, rfl⟩
  · rintro ⟨⟨s, hs, hcount⟩, hfits, rfl⟩
    refine ⟨s, hs, hcount, ?_⟩
    rw [h.programKey_eq hs]
    exact (h.appendVariant_iff _ (by rfl) (by rfl) (by rfl)).mpr ⟨hfits, rfl⟩

/-- **A successful write appends a record.** -/
theorem step (hwrite : w.writeVariant v = (w', .ok ())) :
    Placed shaders (records ++ [nextRecord shaders records v]) w' := by
  obtain ⟨hheader, -, ⟨t, ht, hcount⟩, hfits, rfl⟩ := h.writeVariant_iff.mp hwrite
  refine ⟨h.overflow, ?_, fun _ => hheader, h.sharing.next v, rfl, ?_, rfl, ?_, ?_⟩
  · exact (map_useEntry _ _ _).trans h.announced
  · intro r hr
    rcases List.mem_append.mp hr with hr | hr
    · exact h.fits r hr
    · exact List.mem_singleton.mp hr ▸ hfits
  · intro hash s hs
    rw [List.filter_append, List.filter_singleton, nextRecord_variant, List.map_append]
    by_cases heq : v.key.sourceHash = hash
    · subst heq
      obtain rfl := Option.some.inj ((find?_useEntry_self _ ht).symm.trans hs)
      simp [h.used _ t ht]
    · rw [find?_useEntry_of_ne (Ne.symm heq)] at hs
      simp [h.used hash s hs, heq]
  · intro hash s hs
    by_cases heq : v.key.sourceHash = hash
    · subst heq
      obtain rfl := Option.some.inj ((find?_useEntry_self _ ht).symm.trans hs)
      rw [List.length_append, List.length_singleton]
      exact hcount
    · rw [find?_useEntry_of_ne (Ne.symm heq)] at hs
      exact h.reserved hash s hs

/-- **Every record is found at its place**, and its programs at theirs. -/
theorem found {r : Record} (hr : r ∈ records) :
    Found w.body r.place (encode r.variant.body ++ Encoded.word r.programPlace) ∧
      (r.owner = true → Found w.body r.programPlace r.variant.programs) := by
  obtain ⟨front, back, hsplit⟩ := List.append_of_mem hr
  have hfits := h.fits r hr
  have hword : (Encoded.word r.programPlace).fits = true := fits_word_iff.mpr hfits.programPlace
  have hhead : (encode r.variant.body ++ Encoded.word r.programPlace).fits = true := by
    rw [Encoded.fits_append, hfits.body, hword, Bool.and_self]
  have hplace : r.place = (front.flatMap (·.bytes)).length := by
    rw [h.sharing.consecutive front r back hsplit]
    exact (length_flatMap_bytes fun q hq => h.fits q (hsplit ▸ List.mem_append_left _ hq)).symm
  have hbody : w.body = front.flatMap (·.bytes) ++
      (encode r.variant.body ++ Encoded.word r.programPlace).bytes ++
      ((if r.owner then r.variant.programs.bytes else []) ++ back.flatMap (·.bytes)) := by
    rw [h.body, hsplit, List.flatMap_append, List.flatMap_cons, Record.bytes,
      Encoded.bytes_append_of_fits hfits.body]
    simp only [List.append_assoc]
  constructor
  · rw [hbody, hplace]
    exact (Found.atEnd _ hhead).mono (List.prefix_append _ _)
  · intro howner
    have hprograms : r.programPlace = (front.flatMap (·.bytes) ++
        (encode r.variant.body ++ Encoded.word r.programPlace).bytes).length := by
      rw [List.length_append, Encoded.bytes_append_of_fits hfits.body, List.length_append,
        length_word hword, ← hplace, ← Nat.add_assoc]
      exact h.sharing.own r hr howner
    rw [if_pos howner, ← List.append_assoc] at hbody
    have hfound := (Found.atEnd (front.flatMap (·.bytes) ++
      (encode r.variant.body ++ Encoded.word r.programPlace).bytes) (hfits.programs howner)).mono
        (List.prefix_append _ (back.flatMap (·.bytes)))
    rwa [← hbody, ← hprograms] at hfound

theorem headerFits_of_finish {file : List UInt8} (hfinish : w.finish = .ok file) :
    HeaderFits shaders :=
  Writer.headerFits_of_finish h.announced h.header hfinish

/-- The records along the rest of a run. -/
theorem writeAll {variants : List Variant} (hrun : w.writeAll variants = .ok w') :
    Placed shaders (layOut shaders records variants) w' := by
  induction variants generalizing records w with
  | nil =>
    obtain rfl : w = w' := Except.ok.inj hrun
    exact h
  | cons v rest ih =>
    unfold Writer.writeAll at hrun
    split at hrun
    · next w₁ hwrite => exact ih (h.step hwrite) hrun
    · cases hrun

end Placed

theorem placed_addAll {shaders : List ShaderEntry} {w : Writer}
    (hadd : addAll {} shaders = .ok w) : Placed shaders [] w := by
  rw [addAll_eq shaders {} rfl] at hadd
  obtain rfl := Except.ok.inj hadd
  have hunused : ∀ hash s, ((({} : Writer).shaders ++ shaders.map fun s =>
      ({ toShaderEntry := s } : OpenShader)).find? (·.info.sourceHash = hash)) = some s →
      s.used = [] := by
    intro hash s hs
    obtain ⟨t, -, rfl⟩ := List.mem_map.mp (List.mem_of_find?_eq_some hs)
    rfl
  refine ⟨rfl, ?_, ?_, sharing_nil shaders, rfl, ?_, rfl, hunused, ?_⟩
  · simp [Function.comp_def]
  · exact fun h => absurd h Bool.false_ne_true
  · exact fun r hr => absurd hr List.not_mem_nil
  · intro hash s hs
    rw [hunused hash s hs]
    exact Nat.zero_le _

/-- **The body after a run** consists of the records of the variants. -/
theorem placed_run {shaders : List ShaderEntry} {variants : List Variant} {w : Writer}
    (hrun : run shaders variants = .ok w) :
    Placed shaders (layOut shaders [] variants) w := by
  unfold run at hrun
  split at hrun
  · next hadd => exact (placed_addAll hadd).writeAll hrun
  · cases hrun

end Writer

end ShaderVariants
