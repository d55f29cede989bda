import Mathlib
import ShaderVariants.Proofs.Container.Lookup
import ShaderVariants.Proofs.Container.Placement

/-!
# When everything fits into a file

A run of the writer cannot fail if there is an index entry for every variant and the body
stays small enough.  How long the body gets is known beforehand: it grows by every variant and
its reference, and by its programs if no variant with the same program key came before.

## Main definitions

* `WriteError.IsLimit` — something does not fit.
* `FileFits` — every length fits its place, and the body ends below 4 GiB.
* `bodyGrowth` — by how much variants make a body longer.

## Main results

* `Writer.run_ok`, `Writer.run_error` — **a run succeeds if everything fits**, and does not
  fail for another reason.
* `Writer.fits_of_run` — conversely, the variants of a run fit.
* `bodyEnd_layOut` — the end of the body in terms of the growth.
* `Writer.length_finish` — the length of a finished file.
-/

namespace ShaderVariants

/-- Something does not fit into 32 bits, or not into the bits of its place. -/
def WriteError.IsLimit (e : WriteError) : Prop :=
  e = .offsetOverflow ∨ e = .tooLong ∨ e = .word .sumTooLarge

/-- Every length of header and body fits its place, and the body ends below 4 GiB. -/
structure FileFits (shaders : List ShaderEntry) (variants : List Variant) : Prop
    extends HeaderFits shaders where
  bodies : ∀ v ∈ variants, (encode v.body).fits = true
  programs : ∀ v ∈ variants, v.programs.fits = true
  bodyEnd_lt : bodyEnd (layOut shaders [] variants) < Word.limit

/-- Words of stored variants are words. -/
theorem Storable.word_lt_limit {shaders : List ShaderEntry} {variants : List Variant}
    (h : Storable shaders variants) : ∀ v ∈ variants, v.key.optionWord < Word.limit :=
  fun v hv => (h.words v hv).trans (by decide)

section Layout

variable (shaders : List ShaderEntry)

theorem bodyEnd_le_layOut : ∀ (variants : List Variant) (records : List Record),
    bodyEnd records ≤ bodyEnd (layOut shaders records variants) := by
  intro variants
  induction variants with
  | nil => exact fun records => le_rfl
  | cons v rest ih =>
    intro records
    refine le_trans ?_ (ih _)
    rw [bodyEnd_append]
    exact Nat.le_add_right _ _

variable {shaders}

/-- A record fits if the body ends low enough. -/
theorem Sharing.fits_next {records : List Record} (h : Sharing shaders records) {v : Variant}
    (hbody : (encode v.body).fits = true) (hprograms : v.programs.fits = true)
    (hend : bodyEnd (records ++ [nextRecord shaders records v]) < Word.limit) :
    (nextRecord shaders records v).Fits where
  body := by rwa [nextRecord_variant]
  programPlace := ((h.next v).below _ (List.mem_append_right _ List.mem_cons_self)).trans_lt hend
  programs := fun _ => by rwa [nextRecord_variant]

end Layout

namespace Writer

variable {shaders : List ShaderEntry}

/-- The index entries suffice for further variants behind the records. -/
def Reserves (shaders : List ShaderEntry) (records : List Record) (variants : List Variant) :
    Prop :=
  ∀ v ∈ variants, ∃ s, shaders.find? (·.info.sourceHash = v.key.sourceHash) = some s ∧
    (records.filter (·.variant.key.sourceHash = v.key.sourceHash)).length +
      (variants.filter (·.key.sourceHash = v.key.sourceHash)).length ≤ s.variantCount

theorem Reserves.next {records : List Record} {v : Variant} {rest : List Variant}
    (h : Reserves shaders records (v :: rest)) :
    Reserves shaders (records ++ [nextRecord shaders records v]) rest := by
  intro u hu
  obtain ⟨s, hs, hcount⟩ := h u (List.mem_cons_of_mem v hu)
  refine ⟨s, hs, le_of_eq_of_le ?_ hcount⟩
  by_cases heq : v.key.sourceHash = u.key.sourceHash
  · simp [List.filter_append, heq]
    omega
  · simp [List.filter_append, heq]

/-- The first shader with the checksum of the next variant has an entry left. -/
theorem Placed.exists_entry_left {records : List Record} {w : Writer} {v : Variant}
    {rest : List Variant} (h : Placed shaders records w)
    (hreserves : Reserves shaders records (v :: rest)) :
    ∃ s, w.shaders.find? (·.info.sourceHash = v.key.sourceHash) = some s ∧
      s.used.length < s.variantCount := by
  obtain ⟨s, hs, hcount⟩ := hreserves v List.mem_cons_self
  rw [← h.announced, List.find?_map] at hs
  obtain ⟨t, ht, rfl⟩ := Option.map_eq_some_iff.mp hs
  refine ⟨t, ht, ?_⟩
  rw [List.filter_cons_of_pos (by simp), List.length_cons] at hcount
  rw [h.used _ t ht, List.length_map]
  omega

/-- The rest of a run succeeds if everything fits. -/
theorem Placed.writeAll_ok : ∀ (variants : List Variant) (records : List Record) (w : Writer),
    Placed shaders records w → HeaderFits shaders →
    (∀ v ∈ variants, (encode v.body).fits = true ∧ v.programs.fits = true) →
    bodyEnd (layOut shaders records variants) < Word.limit →
    Reserves shaders records variants → ∃ w', w.writeAll variants = .ok w' := by
  intro variants
  induction variants with
  | nil => exact fun _ w _ _ _ _ _ => ⟨w, rfl⟩
  | cons v rest ih =>
    intro records w h hheader hfits hend hreserves
    obtain ⟨hbody, hprograms⟩ := hfits v List.mem_cons_self
    have hnext : bodyEnd (records ++ [nextRecord shaders records v]) < Word.limit :=
      (bodyEnd_le_layOut shaders rest _).trans_lt hend
    have hbegin : bodyEnd records < Word.limit :=
      (bodyEnd_le_layOut shaders (v :: rest) records).trans_lt hend
    have hwrite := h.writeVariant_iff.mpr ⟨hheader, hbegin, h.exists_entry_left hreserves,
      h.sharing.fits_next hbody hprograms hnext, rfl⟩
    obtain ⟨w', hw'⟩ := ih _ _ (h.step hwrite) hheader
      (fun u hu => hfits u (List.mem_cons_of_mem v hu)) hend hreserves.next
    exact ⟨w', by rw [Writer.writeAll, hwrite]; exact hw'⟩

/-- **A run succeeds if everything fits** and there is an entry for every variant. -/
theorem run_ok {variants : List Variant} (h : FileFits shaders variants)
    (hreserves : Reserves shaders [] variants) : ∃ w, run shaders variants = .ok w := by
  have hadd := addAll_eq shaders {} rfl
  obtain ⟨w, hw⟩ := (placed_addAll hadd).writeAll_ok variants [] _ h.toHeaderFits
    (fun v hv => ⟨h.bodies v hv, h.programs v hv⟩) h.bodyEnd_lt hreserves
  refine ⟨w, ?_⟩
  unfold run
  rw [hadd]
  exact hw

/-- Conversely, a run never uses more entries of a checksum than its first shader has. -/
theorem length_filter_le_of_run {variants : List Variant} {w : Writer}
    (hrun : run shaders variants = .ok w) {hash : UInt32} {s : ShaderEntry}
    (hs : shaders.find? (·.info.sourceHash = hash) = some s) :
    (variants.filter (·.key.sourceHash = hash)).length ≤ s.variantCount := by
  have h := placed_run hrun
  rw [← h.announced, List.find?_map] at hs
  obtain ⟨t, ht, rfl⟩ := Option.map_eq_some_iff.mp hs
  have hreserved := h.reserved hash t ht
  rw [h.used hash t ht, List.length_map] at hreserved
  rw [← map_variant_body shaders variants, List.filter_map, List.length_map]
  exact hreserved

/-- The variants of a run fit, and their programs as well if these are shared. -/
theorem fits_of_run {variants : List Variant} {w : Writer} (hst : Storable shaders variants)
    (hrun : run shaders variants = .ok w) {v : Variant} (hv : v ∈ variants) :
    (encode v.body).fits = true ∧ v.programs.fits = true := by
  have hplaced := placed_run hrun
  have hknown := (wrote_run hst.hashes hrun).known
  have hvariants := map_variant_body shaders variants
  -- the programs are those of the first record with the program key
  rw [← hvariants] at hv
  obtain ⟨r, hr, rfl⟩ := List.mem_map.mp hv
  obtain ⟨o, ho, howner, -⟩ := hplaced.sharing.first r hr
  obtain ⟨hmem, hkey, -⟩ := hplaced.sharing.owner_of_find ho
  have hmem' : ∀ q ∈ layOut shaders [] variants, q.variant ∈ variants := by
    intro q hq
    have h : q.variant ∈ (layOut shaders [] variants).map (·.variant) := List.mem_map_of_mem hq
    rwa [hvariants] at h
  have hhas : ∀ q ∈ layOut shaders [] variants,
      HasProgramKey shaders q.variant (q.variant.programKey shaders) := by
    intro q hq
    obtain ⟨t, ht, hhash⟩ := hknown _ (hmem' q hq)
    refine Variant.hasProgramKey ⟨t.toShaderEntry, ?_, hhash⟩
    rw [← hplaced.announced]
    exact List.mem_map_of_mem ht
  obtain ⟨hvertex, hfragment⟩ := hst.programs _ (hmem' r hr) _ (hmem' o hmem)
    ⟨_, hhas r hr, hkey ▸ hhas o hmem⟩
  have hprograms : r.variant.programs = o.variant.programs := by
    unfold Variant.programs
    rw [hvertex, hfragment]
  exact ⟨(hplaced.fits r hr).body, hprograms ▸ (hplaced.fits o hmem).programs howner⟩

/-! ### Why a run fails -/

theorem settle_error {w : Writer} {e : WriteError} (h : w.settle = .error e) : e.IsLimit := by
  unfold settle at h
  split_ifs at h
  · exact .inl (Except.error.inj h).symm
  · exact .inr (.inl (Except.error.inj h).symm)

theorem finish_error {w : Writer} {e : WriteError} (h : w.finish = .error e) : e.IsLimit := by
  unfold finish at h
  cases hsettle : w.settle with
  | error e' =>
    rw [hsettle] at h
    obtain rfl := Except.error.inj h
    exact settle_error hsettle
  | ok w' =>
    rw [hsettle] at h
    cases h

theorem append_error {w w' : Writer} {x : Encoded} {e : WriteError}
    (h : w.append x = (w', .error e)) : e.IsLimit := by
  unfold append at h
  obtain ⟨-, herror⟩ := Prod.mk.inj h
  split_ifs at herror
  exact .inr (.inl (Except.error.inj herror).symm)

theorem appendVariant_error {w w' : Writer} {v : Variant} {key : VariantKey} {e : WriteError}
    (h : w.appendVariant v key = (w', .error e)) : e.IsLimit := by
  unfold appendVariant at h
  split at h
  · unfold appendPrograms at h
    split at h
    · exact append_error h
    · split_ifs at h
      · exact .inl (Except.error.inj (Prod.mk.inj h).2).symm
      · split at h
        · next e' hplace =>
          obtain rfl := Overflow.eq_of_below_error hplace
          exact .inr (.inr (Except.error.inj (Prod.mk.inj h).2).symm)
        · exact append_error h
  · next happend =>
    obtain ⟨-, herror⟩ := Prod.mk.inj h
    obtain rfl := Except.error.inj herror
    exact append_error happend

/-- A variant of a shader with entries left is refused only if something does not fit. -/
theorem writeVariant_error {w w' : Writer} {v : Variant} {e : WriteError} {s : OpenShader}
    (hs : w.shaders.find? (·.info.sourceHash = v.key.sourceHash) = some s)
    (hused : s.used.length < s.variantCount) (h : w.writeVariant v = (w', .error e)) :
    e.IsLimit := by
  unfold writeVariant at h
  split at h
  · next hsettle =>
    obtain ⟨-, herror⟩ := Prod.mk.inj h
    obtain rfl := Except.error.inj herror
    exact settle_error hsettle
  · next w₁ hsettle =>
    obtain rfl := settle_ok hsettle
    dsimp only at h
    rw [hs] at h
    dsimp only at h
    rw [if_neg (not_le.mpr hused)] at h
    split_ifs at h
    · exact .inl (Except.error.inj (Prod.mk.inj h).2).symm
    · exact appendVariant_error h

/-- A run with an entry for every variant fails only if something does not fit. -/
theorem Placed.writeAll_error : ∀ (variants : List Variant) (records : List Record) (w : Writer),
    Placed shaders records w → Reserves shaders records variants →
    ∀ e, w.writeAll variants = .error e → e.IsLimit := by
  intro variants
  induction variants with
  | nil => exact fun _ _ _ _ _ h => nomatch h
  | cons v rest ih =>
    intro records w h hreserves e herror
    obtain ⟨s, hs, hused⟩ := h.exists_entry_left hreserves
    unfold Writer.writeAll at herror
    split at herror
    · next hwrite => exact ih _ _ (h.step hwrite) hreserves.next e herror
    · next hwrite =>
      obtain rfl := Except.error.inj herror
      exact writeVariant_error hs hused hwrite

/-- **A run with an entry for every variant** fails only if something does not fit. -/
theorem run_error {variants : List Variant} (hreserves : Reserves shaders [] variants)
    {e : WriteError} (h : run shaders variants = .error e) : e.IsLimit := by
  have hadd := addAll_eq shaders {} rfl
  unfold run at h
  rw [hadd] at h
  exact (placed_addAll hadd).writeAll_error variants [] _ hreserves e h

end Writer

/-! ### The length of a body -/

/-- By how much variants make a body longer that holds the programs of some keys. -/
def bodyGrowth (shaders : List ShaderEntry) : List VariantKey → List Variant → ℕ
  | _, [] => 0
  | stored, v :: rest =>
    (encode v.body).bytes.length + 4 +
      (if v.programKey shaders ∈ stored then 0 else v.programs.bytes.length) +
      bodyGrowth shaders (v.programKey shaders :: stored) rest

section Growth

variable {shaders : List ShaderEntry}

theorem size_nextRecord (records : List Record) (v : Variant) :
    (nextRecord shaders records v).size = (encode v.body).bytes.length + 4 +
      if v.programKey shaders ∈ records.map (·.variant.programKey shaders) then 0
      else v.programs.bytes.length := by
  unfold nextRecord Record.size
  cases hfind : findRecord? shaders records (v.programKey shaders) with
  | some r =>
    have hmem : v.programKey shaders ∈ records.map (·.variant.programKey shaders) :=
      List.mem_map.mpr ⟨r, List.mem_of_find?_eq_some hfind, by simpa using List.find?_some hfind⟩
    rw [if_pos hmem]
    rfl
  | none =>
    have hmem : v.programKey shaders ∉ records.map (·.variant.programKey shaders) := by
      intro hmem
      obtain ⟨r, hr, hkey⟩ := List.mem_map.mp hmem
      exact List.find?_eq_none.mp hfind r hr (decide_eq_true hkey)
    rw [if_neg hmem]
    rfl

/-- Only the keys of the variants themselves matter, and whether these are stored. -/
theorem bodyGrowth_congr {shaders' : List ShaderEntry} : ∀ (variants : List Variant)
    (stored stored' : List VariantKey),
    (∀ v ∈ variants, v.programKey shaders = v.programKey shaders' ∧
      (v.programKey shaders ∈ stored ↔ v.programKey shaders ∈ stored')) →
    bodyGrowth shaders stored variants = bodyGrowth shaders' stored' variants := by
  intro variants
  induction variants with
  | nil => exact fun _ _ _ => rfl
  | cons v rest ih =>
    intro stored stored' h
    obtain ⟨hkey, hstored⟩ := h v List.mem_cons_self
    have hrest := ih (v.programKey shaders :: stored) (v.programKey shaders :: stored') ?_
    · simp only [bodyGrowth, ← hkey, hstored, hrest]
    · intro u hu
      obtain ⟨hukey, hustored⟩ := h u (List.mem_cons_of_mem v hu)
      exact ⟨hukey, by rw [List.mem_cons, List.mem_cons, hustored]⟩

theorem bodyGrowth_append : ∀ (vs us : List Variant) (stored : List VariantKey),
    bodyGrowth shaders stored (vs ++ us) = bodyGrowth shaders stored vs +
      bodyGrowth shaders ((vs.map (·.programKey shaders)).reverse ++ stored) us := by
  intro vs
  induction vs with
  | nil => exact fun us stored => (Nat.zero_add _).symm
  | cons v rest ih =>
    intro us stored
    simp only [List.cons_append, bodyGrowth, ih, List.map_cons, List.reverse_cons,
      List.append_assoc, List.cons_append, List.nil_append, Nat.add_assoc]

/-- **Where the body ends behind further variants.** -/
theorem bodyEnd_layOut : ∀ (variants : List Variant) (records : List Record),
    bodyEnd (layOut shaders records variants) = bodyEnd records +
      bodyGrowth shaders (records.map (·.variant.programKey shaders)) variants := by
  intro variants
  induction variants with
  | nil => exact fun records => rfl
  | cons v rest ih =>
    intro records
    have hgrowth : bodyGrowth shaders ((records ++ [nextRecord shaders records v]).map
        (·.variant.programKey shaders)) rest =
        bodyGrowth shaders (v.programKey shaders ::
          records.map (·.variant.programKey shaders)) rest := by
      refine bodyGrowth_congr rest _ _ fun u _ => ⟨rfl, ?_⟩
      rw [List.map_append, List.map_singleton, nextRecord_variant, List.mem_append,
        List.mem_singleton, List.mem_cons, or_comm]
    rw [layOut, ih, hgrowth, bodyEnd_append, bodyEnd_singleton, size_nextRecord, bodyGrowth]
    omega

/-- Variants of different shaders have no programs in common. -/
theorem bodyGrowth_flatMap {α : Type} {f : α → List Variant} {g : α → List ShaderEntry}
    {hash : α → UInt32} : ∀ (as : List α) (stored : List VariantKey), (as.map hash).Nodup →
    (∀ a ∈ as, ∀ v ∈ f a, v.key.sourceHash = hash a ∧
      v.programKey shaders = v.programKey (g a)) →
    (∀ a ∈ as, ∀ key ∈ stored, key.sourceHash ≠ hash a) →
    bodyGrowth shaders stored (as.flatMap f) =
      (as.map fun a => bodyGrowth (g a) [] (f a)).sum := by
  intro as
  induction as with
  | nil => exact fun _ _ _ _ => rfl
  | cons a rest ih =>
    intro stored hnodup hkeys hstored
    obtain ⟨hhead, htail⟩ := List.nodup_cons.mp hnodup
    have hown : bodyGrowth shaders stored (f a) = bodyGrowth (g a) [] (f a) := by
      refine bodyGrowth_congr _ _ _ fun v hv => ?_
      obtain ⟨hhash, hkey⟩ := hkeys a List.mem_cons_self v hv
      refine ⟨hkey, iff_of_false (fun hmem => ?_) List.not_mem_nil⟩
      exact hstored a List.mem_cons_self _ hmem hhash
    rw [List.flatMap_cons, bodyGrowth_append, hown, List.map_cons, List.sum_cons,
      ih _ htail fun b hb => hkeys b (List.mem_cons_of_mem a hb)]
    intro b hb key hmem heq
    rcases List.mem_append.mp hmem with hmem | hmem
    · obtain ⟨v, hv, rfl⟩ := List.mem_map.mp (List.mem_reverse.mp hmem)
      have hhash := (hkeys a List.mem_cons_self v hv).1
      exact hhead (List.mem_map.mpr ⟨b, hb, heq.symm.trans hhash⟩)
    · exact hstored b (List.mem_cons_of_mem a hb) key hmem heq

end Growth

/-! ### The length of a file -/

theorem length_concat {α : Type} {item : α → Encoded} : ∀ xs : List α,
    (∀ x ∈ xs, (item x).fits = true) →
    (Encoded.concat item xs).bytes.length = (xs.map fun x => (item x).bytes.length).sum := by
  intro xs
  induction xs with
  | nil => exact fun _ => rfl
  | cons x rest ih =>
    intro h
    rw [Encoded.concat, Encoded.bytes_append_of_fits (h x List.mem_cons_self),
      List.length_append, ih fun y hy => h y (List.mem_cons_of_mem x hy), List.map_cons,
      List.sum_cons]

/-- An entry takes two words. -/
theorem IndexEntry.length_encode {e : IndexEntry} (hword : e.optionWord < Word.limit)
    (hplace : e.offset < Word.limit) :
    (encode e).fits = true ∧ (encode e).bytes.length = 8 := by
  have hfits := fits_word_iff.mpr hword
  have hfits' := fits_word_iff.mpr hplace
  change (Encoded.word e.optionWord ++ Encoded.word e.offset).fits = true ∧
    (Encoded.word e.optionWord ++ Encoded.word e.offset).bytes.length = 8
  rw [Encoded.fits_append, hfits, hfits', Encoded.bytes_append_of_fits hfits,
    List.length_append, length_word hfits, length_word hfits']
  exact ⟨rfl, rfl⟩

/-- The bytes of a shader in header and index. -/
def ShaderEntry.size (s : ShaderEntry) : ℕ := (encode s).bytes.length + 8 * s.variantCount

theorem sum_size_shaders : ∀ shaders : List ShaderEntry,
    (shaders.map (·.size)).sum =
      (shaders.map fun s => (encode s).bytes.length).sum + 8 * ShaderEntry.entryCount shaders := by
  intro shaders
  induction shaders with
  | nil => rfl
  | cons s rest ih =>
    rw [List.map_cons, List.sum_cons, List.map_cons, List.sum_cons, ih, ShaderEntry.size,
      ShaderEntry.entryCount]
    omega

namespace Writer

variable {shaders : List ShaderEntry} {variants : List Variant} {w : Writer}

theorem length_header (h : HeaderFits (w.shaders.map (·.toShaderEntry))) :
    w.header.bytes.length =
      16 + ((w.shaders.map (·.toShaderEntry)).map fun s => (encode s).bytes.length).sum := by
  have hcount := fits_word_iff.mpr h.entryCount_lt
  have hlength : (Encoded.word w.shaders.length).fits = true :=
    fits_word_iff.mpr (by simpa using h.length_lt)
  have hmagic : (Encoded.word magicNumber).fits = true := rfl
  have hversion : (Encoded.word formatVersion).fits = true := rfl
  unfold header
  simp only [Encoded.append_assoc]
  rw [Encoded.bytes_append_of_fits hmagic, Encoded.bytes_append_of_fits hversion,
    Encoded.bytes_append_of_fits hlength, entryCount, Encoded.bytes_append_of_fits hcount]
  simp only [List.length_append, length_word hmagic, length_word hversion, length_word hlength,
    length_word hcount, length_concat _ h.fits]
  omega

/-- **The length of a finished file**: header and index, then the body. -/
theorem length_finish (hhashes : (shaders.map (·.info.sourceHash)).Nodup)
    (hwords : ∀ v ∈ variants, v.key.optionWord < Word.limit)
    (hrun : run shaders variants = .ok w) {bytes : List UInt8} (hfinish : w.finish = .ok bytes) :
    bytes.length = 16 + (shaders.map (·.size)).sum + bodyGrowth shaders [] variants := by
  have hplaced := placed_run hrun
  have hwrote := wrote_run hhashes hrun
  have hheader : HeaderFits shaders := hplaced.headerFits_of_finish hfinish
  rw [← hplaced.announced] at hheader
  have hentries : ∀ e ∈ w.shaders.flatMap (·.entries),
      (encode e).fits = true ∧ (encode e).bytes.length = 8 := by
    intro e he
    obtain ⟨s, hs, he⟩ := List.mem_flatMap.mp he
    rcases OpenShader.mem_entries he with hused | rfl
    · obtain ⟨v, hv, -, hstands⟩ := hwrote.exists_variant hs hused
      exact IndexEntry.length_encode (hstands.word ▸ hwords v hv) hstands.place
    · exact IndexEntry.length_encode (by decide) (by decide)
  have hindex : (Encoded.concat encode (w.shaders.flatMap (·.entries))).bytes.length =
      8 * ShaderEntry.entryCount shaders := by
    rw [length_concat _ fun e he => (hentries e he).1,
      List.map_congr_left fun e he => (hentries e he).2, List.map_const', List.sum_replicate,
      smul_eq_mul, length_flatMap_entries w.shaders hwrote.reserved, hplaced.announced,
      Nat.mul_comm]
  have hbody : w.body.length = bodyGrowth shaders [] variants := by
    rw [hplaced.length_body, bodyEnd_layOut]
    exact Nat.zero_add _
  unfold finish at hfinish
  rw [settle_eq hheader] at hfinish
  obtain rfl := Except.ok.inj hfinish
  change (w.header.bytes ++ _ ++ w.body).length = _
  rw [List.length_append, List.length_append, length_header hheader, hindex, hbody,
    hplaced.announced, sum_size_shaders]
  omega

end Writer

end ShaderVariants
