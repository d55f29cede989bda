import Mathlib
import ShaderVariants.Container.Writer
import ShaderVariants.Proofs.Binary.Records
import ShaderVariants.Proofs.Keyed

/-!
# What a writer has written

A run of the writer announces shaders and then writes variants in any order.  Whatever
the order, the index entries of each shader stand for the variants written to it, one by
one, and each of them leads to the stored form of its variant.

The programs of a variant are those of the first variant with the same program key, which
is the only one whose programs are stored.

## Main definitions

* `Writer.run` — shaders announced and variants written one after the other.
* `Found` — stored bytes at a place of the body.
* `StoredAt` — a variant at a place of the body.
* `Writer.Wrote` — what holds of a writer after a run, in a build with overflow checks.

## Main results

* `Writer.writeVariant_ok` — everything a successful write does.
* `Writer.Wrote.step`, `Writer.wrote_run` — the invariant, for one write and for a run.
-/

namespace ShaderVariants

/-! ### Places of the body -/

/-- The encoded value lies in the bytes from the place on. -/
def Found (bytes : List UInt8) (place : ℕ) (e : Encoded) : Prop :=
  e.fits = true ∧ e.bytes <+: bytes.drop place

namespace Found

variable {bytes bytes' : List UInt8} {place : ℕ} {e : Encoded}

/-- What is appended later does not change what was found. -/
theorem mono (h : Found bytes place e) (hbytes : bytes <+: bytes') : Found bytes' place e :=
  ⟨h.1, h.2.trans (hbytes.drop place)⟩

/-- What is appended is found where the bytes ended before. -/
theorem atEnd (bytes : List UInt8) (h : e.fits = true) :
    Found (bytes ++ e.bytes) bytes.length e := by
  refine ⟨h, ?_⟩
  rw [List.drop_left]

/-- What was found is read from its place. -/
theorem exists_read {α : Type} {d : Decoder α} {a : α} (h : Found bytes place e)
    (hreads : d.Reads e a) : ∃ rest, d (bytes.drop place) = .ok (a, rest) := by
  obtain ⟨rest, hrest⟩ := h.2
  refine ⟨rest, ?_⟩
  rw [← hrest]
  exact hreads h.1 rest

end Found

theorem length_word {n : ℕ} (h : (Encoded.word n).fits = true) :
    (Encoded.word n).bytes.length = 4 := by
  unfold Encoded.word at h ⊢
  split_ifs at h ⊢
  · rfl
  · cases h

/-! ### Variants of the body -/

theorem VariantKey.eq_of_halves {k k' : VariantKey} (hhash : k.sourceHash = k'.sourceHash)
    (hword : k.optionWord = k'.optionWord) : k = k' := by
  cases k
  cases k'
  cases hhash
  cases hword
  rfl

/-- The programs of a variant as they are stored. -/
def Variant.programs (v : Variant) : Encoded :=
  Encoded.blob v.vertexProgram ++ Encoded.blob v.fragmentProgram

/-- A variant that is appended is found where the body has ended, with its reference. -/
theorem Variant.found_head {body more : List UInt8} {v : Variant} {p : ℕ}
    (hbody : (encode v.body).fits = true) (hword : (Encoded.word p).fits = true) :
    Found (body ++ (encode v.body).bytes ++ (Encoded.word p).bytes ++ more) body.length
      (encode v.body ++ Encoded.word p) := by
  have hfits : (encode v.body ++ Encoded.word p).fits = true := by
    rw [Encoded.fits_append, hbody, hword, Bool.and_self]
  have hend := (Found.atEnd body hfits).mono (List.prefix_append _ more)
  rwa [Encoded.bytes_append_of_fits hbody, ← List.append_assoc] at hend

/-- Programs that follow the reference to them are found behind it. -/
theorem Variant.found_programs {body : List UInt8} {v : Variant}
    (hword : (Encoded.word (body.length + 4)).fits = true) (hfits : v.programs.fits = true) :
    Found (body ++ (Encoded.word (body.length + 4)).bytes ++ v.programs.bytes) (body.length + 4)
      v.programs := by
  have hend := Found.atEnd (body ++ (Encoded.word (body.length + 4)).bytes) hfits
  rwa [List.length_append, length_word hword] at hend

/-- The variant belongs to a shader that gives it the program key. -/
def HasProgramKey (shaders : List ShaderEntry) (v : Variant) (key : VariantKey) : Prop :=
  ∃ s ∈ shaders, s.info.sourceHash = v.key.sourceHash ∧
    s.info.programKey v.key.optionWord = key

/-- The two variants belong to one shader, under which they have the same program key. -/
def SameProgramKey (shaders : List ShaderEntry) (v u : Variant) : Prop :=
  ∃ key, HasProgramKey shaders v key ∧ HasProgramKey shaders u key

theorem SameProgramKey.sourceHash_eq {shaders : List ShaderEntry} {v u : Variant}
    (h : SameProgramKey shaders v u) : v.key.sourceHash = u.key.sourceHash := by
  obtain ⟨key, ⟨s, -, hv, hkey⟩, ⟨t, -, hu, hkey'⟩⟩ := h
  rw [← hv, ← hu]
  exact congrArg VariantKey.sourceHash (hkey.trans hkey'.symm)

/-- The variant lies at the place, and refers to the programs of a written variant with the
same program key. -/
def StoredAt (shaders : List ShaderEntry) (written : List Variant) (body : List UInt8)
    (v : Variant) (place : ℕ) : Prop :=
  ∃ u ∈ written, SameProgramKey shaders v u ∧
    ∃ p, Found body place (encode v.body ++ Encoded.word p) ∧ Found body p u.programs

theorem StoredAt.mono {shaders : List ShaderEntry} {written written' : List Variant}
    {body body' : List UInt8} {v : Variant} {place : ℕ}
    (h : StoredAt shaders written body v place) (hwritten : written ⊆ written')
    (hbody : body <+: body') : StoredAt shaders written' body' v place := by
  obtain ⟨u, hu, hkey, p, hfound, hprograms⟩ := h
  exact ⟨u, hwritten hu, hkey, p, hfound.mono hbody, hprograms.mono hbody⟩

namespace Writer

/-! ### Runs -/

/-- Announces the shaders in order. -/
def addAll (w : Writer) : List ShaderEntry → Except WriteError Writer
  | [] => .ok w
  | s :: rest =>
    match w.addShader s with
    | .ok w => w.addAll rest
    | .error e => .error e

/-- Writes the variants in order, each of which has to be written. -/
def writeAll (w : Writer) : List Variant → Except WriteError Writer
  | [] => .ok w
  | v :: rest =>
    match w.writeVariant v with
    | (w, .ok ()) => w.writeAll rest
    | (_, .error e) => .error e

/-- A new writer to which the shaders were announced and the variants written. -/
def run (shaders : List ShaderEntry) (variants : List Variant) : Except WriteError Writer :=
  match addAll {} shaders with
  | .ok w => w.writeAll variants
  | .error e => .error e

/-- Before the first variant any shader can be announced. -/
theorem addAll_eq : ∀ (shaders : List ShaderEntry) (w : Writer), w.settled = false →
    w.addAll shaders =
      .ok { w with shaders := w.shaders ++ shaders.map fun s => { toShaderEntry := s } } := by
  intro shaders
  induction shaders with
  | nil => intro w _; simp [addAll]
  | cons s rest ih =>
    intro w hw
    have hadd : w.addShader s =
        .ok { w with shaders := w.shaders ++ [{ toShaderEntry := s }] } := by
      simp [addShader, hw]
    simp only [addAll, hadd]
    rw [ih { w with shaders := w.shaders ++ [{ toShaderEntry := s }] } hw]
    simp

/-! ### One write -/

variable {w w' : Writer} {v : Variant}

theorem settle_ok (h : w.settle = .ok w') : w' = { w with settled := true } := by
  unfold settle at h
  split_ifs at h with hsettled
  · cases h
    rw [← hsettled]
  · exact (Except.ok.inj h).symm

/-- What follows the body of a variant in the file: a reference to its programs, and the
programs unless they are stored already. -/
inductive Refers (o : Overflow) (table : List (VariantKey × ℕ)) (start : ℕ) (v : Variant)
    (key : VariantKey) (p : ℕ) : List UInt8 → List (VariantKey × ℕ) → Prop where
  /-- The programs were written with an earlier variant. -/
  | shared : table.lookup key = some p → Refers o table start v key p [] table
  /-- The programs follow their reference. -/
  | own : table.lookup key = none → start < Word.limit →
    o.below Word.limit .sumTooLarge (start + 4) = .ok p → v.programs.fits = true →
    Refers o table start v key p v.programs.bytes (table ++ [(key, p)])

theorem Refers.mem_table {o : Overflow} {table table' : List (VariantKey × ℕ)} {start p : ℕ}
    {key : VariantKey} {more : List UInt8} (h : Refers o table start v key p more table') :
    (key, p) ∈ table' := by
  cases h with
  | shared hp => exact mem_of_lookup hp
  | own => exact List.mem_append_right _ List.mem_cons_self

theorem append_ok {e : Encoded} (h : w.append e = (w', .ok ())) :
    e.fits = true ∧ w' = { w with body := w.body ++ e.bytes } := by
  unfold append at h
  obtain ⟨hw, hfits⟩ := Prod.mk.inj h
  split_ifs at hfits with he
  exact ⟨he, hw.symm⟩

theorem appendPrograms_ok {key : VariantKey} (h : w.appendPrograms v key = (w', .ok ())) :
    ∃ p more table, (Encoded.word p).fits = true ∧
      Refers w.overflow w.programs w.body.length v key p more table ∧
      w' = { w with body := w.body ++ (Encoded.word p).bytes ++ more, programs := table } := by
  unfold appendPrograms at h
  split at h
  · next p hp =>
    obtain ⟨hfits, rfl⟩ := append_ok h
    exact ⟨p, [], w.programs, hfits, .shared hp, by simp⟩
  · next hnone =>
    by_cases hfull : Word.limit ≤ w.body.length
    · rw [if_pos hfull] at h
      cases h
    rw [if_neg hfull] at h
    split at h
    · cases h
    · next p hplace =>
      obtain ⟨hfits, rfl⟩ := append_ok h
      rw [Encoded.append_assoc] at hfits ⊢
      obtain ⟨hword, hprograms⟩ := Bool.and_eq_true_iff.mp (Encoded.fits_append _ _ ▸ hfits)
      refine ⟨p, v.programs.bytes, _, hword, .own hnone (not_le.mp hfull) hplace hprograms, ?_⟩
      rw [Encoded.bytes_append_of_fits hword, List.append_assoc]
      rfl

/-- **Everything a successful write does.**  The index entry of the variant is its option
word with the end of the body so far; the body of the variant comes there, then the
reference to its programs. -/
theorem writeVariant_ok (h : w.writeVariant v = (w', .ok ())) :
    ∃ s, w.shaders.find? (·.info.sourceHash = v.key.sourceHash) = some s ∧
      s.used.length < s.variantCount ∧ w.body.length < Word.limit ∧
      (encode v.body).fits = true ∧ ∃ p more table, (Encoded.word p).fits = true ∧
        Refers w.overflow w.programs (w.body ++ (encode v.body).bytes).length v
          (s.info.programKey v.key.optionWord) p more table ∧
        w' = { shaders := useEntry v.key.sourceHash ⟨v.key.optionWord, w.body.length⟩ w.shaders
               settled := true
               body := w.body ++ (encode v.body).bytes ++ (Encoded.word p).bytes ++ more
               programs := table
               overflow := w.overflow } := by
  unfold writeVariant at h
  split at h
  · cases h
  · next w₁ hsettle =>
    obtain rfl := settle_ok hsettle
    dsimp only at h
    split at h
    · cases h
    · next s hs =>
      -- a shader or a body that is full is refused before anything is written
      by_cases hcount : s.variantCount ≤ s.used.length
      · rw [if_pos hcount] at h
        cases h
      rw [if_neg hcount] at h
      by_cases hfull : Word.limit ≤ w.body.length
      · rw [if_pos hfull] at h
        cases h
      rw [if_neg hfull] at h
      refine ⟨s, hs, not_le.mp hcount, not_le.mp hfull, ?_⟩
      unfold appendVariant at h
      split at h
      · next w₂ happend =>
        obtain ⟨hbody, rfl⟩ := append_ok happend
        obtain ⟨p, more, table, hword, hrefers, rfl⟩ := appendPrograms_ok h
        exact ⟨hbody, p, more, table, hword, hrefers, rfl⟩
      · cases h

/-! ### Entries in use -/

/-- If checksums are distinct, exactly the shaders with the checksum take the entry. -/
theorem useEntry_eq_map (hash : UInt32) (entry : IndexEntry) : ∀ shaders : List OpenShader,
    (shaders.map (·.info.sourceHash)).Nodup →
    useEntry hash entry shaders = shaders.map fun s =>
      if s.info.sourceHash = hash then { s with used := s.used ++ [entry] } else s := by
  intro shaders
  induction shaders with
  | nil => exact fun _ => rfl
  | cons s rest ih =>
    intro hnodup
    obtain ⟨hhead, htail⟩ := List.nodup_cons.mp hnodup
    by_cases hs : s.info.sourceHash = hash
    · -- the search stops here, and no later shader has the checksum
      have hrest : ∀ t ∈ rest, t.info.sourceHash ≠ hash := fun t ht heq =>
        hhead (List.mem_map.mpr ⟨t, ht, heq.trans hs.symm⟩)
      have hmap : (rest.map fun t =>
          if t.info.sourceHash = hash then { t with used := t.used ++ [entry] } else t) = rest := by
        conv_rhs => rw [← List.map_id rest]
        exact List.map_congr_left fun t ht => if_neg (hrest t ht)
      rw [useEntry, if_pos hs, List.map_cons, if_pos hs, hmap]
    · rw [useEntry, if_neg hs, List.map_cons, if_neg hs, ih htail]

theorem length_used_useEntry (hash : UInt32) (entry : IndexEntry) (s : OpenShader) :
    ∀ shaders : List OpenShader, shaders.find? (·.info.sourceHash = hash) = some s →
    ((useEntry hash entry shaders).flatMap (·.used)).length =
      (shaders.flatMap (·.used)).length + 1 := by
  intro shaders
  induction shaders with
  | nil => intro h; cases h
  | cons t rest ih =>
    intro h
    by_cases ht : t.info.sourceHash = hash
    · rw [useEntry, if_pos ht]
      simp only [List.flatMap_cons, List.length_append, List.length_singleton]
      omega
    · rw [List.find?_cons_of_neg (by simpa using ht)] at h
      rw [useEntry, if_neg ht]
      simp only [List.flatMap_cons, List.length_append, ih h]
      omega

end Writer

/-! ### The invariant -/

/-- The index entry leads to the variant. -/
structure IndexEntry.StandsFor (shaders : List ShaderEntry) (written : List Variant)
    (body : List UInt8) (e : IndexEntry) (v : Variant) : Prop where
  word : e.optionWord = v.key.optionWord
  place : e.offset < Word.limit
  stored : StoredAt shaders written body v e.offset

theorem IndexEntry.StandsFor.mono {shaders : List ShaderEntry} {written written' : List Variant}
    {body body' : List UInt8} {e : IndexEntry} {v : Variant}
    (h : e.StandsFor shaders written body v) (hwritten : written ⊆ written')
    (hbody : body <+: body') : e.StandsFor shaders written' body' v :=
  ⟨h.word, h.place, h.stored.mono hwritten hbody⟩

namespace Writer

/-- What holds of a writer to which the shaders were announced and the variants written. -/
structure Wrote (shaders : List ShaderEntry) (written : List Variant) (w : Writer) : Prop where
  overflow : w.overflow = .refused
  announced : w.shaders.map (·.toShaderEntry) = shaders
  /-- The index entries of a shader stand for its variants, in the order of writing. -/
  entries : ∀ s ∈ w.shaders, List.Forall₂ (IndexEntry.StandsFor shaders written w.body) s.used
    (written.filter (·.key.sourceHash = s.info.sourceHash))
  reserved : ∀ s ∈ w.shaders, s.used.length ≤ s.variantCount
  known : ∀ v ∈ written, ∃ s ∈ w.shaders, s.info.sourceHash = v.key.sourceHash
  counted : (w.shaders.flatMap (·.used)).length = written.length
  /-- Every program key leads to the programs of a variant that has it. -/
  programs : ∀ key p, (key, p) ∈ w.programs →
    ∃ u ∈ written, HasProgramKey shaders u key ∧ Found w.body p u.programs

namespace Wrote

variable {shaders : List ShaderEntry} {written : List Variant} {w w' : Writer} {v : Variant}

theorem nodup_hashes (h : Wrote shaders written w)
    (hhashes : (shaders.map (·.info.sourceHash)).Nodup) :
    (w.shaders.map (·.info.sourceHash)).Nodup := by
  rw [← h.announced, List.map_map] at hhashes
  exact hhashes

/-- A successful write leaves the programs of every key where the table says. -/
theorem programs_step (h : Wrote shaders written w) {key : VariantKey} {body more : List UInt8}
    {p : ℕ} {table : List (VariantKey × ℕ)} (hbody : w.body <+: body)
    (hkey : HasProgramKey shaders v key) (hword : (Encoded.word p).fits = true)
    (hrefers : Refers w.overflow w.programs body.length v key p more table) :
    ∀ k q, (k, q) ∈ table → ∃ u ∈ written ++ [v], HasProgramKey shaders u k ∧
      Found (body ++ (Encoded.word p).bytes ++ more) q u.programs := by
  have hold : ∀ k q, (k, q) ∈ w.programs → ∃ u ∈ written ++ [v], HasProgramKey shaders u k ∧
      Found (body ++ (Encoded.word p).bytes ++ more) q u.programs := by
    intro k q hq
    obtain ⟨u, hu, hk, hfound⟩ := h.programs k q hq
    refine ⟨u, List.mem_append_left _ hu, hk, hfound.mono ?_⟩
    exact hbody.trans ((List.prefix_append _ _).trans (List.prefix_append _ _))
  intro k q hq
  cases hrefers with
  | shared => exact hold k q hq
  | own _ _ hplace hfits =>
    rw [h.overflow] at hplace
    obtain rfl := (Overflow.eq_of_below_refused hplace).2
    -- only the last entry of the table is new, and its programs end the body
    rcases List.mem_append.mp hq with hq | hq
    · exact hold k q hq
    · obtain ⟨rfl, rfl⟩ := Prod.mk.inj (List.mem_singleton.mp hq)
      exact ⟨v, List.mem_append_right _ List.mem_cons_self, hkey,
        Variant.found_programs hword hfits⟩

/-- **A successful write keeps the invariant.** -/
theorem step (h : Wrote shaders written w) (hhashes : (shaders.map (·.info.sourceHash)).Nodup)
    (hwrite : w.writeVariant v = (w', .ok ())) : Wrote shaders (written ++ [v]) w' := by
  obtain ⟨s, hs, hcount, hplace, hbody, p, more, table, hword, hrefers, rfl⟩ :=
    writeVariant_ok hwrite
  have hmem : s ∈ w.shaders := List.mem_of_find?_eq_some hs
  have hhash : s.info.sourceHash = v.key.sourceHash := by simpa using List.find?_some hs
  have huse := useEntry_eq_map v.key.sourceHash ⟨v.key.optionWord, w.body.length⟩ w.shaders
    (h.nodup_hashes hhashes)
  have hkey : HasProgramKey shaders v (s.info.programKey v.key.optionWord) :=
    ⟨s.toShaderEntry, h.announced ▸ List.mem_map_of_mem hmem, hhash, rfl⟩
  have hprograms := h.programs_step (List.prefix_append _ _) hkey hword hrefers
  -- the new variant is found at the old end of the body
  have hstored : StoredAt shaders (written ++ [v])
      (w.body ++ (encode v.body).bytes ++ (Encoded.word p).bytes ++ more) v w.body.length := by
    obtain ⟨u, hu, hukey, hfound⟩ := hprograms _ p hrefers.mem_table
    exact ⟨u, hu, ⟨_, hkey, hukey⟩, p, Variant.found_head hbody hword, hfound⟩
  have hprefix : w.body <+: w.body ++ (encode v.body).bytes ++ (Encoded.word p).bytes ++ more := by
    rw [List.append_assoc, List.append_assoc]
    exact List.prefix_append _ _
  have hold : ∀ e u, IndexEntry.StandsFor shaders written w.body e u →
      IndexEntry.StandsFor shaders (written ++ [v]) _ e u :=
    fun e u he => he.mono (List.subset_append_left _ _) hprefix
  refine ⟨h.overflow, ?_, ?_, ?_, ?_, ?_, hprograms⟩
  · rw [← h.announced, huse, List.map_map]
    refine List.map_congr_left fun t _ => ?_
    dsimp only [Function.comp]
    split_ifs <;> rfl
  · rw [huse]
    intro t' ht'
    obtain ⟨t, ht, rfl⟩ := List.mem_map.mp ht'
    have hentries := (h.entries t ht).imp hold
    -- only the shader of the variant takes an entry, and only its variants become more
    by_cases heq : t.info.sourceHash = v.key.sourceHash
    · rw [if_pos heq, List.filter_append, List.filter_singleton, decide_eq_true heq.symm]
      exact List.rel_append hentries (.cons ⟨rfl, hplace, hstored⟩ .nil)
    · rw [if_neg heq, List.filter_append, List.filter_singleton,
        decide_eq_false (Ne.symm heq), cond_false, List.append_nil]
      exact hentries
  · rw [huse]
    intro t' ht'
    obtain ⟨t, ht, rfl⟩ := List.mem_map.mp ht'
    by_cases heq : t.info.sourceHash = v.key.sourceHash
    · obtain rfl : t = s := List.inj_on_of_nodup_map (h.nodup_hashes hhashes) ht hmem
        (heq.trans hhash.symm)
      rw [if_pos heq, List.length_append, List.length_singleton]
      exact hcount
    · rw [if_neg heq]
      exact h.reserved t ht
  · rw [huse]
    intro u hu
    have hknown : ∃ t ∈ w.shaders, t.info.sourceHash = u.key.sourceHash := by
      rcases List.mem_append.mp hu with hu | hu
      · exact h.known u hu
      · exact ⟨s, hmem, List.mem_singleton.mp hu ▸ hhash⟩
    obtain ⟨t, ht, htu⟩ := hknown
    refine ⟨_, List.mem_map_of_mem ht, ?_⟩
    split_ifs <;> exact htu
  · rw [length_used_useEntry _ _ s _ hs, h.counted, List.length_append, List.length_singleton]

/-! ### What the entries lead to -/

theorem exists_variant (h : Wrote shaders written w) {s : OpenShader} (hs : s ∈ w.shaders)
    {e : IndexEntry} (he : e ∈ s.used) : ∃ v ∈ written,
      v.key.sourceHash = s.info.sourceHash ∧ e.StandsFor shaders written w.body v := by
  obtain ⟨v, hv, hstands⟩ := exists_of_mem_left (h.entries s hs) he
  obtain ⟨hwritten, hhash⟩ := List.mem_filter.mp hv
  exact ⟨v, hwritten, of_decide_eq_true hhash, hstands⟩

theorem exists_entry (h : Wrote shaders written w) (hv : v ∈ written) {s : OpenShader}
    (hs : s ∈ w.shaders) (hhash : s.info.sourceHash = v.key.sourceHash) :
    ∃ e ∈ s.used, e.StandsFor shaders written w.body v :=
  exists_of_mem_left (h.entries s hs).flip
    (List.mem_filter.mpr ⟨hv, decide_eq_true hhash.symm⟩)

/-- Distinct keys have distinct option words within a shader. -/
theorem nodup_words (h : Wrote shaders written w) (hkeys : (written.map (·.key)).Nodup)
    {s : OpenShader} (hs : s ∈ w.shaders) : (s.used.map (·.optionWord)).Nodup := by
  -- the entries have the words of the variants, in the same order
  have hwords : s.used.map (·.optionWord) =
      (written.filter (·.key.sourceHash = s.info.sourceHash)).map (·.key.optionWord) := by
    have hsame := (h.entries s hs).imp fun _ _ he => he.word
    rwa [← List.forall₂_eq_eq_eq, List.forall₂_map_left_iff, List.forall₂_map_right_iff]
  rw [hwords]
  refine List.pairwise_map.mpr (((List.pairwise_map.mp hkeys).filter _).imp_of_mem ?_)
  intro v u hv hu hne hword
  have hvhash := of_decide_eq_true (List.mem_filter.mp hv).2
  have huhash := of_decide_eq_true (List.mem_filter.mp hu).2
  exact hne (VariantKey.eq_of_halves (hvhash.trans huhash.symm) hword)

/-! ### Runs of writes -/

/-- The invariant along the rest of a run. -/
theorem writeAll (hhashes : (shaders.map (·.info.sourceHash)).Nodup) :
    ∀ (variants written : List Variant) (w : Writer), Wrote shaders written w →
    w.writeAll variants = .ok w' → Wrote shaders (written ++ variants) w' := by
  intro variants
  induction variants with
  | nil =>
    intro written w h hrun
    obtain rfl : w = w' := Except.ok.inj hrun
    rwa [List.append_nil]
  | cons v rest ih =>
    intro written w h hrun
    unfold Writer.writeAll at hrun
    split at hrun
    · next w₁ hwrite =>
      have hrest := ih (written ++ [v]) w₁ (h.step hhashes hwrite) hrun
      rwa [List.append_assoc] at hrest
    · cases hrun

end Wrote

/-- Before the first variant nothing has been written. -/
theorem wrote_fresh (shaders : List ShaderEntry) :
    Wrote shaders [] { shaders := shaders.map fun s => { toShaderEntry := s } } := by
  refine ⟨rfl, ?_, ?_, ?_, ?_, ?_, ?_⟩
  · simp [Function.comp_def]
  · intro s hs
    obtain ⟨t, -, rfl⟩ := List.mem_map.mp hs
    exact .nil
  · intro s hs
    obtain ⟨t, -, rfl⟩ := List.mem_map.mp hs
    exact Nat.zero_le _
  · exact fun v hv => absurd hv List.not_mem_nil
  · refine congrArg List.length (List.flatMap_eq_nil_iff.mpr fun s hs => ?_)
    obtain ⟨t, -, rfl⟩ := List.mem_map.mp hs
    rfl
  · exact fun key p hp => absurd hp List.not_mem_nil

/-- **What a run has written.**  The order of the variants does not matter, nor how many of
the reserved entries are left. -/
theorem wrote_run {shaders : List ShaderEntry} {variants : List Variant} {w : Writer}
    (hhashes : (shaders.map (·.info.sourceHash)).Nodup) (hrun : run shaders variants = .ok w) :
    Wrote shaders variants w := by
  unfold run at hrun
  rw [addAll_eq shaders {} rfl] at hrun
  exact (wrote_fresh shaders).writeAll hhashes variants [] _ hrun

end Writer

end ShaderVariants
