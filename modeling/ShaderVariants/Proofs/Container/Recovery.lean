import Mathlib
import ShaderVariants.Proofs.Container.Histories

/-!
# Which accepted variants a file gives back

A writer fills the index entries of the first shader with a checksum, a file looks among those
of the last.  So a variant that was accepted is given back exactly if its checksum was
announced once.  This holds after any calls, failed ones among them, as long as these have
left nothing under the key of the variant or in place of its programs.

## Main definitions

* `Accounts`, `AccountsPrograms` — what an entry and what a place of programs stand for.
* `Writer.Kept` — what holds of a writer after any calls.

## Main results

* `Writer.Kept.grow`, `Writer.kept_of_reached` — the invariant, for one more variant and
  along a history.
* `Writer.Kept.answer_of_last`, `Writer.Kept.answer_of_earlier` — lookups in a shader that is
  the last with its checksum, and in one that is not.
* `Writer.recovered_iff` — **which accepted variants are given back.**
-/

namespace ShaderVariants

/-! ### What entries and places stand for -/

/-- The index entry of a shader with the checksum stands for an accepted variant, whose program
key leads to the programs that are referred to, for a spoiled variant, or for nothing. -/
def Accounts (shaders : List ShaderEntry) (written spoiled : List Variant) (w : Writer)
    (hash : UInt32) (e : IndexEntry) : Prop :=
  (∃ u ∈ written, u.key = ⟨hash, e.optionWord⟩ ∧ ∃ p,
    Found w.body e.offset (encode u.body ++ Encoded.word p) ∧
      (u.programKey shaders, p) ∈ w.programs) ∨
  (∃ u ∈ spoiled, u.key = ⟨hash, e.optionWord⟩) ∨ e = .unused

/-- The place holds the programs of an accepted variant with the program key; or a spoiled
variant has the key, and its programs do not fit. -/
def AccountsPrograms (shaders : List ShaderEntry) (written spoiled : List Variant)
    (body : List UInt8) (key : VariantKey) (p : ℕ) : Prop :=
  (∃ u ∈ written, u.programKey shaders = key ∧ Found body p u.programs) ∨
  ∃ u ∈ spoiled, u.programKey shaders = key ∧ u.programs.fits = false

section Mono

variable {shaders : List ShaderEntry} {written written' spoiled spoiled' : List Variant}

theorem Accounts.mono {w w' : Writer} {hash : UInt32} {e : IndexEntry}
    (h : Accounts shaders written spoiled w hash e) (hwritten : written ⊆ written')
    (hspoiled : spoiled ⊆ spoiled') (hbody : w.body <+: w'.body)
    (htable : w.programs ⊆ w'.programs) : Accounts shaders written' spoiled' w' hash e := by
  rcases h with ⟨u, hu, hkey, p, hfound, hp⟩ | ⟨u, hu, hkey⟩ | hunused
  · exact .inl ⟨u, hwritten hu, hkey, p, hfound.mono hbody, htable hp⟩
  · exact .inr (.inl ⟨u, hspoiled hu, hkey⟩)
  · exact .inr (.inr hunused)

theorem AccountsPrograms.mono {body body' : List UInt8} {key : VariantKey} {p : ℕ}
    (h : AccountsPrograms shaders written spoiled body key p) (hwritten : written ⊆ written')
    (hspoiled : spoiled ⊆ spoiled') (hbody : body <+: body') :
    AccountsPrograms shaders written' spoiled' body' key p := by
  rcases h with ⟨u, hu, hkey, hfound⟩ | ⟨u, hu, hkey, hbad⟩
  · exact .inl ⟨u, hwritten hu, hkey, hfound.mono hbody⟩
  · exact .inr ⟨u, hspoiled hu, hkey, hbad⟩

end Mono

namespace Writer

variable {shaders : List ShaderEntry} {written spoiled : List Variant} {w w' : Writer}

/-- What holds of a writer after any calls, whatever was announced, accepted and spoiled. -/
structure Kept (shaders : List ShaderEntry) (written spoiled : List Variant) (w : Writer) :
    Prop where
  overflow : w.overflow = .refused
  announced : w.shaders.map (·.toShaderEntry) = shaders
  /-- Of the shaders with a checksum only the first has entries in use. -/
  first : ∀ (i j : ℕ) (s t : OpenShader), i < j → w.shaders[i]? = some s → w.shaders[j]? = some t →
    s.info.sourceHash = t.info.sourceHash → t.used = []
  entries : ∀ s ∈ w.shaders, ∀ e ∈ s.used, Accounts shaders written spoiled w s.info.sourceHash e
  accepted : ∀ v ∈ written, ∃ s ∈ w.shaders, s.info.sourceHash = v.key.sourceHash ∧
    ∃ e ∈ s.used, e.optionWord = v.key.optionWord
  programs : ∀ key p, (key, p) ∈ w.programs →
    AccountsPrograms shaders written spoiled w.body key p

theorem kept_fresh (shaders : List ShaderEntry) :
    Kept shaders [] [] { shaders := shaders.map fun s => { toShaderEntry := s } } where
  overflow := rfl
  announced := by simp [Function.comp_def]
  first := by
    intro i j s t _ _ ht _
    obtain ⟨t, -, rfl⟩ := List.mem_map.mp (List.mem_of_getElem? ht)
    rfl
  entries := by
    intro s hs e he
    obtain ⟨t, -, rfl⟩ := List.mem_map.mp hs
    exact absurd he List.not_mem_nil
  accepted := fun v hv => absurd hv List.not_mem_nil
  programs := fun key p hp => absurd hp List.not_mem_nil

namespace Kept

/-- The first shader with a checksum stays the only one with entries in use. -/
theorem first_useEntry (h : Kept shaders written spoiled w) {hash : UInt32} {s₀ : OpenShader}
    (hs₀ : w.shaders.find? (·.info.sourceHash = hash) = some s₀) (entry : IndexEntry) :
    ∀ (i j : ℕ) (s t : OpenShader), i < j → (useEntry hash entry w.shaders)[i]? = some s →
      (useEntry hash entry w.shaders)[j]? = some t →
      s.info.sourceHash = t.info.sourceHash → t.used = [] := by
  intro i j s t hij hs ht hhash
  obtain ⟨k, hk, hbefore, hset⟩ := useEntry_eq_set entry w.shaders hs₀
  have hhash₀ : s₀.info.sourceHash = hash := by simpa using List.find?_some hs₀
  rw [hset, List.getElem?_set] at hs ht
  by_cases hkj : k = j
  · -- no shader in front of the first one has the checksum
    subst hkj
    have hki : k ≠ i := hij.ne'
    rw [if_pos rfl] at ht
    rw [if_neg hki] at hs
    split_ifs at ht with hlt
    obtain rfl := Option.some.inj ht
    exact absurd (hhash.trans hhash₀) (hbefore i s hij hs)
  · rw [if_neg hkj] at ht
    by_cases hki : k = i
    · subst hki
      rw [if_pos rfl] at hs
      split_ifs at hs with hlt
      obtain rfl := Option.some.inj hs
      exact h.first k j s₀ t hij hk ht hhash
    · rw [if_neg hki] at hs
      exact h.first i j s t hij hs ht hhash

/-- **One more variant**, accepted or spoiled, keeps the invariant. -/
theorem grow (h : Kept shaders written spoiled w) {hash : UInt32} {s₀ : OpenShader}
    (hs₀ : w.shaders.find? (·.info.sourceHash = hash) = some s₀)
    {entry : IndexEntry} {body : List UInt8} {table : List (VariantKey × ℕ)}
    {written' spoiled' : List Variant} (hwritten : written ⊆ written')
    (hspoiled : spoiled ⊆ spoiled') (hbody : w.body <+: body) (htable : w.programs ⊆ table)
    (haccepted : ∀ v ∈ written', v ∈ written ∨ v.key = ⟨hash, entry.optionWord⟩)
    (hprograms : ∀ key p, (key, p) ∈ table → (key, p) ∈ w.programs ∨
      AccountsPrograms shaders written' spoiled' body key p)
    (hw' : w' = ⟨useEntry hash entry w.shaders, true, body, table, w.overflow⟩)
    (hentry : Accounts shaders written' spoiled' w' hash entry) :
    Kept shaders written' spoiled' w' := by
  have hhash₀ : s₀.info.sourceHash = hash := by simpa using List.find?_some hs₀
  obtain ⟨k, hk, -, hset⟩ := useEntry_eq_set entry w.shaders hs₀
  have hmem : { s₀ with used := s₀.used ++ [entry] } ∈ useEntry hash entry w.shaders := by
    rw [hset]
    exact List.mem_set (List.getElem?_eq_some_iff.mp hk).1 _
  subst hw'
  refine ⟨h.overflow, ?_, h.first_useEntry hs₀ entry, ?_, ?_, ?_⟩
  · exact (map_useEntry _ _ _).trans h.announced
  · intro s hs e he
    have hold : ∀ t ∈ w.shaders, e ∈ t.used → Accounts shaders written' spoiled'
        ⟨useEntry hash entry w.shaders, true, body, table, w.overflow⟩ t.info.sourceHash e :=
      fun t ht het => (h.entries t ht e het).mono hwritten hspoiled hbody htable
    change s ∈ useEntry hash entry w.shaders at hs
    rw [hset] at hs
    rcases List.mem_or_eq_of_mem_set hs with hs | rfl
    · exact hold s hs he
    · rcases List.mem_append.mp he with he | he
      · exact hold s₀ (List.mem_of_getElem? hk) he
      · obtain rfl := List.mem_singleton.mp he
        exact hhash₀ ▸ hentry
  · intro v hv
    rcases haccepted v hv with hv | hkey
    · obtain ⟨s, hs, hhash, e, he, hword⟩ := h.accepted v hv
      obtain ⟨i, hi⟩ := List.getElem?_of_mem hs
      by_cases hki : k = i
      · subst hki
        obtain rfl := Option.some.inj (hk.symm.trans hi)
        exact ⟨_, hmem, hhash, e, List.mem_append_left _ he, hword⟩
      · refine ⟨s, ?_, hhash, e, he, hword⟩
        change s ∈ useEntry hash entry w.shaders
        rw [hset]
        refine List.mem_of_getElem? (i := i) ?_
        rw [List.getElem?_set, if_neg hki, hi]
    · exact ⟨_, hmem, by rw [hkey]; exact hhash₀, entry,
        List.mem_append_right _ List.mem_cons_self, by rw [hkey]⟩
  · intro key p hp
    rcases hprograms key p hp with hp | hp
    · exact (h.programs key p hp).mono hwritten hspoiled hbody
    · exact hp

/-- An accepted write keeps the invariant. -/
theorem accepted_write {v : Variant} (h : Kept shaders written spoiled w)
    (hwrite : w.writeVariant v = (w', .ok ())) : Kept shaders (written ++ [v]) spoiled w' := by
  obtain ⟨s, hs, -, -, hbody, p, more, table, hword, hrefers, hw'⟩ := writeVariant_ok hwrite
  rw [programKey_of_find h.announced hs] at hrefers
  have hprefix : w.body <+: w.body ++ (encode v.body).bytes ++ (Encoded.word p).bytes ++ more := by
    rw [List.append_assoc, List.append_assoc]
    exact List.prefix_append _ _
  have htable : w.programs ⊆ table := by
    cases hrefers with
    | shared => exact List.Subset.refl _
    | own => exact List.subset_append_left _ _
  refine h.grow hs (List.subset_append_left _ _) (List.Subset.refl _) hprefix htable
    ?_ ?_ hw' (.inl ⟨v, List.mem_append_right _ List.mem_cons_self, rfl, p, ?_, ?_⟩)
  · intro u hu
    rcases List.mem_append.mp hu with hu | hu
    · exact .inl hu
    · exact .inr (List.mem_singleton.mp hu ▸ rfl)
  · intro key q hq
    cases hrefers with
    | shared => exact .inl hq
    | own _ _ hplace hfits =>
      rw [h.overflow] at hplace
      obtain rfl := (Overflow.eq_of_below_refused hplace).2
      rcases List.mem_append.mp hq with hq | hq
      · exact .inl hq
      · obtain ⟨rfl, rfl⟩ := Prod.mk.inj (List.mem_singleton.mp hq)
        exact .inr (.inl ⟨v, List.mem_append_right _ List.mem_cons_self, rfl,
          Variant.found_programs hword hfits⟩)
  · rw [hw']
    exact Variant.found_head hbody hword
  · rw [hw']
    exact hrefers.mem_table

/-- A spoiled write keeps the invariant. -/
theorem spoiled_write {v : Variant} {e : WriteError} (h : Kept shaders written spoiled w)
    (hwrite : w.writeVariant v = (w', .error e)) (hclaims : w.Claims v) :
    Kept shaders written (spoiled ++ [v]) w' := by
  obtain ⟨s, entry, hs, -, -, hentry, more, table, hw', htable⟩ :=
    writeVariant_spoiled hwrite hclaims
  rw [programKey_of_find h.announced hs] at htable
  have hnew : v ∈ spoiled ++ [v] := List.mem_append_right _ List.mem_cons_self
  refine h.grow hs (List.Subset.refl _) (List.subset_append_left _ _)
    (List.prefix_append _ more) ?_ (fun u hu => .inl hu) ?_ hw' ?_
  · rcases htable with rfl | ⟨p, rfl, -⟩
    · exact List.Subset.refl _
    · exact List.subset_append_left _ _
  · intro key q hq
    rcases htable with rfl | ⟨p, rfl, hbad⟩
    · exact .inl hq
    · rcases List.mem_append.mp hq with hq | hq
      · exact .inl hq
      · obtain ⟨rfl, rfl⟩ := Prod.mk.inj (List.mem_singleton.mp hq)
        exact .inr (.inr ⟨v, hnew, rfl, hbad⟩)
  · rcases hentry with ⟨-, rfl⟩ | ⟨-, rfl⟩
    · exact .inr (.inl ⟨v, hnew, rfl⟩)
    · exact .inr (.inr rfl)

end Kept

/-- **The invariant holds after any calls.** -/
theorem kept_of_reached (h : Reached shaders written spoiled w) :
    Kept shaders written spoiled w := by
  induction h with
  | new => exact kept_fresh []
  | announced hreached hadd _ =>
    obtain ⟨rfl, rfl, rfl⟩ := hreached.fresh_of_addShader hadd
    exact kept_fresh _
  | accepted _ hwrite ih => exact ih.accepted_write hwrite
  | refused _ hwrite hclaims ih =>
    rcases writeVariant_refused hwrite hclaims with rfl | hsettle
    · exact ih
    · obtain rfl := settle_ok hsettle
      exact ⟨ih.overflow, ih.announced, ih.first, ih.entries, ih.accepted, ih.programs⟩
  | spoiled _ hwrite hclaims ih => exact ih.spoiled_write hwrite hclaims

/-! ### Lookups -/

/-- A lookup in the file consults the last shader with the checksum. -/
theorem position?_file_iff {number i : ℕ} {hash : UInt32} :
    ({ file := w.file, number } : OpenFile).position? hash = some i ↔
      (w.shaders.map (·.info.sourceHash))[i]? = some hash ∧
        ∀ j, i < j → (w.shaders.map (·.info.sourceHash))[j]? ≠ some hash := by
  rw [OpenFile.position?_eq_some_iff, hashes_file]

theorem position?_file_eq_none_iff {number : ℕ} {hash : UInt32} :
    ({ file := w.file, number } : OpenFile).position? hash = none ↔
      hash ∉ w.shaders.map (·.info.sourceHash) := by
  rw [OpenFile.position?_eq_none_iff, ← hashes_file, List.mem_map, not_exists]
  exact forall_congr' fun s => not_and.symm

/-- The entries in use that a file finds for a shader are those of the writer. -/
theorem usedEntriesOf_file_of_reserved
    (hreserved : ∀ s ∈ w.shaders, s.used.length ≤ s.variantCount) {i : ℕ} {s : OpenShader}
    (hi : w.shaders[i]? = some s) :
    w.file.usedEntriesOf i = s.entries.filter fun e => !e.isUnused := by
  rw [SetFile.usedEntriesOf, entriesOf_file hreserved, hi]
  rfl

/-- Looking a key up means searching the entries of that shader for its word. -/
theorem entryOf?_file {number i : ℕ} {key : VariantKey}
    (hposition : ({ file := w.file, number } : OpenFile).position? key.sourceHash = some i) :
    w.file.entryOf? key = w.file.findEntry? i key.optionWord := by
  have hzero : ({ file := w.file, number := 0 } : OpenFile).position? key.sourceHash = some i :=
    hposition
  rw [SetFile.entryOf?, hzero, Option.bind_some]

theorem keysOf_file (hreserved : ∀ s ∈ w.shaders, s.used.length ≤ s.variantCount)
    {number i : ℕ} {s : OpenShader} {hash : UInt32}
    (hposition : ({ file := w.file, number } : OpenFile).position? hash = some i)
    (hi : w.shaders[i]? = some s) : ({ file := w.file, number } : OpenFile).keysOf hash =
      (s.entries.filter fun e => !e.isUnused).map fun e => ⟨hash, e.optionWord⟩ := by
  rw [OpenFile.keysOf, hposition, ← usedEntriesOf_file_of_reserved hreserved hi]

namespace Kept

/-- **A shader that is not the last with its checksum** might as well not be there. -/
theorem answer_of_earlier (h : Kept shaders written spoiled w)
    (hreserved : ∀ s ∈ w.shaders, s.used.length ≤ s.variantCount) {number i k : ℕ}
    {s : OpenShader} {key : VariantKey} (hi : w.shaders[i]? = some s)
    (hhash : s.info.sourceHash = key.sourceHash) (hik : i < k)
    (hk : ({ file := w.file, number } : OpenFile).position? key.sourceHash = some k) :
    ({ file := w.file, number } : OpenFile).answer key = .ok none ∧
      ({ file := w.file, number } : OpenFile).keysOf key.sourceHash = [] := by
  have hlast := (position?_file_iff.mp hk).1
  rw [List.getElem?_map] at hlast
  obtain ⟨t, ht, hthash⟩ := Option.map_eq_some_iff.mp hlast
  -- the last shader has no entries in use
  have hused : t.used = [] := h.first i k s t hik hi ht (hhash.trans hthash.symm)
  have hwords : ∀ e ∈ t.used, e.optionWord < 0xFFFFFFFF := by
    rw [hused]
    exact fun e he => absurd he List.not_mem_nil
  have hnone : t.entries.filter (fun e => !e.isUnused) = [] :=
    (hused ▸ OpenShader.perm_filter_entries hwords).eq_nil
  constructor
  · have hentry : w.file.entryOf? key = none := by
      rw [entryOf?_file hk]
      refine Option.eq_none_iff_forall_ne_some.mpr fun e he => ?_
      have hmem := (SetFile.mem_of_findEntry he).1
      rw [usedEntriesOf_file_of_reserved hreserved ht, hnone] at hmem
      cases hmem
    rw [(OpenFile.Faithful.opened w.file number).answer_eq, SetFile.readKey, hentry]
  · rw [keysOf_file hreserved hk ht, hnone, List.map_nil]

/-- The entry of an accepted variant can be read, if nothing spoiled has its key or lies in
place of its programs. -/
theorem exists_readVariant (h : Kept shaders written spoiled w) {v : Variant}
    (hspoiled : ∀ u ∈ spoiled, u.key ≠ v.key ∧
      (u.programKey shaders = v.programKey shaders → u.programs.fits = true))
    (hword : v.key.optionWord < 0xFFFFFFFF) {s : OpenShader} (hs : s ∈ w.shaders)
    (hhash : s.info.sourceHash = v.key.sourceHash) {e : IndexEntry} (he : e ∈ s.used)
    (heword : e.optionWord = v.key.optionWord) : ∃ u : Variant, u.key = v.key ∧ ∃ p,
      w.file.readVariant v.key.sourceHash e = .ok ⟨u, p⟩ := by
  have hkey : (⟨s.info.sourceHash, e.optionWord⟩ : VariantKey) = v.key :=
    VariantKey.eq_of_halves hhash heword
  obtain ⟨u, -, hu, p, hfound, hp⟩ | ⟨u, hu, hukey⟩ | rfl := h.entries s hs e he
  · have hprogramKey : u.programKey shaders = v.programKey shaders := by
      unfold Variant.programKey
      rw [hu, hkey]
    -- the programs are those of an accepted variant with the same program key
    obtain ⟨u', -, -, hprograms⟩ | ⟨u', hu', hsame, hfits⟩ := h.programs _ p hp
    · have hread := w.file.readVariant_eq v.key.sourceHash hfound
        (w.file.programsAt_eq hprograms)
      refine ⟨_, ?_, p, hread⟩
      exact VariantKey.eq_of_halves rfl heword
    · rw [(hspoiled u' hu').2 (hsame.trans hprogramKey)] at hfits
      cases hfits
  · exact absurd (hukey.trans hkey) (hspoiled u hu).1
  · rw [← heword] at hword
    exact absurd hword (by decide)

/-- **The last shader with a checksum** gives back what was accepted for it. -/
theorem answer_of_last (h : Kept shaders written spoiled w)
    (hreserved : ∀ s ∈ w.shaders, s.used.length ≤ s.variantCount) {v : Variant}
    (hspoiled : ∀ u ∈ spoiled, u.key ≠ v.key ∧
      (u.programKey shaders = v.programKey shaders → u.programs.fits = true))
    (hword : v.key.optionWord < 0xFFFFFFFF) {number i : ℕ} {s : OpenShader}
    (hi : w.shaders[i]? = some s) (hhash : s.info.sourceHash = v.key.sourceHash)
    (hposition : ({ file := w.file, number } : OpenFile).position? v.key.sourceHash = some i)
    {e : IndexEntry} (he : e ∈ s.used) (heword : e.optionWord = v.key.optionWord) :
    (∃ u : Variant, ({ file := w.file, number } : OpenFile).answer v.key = .ok (some u) ∧
      u.key = v.key) ∧
      v.key ∈ ({ file := w.file, number } : OpenFile).keysOf v.key.sourceHash := by
  have hs : s ∈ w.shaders := List.mem_of_getElem? hi
  have hused := usedEntriesOf_file_of_reserved hreserved hi
  have hmem : e ∈ w.file.usedEntriesOf i := by
    rw [hused]
    refine List.mem_filter.mpr ⟨OpenShader.mem_entries_of_mem_used he, ?_⟩
    rw [OpenShader.isUnused_eq_false (heword.symm ▸ hword)]
    rfl
  constructor
  · -- an entry is found under the word, and it is in use
    obtain ⟨e', hfind⟩ := SetFile.exists_findEntry hmem (heword ▸ hword.ne)
    obtain ⟨hmem', heword'⟩ := SetFile.mem_of_findEntry hfind
    rw [heword] at hfind heword'
    have he' : e' ∈ s.used := by
      rw [hused, List.mem_filter] at hmem'
      rcases OpenShader.mem_entries hmem'.1 with he' | rfl
      · exact he'
      · cases hmem'.2
    have hentry : w.file.entryOf? ⟨v.key.sourceHash, e'.optionWord⟩ = some e' := by
      rw [heword', entryOf?_file hposition, hfind]
    obtain ⟨u, hu, p, hread⟩ := h.exists_readVariant hspoiled hword hs hhash he' heword'
    have hkey := SetFile.readKey_of_ok hentry hread
    rw [heword'] at hkey
    exact ⟨u, ((OpenFile.Faithful.opened w.file number).answer_eq v.key).trans hkey, hu⟩
  · rw [keysOf_file hreserved hposition hi, ← hused]
    exact List.mem_map.mpr ⟨e, hmem, VariantKey.eq_of_halves rfl heword⟩

end Kept

/-- The first position of a value is its last one exactly if the value is there once. -/
theorem count_eq_one_iff_of_first {hashes : List UInt32} {hash : UInt32} {i : ℕ}
    (hi : hashes[i]? = some hash) (hfirst : ∀ j, j < i → hashes[j]? ≠ some hash) :
    hashes.count hash = 1 ↔ ∀ j, i < j → hashes[j]? ≠ some hash := by
  obtain ⟨hlt, hget⟩ := List.getElem?_eq_some_iff.mp hi
  have hfront : (hashes.take i).count hash = 0 := by
    refine List.count_eq_zero.mpr fun hmem => ?_
    obtain ⟨j, hj⟩ := List.getElem?_of_mem hmem
    have hji : j < i := by
      have := (List.getElem?_eq_some_iff.mp hj).1
      rw [List.length_take] at this
      omega
    rw [List.getElem?_take_of_lt hji] at hj
    exact hfirst j hji hj
  have hcount : hashes.count hash = 1 + (hashes.drop (i + 1)).count hash := by
    conv_lhs => rw [← List.take_append_drop i hashes, List.drop_eq_getElem_cons hlt, hget]
    rw [List.count_append, hfront, List.count_cons_self]
    omega
  rw [hcount, Nat.add_eq_left, List.count_eq_zero]
  constructor
  · intro hback j hij hj
    refine hback (List.mem_of_getElem? (i := j - (i + 1)) ?_)
    rw [List.getElem?_drop, Nat.add_sub_cancel' hij, hj]
  · intro hlater hmem
    obtain ⟨j, hj⟩ := List.getElem?_of_mem hmem
    rw [List.getElem?_drop] at hj
    exact hlater _ (by omega) hj

/-- **Which accepted variants are given back.**  After any calls the writer can be finished and
its file opened.  A variant that was accepted is then found under its key, and its key is
listed, exactly if its checksum was announced once; otherwise nothing is found and no key of
the checksum is listed.  Nothing spoiled may have the key of the variant, or programs that do
not fit under its program key, and its word may not be that of unused entries. -/
theorem recovered_iff {v : Variant} (h : Reached shaders written spoiled w)
    (hwords : ∀ u ∈ written ++ spoiled, u.key.optionWord < Word.limit) (hv : v ∈ written)
    (hword : v.key.optionWord < 0xFFFFFFFF)
    (hspoiled : ∀ u ∈ spoiled, u.key ≠ v.key ∧
      (u.programKey shaders = v.programKey shaders → u.programs.fits = true)) :
    ∃ bytes f, w.finish = .ok bytes ∧ SetFile.ofBytes bytes = .ok f ∧ ∀ number,
      let opened : OpenFile := { file := f, number }
      ((∃ u, opened.answer v.key = .ok (some u) ∧ u.key = v.key) ∧
          v.key ∈ opened.keysOf v.key.sourceHash ↔
        (shaders.map (·.info.sourceHash)).count v.key.sourceHash = 1) ∧
      ((shaders.map (·.info.sourceHash)).count v.key.sourceHash ≠ 1 →
        opened.answer v.key = .ok none ∧ opened.keysOf v.key.sourceHash = []) := by
  have hkept := kept_of_reached h
  have hreserved := h.reserved
  obtain ⟨s, hs, hhash, e, he, heword⟩ := hkept.accepted v hv
  obtain ⟨i, hi⟩ := List.getElem?_of_mem hs
  obtain ⟨bytes, hfinish, hopen⟩ := h.exists_finish hwords (List.ne_nil_of_mem hv)
  -- the entry is in the first shader with the checksum
  have hhashes : shaders.map (·.info.sourceHash) = w.shaders.map (·.info.sourceHash) := by
    rw [← hkept.announced, List.map_map]
    rfl
  have hsome : (w.shaders.map (·.info.sourceHash))[i]? = some v.key.sourceHash := by
    rw [List.getElem?_map, hi, Option.map_some, hhash]
  have hfirst : ∀ j, j < i →
      (w.shaders.map (·.info.sourceHash))[j]? ≠ some v.key.sourceHash := by
    intro j hj hjhash
    rw [List.getElem?_map] at hjhash
    obtain ⟨t, ht, hthash⟩ := Option.map_eq_some_iff.mp hjhash
    rw [hkept.first j i t s hj ht hi (hthash.trans hhash.symm)] at he
    exact absurd he List.not_mem_nil
  refine ⟨bytes, w.file, hfinish, hopen, fun number => ?_⟩
  intro opened
  have hcount := count_eq_one_iff_of_first hsome hfirst
  rw [hhashes]
  by_cases hlater : ∀ j, i < j →
      (w.shaders.map (·.info.sourceHash))[j]? ≠ some v.key.sourceHash
  · have hposition : opened.position? v.key.sourceHash = some i :=
      position?_file_iff.mpr ⟨hsome, hlater⟩
    have hfound := hkept.answer_of_last hreserved hspoiled hword hi hhash hposition he heword
    exact ⟨iff_of_true hfound (hcount.mpr hlater),
      fun hnot => absurd (hcount.mpr hlater) hnot⟩
  · -- a later shader with the checksum is the one that is consulted
    have hlost : opened.answer v.key = .ok none ∧ opened.keysOf v.key.sourceHash = [] := by
      cases hposition : opened.position? v.key.sourceHash with
      | none =>
        refine absurd (fun j _ hj => ?_) hlater
        exact position?_file_eq_none_iff.mp hposition (List.mem_of_getElem? hj)
      | some k =>
        refine hkept.answer_of_earlier hreserved hi hhash ?_ hposition
        by_contra hki
        refine hlater fun j hij hj => ?_
        exact (position?_file_iff.mp hposition).2 j (by omega) hj
    refine ⟨iff_of_false (fun hfound => ?_) fun hone => hlater (hcount.mp hone), fun _ => hlost⟩
    obtain ⟨⟨u, hu, -⟩, -⟩ := hfound
    cases hu.symm.trans hlost.1

/-- A lamp and a lantern with the same checksum, and a candle. -/
def twinLamps : List ShaderEntry :=
  [{ info := ⟨7, 0, [⟨"GLOW", []⟩], [], [], []⟩
     name := "lamp", source := none, variantCount := 1 },
   { info := ⟨7, 0, [⟨"GLOW", []⟩], [], [], []⟩
     name := "lantern", source := none, variantCount := 1 },
   { info := ⟨8, 0, [⟨"LIT", []⟩], [], [], []⟩
     name := "candle", source := none, variantCount := 2 }]

/-- The lamp that glows. -/
def glowingLamp : Variant := ⟨⟨7, 1⟩, .withAttachments 0, [], [], [], [1, 2], [3]⟩

/-- A candle. -/
def candle : Variant := ⟨⟨8, 0⟩, .withAttachments 0, [], [], [], [4], [5]⟩

/-- A candle with a binding set of 2 GiB. -/
def wideCandle : Variant := ⟨⟨8, 1⟩, .withAttachments 0, [], [2 ^ 31], [], [4], [5]⟩

/-- A writer to which the twins were announced. -/
def twinWriter : Writer := { shaders := twinLamps.map fun s => { toShaderEntry := s } }

set_option maxRecDepth 10000 in
/-- The candle is found although the other one was spoiled. -/
theorem candle_recovered : ∃ w bytes f, Reached twinLamps [glowingLamp, candle] [wideCandle] w ∧
    w.finish = .ok bytes ∧ SetFile.ofBytes bytes = .ok f ∧
    (∃ u, ({ file := f, number := 0 } : OpenFile).answer candle.key = .ok (some u) ∧
      u.key = candle.key) ∧
    candle.key ∈ ({ file := f, number := 0 } : OpenFile).keysOf 8 := by
  have hadd : addAll {} twinLamps = .ok twinWriter := rfl
  have hclaims : twinWriter.Claims wideCandle := ⟨⟨_, rfl⟩, _, rfl, by decide⟩
  have hreached := ((((ReachedIn.new.addAll hadd).spoiled (v := wideCandle) rfl hclaims).accepted
    (v := glowingLamp) rfl).accepted (v := candle) rfl)
  obtain ⟨bytes, f, hfinish, hopen, hf⟩ := recovered_iff (v := candle) hreached (by decide)
    (by decide) (by decide) (by decide)
  have hfound := (hf 0).1.mpr (by decide)
  exact ⟨_, bytes, f, hreached, hfinish, hopen, hfound⟩

set_option maxRecDepth 10000 in
/-- The lamp that was accepted is lost: the file looks for it among the entries of the
lantern. -/
theorem glowingLamp_lost : ∃ w bytes f, run twinLamps [glowingLamp] = .ok w ∧
    w.finish = .ok bytes ∧ SetFile.ofBytes bytes = .ok f ∧
    ({ file := f, number := 0 } : OpenFile).answer glowingLamp.key = .ok none ∧
    ({ file := f, number := 0 } : OpenFile).keysOf 7 = [] := by
  let w := (twinWriter.writeVariant glowingLamp).1
  have hrun : run twinLamps [glowingLamp] = .ok w := rfl
  obtain ⟨bytes, hfinish, hopen⟩ := ofBytes_finish_of_fits (w := w)
    ⟨by decide, by decide, by decide⟩ (by decide) (by decide)
  refine ⟨w, bytes, w.file, hrun, hfinish, hopen, ?_⟩
  decide +kernel

end Writer

end ShaderVariants
