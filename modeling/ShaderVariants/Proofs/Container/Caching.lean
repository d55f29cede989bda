import Mathlib
import ShaderVariants.Container.LookupSet
import ShaderVariants.Proofs.Container.Search
import ShaderVariants.Proofs.Keyed

/-!
# What an opened file remembers

An opened file keeps the variants it has read by their keys, and the programs by their
places.  Neither is ever seen by a caller: every lookup gives what it would give in a file
that has just been opened, also after lookups that failed, and after a failure halfway
through reading everything.

What the bytes say is stated without the caches, in `SetFile.readKey`.  The invariant
`OpenFile.Faithful` ties each cached value to it, and each request keeps the invariant.

## Main definitions

* `SetFile.readKey` — what a file says of a key.
* `SetFile.Distinct` — no two shaders, and no two entries of a shader, can be confused.
* `SetFile.keysLoaded` — the keys that some requests have loaded since the last time that
  everything was forgotten.
* `OpenFile.Faithful` — the caches hold what the file says.
* `OpenFile.serve` — the file after some requests; `OpenFile.answer` — what a lookup gives.

## Main results

* `OpenFile.position?_eq_some_iff` — the shader that a lookup consults.
* `OpenFile.Faithful.load`, `OpenFile.Faithful.loadAll` — the requests answer with what the
  file says, and keep the caches faithful.
* `OpenFile.caching_transparent` — **no sequence of requests changes an answer.**
-/

namespace ShaderVariants

/-! ### Positions of shaders -/

/-- A search that never stops finds the last shader with the checksum. -/
theorem foldl_position {hash : UInt32} {i : ℕ} : ∀ shaders : List ListedShader,
    shaders.zipIdx.foldl (fun found (s, i) => if s.info.sourceHash = hash then some i else found)
      none = some i ↔
    (∃ s, shaders[i]? = some s ∧ s.info.sourceHash = hash) ∧
      ∀ j s, i < j → shaders[j]? = some s → s.info.sourceHash ≠ hash := by
  intro shaders
  induction shaders using List.reverseRecOn with
  | nil => simp
  | append_singleton l a ih =>
    rw [List.zipIdx_append, List.foldl_append]
    simp only [List.zipIdx_singleton, List.foldl_cons, List.foldl_nil, Nat.zero_add]
    by_cases ha : a.info.sourceHash = hash
    · -- the last shader of all has the checksum
      rw [if_pos ha, Option.some.injEq]
      constructor
      · rintro rfl
        refine ⟨⟨a, by simp, ha⟩, fun j s hj hs => ?_⟩
        rw [List.getElem?_eq_none (by simp; omega)] at hs
        cases hs
      · rintro ⟨⟨s, hs, -⟩, hlast⟩
        have hi : i < (l ++ [a]).length := (List.getElem?_eq_some_iff.mp hs).1
        by_contra hne
        refine hlast l.length a ?_ (by simp) ha
        simp only [List.length_append, List.length_singleton] at hi
        omega
    · -- the last shader of all is passed over
      rw [if_neg ha, ih]
      constructor
      · rintro ⟨⟨s, hs, hhash⟩, hlast⟩
        have hi : i < l.length := (List.getElem?_eq_some_iff.mp hs).1
        refine ⟨⟨s, by rw [List.getElem?_append_left hi, hs], hhash⟩, fun j t hj ht => ?_⟩
        rcases lt_or_ge j l.length with hlt | hge
        · exact hlast j t hj (by rwa [List.getElem?_append_left hlt] at ht)
        · rw [List.getElem?_append_right hge] at ht
          obtain rfl := List.mem_singleton.mp (List.mem_of_getElem? ht)
          exact ha
      · rintro ⟨⟨s, hs, hhash⟩, hlast⟩
        have hi : i < l.length := by
          by_contra hge
          rw [List.getElem?_append_right (not_lt.mp hge)] at hs
          obtain rfl := List.mem_singleton.mp (List.mem_of_getElem? hs)
          exact ha hhash
        rw [List.getElem?_append_left hi] at hs
        refine ⟨⟨s, hs, hhash⟩, fun j t hj ht => hlast j t hj ?_⟩
        have hj : j < l.length := (List.getElem?_eq_some_iff.mp ht).1
        rwa [List.getElem?_append_left hj]

/-- A search that never stops fails only if no shader has the checksum. -/
theorem foldl_position_eq_none {hash : UInt32} : ∀ shaders : List ListedShader,
    shaders.zipIdx.foldl (fun found (s, i) => if s.info.sourceHash = hash then some i else found)
      none = none ↔ ∀ s ∈ shaders, s.info.sourceHash ≠ hash := by
  intro shaders
  induction shaders using List.reverseRecOn with
  | nil => simp
  | append_singleton l a ih =>
    rw [List.zipIdx_append, List.foldl_append]
    by_cases ha : a.info.sourceHash = hash
    · simp [ha]
    · simp [ha, ih, or_imp, forall_and]

namespace OpenFile

variable {o : OpenFile} {hash : UInt32} {i : ℕ}

/-- A lookup consults the last shader with the checksum. -/
theorem position?_eq_some_iff : o.position? hash = some i ↔
    (o.file.shaders.map (·.info.sourceHash))[i]? = some hash ∧
      ∀ j, i < j → (o.file.shaders.map (·.info.sourceHash))[j]? ≠ some hash := by
  refine (foldl_position o.file.shaders).trans ?_
  simp only [List.getElem?_map, Option.map_eq_some_iff, ne_eq, not_exists, not_and]
  exact and_congr_right fun _ => forall_congr' fun j => forall_comm

theorem position?_eq_none_iff :
    o.position? hash = none ↔ ∀ s ∈ o.file.shaders, s.info.sourceHash ≠ hash :=
  foldl_position_eq_none o.file.shaders

/-- With distinct checksums there is only one such shader. -/
theorem position?_of_getElem? (hnodup : (o.file.shaders.map (·.info.sourceHash)).Nodup)
    {s : ListedShader} (hs : o.file.shaders[i]? = some s) (hhash : s.info.sourceHash = hash) :
    o.position? hash = some i := by
  have hi : (o.file.shaders.map (·.info.sourceHash))[i]? = some hash := by
    rw [List.getElem?_map, hs, Option.map_some, hhash]
  refine position?_eq_some_iff.mpr ⟨hi, fun j hj hhash => hj.ne ?_⟩
  exact (List.getElem?_inj (List.getElem?_eq_some_iff.mp hi).1 hnodup).mp (hi.trans hhash.symm)

end OpenFile

/-! ### What a file says of a key -/

namespace SetFile

/-- The index entry of a key. -/
def entryOf? (f : SetFile) (key : VariantKey) : Option IndexEntry :=
  (OpenFile.position? { file := f, number := 0 } key.sourceHash).bind
    (f.findEntry? · key.optionWord)

/-- An opened file looks in the index of its bytes. -/
theorem bind_position_eq (o : OpenFile) (key : VariantKey) :
    (o.position? key.sourceHash).bind (o.file.findEntry? · key.optionWord) =
      o.file.entryOf? key := rfl

/-- What the bytes of the file say of a key: a variant, none, or why it cannot be read. -/
def readKey (f : SetFile) (key : VariantKey) : Except DecodeError (Option Variant) :=
  match f.entryOf? key with
  | none => .ok none
  | some entry => (f.readVariant key.sourceHash entry).map fun read => some read.variant

/-- The file has a variant of the key, and it can be read. -/
def holds (f : SetFile) (key : VariantKey) : Bool :=
  match f.readKey key with
  | .ok (some _) => true
  | _ => false

/-- The key of an index entry. -/
def keyOf (p : UInt32 × IndexEntry) : VariantKey := ⟨p.1, p.2.optionWord⟩

/-- The keys of all index entries in use, in file order. -/
def indexKeys (f : SetFile) : List VariantKey :=
  (OpenFile.usedEntries { file := f, number := 0 }).map keyOf

/-- Whether all keys can be read, or why the first of the others cannot. -/
def readKeys (f : SetFile) : List VariantKey → Except DecodeError Unit
  | [] => .ok ()
  | key :: rest =>
    match f.readKey key with
    | .ok _ => f.readKeys rest
    | .error reason => .error reason

/-- No two shaders have a checksum in common, and no two used entries of a shader an option
word, nor does a used entry have the word of the unused ones. -/
structure Distinct (f : SetFile) : Prop where
  hashes : (f.shaders.map (·.info.sourceHash)).Nodup
  words : ∀ i, ((f.usedEntriesOf i).map (·.optionWord)).Nodup
  used : ∀ i, ∀ e ∈ f.usedEntriesOf i, e.optionWord ≠ 0xFFFFFFFF

variable {f : SetFile} {key : VariantKey} {e : IndexEntry} {i : ℕ}

theorem optionWord_of_entryOf? (h : f.entryOf? key = some e) : e.optionWord = key.optionWord := by
  obtain ⟨i, -, hfind⟩ := Option.bind_eq_some_iff.mp h
  exact (mem_of_findEntry hfind).2

/-- A used entry is found under its option word. -/
theorem Distinct.findEntry?_of_mem (h : f.Distinct) (he : e ∈ f.usedEntriesOf i) :
    f.findEntry? i e.optionWord = some e :=
  (findEntry?_eq_some_iff (h.words i) (h.used i)).mpr ⟨he, rfl⟩

theorem Distinct.entryOf?_of_mem (h : f.Distinct) {p : UInt32 × IndexEntry}
    (hp : p ∈ OpenFile.usedEntries { file := f, number := 0 }) :
    f.entryOf? (keyOf p) = some p.2 := by
  obtain ⟨⟨s, i⟩, hs, hp⟩ := List.mem_flatMap.mp hp
  obtain ⟨e, he, rfl⟩ := List.mem_map.mp hp
  have hposition : OpenFile.position? { file := f, number := 0 } s.info.sourceHash = some i :=
    OpenFile.position?_of_getElem? h.hashes (List.mem_zipIdx_iff_getElem?.mp hs) rfl
  unfold entryOf? keyOf
  dsimp only
  rw [hposition, Option.bind_some]
  exact h.findEntry?_of_mem he

/-- Used entries ascend strictly. -/
theorem Distinct.pairwise_usedEntriesOf (h : f.Distinct) (i : ℕ) :
    (f.usedEntriesOf i).Pairwise (·.optionWord < ·.optionWord) := by
  have hascending : (f.usedEntriesOf i).Pairwise (·.optionWord ≤ ·.optionWord) := by
    unfold usedEntriesOf
    cases hentries : f.entriesOf i with
    | none => exact .nil
    | some entries => exact (pairwise_entriesOf hentries).filter _
  refine (hascending.and (List.pairwise_map.mp (h.words i))).imp ?_
  rintro e e' ⟨hle, hne⟩
  exact lt_of_le_of_ne hle hne

/-- The bytes of a key are those of its entry. -/
theorem readKey_eq {hash : UInt32} (hentry : f.entryOf? ⟨hash, e.optionWord⟩ = some e) :
    f.readKey ⟨hash, e.optionWord⟩ =
      (f.readVariant hash e).map fun read => some read.variant := by
  unfold readKey
  rw [hentry]

theorem readKey_of_ok {hash : UInt32} (hentry : f.entryOf? ⟨hash, e.optionWord⟩ = some e)
    {read : ReadVariant} (hread : f.readVariant hash e = .ok read) :
    f.readKey ⟨hash, e.optionWord⟩ = .ok (some read.variant) := by
  rw [readKey_eq hentry, hread]
  rfl

theorem readKey_of_error {hash : UInt32} (hentry : f.entryOf? ⟨hash, e.optionWord⟩ = some e)
    {reason : DecodeError} (hread : f.readVariant hash e = .error reason) :
    f.readKey ⟨hash, e.optionWord⟩ = .error reason := by
  rw [readKey_eq hentry, hread]
  rfl

theorem holds_of_readKey {v : Variant} (h : f.readKey key = .ok (some v)) :
    f.holds key = true := by
  unfold holds
  rw [h]

/-- A variant is read in two parts. -/
theorem readVariant_ok {hash : UInt32} {read : ReadVariant} (h : f.readVariant hash e = .ok read) :
    ∃ body programs, f.bodyAt e = .ok (body, read.programPlace) ∧
      f.programsAt read.programPlace = .ok programs ∧
      read.variant = body.variant ⟨hash, e.optionWord⟩ programs.1 programs.2 := by
  unfold readVariant at h
  cases hbody : f.bodyAt e with
  | error reason =>
    rw [hbody] at h
    cases h
  | ok head =>
    rw [hbody] at h
    change (f.programsAt head.2 >>= _) = _ at h
    cases hprograms : f.programsAt head.2 with
    | error reason =>
      rw [hprograms] at h
      cases h
    | ok programs =>
      rw [hprograms] at h
      obtain rfl := Except.ok.inj h
      exact ⟨head.1, programs, rfl, hprograms, rfl⟩

/-- A variant cannot be read if one of its parts cannot. -/
theorem readVariant_error {hash : UInt32} {reason : DecodeError}
    (h : f.readVariant hash e = .error reason) : f.bodyAt e = .error reason ∨
      ∃ body place, f.bodyAt e = .ok (body, place) ∧ f.programsAt place = .error reason := by
  unfold readVariant at h
  cases hbody : f.bodyAt e with
  | error reason' =>
    rw [hbody] at h
    exact .inl (congrArg Except.error (Except.error.inj h))
  | ok head =>
    rw [hbody] at h
    change (f.programsAt head.2 >>= _) = _ at h
    cases hprograms : f.programsAt head.2 with
    | error reason' =>
      rw [hprograms] at h
      refine .inr ⟨head.1, head.2, rfl, ?_⟩
      rw [hprograms, Except.error.inj h]
    | ok programs =>
      rw [hprograms] at h
      cases h

/-- The programs are those of the file, each at its place. -/
def HoldsPrograms (f : SetFile) (cached : List (ℕ × (List UInt8 × List UInt8))) : Prop :=
  ∀ place programs, (place, programs) ∈ cached → f.programsAt place = .ok programs

end SetFile

/-! ### Reading with the caches -/

namespace OpenFile

variable {f : SetFile} {o o' : OpenFile} {hash : UInt32} {e : IndexEntry}

theorem loadPrograms_of_ok (h : o.file.HoldsPrograms o.programs) {place : ℕ}
    {programs : List UInt8 × List UInt8} (hread : o.file.programsAt place = .ok programs) :
    ∃ cached, o.loadPrograms place = .ok (programs, { o with programs := cached }) ∧
      o.file.HoldsPrograms cached := by
  unfold loadPrograms
  cases hlook : o.programs.lookup place with
  | some found =>
    -- programs that were read before are read from the same bytes
    obtain rfl : found = programs :=
      Except.ok.inj ((h place found (mem_of_lookup hlook)).symm.trans hread)
    exact ⟨o.programs, rfl, h⟩
  | none =>
    refine ⟨o.programs ++ [(place, programs)], by dsimp only; rw [hread]; rfl, ?_⟩
    intro place' programs' hmem
    rcases List.mem_append.mp hmem with hmem | hmem
    · exact h place' programs' hmem
    · obtain ⟨rfl, rfl⟩ := Prod.mk.inj (List.mem_singleton.mp hmem)
      exact hread

theorem loadPrograms_of_error (h : o.file.HoldsPrograms o.programs) {place : ℕ}
    {reason : DecodeError} (hread : o.file.programsAt place = .error reason) :
    o.loadPrograms place = .error reason := by
  unfold loadPrograms
  cases hlook : o.programs.lookup place with
  | some found => exact nomatch (h place found (mem_of_lookup hlook)).symm.trans hread
  | none => dsimp only; rw [hread]; rfl

/-- What is kept of a variant that has been read. -/
def keep (o : OpenFile) (read : ReadVariant) : Loaded :=
  { variant := read.variant, file := o.number, generation := o.generation
    programPlace := read.programPlace }

/-- A variant that has not been read before is read from the file, and kept. -/
theorem loadEntry_of_ok (h : o.file.HoldsPrograms o.programs)
    (hnew : o.loaded.lookup ⟨hash, e.optionWord⟩ = none) {read : ReadVariant}
    (hread : o.file.readVariant hash e = .ok read) :
    ∃ cached, o.file.HoldsPrograms cached ∧ o.loadEntry hash e = .ok (o.keep read, { o with
      loaded := o.loaded ++ [(⟨hash, e.optionWord⟩, o.keep read)], programs := cached }) := by
  obtain ⟨body, programs, hbody, hprograms, hvariant⟩ := SetFile.readVariant_ok hread
  obtain ⟨cached, hload, hcached⟩ := loadPrograms_of_ok h hprograms
  refine ⟨cached, hcached, ?_⟩
  unfold loadEntry
  dsimp only
  rw [hnew, hbody]
  change (o.loadPrograms read.programPlace >>= _) = _
  rw [hload, keep, hvariant]
  rfl

/-- A variant that cannot be read leaves everything as it was. -/
theorem loadEntry_of_error (h : o.file.HoldsPrograms o.programs)
    (hnew : o.loaded.lookup ⟨hash, e.optionWord⟩ = none) {reason : DecodeError}
    (hread : o.file.readVariant hash e = .error reason) : o.loadEntry hash e = .error reason := by
  unfold loadEntry
  dsimp only
  rw [hnew]
  rcases SetFile.readVariant_error hread with hbody | ⟨body, place, hbody, hprograms⟩
  · rw [hbody]
    rfl
  · rw [hbody]
    change (o.loadPrograms place >>= _) = _
    rw [loadPrograms_of_error h hprograms]
    rfl

/-! ### The invariant -/

/-- The keys of the variants that have been read. -/
def keys (o : OpenFile) : Finset VariantKey := (o.loaded.map (·.1)).toFinset

/-- Everything in the caches is what the file says, each key is there once. -/
structure Faithful (f : SetFile) (o : OpenFile) : Prop where
  file : o.file = f
  programs : f.HoldsPrograms o.programs
  loaded : ∀ key l, (key, l) ∈ o.loaded → f.readKey key = .ok (some l.variant)
  nodup : (o.loaded.map (·.1)).Nodup

namespace Faithful

theorem opened (f : SetFile) (number : ℕ) : Faithful f { file := f, number } where
  file := rfl
  programs := fun _ _ hmem => absurd hmem List.not_mem_nil
  loaded := fun _ _ hmem => absurd hmem List.not_mem_nil
  nodup := List.nodup_nil

theorem clear (h : Faithful f o) : Faithful f o.clear where
  file := h.file
  programs := fun _ _ hmem => absurd hmem List.not_mem_nil
  loaded := fun _ _ hmem => absurd hmem List.not_mem_nil
  nodup := List.nodup_nil

theorem length_loaded (h : Faithful f o) : o.loaded.length = o.keys.card := by
  rw [keys, List.toFinset_card_of_nodup h.nodup, List.length_map]

/-- **One entry**: either it can be read, and its variant is kept, or nothing changes. -/
theorem loadEntry (h : Faithful f o) (hentry : f.entryOf? ⟨hash, e.optionWord⟩ = some e) :
    (∃ read l o', f.readVariant hash e = .ok read ∧ o.loadEntry hash e = .ok (l, o') ∧
      l.variant = read.variant ∧ Faithful f o' ∧ o'.keys = insert ⟨hash, e.optionWord⟩ o.keys) ∨
    ∃ reason, f.readVariant hash e = .error reason ∧ o.loadEntry hash e = .error reason := by
  cases hlook : o.loaded.lookup ⟨hash, e.optionWord⟩ with
  | some l =>
    -- what was kept was read from the same bytes
    have hmem := mem_of_lookup hlook
    have hkey := h.loaded _ l hmem
    cases hread : f.readVariant hash e with
    | error reason => exact nomatch hkey.symm.trans (SetFile.readKey_of_error hentry hread)
    | ok read =>
      have hvariant := hkey.symm.trans (SetFile.readKey_of_ok hentry hread)
      refine .inl ⟨read, l, o, rfl, by unfold OpenFile.loadEntry; dsimp only; rw [hlook],
        Option.some.inj (Except.ok.inj hvariant), h, ?_⟩
      rw [Finset.insert_eq_of_mem]
      exact List.mem_toFinset.mpr (List.mem_map_of_mem (f := (·.1)) hmem)
  | none =>
    have hprograms : o.file.HoldsPrograms o.programs := h.file ▸ h.programs
    cases hread : f.readVariant hash e with
    | error reason =>
      exact .inr ⟨reason, rfl, loadEntry_of_error hprograms hlook (h.file.symm ▸ hread)⟩
    | ok read =>
      obtain ⟨cached, hcached, hload⟩ := loadEntry_of_ok hprograms hlook (h.file.symm ▸ hread)
      refine .inl ⟨read, _, _, rfl, hload, rfl, ⟨h.file, h.file ▸ hcached, ?_, ?_⟩, ?_⟩
      · intro key l hl
        rcases List.mem_append.mp hl with hl | hl
        · exact h.loaded key l hl
        · obtain ⟨rfl, rfl⟩ := Prod.mk.inj (List.mem_singleton.mp hl)
          exact SetFile.readKey_of_ok hentry hread
      · rw [List.map_append, List.map_singleton]
        refine h.nodup.append (List.nodup_singleton _) (List.disjoint_singleton.mpr fun hmem => ?_)
        obtain ⟨p, hp, hkey⟩ := List.mem_map.mp hmem
        have hne := List.lookup_eq_none_iff.mp hlook p hp
        rw [hkey] at hne
        exact bne_iff_ne.mp hne rfl
      · unfold keys
        rw [List.map_append, List.map_singleton, List.toFinset_append, Finset.union_comm]
        rfl

/-- **A lookup answers with what the file says**, and keeps the invariant. -/
theorem load (h : Faithful f o) (key : VariantKey) :
    (∃ l o', o.load key = .ok (l, o') ∧ f.readKey key = .ok (l.map (·.variant)) ∧
      Faithful f o' ∧ o'.keys = if l.isSome then insert key o.keys else o.keys) ∨
    ∃ reason, o.load key = .error reason ∧ f.readKey key = .error reason := by
  unfold OpenFile.load
  cases hlook : o.loaded.lookup key with
  | some l =>
    have hmem := mem_of_lookup hlook
    refine .inl ⟨some l, o, rfl, h.loaded key l hmem, h, ?_⟩
    rw [Option.isSome_some, if_pos rfl, Finset.insert_eq_of_mem]
    exact List.mem_toFinset.mpr (List.mem_map_of_mem (f := (·.1)) hmem)
  | none =>
    dsimp only
    rw [SetFile.bind_position_eq, h.file]
    unfold SetFile.readKey
    cases hentry : f.entryOf? key with
    | none => exact .inl ⟨none, o, rfl, rfl, h, rfl⟩
    | some entry =>
      have hkey : (⟨key.sourceHash, entry.optionWord⟩ : VariantKey) = key := by
        rw [SetFile.optionWord_of_entryOf? hentry]
      dsimp only
      rcases h.loadEntry (hkey.symm ▸ hentry) with
        ⟨read, l, o', hread, hload, hvariant, ho', hkeys⟩ | ⟨reason, hread, hload⟩
      · rw [hread, hload]
        refine .inl ⟨some l, o', rfl, ?_, ho', ?_⟩
        · rw [Option.map_some, hvariant]
          rfl
        · rw [hkeys, hkey]
          rfl
      · rw [hread, hload]
        exact .inr ⟨reason, rfl, rfl⟩

/-- **All entries, one after the other**: those in front of the first that cannot be read
are kept, also when there is such an entry. -/
theorem loadEntries : ∀ (entries : List (UInt32 × IndexEntry)) (o : OpenFile), Faithful f o →
    (∀ p ∈ entries, f.entryOf? (SetFile.keyOf p) = some p.2) →
    (o.loadEntries entries).2 = f.readKeys (entries.map SetFile.keyOf) ∧
      Faithful f (o.loadEntries entries).1 ∧ (o.loadEntries entries).1.keys =
        o.keys ∪ ((entries.map SetFile.keyOf).takeWhile f.holds).toFinset := by
  intro entries
  induction entries with
  | nil => exact fun o h _ => ⟨rfl, h, (Finset.union_empty _).symm⟩
  | cons p rest ih =>
    intro o h hentries
    have hentry := hentries p List.mem_cons_self
    rw [List.map_cons]
    unfold OpenFile.loadEntries SetFile.readKeys
    rcases h.loadEntry hentry with ⟨read, l, o', hread, hload, -, ho', hkeys⟩ |
      ⟨reason, hread, hload⟩
    · obtain ⟨hresult, hfaithful, hrest⟩ :=
        ih o' ho' fun q hq => hentries q (List.mem_cons_of_mem _ hq)
      have hkey : f.readKey (SetFile.keyOf p) = .ok (some read.variant) :=
        SetFile.readKey_of_ok hentry hread
      rw [hload, hkey]
      refine ⟨hresult, hfaithful, hrest.trans ?_⟩
      rw [List.takeWhile_cons_of_pos (SetFile.holds_of_readKey hkey), hkeys,
        List.toFinset_cons, Finset.insert_union, Finset.union_insert]
      rfl
    · have hkey : f.readKey (SetFile.keyOf p) = .error reason :=
        SetFile.readKey_of_error hentry hread
      have hholds : ¬ f.holds (SetFile.keyOf p) = true := by
        rw [SetFile.holds, hkey]
        exact Bool.false_ne_true
      rw [hload, hkey, List.takeWhile_cons_of_neg hholds]
      exact ⟨rfl, h, (Finset.union_empty _).symm⟩

theorem loadAll (h : Faithful f o) (hdistinct : f.Distinct) :
    o.loadAll.2 = f.readKeys f.indexKeys ∧ Faithful f o.loadAll.1 ∧
      o.loadAll.1.keys = o.keys ∪ (f.indexKeys.takeWhile f.holds).toFinset := by
  have heq : o.usedEntries = OpenFile.usedEntries { file := f, number := 0 } := by
    unfold usedEntries
    rw [h.file]
  unfold OpenFile.loadAll
  rw [heq]
  exact loadEntries _ o h fun p hp => hdistinct.entryOf?_of_mem hp

end Faithful

end OpenFile

/-! ### Requests -/

/-- What is asked of an opened file. -/
inductive Request where
  | get (key : VariantKey)
  | loadAll
  | clear
  deriving DecidableEq, Repr

namespace SetFile

/-- The keys that are loaded after one more request: a lookup loads its key if the file
holds it, loading everything stops at the first entry that cannot be read. -/
def loadedAfter (f : SetFile) (keys : Finset VariantKey) : Request → Finset VariantKey
  | .get key => if f.holds key then insert key keys else keys
  | .loadAll => keys ∪ (f.indexKeys.takeWhile f.holds).toFinset
  | .clear => ∅

/-- The keys that the requests have loaded since the last `clear` among them. -/
def keysLoaded (f : SetFile) (requests : List Request) : Finset VariantKey :=
  requests.foldl f.loadedAfter ∅

end SetFile

/-- Without other files to fall back on, a lookup is what the file answers. -/
theorem LookupSet.tryGet_of_load {o o' : OpenFile} {key : VariantKey} {l : Option Loaded}
    (h : o.load key = .ok (l, o')) :
    ({ own := o } : LookupSet).tryGet key = ({ own := o' }, .ok l) := by
  unfold tryGet files tryFiles
  rw [h]
  cases l <;> rfl

theorem LookupSet.tryGet_of_load_error {o : OpenFile} {key : VariantKey} {reason : DecodeError}
    (h : o.load key = .error reason) :
    ({ own := o } : LookupSet).tryGet key = ({ own := o }, .error reason) := by
  unfold tryGet files tryFiles
  rw [h]

namespace OpenFile

variable {f : SetFile} {o : OpenFile}

/-- The file after a request, which may have failed. -/
def after (o : OpenFile) : Request → OpenFile
  | .get key => (({ own := o } : LookupSet).tryGet key).1.own
  | .loadAll => o.loadAll.1
  | .clear => o.clear

/-- The file after some requests. -/
def serve (o : OpenFile) (requests : List Request) : OpenFile := requests.foldl after o

/-- What a lookup of the key gives: a variant, none, or why it cannot be read. -/
def answer (o : OpenFile) (key : VariantKey) : Except DecodeError (Option Variant) :=
  (({ own := o } : LookupSet).tryGet key).2.map (·.map (·.variant))

namespace Faithful

/-- **The answer is what the file says.** -/
theorem answer_eq (h : Faithful f o) (key : VariantKey) : o.answer key = f.readKey key := by
  unfold answer
  rcases h.load key with ⟨l, o', hload, hkey, -⟩ | ⟨reason, hload, hkey⟩
  · rw [LookupSet.tryGet_of_load hload, hkey]
    rfl
  · rw [LookupSet.tryGet_of_load_error hload, hkey]
    rfl

/-- **One request** keeps the caches faithful, and loads what it should. -/
theorem after (h : Faithful f o) (hdistinct : f.Distinct) (request : Request) :
    Faithful f (o.after request) ∧ (o.after request).keys = f.loadedAfter o.keys request := by
  cases request with
  | get key =>
    unfold OpenFile.after SetFile.loadedAfter
    dsimp only
    rcases h.load key with ⟨l, o', hload, hkey, ho', hkeys⟩ | ⟨reason, hload, hkey⟩
    · have hholds : f.holds key = l.isSome := by
        rw [SetFile.holds, hkey]
        cases l <;> rfl
      rw [LookupSet.tryGet_of_load hload, hholds]
      exact ⟨ho', hkeys⟩
    · have hholds : f.holds key = false := by rw [SetFile.holds, hkey]
      rw [LookupSet.tryGet_of_load_error hload, hholds]
      exact ⟨h, rfl⟩
  | loadAll => exact (h.loadAll hdistinct).2
  | clear => exact ⟨h.clear, rfl⟩

/-- **Any requests** keep the caches faithful. -/
theorem serve (hdistinct : f.Distinct) : ∀ (requests : List Request) (o : OpenFile),
    Faithful f o → Faithful f (o.serve requests) ∧
      (o.serve requests).keys = requests.foldl f.loadedAfter o.keys := by
  intro requests
  induction requests with
  | nil => exact fun o h => ⟨h, rfl⟩
  | cons request rest ih =>
    intro o h
    obtain ⟨hafter, hkeys⟩ := h.after hdistinct request
    obtain ⟨hrest, hrestkeys⟩ := ih _ hafter
    refine ⟨hrest, hrestkeys.trans ?_⟩
    rw [hkeys]
    rfl

end Faithful

/-- **No sequence of requests changes an answer.**  After any lookups, loads of everything
and clears, some of which may have failed, each lookup gives the variant, nothing or the error
that it gives in the file just opened, so does loading everything, and the file counts the
distinct keys that were loaded since it was last cleared. -/
theorem caching_transparent (h : f.Distinct) (number : ℕ) (requests : List Request) :
    let opened : OpenFile := { file := f, number }
    (∀ key, (opened.serve requests).answer key = opened.answer key) ∧
      (opened.serve requests).loadAll.2 = opened.loadAll.2 ∧
      (opened.serve requests).loaded.length = (f.keysLoaded requests).card := by
  intro opened
  have hopened : Faithful f opened := Faithful.opened f number
  obtain ⟨hserved, hkeys⟩ := Faithful.serve h requests opened hopened
  refine ⟨fun key => ?_, ?_, ?_⟩
  · rw [hserved.answer_eq, hopened.answer_eq]
  · rw [(hserved.loadAll h).1, (hopened.loadAll h).1]
  · rw [hserved.length_loaded, hkeys]
    rfl

/-- A lamp that glows or not.  The file ends within the variant that glows. -/
def dimLamp : SetFile where
  shaders := [{
    info := ⟨7, 0, [⟨"GLOW", []⟩], [], [], []⟩
    name := "lamp", source := none, variantCount := 2, variantStart := 0 }]
  index := [⟨0, 0⟩, ⟨1, 77⟩]
  body :=
    let dark : Variant := ⟨⟨7, 0⟩, .withAttachments 0, [], [], [], [1, 2], [3]⟩
    let place := (encode dark.body).bytes.length + 4
    (encode dark.body ++ Encoded.word place ++ Encoded.blob [1, 2] ++ Encoded.blob [3]).bytes ++
      (encode dark.body).bytes.take 5
  ascending := by decide

theorem distinct_dimLamp : dimLamp.Distinct where
  hashes := by decide
  words
  | 0 => by decide +kernel
  | i + 1 => List.nodup_nil
  used
  | 0 => by decide +kernel
  | i + 1 => fun _ he => absurd he List.not_mem_nil

/-- The lamp that does not glow is kept although loading everything fails, and no answer
changes. -/
theorem dimLamp_transparent :
    let opened : OpenFile := { file := dimLamp, number := 0 }
    let served := opened.serve [.loadAll, .get ⟨7, 1⟩]
    opened.loadAll.2.isOk = false ∧ (∀ key, served.answer key = opened.answer key) ∧
      served.loaded.length = 1 := by
  intro opened served
  obtain ⟨hanswer, -, hlength⟩ := caching_transparent distinct_dimLamp 0 [.loadAll, .get ⟨7, 1⟩]
  have hloaded : dimLamp.keysLoaded [.loadAll, .get ⟨7, 1⟩] = {⟨7, 0⟩} := by decide +kernel
  exact ⟨by decide +kernel, hanswer, hlength.trans (by rw [hloaded]; rfl)⟩

end OpenFile

end ShaderVariants
