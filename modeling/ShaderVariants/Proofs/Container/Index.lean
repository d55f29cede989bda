import Mathlib
import ShaderVariants.Proofs.Binary.Canonical
import ShaderVariants.Proofs.Container.Opening
import ShaderVariants.Proofs.Container.Search

/-!
# The index of any bytes

Bytes that open as a file need not come from a writer.  The numbers of entries in their
header are then checked against each other only, and the index behind it may be in any order
and hold any number of unused entries.  Still each shader is given the entries that are
stored for it, and a lookup finds what going through them one by one would find.

## Main definitions

* `SetFile.Indexed` — what holds of the index of an opened file.

## Main results

* `SetFile.entriesIn_sortEntries` — each part of the index is sorted for itself.
* `SetFile.findEntry?_eq_find?` — the search that halves agrees with the search in order.
* `SetFile.indexed_of_ofBytes` — **any bytes that open** give each shader its own entries,
  sorted, and lookups find them.
-/

namespace ShaderVariants

/-- An entry that was read from the index is written as it was. -/
theorem Decoder.Canonical.entry : Canonical (decode : Decoder IndexEntry) encode := by
  intro input rest e h
  obtain ⟨n, middle, hword, h⟩ := exists_of_run_bind h
  obtain ⟨offset, rest', hoffset, h⟩ := exists_of_run_bind h
  cases h
  obtain ⟨hfits, rfl⟩ := word hword
  obtain ⟨hfits', rfl⟩ := word hoffset
  change (Encoded.word n ++ Encoded.word offset).fits = true ∧
    _ = (Encoded.word n ++ Encoded.word offset).bytes ++ rest
  rw [Encoded.fits_append, hfits, hfits', Encoded.bytes_append_of_fits hfits, List.append_assoc]
  exact ⟨rfl, rfl⟩

namespace SetFile

/-! ### The parts of the index -/

/-- The part of a shader begins where the parts of those before it end. -/
theorem variantStart_listShaders (shaders : List ShaderEntry) : ∀ (start i : ℕ) {s : ListedShader},
    (listShaders start shaders)[i]? = some s → s.variantStart =
      start + (((listShaders start shaders).take i).map (·.variantCount)).sum := by
  induction shaders with
  | nil => exact fun _ _ _ hs => absurd hs (by simp [listShaders])
  | cons t rest ih =>
    intro start i s hs
    cases i with
    | zero =>
      obtain rfl := Option.some.inj hs
      rfl
    | succ i =>
      rw [listShaders, List.getElem?_cons_succ] at hs
      rw [ih _ i hs, listShaders, List.take_succ_cons, List.map_cons, List.sum_cons, add_assoc]

theorem sum_listShaders (shaders : List ShaderEntry) : ∀ start : ℕ,
    ((listShaders start shaders).map (·.variantCount)).sum = ShaderEntry.entryCount shaders := by
  induction shaders with
  | nil => exact fun _ => rfl
  | cons t rest ih =>
    intro start
    rw [listShaders, List.map_cons, List.sum_cons, ih, ShaderEntry.entryCount]

/-- No part goes beyond the last one. -/
theorem le_entryCount (shaders : List ShaderEntry) : ∀ (start : ℕ) {s : ListedShader},
    s ∈ listShaders start shaders →
      s.variantStart + s.variantCount ≤ start + ShaderEntry.entryCount shaders := by
  induction shaders with
  | nil => exact fun _ _ hs => absurd hs List.not_mem_nil
  | cons t rest ih =>
    intro start s hs
    rw [ShaderEntry.entryCount]
    rcases List.mem_cons.mp hs with rfl | hs
    · exact Nat.add_le_add_left (Nat.le_add_right _ _) start
    · have hrest := ih _ hs
      omega

/-- Each part of the index is sorted for itself.  The entries in front of it may be in any
order. -/
theorem entriesIn_sortEntries (shaders : List ShaderEntry) : ∀ front front' entries,
    front.length = front'.length → ShaderEntry.entryCount shaders ≤ entries.length →
    ∀ s ∈ listShaders front.length shaders,
      s.entriesIn (front ++ sortEntries shaders entries) =
        IndexEntry.sorted (s.entriesIn (front' ++ entries)) := by
  induction shaders with
  | nil => exact fun _ _ _ _ _ _ hs => absurd hs List.not_mem_nil
  | cons t rest ih =>
    intro front front' entries hfront henough s hs
    rw [ShaderEntry.entryCount] at henough
    have hsorted : (IndexEntry.sorted (entries.take t.variantCount)).length = t.variantCount := by
      rw [(IndexEntry.perm_sorted _).length_eq, List.length_take]
      omega
    have htaken : (entries.take t.variantCount).length = t.variantCount := by
      rw [List.length_take]
      omega
    rcases List.mem_cons.mp hs with rfl | hs
    · simp only [ListedShader.entriesIn, sortEntries]
      rw [List.drop_left, List.drop_left' hfront.symm, List.take_left' hsorted]
    · -- the entries of this shader lie in front of those of the others
      have hrest := ih (front ++ IndexEntry.sorted (entries.take t.variantCount))
        (front' ++ entries.take t.variantCount) (entries.drop t.variantCount)
        (by rw [List.length_append, List.length_append, hfront, hsorted, htaken])
        (by rw [List.length_drop]; omega) s
      rw [List.length_append, hsorted, List.append_assoc, List.append_assoc,
        List.take_append_drop] at hrest
      exact hrest hs

theorem length_sortEntries (shaders : List ShaderEntry) : ∀ entries : List IndexEntry,
    ShaderEntry.entryCount shaders = entries.length →
    (sortEntries shaders entries).length = entries.length := by
  induction shaders with
  | nil => exact fun _ h => h
  | cons t rest ih =>
    intro entries h
    rw [ShaderEntry.entryCount] at h
    have hrest := ih (entries.drop t.variantCount) (by rw [List.length_drop]; omega)
    rw [sortEntries, List.length_append, (IndexEntry.perm_sorted _).length_eq, hrest,
      ← List.length_append, List.take_append_drop]

/-! ### Lookups -/

/-- In a list without two entries for a word, going through it finds the entry of the word. -/
theorem find?_eq_some_iff_of_nodup {entries : List IndexEntry} {word : OptionWord}
    (h : (entries.map (·.optionWord)).Nodup) {e : IndexEntry} :
    entries.find? (·.optionWord = word) = some e ↔ e ∈ entries ∧ e.optionWord = word := by
  constructor
  · exact fun hfind => ⟨List.mem_of_find?_eq_some hfind, by simpa using List.find?_some hfind⟩
  · rintro ⟨he, rfl⟩
    have hsome : (entries.find? (·.optionWord = e.optionWord)).isSome :=
      List.find?_isSome.mpr ⟨e, he, decide_eq_true rfl⟩
    obtain ⟨e', hfind⟩ := Option.isSome_iff_exists.mp hsome
    have hword : e'.optionWord = e.optionWord := by simpa using List.find?_some hfind
    rw [hfind, List.inj_on_of_nodup_map h (List.mem_of_find?_eq_some hfind) he hword]

/-- **Halving the sorted entries** finds what going through the entries finds, in whatever
order they are stored. -/
theorem findEntry?_eq_find? {f : SetFile} {i : ℕ} {used : List IndexEntry}
    (hperm : (f.usedEntriesOf i).Perm used) (hnodup : (used.map (·.optionWord)).Nodup)
    (hused : ∀ e ∈ used, e.optionWord ≠ 0xFFFFFFFF) (word : OptionWord) :
    f.findEntry? i word = used.find? (·.optionWord = word) := by
  refine Option.ext fun e => ?_
  rw [find?_eq_some_iff_of_nodup hnodup, ← hperm.mem_iff]
  exact findEntry?_eq_some_iff ((hperm.map _).nodup_iff.mpr hnodup)
    fun e he => hused e (hperm.mem_iff.mp he)

/-! ### Opened files -/

/-- What holds of the index of a file whose entries were stored as `stored`. -/
structure Indexed (f : SetFile) (stored : List IndexEntry) : Prop where
  /-- The part of a shader begins where the parts of those before it end. -/
  start : ∀ i s, f.shaders[i]? = some s →
    s.variantStart = ((f.shaders.take i).map (·.variantCount)).sum
  /-- The parts of all shaders make up the index. -/
  total : (f.shaders.map (·.variantCount)).sum = f.index.length
  length_stored : stored.length = f.index.length
  /-- The entries of a shader are those stored for it, in ascending order. -/
  entries : ∀ i s, f.shaders[i]? = some s → ∃ entries, f.entriesOf i = some entries ∧
    entries.length = s.variantCount ∧ entries.Perm (s.entriesIn stored) ∧
    entries.Pairwise (·.optionWord ≤ ·.optionWord)
  /-- A lookup finds the entry in use that has the word, as going through the stored entries
  would, provided that the entries in use can be told apart, from each other and from the
  unused ones. -/
  find : ∀ i s, f.shaders[i]? = some s → ∀ used,
    used = (s.entriesIn stored).filter (fun e => !e.isUnused) →
    (used.map (·.optionWord)).Nodup → (∀ e ∈ used, e.optionWord ≠ 0xFFFFFFFF) → ∀ word,
      (∀ e, f.findEntry? i word = some e ↔ e ∈ used ∧ e.optionWord = word) ∧
      f.findEntry? i word = used.find? (·.optionWord = word)
  /-- Nothing is found for a shader that is not there. -/
  find_none : ∀ i word, f.shaders[i]? = none → f.findEntry? i word = none

theorem indexed_ofParts {shaders : List ShaderEntry} {stored : List IndexEntry}
    {body : List UInt8} (hlength : stored.length = ShaderEntry.entryCount shaders) :
    (ofParts shaders stored body).Indexed stored := by
  have hentries : ∀ i s, (ofParts shaders stored body).shaders[i]? = some s →
      (ofParts shaders stored body).entriesOf i =
        some (IndexEntry.sorted (s.entriesIn stored)) := by
    intro i s hs
    have hsorted := entriesIn_sortEntries shaders [] [] stored rfl hlength.ge s
      (List.mem_of_getElem? hs)
    rw [List.nil_append, List.nil_append] at hsorted
    rw [entriesOf, hs, Option.map_some, ← hsorted]
    rfl
  have htotal := sum_listShaders shaders 0
  have hindex := length_sortEntries shaders stored hlength.symm
  refine ⟨fun i s hs => ?_, ?_, hindex.symm, fun i s hs => ?_, fun i s hs used hused hnodup hword
    word => ?_, fun i word hs => ?_⟩
  · rw [variantStart_listShaders shaders 0 i hs, Nat.zero_add]
    rfl
  · exact htotal.trans (hlength.symm.trans hindex.symm)
  · refine ⟨_, hentries i s hs, ?_, IndexEntry.perm_sorted _, IndexEntry.pairwise_sorted _⟩
    have hle := le_entryCount shaders 0 (List.mem_of_getElem? hs)
    rw [(IndexEntry.perm_sorted _).length_eq, ListedShader.entriesIn, List.length_take,
      List.length_drop]
    omega
  · have hperm : ((ofParts shaders stored body).usedEntriesOf i).Perm used := by
      rw [usedEntriesOf, hentries i s hs, Option.getD_some, hused]
      exact (IndexEntry.perm_sorted _).filter _
    have hfind := findEntry?_eq_find? hperm hnodup hword word
    exact ⟨fun e => by rw [hfind, find?_eq_some_iff_of_nodup hnodup], hfind⟩
  · unfold findEntry?
    rw [entriesOf, hs]
    rfl

/-- **Any bytes that open as a file** hold its header, then the entries of its index in some
order, then its body.  The shaders have consecutive parts of the index, which make up all of
it; the entries of each are those stored for it in ascending order; and a lookup finds what
going through them finds. -/
theorem indexed_of_ofBytes {bytes : List UInt8} {f : SetFile} (h : ofBytes bytes = .ok f) :
    ∃ stored : List IndexEntry, header.run bytes = .ok (f.shaders.map (·.toShaderEntry),
      (Encoded.concat encode stored).bytes ++ f.body) ∧ f.Indexed stored := by
  unfold ofBytes at h
  cases hparts : decoder.run bytes with
  | error e =>
    rw [hparts] at h
    cases h
  | ok parts =>
    obtain ⟨⟨shaders, stored⟩, body⟩ := parts
    rw [hparts] at h
    obtain rfl := Except.ok.inj h
    obtain ⟨shaders', middle, hheader, hparts⟩ := Decoder.exists_of_run_bind hparts
    obtain ⟨stored', body', hstored, hparts⟩ := Decoder.exists_of_run_bind hparts
    cases hparts
    obtain ⟨hlength, -, rfl⟩ := Decoder.Canonical.entry.times _ hstored
    refine ⟨stored, ?_, indexed_ofParts hlength⟩
    rw [StateT.run, hheader, ofParts, map_listShaders]

/-- A lamp with three entries and a candle with one. -/
def lampAndCandle : List ShaderEntry :=
  [{ info := ⟨7, 0, [⟨"GLOW", []⟩], [], [], []⟩
     name := "lamp", source := none, variantCount := 3 },
   { info := ⟨8, 0, [⟨"LIT", []⟩], [], [], []⟩
     name := "candle", source := none, variantCount := 1 }]

/-- The entries of lamp and candle as no writer leaves them, the unused one in front. -/
def shuffledEntries : List IndexEntry := [.unused, ⟨5, 0⟩, ⟨2, 9⟩, ⟨5, 4⟩]

/-- A file with the entries. -/
def shuffledBytes : List UInt8 :=
  (Encoded.word magicNumber ++ Encoded.word formatVersion ++ Encoded.word 2 ++ Encoded.word 4 ++
    Encoded.concat encode lampAndCandle ++ Encoded.concat encode shuffledEntries).bytes

set_option maxRecDepth 10000 in
/-- The entries of the lamp are sorted, and found among themselves only. -/
theorem shuffledBytes_indexed : ∃ f, ofBytes shuffledBytes = .ok f ∧
    (∃ stored : List IndexEntry, header.run shuffledBytes =
      .ok (f.shaders.map (·.toShaderEntry), (Encoded.concat encode stored).bytes ++ f.body) ∧
      f.Indexed stored) ∧
    f.entriesOf 0 = some [⟨2, 9⟩, ⟨5, 0⟩, .unused] ∧
    f.findEntry? 0 5 = some ⟨5, 0⟩ ∧ f.findEntry? 1 5 = some ⟨5, 4⟩ ∧ f.findEntry? 1 2 = none := by
  have hopen : ofBytes shuffledBytes = .ok (ofParts lampAndCandle shuffledEntries []) := by rfl
  exact ⟨_, hopen, indexed_of_ofBytes hopen, by cbv, by cbv, by cbv, by cbv⟩

end SetFile

end ShaderVariants
