import Mathlib
import ShaderVariants.Proofs.Container.Caching
import ShaderVariants.Proofs.Container.Opening

/-!
# Looking up what was written

In the file of a finished writer, the search for a key goes from the checksum to the
shader, from the option word to the index entry, and from the entry to the variant.  What
has been read before is kept, and changes nothing.

## Main definitions

* `SharePrograms` — variants with the same program key have the same programs.
* `Distinguishable` — shaders and variants can be told apart.
* `Storable` — what a caller of the writer promises.
* `OpenFile.Reachable` — an opened file after any lookups.
* `OpenFile.Coherent` — everything that has been read is a written variant.

## Main results

* `Storable.readVariant_file` — an index entry is read as the variant it stands for.
* `OpenFile.Coherent.load_of_mem`, `OpenFile.Coherent.load_of_not_mem` — written keys are
  found, and no others.
* `OpenFile.Coherent.of_reachable` — lookups keep a file coherent.
* `Writer.Wrote.answer_eq` — the answers of a file.
-/

namespace ShaderVariants

open Decoder (Reads)

/-- Variants that have the same program key have the same programs. -/
def SharePrograms (shaders : List ShaderEntry) (variants : List Variant) : Prop :=
  ∀ v ∈ variants, ∀ u ∈ variants, SameProgramKey shaders v u →
    v.vertexProgram = u.vertexProgram ∧ v.fragmentProgram = u.fragmentProgram

/-! ### Positions of shaders -/

/-- With distinct checksums the last shader with a checksum is the first. -/
theorem OpenFile.position?_eq {o : OpenFile}
    (hnodup : (o.file.shaders.map (·.info.sourceHash)).Nodup) (hash : UInt32) :
    o.position? hash = o.file.shaders.findIdx? (·.info.sourceHash = hash) := by
  cases hfind : o.file.shaders.findIdx? (·.info.sourceHash = hash) with
  | none =>
    exact position?_eq_none_iff.mpr fun s hs =>
      of_decide_eq_false (List.findIdx?_eq_none_iff.mp hfind s hs)
  | some i =>
    obtain ⟨hi, hhash, -⟩ := List.findIdx?_eq_some_iff_getElem.mp hfind
    exact position?_of_getElem? hnodup (List.getElem?_eq_getElem hi) (of_decide_eq_true hhash)

/-! ### Entries of a shader -/

namespace OpenShader

variable {s : OpenShader}

theorem isUnused_eq_false {e : IndexEntry} (h : e.optionWord < 0xFFFFFFFF) :
    e.isUnused = false :=
  IndexEntry.isUnused_eq_false h.ne

/-- The entries in use are those that were written, in ascending order. -/
theorem perm_filter_entries (hwords : ∀ e ∈ s.used, e.optionWord < 0xFFFFFFFF) :
    (s.entries.filter fun e => !e.isUnused).Perm s.used := by
  have hused : s.used.filter (fun e => !e.isUnused) = s.used :=
    List.filter_eq_self.mpr fun e he => by rw [isUnused_eq_false (hwords e he)]; rfl
  have hrest : (List.replicate (s.variantCount - s.used.length) IndexEntry.unused).filter
      (fun e => !e.isUnused) = [] :=
    List.filter_eq_nil_iff.mpr fun e he => by rw [List.eq_of_mem_replicate he]; decide
  have hperm := (IndexEntry.perm_sorted (s.used ++ List.replicate
    (s.variantCount - s.used.length) .unused)).filter fun e => !e.isUnused
  rwa [List.filter_append, hused, hrest, List.append_nil] at hperm

end OpenShader

/-! ### Variants of the body -/

namespace SetFile

variable (f : SetFile)

theorem programsAt_eq {place : ℕ} {u : Variant} (h : Found f.body place u.programs) :
    f.programsAt place = .ok (u.vertexProgram, u.fragmentProgram) := by
  have hblobs : Reads (do
      let vertex ← Decoder.blob
      let fragment ← Decoder.blob
      return (vertex, fragment)) u.programs (u.vertexProgram, u.fragmentProgram) :=
    (Reads.blob u.vertexProgram).bind (Reads.blob u.fragmentProgram).bind_pure
  obtain ⟨rest, hrun⟩ := h.exists_read hblobs
  unfold programsAt StateT.run
  dsimp only
  rw [hrun]
  rfl

theorem readVariant_eq (hash : UInt32) {entry : IndexEntry} {body : VariantBody} {p : ℕ}
    {vertex fragment : List UInt8}
    (h : Found f.body entry.offset (encode body ++ Encoded.word p))
    (hprograms : f.programsAt p = .ok (vertex, fragment)) :
    f.readVariant hash entry = .ok ⟨⟨⟨hash, entry.optionWord⟩, body.pipeline, body.attributes,
      body.setSizes, body.bindings, vertex, fragment⟩, p⟩ := by
  have hhead : Reads (do
      let body ← decode
      let place ← Decoder.word
      return (body, place)) (encode body ++ Encoded.word p) (body, p) :=
    (reads_encode body).bind (Reads.word p).bind_pure
  obtain ⟨rest, hrun⟩ := h.exists_read hhead
  have hbody : f.bodyAt entry = .ok (body, p) := by
    unfold bodyAt StateT.run
    dsimp only
    rw [hrun]
    rfl
  unfold readVariant
  rw [hbody]
  change (f.programsAt p >>= _) = _
  rw [hprograms]
  rfl

end SetFile

/-! ### The file of a run -/

/-- Shaders and variants can be told apart, from each other and from an unused entry. -/
structure Distinguishable (shaders : List ShaderEntry) (variants : List Variant) : Prop where
  hashes : (shaders.map (·.info.sourceHash)).Nodup
  keys : (variants.map (·.key)).Nodup
  words : ∀ v ∈ variants, v.key.optionWord < 0xFFFFFFFF

/-- What a caller of the writer promises: shaders and variants can be told apart, from each
other and from an unused entry, programs are shared where their keys say so, and the header
fits its file. -/
structure Storable (shaders : List ShaderEntry) (variants : List Variant) : Prop
    extends HeaderFits shaders where
  hashes : (shaders.map (·.info.sourceHash)).Nodup
  keys : (variants.map (·.key)).Nodup
  words : ∀ v ∈ variants, v.key.optionWord < 0xFFFFFFFF
  programs : SharePrograms shaders variants

theorem Storable.distinguishable {shaders : List ShaderEntry} {variants : List Variant}
    (h : Storable shaders variants) : Distinguishable shaders variants :=
  ⟨h.hashes, h.keys, h.words⟩

/-- **An index entry is read as the variant it stands for.** -/
theorem Storable.readVariant_file {shaders : List ShaderEntry} {variants : List Variant}
    {w : Writer} (h : Storable shaders variants) {e : IndexEntry} {v : Variant}
    (hv : v ∈ variants) (hstands : e.StandsFor shaders variants w.body v) :
    ∃ p, w.file.readVariant v.key.sourceHash e = .ok ⟨v, p⟩ := by
  -- the programs that are read are those of `u`, which are the same
  obtain ⟨u, hu, hsame, p, hfound, hprograms⟩ := hstands.stored
  obtain ⟨hvertex, hfragment⟩ := h.programs v hv u hu hsame
  have hread := w.file.readVariant_eq v.key.sourceHash hfound (w.file.programsAt_eq hprograms)
  refine ⟨p, hread.trans ?_⟩
  rw [hstands.word, ← hvertex, ← hfragment]
  rfl

namespace Writer.Wrote

variable {shaders : List ShaderEntry} {variants : List Variant} {w : Writer}

theorem words_lt (h : Wrote shaders variants w) (hd : Distinguishable shaders variants)
    {s : OpenShader} (hs : s ∈ w.shaders) : ∀ e ∈ s.used, e.optionWord < 0xFFFFFFFF := by
  intro e he
  obtain ⟨v, hv, -, hstands⟩ := h.exists_variant hs he
  exact hstands.word ▸ hd.words v hv

theorem position?_file (h : Wrote shaders variants w) (hd : Distinguishable shaders variants)
    {o : OpenFile} (ho : o.file = w.file) (hash : UInt32) :
    o.position? hash = w.shaders.findIdx? (·.info.sourceHash = hash) := by
  have hhashes : o.file.shaders.map (·.info.sourceHash) =
      w.shaders.map (·.info.sourceHash) := ho ▸ hashes_file
  rw [OpenFile.position?_eq (hhashes ▸ h.nodup_hashes hd.hashes)]
  have hfind := congrArg (List.findIdx? (· = hash)) hhashes
  rwa [List.findIdx?_map, List.findIdx?_map] at hfind

/-- A shader is found under its checksum. -/
theorem exists_position (h : Wrote shaders variants w) (hd : Distinguishable shaders variants)
    {o : OpenFile} (ho : o.file = w.file) {s : OpenShader} (hs : s ∈ w.shaders) :
    ∃ i, o.position? s.info.sourceHash = some i ∧ w.shaders[i]? = some s := by
  rw [h.position?_file hd ho]
  cases hfind : w.shaders.findIdx? (·.info.sourceHash = s.info.sourceHash) with
  | none =>
    have hne : decide (s.info.sourceHash = s.info.sourceHash) = false :=
      List.findIdx?_eq_none_iff.mp hfind s hs
    exact absurd rfl (of_decide_eq_false hne)
  | some i =>
    obtain ⟨hi, hhash, -⟩ := List.findIdx?_eq_some_iff_getElem.mp hfind
    refine ⟨i, rfl, ?_⟩
    rw [List.getElem?_eq_getElem hi, List.inj_on_of_nodup_map (h.nodup_hashes hd.hashes)
      (List.getElem_mem hi) hs (of_decide_eq_true hhash)]

theorem usedEntriesOf_file (h : Wrote shaders variants w) {i : ℕ} {s : OpenShader}
    (hi : w.shaders[i]? = some s) :
    w.file.usedEntriesOf i = s.entries.filter fun e => !e.isUnused := by
  unfold SetFile.usedEntriesOf
  rw [entriesOf_file h.reserved, hi]
  rfl

/-- The entries in use that a file finds for a shader are those that were written. -/
theorem perm_usedEntriesOf (h : Wrote shaders variants w) (hd : Distinguishable shaders variants)
    {i : ℕ} {s : OpenShader} (hi : w.shaders[i]? = some s) :
    (w.file.usedEntriesOf i).Perm s.used := by
  rw [h.usedEntriesOf_file hi]
  exact OpenShader.perm_filter_entries (h.words_lt hd (List.mem_of_getElem? hi))

/-- What is written to a file can be told apart in it. -/
theorem distinct_file (h : Wrote shaders variants w) (hd : Distinguishable shaders variants) :
    w.file.Distinct := by
  have hnil : ∀ i, w.shaders[i]? = none → w.file.usedEntriesOf i = [] := by
    intro i hi
    rw [SetFile.usedEntriesOf, entriesOf_file h.reserved, hi]
    rfl
  refine ⟨?_, fun i => ?_, fun i e he => ?_⟩
  · rw [hashes_file]
    exact h.nodup_hashes hd.hashes
  · cases hi : w.shaders[i]? with
    | none =>
      rw [hnil i hi]
      exact List.nodup_nil
    | some s =>
      refine ((h.perm_usedEntriesOf hd hi).map _).nodup_iff.mpr ?_
      exact h.nodup_words hd.keys (List.mem_of_getElem? hi)
  · cases hi : w.shaders[i]? with
    | none =>
      rw [hnil i hi] at he
      cases he
    | some s =>
      have hused := (h.perm_usedEntriesOf hd hi).mem_iff.mp he
      exact (h.words_lt hd (List.mem_of_getElem? hi) e hused).ne

/-- Looking for an option word finds the entry that was written with it. -/
theorem findEntry?_file (h : Wrote shaders variants w) (hd : Distinguishable shaders variants)
    {i : ℕ} {s : OpenShader} (hi : w.shaders[i]? = some s) (word : OptionWord) :
    w.file.findEntry? i word = s.used.find? (·.optionWord = word) := by
  have hdistinct := h.distinct_file hd
  have hnodup := h.nodup_words hd.keys (List.mem_of_getElem? hi)
  refine Option.ext fun e => ?_
  rw [find?_key_iff hnodup, SetFile.findEntry?_eq_some_iff (hdistinct.words i) (hdistinct.used i),
    (h.perm_usedEntriesOf hd hi).mem_iff]

/-- Every entry in use is read as a written variant, under the key of the entry. -/
theorem exists_readVariant (h : Wrote shaders variants w) (hst : Storable shaders variants)
    {s : OpenShader} (hs : s ∈ w.shaders) {e : IndexEntry} (he : e ∈ s.used) :
    ∃ v ∈ variants, v.key = ⟨s.info.sourceHash, e.optionWord⟩ ∧
      ∃ p, w.file.readVariant s.info.sourceHash e = .ok ⟨v, p⟩ := by
  obtain ⟨v, hv, hhash, hstands⟩ := h.exists_variant hs he
  refine ⟨v, hv, VariantKey.eq_of_halves hhash hstands.word.symm, ?_⟩
  rw [← hhash]
  exact hst.readVariant_file hv hstands

end Writer.Wrote

/-! ### Lookups -/

namespace OpenFile

/-- The states of a file that was opened, under its number. -/
inductive Reachable (f : SetFile) (number : ℕ) : OpenFile → Prop where
  | opened : Reachable f number { file := f, number }
  | load {o o' : OpenFile} {key : VariantKey} {found : Option Loaded} :
    Reachable f number o → o.load key = .ok (found, o') → Reachable f number o'
  | loadAll {o : OpenFile} : Reachable f number o → Reachable f number o.loadAll.1
  | clear {o : OpenFile} : Reachable f number o → Reachable f number o.clear

/-- The file is that of the writer, with its programs, and holds written variants only, each
under its key. -/
structure Coherent (w : Writer) (variants : List Variant) (o : OpenFile) : Prop where
  file : o.file = w.file
  programs : o.file.HoldsPrograms o.programs
  loaded : ∀ key l, (key, l) ∈ o.loaded → l.variant ∈ variants ∧ l.variant.key = key

namespace Coherent

variable {shaders : List ShaderEntry} {variants : List Variant} {w : Writer} {o : OpenFile}
  (hw : w.Wrote shaders variants) (hst : Storable shaders variants)

include hw hst

/-- Reading an entry in use keeps what has been read coherent. -/
theorem loadEntry (h : Coherent w variants o) {s : OpenShader} (hs : s ∈ w.shaders)
    {e : IndexEntry} (he : e ∈ s.used) : ∃ l o', o.loadEntry s.info.sourceHash e = .ok (l, o') ∧
      l.variant ∈ variants ∧ l.variant.key = ⟨s.info.sourceHash, e.optionWord⟩ ∧
      Coherent w variants o' := by
  cases hlook : o.loaded.lookup ⟨s.info.sourceHash, e.optionWord⟩ with
  | some l =>
    obtain ⟨hmem, hkey⟩ := h.loaded _ l (mem_of_lookup hlook)
    refine ⟨l, o, ?_, hmem, hkey, h⟩
    unfold OpenFile.loadEntry
    dsimp only
    rw [hlook]
  | none =>
    -- nothing has been read under the key, so the file is read
    obtain ⟨v, hv, hkey, p, hread⟩ := hw.exists_readVariant hst hs he
    obtain ⟨cached, hcached, hload⟩ := loadEntry_of_ok h.programs hlook (h.file.symm ▸ hread)
    refine ⟨_, _, hload, hv, hkey, h.file, hcached, ?_⟩
    intro key l hl
    rcases List.mem_append.mp hl with hl | hl
    · exact h.loaded key l hl
    · obtain ⟨rfl, rfl⟩ := Prod.mk.inj (List.mem_singleton.mp hl)
      exact ⟨hv, hkey⟩

/-- **Every written key is found**, and stands for its variant. -/
theorem load_of_mem (h : Coherent w variants o) {v : Variant} (hv : v ∈ variants) :
    ∃ l o', o.load v.key = .ok (some l, o') ∧ l.variant = v ∧ Coherent w variants o' := by
  unfold OpenFile.load
  cases hlook : o.loaded.lookup v.key with
  | some l =>
    obtain ⟨hmem, hkey⟩ := h.loaded _ l (mem_of_lookup hlook)
    exact ⟨l, o, rfl, List.inj_on_of_nodup_map hst.keys hmem hv hkey, h⟩
  | none =>
    obtain ⟨s, hs, hhash⟩ := hw.known v hv
    obtain ⟨e, he, hstands⟩ := hw.exists_entry hv hs hhash
    obtain ⟨i, hposition, hi⟩ := hw.exists_position hst.distinguishable h.file hs
    have hfind : w.file.findEntry? i v.key.optionWord = some e := by
      rw [hw.findEntry?_file hst.distinguishable hi]
      exact (find?_key_iff (hw.nodup_words hst.keys hs)).mpr ⟨he, hstands.word⟩
    obtain ⟨l, o', hload, hmem, hkey, ho'⟩ := h.loadEntry hw hst hs he
    dsimp only
    rw [← hhash, hposition, Option.bind_some, h.file, hfind]
    dsimp only
    rw [hload]
    refine ⟨l, o', rfl, List.inj_on_of_nodup_map hst.keys hmem hv ?_, ho'⟩
    exact hkey.trans (VariantKey.eq_of_halves hhash hstands.word)

/-- **No other key is found.** -/
theorem load_of_not_mem (h : Coherent w variants o) {key : VariantKey}
    (hkey : key ∉ variants.map (·.key)) : o.load key = .ok (none, o) := by
  unfold OpenFile.load
  cases hlook : o.loaded.lookup key with
  | some l =>
    obtain ⟨hmem, hl⟩ := h.loaded _ l (mem_of_lookup hlook)
    exact absurd (List.mem_map.mpr ⟨l.variant, hmem, hl⟩) hkey
  | none =>
    have hnone : (o.position? key.sourceHash).bind (o.file.findEntry? · key.optionWord) =
        none := by
      rw [hw.position?_file hst.distinguishable h.file, h.file]
      cases hfind : w.shaders.findIdx? (·.info.sourceHash = key.sourceHash) with
      | none => rfl
      | some i =>
        obtain ⟨hi, hhash, -⟩ := List.findIdx?_eq_some_iff_getElem.mp hfind
        rw [Option.bind_some,
          hw.findEntry?_file hst.distinguishable (List.getElem?_eq_getElem hi)]
        -- an entry with the word of the key would be a written variant
        refine List.find?_eq_none.mpr fun e he heq => hkey ?_
        obtain ⟨v, hv, hvkey, -⟩ := hw.exists_readVariant hst (List.getElem_mem hi) he
        refine List.mem_map.mpr ⟨v, hv, hvkey.trans ?_⟩
        exact VariantKey.eq_of_halves (of_decide_eq_true hhash) (of_decide_eq_true heq)
    dsimp only
    rw [hnone]

theorem loadEntries : ∀ (entries : List (UInt32 × IndexEntry)) (o : OpenFile),
    Coherent w variants o →
    (∀ p ∈ entries, ∃ s ∈ w.shaders, s.info.sourceHash = p.1 ∧ p.2 ∈ s.used) →
    (o.loadEntries entries).2 = .ok () ∧ Coherent w variants (o.loadEntries entries).1 := by
  intro entries
  induction entries with
  | nil => exact fun o h _ => ⟨rfl, h⟩
  | cons p rest ih =>
    intro o h hused
    obtain ⟨hash, e⟩ := p
    obtain ⟨s, hs, rfl, he⟩ := hused _ List.mem_cons_self
    obtain ⟨l, o', hload, -, -, ho'⟩ := h.loadEntry hw hst hs he
    have hrest := ih o' ho' fun q hq => hused q (List.mem_cons_of_mem _ hq)
    unfold OpenFile.loadEntries
    rwa [hload]

/-- Reading all variants of the file succeeds. -/
theorem loadAll (h : Coherent w variants o) :
    o.loadAll.2 = .ok () ∧ Coherent w variants o.loadAll.1 := by
  refine loadEntries hw hst o.usedEntries o h fun p hp => ?_
  unfold usedEntries at hp
  obtain ⟨⟨s, i⟩, hsi, hp⟩ := List.mem_flatMap.mp hp
  obtain ⟨e, he, rfl⟩ := List.mem_map.mp hp
  rw [List.mem_zipIdx_iff_getElem?] at hsi
  rw [h.file] at hsi he
  -- the shader of the file at this position is the one of the writer
  have hentry := congrArg (·[i]?) (Writer.shaders_file (w := w))
  rw [List.getElem?_map, hsi, List.getElem?_map] at hentry
  cases hi : w.shaders[i]? with
  | none =>
    rw [hi] at hentry
    cases hentry
  | some t =>
    rw [hi] at hentry
    have hhash : t.info.sourceHash = s.info.sourceHash :=
      congrArg (·.info.sourceHash) (Option.some.inj hentry).symm
    have ht : t ∈ w.shaders := List.mem_of_getElem? hi
    exact ⟨t, ht, hhash, (hw.perm_usedEntriesOf hst.distinguishable hi).mem_iff.mp he⟩

/-- **Whatever was looked up before**, the file holds written variants only. -/
theorem of_reachable {number : ℕ} (h : Reachable w.file number o) : Coherent w variants o := by
  induction h with
  | opened =>
    exact ⟨rfl, fun _ _ hp => absurd hp List.not_mem_nil,
      fun key l hl => absurd hl List.not_mem_nil⟩
  | @load o o' key found _ hload ih =>
    by_cases hkey : key ∈ variants.map (·.key)
    · obtain ⟨v, hv, rfl⟩ := List.mem_map.mp hkey
      obtain ⟨l, o'', hload', -, ho''⟩ := ih.load_of_mem hw hst hv
      obtain ⟨-, rfl⟩ := Prod.mk.inj (Except.ok.inj (hload.symm.trans hload'))
      exact ho''
    · have hload' := ih.load_of_not_mem hw hst hkey
      obtain ⟨-, rfl⟩ := Prod.mk.inj (Except.ok.inj (hload.symm.trans hload'))
      exact ih
  | loadAll _ ih => exact (ih.loadAll hw hst).2
  | clear _ ih =>
    exact ⟨ih.file, fun _ _ hp => absurd hp List.not_mem_nil,
      fun key l hl => absurd hl List.not_mem_nil⟩

end Coherent

end OpenFile

/-- The answers of a file: what was written under the key, if anything was. -/
theorem Writer.Wrote.answer_eq {shaders : List ShaderEntry} {variants : List Variant}
    {w : Writer} (hw : w.Wrote shaders variants) (hst : Storable shaders variants) (number : ℕ)
    (key : VariantKey) : ({ file := w.file, number } : OpenFile).answer key =
      .ok (variants.find? (·.key = key)) := by
  have hcoherent : OpenFile.Coherent w variants { file := w.file, number } :=
    OpenFile.Coherent.of_reachable hw hst .opened
  unfold OpenFile.answer
  by_cases hkey : key ∈ variants.map (·.key)
  · obtain ⟨v, hv, rfl⟩ := List.mem_map.mp hkey
    obtain ⟨l, o', hload, rfl, -⟩ := hcoherent.load_of_mem hw hst hv
    rw [LookupSet.tryGet_of_load hload, (find?_key_iff hst.keys).mpr ⟨hv, rfl⟩]
    rfl
  · have hnone : variants.find? (·.key = key) = none :=
      List.find?_eq_none.mpr fun v hv heq =>
        hkey (List.mem_map.mpr ⟨v, hv, of_decide_eq_true heq⟩)
    rw [LookupSet.tryGet_of_load (hcoherent.load_of_not_mem hw hst hkey), hnone]
    rfl

end ShaderVariants
