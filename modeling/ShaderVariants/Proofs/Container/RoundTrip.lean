import Mathlib
import ShaderVariants.Proofs.Container.Lookup

/-!
# What was written is read back

A shader set that is written, finished and opened again holds the shaders and variants
that were written to it and no others, whatever has been looked up before.

## Main definitions

* `SetFile.Restores` — everything that was written is found, and nothing else.

## Main results

* `Writer.Wrote.mem_keysOf`, `Writer.Wrote.pairwise_keysOf` — the keys of a shader.
* `Writer.restores_of_run` — **the file of every run restores what was written.**
-/

namespace ShaderVariants

/-! ### Keys -/

namespace Writer.Wrote

variable {shaders : List ShaderEntry} {variants : List Variant} {w : Writer} {o : OpenFile}
  (h : Wrote shaders variants w) (hd : Distinguishable shaders variants) (ho : o.file = w.file)

include h hd ho

theorem keysOf_eq {s : OpenShader} (hs : s ∈ w.shaders) : ∃ i, w.shaders[i]? = some s ∧
    o.keysOf s.info.sourceHash =
      (w.file.usedEntriesOf i).map fun e => ⟨s.info.sourceHash, e.optionWord⟩ := by
  obtain ⟨i, hposition, hi⟩ := h.exists_position hd ho hs
  refine ⟨i, hi, ?_⟩
  rw [OpenFile.keysOf, hposition, ho]

theorem keysOf_eq_nil {hash : UInt32} (hnone : ∀ s ∈ w.shaders, s.info.sourceHash ≠ hash) :
    o.keysOf hash = [] := by
  have hposition : o.position? hash = none := by
    rw [h.position?_file hd ho]
    exact List.findIdx?_eq_none_iff.mpr fun s hs => decide_eq_false (hnone s hs)
  unfold OpenFile.keysOf
  rw [hposition]

/-- **The keys of a shader are the written ones.** -/
theorem mem_keysOf {hash : UInt32} {key : VariantKey} :
    key ∈ o.keysOf hash ↔ key ∈ variants.map (·.key) ∧ key.sourceHash = hash := by
  by_cases hshader : ∃ s ∈ w.shaders, s.info.sourceHash = hash
  · obtain ⟨s, hs, rfl⟩ := hshader
    obtain ⟨i, hi, hkeys⟩ := h.keysOf_eq hd ho hs
    have hperm := h.perm_usedEntriesOf hd hi
    rw [hkeys]
    constructor
    · intro hkey
      obtain ⟨e, he, rfl⟩ := List.mem_map.mp hkey
      obtain ⟨v, hv, hhash, hstands⟩ := h.exists_variant hs (hperm.mem_iff.mp he)
      refine ⟨List.mem_map.mpr ⟨v, hv, ?_⟩, rfl⟩
      exact VariantKey.eq_of_halves hhash hstands.word.symm
    · rintro ⟨hkey, hhash⟩
      obtain ⟨v, hv, rfl⟩ := List.mem_map.mp hkey
      obtain ⟨e, he, hstands⟩ := h.exists_entry hv hs hhash.symm
      refine List.mem_map.mpr ⟨e, hperm.mem_iff.mpr he, ?_⟩
      exact VariantKey.eq_of_halves hhash.symm hstands.word
  · -- without the shader there are no keys, and no variants either
    have hnone : ∀ s ∈ w.shaders, s.info.sourceHash ≠ hash := fun s hs heq =>
      hshader ⟨s, hs, heq⟩
    rw [h.keysOf_eq_nil hd ho hnone]
    constructor
    · intro hkey
      cases hkey
    · rintro ⟨hkey, rfl⟩
      obtain ⟨v, hv, rfl⟩ := List.mem_map.mp hkey
      obtain ⟨s, hs, hhash⟩ := h.known v hv
      exact absurd hhash (hnone s hs)

/-- **The keys of a shader ascend.** -/
theorem pairwise_keysOf (hash : UInt32) :
    (o.keysOf hash).Pairwise (·.optionWord < ·.optionWord) := by
  by_cases hshader : ∃ s ∈ w.shaders, s.info.sourceHash = hash
  · obtain ⟨s, hs, rfl⟩ := hshader
    obtain ⟨i, -, hkeys⟩ := h.keysOf_eq hd ho hs
    rw [hkeys]
    exact List.pairwise_map.mpr ((h.distinct_file hd).pairwise_usedEntriesOf i)
  · rw [h.keysOf_eq_nil hd ho fun s hs heq => hshader ⟨s, hs, heq⟩]
    exact .nil

end Writer.Wrote

namespace OpenFile.Coherent

variable {shaders : List ShaderEntry} {variants : List Variant} {w : Writer} {o : OpenFile}
  (hw : w.Wrote shaders variants) (hst : Storable shaders variants)

include hw hst

theorem mem_keysOf (h : Coherent w variants o) {hash : UInt32} {key : VariantKey} :
    key ∈ o.keysOf hash ↔ key ∈ variants.map (·.key) ∧ key.sourceHash = hash :=
  hw.mem_keysOf hst.distinguishable h.file

theorem pairwise_keysOf (h : Coherent w variants o) (hash : UInt32) :
    (o.keysOf hash).Pairwise (·.optionWord < ·.optionWord) :=
  hw.pairwise_keysOf hst.distinguishable h.file hash

end OpenFile.Coherent

/-- The entries in use are as many as the variants. -/
theorem Writer.Wrote.variantCount_file {shaders : List ShaderEntry} {variants : List Variant}
    {w : Writer} (h : w.Wrote shaders variants) (hst : Storable shaders variants) :
    w.file.variantCount = variants.length := by
  -- shader by shader, the entries in use are those that were written
  have hperm : (w.file.index.filter fun e => !e.isUnused).Perm (w.shaders.flatMap (·.used)) := by
    rw [Writer.index_file h.reserved, List.filter_flatMap]
    exact .flatMap_left _ fun s hs =>
      OpenShader.perm_filter_entries (h.words_lt hst.distinguishable hs)
  exact hperm.length_eq.trans h.counted

/-! ### The round trip -/

/-- Everything that was written is found in the opened file, and nothing else. -/
structure SetFile.Restores (f : SetFile) (shaders : List ShaderEntry) (variants : List Variant) :
    Prop where
  /-- The shaders are listed in order; only an empty source text is missing. -/
  shaders : f.shaders.map (·.toShaderEntry) = shaders.map (·.stored)
  /-- Whatever was looked up before, a written key leads to its variant. -/
  written : ∀ number o, OpenFile.Reachable f number o → ∀ v ∈ variants,
    ∃ s l, ({ own := o } : LookupSet).tryGet v.key = (s, .ok (some l)) ∧ l.variant = v
  /-- Whatever was looked up before, any other key leads nowhere. -/
  other : ∀ number o, OpenFile.Reachable f number o → ∀ key ∉ variants.map (·.key),
    ({ own := o } : LookupSet).tryGet key = ({ own := o }, .ok none)
  /-- The keys of a shader are those written to it, in ascending order. -/
  keys : ∀ number o, OpenFile.Reachable f number o → ∀ hash,
    (o.keysOf hash).Pairwise (·.optionWord < ·.optionWord) ∧
      ∀ key, key ∈ o.keysOf hash ↔ key ∈ variants.map (·.key) ∧ key.sourceHash = hash
  count : f.variantCount = variants.length

/-- **Container round trip.**  Finishing a run and opening the file succeed, and the file
restores what was written. -/
theorem Writer.restores_of_run (shaders : List ShaderEntry) (variants : List Variant)
    (w : Writer) (hst : Storable shaders variants) (hrun : Writer.run shaders variants = .ok w) :
    ∃ bytes f, w.finish = .ok bytes ∧ SetFile.ofBytes bytes = .ok f ∧
      f.Restores shaders variants := by
  have hw : w.Wrote shaders variants := wrote_run hst.hashes hrun
  have hlimit : ∀ v ∈ variants, v.key.optionWord < Word.limit := fun v hv =>
    (hst.words v hv).trans (by decide)
  obtain ⟨bytes, hfinish, hopen⟩ := ofBytes_finish hw hst.toHeaderFits hlimit
  refine ⟨bytes, w.file, hfinish, hopen, ?_, ?_, ?_, ?_, hw.variantCount_file hst⟩
  · rw [shaders_file, ← hw.announced, List.map_map]
    rfl
  · intro number o ho v hv
    obtain ⟨l, o', hload, hvariant, -⟩ :=
      (OpenFile.Coherent.of_reachable hw hst ho).load_of_mem hw hst hv
    refine ⟨{ own := o' }, l, ?_, hvariant⟩
    simp [LookupSet.tryGet, LookupSet.files, LookupSet.tryFiles, hload]
  · intro number o ho key hkey
    have hload := (OpenFile.Coherent.of_reachable hw hst ho).load_of_not_mem hw hst hkey
    simp [LookupSet.tryGet, LookupSet.files, LookupSet.tryFiles, hload]
  · intro number o ho hash
    have hcoherent := OpenFile.Coherent.of_reachable hw hst ho
    exact ⟨hcoherent.pairwise_keysOf hw hst hash, fun key => hcoherent.mem_keysOf hw hst⟩

/-- A lamp with three index entries and a smoke shader without source text.  The second option
bit of the lamp never changes its programs. -/
def lampEntries : List ShaderEntry :=
  [{ info := ⟨7, 0b10, [⟨"GLOW", []⟩, ⟨"BLEND", []⟩], ["position"], [], ["lights"]⟩
     name := "lamp", source := some "shader lamp", variantCount := 3 },
   { info := ⟨9, 0, [⟨"FADE", []⟩], [], [], []⟩
     name := "smoke", source := some "", variantCount := 1 }]

/-- The lamp with and without blending, and the smoke written in between. -/
def lampVariants : List Variant :=
  [⟨⟨7, 0b10⟩, .withAttachments 1, [], [1], [], [1, 2], [3]⟩,
   ⟨⟨9, 0b1⟩, .withAttachments 0, [], [], [], [], [4]⟩,
   ⟨⟨7, 0b00⟩, .withAttachments 2, [], [1], [], [1, 2], [3]⟩]

theorem sharePrograms_lampVariants : SharePrograms lampEntries lampVariants := by
  intro v hv u hu hsame
  have hhash := hsame.sourceHash_eq
  simp only [lampVariants, List.mem_cons, List.not_mem_nil, or_false] at hv hu
  rcases hv with rfl | rfl | rfl <;> rcases hu with rfl | rfl | rfl <;>
    first
    | exact ⟨rfl, rfl⟩
    | exact absurd hhash (by decide)

set_option maxRecDepth 10000 in
/-- The lamp and the smoke come back. -/
theorem lampVariants_restored : ∃ w bytes f, Writer.run lampEntries lampVariants = .ok w ∧
    w.finish = .ok bytes ∧ SetFile.ofBytes bytes = .ok f ∧
    f.Restores lampEntries lampVariants := by
  have hstorable : Storable lampEntries lampVariants :=
    ⟨⟨by decide, by decide, by decide⟩, by decide, by decide, by decide,
      sharePrograms_lampVariants⟩
  have hrun : (Writer.run lampEntries lampVariants).isOk = true := by decide
  cases hw : Writer.run lampEntries lampVariants with
  | error e => rw [hw] at hrun; cases hrun
  | ok w =>
    obtain ⟨bytes, f, hfinish, hopen, hrestores⟩ :=
      Writer.restores_of_run lampEntries lampVariants w hstorable hw
    exact ⟨w, bytes, f, rfl, hfinish, hopen, hrestores⟩

end ShaderVariants
