import Mathlib
import ShaderVariants.Proofs.Build.Batch
import ShaderVariants.Proofs.Container.Lookup

/-!
# The variants of a build

What a build makes of a word is the first variant of its group with another key and another
pipeline state.  So a group is complete or missing as a whole, its variants share their
programs, and every variant has a key of its own.

## Main results

* `VariantCompiler.attemptFor_variant` — the variant of a word, in terms of the first
  one of its group.
* `AnalyzedShader.Buildable.forall_attempts_iff` — all variants come of a shader exactly if
  no failure is reported.
* `nodup_keys_batch`, `length_filter_batch`, `sharePrograms_batch`, `storable_batch` — what
  the writer asks of variants.
-/

namespace ShaderVariants

namespace AnalyzedShader.Buildable

variable {s : AnalyzedShader} (h : s.Buildable)

include h

/-! ### Words -/

theorem clean (filter : OptionFilter) (base : OptionWord) :
    (VariantSpace.ofOptions s.unit.options filter base).Clean :=
  VariantSpace.clean_ofOptions h.packed.apart_fields

/-- A build goes through all words. -/
theorem perm_buildWords : s.buildWords.Perm s.allVariants.words := by
  unfold buildWords invariantsFor
  rw [h.mask]
  exact perm_groups h.packed

theorem nodup_words : s.allVariants.words.Nodup := VariantSpace.nodup_words (h.clean .all 0)

theorem inRange {w : OptionWord} (hw : w ∈ s.allVariants.words) :
    OptionWord.InRange s.unit.options w := (mem_all_iff h.packed).mp hw

/-- No word is that of an unused entry. -/
theorem word_lt {w : OptionWord} (hw : w ∈ s.allVariants.words) : w < 0xFFFFFFFF := by
  obtain ⟨u, hu, heq⟩ := h.accepted
  have hbound : w < 2 ^ optionBitLimit := by
    refine Nat.lt_pow_two_of_testBit w fun i hi => Bool.eq_false_iff.mpr fun hbit => ?_
    obtain ⟨o, ho, hlo, hhi⟩ := (h.inRange hw).covered i hbit
    have hend : o.offset + o.bitCount ≤ u.optionBits := by
      rw [heq, ShaderUnit.markInvariant] at ho
      have hle := OptionDeclaration.end_le_of_mem_packFrom ho
      rw [ShaderUnit.totalBits_map_mark, Nat.zero_add] at hle
      exact hle
    have := hu.bits
    omega
  exact hbound.trans (by decide)

/-- Clearing the invariant options of a word gives the first word of its group. -/
theorem first_mem {w : OptionWord} (hw : w ∈ s.allVariants.words) :
    w.clear s.info.invarianceMask ∈ s.allVariants.words := by
  refine (mem_all_iff h.packed).mpr ?_
  rw [h.mask]
  exact (h.inRange hw).clear h.packed

end AnalyzedShader.Buildable

/-! ### Attempts -/

namespace VariantCompiler

variable {u : ShaderUnit} {c : VariantCompiler} {w : OptionWord} {base : Variant}
  (h : u.Accepted) (hunit : c.unit = u.markInvariant)
  (hmask : c.info.invarianceMask = invarianceMask c.unit.options)

include h hunit hmask

/-- The first variant of a group has the program key of all of them. -/
theorem programKey_of_first (hw : OptionWord.InRange c.unit.options w)
    (hbase : (c.compileAt (w.clear c.info.invarianceMask) none).variant = some base) :
    c.info.programKey base.key.optionWord = c.info.programKey w := by
  have hpacked : ShaderOption.Packed c.unit.options := hunit ▸ h.packed_options
  have hfirst : OptionWord.InRange c.unit.options (w.clear c.info.invarianceMask) :=
    hmask ▸ hw.clear hpacked
  rw [ShaderInfo.programKey_eq_iff, key_of_compile hbase]
  change (c.wordOf (.ofWord c.unit.options (w.clear c.info.invarianceMask))).clear _ = _
  rw [wordOf_ofWord h hunit hfirst, clear_clear]

/-- **The variant of a word** is the first one of its group with another key and another
pipeline state. -/
theorem attemptFor_variant (hw : OptionWord.InRange c.unit.options w) :
    (c.attemptFor w).variant =
      (c.compileAt (w.clear c.info.invarianceMask) none).variant.map fun base =>
        base.withPipeline { sourceHash := c.info.sourceHash, optionWord := w }
          (c.composePipeline (c.valuation w)) := by
  by_cases hfirst : w.clear c.info.invarianceMask = w
  · -- the first variant has this key and this state already
    rw [attemptFor_first hfirst, hfirst, compileAt_none_variant h hunit hw]
    cases c.code w with
    | none => rfl
    | some code =>
      rw [Option.bind_some, Option.map_map]
      rfl
  · rw [attemptFor_other rfl (Ne.symm hfirst)]
    cases hbase : (c.compileAt (w.clear c.info.invarianceMask) none).variant with
    | none => rfl
    | some base =>
      exact compileAt_some_variant h hunit hw (programKey_of_first h hunit hmask hw hbase)

/-- A failure costs a variant. -/
theorem attemptFor_none_of_failure (hr : c.renderer = render)
    (hw : OptionWord.InRange c.unit.options w)
    (hfailure : hasFailure (c.attemptFor w).diagnostics = true) :
    (c.attemptFor w).variant = none := by
  by_cases hfirst : w.clear c.info.invarianceMask = w
  · rw [attemptFor_first hfirst] at hfailure ⊢
    have hsettled : (c.compileAt w none).Settled := settled_compile hr _
    rw [Attempt.Settled, hfailure] at hsettled
    exact Option.not_isSome_iff_eq_none.mp (Bool.eq_false_iff.mp hsettled)
  · rw [attemptFor_other rfl (Ne.symm hfirst)] at hfailure ⊢
    cases hbase : (c.compileAt (w.clear c.info.invarianceMask) none).variant with
    | none => rfl
    | some base =>
      -- nothing is said about a variant that takes its programs over
      rw [hbase] at hfailure
      dsimp only at hfailure
      rw [diagnostics_compileAt_some h hunit hw
        (programKey_of_first h hunit hmask hw hbase)] at hfailure
      exact absurd hfailure Bool.false_ne_true

/-- A missing variant is due to a failure of the first one of its group. -/
theorem failure_of_attemptFor_none (hr : c.renderer = render)
    (hw : OptionWord.InRange c.unit.options w) (hnone : (c.attemptFor w).variant = none) :
    hasFailure (c.attemptFor (w.clear c.info.invarianceMask)).diagnostics = true := by
  rw [attemptFor_first (clear_clear w _)]
  have hsettled : (c.compileAt (w.clear c.info.invarianceMask) none).Settled := settled_compile hr _
  rw [attemptFor_variant h hunit hmask hw, Option.map_eq_none_iff] at hnone
  rw [Attempt.Settled, hnone] at hsettled
  simpa using hsettled.symm

end VariantCompiler

/-! ### All variants of a shader -/

namespace AnalyzedShader.Buildable

variable {s : AnalyzedShader} (h : s.Buildable) (downstream : Downstream) (showSource : Bool)

include h

/-- The variant of a word is the first one of its group with another key and another pipeline
state. -/
theorem attempt_variant {w : OptionWord} (hw : w ∈ s.allVariants.words) :
    ∃ pipeline, (s.attempt downstream showSource w).variant =
      ((s.compiler downstream showSource).compileAt (w.clear s.info.invarianceMask)
        none).variant.map fun base =>
          base.withPipeline { sourceHash := s.info.sourceHash, optionWord := w } pipeline := by
  obtain ⟨u, hu, hunit⟩ := h.accepted
  exact ⟨_, VariantCompiler.attemptFor_variant (c := s.compiler downstream showSource) hu hunit
    h.mask (h.inRange hw)⟩

theorem key_of_attempt {w : OptionWord} {v : Variant} (hw : w ∈ s.allVariants.words)
    (hv : (s.attempt downstream showSource w).variant = some v) :
    v.key = { sourceHash := s.info.sourceHash, optionWord := w } := by
  obtain ⟨pipeline, heq⟩ := h.attempt_variant downstream showSource hw
  obtain ⟨base, -, rfl⟩ := Option.map_eq_some_iff.mp (heq.symm.trans hv)
  rfl

/-- Variants of one group have the same programs. -/
theorem programs_of_attempt {w w' : OptionWord} {v v' : Variant}
    (hw : w ∈ s.allVariants.words) (hw' : w' ∈ s.allVariants.words)
    (hv : (s.attempt downstream showSource w).variant = some v)
    (hv' : (s.attempt downstream showSource w').variant = some v')
    (hgroup : w.clear s.info.invarianceMask = w'.clear s.info.invarianceMask) :
    v.vertexProgram = v'.vertexProgram ∧ v.fragmentProgram = v'.fragmentProgram := by
  obtain ⟨pipeline, heq⟩ := h.attempt_variant downstream showSource hw
  obtain ⟨pipeline', heq'⟩ := h.attempt_variant downstream showSource hw'
  obtain ⟨base, hbase, rfl⟩ := Option.map_eq_some_iff.mp (heq.symm.trans hv)
  obtain ⟨base', hbase', rfl⟩ := Option.map_eq_some_iff.mp (heq'.symm.trans hv')
  rw [← hgroup, hbase] at hbase'
  obtain rfl := Option.some.inj hbase'
  exact ⟨rfl, rfl⟩

/-- **Nothing is missing exactly if no failure is reported.** -/
theorem forall_attempts_iff :
    (∀ w ∈ s.allVariants.words, ∃ v, (s.attempt downstream showSource w).variant = some v) ↔
      ∀ w ∈ s.allVariants.words,
        hasFailure (s.attempt downstream showSource w).diagnostics = false := by
  obtain ⟨u, hu, hunit⟩ := h.accepted
  constructor
  · intro hall w hw
    obtain ⟨v, hv⟩ := hall w hw
    refine Bool.eq_false_iff.mpr fun hfailure => ?_
    have hnone := VariantCompiler.attemptFor_none_of_failure
      (c := s.compiler downstream showSource) hu hunit h.mask rfl (h.inRange hw) hfailure
    exact Option.some_ne_none v (hv.symm.trans hnone)
  · intro hall w hw
    refine Option.ne_none_iff_exists'.mp fun hnone => ?_
    have hfailure := VariantCompiler.failure_of_attemptFor_none
      (c := s.compiler downstream showSource) hu hunit h.mask rfl (h.inRange hw) hnone
    exact Bool.false_ne_true ((hall _ (h.first_mem hw)).symm.trans hfailure)

end AnalyzedShader.Buildable

/-! ### All variants of a build -/

section Batch

variable (settings : BuildSettings) (downstream : Downstream)
  {shaders : List AnalyzedShader} (h : ∀ s ∈ shaders, s.Buildable)

include h

/-- The variants of a build. -/
theorem mem_builtVariants {v : Variant} :
    v ∈ builtVariants (batchAttempts settings downstream shaders) ↔
      ∃ s ∈ shaders, ∃ w ∈ s.allVariants.words,
        (s.attempt downstream settings.showSource w).variant = some v := by
  unfold builtVariants batchAttempts AnalyzedShader.attempts
  simp only [List.mem_filterMap, List.mem_flatMap, List.mem_map]
  constructor
  · rintro ⟨a, ⟨s, hs, w, hw, rfl⟩, hv⟩
    exact ⟨s, hs, w, (h s hs).perm_buildWords.mem_iff.mp hw, hv⟩
  · rintro ⟨s, hs, w, hw, hv⟩
    exact ⟨_, ⟨s, hs, w, (h s hs).perm_buildWords.mem_iff.mpr hw, rfl⟩, hv⟩

variable (hhashes : (shaders.map (·.info.sourceHash)).Nodup)

include hhashes

/-- **Every variant of a build has a key of its own.** -/
theorem nodup_keys_batch :
    ((builtVariants (batchAttempts settings downstream shaders)).map (·.key)).Nodup := by
  unfold builtVariants batchAttempts AnalyzedShader.attempts
  rw [List.Nodup, List.pairwise_map, List.pairwise_filterMap, List.pairwise_flatMap]
  constructor
  · intro s hs
    rw [List.pairwise_map]
    refine ((h s hs).perm_buildWords.nodup_iff.mpr (h s hs).nodup_words).imp_of_mem ?_
    intro w w' hw hw' hne v hv v' hv' heq
    have hkey := (h s hs).key_of_attempt downstream settings.showSource
      ((h s hs).perm_buildWords.mem_iff.mp hw) hv
    have hkey' := (h s hs).key_of_attempt downstream settings.showSource
      ((h s hs).perm_buildWords.mem_iff.mp hw') hv'
    rw [hkey, hkey'] at heq
    exact hne (congrArg VariantKey.optionWord heq)
  · refine (List.pairwise_map.mp hhashes).imp_of_mem ?_
    intro s s' hs hs' hne a ha a' ha' v hv v' hv' heq
    obtain ⟨w, hw, rfl⟩ := List.mem_map.mp ha
    obtain ⟨w', hw', rfl⟩ := List.mem_map.mp ha'
    have hkey := (h s hs).key_of_attempt downstream settings.showSource
      ((h s hs).perm_buildWords.mem_iff.mp hw) hv
    have hkey' := (h s' hs').key_of_attempt downstream settings.showSource
      ((h s' hs').perm_buildWords.mem_iff.mp hw') hv'
    rw [hkey, hkey'] at heq
    exact hne (congrArg VariantKey.sourceHash heq)

/-- The variants with the checksum of a shader come of its words. -/
theorem exists_word_of_builtVariants {s : AnalyzedShader} (hs : s ∈ shaders) {v : Variant}
    (hv : v ∈ builtVariants (batchAttempts settings downstream shaders))
    (hhash : v.key.sourceHash = s.info.sourceHash) : ∃ w ∈ s.allVariants.words,
      v.key.optionWord = w ∧ (s.attempt downstream settings.showSource w).variant = some v := by
  obtain ⟨s', hs', w, hw, hattempt⟩ := (mem_builtVariants settings downstream h).mp hv
  have hkey := (h s' hs').key_of_attempt downstream settings.showSource hw hattempt
  have hsame : s'.info.sourceHash = s.info.sourceHash := by
    rw [← hhash, hkey]
  obtain rfl := List.inj_on_of_nodup_map hhashes hs' hs hsame
  exact ⟨w, hw, congrArg VariantKey.optionWord hkey, hattempt⟩

/-- **The reserved entries suffice.** -/
theorem length_filter_batch {s : AnalyzedShader} (hs : s ∈ shaders) :
    ((builtVariants (batchAttempts settings downstream shaders)).filter
      (·.key.sourceHash = s.info.sourceHash)).length ≤ s.allVariants.size := by
  have hnodup : (((builtVariants (batchAttempts settings downstream shaders)).filter
      (·.key.sourceHash = s.info.sourceHash)).map (·.key.optionWord)).Nodup := by
    refine List.pairwise_map.mpr (((List.pairwise_map.mp
      (nodup_keys_batch settings downstream h hhashes)).filter _).imp_of_mem ?_)
    intro v u hv hu hne hword
    have hvhash := of_decide_eq_true (List.mem_filter.mp hv).2
    have huhash := of_decide_eq_true (List.mem_filter.mp hu).2
    exact hne (VariantKey.eq_of_halves (hvhash.trans huhash.symm) hword)
  have hsubset : ((builtVariants (batchAttempts settings downstream shaders)).filter
      (·.key.sourceHash = s.info.sourceHash)).map (·.key.optionWord) ⊆ s.allVariants.words := by
    intro w hw
    obtain ⟨v, hv, rfl⟩ := List.mem_map.mp hw
    obtain ⟨hbuilt, hhash⟩ := List.mem_filter.mp hv
    obtain ⟨w, hw, hword, -⟩ := exists_word_of_builtVariants settings downstream h hhashes hs
      hbuilt (of_decide_eq_true hhash)
    exact hword ▸ hw
  have hlength := (hnodup.subperm hsubset).length_le
  rwa [List.length_map, VariantSpace.length_words] at hlength

/-- **Variants with the same program key have the same programs.** -/
theorem sharePrograms_batch : SharePrograms (batchEntries settings shaders)
    (builtVariants (batchAttempts settings downstream shaders)) := by
  intro v hv u hu hsame
  obtain ⟨s, hs, w, hw, hattempt⟩ := (mem_builtVariants settings downstream h).mp hv
  have hvkey := (h s hs).key_of_attempt downstream settings.showSource hw hattempt
  have huhash : u.key.sourceHash = s.info.sourceHash := by
    rw [← hsame.sourceHash_eq, hvkey]
  obtain ⟨w', hw', huword, hattempt'⟩ :=
    exists_word_of_builtVariants settings downstream h hhashes hs hu huhash
  -- both keys are made with the mask of the shader that the variants belong to
  have hmask : ∀ {x : Variant} {key : VariantKey}, x.key.sourceHash = s.info.sourceHash →
      HasProgramKey (batchEntries settings shaders) x key →
      s.info.programKey x.key.optionWord = key := by
    rintro x key hx ⟨e, he, hhash, rfl⟩
    obtain ⟨t, ht, rfl⟩ := List.mem_map.mp he
    obtain rfl := List.inj_on_of_nodup_map hhashes ht hs (hhash.trans hx)
    rfl
  obtain ⟨key, hvprogram, huprogram⟩ := hsame
  have hprogram := (hmask (by rw [hvkey]) hvprogram).trans (hmask huhash huprogram).symm
  rw [ShaderInfo.programKey_eq_iff, hvkey, huword] at hprogram
  exact (h s hs).programs_of_attempt downstream settings.showSource hw hw' hattempt hattempt'
    hprogram

omit h in
theorem nodup_batchEntries :
    ((batchEntries settings shaders).map (·.info.sourceHash)).Nodup := by
  unfold batchEntries
  rw [List.map_map]
  exact hhashes

/-- What the writer asks of the variants of shaders. -/
theorem storable_batch (hheader : HeaderFits (batchEntries settings shaders)) :
    Storable (batchEntries settings shaders)
      (builtVariants (batchAttempts settings downstream shaders)) where
  toHeaderFits := hheader
  hashes := nodup_batchEntries settings hhashes
  keys := nodup_keys_batch settings downstream h hhashes
  words := by
    intro v hv
    obtain ⟨s, hs, w, hw, hattempt⟩ := (mem_builtVariants settings downstream h).mp hv
    rw [(h s hs).key_of_attempt downstream settings.showSource hw hattempt]
    exact (h s hs).word_lt hw
  programs := sharePrograms_batch settings downstream h hhashes

end Batch

end ShaderVariants
