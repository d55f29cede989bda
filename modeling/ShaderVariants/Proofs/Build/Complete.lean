import Mathlib
import ShaderVariants.Proofs.Build.Variants
import ShaderVariants.Proofs.Container.Capacity
import ShaderVariants.Proofs.Container.RoundTrip

/-!
# Builds are complete

A build of shaders with distinct checksums either stores the variants of all of them, or
leaves no file.  It succeeds exactly if no failure is reported, and its file then holds what
was compiled for every word of every shader, under exactly the keys of these words.

## Main definitions

* `BuildFits` — what a build stores fits into a file.
* `Faultless` — nothing is reported that makes a build fail.
* `SetFile.HoldsAll` — a file holds all variants of a shader.
* `BuildResult.Completes` — what comes of a build.

## Main results

* `build_eq` — the result of a build in terms of one run of the writer.
* `build_completes` — **builds are complete.**
-/

namespace ShaderVariants

/-! ### What a file holds -/

/-- Whatever was looked up before, the key leads to the variant. -/
def SetFile.Finds (f : SetFile) (key : VariantKey) (v : Variant) : Prop :=
  ∀ number o, OpenFile.Reachable f number o →
    ∃ s l, ({ own := o } : LookupSet).tryGet key = (s, .ok (some l)) ∧ l.variant = v

/-- The file holds a variant for every word of the shader, and no other variants of it. -/
structure SetFile.HoldsAll (f : SetFile) (s : AnalyzedShader)
    (variantOf : OptionWord → Option Variant) : Prop where
  keys : ∀ number o, OpenFile.Reachable f number o → o.keysOf s.info.sourceHash =
    s.allVariants.words.map fun w => { sourceHash := s.info.sourceHash, optionWord := w }
  variants : ∀ w ∈ s.allVariants.words, ∃ v, variantOf w = some v ∧
    f.Finds { sourceHash := s.info.sourceHash, optionWord := w } v

namespace Writer.Wrote

variable {shaders : List ShaderEntry} {variants : List Variant} {w : Writer}

/-- Every written variant is found under its key. -/
theorem finds (hw : w.Wrote shaders variants) (hst : Storable shaders variants) {v : Variant}
    (hv : v ∈ variants) : w.file.Finds v.key v := by
  intro number o ho
  obtain ⟨l, o', hload, hvariant, -⟩ :=
    (OpenFile.Coherent.of_reachable hw hst ho).load_of_mem hw hst hv
  exact ⟨{ own := o' }, l, LookupSet.tryGet_of_load hload, hvariant⟩

/-- A file with a variant for every word of a shader holds all its variants. -/
theorem holdsAll (hw : w.Wrote shaders variants) (hst : Storable shaders variants)
    {s : AnalyzedShader} (hs : s.Buildable) {variantOf : OptionWord → Option Variant}
    (hall : ∀ x ∈ s.allVariants.words, ∃ v ∈ variants, variantOf x = some v ∧
      v.key = { sourceHash := s.info.sourceHash, optionWord := x })
    (honly : ∀ v ∈ variants, v.key.sourceHash = s.info.sourceHash →
      v.key.optionWord ∈ s.allVariants.words) : w.file.HoldsAll s variantOf where
  keys := by
    intro number o ho
    have hcoherent := OpenFile.Coherent.of_reachable hw hst ho
    have hascending := hcoherent.pairwise_keysOf hw hst s.info.sourceHash
    have hwords : (s.allVariants.words.map fun x =>
        ({ sourceHash := s.info.sourceHash, optionWord := x } : VariantKey)).Pairwise
        (·.optionWord < ·.optionWord) :=
      List.pairwise_map.mpr (VariantSpace.pairwise_words (hs.clean .all 0))
    -- both lists ascend, so it is enough that they have the same members
    refine eq_of_ascending hascending hwords fun key => ?_
    rw [hcoherent.mem_keysOf hw hst, List.mem_map, List.mem_map]
    constructor
    · rintro ⟨⟨v, hv, rfl⟩, hhash⟩
      exact ⟨_, honly v hv hhash, VariantKey.eq_of_halves hhash.symm rfl⟩
    · rintro ⟨x, hx, rfl⟩
      obtain ⟨v, hv, -, hkey⟩ := hall x hx
      exact ⟨⟨v, hv, hkey⟩, rfl⟩
  variants := by
    intro x hx
    obtain ⟨v, hv, hvariant, hkey⟩ := hall x hx
    exact ⟨v, hvariant, hkey ▸ hw.finds hst hv⟩

end Writer.Wrote

/-! ### The result of a build -/

/-- A source with the results of its analysis. -/
def ShaderSource.analyzed (s : ShaderSource) : AnalyzedShader := analyze s.name s.source s.unit

/-- The shaders whose variants are compiled. -/
def soundShaders (sources : List ShaderSource) : List AnalyzedShader :=
  (sources.map (·.analyzed)).filter (·.isSound)

theorem buildable_of_mem {sources : List ShaderSource} :
    ∀ s ∈ soundShaders sources, s.Buildable := by
  intro s hs
  obtain ⟨hmem, hsound⟩ := List.mem_filter.mp hs
  obtain ⟨t, -, rfl⟩ := List.mem_map.mp hmem
  exact .of_isSound hsound

theorem nodup_soundShaders {sources : List ShaderSource}
    (hhashes : (sources.map fun s => sourceChecksum s.source).Nodup) :
    ((soundShaders sources).map (·.info.sourceHash)).Nodup := by
  have hall : (sources.map (·.analyzed)).map (·.info.sourceHash) =
      sources.map fun s => sourceChecksum s.source := by
    rw [List.map_map]
    rfl
  rw [← hall] at hhashes
  exact hhashes.sublist (List.filter_sublist.map _)

section Result

variable (settings : BuildSettings) (downstream : Downstream) (sources : List ShaderSource)

/-- Everything a build of the sources attempts. -/
def buildAttempts : List Attempt := batchAttempts settings downstream (soundShaders sources)

/-- The file of the build, unless it cannot be written. -/
def buildFile : Except WriteError (List UInt8) :=
  (Writer.run (batchEntries settings (soundShaders sources))
    (builtVariants (buildAttempts settings downstream sources))).bind (·.finish)

variable {settings downstream sources} in
theorem exists_writer_of_buildFile {file : List UInt8}
    (h : buildFile settings downstream sources = .ok file) : ∃ w,
    Writer.run (batchEntries settings (soundShaders sources))
      (builtVariants (buildAttempts settings downstream sources)) = .ok w ∧
      w.finish = .ok file := by
  unfold buildFile at h
  cases hrun : Writer.run (batchEntries settings (soundShaders sources))
      (builtVariants (buildAttempts settings downstream sources)) with
  | error e =>
    rw [hrun] at h
    cases h
  | ok w =>
    rw [hrun] at h
    exact ⟨w, rfl, h⟩

/-- Everything that is said about the sources and their variants. -/
def buildDiagnostics : List Diagnostic :=
  sources.flatMap (·.analyzed.diagnostics) ++
    allDiagnostics (buildAttempts settings downstream sources)

/-- What is done for all sound sources. -/
def buildSummary : Summary where
  shaders := (soundShaders sources).length
  compiled := ((soundShaders sources).map (·.programVariants.size)).sum
  assembled := (builtVariants (buildAttempts settings downstream sources)).length

/-- **The result of a build**: the file of one run of the writer, unless there are failures. -/
theorem build_eq : build settings downstream true sources =
    match buildFile settings downstream sources with
    | .error e =>
      { outcome := .error (.cannotWrite e)
        diagnostics := sources.flatMap (·.analyzed.diagnostics)
        file := none }
    | .ok file =>
      if hasFailure (buildDiagnostics settings downstream sources) then
        { outcome := .error (.compilationFailed
            (failureCount (buildDiagnostics settings downstream sources))
            (buildSummary settings downstream sources))
          diagnostics := buildDiagnostics settings downstream sources
          file := none }
      else
        { outcome := .ok (buildSummary settings downstream sources)
          diagnostics := buildDiagnostics settings downstream sources
          file := some file } := by
  have hanalysis : (sources.map fun s => analyze s.name s.source s.unit).flatMap (·.diagnostics) =
      sources.flatMap (·.analyzed.diagnostics) := by
    rw [List.flatMap_map]
    rfl
  have hsound : (sources.map fun s => analyze s.name s.source s.unit).filter (·.isSound) =
      soundShaders sources := rfl
  unfold build
  simp only [if_true, hanalysis, hsound]
  rw [runBuild_eq settings downstream buildable_of_mem]
  unfold buildFile buildDiagnostics buildSummary buildAttempts
  cases Writer.run (batchEntries settings (soundShaders sources))
      (builtVariants (batchAttempts settings downstream (soundShaders sources))) with
  | error e => rfl
  | ok w =>
    simp only [Except.bind]
    cases w.finish <;> rfl

/-! ### Failures -/

/-- Nothing is reported that makes a build fail, neither about a source nor about any of its
variants. -/
def Faultless : Prop := ∀ s ∈ sources, s.analyzed.isSound = true ∧
  ∀ w ∈ s.analyzed.allVariants.words,
    hasFailure (s.analyzed.attempt downstream settings.showSource w).diagnostics = false

variable {sources}

theorem soundShaders_eq (h : ∀ s ∈ sources, s.analyzed.isSound = true) :
    soundShaders sources = sources.map (·.analyzed) :=
  List.filter_eq_self.mpr fun _ ht => by
    obtain ⟨s, hs, rfl⟩ := List.mem_map.mp ht
    exact h s hs

/-- **Without failures nothing was wrong** with any source or variant. -/
theorem hasFailure_buildDiagnostics :
    hasFailure (buildDiagnostics settings downstream sources) = false ↔
      Faultless settings downstream sources := by
  have hanalysis : hasFailure (sources.flatMap (·.analyzed.diagnostics)) = false ↔
      ∀ s ∈ sources, s.analyzed.isSound = true := by
    rw [hasFailure_flatMap, List.any_eq_false]
    exact forall₂_congr fun s _ => by rw [AnalyzedShader.isSound, Bool.not_eq_true']; simp
  have hattempts : hasFailure (allDiagnostics (buildAttempts settings downstream sources)) = false
      ↔ ∀ s ∈ soundShaders sources, ∀ w ∈ s.allVariants.words,
        hasFailure (s.attempt downstream settings.showSource w).diagnostics = false := by
    unfold allDiagnostics buildAttempts batchAttempts AnalyzedShader.attempts
    simp only [hasFailure_flatMap, List.any_eq_false, List.any_flatMap, List.mem_map,
      Bool.not_eq_true, forall_exists_index, and_imp, forall_apply_eq_imp_iff₂]
    refine forall₂_congr fun s hs => forall_congr' fun w => ?_
    rw [(buildable_of_mem s hs).perm_buildWords.mem_iff]
  unfold buildDiagnostics Faultless
  rw [hasFailure_append, Bool.or_eq_false_iff, hanalysis, hattempts]
  constructor
  · rintro ⟨hsound, hall⟩ s hs
    rw [soundShaders_eq hsound] at hall
    exact ⟨hsound s hs, hall _ (List.mem_map_of_mem hs)⟩
  · intro h
    refine ⟨fun s hs => (h s hs).1, fun t ht => ?_⟩
    obtain ⟨s, hs, rfl⟩ := List.mem_map.mp (List.mem_filter.mp ht).1
    exact (h s hs).2

theorem isSome_of_faultless (h : Faultless settings downstream sources) {s : ShaderSource}
    (hs : s ∈ sources) {w : OptionWord} (hw : w ∈ s.analyzed.allVariants.words) :
    ∃ v, (s.analyzed.attempt downstream settings.showSource w).variant = some v := by
  obtain ⟨hsound, hfaultless⟩ := h s hs
  have hbuildable : s.analyzed.Buildable := .of_isSound hsound
  exact (hbuildable.forall_attempts_iff downstream settings.showSource).mpr hfaultless w hw

/-- All variants of a shader are attempted. -/
theorem length_builtVariants (h : Faultless settings downstream sources) {s : ShaderSource}
    (hs : s ∈ sources) :
    (builtVariants (s.analyzed.attempts downstream settings.showSource)).length =
      s.analyzed.allVariants.size := by
  have hbuildable : s.analyzed.Buildable := .of_isSound (h s hs).1
  have hall : ∀ a ∈ s.analyzed.attempts downstream settings.showSource, a.variant.isSome := by
    intro a ha
    obtain ⟨w, hw, rfl⟩ := List.mem_map.mp ha
    obtain ⟨v, hv⟩ := isSome_of_faultless settings downstream h hs
      (hbuildable.perm_buildWords.mem_iff.mp hw)
    rw [hv, Option.isSome_some]
  rw [builtVariants, List.filterMap_length_eq_length.mpr hall, AnalyzedShader.attempts,
    List.length_map, hbuildable.perm_buildWords.length_eq, VariantSpace.length_words]

/-- Without failures everything is counted. -/
theorem buildSummary_eq (h : Faultless settings downstream sources) :
    buildSummary settings downstream sources =
      { shaders := sources.length
        compiled := (sources.map (·.analyzed.programVariants.size)).sum
        assembled := (sources.map (·.analyzed.allVariants.size)).sum } := by
  have hshaders := soundShaders_eq fun s hs => (h s hs).1
  have hassembled : (builtVariants (buildAttempts settings downstream sources)).length =
      (sources.map (·.analyzed.allVariants.size)).sum := by
    unfold buildAttempts batchAttempts builtVariants
    rw [hshaders, List.flatMap_map, List.filterMap_flatMap, List.length_flatMap]
    exact congrArg List.sum (List.map_congr_left fun s hs =>
      length_builtVariants settings downstream h hs)
  unfold buildSummary
  rw [hassembled, hshaders, List.length_map, List.map_map]
  rfl

/-! ### The file -/

/-- What a build stores fits into a file: all lengths fit their places, and the body ends
below 4 GiB. -/
def BuildFits (sources : List ShaderSource) : Prop :=
  FileFits (batchEntries settings (soundShaders sources))
    (builtVariants (buildAttempts settings downstream sources))

/-- What is required of the result of a build whose file has room for everything. -/
structure BuildResult.Completes (r : BuildResult) (settings : BuildSettings)
    (downstream : Downstream) (sources : List ShaderSource) : Prop where
  diagnostics : r.diagnostics = buildDiagnostics settings downstream sources
  ok_iff : (∃ summary, r.outcome = .ok summary) ↔ Faultless settings downstream sources
  success : ∀ summary, r.outcome = .ok summary →
    summary = { shaders := sources.length
                compiled := (sources.map (·.analyzed.programVariants.size)).sum
                assembled := (sources.map (·.analyzed.allVariants.size)).sum } ∧
    ∃ file f, r.file = some file ∧ SetFile.ofBytes file = .ok f ∧ ∀ s ∈ sources,
      f.HoldsAll s.analyzed fun w =>
        (s.analyzed.attempt downstream settings.showSource w).variant
  failure : ∀ e, r.outcome = .error e → r.file = none ∧
    ∃ summary, e = .compilationFailed (failureCount r.diagnostics) summary

variable (hhashes : (sources.map fun s => sourceChecksum s.source).Nodup)

include hhashes

/-- There is an entry for every variant of a build. -/
theorem reserves_build : Writer.Reserves (batchEntries settings (soundShaders sources)) []
    (builtVariants (buildAttempts settings downstream sources)) := by
  intro v hv
  obtain ⟨s, hs, w, hw, hattempt⟩ :=
    (mem_builtVariants settings downstream buildable_of_mem).mp hv
  have hhash : s.info.sourceHash = v.key.sourceHash := by
    rw [(buildable_of_mem s hs).key_of_attempt downstream settings.showSource hw hattempt]
  refine ⟨s.entry settings.embedSource, (find?_key_iff (nodup_batchEntries settings
    (nodup_soundShaders hhashes))).mpr ⟨List.mem_map_of_mem hs, hhash⟩, ?_⟩
  rw [List.filter_nil, List.length_nil, Nat.zero_add, ← hhash]
  exact length_filter_batch settings downstream buildable_of_mem (nodup_soundShaders hhashes) hs

/-- What the writer asks of the variants of a build. -/
theorem storable_build (hheader : HeaderFits (batchEntries settings (soundShaders sources))) :
    Storable (batchEntries settings (soundShaders sources))
      (builtVariants (buildAttempts settings downstream sources)) :=
  storable_batch settings downstream buildable_of_mem (nodup_soundShaders hhashes) hheader

/-- **A build stores everything that fits.** -/
theorem buildFile_ok (hfits : BuildFits settings downstream sources) :
    ∃ (w : Writer) (file : List UInt8),
    buildFile settings downstream sources = .ok file ∧ SetFile.ofBytes file = .ok w.file ∧
      w.Wrote (batchEntries settings (soundShaders sources))
        (builtVariants (buildAttempts settings downstream sources)) := by
  have hst := storable_build settings downstream hhashes hfits.toHeaderFits
  obtain ⟨w, hw⟩ := Writer.run_ok hfits (reserves_build settings downstream hhashes)
  have hwrote := Writer.wrote_run hst.hashes hw
  obtain ⟨file, hfinish, hopen⟩ :=
    Writer.ofBytes_finish hwrote hst.toHeaderFits hst.word_lt_limit
  refine ⟨w, file, ?_, hopen, hwrote⟩
  unfold buildFile
  rw [hw]
  exact hfinish

/-- Nothing but a limit of the file keeps a build from writing it. -/
theorem isLimit_of_buildFile {e : WriteError}
    (he : buildFile settings downstream sources = .error e) : e.IsLimit := by
  unfold buildFile at he
  cases hrun : Writer.run (batchEntries settings (soundShaders sources))
      (builtVariants (buildAttempts settings downstream sources)) with
  | error e' =>
    rw [hrun] at he
    obtain rfl := Except.error.inj he
    exact Writer.run_error (reserves_build settings downstream hhashes) hrun
  | ok w =>
    rw [hrun] at he
    exact Writer.finish_error he

/-- Without failures, the file of a build holds the variants of every shader. -/
theorem holdsAll_build (hfits : HeaderFits (batchEntries settings (soundShaders sources)))
    (h : Faultless settings downstream sources) {w : Writer}
    (hwrote : w.Wrote (batchEntries settings (soundShaders sources))
      (builtVariants (buildAttempts settings downstream sources)))
    {s : ShaderSource} (hs : s ∈ sources) : w.file.HoldsAll s.analyzed fun x =>
      (s.analyzed.attempt downstream settings.showSource x).variant := by
  have hst := storable_build settings downstream hhashes hfits
  have hmem : s.analyzed ∈ soundShaders sources := by
    rw [soundShaders_eq fun s hs => (h s hs).1]
    exact List.mem_map_of_mem hs
  refine hwrote.holdsAll hst (buildable_of_mem _ hmem) (fun x hx => ?_) fun v hv hhash => ?_
  · obtain ⟨v, hv⟩ := isSome_of_faultless settings downstream h hs hx
    have hbuilt := (mem_builtVariants settings downstream buildable_of_mem).mpr
      ⟨_, hmem, x, hx, hv⟩
    exact ⟨v, hbuilt, hv,
      (buildable_of_mem _ hmem).key_of_attempt downstream settings.showSource hx hv⟩
  · obtain ⟨x, hx, hword, -⟩ := exists_word_of_builtVariants settings downstream
      buildable_of_mem (nodup_soundShaders hhashes) hmem hv hhash
    exact hword ▸ hx

/-- **A build whose variants fit into a file** is complete or leaves none. -/
theorem completes_of_fits (hfits : BuildFits settings downstream sources) :
    (build settings downstream true sources).Completes settings downstream sources := by
  obtain ⟨w, file, hfile, hopen, hwrote⟩ := buildFile_ok settings downstream hhashes hfits
  rw [build_eq, hfile]
  dsimp only
  by_cases hfailure : hasFailure (buildDiagnostics settings downstream sources) = true
  · rw [if_pos hfailure]
    refine ⟨rfl, iff_of_false (fun h => ?_) fun h => ?_, fun _ h => ?_, fun e he => ⟨rfl, ?_⟩⟩
    · obtain ⟨summary, h⟩ := h
      cases h
    · rw [(hasFailure_buildDiagnostics settings downstream).mpr h] at hfailure
      cases hfailure
    · cases h
    · exact ⟨_, (Except.error.inj he).symm⟩
  · rw [if_neg hfailure]
    have hfaultless : Faultless settings downstream sources :=
      (hasFailure_buildDiagnostics settings downstream).mp (Bool.eq_false_iff.mpr hfailure)
    refine ⟨rfl, iff_of_true ⟨_, rfl⟩ hfaultless, fun summary hsummary => ⟨?_, ?_⟩,
      fun e he => nomatch he⟩
    · rw [← Except.ok.inj hsummary]
      exact buildSummary_eq settings downstream hfaultless
    · exact ⟨file, w.file, rfl, hopen, fun s hs =>
        holdsAll_build settings downstream hhashes hfits.toHeaderFits hfaultless hwrote hs⟩

/-- **Builds are complete.**  For shaders with distinct checksums: nothing but a limit of the
file keeps a build from writing it, so entries never run out; and a build whose variants fit
into a file is complete or leaves none. -/
theorem build_completes :
    (∀ e, (build settings downstream true sources).outcome = .error (.cannotWrite e) →
      e.IsLimit) ∧
    (BuildFits settings downstream sources →
      (build settings downstream true sources).Completes settings downstream sources) := by
  refine ⟨fun e he => ?_, completes_of_fits settings downstream hhashes⟩
  rw [build_eq] at he
  cases hfile : buildFile settings downstream sources with
  | ok file =>
    rw [hfile] at he
    dsimp only at he
    split_ifs at he
    cases Except.error.inj he
  | error e' =>
    rw [hfile] at he
    obtain rfl := BuildError.cannotWrite.inj (Except.error.inj he)
    exact isLimit_of_buildFile settings downstream hhashes hfile

end Result

/-- A pane with and without blending, and the frame around it. -/
def windowSources : List ShaderSource :=
  [{ name := "glass.shader", source := "glass", unit := VariantCompiler.glassShader },
   { name := "frame.shader", source := "frame"
     unit := { blocks := [.stage { stage := .vertex }, .stage { stage := .fragment }] } }]

set_option maxRecDepth 10000 in
/-- The three variants of pane and frame are compiled on two pairs of programs. -/
theorem windowSources_complete :
    (windowSources.map fun s => sourceChecksum s.source).Nodup ∧
    BuildFits {} keepSource windowSources ∧
    (build {} keepSource true windowSources).outcome = .ok ⟨2, 2, 3⟩ := by
  have hhashes : (windowSources.map fun s => sourceChecksum s.source).Nodup := by decide
  have hfits : BuildFits {} keepSource windowSources :=
    ⟨⟨by decide +kernel, by decide +kernel, by decide +kernel⟩, by decide +kernel,
      by decide +kernel, by decide +kernel⟩
  refine ⟨hhashes, hfits, ?_⟩
  have hcompletes := (build_completes {} keepSource hhashes).2 hfits
  have hfailures : hasFailure (buildDiagnostics {} keepSource windowSources) = false := by
    decide +kernel
  obtain ⟨summary, hsummary⟩ :=
    hcompletes.ok_iff.mpr ((hasFailure_buildDiagnostics {} keepSource).mp hfailures)
  rw [hsummary, (hcompletes.success summary hsummary).1]
  decide +kernel

end ShaderVariants
